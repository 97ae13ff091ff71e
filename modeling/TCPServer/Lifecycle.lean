/-
  A `TcpServer` object from its construction to its destruction (tcp_server.h,
  tcp_server.cpp): `start`, `close`, the destructor and the remover threads.

  `TcpServer` is the `Server` of the other modules with the members that starting and closing
  use, the remover threads, and what was done with descriptors. A call is one step, taken when
  it comes back: joining the remover thread ends it, and `close()` does not come back while a
  client it joins is connected. One round of a remover's loop over the dead clients is one
  step, and so is the end of its thread, which needs the stop flag. `socket` and `accept` return
  descriptors that are not open, `accept` only on a listening socket. A descriptor that was
  passed to `::close` is gone, also if the call returned -1.

  `history` lists the calls of `start` and `close()`; `socketOpen` and `halfClosed` say what
  the calls so far have done. No function reads them.
-/
import TCPServer.Lib.Handles
import TCPServer.Machine

namespace TCPServer

open Handles Runs

/-- A call of `start` or `close()`, and whether it reported success. -/
inductive ServerCall where
  | start (removeDeadClientsAutomatically successFlag : Bool)
  | close (successFlag : Bool)
  deriving DecidableEq, Repr

structure TcpServer where
  server : Server
  /-- `_clientsRemoverThread`: the number of the thread it points to. -/
  clientsRemoverThread : Option ℕ
  /-- `_stopRemoveClientsTask` -/
  stop : Bool
  /-- For each remover thread that was started: it is in its loop. -/
  removers : List Bool
  /-- The socket that `_sockfd` is set to listens. -/
  listening : Bool
  /-- What `socket`, `accept` and `::close` did, the last call first. -/
  descriptors : List (Event ℤ)
  history : List ServerCall
  /-- The last call of `socket` succeeded, and `close()` has not passed its descriptor to
      `::close`. -/
  socketOpen : Bool
  /-- A call of `close()` failed at a client. -/
  halfClosed : Bool
  /-- The object was destroyed, or the process has ended. -/
  gone : Bool

/-- `TcpServer::TcpServer`. -/
def TcpServer.init : TcpServer where
  server := .init 0
  clientsRemoverThread := none
  stop := false
  removers := []
  listening := false
  descriptors := []
  history := []
  socketOpen := false
  halfClosed := false
  gone := false

/-! ## Starting -/

/-- How far the set-up of the socket in `start` gets, and the descriptor from `socket`. -/
inductive SetUp where
  | socketFailed (strerror : String)
  | bindFailed (fileDescriptor : ℤ) (strerror : String)
  | listenFailed (fileDescriptor : ℤ) (strerror : String)
  | listens (fileDescriptor : ℤ)
  deriving DecidableEq, Repr

/-- What `socket` returned, if it succeeded. -/
def SetUp.fileDescriptor : SetUp → Option ℤ
  | .socketFailed _ => none
  | .bindFailed fd _ => some fd
  | .listenFailed fd _ => some fd
  | .listens fd => some fd

/-- The text of the exception, if there is one. -/
def SetUp.error : SetUp → Option String
  | .socketFailed strerror => some strerror
  | .bindFailed _ strerror => some strerror
  | .listenFailed _ strerror => some strerror
  | .listens _ => none

/-- `_clientsRemoverThread = new std::thread(&TcpServer::removeDeadClients, this)`. -/
def TcpServer.startRemover (s : TcpServer) : TcpServer :=
  { s with clientsRemoverThread := some s.removers.length, removers := s.removers ++ [true] }

/-- `TcpServer::initializeSocket`. -/
def TcpServer.initializeSocket (s : TcpServer) : Option ℤ → TcpServer
  | some fd =>
    { s with
      server := { s.server with sockfd := fd }
      descriptors := .acquired fd :: s.descriptors
      socketOpen := true }
  | none => { s with server := { s.server with sockfd := -1 }, socketOpen := false }

/-- `TcpServer::start`. -/
def TcpServer.start (s : TcpServer) (removeDeadClientsAutomatically : Bool) (setUp : SetUp) :
    PipeRet × TcpServer :=
  let s := if removeDeadClientsAutomatically then s.startRemover else s
  let s := s.initializeSocket setUp.fileDescriptor
  match setUp.error with
  | some strerror => (.failure strerror, { s with listening := false })
  | none => (.success "", { s with listening := true })

/-! ## Closing -/

/-- `TcpServer::terminateDeadClientsRemover`. -/
def TcpServer.terminateDeadClientsRemover (s : TcpServer) : TcpServer :=
  match s.clientsRemoverThread with
  | some t =>
    { s with stop := true, removers := s.removers.set t false, clientsRemoverThread := none }
  | none => s

/-- `::close` of a descriptor. -/
def TcpServer.closeDescriptor (s : TcpServer) (fd : ℤ) (r : CloseResult) : TcpServer :=
  { s with descriptors := .released fd (decide (r.ret ≠ -1)) :: s.descriptors }

/-- The loop of `close()` over the clients from position `i` on, with what each `::close`
    returns. Joining the receive thread of a connected client does not come back. -/
def TcpServer.closeClients (results : ℕ → CloseResult) :
    ℕ → List ClientPtr → TcpServer → Exec (PipeRet × TcpServer)
  | _, [], s => pure (.success "", s)
  | i, client :: clients, s => do
    let c ← s.server.object client
    if c.isConnected then .error .spins
    else
      let s := s.closeDescriptor c.sockfd (results i)
      let closeFailed := decide ((results i).ret = -1)
      if closeFailed then
        pure (.failure (results i).strerror, { s with halfClosed := true })
      else s.closeClients results (i + 1) clients

/-- `::close(_sockfd.get())` in `close()`. -/
def TcpServer.closeSocket (s : TcpServer) (r : CloseResult) : PipeRet × TcpServer :=
  let s := s.closeDescriptor s.server.sockfd r
  let s := { s with listening := false, socketOpen := false }
  let closeServerFailed := decide (r.ret = -1)
  if closeServerFailed then (.failure r.strerror, s) else (.success "", s)

/-- `TcpServer::close`, with what `::close` returns for the clients and for the socket. -/
def TcpServer.close (s : TcpServer) (results : ℕ → CloseResult) (r : CloseResult) :
    Exec (PipeRet × TcpServer) := do
  let s := s.terminateDeadClientsRemover
  let (closing, s) ← s.closeClients results 0 s.server.clients
  if closing.successFlag then
    let s := { s with server := { s.server with clients := [] } }
    pure (s.closeSocket r)
  else pure (closing, s)

/-! ## Runs -/

inductive TcpServer.Label where
  | start (removeDeadClientsAutomatically : Bool) (setUp : SetUp)
  | acceptClient (fileDescriptor : ℤ) (ip : String)
  | disconnect (client : ClientPtr)
  /-- A remover thread closes the first dead client. -/
  | remove (r : CloseResult)
  /-- A remover thread leaves its loop. -/
  | leave (t : ℕ)
  | close (results : ℕ → CloseResult) (r : CloseResult)
  /-- `TcpServer::~TcpServer`. -/
  | destroy (results : ℕ → CloseResult) (r : CloseResult)

/-- The first client that is not connected. -/
def Server.clientToRemove (s : Server) : ℕ := s.clients.findIdx fun o => !s.isConnected o

/-- The descriptor is not open. -/
def TcpServer.Fresh (s : TcpServer) (fd : ℤ) : Prop := 0 ≤ fd ∧ held s.descriptors fd = false

/-- What can happen to a server, as long as it is there. -/
inductive TcpServer.Move (s : TcpServer) : TcpServer.Label → TcpServer → Prop
  | start (removeDeadClientsAutomatically : Bool) (setUp : SetUp)
      (hfd : ∀ fd, setUp.fileDescriptor = some fd → s.Fresh fd) :
      s.Move (.start removeDeadClientsAutomatically setUp)
        { (s.start removeDeadClientsAutomatically setUp).2 with
          history := s.history ++ [.start removeDeadClientsAutomatically
            (s.start removeDeadClientsAutomatically setUp).1.successFlag] }
  | acceptClient (fd : ℤ) (ip : String) : s.listening = true → s.Fresh fd →
      s.Move (.acceptClient fd ip)
        { s with server := s.server.addClient fd ip, descriptors := .acquired fd :: s.descriptors }
  | disconnect (client : ClientPtr) :
      s.Move (.disconnect client) { s with server := s.server.disconnect client }
  | removes {o : ClientPtr} {c : Client} (r : CloseResult) : true ∈ s.removers →
      s.server.clients[s.server.clientToRemove]? = some o → s.server.object o = .ok c →
      r.ret ≠ -1 →
      s.Move (.remove r)
        { s.closeDescriptor c.sockfd r with
          server := s.server.erase s.server.clientToRemove o c.sockfd }
  /-- The exception of `Client::close` leaves the thread. -/
  | throws {o : ClientPtr} {c : Client} (r : CloseResult) : true ∈ s.removers →
      s.server.clients[s.server.clientToRemove]? = some o → s.server.object o = .ok c →
      r.ret = -1 → s.Move (.remove r) { s.closeDescriptor c.sockfd r with gone := true }
  | leaves (t : ℕ) : s.removers[t]? = some true → s.stop = true →
      s.Move (.leave t) { s with removers := s.removers.set t false }
  | close {ret : PipeRet} {s' : TcpServer} (results : ℕ → CloseResult) (r : CloseResult) :
      s.close results r = .ok (ret, s') →
      s.Move (.close results r) { s' with history := s.history ++ [.close ret.successFlag] }
  | destroy {ret : PipeRet} {s' : TcpServer} (results : ℕ → CloseResult) (r : CloseResult) :
      s.close results r = .ok (ret, s') →
      s.Move (.destroy results r)
        { s' with history := s.history ++ [.close ret.successFlag], gone := true }

/-- A move of a server that is still there. -/
def TcpServer.Step (s : TcpServer) (l : TcpServer.Label) (s' : TcpServer) : Prop :=
  s.gone = false ∧ s.Move l s'

def TcpServer.Reachable (s : TcpServer) : Prop := Reaches TcpServer.Step .init s

/-- A start that succeeds needs a descriptor that is not open. -/
theorem fresh_listens {s : TcpServer} {fd : ℤ} (h : s.Fresh fd) :
    ∀ fd', (SetUp.listens fd).fileDescriptor = some fd' → s.Fresh fd' := by
  rintro fd' ⟨⟩
  exact h

/-! ## What the parts of `close()` do -/

section Close

variable {s s' : TcpServer} {results : ℕ → CloseResult} {r : CloseResult} {ret : PipeRet}
  {i : ℕ} {client : ClientPtr} {clients : List ClientPtr}

/-- Stopping the remover concerns nothing else. -/
theorem terminate_effect (s : TcpServer) :
    ∃ thread stop removers, s.terminateDeadClientsRemover =
      { s with clientsRemoverThread := thread, stop := stop, removers := removers } := by
  unfold TcpServer.terminateDeadClientsRemover
  cases s.clientsRemoverThread <;> exact ⟨_, _, _, rfl⟩

/-- The first round of the loop over the clients: its `::close` fails and ends the call, or
    succeeds, and the loop goes on. -/
theorem closeClients_cases (h : s.closeClients results i (client :: clients) = .ok (ret, s')) :
    ∃ c, s.server.object client = .ok c ∧
      ((results i).ret = -1 ∧ ret = .failure (results i).strerror ∧
          s' = { s.closeDescriptor c.sockfd (results i) with halfClosed := true } ∨
        (results i).ret ≠ -1 ∧
          (s.closeDescriptor c.sockfd (results i)).closeClients results (i + 1) clients =
            .ok (ret, s')) := by
  obtain ⟨c, hc, h⟩ := bind_ok_iff.mp h
  refine ⟨c, hc, ?_⟩
  split at h
  · cases h
  · dsimp only at h
    split at h
    · rename_i hfailed
      cases h
      exact .inl ⟨of_decide_eq_true hfailed, rfl, rfl⟩
    · rename_i hclosed
      exact .inr ⟨fun hret => hclosed (decide_eq_true hret), h⟩

/-- The loop over the clients does nothing but close descriptors. -/
theorem closeClients_effect (h : s.closeClients results i clients = .ok (ret, s')) :
    ∃ descriptors halfClosed,
      s' = { s with descriptors := descriptors, halfClosed := halfClosed } := by
  induction clients generalizing i s with
  | nil =>
    cases h
    exact ⟨_, _, rfl⟩
  | cons client clients ih =>
    obtain ⟨c, -, ⟨-, -, rfl⟩ | ⟨-, hrest⟩⟩ := closeClients_cases h
    · exact ⟨_, _, rfl⟩
    · exact ih (s := s.closeDescriptor c.sockfd (results i)) hrest

theorem closeSocket_effect (s : TcpServer) (r : CloseResult) :
    (s.closeSocket r).2 =
      { s.closeDescriptor s.server.sockfd r with listening := false, socketOpen := false } := by
  unfold TcpServer.closeSocket
  dsimp only
  split <;> rfl

/-- A call that comes back: it empties the list and closes the socket, or returns from the loop
    over the clients. -/
theorem close_cases (h : s.close results r = .ok (ret, s')) :
    ∃ closing s₁,
      s.terminateDeadClientsRemover.closeClients results 0
        s.terminateDeadClientsRemover.server.clients = .ok (closing, s₁) ∧
      (closing.successFlag = true ∧
          s' = (TcpServer.closeSocket
            { s₁ with server := { s₁.server with clients := [] } } r).2 ∨
        closing.successFlag = false ∧ s' = s₁) := by
  obtain ⟨⟨closing, s₁⟩, hclients, h⟩ := bind_ok_iff.mp h
  refine ⟨closing, s₁, hclients, ?_⟩
  dsimp only at h
  split at h
  · rename_i hflag
    exact .inl ⟨hflag, (congrArg Prod.snd (Except.ok.inj h)).symm⟩
  · rename_i hflag
    cases h
    exact .inr ⟨Bool.eq_false_iff.mpr hflag, rfl⟩

/-- The remover threads, and what starting and stopping them uses, are the same. -/
structure TcpServer.SameRemovers (s s' : TcpServer) : Prop where
  removers : s'.removers = s.removers
  thread : s'.clientsRemoverThread = s.clientsRemoverThread
  stop : s'.stop = s.stop

/-- To the remover threads a call of `close()` is `terminateDeadClientsRemover`. -/
theorem close_sameRemovers (h : s.close results r = .ok (ret, s')) :
    s.terminateDeadClientsRemover.SameRemovers s' := by
  obtain ⟨closing, s₁, hclients, hrest⟩ := close_cases h
  obtain ⟨descriptors, halfClosed, rfl⟩ := closeClients_effect hclients
  rcases hrest with ⟨-, rfl⟩ | ⟨-, rfl⟩
  · rw [closeSocket_effect]
    exact ⟨rfl, rfl, rfl⟩
  · exact ⟨rfl, rfl, rfl⟩

/-- `close()` leaves the list of clients as it is or empties it, and no other member changes. -/
theorem close_server (h : s.close results r = .ok (ret, s')) :
    ∃ clients, (clients = s.server.clients ∨ clients = []) ∧
      s'.server = { s.server with clients := clients } := by
  obtain ⟨closing, s₁, hclients, hrest⟩ := close_cases h
  obtain ⟨thread, stop, removers, hterminate⟩ := terminate_effect s
  rw [hterminate] at hclients
  obtain ⟨descriptors, halfClosed, rfl⟩ := closeClients_effect hclients
  rcases hrest with ⟨-, rfl⟩ | ⟨-, rfl⟩
  · rw [closeSocket_effect]
    exact ⟨[], .inr rfl, rfl⟩
  · exact ⟨s.server.clients, .inl rfl, rfl⟩

end Close

/-! ## What a move makes of the clients -/

/-- What a move makes of the members that the other modules have. -/
inductive Server.MovedBy (s : Server) : TcpServer.Label → Server → Prop
  | starts (a : Bool) (setUp : SetUp) (sockfd : ℤ) :
      s.MovedBy (.start a setUp) { s with sockfd := sockfd }
  | accepts {fd : ℤ} (ip : String) : 0 ≤ fd → s.MovedBy (.acceptClient fd ip) (s.addClient fd ip)
  | disconnects (client : ClientPtr) : s.MovedBy (.disconnect client) (s.disconnect client)
  | removes {s' : Server} (r : CloseResult) : s.Removal s' → s.MovedBy (.remove r) s'
  | throws (r : CloseResult) : s.MovedBy (.remove r) s
  | leaves (t : ℕ) : s.MovedBy (.leave t) s
  | closes {clients : List ClientPtr} (results : ℕ → CloseResult) (r : CloseResult) :
      clients = s.clients ∨ clients = [] →
      s.MovedBy (.close results r) { s with clients := clients }
  | destroys {clients : List ClientPtr} (results : ℕ → CloseResult) (r : CloseResult) :
      clients = s.clients ∨ clients = [] →
      s.MovedBy (.destroy results r) { s with clients := clients }

theorem start_server (s : TcpServer) (a : Bool) (setUp : SetUp) :
    ∃ sockfd, (s.start a setUp).2.server = { s.server with sockfd := sockfd } := by
  cases a <;> cases setUp <;> exact ⟨_, rfl⟩

theorem move_server {s s' : TcpServer} {l : TcpServer.Label} (h : s.Move l s') :
    s.server.MovedBy l s'.server := by
  cases h with
  | start a setUp _ =>
    obtain ⟨sockfd, hserver⟩ := start_server s a setUp
    show s.server.MovedBy _ (s.start a setUp).2.server
    rw [hserver]
    exact .starts a setUp sockfd
  | acceptClient fd ip _ hfd => exact .accepts ip hfd.1
  | disconnect client => exact .disconnects client
  | removes r _ ho hc _ => exact .removes r ⟨_, _, _, ho, hc, dead_of_findIdx ho hc, rfl⟩
  | throws r _ _ _ _ => exact .throws r
  | leaves t _ _ => exact .leaves t
  | @close ret t results r hclose =>
    obtain ⟨clients, hclients, hserver⟩ := close_server hclose
    show s.server.MovedBy _ t.server
    rw [hserver]
    exact .closes results r hclients
  | @destroy ret t results r hclose =>
    obtain ⟨clients, hclients, hserver⟩ := close_server hclose
    show s.server.MovedBy _ t.server
    rw [hserver]
    exact .destroys results r hclients

end TCPServer
