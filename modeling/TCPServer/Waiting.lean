/-
  Waiting for a client with a timeout.

  `waitForClient` lets `fd_wait::waitFor` wait, which calls `select` on a set of its own, and
  then looks for the socket in the member `_fds`. No operation of the class puts a descriptor
  into that set, and in a zero-initialised object it is empty (`reaches_unset`). So with a
  timeout no client is ever accepted (`timeout_never_accepts`); the runner uses none.

  `ServerOp` are the operations of the class: those of the modules on its life and on its
  clients, and the functions that only subscribe, print or send.
-/
import TCPServer.Lifecycle
import TCPServer.Sending

namespace TCPServer

open Runs

/-- A server with its subscribers. -/
structure ServerObject where
  tcpServer : TcpServer
  /-- `_subscribers` -/
  subscribers : List ServerObserver

/-- A zero-initialised object after the constructor. -/
def ServerObject.init : ServerObject where
  tcpServer := .init
  subscribers := []

inductive ServerOp where
  | lifecycle (l : TcpServer.Label)
  | operation (op : Op)
  | subscribe (observer : ServerObserver)
  | printClients
  | sendToAllClients (msg : Bytes) (results : ℕ → SendResult)
  | sendToClient (client : ClientPtr) (msg : Bytes) (r : SendResult)
  | sendToClientIP (clientIP : String) (msg : Bytes) (r : SendResult)

def TcpServer.withServer (s : TcpServer) (server : Server) : TcpServer :=
  { s with server := server }

inductive ServerObject.Step (s : ServerObject) : ServerOp → ServerObject → Prop
  | lifecycle {l : TcpServer.Label} {t : TcpServer} : s.tcpServer.Step l t →
      s.Step (.lifecycle l) { s with tcpServer := t }
  | operation {op : Op} {server : Server} : s.tcpServer.server.Step op server →
      s.Step (.operation op) { s with tcpServer := s.tcpServer.withServer server }
  | subscribe (observer : ServerObserver) :
      s.Step (.subscribe observer) { s with subscribers := s.subscribers ++ [observer] }
  | printClients : s.Step .printClients s
  | sendToAllClients {msg : Bytes} {results : ℕ → SendResult} {p : PipeRet} {server : Server} :
      s.tcpServer.server.sendToAllClients msg results = .ok (p, server) →
      s.Step (.sendToAllClients msg results)
        { s with tcpServer := s.tcpServer.withServer server }
  | sendToClient {client : ClientPtr} {msg : Bytes} {r : SendResult} {p : PipeRet}
      {server : Server} : s.tcpServer.server.sendToClient client msg r = .ok (p, server) →
      s.Step (.sendToClient client msg r) { s with tcpServer := s.tcpServer.withServer server }
  | sendToClientIP {clientIP : String} {msg : Bytes} {r : SendResult} {p : PipeRet}
      {server : Server} : s.tcpServer.server.sendToClientIP clientIP msg r = .ok (p, server) →
      s.Step (.sendToClientIP clientIP msg r)
        { s with tcpServer := s.tcpServer.withServer server }

/-- The states of a zero-initialised server object, before `start` and after it. -/
def ServerObject.Reachable (s : ServerObject) : Prop := Reaches ServerObject.Step .init s

/-! ## `_fds` stays empty -/

/-- `_fds` is empty, and the lists of the clients are separate. -/
structure Server.Unset (s : Server) : Prop where
  fds : ∀ fd, s.fds fd = false
  separate : s.Separate

section Unset

variable {s s' : Server}

theorem Server.Unset.of_sameLists (hs : s.Unset) (hlists : s.SameLists s')
    (hfds : s'.fds = s.fds) : s'.Unset := by
  refine ⟨fun fd => ?_, hlists.separate hs.separate⟩
  rw [hfds]
  exact hs.fds fd

theorem disconnect_fds (s : Server) (o : ClientPtr) : (s.disconnect o).fds = s.fds := by
  obtain ⟨objects, num, h⟩ := disconnect_effect s o
  rw [h]

theorem Server.Unset.removal (hs : s.Unset) (h : s.Removal s') : s'.Unset := by
  have hlists := h.sameLists
  obtain ⟨i, o, c, -, -, -, rfl⟩ := h
  exact hs.of_sameLists hlists rfl

theorem Server.Relists.unset {o : ClientPtr} {l : List ℤ} (h : s.Relists s' o l)
    (hs : s.Unset) : s'.Unset := by
  refine ⟨fun fd => ?_, h.separate⟩
  rw [h.same.fds]
  exact hs.fds fd

theorem Server.Unset.step {op : Op} (hs : s.Unset) (h : s.Step op s') : s'.Unset := by
  cases step_effect hs.separate h with
  | same _ => exact hs
  | accepts fd ip _ => exact hs.of_sameLists (sameLists_addClient s fd ip) rfl
  | disconnects o _ => exact hs.of_sameLists (sameLists_disconnect s o) (disconnect_fds s o)
  | sweeps _ hsweep => exact sweep_keeps (fun _ _ ht hrem => ht.removal hrem) hsweep hs
  | gives _ hg => exact hg.relists.unset hs
  | sorts _ _ hr _ _ => exact hr.unset hs

theorem Server.Unset.withSent (hs : s.Unset) (sent : List (ℤ × Bytes)) :
    ({ s with sent := sent } : Server).Unset :=
  ⟨hs.fds, hs.separate⟩

end Unset

theorem Server.MovedBy.unset {s s' : Server} {l : TcpServer.Label} (h : s.MovedBy l s')
    (hs : s.Unset) : s'.Unset := by
  cases h with
  | starts a setUp sockfd => exact ⟨hs.fds, hs.separate⟩
  | accepts ip _ => exact hs.of_sameLists (sameLists_addClient s _ ip) rfl
  | disconnects client =>
    exact hs.of_sameLists (sameLists_disconnect s client) (disconnect_fds s client)
  | removes r hrem => exact hs.removal hrem
  | throws r => exact hs
  | leaves t => exact hs
  | closes results r _ => exact ⟨hs.fds, hs.separate⟩
  | destroys results r _ => exact ⟨hs.fds, hs.separate⟩

theorem ServerObject.Step.unset {s s' : ServerObject} {op : ServerOp}
    (hs : s.tcpServer.server.Unset) (h : s.Step op s') : s'.tcpServer.server.Unset := by
  cases h with
  | lifecycle hmove => exact (move_server hmove.2).unset hs
  | operation hstep => exact hs.step hstep
  | subscribe observer => exact hs
  | printClients => exact hs
  | sendToAllClients hsend =>
    obtain ⟨sent, rfl⟩ := sendLoop_sent hsend
    exact hs.withSent sent
  | sendToClient hsend =>
    obtain ⟨sent, rfl⟩ := sendToClient_sent hsend
    exact hs.withSent sent
  | sendToClientIP hsend =>
    obtain ⟨sent, rfl⟩ := sendToClientIP_sent hsend
    exact hs.withSent sent

theorem reaches_unset {s : ServerObject} (h : s.Reachable) : s.tcpServer.server.Unset := by
  obtain ⟨ops, hrun⟩ := h
  exact hrun.invariant (I := fun s => s.tcpServer.server.Unset)
    (fun _ _ _ hs h => h.unset hs) ⟨fun _ => rfl, (inv_init 0).separate⟩

/-! ## Accepting with a timeout -/

/-- `waitForClient` succeeds after `waitFor` has reported SUCCESS. -/
def Server.WaitSucceeds (s : Server) (timeout : ℕ) (strerror : String) : Prop :=
  (s.waitForClient timeout .SUCCESS strerror).successFlag = true

/-- The pending client is accepted as it is without a timeout. -/
def Server.AcceptsAsAtOnce (s : Server) (timeout : ℕ) (strerror : String) (fileDescriptor : ℤ)
    (ip : String) : Prop :=
  s.acceptClient timeout .SUCCESS strerror (some (fileDescriptor, ip)) =
    s.acceptClient 0 .SUCCESS strerror (some (fileDescriptor, ip))

theorem waitForClient_unset {s : Server} (hs : s.Unset) {timeout : ℕ} (ht : 0 < timeout)
    (strerror : String) :
    s.waitForClient timeout .SUCCESS strerror = .failure "File descriptor is not set" := by
  unfold Server.waitForClient
  rw [if_pos ht]
  simp only [hs.fds, Bool.not_false, if_true]

/-- In every state of a zero-initialised server object, for every timeout above 0 and every
    pending client: `waitFor` has reported SUCCESS and `waitForClient` fails, and the client
    that is accepted without a timeout is not accepted. -/
theorem timeout_never_accepts {s : ServerObject} (h : s.Reachable) {timeout : ℕ}
    (ht : 0 < timeout) (strerror : String) (fileDescriptor : ℤ) (ip : String) :
    ¬ s.tcpServer.server.WaitSucceeds timeout strerror ∧
      ¬ s.tcpServer.server.AcceptsAsAtOnce timeout strerror fileDescriptor ip := by
  have hwait := waitForClient_unset (reaches_unset h) ht strerror
  constructor
  · intro hsucceeds
    unfold Server.WaitSucceeds at hsucceeds
    rw [hwait] at hsucceeds
    cases hsucceeds
  · intro hsame
    have hthrows : s.tcpServer.server.acceptClient timeout .SUCCESS strerror
        (some (fileDescriptor, ip)) =
          .error (.runtimeError "File descriptor is not set") := by
      unfold Server.acceptClient
      rw [hwait]
      rfl
    have haccepts : s.tcpServer.server.acceptClient 0 .SUCCESS strerror
        (some (fileDescriptor, ip)) = .ok (s.tcpServer.server.addClient fileDescriptor ip) := rfl
    unfold Server.AcceptsAsAtOnce at hsame
    rw [hthrows, haccepts] at hsame
    cases hsame

/-- The server after a start on descriptor 3. -/
def startedObject : ServerObject where
  tcpServer := { (TcpServer.init.start true (.listens 3)).2 with history := [.start true true] }
  subscribers := []

theorem startedObject_reachable : startedObject.Reachable := by
  refine .of_step (l := .lifecycle (.start true (.listens 3))) (.lifecycle ⟨rfl, ?_⟩)
  exact .start true (.listens 3) (fresh_listens ⟨by decide, rfl⟩)

theorem timeout_never_accepts_started :
    ¬ startedObject.tcpServer.server.WaitSucceeds 5 "" ∧
      ¬ startedObject.tcpServer.server.AcceptsAsAtOnce 5 "" 4 "10.0.0.2" :=
  timeout_never_accepts startedObject_reachable (by decide) "" 4 "10.0.0.2"

/-- A client is pending, and `acceptClient` throws. -/
theorem acceptClient_timeout_throws :
    ∃ s : ServerObject, s.Reachable ∧ s.tcpServer.listening = true ∧
      s.tcpServer.server.acceptClient 5 .SUCCESS "" (some (4, "10.0.0.2")) =
        .error (.runtimeError "File descriptor is not set") ∧
      s.tcpServer.server.acceptClient 0 .SUCCESS "" (some (4, "10.0.0.2")) =
        .ok (s.tcpServer.server.addClient 4 "10.0.0.2") :=
  ⟨startedObject, startedObject_reachable, rfl, rfl, rfl⟩

end TCPServer
