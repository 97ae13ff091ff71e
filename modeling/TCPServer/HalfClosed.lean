/-
  What one call of `TcpServer::close()` closes.

  The call is there to "close server and clients resources". Its loop over the clients ends
  with the first `::close` that fails, and the call returns from there: the clients before it
  are closed and still listed, those behind it and the listening socket are not closed. So the
  call closes everything (`TcpServer.ClosesAll`) exactly when no `::close` of a listed client
  fails (`closesAll_iff`); that of the listening socket is the last one and may fail.

  Receive threads may end while `close()` joins others: `ends j` are the clients whose threads
  have ended since the join before, when the one at position `j` comes back. If all of them
  have ended before the call, it is the call of the module on the life of a server
  (`closeJoining_quiet`).
-/
import TCPServer.Descriptors
import TCPServer.Sweep

namespace TCPServer

open Handles Runs

/-! ## A call in which receive threads end -/

/-- The loop of `close()` over the clients from position `i` on. -/
def TcpServer.closeClientsJoining (results : ℕ → CloseResult) (ends : ℕ → List ClientPtr) :
    ℕ → List ClientPtr → TcpServer → Exec (PipeRet × TcpServer)
  | _, [], s => pure (.success "", s)
  | i, client :: clients, s => do
    let s := { s with server := s.server.disconnectAll (ends i) }
    let (closing, s) ← s.closeClients results i [client]
    if closing.successFlag then closeClientsJoining results ends (i + 1) clients s
    else pure (closing, s)

/-- `TcpServer::close` while receive threads end. -/
def TcpServer.closeJoining (s : TcpServer) (ends : ℕ → List ClientPtr)
    (results : ℕ → CloseResult) (r : CloseResult) : Exec (PipeRet × TcpServer) := do
  let s := s.terminateDeadClientsRemover
  let (closing, s) ← s.closeClientsJoining results ends 0 s.server.clients
  if closing.successFlag then
    let s := { s with server := { s.server with clients := [] } }
    pure (s.closeSocket r)
  else pure (closing, s)

section Quiet

variable {results : ℕ → CloseResult}

/-- The loop of `close()` is one round of it and the rest. -/
theorem closeClients_cons (i : ℕ) (client : ClientPtr) (clients : List ClientPtr)
    (s : TcpServer) :
    s.closeClients results i (client :: clients) = (do
      let (closing, s) ← s.closeClients results i [client]
      if closing.successFlag then s.closeClients results (i + 1) clients
      else pure (closing, s)) := by
  simp only [TcpServer.closeClients]
  cases s.server.object client with
  | error e => rfl
  | ok c =>
    simp only [ok_bind]
    split
    · rfl
    · split <;> rfl

theorem closeClientsJoining_quiet (i : ℕ) (clients : List ClientPtr) (s : TcpServer) :
    s.closeClientsJoining results (fun _ => []) i clients =
      s.closeClients results i clients := by
  induction clients generalizing i s with
  | nil => rfl
  | cons client clients ih =>
    rw [closeClients_cons]
    unfold TcpServer.closeClientsJoining
    simp only [ih]
    rfl

/-- If no receive thread ends meanwhile, the call is that of `close`. -/
theorem closeJoining_quiet (s : TcpServer) (results : ℕ → CloseResult) (r : CloseResult) :
    s.closeJoining (fun _ => []) results r = s.close results r := by
  unfold TcpServer.closeJoining
  simp only [closeClientsJoining_quiet]
  rfl

end Quiet

/-! ## Joining -/

/-- The listening socket, the list of clients and their descriptors are the same. -/
structure Server.SameSockets (s s' : Server) : Prop where
  clients : s'.clients = s.clients
  sockfd : s'.sockfd = s.sockfd
  fd : s'.fd = s.fd

/-- When the thread of a client is joined that is connected now, it has ended. -/
def Server.ThreadsEnd (s : Server) (ends : ℕ → List ClientPtr) (i : ℕ)
    (clients : List ClientPtr) : Prop :=
  ∀ k o, clients[k]? = some o → s.isConnected o = true → ∃ j, i ≤ j ∧ j ≤ i + k ∧ o ∈ ends j

section Joining

variable {s s' : Server} {o : ClientPtr} {os : List ClientPtr}

/-- What every disconnection keeps is kept by several. -/
theorem disconnectAll_keeps {I : Server → Prop} (hI : ∀ s o, I s → I (s.disconnect o))
    (os : List ClientPtr) (hs : I s) : I (s.disconnectAll os) := by
  induction os generalizing s with
  | nil => exact hs
  | cons o os ih => exact ih (hI s o hs)

theorem disconnect_sameSockets (s : Server) (o : ClientPtr) : s.SameSockets (s.disconnect o) := by
  refine ⟨disconnect_clients s o, ?_, funext fun o' => fd_disconnect o o'⟩
  obtain ⟨objects, num, h⟩ := disconnect_effect s o
  rw [h]

theorem Server.SameSockets.trans {t : Server} (h : s.SameSockets s') (h' : s'.SameSockets t) :
    s.SameSockets t :=
  ⟨h'.clients.trans h.clients, h'.sockfd.trans h.sockfd, h'.fd.trans h.fd⟩

theorem disconnectAll_sameSockets (s : Server) (os : List ClientPtr) :
    s.SameSockets (s.disconnectAll os) :=
  disconnectAll_keeps (I := s.SameSockets)
    (fun t o ht => ht.trans (disconnect_sameSockets t o)) os ⟨rfl, rfl, rfl⟩

theorem alive_disconnectAll (os : List ClientPtr) (h : s.Alive o) :
    (s.disconnectAll os).Alive o :=
  disconnectAll_keeps (I := fun t => t.Alive o) (fun _ _ ht => alive_disconnect ht) os h

theorem isConnected_disconnectAll (os : List ClientPtr) (h : s.isConnected o = false) :
    (s.disconnectAll os).isConnected o = false :=
  disconnectAll_keeps (I := fun t => t.isConnected o = false)
    (fun _ _ ht => isConnected_disconnect ht) os h

theorem isConnected_disconnect_self (h : s.Alive o) : (s.disconnect o).isConnected o = false := by
  obtain ⟨c, hc⟩ := h
  obtain ⟨hget, hdeleted⟩ := object_ok_iff.mp hc
  unfold Server.disconnect
  rw [hget]
  dsimp only
  split
  · exact isConnected_clear_self
  · rename_i hnot
    rw [isConnected_of_object hc]
    simpa [hdeleted] using hnot

theorem isConnected_of_ended (h : s.Alive o) (ho : o ∈ os) :
    (s.disconnectAll os).isConnected o = false := by
  induction os generalizing s with
  | nil => cases ho
  | cons o' os ih =>
    rcases List.mem_cons.mp ho with rfl | ho
    · exact isConnected_disconnectAll os (isConnected_disconnect_self h)
    · exact ih (alive_disconnect h) ho

variable {ends : ℕ → List ClientPtr} {i : ℕ} {client : ClientPtr} {clients : List ClientPtr}

/-- The thread that is joined first has ended then. -/
theorem Server.ThreadsEnd.joined (h : s.ThreadsEnd ends i (client :: clients))
    (halive : s.Alive client) : (s.disconnectAll (ends i)).isConnected client = false := by
  cases hflag : s.isConnected client with
  | false => exact isConnected_disconnectAll _ hflag
  | true =>
    obtain ⟨j, hle, hge, hmem⟩ := h 0 client rfl hflag
    rw [Nat.le_antisymm hge hle] at hmem
    exact isConnected_of_ended halive hmem

/-- The others end as they did. -/
theorem Server.ThreadsEnd.rest (h : s.ThreadsEnd ends i (client :: clients))
    (halive : ∀ o ∈ clients, s.Alive o) :
    (s.disconnectAll (ends i)).ThreadsEnd ends (i + 1) clients := by
  intro k o ho hflag
  have hbefore : s.isConnected o = true := by
    by_contra hdead
    rw [Bool.not_eq_true] at hdead
    rw [isConnected_disconnectAll _ hdead] at hflag
    cases hflag
  obtain ⟨j, hle, hge, hmem⟩ := h (k + 1) o ho hbefore
  have hne : j ≠ i := by
    rintro rfl
    rw [isConnected_of_ended (halive o (List.mem_of_getElem? ho)) hmem] at hflag
    cases hflag
  exact ⟨j, by omega, by omega, hmem⟩

end Joining

/-! ## What the loop closes -/

/-- Calls of `::close`, in order, as they are logged: the descriptor, and whether it succeeds. -/
def logged (calls : List (ℤ × Bool)) : List (Event ℤ) :=
  calls.reverse.map fun call => .released call.1 call.2

theorem logged_append (calls calls' : List (ℤ × Bool)) :
    logged (calls ++ calls') = logged calls' ++ logged calls := by
  unfold logged
  rw [List.reverse_append, List.map_append]

section Loop

variable {s : TcpServer} {results : ℕ → CloseResult} {ends : ℕ → List ClientPtr} {i : ℕ}
  {client : ClientPtr} {clients : List ClientPtr}

/-- What the loop over the clients from position `i` on has done. -/
structure TcpServer.LoopEnds (s s' : TcpServer) (results : ℕ → CloseResult) (i : ℕ)
    (clients : List ClientPtr) (ret : PipeRet) : Prop where
  same : s.server.SameSockets s'.server
  passes : (∀ j < clients.length, (results (i + j)).ret ≠ -1) → ret.successFlag = true ∧
    s'.descriptors = logged (clients.map fun o => (s.server.fd o, true)) ++ s.descriptors
  stops : ret.successFlag = true → ∀ j < clients.length, (results (i + j)).ret ≠ -1

/-- A round in which `::close` fails. -/
theorem closeClients_fails {c : Client} (hc : s.server.object client = .ok c)
    (hdead : c.isConnected = false) (hret : (results i).ret = -1) :
    ∃ s', s.closeClients results i [client] = .ok (.failure (results i).strerror, s') ∧
      s'.server = s.server := by
  simp only [TcpServer.closeClients, hc, ok_bind, hdead, hret, decide_true, if_true]
  exact ⟨_, rfl, rfl⟩

/-- A round in which `::close` succeeds. -/
theorem closeClients_closes {c : Client} (hc : s.server.object client = .ok c)
    (hdead : c.isConnected = false) (hret : (results i).ret ≠ -1) :
    s.closeClients results i [client] =
      .ok (.success "", s.closeDescriptor c.sockfd (results i)) := by
  simp only [TcpServer.closeClients, hc, ok_bind, hdead, decide_eq_false hret]
  rfl

theorem closeClientsJoining_cons {ret : PipeRet} {s' : TcpServer}
    (h : TcpServer.closeClients results i [client]
      { s with server := s.server.disconnectAll (ends i) } = .ok (ret, s')) :
    s.closeClientsJoining results ends i (client :: clients) =
      if ret.successFlag then s'.closeClientsJoining results ends (i + 1) clients
      else .ok (ret, s') := by
  conv_lhs => unfold TcpServer.closeClientsJoining
  dsimp only
  rw [h, ok_bind]
  rfl

theorem closeClientsJoining_ends (halive : ∀ o ∈ clients, s.server.Alive o)
    (hends : s.server.ThreadsEnd ends i clients) :
    ∃ ret s', s.closeClientsJoining results ends i clients = .ok (ret, s') ∧
      s.LoopEnds s' results i clients ret := by
  induction clients generalizing i s with
  | nil => exact ⟨_, s, rfl, ⟨rfl, rfl, rfl⟩, fun _ => ⟨rfl, rfl⟩, nofun⟩
  | cons client clients ih =>
    obtain ⟨hclient, hclients⟩ := List.forall_mem_cons.mp halive
    set t : TcpServer := { s with server := s.server.disconnectAll (ends i) }
    have hsame : s.server.SameSockets t.server := disconnectAll_sameSockets s.server (ends i)
    obtain ⟨c, hc⟩ : t.server.Alive client := alive_disconnectAll (ends i) hclient
    have hdead : c.isConnected = false :=
      (isConnected_of_object hc).symm.trans (hends.joined hclient)
    have hfd : c.sockfd = s.server.fd client := by rw [← fd_of_object hc, hsame.fd]
    by_cases hret : (results i).ret = -1
    · obtain ⟨s', hround, hserver⟩ := closeClients_fails hc hdead hret
      refine ⟨_, s', closeClientsJoining_cons hround, by rwa [hserver], fun hpass => ?_, nofun⟩
      exact absurd hret (hpass 0 (Nat.succ_pos _))
    · have hround := closeClients_closes hc hdead hret
      obtain ⟨ret, s', hrest, hloop⟩ := ih (s := t.closeDescriptor c.sockfd (results i))
        (i := i + 1) (fun o ho => alive_disconnectAll (ends i) (hclients o ho))
        (hends.rest hclients)
      refine ⟨ret, s', (closeClientsJoining_cons hround).trans hrest, hsame.trans hloop.same,
        fun hpass => ?_, fun hflag j hj => ?_⟩
      · obtain ⟨hflag, hlog⟩ := hloop.passes fun j hj => by
          rw [Nat.add_right_comm]
          exact hpass (j + 1) (Nat.succ_lt_succ hj)
        have hclosed : (t.closeDescriptor c.sockfd (results i)).descriptors =
            logged [(s.server.fd client, true)] ++ s.descriptors := by
          unfold TcpServer.closeDescriptor
          rw [hfd, decide_eq_true hret]
          rfl
        refine ⟨hflag, ?_⟩
        rw [hlog, hclosed, ← List.append_assoc, ← logged_append]
        show logged ([_] ++ clients.map fun o => (t.server.fd o, true)) ++ _ = _
        rw [hsame.fd]
        rfl
      · cases j with
        | zero => exact hret
        | succ j =>
          have hstop := hloop.stops hflag j (Nat.lt_of_succ_lt_succ hj)
          rwa [Nat.add_right_comm] at hstop

end Loop

/-! ## Listed clients exist -/

/-- The listed clients exist, and none is listed twice. -/
structure Server.Listed (s : Server) : Prop where
  alive : ∀ o ∈ s.clients, s.Alive o
  nodup : s.clients.Nodup

theorem Server.Listed.addClient {s : Server} (hs : s.Listed) (fd : ℤ) (ip : String) :
    (s.addClient fd ip).Listed := by
  refine ⟨fun o ho => (alive_addClient_iff fd ip).mpr ?_, ?_⟩
  · exact (List.mem_append.mp ho).imp (hs.alive o) List.mem_singleton.mp
  · show (s.clients ++ [s.objects.length]).Nodup
    rw [← List.concat_eq_append]
    exact .concat (fun hmem => Nat.lt_irrefl _ (alive_lt (hs.alive _ hmem))) hs.nodup

theorem Server.Removal.listed {s s' : Server} (h : s.Removal s') (hs : s.Listed) :
    s'.Listed := by
  obtain ⟨i, o, c, ho, -, -, rfl⟩ := h
  refine ⟨fun o' ho' => ?_, hs.nodup.sublist (List.eraseIdx_sublist s.clients i)⟩
  rw [clients_erase hs.nodup ho, List.mem_filter] at ho'
  exact alive_delete_iff.mpr ⟨hs.alive o' ho'.1, of_decide_eq_true ho'.2⟩

theorem Server.MovedBy.listed {s s' : Server} {l : TcpServer.Label} (h : s.MovedBy l s')
    (hs : s.Listed) : s'.Listed := by
  have hkept : ∀ {clients : List ClientPtr}, clients = s.clients ∨ clients = [] →
      Server.Listed { s with clients := clients } := by
    rintro clients (rfl | rfl)
    · exact ⟨hs.alive, hs.nodup⟩
    · exact ⟨nofun, List.nodup_nil⟩
  cases h with
  | starts a setUp sockfd => exact ⟨hs.alive, hs.nodup⟩
  | accepts ip _ => exact hs.addClient _ ip
  | disconnects client =>
    have hclients := disconnect_clients s client
    refine ⟨fun o ho => alive_disconnect (hs.alive o (hclients ▸ ho)), ?_⟩
    rw [hclients]
    exact hs.nodup
  | removes r hrem => exact hrem.listed hs
  | throws r => exact hs
  | leaves t => exact hs
  | closes results r hclients => exact hkept hclients
  | destroys results r hclients => exact hkept hclients

/-- In every run of a server, the listed clients exist. -/
theorem reachable_listed {s : TcpServer} (h : s.Reachable) : s.server.Listed := by
  obtain ⟨ls, hrun⟩ := h
  exact hrun.invariant (I := fun s => s.server.Listed)
    (fun _ _ _ hs hstep => (move_server hstep.2).listed hs) ⟨nofun, List.nodup_nil⟩

/-! ## What the call closes -/

/-- From `s` to `s'` the call has made these calls of `::close` and has come back with `ret`. It
    has closed each listed client and the listening socket once, no client is listed any more,
    and it reports a failure if a `::close` has failed. -/
structure TcpServer.ClosedAll (s s' : TcpServer) (ret : PipeRet) (calls : List (ℤ × Bool)) :
    Prop where
  log : s'.descriptors = logged calls ++ s.descriptors
  once : (calls.map Prod.fst).Perm (s.server.sockfd :: s.server.clients.map s.server.fd)
  clients : s'.server.clients = []
  reports : ret.successFlag = false ↔ ∃ call ∈ calls, call.2 = false

/-- The call comes back, and closes everything. -/
def TcpServer.ClosesAll (s : TcpServer) (ends : ℕ → List ClientPtr) (results : ℕ → CloseResult)
    (r : CloseResult) : Prop :=
  ∃ ret s' calls, s.closeJoining ends results r = .ok (ret, s') ∧ s.ClosedAll s' ret calls

section Call

variable {s : TcpServer} {ends : ℕ → List ClientPtr} {r : CloseResult}

theorem closeSocket_clients : (s.closeSocket r).2.server.clients = s.server.clients := by
  rw [closeSocket_effect]
  rfl

theorem closeSocket_log :
    (s.closeSocket r).2.descriptors =
      logged [(s.server.sockfd, decide (r.ret ≠ -1))] ++ s.descriptors := by
  rw [closeSocket_effect]
  rfl

theorem closeSocket_reports : (s.closeSocket r).1.successFlag = decide (r.ret ≠ -1) := by
  unfold TcpServer.closeSocket
  dsimp only
  split
  · rename_i hfailed
    rw [decide_eq_false (not_not.mpr (of_decide_eq_true hfailed))]
    rfl
  · rename_i hclosed
    have hret : r.ret ≠ -1 := fun hret => hclosed (decide_eq_true hret)
    rw [decide_eq_true hret]
    rfl

/-- How the call goes on after the loop over the clients. -/
theorem closeJoining_cases (halive : ∀ o ∈ s.server.clients, s.server.Alive o)
    (hends : s.server.ThreadsEnd ends 0 s.server.clients) (results : ℕ → CloseResult)
    (r : CloseResult) :
    ∃ closing s₁, s.LoopEnds s₁ results 0 s.server.clients closing ∧
      s.closeJoining ends results r = if closing.successFlag then
        .ok (({ s₁ with server := { s₁.server with clients := [] } } : TcpServer).closeSocket r)
        else .ok (closing, s₁) := by
  obtain ⟨thread, stop, removers, hterminate⟩ := terminate_effect s
  unfold TcpServer.closeJoining
  rw [hterminate]
  set s₀ : TcpServer :=
    { s with clientsRemoverThread := thread, stop := stop, removers := removers }
  obtain ⟨closing, s₁, hloop, hended⟩ : ∃ closing s₁,
      s₀.closeClientsJoining results ends 0 s.server.clients = .ok (closing, s₁) ∧
        s₀.LoopEnds s₁ results 0 s.server.clients closing :=
    closeClientsJoining_ends halive hends
  refine ⟨closing, s₁, ⟨hended.same, hended.passes, hended.stops⟩, ?_⟩
  dsimp only
  rw [hloop, ok_bind]
  rfl

end Call

/-- For every list of existing clients whose receive threads end, and whatever the calls of
    `::close` return: the call of `close()` passes the descriptor of each listed client and the
    listening one to `::close` once, leaves no client listed and reports a failure exactly if a
    `::close` has failed, if and only if no `::close` of a listed client's descriptor fails. -/
theorem closesAll_iff {s : TcpServer} (halive : ∀ o ∈ s.server.clients, s.server.Alive o)
    {ends : ℕ → List ClientPtr} (hends : s.server.ThreadsEnd ends 0 s.server.clients)
    (results : ℕ → CloseResult) (r : CloseResult) :
    s.ClosesAll ends results r ↔ s.PassesClients results := by
  obtain ⟨closing, s₁, hloop, hcall⟩ := closeJoining_cases halive hends results r
  constructor
  · rintro ⟨ret, s', calls, hclose, hclosed⟩ i hi
    by_cases hflag : closing.successFlag = true
    · rw [← Nat.zero_add i]
      exact hloop.stops hflag i hi
    · -- the call has returned from the loop, and leaves the list as it was
      rw [hcall, if_neg hflag] at hclose
      cases hclose
      rw [← hloop.same.clients, hclosed.clients] at hi
      cases hi
  · intro hpass
    obtain ⟨hflag, hlog⟩ := hloop.passes fun j hj => by
      rw [Nat.zero_add]
      exact hpass j hj
    rw [hflag, if_pos rfl] at hcall
    set s₂ : TcpServer := { s₁ with server := { s₁.server with clients := [] } }
    refine ⟨(s₂.closeSocket r).1, (s₂.closeSocket r).2,
      (s.server.clients.map fun o => (s.server.fd o, true)) ++
        [(s.server.sockfd, decide (r.ret ≠ -1))], hcall, ?_, ?_, closeSocket_clients, ?_⟩
    · rw [closeSocket_log, logged_append, List.append_assoc, ← hlog]
      show logged [(s₁.server.sockfd, _)] ++ _ = _
      rw [hloop.same.sockfd]
    · rw [List.map_append, List.map_map]
      exact List.perm_append_singleton _ _
    · rw [closeSocket_reports]
      constructor
      · intro hfailed
        exact ⟨_, List.mem_append_right _ (List.mem_singleton_self _), hfailed⟩
      · rintro ⟨call, hmem, hfailed⟩
        rcases List.mem_append.mp hmem with hmem | hmem
        · obtain ⟨o, -, rfl⟩ := List.mem_map.mp hmem
          cases hfailed
        · rw [List.mem_singleton.mp hmem] at hfailed
          exact hfailed

/-- Of two clients the second disconnects only when its receive thread is joined, and the last
    `::close` fails, which the call reports. -/
theorem closesAll_two_clients :
    ∃ (s : TcpServer) (results : ℕ → CloseResult) (r : CloseResult), s.Reachable ∧
      s.server.isConnected 1 = true ∧ r.ret = -1 ∧ s.ClosesAll (fun j => [j]) results r := by
  obtain ⟨s, hreach, hclients, hconnected⟩ : ∃ s : TcpServer, s.Reachable ∧
      s.server.clients = [0, 1] ∧ s.server.isConnected 1 = true :=
    ⟨_, ⟨_, .cons ⟨rfl, .start false (.listens 3) (fresh_listens ⟨by decide, rfl⟩)⟩
      (.cons ⟨rfl, .acceptClient 4 "10.0.0.2" rfl ⟨by decide, rfl⟩⟩
      (.cons ⟨rfl, .acceptClient 5 "10.0.0.3" rfl ⟨by decide, rfl⟩⟩
      (.cons ⟨rfl, .disconnect 0⟩ (.nil _))))⟩, rfl, rfl⟩
  have hends : s.server.ThreadsEnd (fun j => [j]) 0 s.server.clients := by
    rw [hclients]
    rintro (_ | _ | k) o ⟨⟩ -
    · exact ⟨0, by decide, by decide, List.mem_singleton_self 0⟩
    · exact ⟨1, by decide, by decide, List.mem_singleton_self 1⟩
  refine ⟨s, fun _ => ⟨0, ""⟩, ⟨-1, "Input/output error"⟩, hreach, hconnected, rfl, ?_⟩
  exact (closesAll_iff (reachable_listed hreach).alive hends _ _).mpr fun _ _ => by decide

/-- Of two clients, both disconnected, the `::close` of the first fails: that of the second and
    of the listening socket are not called, and both clients are still listed. -/
theorem close_stops_half_way :
    ∃ (s : TcpServer) (results : ℕ → CloseResult) (r : CloseResult), s.Reachable ∧
      s.server.ThreadsEnd (fun _ => []) 0 s.server.clients ∧
      (∃ ret s', s.closeJoining (fun _ => []) results r = .ok (ret, s') ∧
        s'.descriptors = .released 4 false :: s.descriptors ∧ s'.server.clients = [0, 1]) ∧
      ¬ s.ClosesAll (fun _ => []) results r := by
  obtain ⟨s, hreach, hends, hcall⟩ : ∃ s : TcpServer, s.Reachable ∧
      s.server.ThreadsEnd (fun _ => []) 0 s.server.clients ∧
      ∃ ret s', s.closeJoining (fun _ => [])
        (fun i => if i = 0 then ⟨-1, "Input/output error"⟩ else ⟨0, ""⟩) ⟨0, ""⟩ = .ok (ret, s') ∧
        s'.descriptors = .released 4 false :: s.descriptors ∧ s'.server.clients = [0, 1] := by
    refine ⟨_, ⟨_, .cons ⟨rfl, .start false (.listens 3) (fresh_listens ⟨by decide, rfl⟩)⟩
      (.cons ⟨rfl, .acceptClient 4 "10.0.0.2" rfl ⟨by decide, rfl⟩⟩
      (.cons ⟨rfl, .acceptClient 5 "10.0.0.3" rfl ⟨by decide, rfl⟩⟩
      (.cons ⟨rfl, .disconnect 0⟩ (.cons ⟨rfl, .disconnect 1⟩ (.nil _)))))⟩, ?_,
      ⟨_, _, rfl, rfl, rfl⟩⟩
    rintro (_ | _ | k) o ⟨⟩ hflag <;> cases hflag
  refine ⟨s, _, _, hreach, hends, hcall, ?_⟩
  obtain ⟨ret, s', hreturns, -, hlisted⟩ := hcall
  rintro ⟨ret', t, calls, hreturns', hclosed⟩
  rw [hreturns] at hreturns'
  cases hreturns'
  rw [hclosed.clients] at hlisted
  cases hlisted

end TCPServer
