/-
  Client processes and the server: whose request is served for whom.

  A process numbers its `TcpClient` objects from 0 (`TcpClient::numClients` is a static member,
  so every process has its own). Connections are accepted in the order in which they were made;
  the server appends the `Client` of an accepted connection to `_clients`. A request carries
  the sender's number, and the server takes it as a position in `_clients`. A `connectTo` that
  fails does nothing here; the number of its `TcpClient` is used up all the same.

  `routed_run_iff`: in a run every request is served for the connection it came from exactly if
  at every request the sender's number is the number of `Client` objects that were accepted
  before the sender's and are still listed (`Net.Aligned`). Two processes, each with a client
  of number 0, break it (`request_of_second_process`).
-/
import TCPServer.Machine

namespace TCPServer

open Runs

/-- A TCP connection: the `TcpClient` that made it, and the `Client` accepted for it. -/
structure Connection where
  owner : ℕ
  client : Option ClientPtr

structure Net where
  server : Server
  /-- `TcpClient::numClients` of every process. -/
  numClients : List CInt
  /-- `getID()` of every `TcpClient`. -/
  ids : List CInt
  connections : List Connection
  /-- Why the server process ended, if it did. -/
  fault : Option Stop

def Net.init (sockfd : ℤ) : Net := ⟨.init sockfd, [], [], [], none⟩

inductive NetEvent where
  | startProcess
  /-- `new TcpClient()` in a process. -/
  | construct (process : ℕ)
  /-- `connectTo` of a `TcpClient`, when it succeeds. -/
  | connectTo (tcpClient : ℕ)
  /-- `acceptClient` takes the oldest connection that waits. -/
  | acceptClient (fileDescriptor : ℤ) (ip : String)
  /-- The receive thread for a connection finds its end. -/
  | endOfStream (connection : ℕ)
  | removeDeadClients (closeRet : ℤ → ℤ)
  /-- The owner of a connection has sent `to_string(getID())` on it, and it is handled. -/
  | request (connection : ℕ) (rands : List ℕ) (r : SendResult)

/-- The `Client` accepted for a connection. -/
def Net.clientOf (N : Net) (connection : ℕ) : Option ClientPtr :=
  (N.connections[connection]?).bind Connection.client

/-- `getID()` of the `TcpClient` that made a connection. -/
def Net.idOf (N : Net) (connection : ℕ) : Option CInt :=
  (N.connections[connection]?).bind fun c => N.ids[c.owner]?

/-- The receive thread of a client runs until its flag is cleared. -/
def Server.receives (s : Server) (o : ClientPtr) : Bool :=
  match s.objects[o]? with
  | some c => c.isConnected && !c.deleted
  | none => false

/-- The net after an operation of the server: a loop that does not end is not a step, and an
    exception or undefined behaviour ends the server. -/
def Net.after (N : Net) : Exec Server → Option Net
  | .ok s => some { N with server := s }
  | .error .spins => none
  | .error e => some { N with fault := some e }

def Net.step (N : Net) (event : NetEvent) : Option Net :=
  if N.fault.isSome then none else
  match event with
  | .startProcess => some { N with numClients := N.numClients ++ [⟨0, by decide, by decide⟩] }
  | .construct process => do
    let id ← N.numClients[process]?
    let next ← id.inc
    some { N with numClients := N.numClients.set process next, ids := N.ids ++ [id] }
  | .connectTo tcpClient =>
    if tcpClient < N.ids.length then
      some { N with connections := N.connections ++ [⟨tcpClient, none⟩] }
    else none
  | .acceptClient fileDescriptor ip =>
    let waiting := N.connections.findIdx fun c => c.client.isNone
    if waiting < N.connections.length then
      let newClient := N.server.objects.length
      { N with connections := N.connections.modify waiting fun c =>
          { c with client := some newClient } }.after
        (N.server.step (.acceptClient 0 .SUCCESS "" (some (fileDescriptor, ip))))
    else none
  | .endOfStream connection => do
    let o ← N.clientOf connection
    N.after (N.server.step (.disconnect o))
  | .removeDeadClients closeRet => N.after (N.server.step (.removeDeadClients closeRet))
  | .request connection rands r => do
    let o ← N.clientOf connection
    let id ← N.idOf connection
    if N.server.receives o then
      N.after (N.server.step (.onIncomingMsg1 (to_string id.val) rands r))
    else none

abbrev Net.Step (N : Net) (event : NetEvent) (N' : Net) : Prop := N.step event = some N'

/-- If `event` is a request on a connection, its number goes to the list of the client accepted
    for this connection and to no other list, and is sent on that client's socket only. -/
def Net.Routed (N : Net) (event : NetEvent) (N' : Net) : Prop :=
  ∀ connection rands r, event = .request connection rands r →
    ∃ o c n, N.clientOf connection = some o ∧ N.server.object o = .ok c ∧
      (N'.server.listOf o).Perm (N.server.listOf o ++ [n]) ∧
      (∀ o', o' ≠ o → N'.server.listOf o' = N.server.listOf o') ∧
      N'.server.sent = N.server.sent ++ [(c.sockfd, to_string n)]

/-- If `event` is a request on a connection, the sender's number is the number of clients that
    were accepted before the connection's client and are still listed. -/
def Net.Aligned (N : Net) (event : NetEvent) : Prop :=
  ∀ connection rands r o id, event = .request connection rands r →
    N.clientOf connection = some o → N.idOf connection = some id →
    id.val = (N.server.clients.filter (· < o)).length

/-! ## Positions in an ascending list -/

theorem filter_lt_of_ascending {pre post : List ℕ} {o : ℕ}
    (h : (pre ++ o :: post).Pairwise (· < ·)) : (pre ++ o :: post).filter (· < o) = pre := by
  obtain ⟨-, hpost, hcross⟩ := List.pairwise_append.mp h
  have hpre : pre.filter (· < o) = pre :=
    List.filter_eq_self.mpr fun a ha => decide_eq_true (hcross a ha o List.mem_cons_self)
  have hrest : (o :: post).filter (· < o) = [] := by
    refine List.filter_eq_nil_iff.mpr fun a ha => ?_
    rcases List.mem_cons.mp ha with rfl | ha
    · simp
    · have := (List.pairwise_cons.mp hpost).1 a ha
      simp only [decide_eq_true_eq]
      omega
  rw [List.filter_append, hpre, hrest, List.append_nil]

/-- The position of a member is the number of smaller members. -/
theorem getElem?_eq_some_iff_of_ascending {l : List ℕ} (hl : l.Pairwise (· < ·)) {i o : ℕ} :
    l[i]? = some o ↔ o ∈ l ∧ i = (l.filter (· < o)).length := by
  constructor
  · intro h
    obtain ⟨hlt, hget⟩ := List.getElem?_eq_some_iff.mp h
    have hsplit : l = l.take i ++ o :: l.drop (i + 1) := by
      rw [← hget, List.cons_getElem_drop_succ, List.take_append_drop]
    refine ⟨List.mem_of_getElem? h, ?_⟩
    rw [hsplit] at hl
    have hf := filter_lt_of_ascending hl
    rw [← hsplit] at hf
    rw [hf, List.length_take]
    omega
  · intro h
    obtain ⟨hmem, rfl⟩ := h
    obtain ⟨pre, post, rfl⟩ := List.append_of_mem hmem
    rw [filter_lt_of_ascending hl]
    simp

/-! ## Steps -/

theorem after_eq_some {N N' : Net} {result : Exec Server} (h : N.after result = some N') :
    (∃ s, result = .ok s ∧ N' = { N with server := s }) ∨
      ∃ e, result = .error e ∧ e ≠ .spins ∧ N' = { N with fault := some e } := by
  unfold Net.after at h
  split at h
  · exact .inl ⟨_, rfl, (Option.some.inj h).symm⟩
  · cases h
  · rename_i e hne
    exact .inr ⟨e, rfl, fun he => hne he, (Option.some.inj h).symm⟩

theorem after_server {N N' : Net} {s : Server} {op : Op} (hs : N.server = s)
    (h : N.after (s.step op) = some N') : N'.server = s ∨ s.Step op N'.server := by
  rcases after_eq_some h with ⟨s', hok, rfl⟩ | ⟨e, -, -, rfl⟩
  · exact .inr hok
  · exact .inl hs

/-- A step of the net is a step of its server or leaves it alone. -/
theorem net_step_server {N N' : Net} {event : NetEvent} (h : N.Step event N') :
    N'.server = N.server ∨ ∃ op, N.server.Step op N'.server := by
  unfold Net.Step Net.step at h
  split at h
  · cases h
  cases event with
  | startProcess =>
    cases h
    exact .inl rfl
  | construct process =>
    simp only [Option.bind_eq_bind, Option.bind_eq_some_iff] at h
    obtain ⟨id, -, next, -, heq⟩ := h
    cases heq
    exact .inl rfl
  | connectTo tcpClient =>
    dsimp only at h
    split at h
    · cases h
      exact .inl rfl
    · cases h
  | acceptClient fileDescriptor ip =>
    dsimp only at h
    split at h
    · exact (after_server rfl h).imp_right fun hop => ⟨_, hop⟩
    · cases h
  | endOfStream connection =>
    simp only [Option.bind_eq_bind, Option.bind_eq_some_iff] at h
    obtain ⟨o, -, h⟩ := h
    exact (after_server rfl h).imp_right fun hop => ⟨_, hop⟩
  | removeDeadClients closeRet =>
    exact (after_server rfl h).imp_right fun hop => ⟨_, hop⟩
  | request connection rands r =>
    simp only [Option.bind_eq_bind, Option.bind_eq_some_iff] at h
    obtain ⟨o, -, id, -, h⟩ := h
    split at h
    · exact (after_server rfl h).imp_right fun hop => ⟨_, hop⟩
    · cases h

theorem net_step_inv {N N' : Net} (hN : N.server.Inv) {event : NetEvent} (h : N.Step event N') :
    N'.server.Inv := by
  rcases net_step_server h with hsame | ⟨op, hop⟩
  · rw [hsame]
    exact hN
  · exact step_inv hN hop

/-- A request comes from a client that exists, and runs the handler on the sender's number. -/
theorem request_step {N N' : Net} {connection : ℕ} {rands : List ℕ} {r : SendResult}
    (h : N.Step (.request connection rands r) N') :
    ∃ o id c, N.clientOf connection = some o ∧ N.idOf connection = some id ∧
      N.server.object o = .ok c ∧
      N.after (N.server.onIncomingMsg1 (to_string id.val) rands r) = some N' := by
  unfold Net.Step Net.step at h
  split at h
  · cases h
  simp only [Option.bind_eq_bind, Option.bind_eq_some_iff] at h
  obtain ⟨o, ho, id, hid, h⟩ := h
  split at h
  · rename_i hrec
    unfold Server.receives at hrec
    split at hrec
    · rename_i c hc
      rw [Bool.and_eq_true, Bool.not_eq_true'] at hrec
      exact ⟨o, id, c, ho, hid, object_ok_iff.mpr ⟨hc, hrec.2⟩, h⟩
    · cases hrec
  · cases h

/-- One step from a state that keeps the server's invariant. -/
theorem step_routed_iff {N N' : Net} (hN : N.server.Inv) {event : NetEvent}
    (h : N.Step event N') : N.Routed event N' ↔ N.Aligned event := by
  constructor
  · intro hrouted connection rands r o id hev ho hid
    subst hev
    obtain ⟨o', -, n, ho', -, hperm, hothers, -⟩ := hrouted connection rands r rfl
    rw [ho] at ho'
    cases ho'
    obtain ⟨o', id', -, -, hid', -, hafter⟩ := request_step h
    rw [hid] at hid'
    cases hid'
    rcases after_eq_some hafter with ⟨s', hok, rfl⟩ | ⟨e, -, -, rfl⟩
    · -- the client at the sender's index gets the number, so it is the connection's client
      obtain ⟨ID, o', c', m, l, hmsg, hat, -, -, hserve⟩ := onIncomingMsg1_ok hN.separate hok
      rw [decodeID_to_string] at hmsg
      cases hmsg
      have hsame : o' = o := by
        by_contra hne
        have hlen := hserve.perm.length_eq
        rw [← hserve.relists.listOf, hothers o' hne] at hlen
        simp at hlen
      rw [hsame] at hat
      obtain ⟨h0, hget⟩ := at_ok_iff.mp hat
      rw [← ((getElem?_eq_some_iff_of_ascending hN.ascending).mp hget).2]
      exact (Int.toNat_of_nonneg h0).symm
    · -- the server ended: no list has changed
      have hlen := hperm.length_eq
      simp at hlen
  · intro haligned connection rands r hev
    subst hev
    obtain ⟨o, id, c, ho, hid, hc, hafter⟩ := request_step h
    have hpos := haligned connection rands r o id rfl ho hid
    have hat : N.server.at id = .ok o := by
      refine at_ok_iff.mpr ⟨by omega, ?_⟩
      refine (getElem?_eq_some_iff_of_ascending hN.ascending).mpr
        ⟨(hN.mem_iff o).mpr ⟨c, hc⟩, ?_⟩
      rw [hpos]
      exact Int.toNat_natCast _
    cases hn : firstNew id N.server.numbers rands with
    | none =>
      -- the draws bring no new number: the handler has not returned, which is no step
      exfalso
      have hspins : N.server.onIncomingMsg1 (to_string id.val) rands r = .error .spins := by
        unfold Server.onIncomingMsg1 Server.generateNumber
        rw [decodeID_to_string, ok_bind, hat, ok_bind, ok_bind, generateLoop_eq, hn]
        rfl
      rw [hspins] at hafter
      cases hafter
    | some n =>
      obtain ⟨s', l, hok, hserve⟩ :=
        onIncomingMsg1_spec hN.separate (decodeID_to_string id) hat hc hn r
      rw [hok] at hafter
      cases hafter
      refine ⟨o, c, n, ho, hc, ?_, fun o' ho' => hserve.relists.listOf_ne ho',
        hserve.sent c hc⟩
      show (s'.listOf o).Perm _
      rw [hserve.relists.listOf]
      exact hserve.perm

/-! ## Runs -/

/-- In a run from the start every request is served for its own connection if and only if at
    every request the sender's number is the number of clients that were accepted before its
    own and are still listed. -/
theorem routed_run_iff {sockfd : ℤ} {events : List NetEvent} {N : Net} :
    Run (Along Net.Step Net.Routed) (.init sockfd) events N ↔
      Run (Along Net.Step fun N event _ => N.Aligned event) (.init sockfd) events N :=
  run_along_congr (I := fun N => N.server.Inv) (fun _ _ _ hN hstep _ => net_step_inv hN hstep)
    (fun _ _ _ hN hstep => step_routed_iff hN hstep) (inv_init sockfd)

/-- Two processes, one client each, both of number 0: the number that the second one asks for
    goes to the first one's list, and is sent to the first one. -/
theorem request_of_second_process :
    ∃ N N' : Net, Reaches Net.Step (.init 3) N ∧ N.clientOf 1 = some 1 ∧
      N.Step (.request 1 [3] ⟨1, ""⟩) N' ∧ N'.server.listOf 0 = [6] ∧
      N'.server.listOf 1 = [] ∧ N'.server.sent = [(4, to_string 6)] ∧
      ¬ N.Routed (.request 1 [3] ⟨1, ""⟩) N' := by
  have run : ∃ N N', Run Net.Step (.init 3)
      [.startProcess, .startProcess, .construct 0, .construct 1, .connectTo 0, .connectTo 1,
        .acceptClient 4 "10.0.0.1", .acceptClient 5 "10.0.0.2"] N ∧ N.clientOf 1 = some 1 ∧
      N.Step (.request 1 [3] ⟨1, ""⟩) N' ∧ N'.server.listOf 0 = [6] ∧
      N'.server.listOf 1 = [] ∧ N'.server.sent = [(4, to_string 6)] :=
    ⟨_, _, .cons rfl (.cons rfl (.cons rfl (.cons rfl (.cons rfl (.cons rfl (.cons rfl
      (.cons rfl (.nil _)))))))), rfl, rfl, rfl, rfl, rfl⟩
  obtain ⟨N, N', hrun, hclient, hstep, h0, h1, hsent⟩ := run
  refine ⟨N, N', ⟨_, hrun⟩, hclient, hstep, h0, h1, hsent, fun hrouted => ?_⟩
  obtain ⟨o, _, n, ho, _, hperm, _, _⟩ := hrouted 1 [3] ⟨1, ""⟩ rfl
  rw [hclient] at ho
  cases ho
  rw [h1] at hperm
  have hlen := hperm.length_eq
  simp at hlen

end TCPServer
