/-
  On which sockets the sending functions call `::send`.

  `sendToClient` for an address takes the first listed client that has it and does not look at
  the flag, which the `find_if` of the remover does; so it reaches a connected client exactly
  when that first client is connected (`sendToClientIP_reaches_iff`). `sendToAllClients` stops
  at the first result that it does not take for a complete transfer; so it reaches every
  connected client exactly when no short count comes before one (`sendToAll_reaches_iff`).

  A socket is a descriptor, and the listed clients have different ones: `::accept` gives none
  that is in use (`FreshAccept`).
-/
import TCPServer.Sending
import TCPServer.Sockets

namespace TCPServer

open Runs

/-! ## One client by its address -/

/-- A connected client with the address is listed. -/
def Server.HasConnected (s : Server) (clientIP : String) : Prop :=
  ∃ o ∈ s.clients, s.HasIP clientIP o ∧ s.isConnected o = true

/-- If a connected client with the address is listed, one such gets the one `::send`; if no
    client with the address is listed, there is none and the call fails. -/
def Server.ReachesIP (s : Server) (clientIP : String) (msg : Bytes) (r : SendResult) : Prop :=
  ∃ p s', s.sendToClientIP clientIP msg r = .ok (p, s') ∧
    (s.HasConnected clientIP → ∃ o ∈ s.clients, s.HasIP clientIP o ∧ s.isConnected o = true ∧
      s'.sent = s.sent ++ [(s.fd o, msg)]) ∧
    ((∀ o ∈ s.clients, ¬ s.HasIP clientIP o) → p.successFlag = false ∧ s'.sent = s.sent)

/-- If a connected client with the address is listed, the first client with the address is
    connected. -/
def Server.FirstConnected (s : Server) (clientIP : String) : Prop :=
  s.HasConnected clientIP →
    ∃ o, s.FirstWithIP clientIP s.clients o ∧ s.isConnected o = true

section ByAddress

variable {s : Server}

/-- `sendToClient` calls `::send` on the socket of its client and reports what it takes the
    result for. -/
theorem sendToClient_socket {o : ClientPtr} (ho : s.Alive o) (msg : Bytes) (r : SendResult) :
    ∃ p, s.sendToClient o msg r = .ok (p, { s with sent := s.sent ++ [(s.fd o, msg)] }) ∧
      (p.successFlag = true ↔ r.TakenAsSent msg.length) := by
  obtain ⟨p, sent, hsend, hp⟩ := sendToClient_result ho msg r
  obtain ⟨c, hc⟩ := ho
  obtain ⟨p', hsend'⟩ := sendToClient_spec hc msg r
  rw [hsend'] at hsend
  cases hsend
  rw [fd_of_object hc]
  exact ⟨p, hsend', hp⟩

theorem reachesIP_iff (halive : ∀ o ∈ s.clients, s.Alive o) (hdistinct : s.DistinctSockets)
    (clientIP : String) (msg : Bytes) (r : SendResult) :
    s.ReachesIP clientIP msg r ↔ s.FirstConnected clientIP := by
  rcases findIP_first clientIP halive with ⟨o, hfirst, hfind⟩ | ⟨hnone, hfind⟩
  · obtain ⟨p, hsend, -⟩ := sendToClient_socket (halive o hfirst.mem.1) msg r
    have hcall : s.sendToClientIP clientIP msg r =
        .ok (p, { s with sent := s.sent ++ [(s.fd o, msg)] }) := by
      unfold Server.sendToClientIP
      rw [hfind, ok_bind]
      exact hsend
    constructor
    · rintro ⟨p', s', hcall', hreaches, -⟩ hconnected
      obtain ⟨o', ho', -, hflag, hsent⟩ := hreaches hconnected
      rw [hcall] at hcall'
      cases hcall'
      have hsocket : s.fd o' = s.fd o := by
        have hlast := List.append_cancel_left hsent
        exact (Prod.mk.inj (List.cons.inj hlast).1).1.symm
      rw [fd_inj hdistinct ho' hfirst.mem.1 hsocket] at hflag
      exact ⟨o, hfirst, hflag⟩
    · intro hright
      refine ⟨p, _, hcall, fun hconnected => ?_, fun hnone => ?_⟩
      · obtain ⟨o', hfirst', hflag⟩ := hright hconnected
        rw [hfirst.unique hfirst'] at hflag
        exact ⟨o, hfirst.mem.1, hfirst.mem.2, hflag, rfl⟩
      · exact absurd hfirst.mem.2 (hnone o hfirst.mem.1)
  · have hnot : ¬ s.HasConnected clientIP := by
      rintro ⟨o, ho, hip, -⟩
      exact hnone o ho hip
    have hcall : s.sendToClientIP clientIP msg r = .ok (.failure "client not found", s) := by
      unfold Server.sendToClientIP
      rw [hfind, ok_bind]
      rfl
    refine iff_of_true ⟨_, s, hcall, fun h => absurd h hnot, fun _ => ⟨rfl, rfl⟩⟩ ?_
    exact fun h => absurd h hnot

end ByAddress

/-- For every state reached by accepts, disconnections, sweeps and requests, where `::accept`
    gives fresh descriptors, every address and every result: `sendToClient` reaches a connected
    client with the address if one is listed, and fails if none with it is, if and only if the
    first listed client with the address is connected, unless none with it is. -/
theorem sendToClientIP_reaches_iff {sockfd : ℤ} {s : Server}
    (h : Reaches (Along Server.Step FreshAccept) (.init sockfd) s) (clientIP : String)
    (msg : Bytes) (r : SendResult) :
    s.ReachesIP clientIP msg r ↔ s.FirstConnected clientIP := by
  obtain ⟨hi, hdistinct⟩ := reaches_distinctSockets h
  exact reachesIP_iff (fun _ ho => hi.listed ho) hdistinct clientIP msg r

/-- A second client connects from the address of the first. -/
def twoFromOneAddress : Server :=
  ((Server.init 3).addClient 4 "10.0.0.2").addClient 5 "10.0.0.2"

/-- A client connects again from its address before the sweep. -/
def reconnected : Server :=
  (((Server.init 3).addClient 4 "10.0.0.2").disconnect 0).addClient 5 "10.0.0.2"

theorem sendToClientIP_reaches_first :
    twoFromOneAddress.ReachesIP "10.0.0.2" [104, 105] ⟨2, ""⟩ := by
  have hreach : Reaches (Along Server.Step FreshAccept) (.init 3) twoFromOneAddress := by
    refine ⟨[.acceptClient 0 .SUCCESS "" (some (4, "10.0.0.2")),
      .acceptClient 0 .SUCCESS "" (some (5, "10.0.0.2"))],
      .cons ⟨rfl, fun fd ip heq => ?_⟩ (.cons ⟨rfl, fun fd ip heq => ?_⟩ (.nil _))⟩
    · exact List.not_mem_nil
    · have hfd : 5 = fd := by
        have hobject := congrArg (fun t : Server => (t.objects[1]?).map Client.sockfd) heq
        exact Option.some.inj hobject
      rw [← hfd]
      decide
  refine (sendToClientIP_reaches_iff hreach _ _ _).mpr fun _ => ?_
  exact ⟨0, ⟨[], [1], rfl, ⟨_, rfl, rfl⟩, nofun⟩, rfl⟩

/-- The message for the connected client goes to the socket of its dead predecessor. -/
theorem sendToClientIP_misses_reconnected :
    ∃ s : Server, Reaches Server.Step (.init 3) s ∧ s.DistinctSockets ∧
      ¬ s.ReachesIP "10.0.0.2" [104, 105] ⟨2, ""⟩ := by
  refine ⟨reconnected, ⟨[.acceptClient 0 .SUCCESS "" (some (4, "10.0.0.2")), .disconnect 0,
    .acceptClient 0 .SUCCESS "" (some (5, "10.0.0.2"))],
    .cons rfl (.cons rfl (.cons rfl (.nil _)))⟩, by decide, ?_⟩
  rintro ⟨p, s', hcall, hreaches, -⟩
  obtain ⟨o, ho, -, hflag, hsent⟩ := hreaches ⟨1, by decide, ⟨_, rfl, rfl⟩, rfl⟩
  have hs' : s'.sent = [(4, [104, 105])] := by
    have h := congrArg (Except.map fun q : PipeRet × Server => q.2.sent) hcall
    exact (Except.ok.inj h).symm
  rw [hs'] at hsent
  rcases List.mem_cons.mp ho with rfl | ho
  · cases hflag
  · rw [List.mem_singleton.mp ho] at hsent
    exact absurd hsent (by decide)

/-! ## All clients -/

/-- `::send` is called with the message for every connected client in the list, and only once
    on its socket. -/
def Server.ReachesAll (s : Server) (msg : Bytes) (results : ℕ → SendResult) : Prop :=
  ∃ p s' calls, s.sendToAllClients msg results = .ok (p, s') ∧ s'.sent = s.sent ++ calls ∧
    ∀ o ∈ s.clients, s.isConnected o = true →
      (s.fd o, msg) ∈ calls ∧ (calls.map Prod.fst).count (s.fd o) = 1

/-- No short count for a client that has a connected one behind it in the list. -/
def Server.NoShortBefore (s : Server) (size : ℕ) (results : ℕ → SendResult) : Prop :=
  ∀ i j o, i < j → s.clients[j]? = some o → s.isConnected o = true → ¬ (results i).Short size

/-- The clients the loop comes to from position `i` on. -/
def served (size : ℕ) (results : ℕ → SendResult) : ℕ → List ClientPtr → List ClientPtr
  | _, [] => []
  | i, client :: clients =>
    client :: if size ≤ sizeT (results i).ret then served size results (i + 1) clients else []

section All

variable {s : Server} {size : ℕ} {results : ℕ → SendResult} {clients : List ClientPtr}

theorem served_sublist (size : ℕ) (results : ℕ → SendResult) (i : ℕ)
    (clients : List ClientPtr) : (served size results i clients).Sublist clients := by
  induction clients generalizing i with
  | nil => exact List.Sublist.refl _
  | cons client clients ih =>
    unfold served
    refine List.Sublist.cons_cons client ?_
    split
    · exact ih (i + 1)
    · exact List.nil_sublist _

/-- The loop comes to a client exactly when all results before it are taken as sent. -/
theorem mem_served_iff (hnodup : clients.Nodup) {i j : ℕ} {o : ClientPtr}
    (ho : clients[j]? = some o) :
    o ∈ served size results i clients ↔ ∀ k < j, (results (i + k)).TakenAsSent size := by
  induction clients generalizing i j with
  | nil => cases ho
  | cons client clients ih =>
    unfold served
    cases j with
    | zero =>
      cases ho
      exact iff_of_true List.mem_cons_self nofun
    | succ j =>
      have hget : clients[j]? = some o := ho
      have hne : o ≠ client := by
        rintro rfl
        exact (List.nodup_cons.mp hnodup).1 (List.mem_of_getElem? hget)
      rw [List.mem_cons, or_iff_right hne, Nat.forall_lt_succ_left']
      by_cases htaken : size ≤ sizeT (results i).ret
      · rw [if_pos htaken, ih (List.nodup_cons.mp hnodup).2 hget]
        simp only [SendResult.TakenAsSent, Nat.add_zero, htaken, true_and, Nat.add_assoc,
          Nat.add_comm 1]
      · rw [if_neg htaken]
        exact iff_of_false List.not_mem_nil fun h => htaken h.1

/-- The loop calls `::send` with the message for the clients it comes to, in their order. -/
theorem sendLoop_served (msg : Bytes) (results : ℕ → SendResult)
    (hs : ∀ o ∈ clients, s.Alive o) (i : ℕ) :
    ∃ p, Server.sendLoop msg results i clients s = .ok (p, { s with
      sent := s.sent ++ (served msg.length results i clients).map fun o => (s.fd o, msg) }) := by
  induction clients generalizing i s with
  | nil =>
    refine ⟨.success "", ?_⟩
    unfold Server.sendLoop served
    rw [List.map_nil, List.append_nil]
    rfl
  | cons client clients ih =>
    obtain ⟨p, hsend, hp⟩ :=
      sendToClient_socket (hs client List.mem_cons_self) msg (results i)
    unfold Server.sendLoop served
    rw [hsend, ok_bind]
    dsimp only
    by_cases htaken : msg.length ≤ sizeT (results i).ret
    · have hflag : p.successFlag = true := hp.mpr htaken
      set s₁ : Server := { s with sent := s.sent ++ [(s.fd client, msg)] }
      have halive : ∀ o ∈ clients, s₁.Alive o := fun o ho =>
        alive_sent (hs o (List.mem_cons_of_mem _ ho)) _
      obtain ⟨q, hloop⟩ := ih halive (i + 1)
      refine ⟨q, ?_⟩
      rw [hflag, if_pos htaken, List.map_cons]
      refine hloop.trans ?_
      simp only [s₁, List.append_assoc, List.singleton_append]
      rfl
    · have hflag : p.successFlag = false := by
        rw [← Bool.not_eq_true, hp]
        exact htaken
      refine ⟨p, ?_⟩
      rw [hflag, if_neg htaken]
      rfl

/-- Every connected client is reached exactly when the loop comes to all of them. -/
theorem reachesAll_iff_served (halive : ∀ o ∈ s.clients, s.Alive o)
    (hdistinct : s.DistinctSockets) (msg : Bytes) (results : ℕ → SendResult) :
    s.ReachesAll msg results ↔
      ∀ o ∈ s.clients, s.isConnected o = true → o ∈ served msg.length results 0 s.clients := by
  obtain ⟨p, hloop⟩ := sendLoop_served (s := s) msg results halive 0
  set os := served msg.length results 0 s.clients
  have hsub : os.Sublist s.clients := served_sublist _ _ _ _
  have hsockets : (os.map s.fd).Nodup := hdistinct.sublist (hsub.map s.fd)
  have hcalls : (os.map fun o => (s.fd o, msg)).map Prod.fst = os.map s.fd := by
    rw [List.map_map]
    rfl
  constructor
  · rintro ⟨p', s', calls, hcall, hsent, hall⟩ o ho hflag
    obtain ⟨hmem, -⟩ := hall o ho hflag
    unfold Server.sendToAllClients at hcall
    rw [hloop] at hcall
    cases hcall
    rw [← List.append_cancel_left hsent, List.mem_map] at hmem
    obtain ⟨o', ho', heq⟩ := hmem
    rwa [← fd_inj hdistinct (hsub.subset ho') ho (Prod.mk.inj heq).1]
  · intro hall
    refine ⟨p, _, _, hloop, rfl, fun o ho hflag => ?_⟩
    have hmem := hall o ho hflag
    refine ⟨List.mem_map_of_mem hmem, ?_⟩
    rw [hcalls]
    exact List.count_eq_one_of_mem hsockets (List.mem_map_of_mem hmem)

/-- For every list of clients with descriptors of their own, every message and all results of
    the calls of `::send`: `sendToAllClients` calls `::send` once, with the whole message, on
    the socket of every connected client in the list, if and only if no short count for a
    client comes before a connected one in the list. -/
theorem sendToAll_reaches_iff {msg : Bytes} (halive : ∀ o ∈ s.clients, s.Alive o)
    (hdistinct : s.DistinctSockets) (hsize : msg.length < 2 ^ 64)
    (hr : ∀ i < s.clients.length, (results i).Valid msg.length) :
    s.ReachesAll msg results ↔ s.NoShortBefore msg.length results := by
  have hnodup : s.clients.Nodup := hdistinct.of_map _
  rw [reachesAll_iff_served halive hdistinct]
  constructor
  · intro hall i j o hij hget hflag
    have hmem := hall o (List.mem_of_getElem? hget) hflag
    have htaken := (mem_served_iff hnodup hget).mp hmem i hij
    rw [Nat.zero_add] at htaken
    intro hshort
    have hlt := Nat.lt_trans hij (lt_of_getElem? hget)
    exact (not_takenAsSent_iff hsize (hr i hlt)).mpr hshort htaken
  · intro hshort o ho hflag
    obtain ⟨j, hget⟩ := List.getElem?_of_mem ho
    refine (mem_served_iff hnodup hget).mpr fun i hij => ?_
    rw [Nat.zero_add]
    by_contra htaken
    have hlt := Nat.lt_trans hij (lt_of_getElem? hget)
    exact hshort i j o hij hget hflag ((not_takenAsSent_iff hsize (hr i hlt)).mp htaken)

end All

theorem twoFromOneAddress_alive : ∀ o ∈ twoFromOneAddress.clients, twoFromOneAddress.Alive o := by
  intro o ho
  rcases List.mem_cons.mp ho with rfl | ho
  · exact ⟨_, rfl⟩
  · rw [List.mem_singleton.mp ho]
    exact ⟨_, rfl⟩

/-- Both transfers are complete. -/
theorem sendToAll_reaches_both :
    twoFromOneAddress.ReachesAll [104, 105] fun _ => ⟨2, ""⟩ := by
  refine (sendToAll_reaches_iff twoFromOneAddress_alive (by decide) (by decide) ?_).mpr ?_
  · exact fun _ _ => ⟨by decide, by decide⟩
  · exact fun _ _ _ _ _ _ hshort => absurd hshort.2 (Int.lt_irrefl 2)

/-- The first transfer is short, and there is no `::send` for the second client. -/
theorem sendToAll_misses_second :
    ¬ twoFromOneAddress.ReachesAll [104, 105] fun i => if i = 0 then ⟨1, ""⟩ else ⟨2, ""⟩ := by
  rintro ⟨p, s', calls, hcall, hsent, hall⟩
  obtain ⟨hmem, -⟩ := hall 1 (by decide) rfl
  have hs' : s'.sent = [(4, [104, 105])] := by
    have h := congrArg (Except.map fun q : PipeRet × Server => q.2.sent) hcall
    exact (Except.ok.inj h).symm
  rw [hs', show twoFromOneAddress.sent = [] from rfl, List.nil_append] at hsent
  rw [← hsent] at hmem
  exact absurd hmem (by decide)

end TCPServer
