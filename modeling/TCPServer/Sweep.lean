/-
  One sweep of `removeDeadClients` while clients go on disconnecting.

  The sweep reads the flag of one client after another, and other threads may clear flags
  between two reads; `events t` are the clients whose flags are cleared right before read
  number `t`. The loop ends when `find_if` finds nobody or when the client it has erased was
  the last: the iterator given to `erase` is then the new end. No dead client is left in the
  second case either, as `find_if` has passed connected clients only (`Server.Finds`).

  What a sweep does is a run of single steps (`Server.SweepStep`); `sweep_run` says what such
  a run leaves, and `sweepLoop_spec` that the loop ends and misses nobody who was dead when it
  began. Without events it is the sweep of the other modules (`sweep_quiet`).
-/
import TCPServer.Sockets

namespace TCPServer

open Runs

/-! ## The loop -/

/-- The flags of the clients are cleared, one after another. -/
def Server.disconnectAll (s : Server) (clients : List ClientPtr) : Server :=
  clients.foldl Server.disconnect s

/-- `std::find_if` from position `i` on, with read number `t` next: the position found and the
    number of the next read. -/
def Server.findDead (events : ℕ → List ClientPtr) :
    ℕ → ℕ → List ClientPtr → Server → ℕ × ℕ × Server
  | t, i, [], s => (i, t, s)
  | t, i, client :: clients, s =>
    let s := s.disconnectAll (events t)
    if !s.isConnected client then (i, t + 1, s)
    else Server.findDead events (t + 1) (i + 1) clients s

/-- The do-while loop, with read number `t` next. -/
def Server.sweepLoop (events : ℕ → List ClientPtr) (closeRet : ℤ → ℤ) :
    ℕ → ℕ → Server → Exec (ℕ × Server)
  | 0, _, _ => .error .spins
  | k + 1, t, s =>
    let (clientToRemove, t, s) := s.findDead events t 0 s.clients
    match s.clients[clientToRemove]? with
    | none => .ok (t, s)
    | some o => do
      let s ← s.closeClient o closeRet
      let s := s.setObject o fun c => { c with deleted := true }
      let s := { s with clients := s.clients.eraseIdx clientToRemove }
      if clientToRemove ≠ s.clients.length then s.sweepLoop events closeRet k t
      else pure (t, s)

/-- One sweep of `TcpServer::removeDeadClients` with disconnections in between. -/
def Server.sweep (s : Server) (events : ℕ → List ClientPtr) (closeRet : ℤ → ℤ) :
    Exec (ℕ × Server) :=
  s.sweepLoop events closeRet (s.clients.length + 1) 0

/-! ## What can happen in a sweep -/

inductive SweepLabel where
  | disconnects (client : ClientPtr)
  /-- The client is closed, deleted and erased. -/
  | removes (client : ClientPtr)
  deriving DecidableEq

def SweepLabel.removed : SweepLabel → Option ClientPtr
  | .disconnects _ => none
  | .removes o => some o

/-- Who is removed, in order. -/
def removed (ls : List SweepLabel) : List ClientPtr := ls.filterMap SweepLabel.removed

inductive Server.SweepStep (s : Server) : SweepLabel → Server → Prop
  | disconnects (o : ClientPtr) : s.SweepStep (.disconnects o) (s.disconnect o)
  | removes {i : ℕ} {o : ClientPtr} {c : Client} : s.clients[i]? = some o →
      s.object o = .ok c → c.isConnected = false →
      s.SweepStep (.removes o) (s.erase i o c.sockfd)

/-- From `s` to `s'` exactly the clients `os` were closed and removed, in this order. -/
structure Server.Swept (s : Server) (os : List ClientPtr) (s' : Server) : Prop where
  nodup : os.Nodup
  listed : ∀ o ∈ os, o ∈ s.clients
  clients : s'.clients = s.clients.filter (· ∉ os)
  closed : s'.closed = s.closed ++ os.map s.fd
  dead : ∀ o ∈ os, s'.isConnected o = false
  flags : ∀ o, s.isConnected o = false → s'.isConnected o = false

section Run

variable {s s' m : Server} {o : ClientPtr} {os : List ClientPtr} {ls : List SweepLabel}

theorem disconnect_closed (s : Server) (o : ClientPtr) :
    (s.disconnect o).closed = s.closed := by
  obtain ⟨objects, num, h⟩ := disconnect_effect s o
  rw [h]

/-- A flag that is cleared stays so. -/
theorem isConnected_disconnect {o' : ClientPtr} (h : s.isConnected o' = false) :
    (s.disconnect o).isConnected o' = false := by
  unfold Server.disconnect
  split
  · split
    · show (s.setObject o _).isConnected o' = false
      by_cases ho : o' = o
      · rw [ho]
        exact isConnected_clear_self
      · rw [isConnected_setObject_ne ho, h]
    · exact h
  · exact h

theorem alive_disconnect {o' : ClientPtr} (h : s.Alive o') : (s.disconnect o).Alive o' := by
  unfold Server.disconnect
  split
  · split
    · exact (alive_setObject_iff o (fun c => { c with isConnected := false })
        (fun _ => rfl) o').mpr h
    · exact h
  · exact h

theorem isConnected_erase (i : ℕ) (o : ClientPtr) (sockfd : ℤ) (o' : ClientPtr) :
    (s.erase i o sockfd).isConnected o' = s.isConnected o' :=
  isConnected_setObject_of_eq o (fun c => { c with deleted := true }) (fun _ => rfl) o'

theorem clients_erase (hnodup : s.clients.Nodup) {i : ℕ} (hi : s.clients[i]? = some o)
    (sockfd : ℤ) : (s.erase i o sockfd).clients = s.clients.filter (· ≠ o) := by
  obtain ⟨hlt, hget⟩ := List.getElem?_eq_some_iff.mp hi
  show s.clients.eraseIdx i = _
  rw [← hnodup.erase_getElem i hlt, hget, hnodup.erase_eq_filter]
  exact List.filter_congr fun a _ => by rw [bne, beq_eq_decide, decide_not]

theorem isConnected_of_object {c : Client} (hc : s.object o = .ok c) :
    s.isConnected o = c.isConnected := by
  unfold Server.isConnected
  rw [(object_ok_iff.mp hc).1]

theorem Server.Swept.refl (s : Server) : s.Swept [] s where
  nodup := List.nodup_nil
  listed := nofun
  clients := by simp
  closed := by simp
  dead := nofun
  flags := fun _ => id

/-- A disconnection first. -/
theorem Server.Swept.disconnect (h : (s.disconnect o).Swept os s') : s.Swept os s' where
  nodup := h.nodup
  listed := fun o' ho' => disconnect_clients s o ▸ h.listed o' ho'
  clients := by rw [h.clients, disconnect_clients]
  closed := by
    rw [h.closed, disconnect_closed]
    congr 2
    exact funext fun o' => fd_disconnect o o'
  dead := h.dead
  flags := fun o' ho' => h.flags o' (isConnected_disconnect ho')

/-- The removal of a dead client first. -/
theorem Server.Swept.remove (hnodup : s.clients.Nodup) {i : ℕ} {c : Client}
    (hi : s.clients[i]? = some o) (hc : s.object o = .ok c) (hdead : c.isConnected = false)
    (h : (s.erase i o c.sockfd).Swept os s') : s.Swept (o :: os) s' := by
  have hclients := clients_erase hnodup hi c.sockfd
  have hlisted : ∀ o' ∈ os, o' ∈ s.clients ∧ o' ≠ o := fun o' ho' => by
    have hmem := h.listed o' ho'
    rw [hclients, List.mem_filter] at hmem
    exact ⟨hmem.1, of_decide_eq_true hmem.2⟩
  have hflag : s.isConnected o = false := (isConnected_of_object hc).trans hdead
  refine ⟨List.nodup_cons.mpr ⟨fun ho => (hlisted o ho).2 rfl, h.nodup⟩, ?_, ?_, ?_, ?_, ?_⟩
  · exact List.forall_mem_cons.mpr
      ⟨List.mem_of_getElem? hi, fun o' ho' => (hlisted o' ho').1⟩
  · rw [h.clients, hclients, List.filter_filter]
    refine List.filter_congr fun a _ => ?_
    simp [not_or, Bool.and_comm]
  · have hfd : (s.erase i o c.sockfd).fd = s.fd := funext fun o' => fd_erase i o c.sockfd o'
    have hclosed : (s.erase i o c.sockfd).closed = s.closed ++ [c.sockfd] := rfl
    rw [h.closed, hfd, hclosed, List.map_cons, fd_of_object hc, List.append_assoc,
      List.singleton_append]
  · refine List.forall_mem_cons.mpr ⟨h.flags o ?_, h.dead⟩
    rw [isConnected_erase, hflag]
  · intro o' ho'
    refine h.flags o' ?_
    rw [isConnected_erase, ho']

/-- What any run of disconnections and removals leaves. -/
theorem sweep_run (h : Run Server.SweepStep s ls s') (hnodup : s.clients.Nodup) :
    s.Swept (removed ls) s' := by
  induction h with
  | nil s => exact .refl s
  | cons hl _ ih =>
    cases hl with
    | disconnects o => exact (ih (by rwa [disconnect_clients])).disconnect
    | removes hi hc hdead =>
      refine .remove hnodup hi hc hdead (ih ?_)
      rw [clients_erase hnodup hi]
      exact hnodup.filter _

end Run

/-! ## The loop ends and misses nobody -/

/-- `find_if` has come to position `n` of the clients: it has passed connected ones only, and
    the one it stands at, if any, is dead. -/
structure Server.Finds (s : Server) (clients : List ClientPtr) (n : ℕ) (s' : Server) :
    Prop where
  run : ∃ ls, Run Server.SweepStep s ls s' ∧ removed ls = []
  le : n ≤ clients.length
  passed : ∀ j o, j < n → clients[j]? = some o → s.isConnected o = true
  dead : ∀ o, clients[n]? = some o → s'.isConnected o = false

section Loop

variable {s s' : Server} {events : ℕ → List ClientPtr} {closeRet : ℤ → ℤ}

/-- A run of disconnections. -/
theorem disconnectAll_run (s : Server) (os : List ClientPtr) :
    ∃ ls, Run Server.SweepStep s ls (s.disconnectAll os) ∧ removed ls = [] := by
  induction os generalizing s with
  | nil => exact ⟨[], .nil s, rfl⟩
  | cons o os ih =>
    obtain ⟨ls, hrun, hnone⟩ := ih (s.disconnect o)
    exact ⟨.disconnects o :: ls, .cons (.disconnects o) hrun, hnone⟩

/-- Flags are only cleared in a run. -/
theorem flags_run {ls : List SweepLabel} (h : Run Server.SweepStep s ls s') {o : ClientPtr}
    (ho : s.isConnected o = false) : s'.isConnected o = false := by
  refine h.invariant (I := fun s => s.isConnected o = false) (fun s l s' hs hl => ?_) ho
  cases hl with
  | disconnects o' => exact isConnected_disconnect hs
  | removes _ _ _ => exact (isConnected_erase _ _ _ _).trans hs

theorem findDead_finds (events : ℕ → List ClientPtr) (t i : ℕ) (clients : List ClientPtr)
    (s : Server) :
    ∃ n t' s', s.findDead events t i clients = (i + n, t', s') ∧ s.Finds clients n s' := by
  induction clients generalizing t i s with
  | nil =>
    refine ⟨0, t, s, rfl, ⟨[], .nil s, rfl⟩, Nat.le_refl 0, nofun, nofun⟩
  | cons client clients ih =>
    obtain ⟨ls, hrun, hnone⟩ := disconnectAll_run s (events t)
    unfold Server.findDead
    dsimp only
    by_cases hflag : (s.disconnectAll (events t)).isConnected client = true
    · obtain ⟨n, t', s', hfind, hfinds⟩ := ih (t + 1) (i + 1) (s.disconnectAll (events t))
      obtain ⟨ls', hrun', hnone'⟩ := hfinds.run
      have hbefore : ∀ {o}, (s.disconnectAll (events t)).isConnected o = true →
          s.isConnected o = true := fun {o} ho => by
        rw [← Bool.not_eq_false]
        intro hdead
        rw [flags_run hrun hdead] at ho
        cases ho
      refine ⟨n + 1, t', s', ?_, ⟨ls ++ ls', hrun.append hrun', ?_⟩,
        Nat.succ_le_succ hfinds.le, fun j o hj ho => ?_, hfinds.dead⟩
      · rw [hflag]
        exact hfind.trans (by rw [Nat.add_assoc, Nat.add_comm 1 n])
      · rw [removed, List.filterMap_append]
        exact List.append_eq_nil_iff.mpr ⟨hnone, hnone'⟩
      · cases j with
        | zero =>
          cases ho
          exact hbefore hflag
        | succ j => exact hbefore (hfinds.passed j o (Nat.lt_of_succ_lt_succ hj) ho)
    · have hdead : (s.disconnectAll (events t)).isConnected client = false := by
        rwa [Bool.not_eq_true] at hflag
      refine ⟨0, t + 1, s.disconnectAll (events t), ?_, ⟨ls, hrun, hnone⟩,
        Nat.zero_le _, nofun, fun o ho => ?_⟩
      · rw [hdead]
        rfl
      · cases ho
        exact hdead

theorem alive_run {ls : List SweepLabel} (h : Run Server.SweepStep s ls s')
    (hnone : removed ls = []) {o : ClientPtr} (ho : s.Alive o) : s'.Alive o := by
  induction h with
  | nil s => exact ho
  | cons hl _ ih =>
    cases hl with
    | disconnects o' => exact ih hnone (alive_disconnect ho)
    | removes _ _ _ => cases hnone

theorem Server.Finds.clients {n : ℕ} (h : s.Finds s.clients n s') (hnodup : s.clients.Nodup) :
    s'.clients = s.clients := by
  obtain ⟨ls, hrun, hnone⟩ := h.run
  rw [(sweep_run hrun hnodup).clients, hnone]
  simp

/-- Who was dead before the search stands at the position found or behind it. -/
theorem Server.Finds.le_of_dead {n j : ℕ} {o : ClientPtr} (h : s.Finds s.clients n s')
    (hj : s.clients[j]? = some o) (hdead : s.isConnected o = false) : n ≤ j := by
  by_contra hlt
  rw [h.passed j o (Nat.lt_of_not_le hlt) hj] at hdead
  cases hdead

/-- The client found is removed: what one round does. -/
theorem Server.Finds.removes {n : ℕ} {o : ClientPtr} (h : s.Finds s.clients n s')
    (halive : ∀ o ∈ s.clients, s.Alive o) (hnodup : s.clients.Nodup)
    (ho : s.clients[n]? = some o) :
    ∃ c ls, s'.object o = .ok c ∧ Run Server.SweepStep s ls (s'.erase n o c.sockfd) ∧
      (s'.erase n o c.sockfd).clients = s.clients.filter (· ≠ o) ∧
      (s'.erase n o c.sockfd).clients.length + 1 = s.clients.length ∧
      ∀ o' ∈ s.clients, o' ≠ o → (s'.erase n o c.sockfd).Alive o' := by
  have hclients := h.clients hnodup
  obtain ⟨ls, hrun, hnone⟩ := h.run
  have hget : s'.clients[n]? = some o := by rw [hclients, ho]
  have hkept : ∀ o' ∈ s.clients, s'.Alive o' := fun o' ho' => alive_run hrun hnone (halive o' ho')
  obtain ⟨c, hc⟩ := hkept o (List.mem_of_getElem? ho)
  have hdead : c.isConnected = false := (isConnected_of_object hc).symm.trans (h.dead o ho)
  refine ⟨c, ls ++ [.removes o], hc, hrun.snoc (.removes hget hc hdead), ?_, ?_, ?_⟩
  · rw [clients_erase (by rwa [hclients]) hget, hclients]
  · have hlt : n < s'.clients.length := lt_of_getElem? hget
    show (s'.clients.eraseIdx n).length + 1 = _
    rw [List.length_eraseIdx_of_lt hlt, hclients]
    rw [hclients] at hlt
    omega
  · intro o' ho' hne
    exact alive_delete_iff.mpr ⟨hkept o' ho', hne⟩

theorem sweepLoop_none {n t t' : ℕ} (hfind : s.findDead events t 0 s.clients = (n, t', s'))
    (hget : s'.clients[n]? = none) (k : ℕ) :
    s.sweepLoop events closeRet (k + 1) t = .ok (t', s') := by
  unfold Server.sweepLoop
  simp only [hfind, hget]

theorem sweepLoop_some (hclose : ∀ fd, closeRet fd ≠ -1) {n t t' : ℕ} {o : ClientPtr}
    {c : Client} (hfind : s.findDead events t 0 s.clients = (n, t', s'))
    (hget : s'.clients[n]? = some o) (hc : s'.object o = .ok c) (k : ℕ) :
    s.sweepLoop events closeRet (k + 1) t =
      if n ≠ (s'.erase n o c.sockfd).clients.length then
        (s'.erase n o c.sockfd).sweepLoop events closeRet k t'
      else .ok (t', s'.erase n o c.sockfd) := by
  have hclosed : s'.closeClient o closeRet =
      .ok { s' with closed := s'.closed ++ [c.sockfd] } := by
    unfold Server.closeClient
    rw [hc, ok_bind, if_neg (hclose c.sockfd)]
    rfl
  conv_lhs => unfold Server.sweepLoop
  simp only [hfind, hget, hclosed, ok_bind]
  rfl

/-- The loop ends within as many rounds as there are clients and one more, and nobody who was
    dead when it began is listed when it ends. -/
theorem sweepLoop_spec (events : ℕ → List ClientPtr) (hclose : ∀ fd, closeRet fd ≠ -1)
    {k : ℕ} (t : ℕ) (hk : s.clients.length < k) (halive : ∀ o ∈ s.clients, s.Alive o)
    (hnodup : s.clients.Nodup) :
    ∃ t' s' ls, s.sweepLoop events closeRet k t = .ok (t', s') ∧
      Run Server.SweepStep s ls s' ∧
      ∀ o ∈ s.clients, s.isConnected o = false → o ∉ s'.clients := by
  induction k generalizing s t with
  | zero => exact absurd hk (Nat.not_lt_zero _)
  | succ k ih =>
    obtain ⟨n, t₁, s₁, hfind, hfinds⟩ := findDead_finds events t 0 s.clients s
    rw [Nat.zero_add] at hfind
    have hclients := hfinds.clients hnodup
    cases hget : s.clients[n]? with
    | none =>
      obtain ⟨ls, hrun, -⟩ := hfinds.run
      refine ⟨t₁, s₁, ls, sweepLoop_none hfind (by rw [hclients, hget]) k, hrun, ?_⟩
      intro o ho hdead
      obtain ⟨j, hj⟩ := List.getElem?_of_mem ho
      have hle := Nat.le_trans (List.getElem?_eq_none_iff.mp hget) (hfinds.le_of_dead hj hdead)
      exact absurd (lt_of_getElem? hj) (Nat.not_lt_of_le hle)
    | some o =>
      obtain ⟨c, ls₁, hc, hrun₁, hclients₁, hlength, halive₁⟩ :=
        hfinds.removes halive hnodup hget
      rw [sweepLoop_some hclose hfind (by rw [hclients, hget]) hc k]
      set s₂ := s₁.erase n o c.sockfd
      have hmem : ∀ o', o' ∈ s₂.clients ↔ o' ∈ s.clients ∧ o' ≠ o := fun o' => by
        rw [hclients₁, List.mem_filter, decide_eq_true_iff]
      by_cases hlast : n = s₂.clients.length
      · -- The erased client was the last, and `find_if` has passed all others.
        rw [if_neg (not_not.mpr hlast)]
        refine ⟨t₁, s₂, ls₁, rfl, hrun₁, fun o' ho' hdead hleft => ?_⟩
        obtain ⟨j, hj⟩ := List.getElem?_of_mem ho'
        have hle := hfinds.le_of_dead hj hdead
        have hlt := lt_of_getElem? hj
        obtain rfl : j = n := by omega
        rw [hget] at hj
        exact ((hmem o').mp hleft).2 (Option.some.inj hj).symm
      · rw [if_pos hlast]
        have hnodup₂ : s₂.clients.Nodup := hclients₁ ▸ hnodup.filter _
        have halive₂ : ∀ o' ∈ s₂.clients, s₂.Alive o' := fun o' ho' => by
          obtain ⟨ho', hne⟩ := (hmem o').mp ho'
          exact halive₁ o' ho' hne
        obtain ⟨t', s', ls, hloop, hrun, hgone⟩ := ih t₁ (by omega) halive₂ hnodup₂
        refine ⟨t', s', ls₁ ++ ls, hloop, hrun₁.append hrun, fun o' _ hdead hleft => ?_⟩
        have hkept : o' ∈ s₂.clients := by
          rw [(sweep_run hrun hnodup₂).clients] at hleft
          exact (List.mem_filter.mp hleft).1
        exact hgone o' hkept (flags_run hrun₁ hdead) hleft

end Loop

/-- For every list of clients and every pattern of flags that are cleared during one sweep,
    where `::close` does not fail: the loop ends, after no more removals than there are clients.
    The clients that were dead at the beginning are among those removed, each of which was dead
    and is closed once; the others keep their order. If no flag has changed, they are the
    connected ones. -/
theorem sweep_leaves {s : Server} (halive : ∀ o ∈ s.clients, s.Alive o)
    (hnodup : s.clients.Nodup) (events : ℕ → List ClientPtr) {closeRet : ℤ → ℤ}
    (hclose : ∀ fd, closeRet fd ≠ -1) :
    ∃ t s' ls, s.sweep events closeRet = .ok (t, s') ∧ Run Server.SweepStep s ls s' ∧
      (removed ls).length ≤ s.clients.length ∧ s.Swept (removed ls) s' ∧
      (∀ o ∈ s.clients, s.isConnected o = false → o ∈ removed ls) ∧
      ((∀ o ∈ s.clients, s'.isConnected o = s.isConnected o) →
        s'.clients = s.clients.filter s.isConnected) := by
  obtain ⟨t, s', ls, hloop, hrun, hgone⟩ :=
    sweepLoop_spec events hclose 0 (Nat.lt_succ_self _) halive hnodup
  have hswept := sweep_run hrun hnodup
  have hdead : ∀ o ∈ s.clients, s.isConnected o = false → o ∈ removed ls := fun o ho hflag => by
    by_contra hnot
    refine hgone o ho hflag ?_
    rw [hswept.clients]
    exact List.mem_filter.mpr ⟨ho, decide_eq_true hnot⟩
  refine ⟨t, s', ls, hloop, hrun, ?_, hswept, hdead, fun hsame => ?_⟩
  · exact (List.subperm_of_subset hswept.nodup hswept.listed).length_le
  · rw [hswept.clients]
    refine List.filter_congr fun o ho => ?_
    cases hflag : s.isConnected o with
    | false => exact decide_eq_false (not_not.mpr (hdead o ho hflag))
    | true =>
      refine decide_eq_true fun hremoved => ?_
      have hcleared := hswept.dead o hremoved
      rw [hsame o ho, hflag] at hcleared
      cases hcleared

/-- Three clients, the second of which is dead. -/
def threeClients : Server :=
  ((((Server.init 3).addClient 4 "10.0.0.2").addClient 5 "10.0.0.3").addClient 6
    "10.0.0.4").disconnect 1

/-- The last client disconnects after the flag of the first was read. -/
theorem sweep_leaves_first :
    ∃ t s' ls, threeClients.sweep (fun t => if t = 1 then [2] else []) (fun _ => 0) =
      .ok (t, s') ∧ (removed ls).length ≤ 3 ∧ 1 ∈ removed ls ∧
      s'.clients = [0, 1, 2].filter (· ∉ removed ls) := by
  have halive : ∀ o ∈ threeClients.clients, threeClients.Alive o := fun o ho => by
    rcases List.mem_cons.mp ho with rfl | ho
    · exact ⟨_, rfl⟩
    · rcases List.mem_pair.mp ho with rfl | rfl <;> exact ⟨_, rfl⟩
  have hclose : ∀ fd : ℤ, (fun _ : ℤ => (0 : ℤ)) fd ≠ -1 := fun _ => nofun
  obtain ⟨t, s', ls, hsweep, -, hlength, hswept, hdead, -⟩ :=
    sweep_leaves halive (by decide) (fun t => if t = 1 then [2] else []) hclose
  exact ⟨t, s', ls, hsweep, hlength, hdead 1 (by decide) rfl, hswept.clients⟩

/-! ## A sweep without disconnections in between -/

section Quiet

variable {closeRet : ℤ → ℤ}

theorem findDead_quiet (t i : ℕ) (clients : List ClientPtr) (s : Server) :
    ∃ t', s.findDead (fun _ => []) t i clients =
      (i + clients.findIdx fun o => !s.isConnected o, t', s) := by
  induction clients generalizing t i with
  | nil => exact ⟨t, rfl⟩
  | cons client clients ih =>
    unfold Server.findDead
    rw [show s.disconnectAll [] = s from rfl, List.findIdx_cons]
    cases hflag : s.isConnected client with
    | false =>
      refine ⟨t + 1, ?_⟩
      simp only [hflag, Bool.not_false, if_true, cond_true, Nat.add_zero]
    | true =>
      obtain ⟨t', hfind⟩ := ih (t + 1) (i + 1)
      refine ⟨t', ?_⟩
      simp only [hflag, Bool.not_true, cond_false, hfind, Nat.add_assoc, Nat.add_comm 1]
      rfl

/-- The loop is then that of `removeDeadClients`. -/
theorem sweepLoop_quiet (k t : ℕ) (s : Server) :
    (s.sweepLoop (fun _ => []) closeRet k t).map Prod.snd = s.removeLoop closeRet k := by
  induction k generalizing t s with
  | zero => rfl
  | succ k ih =>
    obtain ⟨t', hfind⟩ := findDead_quiet t 0 s.clients s
    rw [Nat.zero_add] at hfind
    unfold Server.sweepLoop Server.removeLoop
    simp only [hfind]
    cases s.clients[s.clients.findIdx fun o => !s.isConnected o]? with
    | none => rfl
    | some o =>
      cases hclosed : s.closeClient o closeRet with
      | error e => simp only [hclosed]; rfl
      | ok s₁ =>
        simp only [hclosed, ok_bind]
        split
        · exact ih t' _
        · rfl

theorem sweep_quiet (s : Server) (closeRet : ℤ → ℤ) :
    (s.sweep (fun _ => []) closeRet).map Prod.snd = s.removeDeadClients closeRet :=
  sweepLoop_quiet (s.clients.length + 1) 0 s

end Quiet

end TCPServer
