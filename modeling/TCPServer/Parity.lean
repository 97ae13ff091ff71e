/-
  One parity in each client's list.

  `generateNumber(ID)` takes the parity from the index, while the list belongs to the client
  that is at this index now. A client is accepted at the end of `_clients`, and a sweep moves it
  forward by one place for every client in front of it that is removed (`place_of_step`). So
  `moved`, a variable that no function reads, counts for each client that has numbers how many
  clients were removed in front of it since it got the first, and its numbers have the parity of
  the place it had then (`Server.Placed`).

  `parity_run_iff`: in a run every state has lists of one parity exactly if, whenever a number is
  drawn for a client that has numbers, `moved` is even for it. After the removal of one client
  the lists of those behind it need not keep their parity (`parity_not_kept_after_removal`).
-/
import Mathlib.Algebra.Group.Int.Even
import TCPServer.Machine

namespace TCPServer

open Runs

def OneParity (l : List ℤ) : Prop := (∀ n ∈ l, n % 2 = 0) ∨ ∀ n ∈ l, n % 2 = 1

/-- The list of every client in `_clients` has numbers of one parity only. -/
def Server.OneParity (s : Server) : Prop := ∀ o ∈ s.clients, TCPServer.OneParity (s.listOf o)

/-- How many clients in front of `o` are not connected. -/
def Server.deadInFront (s : Server) (o : ClientPtr) : ℕ :=
  (s.clients.take (s.clients.idxOf o)).countP fun a => !s.isConnected a

/-- How many clients `op` removes in front of `o`. -/
def Server.removedInFront (s : Server) (op : Op) (o : ClientPtr) : ℕ :=
  match op with
  | .removeDeadClients _ => s.deadInFront o
  | _ => 0

/-- How many clients were removed in front of a client since it got its first number, after one
    more operation. -/
def movedAfter (moved : ClientPtr → ℕ) (s : Server) (op : Op) : ClientPtr → ℕ := fun o =>
  if s.listOf o = [] then 0 else moved o + s.removedInFront op o

/-- If `op` draws a number for a client that has numbers, then since the first of them an even
    number of clients was removed in front of it. -/
def DrawsUnmoved (t : Server × (ClientPtr → ℕ)) (op : Op) (_ : Server × (ClientPtr → ℕ)) :
    Prop :=
  ∀ ID o, op.drawsFor = some ID → t.1.at ID = .ok o → t.1.listOf o ≠ [] → Even (t.2 o)

/-! ## Places -/

section Places

variable {α : Type} {l : List α} {p : α → Bool} {i : ℕ} {a : α}

theorem filter_eraseIdx (hi : l[i]? = some a) (hp : p a = false) :
    (l.eraseIdx i).filter p = l.filter p := by
  induction l generalizing i with
  | nil => cases hi
  | cons b l ih =>
    cases i with
    | zero =>
      cases hi
      rw [List.eraseIdx_cons_zero, List.filter_cons_of_neg (by rw [hp]; nofun)]
    | succ i => rw [List.eraseIdx_cons_succ, List.filter_cons, List.filter_cons, ih hi]

/-- An entry that is kept has those of its predecessors in front of it that are kept. -/
theorem getElem?_filter (hi : l[i]? = some a) (hp : p a = true) :
    (l.filter p)[(l.take i).countP p]? = some a := by
  induction l generalizing i with
  | nil => cases hi
  | cons b l ih =>
    cases i with
    | zero =>
      cases hi
      rw [List.filter_cons_of_pos hp]
      rfl
    | succ i =>
      rw [List.take_succ_cons, List.countP_cons]
      cases hb : p b with
      | true => rw [List.filter_cons_of_pos hb, if_pos rfl, List.getElem?_cons_succ, ih hi]
      | false => rw [List.filter_cons_of_neg (by rw [hb]; nofun), if_neg nofun, Nat.add_zero, ih hi]

variable {s s' : Server} {op : Op} {o : ClientPtr} {j : ℕ}

/-- A sweep leaves the connected clients, in their order. -/
theorem removeLoop_clients {closeRet : ℤ → ℤ} {k : ℕ} (h : s.removeLoop closeRet k = .ok s') :
    s'.clients = s.clients.filter s.isConnected := by
  induction k generalizing s with
  | zero => cases h
  | succ k ih =>
    have hpassed : ∀ i a, i < s.clients.findIdx (fun o => !s.isConnected o) →
        s.clients[i]? = some a → s.isConnected a = true := fun i a hlt hi => by
      obtain ⟨hi', rfl⟩ := List.getElem?_eq_some_iff.mp hi
      simpa using List.not_of_lt_findIdx hlt
    obtain ⟨hnone, rfl⟩ | ⟨i, o, c, hi, ho, hc, hdead, hrest⟩ := removeLoop_cases h
    · refine (List.filter_eq_self.mpr fun a ha => ?_).symm
      obtain ⟨j, hj⟩ := List.getElem?_of_mem ha
      exact hpassed j a (Nat.lt_of_lt_of_le (lt_of_getElem? hj)
        (List.getElem?_eq_none_iff.mp hnone)) hj
    · have hflag : s.isConnected o = false := by
        rw [Server.isConnected, (object_ok_iff.mp hc).1]
        exact hdead
      have hflags : (s.erase i o c.sockfd).isConnected = s.isConnected :=
        funext (isConnected_setObject_of_eq o (fun c => { c with deleted := true }) fun _ => rfl)
      have herased : (s.clients.eraseIdx i).filter s.isConnected =
          s.clients.filter s.isConnected := filter_eraseIdx ho hflag
      rcases hrest with ⟨-, hrest⟩ | ⟨hlast, rfl⟩
      · rw [ih hrest, hflags]
        exact herased
      · -- the erased client was the last one, and those in front of it are connected
        rw [← herased]
        refine (List.filter_eq_self.mpr fun a ha => ?_).symm
        obtain ⟨j, hj⟩ := List.getElem?_of_mem ha
        have hlt : j < i := by
          rw [hlast]
          exact lt_of_getElem? hj
        have hkept : (s.clients.eraseIdx i)[j]? = some a := hj
        rw [List.getElem?_eraseIdx_of_lt hlt] at hkept
        exact hpassed j a (hi ▸ hlt) hkept

/-- Except for a sweep, a step leaves the clients in their places and adds new ones at most. -/
theorem clients_of_step (hs : s.Inv) (h : s.Step op s')
    (hop : ∀ closeRet, op ≠ .removeDeadClients closeRet) :
    ∃ added, s'.clients = s.clients ++ added ∧ ∀ o ∈ added, s.listOf o = [] := by
  cases step_effect hs.separate h with
  | same _ => exact ⟨[], (List.append_nil _).symm, nofun⟩
  | accepts fd ip _ =>
    refine ⟨[s.objects.length], rfl, fun o ho => ?_⟩
    rw [List.mem_singleton.mp ho, Server.listOf, Server.headOf,
      List.getElem?_eq_none (le_refl _), Option.bind_none, LinkedStore.listFrom_none]
  | disconnects o _ =>
    exact ⟨[], by rw [disconnect_clients, List.append_nil], nofun⟩
  | sweeps hsweep _ => exact absurd hsweep (hop _)
  | gives _ hg => exact ⟨[], by rw [hg.relists.same.clients, List.append_nil], nofun⟩
  | sorts _ _ hr _ _ => exact ⟨[], by rw [hr.same.clients, List.append_nil], nofun⟩

/-- Where the client at position `j` was before the step, unless it is new. -/
theorem place_of_step (hs : s.Inv) (h : s.Step op s') (hj : s'.clients[j]? = some o) :
    s.clients[j + s.removedInFront op o]? = some o ∨ s.listOf o = [] := by
  have hplain : (∀ closeRet, op ≠ .removeDeadClients closeRet) →
      s.clients[j]? = some o ∨ s.listOf o = [] := fun hop => by
    obtain ⟨added, hclients, hadded⟩ := clients_of_step hs h hop
    rw [hclients] at hj
    by_cases hlt : j < s.clients.length
    · rw [List.getElem?_append_left hlt] at hj
      exact .inl hj
    · rw [List.getElem?_append_right (Nat.le_of_not_lt hlt)] at hj
      exact .inr (hadded o (List.mem_of_getElem? hj))
  cases op with
  | removeDeadClients closeRet =>
    have hclients := removeLoop_clients h
    have hmem : o ∈ s.clients.filter s.isConnected := hclients ▸ List.mem_of_getElem? hj
    obtain ⟨hlisted, hflag⟩ := List.mem_filter.mp hmem
    obtain ⟨i, hi⟩ := List.getElem?_of_mem hlisted
    have hkept := getElem?_filter hi hflag
    rw [hclients] at hj
    have hplace : j = (s.clients.take i).countP s.isConnected :=
      nodup_getElem?_inj (hs.nodup.filter _) hj hkept
    have hidx : s.clients.idxOf o = i := by
      obtain ⟨hlt, rfl⟩ := List.getElem?_eq_some_iff.mp hi
      exact hs.nodup.idxOf_getElem i hlt
    have hsum : j + s.deadInFront o = i := by
      have hdead : (fun a => decide ¬s.isConnected a = true) = fun a => !s.isConnected a :=
        funext fun a => by cases s.isConnected a <;> rfl
      have hlength := List.length_eq_countP_add_countP s.isConnected (l := s.clients.take i)
      rw [List.length_take, Nat.min_eq_left (Nat.le_of_lt (lt_of_getElem? hi)), hdead] at hlength
      rw [Server.deadInFront, hidx, hplace]
      exact hlength.symm
    exact .inl (hsum ▸ hi)
  | acceptClient _ _ _ _ => exact hplain nofun
  | disconnect _ => exact hplain nofun
  | generateNumber _ _ => exact hplain nofun
  | sortList _ _ => exact hplain nofun
  | onIncomingMsg1 _ _ _ => exact hplain nofun

end Places

/-! ## Steps -/

/-- Each number has the parity of the place that the client had when it got its first number. -/
def Server.Placed (s : Server) (moved : ClientPtr → ℕ) : Prop :=
  ∀ i o, s.clients[i]? = some o → ∀ n ∈ s.listOf o, n % 2 = ((i + moved o : ℕ) : ℤ) % 2

section Steps

variable {s s' : Server} {moved : ClientPtr → ℕ} {op : Op}

theorem Server.Placed.oneParity (h : s.Placed moved) : s.OneParity := by
  intro o ho
  obtain ⟨i, hi⟩ := List.getElem?_of_mem ho
  rcases Int.emod_two_eq_zero_or_one ((i + moved o : ℕ) : ℤ) with hplace | hplace
  · exact .inl fun n hn => (h i o hi n hn).trans hplace
  · exact .inr fun n hn => (h i o hi n hn).trans hplace

/-- The numbers that a client had before the step have the parity of its place after it. -/
theorem Server.Placed.after (hs : s.Inv) (hp : s.Placed moved) (h : s.Step op s') {j : ℕ}
    {o : ClientPtr} (hj : s'.clients[j]? = some o) {n : ℤ} (hn : n ∈ s.listOf o) :
    n % 2 = ((j + movedAfter moved s op o : ℕ) : ℤ) % 2 := by
  have hne : s.listOf o ≠ [] := List.ne_nil_of_mem hn
  have hplace := hp _ o ((place_of_step hs h hj).resolve_right hne) n hn
  rw [hplace, movedAfter, if_neg hne, Nat.add_right_comm, Nat.add_assoc]

/-- A step that adds no number keeps the places. -/
theorem placed_of_subset (hs : s.Inv) (hp : s.Placed moved) (h : s.Step op s')
    (hsub : ∀ o, s'.listOf o ⊆ s.listOf o) : s'.Placed (movedAfter moved s op) :=
  fun _ o hj _ hn => hp.after hs h hj (hsub o hn)

/-- The parity of the place at which a number is drawn. -/
theorem at_place {ID : CInt} {o : ClientPtr} (h : s.at ID = .ok o) :
    s.clients[ID.val.toNat]? = some o ∧ ((ID.val.toNat : ℕ) : ℤ) % 2 = ID.val % 2 := by
  obtain ⟨hpos, hget⟩ := at_ok_iff.mp h
  exact ⟨hget, by rw [Int.toNat_of_nonneg hpos]⟩

/-- The lists of a sweep are the same. -/
theorem sweep_listOf (h : Relation.ReflTransGen Server.Removal s s') (o : ClientPtr) :
    s'.listOf o = s.listOf o :=
  sweep_keeps (I := fun t => t.listOf o = s.listOf o)
    (fun _ _ ht hrem => (hrem.sameLists.listOf o).trans ht) h rfl

theorem drawsUnmoved_of_none {t t' : Server × (ClientPtr → ℕ)} (h : op.drawsFor = none) :
    DrawsUnmoved t op t' := by
  intro ID o hID
  rw [h] at hID
  cases hID

theorem removedInFront_of_drawsFor {ID : CInt} (h : op.drawsFor = some ID) (o : ClientPtr) :
    s.removedInFront op o = 0 := by
  cases op with
  | removeDeadClients closeRet => cases h
  | _ => rfl

section Gives

variable {ID : CInt} {o : ClientPtr} {n : ℤ} {l : List ℤ}

theorem Server.Gives.parity (hg : s.Gives s' ID o n l) : n % 2 = ID.val % 2 := by
  obtain ⟨rand, rfl⟩ := hg.candidate
  exact (candidate_range ID rand).2.2

theorem Server.Gives.mem_iff (hg : s.Gives s' ID o n l) {m : ℤ} :
    m ∈ s'.listOf o ↔ m ∈ s.listOf o ∨ m = n := by
  rw [hg.relists.listOf, hg.perm.mem_iff, List.mem_append, List.mem_singleton]

/-- The new number has the parity of the place, if none or an even number of clients was removed
    in front of it. -/
theorem Server.Gives.placed (hg : s.Gives s' ID o n l) (hs : s.Inv) (hp : s.Placed moved)
    (h : s.Step op s') (hop : op.drawsFor = some ID)
    (hfits : s.listOf o ≠ [] → Even (moved o)) : s'.Placed (movedAfter moved s op) := by
  obtain ⟨hslot, hplace⟩ := at_place hg.slot
  intro j o' hj m hm
  by_cases ho : o' = o
  · subst ho
    rcases hg.mem_iff.mp hm with hold | rfl
    · exact hp.after hs h hj hold
    · rw [hg.relists.same.clients] at hj
      obtain rfl := nodup_getElem?_inj hs.nodup hj hslot
      rw [hg.parity, ← hplace, movedAfter, removedInFront_of_drawsFor hop, Nat.add_zero]
      split
      · rfl
      · rename_i hne
        obtain ⟨k, hk⟩ := hfits hne
        rw [hk]
        omega
  · rw [hg.relists.listOf_ne ho] at hm
    exact hp.after hs h hj hm

/-- If the lists still have one parity each, it was none or an even number. -/
theorem Server.Gives.even (hg : s.Gives s' ID o n l) (hp : s.Placed moved)
    (hpar : s'.OneParity) (hne : s.listOf o ≠ []) : Even (moved o) := by
  obtain ⟨hslot, hplace⟩ := at_place hg.slot
  obtain ⟨m, hm⟩ := List.exists_mem_of_ne_nil _ hne
  have hlisted : o ∈ s'.clients := by
    rw [hg.relists.same.clients]
    exact List.mem_of_getElem? hslot
  have hsame : m % 2 = n % 2 := by
    have hm' := hg.mem_iff.mpr (.inl hm)
    have hn' := hg.mem_iff.mpr (.inr rfl)
    rcases hpar o hlisted with hall | hall
    · rw [hall m hm', hall n hn']
    · rw [hall m hm', hall n hn']
  have hold := hp _ o hslot m hm
  rw [hsame, hg.parity, ← hplace] at hold
  rw [Nat.even_iff]
  omega

end Gives

/-- In one step the places stay right if the number that is drawn fits, and if it does not, the
    lists do not have one parity each. -/
theorem step_placed (hs : s.Inv) (hp : s.Placed moved) (h : s.Step op s') :
    (DrawsUnmoved (s, moved) op (s', movedAfter moved s op) →
        s'.Placed (movedAfter moved s op)) ∧
      (s'.OneParity → DrawsUnmoved (s, moved) op (s', movedAfter moved s op)) := by
  have hquiet : op.drawsFor = none → (∀ o, s'.listOf o ⊆ s.listOf o) →
      (DrawsUnmoved (s, moved) op (s', movedAfter moved s op) →
        s'.Placed (movedAfter moved s op)) ∧
      (s'.OneParity → DrawsUnmoved (s, moved) op (s', movedAfter moved s op)) :=
    fun hop hsub => ⟨fun _ => placed_of_subset hs hp h hsub, fun _ => drawsUnmoved_of_none hop⟩
  cases step_effect hs.separate h with
  | same hop => exact hquiet hop fun _ => List.Subset.refl _
  | accepts fd ip hop =>
    exact hquiet hop fun o n hn => by rwa [(sameLists_addClient s fd ip).listOf] at hn
  | disconnects o hop =>
    exact hquiet hop fun o' n hn => by rwa [(sameLists_disconnect s o).listOf] at hn
  | sweeps hop hsweep =>
    exact hquiet (hop ▸ rfl) fun o n hn => by rwa [sweep_listOf hsweep] at hn
  | @gives s' ID o n l hop hg =>
    refine ⟨fun hfits => hg.placed hs hp h hop fun hne => hfits ID o hop hg.slot hne,
      fun hpar ID' o' hID' ho' hne => ?_⟩
    rw [hop] at hID'
    cases hID'
    rw [hg.slot] at ho'
    cases ho'
    exact hg.even hp hpar hne
  | @sorts s' ID o l hop _ hr hperm _ =>
    refine hquiet hop fun o' n hn => ?_
    by_cases ho : o' = o
    · subst ho
      rw [hr.listOf] at hn
      exact hperm.mem_iff.mp hn
    · rwa [hr.listOf_ne ho] at hn

end Steps

/-! ## Runs -/

/-- In a run from the start all states have lists of one parity if and only if, whenever a number
    is drawn for a client that has numbers, an even number of clients was removed in front of it
    since it got the first of them. -/
theorem parity_run_iff {sockfd : ℤ} {ops : List Op} {s : Server} :
    Run (Along Server.Step fun _ _ s' => s'.OneParity) (.init sockfd) ops s ↔
      ∃ moved, Run (Along (WithHistory Server.Step movedAfter) DrawsUnmoved)
        (.init sockfd, fun _ => 0) ops (s, moved) := by
  refine (run_withHistory_iff (u := movedAfter) fun _ => 0).trans (exists_congr fun moved => ?_)
  refine run_along_congr (I := fun t => t.1.Inv ∧ t.1.Placed t.2) ?_ ?_
    ⟨inv_init sockfd, fun i o hi => by cases hi⟩
  · rintro ⟨s, moved⟩ op ⟨s', moved'⟩ ⟨hs, hp⟩ ⟨hstep, rfl⟩ hpar
    obtain ⟨hkeeps, hfits⟩ := step_placed hs hp hstep
    exact ⟨step_inv hs hstep, hkeeps (hfits hpar)⟩
  · rintro ⟨s, moved⟩ op ⟨s', moved'⟩ ⟨hs, hp⟩ ⟨hstep, rfl⟩
    obtain ⟨hkeeps, hfits⟩ := step_placed hs hp hstep
    exact ⟨hfits, fun hfit => (hkeeps hfit).oneParity⟩

/-- The second of two clients gets 1, moves to index 0 when the first is removed, and gets 0. -/
theorem parity_not_kept_after_removal : ∃ s : Server, s.Reachable ∧ ¬ s.OneParity := by
  have run : ∃ s, Run Server.Step (.init 3)
      [.acceptClient 0 .SUCCESS "" (some (4, "10.0.0.1")),
        .acceptClient 0 .SUCCESS "" (some (5, "10.0.0.2")),
        .generateNumber ⟨1, by decide, by decide⟩ [0],
        .disconnect 0, .removeDeadClients fun _ => 0,
        .generateNumber ⟨0, by decide, by decide⟩ [0]] s ∧
      s.clients = [1] ∧ s.listOf 1 = [1, 0] :=
    ⟨_, .cons rfl (.cons rfl (.cons rfl (.cons rfl (.cons rfl (.cons rfl (.nil _)))))), rfl, rfl⟩
  obtain ⟨s, hrun, hclients, hlist⟩ := run
  refine ⟨s, ⟨3, _, hrun⟩, fun hp => ?_⟩
  have h1 := hp 1 (by rw [hclients]; simp)
  rw [hlist] at h1
  rcases h1 with h1 | h1
  · exact absurd (h1 1 (by simp)) (by decide)
  · exact absurd (h1 0 (by simp)) (by decide)

end TCPServer
