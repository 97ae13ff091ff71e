/-
  Every number belongs to exactly one client.

  `Recorded` is the server with a record of the lists that clients had when they were removed;
  `Recorded.step` is `Server.step` with that record kept. Its ledger has what was drawn
  (`numbers`), what the listed clients hold and what the removed ones held. Every step of the
  server is some steps of the ledger (`step_ledger`; a sweep closes one account after another),
  so the ledger is balanced in every run: `numbers_exactly_held`.
-/
import TCPServer.Lib.Ledger
import TCPServer.Machine

namespace TCPServer

open Relation Runs
open Ledgers (Ledger Steps balanced_of_steps balanced_empty)

/-- The lists of the clients that are listed in `s` and no longer in `s'`. -/
def Server.removedLists (s s' : Server) : List (List ℤ) :=
  (s.clients.filter fun o => o ∉ s'.clients).map s.listOf

/-- The server, and the lists removed clients had when they were removed. -/
structure Recorded where
  server : Server
  removed : List (List ℤ)

def Recorded.init (sockfd : ℤ) : Recorded := ⟨.init sockfd, []⟩

def Recorded.step (x : Recorded) (op : Op) : Exec Recorded := do
  let s ← x.server.step op
  pure ⟨s, x.removed ++ x.server.removedLists s⟩

abbrev Recorded.Step (x : Recorded) (op : Op) (x' : Recorded) : Prop := x.step op = .ok x'

/-- The lists of the clients, in the order of `_clients`. -/
def Server.lists (s : Server) : List (List ℤ) := s.clients.map s.listOf

def Recorded.ledger (x : Recorded) : Ledger ℤ := ⟨x.server.numbers, x.server.lists, x.removed⟩

/-- The numbers the server may give out. -/
def InRange (n : ℤ) : Prop := 0 ≤ n ∧ n ≤ 99

theorem removedLists_of_subset {s s' : Server} (h : s.clients ⊆ s'.clients) :
    s.removedLists s' = [] := by
  rw [Server.removedLists, List.map_eq_nil_iff, List.filter_eq_nil_iff]
  intro o ho
  simpa using h ho

/-! ## What the steps do to the ledger -/

theorem lists_relists {s s' : Server} {o : ClientPtr} {l : List ℤ} (h : s.Relists s' o l)
    (hnd : s.clients.Nodup) {i : ℕ} (hi : s.clients[i]? = some o) :
    s'.lists = s.lists.set i l := by
  obtain ⟨hlt, hget⟩ := List.getElem?_eq_some_iff.mp hi
  unfold Server.lists
  refine List.ext_getElem? fun j => ?_
  rw [h.same.clients, List.getElem?_map, List.getElem?_set, List.getElem?_map, List.length_map]
  by_cases hj : i = j
  · subst hj
    rw [if_pos rfl, if_pos hlt, hi, Option.map_some, h.listOf]
  · rw [if_neg hj]
    cases ho' : s.clients[j]? with
    | none => rfl
    | some o' =>
      have hne : o' ≠ o := by
        rintro rfl
        obtain ⟨hlt', hget'⟩ := List.getElem?_eq_some_iff.mp ho'
        exact hj ((hnd.getElem_inj_iff).mp (hget.trans hget'.symm))
      rw [Option.map_some, Option.map_some, h.listOf_ne hne]

theorem lists_getElem {s : Server} {i : ℕ} {o : ClientPtr} (hi : s.clients[i]? = some o)
    (hlt : i < s.lists.length) : s.lists[i] = s.listOf o := by
  obtain ⟨_, hget⟩ := List.getElem?_eq_some_iff.mp hi
  simp [Server.lists, hget]

/-- A removal closes the account of the removed client. -/
theorem Server.Removal.ledger {s s' : Server} (h : s.Removal s') (closed : List (List ℤ)) :
    ∃ o, o ∈ s.clients ∧ (s.clients.Nodup → s'.clients = s.clients.erase o) ∧
      Ledgers.Step InRange ⟨s.numbers, s.lists, closed⟩
        ⟨s'.numbers, s'.lists, closed ++ [s.listOf o]⟩ := by
  have hlists := h.sameLists
  obtain ⟨i, o, c, ho, -, -, rfl⟩ := h
  obtain ⟨hlt, hget⟩ := List.getElem?_eq_some_iff.mp ho
  refine ⟨o, hget ▸ List.getElem_mem hlt, fun hnd => ?_, ?_⟩
  · rw [← hget, hnd.erase_getElem i hlt]
    rfl
  · have hlt' : i < s.lists.length := by simpa [Server.lists] using hlt
    have hstep : Ledgers.Step InRange _ _ := .closeAccount ⟨s.numbers, s.lists, closed⟩ i hlt'
    rw [lists_getElem ho hlt'] at hstep
    have hmap : (s.erase i o c.sockfd).lists = s.lists.eraseIdx i := by
      unfold Server.lists
      rw [List.map_congr_left fun o' _ => hlists.listOf o', List.eraseIdx_map]
      rfl
    rw [hmap]
    exact hstep

/-- A sweep closes the accounts of all the clients it removes. -/
theorem sweep_ledger {s s' : Server} (h : ReflTransGen Server.Removal s s') (hs : s.Inv)
    (closed : List (List ℤ)) :
    ∃ c, Steps InRange ⟨s.numbers, s.lists, closed⟩ ⟨s'.numbers, s'.lists, closed ++ c⟩ ∧
      c.Perm (s.removedLists s') ∧ (∀ o, s'.listOf o = s.listOf o) ∧
      s'.clients ⊆ s.clients := by
  induction h with
  | refl =>
    refine ⟨[], ?_, ?_, fun _ => rfl, List.Subset.refl _⟩
    · rw [List.append_nil]
    · rw [removedLists_of_subset (List.Subset.refl _)]
  | tail hsweep hrem ih =>
    rename_i t s'
    obtain ⟨c, hsteps, hperm, hlist, hsub⟩ := ih
    have ht : t.Inv := sweep_inv hsweep hs
    obtain ⟨o, ho, herase, hstep⟩ := hrem.ledger (closed ++ c)
    have hclients := herase ht.nodup
    have hmem : ∀ o', o' ∈ s'.clients ↔ o' ≠ o ∧ o' ∈ t.clients := fun o' => by
      rw [hclients, ht.nodup.mem_erase_iff]
    refine ⟨c ++ [t.listOf o], ?_, ?_, fun o' => ?_, fun o' ho' => hsub ((hmem o').mp ho').2⟩
    · rw [← List.append_assoc]
      exact hsteps.tail hstep
    · -- the clients removed so far, and the one removed now
      have hsplit : (s.clients.filter fun o' => o' ∉ s'.clients).Perm
          ((s.clients.filter fun o' => o' ∉ t.clients) ++ [o]) := by
        rw [List.perm_ext_iff_of_nodup (hs.nodup.filter _)]
        · intro o'
          simp only [List.mem_filter, decide_eq_true_eq, List.mem_append, List.mem_singleton,
            hmem, not_and, ne_eq]
          by_cases heq : o' = o
          · subst heq
            simp [hsub ho]
          · simp [heq]
        · rw [← List.concat_eq_append]
          refine .concat (fun hmem => ?_) (hs.nodup.filter _)
          have hnot := (List.mem_filter.mp hmem).2
          simp [ho] at hnot
      have hmap := (hsplit.map s.listOf).symm
      rw [List.map_append, List.map_singleton] at hmap
      rw [hlist o]
      exact (hperm.append_right [s.listOf o]).trans hmap
    · rw [hrem.sameLists.listOf, hlist]

theorem lists_addClient (s : Server) (fileDescriptor : ℤ) (ip : String) :
    (s.addClient fileDescriptor ip).lists = s.lists ++ [[]] := by
  have hnone : s.objects[s.objects.length]? = none := List.getElem?_eq_none (le_refl _)
  have hempty : s.listOf s.objects.length = [] := by
    rw [Server.listOf, Server.headOf, hnone]
    exact LinkedStore.listFrom_none _
  unfold Server.lists
  rw [List.map_congr_left fun o' _ => (sameLists_addClient s fileDescriptor ip).listOf o',
    ← hempty]
  exact List.map_append

theorem lists_disconnect (s : Server) (o : ClientPtr) : (s.disconnect o).lists = s.lists := by
  unfold Server.lists
  rw [disconnect_clients]
  exact List.map_congr_left fun o' _ => (sameLists_disconnect s o).listOf o'

/-- A listed client has an account. -/
theorem lists_lt {s : Server} {i : ℕ} {o : ClientPtr} (h : s.clients[i]? = some o) :
    i < s.lists.length := by
  rw [Server.lists, List.length_map]
  exact lt_of_getElem? h

/-- Every step of the server is some steps of its ledger. -/
theorem step_ledger {x x' : Recorded} (hs : x.server.Inv) {op : Op} (h : x.Step op x') :
    ∃ c, Steps InRange x.ledger { x'.ledger with closed := c } ∧ c.Perm x'.removed := by
  obtain ⟨s', hstep, hok⟩ := bind_ok_iff.mp h
  cases hok
  obtain ⟨s, removed⟩ := x
  unfold Recorded.ledger
  cases step_effect hs.separate hstep with
  | same _ =>
    refine ⟨removed, .refl, ?_⟩
    rw [removedLists_of_subset (List.Subset.refl _), List.append_nil]
  | accepts fd ip _ =>
    refine ⟨removed, .single ?_, ?_⟩
    · rw [lists_addClient]
      exact .openAccount _
    · have hsub : s.clients ⊆ (s.addClient fd ip).clients := fun o ho =>
        List.mem_append_left _ ho
      rw [removedLists_of_subset hsub, List.append_nil]
  | disconnects o _ =>
    refine ⟨removed, ?_, ?_⟩
    · rw [disconnect_numbers, lists_disconnect]
    · have hsub : s.clients ⊆ (s.disconnect o).clients := by
        rw [disconnect_clients]
        exact List.Subset.refl _
      rw [removedLists_of_subset hsub, List.append_nil]
  | sweeps _ hsweep =>
    obtain ⟨c, hsteps, hperm, -, -⟩ := sweep_ledger hsweep hs removed
    exact ⟨removed ++ c, hsteps, hperm.append_left removed⟩
  | @gives s' ID o n l _ hg =>
    obtain ⟨-, hi⟩ := at_ok_iff.mp hg.slot
    have hsub : s.clients ⊆ s'.clients := by rw [hg.relists.same.clients]; exact fun _ h => h
    have hlt := lists_lt hi
    have hP : InRange n := by
      obtain ⟨rand, rfl⟩ := hg.candidate
      exact ⟨(candidate_range ID rand).1, (candidate_range ID rand).2.1⟩
    -- the number is given to the account, which is then rearranged
    have hgive : Ledgers.Step InRange _ _ :=
      .give ⟨s.numbers, s.lists, removed⟩ ID.val.toNat n hlt hP hg.new
    have hsort : Ledgers.Step InRange _ _ :=
      .rearrange ⟨s.numbers ++ [n], s.lists.set ID.val.toNat (s.listOf o ++ [n]), removed⟩
        ID.val.toNat l (by rw [List.length_set]; exact hlt)
        (by rw [List.getElem_set_self]; exact hg.perm)
    rw [lists_getElem hi hlt] at hgive
    rw [List.set_set] at hsort
    refine ⟨removed, ?_, ?_⟩
    · rw [lists_relists hg.relists hs.nodup hi, hg.numbers]
      exact (ReflTransGen.single hgive).tail hsort
    · rw [removedLists_of_subset hsub, List.append_nil]
  | @sorts s' ID o l _ ho hr hperm hnum =>
    obtain ⟨-, hi⟩ := at_ok_iff.mp ho
    have hsub : s.clients ⊆ s'.clients := by rw [hr.same.clients]; exact fun _ h => h
    have hlt := lists_lt hi
    have hsort : Ledgers.Step InRange _ _ :=
      .rearrange ⟨s.numbers, s.lists, removed⟩ ID.val.toNat l hlt
        (by rw [lists_getElem hi hlt]; exact hperm)
    refine ⟨removed, ?_, ?_⟩
    · rw [lists_relists hr hs.nodup hi, hnum]
      exact .single hsort
    · rw [removedLists_of_subset hsub, List.append_nil]

/-! ## The balance -/

theorem recorded_balanced {sockfd : ℤ} {ops : List Op} {x : Recorded}
    (h : Run Recorded.Step (.init sockfd) ops x) :
    x.server.Inv ∧ Ledgers.Balanced InRange x.ledger := by
  refine h.invariant (I := fun x => x.server.Inv ∧ Ledgers.Balanced InRange x.ledger)
    (fun x op x' hx hstep => ?_) ⟨inv_init sockfd, balanced_empty InRange⟩
  obtain ⟨hinv, hbal⟩ := hx
  obtain ⟨c, hsteps, hperm⟩ := step_ledger hinv hstep
  obtain ⟨s', hs', hok⟩ := bind_ok_iff.mp hstep
  cases hok
  exact ⟨step_inv hinv hs', (balanced_of_steps hsteps hbal).of_closed_perm hperm⟩

/-- Every run of the server can be recorded. -/
theorem recorded_of_run {s s' : Server} {ops : List Op} (h : Run Server.Step s ops s')
    (removed : List (List ℤ)) : ∃ removed', Run Recorded.Step ⟨s, removed⟩ ops ⟨s', removed'⟩ := by
  induction h generalizing removed with
  | nil s => exact ⟨removed, .nil _⟩
  | @cons s m s' op ops hstep _ ih =>
    obtain ⟨removed', hrun⟩ := ih (removed ++ s.removedLists m)
    refine ⟨removed', .cons ?_ hrun⟩
    unfold Recorded.Step Recorded.step
    rw [hstep]
    rfl

/-- The numbers drawn are different numbers in range. -/
theorem reachable_numbers {s : Server} (hs : s.Reachable) :
    s.numbers.Nodup ∧ ∀ n ∈ s.numbers, InRange n := by
  obtain ⟨sockfd, ops, hrun⟩ := hs
  obtain ⟨removed, hrec⟩ := recorded_of_run hrun []
  obtain ⟨-, hnd, hrange, -⟩ := recorded_balanced hrec
  exact ⟨hnd, hrange⟩

/-- No client has a number twice. -/
theorem reachable_listOf_nodup {s : Server} (hs : s.Reachable) {o : ClientPtr}
    (ho : o ∈ s.clients) : (s.listOf o).Nodup := by
  obtain ⟨sockfd, ops, hrun⟩ := hs
  obtain ⟨removed, hrec⟩ := recorded_of_run hrun []
  obtain ⟨-, hbal⟩ := recorded_balanced hrec
  have hnd := (hbal.perm.nodup_iff.mp hbal.nodup).of_append_left
  exact (List.nodup_flatten.mp hnd).1 _ (List.mem_map_of_mem ho)

/-- In every run the numbers drawn are different numbers of 0..99, and they are exactly the
    numbers in the lists of the listed clients and of the removed ones, each there once. -/
theorem numbers_exactly_held {sockfd : ℤ} {ops : List Op} {x : Recorded}
    (h : Run Recorded.Step (.init sockfd) ops x) :
    x.server.numbers.Nodup ∧ (∀ n ∈ x.server.numbers, 0 ≤ n ∧ n ≤ 99) ∧
      x.server.numbers.Perm (x.server.lists.flatten ++ x.removed.flatten) ∧
      (x.server.lists.flatten ++ x.removed.flatten).Nodup := by
  obtain ⟨-, hnd, hall, hperm⟩ := recorded_balanced h
  exact ⟨hnd, hall, hperm, hperm.nodup_iff.mp hnd⟩

/-- Two clients get a number each, then the first one is removed. -/
theorem numbers_exactly_held_removed :
    ∃ x, Run Recorded.Step (.init 3)
        [.acceptClient 0 .SUCCESS "" (some (4, "10.0.0.1")),
          .acceptClient 0 .SUCCESS "" (some (5, "10.0.0.2")),
          .generateNumber ⟨0, by decide, by decide⟩ [3],
          .generateNumber ⟨1, by decide, by decide⟩ [3],
          .disconnect 0, .removeDeadClients fun _ => 0] x ∧
      x.server.lists = [[7]] ∧ x.removed = [[6]] ∧
      x.server.numbers.Perm (x.server.lists.flatten ++ x.removed.flatten) := by
  have run : ∃ x, Run Recorded.Step (.init 3)
      [.acceptClient 0 .SUCCESS "" (some (4, "10.0.0.1")),
        .acceptClient 0 .SUCCESS "" (some (5, "10.0.0.2")),
        .generateNumber ⟨0, by decide, by decide⟩ [3],
        .generateNumber ⟨1, by decide, by decide⟩ [3],
        .disconnect 0, .removeDeadClients fun _ => 0] x ∧
      x.server.lists = [[7]] ∧ x.removed = [[6]] :=
    ⟨_, .cons rfl (.cons rfl (.cons rfl (.cons rfl (.cons rfl (.cons rfl (.nil _)))))), rfl, rfl⟩
  obtain ⟨x, hrun, hlists, hremoved⟩ := run
  exact ⟨x, hrun, hlists, hremoved, (numbers_exactly_held hrun).2.2.1⟩

end TCPServer
