/-
  Which numbers `generateNumber` can return, and when its loop never ends.

  `rand()` gives a stream of results, of which the loop uses as many as it needs: `ReturnsOn`
  and `LoopsOn` say that a function of the results returns, or uses up all of them. The numbers
  that are `Free` for an index are those of its parity in 0..99 that no client got; the loop
  returns the first free candidate, so it never ends on a stream without one.

  An index has fifty candidates. Each completed draw for its parity uses up one of them and no
  other step does (`run_ofParity`), so after any run the loop can end exactly if fewer than fifty
  such draws are in it: `generateNumber_draws`.
-/
import TCPServer.Lib.Drawing
import TCPServer.Requests

namespace TCPServer

open Runs Drawing

/-! ## Functions of the results of `rand()` -/

section Streams

variable {α : Type}

/-- `f` returns `x` when `rand()` gives the results `rand 0`, `rand 1`, … -/
def ReturnsOn (f : List ℕ → Exec α) (rand : ℕ → ℕ) (x : α) : Prop :=
  ∃ k, f ((List.range k).map rand) = .ok x

/-- `f` uses up the results `rand 0`, `rand 1`, … and never returns. -/
def LoopsOn (f : List ℕ → Exec α) (rand : ℕ → ℕ) : Prop :=
  ∀ k, f ((List.range k).map rand) = .error .spins

variable {ID : CInt} {numbers : List ℤ} {f : List ℕ → Exec α} {g : ℤ → Exec α} {rand : ℕ → ℕ}

theorem firstNew_range (k : ℕ) :
    firstNew ID numbers ((List.range k).map rand) =
      ((List.range k).map fun i => candidate ID (rand i)).find? (· ∉ numbers) := by
  rw [firstNew, List.map_map]
  rfl

/-- A loop that draws the first new candidate and goes on with it. -/
theorem returnsOn_iff
    (hf : ∀ rands, f rands = (firstNew ID numbers rands).elim (.error .spins) g) {x : α} :
    ReturnsOn f rand x ↔
      ∃ n, FirstUnused numbers (fun i => candidate ID (rand i)) n ∧ g n = .ok x := by
  simp only [ReturnsOn, hf, firstNew_range]
  constructor
  · intro h
    obtain ⟨k, h⟩ := h
    cases hn : ((List.range k).map fun i => candidate ID (rand i)).find? (· ∉ numbers) with
    | none =>
      rw [hn] at h
      cases h
    | some n =>
      rw [hn] at h
      exact ⟨n, firstUnused_iff.mpr ⟨k, hn⟩, h⟩
  · intro h
    obtain ⟨n, hfirst, h⟩ := h
    obtain ⟨k, hn⟩ := firstUnused_iff.mp hfirst
    refine ⟨k, ?_⟩
    rw [hn]
    exact h

theorem loopsOn_iff
    (hf : ∀ rands, f rands = (firstNew ID numbers rands).elim (.error .spins) g)
    (hg : ∀ n, n ∉ numbers → ∃ x, g n = .ok x) :
    LoopsOn f rand ↔ ∀ i, candidate ID (rand i) ∈ numbers := by
  simp only [LoopsOn, hf, firstNew_range]
  rw [← find?_range_map_none]
  refine forall_congr' fun k => ?_
  cases hn : ((List.range k).map fun i => candidate ID (rand i)).find? (· ∉ numbers) with
  | none => simp
  | some n =>
    have hnew : n ∉ numbers := by simpa using List.find?_some hn
    obtain ⟨x, hx⟩ := hg n hnew
    simp [hx]

end Streams

/-! ## Free numbers -/

/-- `n` is in range, has the parity of `ID` and is not in `numbers`. -/
def Free (ID : CInt) (numbers : List ℤ) (n : ℤ) : Prop :=
  0 ≤ n ∧ n ≤ 99 ∧ n % 2 = ID.val % 2 ∧ n ∉ numbers

instance (ID : CInt) (numbers : List ℤ) (n : ℤ) : Decidable (Free ID numbers n) :=
  inferInstanceAs (Decidable (_ ∧ _))

theorem free_candidate_iff {ID : CInt} {numbers : List ℤ} {rand : ℕ} :
    Free ID numbers (candidate ID rand) ↔ candidate ID rand ∉ numbers := by
  obtain ⟨h0, h99, hpar⟩ := candidate_range ID rand
  constructor
  · exact fun h => h.2.2.2
  · exact fun h => ⟨h0, h99, hpar, h⟩

/-- A free number is the candidate of a draw below fifty. -/
theorem Free.candidate {ID : CInt} {numbers : List ℤ} {n : ℤ} (h : Free ID numbers n) :
    ∃ rand < 50, candidate ID rand = n := by
  obtain ⟨h0, h99, hpar, -⟩ := h
  exact ⟨n.toNat / 2, by omega, candidate_surjective h0 h99 hpar⟩

theorem firstUnused_candidate_iff {ID : CInt} {numbers : List ℤ} {rand : ℕ → ℕ} {n : ℤ} :
    FirstUnused numbers (fun i => candidate ID (rand i)) n ↔
      ∃ i, candidate ID (rand i) = n ∧ Free ID numbers n ∧
        ∀ j < i, ¬ Free ID numbers (candidate ID (rand j)) := by
  unfold FirstUnused
  refine exists_congr fun i => and_congr_right fun hi => ?_
  simp only [← hi, free_candidate_iff, not_not]

/-- `generateNumber` for a listed client, as a search and what is done with the number. -/
theorem generateNumber_eq {s : Server} {ID : CInt} {o : ClientPtr} (ho : s.at ID = .ok o)
    (rands : List ℕ) :
    s.generateNumber ID rands =
      (firstNew ID s.numbers rands).elim (.error .spins) (s.record o) := by
  rw [Server.generateNumber, ho, ok_bind, generateLoop_eq]
  cases firstNew ID s.numbers rands with
  | none => rfl
  | some n => rfl

section Listed

variable {s : Server} {ID : CInt} {o : ClientPtr}

/-- A listed client can be given a new number. -/
theorem record_of_listed (hs : s.Inv) (ho : s.at ID = .ok o) {n : ℤ} (hn : n ∉ s.numbers) :
    ∃ s', s.record o n = .ok (n, s') ∧ s.Generates s' o n := by
  obtain ⟨c, hc⟩ := hs.listed (List.mem_of_getElem? (at_ok_iff.mp ho).2)
  exact record_spec hs.separate hc hn

/-- What is returned on a stream of results is the first new candidate. -/
theorem generateNumber_returns (hs : s.Inv) (ho : s.at ID = .ok o) {rand : ℕ → ℕ} {n : ℤ}
    {s' : Server} (h : ReturnsOn (s.generateNumber ID) rand (n, s')) :
    FirstUnused s.numbers (fun i => candidate ID (rand i)) n ∧
      s.record o n = .ok (n, s') ∧ s.Generates s' o n := by
  obtain ⟨m, hfirst, hm⟩ := (returnsOn_iff (generateNumber_eq ho)).mp h
  obtain ⟨s1, hok, hg⟩ := record_of_listed hs ho hfirst.unused
  rw [hok] at hm
  cases hm
  exact ⟨hfirst, hok, hg⟩

theorem generateNumber_returns_iff (hs : s.Inv) (ho : s.at ID = .ok o) {rand : ℕ → ℕ} {n : ℤ} :
    (∃ s', ReturnsOn (s.generateNumber ID) rand (n, s')) ↔
      FirstUnused s.numbers (fun i => candidate ID (rand i)) n := by
  constructor
  · intro h
    obtain ⟨s', h⟩ := h
    exact (generateNumber_returns hs ho h).1
  · intro hfirst
    obtain ⟨s', hok, -⟩ := record_of_listed hs ho hfirst.unused
    exact ⟨s', (returnsOn_iff (generateNumber_eq ho)).mpr ⟨n, hfirst, hok⟩⟩

theorem generateNumber_loops_iff (hs : s.Inv) (ho : s.at ID = .ok o) {rand : ℕ → ℕ} :
    LoopsOn (s.generateNumber ID) rand ↔ ∀ i, candidate ID (rand i) ∈ s.numbers := by
  refine loopsOn_iff (generateNumber_eq ho) fun n hn => ?_
  obtain ⟨s', hok, -⟩ := record_of_listed hs ho hn
  exact ⟨_, hok⟩

/-- The numbers that can be returned are the free ones. -/
theorem generateNumber_range (hs : s.Inv) (ho : s.at ID = .ok o) {n : ℤ} :
    (∃ rand s', ReturnsOn (s.generateNumber ID) rand (n, s')) ↔ Free ID s.numbers n := by
  simp only [generateNumber_returns_iff hs ho, firstUnused_candidate_iff]
  constructor
  · intro h
    obtain ⟨rand, i, -, hfree, -⟩ := h
    exact hfree
  · intro hfree
    obtain ⟨r, -, hr⟩ := hfree.candidate
    exact ⟨fun _ => r, 0, hr, hfree, fun j hj => absurd hj (Nat.not_lt_zero j)⟩

/-- The loop never ends, whatever is drawn, exactly if no number is free. -/
theorem generateNumber_stuck_iff (hs : s.Inv) (ho : s.at ID = .ok o) :
    (∀ rand, LoopsOn (s.generateNumber ID) rand) ↔ ∀ n, ¬ Free ID s.numbers n := by
  simp only [generateNumber_loops_iff hs ho]
  constructor
  · intro h n hfree
    obtain ⟨r, -, rfl⟩ := hfree.candidate
    exact hfree.2.2.2 (h (fun _ => r) 0)
  · intro h rand i
    have hnot := h (candidate ID (rand i))
    rw [free_candidate_iff, not_not] at hnot
    exact hnot

end Listed

/-! ## Fifty draws for each parity -/

/-- `op` draws a number for an index of the parity of `ID`. -/
def Op.drawsLike (ID : CInt) (op : Op) : Bool :=
  op.drawsFor.any fun ID' => ID'.val % 2 = ID.val % 2

/-- The draws for indices of the parity of `ID`. -/
def drawsCompleted (ID : CInt) (ops : List Op) : ℕ := ops.countP (Op.drawsLike ID)

/-- The numbers of the parity of `ID`. -/
def ofParity (ID : CInt) (numbers : List ℤ) : List ℤ :=
  numbers.filter fun n => n % 2 = ID.val % 2

/-- The candidates of all draws. -/
def candidates (ID : CInt) : List ℤ := (List.range 50).map (candidate ID)

theorem mem_ofParity {ID : CInt} {numbers : List ℤ} {n : ℤ} :
    n ∈ ofParity ID numbers ↔ n ∈ numbers ∧ n % 2 = ID.val % 2 := by
  rw [ofParity, List.mem_filter, decide_eq_true_eq]

theorem mem_candidates {ID : CInt} {n : ℤ} :
    n ∈ candidates ID ↔ 0 ≤ n ∧ n ≤ 99 ∧ n % 2 = ID.val % 2 := by
  rw [candidates, List.mem_map]
  constructor
  · intro h
    obtain ⟨r, -, rfl⟩ := h
    exact candidate_range ID r
  · intro h
    obtain ⟨h0, h99, hpar⟩ := h
    exact ⟨n.toNat / 2, List.mem_range.mpr (by omega), candidate_surjective h0 h99 hpar⟩

theorem candidates_nodup (ID : CInt) : (candidates ID).Nodup := by
  refine List.Nodup.map_on (fun r hr r' hr' heq => ?_) List.nodup_range
  rw [List.mem_range] at hr hr'
  unfold candidate at heq
  split at heq <;> omega

theorem length_candidates (ID : CInt) : (candidates ID).length = 50 := by
  rw [candidates, List.length_map, List.length_range]

/-- A step that draws adds a candidate to `numbers`, and no other step changes them. -/
theorem step_numbers {s s' : Server} (hs : s.Separate) {op : Op} (h : s.Step op s') :
    (op.drawsFor = none ∧ s'.numbers = s.numbers) ∨
      ∃ ID rand, op.drawsFor = some ID ∧ candidate ID rand ∉ s.numbers ∧
        s'.numbers = s.numbers ++ [candidate ID rand] := by
  cases step_effect hs h with
  | same hop => exact .inl ⟨hop, rfl⟩
  | accepts fd ip hop => exact .inl ⟨hop, rfl⟩
  | disconnects o hop => exact .inl ⟨hop, disconnect_numbers s o⟩
  | sweeps hop hsweep =>
    refine .inl ⟨hop ▸ rfl, sweep_keeps (I := fun t => t.numbers = s.numbers) ?_ hsweep rfl⟩
    intro t t' ht hrem
    obtain ⟨i, o, c, -, -, -, rfl⟩ := hrem
    exact ht
  | gives hop hg =>
    obtain ⟨rand, rfl⟩ := hg.candidate
    exact .inr ⟨_, rand, hop, hg.new, hg.numbers⟩
  | sorts hop _ _ _ hnum => exact .inl ⟨hop, hnum⟩

theorem length_ofParity_append (ID ID' : CInt) (rand : ℕ) (numbers : List ℤ) :
    (ofParity ID (numbers ++ [candidate ID' rand])).length =
      (ofParity ID numbers).length + if ID'.val % 2 = ID.val % 2 then 1 else 0 := by
  have hpar := (candidate_range ID' rand).2.2
  rw [ofParity, List.filter_append, List.length_append, List.filter_singleton, ofParity, hpar]
  by_cases h : ID'.val % 2 = ID.val % 2
  · simp [h]
  · simp [h]

/-- The numbers of a parity are as many as the draws for it. -/
theorem run_ofParity {s s' : Server} {ops : List Op} (h : Run Server.Step s ops s')
    (hs : s.Inv) (ID : CInt) :
    (ofParity ID s'.numbers).length =
      (ofParity ID s.numbers).length + drawsCompleted ID ops := by
  induction h with
  | nil s => rfl
  | @cons s m s' op ops hstep _ ih =>
    have hm := ih (step_inv hs hstep)
    rw [drawsCompleted, List.countP_cons, ← drawsCompleted, hm, Op.drawsLike]
    rcases step_numbers hs.separate hstep with ⟨hop, hnum⟩ | ⟨ID', rand, hop, -, hnum⟩
    · rw [hop, hnum]
      simp
    · rw [hop, hnum, length_ofParity_append]
      simp only [Option.any_some, decide_eq_true_eq]
      omega

theorem ofParity_nodup {s : Server} (hs : s.Reachable) (ID : CInt) :
    (ofParity ID s.numbers).Nodup :=
  (reachable_numbers hs).1.filter _

theorem ofParity_subset {s : Server} (hs : s.Reachable) (ID : CInt) :
    ofParity ID s.numbers ⊆ candidates ID := by
  intro n hn
  obtain ⟨hmem, hpar⟩ := mem_ofParity.mp hn
  obtain ⟨h0, h99⟩ := (reachable_numbers hs).2 n hmem
  exact mem_candidates.mpr ⟨h0, h99, hpar⟩

/-- The candidates of an index are used up exactly if no number is free for it. -/
theorem candidates_subset_iff {ID : CInt} {numbers : List ℤ} :
    candidates ID ⊆ ofParity ID numbers ↔ ∀ n, ¬ Free ID numbers n := by
  constructor
  · intro h n hfree
    obtain ⟨h0, h99, hpar, hnew⟩ := hfree
    exact hnew (mem_ofParity.mp (h (mem_candidates.mpr ⟨h0, h99, hpar⟩))).1
  · intro h n hn
    obtain ⟨h0, h99, hpar⟩ := mem_candidates.mp hn
    exact mem_ofParity.mpr ⟨not_not.mp fun hnew => h n ⟨h0, h99, hpar, hnew⟩, hpar⟩

section FiftyDraws

variable {sockfd : ℤ} {ops : List Op} {s : Server}

theorem drawsCompleted_eq (hrun : Run Server.Step (.init sockfd) ops s) (ID : CInt) :
    drawsCompleted ID ops = (ofParity ID s.numbers).length := by
  have h := run_ofParity hrun (inv_init sockfd) ID
  have h0 : (ofParity ID (Server.init sockfd).numbers).length = 0 := rfl
  omega

/-- No more than fifty draws for a parity are completed. -/
theorem drawsCompleted_le (hrun : Run Server.Step (.init sockfd) ops s) (ID : CInt) :
    drawsCompleted ID ops ≤ 50 := by
  have hs : s.Reachable := ⟨sockfd, ops, hrun⟩
  rw [drawsCompleted_eq hrun, ← length_candidates ID]
  exact length_le_of_subset (ofParity_nodup hs ID) (ofParity_subset hs ID)

/-- After fifty of them no number is free, and only then. -/
theorem drawsCompleted_iff (hrun : Run Server.Step (.init sockfd) ops s) (ID : CInt) :
    drawsCompleted ID ops = 50 ↔ ∀ n, ¬ Free ID s.numbers n := by
  have hs : s.Reachable := ⟨sockfd, ops, hrun⟩
  rw [drawsCompleted_eq hrun, ← length_candidates ID, ← candidates_subset_iff]
  exact length_eq_iff_subset (ofParity_nodup hs ID) (candidates_nodup ID)
    (ofParity_subset hs ID)

/-- After any run and for an index in range: what `generateNumber` can return are the free
    numbers, on each stream of results it returns the first free candidate, and it never ends on
    any exactly after fifty draws for the index's parity. A run has no more of them, and before
    the fiftieth some draw ends the loop. -/
theorem generateNumber_draws (hrun : Run Server.Step (.init sockfd) ops s) {ID : CInt}
    (h0 : 0 ≤ ID.val) (hlt : ID.val < s.clients.length) :
    (∀ n, (∃ rand s', ReturnsOn (s.generateNumber ID) rand (n, s')) ↔ Free ID s.numbers n) ∧
      (∀ rand n, (∃ s', ReturnsOn (s.generateNumber ID) rand (n, s')) ↔
        ∃ i, candidate ID (rand i) = n ∧ Free ID s.numbers n ∧
          ∀ j < i, ¬ Free ID s.numbers (candidate ID (rand j))) ∧
      ((∀ rand, LoopsOn (s.generateNumber ID) rand) ↔ drawsCompleted ID ops = 50) ∧
      (∀ ID', drawsCompleted ID' ops ≤ 50) ∧
      (drawsCompleted ID ops < 50 → ∃ r < 50, Free ID s.numbers (candidate ID r)) := by
  have hs : s.Inv := reachable_inv ⟨sockfd, ops, hrun⟩
  obtain ⟨o, ho⟩ := at_of_lt h0 hlt
  refine ⟨fun n => generateNumber_range hs ho, fun rand n => ?_, ?_,
    drawsCompleted_le hrun, fun h50 => ?_⟩
  · rw [generateNumber_returns_iff hs ho, firstUnused_candidate_iff]
  · rw [generateNumber_stuck_iff hs ho, drawsCompleted_iff hrun]
  · by_contra hno
    have hfull : ∀ n, ¬ Free ID s.numbers n := by
      intro n hfree
      obtain ⟨r, hr, rfl⟩ := hfree.candidate
      exact hno ⟨r, hr, hfree⟩
    have h := (drawsCompleted_iff hrun ID).mpr hfull
    omega

/-- One client that got the number 6. -/
theorem generateNumber_draws_after_six : ∃ s : Server, s.numbers = [6] ∧
    (∀ n, (∃ rand s', ReturnsOn (s.generateNumber ⟨0, by decide, by decide⟩) rand (n, s')) ↔
      Free ⟨0, by decide, by decide⟩ [6] n) ∧
    ¬ ∀ rand, LoopsOn (s.generateNumber ⟨0, by decide, by decide⟩) rand := by
  have run : ∃ s, Run Server.Step (.init 3)
      [.acceptClient 0 .SUCCESS "" (some (4, "10.0.0.1")),
        .generateNumber ⟨0, by decide, by decide⟩ [3]] s ∧ s.clients = [0] ∧ s.numbers = [6] :=
    ⟨_, .cons rfl (.cons rfl (.nil _)), rfl, rfl⟩
  obtain ⟨s, hrun, hclients, hnum⟩ := run
  have h0 : 0 ≤ (⟨0, by decide, by decide⟩ : CInt).val := by decide
  obtain ⟨hrange, -, hstuck, -⟩ := generateNumber_draws hrun h0 (by rw [hclients]; decide)
  rw [hnum] at hrange
  refine ⟨s, hnum, hrange, fun hall => ?_⟩
  exact absurd (hstuck.mp hall) (by decide)

end FiftyDraws

end TCPServer
