/-
  The one vector `numbers` serves as two independent sets.

  `Allocator` is a reference that keeps the even and the odd numbers given out in two sets, and
  for a call looks at the set of its parity only and extends that one. `Allocator.of` is the
  abstraction from `numbers`. A call of `generateNumber` finds the same first new candidate in
  both (`allocator_generateNumber_eq`), so the server and the allocator are bisimilar along
  `Allocator.of` (`allocator_bisim`) and have the same behaviours, for any sequence of calls.

  Calls of different parity do not see each other in the allocator (`taken_take_ne`), hence not
  in the server either, and they append to lists of different clients: they can be swapped.
-/
import TCPServer.Lib.Calls
import TCPServer.Draws
import Mathlib.Data.Finset.Dedup

namespace TCPServer

open Calls Drawing Runs

/-- A call of `generateNumber`, with the results `rand()` gives to it. -/
structure NumberCall where
  ID : CInt
  rand : ℕ → ℕ

/-- The numbers given out, the even ones and the odd ones apart. -/
structure Allocator where
  even : Finset ℤ
  odd : Finset ℤ

/-- The set of the parity of `ID`. -/
def Allocator.taken (a : Allocator) (ID : CInt) : Finset ℤ :=
  if ID.val % 2 = 0 then a.even else a.odd

def Allocator.take (a : Allocator) (ID : CInt) (number : ℤ) : Allocator :=
  if ID.val % 2 = 0 then { a with even := insert number a.even }
  else { a with odd := insert number a.odd }

/-- The allocator draws until a candidate is not taken, and takes it. -/
def Allocator.generateNumber (a : Allocator) (ID : CInt) : List ℕ → Exec (ℤ × Allocator)
  | [] => .error .spins
  | rand :: rands =>
    let number := candidate ID rand
    if number ∈ a.taken ID then a.generateNumber ID rands
    else .ok (number, a.take ID number)

/-- The two sets of a vector. -/
def Allocator.of (numbers : List ℤ) : Allocator where
  even := (numbers.filter fun n => n % 2 = 0).toFinset
  odd := (numbers.filter fun n => n % 2 = 1).toFinset

/-- The server, as a component that is called for numbers. -/
def serverCalls : Component Server NumberCall ℤ where
  returns s c number s' := ReturnsOn (s.generateNumber c.ID) c.rand (number, s')
  runsForever s c := LoopsOn (s.generateNumber c.ID) c.rand

def allocatorCalls : Component Allocator NumberCall ℤ where
  returns a c number a' := ReturnsOn (a.generateNumber c.ID) c.rand (number, a')
  runsForever a c := LoopsOn (a.generateNumber c.ID) c.rand

/-- The index of the call is in range of a vector of so many clients. -/
def NumberCall.InRange (clients : ℕ) (c : NumberCall) : Prop :=
  0 ≤ c.ID.val ∧ c.ID.val < clients

/-! ## One call of the allocator -/

theorem mem_taken_of {numbers : List ℤ} {ID : CInt} {n : ℤ} :
    n ∈ (Allocator.of numbers).taken ID ↔ n ∈ numbers ∧ n % 2 = ID.val % 2 := by
  unfold Allocator.taken Allocator.of
  by_cases h : ID.val % 2 = 0
  · rw [if_pos h, List.mem_toFinset, List.mem_filter, decide_eq_true_eq, h]
  · have h1 : ID.val % 2 = 1 := by omega
    rw [if_neg h, List.mem_toFinset, List.mem_filter, decide_eq_true_eq, h1]

/-- The search sees only numbers of its parity. -/
theorem candidate_mem_taken_iff {numbers : List ℤ} {ID : CInt} {rand : ℕ} :
    candidate ID rand ∈ (Allocator.of numbers).taken ID ↔ candidate ID rand ∈ numbers := by
  rw [mem_taken_of]
  exact and_iff_left (candidate_range ID rand).2.2

theorem toFinset_filter_append (p : ℤ → Bool) (l : List ℤ) (n : ℤ) :
    ((l ++ [n]).filter p).toFinset =
      if p n then insert n (l.filter p).toFinset else (l.filter p).toFinset := by
  rw [List.filter_append, List.filter_singleton]
  cases p n with
  | false => rw [if_neg Bool.false_ne_true, cond_false, List.append_nil]
  | true =>
    ext m
    simp

theorem of_append {numbers : List ℤ} {ID : CInt} {n : ℤ} (h : n % 2 = ID.val % 2) :
    Allocator.of (numbers ++ [n]) = (Allocator.of numbers).take ID n := by
  unfold Allocator.take Allocator.of
  rw [toFinset_filter_append, toFinset_filter_append, h]
  by_cases h0 : ID.val % 2 = 0
  · rw [if_pos h0, h0]
    rfl
  · have h1 : ID.val % 2 = 1 := by omega
    rw [if_neg h0, h1]
    rfl

/-- What is taken for one parity leaves the set of the other. -/
theorem taken_take_ne {a : Allocator} {ID ID' : CInt} (h : ID.val % 2 ≠ ID'.val % 2) (n : ℤ) :
    (a.take ID' n).taken ID = a.taken ID := by
  unfold Allocator.take Allocator.taken
  by_cases h0 : ID'.val % 2 = 0
  · have h1 : ¬ ID.val % 2 = 0 := by omega
    rw [if_pos h0, if_neg h1, if_neg h1]
  · have h1 : ID.val % 2 = 0 := by omega
    rw [if_neg h0, if_pos h1, if_pos h1]

/-- The allocator of a vector takes the first candidate that is not in the vector. -/
theorem allocator_generateNumber_eq (numbers : List ℤ) (ID : CInt) (rands : List ℕ) :
    (Allocator.of numbers).generateNumber ID rands =
      (firstNew ID numbers rands).elim (.error .spins)
        fun n => .ok (n, Allocator.of (numbers ++ [n])) := by
  induction rands with
  | nil => rfl
  | cons rand rands ih =>
    rw [Allocator.generateNumber, firstNew, List.map_cons, List.find?_cons]
    simp only [candidate_mem_taken_iff]
    by_cases hm : candidate ID rand ∈ numbers
    · rw [if_pos hm]
      simp only [hm, not_true_eq_false, decide_false]
      exact ih
    · rw [if_neg hm]
      simp only [hm, not_false_eq_true, decide_true, Option.elim_some]
      rw [of_append (candidate_range ID rand).2.2]

theorem allocator_returns_iff {numbers : List ℤ} {c : NumberCall} {n : ℤ} {a' : Allocator} :
    allocatorCalls.returns (Allocator.of numbers) c n a' ↔
      FirstUnused numbers (fun i => candidate c.ID (c.rand i)) n ∧
        a' = Allocator.of (numbers ++ [n]) := by
  show ReturnsOn _ _ _ ↔ _
  rw [returnsOn_iff (allocator_generateNumber_eq numbers c.ID)]
  constructor
  · intro h
    obtain ⟨m, hfirst, hm⟩ := h
    cases hm
    exact ⟨hfirst, rfl⟩
  · intro h
    obtain ⟨hfirst, rfl⟩ := h
    exact ⟨n, hfirst, rfl⟩

theorem allocator_loops_iff {numbers : List ℤ} {c : NumberCall} :
    allocatorCalls.runsForever (Allocator.of numbers) c ↔
      ∀ i, candidate c.ID (c.rand i) ∈ numbers :=
  loopsOn_iff (allocator_generateNumber_eq numbers c.ID) fun _ _ => ⟨_, rfl⟩

/-! ## The server against the allocator -/

/-- The states of a server with so many clients. -/
def Server.Serving (clients : ℕ) (s : Server) : Prop := s.Inv ∧ s.clients.length = clients

theorem Server.Generates.serving {clients : ℕ} {s s' : Server} {o : ClientPtr} {n : ℤ}
    (h : s.Generates s' o n) (hs : s.Serving clients) : s'.Serving clients := by
  refine ⟨h.relists.inv hs.1, ?_⟩
  rw [h.relists.same.clients]
  exact hs.2

theorem Server.Serving.at {clients : ℕ} {s : Server} (hs : s.Serving clients) {c : NumberCall}
    (hc : c.InRange clients) : ∃ o, s.at c.ID = .ok o :=
  at_of_lt hc.1 (hs.2.symm ▸ hc.2)

theorem allocator_bisim (clients : ℕ) :
    Bisim serverCalls allocatorCalls (NumberCall.InRange clients)
      fun s a => s.Serving clients ∧ a = Allocator.of s.numbers := by
  refine ⟨fun {s a c n s'} hR hc hret => ?_, fun {s a c n a'} hR hc hret => ?_,
    fun {s a c} hR hc => ?_⟩
  · obtain ⟨hs, rfl⟩ := hR
    obtain ⟨o, ho⟩ := hs.at hc
    obtain ⟨hfirst, -, hg⟩ := generateNumber_returns hs.1 ho hret
    exact ⟨_, allocator_returns_iff.mpr ⟨hfirst, rfl⟩, hg.serving hs, by rw [hg.numbers]⟩
  · obtain ⟨hs, rfl⟩ := hR
    obtain ⟨o, ho⟩ := hs.at hc
    obtain ⟨hfirst, rfl⟩ := allocator_returns_iff.mp hret
    obtain ⟨s', hret'⟩ := (generateNumber_returns_iff hs.1 ho).mpr hfirst
    obtain ⟨-, -, hg⟩ := generateNumber_returns hs.1 ho hret'
    exact ⟨s', hret', hg.serving hs, by rw [hg.numbers]⟩
  · obtain ⟨hs, rfl⟩ := hR
    obtain ⟨o, ho⟩ := hs.at hc
    rw [allocator_loops_iff]
    exact generateNumber_loops_iff hs.1 ho

/-- Each call returns one number with one state after it, or runs for ever. -/
theorem server_definite (clients : ℕ) :
    Definite serverCalls (NumberCall.InRange clients) (Server.Serving clients) := by
  refine ⟨fun {s c n s'} hs hc hret => ?_, fun {s c} hs hc => ?_,
    fun {s c n n' s' s''} hs hc hret hret' => ?_, fun {s c n s'} hs hc hret hloop => ?_⟩
  · obtain ⟨o, ho⟩ := hs.at hc
    exact (generateNumber_returns hs.1 ho hret).2.2.serving hs
  · obtain ⟨o, ho⟩ := hs.at hc
    by_cases hnew : ∃ i, candidate c.ID (c.rand i) ∉ s.numbers
    · obtain ⟨n, hfirst⟩ := exists_firstUnused hnew
      obtain ⟨s', hret⟩ := (generateNumber_returns_iff hs.1 ho).mpr hfirst
      exact .inl ⟨n, s', hret⟩
    · refine .inr ((generateNumber_loops_iff hs.1 ho).mpr fun i => ?_)
      exact not_not.mp fun hi => hnew ⟨i, hi⟩
  · obtain ⟨o, ho⟩ := hs.at hc
    obtain ⟨hfirst, hrec, -⟩ := generateNumber_returns hs.1 ho hret
    obtain ⟨hfirst', hrec', -⟩ := generateNumber_returns hs.1 ho hret'
    obtain rfl := hfirst.unique hfirst'
    rw [hrec] at hrec'
    cases hrec'
    exact ⟨rfl, rfl⟩
  · obtain ⟨o, ho⟩ := hs.at hc
    obtain ⟨i, rfl, hnew, -⟩ := (generateNumber_returns hs.1 ho hret).1
    exact hnew ((generateNumber_loops_iff hs.1 ho).mp hloop i)

/-! ## Two calls of different parity -/

theorem firstUnused_parity {ID : CInt} {numbers : List ℤ} {rand : ℕ → ℕ} {n : ℤ}
    (h : FirstUnused numbers (fun i => candidate ID (rand i)) n) : n % 2 = ID.val % 2 := by
  obtain ⟨i, rfl, -⟩ := h
  exact (candidate_range ID (rand i)).2.2

/-- A number of the other parity does not change what is drawn. -/
theorem firstUnused_append_ne {numbers : List ℤ} {ID ID' : CInt} {m : ℤ}
    (h : ID.val % 2 ≠ ID'.val % 2) (hm : m % 2 = ID'.val % 2) {rand : ℕ → ℕ} {n : ℤ} :
    FirstUnused (numbers ++ [m]) (fun i => candidate ID (rand i)) n ↔
      FirstUnused numbers (fun i => candidate ID (rand i)) n := by
  refine firstUnused_congr fun i => ?_
  rw [← candidate_mem_taken_iff, of_append hm, taken_take_ne h, candidate_mem_taken_iff]

theorem at_of_returns {s s' : Server} {c : NumberCall} {n : ℤ}
    (h : serverCalls.returns s c n s') : ∃ o, s.at c.ID = .ok o := by
  obtain ⟨k, hk⟩ := h
  obtain ⟨o, ho, -⟩ := bind_ok_iff.mp hk
  exact ⟨o, ho⟩

theorem at_ne {s : Server} (hs : s.Inv) {ID ID' : CInt} {o o' : ClientPtr} (h : s.at ID = .ok o)
    (h' : s.at ID' = .ok o') (hne : ID.val % 2 ≠ ID'.val % 2) : o ≠ o' := by
  rintro rfl
  obtain ⟨h0, hget⟩ := at_ok_iff.mp h
  obtain ⟨h0', hget'⟩ := at_ok_iff.mp h'
  have hidx := nodup_getElem?_inj hs.nodup hget hget'
  omega

/-- A first new candidate is returned, and given to the client. -/
theorem returns_of_firstUnused {s : Server} (hs : s.Inv) {c : NumberCall} {o : ClientPtr}
    (ho : s.at c.ID = .ok o) {n : ℤ}
    (h : FirstUnused s.numbers (fun i => candidate c.ID (c.rand i)) n) :
    ∃ s', serverCalls.returns s c n s' ∧ s.Generates s' o n := by
  obtain ⟨s', hret⟩ := (generateNumber_returns_iff hs ho).mpr h
  exact ⟨s', hret, (generateNumber_returns hs ho hret).2.2⟩

/-- Two clients get a number each, in one order and in the other. -/
theorem listOf_swap {s s₁ s₂ s₁' s₂' : Server} {o₁ o₂ : ClientPtr} {n₁ n₂ : ℤ} (hne : o₁ ≠ o₂)
    (h₁ : s.Generates s₁ o₁ n₁) (h₂ : s₁.Generates s₂ o₂ n₂) (h₂' : s.Generates s₁' o₂ n₂)
    (h₁' : s₁'.Generates s₂' o₁ n₁) (o : ClientPtr) : s₂'.listOf o = s₂.listOf o := by
  by_cases h : o = o₁
  · subst h
    rw [h₁'.relists.listOf, h₂'.relists.listOf_ne hne, h₂.relists.listOf_ne hne,
      h₁.relists.listOf]
  · rw [h₁'.relists.listOf_ne h]
    by_cases h' : o = o₂
    · subst h'
      rw [h₂'.relists.listOf, h₂.relists.listOf, h₁.relists.listOf_ne h]
    · rw [h₂'.relists.listOf_ne h', h₂.relists.listOf_ne h', h₁.relists.listOf_ne h]

theorem generateNumber_swap {s s₁ s₂ : Server} (hs : s.Inv) {c₁ c₂ : NumberCall} {n₁ n₂ : ℤ}
    (hpar : c₁.ID.val % 2 ≠ c₂.ID.val % 2) (h₁ : serverCalls.returns s c₁ n₁ s₁)
    (h₂ : serverCalls.returns s₁ c₂ n₂ s₂) :
    ∃ s₁' s₂', serverCalls.returns s c₂ n₂ s₁' ∧ serverCalls.returns s₁' c₁ n₁ s₂' ∧
      ∀ o, s₂'.listOf o = s₂.listOf o := by
  obtain ⟨o₁, ho₁⟩ := at_of_returns h₁
  obtain ⟨hfirst₁, -, hg₁⟩ := generateNumber_returns hs ho₁ h₁
  obtain ⟨o₂, ho₂⟩ := at_of_returns h₂
  obtain ⟨hfirst₂, -, hg₂⟩ := generateNumber_returns (hg₁.relists.inv hs) ho₂ h₂
  -- the second call first: the number of the first one was not in its way
  rw [hg₁.numbers, firstUnused_append_ne hpar.symm (firstUnused_parity hfirst₁)] at hfirst₂
  rw [hg₁.relists.same.at] at ho₂
  obtain ⟨s₁', hret₂, hg₂'⟩ := returns_of_firstUnused hs ho₂ hfirst₂
  have hfirst₁' : FirstUnused s₁'.numbers (fun i => candidate c₁.ID (c₁.rand i)) n₁ := by
    rw [hg₂'.numbers, firstUnused_append_ne hpar (firstUnused_parity hfirst₂)]
    exact hfirst₁
  have ho₁' : s₁'.at c₁.ID = .ok o₁ := (hg₂'.relists.same.at c₁.ID).trans ho₁
  obtain ⟨s₂', hret₁, hg₁'⟩ := returns_of_firstUnused (hg₂'.relists.inv hs) ho₁' hfirst₁'
  exact ⟨s₁', s₂', hret₂, hret₁, listOf_swap (at_ne hs ho₁ ho₂ hpar) hg₁ hg₂ hg₂' hg₁'⟩

/-- From every state of a server, any sequence of calls for indices in range has one behaviour,
    that of the allocator with two sets; and two calls of different parity that return can be
    swapped, with the same numbers returned and the same lists in the end. -/
theorem generateNumber_as_allocator {s : Server} (hs : s.Reachable) :
    (∀ calls : List NumberCall, (∀ c ∈ calls, c.InRange s.clients.length) →
      (∃! results, Behaves serverCalls s calls results) ∧
        ∀ results, Behaves serverCalls s calls results ↔
          Behaves allocatorCalls (Allocator.of s.numbers) calls results) ∧
      ∀ (c₁ c₂ : NumberCall) (n₁ n₂ : ℤ) (s₁ s₂ : Server), c₁.ID.val % 2 ≠ c₂.ID.val % 2 →
        serverCalls.returns s c₁ n₁ s₁ → serverCalls.returns s₁ c₂ n₂ s₂ →
        ∃ s₁' s₂', serverCalls.returns s c₂ n₂ s₁' ∧ serverCalls.returns s₁' c₁ n₁ s₂' ∧
          ∀ o, s₂'.listOf o = s₂.listOf o := by
  have hinv := reachable_inv hs
  have hserving : s.Serving s.clients.length := ⟨hinv, rfl⟩
  refine ⟨fun calls hcalls => ⟨?_, fun results => ?_⟩, fun c₁ c₂ n₁ n₂ s₁ s₂ hpar h₁ h₂ => ?_⟩
  · exact (server_definite _).existsUnique hcalls hserving
  · exact (allocator_bisim _).behaves_iff ⟨hserving, rfl⟩ hcalls
  · exact generateNumber_swap hinv hpar h₁ h₂

/-- Two clients call with the same results of `rand()`; the first one calls again and gets none,
    as its candidate is taken. -/
theorem generateNumber_as_allocator_two : ∃ (s : Server) (c₁ c₂ : NumberCall),
    s.clients = [0, 1] ∧ Behaves serverCalls s [c₁, c₂, c₁] [some 6, some 7, none] ∧
    ∃ s₁' s₂', serverCalls.returns s c₂ 7 s₁' ∧ serverCalls.returns s₁' c₁ 6 s₂' := by
  have run : ∃ s s₁ s₂, Run Server.Step (.init 3)
      [.acceptClient 0 .SUCCESS "" (some (4, "10.0.0.1")),
        .acceptClient 0 .SUCCESS "" (some (5, "10.0.0.2"))] s ∧ s.clients = [0, 1] ∧
      s.numbers = [] ∧
      serverCalls.returns s ⟨⟨0, by decide, by decide⟩, fun _ => 3⟩ 6 s₁ ∧
      serverCalls.returns s₁ ⟨⟨1, by decide, by decide⟩, fun _ => 3⟩ 7 s₂ :=
    ⟨_, _, _, .cons rfl (.cons rfl (.nil _)), rfl, rfl, ⟨1, rfl⟩, ⟨1, rfl⟩⟩
  obtain ⟨s, s₁, s₂, hrun, hclients, hnum, h₁, h₂⟩ := run
  obtain ⟨hbehaves, hswap⟩ := generateNumber_as_allocator ⟨3, _, hrun⟩
  have hzero : NumberCall.InRange s.clients.length ⟨⟨0, by decide, by decide⟩, fun _ => 3⟩ := by
    rw [hclients]
    exact ⟨by decide, by decide⟩
  have hone : NumberCall.InRange s.clients.length ⟨⟨1, by decide, by decide⟩, fun _ => 3⟩ := by
    rw [hclients]
    exact ⟨by decide, by decide⟩
  obtain ⟨s₁', s₂', hret₂, hret₁, -⟩ := hswap _ _ _ _ _ _ (by decide) h₁ h₂
  refine ⟨s, _, _, hclients, ((hbehaves _ (by simp [hzero, hone])).2 _).mpr ?_, s₁', s₂', hret₂,
    hret₁⟩
  have hsix : allocatorCalls.returns (Allocator.of [])
      ⟨⟨0, by decide, by decide⟩, fun _ => 3⟩ 6 (Allocator.of [6]) :=
    allocator_returns_iff.mpr ⟨⟨0, rfl, by decide, by simp⟩, rfl⟩
  have hseven : allocatorCalls.returns (Allocator.of [6])
      ⟨⟨1, by decide, by decide⟩, fun _ => 3⟩ 7 (Allocator.of [6, 7]) :=
    allocator_returns_iff.mpr ⟨⟨0, rfl, by decide, by simp⟩, rfl⟩
  have hloop : allocatorCalls.runsForever (Allocator.of [6, 7])
      ⟨⟨0, by decide, by decide⟩, fun _ => 3⟩ :=
    allocator_loops_iff.mpr fun _ => (List.mem_cons_self : (6 : ℤ) ∈ [6, 7])
  rw [hnum]
  exact .returns hsix (.returns hseven (.forever hloop))

end TCPServer
