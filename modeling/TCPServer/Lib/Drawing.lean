/-
  Drawing without replacement by rejection, for values of any type.

  Values come from a stream, and those already used are rejected. `FirstUnused` is the value a
  draw ends with; it is what searching a long enough prefix finds (`find?_range_map_iff`), and
  no prefix is long enough exactly if the stream has used values only (`find?_range_map_none`).
  Of a finite pool no more values can be used than it has, and when that many are used it is
  used up (`length_eq_iff_subset`).
-/
import Mathlib.Data.List.Nodup
import Mathlib.Data.Nat.Find
import Mathlib.Data.List.Range
import Mathlib.Data.List.Perm.Subperm

namespace Drawing

universe u

variable {α : Type u}

/-- `x` is the first value of the stream that is not used. -/
def FirstUnused (used : List α) (stream : ℕ → α) (x : α) : Prop :=
  ∃ i, stream i = x ∧ x ∉ used ∧ ∀ j < i, stream j ∈ used

theorem FirstUnused.unused {used : List α} {stream : ℕ → α} {x : α}
    (h : FirstUnused used stream x) : x ∉ used := by
  obtain ⟨i, -, hx, -⟩ := h
  exact hx

theorem FirstUnused.unique {used : List α} {stream : ℕ → α} {x y : α}
    (hx : FirstUnused used stream x) (hy : FirstUnused used stream y) : x = y := by
  obtain ⟨i, rfl, hi, hbefore⟩ := hx
  obtain ⟨j, rfl, hj, hbefore'⟩ := hy
  rcases Nat.lt_trichotomy i j with hlt | rfl | hlt
  · exact absurd (hbefore' i hlt) hi
  · rfl
  · exact absurd (hbefore j hlt) hj

/-- Only which values of the stream are used matters. -/
theorem firstUnused_congr {used used' : List α} {stream : ℕ → α}
    (h : ∀ i, stream i ∈ used ↔ stream i ∈ used') {x : α} :
    FirstUnused used stream x ↔ FirstUnused used' stream x := by
  unfold FirstUnused
  refine exists_congr fun i => and_congr_right fun hi => ?_
  subst hi
  simp only [h]

section Streams

variable [DecidableEq α] {used : List α} {stream : ℕ → α} {x : α}

theorem find?_range_map_iff {k : ℕ} :
    ((List.range k).map stream).find? (· ∉ used) = some x ↔
      ∃ i < k, stream i = x ∧ x ∉ used ∧ ∀ j < i, stream j ∈ used := by
  rw [List.find?_eq_some_iff_getElem]
  simp only [List.length_map, List.length_range, List.getElem_map, List.getElem_range,
    decide_eq_true_eq, Bool.not_eq_true', decide_eq_false_iff_not, not_not]
  constructor
  · intro h
    obtain ⟨hx, i, hi, hxi, hj⟩ := h
    exact ⟨i, hi, hxi, hx, hj⟩
  · intro h
    obtain ⟨i, hi, hxi, hx, hj⟩ := h
    exact ⟨hx, i, hi, hxi, hj⟩

theorem firstUnused_iff :
    FirstUnused used stream x ↔
      ∃ k, ((List.range k).map stream).find? (· ∉ used) = some x := by
  constructor
  · intro h
    obtain ⟨i, h⟩ := h
    exact ⟨i + 1, find?_range_map_iff.mpr ⟨i, Nat.lt_succ_self i, h⟩⟩
  · intro h
    obtain ⟨k, h⟩ := h
    obtain ⟨i, -, h⟩ := find?_range_map_iff.mp h
    exact ⟨i, h⟩

theorem find?_range_map_none :
    (∀ k, ((List.range k).map stream).find? (· ∉ used) = none) ↔ ∀ i, stream i ∈ used := by
  simp only [List.find?_eq_none, List.mem_map, List.mem_range, decide_eq_true_eq, not_not]
  constructor
  · intro h i
    exact h (i + 1) (stream i) ⟨i, Nat.lt_succ_self i, rfl⟩
  · intro h k y hy
    obtain ⟨i, -, rfl⟩ := hy
    exact h i

/-- A stream with an unused value has a first one. -/
theorem exists_firstUnused (h : ∃ i, stream i ∉ used) : ∃ x, FirstUnused used stream x := by
  refine ⟨stream (Nat.find h), Nat.find h, rfl, Nat.find_spec h, fun j hj => ?_⟩
  exact not_not.mp (Nat.find_min h hj)

end Streams

/-! ## A finite pool -/

section Pool

variable {used pool : List α}

theorem length_le_of_subset (hnd : used.Nodup) (hsub : used ⊆ pool) :
    used.length ≤ pool.length :=
  (hnd.subperm hsub).length_le

/-- As many values are used as the pool has exactly if each of them is used. -/
theorem length_eq_iff_subset (hnd : used.Nodup) (hpool : pool.Nodup) (hsub : used ⊆ pool) :
    used.length = pool.length ↔ pool ⊆ used := by
  constructor
  · intro h
    exact ((hnd.subperm hsub).perm_of_length_le h.ge).symm.subset
  · intro h
    exact Nat.le_antisymm (length_le_of_subset hnd hsub) (length_le_of_subset hpool h)

end Pool

end Drawing
