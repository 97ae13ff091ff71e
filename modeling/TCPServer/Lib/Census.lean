/-
  How many of the entries of a table are of a kind, for any type of entries.

  `census p f n` counts the places below `n` whose entry has `p`. A table that grows by one
  place and a table with one entry changed are given by one equation each (`census_succ`,
  `census_update`); `census_eq_length` counts by a list of the places.
-/
import Mathlib.Data.List.Nodup
import Mathlib.Data.List.Perm.Basic
import Mathlib.Logic.Function.Basic

namespace Census

universe u

variable {α : Type u} {p : α → Bool} {f g : ℕ → α} {n : ℕ}

/-- How many of the entries `f 0`, .., `f (n - 1)` have `p`. -/
def census (p : α → Bool) (f : ℕ → α) (n : ℕ) : ℕ := (List.range n).countP fun i => p (f i)

@[simp] theorem census_zero : census p f 0 = 0 := rfl

theorem census_succ (p : α → Bool) (f : ℕ → α) (n : ℕ) :
    census p f (n + 1) = census p f n + (p (f n)).toNat := by
  unfold census
  rw [List.range_succ, List.countP_append, List.countP_singleton]
  cases p (f n) <;> rfl

theorem census_congr (h : ∀ i < n, p (f i) = p (g i)) : census p f n = census p g n := by
  refine List.countP_congr fun i hi => ?_
  rw [h i (List.mem_range.mp hi)]

/-- One entry below `n` changes. -/
theorem census_update (p : α → Bool) (f : ℕ → α) {i : ℕ} (hi : i < n) (a : α) :
    census p (Function.update f i a) n + (p (f i)).toNat = census p f n + (p a).toNat := by
  induction n with
  | zero => exact absurd hi (Nat.not_lt_zero i)
  | succ n ih =>
    rw [census_succ, census_succ]
    by_cases hin : i = n
    · subst hin
      have hold : census p (Function.update f i a) i = census p f i := by
        refine census_congr fun j hj => ?_
        rw [Function.update_of_ne (Nat.ne_of_lt hj)]
      rw [hold, Function.update_self]
      omega
    · have hlt : i < n := by omega
      rw [Function.update_of_ne (Ne.symm hin)]
      have hcount := ih hlt
      omega

/-- A list without duplicates of the places whose entries have `p` is as long as the count. -/
theorem census_eq_length {l : List ℕ} (hl : l.Nodup)
    (hmem : ∀ i, i ∈ l ↔ i < n ∧ p (f i) = true) : census p f n = l.length := by
  have hnodup : ((List.range n).filter fun i => p (f i)).Nodup := List.nodup_range.filter _
  have hperm : ((List.range n).filter fun i => p (f i)).Perm l := by
    refine (List.perm_ext_iff_of_nodup hnodup hl).mpr fun i => ?_
    rw [List.mem_filter, List.mem_range, hmem]
  rw [census, List.countP_eq_length_filter, hperm.length_eq]

end Census
