/-
  One pass of exchange sort over a list, for any linear order.

  `pass x ys` is what a loop over `ys` leaves when it swaps the value `x` in hand with every
  smaller value it meets: the final value in hand, and the list as rewritten. The value in hand
  ends as a least one (`pass_le`) and nothing is lost (`pass_perm`), so passes over ever shorter
  rests sort a list (`pairwise_le_cons_of_pass`).
-/
import Mathlib.Data.List.Perm.Basic
import Mathlib.Order.Lattice

namespace ExchangeSort

universe u

variable {α : Type u} [LinearOrder α]

/-- The value in hand after meeting all of `ys`, and what stands in the places of `ys`. -/
def pass (x : α) : List α → α × List α
  | [] => (x, [])
  | y :: ys =>
    if y < x then ((pass y ys).1, x :: (pass y ys).2)
    else ((pass x ys).1, y :: (pass x ys).2)

@[simp] theorem pass_nil (x : α) : pass x [] = (x, []) := rfl

theorem pass_cons_lt {x y : α} (h : y < x) (ys : List α) :
    pass x (y :: ys) = ((pass y ys).1, x :: (pass y ys).2) := by
  rw [pass, if_pos h]

theorem pass_cons_not_lt {x y : α} (h : ¬ y < x) (ys : List α) :
    pass x (y :: ys) = ((pass x ys).1, y :: (pass x ys).2) := by
  rw [pass, if_neg h]

theorem pass_perm (x : α) (ys : List α) : ((pass x ys).1 :: (pass x ys).2).Perm (x :: ys) := by
  induction ys generalizing x with
  | nil => exact List.Perm.refl _
  | cons y ys ih =>
    by_cases h : y < x
    · rw [pass_cons_lt h]
      exact (List.Perm.swap x _ _).trans ((ih y).cons x)
    · rw [pass_cons_not_lt h]
      exact (List.Perm.swap y _ _).trans (((ih x).cons y).trans (List.Perm.swap x y ys))

/-- A pass never makes the value in hand larger. -/
theorem pass_fst_le (x : α) (ys : List α) : (pass x ys).1 ≤ x := by
  induction ys generalizing x with
  | nil => exact le_refl x
  | cons y ys ih =>
    by_cases h : y < x
    · rw [pass_cons_lt h]
      exact le_trans (ih y) (le_of_lt h)
    · rw [pass_cons_not_lt h]
      exact ih x

/-- The value in hand ends at most as large as every value left in the list. -/
theorem pass_le (x : α) (ys : List α) : ∀ y ∈ (pass x ys).2, (pass x ys).1 ≤ y := by
  induction ys generalizing x with
  | nil => simp
  | cons y ys ih =>
    intro z hz
    by_cases h : y < x
    · rw [pass_cons_lt h] at hz ⊢
      rcases List.mem_cons.mp hz with rfl | hz
      · exact le_trans (pass_fst_le y ys) (le_of_lt h)
      · exact ih y z hz
    · rw [pass_cons_not_lt h] at hz ⊢
      rcases List.mem_cons.mp hz with rfl | hz
      · exact le_trans (pass_fst_le x ys) (not_lt.mp h)
      · exact ih x z hz

/-- After a pass, sorting the places of `ys` sorts the whole. -/
theorem pairwise_le_cons_of_pass {x : α} {ys zs : List α} (hp : zs.Perm (pass x ys).2)
    (hs : zs.Pairwise (· ≤ ·)) : ((pass x ys).1 :: zs).Pairwise (· ≤ ·) :=
  List.pairwise_cons.mpr ⟨fun z hz => pass_le x ys z (hp.mem_iff.mp hz), hs⟩

end ExchangeSort
