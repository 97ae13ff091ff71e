/-
  A ledger of accounts to which values are given out, for any type of values.

  Accounts are opened, get values that no account has had before, may rearrange what they
  hold, and are closed with what they hold at that moment. A ledger is `Balanced` when the
  values given out are all different and are exactly what the open and the closed accounts
  hold together. Every step keeps the balance (`Step.balanced`), so every sequence of steps
  does (`balanced_of_steps`); `P` is a property that every value given out is checked for.
-/
import Mathlib.Data.List.Nodup
import Mathlib.Data.List.Perm.Basic
import Mathlib.Logic.Relation

namespace Ledgers

universe u

/-- The values given out, what each open account holds, and what each closed one held. -/
structure Ledger (α : Type u) where
  used : List α
  held : List (List α)
  closed : List (List α)

variable {α : Type u}

/-- The values all accounts hold together. -/
def Ledger.total (L : Ledger α) : List α := L.held.flatten ++ L.closed.flatten

inductive Step (P : α → Prop) : Ledger α → Ledger α → Prop
  | openAccount (L : Ledger α) : Step P L { L with held := L.held ++ [[]] }
  | give (L : Ledger α) (i : ℕ) (a : α) (hi : i < L.held.length) (hP : P a)
      (hnew : a ∉ L.used) :
      Step P L { L with used := L.used ++ [a], held := L.held.set i (L.held[i] ++ [a]) }
  | rearrange (L : Ledger α) (i : ℕ) (l : List α) (hi : i < L.held.length)
      (hl : l.Perm L.held[i]) : Step P L { L with held := L.held.set i l }
  | closeAccount (L : Ledger α) (i : ℕ) (hi : i < L.held.length) :
      Step P L { L with held := L.held.eraseIdx i, closed := L.closed ++ [L.held[i]] }

/-- Any number of steps. -/
abbrev Steps (P : α → Prop) : Ledger α → Ledger α → Prop := Relation.ReflTransGen (Step P)

/-- The values given out are all different, have `P`, and are what the accounts hold. -/
structure Balanced (P : α → Prop) (L : Ledger α) : Prop where
  nodup : L.used.Nodup
  all : ∀ a ∈ L.used, P a
  perm : L.used.Perm L.total

/-! ## What an account contributes to the total -/

theorem flatten_perm_eraseIdx {ls : List (List α)} {i : ℕ} (hi : i < ls.length) :
    ls.flatten.Perm (ls[i] ++ (ls.eraseIdx i).flatten) := by
  have h := (List.getElem_cons_eraseIdx_perm hi).symm.flatten
  rwa [List.flatten_cons] at h

theorem flatten_set_perm {ls : List (List α)} {i : ℕ} (hi : i < ls.length) (l : List α) :
    (ls.set i l).flatten.Perm (l ++ (ls.eraseIdx i).flatten) := by
  have h := (List.set_perm_cons_eraseIdx hi l).flatten
  rwa [List.flatten_cons] at h

/-! ## Every step keeps the balance -/

theorem Step.balanced {P : α → Prop} {L L' : Ledger α} (h : Step P L L')
    (hb : Balanced P L) : Balanced P L' := by
  obtain ⟨hnd, hall, hp⟩ := hb
  unfold Ledger.total at hp
  cases h with
  | openAccount => exact ⟨hnd, hall, by simpa [Ledger.total] using hp⟩
  | give i a hi hP hnew =>
    refine ⟨?_, ?_, ?_⟩
    · rw [← List.concat_eq_append]
      exact .concat hnew hnd
    · intro b hb
      rcases List.mem_append.mp hb with hb | hb
      · exact hall b hb
      · rw [List.mem_singleton] at hb; exact hb ▸ hP
    · have h1 := (flatten_perm_eraseIdx hi).append_right L.closed.flatten
      have h2 := (flatten_set_perm hi (L.held[i] ++ [a])).append_right L.closed.flatten
      have h3 : (L.used ++ [a]).Perm (a :: L.used) := List.perm_append_singleton a L.used
      have h4 : (L.held[i] ++ [a]).Perm (a :: L.held[i]) := List.perm_append_singleton a _
      exact h3.trans (((hp.trans h1).cons a).trans
        (((h4.append_right _).append_right _).symm.trans h2.symm))
  | rearrange i l hi hl =>
    refine ⟨hnd, hall, ?_⟩
    have h1 := (flatten_perm_eraseIdx hi).append_right L.closed.flatten
    have h2 := (flatten_set_perm hi l).append_right L.closed.flatten
    exact (hp.trans h1).trans (((hl.symm.append_right _).append_right _).trans h2.symm)
  | closeAccount i hi =>
    refine ⟨hnd, hall, ?_⟩
    have h1 := (flatten_perm_eraseIdx hi).append_right L.closed.flatten
    have h2 : (L.held[i] ++ (L.held.eraseIdx i).flatten ++ L.closed.flatten).Perm
        ((L.held.eraseIdx i).flatten ++ (L.closed ++ [L.held[i]]).flatten) := by
      rw [List.flatten_append, List.flatten_singleton, List.append_assoc]
      exact List.perm_append_comm.trans (by rw [List.append_assoc])
    exact (hp.trans h1).trans h2

/-- The balance holds after any number of steps. -/
theorem balanced_of_steps {P : α → Prop} {L L' : Ledger α} (h : Steps P L L')
    (hb : Balanced P L) : Balanced P L' := by
  induction h with
  | refl => exact hb
  | tail _ hs ih => exact hs.balanced ih

/-- The order in which accounts were closed does not matter. -/
theorem Balanced.of_closed_perm {P : α → Prop} {L : Ledger α} (hb : Balanced P L)
    {closed : List (List α)} (hc : L.closed.Perm closed) :
    Balanced P { L with closed := closed } :=
  ⟨hb.nodup, hb.all, hb.perm.trans (hc.flatten.append_left L.held.flatten)⟩

theorem balanced_empty (P : α → Prop) : Balanced P ⟨[], [], []⟩ :=
  ⟨List.nodup_nil, by simp, List.Perm.refl _⟩

end Ledgers
