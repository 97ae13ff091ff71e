/-
  Handles that are acquired and released, for any type of handles.

  A log lists what was done, the last event first. `held es a`: the handle `a` was acquired and
  has not been released since. A release gives the handle up whatever it reports, as `close(2)`
  does with a descriptor. A log is `Sound` if every release was of a handle held then, and every
  handle acquired was not held then, so no handle is released twice and none that was not
  acquired. In a sound log each handle has been released as often as it was acquired, apart from
  the one time it is held (`Sound.count_eq`).
-/
import Mathlib.Data.Set.Finite.Basic

namespace Handles

universe u

inductive Event (α : Type u) where
  | acquired (a : α)
  /-- A release, and whether it reports success. -/
  | released (a : α) (ok : Bool)
  deriving DecidableEq

variable {α : Type u} [DecidableEq α]

/-- The handle was acquired and has not been released since. -/
def held : List (Event α) → α → Bool
  | [], _ => false
  | .acquired b :: es, a => decide (a = b) || held es a
  | .released b _ :: es, a => !decide (a = b) && held es a

/-- Only held handles are released, and only handles that are not held are acquired. -/
def Sound : List (Event α) → Prop
  | [] => True
  | .acquired a :: es => held es a = false ∧ Sound es
  | .released a _ :: es => held es a = true ∧ Sound es

section Held

variable {es : List (Event α)} {a b : α} {ok : Bool}

@[simp] theorem held_nil : held ([] : List (Event α)) a = false := rfl

theorem held_acquired_iff : held (.acquired b :: es) a = true ↔ a = b ∨ held es a = true := by
  simp [held]

theorem held_released_iff :
    held (.released b ok :: es) a = true ↔ a ≠ b ∧ held es a = true := by
  simp [held]

theorem Sound.tail {e : Event α} (h : Sound (e :: es)) : Sound es := by
  cases e <;> exact h.2

/-- The releases of a handle, successful or not. -/
def releases (es : List (Event α)) (a : α) : ℕ :=
  es.count (.released a true) + es.count (.released a false)

theorem Sound.count_eq (h : Sound es) (a : α) :
    es.count (.acquired a) = releases es a + (held es a).toNat := by
  unfold releases
  induction es with
  | nil => rfl
  | cons e es ih =>
    have hcount := ih h.tail
    cases e with
    | acquired b =>
      by_cases hab : a = b
      · subst hab
        have hfree : held es a = false := h.1
        rw [hfree] at hcount
        simpa [held] using hcount
      · have hba : ¬ b = a := Ne.symm hab
        simpa [held, hab, hba] using hcount
    | released b ok =>
      by_cases hab : a = b
      · subst hab
        have hheld : held es a = true := h.1
        rw [hheld] at hcount
        cases ok with
        | true => simpa [held, Nat.add_right_comm] using hcount
        | false => simpa [held, Nat.add_assoc] using hcount
      · have hba : ¬ b = a := Ne.symm hab
        simpa [held, hab, hba] using hcount

/-- If in the end no handle is held and all releases have succeeded, each handle was released
    exactly as often as acquired. -/
theorem Sound.count_eq_of_none (h : Sound es) (hnone : ∀ a, held es a = false)
    (hok : ∀ a, .released a false ∉ es) (a : α) :
    es.count (.acquired a) = es.count (.released a true) := by
  rw [h.count_eq a, hnone a, releases, List.count_eq_zero.mpr (hok a)]
  rfl

theorem mem_of_held (h : held es a = true) : .acquired a ∈ es := by
  induction es with
  | nil => cases h
  | cons e es ih =>
    cases e with
    | acquired b =>
      rcases held_acquired_iff.mp h with rfl | h
      · exact List.mem_cons_self
      · exact List.mem_cons_of_mem _ (ih h)
    | released b ok => exact List.mem_cons_of_mem _ (ih (held_released_iff.mp h).2)

/-- Among infinitely many handles there is one that is not held. -/
theorem exists_not_held {S : Set α} (hS : S.Infinite) (es : List (Event α)) :
    ∃ a ∈ S, held es a = false := by
  obtain ⟨a, haS, hnot⟩ := hS.exists_notMem_finite
    (List.finite_toSet (es.map fun | .acquired a => a | .released a _ => a))
  refine ⟨a, haS, Bool.eq_false_iff.mpr fun h => hnot ?_⟩
  exact List.mem_map.mpr ⟨_, mem_of_held h, rfl⟩

end Held

end Handles
