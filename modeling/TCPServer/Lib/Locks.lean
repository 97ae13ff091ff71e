/-
  Mutexes and waiting, for any kind of threads.

  `Owned mtx holds`: the owner kept in `mtx` is the one thread inside the sections that the
  mutex guards. Each step of a thread locks, unlocks or does neither, and `Owned` goes along
  (`Owned.lock`, `Owned.unlock`, `Owned.keep`).

  A relation `waits` along which a rank goes down has no cycle (`not_transGen_self`), and from
  every thread it leads to one that waits for nobody (`exists_not_waiting`).
-/
import Mathlib.Logic.Relation
import Mathlib.Order.WellFounded

namespace Locks

open Relation

universe u

variable {τ : Type u}

/-- The mutex is owned by the thread that is inside the sections it guards, if there is one. -/
def Owned (mtx : Option τ) (holds : τ → Prop) : Prop := ∀ t, holds t ↔ mtx = some t

section Owned

variable {mtx : Option τ} {holds holds' : τ → Prop} {t u : τ}

theorem Owned.unique (h : Owned mtx holds) (ht : holds t) (hu : holds u) : t = u := by
  have hmtx := (h t).mp ht
  rw [(h u).mp hu] at hmtx
  exact (Option.some.inj hmtx).symm

/-- While one thread is inside, no other is. -/
theorem Owned.excludes (h : Owned mtx holds) (ht : holds t) (hne : u ≠ t) : ¬ holds u :=
  fun hu => hne (h.unique hu ht)

theorem Owned.of_free (h : Owned mtx holds) (hfree : mtx = none) : Owned none holds := by
  rw [← hfree]
  exact h

theorem Owned.free (h : Owned none holds) (t : τ) : ¬ holds t := by
  rw [h t]
  nofun

/-- Nobody goes in or out. -/
theorem Owned.keep (h : Owned mtx holds) (hsame : ∀ u, holds' u ↔ holds u) :
    Owned mtx holds' :=
  fun u => (hsame u).trans (h u)

/-- `t` goes in. -/
theorem Owned.lock (h : Owned none holds) (ht : holds' t)
    (hsame : ∀ u, u ≠ t → (holds' u ↔ holds u)) : Owned (some t) holds' := by
  intro u
  by_cases hu : u = t
  · subst hu
    exact iff_of_true ht rfl
  · rw [hsame u hu, Option.some.injEq]
    exact iff_of_false (h.free u) (Ne.symm hu)

/-- `t` comes out. -/
theorem Owned.unlock (h : Owned mtx holds) (ht : holds t) (ht' : ¬ holds' t)
    (hsame : ∀ u, u ≠ t → (holds' u ↔ holds u)) : Owned none holds' := by
  intro u
  by_cases hu : u = t
  · subst hu
    exact iff_of_false ht' nofun
  · rw [hsame u hu]
    exact iff_of_false (h.excludes ht hu) nofun

end Owned

section Waits

variable {waits : τ → τ → Prop} {rank : τ → ℕ}

theorem rank_lt_of_transGen (h : ∀ t u, waits t u → rank u < rank t) {t u : τ}
    (htu : TransGen waits t u) : rank u < rank t := by
  induction htu with
  | single hw => exact h _ _ hw
  | tail _ hw ih => exact (h _ _ hw).trans ih

/-- Waiting goes down in rank, so no thread waits for itself through others. -/
theorem not_transGen_self (h : ∀ t u, waits t u → rank u < rank t) (t : τ) :
    ¬ TransGen waits t t :=
  fun ht => Nat.lt_irrefl _ (rank_lt_of_transGen h ht)

/-- From every thread, waiting leads to a thread that waits for nobody. -/
theorem exists_not_waiting (h : ∀ t u, waits t u → rank u < rank t) (t : τ) :
    ∃ u, ReflTransGen waits t u ∧ ∀ v, ¬ waits u v := by
  induction hn : rank t using Nat.strong_induction_on generalizing t with
  | _ n ih =>
    by_cases hw : ∃ u, waits t u
    · obtain ⟨u, hu⟩ := hw
      obtain ⟨v, huv, hv⟩ := ih (rank u) (hn ▸ h t u hu) u rfl
      exact ⟨v, .head hu huv, hv⟩
    · exact ⟨t, .refl, fun u hu => hw ⟨u, hu⟩⟩

end Waits

end Locks
