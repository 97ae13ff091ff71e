/-
  Simulations, and steps that commute, for any labelled step relations.

  * `Answers A B I R`: every step of `A` from a state with `I` is answered by steps of `B` that
    lead to related states again. Then every run of `A` is answered so (`Answers.reaches`).
  * `Run.commute`: where each step of a run can be taken just as well after a change `f` of the
    state, with the same label, the whole run can.
-/
import TCPServer.Lib.Runs

namespace Runs

universe u v w x

variable {σ : Type u} {ℓ : Type v} {τ : Type w} {κ : Type x}

/-- Steps of `A` from states with `I` are answered by steps of `B`, along `R`. -/
structure Answers (A : σ → ℓ → σ → Prop) (B : τ → κ → τ → Prop) (I : σ → Prop)
    (R : σ → τ → Prop) : Prop where
  keeps : ∀ {s l s'}, I s → A s l s' → I s'
  step : ∀ {s l s' t}, I s → R s t → A s l s' → ∃ t', Reaches B t t' ∧ R s' t'

theorem Answers.reaches {A : σ → ℓ → σ → Prop} {B : τ → κ → τ → Prop} {I : σ → Prop}
    {R : σ → τ → Prop} (h : Answers A B I R) {s s' : σ} {ls : List ℓ} {t : τ}
    (hrun : Run A s ls s') (hs : I s) (ht : R s t) : ∃ t', Reaches B t t' ∧ R s' t' := by
  induction hrun generalizing t with
  | nil s => exact ⟨t, .refl t, ht⟩
  | cons hl _ ih =>
    obtain ⟨m, htm, hm⟩ := h.step hs ht hl
    obtain ⟨t', hmt', ht'⟩ := ih (h.keeps hs hl) hm
    exact ⟨t', htm.trans hmt', ht'⟩

/-- Steps between states with `P` can be taken after the change `f` as well. -/
theorem Run.commute {A : σ → ℓ → σ → Prop} {P : σ → Prop} {f : σ → σ}
    (h : ∀ s l s', P s → A s l s' → A (f s) l (f s') ∧ P s') {s s' : σ} {ls : List ℓ}
    (hrun : Run A s ls s') (hs : P s) : Run A (f s) ls (f s') := by
  induction hrun with
  | nil s => exact .nil (f s)
  | cons hl _ ih =>
    obtain ⟨hstep, hm⟩ := h _ _ _ hs hl
    exact .cons hstep (ih hm)

end Runs
