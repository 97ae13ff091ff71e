/-
  Labelled runs of a transition relation, for any states and labels.

  `Run step s ls s'`: taking the labels `ls` one after another from `s` can end in `s'`.
  A run is split and joined at any point (`run_append`), so "in every state of a run" is
  said by quantifying over runs: every prefix of a run is a run.

  * `Run.invariant`: what every step keeps holds at the end of a run.
  * `reaches_of_measure`: a goal is reached if each state short of it leads to a smaller one.
  * `Along step P`: the steps of `step` on which `P` holds, so a run of it is a run of `step`
    all of whose steps meet `P` (`Run.of_along`). `Run.along_of` changes `P` for a `Q` that
    follows from it under an invariant, `run_along_congr` for one that agrees with it;
    `run_along_or_trap` and `run_along_iff_of_trap` are for a first step without `P` that is
    never made good.
  * `WithHistory step u`: the steps of `step` beside a history variable, which each step changes
    by `u` and none reads. The runs are the same (`run_withHistory_iff`).
-/
import Mathlib.Logic.Relation
import Mathlib.Order.WellFounded

namespace Runs

universe u v w

variable {σ : Type u} {ℓ : Type v} {γ : Type w}

/-- The labels `ls`, taken in order from `s`, can lead to `s'`. -/
inductive Run (step : σ → ℓ → σ → Prop) : σ → List ℓ → σ → Prop
  | nil (s : σ) : Run step s [] s
  | cons {s m s' : σ} {l : ℓ} {ls : List ℓ} :
      step s l m → Run step m ls s' → Run step s (l :: ls) s'

/-- Some run leads from `s` to `s'`. -/
def Reaches (step : σ → ℓ → σ → Prop) (s s' : σ) : Prop := ∃ ls, Run step s ls s'

/-- The steps on which `P` holds. -/
def Along (step P : σ → ℓ → σ → Prop) : σ → ℓ → σ → Prop :=
  fun s l s' => step s l s' ∧ P s l s'

/-- The steps, with a history variable that they change by `u`. -/
def WithHistory (step : σ → ℓ → σ → Prop) (u : γ → σ → ℓ → γ) : σ × γ → ℓ → σ × γ → Prop :=
  fun s l s' => step s.1 l s'.1 ∧ s'.2 = u s.2 s.1 l

section Basic

variable {step : σ → ℓ → σ → Prop}

@[simp] theorem run_nil_iff {s s' : σ} : Run step s [] s' ↔ s = s' := by
  constructor
  · rintro ⟨⟩; rfl
  · rintro rfl; exact .nil s

@[simp] theorem run_cons_iff {s s' : σ} {l : ℓ} {ls : List ℓ} :
    Run step s (l :: ls) s' ↔ ∃ m, step s l m ∧ Run step m ls s' := by
  constructor
  · rintro (_ | ⟨h, hr⟩); exact ⟨_, h, hr⟩
  · rintro ⟨m, h, hr⟩; exact .cons h hr

theorem run_append {s s' : σ} {ks ls : List ℓ} :
    Run step s (ks ++ ls) s' ↔ ∃ m, Run step s ks m ∧ Run step m ls s' := by
  induction ks generalizing s with
  | nil => simp
  | cons k ks ih =>
    simp only [List.cons_append, run_cons_iff, ih]
    constructor
    · rintro ⟨m, h, n, h1, h2⟩; exact ⟨n, ⟨m, h, h1⟩, h2⟩
    · rintro ⟨n, ⟨m, h, h1⟩, h2⟩; exact ⟨m, h, n, h1, h2⟩

theorem Run.append {s m s' : σ} {ks ls : List ℓ} (h : Run step s ks m)
    (h' : Run step m ls s') : Run step s (ks ++ ls) s' :=
  run_append.mpr ⟨m, h, h'⟩

theorem Run.single {s s' : σ} {l : ℓ} (h : step s l s') : Run step s [l] s' :=
  .cons h (.nil s')

theorem Run.snoc {s m s' : σ} {ls : List ℓ} {l : ℓ} (h : Run step s ls m)
    (hl : step m l s') : Run step s (ls ++ [l]) s' :=
  h.append (.single hl)

/-- What every step keeps holds at the end of a run. -/
theorem Run.invariant {I : σ → Prop} (hstep : ∀ s l s', I s → step s l s' → I s')
    {s s' : σ} {ls : List ℓ} (h : Run step s ls s') (hs : I s) : I s' := by
  induction h with
  | nil s => exact hs
  | cons hl _ ih => exact ih (hstep _ _ _ hs hl)

/-- A relation with more steps has the same runs and more. -/
theorem Run.mono {step' : σ → ℓ → σ → Prop} (hsub : ∀ s l s', step s l s' → step' s l s')
    {s s' : σ} {ls : List ℓ} (h : Run step s ls s') : Run step' s ls s' := by
  induction h with
  | nil s => exact .nil s
  | cons hl _ ih => exact .cons (hsub _ _ _ hl) ih

theorem Reaches.refl (s : σ) : Reaches step s s := ⟨[], .nil s⟩

theorem Reaches.trans {a b c : σ} : Reaches step a b → Reaches step b c → Reaches step a c
  | ⟨ks, h⟩, ⟨ls, h'⟩ => ⟨ks ++ ls, h.append h'⟩

theorem Reaches.of_step {s s' : σ} {l : ℓ} (h : step s l s') : Reaches step s s' :=
  ⟨[l], .single h⟩

theorem Reaches.head {a b c : σ} {l : ℓ} (h : step a l b) (h' : Reaches step b c) :
    Reaches step a c :=
  (Reaches.of_step h).trans h'

/-- If from every state with `I` either the goal holds, or some run leads to another such state
    with a smaller measure, then some run leads to the goal. -/
theorem reaches_of_measure {I G : σ → Prop} (μ : σ → ℕ)
    (h : ∀ s, I s → G s ∨ ∃ s', Reaches step s s' ∧ I s' ∧ μ s' < μ s) {s : σ} (hs : I s) :
    ∃ s', Reaches step s s' ∧ I s' ∧ G s' := by
  induction hn : μ s using Nat.strong_induction_on generalizing s with
  | _ n ih =>
    rcases h s hs with hG | ⟨m, hsm, hm, hlt⟩
    · exact ⟨s, .refl s, hs, hG⟩
    · obtain ⟨s', hms', hs', hG⟩ := ih (μ m) (hn ▸ hlt) hm rfl
      exact ⟨s', hsm.trans hms', hs', hG⟩

end Basic

section Along

variable {step P Q : σ → ℓ → σ → Prop}

theorem Run.of_along {s s' : σ} {ls : List ℓ} (h : Run (Along step P) s ls s') :
    Run step s ls s' :=
  h.mono fun _ _ _ h => h.1

/-- Let `I` be kept by the steps that meet `P`, and let such a step from a state with `I` meet `Q`.
    Then a run from a state with `I` that meets `P` at all its steps meets `Q` at all of them. -/
theorem Run.along_of {I : σ → Prop}
    (hI : ∀ s l s', I s → step s l s' → P s l s' → I s')
    (hPQ : ∀ s l s', I s → step s l s' → P s l s' → Q s l s')
    {s s' : σ} {ls : List ℓ} (h : Run (Along step P) s ls s') (hs : I s) :
    Run (Along step Q) s ls s' := by
  induction h with
  | nil s => exact .nil s
  | cons hl _ ih =>
    exact .cons ⟨hl.1, hPQ _ _ _ hs hl.1 hl.2⟩ (ih (hI _ _ _ hs hl.1 hl.2))

/-- Let `I` be kept by the steps that meet `P`, and let a step from a state with `I` meet `P`
    exactly when it meets `Q`. Then a run from a state with `I` meets `P` at all its steps
    exactly when it meets `Q` at all its steps. -/
theorem run_along_congr {I : σ → Prop}
    (hI : ∀ s l s', I s → step s l s' → P s l s' → I s')
    (hPQ : ∀ s l s', I s → step s l s' → (P s l s' ↔ Q s l s'))
    {s s' : σ} {ls : List ℓ} (hs : I s) :
    Run (Along step P) s ls s' ↔ Run (Along step Q) s ls s' := by
  constructor
  · intro h
    exact h.along_of hI (fun s l s' hs hl hp => (hPQ s l s' hs hl).mp hp) hs
  · intro h
    refine h.along_of (fun s l s' hs hl hq => ?_) (fun s l s' hs hl hq => ?_) hs
    · exact hI s l s' hs hl ((hPQ s l s' hs hl).mpr hq)
    · exact (hPQ s l s' hs hl).mpr hq

/-- If the first step without `P` leads from `I` into a trap `T`, a run meets `P` at all its
    steps or ends in the trap. -/
theorem run_along_or_trap {I T : σ → Prop}
    (hI : ∀ s l s', I s → step s l s' → P s l s' → I s')
    (htrap : ∀ s l s', I s → step s l s' → ¬ P s l s' → T s')
    (hT : ∀ s l s', T s → step s l s' → T s')
    {s s' : σ} {ls : List ℓ} (hs : I s) (h : Run step s ls s') :
    Run (Along step P) s ls s' ∨ T s' := by
  induction h with
  | nil s => exact .inl (.nil s)
  | @cons s m s' l ls hl hr ih =>
    by_cases hp : P s l m
    · exact (ih (hI s l m hs hl hp)).imp_left (.cons ⟨hl, hp⟩)
    · exact .inr (hr.invariant hT (htrap s l m hs hl hp))

/-- What the steps with `P` keep holds at the end of a run that meets `P` at all its steps. -/
theorem Run.invariant_along {I : σ → Prop}
    (hI : ∀ s l s', I s → step s l s' → P s l s' → I s')
    {s s' : σ} {ls : List ℓ} (h : Run (Along step P) s ls s') (hs : I s) : I s' :=
  h.invariant (fun s l s' hs h => hI s l s' hs h.1 h.2) hs

/-- The first step without `P` leads from `I` into a trap `T`. If `I` is enough for a goal at the
    end of a run, and `T` excludes it, then a run gets there exactly when it meets `P` at all its
    steps. -/
theorem run_along_iff_of_trap {I T G : σ → Prop}
    (hI : ∀ s l s', I s → step s l s' → P s l s' → I s')
    (htrap : ∀ s l s', I s → step s l s' → ¬ P s l s' → T s')
    (hT : ∀ s l s', T s → step s l s' → T s')
    (hIG : ∀ s, I s → G s) (hTG : ∀ s, T s → ¬ G s)
    {s s' : σ} {ls : List ℓ} (hs : I s) (h : Run step s ls s') :
    G s' ↔ Run (Along step P) s ls s' := by
  constructor
  · intro hG
    exact (run_along_or_trap hI htrap hT hs h).resolve_right fun hT' => hTG s' hT' hG
  · intro hrun
    exact hIG s' (hrun.invariant_along hI hs)

end Along

section History

variable {step P : σ → ℓ → σ → Prop} {u : γ → σ → ℓ → γ}

/-- A run meets `P` at all its steps exactly when it does so with a history variable beside it. -/
theorem run_withHistory_iff {s s' : σ} {ls : List ℓ} (g : γ) :
    Run (Along step P) s ls s' ↔
      ∃ g', Run (Along (WithHistory step u) fun s l s' => P s.1 l s'.1) (s, g) ls (s', g') := by
  induction ls generalizing s g with
  | nil =>
    constructor
    · rintro ⟨⟩
      exact ⟨g, .nil _⟩
    · rintro ⟨g', ⟨⟩⟩
      exact .nil _
  | cons l ls ih =>
    constructor
    · rintro (_ | ⟨⟨hstep, hP⟩, hrest⟩)
      obtain ⟨g', hrun⟩ := (ih (u g s l)).mp hrest
      exact ⟨g', .cons ⟨⟨hstep, rfl⟩, hP⟩ hrun⟩
    · rintro ⟨g', _ | @⟨_, ⟨m, gm⟩, _, _, _, ⟨⟨hstep, hg⟩, hP⟩, hrest⟩⟩
      exact .cons ⟨hstep, hP⟩ ((ih gm).mpr ⟨g', hrest⟩)

end History

end Runs
