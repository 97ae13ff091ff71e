/-
  Sequences of calls that return or run for ever, for any states, calls and results.

  A component says which results a call can return in a state, with the state after it, and
  whether the call runs for ever. `Behaves` is what a caller sees who makes one call after
  another: the results, up to the first call that runs for ever, after which nothing comes.

  * `Bisim`: along a relation of their states two components return the same results and run
    for ever on the same calls. Then they have the same behaviours (`Bisim.behaves_iff`).
  * `Definite`: in the states with an invariant each call has one outcome. Then each sequence
    of calls has one behaviour (`Definite.existsUnique`).
-/
import Mathlib.Logic.ExistsUnique

namespace Calls

universe u v w x

structure Component (σ : Type u) (ι : Type v) (ν : Type w) where
  returns : σ → ι → ν → σ → Prop
  runsForever : σ → ι → Prop

variable {σ : Type u} {τ : Type x} {ι : Type v} {ν : Type w}

/-- The calls, made in order from the state, have these results; `none` is for a call that runs
    for ever. -/
inductive Behaves (A : Component σ ι ν) : σ → List ι → List (Option ν) → Prop
  | nil (s : σ) : Behaves A s [] []
  | returns {s s' : σ} {i : ι} {v : ν} {calls : List ι} {results : List (Option ν)} :
      A.returns s i v s' → Behaves A s' calls results →
        Behaves A s (i :: calls) (some v :: results)
  | forever {s : σ} {i : ι} {calls : List ι} :
      A.runsForever s i → Behaves A s (i :: calls) [none]

/-- Along `R`, and for calls with `P`, the components have the same outcomes. -/
structure Bisim (A : Component σ ι ν) (B : Component τ ι ν) (P : ι → Prop) (R : σ → τ → Prop) :
    Prop where
  forth : ∀ {s t i v s'}, R s t → P i → A.returns s i v s' → ∃ t', B.returns t i v t' ∧ R s' t'
  back : ∀ {s t i v t'}, R s t → P i → B.returns t i v t' → ∃ s', A.returns s i v s' ∧ R s' t'
  forever : ∀ {s t i}, R s t → P i → (A.runsForever s i ↔ B.runsForever t i)

/-- In the states with `I` a call with `P` has one outcome. -/
structure Definite (A : Component σ ι ν) (P : ι → Prop) (I : σ → Prop) : Prop where
  keeps : ∀ {s i v s'}, I s → P i → A.returns s i v s' → I s'
  total : ∀ {s i}, I s → P i → (∃ v s', A.returns s i v s') ∨ A.runsForever s i
  same : ∀ {s i v v' s' s''}, I s → P i → A.returns s i v s' → A.returns s i v' s'' →
    v = v' ∧ s' = s''
  apart : ∀ {s i v s'}, I s → P i → A.returns s i v s' → ¬ A.runsForever s i

section Bisim

variable {A : Component σ ι ν} {B : Component τ ι ν} {P : ι → Prop} {R : σ → τ → Prop}

theorem Bisim.symm (h : Bisim A B P R) : Bisim B A P fun t s => R s t :=
  ⟨fun hR hi hr => h.back hR hi hr, fun hR hi hr => h.forth hR hi hr,
    fun hR hi => (h.forever hR hi).symm⟩

theorem Bisim.behaves (h : Bisim A B P R) {s : σ} {t : τ} (hR : R s t) {calls : List ι}
    (hP : ∀ i ∈ calls, P i) {results : List (Option ν)} (hb : Behaves A s calls results) :
    Behaves B t calls results := by
  induction hb generalizing t with
  | nil s => exact .nil t
  | returns hret _ ih =>
    obtain ⟨hi, hcalls⟩ := List.forall_mem_cons.mp hP
    obtain ⟨t', hret', hR'⟩ := h.forth hR hi hret
    exact .returns hret' (ih hR' hcalls)
  | forever hrun =>
    obtain ⟨hi, -⟩ := List.forall_mem_cons.mp hP
    exact .forever ((h.forever hR hi).mp hrun)

/-- Related states have the same behaviours. -/
theorem Bisim.behaves_iff (h : Bisim A B P R) {s : σ} {t : τ} (hR : R s t) {calls : List ι}
    (hP : ∀ i ∈ calls, P i) {results : List (Option ν)} :
    Behaves A s calls results ↔ Behaves B t calls results :=
  ⟨h.behaves hR hP, h.symm.behaves hR hP⟩

end Bisim

section Definite

variable {A : Component σ ι ν} {P : ι → Prop} {I : σ → Prop}

theorem Definite.exists_behaves (h : Definite A P I) {calls : List ι} (hP : ∀ i ∈ calls, P i)
    {s : σ} (hs : I s) : ∃ results, Behaves A s calls results := by
  induction calls generalizing s with
  | nil => exact ⟨[], .nil s⟩
  | cons i calls ih =>
    obtain ⟨hi, hcalls⟩ := List.forall_mem_cons.mp hP
    rcases h.total hs hi with hret | hrun
    · obtain ⟨v, s', hret⟩ := hret
      obtain ⟨results, hb⟩ := ih hcalls (h.keeps hs hi hret)
      exact ⟨_, .returns hret hb⟩
    · exact ⟨[none], .forever hrun⟩

theorem Definite.unique (h : Definite A P I) {calls : List ι} (hP : ∀ i ∈ calls, P i) {s : σ}
    (hs : I s) {results results' : List (Option ν)} (hb : Behaves A s calls results)
    (hb' : Behaves A s calls results') : results = results' := by
  induction hb generalizing results' with
  | nil s =>
    cases hb'
    rfl
  | returns hret _ ih =>
    obtain ⟨hi, hcalls⟩ := List.forall_mem_cons.mp hP
    cases hb' with
    | returns hret' hrest =>
      obtain ⟨rfl, rfl⟩ := h.same hs hi hret hret'
      rw [ih hcalls (h.keeps hs hi hret) hrest]
    | forever hrun => exact absurd hrun (h.apart hs hi hret)
  | forever hrun =>
    obtain ⟨hi, -⟩ := List.forall_mem_cons.mp hP
    cases hb' with
    | returns hret' _ => exact absurd hrun (h.apart hs hi hret')
    | forever _ => rfl

/-- Each sequence of calls has one behaviour. -/
theorem Definite.existsUnique (h : Definite A P I) {calls : List ι} (hP : ∀ i ∈ calls, P i)
    {s : σ} (hs : I s) : ∃! results, Behaves A s calls results := by
  obtain ⟨results, hb⟩ := h.exists_behaves hP hs
  exact ⟨results, hb, fun results' hb' => h.unique hP hs hb' hb⟩

end Definite

end Calls
