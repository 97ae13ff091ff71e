/-
  Many linked lists in one store, list `i` starting at `first i`, for any indices.

  `Separate h first`: every list ends and no two share a node. Three things are done to one
  list of the family: a node is put into it while it is empty (`Separate.start`), a node is
  hung behind its last one (`Separate.append`), the data of its nodes are rewritten
  (`Separate.rewrite`). `Relisted` is what they have in common: the lists are separate again,
  list `i` is as told and every other list is as before.
-/
import TCPServer.Lib.LinkedStore

namespace LinkedStore

universe u v

variable {α : Type u} {ι : Type v}

structure Separate (h : Store α) (first : ι → Option ℕ) : Prop where
  chain : ∀ i, Chain h (first i) (addrs h (first i))
  disjoint : ∀ i j, i ≠ j → ∀ p ∈ addrs h (first i), p ∉ addrs h (first j)

/-- From `h` and `first` to `h'` and `first'` only list `i` changes, and is now `l`. -/
structure Relisted (h : Store α) (first : ι → Option ℕ) (h' : Store α) (first' : ι → Option ℕ)
    (i : ι) (l : List α) : Prop where
  separate : Separate h' first'
  self : listFrom h' (first' i) = l
  others : ∀ j, j ≠ i → listFrom h' (first' j) = listFrom h (first j)

theorem addrs_none (h : Store α) : addrs h none = [] := by
  have hc : Chain h none [] := rfl
  exact addrs_of_chain hc

/-- A family whose lists are known: separateness is read off the nodes. -/
theorem Separate.of_chains {h : Store α} {first : ι → Option ℕ} (nodes : ι → List ℕ)
    (hc : ∀ i, Chain h (first i) (nodes i))
    (hd : ∀ i j, i ≠ j → ∀ p ∈ nodes i, p ∉ nodes j) : Separate h first := by
  have ha : ∀ i, addrs h (first i) = nodes i := fun i => addrs_of_chain (hc i)
  refine ⟨fun i => ?_, fun i j hij => ?_⟩
  · rw [ha]; exact hc i
  · rw [ha, ha]; exact hd i j hij

theorem separate_none (h : Store α) : Separate h (fun _ : ι => none) :=
  Separate.of_chains (fun _ => []) (fun _ => rfl) (fun _ _ _ _ hp => absurd hp List.not_mem_nil)

theorem Separate.lt {h : Store α} {first : ι → Option ℕ} (hs : Separate h first) (i : ι) :
    ∀ p ∈ addrs h (first i), p < h.length :=
  chain_lt (hs.chain i)

/-- List `i` gets the freshly allocated node at its end, whatever pointer leads to it. -/
theorem Separate.extend {h h' : Store α} {first first' : ι → Option ℕ} (hs : Separate h first)
    {i : ι} {v : α} (hself : Chain h' (first' i) (addrs h (first i) ++ [h.length]))
    (hother : ∀ j, j ≠ i → Chain h' (first' j) (addrs h (first j)))
    (hold : ∀ ps : List ℕ, (∀ q ∈ ps, q < h.length) → values h' ps = values h ps)
    (hnew : values h' [h.length] = [v]) :
    Relisted h first h' first' i (listFrom h (first i) ++ [v]) := by
  classical
  have hfresh : ∀ j, h.length ∉ addrs h (first j) :=
    fun j hm => Nat.lt_irrefl _ (hs.lt j _ hm)
  refine ⟨Separate.of_chains
    (Function.update (fun j => addrs h (first j)) i (addrs h (first i) ++ [h.length]))
    (fun j => ?_) (fun j k hjk p hp => ?_), ?_, fun j hj => ?_⟩
  · by_cases hj : j = i
    · subst hj; rw [Function.update_self]; exact hself
    · rw [Function.update_of_ne hj]; exact hother j hj
  · by_cases hj : j = i
    · subst hj
      rw [Function.update_self, List.mem_append, List.mem_singleton] at hp
      rw [Function.update_of_ne (Ne.symm hjk)]
      obtain hp | rfl := hp
      · exact hs.disjoint j k hjk p hp
      · exact hfresh k
    · rw [Function.update_of_ne hj] at hp
      by_cases hk : k = i
      · subst hk
        rw [Function.update_self, List.mem_append, List.mem_singleton, not_or]
        refine ⟨hs.disjoint j k hjk p hp, fun he => hfresh j ?_⟩
        rw [← he]; exact hp
      · rw [Function.update_of_ne hk]
        exact hs.disjoint j k hjk p hp
  · rw [listFrom_of_chain hself, values_append, hold _ (hs.lt i), hnew, listFrom]
  · rw [listFrom_of_chain (hother j hj), hold _ (hs.lt j), listFrom]

/-- An empty list gets its first node. -/
theorem Separate.start [DecidableEq ι] {h : Store α} {first : ι → Option ℕ}
    (hs : Separate h first) {i : ι} (hi : first i = none) (v : α) :
    Relisted h first (alloc h v) (Function.update first i (some h.length)) i
      (listFrom h (first i) ++ [v]) := by
  refine hs.extend ?_ (fun j hj => ?_) (fun ps hps => values_alloc v hps) ?_
  · rw [Function.update_self, hi, addrs_none]
    exact ⟨rfl, _, getElem?_alloc_length h v, rfl⟩
  · rw [Function.update_of_ne hj]
    exact chain_alloc v (hs.chain j)
  · rw [values_cons (getElem?_alloc_length h v), values_nil]

/-- A list with last node `l` gets a node behind it. -/
theorem Separate.append {h : Store α} {first : ι → Option ℕ} (hs : Separate h first) {i : ι}
    {ps : List ℕ} {l : ℕ} (hl : addrs h (first i) = ps ++ [l]) (v : α) :
    Relisted h first (link h l v) first i (listFrom h (first i) ++ [v]) := by
  have hmem : l ∈ addrs h (first i) := by rw [hl]; simp
  refine hs.extend ?_ (fun j hj => ?_) (fun ps hps => values_link l v hps)
    (values_link_length (hs.lt i l hmem) v)
  · have hc := chain_link v (hl ▸ hs.chain i)
    rw [hl, List.append_assoc]
    exact hc
  · exact chain_link_frame v (hs.disjoint i j (Ne.symm hj) l hmem) (hs.chain j)

/-- Only data of nodes of list `i` are rewritten. -/
theorem Separate.rewrite {h h' : Store α} {first : ι → Option ℕ} (hs : Separate h first) {i : ι}
    (hr : Rewritten h h' (addrs h (first i))) :
    Relisted h first h' first i (values h' (addrs h (first i))) := by
  have hc : ∀ j, Chain h' (first j) (addrs h (first j)) := fun j => hr.chain (hs.chain j)
  refine ⟨Separate.of_chains (fun j => addrs h (first j)) hc hs.disjoint,
    listFrom_of_chain (hc i), fun j hj => ?_⟩
  rw [listFrom_of_chain (hc j), listFrom]
  exact hr.values fun p hp => hs.disjoint j i hj p hp

end LinkedStore
