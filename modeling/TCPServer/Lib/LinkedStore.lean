/-
  Singly linked lists in a store of nodes, for any type of data.

  A node is named by its position in the store, which is the order of allocation; nodes are
  never freed. `Chain h p ps` says that the list whose first pointer is `p` visits exactly the
  nodes `ps` and then ends. A chain is determined by its first pointer (`chain_unique`), so it
  never visits a node twice (`chain_nodup`) and is no longer than the store
  (`chain_length_le`): a loop that follows `next` ends within `h.length` rounds.

  * `setData` moves no pointer, so it keeps every chain (`Rewritten.chain`).
  * `link h l v` allocates a node for `v` and hangs it behind node `l`. It lengthens the chain
    that ends in `l` (`chain_link`) and keeps every other one (`chain_link_frame`).
  * `addrs` and `listFrom` compute the nodes and the data of a list.
-/
import Mathlib.Data.List.Basic
import Mathlib.Data.List.Nodup
import Mathlib.Data.List.Perm.Subperm
import Mathlib.Data.Finset.Card
import Mathlib.Data.List.NodupEquivFin

namespace LinkedStore

universe u

/-- A node: its data and the pointer to the next node, if there is one. -/
structure Node (α : Type u) where
  data : α
  next : Option ℕ
  deriving DecidableEq, Repr

/-- The nodes allocated so far, the node at address `p` being the `p`-th. -/
abbrev Store (α : Type u) := List (Node α)

variable {α : Type u}

def setData (h : Store α) (p : ℕ) (v : α) : Store α :=
  h.modify p fun n => { n with data := v }

def setNext (h : Store α) (p : ℕ) (q : Option ℕ) : Store α :=
  h.modify p fun n => { n with next := q }

/-- The data of the node at `p`, if `p` is allocated. -/
def dataAt (h : Store α) (p : ℕ) : Option α := h[p]?.map Node.data

/-- The next pointer of the node at `p`, if `p` is allocated. -/
def nextAt (h : Store α) (p : ℕ) : Option (Option ℕ) := h[p]?.map Node.next

/-- The list with first pointer `p` visits exactly the nodes `ps` and then ends. -/
def Chain (h : Store α) : Option ℕ → List ℕ → Prop
  | p, [] => p = none
  | p, q :: ps => p = some q ∧ ∃ n, h[q]? = some n ∧ Chain h n.next ps

/-- The data of the nodes `ps`, in their order. -/
def values (h : Store α) (ps : List ℕ) : List α := ps.filterMap (dataAt h)

/-- The nodes visited from `p` in at most the given number of rounds. -/
def follow (h : Store α) : ℕ → Option ℕ → List ℕ
  | 0, _ => []
  | _ + 1, none => []
  | k + 1, some p =>
    match h[p]? with
    | none => []
    | some n => p :: follow h k n.next

/-- The nodes of the list with first pointer `p`. -/
def addrs (h : Store α) (p : Option ℕ) : List ℕ := follow h h.length p

/-- The data of the list with first pointer `p`. -/
def listFrom (h : Store α) (p : Option ℕ) : List α := values h (addrs h p)

/-! ## Chains -/

@[simp] theorem chain_nil {h : Store α} {p : Option ℕ} : Chain h p [] ↔ p = none := Iff.rfl

theorem chain_cons {h : Store α} {p : Option ℕ} {q : ℕ} {ps : List ℕ} :
    Chain h p (q :: ps) ↔ p = some q ∧ ∃ n, h[q]? = some n ∧ Chain h n.next ps := Iff.rfl

theorem chain_none {h : Store α} {ps : List ℕ} : Chain h none ps ↔ ps = [] := by
  cases ps with
  | nil => simp
  | cons q ps => simp [chain_cons]

theorem chain_some {h : Store α} {q : ℕ} {ps : List ℕ} (hc : Chain h (some q) ps) :
    ∃ n qs, ps = q :: qs ∧ h[q]? = some n ∧ Chain h n.next qs := by
  cases ps with
  | nil => simp at hc
  | cons r qs =>
    obtain ⟨he, n, hn, hc⟩ := hc
    obtain rfl : q = r := by simpa using he
    exact ⟨n, qs, rfl, hn, hc⟩

/-- The first pointer determines the nodes. -/
theorem chain_unique {h : Store α} {p : Option ℕ} {ps qs : List ℕ} (hp : Chain h p ps)
    (hq : Chain h p qs) : ps = qs := by
  induction ps generalizing p qs with
  | nil =>
    obtain rfl : p = none := hp
    exact (chain_none.mp hq).symm
  | cons a ps ih =>
    obtain ⟨rfl, n, hn, hc⟩ := hp
    obtain ⟨m, rs, rfl, hm, hd⟩ := chain_some hq
    rw [hn] at hm
    cases hm
    rw [ih hc hd]

/-- Every node of a chain starts a chain: the rest of it. -/
theorem chain_suffix {h : Store α} {p : Option ℕ} {ps qs : List ℕ} {q : ℕ}
    (hc : Chain h p (ps ++ q :: qs)) : Chain h (some q) (q :: qs) := by
  induction ps generalizing p with
  | nil =>
    obtain ⟨-, n, hn, hc⟩ := hc
    exact ⟨rfl, n, hn, hc⟩
  | cons a ps ih =>
    obtain ⟨-, n, -, hc⟩ := hc
    exact ih hc

theorem chain_nodup {h : Store α} {p : Option ℕ} {ps : List ℕ} (hc : Chain h p ps) :
    ps.Nodup := by
  induction ps generalizing p with
  | nil => exact List.nodup_nil
  | cons a ps ih =>
    obtain ⟨rfl, n, hn, hr⟩ := hc
    refine List.nodup_cons.mpr ⟨fun ha => ?_, ih hr⟩
    -- A second visit to `a` would start a strictly shorter chain from the same pointer.
    obtain ⟨xs, ys, rfl⟩ := List.append_of_mem ha
    have hw : Chain h (some a) (a :: (xs ++ a :: ys)) := ⟨rfl, n, hn, hr⟩
    have hu := chain_unique (chain_suffix hr) hw
    have := congrArg List.length hu
    simp at this
    omega

theorem chain_lt {h : Store α} {p : Option ℕ} {ps : List ℕ} (hc : Chain h p ps) :
    ∀ q ∈ ps, q < h.length := by
  induction ps generalizing p with
  | nil => simp
  | cons a ps ih =>
    obtain ⟨-, n, hn, hc⟩ := hc
    intro q hq
    rcases List.mem_cons.mp hq with rfl | hq
    · exact (List.getElem?_eq_some_iff.mp hn).1
    · exact ih hc q hq

theorem chain_length_le {h : Store α} {p : Option ℕ} {ps : List ℕ} (hc : Chain h p ps) :
    ps.length ≤ h.length := by
  have hsub : ps ⊆ List.range h.length := fun q hq => List.mem_range.mpr (chain_lt hc q hq)
  simpa using ((chain_nodup hc).subperm hsub).length_le

theorem follow_of_chain {h : Store α} {p : Option ℕ} {ps : List ℕ} {k : ℕ}
    (hc : Chain h p ps) (hk : ps.length ≤ k) : follow h k p = ps := by
  induction ps generalizing p k with
  | nil =>
    obtain rfl : p = none := hc
    cases k <;> rfl
  | cons a ps ih =>
    obtain ⟨rfl, n, hn, hc⟩ := hc
    cases k with
    | zero => simp at hk
    | succ k =>
      simp only [List.length_cons, Nat.add_le_add_iff_right] at hk
      simp only [follow, hn, ih hc hk]

theorem addrs_of_chain {h : Store α} {p : Option ℕ} {ps : List ℕ} (hc : Chain h p ps) :
    addrs h p = ps :=
  follow_of_chain hc (chain_length_le hc)

theorem listFrom_of_chain {h : Store α} {p : Option ℕ} {ps : List ℕ} (hc : Chain h p ps) :
    listFrom h p = values h ps := by
  rw [listFrom, addrs_of_chain hc]

@[simp] theorem values_nil (h : Store α) : values h [] = [] := rfl

theorem values_cons {h : Store α} {p : ℕ} {n : Node α} (hn : h[p]? = some n) (ps : List ℕ) :
    values h (p :: ps) = n.data :: values h ps := by
  simp [values, dataAt, hn]

theorem values_append (h : Store α) (ps qs : List ℕ) :
    values h (ps ++ qs) = values h ps ++ values h qs :=
  List.filterMap_append

@[simp] theorem listFrom_none (h : Store α) : listFrom h none = [] := by
  have hc : Chain h none [] := rfl
  rw [listFrom_of_chain hc, values_nil]

/-! ## Stores that agree on some nodes -/

/-- A chain is kept by a store with the same pointers at its nodes. -/
theorem chain_congr {h h' : Store α} {p : Option ℕ} {ps : List ℕ}
    (hn : ∀ q ∈ ps, nextAt h' q = nextAt h q) (hc : Chain h p ps) : Chain h' p ps := by
  induction ps generalizing p with
  | nil => exact hc
  | cons a ps ih =>
    obtain ⟨rfl, n, ha, hc⟩ := hc
    have := hn a List.mem_cons_self
    simp only [nextAt, ha, Option.map_some, Option.map_eq_some_iff] at this
    obtain ⟨m, hm, he⟩ := this
    exact ⟨rfl, m, hm, he ▸ ih (fun q hq => hn q (List.mem_cons_of_mem _ hq)) hc⟩

theorem values_congr {h h' : Store α} {ps : List ℕ}
    (hd : ∀ q ∈ ps, dataAt h' q = dataAt h q) : values h' ps = values h ps :=
  List.filterMap_congr hd

/-! ## Writing data -/

@[simp] theorem length_setData (h : Store α) (p : ℕ) (v : α) :
    (setData h p v).length = h.length := by
  simp [setData]

@[simp] theorem nextAt_setData (h : Store α) (p q : ℕ) (v : α) :
    nextAt (setData h p v) q = nextAt h q := by
  simp only [nextAt, setData, List.getElem?_modify]
  split <;> cases h[q]? <;> rfl

theorem dataAt_setData_ne (h : Store α) {p q : ℕ} (hne : p ≠ q) (v : α) :
    dataAt (setData h p v) q = dataAt h q := by
  simp only [dataAt, setData, List.getElem?_modify, if_neg hne]
  cases h[q]? <;> rfl

theorem dataAt_setData_self {h : Store α} {p : ℕ} {x : α} (hp : dataAt h p = some x) (v : α) :
    dataAt (setData h p v) p = some v := by
  simp only [dataAt, setData, List.getElem?_modify] at hp ⊢
  cases hn : h[p]? with
  | none => simp [hn] at hp
  | some n => simp

theorem getElem?_of_dataAt {h : Store α} {p : ℕ} {x : α} (hp : dataAt h p = some x) :
    ∃ n, h[p]? = some n ∧ n.data = x :=
  Option.map_eq_some_iff.mp hp

theorem getElem?_of_nextAt {h : Store α} {p : ℕ} {q : Option ℕ} (hp : nextAt h p = some q) :
    ∃ n, h[p]? = some n ∧ n.next = q :=
  Option.map_eq_some_iff.mp hp

/-- `h'` differs from `h` only in the data of the nodes `ps`. -/
structure Rewritten (h h' : Store α) (ps : List ℕ) : Prop where
  next : ∀ q, nextAt h' q = nextAt h q
  data : ∀ q, q ∉ ps → dataAt h' q = dataAt h q
  length : h'.length = h.length

theorem Rewritten.refl (h : Store α) (ps : List ℕ) : Rewritten h h ps :=
  ⟨fun _ => rfl, fun _ _ => rfl, rfl⟩

theorem Rewritten.trans {h h' h'' : Store α} {ps : List ℕ} (h1 : Rewritten h h' ps)
    (h2 : Rewritten h' h'' ps) : Rewritten h h'' ps :=
  ⟨fun q => (h2.next q).trans (h1.next q), fun q hq => (h2.data q hq).trans (h1.data q hq),
    h2.length.trans h1.length⟩

theorem Rewritten.mono {h h' : Store α} {ps qs : List ℕ} (hr : Rewritten h h' ps)
    (hsub : ps ⊆ qs) : Rewritten h h' qs :=
  ⟨hr.next, fun q hq => hr.data q fun hm => hq (hsub hm), hr.length⟩

theorem Rewritten.chain {h h' : Store α} {ps qs : List ℕ} {p : Option ℕ}
    (hr : Rewritten h h' ps) (hc : Chain h p qs) : Chain h' p qs :=
  chain_congr (fun q _ => hr.next q) hc

theorem Rewritten.values {h h' : Store α} {ps qs : List ℕ} (hr : Rewritten h h' ps)
    (hd : ∀ q ∈ qs, q ∉ ps) : values h' qs = values h qs :=
  values_congr fun q hq => hr.data q (hd q hq)

theorem rewritten_setData (h : Store α) {p : ℕ} {ps : List ℕ} (hp : p ∈ ps) (v : α) :
    Rewritten h (setData h p v) ps :=
  ⟨fun q => nextAt_setData h p q v,
    fun q hq => dataAt_setData_ne h (fun he : p = q => hq (he ▸ hp)) v, length_setData h p v⟩

/-! ## Adding a node -/

/-- A new node for `v`, behind which nothing comes. -/
def alloc (h : Store α) (v : α) : Store α := h ++ [⟨v, none⟩]

/-- A new node for `v`, hung behind node `l`. -/
def link (h : Store α) (l : ℕ) (v : α) : Store α := setNext (alloc h v) l (some h.length)

@[simp] theorem length_alloc (h : Store α) (v : α) : (alloc h v).length = h.length + 1 := by
  simp [alloc]

theorem getElem?_alloc_lt {h : Store α} {q : ℕ} (hq : q < h.length) (v : α) :
    (alloc h v)[q]? = h[q]? :=
  List.getElem?_append_left hq

@[simp] theorem getElem?_alloc_length (h : Store α) (v : α) :
    (alloc h v)[h.length]? = some ⟨v, none⟩ := by
  simp [alloc]

theorem chain_alloc {h : Store α} {p : Option ℕ} {ps : List ℕ} (v : α) (hc : Chain h p ps) :
    Chain (alloc h v) p ps :=
  chain_congr (fun q hq => by rw [nextAt, nextAt, getElem?_alloc_lt (chain_lt hc q hq)]) hc

theorem values_alloc {h : Store α} {ps : List ℕ} (v : α) (hps : ∀ q ∈ ps, q < h.length) :
    values (alloc h v) ps = values h ps :=
  values_congr fun q hq => by rw [dataAt, dataAt, getElem?_alloc_lt (hps q hq)]

theorem getElem?_link_ne (h : Store α) {l q : ℕ} (hne : l ≠ q) (v : α) :
    (link h l v)[q]? = (alloc h v)[q]? := by
  simp only [link, setNext, List.getElem?_modify, if_neg hne]
  cases (alloc h v)[q]? <;> rfl

theorem getElem?_link_self {h : Store α} {l : ℕ} {n : Node α} (hn : h[l]? = some n) (v : α) :
    (link h l v)[l]? = some { n with next := some h.length } := by
  have hl : l < h.length := (List.getElem?_eq_some_iff.mp hn).1
  simp only [link, setNext, List.getElem?_modify, getElem?_alloc_lt hl, hn, if_true]
  rfl

theorem dataAt_link {h : Store α} {q : ℕ} (hq : q < h.length) (l : ℕ) (v : α) :
    dataAt (link h l v) q = dataAt h q := by
  simp only [dataAt, link, setNext, List.getElem?_modify, getElem?_alloc_lt hq]
  split <;> cases h[q]? <;> rfl

theorem values_link {h : Store α} {ps : List ℕ} (l : ℕ) (v : α) (hps : ∀ q ∈ ps, q < h.length) :
    values (link h l v) ps = values h ps :=
  values_congr fun q hq => dataAt_link (hps q hq) l v

theorem getElem?_link_length {h : Store α} {l : ℕ} (hl : l < h.length) (v : α) :
    (link h l v)[h.length]? = some ⟨v, none⟩ := by
  rw [getElem?_link_ne h (Nat.ne_of_lt hl), getElem?_alloc_length]

theorem values_link_length {h : Store α} {l : ℕ} (hl : l < h.length) (v : α) :
    values (link h l v) [h.length] = [v] := by
  rw [values_cons (getElem?_link_length hl v), values_nil]

/-- A chain that does not visit `l` is kept. -/
theorem chain_link_frame {h : Store α} {p : Option ℕ} {ps : List ℕ} {l : ℕ} (v : α)
    (hl : l ∉ ps) (hc : Chain h p ps) : Chain (link h l v) p ps := by
  refine chain_congr (fun q hq => ?_) hc
  have hne : l ≠ q := fun h => hl (h ▸ hq)
  rw [nextAt, nextAt, getElem?_link_ne h hne, getElem?_alloc_lt (chain_lt hc q hq)]

/-- The chain that ends in `l` gets the new node at its end. -/
theorem chain_link {h : Store α} {p : Option ℕ} {ps : List ℕ} {l : ℕ} (v : α)
    (hc : Chain h p (ps ++ [l])) : Chain (link h l v) p (ps ++ [l, h.length]) := by
  induction ps generalizing p with
  | nil =>
    obtain ⟨rfl, n, hn, -⟩ := hc
    have hl : l < h.length := (List.getElem?_eq_some_iff.mp hn).1
    exact ⟨rfl, _, getElem?_link_self hn v, rfl, _, getElem?_link_length hl v, rfl⟩
  | cons a ps ih =>
    have hnd := chain_nodup hc
    obtain ⟨rfl, n, hn, hc⟩ := hc
    have hne : l ≠ a := fun h => (List.nodup_cons.mp hnd).1 (by simp [h])
    have ha : a < h.length := (List.getElem?_eq_some_iff.mp hn).1
    refine ⟨rfl, n, ?_, ih hc⟩
    rw [getElem?_link_ne h hne, getElem?_alloc_lt ha, hn]

end LinkedStore
