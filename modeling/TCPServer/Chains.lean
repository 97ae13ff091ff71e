/-
  What the loops along `next` pointers compute.

  `lastNode` finds the last node of a list (`lastNode_of_chain`), `writeLoop` writes its data
  joined with arrows (`writeLoop_of_chain`), the two loops of `sortList` leave its data sorted
  in the same nodes (`sortOuter_of_chain`): one round of the outer loop is one
  `ExchangeSort.pass` over the data behind `head`.
-/
import TCPServer.Lib.ExchangeSort
import TCPServer.Server

namespace TCPServer

open LinkedStore

/-! ## Loops along a chain -/

theorem node_ok_iff {h : Nodes} {p : NodePtr} {n : Node ℤ} :
    node h p = .ok n ↔ h[p]? = some n := by
  unfold node
  cases h[p]? <;> simp

theorem lastNode_of_chain {h : Nodes} {k : ℕ} {p : NodePtr} {ps : List NodePtr} {l : NodePtr}
    (hc : Chain h (some p) (ps ++ [l])) (hk : ps.length < k) : lastNode h k p = .ok l := by
  induction ps generalizing p k with
  | nil =>
    obtain ⟨he, n, hn, hnext⟩ := hc
    obtain rfl : p = l := by simpa using he
    obtain ⟨k, rfl⟩ := Nat.exists_eq_add_one.mpr (Nat.zero_lt_of_lt hk)
    rw [lastNode, node_ok_iff.mpr hn, ok_bind, chain_nil.mp hnext]
    rfl
  | cons a ps ih =>
    obtain ⟨he, n, hn, hc⟩ := hc
    obtain rfl : p = a := by simpa using he
    obtain ⟨k, rfl⟩ := Nat.exists_eq_add_one.mpr (Nat.zero_lt_of_lt hk)
    obtain ⟨q, hq⟩ : ∃ q, n.next = some q := by
      cases hnext : n.next with
      | none => rw [hnext, chain_none] at hc; simp at hc
      | some q => exact ⟨q, rfl⟩
    rw [hq] at hc
    rw [lastNode, node_ok_iff.mpr hn, ok_bind, hq]
    exact ih hc (by simpa using hk)

/-- The text of a list: its numbers with arrows between them. -/
def joined (l : List ℤ) : Bytes := (bytes "->").intercalate (l.map to_string)

@[simp] theorem joined_singleton (a : ℤ) : joined [a] = to_string a := by
  simp [joined]

theorem joined_cons_cons (a b : ℤ) (l : List ℤ) :
    joined (a :: b :: l) = to_string a ++ bytes "->" ++ joined (b :: l) := by
  simp [joined, List.intercalate]

theorem writeLoop_of_chain {h : Nodes} {k : ℕ} {p : NodePtr} {ps : List NodePtr}
    (hc : Chain h (some p) ps) (hk : ps.length ≤ k) (acc : Bytes) :
    writeLoop h k p acc = .ok (acc ++ joined (values h ps)) := by
  induction ps generalizing p k acc with
  | nil => simp at hc
  | cons a ps ih =>
    obtain ⟨he, n, hn, hc⟩ := hc
    obtain rfl : p = a := by simpa using he
    obtain ⟨k, rfl⟩ := Nat.exists_eq_add_one.mpr (Nat.zero_lt_of_lt hk)
    rw [writeLoop, node_ok_iff.mpr hn, ok_bind, values_cons hn]
    cases hnext : n.next with
    | none =>
      obtain rfl : ps = [] := by rw [hnext] at hc; exact chain_none.mp hc
      rw [values_nil, joined_singleton]
      rfl
    | some q =>
      rw [hnext] at hc
      obtain ⟨m, qs, rfl, hm, -⟩ := chain_some hc
      have hrest := ih hc (by simpa using hk) (acc ++ to_string n.data ++ bytes "->")
      rw [values_cons hm] at hrest ⊢
      rw [joined_cons_cons]
      simpa only [List.append_assoc] using hrest

/-- One run of the inner loop is a pass over the data of the nodes `sel` visits, with the data
    of `head` in hand. -/
theorem sortInner_of_chain {h : Nodes} {k : ℕ} {head : NodePtr} {p : Option NodePtr}
    {ps : List NodePtr} {x : ℤ} (hc : Chain h p ps) (hhead : head ∉ ps)
    (hx : dataAt h head = some x) (hk : ps.length ≤ k) :
    ∃ h', sortInner head k p h = .ok h' ∧ Rewritten h h' (head :: ps) ∧
      dataAt h' head = some (ExchangeSort.pass x (values h ps)).1 ∧
      values h' ps = (ExchangeSort.pass x (values h ps)).2 := by
  induction ps generalizing p k x h with
  | nil =>
    obtain rfl : p = none := hc
    refine ⟨h, ?_, Rewritten.refl h _, hx, rfl⟩
    unfold sortInner
    rfl
  | cons a ps ih =>
    have ha : a ∉ ps := (List.nodup_cons.mp (chain_nodup hc)).1
    obtain ⟨rfl, n, hn, hc⟩ := hc
    obtain ⟨hne, hps⟩ : head ≠ a ∧ head ∉ ps := by simpa using hhead
    obtain ⟨k, rfl⟩ := Nat.exists_eq_add_one.mpr (Nat.zero_lt_of_lt hk)
    have hk' : ps.length ≤ k := by simpa using hk
    obtain ⟨m, hm, hmx⟩ := getElem?_of_dataAt hx
    have hda : dataAt h a = some n.data := by rw [dataAt, hn]; rfl
    rw [sortInner, node_ok_iff.mpr hm, ok_bind, node_ok_iff.mpr hn, ok_bind, hmx, values_cons hn]
    by_cases hlt : n.data < x
    · -- the data of `head` and `sel` change places
      rw [if_pos hlt, ExchangeSort.pass_cons_lt hlt]
      set h1 := setData (setData h head n.data) a x with hh1
      have hr1 : Rewritten h h1 (head :: a :: ps) :=
        (rewritten_setData h (by simp) n.data).trans (rewritten_setData _ (by simp) x)
      have hd1 : dataAt h1 head = some n.data := by
        rw [hh1, dataAt_setData_ne _ (Ne.symm hne), dataAt_setData_self hx]
      have ha1 : dataAt h1 a = some x := by
        rw [hh1, dataAt_setData_self (x := n.data)]
        rw [dataAt_setData_ne _ hne, hda]
      have hv1 : values h1 ps = values h ps := by
        refine values_congr fun q hq => ?_
        rw [hh1, dataAt_setData_ne _ (by rintro rfl; exact ha hq),
          dataAt_setData_ne _ (by rintro rfl; exact hps hq)]
      obtain ⟨h', hok, hr, hd, hv⟩ := ih (hr1.chain hc) hps hd1 hk'
      rw [hv1] at hd hv
      refine ⟨h', hok, hr1.trans (hr.mono (by simp)), hd, ?_⟩
      have ha' : dataAt h' a = some x := by
        rw [hr.data a (by simp [Ne.symm hne, ha]), ha1]
      obtain ⟨m', hm', hmx'⟩ := getElem?_of_dataAt ha'
      rw [values_cons hm', hmx', hv]
    · rw [if_neg hlt, ExchangeSort.pass_cons_not_lt hlt]
      obtain ⟨h', hok, hr, hd, hv⟩ := ih hc hps hx hk'
      refine ⟨h', hok, hr.mono (by simp), hd, ?_⟩
      have ha' : dataAt h' a = some n.data := by
        rw [hr.data a (by simp [Ne.symm hne, ha]), hda]
      obtain ⟨m', hm', hmx'⟩ := getElem?_of_dataAt ha'
      rw [values_cons hm', hmx', hv]

/-- The outer loop sorts the data of the nodes from `head` on and moves nothing else. -/
theorem sortOuter_of_chain {h : Nodes} {k : ℕ} {head : NodePtr} {ps : List NodePtr}
    (hc : Chain h (some head) ps) (hk : ps.length ≤ k) :
    ∃ h', sortOuter k head h = .ok h' ∧ Rewritten h h' ps ∧
      (values h' ps).Perm (values h ps) ∧ (values h' ps).Pairwise (· ≤ ·) := by
  induction ps generalizing head k h with
  | nil => simp at hc
  | cons a ps ih =>
    have hnd := chain_nodup hc
    obtain ⟨he, n, hn, hc⟩ := hc
    obtain rfl : head = a := by simpa using he
    obtain ⟨k, rfl⟩ := Nat.exists_eq_add_one.mpr (Nat.zero_lt_of_lt hk)
    rw [sortOuter, node_ok_iff.mpr hn, ok_bind]
    cases hnext : n.next with
    | none =>
      obtain rfl : ps = [] := by rw [hnext] at hc; exact chain_none.mp hc
      refine ⟨h, rfl, Rewritten.refl h _, List.Perm.refl _, ?_⟩
      rw [values_cons hn, values_nil]
      exact List.pairwise_singleton _ _
    | some sel =>
      rw [hnext] at hc
      have hhead : head ∉ ps := (List.nodup_cons.mp hnd).1
      have hx : dataAt h head = some n.data := by rw [dataAt, hn]; rfl
      obtain ⟨h1, hok1, hr1, hd1, hv1⟩ := sortInner_of_chain hc hhead hx (chain_length_le hc)
      obtain ⟨n1, hn1, hnext1⟩ : ∃ n1, h1[head]? = some n1 ∧ n1.next = some sel := by
        refine getElem?_of_nextAt ?_
        rw [hr1.next, nextAt, hn, Option.map_some, hnext]
      obtain ⟨h2, hok2, hr2, hp2, hs2⟩ := ih (hr1.chain hc) (by simpa using hk)
      have hd2 : dataAt h2 head = some (ExchangeSort.pass n.data (values h ps)).1 := by
        rw [hr2.data head hhead, hd1]
      obtain ⟨n2, hn2, hx2⟩ := getElem?_of_dataAt hd2
      rw [hv1] at hp2
      refine ⟨h2, ?_, hr1.trans (hr2.mono (by simp)), ?_, ?_⟩
      · simp only [hok1, ok_bind, node_ok_iff.mpr hn1, hnext1, notNull]
        exact hok2
      · rw [values_cons hn2, hx2, values_cons hn]
        exact (hp2.cons _).trans (ExchangeSort.pass_perm n.data (values h ps))
      · rw [values_cons hn2, hx2]
        exact ExchangeSort.pairwise_le_cons_of_pass hp2 hs2

end TCPServer
