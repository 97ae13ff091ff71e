/-
  `sortList` sorts a list in its nodes and writes it to the file.

  `Server.nodesOf` are the nodes of a client's list, in the order of the list. For a client at
  an index in range, and lists of any numbers, `sortList` returns, and no pointer has moved:
  every list has the nodes it had, in the same order (`sortList_sorts_in_place`). The data of
  the list of that client are sorted. A list of two nodes or more is written to the file; for a
  shorter one nothing is done at all.
-/
import TCPServer.Lists

namespace TCPServer

open LinkedStore

/-- The nodes of the list of a client. -/
def Server.nodesOf (s : Server) (o : ClientPtr) : List NodePtr := addrs s.nodes (s.headOf o)

/-- From `s` to `s'` the list of `o` is sorted, in its nodes, and written to the file `f`. -/
structure Server.SortsInPlace (s s' : Server) (o : ClientPtr) (f : Bytes) : Prop where
  objects : s'.objects = s.objects
  chain : ∀ o', Chain s'.nodes (s'.headOf o') (s.nodesOf o')
  perm : (s'.listOf o).Perm (s.listOf o)
  sorted : (s'.listOf o).Pairwise (· ≤ ·)
  others : ∀ o', o' ≠ o → s'.listOf o' = s.listOf o'
  short : (s.nodesOf o).length < 2 → s' = s
  written : 2 ≤ (s.nodesOf o).length →
    s'.files = Function.update s.files f (some (joined (s'.listOf o)))

theorem length_nodesOf {s : Server} (hs : s.Separate) (o : ClientPtr) :
    (s.nodesOf o).length = (s.listOf o).length :=
  (length_listFrom_of_chain (hs.chain o)).symm

theorem sortsInPlace_short {s : Server} (hs : s.Separate) {o : ClientPtr}
    (hlen : (s.nodesOf o).length < 2) (f : Bytes) : s.SortsInPlace s o f := by
  refine ⟨rfl, hs.chain, List.Perm.refl _, ?_, fun _ _ => rfl, fun _ => rfl, fun h => ?_⟩
  · rw [length_nodesOf hs] at hlen
    exact pairwise_le_of_short hlen
  · omega

/-- Only data of nodes of the list of `o` are rewritten, in ascending order, and written. -/
theorem sortsInPlace_long {s : Server} (hs : s.Separate) {o : ClientPtr} {nodes : Nodes}
    {l : List ℤ} (hlen : 2 ≤ (s.nodesOf o).length) (hr : Rewritten s.nodes nodes (s.nodesOf o))
    (hl : values nodes (s.nodesOf o) = l) (hperm : l.Perm (s.listOf o))
    (hsorted : l.Pairwise (· ≤ ·)) (f : Bytes) :
    s.SortsInPlace { s with
      nodes := nodes, files := Function.update s.files f (some (joined l)) } o f := by
  set s' : Server :=
    { s with nodes := nodes, files := Function.update s.files f (some (joined l)) }
  have hlists : Relisted s.nodes s.headOf nodes s.headOf o (values nodes (s.nodesOf o)) :=
    hs.rewrite hr
  have hlist : s'.listOf o = l := hlists.self.trans hl
  refine ⟨rfl, fun o' => hr.chain (hs.chain o'), ?_, ?_, hlists.others, fun h => ?_, fun _ => ?_⟩
  · rw [hlist]
    exact hperm
  · rw [hlist]
    exact hsorted
  · omega
  · rw [hlist]

/-- For every client at an index in range, and whatever its list holds, `sortList` returns: the
    list is sorted in its nodes, the others are as before, and the file has the sorted list if
    it has two nodes or more. -/
theorem sortList_sorts_in_place {s : Server} (hs : s.Separate) {ID : CInt} {o : ClientPtr}
    {c : Client} (ho : s.at ID = .ok o) (hc : s.object o = .ok c) (f : Bytes) :
    ∃ s', s.sortList ID f = .ok s' ∧ s.SortsInPlace s' o f := by
  have hlength := length_nodesOf hs o
  by_cases hlen : (s.nodesOf o).length < 2
  · exact ⟨s, sortList_short hs ho hc (by omega) f, sortsInPlace_short hs hlen f⟩
  · obtain ⟨nodes, l, hok, hr, hl, hperm, hsorted⟩ := sortList_long hs ho hc (by omega) f
    exact ⟨_, hok, sortsInPlace_long hs (by omega) hr hl hperm hsorted f⟩

/-- A list with a number twice and a negative one. -/
theorem sortList_sorts_duplicates : ∃ s s' : Server, s.listOf 0 = [3, -1, 3] ∧
    s.sortList ⟨0, by decide, by decide⟩ (bytes "client0.txt") = .ok s' ∧
    (s'.listOf 0).Perm [3, -1, 3] ∧ (s'.listOf 0).Pairwise (· ≤ ·) ∧
    Chain s'.nodes (s'.headOf 0) [0, 1, 2] := by
  have start : ∃ s : Server, s.Separate ∧ s.listOf 0 = [3, -1, 3] ∧ s.nodesOf 0 = [0, 1, 2] ∧
      s.at ⟨0, by decide, by decide⟩ = .ok 0 ∧ ∃ c, s.object 0 = .ok c := by
    refine ⟨{ Server.init 3 with
        nodes := [⟨3, some 1⟩, ⟨-1, some 2⟩, ⟨3, none⟩]
        objects := [⟨4, "10.0.0.1", true, some 0, false⟩]
        clients := [0] }, ?_, rfl, rfl, rfl, _, rfl⟩
    refine Separate.of_chains (fun o => if o = 0 then [0, 1, 2] else []) (fun o => ?_)
      (fun o o' hne p hp => ?_)
    · cases o with
      | zero => exact ⟨rfl, _, rfl, rfl, _, rfl, rfl, _, rfl, rfl⟩
      | succ o => rfl
    · by_cases h0 : o = 0
      · rw [if_neg (fun h => hne (h0.trans h.symm))]
        exact List.not_mem_nil
      · rw [if_neg h0] at hp
        exact absurd hp List.not_mem_nil
  obtain ⟨s, hs, hlist, hnodes, ho, c, hc⟩ := start
  obtain ⟨s', hok, hsort⟩ := sortList_sorts_in_place hs ho hc (bytes "client0.txt")
  exact ⟨s, s', hlist, hok, hlist ▸ hsort.perm, hsort.sorted, hnodes ▸ hsort.chain 0⟩

end TCPServer
