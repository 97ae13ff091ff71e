/-
  The clients' lists and the operations on them.

  `Server.listOf` is the list of numbers of a client, and `Server.Separate` says that the lists
  of all clients end and share no node. Under it each operation is given by what it does to
  that one list: `appendNode` adds a number at its end, `generateNumber` draws the first new
  candidate and appends it (`generateLoop_eq`), `sortList` sorts the list and writes it to the
  file. `Server.Relists` is the frame: the list of `o` is as told, every other list and all
  that is not list, file or message stays.
-/
import TCPServer.Lib.ListFamily
import TCPServer.Chains
import TCPServer.Server

namespace TCPServer

open LinkedStore

/-- The head pointer of a client. -/
def Server.headOf (s : Server) (o : ClientPtr) : Option NodePtr :=
  (s.objects[o]?).bind Client.head

/-- The numbers in the list of a client. -/
def Server.listOf (s : Server) (o : ClientPtr) : List ℤ := listFrom s.nodes (s.headOf o)

/-- The lists of all clients end and no two of them share a node. -/
abbrev Server.Separate (s : Server) : Prop := LinkedStore.Separate s.nodes s.headOf

/-- A client without its list. -/
def Client.fixed (c : Client) : Client := { c with head := none }

section Fixed

variable {c c' : Client}

theorem Client.sockfd_of_fixed (h : c'.fixed = c.fixed) : c'.sockfd = c.sockfd := by
  show c'.fixed.sockfd = c.fixed.sockfd
  rw [h]

theorem Client.isConnected_of_fixed (h : c'.fixed = c.fixed) :
    c'.isConnected = c.isConnected := by
  show c'.fixed.isConnected = c.fixed.isConnected
  rw [h]

theorem Client.deleted_of_fixed (h : c'.fixed = c.fixed) : c'.deleted = c.deleted := by
  show c'.fixed.deleted = c.fixed.deleted
  rw [h]

end Fixed

/-- `s'` has the clients of `s`, apart from their lists. -/
structure Server.SameClients (s s' : Server) : Prop where
  objects : s'.objects.map Client.fixed = s.objects.map Client.fixed
  clients : s'.clients = s.clients
  sockfd : s'.sockfd = s.sockfd
  fds : s'.fds = s.fds
  numClientsConnected : s'.numClientsConnected = s.numClientsConnected
  closed : s'.closed = s.closed

/-- From `s` to `s'` the list of `o` becomes `l` and nothing else about the clients changes. -/
structure Server.Relists (s s' : Server) (o : ClientPtr) (l : List ℤ) : Prop where
  same : s.SameClients s'
  lists : Relisted s.nodes s.headOf s'.nodes s'.headOf o l

/-! ## Pointers -/

theorem at_ok_iff {s : Server} {ID : CInt} {o : ClientPtr} :
    s.at ID = .ok o ↔ 0 ≤ ID.val ∧ s.clients[ID.val.toNat]? = some o := by
  unfold Server.at
  by_cases h : 0 ≤ ID.val
  · rw [if_pos h]
    cases s.clients[ID.val.toNat]? <;> simp [h]
  · rw [if_neg h]
    simp [h]

theorem object_ok_iff {s : Server} {o : ClientPtr} {c : Client} :
    s.object o = .ok c ↔ s.objects[o]? = some c ∧ c.deleted = false := by
  unfold Server.object
  cases s.objects[o]? with
  | none => simp
  | some d =>
    by_cases hd : d.deleted = true
    · simp only [if_pos hd, Option.some.injEq]
      constructor
      · intro h
        cases h
      · rintro ⟨rfl, h⟩
        rw [hd] at h
        cases h
    · simp only [if_neg hd, Option.some.injEq, Except.ok.injEq]
      constructor
      · rintro rfl
        exact ⟨rfl, by simpa using hd⟩
      · exact And.left

theorem headOf_of_object {s : Server} {o : ClientPtr} {c : Client} (h : s.object o = .ok c) :
    s.headOf o = c.head := by
  rw [Server.headOf, (object_ok_iff.mp h).1]
  rfl

theorem objects_setObject_self {s : Server} {o : ClientPtr} {c : Client}
    (hc : s.objects[o]? = some c) (f : Client → Client) :
    (s.setObject o f).objects[o]? = some (f c) := by
  simp [Server.setObject, hc]

theorem objects_setObject_ne {s : Server} {o o' : ClientPtr} (ho : o' ≠ o)
    (f : Client → Client) : (s.setObject o f).objects[o']? = s.objects[o']? := by
  simp [Server.setObject, Ne.symm ho]

/-- After a change of one object, a place holds what it held, or the changed object. -/
theorem objects_setObject_cases (s : Server) (o : ClientPtr) (f : Client → Client)
    (o' : ClientPtr) :
    (s.setObject o f).objects[o']? = s.objects[o']? ∨
      ∃ c, s.objects[o']? = some c ∧ (s.setObject o f).objects[o']? = some (f c) := by
  by_cases ho : o' = o
  · subst ho
    cases hget : s.objects[o']? with
    | none => exact .inl (List.getElem?_eq_none (by simpa [Server.setObject] using hget))
    | some c => exact .inr ⟨c, rfl, objects_setObject_self hget f⟩
  · exact .inl (objects_setObject_ne ho f)

theorem Server.SameClients.refl (s : Server) : s.SameClients s := ⟨rfl, rfl, rfl, rfl, rfl, rfl⟩

theorem Server.SameClients.symm {s s' : Server} (h : s.SameClients s') : s'.SameClients s :=
  ⟨h.objects.symm, h.clients.symm, h.sockfd.symm, h.fds.symm, h.numClientsConnected.symm,
    h.closed.symm⟩

theorem Server.SameClients.trans {s s' s'' : Server} (h : s.SameClients s')
    (h' : s'.SameClients s'') : s.SameClients s'' :=
  ⟨h'.objects.trans h.objects, h'.clients.trans h.clients, h'.sockfd.trans h.sockfd,
    h'.fds.trans h.fds, h'.numClientsConnected.trans h.numClientsConnected,
    h'.closed.trans h.closed⟩

/-- A client is the same object after the operation, but for its list. -/
theorem Server.SameClients.getElem? {s s' : Server} (h : s.SameClients s') (o : ClientPtr) :
    (s'.objects[o]?).map Client.fixed = (s.objects[o]?).map Client.fixed := by
  rw [← List.getElem?_map, ← List.getElem?_map, h.objects]

theorem Server.SameClients.object_cases {s s' : Server} (h : s.SameClients s') (o : ClientPtr) :
    s.objects[o]? = none ∧ s'.objects[o]? = none ∨
      ∃ c c', s.objects[o]? = some c ∧ s'.objects[o]? = some c' ∧ c'.fixed = c.fixed := by
  have hmap := h.getElem? o
  cases hget : s.objects[o]? with
  | none =>
    rw [hget, Option.map_none, Option.map_eq_none_iff] at hmap
    exact .inl ⟨rfl, hmap⟩
  | some c =>
    rw [hget, Option.map_some, Option.map_eq_some_iff] at hmap
    obtain ⟨c', hget', hfix⟩ := hmap
    exact .inr ⟨c, c', rfl, hget', hfix⟩

theorem Server.SameClients.object {s s' : Server} (h : s.SameClients s') {o : ClientPtr}
    {c : Client} (hc : s.object o = .ok c) :
    ∃ c', s'.object o = .ok c' ∧ c'.fixed = c.fixed := by
  obtain ⟨hget, hdel⟩ := object_ok_iff.mp hc
  have hmap := h.getElem? o
  rw [hget, Option.map_some, Option.map_eq_some_iff] at hmap
  obtain ⟨c', hget', hfix⟩ := hmap
  exact ⟨c', object_ok_iff.mpr ⟨hget', (Client.deleted_of_fixed hfix).trans hdel⟩, hfix⟩

theorem Server.SameClients.at {s s' : Server} (h : s.SameClients s') (ID : CInt) :
    s'.at ID = s.at ID := by
  unfold Server.at
  rw [h.clients]

theorem Server.Relists.listOf {s s' : Server} {o : ClientPtr} {l : List ℤ}
    (h : s.Relists s' o l) : s'.listOf o = l :=
  h.lists.self

theorem Server.Relists.listOf_ne {s s' : Server} {o : ClientPtr} {l : List ℤ}
    (h : s.Relists s' o l) {o' : ClientPtr} (ho : o' ≠ o) : s'.listOf o' = s.listOf o' :=
  h.lists.others o' ho

theorem Server.Relists.separate {s s' : Server} {o : ClientPtr} {l : List ℤ}
    (h : s.Relists s' o l) : s'.Separate :=
  h.lists.separate

theorem Server.Relists.trans {s s' s'' : Server} {o : ClientPtr} {l l' : List ℤ}
    (h : s.Relists s' o l) (h' : s'.Relists s'' o l') : s.Relists s'' o l' :=
  ⟨h.same.trans h'.same, h'.separate, h'.listOf,
    fun _ ho => (h'.listOf_ne ho).trans (h.listOf_ne ho)⟩

/-- Numbers, files and messages may change besides. -/
theorem Server.Relists.withData {s s' : Server} {o : ClientPtr} {l : List ℤ}
    (h : s.Relists s' o l) (numbers : List ℤ) (files : Bytes → Option Bytes)
    (sent : List (ℤ × Bytes)) :
    s.Relists { s' with numbers := numbers, files := files, sent := sent } o l :=
  ⟨⟨h.same.objects, h.same.clients, h.same.sockfd, h.same.fds, h.same.numClientsConnected,
    h.same.closed⟩, h.lists⟩

theorem Server.Separate.relists_self {s : Server} (hs : s.Separate) (o : ClientPtr) :
    s.Relists s o (s.listOf o) :=
  ⟨.refl s, hs, rfl, fun _ _ => rfl⟩

/-! ## Appending and drawing a number -/

theorem headOf_setObject_head {s : Server} {o : ClientPtr} {c : Client}
    (hc : s.objects[o]? = some c) (p : Option NodePtr) :
    (s.setObject o fun c => { c with head := p }).headOf = Function.update s.headOf o p := by
  funext o'
  unfold Server.headOf
  by_cases ho : o' = o
  · subst ho
    rw [Function.update_self, objects_setObject_self hc]
    rfl
  · rw [Function.update_of_ne ho, objects_setObject_ne ho]

theorem map_fixed_setObject (s : Server) (o : ClientPtr) (f : Client → Client)
    (hf : ∀ c, (f c).fixed = c.fixed) :
    (s.setObject o f).objects.map Client.fixed = s.objects.map Client.fixed := by
  refine List.ext_getElem? fun o' => ?_
  rw [List.getElem?_map, List.getElem?_map]
  rcases objects_setObject_cases s o f o' with h | ⟨c, hget, h⟩
  · rw [h]
  · rw [h, hget, Option.map_some, Option.map_some, hf]

/-- `appendNode` puts the number at the end of the client's list. -/
theorem appendNode_spec {s : Server} (hs : s.Separate) {o : ClientPtr} {c : Client}
    (hc : s.object o = .ok c) (v : ℤ) :
    ∃ s', s.appendNode o v = .ok s' ∧ s.Relists s' o (s.listOf o ++ [v]) ∧
      s'.numbers = s.numbers ∧ s'.files = s.files ∧ s'.sent = s.sent := by
  have hget := (object_ok_iff.mp hc).1
  have hhead := headOf_of_object hc
  unfold Server.appendNode
  simp only [hc, ok_bind]
  cases hp : c.head with
  | none =>
    rw [hp] at hhead
    refine ⟨_, rfl, ⟨⟨?_, rfl, rfl, rfl, rfl, rfl⟩, ?_⟩, rfl, rfl, rfl⟩
    · exact map_fixed_setObject s o (fun c => { c with head := some s.nodes.length })
        fun _ => rfl
    · have h := hs.start hhead v
      rw [← headOf_setObject_head hget] at h
      exact h
  | some head =>
    rw [hp] at hhead
    have hchain := hs.chain o
    rw [hhead] at hchain
    obtain ⟨m, qs, hqs, -, -⟩ := chain_some hchain
    -- the nodes of the list, the last one apart
    obtain ⟨ps, l, hl⟩ : ∃ ps l, addrs s.nodes (some head) = ps ++ [l] := by
      refine ⟨_, _, (List.dropLast_append_getLast (l := addrs s.nodes (some head)) ?_).symm⟩
      rw [hqs]
      exact List.cons_ne_nil _ _
    have hlast : lastNode (alloc s.nodes v) (alloc s.nodes v).length head = .ok l := by
      rw [hl] at hchain
      have hlen := chain_length_le hchain
      refine lastNode_of_chain (chain_alloc v hchain) ?_
      rw [length_alloc]
      simp only [List.length_append, List.length_singleton] at hlen
      omega
    simp only [hlast, ok_bind]
    refine ⟨_, rfl, ⟨⟨rfl, rfl, rfl, rfl, rfl, rfl⟩, ?_⟩, rfl, rfl, rfl⟩
    rw [← hhead] at hl
    exact hs.append hl v

theorem appendNode_object {s s' : Server} {o : ClientPtr} {v : ℤ}
    (h : s.appendNode o v = .ok s') : ∃ c, s.object o = .ok c := by
  unfold Server.appendNode at h
  obtain ⟨c, hc, -⟩ := bind_ok_iff.mp h
  exact ⟨c, hc⟩

/-- The first candidate of the draws that no client has. -/
def firstNew (ID : CInt) (numbers : List ℤ) (rands : List ℕ) : Option ℤ :=
  (rands.map (candidate ID)).find? (· ∉ numbers)

/-- What `generateNumber` does with a new number. -/
def Server.record (s : Server) (client : ClientPtr) (number : ℤ) : Exec (ℤ × Server) := do
  let s ← s.appendNode client number
  pure (number, { s with numbers := s.numbers ++ [number] })

/-- The loop of `generateNumber` records the first new candidate, and ends only there. -/
theorem generateLoop_eq (ID : CInt) (o : ClientPtr) (rands : List ℕ) (s : Server) :
    s.generateLoop ID o rands = match firstNew ID s.numbers rands with
      | none => .error .spins
      | some n => s.record o n := by
  induction rands with
  | nil => rfl
  | cons rand rands ih =>
    rw [Server.generateLoop, firstNew, List.map_cons, List.find?_cons]
    unfold Server.draw
    by_cases hm : candidate ID rand ∈ s.numbers
    · have hcount : s.numbers.count (candidate ID rand) ≠ 0 := by
        rw [ne_eq, List.count_eq_zero]
        exact not_not.mpr hm
      simp only [if_pos hcount, pure_ok, ok_bind, hm, not_true_eq_false, decide_false]
      exact ih
    · have hcount : ¬ s.numbers.count (candidate ID rand) ≠ 0 := by
        rw [not_not]
        exact List.count_eq_zero.mpr hm
      simp only [if_neg hcount, hm, not_false_eq_true, decide_true, Server.record]
      cases s.appendNode o (candidate ID rand) with
      | error e => rfl
      | ok s1 => rfl

theorem firstNew_some {ID : CInt} {numbers : List ℤ} {rands : List ℕ} {n : ℤ}
    (h : firstNew ID numbers rands = some n) :
    n ∉ numbers ∧ ∃ rand ∈ rands, candidate ID rand = n := by
  unfold firstNew at h
  have hmem := List.mem_of_find?_eq_some h
  rw [List.mem_map] at hmem
  exact ⟨by simpa using List.find?_some h, hmem⟩

theorem firstNew_isSome_iff {ID : CInt} {numbers : List ℤ} {rands : List ℕ} :
    (∃ n, firstNew ID numbers rands = some n) ↔
      ∃ rand ∈ rands, candidate ID rand ∉ numbers := by
  rw [← Option.isSome_iff_exists, firstNew, List.find?_isSome]
  simp

/-- `n` is drawn for the client `o`: it is new and is added to the list and to `numbers`. -/
structure Server.Generates (s s' : Server) (o : ClientPtr) (n : ℤ) : Prop where
  new : n ∉ s.numbers
  relists : s.Relists s' o (s.listOf o ++ [n])
  numbers : s'.numbers = s.numbers ++ [n]
  files : s'.files = s.files
  sent : s'.sent = s.sent

theorem record_spec {s : Server} (hs : s.Separate) {o : ClientPtr} {c : Client}
    (hc : s.object o = .ok c) {n : ℤ} (hn : n ∉ s.numbers) :
    ∃ s', s.record o n = .ok (n, s') ∧ s.Generates s' o n := by
  obtain ⟨s1, hok, hr, hnum, hfiles, hsent⟩ := appendNode_spec hs hc n
  refine ⟨{ s1 with numbers := s1.numbers ++ [n] }, ?_, hn, hr.withData _ _ _, ?_, hfiles,
    hsent⟩
  · rw [Server.record, hok]
    rfl
  · show s1.numbers ++ [n] = _
    rw [hnum]

/-- `generateNumber` returns if the index is in range and some draw is new. -/
theorem generateNumber_spec {s : Server} (hs : s.Separate) {ID : CInt} {o : ClientPtr}
    {c : Client} (ho : s.at ID = .ok o) (hc : s.object o = .ok c) {rands : List ℕ} {n : ℤ}
    (hn : firstNew ID s.numbers rands = some n) :
    ∃ s', s.generateNumber ID rands = .ok (n, s') ∧ s.Generates s' o n := by
  rw [Server.generateNumber, ho, ok_bind, generateLoop_eq, hn]
  exact record_spec hs hc (firstNew_some hn).1

/-- All that `generateNumber` can do when it returns. -/
theorem generateNumber_ok {s s' : Server} (hs : s.Separate) {ID : CInt} {rands : List ℕ} {n : ℤ}
    (h : s.generateNumber ID rands = .ok (n, s')) :
    ∃ o c, s.at ID = .ok o ∧ s.object o = .ok c ∧ firstNew ID s.numbers rands = some n ∧
      s.Generates s' o n := by
  obtain ⟨o, ho, hl⟩ := bind_ok_iff.mp h
  rw [generateLoop_eq] at hl
  cases hf : firstNew ID s.numbers rands with
  | none => rw [hf] at hl; cases hl
  | some m =>
    rw [hf] at hl
    obtain ⟨s1, happ, -⟩ := bind_ok_iff.mp hl
    obtain ⟨c, hc⟩ := appendNode_object happ
    obtain ⟨s2, hok, hg⟩ := generateNumber_spec hs ho hc hf
    rw [h] at hok
    cases hok
    exact ⟨o, c, ho, hc, rfl, hg⟩

/-! ## Sorting a list and writing it -/

theorem length_listFrom_of_chain {h : Nodes} {p : Option NodePtr} {ps : List NodePtr}
    (hc : Chain h p ps) : (listFrom h p).length = ps.length := by
  rw [listFrom_of_chain hc]
  induction ps generalizing p with
  | nil => rfl
  | cons a ps ih =>
    obtain ⟨-, n, hn, hc⟩ := hc
    rw [values_cons hn, List.length_cons, List.length_cons, ih hc]

/-- `sortList` returns early for a list of fewer than two numbers. -/
theorem sortNodes_short {s : Server} (hs : s.Separate) {o : ClientPtr} {c : Client}
    (hc : s.object o = .ok c) (hlen : (s.listOf o).length < 2) : s.sortNodes o = .ok none := by
  have hhead := headOf_of_object hc
  have hchain := hs.chain o
  rw [Server.listOf, length_listFrom_of_chain hchain] at hlen
  unfold Server.sortNodes
  rw [hc, ok_bind]
  cases hp : c.head with
  | none => rfl
  | some head =>
    rw [hhead, hp] at hchain hlen
    obtain ⟨n, qs, hqs, hn, hrest⟩ := chain_some hchain
    rw [hqs, List.length_cons] at hlen
    obtain rfl : qs = [] := List.length_eq_zero_iff.mp (by omega)
    simp only [node_ok_iff.mpr hn, ok_bind, chain_nil.mp hrest, if_true]
    rfl

/-- Otherwise it rewrites the numbers of the list, in its nodes, in ascending order. -/
theorem sortNodes_long {s : Server} (hs : s.Separate) {o : ClientPtr} {c : Client}
    (hc : s.object o = .ok c) (hlen : 2 ≤ (s.listOf o).length) :
    ∃ nodes, s.sortNodes o = .ok (some { s with nodes := nodes }) ∧
      Rewritten s.nodes nodes (addrs s.nodes (s.headOf o)) ∧
      (values nodes (addrs s.nodes (s.headOf o))).Perm (s.listOf o) ∧
      (values nodes (addrs s.nodes (s.headOf o))).Pairwise (· ≤ ·) := by
  have hhead := headOf_of_object hc
  have hchain := hs.chain o
  rw [Server.listOf, length_listFrom_of_chain hchain] at hlen
  rw [Server.listOf, listFrom]
  cases hp : c.head with
  | none =>
    rw [hhead, hp, addrs_none] at hlen
    simp at hlen
  | some head =>
    rw [hhead, hp] at hchain hlen ⊢
    obtain ⟨n, qs, hqs, hn, hrest⟩ := chain_some hchain
    have hnext : n.next ≠ none := by
      intro h0
      rw [h0, chain_none] at hrest
      rw [hqs, hrest] at hlen
      simp at hlen
    obtain ⟨nodes, hok, hr, hperm, hsorted⟩ :=
      sortOuter_of_chain hchain (chain_length_le hchain)
    refine ⟨nodes, ?_, hr, hperm, hsorted⟩
    unfold Server.sortNodes
    simp only [hc, ok_bind, hp, node_ok_iff.mpr hn, if_neg hnext, hok]
    rfl

theorem sortNodes_spec {s : Server} (hs : s.Separate) {o : ClientPtr} {c : Client}
    (hc : s.object o = .ok c) (hlen : 2 ≤ (s.listOf o).length) :
    ∃ s' l, s.sortNodes o = .ok (some s') ∧ s.Relists s' o l ∧ l.Perm (s.listOf o) ∧
      l.Pairwise (· ≤ ·) ∧ s'.numbers = s.numbers ∧ s'.files = s.files ∧ s'.sent = s.sent := by
  obtain ⟨nodes, hok, hr, hperm, hsorted⟩ := sortNodes_long hs hc hlen
  exact ⟨_, _, hok, ⟨⟨rfl, rfl, rfl, rfl, rfl, rfl⟩, hs.rewrite hr⟩, hperm, hsorted, rfl, rfl,
    rfl⟩

theorem headOf_of_listOf {s : Server} {o : ClientPtr} (h : s.listOf o ≠ []) :
    ∃ p, s.headOf o = some p := by
  cases hp : s.headOf o with
  | none => exact absurd (by rw [Server.listOf, hp, listFrom_none]) h
  | some p => exact ⟨p, rfl⟩

/-- A list with numbers in it is written to the file, joined with arrows. -/
theorem writeList_spec {s : Server} (hs : s.Separate) {o : ClientPtr} {c : Client}
    (hc : s.object o = .ok c) (hne : s.listOf o ≠ []) (f : Bytes) :
    s.writeList c.head f =
      .ok { s with files := Function.update s.files f (some (joined (s.listOf o))) } := by
  rw [← headOf_of_object hc]
  obtain ⟨p, hp⟩ := headOf_of_listOf hne
  have hchain := hs.chain o
  rw [hp] at hchain
  have hw := writeLoop_of_chain hchain (chain_length_le hchain) []
  unfold Server.writeList
  rw [hp, notNull, ok_bind, hw, List.nil_append, ok_bind, Server.listOf, hp, listFrom]
  rfl

/-- What `sortList` does for `o`: nothing if its list is shorter than two, else `l` is its list,
    sorted, and the text of the file. -/
structure Server.Sorts (s s' : Server) (o : ClientPtr) (f : Bytes) (l : List ℤ) : Prop where
  relists : s.Relists s' o l
  perm : l.Perm (s.listOf o)
  sorted : l.Pairwise (· ≤ ·)
  files : s'.files = if l.length < 2 then s.files else Function.update s.files f (some (joined l))
  numbers : s'.numbers = s.numbers
  sent : s'.sent = s.sent

theorem pairwise_le_of_short {l : List ℤ} (h : l.length < 2) : l.Pairwise (· ≤ ·) := by
  cases l with
  | nil => exact List.Pairwise.nil
  | cons a l =>
    rw [List.length_cons] at h
    obtain rfl : l = [] := List.length_eq_zero_iff.mp (by omega)
    exact List.pairwise_singleton _ _

theorem sortList_short {s : Server} (hs : s.Separate) {ID : CInt} {o : ClientPtr} {c : Client}
    (ho : s.at ID = .ok o) (hc : s.object o = .ok c) (hlen : (s.listOf o).length < 2)
    (f : Bytes) : s.sortList ID f = .ok s := by
  unfold Server.sortList
  rw [ho, ok_bind, sortNodes_short hs hc hlen]
  rfl

theorem sortList_long {s : Server} (hs : s.Separate) {ID : CInt} {o : ClientPtr} {c : Client}
    (ho : s.at ID = .ok o) (hc : s.object o = .ok c) (hlen : 2 ≤ (s.listOf o).length)
    (f : Bytes) :
    ∃ nodes l, s.sortList ID f = .ok { s with
        nodes := nodes, files := Function.update s.files f (some (joined l)) } ∧
      Rewritten s.nodes nodes (addrs s.nodes (s.headOf o)) ∧
      values nodes (addrs s.nodes (s.headOf o)) = l ∧
      l.Perm (s.listOf o) ∧ l.Pairwise (· ≤ ·) := by
  obtain ⟨nodes, hok, hr, hperm, hsorted⟩ := sortNodes_long hs hc hlen
  set s₁ : Server := { s with nodes := nodes }
  have hlists : Relisted s.nodes s.headOf nodes s.headOf o
      (values nodes (addrs s.nodes (s.headOf o))) := hs.rewrite hr
  have hlist : s₁.listOf o = values nodes (addrs s.nodes (s.headOf o)) := hlists.self
  have hne : s₁.listOf o ≠ [] := by
    intro hnil
    have hlength := hperm.length_eq
    rw [← hlist, hnil, List.length_nil] at hlength
    omega
  have hc₁ : s₁.object o = .ok c := hc
  have hw := writeList_spec hlists.separate hc₁ hne f
  have ho₁ : s₁.at ID = .ok o := ho
  refine ⟨nodes, _, ?_, hr, hlist.symm, hlist ▸ hperm, hlist ▸ hsorted⟩
  unfold Server.sortList
  simp only [ho, ok_bind, hok, ho₁, Server.writeSorted, hc₁]
  exact hw

theorem sortList_spec {s : Server} (hs : s.Separate) {ID : CInt} {o : ClientPtr} {c : Client}
    (ho : s.at ID = .ok o) (hc : s.object o = .ok c) (f : Bytes) :
    ∃ s' l, s.sortList ID f = .ok s' ∧ s.Sorts s' o f l := by
  by_cases hlen : (s.listOf o).length < 2
  · refine ⟨s, s.listOf o, sortList_short hs ho hc hlen f, hs.relists_self o,
      List.Perm.refl _, ?_, ?_, rfl, rfl⟩
    · exact pairwise_le_of_short hlen
    · rw [if_pos hlen]
  · obtain ⟨nodes, l, hok, hr, hl, hperm, hsorted⟩ := sortList_long hs ho hc (by omega) f
    have hlength : l.length = (s.listOf o).length := hperm.length_eq
    have hlists : Relisted s.nodes s.headOf nodes s.headOf o l := hl ▸ hs.rewrite hr
    refine ⟨_, l, hok, ⟨⟨rfl, rfl, rfl, rfl, rfl, rfl⟩, hlists⟩, hperm, hsorted, ?_, rfl, rfl⟩
    rw [if_neg (by omega)]

/-- All that `sortList` can do when it returns. -/
theorem sortList_ok {s s' : Server} (hs : s.Separate) {ID : CInt} {f : Bytes}
    (h : s.sortList ID f = .ok s') :
    ∃ o c l, s.at ID = .ok o ∧ s.object o = .ok c ∧ s.Sorts s' o f l := by
  obtain ⟨o, ho, hrest⟩ := bind_ok_iff.mp h
  obtain ⟨x, hx, -⟩ := bind_ok_iff.mp hrest
  obtain ⟨c, hc, -⟩ := bind_ok_iff.mp hx
  obtain ⟨s1, l, hok, hsorts⟩ := sortList_spec hs ho hc f
  rw [h] at hok
  cases hok
  exact ⟨o, c, l, ho, hc, hsorts⟩

end TCPServer
