/-
  One uninterrupted run of the request handler.

  `onIncomingMsg1_spec`: for the text of an index in range and draws that contain a new
  candidate, the handler returns; the new number is in the client's list, the list is sorted
  and is the content of the file, and the number is sent (`Server.Serves`). This also covers a
  list of one number: there `sortList` writes nothing and the file is the one the handler
  itself wrote. `onIncomingMsg1_ok` is the converse: the handler returns in no other case.
-/
import TCPServer.Lists

namespace TCPServer

open LinkedStore

/-! ## Candidates -/

theorem tmod_two_eq_zero_iff (n : ℤ) : n.tmod 2 = 0 ↔ n % 2 = 0 := by
  rw [← Int.dvd_iff_tmod_eq_zero, ← Int.dvd_iff_emod_eq_zero]

/-- Every candidate is between 0 and 99 and has the parity of the ID. -/
theorem candidate_range (ID : CInt) (rand : ℕ) :
    0 ≤ candidate ID rand ∧ candidate ID rand ≤ 99 ∧
      candidate ID rand % 2 = ID.val % 2 := by
  have hlt : rand % 50 < 50 := Nat.mod_lt _ (by decide)
  unfold candidate
  by_cases h : ID.val.tmod 2 = 0
  · rw [if_pos h]
    rw [tmod_two_eq_zero_iff] at h
    omega
  · rw [if_neg h]
    rw [tmod_two_eq_zero_iff] at h
    omega

/-- Every number of 0..99 with the parity of the ID is a candidate. -/
theorem candidate_surjective {ID : CInt} {n : ℤ} (h0 : 0 ≤ n) (h99 : n ≤ 99)
    (hpar : n % 2 = ID.val % 2) : candidate ID (n.toNat / 2) = n := by
  unfold candidate
  by_cases h : ID.val.tmod 2 = 0
  · rw [if_pos h]
    rw [tmod_two_eq_zero_iff] at h
    omega
  · rw [if_neg h]
    rw [tmod_two_eq_zero_iff] at h
    omega

theorem candidate_le (ID : CInt) (rand : ℕ) : candidate ID rand ≤ 2 * rand + 1 := by
  have hle : rand % 50 ≤ rand := Nat.mod_le _ _
  unfold candidate
  split <;> omega

/-! ## File names -/

/-- The two kinds of names differ in their second byte. -/
theorem evenName_ne_oddName (m n : ℤ) :
    bytes "(EVEN) CLIENT ID #: " ++ to_string m ≠ bytes "(ODD) CLIENT ID #: " ++ to_string n := by
  intro h
  have hE : (bytes "(EVEN) CLIENT ID #: " ++ to_string m)[1]? = some 69 := rfl
  have hO : (bytes "(ODD) CLIENT ID #: " ++ to_string n)[1]? = some 79 := rfl
  rw [h, hO] at hE
  cases hE

theorem clientFileName_injective {ID ID' : CInt} (h0 : 0 ≤ ID.val) (h0' : 0 ≤ ID'.val)
    (h : clientFileName ID = clientFileName ID') : ID = ID' := by
  have heq : to_string ID.val = to_string ID'.val := by
    unfold clientFileName at h
    by_cases he : ID.val.tmod 2 = 0 <;> by_cases he' : ID'.val.tmod 2 = 0
    · rw [if_pos he, if_pos he'] at h
      exact List.append_cancel_left h
    · rw [if_pos he, if_neg he'] at h
      exact absurd h (evenName_ne_oddName _ _)
    · rw [if_neg he, if_pos he'] at h
      exact absurd h.symm (evenName_ne_oddName _ _)
    · rw [if_neg he, if_neg he'] at h
      exact List.append_cancel_left h
  exact CInt.ext (to_string_injective h0 h0' heq)

/-! ## The handler -/

/-- The handler serves `o` at index `ID` with the number `n`; the client's list is `l` then. -/
structure Server.Serves (s s' : Server) (ID : CInt) (o : ClientPtr) (n : ℤ) (l : List ℤ) :
    Prop where
  new : n ∉ s.numbers
  relists : s.Relists s' o l
  perm : l.Perm (s.listOf o ++ [n])
  sorted : l.Pairwise (· ≤ ·)
  numbers : s'.numbers = s.numbers ++ [n]
  files : s'.files = Function.update s.files (clientFileName ID) (some (joined l))
  sent : ∀ c, s.object o = .ok c → s'.sent = s.sent ++ [(c.sockfd, to_string n)]

theorem decodeID_to_string (ID : CInt) : decodeID (to_string ID.val) = .ok ID := by
  rw [decodeID, cString_to_string, stoi_to_string]

/-- `sendToClient` calls `::send` once and returns, whatever `::send` returns. -/
theorem sendToClient_spec {s : Server} {o : ClientPtr} {c : Client} (hc : s.object o = .ok c)
    (msg : Bytes) (r : SendResult) :
    ∃ ret, s.sendToClient o msg r =
      .ok (ret, { s with sent := s.sent ++ [(c.sockfd, msg)] }) := by
  unfold Server.sendToClient Client.send
  simp only [hc, ok_bind, Nat.not_lt_zero, if_false]
  by_cases hlt : sizeT r.ret < msg.length
  · rw [if_pos hlt]
    exact ⟨_, rfl⟩
  · rw [if_neg hlt]
    exact ⟨_, rfl⟩

theorem onIncomingMsg1_spec {s : Server} (hs : s.Separate) {msg : Bytes} {ID : CInt}
    {o : ClientPtr} {c : Client} (hmsg : decodeID msg = .ok ID) (ho : s.at ID = .ok o)
    (hc : s.object o = .ok c) {rands : List ℕ} {n : ℤ}
    (hn : firstNew ID s.numbers rands = some n) (r : SendResult) :
    ∃ s' l, s.onIncomingMsg1 msg rands r = .ok s' ∧ s.Serves s' ID o n l := by
  obtain ⟨s1, hgen, hg⟩ := generateNumber_spec hs ho hc hn
  obtain ⟨c1, hc1, hfix1⟩ := hg.relists.same.object hc
  have hne : s1.listOf o ≠ [] := by
    rw [hg.relists.listOf]
    exact List.append_ne_nil_of_right_ne_nil _ (List.cons_ne_nil _ _)
  have hw := writeList_spec hg.relists.separate hc1 hne (clientFileName ID)
  set s2 : Server :=
    { s1 with files := Function.update s1.files (clientFileName ID) (some (joined (s1.listOf o))) }
    with hs2
  have hr2 : s.Relists s2 o (s.listOf o ++ [n]) := hg.relists.withData _ _ _
  have ho2 : s2.at ID = .ok o := by rw [hr2.same.at, ho]
  obtain ⟨s3, l, hsort, hs3⟩ := sortList_spec hr2.separate ho2 hc1 (clientFileName ID)
  have hr3 : s.Relists s3 o l := hr2.trans hs3.relists
  have ho3 : s3.at ID = .ok o := by rw [hr3.same.at, ho]
  obtain ⟨c3, hc3, hfix3⟩ := hr3.same.object hc
  obtain ⟨ret, hsend⟩ := sendToClient_spec hc3 (to_string n) r
  have hperm : l.Perm (s.listOf o ++ [n]) := by
    have := hs3.perm
    rwa [hr2.listOf] at this
  have hfd := Client.sockfd_of_fixed hfix3
  refine ⟨{ s3 with sent := s3.sent ++ [(c3.sockfd, to_string n)] }, l, ?_, hg.new,
    hr3.withData _ _ _, hperm, hs3.sorted, hs3.numbers.trans hg.numbers, ?_, ?_⟩
  · unfold Server.onIncomingMsg1
    simp only [hmsg, ok_bind, ho, hgen, hc1, hw, hsort, ho3, hsend]
    rfl
  · show s3.files = _
    rw [hs3.files, hs2]
    by_cases hlen : l.length < 2
    · -- a list of one number: only the handler has written the file
      have hl : s1.listOf o = l := by
        have hlen1 := hs3.perm.length_eq
        rw [hr2.listOf] at hlen1
        rw [List.length_append, List.length_singleton] at hlen1
        obtain ⟨a, rfl⟩ := List.length_eq_one_iff.mp (show l.length = 1 by omega)
        rw [hg.relists.listOf]
        exact (List.perm_singleton.mp hperm.symm)
      rw [if_pos hlen, hl, hg.files]
    · rw [if_neg hlen, Function.update_idem, hg.files]
  · intro c' hc'
    rw [hc] at hc'
    cases hc'
    show s3.sent ++ _ = _
    rw [hs3.sent]
    show s1.sent ++ _ = _
    rw [hg.sent]
    exact congrArg (fun fd => s.sent ++ [(fd, to_string n)]) hfd

/-- All that the handler can do when it returns. -/
theorem onIncomingMsg1_ok {s s' : Server} (hs : s.Separate) {msg : Bytes} {rands : List ℕ}
    {r : SendResult} (h : s.onIncomingMsg1 msg rands r = .ok s') :
    ∃ ID o c n l, decodeID msg = .ok ID ∧ s.at ID = .ok o ∧ s.object o = .ok c ∧
      firstNew ID s.numbers rands = some n ∧ s.Serves s' ID o n l := by
  obtain ⟨ID, hmsg, h1⟩ := bind_ok_iff.mp h
  obtain ⟨o, -, h2⟩ := bind_ok_iff.mp h1
  obtain ⟨⟨n, s1⟩, hgen, -⟩ := bind_ok_iff.mp h2
  obtain ⟨o, c, ho, hc, hn, -⟩ := generateNumber_ok hs hgen
  obtain ⟨s2, l, hok, hserve⟩ := onIncomingMsg1_spec hs hmsg ho hc hn r
  rw [h] at hok
  cases hok
  exact ⟨ID, o, c, n, l, hmsg, ho, hc, hn, hserve⟩

end TCPServer
