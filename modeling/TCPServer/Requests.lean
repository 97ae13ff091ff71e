/-
  Requests handled without interruption, from any state of a started server.

  The handler draws from a stream of results of `rand()` as many as it needs
  (`Server.HandlerReturns`). `request_served`: for the text of an index in range, and a stream
  that has a new candidate, it returns, and with the effects it should have.
  `handlesSafely_iff`: for every other message, and for a stream without a new candidate, it
  neither serves the request nor returns with everything as it was. `stoi` throws on what is no
  number and nothing catches that, an index is not compared with the size of `_clients`, and a
  number with blanks or a sign before it, or anything behind it, is served.
-/
import TCPServer.Numbers

namespace TCPServer

open Runs

/-- The handler returns, with `s'`, when `rand()` gives the results `rand 0`, `rand 1`, … -/
def Server.HandlerReturns (s : Server) (msg : Bytes) (rand : ℕ → ℕ) (r : SendResult)
    (s' : Server) : Prop :=
  ∃ k, s.onIncomingMsg1 msg ((List.range k).map rand) r = .ok s'

theorem firstNew_of_stream {ID : CInt} {numbers : List ℤ} {rand : ℕ → ℕ}
    (h : ∃ k, candidate ID (rand k) ∉ numbers) :
    ∃ k n, firstNew ID numbers ((List.range k).map rand) = some n := by
  obtain ⟨k, hk⟩ := h
  refine ⟨k + 1, firstNew_isSome_iff.mpr ⟨rand k, ?_, hk⟩⟩
  exact List.mem_map_of_mem (List.mem_range.mpr (Nat.lt_succ_self k))

theorem at_of_lt {s : Server} {ID : CInt} (h0 : 0 ≤ ID.val) (hlt : ID.val < s.clients.length) :
    ∃ o, s.at ID = .ok o := by
  have hlt' : ID.val.toNat < s.clients.length := by omega
  exact ⟨_, at_ok_iff.mpr ⟨h0, List.getElem?_eq_getElem hlt'⟩⟩

/-- A request for an index in range is served. -/
theorem handlerReturns_of_index {s : Server} (hs : s.Inv) {ID : CInt} (h0 : 0 ≤ ID.val)
    (hlt : ID.val < s.clients.length) {rand : ℕ → ℕ}
    (hnew : ∃ k, candidate ID (rand k) ∉ s.numbers) (r : SendResult) :
    ∃ s' o c n l, s.HandlerReturns (to_string ID.val) rand r s' ∧ s.at ID = .ok o ∧
      s.object o = .ok c ∧ n % 2 = ID.val % 2 ∧ s.Serves s' ID o n l := by
  obtain ⟨o, ho⟩ := at_of_lt h0 hlt
  obtain ⟨c, hc⟩ := hs.listed (List.mem_of_getElem? (at_ok_iff.mp ho).2)
  obtain ⟨k, n, hn⟩ := firstNew_of_stream hnew
  obtain ⟨s', l, hok, hserve⟩ :=
    onIncomingMsg1_spec hs.separate (decodeID_to_string ID) ho hc hn r
  obtain ⟨-, rand', -, hcand⟩ := firstNew_some hn
  exact ⟨s', o, c, n, l, ⟨k, hok⟩, ho, hc, hcand ▸ (candidate_range ID rand').2.2, hserve⟩

theorem Server.Reachable.step {s s' : Server} (hs : s.Reachable) {op : Op} (h : s.Step op s') :
    s'.Reachable := by
  obtain ⟨sockfd, hreach⟩ := hs
  exact ⟨sockfd, hreach.trans (.of_step h)⟩

theorem pairwise_lt_of_nodup {l : List ℤ} (hs : l.Pairwise (· ≤ ·)) (hnd : l.Nodup) :
    l.Pairwise (· < ·) :=
  (hs.and hnd).imp fun h => lt_of_le_of_ne h.1 h.2

/-- The handler serves an index in range: a new number of its parity is in the client's list,
    which is strictly ascending and is the content of the file, the number is sent to that
    client, and no other list or file changes. -/
theorem request_served {s : Server} (hs : s.Reachable) (ID : CInt) (h0 : 0 ≤ ID.val)
    (hlt : ID.val < s.clients.length) (rand : ℕ → ℕ)
    (hnew : ∃ k, candidate ID (rand k) ∉ s.numbers) (r : SendResult) :
    ∃ s' o c n, s.HandlerReturns (to_string ID.val) rand r s' ∧
      s.clients[ID.val.toNat]? = some o ∧ s.objects[o]? = some c ∧
      n ∉ s.numbers ∧ n % 2 = ID.val % 2 ∧ s'.numbers = s.numbers ++ [n] ∧
      (s'.listOf o).Perm (s.listOf o ++ [n]) ∧ (s'.listOf o).Pairwise (· < ·) ∧
      s'.files (clientFileName ID) = some (joined (s'.listOf o)) ∧
      s'.sent = s.sent ++ [(c.sockfd, to_string n)] ∧
      (∀ o', o' ≠ o → s'.listOf o' = s.listOf o') ∧
      ∀ ID' : CInt, 0 ≤ ID'.val → ID' ≠ ID →
        s'.files (clientFileName ID') = s.files (clientFileName ID') := by
  obtain ⟨s', o, c, n, l, hret, ho, hc, hpar, hserve⟩ :=
    handlerReturns_of_index (reachable_inv hs) h0 hlt hnew r
  have hlist := hserve.relists.listOf
  have hs' : s'.Reachable := by
    obtain ⟨k, hok⟩ := hret
    have hstep : s.Step (.onIncomingMsg1 (to_string ID.val) _ r) s' := hok
    exact hs.step hstep
  have hnd : (s'.listOf o).Nodup := by
    refine reachable_listOf_nodup hs' ?_
    rw [hserve.relists.same.clients]
    exact List.mem_of_getElem? (at_ok_iff.mp ho).2
  refine ⟨s', o, c, n, hret, (at_ok_iff.mp ho).2, (object_ok_iff.mp hc).1, hserve.new, hpar,
    hserve.numbers, ?_, ?_, ?_, hserve.sent c hc, fun o' ho' => hserve.relists.listOf_ne ho',
    fun ID' h0' hne => ?_⟩
  · rw [hlist]
    exact hserve.perm
  · refine pairwise_lt_of_nodup ?_ hnd
    rw [hlist]
    exact hserve.sorted
  · rw [hserve.files, Function.update_self, hlist]
  · have hname : clientFileName ID' ≠ clientFileName ID :=
      fun h => hne (clientFileName_injective h0' h0 h)
    rw [hserve.files, Function.update_of_ne hname]

/-- A started server that has accepted one client. -/
theorem exists_one_client : ∃ s : Server, s.Reachable ∧ s.numbers = [] ∧ s.clients = [0] := by
  have run : ∃ s, Run Server.Step (.init 3)
      [.acceptClient 0 .SUCCESS "" (some (4, "10.0.0.1"))] s ∧ s.numbers = [] ∧
      s.clients = [0] :=
    ⟨_, .cons rfl (.nil _), rfl, rfl⟩
  obtain ⟨s, hrun, hnum, hclients⟩ := run
  exact ⟨s, ⟨3, _, hrun⟩, hnum, hclients⟩

/-- A request of the second of two clients, who has the number 43. -/
theorem request_served_second : ∃ s : Server, s.clients = [0, 1] ∧ s.listOf 1 = [43] ∧
    ∃ s' n, s.HandlerReturns (to_string 1) (fun _ => 3) ⟨1, ""⟩ s' ∧
      (s'.listOf 1).Perm [43, n] ∧ (s'.listOf 1).Pairwise (· < ·) ∧
      s'.files (clientFileName ⟨1, by decide, by decide⟩) = some (joined (s'.listOf 1)) ∧
      s'.sent = s.sent ++ [(5, to_string n)] ∧ s'.listOf 0 = s.listOf 0 ∧
      s'.files (clientFileName ⟨0, by decide, by decide⟩) =
        s.files (clientFileName ⟨0, by decide, by decide⟩) := by
  have run : ∃ s, Run Server.Step (.init 3)
      [.acceptClient 0 .SUCCESS "" (some (4, "10.0.0.1")),
        .acceptClient 0 .SUCCESS "" (some (5, "10.0.0.2")),
        .generateNumber ⟨1, by decide, by decide⟩ [21]] s ∧ s.numbers = [43] ∧
      s.clients = [0, 1] ∧ s.listOf 1 = [43] ∧
      (s.objects[1]?).map Client.sockfd = some 5 :=
    ⟨_, .cons rfl (.cons rfl (.cons rfl (.nil _))), rfl, rfl, rfl, rfl⟩
  obtain ⟨s, hrun, hnum, hclients, hlist, hfd⟩ := run
  obtain ⟨s', o, c, n, hret, ho, hc, -, -, -, hperm, hsorted, hfile, hsent, hothers, hfiles⟩ :=
    request_served ⟨3, _, hrun⟩ ⟨1, by decide, by decide⟩ (by decide) (by rw [hclients]; decide)
      (fun _ => 3) ⟨0, by rw [hnum]; decide⟩ ⟨1, ""⟩
  rw [hclients] at ho
  cases ho
  rw [hlist] at hperm
  rw [hc, Option.map_some, Option.some.injEq] at hfd
  rw [hfd] at hsent
  exact ⟨s, hclients, hlist, s', n, hret, hperm, hsorted, hfile, hsent, hothers 0 (by decide),
    hfiles _ (by decide) (by decide)⟩

/-! ## What the handler does with any message -/

/-- The handler serves the index the message is the text of, or changes nothing and returns. -/
def Server.HandlesSafely (s : Server) (msg : Bytes) (rand : ℕ → ℕ) (r : SendResult) : Prop :=
  (∃ (ID : CInt) (s' : Server) (o : ClientPtr) (n : ℤ) (l : List ℤ),
    msg = to_string ID.val ∧ 0 ≤ ID.val ∧ ID.val < s.clients.length ∧
      s.HandlerReturns msg rand r s' ∧ s.at ID = .ok o ∧ s.Serves s' ID o n l) ∨
  ∃ s', s.HandlerReturns msg rand r s' ∧ s'.numbers = s.numbers ∧
    (∀ o, s'.listOf o = s.listOf o) ∧ s'.files = s.files ∧ s'.sent = s.sent

/-- A return of the handler always changes `numbers`. -/
theorem numbers_ne_of_returns {s s' : Server} (hs : s.Separate) {msg : Bytes} {rand : ℕ → ℕ}
    {r : SendResult} (h : s.HandlerReturns msg rand r s') : s'.numbers ≠ s.numbers := by
  obtain ⟨k, hok⟩ := h
  obtain ⟨ID, o, c, n, l, -, -, -, -, hserve⟩ := onIncomingMsg1_ok hs hok
  rw [hserve.numbers]
  intro he
  simpa using congrArg List.length he

/-- The handler is safe exactly on the text of an index in range, with draws that contain a
    candidate not in `numbers`. -/
theorem handlesSafely_iff {s : Server} (hs : s.Reachable) (msg : Bytes) (rand : ℕ → ℕ)
    (r : SendResult) :
    s.HandlesSafely msg rand r ↔
      ∃ ID : CInt, msg = to_string ID.val ∧ 0 ≤ ID.val ∧ ID.val < s.clients.length ∧
        ∃ k, candidate ID (rand k) ∉ s.numbers := by
  have hinv := reachable_inv hs
  constructor
  · intro h
    rcases h with ⟨ID, s', o, n, l, rfl, h0, hlt, ⟨k, hok⟩, -, -⟩ | ⟨s', hret, hnum, -⟩
    · obtain ⟨ID', -, -, n', -, hmsg, -, -, hn, -⟩ := onIncomingMsg1_ok hinv.separate hok
      rw [decodeID_to_string ID] at hmsg
      cases hmsg
      obtain ⟨hnew, rand', hrand, hcand⟩ := firstNew_some hn
      obtain ⟨j, -, rfl⟩ := List.mem_map.mp hrand
      exact ⟨ID, rfl, h0, hlt, j, hcand ▸ hnew⟩
    · exact absurd hnum (numbers_ne_of_returns hinv.separate hret)
  · intro h
    obtain ⟨ID, rfl, h0, hlt, hnew⟩ := h
    obtain ⟨s', o, c, n, l, hret, ho, -, -, hserve⟩ :=
      handlerReturns_of_index hinv h0 hlt hnew r
    exact .inl ⟨ID, s', o, n, l, rfl, h0, hlt, hret, ho, hserve⟩

/-- With one client, the text "0" and a first draw of 21 are handled safely. -/
theorem handlesSafely_zero : ∃ s : Server,
    s.clients = [0] ∧ s.HandlesSafely (to_string 0) (fun _ => 21) ⟨2, ""⟩ := by
  obtain ⟨s, hs, hnum, hclients⟩ := exists_one_client
  refine ⟨s, hclients, (handlesSafely_iff hs _ _ _).mpr
    ⟨⟨0, by decide, by decide⟩, rfl, by decide, ?_, 0, ?_⟩⟩
  · rw [hclients]
    decide
  · rw [hnum]
    exact List.not_mem_nil

/-- With one client, "abc" makes `stoi` throw in the receive thread. -/
theorem not_handlesSafely_abc : ∃ s : Server, s.Reachable ∧ s.clients = [0] ∧
    (∀ rands r, s.onIncomingMsg1 (bytes "abc") rands r = .error .invalidArgument) ∧
    ¬ s.HandlesSafely (bytes "abc") (fun _ => 21) ⟨2, ""⟩ := by
  obtain ⟨s, hs, -, hclients⟩ := exists_one_client
  have hthrow : ∀ rands r, s.onIncomingMsg1 (bytes "abc") rands r = .error .invalidArgument :=
    fun rands r => rfl
  have hnot : ∀ rand r s', ¬ s.HandlerReturns (bytes "abc") rand r s' := by
    intro rand r s' hret
    obtain ⟨k, hok⟩ := hret
    rw [hthrow] at hok
    cases hok
  refine ⟨s, hs, hclients, hthrow, fun hsafe => ?_⟩
  rcases hsafe with ⟨_, s', _, _, _, _, _, _, hret, _⟩ | ⟨s', hret, _⟩
  · exact hnot _ _ s' hret
  · exact hnot _ _ s' hret

end TCPServer
