/-
  A handler that finds no number.

  `draws_forever`: all numbers of the parity of an index are in use and its handler draws; it
  draws for ever, with `_subscribersMtx` held, and no request that waits is ever taken up.

  `reply_impossible` is such a state: one client has been given all fifty odd numbers, one by
  one (`Sys.Stage`), and asks once more. The request of the other client, at an even index,
  waits for ever, with all even numbers left.
-/
import TCPServer.Threads.Progress

namespace TCPServer

open Runs

/-- While a handler draws for an index of whose parity all numbers are in use, it goes on
    drawing, and the requests that wait go on waiting. -/
theorem draws_forever {s s' : Sys} (hs : s.Inv) {o o' client g : ClientPtr} {ID : CInt}
    {msg : Bytes} (ho : s.receivers o = .handling (.draw ID client g))
    (hused : ∀ rand, candidate ID rand ∈ s.server.numbers) (ho' : s.receivers o' = .publishMsg msg)
    {acts : List Act} (hrun : Run Sys.Step s acts s') :
    s'.receivers o = .handling (.draw ID client g) ∧ s'.receivers o' = .publishMsg msg := by
  have hinv := hrun.invariant (I := fun s => s.Inv ∧
    s.receivers o = .handling (.draw ID client g) ∧
    (∀ rand, candidate ID rand ∈ s.server.numbers) ∧ s.receivers o' = .publishMsg msg) ?_
    ⟨hs, ho, hused, ho'⟩
  · exact ⟨hinv.2.1, hinv.2.2.2⟩
  intro s1 a s2 h1 hstep
  obtain ⟨hs1, ho, hused, ho'⟩ := h1
  refine ⟨sys_step_inv hs1 hstep, ?_⟩
  have hheld := (hs1.holder o).mp (by rw [ho]; rfl)
  have hne : o' ≠ o := by
    rintro rfl
    rw [ho] at ho'
    cases ho'
  by_cases ha : a.thread = .receiver o
  · cases a with
    | acceptor fileDescriptor ip => cases ha
    | remover closeRet => cases ha
    | receiver o1 event rand r =>
      cases ha
      obtain ⟨-, -, ⟨c, -, hstep⟩ | ⟨e, -, rfl⟩⟩ := receiver_step hstep
      · have hdraw : s1.server.draw ID g rand = .ok (none, s1.server) := by
          rw [Server.draw, if_pos]
          · rfl
          · rw [ne_eq, List.count_eq_zero]
            exact not_not.mpr (hused rand)
        rw [receiverStep_handling ho (by simp), HandlerPc.step, hdraw] at hstep
        cases hstep
        exact ⟨setReceiver_self s1 o _, hused, (setReceiver_ne s1 hne _).trans ho'⟩
      · exact ⟨ho, hused, ho'⟩
  · obtain ⟨haround, -⟩ := ready_other hs1 ho ha hstep
    refine ⟨haround.receiver.trans ho, fun rand => by rw [haround.numbers]; exact hused rand, ?_⟩
    by_cases ha' : a.thread = .receiver o'
    · cases a with
      | acceptor fileDescriptor ip => cases ha'
      | remover closeRet => cases ha'
      | receiver o1 event rand r =>
        cases ha'
        obtain ⟨-, -, ⟨c, -, hstep⟩ | ⟨e, -, rfl⟩⟩ := receiver_step hstep
        · simp only [Sys.receiverStep, ho'] at hstep
          rw [if_neg (by rw [hheld]; simp)] at hstep
          cases hstep
        · exact ho'
    · rcases receivers_other ha' hstep with hsame | ⟨hlen, -⟩
      · exact hsame.trans ho'
      · rw [hs1.notStarted o' hlen] at ho'
        cases ho'

/-! ## Using up the odd numbers -/

/-- A connected client that waits in `recv` sends a request, is served and waits again. -/
theorem round_served {s : Sys} (hs : s.Inv) (hfault : s.fault = none)
    (hmtx : s.subscribersMtx = none) {o : ClientPtr} {c : Client} {msg : Bytes} {ID : CInt}
    (ho : s.receivers o = .waiting) (hmsg : decodeID msg = .ok ID)
    (hat : s.server.at ID = .ok o) (hc : s.server.object o = .ok c) (hconn : c.isConnected = true)
    {n : ℤ} (hn : s.server.Free ID n) :
    ∃ s', Reaches Sys.Step s s' ∧ s'.fault = none ∧ s'.subscribersMtx = none ∧
      s'.receivers o = .waiting ∧ (∀ o', o' ≠ o → s'.receivers o' = s.receivers o') ∧
      s.server.SameClients s'.server ∧ s'.server.numbers = s.server.numbers ++ [n] := by
  have hsend := message_received hs hfault ho msg
  have hs1 := sys_step_inv hs hsend
  obtain ⟨server, hreach, hfin⟩ := waiting_served hs1 hfault hmtx (setReceiver_self s o _) hmsg hat
    ⟨c, hc⟩ hn
  set s2 : Sys := { (s.setReceiver o (.publishMsg msg)).setReceiver o (.handling .returned) with
    server := server, subscribersMtx := some (.receiver o) } with hs2
  have hinv2 : s2.Inv := reaches_inv hs1 hreach
  have ho2 : s2.receivers o = .handling .returned := setReceiver_self _ o _
  obtain ⟨l, hrel⟩ := hfin.relists
  have hback : s2.Step (.receiver o .timeout 0 ⟨0, ""⟩)
      { s2.setReceiver o .check with subscribersMtx := none } := by
    refine receiver_can hinv2 hfault (by rw [ho2]; simp) (by rw [ho2]; simp) fun c _ => ?_
    simp only [Sys.receiverStep, ho2]
  set s3 : Sys := { s2.setReceiver o .check with subscribersMtx := none } with hs3
  have ho3 : s3.receivers o = .check := setReceiver_self _ o _
  have hwait : s3.Step (.receiver o .timeout 0 ⟨0, ""⟩) (s3.setReceiver o .waiting) := by
    refine receiver_can (sys_step_inv hinv2 hback) hfault (by rw [ho3]; simp) (by rw [ho3]; simp)
      fun c' hc' => ?_
    obtain ⟨c1, hc1, hfix⟩ := hrel.same.object hc
    cases hc1.symm.trans hc'
    have hconn1 : c'.isConnected = true := (Client.isConnected_of_fixed hfix).trans hconn
    simp only [Sys.receiverStep, ho3, hconn1, if_true]
  refine ⟨_, (Reaches.of_step hsend).trans (hreach.trans (.head hback (.of_step hwait))), hfault,
    rfl, setReceiver_self s3 o _, fun o' hne => ?_, hrel.same, hfin.numbers⟩
  rw [setReceiver_ne s3 hne]
  show (s2.setReceiver o .check).receivers o' = _
  rw [setReceiver_ne s2 hne]
  show ((s.setReceiver o (.publishMsg msg)).setReceiver o (.handling .returned)).receivers o' = _
  rw [setReceiver_ne _ hne, setReceiver_ne s hne]

/-- Client 0 waits with the request "0"; client 1 has been given `k` odd numbers. -/
structure Sys.Stage (s : Sys) (k : ℕ) : Prop where
  reachable : s.Reachable
  fault : s.fault = none
  free : s.subscribersMtx = none
  even : s.receivers 0 = .publishMsg (bytes "0")
  odd : s.receivers 1 = .waiting
  clients : s.server.clients = [0, 1]
  connected : ∃ c, s.server.object 1 = .ok c ∧ c.isConnected = true
  numbers : s.server.numbers = (List.range k).map fun i : ℕ => 2 * (i : ℤ) + 1

theorem stage_zero : ∃ s : Sys, s.Stage 0 := by
  have hrun : ∃ s : Sys, Run Sys.Step (.init 3)
      [.acceptor 4 "10.0.0.1", .acceptor 0 "", .acceptor 0 "", .acceptor 0 "", .acceptor 0 "",
        .acceptor 5 "10.0.0.2", .acceptor 0 "", .acceptor 0 "", .acceptor 0 "", .acceptor 0 "",
        .receiver 0 .timeout 0 ⟨0, ""⟩, .receiver 0 (.message (bytes "0")) 0 ⟨0, ""⟩,
        .receiver 1 .timeout 0 ⟨0, ""⟩] s ∧
      s.fault = none ∧ s.subscribersMtx = none ∧ s.receivers 0 = .publishMsg (bytes "0") ∧
      s.receivers 1 = .waiting ∧ s.server.clients = [0, 1] ∧
      s.server.object 1 = .ok ⟨5, "10.0.0.2", true, none, false⟩ ∧ s.server.numbers = [] :=
    ⟨_, .cons rfl (.cons rfl (.cons rfl (.cons rfl (.cons rfl (.cons rfl (.cons rfl (.cons rfl
      (.cons rfl (.cons rfl (.cons rfl (.cons rfl (.cons rfl (.nil _))))))))))))), rfl, rfl, rfl,
      rfl, rfl, rfl, rfl⟩
  obtain ⟨s, hrun, hfault, hmtx, h0, h1, hclients, hobj, hnumbers⟩ := hrun
  exact ⟨s, ⟨3, _, hrun⟩, hfault, hmtx, h0, h1, hclients, ⟨_, hobj, rfl⟩, hnumbers⟩

theorem stage_at_one {s : Sys} {k : ℕ} (hs : s.Stage k) (h1 : CInt) (hval : h1.val = 1) :
    s.server.at h1 = .ok 1 := by
  refine at_ok_iff.mpr ⟨by omega, ?_⟩
  rw [hs.clients, hval]
  rfl

theorem stage_succ {s : Sys} {k : ℕ} (hs : s.Stage k) (hk : k < 50) :
    ∃ s' : Sys, s'.Stage (k + 1) := by
  obtain ⟨c, hc, hconn⟩ := hs.connected
  have hfree : s.server.Free ⟨1, by decide, by decide⟩ (2 * (k : ℤ) + 1) := by
    refine ⟨by omega, by omega, ?_, ?_⟩
    · show (2 * (k : ℤ) + 1) % 2 = 1 % 2
      omega
    · rw [hs.numbers]
      intro hm
      obtain ⟨i, hi, heq⟩ := List.mem_map.mp hm
      have hlt := List.mem_range.mp hi
      omega
  obtain ⟨s', hreach, hfault, hmtx, h1, hother, hsame, hnumbers⟩ :=
    round_served (sys_reachable_inv hs.reachable) hs.fault hs.free hs.odd
      (show decodeID (bytes "1") = .ok _ from rfl) (stage_at_one hs _ rfl) hc hconn hfree
  obtain ⟨c', hc', hfix⟩ := hsame.object hc
  have hconn' : c'.isConnected = true := (Client.isConnected_of_fixed hfix).trans hconn
  obtain ⟨sockfd, hinit⟩ := hs.reachable
  refine ⟨s', ⟨sockfd, hinit.trans hreach⟩, hfault, hmtx, (hother 0 (by decide)).trans hs.even, h1,
    hsame.clients.trans hs.clients, ⟨c', hc', hconn'⟩, ?_⟩
  rw [hnumbers, hs.numbers, List.range_succ, List.map_append]
  rfl

theorem stage_all {k : ℕ} (hk : k ≤ 50) : ∃ s : Sys, s.Stage k := by
  induction k with
  | zero => exact stage_zero
  | succ k ih =>
    obtain ⟨s, hs⟩ := ih (Nat.le_of_succ_le hk)
    exact stage_succ hs hk

/-- Client 1 asks once more when it has all fifty odd numbers: the request "0" of client 0 can
    then never be served, with all even numbers left. -/
theorem reply_impossible :
    ∃ (s : Sys) (ID : CInt), s.Reachable ∧ s.fault = none ∧ s.Pending 0 ID ∧
      s.server.at ID = .ok 0 ∧ (∃ n, s.server.Free ID n) ∧
      ¬ ∃ s', Reaches Sys.Step s s' ∧ s'.receivers 0 = .handling .returned := by
  obtain ⟨s, hs⟩ := stage_all (le_refl 50)
  set odd : CInt := ⟨1, by decide, by decide⟩ with hodd
  have hat := stage_at_one hs odd rfl
  have hask := message_received (sys_reachable_inv hs.reachable) hs.fault hs.odd
    (bytes "1")
  set s1 : Sys := s.setReceiver 1 (.publishMsg (bytes "1")) with hs1
  have hinv1 := sys_step_inv (sys_reachable_inv hs.reachable) hask
  have htaken := request_taken hinv1 hs.fault hs.free (setReceiver_self s 1 _)
  set s2 : Sys := { s1.setReceiver 1 (.handling (.parse (bytes "1"))) with
    subscribersMtx := some (.receiver 1) } with hs2
  have hinv2 := sys_step_inv hinv1 htaken
  have hmsg : decodeID (bytes "1") = .ok odd := rfl
  have hdraw := reaches_of_handler_run (handler_run_start ⟨0, ""⟩ hmsg hat) hinv2 hs.fault
    (o := 1) (setReceiver_self s1 1 _) rfl
  set s3 : Sys := { s2.setReceiver 1 (.handling (.draw odd 1 1)) with server := s.server } with hs3
  have hne : (0 : ClientPtr) ≠ 1 := by decide
  have h01 : s1.receivers 0 = .publishMsg (bytes "0") := (setReceiver_ne s hne _).trans hs.even
  have h02 : s2.receivers 0 = .publishMsg (bytes "0") :=
    (setReceiver_ne s1 hne (.handling (.parse (bytes "1")))).trans h01
  have h03 : s3.receivers 0 = .publishMsg (bytes "0") :=
    (setReceiver_ne s2 hne (.handling (.draw odd 1 1))).trans h02
  have hinv3 := reaches_inv hinv2 hdraw
  obtain ⟨sockfd, hinit⟩ := hs.reachable
  have hreach := hinit.trans (.head hask (.head htaken hdraw))
  refine ⟨s3, ⟨0, by decide, by decide⟩, ⟨sockfd, hreach⟩, hs.fault, .waits _ h03 rfl,
    ?_, ⟨0, by decide, by decide, rfl, ?_⟩, ?_⟩
  · refine at_ok_iff.mpr ⟨by decide, ?_⟩
    show s.server.clients[0]? = _
    rw [hs.clients]
    rfl
  · show (0 : ℤ) ∉ s.server.numbers
    rw [hs.numbers]
    intro hm
    obtain ⟨i, -, heq⟩ := List.mem_map.mp hm
    omega
  · intro h
    obtain ⟨s', ⟨acts, hrun⟩, hret⟩ := h
    have hused : ∀ rand, candidate odd rand ∈ s3.server.numbers := fun rand => by
      obtain ⟨hge, hle, hpar⟩ := candidate_range odd rand
      have hpar' : candidate odd rand % 2 = 1 := hpar
      show _ ∈ s.server.numbers
      rw [hs.numbers]
      refine List.mem_map.mpr ⟨(candidate odd rand).toNat / 2, List.mem_range.mpr ?_, ?_⟩
      · omega
      · omega
    have hwait := (draws_forever hinv3 (setReceiver_self s2 1 _) hused h03 hrun).2
    rw [hwait] at hret
    cases hret

end TCPServer
