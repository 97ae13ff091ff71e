/-
  Every number is drawn once and sent once, whatever the threads do.

  `HandlerPc.Does` says what a step of the handler does with the lists, the numbers, the files
  and the messages (`handlerStep_does`). No step of any thread takes anything from a list, and
  only a draw adds to one, so that in every reachable state, also after a fault and also where
  the lookups of a handler gave different clients, the numbers drawn are different numbers of
  0..99 and each is in the list of exactly one client ever created (`threads_numbers_held`).
  A handler sends the number it has drawn, and is then at its end: no two replies carry the
  same number (`threads_replies_distinct`).
-/
import TCPServer.Numbers
import TCPServer.Threads.Lookups

namespace TCPServer

open LinkedStore Runs
open Ledgers (Ledger Balanced)

/-! ## What a step of the handler does with the data -/

/-- The file that the handler opens, writes and closes in its next step. -/
def HandlerPc.file : HandlerPc → Option Bytes
  | .write ID _ _ => some (clientFileName ID)
  | .sortWrite ID _ _ => some (clientFileName ID)
  | _ => none

/-- The handler goes on with the number it has, or has yet to draw. -/
structure HandlerPc.Keeps (h h' : HandlerPc) : Prop where
  notReturned : h' ≠ .returned
  drawn : h'.drawn = h.drawn
  value : ∀ n, h'.value n = h.value n

inductive HandlerPc.Does (s : Server) (h : HandlerPc) (rand : ℕ) : HandlerPc → Server → Prop
  | moves {h' : HandlerPc} : h.Keeps h' → h.file = none → h.Does s rand h' s
  | draws {s' : Server} {ID : CInt} {client g : ClientPtr} :
      h = .draw ID client g → s.Alive g → candidate ID rand ∉ s.numbers →
      s.Relists s' g (s.listOf g ++ [candidate ID rand]) →
      s'.numbers = s.numbers ++ [candidate ID rand] → s'.files = s.files → s'.sent = s.sent →
      h.Does s rand (.write ID client (candidate ID rand)) s'
  | writes {h' : HandlerPc} {ID : CInt} {client : ClientPtr} :
      h.Keeps h' → h.file = some (clientFileName ID) → s.Alive client → s.listOf client ≠ [] →
      h.Does s rand h' { s with
        files := Function.update s.files (clientFileName ID) (some (joined (s.listOf client))) }
  | sorts {h' : HandlerPc} {s' : Server} {client : ClientPtr} {l : List ℤ} :
      h.Keeps h' → h.file = none → s.Alive client → s.Relists s' client l →
      l.Perm (s.listOf client) → s'.numbers = s.numbers → s'.files = s.files →
      s'.sent = s.sent → h.Does s rand h' s'
  | replies {value : ℤ} {client : ClientPtr} {c : Client} :
      h = .reply value client → s.object client = .ok c →
      h.Does s rand .returned { s with sent := s.sent ++ [(c.sockfd, to_string value)] }

/-- Only a list with numbers in it can be written. -/
theorem writeList_ok_spec {s s' : Server} (hs : s.Separate) {o : ClientPtr} {c : Client}
    (hc : s.object o = .ok c) {f : Bytes} (h : s.writeList c.head f = .ok s') :
    s.listOf o ≠ [] ∧
      s' = { s with files := Function.update s.files f (some (joined (s.listOf o))) } := by
  have hne : s.listOf o ≠ [] := by
    intro hnil
    obtain ⟨p, hp, -⟩ := bind_ok_iff.mp h
    cases hhead : c.head with
    | none =>
      rw [hhead] at hp
      cases hp
    | some q =>
      have hchain := hs.chain o
      have hlen := length_listFrom_of_chain hchain
      rw [headOf_of_object hc, hhead] at hchain
      obtain ⟨n, qs, hqs, -, -⟩ := chain_some hchain
      rw [headOf_of_object hc, hhead] at hlen
      rw [Server.listOf, headOf_of_object hc, hhead] at hnil
      rw [hnil, hqs] at hlen
      cases hlen
  rw [writeList_spec hs hc hne] at h
  cases h
  exact ⟨hne, rfl⟩

theorem handlerStep_does {s s' : Server} (hs : s.Separate) {h h' : HandlerPc} {rand : ℕ}
    {r : SendResult} (hret : h ≠ .returned) (hstep : h.step s rand r = .ok (h', s')) :
    h.Does s rand h' s' := by
  cases h with
  | parse msg =>
    obtain ⟨ID, -, hok⟩ := bind_ok_iff.mp hstep
    cases hok
    exact .moves ⟨by simp, rfl, fun _ => rfl⟩ rfl
  | lookup ID =>
    obtain ⟨client, -, hok⟩ := bind_ok_iff.mp hstep
    cases hok
    exact .moves ⟨by simp, rfl, fun _ => rfl⟩ rfl
  | generateLookup ID client =>
    obtain ⟨g, -, hok⟩ := bind_ok_iff.mp hstep
    cases hok
    exact .moves ⟨by simp, rfl, fun _ => rfl⟩ rfl
  | draw ID client g =>
    obtain ⟨⟨n, s1⟩, hdraw, hok⟩ := bind_ok_iff.mp hstep
    unfold Server.draw at hdraw
    dsimp only at hdraw
    split at hdraw
    · cases hdraw
      cases hok
      exact .moves ⟨by simp, rfl, fun _ => rfl⟩ rfl
    · rename_i hnew
      obtain ⟨s2, happ, hdraw⟩ := bind_ok_iff.mp hdraw
      cases hdraw
      cases hok
      obtain ⟨c, hc⟩ := appendNode_object happ
      obtain ⟨s3, hok3, hrel, hnumbers, hfiles, hsent⟩ := appendNode_spec hs hc (candidate ID rand)
      rw [happ] at hok3
      cases hok3
      refine .draws rfl ⟨c, hc⟩ ?_ (hrel.withData _ _ _) ?_ hfiles hsent
      · rw [not_not, List.count_eq_zero] at hnew
        exact hnew
      · show s2.numbers ++ _ = _
        rw [hnumbers]
  | write ID client value =>
    obtain ⟨c, hc, h1⟩ := bind_ok_iff.mp hstep
    obtain ⟨s1, hw, hok⟩ := bind_ok_iff.mp h1
    cases hok
    obtain ⟨hne, rfl⟩ := writeList_ok_spec hs hc hw
    exact .writes ⟨by simp, rfl, fun _ => rfl⟩ rfl ⟨c, hc⟩ hne
  | sleep ID value =>
    cases hstep
    exact .moves ⟨by simp, rfl, fun _ => rfl⟩ rfl
  | sortLookup ID value =>
    obtain ⟨client, -, hok⟩ := bind_ok_iff.mp hstep
    cases hok
    exact .moves ⟨by simp, rfl, fun _ => rfl⟩ rfl
  | sort ID value client =>
    obtain ⟨sorted, hsort, hok⟩ := bind_ok_iff.mp hstep
    obtain ⟨c, hc, -⟩ := bind_ok_iff.mp hsort
    by_cases hlen : (s.listOf client).length < 2
    · rw [sortNodes_short hs hc hlen] at hsort
      cases hsort
      cases hok
      exact .moves ⟨by simp, rfl, fun _ => rfl⟩ rfl
    · obtain ⟨s1, l, hok1, hrel, hperm, -, hnumbers, hfiles, hsent⟩ :=
        sortNodes_spec hs hc (by omega)
      rw [hok1] at hsort
      cases hsort
      cases hok
      exact .sorts ⟨by simp, rfl, fun _ => rfl⟩ rfl ⟨c, hc⟩ hrel hperm hnumbers hfiles hsent
  | sortAgain ID value =>
    obtain ⟨client, -, hok⟩ := bind_ok_iff.mp hstep
    cases hok
    exact .moves ⟨by simp, rfl, fun _ => rfl⟩ rfl
  | sortWrite ID value client =>
    obtain ⟨s1, hsw, hok⟩ := bind_ok_iff.mp hstep
    obtain ⟨c, hc, hw⟩ := bind_ok_iff.mp hsw
    cases hok
    obtain ⟨hne, rfl⟩ := writeList_ok_spec hs hc hw
    exact .writes ⟨by simp, rfl, fun _ => rfl⟩ rfl ⟨c, hc⟩ hne
  | replyLookup ID value =>
    obtain ⟨client, -, hok⟩ := bind_ok_iff.mp hstep
    cases hok
    exact .moves ⟨by simp, rfl, fun _ => rfl⟩ rfl
  | reply value client =>
    obtain ⟨⟨ret, s1⟩, hsend, hok⟩ := bind_ok_iff.mp hstep
    obtain ⟨c, hc, -⟩ := bind_ok_iff.mp hsend
    obtain ⟨ret', hspec⟩ := sendToClient_spec hc (to_string value) r
    rw [hspec] at hsend
    cases hsend
    cases hok
    exact .replies rfl hc
  | returned => exact absurd rfl hret

/-! ## The lists of all clients ever created -/

def Server.allLists (s : Server) : List (List ℤ) := (List.range s.objects.length).map s.listOf

theorem allLists_same {s s' : Server} (h : s.SameLists s')
    (hlen : s'.objects.length = s.objects.length) : s'.allLists = s.allLists := by
  unfold Server.allLists
  rw [hlen]
  exact List.map_congr_left fun o _ => h.listOf o

theorem allLists_new (s : Server) (c : Client) (hc : c.head = none) :
    ({ s with objects := s.objects ++ [c] } : Server).allLists = s.allLists ++ [[]] := by
  have hold : ∀ o < s.objects.length,
      ({ s with objects := s.objects ++ [c] } : Server).listOf o = s.listOf o := by
    intro o ho
    unfold Server.listOf Server.headOf
    rw [List.getElem?_append_left ho]
  have hnew : ({ s with objects := s.objects ++ [c] } : Server).listOf s.objects.length = [] := by
    unfold Server.listOf Server.headOf
    rw [List.getElem?_concat_length, Option.bind_some, hc]
    exact listFrom_none _
  unfold Server.allLists
  rw [List.length_append, List.length_singleton, List.range_succ, List.map_append,
    List.map_singleton, hnew]
  rw [List.map_congr_left fun o ho => hold o (List.mem_range.mp ho)]

theorem allLists_relists {s s' : Server} {o : ClientPtr} {l : List ℤ} (h : s.Relists s' o l) :
    s'.allLists = s.allLists.set o l := by
  unfold Server.allLists
  rw [length_objects_of_fixed h.same]
  refine List.ext_getElem (by simp) fun i hi hi' => ?_
  rw [List.getElem_set]
  by_cases ho : o = i
  · subst ho
    simp [h.listOf]
  · simp [ho, h.listOf_ne (Ne.symm ho)]

theorem allLists_getElem {s : Server} {o : ClientPtr} (ho : o < s.allLists.length) :
    s.allLists[o] = s.listOf o := by
  simp [Server.allLists]

theorem allLists_lt {s : Server} {o : ClientPtr} (h : s.Alive o) : o < s.allLists.length := by
  simpa [Server.allLists] using alive_lt h

/-! ## The ledger of the threads -/

/-- Nothing is closed: a deleted client's nodes stay where they are. -/
def Server.accounts (s : Server) : Ledger ℤ := ⟨s.numbers, s.allLists, []⟩

/-- What was sent are numbers drawn, each sent once; a handler that has drawn a number has not
    sent it yet. -/
structure Sys.RepliesOnce (s : Sys) (ns : List ℤ) : Prop where
  sent : s.server.sent.map Prod.snd = ns.map to_string
  nodup : ns.Nodup
  drawn : ∀ n ∈ ns, n ∈ s.server.numbers
  inHand : ∀ o h, s.receivers o = .handling h → h.drawn = true → h ≠ .returned →
    h.value 0 ∈ s.server.numbers ∧ h.value 0 ∉ ns

structure Sys.Once (s : Sys) : Prop where
  balanced : Balanced InRange s.server.accounts
  replies : ∃ ns, s.RepliesOnce ns

/-- A step that leaves lists, numbers and messages alone and takes no handler on with a number. -/
theorem Sys.Once.keep {s s' : Sys} (hs : s.Once) (hlists : s.server.SameLists s'.server)
    (hlen : s'.server.objects.length = s.server.objects.length)
    (hnumbers : s'.server.numbers = s.server.numbers) (hsent : s'.server.sent = s.server.sent)
    (hhand : ∀ o h, s'.receivers o = .handling h → h.drawn = true → h ≠ .returned →
      s.receivers o = .handling h) : s'.Once := by
  obtain ⟨hbal, ns, hns⟩ := hs
  refine ⟨?_, ns, ?_, hns.nodup, ?_, fun o h ho hd hret => ?_⟩
  · unfold Server.accounts at hbal ⊢
    rw [allLists_same hlists hlen, hnumbers]
    exact hbal
  · rw [hsent]
    exact hns.sent
  · rw [hnumbers]
    exact hns.drawn
  · rw [hnumbers]
    exact hns.inHand o h (hhand o h ho hd hret) hd hret

/-- A step of a receive thread to a place where no number is in hand. -/
theorem Sys.Once.moveReceiver {s : Sys} (hs : s.Once) {o : ClientPtr} {pc : ReceiverPc}
    {server : Server} {mtx : Option Tid} (hlists : s.server.SameLists server)
    (hlen : server.objects.length = s.server.objects.length)
    (hnumbers : server.numbers = s.server.numbers) (hsent : server.sent = s.server.sent)
    (hpc : ∀ h, pc = .handling h → h.drawn = false) :
    Sys.Once { s.setReceiver o pc with server := server, subscribersMtx := mtx } := by
  refine hs.keep hlists hlen hnumbers hsent fun o' h ho' hd hret => ?_
  by_cases ho : o' = o
  · subst ho
    have hpc' : pc = .handling h := (setReceiver_self s o' pc).symm.trans ho'
    rw [hpc h hpc'] at hd
    cases hd
  · exact (setReceiver_ne s ho pc).symm.trans ho'

theorem once_acceptor {s s' : Sys} (hs : s.Once) (h : s.AcceptorEffect s') :
    s'.Once := by
  cases h with
  | accepts fileDescriptor ip _ =>
    obtain ⟨hbal, ns, hns⟩ := hs
    refine ⟨?_, ns, hns.sent, hns.nodup, hns.drawn, fun o h ho hd hret => ?_⟩
    · have hnew := (Ledgers.Step.openAccount (P := InRange) s.server.accounts).balanced hbal
      unfold Server.accounts at hnew ⊢
      rw [allLists_new s.server ⟨fileDescriptor, ip, true, none, false⟩ rfl]
      exact hnew
    · have hne : o ≠ s.server.objects.length := by
        rintro rfl
        cases (setReceiver_self s s.server.objects.length .check).symm.trans ho
      exact hns.inHand o h ((setReceiver_ne s hne .check).symm.trans ho) hd hret
  | locks _ _ => exact hs.keep ⟨rfl, rfl⟩ rfl rfl rfl fun _ _ ho _ _ => ho
  | pushes _ => exact hs.keep ⟨rfl, rfl⟩ rfl rfl rfl fun _ _ ho _ _ => ho
  | counts _ => exact hs.keep ⟨rfl, rfl⟩ rfl rfl rfl fun _ _ ho _ _ => ho
  | unlocks _ => exact hs.keep ⟨rfl, rfl⟩ rfl rfl rfl fun _ _ ho _ _ => ho

theorem once_remover {s s' : Sys} (hs : s.Once) (h : s.RemoverEffect s') : s'.Once := by
  cases h with
  | @deletes i client _ =>
    have hlists : s.server.SameLists (s.server.setObject client _) :=
      sameLists_setObject s.server client (fun c => { c with deleted := true }) fun _ => rfl
    exact hs.keep hlists (by simp [Server.setObject]) rfl rfl fun _ _ ho _ _ => ho
  | _ => exact hs.keep ⟨rfl, rfl⟩ rfl rfl rfl fun _ _ ho _ _ => ho

/-- The handler of `o` takes a step. -/
theorem once_handler {s : Sys} (hinv : s.Inv) (hs : s.Once) {o : ClientPtr} {h h' : HandlerPc}
    {server : Server} {rand : ℕ} (ho : s.receivers o = .handling h) (hret : h ≠ .returned)
    (hdoes : h.Does s.server rand h' server) :
    Sys.Once { s.setReceiver o (.handling h') with server := server } := by
  obtain ⟨hbal, ns, hns⟩ := hs
  have hself : (s.setReceiver o (.handling h')).receivers o = .handling h' :=
    setReceiver_self s o _
  -- No other receive thread is in a handler.
  have honly : ∀ o' h₁, (s.setReceiver o (.handling h')).receivers o' = .handling h₁ →
      o' = o ∧ h₁ = h' := by
    intro o' h₁ ho'
    by_cases heq : o' = o
    · subst heq
      rw [hself] at ho'
      exact ⟨rfl, (ReceiverPc.handling.inj ho').symm⟩
    · rw [setReceiver_ne s heq] at ho'
      have hidle := not_holds_of_handling hinv ho heq
      rw [ho'] at hidle
      cases hidle
  have hkeeps : h.Keeps h' → server.numbers = s.server.numbers → server.sent = s.server.sent →
      Sys.RepliesOnce { s.setReceiver o (.handling h') with server := server } ns := by
    intro hk hnumbers hsent
    refine ⟨?_, hns.nodup, ?_, fun o' h₁ ho' hd hret' => ?_⟩
    · rw [hsent]
      exact hns.sent
    · rw [hnumbers]
      exact hns.drawn
    · obtain ⟨rfl, rfl⟩ := honly o' h₁ ho'
      rw [hnumbers, hk.value]
      exact hns.inHand o' h ho (hk.drawn ▸ hd) hret
  unfold Server.accounts at hbal
  cases hdoes with
  | moves hk _ => exact ⟨hbal, ns, hkeeps hk rfl rfl⟩
  | @draws server ID client g hpc halive hnew hrel hnumbers hfiles hsent =>
    have hlt := allLists_lt halive
    have hrange : InRange (candidate ID rand) :=
      ⟨(candidate_range ID rand).1, (candidate_range ID rand).2.1⟩
    refine ⟨?_, ns, ?_, hns.nodup, fun n hn => ?_, fun o' h₁ ho' hd hret' => ?_⟩
    · have hgive := (Ledgers.Step.give ⟨s.server.numbers, s.server.allLists, []⟩ g
        (candidate ID rand) hlt hrange hnew).balanced hbal
      unfold Server.accounts
      rw [allLists_relists hrel, hnumbers, ← allLists_getElem hlt]
      exact hgive
    · rw [hsent]
      exact hns.sent
    · rw [hnumbers]
      exact List.mem_append_left _ (hns.drawn n hn)
    · obtain ⟨rfl, rfl⟩ := honly o' h₁ ho'
      rw [hnumbers]
      exact ⟨List.mem_append_right _ (List.mem_singleton_self _),
        fun hn => hnew (hns.drawn _ hn)⟩
  | writes hk _ halive hne => exact ⟨hbal, ns, hkeeps hk rfl rfl⟩
  | @sorts h' server client l hk _ halive hrel hperm hnumbers hfiles hsent =>
    have hlt := allLists_lt halive
    refine ⟨?_, ns, hkeeps hk hnumbers hsent⟩
    have hsort := (Ledgers.Step.rearrange (P := InRange)
      ⟨s.server.numbers, s.server.allLists, []⟩ client l hlt
      (by rw [allLists_getElem hlt]; exact hperm)).balanced hbal
    unfold Server.accounts
    rw [allLists_relists hrel, hnumbers]
    exact hsort
  | @replies value client c hpc hc =>
    subst hpc
    obtain ⟨hin, hout⟩ := hns.inHand o _ ho rfl hret
    refine ⟨hbal, ns ++ [value], ?_, ?_, fun n hn => ?_, fun o' h₁ ho' hd hret' => ?_⟩
    · show (s.server.sent ++ [(c.sockfd, to_string value)]).map Prod.snd = _
      rw [List.map_append, List.map_append, hns.sent]
      rfl
    · rw [← List.concat_eq_append]
      exact .concat hout hns.nodup
    · rcases List.mem_append.mp hn with hn | hn
      · exact hns.drawn n hn
      · rw [List.mem_singleton.mp hn]
        exact hin
    · obtain ⟨rfl, rfl⟩ := honly o' h₁ ho'
      exact absurd rfl hret'

theorem once_receiver {s s' : Sys} (hinv : s.Inv) (hs : s.Once) {o : ClientPtr}
    (h : s.ReceiverEffect o s') : s'.Once := by
  have hpc : ∀ {pc : ReceiverPc}, pc.holds = false → ∀ h, pc = .handling h → h.drawn = false := by
    rintro pc hholds h rfl
    cases hholds
  cases h with
  | moves _ hholds => exact hs.moveReceiver ⟨rfl, rfl⟩ rfl rfl rfl (hpc hholds)
  | fails e => exact hs.keep ⟨rfl, rfl⟩ rfl rfl rfl fun _ _ ho _ _ => ho
  | takes _ _ =>
    refine hs.moveReceiver ⟨rfl, rfl⟩ rfl rfl rfl fun h heq => ?_
    cases heq
    rfl
  | handles ho hret hstep =>
    exact once_handler hinv hs ho hret (handlerStep_does hinv.separate hret hstep)
  | returns _ => exact hs.moveReceiver ⟨rfl, rfl⟩ rfl rfl rfl (hpc rfl)
  | disconnects _ =>
    have hlists : s.server.SameLists (s.server.setObject o _) :=
      sameLists_setObject s.server o (fun c => { c with isConnected := false }) fun _ => rfl
    exact hs.moveReceiver hlists (by simp [Server.setObject]) rfl rfl (hpc rfl)
  | notifies _ _ =>
    refine hs.moveReceiver ⟨rfl, rfl⟩ rfl rfl rfl fun h heq => ?_
    cases heq
  | notified _ => exact hs.moveReceiver ⟨rfl, rfl⟩ rfl rfl rfl (hpc rfl)
  | counts _ => exact hs.moveReceiver ⟨rfl, rfl⟩ rfl rfl rfl (hpc rfl)

theorem once_step {s s' : Sys} (hinv : s.Inv) (hs : s.Once) {a : Act} (h : s.Step a s') :
    s'.Once := by
  cases a with
  | acceptor fileDescriptor ip => exact once_acceptor hs (acceptor_step h)
  | remover closeRet => exact once_remover hs (remover_step h)
  | receiver o event rand r => exact once_receiver hinv hs (receiver_step_effect h)

theorem once_init (sockfd : ℤ) : (Sys.init sockfd).Once :=
  ⟨Ledgers.balanced_empty InRange, [], rfl, List.nodup_nil, fun _ hn => absurd hn List.not_mem_nil,
    fun _ _ ho => by cases ho⟩

theorem sys_reachable_once {s : Sys} (h : s.Reachable) : s.Once := by
  obtain ⟨sockfd, acts, hrun⟩ := h
  refine (hrun.invariant (I := fun s => s.Inv ∧ s.Once) (fun s a s' hs hstep => ?_)
    ⟨sys_init_inv sockfd, once_init sockfd⟩).2
  exact ⟨sys_step_inv hs.1 hstep, once_step hs.1 hs.2 hstep⟩

/-- One client connects, asks for "0", and is given 6. -/
theorem served_once :
    ∃ s : Sys, s.Reachable ∧ s.server.numbers = [6] ∧ s.server.allLists = [[6]] ∧
      s.server.sent = [(4, to_string 6)] := by
  have run : ∃ s : Sys, Run Sys.Step (.init 3)
      [.acceptor 4 "10.0.0.1", .acceptor 0 "", .acceptor 0 "", .acceptor 0 "", .acceptor 0 "",
        .receiver 0 .timeout 0 ⟨0, ""⟩, .receiver 0 (.message (bytes "0")) 0 ⟨0, ""⟩,
        .receiver 0 .timeout 0 ⟨0, ""⟩, .receiver 0 .timeout 0 ⟨0, ""⟩,
        .receiver 0 .timeout 0 ⟨0, ""⟩, .receiver 0 .timeout 0 ⟨0, ""⟩,
        .receiver 0 .timeout 3 ⟨0, ""⟩, .receiver 0 .timeout 0 ⟨0, ""⟩,
        .receiver 0 .timeout 0 ⟨0, ""⟩, .receiver 0 .timeout 0 ⟨0, ""⟩,
        .receiver 0 .timeout 0 ⟨0, ""⟩, .receiver 0 .timeout 0 ⟨0, ""⟩,
        .receiver 0 .timeout 0 ⟨1, ""⟩] s ∧
      s.server.numbers = [6] ∧ s.server.allLists = [[6]] ∧
      s.server.sent = [(4, to_string 6)] :=
    ⟨_, .cons rfl (.cons rfl (.cons rfl (.cons rfl (.cons rfl (.cons rfl (.cons rfl (.cons rfl
      (.cons rfl (.cons rfl (.cons rfl (.cons rfl (.cons rfl (.cons rfl (.cons rfl (.cons rfl
      (.cons rfl (.cons rfl (.nil _)))))))))))))))))), rfl, rfl, rfl⟩
  obtain ⟨s, hrun, hdata⟩ := run
  exact ⟨s, ⟨3, _, hrun⟩, hdata⟩

/-- Whatever the threads do, the numbers drawn are different numbers of 0..99, and each is in
    the list of exactly one client ever created, once. -/
theorem threads_numbers_held {s : Sys} (h : s.Reachable) :
    s.server.numbers.Nodup ∧ (∀ n ∈ s.server.numbers, 0 ≤ n ∧ n ≤ 99) ∧
      s.server.numbers.Perm s.server.allLists.flatten ∧ s.server.allLists.flatten.Nodup := by
  obtain ⟨hnd, hall, hperm⟩ := (sys_reachable_once h).balanced
  have hperm' : s.server.numbers.Perm s.server.allLists.flatten := by
    simpa [Ledger.total, Server.accounts] using hperm
  exact ⟨hnd, hall, hperm', hperm'.nodup_iff.mp hnd⟩

theorem threads_numbers_held_six :
    ∃ s : Sys, s.server.numbers = [6] ∧ s.server.numbers.Perm s.server.allLists.flatten := by
  obtain ⟨s, hs, hnumbers, -⟩ := served_once
  exact ⟨s, hnumbers, (threads_numbers_held hs).2.2.1⟩

/-- Whatever the threads do, every reply is the text of a number drawn, and no two replies, to
    whichever clients, carry the same number. -/
theorem threads_replies_distinct {s : Sys} (h : s.Reachable) :
    (∃ ns : List ℤ, s.server.sent.map Prod.snd = ns.map to_string ∧ ns.Subperm s.server.numbers) ∧
      (s.server.sent.map Prod.snd).Nodup := by
  obtain ⟨hbal, ns, hns⟩ := sys_reachable_once h
  refine ⟨⟨ns, hns.sent, hns.nodup.subperm hns.drawn⟩, ?_⟩
  rw [hns.sent]
  refine hns.nodup.map_on fun m hm n hn heq => ?_
  exact to_string_injective (hbal.all m (hns.drawn m hm)).1 (hbal.all n (hns.drawn n hn)).1 heq

theorem threads_replies_distinct_six :
    ∃ s : Sys, s.server.sent = [(4, to_string 6)] ∧ (s.server.sent.map Prod.snd).Nodup := by
  obtain ⟨s, hs, -, -, hsent⟩ := served_once
  exact ⟨s, hsent, (threads_replies_distinct hs).2⟩

end TCPServer
