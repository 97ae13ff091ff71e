/-
  The threads reach, when none of them is in the middle of an operation, what the operations
  reach one after another.

  `Sys.Outcome` says what a step of a thread is for the settled server: nothing, an operation of
  another thread that completes, a step of the handler, its reply, its end (`step_outcome`).
  `represents_outcome` answers each of them by operations: a handler that runs is carried along
  from where it started, and the operations of others that come in between are taken first.

  `threads_linearizable` puts the steps together.
-/
import TCPServer.Threads.Atomic

namespace TCPServer

open Census Runs

/-! ## What a step is for the settled server -/

inductive Sys.Outcome (s s' : Sys) : Prop
  /-- Inside an operation. -/
  | inside : s'.handler = s.handler → s'.settled = s.settled → s.Outcome s'
  /-- An operation of another thread takes effect. -/
  | completes (op : AtomicOp) (e : Edit) : s'.handler = s.handler →
      s'.settled = s.settled.edit e →
      (∀ t, s.settled.SameClients t → t.Atomic op (t.edit e)) →
      (∀ h ID, s.handler = some h → h.index = some ID → e.Spares ID s.settled.clients) →
      s.Outcome s'
  | starts {msg : Bytes} : s.handler = none → s'.handler = some (.parse msg) →
      s'.settled = s.settled → s.Outcome s'
  | works {h h' : HandlerPc} (rand : ℕ) (r : SendResult) : s.handler = some h →
      s'.handler = some h' → h.replied = false → h'.replied = false →
      h.step s.settled rand r = .ok (h', s'.settled) → s.Outcome s'
  /-- The handler has its reply in hand. -/
  | replies {h : HandlerPc} {value : ℤ} {client : ClientPtr} {rand : ℕ} {r : SendResult} :
      s.handler = some h → s'.handler = some (.reply value client) → h.replied = false →
      h.step s.settled rand r = .ok (.reply value client, s.settled) →
      (HandlerPc.reply value client).step s.settled rand r = .ok (.returned, s'.settled) →
      s.Outcome s'
  | ends {h : HandlerPc} : s.handler = some h → h.replied = true →
      (∀ h', s'.handler = some h' → h'.replied = true) → s'.settled = s.settled → s.Outcome s'

theorem settled_object {s : Sys} {o : ClientPtr} {c : Client} (hc : s.server.object o = .ok c) :
    ∃ c', s.settled.object o = .ok c' ∧ c'.sockfd = c.sockfd ∧
      c'.isConnected = c.isConnected := by
  obtain ⟨hget, hdel⟩ := object_ok_iff.mp hc
  obtain ⟨c', hc', -, hfd, hconn, hdel'⟩ := undelete_getElem? (s := s) hget
  exact ⟨c', object_ok_iff.mpr ⟨hc', hdel' hdel⟩, hfd, hconn⟩

/-! ## The accepting thread -/

theorem length_undelete (s : Sys) (objs : List Client) :
    (s.undelete objs).length = objs.length := by
  unfold Sys.undelete
  cases s.deletedClient with
  | none => rfl
  | some o => exact List.length_modify _ _ _

theorem deleted_lt {s : Sys} (hs : s.Inv) {o : ClientPtr} (ho : s.deletedClient = some o) :
    o < s.server.objects.length := by
  unfold Sys.deletedClient at ho
  split at ho
  · exact hs.lt o (List.mem_of_getElem? ho)
  · cases ho

/-- A new object leaves the removal that is under way alone. -/
theorem undelete_append {s : Sys} (hs : s.Inv) (objs : List Client) :
    s.undelete (s.server.objects ++ objs) = s.undelete s.server.objects ++ objs := by
  unfold Sys.undelete
  cases ho : s.deletedClient with
  | none => rfl
  | some o => exact modify_append_of_lt (deleted_lt hs ho) _ _

theorem outcome_acceptor {s s' : Sys} (hs : s.Inv) (hflags : s.Flags) (hhands : s.HandsExist)
    (h : s.AcceptorEffect s') : s.Outcome s' := by
  cases h with
  | accepts fileDescriptor ip hpc =>
    have hnew : (s.receivers s.server.objects.length).holds = false := by
      rw [hs.notStarted _ (le_refl _)]
      rfl
    have hhandler : Sys.handler { s.setReceiver s.server.objects.length .check with
        server := { s.server with
          objects := s.server.objects ++ [⟨fileDescriptor, ip, true, none, false⟩] }
        acceptor := .started s.server.objects.length } = s.handler :=
      handler_setReceiver hs hnew .check s.server
    have hlen : s.settled.objects.length = s.server.objects.length :=
      length_undelete s s.server.objects
    refine .completes (.acceptClient fileDescriptor ip)
      (.add s.settled.objects.length fileDescriptor ip) hhandler ?_ (fun t ht => ?_)
      fun h ID _ _ => add_spares _ _ _ ID _
    · rw [hlen]
      refine settled_edit ⟨_, _, _, _, rfl⟩ (reply_congr hs hhands hhandler ?_) ?_ ?_ ?_ rfl
      · exact fun o c hc => ⟨c, getElem?_append_of_some hc _, rfl⟩
      · exact undelete_append hs _
      · rw [hpc]
        exact congrArg (· ++ [_]) (List.append_nil _).symm
      · rw [hpc, leaving_start (s := s) rfl (by simp)]
        show s.server.numClientsConnected + 1 - (s.leaving : ℤ) =
          s.server.numClientsConnected + 0 - (s.leaving : ℤ) + 1
        omega
    · rw [← length_objects_of_fixed ht, ← addClient_eq_edit]
      exact .acceptClient fileDescriptor ip
  | locks hpc _ =>
    refine .inside rfl (settled_edit (e := .skip) ⟨_, _, _, _, rfl⟩ rfl rfl ?_ ?_ rfl)
    · rw [hpc]
      rfl
    · rw [hpc]
      rfl
  | @pushes newClient hpc =>
    have hdel : Sys.deletedClient { s with
        server := { s.server with clients := s.server.clients ++ [newClient] }
        acceptor := .counting } = s.deletedClient := by
      unfold Sys.deletedClient
      cases hrem : s.remover with
      | erasing i => exact List.getElem?_append_left (hflags.erasing i hrem)
      | _ => rfl
    refine .inside rfl (settled_edit (e := .skip) ⟨_, _, _, _, rfl⟩ rfl ?_ ?_ ?_ rfl)
    · unfold Sys.undelete
      rw [hdel]
      rfl
    · rw [hpc]
      exact List.append_nil _
    · rw [hpc]
      rfl
  | counts hpc =>
    refine .inside rfl (settled_edit (e := .skip) ⟨_, _, _, _, rfl⟩ rfl rfl ?_ ?_ rfl)
    · rw [hpc]
      rfl
    · rw [hpc]
      show s.server.numClientsConnected + 1 + 0 - (s.leaving : ℤ) =
        s.server.numClientsConnected + 1 - (s.leaving : ℤ)
      omega
  | unlocks hpc =>
    refine .inside rfl (settled_edit (e := .skip) ⟨_, _, _, _, rfl⟩ rfl rfl ?_ ?_ rfl)
    · rw [hpc]
      rfl
    · rw [hpc]
      rfl

/-! ## The remover thread -/

/-- The remover goes on, before it has deleted a client. -/
theorem outcome_moveRemover {s : Sys} {pc : RemoverPc} {mtx : Option Tid}
    (hold : ∀ i, s.remover ≠ .erasing i) (hnew : ∀ i, pc ≠ .erasing i)
    (hclosed : pc.closed = s.remover.closed) :
    s.Outcome { s with remover := pc, clientsMtx := mtx } := by
  have hnone : ∀ t : Sys, (∀ i, t.remover ≠ .erasing i) → t.undelete = id := by
    intro t ht
    have hdel : t.deletedClient = none := by
      unfold Sys.deletedClient
      split
      · rename_i i hi
        exact absurd hi (ht i)
      · rfl
    unfold Sys.undelete
    rw [hdel]
    rfl
  refine .inside rfl (settled_edit (e := .skip) ⟨_, _, _, _, rfl⟩ rfl ?_ rfl rfl ?_)
  · rw [hnone _ hnew, hnone _ hold]
    rfl
  · show (if pc.closed then _ else _) = _
    rw [hclosed]
    rfl

/-- Undoing the deletion gives the objects as they were. -/
theorem modify_undelete {objs : List Client} {o : ClientPtr} {c : Client} (hc : objs[o]? = some c)
    (hdel : c.deleted = false) :
    (objs.modify o fun c => { c with deleted := true }).modify o
      (fun c => { c with deleted := false }) = objs := by
  refine List.ext_getElem? fun k => ?_
  rw [List.modify_modify_eq, List.getElem?_modify]
  by_cases hk : o = k
  · subst hk
    rw [hc]
    simp [← hdel]
  · simp [hk]

theorem modify_redelete {objs : List Client} {o : ClientPtr} {c : Client} (hc : objs[o]? = some c)
    (hdel : c.deleted = true) :
    (objs.modify o fun c => { c with deleted := false }).modify o
      (fun c => { c with deleted := true }) = objs := by
  refine List.ext_getElem? fun k => ?_
  rw [List.modify_modify_eq, List.getElem?_modify]
  by_cases hk : o = k
  · subst hk
    rw [hc]
    simp [← hdel]
  · simp [hk]

theorem settled_nodup {s : Sys} (hs : s.Inv) : s.settled.clients.Nodup := by
  show (s.server.clients ++ s.acceptor.newClient.toList).Nodup
  cases hnew : s.acceptor.newClient with
  | none =>
    rw [Option.toList_none, List.append_nil]
    exact hs.nodup
  | some o =>
    rw [Option.toList_some, ← List.concat_eq_append]
    exact .concat (hs.unlisted o hnew).2 hs.nodup

theorem outcome_remover {s s' : Sys} (hs : s.Inv) (hflags : s.Flags) (hhands : s.HandsExist)
    (hsteady : s.AllSteady) (h : s.RemoverMove s') : s.Outcome s' := by
  cases h with
  | @idles pc hold hnew _ =>
    refine outcome_moveRemover (fun i hi => ?_) (fun i hi => ?_) ?_
    · rw [hi] at hold
      cases hold
    · rw [hi] at hnew
      cases hnew
    · cases hrem : s.remover <;> rw [hrem] at hold <;> cases pc <;>
        first | rfl | (cases hold; done) | cases hnew
  | fails e => exact .inside rfl rfl
  | finds hpc _ _ _ =>
    exact outcome_moveRemover (by simp [hpc]) (by simp) (by rw [hpc]; rfl)
  | locks hpc _ => exact outcome_moveRemover (by simp [hpc]) (by simp) (by rw [hpc]; rfl)
  | unlocks hpc => exact outcome_moveRemover (by simp [hpc]) (by simp) (by rw [hpc]; rfl)
  | joins hpc _ => exact outcome_moveRemover (by simp [hpc]) (by simp) (by rw [hpc]; rfl)
  | @closes i client c hpc _ =>
    have hnone : s.undelete = id := by
      unfold Sys.undelete Sys.deletedClient
      rw [hpc]
      rfl
    refine .inside rfl (settled_edit (e := .skip) ⟨_, _, _, _, rfl⟩ rfl ?_ rfl rfl ?_)
    · rw [hnone]
      rfl
    · rw [hpc]
      exact List.dropLast_concat
  | @deletes i client hpc =>
    have htarget := hs.target i client (by rw [hpc]; rfl)
    obtain ⟨c, hc⟩ := (hs.alive i client htarget).resolve_right (by simp [hpc])
    obtain ⟨hget, hdel⟩ := object_ok_iff.mp hc
    have hold : s.deletedClient = none := by
      unfold Sys.deletedClient
      rw [hpc]
    refine .inside rfl (settled_edit (e := .skip) ⟨_, _, _, _, rfl⟩
      (reply_congr hs hhands rfl (fds_setObject _ client _ fun _ => rfl)) ?_ rfl ?_ ?_)
    · have hnew : Sys.deletedClient { s with
          server := s.server.setObject client fun c => { c with deleted := true }
          remover := .erasing i } = some client :=
        htarget
      unfold Sys.undelete
      rw [hnew, hold]
      exact modify_undelete hget hdel
    · have hleaving : Sys.leaving { s with
          server := s.server.setObject client fun c => { c with deleted := true }
          remover := .erasing i } = s.leaving := by
        unfold Sys.leaving
        exact congrArg (census _ _) (List.length_modify _ _ _)
      rw [hleaving]
      rfl
    · rw [hpc]
      rfl
  | @erases i hpc =>
    have hlt := hflags.erasing i hpc
    have hget : s.server.clients[i]? = some s.server.clients[i] := List.getElem?_eq_getElem hlt
    set client := s.server.clients[i]
    have hdeleted : s.deletedClient = some client := by
      unfold Sys.deletedClient
      rw [hpc]
      exact hget
    obtain ⟨c, hc, hconn, hfds, hdel⟩ := hflags.victim client (by
      unfold Sys.victim
      rw [hpc]
      exact hget)
    obtain ⟨fds, hfds⟩ := hfds (by rw [hpc]; rfl)
    have hundelete : s.undelete s.server.objects =
        s.server.objects.modify client fun c => { c with deleted := false } := by
      unfold Sys.undelete
      rw [hdeleted]
    have hclients : s.settled.clients[i]? = some client := getElem?_append_of_some hget _
    have hobject : s.settled.object client = .ok { c with deleted := false } := by
      refine object_ok_iff.mpr ⟨?_, rfl⟩
      show (s.undelete s.server.objects)[client]? = _
      rw [hundelete, List.getElem?_modify_eq, hc]
      rfl
    refine .completes .remove (.erase i client c.sockfd) rfl
      (settled_edit ⟨_, _, _, _, rfl⟩ rfl ?_ ?_ rfl ?_) (fun t ht => ?_) fun h ID hh hidx => ?_
    · rw [hundelete]
      exact (modify_redelete hc (hdel hdeleted)).symm
    · exact (List.eraseIdx_append_of_lt_length hlt _).symm
    · rw [hpc]
      show s.server.closed = s.server.closed.dropLast ++ [c.sockfd]
      rw [hfds, List.dropLast_concat]
    · obtain ⟨c', hc', hfix⟩ := ht.object hobject
      refine .remove ⟨i, client, c', ?_, hc', ?_, ?_⟩
      · rw [ht.clients, hclients]
      · rw [Client.isConnected_of_fixed hfix, hconn]
      · rw [Client.sockfd_of_fixed hfix, erase_eq_edit]
    · exact erase_spares c.sockfd (settled_nodup hs) hclients ((hsteady h hh i hpc).1 ID hidx)

/-! ## The receive threads -/

/-- The reply comes in hand by its lookup, and by no other step. -/
theorem replied_step {s s' : Server} {h h' : HandlerPc} {rand : ℕ} {r : SendResult}
    (hstep : h.step s rand r = .ok (h', s')) (hold : h.replied = false)
    (hnew : h'.replied = true) :
    ∃ ID value client, h = .replyLookup ID value ∧ h' = .reply value client ∧
      s.at ID = .ok client ∧ s' = s := by
  cases h with
  | replyLookup ID value =>
    obtain ⟨client, hat, hok⟩ := bind_ok_iff.mp hstep
    cases hok
    exact ⟨ID, value, client, rfl, rfl, hat, rfl⟩
  | draw ID client g =>
    obtain ⟨⟨n, s1⟩, -, hok⟩ := bind_ok_iff.mp hstep
    cases n <;> cases hok <;> cases hnew
  | write ID client value =>
    obtain ⟨c, -, h1⟩ := bind_ok_iff.mp hstep
    obtain ⟨s1, -, hok⟩ := bind_ok_iff.mp h1
    cases hok
    cases hnew
  | sleep ID value =>
    cases hstep
    cases hnew
  | sort ID value client =>
    obtain ⟨sorted, -, hok⟩ := bind_ok_iff.mp hstep
    cases sorted <;> cases hok <;> cases hnew
  | reply value client => cases hold
  | returned => cases hold
  | _ =>
    obtain ⟨x, -, hok⟩ := bind_ok_iff.mp hstep
    cases hok
    cases hnew

/-- The thread goes on and the server does not change. -/
theorem settled_moveReceiver {s : Sys} (hs : s.Inv) {o : ClientPtr} {pc : ReceiverPc}
    {mtx : Option Tid} (hstarted : s.receivers o ≠ .notStarted)
    (hleaving : pc.leaving = (s.receivers o).leaving)
    (hreply : Sys.reply { s.setReceiver o pc with subscribersMtx := mtx } = s.reply) :
    Sys.settled { s.setReceiver o pc with subscribersMtx := mtx } = s.settled := by
  refine settled_edit (e := .skip) ⟨_, _, _, _, rfl⟩ hreply rfl rfl ?_ rfl
  have hcount := leaving_setReceiver hs hstarted
    { s.setReceiver o pc with subscribersMtx := mtx } rfl rfl
  rw [hleaving, Nat.add_right_cancel_iff] at hcount
  rw [hcount]
  rfl

theorem undelete_congr {s s' : Sys} (hremover : s'.remover = s.remover)
    (hclients : s'.server.clients = s.server.clients) : s'.undelete = s.undelete := by
  funext objs
  unfold Sys.undelete Sys.deletedClient
  rw [hremover, hclients]

/-- The handler changes nothing of what completing depends on. -/
theorem completion_handles {s s' : Sys} (hs : s.Inv) {o : ClientPtr} {h h' : HandlerPc}
    (hpc : s.receivers o = .handling h)
    (hreceivers : s'.receivers = Function.update s.receivers o (.handling h'))
    (hremover : s'.remover = s.remover) (hacceptor : s'.acceptor = s.acceptor)
    (hsame : s.server.SameClients s'.server) : s'.completion = s.completion := by
  have hcount := leaving_setReceiver hs (by simp [hpc]) s' hreceivers
    (length_objects_of_fixed hsame)
  rw [hpc] at hcount
  have hleaving : s'.leaving = s.leaving := hcount
  unfold Sys.completion
  rw [hleaving, undelete_congr hremover hsame.clients, hacceptor, hremover]

/-- A client that is looked up while no removal is at its index exists. -/
theorem alive_of_steady {s : Sys} (hs : s.Inv) {h : HandlerPc} (hsteady : s.Steady h) {ID : CInt}
    {client : ClientPtr} (hidx : h.index = some ID) (hat : s.server.at ID = .ok client) :
    s.server.Alive client := by
  obtain ⟨h0, hget⟩ := at_ok_iff.mp hat
  refine (hs.alive _ client hget).resolve_right fun hpc => ?_
  have hlt := (hsteady _ hpc).1 ID hidx
  omega

theorem outcome_handles {s : Sys} (hs : s.Inv) (hsteady : s.AllSteady) {o : ClientPtr}
    {h h' : HandlerPc} {server : Server} {rand : ℕ} {r : SendResult}
    (hpc : s.receivers o = .handling h) (hret : h ≠ .returned)
    (hstep : h.step s.server rand r = .ok (h', server)) :
    s.Outcome { s.setReceiver o (.handling h') with server := server } := by
  obtain ⟨o', l, hrel⟩ := handlerStep_relists hs.separate hret hstep
  have hold : s.handler = some h := (handler_some_iff hs).mpr ⟨o, hpc⟩
  have hnew := handler_handling hs h h' hpc server
  set s' : Sys := { s.setReceiver o (.handling h') with server := server }
  have hcompletion : s'.completion = s.completion :=
    completion_handles hs hpc rfl rfl rfl hrel.same
  have hnotReply : h.replied = false → s.settled = s.server.edit s.completion := fun hrep =>
    settled_of_not_reply fun value client heq => by
      cases hold.symm.trans heq
      cases hrep
  have hlift : h.replied = false →
      h.step s.settled rand r = .ok (h', server.edit s.completion) := by
    intro hrep
    rw [hnotReply hrep]
    refine handlerStep_edit (fun ID p _ hat => ?_) (fun p _ => completion_leaves s p) hstep
    obtain ⟨h0, hget⟩ := at_ok_iff.mp hat
    exact at_ok_iff.mpr ⟨h0, getElem?_append_of_some hget _⟩
  by_cases hrep : h.replied = false
  · by_cases hrep' : h'.replied = false
    · have hsettled : s'.settled = server.edit s.completion := by
        rw [← hcompletion]
        refine settled_of_not_reply fun value client heq => ?_
        cases hnew.symm.trans heq
        cases hrep'
      refine .works rand r hold hnew hrep hrep' ?_
      rw [hsettled]
      exact hlift hrep
    · rw [Bool.not_eq_false] at hrep'
      obtain ⟨ID, value, client, rfl, rfl, hat, rfl⟩ := replied_step hstep hrep hrep'
      have hsteps := hlift hrep
      rw [← hnotReply hrep] at hsteps
      obtain ⟨c, hc⟩ := alive_of_steady hs (hsteady _ hold) rfl hat
      obtain ⟨c', hc', hfd, -⟩ := settled_object hc
      refine .replies hold hnew hrep hsteps ?_
      obtain ⟨ret, hsend⟩ := sendToClient_spec hc' (to_string value) r
      rw [HandlerPc.step, hsend, ok_bind]
      refine congrArg (fun s => Except.ok (HandlerPc.returned, s)) ?_
      have hreply : s'.reply = [(c.sockfd, to_string value)] := by
        unfold Sys.reply
        rw [hnew]
        dsimp only
        rw [show s'.server.objects[client]? = some c from (object_ok_iff.mp hc).1]
      rw [hnotReply hrep, hfd]
      unfold Sys.settled
      rw [hreply, hcompletion]
      rfl
  · rw [Bool.not_eq_false] at hrep
    cases h with
    | reply value client =>
      obtain ⟨⟨ret, s1⟩, hsend, hok⟩ := bind_ok_iff.mp hstep
      cases hok
      obtain ⟨c, hc, -⟩ := bind_ok_iff.mp hsend
      obtain ⟨ret', hspec⟩ := sendToClient_spec hc (to_string value) r
      rw [hspec] at hsend
      cases hsend
      refine .ends hold rfl (fun h₁ heq => ?_) ?_
      · cases hnew.symm.trans heq
        rfl
      · have hreply : s.reply = [(c.sockfd, to_string value)] := by
          unfold Sys.reply
          rw [hold]
          simp only [(object_ok_iff.mp hc).1]
        have hreply' : s'.reply = [] := reply_nil hnew (by simp)
        unfold Sys.settled
        rw [hreply, hreply', hcompletion, List.append_nil]
    | returned => exact absurd rfl hret
    | _ => cases hrep

theorem outcome_receiver {s s' : Sys} (hs : s.Inv) (hflags : s.Flags) (hhands : s.HandsExist)
    (hsteady : s.AllSteady) {o : ClientPtr} (h : s.ReceiverMove o s') : s.Outcome s' := by
  cases h with
  | @idles pc hbetween hpc hleaving _ =>
    have hhandler := handler_setReceiver hs (holds_of_between hbetween) pc s.server
    have hsettled : Sys.settled { s.setReceiver o pc with subscribersMtx := s.subscribersMtx } =
        s.settled := by
      refine settled_moveReceiver hs (fun h => ?_) ?_
        (reply_congr hs hhands hhandler fun _ c hc => ⟨c, hc, rfl⟩)
      · rw [h] at hbetween
        cases hbetween
      · rw [hleaving, leaving_of_between hbetween]
    exact .inside hhandler hsettled
  | fails e => exact .inside rfl rfl
  | @takes msg hpc hfree =>
    have hold := handler_none_of_free hfree
    have hnew : Sys.handler { s.setReceiver o (.handling (.parse msg)) with
        subscribersMtx := some (.receiver o) } = some (.parse msg) := by
      unfold Sys.handler
      dsimp only
      rw [setReceiver_self]
    refine .starts hold hnew (settled_moveReceiver hs (by simp [hpc]) (by rw [hpc]; rfl) ?_)
    rw [reply_nil hold (by simp), reply_nil hnew (by simp)]
  | handles hpc hret hstep => exact outcome_handles hs hsteady hpc hret hstep
  | returns hpc =>
    have hold : s.handler = some .returned := (handler_some_iff hs).mpr ⟨o, hpc⟩
    have hnew : Sys.handler { s.setReceiver o .check with subscribersMtx := none } = none :=
      handler_none_of_free rfl
    refine .ends hold rfl (by simp [hnew])
      (settled_moveReceiver hs (by simp [hpc]) (by rw [hpc]; rfl) ?_)
    rw [reply_nil hold (by simp), reply_nil hnew (by simp)]
  | disconnects hpc =>
    have hidle : (s.receivers o).holds = false := by rw [hpc]; rfl
    have hhandler := handler_setReceiver hs hidle .publishDisconnected
      (s.server.setObject o fun c => { c with isConnected := false })
    obtain ⟨c, hc⟩ := alive_of_running hs (o := o) (by simp [hpc]) (by simp [hpc])
    have hconn := hflags.active o c (by rw [hpc]; rfl) (object_ok_iff.mp hc).1
    obtain ⟨c₁, hc₁, -, hconn₁⟩ := settled_object hc
    refine .completes (.disconnect o) (.clear o) hhandler
      (settled_edit ⟨_, _, _, _, rfl⟩ (reply_congr hs hhands hhandler
        (fds_setObject _ o _ fun _ => rfl)) ?_ rfl ?_ rfl) (fun t ht => ?_)
      fun h ID _ _ => clear_spares o ID _
    · show s.undelete (s.server.objects.modify o _) = (s.undelete s.server.objects).modify o _
      unfold Sys.undelete
      cases s.deletedClient with
      | none => rfl
      | some d => exact modify_comm _ _ _ _ _ fun _ _ => rfl
    · have hcount : Sys.leaving { s.setReceiver o .publishDisconnected with
          server := s.server.setObject o fun c => { c with isConnected := false } } =
          s.leaving + 1 := by
        have h := leaving_setReceiver hs (o := o) (by simp [hpc])
          { s.setReceiver o .publishDisconnected with
            server := s.server.setObject o fun c => { c with isConnected := false } }
          rfl (List.length_modify _ _ _)
        rw [hpc] at h
        exact h
      rw [hcount, Nat.cast_add, ← sub_sub]
      rfl
    · obtain ⟨c₂, hc₂, hfix⟩ := ht.object hc₁
      rw [← disconnect_eq_edit hc₂ ((Client.isConnected_of_fixed hfix).trans
        (hconn₁.trans hconn))]
      exact .disconnect o
  | notifies hpc hfree =>
    have hold := handler_none_of_free hfree
    have hnew : Sys.handler { s.setReceiver o .notifying with
        subscribersMtx := some (.receiver o) } = none := by
      unfold Sys.handler
      dsimp only
      rw [setReceiver_self]
    refine .inside (hnew.trans hold.symm)
      (settled_moveReceiver hs (by simp [hpc]) (by rw [hpc]; rfl) ?_)
    rw [reply_nil hold (by simp), reply_nil hnew (by simp)]
  | notified hpc =>
    have hmtx := (hs.holder o).mp (by rw [hpc]; rfl)
    have hold : s.handler = none := by
      unfold Sys.handler
      rw [hmtx]
      dsimp only
      rw [hpc]
    have hnew : Sys.handler { s.setReceiver o .decrement with subscribersMtx := none } = none :=
      handler_none_of_free rfl
    refine .inside (hnew.trans hold.symm)
      (settled_moveReceiver hs (by simp [hpc]) (by rw [hpc]; rfl) ?_)
    rw [reply_nil hold (by simp), reply_nil hnew (by simp)]
  | counts hpc =>
    have hidle : (s.receivers o).holds = false := by rw [hpc]; rfl
    have hhandler := handler_setReceiver hs hidle .finished
      { s.server with numClientsConnected := s.server.numClientsConnected - 1 }
    refine .inside hhandler (settled_edit (e := .skip) ⟨_, _, _, _, rfl⟩
      (reply_congr hs hhands hhandler fun _ c hc => ⟨c, hc, rfl⟩) rfl rfl ?_ rfl)
    have hcount : Sys.leaving { s.setReceiver o .finished with
        server := { s.server with numClientsConnected := s.server.numClientsConnected - 1 } } + 1 =
        s.leaving := by
      have h := leaving_setReceiver hs (o := o) (by simp [hpc])
        { s.setReceiver o .finished with
          server := { s.server with numClientsConnected := s.server.numClientsConnected - 1 } }
        rfl rfl
      rw [hpc] at h
      exact h
    show s.server.numClientsConnected - 1 + (s.acceptor.pending.toNat : ℤ) - (Sys.leaving _ : ℤ) =
      s.server.numClientsConnected + (s.acceptor.pending.toNat : ℤ) - (s.leaving : ℤ)
    rw [← hcount]
    push_cast
    omega

theorem step_outcome {s s' : Sys} (hs : s.Inv) (hflags : s.Flags) (hhands : s.HandsExist)
    (hsteady : s.AllSteady) {a : Act} (h : s.Step a s') : s.Outcome s' := by
  cases a with
  | acceptor fileDescriptor ip => exact outcome_acceptor hs hflags hhands (acceptor_step h)
  | remover closeRet => exact outcome_remover hs hflags hhands hsteady (remover_move h)
  | receiver o event rand r =>
    exact outcome_receiver hs hflags hhands hsteady (receiver_move h)

/-! ## The handler that is carried along -/

theorem handlerRun_same {x x' : HandlerPc × Server} {ls : List (ℕ × SendResult)}
    (hrun : Run HandlerStep x ls x') (hx : x.2.Separate) :
    x.2.SameClients x'.2 ∧ x'.2.Separate := by
  refine hrun.invariant (I := fun y => x.2.SameClients y.2 ∧ y.2.Separate) ?_ ⟨.refl _, hx⟩
  intro y l y' hy hstep
  obtain ⟨o, list, hrel⟩ := handlerStep_relists hy.2 hstep.1 hstep.2
  exact ⟨hy.1.trans hrel.same, hrel.separate⟩

/-- After a step, a handler without its reply has its index. -/
theorem handlerStep_index {s s' : Server} {h h' : HandlerPc} {rand : ℕ} {r : SendResult}
    (hstep : h.step s rand r = .ok (h', s')) (hrep : h'.replied = false) :
    ∃ ID, h'.index = some ID := by
  cases h with
  | draw ID client g =>
    obtain ⟨⟨n, s1⟩, -, hok⟩ := bind_ok_iff.mp hstep
    cases n <;> cases hok <;> exact ⟨ID, rfl⟩
  | write ID client value =>
    obtain ⟨c, -, h1⟩ := bind_ok_iff.mp hstep
    obtain ⟨s1, -, hok⟩ := bind_ok_iff.mp h1
    cases hok
    exact ⟨ID, rfl⟩
  | sleep ID value =>
    cases hstep
    exact ⟨ID, rfl⟩
  | sort ID value client =>
    obtain ⟨sorted, -, hok⟩ := bind_ok_iff.mp hstep
    cases sorted <;> cases hok <;> exact ⟨ID, rfl⟩
  | returned =>
    cases hstep
    cases hrep
  | _ =>
    obtain ⟨x, -, hok⟩ := bind_ok_iff.mp hstep
    cases hok
    first | exact ⟨_, rfl⟩ | cases hrep

/-- A handler that has started works at the index of its request, and will look there again
    until it has its reply. -/
theorem atWork_of_run {a b : Server} {msg : Bytes} {h : HandlerPc} {ls : List (ℕ × SendResult)}
    (ha : a.Separate) (hrun : Run HandlerStep (.parse msg, a) ls (h, b)) (hls : ls ≠ [])
    (hrep : h.replied = false) :
    ∃ ID, HandlerPc.AtWork ID a.clients (.parse msg, a) ∧ h.index = some ID := by
  obtain ⟨ID, hmsg⟩ : ∃ ID, decodeID msg = .ok ID := by
    cases hrun with
    | nil => exact absurd rfl hls
    | cons hstep _ =>
      obtain ⟨ID, hmsg, -⟩ := bind_ok_iff.mp hstep.2
      exact ⟨ID, hmsg⟩
  have hstart : HandlerPc.AtWork ID a.clients (.parse msg, a) := by
    refine ⟨ha, rfl, fun ID' hID' => ?_, fun p hp => absurd hp List.not_mem_nil⟩
    rw [HandlerPc.index, hmsg] at hID'
    exact (Option.some.inj hID').symm
  refine ⟨ID, hstart, ?_⟩
  obtain ⟨ID', hID'⟩ : ∃ ID', h.index = some ID' := by
    rcases List.eq_nil_or_concat ls with rfl | ⟨ks, l, rfl⟩
    · exact absurd rfl hls
    · rw [List.concat_eq_append, run_append] at hrun
      obtain ⟨m, -, hlast⟩ := hrun
      obtain ⟨m', hstep, hnil⟩ := run_cons_iff.mp hlast
      obtain rfl := run_nil_iff.mp hnil
      exact handlerStep_index hstep.2 hrep
  rw [hID', (atWork_run hrun hstart).finds.index ID' hID']

/-- What the handler has done so far can be done after an edit as well that spares its index. -/
theorem run_parse_edit {a b : Server} {msg : Bytes} {h : HandlerPc} {ls : List (ℕ × SendResult)}
    {e : Edit} (ha : a.Separate) (hrun : Run HandlerStep (.parse msg, a) ls (h, b))
    (hrep : h.replied = false) (he : ∀ ID, h.index = some ID → e.Spares ID a.clients) :
    Run HandlerStep (.parse msg, a.edit e) ls (h, b.edit e) := by
  by_cases hls : ls = []
  · subst hls
    cases hrun
    exact .nil _
  · obtain ⟨ID, hstart, hidx⟩ := atWork_of_run ha hrun hls hrep
    exact run_edit (he ID hidx) hstart hrun

/-! ## One operation after another -/

theorem represents_outcome {s s' : Sys} {a : Server} (ha : a.Inv) (hrep : s.Represents a)
    (h : s.Outcome s') : ∃ a', Reaches Server.Atomic a a' ∧ s'.Represents a' := by
  cases h with
  | inside hhandler hsettled =>
    refine ⟨a, .refl a, ?_⟩
    cases hrep with
    | settled hreplied heq =>
      exact .settled (by rw [hhandler]; exact hreplied) (hsettled.trans heq)
    | handling _ _ hold hnot hrun =>
      exact .handling _ _ (hhandler.trans hold) hnot (by rw [hsettled]; exact hrun)
  | completes op e hhandler hsettled hatomic hspares =>
    cases hrep with
    | settled hreplied heq =>
      subst heq
      exact ⟨_, .of_step (hatomic _ (.refl _)),
        .settled (by rw [hhandler]; exact hreplied) hsettled⟩
    | handling msg ls hold hnot hrun =>
      obtain ⟨hsame, -⟩ := handlerRun_same hrun ha.separate
      refine ⟨a.edit e, .of_step (hatomic a hsame.symm), ?_⟩
      refine .handling msg ls (hhandler.trans hold) hnot ?_
      rw [hsettled]
      refine run_parse_edit ha.separate hrun hnot fun ID hidx => ?_
      rw [← hsame.clients]
      exact hspares _ ID hold hidx
  | @starts msg hnone hnew hsettled =>
    cases hrep with
    | settled _ heq =>
      refine ⟨a, .refl a, .handling msg [] hnew rfl ?_⟩
      rw [hsettled, heq]
      exact .nil _
    | handling _ _ hold _ _ => cases hnone.symm.trans hold
  | works rand r hold hnew hnot hnot' hstep =>
    cases hrep with
    | settled hreplied _ =>
      rw [hreplied _ hold] at hnot
      cases hnot
    | handling msg ls hold' _ hrun =>
      cases hold.symm.trans hold'
      refine ⟨a, .refl a, .handling msg _ hnew hnot' (hrun.snoc (l := (rand, r)) ⟨?_, hstep⟩)⟩
      rintro rfl
      cases hnot
  | @replies h value client rand r hold hnew hnot hstep hreply =>
    cases hrep with
    | settled hreplied _ =>
      rw [hreplied _ hold] at hnot
      cases hnot
    | handling msg ls hold' _ hrun =>
      cases hold.symm.trans hold'
      have hret : h ≠ .returned := by
        rintro rfl
        cases hnot
      have hlookup := hrun.snoc (l := (rand, r)) ⟨hret, hstep⟩
      have hall := hlookup.snoc (l := (rand, r)) ⟨by simp, hreply⟩
      obtain ⟨rands, hok⟩ := onIncomingMsg1_of_run hall ⟨0, ""⟩
      refine ⟨_, .of_step (.onIncomingMsg1 hok), .settled (fun h heq => ?_) rfl⟩
      cases hnew.symm.trans heq
      rfl
  | ends hold hreplied hnew hsettled =>
    refine ⟨a, .refl a, ?_⟩
    cases hrep with
    | settled _ heq => exact .settled hnew (hsettled.trans heq)
    | handling _ _ hold' hnot _ =>
      cases hold.symm.trans hold'
      rw [hreplied] at hnot
      cases hnot

/-- The steps of the threads are answered by operations one after another. -/
theorem threads_answered :
    Answers (Along Sys.Step fun s _ _ => s.AllSteady) Server.Atomic
      (fun s => s.Inv ∧ s.Flags ∧ s.HandsExist) fun s a => s.Represents a ∧ a.Inv where
  keeps hs hstep :=
    ⟨sys_step_inv hs.1 hstep.1, flags_step hs.1 hs.2.1 hstep.1,
      handsExist_step hs.1 hs.2.2 hstep.1⟩
  step hs ha hstep := by
    obtain ⟨a', ⟨ops, hops⟩, hrep⟩ := represents_outcome ha.2 ha.1
      (step_outcome hs.1 hs.2.1 hs.2.2 hstep.2 hstep.1)
    exact ⟨a', ⟨ops, hops⟩, hrep, hops.invariant (fun _ _ _ hs hop => atomic_inv hs hop) ha.2⟩

theorem represents_init (sockfd : ℤ) : (Sys.init sockfd).Represents (.init sockfd) :=
  .settled (fun h hh => by cases hh) rfl

/-- Between operations there is nothing to complete. -/
theorem settled_of_quiet {s : Sys} (hs : s.Inv) (hquiet : s.Quiet) : s.settled = s.server := by
  have hhandler : ∀ h, s.handler ≠ some h := by
    intro h hh
    obtain ⟨o, ho⟩ := (handler_some_iff hs).mp hh
    exact (hquiet.receivers o).2 h ho
  have hleaving : s.leaving = 0 := by
    refine List.countP_eq_zero.mpr fun o _ => ?_
    rw [(hquiet.receivers o).1]
    exact Bool.false_ne_true
  have hdeleted : s.deletedClient = none := by
    unfold Sys.deletedClient
    split
    · rename_i i hi
      have hclosed := hquiet.remover
      rw [hi] at hclosed
      cases hclosed
    · rfl
  have hcompletion : s.completion = .skip := by
    unfold Sys.completion Sys.undelete
    rw [hdeleted, hleaving, hquiet.acceptor, hquiet.remover]
    simp only [AcceptorPc.newClient, AcceptorPc.pending, Option.toList_none, List.append_nil,
      Bool.toNat_false, Nat.cast_zero, add_zero, sub_zero]
    rfl
  rw [settled_of_not_reply fun value client => hhandler _, hcompletion, edit_skip]

theorem represents_of_run {sockfd : ℤ} {s : Sys} {acts : List Act}
    (hrun : Run (Along Sys.Step fun s _ _ => s.AllSteady) (.init sockfd) acts s) :
    ∃ a, Reaches Server.Atomic (.init sockfd) a ∧ s.Represents a := by
  have hstart : (Sys.init sockfd).Inv ∧ (Sys.init sockfd).Flags ∧ (Sys.init sockfd).HandsExist :=
    ⟨sys_init_inv sockfd, flags_init sockfd, handsExist_init sockfd⟩
  obtain ⟨a, hops, hrep, -⟩ :=
    threads_answered.reaches hrun hstart ⟨represents_init sockfd, inv_init sockfd⟩
  exact ⟨a, hops, hrep⟩

/-- Between operations the server is what the operations taken one after another gave. -/
theorem Sys.Represents.quiet {s : Sys} {a : Server} (h : s.Represents a) (hs : s.Inv)
    (hquiet : s.Quiet) : s.server = a := by
  cases h with
  | settled _ heq => rw [← settled_of_quiet hs hquiet, heq]
  | handling _ _ hold _ _ =>
    obtain ⟨o, ho⟩ := (handler_some_iff hs).mp hold
    exact absurd ho ((hquiet.receivers o).2 _)

/-- As long as the remover erases nothing that the running handler still needs, whatever the
    threads reach when none of them is in the middle of an operation is reached by the
    operations alone, one after another. -/
theorem threads_linearizable {sockfd : ℤ} {s : Sys} {acts : List Act}
    (hrun : Run (Along Sys.Step fun s _ _ => s.AllSteady) (.init sockfd) acts s)
    (hquiet : s.Quiet) : Reaches Server.Atomic (.init sockfd) s.server := by
  obtain ⟨a, hops, hrep⟩ := represents_of_run hrun
  rw [hrep.quiet (sys_reachable_inv ⟨sockfd, acts, hrun.of_along⟩) hquiet]
  exact hops

/-- Client 1 has disconnected. Client 0 asks for "0", and while its handler sleeps client 1 is
    removed and client 2 connects. -/
theorem run_among :
    ∃ s : Sys, Run (Along Sys.Step fun s _ _ => s.AllSteady) (.init 3)
      [.acceptor 4 "10.0.0.1", .acceptor 0 "", .acceptor 0 "", .acceptor 0 "", .acceptor 0 "",
        .acceptor 5 "10.0.0.2", .acceptor 0 "", .acceptor 0 "", .acceptor 0 "", .acceptor 0 "",
        .receiver 1 .timeout 0 ⟨0, ""⟩, .receiver 1 .endOfStream 0 ⟨0, ""⟩,
        .receiver 1 .timeout 0 ⟨0, ""⟩, .receiver 1 .timeout 0 ⟨0, ""⟩,
        .receiver 1 .timeout 0 ⟨0, ""⟩, .receiver 1 .timeout 0 ⟨0, ""⟩,
        .receiver 0 .timeout 0 ⟨0, ""⟩, .receiver 0 (.message (bytes "0")) 0 ⟨0, ""⟩,
        .receiver 0 .timeout 0 ⟨0, ""⟩, .receiver 0 .timeout 0 ⟨0, ""⟩,
        .receiver 0 .timeout 0 ⟨0, ""⟩, .receiver 0 .timeout 0 ⟨0, ""⟩,
        .receiver 0 .timeout 3 ⟨0, ""⟩, .receiver 0 .timeout 0 ⟨0, ""⟩,
        .remover fun _ => 0, .remover fun _ => 0, .remover fun _ => 0, .remover fun _ => 0,
        .remover fun _ => 0, .remover fun _ => 0, .acceptor 6 "10.0.0.3",
        .receiver 0 .timeout 0 ⟨0, ""⟩, .remover fun _ => 0, .remover fun _ => 0,
        .remover fun _ => 0, .acceptor 0 "", .acceptor 0 "", .receiver 0 .timeout 0 ⟨0, ""⟩,
        .acceptor 0 "", .acceptor 0 "", .receiver 0 .timeout 0 ⟨0, ""⟩,
        .receiver 0 .timeout 0 ⟨0, ""⟩, .receiver 0 .timeout 0 ⟨1, ""⟩,
        .receiver 0 .timeout 0 ⟨0, ""⟩] s ∧
      s.Quiet ∧ s.server.clients = [0, 2] ∧ s.server.sent = [(4, to_string 6)] ∧
      s.server.closed = [5] ∧ s.server.listOf 0 = [6] ∧
      s.server.files (bytes "(EVEN) CLIENT ID #: 0") = some (bytes "6") := by
  have go : ∀ {s s' : Sys} {a : Act}, s.step a = some s' → s.remover.closed = false →
      Along Sys.Step (fun s _ _ => s.AllSteady) s a s' := by
    intro s s' a hstep hrem
    refine ⟨hstep, fun h _ i hi => ?_⟩
    rw [hi] at hrem
    cases hrem
  refine ⟨_, .cons (go rfl rfl) (.cons (go rfl rfl) (.cons (go rfl rfl) (.cons (go rfl rfl)
    (.cons (go rfl rfl) (.cons (go rfl rfl) (.cons (go rfl rfl) (.cons (go rfl rfl)
    (.cons (go rfl rfl) (.cons (go rfl rfl) (.cons (go rfl rfl) (.cons (go rfl rfl)
    (.cons (go rfl rfl) (.cons (go rfl rfl) (.cons (go rfl rfl) (.cons (go rfl rfl)
    (.cons (go rfl rfl) (.cons (go rfl rfl) (.cons (go rfl rfl) (.cons (go rfl rfl)
    (.cons (go rfl rfl) (.cons (go rfl rfl) (.cons (go rfl rfl) (.cons (go rfl rfl)
    (.cons (go rfl rfl) (.cons (go rfl rfl) (.cons (go rfl rfl) (.cons (go rfl rfl)
    (.cons (go rfl rfl) (.cons ⟨rfl, fun h _ i hi => by cases hi⟩ (.cons ⟨rfl, ?_⟩
    (.cons ⟨rfl, ?_⟩ (.cons ⟨rfl, ?_⟩ (.cons (go rfl rfl) (.cons (go rfl rfl)
    (.cons (go rfl rfl) (.cons (go rfl rfl) (.cons (go rfl rfl) (.cons (go rfl rfl)
    (.cons (go rfl rfl) (.cons (go rfl rfl) (.cons (go rfl rfl) (.cons (go rfl rfl)
    (.cons (go rfl rfl) (.nil _)))))))))))))))))))))))))))))))))))))))))))), ?_,
    rfl, rfl, rfl, rfl, rfl⟩
  pick_goal 4
  · refine ⟨rfl, rfl, fun o => ?_⟩
    rcases o with _ | _ | _ | o <;> exact ⟨rfl, fun h hh => by cases hh⟩
  all_goals
    intro h hh i hi
    cases hh
    cases hi
    exact ⟨fun ID hID => by cases hID; decide, fun p hp => absurd hp List.not_mem_nil⟩

theorem threads_linearizable_among :
    ∃ (s : Sys) (acts : List Act),
      Run (Along Sys.Step fun s _ _ => s.AllSteady) (.init 3) acts s ∧ s.Quiet ∧
        s.server.clients = [0, 2] ∧ s.server.sent = [(4, to_string 6)] ∧
        s.server.closed = [5] ∧ Reaches Server.Atomic (.init 3) s.server := by
  obtain ⟨s, hrun, hquiet, hclients, hsent, hclosed, -⟩ := run_among
  exact ⟨s, _, hrun, hquiet, hclients, hsent, hclosed, threads_linearizable hrun hquiet⟩

end TCPServer
