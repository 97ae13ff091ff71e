/-
  The events of one client, from its first message to its deletion.

  `Service.occurrences` is what the history says about a client. In every reachable state it
  is the messages handled, each called and returned, and behind them what the point of the
  receive thread says (`Service.Recorded`): a call under way, or the one disconnection, and
  the deletion. So when the remover takes a client out of `_clients`, all its messages and then
  its disconnection have been handled to their ends before the deletion, and nothing follows
  (`removed_after_last_event`).
-/
import TCPServer.Service.Invariant

namespace TCPServer

open Runs

def Server.isDeleted (s : Server) (o : ClientPtr) : Bool :=
  match s.objects[o]? with
  | some c => c.deleted
  | none => false

/-- What happened to the client, in order. -/
def Service.occurrences (s : Service) (o : ClientPtr) : List Occurrence :=
  s.history.filter fun e => e.client = o

/-- The messages are handled one after another, each to its end. -/
def handledMsgs (o : ClientPtr) (msgs : List Bytes) : List Occurrence :=
  msgs.flatMap fun msg => [.called o .INCOMING_MSG msg, .returned o .INCOMING_MSG]

/-- What happened behind the handled messages, for a receive thread at a point. -/
def TaskPc.last (o : ClientPtr) (deleted : Bool) : TaskPc → List Occurrence
  | .publishMsg msg => [.called o .INCOMING_MSG msg]
  | .calling msg => [.called o .INCOMING_MSG msg]
  | .publishDisconnected => [.called o .DISCONNECTED closedText]
  | .notifying => [.called o .DISCONNECTED closedText]
  | .decrement => [.called o .DISCONNECTED closedText]
  | .finished =>
    .called o .DISCONNECTED closedText :: .returned o .DISCONNECTED ::
      if deleted then [.deleted o] else []
  | _ => []

structure Service.Recorded (s : Service) : Prop where
  events : ∀ o, ∃ msgs,
    s.occurrences o = handledMsgs o msgs ++ (s.tasks o).last o (s.server.isDeleted o)
  erased : ∀ i o, s.remover = .erasing i → s.server.clients[i]? = some o →
    s.server.isDeleted o = true

/-! ## Deleted objects -/

section Deleted

variable {s : Server} {o o' : ClientPtr}

theorem isDeleted_setObject_of_eq (o : ClientPtr) (f : Client → Client)
    (hf : ∀ c, (f c).deleted = c.deleted) (o' : ClientPtr) :
    (s.setObject o f).isDeleted o' = s.isDeleted o' := by
  unfold Server.isDeleted
  rcases objects_setObject_cases s o f o' with h | ⟨c, hget, h⟩
  · rw [h]
  · rw [h, hget]
    exact hf c

theorem isDeleted_clear (o o' : ClientPtr) :
    (s.clearConnected o).isDeleted o' = s.isDeleted o' :=
  isDeleted_setObject_of_eq o (fun c => { c with isConnected := false }) (fun _ => rfl) o'

theorem isDeleted_delete_self (ho : s.Alive o) : (s.deleteClient o).isDeleted o = true := by
  obtain ⟨c, hc⟩ := ho
  unfold Server.isDeleted Server.deleteClient
  rw [objects_setObject_self (object_ok_iff.mp hc).1]

theorem isDeleted_delete_ne (ho : o' ≠ o) :
    (s.deleteClient o).isDeleted o' = s.isDeleted o' := by
  unfold Server.isDeleted Server.deleteClient
  rw [objects_setObject_ne ho]

theorem isDeleted_new (fileDescriptor : ℤ) (ip : String) (o : ClientPtr) :
    (s.newClient fileDescriptor ip).isDeleted o = s.isDeleted o := by
  unfold Server.isDeleted Server.newClient
  rcases Nat.lt_trichotomy o s.objects.length with hlt | rfl | hgt
  · rw [List.getElem?_append_left hlt]
  · rw [List.getElem?_concat_length, List.getElem?_eq_none (Nat.le_refl _)]
  · have hlen : (s.objects ++ [(⟨fileDescriptor, ip, true, none, false⟩ : Client)]).length ≤ o := by
      rw [List.length_append]
      exact hgt
    rw [List.getElem?_eq_none hlen, List.getElem?_eq_none (Nat.le_of_lt hgt)]

theorem Server.SameClients.isDeleted {s' : Server} (h : s.SameClients s') (o : ClientPtr) :
    s'.isDeleted o = s.isDeleted o := by
  unfold Server.isDeleted
  obtain ⟨hget, hget'⟩ | ⟨c, c', hget, hget', hfix⟩ := h.object_cases o
  · rw [hget, hget']
  · rw [hget, hget']
    exact Client.deleted_of_fixed hfix

theorem not_isDeleted_of_alive (ho : s.Alive o) : s.isDeleted o = false := by
  obtain ⟨c, hc⟩ := ho
  obtain ⟨hget, hd⟩ := object_ok_iff.mp hc
  rw [Server.isDeleted, hget]
  exact hd

theorem exists_of_isDeleted (h : s.isDeleted o = true) :
    ∃ c, s.objects[o]? = some c ∧ c.deleted = true := by
  unfold Server.isDeleted at h
  cases hget : s.objects[o]? with
  | none =>
    rw [hget] at h
    cases h
  | some c =>
    rw [hget] at h
    exact ⟨c, rfl, h⟩

end Deleted

/-- Deleted objects stay deleted. -/
theorem step_isDeleted {s s' : Service} {l : Label} (h : s.Step l s') {o : ClientPtr}
    (ho : s.server.isDeleted o = true) : s'.server.isDeleted o = true := by
  cases h with
  | world _ h =>
    cases h with
    | connects fileDescriptor ip _ => exact (isDeleted_new fileDescriptor ip o).trans ho
    | _ => exact ho
  | acceptor _ h => cases h <;> exact ho
  | remover _ h =>
    cases h with
    | @deletes i o' hpc hget =>
      obtain ⟨c, hc, hd⟩ := exists_of_isDeleted ho
      by_cases hoo : o = o'
      · subst hoo
        show (s.server.setObject o _).isDeleted o = true
        rw [Server.isDeleted, objects_setObject_self hc]
      · exact (isDeleted_delete_ne hoo).trans ho
    | _ => exact ho
  | @task o' _ _ _ h =>
    cases h with
    | clears _ => exact (isDeleted_clear o' o).trans ho
    | returns _ hsame _ => exact (hsame.isDeleted o).trans ho
    | _ => exact ho
  | closer _ h => cases h <;> exact ho
  | caller _ h =>
    obtain ⟨_, _, _, _, _, _, rfl⟩ := caller_effect h
    exact ho
  | dangles _ _ _ => exact ho

/-! ## The history of a client -/

section Record

variable {s s' : Service} {o : ClientPtr}

theorem filter_snoc_self {es : List Occurrence} {e : Occurrence} (he : e.client = o) :
    (es ++ [e]).filter (fun e => e.client = o) = es.filter (fun e => e.client = o) ++ [e] := by
  rw [List.filter_append, List.filter_singleton, decide_eq_true he]
  rfl

theorem filter_snoc_ne {es : List Occurrence} {e : Occurrence} (he : e.client ≠ o) :
    (es ++ [e]).filter (fun e => e.client = o) = es.filter (fun e => e.client = o) := by
  rw [List.filter_append, List.filter_singleton, decide_eq_false he]
  exact List.append_nil _

/-- Nothing about any client changes. -/
theorem Service.Recorded.keep (hs : s.Recorded) (hhistory : s'.history = s.history)
    (hlast : ∀ o, (s'.tasks o).last o (s'.server.isDeleted o) =
      (s.tasks o).last o (s.server.isDeleted o))
    (herased : ∀ i o, s'.remover = .erasing i → s'.server.clients[i]? = some o →
      s'.server.isDeleted o = true) : s'.Recorded := by
  refine ⟨fun o => ?_, herased⟩
  obtain ⟨msgs, hmsgs⟩ := hs.events o
  refine ⟨msgs, ?_⟩
  rw [Service.occurrences, hhistory, hlast o]
  exact hmsgs

/-- Something happens to the client `o` and nothing to the others. -/
theorem Service.Recorded.add (hs : s.Recorded) (o : ClientPtr) (e : Occurrence) (he : e.client = o)
    (hhistory : s'.history = s.history ++ [e])
    (hother : ∀ o', o' ≠ o → (s'.tasks o').last o' (s'.server.isDeleted o') =
      (s.tasks o').last o' (s.server.isDeleted o'))
    (hself : ∀ msgs, ∃ msgs',
      handledMsgs o msgs ++ (s.tasks o).last o (s.server.isDeleted o) ++ [e] =
        handledMsgs o msgs' ++ (s'.tasks o).last o (s'.server.isDeleted o))
    (herased : ∀ i o, s'.remover = .erasing i → s'.server.clients[i]? = some o →
      s'.server.isDeleted o = true) : s'.Recorded := by
  refine ⟨fun o' => ?_, herased⟩
  obtain ⟨msgs, hmsgs⟩ := hs.events o'
  by_cases ho : o' = o
  · subst ho
    obtain ⟨msgs', hmsgs'⟩ := hself msgs
    refine ⟨msgs', ?_⟩
    rw [Service.occurrences, hhistory, filter_snoc_self he, ← hmsgs', ← hmsgs]
    rfl
  · refine ⟨msgs, ?_⟩
    rw [Service.occurrences, hhistory, filter_snoc_ne (by rw [he]; exact Ne.symm ho),
      hother o' ho]
    exact hmsgs

end Record

theorem task_recorded {s s' : Service} {o : ClientPtr} {how : How} (hi : s.Inv)
    (hs : s.Recorded) (h : s.TaskStep o how s') : s'.Recorded := by
  -- A move of the thread that nothing happens at, and one at which `e` happens.
  have hmove : ∀ {pc pc' : TaskPc}, s.tasks o = pc →
      (∀ b, pc'.last o b = pc.last o b) → ∀ o',
        ((s.setTask o pc').tasks o').last o' (s.server.isDeleted o') =
          (s.tasks o').last o' (s.server.isDeleted o') := fun {pc pc'} hpc hlast o' => by
    by_cases ho : o' = o
    · subst ho
      rw [setTask_self, hpc, hlast]
    · rw [setTask_ne s ho]
  have hother : ∀ {pc' : TaskPc} (o' : ClientPtr), o' ≠ o →
      ((s.setTask o pc').tasks o').last o' (s.server.isDeleted o') =
        (s.tasks o').last o' (s.server.isDeleted o') := fun o' ho => by rw [setTask_ne s ho]
  cases h with
  | goesOn hpc _ => exact hs.keep rfl (hmove hpc fun _ => rfl) hs.erased
  | leaves hpc hflag =>
    rw [hi.flag, hpc] at hflag
    cases hflag
  | timesOut hpc _ _ => exact hs.keep rfl (hmove hpc fun _ => rfl) hs.erased
  | findsEnd hpc _ _ => exact hs.keep rfl (hmove hpc fun _ => rfl) hs.erased
  | locks hpc _ => exact hs.keep rfl (hmove hpc fun _ => rfl) hs.erased
  | locksLast hpc _ => exact hs.keep rfl (hmove hpc fun _ => rfl) hs.erased
  | notifies hpc => exact hs.keep rfl (hmove hpc fun _ => rfl) hs.erased
  | throws errno hpc => exact hs.keep rfl (fun _ => rfl) hs.erased
  | @receives msg msgs hpc _ =>
    refine hs.add o (.called o .INCOMING_MSG msg) rfl rfl hother (fun done => ⟨done, ?_⟩)
      hs.erased
    show _ = _ ++ ((s.setTask o (.publishMsg msg)).tasks o).last o _
    rw [setTask_self, hpc]
    exact congrArg (· ++ _) (List.append_nil _)
  | failsToReceive stale hpc =>
    refine hs.add o (.called o .INCOMING_MSG stale) rfl rfl hother (fun done => ⟨done, ?_⟩)
      hs.erased
    show _ = _ ++ ((s.setTask o (.publishMsg stale)).tasks o).last o _
    rw [setTask_self, hpc]
    exact congrArg (· ++ _) (List.append_nil _)
  | @returns msg server' hpc hsame _ =>
    have hdeleted : ∀ o', server'.isDeleted o' = s.server.isDeleted o' := hsame.isDeleted
    refine hs.add o (.returned o .INCOMING_MSG) rfl rfl (fun o' ho' => ?_)
      (fun done => ⟨done ++ [msg], ?_⟩) fun i o' hr ho' => ?_
    · show ((s.setTask o .check).tasks o').last o' (server'.isDeleted o') = _
      rw [setTask_ne s ho', hdeleted]
    · show _ = _ ++ ((s.setTask o .check).tasks o).last o _
      rw [setTask_self, hpc]
      simp [handledMsgs, TaskPc.last]
    · exact (hdeleted o').trans (hs.erased i o' hr (hsame.clients ▸ ho'))
  | handlerThrows e _ _ => exact hs.keep rfl (fun _ => rfl) hs.erased
  | clears hpc =>
    have hdeleted : ∀ o', (s.server.clearConnected o).isDeleted o' = s.server.isDeleted o' :=
      isDeleted_clear o
    refine hs.add o (.called o .DISCONNECTED closedText) rfl rfl (fun o' ho' => ?_)
      (fun done => ⟨done, ?_⟩) fun i o' hr ho' => (hdeleted o').trans (hs.erased i o' hr ho')
    · show ((s.setTask o .publishDisconnected).tasks o').last o'
        ((s.server.clearConnected o).isDeleted o') = _
      rw [setTask_ne s ho', hdeleted]
    · show _ = _ ++ ((s.setTask o .publishDisconnected).tasks o).last o _
      rw [setTask_self, hpc]
      exact congrArg (· ++ _) (List.append_nil _)
  | counts hpc =>
    have halive : s.server.isDeleted o = false := by
      rw [← Bool.not_eq_true]
      intro hd
      obtain ⟨c, hc, hd⟩ := exists_of_isDeleted hd
      have hfin := hi.dead o c hc hd
      rw [hpc] at hfin
      cases hfin
    refine hs.add o (.returned o .DISCONNECTED) rfl rfl hother (fun done => ⟨done, ?_⟩) hs.erased
    show _ = _ ++ ((s.setTask o .finished).tasks o).last o (s.server.isDeleted o)
    rw [setTask_self, hpc, halive, List.append_assoc]
    rfl

theorem remover_recorded {s s' : Service} {how : How} (hi : s.Inv) (hs : s.Recorded)
    (h : s.RemoverStep how s') : s'.Recorded := by
  cases h with
  | throws errno _ _ _ => exact hs.keep rfl (fun _ => rfl) hs.erased
  | @deletes i o hpc hget =>
    have hfin : s.tasks o = .finished := hi.joined i o (by rw [hpc]; rfl) hget
    have halive : s.server.Alive o := (hi.alive i o hget).resolve_right (by rw [hpc]; nofun)
    refine hs.add o (.deleted o) rfl rfl (fun o' ho' => ?_) (fun done => ⟨done, ?_⟩)
      fun j o' hr ho' => ?_
    · exact congrArg (fun b => (s.tasks o').last o' b) (isDeleted_delete_ne ho')
    · show _ = _ ++ (s.tasks o).last o ((s.server.deleteClient o).isDeleted o)
      rw [isDeleted_delete_self halive, not_isDeleted_of_alive halive, hfin, List.append_assoc]
      rfl
    · cases hr
      have hoo : some o = some o' := hget.symm.trans ho'
      cases hoo
      exact isDeleted_delete_self halive
  | _ => exact hs.keep rfl (fun _ => rfl) nofun

theorem step_recorded {s s' : Service} {l : Label} (hl : s.Locked) (hi : s.Inv)
    (hs : s.Recorded) (h : s.Step l s') : s'.Recorded := by
  cases h with
  | world _ h =>
    cases h with
    | connects fileDescriptor ip _ =>
      have hnew := hl.fresh s.server.objects.length (Nat.le_refl _)
      refine hs.keep rfl (fun o => ?_) fun i o hr ho =>
        (isDeleted_new fileDescriptor ip o).trans (hs.erased i o hr ho)
      show ((s.setTask s.server.objects.length .check).tasks o).last o
        ((s.server.newClient fileDescriptor ip).isDeleted o) = _
      rw [isDeleted_new]
      by_cases ho : o = s.server.objects.length
      · rw [ho, setTask_self, hnew]
        rfl
      · rw [setTask_ne s ho]
    | _ => exact hs.keep rfl (fun _ => rfl) hs.erased
  | acceptor _ h =>
    cases h with
    | @pushes newClient hpc =>
      refine hs.keep rfl (fun _ => rfl) fun i o hr ho => ?_
      -- The remover is not inside the section the accepting thread is in.
      have hin := holdsClients_acceptor hpc rfl
      exact absurd hr (remover_not_erasing_of_holds hl hin nofun i)
    | _ => exact hs.keep rfl (fun _ => rfl) hs.erased
  | remover _ h => exact remover_recorded hi hs h
  | task _ h => exact task_recorded hi hs h
  | closer _ h =>
    cases h with
    | clears _ _ => exact hs.keep rfl (fun _ => rfl) fun i o _ ho => by simp at ho
    | _ => exact hs.keep rfl (fun _ => rfl) hs.erased
  | caller _ h =>
    obtain ⟨_, _, _, _, _, _, rfl⟩ := caller_effect h
    exact hs.keep rfl (fun _ => rfl) hs.erased
  | dangles _ _ _ => exact hs.keep rfl (fun _ => rfl) hs.erased

theorem init_recorded (sockfd : ℤ) (automatic : Bool) :
    (Service.init sockfd automatic).Recorded := by
  refine ⟨fun o => ⟨[], rfl⟩, fun i o _ ho => ?_⟩
  simp [Service.init, Server.init] at ho

theorem reachable_recorded {s : Service} (h : s.Reachable) : s.Recorded := by
  obtain ⟨sockfd, automatic, ls, hrun⟩ := h
  have hstep : ∀ (s : Service) l s', (s.Locked ∧ s.Inv) ∧ s.Recorded → s.Step l s' →
      (s'.Locked ∧ s'.Inv) ∧ s'.Recorded := fun _ _ _ ⟨⟨hl, hi⟩, hs⟩ h =>
    ⟨⟨step_locked hl h, hi.step hl h⟩, step_recorded hl hi hs h⟩
  exact (hrun.invariant hstep ⟨⟨init_locked sockfd automatic, .init sockfd automatic⟩,
    init_recorded sockfd automatic⟩).2

/-! ## Removed clients -/

/-- A deleted client: all its messages and then its disconnection were handled to their ends,
    then it was deleted, and its receive thread has finished. -/
theorem deleted_client {s : Service} (h : s.Reachable) {o : ClientPtr}
    (ho : s.server.isDeleted o = true) :
    s.tasks o = .finished ∧ ∃ msgs, s.occurrences o = handledMsgs o msgs ++
      [.called o .DISCONNECTED closedText, .returned o .DISCONNECTED, .deleted o] := by
  obtain ⟨c, hc, hd⟩ := exists_of_isDeleted ho
  have hfin := h.inv.2.dead o c hc hd
  obtain ⟨msgs, hmsgs⟩ := (reachable_recorded h).events o
  refine ⟨hfin, msgs, ?_⟩
  rw [hmsgs, hfin, ho]
  rfl

/-- What the remover takes out of `_clients` is deleted. -/
theorem isDeleted_of_removed {s s' : Service} {how : How} (hi : s.Inv) (hs : s.Recorded)
    (h : s.RemoverStep how s') {o : ClientPtr} (ho : o ∈ s.server.clients)
    (ho' : o ∉ s'.server.clients) : s'.server.isDeleted o = true := by
  cases h with
  | @erases i hpc =>
    obtain ⟨o', hget, -⟩ := hi.target i (by rw [hpc]; rfl)
    obtain ⟨hlt, hgetElem⟩ := List.getElem?_eq_some_iff.mp hget
    have hoo : o = o' := by
      by_contra hne
      refine ho' ?_
      show o ∈ s.server.clients.eraseIdx i
      rw [← hi.nodup.erase_getElem i hlt, hgetElem]
      exact (List.mem_erase_of_ne hne).mpr ho
    rw [hoo]
    exact hs.erased i o' hpc hget
  | _ => exact absurd ho ho'

/-- The remover takes the client `o` out of `_clients` in some step of a run. From then on, in
    every state of the run: each message of `o` was handled to its end, then one disconnection
    was, then `o` was deleted, and nothing happened to `o` after that; and the receive thread
    of `o` has no step. -/
theorem removed_after_last_event {s₁ s₂ s : Service} {how : How} {o : ClientPtr}
    (h : s₁.Reachable) (hstep : s₁.Step (.thread .remover how) s₂)
    (ho : o ∈ s₁.server.clients) (ho' : o ∉ s₂.server.clients)
    (hlater : Reaches Service.Step s₂ s) :
    (∃ msgs, s.occurrences o = handledMsgs o msgs ++
      [.called o .DISCONNECTED closedText, .returned o .DISCONNECTED, .deleted o]) ∧
    ∀ how s', ¬ s.Step (.thread (.task o) how) s' := by
  have hdeleted : s₂.server.isDeleted o = true := by
    cases hstep with
    | world _ h => cases h
    | remover _ hremover =>
      exact isDeleted_of_removed h.inv.2 (reachable_recorded h) hremover ho ho'
    | dangles _ _ _ => exact absurd ho ho'
  have hreach : s.Reachable := by
    obtain ⟨sockfd, automatic, hinit⟩ := h
    exact ⟨sockfd, automatic, (hinit.trans (.of_step hstep)).trans hlater⟩
  obtain ⟨ls, hrun⟩ := hlater
  have hlast : s.server.isDeleted o = true :=
    hrun.invariant (I := fun s => s.server.isDeleted o = true)
      (fun _ _ _ hd h => step_isDeleted h hd) hdeleted
  obtain ⟨hfin, hhistory⟩ := deleted_client hreach hlast
  refine ⟨hhistory, fun how s' hnext => ?_⟩
  cases hnext with
  | world _ h => cases h
  | task _ h => cases h <;> simp_all
  | dangles _ huses _ =>
    obtain ⟨rfl, hruns⟩ := huses
    rw [hfin] at hruns
    cases hruns

/-- A client sends one message and closes the connection, and the remover takes it out. -/
theorem removed_after_last_event_one_message :
    ∃ s : Service, s.server.clients = [] ∧ ∃ msgs, s.occurrences 0 = handledMsgs 0 msgs ++
      [.called 0 .DISCONNECTED closedText, .returned 0 .DISCONNECTED, .deleted 0] := by
  obtain ⟨s₁, hrun, hfault, hremover, hclients⟩ :
      ∃ s, Reaches Service.Step (Service.init 3 true) s ∧ s.fault = none ∧
        s.remover = .erasing 0 ∧ s.server.clients = [0] := by
    refine ⟨_, ⟨_, .cons (.world rfl (.connects 4 "10.0.0.2" rfl)) (.cons (.acceptor rfl
      (.locks rfl rfl)) (.cons (.acceptor rfl (.pushes rfl)) (.cons (.acceptor rfl (.counts rfl))
      (.cons (.acceptor rfl (.unlocks rfl)) (.cons (.world rfl (.peerSends (o := 0) [104] rfl))
      (.cons (.world rfl (.peerCloses 0)) (.cons (.task rfl (.goesOn (o := 0) rfl rfl)) (.cons
      (.task rfl (.receives (o := 0) rfl rfl)) (.cons
      (.task rfl (.locks (o := 0) rfl rfl)) (.cons (.task rfl (task_returns (o := 0) rfl)) (.cons
      (.task rfl (.goesOn (o := 0) rfl rfl)) (.cons (.task rfl (.findsEnd (o := 0) rfl rfl rfl))
      (.cons (.task rfl (.clears (o := 0) rfl)) (.cons (.task rfl (.locksLast (o := 0) rfl rfl))
      (.cons (.task rfl (.notifies (o := 0) rfl)) (.cons (.task rfl (.counts (o := 0) rfl)) (.cons
      (.remover rfl (.goesOn rfl rfl)) (.cons (.remover rfl (.locks rfl rfl)) (.cons
      (.remover rfl (.finds (i := 0) (o := 0) rfl rfl rfl)) (.cons
      (.remover rfl (.joins (o := 0) rfl rfl rfl)) (.cons
      (.remover rfl (.closes (o := 0) rfl rfl rfl)) (.cons
      (.remover rfl (.deletes (o := 0) rfl rfl)) (.nil _)))))))))))))))))))))))⟩,
      rfl, rfl, rfl⟩
  have hgone : s₁.server.clients.eraseIdx 0 = [] := by
    rw [hclients]
    rfl
  have hstep := Service.Step.remover hfault (.erases hremover)
  refine ⟨_, hgone, (removed_after_last_event (o := 0) ⟨3, true, hrun⟩ hstep ?_ ?_
    (.refl _)).1⟩
  · rw [hclients]
    exact List.mem_singleton_self 0
  · rw [show _ = _ from hgone]
    nofun

end TCPServer
