/-
  What a handler that finds no number does to the rest of the server.

  The two mutexes exclude: one thread at a time is in a callback, and one of the accepting
  thread and the remover has `_clientsMtx`. The handlers' data is changed in callbacks only, and
  `_clients` only by who has `_clientsMtx` (`threads_exclusive`).

  `wedged_stalls`: once a handler draws for an index and no number of its parity is left, no
  request is handled, no number given, no reply sent and no file written any more, whatever the
  threads do; no disconnection that waits is told to anyone; a client whose thread has not come
  to its end yet stays in `_clients`. If the remover has come to join such a thread, it never
  lets `_clientsMtx` go, and no client is listed any more.
-/
import TCPServer.Lib.Locks
import TCPServer.Threads.Moves
import TCPServer.Threads.Numbers
import TCPServer.Threads.Starvation

namespace TCPServer

open Locks Runs

/-! ## Who has the mutexes -/

/-- The accepting thread has `_clientsMtx`. -/
def AcceptorPc.locked : AcceptorPc → Bool
  | .pushing _ => true
  | .counting => true
  | .unlocking => true
  | _ => false

/-- The thread is in a section that `_clientsMtx` guards. -/
def Sys.InClients (s : Sys) : Tid → Prop
  | .acceptor => s.acceptor.locked = true
  | .remover => s.remover.locked = true
  | .receiver _ => False

/-- The thread is in a callback. -/
def Sys.InCallback (s : Sys) : Tid → Prop
  | .receiver o => (s.receivers o).holds = true
  | _ => False

theorem inClients_of_acceptor {s s' : Sys} (hremover : s'.remover = s.remover) (t : Tid)
    (ht : t ≠ .acceptor) : s'.InClients t ↔ s.InClients t := by
  cases t with
  | acceptor => exact absurd rfl ht
  | remover =>
    show s'.remover.locked = true ↔ s.remover.locked = true
    rw [hremover]
  | receiver o => exact Iff.rfl

theorem inClients_of_remover {s s' : Sys} (hacceptor : s'.acceptor = s.acceptor) (t : Tid)
    (ht : t ≠ .remover) : s'.InClients t ↔ s.InClients t := by
  cases t with
  | acceptor =>
    show s'.acceptor.locked = true ↔ s.acceptor.locked = true
    rw [hacceptor]
  | remover => exact absurd rfl ht
  | receiver o => exact Iff.rfl

theorem inClients_keep {s s' : Sys} (hacceptor : s'.acceptor.locked = s.acceptor.locked)
    (hremover : s'.remover.locked = s.remover.locked) (t : Tid) :
    s'.InClients t ↔ s.InClients t := by
  unfold Sys.InClients
  rw [hacceptor, hremover]

theorem clientsMtx_step {s s' : Sys} (hs : Owned s.clientsMtx s.InClients) {a : Act}
    (h : s.Step a s') : Owned s'.clientsMtx s'.InClients := by
  cases a with
  | acceptor fileDescriptor ip =>
    cases acceptor_step h with
    | accepts fileDescriptor ip hpc => exact hs.keep (inClients_keep (by rw [hpc]; rfl) rfl)
    | locks hpc hfree => exact (hs.of_free hfree).lock rfl (inClients_of_acceptor rfl)
    | pushes hpc => exact hs.keep (inClients_keep (by rw [hpc]; rfl) rfl)
    | counts hpc => exact hs.keep (inClients_keep (by rw [hpc]; rfl) rfl)
    | unlocks hpc =>
      refine hs.unlock (t := .acceptor) ?_ Bool.false_ne_true (inClients_of_acceptor rfl)
      show s.acceptor.locked = true
      rw [hpc]
      rfl
  | remover closeRet =>
    cases remover_move h with
    | idles _ _ hlocked => exact hs.keep (inClients_keep rfl hlocked)
    | locks hpc hfree => exact (hs.of_free hfree).lock rfl (inClients_of_remover rfl)
    | unlocks hpc =>
      refine hs.unlock (t := .remover) ?_ Bool.false_ne_true (inClients_of_remover rfl)
      show s.remover.locked = true
      rw [hpc]
      rfl
    | fails e => exact hs.keep (inClients_keep rfl rfl)
    | finds hpc _ _ _ => exact hs.keep (inClients_keep rfl (by rw [hpc]; rfl))
    | joins hpc _ => exact hs.keep (inClients_keep rfl (by rw [hpc]; rfl))
    | closes hpc _ => exact hs.keep (inClients_keep rfl (by rw [hpc]; rfl))
    | deletes hpc => exact hs.keep (inClients_keep rfl (by rw [hpc]; rfl))
    | erases hpc => exact hs.keep (inClients_keep rfl (by rw [hpc]; rfl))
  | receiver o event rand r =>
    cases receiver_move h <;> exact hs.keep (inClients_keep rfl rfl)

theorem sys_reachable_clientsMtx {s : Sys} (h : s.Reachable) :
    Owned s.clientsMtx s.InClients := by
  obtain ⟨sockfd, acts, hrun⟩ := h
  refine hrun.invariant (I := fun s => Owned s.clientsMtx s.InClients)
    (fun _ _ _ hs hstep => clientsMtx_step hs hstep) fun t => ?_
  cases t <;> simp [Sys.init, Sys.InClients, AcceptorPc.locked, RemoverPc.locked]

theorem sys_reachable_callback {s : Sys} (h : s.Reachable) :
    Owned s.subscribersMtx s.InCallback := by
  have hs := sys_reachable_inv h
  intro t
  cases t with
  | receiver o => exact hs.holder o
  | acceptor =>
    refine iff_of_false id fun ht => ?_
    obtain ⟨o, ho⟩ := sys_reachable_subscribersMtx h ht
    cases ho
  | remover =>
    refine iff_of_false id fun ht => ?_
    obtain ⟨o, ho⟩ := sys_reachable_subscribersMtx h ht
    cases ho

/-- The lists, the numbers, the files and what was sent are the same. -/
structure Server.SameRecords (s s' : Server) : Prop where
  lists : s.SameLists s'
  numbers : s'.numbers = s.numbers
  files : s'.files = s.files
  sent : s'.sent = s.sent

/-- What a thread that is in no callback, or that does not touch `_clients`, leaves. -/
theorem records_step {s s' : Sys} (hs : s.server.Separate) {a : Act} (h : s.Step a s') :
    (s.server.SameRecords s'.server ∨ s.InCallback a.thread) ∧
      (s'.server.clients = s.server.clients ∨ s.InClients a.thread) := by
  cases a with
  | acceptor fileDescriptor ip =>
    cases acceptor_step h with
    | accepts fileDescriptor ip _ =>
      refine ⟨.inl ⟨⟨rfl, ?_⟩, rfl, rfl, rfl⟩, .inl rfl⟩
      exact (sameLists_addClient s.server fileDescriptor ip).headOf
    | pushes hpc =>
      refine ⟨.inl ⟨⟨rfl, rfl⟩, rfl, rfl, rfl⟩, .inr ?_⟩
      show s.acceptor.locked = true
      rw [hpc]
      rfl
    | _ => exact ⟨.inl ⟨⟨rfl, rfl⟩, rfl, rfl, rfl⟩, .inl rfl⟩
  | remover closeRet =>
    cases remover_move h with
    | @deletes i client _ =>
      refine ⟨.inl ⟨?_, rfl, rfl, rfl⟩, .inl rfl⟩
      exact sameLists_setObject s.server client (fun c => { c with deleted := true }) fun _ => rfl
    | erases hpc =>
      refine ⟨.inl ⟨⟨rfl, rfl⟩, rfl, rfl, rfl⟩, .inr ?_⟩
      show s.remover.locked = true
      rw [hpc]
      rfl
    | _ => exact ⟨.inl ⟨⟨rfl, rfl⟩, rfl, rfl, rfl⟩, .inl rfl⟩
  | receiver o event rand r =>
    cases receiver_move h with
    | handles ho hret hstep =>
      refine ⟨.inr ?_, .inl ?_⟩
      · show (s.receivers o).holds = true
        rw [ho]
        rfl
      · cases handlerStep_does hs hret hstep with
        | moves _ _ => rfl
        | draws _ _ _ hrel _ _ _ => exact hrel.same.clients
        | writes _ _ _ _ => rfl
        | sorts _ _ _ hrel _ _ _ _ => exact hrel.same.clients
        | replies _ _ => rfl
    | disconnects _ =>
      refine ⟨.inl ⟨?_, rfl, rfl, rfl⟩, .inl rfl⟩
      exact sameLists_setObject s.server o (fun c => { c with isConnected := false }) fun _ => rfl
    | _ => exact ⟨.inl ⟨⟨rfl, rfl⟩, rfl, rfl, rfl⟩, .inl rfl⟩

/-- In every reachable state at most one thread is in a callback, and one at most in a section
    of `_clientsMtx`; and whatever happens next, the lists, the numbers, the files and the
    messages sent are changed only by the one, and `_clients` only by the other. -/
theorem threads_exclusive {s : Sys} (h : s.Reachable) :
    (∀ t t', s.InCallback t → s.InCallback t' → t = t') ∧
      (∀ t t', s.InClients t → s.InClients t' → t = t') ∧
      ∀ a s', s.Step a s' →
        (s.server.SameRecords s'.server ∨ s.InCallback a.thread) ∧
          (s'.server.clients = s.server.clients ∨ s.InClients a.thread) :=
  ⟨fun _ _ ht ht' => (sys_reachable_callback h).unique ht ht',
    fun _ _ ht ht' => (sys_reachable_clientsMtx h).unique ht ht',
    fun _ _ hstep => records_step (sys_reachable_inv h).separate hstep⟩

theorem threads_exclusive_six :
    ∃ s : Sys, s.server.numbers = [6] ∧ ∀ a s', s.Step a s' →
      s.server.SameRecords s'.server ∨ s.InCallback a.thread := by
  obtain ⟨s, hs, hnumbers, -⟩ := served_once
  exact ⟨s, hnumbers, fun a s' hstep => ((threads_exclusive hs).2.2 a s' hstep).1⟩

/-! ## A handler that finds no number -/

/-- The handler of `o` draws for `ID`, and no number of this parity is left. -/
structure Sys.Wedged (s : Sys) (o : ClientPtr) (ID : CInt) : Prop where
  draws : ∃ client g, s.receivers o = .handling (.draw ID client g)
  used : ∀ n, ¬ s.server.Free ID n

/-- The thread needs `_subscribersMtx` to go on. -/
def ReceiverPc.stuck : ReceiverPc → Bool
  | .publishMsg _ => true
  | .handling _ => true
  | .publishDisconnected => true
  | _ => false

/-- The thread needs `_subscribersMtx` no more. -/
def ReceiverPc.past : ReceiverPc → Bool
  | .decrement => true
  | .finished => true
  | _ => false

/-- Where a thread can come without `_subscribersMtx`. -/
structure ReceiverPc.MayGo (pc pc' : ReceiverPc) : Prop where
  stuck : pc.stuck = true → pc' = pc
  past : pc'.past = true → pc.past = true
  handling : ∀ h, pc' = .handling h → pc' = pc

theorem ReceiverPc.MayGo.refl (pc : ReceiverPc) : pc.MayGo pc := ⟨fun _ => rfl, id, fun _ _ => rfl⟩

theorem ReceiverPc.MayGo.trans {pc pc' pc'' : ReceiverPc} (h : pc.MayGo pc')
    (h' : pc'.MayGo pc'') : pc.MayGo pc'' where
  stuck hpc := by
    have heq := h.stuck hpc
    rw [← heq] at hpc
    exact (h'.stuck hpc).trans heq
  past hpc := h.past (h'.past hpc)
  handling hd heq := by
    have heq' := h'.handling hd heq
    exact heq'.trans (h.handling hd (heq'.symm.trans heq))

/-- From `s` to `s'` nothing is served, nobody is told of a disconnection, and no client whose
    thread runs is removed. -/
structure Sys.Stalls (s s' : Sys) : Prop where
  receivers : ∀ o, (s.receivers o).MayGo (s'.receivers o)
  numbers : s'.server.numbers = s.server.numbers
  sent : s'.server.sent = s.server.sent
  files : s'.server.files = s.server.files
  lists : ∀ o, s'.server.listOf o = s.server.listOf o
  clients : ∀ o ∈ s.server.clients, (s.receivers o).past = false → o ∈ s'.server.clients
  joining : ∀ i o, s.remover = .joining i o → (s.receivers o).past = false →
    s'.remover = .joining i o ∧ s'.server.clients = s.server.clients

theorem Sys.Stalls.refl (s : Sys) : s.Stalls s :=
  ⟨fun _ => .refl _, rfl, rfl, rfl, fun _ => rfl, fun _ ho _ => ho, fun _ _ h _ => ⟨h, rfl⟩⟩

theorem not_past_of_mayGo {pc pc' : ReceiverPc} (h : pc.MayGo pc') (hpc : pc.past = false) :
    pc'.past = false := by
  by_contra hpast
  rw [Bool.not_eq_false] at hpast
  rw [h.past hpast] at hpc
  cases hpc

theorem Sys.Stalls.trans {s s' s'' : Sys} (h : s.Stalls s') (h' : s'.Stalls s'') :
    s.Stalls s'' where
  receivers o := (h.receivers o).trans (h'.receivers o)
  numbers := h'.numbers.trans h.numbers
  sent := h'.sent.trans h.sent
  files := h'.files.trans h.files
  lists o := (h'.lists o).trans (h.lists o)
  clients o ho hpast :=
    h'.clients o (h.clients o ho hpast) (not_past_of_mayGo (h.receivers o) hpast)
  joining i o hpc hpast := by
    obtain ⟨hpc', hclients⟩ := h.joining i o hpc hpast
    obtain ⟨hpc'', hclients'⟩ := h'.joining i o hpc' (not_past_of_mayGo (h.receivers o) hpast)
    exact ⟨hpc'', hclients'.trans hclients⟩

theorem Sys.Wedged.stalls {s s' : Sys} {o : ClientPtr} {ID : CInt} (hw : s.Wedged o ID)
    (h : s.Stalls s') : s'.Wedged o ID := by
  obtain ⟨client, g, hpc⟩ := hw.draws
  refine ⟨⟨client, g, ((h.receivers o).stuck (by rw [hpc]; rfl)).trans hpc⟩, fun n hn => ?_⟩
  refine hw.used n ⟨hn.zero_le, hn.le_99, hn.parity, ?_⟩
  rw [← h.numbers]
  exact hn.new

/-- One thread goes on, and the server's data stays. -/
theorem mayGo_update {receivers : ClientPtr → ReceiverPc} {o : ClientPtr} {pc : ReceiverPc}
    (h : (receivers o).MayGo pc) (o' : ClientPtr) :
    (receivers o').MayGo (Function.update receivers o pc o') := by
  by_cases ho : o' = o
  · subst ho
    rw [Function.update_self]
    exact h
  · rw [Function.update_of_ne ho]
    exact .refl _

theorem stalls_acceptor {s s' : Sys} (hs : s.Inv) (howned : Owned s.clientsMtx s.InClients)
    (h : s.AcceptorEffect s') : s.Stalls s' := by
  have hself := Sys.Stalls.refl s
  cases h with
  | accepts fileDescriptor ip _ =>
    refine { hself with receivers := mayGo_update ?_, lists := fun o => ?_ }
    · rw [hs.notStarted _ (le_refl _)]
      exact ⟨by simp [ReceiverPc.stuck], by simp [ReceiverPc.past], by simp⟩
    · exact (sameLists_addClient s.server fileDescriptor ip).listOf o
  | locks _ _ => exact { hself with }
  | @pushes newClient hpc =>
    refine { hself with
      clients := fun o ho _ => List.mem_append_left _ ho
      joining := fun i o hrem _ => ?_ }
    have hin : s.InClients .acceptor := by
      show s.acceptor.locked = true
      rw [hpc]
      rfl
    have hin' : s.InClients .remover := by
      show s.remover.locked = true
      rw [hrem]
      rfl
    cases howned.unique hin hin'
  | counts _ => exact { hself with }
  | unlocks _ => exact { hself with }

/-- The remover goes on, and is not at a client whose thread runs. -/
theorem stalls_moveRemover {s s' : Sys} (hserver : s'.server.numbers = s.server.numbers ∧
      s'.server.sent = s.server.sent ∧ s'.server.files = s.server.files)
    (hreceivers : s'.receivers = s.receivers) (hlists : s.server.SameLists s'.server)
    (hclients : ∀ o ∈ s.server.clients, (s.receivers o).past = false → o ∈ s'.server.clients)
    (hjoining : ∀ i o, s.remover = .joining i o → (s.receivers o).past = true) :
    s.Stalls s' where
  receivers o := by
    rw [hreceivers]
    exact .refl _
  numbers := hserver.1
  sent := hserver.2.1
  files := hserver.2.2
  lists := hlists.listOf
  clients := hclients
  joining i o hrem hpast := by
    rw [hjoining i o hrem] at hpast
    cases hpast

theorem stalls_remover {s s' : Sys} (hs : s.Inv) (hflags : s.Flags) (h : s.RemoverMove s') :
    s.Stalls s' := by
  have hsame : s.server.SameLists s.server := ⟨rfl, rfl⟩
  cases h with
  | idles hold _ _ =>
    refine stalls_moveRemover ⟨rfl, rfl, rfl⟩ rfl hsame (fun _ ho _ => ho) fun i o hrem => ?_
    rw [hrem] at hold
    cases hold
  | locks hpc _ =>
    refine stalls_moveRemover ⟨rfl, rfl, rfl⟩ rfl hsame (fun _ ho _ => ho) fun i o hrem => ?_
    cases hpc.symm.trans hrem
  | unlocks hpc =>
    refine stalls_moveRemover ⟨rfl, rfl, rfl⟩ rfl hsame (fun _ ho _ => ho) fun i o hrem => ?_
    cases hpc.symm.trans hrem
  | fails e => exact { Sys.Stalls.refl s with }
  | finds hpc _ _ _ =>
    refine stalls_moveRemover ⟨rfl, rfl, rfl⟩ rfl hsame (fun _ ho _ => ho) fun i o hrem => ?_
    cases hpc.symm.trans hrem
  | joins hpc hfinished =>
    refine stalls_moveRemover ⟨rfl, rfl, rfl⟩ rfl hsame (fun _ ho _ => ho) fun i o hrem => ?_
    cases hpc.symm.trans hrem
    rw [hfinished]
    rfl
  | closes hpc _ =>
    refine stalls_moveRemover ⟨rfl, rfl, rfl⟩ rfl ⟨rfl, rfl⟩ (fun _ ho _ => ho)
      fun i o hrem => ?_
    cases hpc.symm.trans hrem
  | @deletes i client hpc =>
    refine stalls_moveRemover ⟨rfl, rfl, rfl⟩ rfl
      (sameLists_setObject s.server client (fun c => { c with deleted := true }) fun _ => rfl)
      (fun _ ho _ => ho) fun i o hrem => ?_
    cases hpc.symm.trans hrem
  | @erases i hpc =>
    refine stalls_moveRemover ⟨rfl, rfl, rfl⟩ rfl ⟨rfl, rfl⟩ (fun o ho hpast => ?_)
      fun i o hrem => by cases hpc.symm.trans hrem
    -- the thread of the entry that goes has finished
    obtain ⟨j, hj⟩ := List.mem_iff_getElem?.mp ho
    refine List.mem_eraseIdx_iff_getElem?.mpr ⟨j, ?_, hj⟩
    rintro rfl
    have hdeleted : s.deletedClient = some o := by
      unfold Sys.deletedClient
      rw [hpc]
      exact hj
    obtain ⟨c, hc, -, -, hdel⟩ := hflags.victim o (by
      unfold Sys.victim
      rw [hpc]
      exact hj)
    rw [hs.dead o c hc (hdel hdeleted)] at hpast
    cases hpast

theorem stalls_receiver {s s' : Sys} (hs : s.Inv) (hflags : s.Flags) {o : ClientPtr} {ID : CInt}
    (hw : s.Wedged o ID) {o' : ClientPtr} (h : s.ReceiverMove o' s') : s.Stalls s' := by
  have hself := Sys.Stalls.refl s
  obtain ⟨client, g, hpc⟩ := hw.draws
  have hheld := (hs.holder o).mp (by rw [hpc]; rfl)
  -- Only the thread that draws is in a callback.
  have honly : (s.receivers o').holds = true → o' = o := fun hholds => by
    have hheld' := (hs.holder o').mp hholds
    rw [hheld] at hheld'
    cases hheld'
    rfl
  cases h with
  | idles hbetween hidle hleaving hfinished =>
    refine { hself with receivers := mayGo_update ⟨fun hstuck => ?_, fun hpast => ?_, ?_⟩ }
    · cases hpc' : s.receivers o' <;> rw [hpc'] at hbetween hstuck <;>
        first | (cases hbetween; done) | cases hstuck
    · rename_i pc
      cases pc with
      | finished =>
        obtain ⟨c, hc, hconn⟩ := hfinished rfl
        rw [hflags.active o' c (active_of_between hbetween) hc] at hconn
        cases hconn
      | decrement => cases hleaving
      | _ => cases hpast
    · rintro hd rfl
      cases hidle
  | fails e => exact { hself with }
  | takes _ hfree =>
    rw [hheld] at hfree
    cases hfree
  | @handles hd hd' server rand r hpc' _ hstep =>
    obtain rfl := honly (by rw [hpc']; rfl)
    cases hpc.symm.trans hpc'
    have hdraw : s.server.draw ID g rand = .ok (none, s.server) := by
      rw [Server.draw, if_pos]
      · rfl
      · rw [ne_eq, List.count_eq_zero, not_not]
        obtain ⟨h0, h99, hpar⟩ := candidate_range ID rand
        by_contra hnew
        exact hw.used _ ⟨h0, h99, hpar, hnew⟩
    rw [HandlerPc.step, hdraw] at hstep
    cases hstep
    refine { hself with receivers := mayGo_update ?_ }
    rw [hpc]
    exact .refl _
  | returns hpc' =>
    obtain rfl := honly (by rw [hpc']; rfl)
    cases hpc.symm.trans hpc'
  | disconnects hpc' =>
    refine { hself with receivers := mayGo_update ?_, lists := fun o => ?_ }
    · rw [hpc']
      exact ⟨by simp [ReceiverPc.stuck], by simp [ReceiverPc.past], by simp⟩
    · exact (sameLists_setObject s.server o' (fun c => { c with isConnected := false })
        fun _ => rfl).listOf o
  | notifies _ hfree =>
    rw [hheld] at hfree
    cases hfree
  | notified hpc' =>
    obtain rfl := honly (by rw [hpc']; rfl)
    cases hpc.symm.trans hpc'
  | counts hpc' =>
    refine { hself with receivers := mayGo_update ?_ }
    rw [hpc']
    exact ⟨by simp [ReceiverPc.stuck], fun _ => rfl, by simp⟩

/-- What the state has to keep for the stall to go on. -/
structure Sys.Held (s : Sys) (o : ClientPtr) (ID : CInt) : Prop where
  inv : s.Inv
  flags : s.Flags
  clientsMtx : Owned s.clientsMtx s.InClients
  wedged : s.Wedged o ID

theorem held_step {s s' : Sys} {o : ClientPtr} {ID : CInt} (hs : s.Held o ID) {a : Act}
    (h : s.Step a s') : s'.Held o ID ∧ s.Stalls s' := by
  have hstalls : s.Stalls s' := by
    cases a with
    | acceptor fileDescriptor ip => exact stalls_acceptor hs.inv hs.clientsMtx (acceptor_step h)
    | remover closeRet => exact stalls_remover hs.inv hs.flags (remover_move h)
    | receiver o' event rand r =>
      exact stalls_receiver hs.inv hs.flags hs.wedged (receiver_move h)
  exact ⟨⟨sys_step_inv hs.inv h, flags_step hs.inv hs.flags h, clientsMtx_step hs.clientsMtx h,
    hs.wedged.stalls hstalls⟩, hstalls⟩

/-- Once a handler draws for an index of whose parity no number is left, the service is over:
    whatever the threads do from there on, the handler draws, no number is given, nothing is
    sent or written, whoever waits for `_subscribersMtx` waits, no client whose thread has not
    got beyond it is removed; and if the remover has come to join such a thread, it stays there,
    and `_clients` as it is. -/
theorem wedged_stalls {s s' : Sys} (hs : s.Reachable) {o : ClientPtr} {ID : CInt}
    (hw : s.Wedged o ID) {acts : List Act} (hrun : Run Sys.Step s acts s') : s.Stalls s' := by
  refine (hrun.invariant (I := fun t => t.Held o ID ∧ s.Stalls t) (fun t a t' ht hstep => ?_)
    ⟨⟨sys_reachable_inv hs, sys_reachable_flags hs, sys_reachable_clientsMtx hs, hw⟩,
      .refl s⟩).2
  obtain ⟨hheld, hstalls⟩ := held_step ht.1 hstep
  exact ⟨hheld, ht.2.trans hstalls⟩

/-- Client 1 has been given the fifty odd numbers and asks once more, while client 0 waits. -/
theorem stage_wedged :
    ∃ (s : Sys) (ID : CInt), s.Reachable ∧ s.Wedged 1 ID ∧ s.receivers 0 = .publishMsg (bytes "0") ∧
      (0 : ℤ) ∉ s.server.numbers := by
  obtain ⟨s, hs⟩ := stage_all (le_refl 50)
  set odd : CInt := ⟨1, by decide, by decide⟩
  have hinv := sys_reachable_inv hs.reachable
  have hask := message_received hinv hs.fault hs.odd (bytes "1")
  set s1 : Sys := s.setReceiver 1 (.publishMsg (bytes "1"))
  have hinv1 := sys_step_inv hinv hask
  have htaken := request_taken hinv1 hs.fault hs.free (setReceiver_self s 1 _)
  set s2 : Sys := { s1.setReceiver 1 (.handling (.parse (bytes "1"))) with
    subscribersMtx := some (.receiver 1) }
  have hstart := handler_run_start ⟨0, ""⟩ (show decodeID (bytes "1") = .ok odd from rfl)
    (stage_at_one hs odd rfl)
  have hdraw := reaches_of_handler_run hstart (sys_step_inv hinv1 htaken) hs.fault
    (o := 1) (setReceiver_self s1 1 _) rfl
  obtain ⟨sockfd, hinit⟩ := hs.reachable
  refine ⟨_, odd, ⟨sockfd, hinit.trans (.head hask (.head htaken hdraw))⟩,
    ⟨⟨1, 1, setReceiver_self s2 1 _⟩, fun n hn => hn.new ?_⟩, ?_, ?_⟩
  · have hpar : n % 2 = 1 := hn.parity
    have h0 := hn.zero_le
    have h99 := hn.le_99
    show n ∈ s.server.numbers
    rw [hs.numbers]
    exact List.mem_map.mpr ⟨n.toNat / 2, List.mem_range.mpr (by omega), by omega⟩
  · have hne : (0 : ClientPtr) ≠ 1 := by decide
    exact (setReceiver_ne s2 hne _).trans
      ((setReceiver_ne s1 hne (.handling (.parse (bytes "1")))).trans
        ((setReceiver_ne s hne _).trans hs.even))
  · show (0 : ℤ) ∉ s.server.numbers
    rw [hs.numbers]
    intro hm
    obtain ⟨i, -, heq⟩ := List.mem_map.mp hm
    omega

/-- The even numbers are all left, and client 0 will never be given one. -/
theorem wedged_stalls_even :
    ∃ s : Sys, s.Reachable ∧ (0 : ℤ) ∉ s.server.numbers ∧
      ∀ (acts : List Act) (s' : Sys), Run Sys.Step s acts s' →
        s'.receivers 0 = .publishMsg (bytes "0") ∧ s'.server.sent = s.server.sent := by
  obtain ⟨s, ID, hs, hw, h0, hnew⟩ := stage_wedged
  refine ⟨s, hs, hnew, fun acts s' hrun => ?_⟩
  have hstalls := wedged_stalls hs hw hrun
  refine ⟨?_, hstalls.sent⟩
  rw [(hstalls.receivers 0).stuck (by rw [h0]; rfl), h0]

end TCPServer
