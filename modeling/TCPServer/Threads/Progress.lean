/-
  Whether a request that waits for `_subscribersMtx` can still be served.

  The mutex is held while a handler runs, so a waiting request is served only after the handler
  before it has ended. `Sys.Calm` says of a state that nothing is against this: the running
  handler finds its client and has a number to draw, and leaves one. After a run of calm states
  every pending request can be served (`reply_possible`): its client exists and the running
  handler is ready (`ready_run`), so it can be run to its end, the mutex is free
  (`mutex_released`), and the handler of the pending request can be run.
-/
import TCPServer.Threads.Lookups

namespace TCPServer

open Runs

/-- The request of `o` for the index `ID` waits or is handled. -/
inductive Sys.Pending (s : Sys) (o : ClientPtr) (ID : CInt) : Prop
  | waits (msg : Bytes) :
      s.receivers o = .publishMsg msg → decodeID msg = .ok ID → s.Pending o ID
  | handled (h : HandlerPc) :
      s.receivers o = .handling h → h.index = some ID → s.Pending o ID

structure Sys.Calm (s : Sys) : Prop where
  /-- A request is taken up for an index in range. -/
  starts : ∀ o msg, s.receivers o = .handling (.parse msg) →
    ∃ ID c₀, decodeID msg = .ok ID ∧ s.server.at ID = .ok c₀
  steady : ∀ o h, s.receivers o = .handling h → s.Steady h
  /-- A handler that has yet to draw has a number left. -/
  number : ∀ o h ID, s.receivers o = .handling h → h.drawn = false → h.index = some ID →
    ∃ n, s.server.Free ID n
  /-- If a request of the same parity waits meanwhile, there are two. -/
  another : ∀ o h ID, s.receivers o = .handling h → h.drawn = false → h.index = some ID →
    ∀ o' msg ID', s.receivers o' = .publishMsg msg → decodeID msg = .ok ID' →
      ID'.val % 2 = ID.val % 2 → ∃ n m, n ≠ m ∧ s.server.Free ID n ∧ s.server.Free ID m
  /-- The remover is not about to erase the entry that a request waits for. -/
  slot : ∀ o msg ID, s.receivers o = .publishMsg msg → decodeID msg = .ok ID →
    ∀ i, s.remover = .erasing i → ID.val ≠ i

/-- The handler that runs, if there is one, is ready. -/
def Sys.AllReady (s : Sys) : Prop :=
  ∀ o h, s.receivers o = .handling h → ∃ ID c₀, h.Ready s.server ID c₀

/-! ## Handlers stay ready -/

/-- A thread is in the handler after its own step: it was there before, or has just got the
    mutex, or is at the end. -/
theorem handling_of_own {s s' : Sys} {o : ClientPtr} {h' : HandlerPc}
    (hstep : s.ReceiverEffect o s') (ho : s'.receivers o = .handling h') :
    (∃ h, s.receivers o = .handling h ∧ h ≠ .returned) ∨ (∃ msg, h' = .parse msg) ∨
      h' = .returned := by
  have hself := setReceiver_self s o
  cases hstep with
  | moves _ hpc =>
    rw [hself] at ho
    rw [ho] at hpc
    cases hpc
  | fails e =>
    by_cases hret : h' = .returned
    · exact .inr (.inr hret)
    · exact .inl ⟨h', ho, hret⟩
  | @takes msg _ _ =>
    cases (hself (.handling (.parse msg))).symm.trans ho
    exact .inr (.inl ⟨msg, rfl⟩)
  | handles hpc hret _ => exact .inl ⟨_, hpc, hret⟩
  | returns _ => cases (hself .check).symm.trans ho
  | disconnects _ => cases (hself .publishDisconnected).symm.trans ho
  | notifies _ _ => cases (hself .notifying).symm.trans ho
  | notified _ => cases (hself .decrement).symm.trans ho
  | counts _ => cases (hself .finished).symm.trans ho

theorem ready_parse {s : Sys} (hs : s.Inv) (hcalm : s.Calm) {o : ClientPtr} {msg : Bytes}
    (ho : s.receivers o = .handling (.parse msg)) :
    ∃ ID c₀, HandlerPc.Ready s.server ID c₀ (.parse msg) := by
  obtain ⟨ID, c₀, hmsg, hat⟩ := hcalm.starts o msg ho
  exact ⟨ID, c₀, ready_start hs hmsg hat (hcalm.steady o _ ho)⟩

theorem allReady_step {s s' : Sys} (hs : s.Inv) (hready : s.AllReady) (hcalm : s.Calm)
    (hcalm' : s'.Calm) {a : Act} (hstep : s.Step a s') : s'.AllReady := by
  intro o h' ho'
  by_cases ha : a.thread = .receiver o
  · cases a with
    | acceptor fileDescriptor ip => cases ha
    | remover closeRet => cases ha
    | receiver o' event rand r =>
      cases ha
      rcases handling_of_own (receiver_step_effect hstep) ho' with
        ⟨h, ho, hret⟩ | ⟨msg, rfl⟩ | rfl
      · obtain ⟨ID, c₀, hr⟩ := hready o h ho
        obtain ⟨h1, server, -, hr', rfl⟩ := ready_own hs ho hret hr hstep
        cases (setReceiver_self s o (.handling h1)).symm.trans ho'
        exact ⟨ID, c₀, hr'⟩
      · exact ready_parse (sys_step_inv hs hstep) hcalm' ho'
      · exact ⟨⟨0, by decide, by decide⟩, 0, ready_returned _ _ _⟩
  · rcases receivers_other ha hstep with hsame | ⟨-, hcheck⟩
    · rw [hsame] at ho'
      obtain ⟨ID, c₀, hr⟩ := hready o h' ho'
      have ho : s'.receivers o = .handling h' := by rw [hsame, ho']
      exact ⟨ID, c₀, (ready_other hs ho' ha hstep).2 ID c₀ hr (hcalm.steady o h' ho')
        (hcalm'.steady o h' ho)⟩
    · rw [hcheck] at ho'
      cases ho'

theorem calm_init (sockfd : ℤ) : (Sys.init sockfd).Calm where
  starts o msg ho := by cases ho
  steady o h ho := by cases ho
  number o h ID ho := by cases ho
  another o h ID ho := by cases ho
  slot o msg ID ho := by cases ho

/-- In a run of calm states the handler that runs is ready. -/
theorem ready_run {sockfd : ℤ} {s : Sys} {acts : List Act}
    (hrun : Run (Along Sys.Step fun _ _ s' => s'.Calm) (.init sockfd) acts s) :
    s.Inv ∧ s.Calm ∧ s.AllReady := by
  refine hrun.invariant (I := fun s => s.Inv ∧ s.Calm ∧ s.AllReady) ?_
    ⟨sys_init_inv sockfd, calm_init sockfd, fun o h ho => by cases ho⟩
  intro s1 a s2 h1 hstep
  obtain ⟨hs, hcalm, hready⟩ := h1
  obtain ⟨hstep, hcalm'⟩ := hstep
  exact ⟨sys_step_inv hs hstep, hcalm', allReady_step hs hready hcalm hcalm' hstep⟩

/-- While no callback runs and the remover is not erasing, the state is calm. -/
theorem calm_of_free {s : Sys} (hs : s.Inv) (hmtx : s.subscribersMtx = none)
    (hremover : ∀ i, s.remover ≠ .erasing i) : s.Calm := by
  have hidle : ∀ o h, s.receivers o ≠ .handling h := fun o h ho => by
    have hheld := (hs.holder o).mp (by rw [ho]; rfl)
    rw [hmtx] at hheld
    cases hheld
  exact ⟨fun o msg ho => absurd ho (hidle o _), fun o h ho => absurd ho (hidle o h),
    fun o h ID ho => absurd ho (hidle o h), fun o h ID ho => absurd ho (hidle o h),
    fun o msg ID _ _ i hi => absurd hi (hremover i)⟩

/-- A run without callbacks, in which the remover erases nothing, is calm. -/
theorem calm_run {s s' : Sys} {acts : List Act} (hs : s.Inv)
    (hrun : Run (Along Sys.Step fun _ _ s' => s'.subscribersMtx = none ∧
      ∀ i, s'.remover ≠ .erasing i) s acts s') :
    Run (Along Sys.Step fun _ _ s' => s'.Calm) s acts s' := by
  induction hrun with
  | nil s => exact .nil s
  | cons hl _ ih =>
    obtain ⟨hstep, hmtx, hremover⟩ := hl
    have hs1 := sys_step_inv hs hstep
    exact .cons ⟨hstep, calm_of_free hs1 hmtx hremover⟩ (ih hs1)

/-- So is the state in which a request for an index in range is taken up, with two numbers
    left. -/
theorem calm_of_taken {s : Sys} (hs : s.Inv) {o : ClientPtr} {msg : Bytes} {ID : CInt}
    {c₀ : ClientPtr} (ho : s.receivers o = .handling (.parse msg)) (hmsg : decodeID msg = .ok ID)
    (hat : s.server.at ID = .ok c₀) (hremover : ∀ i, s.remover ≠ .erasing i) {n m : ℤ}
    (hne : n ≠ m) (hn : s.server.Free ID n) (hm : s.server.Free ID m) : s.Calm := by
  have honly : ∀ o' h, s.receivers o' = .handling h → h = .parse msg := fun o' h ho' => by
    by_cases heq : o' = o
    · rw [heq, ho] at ho'
      cases ho'
      rfl
    · have hholds := not_holds_of_handling hs ho heq
      rw [ho'] at hholds
      cases hholds
  have hidx : ∀ o' h ID', s.receivers o' = .handling h → h.index = some ID' → ID' = ID :=
    fun o' h ID' ho' hi => by
      rw [honly o' h ho', HandlerPc.index, hmsg] at hi
      exact (Option.some.inj hi).symm
  refine ⟨fun o' msg' ho' => ?_, fun o' h ho' i hi => absurd hi (hremover i),
    fun o' h ID' ho' _ hi => ?_, fun o' h ID' ho' _ hi _ _ _ _ _ _ => ?_,
    fun o msg ID _ _ i hi => absurd hi (hremover i)⟩
  · cases honly o' _ ho'
    exact ⟨ID, c₀, hmsg, hat⟩
  · obtain rfl := hidx o' h ID' ho' hi
    exact ⟨n, hn⟩
  · obtain rfl := hidx o' h ID' ho' hi
    exact ⟨n, m, hne, hn, hm⟩

/-! ## Steps that can be taken -/

/-- A thread that runs can take the step of `receiverStep`. -/
theorem receiver_can {s s' : Sys} (hs : s.Inv) (hfault : s.fault = none) {o : ClientPtr}
    (hstarted : s.receivers o ≠ .notStarted) (hnotFinished : s.receivers o ≠ .finished)
    {event : ReceiveEvent} {rand : ℕ} {r : SendResult}
    (h : ∀ c, s.server.object o = .ok c → s.receiverStep o c event rand r = some s') :
    s.Step (.receiver o event rand r) s' := by
  obtain ⟨c, hc⟩ := alive_of_running hs hstarted hnotFinished
  unfold Sys.Step Sys.step
  rw [hfault, if_neg (by simp)]
  dsimp only
  rw [if_neg (by simp [hstarted, hnotFinished]), hc]
  exact h c hc

/-- A run of the handler alone is a run of the threads. -/
theorem reaches_of_handler_run {x x' : HandlerPc × Server} {ls : List (ℕ × SendResult)}
    (hrun : Run HandlerStep x ls x') {s : Sys} (hs : s.Inv) (hfault : s.fault = none)
    {o : ClientPtr} (ho : s.receivers o = .handling x.1) (hserver : s.server = x.2) :
    Reaches Sys.Step s { s.setReceiver o (.handling x'.1) with server := x'.2 } := by
  induction hrun generalizing s with
  | nil x =>
    have hsame : Function.update s.receivers o (.handling x.1) = s.receivers := by
      rw [← ho, Function.update_eq_self]
    have heq : ({ s.setReceiver o (.handling x.1) with server := x.2 } : Sys) = s := by
      unfold Sys.setReceiver
      rw [hsame, ← hserver]
    rw [heq]
    exact .refl s
  | @cons x x1 x' l ls hstep _ ih =>
    obtain ⟨hret, hok⟩ := hstep
    have hcan : s.Step (.receiver o .timeout l.1 l.2)
        { s.setReceiver o (.handling x1.1) with server := x1.2 } := by
      refine receiver_can hs hfault (by rw [ho]; simp) (by rw [ho]; simp) fun c _ => ?_
      rw [receiverStep_handling ho hret, hserver, hok]
    have hrest := ih (sys_step_inv hs hcan) hfault (setReceiver_self s o _) rfl
    refine .head hcan ?_
    have heq : Function.update (Function.update s.receivers o (.handling x1.1)) o
        (ReceiverPc.handling x'.1) = Function.update s.receivers o (.handling x'.1) :=
      Function.update_idem _ _ _
    unfold Sys.setReceiver at hrest ⊢
    dsimp only at hrest
    rw [heq] at hrest
    exact hrest

/-- A handler that is ready can be run to its end. -/
theorem handler_runs_to_end {s : Sys} (hs : s.Inv) (hfault : s.fault = none) {o : ClientPtr}
    {h : HandlerPc} (ho : s.receivers o = .handling h) {ID : CInt} {c₀ : ClientPtr}
    (hr : h.Ready s.server ID c₀) (hret : h ≠ .returned) {n : ℤ}
    (hn : h.drawn = false → s.server.Free ID n) :
    ∃ server, Reaches Sys.Step s { s.setReceiver o (.handling .returned) with server := server } ∧
      s.server.Finished server h c₀ n := by
  obtain ⟨ls, server, hrun, hfin⟩ := handler_finishes hs.separate hr hret hn ⟨0, ""⟩
  exact ⟨server, reaches_of_handler_run hrun hs hfault ho rfl, hfin⟩

/-! ## A pending request can be served -/

/-- When the running handler has taken its number, one is left for a waiting request. -/
theorem numbers_left {s : Sys} (hcalm : s.Calm) {o o' : ClientPtr} {msg : Bytes} {ID ID' : CInt}
    {h : HandlerPc} (ho : s.receivers o = .publishMsg msg) (hmsg : decodeID msg = .ok ID)
    (ho' : s.receivers o' = .handling h) (hdrawn : h.drawn = false) (hidx : h.index = some ID')
    {m : ℤ} (hm : s.server.Free ID m) :
    ∃ n m, n ≠ m ∧ s.server.Free ID' n ∧ s.server.Free ID m := by
  by_cases hpar : ID.val % 2 = ID'.val % 2
  · obtain ⟨n, m, hne, hn, hm⟩ := hcalm.another o' h ID' ho' hdrawn hidx o msg ID ho hmsg hpar
    exact ⟨n, m, hne, hn, hm.of_parity hpar⟩
  · obtain ⟨n, hn⟩ := hcalm.number o' h ID' ho' hdrawn hidx
    refine ⟨n, m, fun he => hpar ?_, hn, hm⟩
    rw [← hm.parity, ← he, hn.parity]

/-- The running handler can be run to its end, and a number is left for the request of `o`,
    which waits. -/
theorem running_ends {s : Sys} (hs : s.Inv) (hfault : s.fault = none) (hcalm : s.Calm)
    {o o' : ClientPtr} {msg : Bytes} {ID : CInt} (ho : s.receivers o = .publishMsg msg)
    (hmsg : decodeID msg = .ok ID) (hfree : ∃ m, s.server.Free ID m) {h : HandlerPc}
    (ho' : s.receivers o' = .handling h) {ID' : CInt} {c₀ : ClientPtr}
    (hr : h.Ready s.server ID' c₀) :
    ∃ server, Reaches Sys.Step s
        { s.setReceiver o' (.handling .returned) with server := server } ∧
      s.server.SameClients server ∧ (∃ m, server.Free ID m) ∧
      ∃ l, server.sent = s.server.sent ++ l := by
  by_cases hret : h = .returned
  · subst hret
    have hsame := reaches_of_handler_run (.nil (HandlerPc.returned, s.server)) hs hfault ho' rfl
    exact ⟨s.server, hsame, .refl _, hfree, [], (List.append_nil _).symm⟩
  · obtain ⟨c, hc⟩ := hr.alive hret
    obtain ⟨m, hm⟩ := hfree
    cases hdrawn : h.drawn with
    | true =>
      obtain ⟨server, hreach, hfin⟩ := handler_runs_to_end (n := m) hs hfault ho' hr hret
        fun hd => by
          rw [hdrawn] at hd
          cases hd
      obtain ⟨l, hrel⟩ := hfin.relists
      have hnumbers := hfin.numbers
      rw [if_pos hdrawn] at hnumbers
      exact ⟨server, hreach, hrel.same,
        ⟨m, hm.zero_le, hm.le_99, hm.parity, by rw [hnumbers]; exact hm.new⟩, _, hfin.sent c hc⟩
    | false =>
      obtain ⟨n, m, hne, hn, hm⟩ := numbers_left hcalm ho hmsg ho' hdrawn
        (hr.on.index_of_not_drawn hdrawn) hm
      obtain ⟨server, hreach, hfin⟩ := handler_runs_to_end hs hfault ho' hr hret fun _ => hn
      obtain ⟨l, hrel⟩ := hfin.relists
      have hnumbers := hfin.numbers
      rw [hdrawn, if_neg (by simp)] at hnumbers
      refine ⟨server, hreach, hrel.same, ⟨m, hm.zero_le, hm.le_99, hm.parity, ?_⟩, _,
        hfin.sent c hc⟩
      rw [hnumbers, List.mem_append, List.mem_singleton, not_or]
      exact ⟨hm.new, hne.symm⟩

theorem reaches_inv {s s' : Sys} (hs : s.Inv) (h : Reaches Sys.Step s s') : s'.Inv := by
  obtain ⟨acts, hrun⟩ := h
  exact hrun.invariant (fun _ _ _ hs hstep => sys_step_inv hs hstep) hs

/-- The thread that has `_subscribersMtx` can be run until it gives it back, and a number is
    left for the request of `o`. -/
theorem mutex_released {s : Sys} (hs : s.Inv)
    (hmtx : ∀ t, s.subscribersMtx = some t → ∃ o, t = .receiver o) (hfault : s.fault = none)
    (hcalm : s.Calm) (hready : s.AllReady) {o : ClientPtr} {msg : Bytes} {ID : CInt}
    (ho : s.receivers o = .publishMsg msg) (hmsg : decodeID msg = .ok ID)
    (hfree : ∃ m, s.server.Free ID m) :
    ∃ s1, Reaches Sys.Step s s1 ∧ s1.fault = none ∧ s1.subscribersMtx = none ∧
      s1.receivers o = .publishMsg msg ∧ s.server.SameClients s1.server ∧
      (∃ m, s1.server.Free ID m) ∧ ∃ l, s1.server.sent = s.server.sent ++ l := by
  cases hheld : s.subscribersMtx with
  | none =>
    exact ⟨s, .refl s, hfault, hheld, ho, .refl _, hfree, [], (List.append_nil _).symm⟩
  | some t =>
    obtain ⟨o', rfl⟩ := hmtx t hheld
    have hholds := (hs.holder o').mpr hheld
    have hne : o ≠ o' := by
      rintro rfl
      rw [ho] at hholds
      cases hholds
    cases ho' : s.receivers o' with
    | notifying =>
      refine ⟨{ s.setReceiver o' .decrement with subscribersMtx := none }, .of_step
        (l := .receiver o' .timeout 0 ⟨0, ""⟩) (receiver_can hs hfault (by rw [ho']; simp)
        (by rw [ho']; simp) fun c _ => ?_), hfault, rfl, ?_, .refl _, hfree, [],
        (List.append_nil _).symm⟩
      · simp only [Sys.receiverStep, ho']
      · exact (setReceiver_ne s hne _).trans ho
    | handling h =>
      obtain ⟨ID', c₀, hr⟩ := hready o' h ho'
      obtain ⟨server, hreach, hsame, hfree', hsent⟩ := running_ends hs hfault hcalm ho hmsg hfree
        ho' hr
      set s1 : Sys := { s.setReceiver o' (.handling .returned) with server := server } with hs1
      have ho1' : s1.receivers o' = .handling .returned := setReceiver_self s o' _
      have ho1 : s1.receivers o = .publishMsg msg := (setReceiver_ne s hne _).trans ho
      refine ⟨{ s1.setReceiver o' .check with subscribersMtx := none }, hreach.trans (.of_step
        (l := .receiver o' .timeout 0 ⟨0, ""⟩) (receiver_can (reaches_inv hs hreach) hfault
        (by rw [ho1']; simp) (by rw [ho1']; simp) fun c _ => ?_)), hfault, rfl, ?_, hsame, hfree',
        hsent⟩
      · simp only [Sys.receiverStep, ho1']
      · exact (setReceiver_ne s1 hne _).trans ho1
    | _ =>
      rw [ho'] at hholds
      cases hholds

theorem message_received {s : Sys} (hs : s.Inv) (hfault : s.fault = none) {o : ClientPtr}
    (ho : s.receivers o = .waiting) (msg : Bytes) :
    s.Step (.receiver o (.message msg) 0 ⟨0, ""⟩) (s.setReceiver o (.publishMsg msg)) := by
  refine receiver_can hs hfault (by rw [ho]; simp) (by rw [ho]; simp) fun c _ => ?_
  simp only [Sys.receiverStep, ho]

/-- A waiting request is taken up when the mutex is free. -/
theorem request_taken {s : Sys} (hs : s.Inv) (hfault : s.fault = none)
    (hmtx : s.subscribersMtx = none) {o : ClientPtr} {msg : Bytes}
    (ho : s.receivers o = .publishMsg msg) :
    s.Step (.receiver o .timeout 0 ⟨0, ""⟩) { s.setReceiver o (.handling (.parse msg)) with
      subscribersMtx := some (.receiver o) } := by
  refine receiver_can hs hfault (by rw [ho]; simp) (by rw [ho]; simp) fun c _ => ?_
  simp only [Sys.receiverStep, ho]
  rw [if_pos hmtx]

/-- A waiting request can be served once the mutex is free. -/
theorem waiting_served {s : Sys} (hs : s.Inv) (hfault : s.fault = none)
    (hmtx : s.subscribersMtx = none) {o c₀ : ClientPtr} {msg : Bytes} {ID : CInt}
    (ho : s.receivers o = .publishMsg msg) (hmsg : decodeID msg = .ok ID)
    (hat : s.server.at ID = .ok c₀) (halive : s.server.Alive c₀) {n : ℤ}
    (hn : s.server.Free ID n) :
    ∃ server, Reaches Sys.Step s { s.setReceiver o (.handling .returned) with
        server := server, subscribersMtx := some (.receiver o) } ∧
      s.server.Finished server (.parse msg) c₀ n := by
  have hlock := request_taken hs hfault hmtx ho
  set s1 : Sys := { s.setReceiver o (.handling (.parse msg)) with
    subscribersMtx := some (.receiver o) } with hs1
  have hready : HandlerPc.Ready s1.server ID c₀ (.parse msg) :=
    ⟨on_parse hmsg c₀, fun _ => hat, fun _ => halive, fun hd => by cases hd⟩
  obtain ⟨server, hreach, hfin⟩ := handler_runs_to_end (sys_step_inv hs hlock) hfault
    (setReceiver_self s o _) hready (by simp) fun _ => hn
  have hidem : Function.update s1.receivers o (.handling .returned) =
      Function.update s.receivers o (.handling .returned) := Function.update_idem _ _ _
  refine ⟨server, .head hlock ?_, hfin⟩
  unfold Sys.setReceiver at hreach ⊢
  rw [hidem] at hreach
  exact hreach

/-- After a run of calm states every pending request for an index in range, of whose parity a
    number is left, can be served: its handler ends, and the last message sent is its reply. -/
theorem reply_possible {sockfd : ℤ} {s : Sys} {acts : List Act}
    (hrun : Run (Along Sys.Step fun _ _ s' => s'.Calm) (.init sockfd) acts s)
    (hfault : s.fault = none) {o : ClientPtr} {ID : CInt} (hpending : s.Pending o ID)
    {c₀ : ClientPtr} (hat : s.server.at ID = .ok c₀) (hfree : ∃ n, s.server.Free ID n) :
    ∃ s' c n l, Reaches Sys.Step s s' ∧ s'.receivers o = .handling .returned ∧
      s.server.object c₀ = .ok c ∧
      s'.server.sent = s.server.sent ++ l ++ [(c.sockfd, to_string n)] := by
  obtain ⟨hs, hcalm, hready⟩ := ready_run hrun
  have hmtx := fun t => sys_reachable_subscribersMtx (t := t) ⟨sockfd, acts, hrun.of_along⟩
  cases hpending with
  | waits msg ho hmsg =>
    obtain ⟨s1, hreach, hfault1, hmtx1, ho1, hsame, ⟨m, hm⟩, l, hsent⟩ :=
      mutex_released hs hmtx hfault hcalm hready ho hmsg hfree
    obtain ⟨h0, hget⟩ := at_ok_iff.mp hat
    obtain ⟨c, hc⟩ := (hs.alive _ c₀ hget).resolve_right fun hpc =>
      hcalm.slot o msg ID ho hmsg _ hpc (Int.toNat_of_nonneg h0).symm
    obtain ⟨c1, hc1, hfix⟩ := hsame.object hc
    obtain ⟨server, hreach', hfin⟩ := waiting_served (reaches_inv hs hreach) hfault1 hmtx1 ho1
      hmsg ((hsame.at ID).trans hat) ⟨c1, hc1⟩ hm
    refine ⟨_, c, m, l, hreach.trans hreach', setReceiver_self s1 o _, hc, ?_⟩
    show server.sent = _
    rw [hfin.sent c1 hc1, hsent, Client.sockfd_of_fixed hfix]
    rfl
  | handled h ho hidx =>
    obtain ⟨ID', c₁, hr⟩ := hready o h ho
    obtain rfl := hr.on.index ID hidx
    have hret : h ≠ .returned := by
      rintro rfl
      cases hidx
    have hslot := hr.slot (by rw [hidx]; simp)
    rw [hat] at hslot
    cases hslot
    obtain ⟨c, hc⟩ := hr.alive hret
    obtain ⟨n, hn⟩ := hfree
    obtain ⟨server, hreach, hfin⟩ := handler_runs_to_end hs hfault ho hr hret fun _ => hn
    refine ⟨_, c, h.value n, [], hreach, setReceiver_self s o _, hc, ?_⟩
    rw [List.append_nil]
    exact hfin.sent c hc

/-- Client 1 is being served when the request of client 0 waits. -/
theorem reply_possible_behind_odd :
    ∃ (s s' : Sys) (c : Client) (n : ℤ) (l : List (ℤ × Bytes)), s.Reachable ∧
      s.receivers 1 = .handling (.parse (bytes "1")) ∧ s.receivers 0 = .publishMsg (bytes "0") ∧
      Reaches Sys.Step s s' ∧ s'.receivers 0 = .handling .returned ∧
      s'.server.sent = s.server.sent ++ l ++ [(c.sockfd, to_string n)] := by
  have hrun : ∃ s : Sys, Run (Along Sys.Step fun _ _ s' => s'.subscribersMtx = none ∧
        ∀ i, s'.remover ≠ .erasing i) (.init 3)
      [.acceptor 4 "10.0.0.1", .acceptor 0 "", .acceptor 0 "", .acceptor 0 "", .acceptor 0 "",
        .acceptor 5 "10.0.0.2", .acceptor 0 "", .acceptor 0 "", .acceptor 0 "", .acceptor 0 "",
        .receiver 0 .timeout 0 ⟨0, ""⟩, .receiver 0 (.message (bytes "0")) 0 ⟨0, ""⟩,
        .receiver 1 .timeout 0 ⟨0, ""⟩, .receiver 1 (.message (bytes "1")) 0 ⟨0, ""⟩] s ∧
      ∃ s1 : Sys, s.Step (.receiver 1 .timeout 0 ⟨0, ""⟩) s1 ∧
        s1.receivers 1 = .handling (.parse (bytes "1")) ∧ s1.fault = none ∧
        s1.receivers 0 = .publishMsg (bytes "0") ∧ s1.remover = .locking ∧
        s1.server.at ⟨0, by decide, by decide⟩ = .ok 0 ∧
        s1.server.at ⟨1, by decide, by decide⟩ = .ok 1 ∧ s1.server.numbers = [] :=
    ⟨_, .cons ⟨rfl, rfl, nofun⟩ (.cons ⟨rfl, rfl, nofun⟩ (.cons ⟨rfl, rfl, nofun⟩
      (.cons ⟨rfl, rfl, nofun⟩ (.cons ⟨rfl, rfl, nofun⟩ (.cons ⟨rfl, rfl, nofun⟩
      (.cons ⟨rfl, rfl, nofun⟩ (.cons ⟨rfl, rfl, nofun⟩ (.cons ⟨rfl, rfl, nofun⟩
      (.cons ⟨rfl, rfl, nofun⟩ (.cons ⟨rfl, rfl, nofun⟩ (.cons ⟨rfl, rfl, nofun⟩
      (.cons ⟨rfl, rfl, nofun⟩ (.cons ⟨rfl, rfl, nofun⟩ (.nil _)))))))))))))), _, rfl, rfl,
      rfl, rfl, rfl, rfl, rfl, rfl⟩
  obtain ⟨s, hrun, s1, hstep, h1, hfault, h0, hremover, hat0, hat1, hnumbers⟩ := hrun
  have hs1 := sys_reachable_inv ⟨3, _, hrun.of_along.snoc hstep⟩
  have hfree : ∀ (ID : CInt) (n : ℤ), 0 ≤ n → n ≤ 99 → n % 2 = ID.val % 2 →
      s1.server.Free ID n := fun ID n h0 h99 hpar =>
    ⟨h0, h99, hpar, by rw [hnumbers]; exact List.not_mem_nil⟩
  have hcalm : s1.Calm := calm_of_taken hs1 h1 rfl hat1 (by rw [hremover]; nofun)
    (show (1 : ℤ) ≠ 3 by decide) (hfree _ 1 (by decide) (by decide) rfl)
    (hfree _ 3 (by decide) (by decide) rfl)
  obtain ⟨s', c, n, l, hreach, hret, -, hsent⟩ :=
    reply_possible ((calm_run (sys_init_inv 3) hrun).snoc ⟨hstep, hcalm⟩) hfault
      (.waits (bytes "0") h0 rfl) hat0 ⟨0, hfree _ 0 (by decide) (by decide) rfl⟩
  exact ⟨s1, s', c, n, l, ⟨3, _, hrun.of_along.snoc hstep⟩, h1, h0, hreach, hret, hsent⟩

end TCPServer
