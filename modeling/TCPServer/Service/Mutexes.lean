/-
  Who has the two mutexes.

  `Service.Locked`: each mutex is owned by the thread that is inside the sections it guards.
  Every step keeps it (`step_locked`); `run_effect` is all that the functions called under a
  mutex do.
-/
import TCPServer.Lib.Locks
import TCPServer.Service.System

namespace TCPServer

open Locks Runs

/-- The thread is inside a section that `_clientsMtx` guards. -/
def Service.HoldsClients (s : Service) : ThreadId → Prop
  | .acceptor => s.acceptor.holds = true
  | .remover => s.remover.holds = true
  | .task _ => False
  | .closer => s.closer.holds = true
  | .caller n => (s.callers n).holdsClients = true

/-- The thread is inside a section that `_subscribersMtx` guards. -/
def Service.HoldsSubscribers (s : Service) : ThreadId → Prop
  | .task o => (s.tasks o).holds = true
  | .caller n => (s.callers n).holdsSubscribers = true
  | _ => False

/-- The mutexes have their owners, and no thread runs for an object that was not created. -/
structure Service.Locked (s : Service) : Prop where
  clients : Owned s.clientsMtx s.HoldsClients
  subscribers : Owned s.subscribersMtx s.HoldsSubscribers
  fresh : ∀ o, s.server.objects.length ≤ o → s.tasks o = .notStarted

/-! ## Called functions -/

/-- All that a called function changes. -/
theorem run_effect {s s' : Service} {c : Call} (h : s.run c = .ok s') :
    ∃ subscribers sent,
      s' = { s with subscribers := subscribers, server := { s.server with sent := sent } } := by
  cases c with
  | subscribe observer =>
    cases h
    exact ⟨_, _, rfl⟩
  | printClients =>
    obtain ⟨-, -, h⟩ := bind_ok_iff.mp h
    cases h
    exact ⟨_, _, rfl⟩
  | sendToAllClients msg results =>
    obtain ⟨⟨p, server⟩, hsend, h⟩ := bind_ok_iff.mp h
    obtain ⟨sent, rfl⟩ := sendLoop_sent hsend
    cases h
    exact ⟨_, sent, rfl⟩
  | sendToClient clientIP msg r =>
    obtain ⟨⟨p, server⟩, hsend, h⟩ := bind_ok_iff.mp h
    obtain ⟨sent, rfl⟩ := sendToClientIP_sent hsend
    cases h
    exact ⟨_, sent, rfl⟩

/-- All that a step of a caller changes. -/
theorem caller_effect {s s' : Service} {n : ℕ} (h : s.CallerStep n s') :
    ∃ subscribers sent callers clientsMtx subscribersMtx fault,
      s' = { s with
        subscribers := subscribers, server := { s.server with sent := sent }, callers := callers,
        clientsMtx := clientsMtx, subscribersMtx := subscribersMtx, fault := fault } := by
  cases h with
  | locksClients _ _ _ => exact ⟨_, _, _, _, _, _, rfl⟩
  | locksSubscribers _ _ _ => exact ⟨_, _, _, _, _, _, rfl⟩
  | runsOnClients _ _ hrun =>
    obtain ⟨subscribers, sent, rfl⟩ := run_effect hrun
    exact ⟨_, _, _, _, _, _, rfl⟩
  | runsOnSubscribers _ _ hrun =>
    obtain ⟨subscribers, sent, rfl⟩ := run_effect hrun
    exact ⟨_, _, _, _, _, _, rfl⟩
  | fails _ _ => exact ⟨_, _, _, _, _, _, rfl⟩

/-! ## One thread moves -/

section Frame

variable {s s' : Service}

@[simp] theorem setTask_self (s : Service) (o : ClientPtr) (pc : TaskPc) :
    (s.setTask o pc).tasks o = pc :=
  Function.update_self _ _ _

theorem setTask_ne (s : Service) {o o' : ClientPtr} (ho : o' ≠ o) (pc : TaskPc) :
    (s.setTask o pc).tasks o' = s.tasks o' :=
  Function.update_of_ne ho _ _

/-- The sections are entered and left by the threads whose points in them change. -/
theorem holdsClients_congr (ha : s'.acceptor.holds = s.acceptor.holds)
    (hr : s'.remover.holds = s.remover.holds) (hc : s'.closer.holds = s.closer.holds)
    (hk : ∀ n, (s'.callers n).holdsClients = (s.callers n).holdsClients) (t : ThreadId) :
    s'.HoldsClients t ↔ s.HoldsClients t := by
  cases t with
  | acceptor => simp only [Service.HoldsClients, ha]
  | remover => simp only [Service.HoldsClients, hr]
  | task o => exact Iff.rfl
  | closer => simp only [Service.HoldsClients, hc]
  | caller n => simp only [Service.HoldsClients, hk]

theorem holdsSubscribers_congr (ht : ∀ o, (s'.tasks o).holds = (s.tasks o).holds)
    (hk : ∀ n, (s'.callers n).holdsSubscribers = (s.callers n).holdsSubscribers)
    (t : ThreadId) : s'.HoldsSubscribers t ↔ s.HoldsSubscribers t := by
  cases t with
  | task o => simp only [Service.HoldsSubscribers, ht]
  | caller n => simp only [Service.HoldsSubscribers, hk]
  | _ => exact Iff.rfl

/-- A property of the value at each point is kept by an update that keeps it. -/
theorem update_apply_eq {α β γ : Type} [DecidableEq α] {g : α → β} {a : α} {b : β} {f : β → γ}
    (h : f b = f (g a)) (x : α) : f (Function.update g a b x) = f (g x) := by
  by_cases hx : x = a
  · subst hx
    rw [Function.update_self, h]
  · rw [Function.update_of_ne hx]

/-- The other threads are in the sections they were in. -/
theorem holdsClients_of_ne {t u : ThreadId} (hu : u ≠ t)
    (ha : t = .acceptor ∨ s'.acceptor = s.acceptor) (hr : t = .remover ∨ s'.remover = s.remover)
    (hc : t = .closer ∨ s'.closer = s.closer)
    (hk : ∀ n, t = .caller n ∨ s'.callers n = s.callers n) :
    s'.HoldsClients u ↔ s.HoldsClients u := by
  cases u with
  | acceptor => simp only [Service.HoldsClients, ha.resolve_left (Ne.symm hu)]
  | remover => simp only [Service.HoldsClients, hr.resolve_left (Ne.symm hu)]
  | task o => exact Iff.rfl
  | closer => simp only [Service.HoldsClients, hc.resolve_left (Ne.symm hu)]
  | caller n => simp only [Service.HoldsClients, (hk n).resolve_left (Ne.symm hu)]

theorem holdsSubscribers_of_ne {t u : ThreadId} (hu : u ≠ t)
    (ht : ∀ o, t = .task o ∨ s'.tasks o = s.tasks o)
    (hk : ∀ n, t = .caller n ∨ s'.callers n = s.callers n) :
    s'.HoldsSubscribers u ↔ s.HoldsSubscribers u := by
  cases u with
  | task o => simp only [Service.HoldsSubscribers, (ht o).resolve_left (Ne.symm hu)]
  | caller n => simp only [Service.HoldsSubscribers, (hk n).resolve_left (Ne.symm hu)]
  | _ => exact Iff.rfl

theorem setTask_eq_or (s : Service) (o : ClientPtr) (pc : TaskPc) (o' : ClientPtr) :
    ThreadId.task o = .task o' ∨ (s.setTask o pc).tasks o' = s.tasks o' := by
  by_cases ho : o' = o
  · exact .inl (ho ▸ rfl)
  · exact .inr (setTask_ne s ho pc)

theorem setCaller_eq_or (s : Service) (n : ℕ) (pc : CallPc) (m : ℕ) :
    ThreadId.caller n = .caller m ∨ (s.setCaller n pc).callers m = s.callers m := by
  by_cases hm : m = n
  · exact .inl (hm ▸ rfl)
  · exact .inr (Function.update_of_ne hm _ _)

@[simp] theorem setCaller_self (s : Service) (n : ℕ) (pc : CallPc) :
    (s.setCaller n pc).callers n = pc :=
  Function.update_self _ _ _

theorem holdsClients_acceptor {pc : AcceptorPc} (hpc : s.acceptor = pc) (h : pc.holds = true) :
    s.HoldsClients .acceptor := by
  show s.acceptor.holds = true
  rw [hpc, h]

theorem holdsClients_remover {pc : SweepPc} (hpc : s.remover = pc) (h : pc.holds = true) :
    s.HoldsClients .remover := by
  show s.remover.holds = true
  rw [hpc, h]

theorem holdsClients_closer {pc : ClosePc} (hpc : s.closer = pc) (h : pc.holds = true) :
    s.HoldsClients .closer := by
  show s.closer.holds = true
  rw [hpc, h]

end Frame

theorem length_setObject (s : Server) (o : ClientPtr) (f : Client → Client) :
    (s.setObject o f).objects.length = s.objects.length :=
  List.length_modify f s.objects o

/-- A thread that runs has an object. -/
theorem Service.Locked.lt {s : Service} (hs : s.Locked) {o : ClientPtr}
    (ho : s.tasks o ≠ .notStarted) : o < s.server.objects.length :=
  Nat.lt_of_not_le fun hle => ho (hs.fresh o hle)

theorem fresh_setTask {s : Service} (hs : s.Locked) {o : ClientPtr}
    (ho : s.tasks o ≠ .notStarted) (pc : TaskPc) {o' : ClientPtr}
    (ho' : s.server.objects.length ≤ o') : (s.setTask o pc).tasks o' = .notStarted := by
  have hne : o' ≠ o := fun h => absurd (hs.lt ho) (Nat.not_lt_of_le (h ▸ ho'))
  rw [setTask_ne s hne]
  exact hs.fresh o' ho'

/-! ## The steps -/

theorem world_locked {s s' : Service} {l : Label} (hs : s.Locked) (h : s.WorldStep l s') :
    s'.Locked := by
  cases h with
  | connects fileDescriptor ip hpc =>
    have hnew := hs.fresh s.server.objects.length (Nat.le_refl _)
    refine ⟨hs.clients.keep ?_, hs.subscribers.keep ?_, fun o ho => ?_⟩
    · exact holdsClients_congr (by rw [hpc]; rfl) rfl rfl fun _ => rfl
    · exact holdsSubscribers_congr (update_apply_eq (by rw [hnew]; rfl)) fun _ => rfl
    · have hle : s.server.objects.length + 1 ≤ o := by
        simpa only [Server.newClient, List.length_append, List.length_singleton] using ho
      exact (setTask_ne s (Nat.ne_of_gt hle) _).trans (hs.fresh o (Nat.le_of_succ_le hle))
  | peerSends msg _ => exact ⟨hs.clients, hs.subscribers, hs.fresh⟩
  | peerCloses o => exact ⟨hs.clients, hs.subscribers, hs.fresh⟩
  | calls c hpc =>
    exact ⟨hs.clients.keep
        (holdsClients_congr rfl rfl rfl (update_apply_eq (by rw [hpc]; rfl))),
      hs.subscribers.keep
        (holdsSubscribers_congr (fun _ => rfl) (update_apply_eq (by rw [hpc]; rfl))), hs.fresh⟩
  | closes hpc =>
    refine ⟨hs.clients.keep (holdsClients_congr rfl rfl ?_ fun _ => rfl), hs.subscribers,
      hs.fresh⟩
    rcases hpc with hpc | ⟨ok, hpc⟩ <;> rw [hpc] <;> rfl

theorem acceptor_locked {s s' : Service} (hs : s.Locked) (h : s.AcceptorStep s') :
    s'.Locked := by
  have hframe : ∀ {s'' : Service}, s''.remover = s.remover → s''.closer = s.closer →
      s''.callers = s.callers → ∀ t, t ≠ .acceptor → (s''.HoldsClients t ↔ s.HoldsClients t) :=
    fun hr hc hk t ht =>
      holdsClients_of_ne ht (.inl rfl) (.inr hr) (.inr hc) fun n => .inr (congrFun hk n)
  cases h with
  | locks hpc hfree =>
    have hnone := hs.clients.of_free hfree
    exact ⟨hnone.lock rfl (hframe rfl rfl rfl), hs.subscribers, hs.fresh⟩
  | pushes hpc =>
    exact ⟨hs.clients.keep (holdsClients_congr (by rw [hpc]; rfl) rfl rfl fun _ => rfl),
      hs.subscribers, hs.fresh⟩
  | counts hpc =>
    exact ⟨hs.clients.keep (holdsClients_congr (by rw [hpc]; rfl) rfl rfl fun _ => rfl),
      hs.subscribers, hs.fresh⟩
  | unlocks hpc =>
    exact ⟨hs.clients.unlock (holdsClients_acceptor hpc rfl) nofun (hframe rfl rfl rfl),
      hs.subscribers, hs.fresh⟩

theorem remover_locked {s s' : Service} {how : How} (hs : s.Locked)
    (h : s.RemoverStep how s') : s'.Locked := by
  have hkeep : ∀ {s'' : Service}, s''.acceptor = s.acceptor → s''.closer = s.closer →
      s''.callers = s.callers → s''.remover.holds = s.remover.holds →
      Owned s.clientsMtx s''.HoldsClients :=
    fun ha hc hk hr => hs.clients.keep
      (holdsClients_congr (by rw [ha]) hr (by rw [hc]) fun n => by rw [hk])
  have hframe : ∀ {s'' : Service}, s''.acceptor = s.acceptor → s''.closer = s.closer →
      s''.callers = s.callers → ∀ t, t ≠ .remover → (s''.HoldsClients t ↔ s.HoldsClients t) :=
    fun ha hc hk t ht =>
      holdsClients_of_ne ht (.inr ha) (.inl rfl) (.inr hc) fun n => .inr (congrFun hk n)
  cases h with
  | locks hpc hfree =>
    have hnone := hs.clients.of_free hfree
    exact ⟨hnone.lock rfl (hframe rfl rfl rfl), hs.subscribers, hs.fresh⟩
  | unlocks hpc =>
    exact ⟨hs.clients.unlock (holdsClients_remover hpc rfl) nofun (hframe rfl rfl rfl),
      hs.subscribers, hs.fresh⟩
  | deletes hpc _ =>
    exact ⟨hkeep rfl rfl rfl (by rw [hpc]; rfl), hs.subscribers,
      fun o ho => hs.fresh o (by simpa only [Server.deleteClient, length_setObject] using ho)⟩
  | throws errno _ _ _ => exact ⟨hs.clients, hs.subscribers, hs.fresh⟩
  | _ =>
    rename_i hpc
    exact ⟨hkeep rfl rfl rfl (by simp_all [SweepPc.holds]), hs.subscribers, hs.fresh⟩

theorem task_locked {s s' : Service} {o : ClientPtr} {how : How} (hs : s.Locked)
    (h : s.TaskStep o how s') : s'.Locked := by
  have hruns : ∀ {pc : TaskPc}, s.tasks o = pc → pc ≠ .notStarted →
      s.tasks o ≠ .notStarted := fun hpc hne => hpc ▸ hne
  have hmove : ∀ {pc pc' : TaskPc}, s.tasks o = pc → pc'.holds = pc.holds →
      Owned s.subscribersMtx (s.setTask o pc').HoldsSubscribers :=
    fun hpc hsame => hs.subscribers.keep
      (holdsSubscribers_congr (update_apply_eq (by rw [hpc, hsame])) fun _ => rfl)
  have hin : ∀ {pc pc' : TaskPc}, s.tasks o = pc → s.subscribersMtx = none → pc'.holds = true →
      Owned (some (.task o)) (s.setTask o pc').HoldsSubscribers := fun {_ pc'} _ hfree hpc' => by
    have hnone := hs.subscribers.of_free hfree
    refine hnone.lock ?_ fun t ht => holdsSubscribers_of_ne ht
      (setTask_eq_or s o pc') fun _ => .inr rfl
    show ((s.setTask o pc').tasks o).holds = true
    rw [setTask_self, hpc']
  have hout : ∀ {pc pc' : TaskPc}, s.tasks o = pc → pc.holds = true → pc'.holds = false →
      Owned none (s.setTask o pc').HoldsSubscribers := fun {pc pc'} hpc hheld hpc' => by
    refine hs.subscribers.unlock (t := .task o) ?_ ?_ fun t ht => holdsSubscribers_of_ne ht
      (setTask_eq_or s o pc') fun _ => .inr rfl
    · show (s.tasks o).holds = true
      rw [hpc, hheld]
    · show ¬ ((s.setTask o pc').tasks o).holds = true
      rw [setTask_self, hpc']
      nofun
  cases h with
  | throws errno hpc => exact ⟨hs.clients, hs.subscribers, hs.fresh⟩
  | locks hpc hfree =>
    exact ⟨hs.clients, hin hpc hfree rfl, fun _ => fresh_setTask hs (hruns hpc nofun) _⟩
  | locksLast hpc hfree =>
    exact ⟨hs.clients, hin hpc hfree rfl, fun _ => fresh_setTask hs (hruns hpc nofun) _⟩
  | returns hpc hsame _ =>
    refine ⟨hs.clients, hout hpc rfl rfl, fun o' ho' => ?_⟩
    exact fresh_setTask hs (hruns hpc nofun) _ (length_objects_of_fixed hsame ▸ ho')
  | handlerThrows e hpc _ => exact ⟨hs.clients, hs.subscribers, hs.fresh⟩
  | notifies hpc =>
    exact ⟨hs.clients, hout hpc rfl rfl, fun _ => fresh_setTask hs (hruns hpc nofun) _⟩
  | clears hpc =>
    refine ⟨hs.clients, hmove hpc rfl, fun o' ho' => ?_⟩
    rw [Server.clearConnected, length_setObject] at ho'
    exact fresh_setTask hs (hruns hpc nofun) _ ho'
  | goesOn hpc _ =>
    exact ⟨hs.clients, hmove hpc rfl, fun _ => fresh_setTask hs (hruns hpc nofun) _⟩
  | leaves hpc _ =>
    exact ⟨hs.clients, hmove hpc rfl, fun _ => fresh_setTask hs (hruns hpc nofun) _⟩
  | timesOut hpc _ _ =>
    exact ⟨hs.clients, hmove hpc rfl, fun _ => fresh_setTask hs (hruns hpc nofun) _⟩
  | receives hpc _ =>
    exact ⟨hs.clients, hmove hpc rfl, fun _ => fresh_setTask hs (hruns hpc nofun) _⟩
  | failsToReceive stale hpc =>
    exact ⟨hs.clients, hmove hpc rfl, fun _ => fresh_setTask hs (hruns hpc nofun) _⟩
  | findsEnd hpc _ _ =>
    exact ⟨hs.clients, hmove hpc rfl, fun _ => fresh_setTask hs (hruns hpc nofun) _⟩
  | counts hpc =>
    exact ⟨hs.clients, hmove hpc rfl, fun _ => fresh_setTask hs (hruns hpc nofun) _⟩

theorem closer_locked {s s' : Service} {how : How} (hs : s.Locked) (h : s.CloserStep how s') :
    s'.Locked := by
  have hkeep : ∀ {s'' : Service}, s''.acceptor = s.acceptor → s''.remover = s.remover →
      s''.callers = s.callers → s''.closer.holds = s.closer.holds →
      Owned s.clientsMtx s''.HoldsClients :=
    fun ha hr hk hc => hs.clients.keep
      (holdsClients_congr (by rw [ha]) (by rw [hr]) hc fun n => by rw [hk])
  have hframe : ∀ {s'' : Service}, s''.acceptor = s.acceptor → s''.remover = s.remover →
      s''.callers = s.callers → ∀ t, t ≠ .closer → (s''.HoldsClients t ↔ s.HoldsClients t) :=
    fun ha hr hk t ht =>
      holdsClients_of_ne ht (.inr ha) (.inr hr) (.inl rfl) fun n => .inr (congrFun hk n)
  cases h with
  | locks hpc hfree =>
    have hnone := hs.clients.of_free hfree
    exact ⟨hnone.lock rfl (hframe rfl rfl rfl), hs.subscribers, hs.fresh⟩
  | unlocks hpc =>
    exact ⟨hs.clients.unlock (holdsClients_closer hpc rfl) nofun (hframe rfl rfl rfl),
      hs.subscribers, hs.fresh⟩
  | givesUp hpc =>
    exact ⟨hs.clients.unlock (holdsClients_closer hpc rfl) nofun (hframe rfl rfl rfl),
      hs.subscribers, hs.fresh⟩
  | _ =>
    rename_i hpc
    exact ⟨hkeep rfl rfl rfl (by simp_all [ClosePc.holds]), hs.subscribers, hs.fresh⟩

theorem caller_locked {s s' : Service} {n : ℕ} (hs : s.Locked) (h : s.CallerStep n s') :
    s'.Locked := by
  have hclients : ∀ {pc : CallPc}, pc.holdsClients = (s.callers n).holdsClients →
      Owned s.clientsMtx (s.setCaller n pc).HoldsClients := fun hsame =>
    hs.clients.keep (holdsClients_congr rfl rfl rfl (update_apply_eq hsame))
  have hsubscribers : ∀ {pc : CallPc}, pc.holdsSubscribers = (s.callers n).holdsSubscribers →
      Owned s.subscribersMtx (s.setCaller n pc).HoldsSubscribers := fun hsame =>
    hs.subscribers.keep (holdsSubscribers_congr (fun _ => rfl) (update_apply_eq hsame))
  have hother : ∀ {pc : CallPc} (t : ThreadId), t ≠ .caller n →
      ((s.setCaller n pc).HoldsClients t ↔ s.HoldsClients t) ∧
        ((s.setCaller n pc).HoldsSubscribers t ↔ s.HoldsSubscribers t) := fun {pc} t ht =>
    ⟨holdsClients_of_ne ht (.inr rfl) (.inr rfl) (.inr rfl) (setCaller_eq_or s n pc),
      holdsSubscribers_of_ne ht (fun _ => .inr rfl) (setCaller_eq_or s n pc)⟩
  have hself : ∀ {pc : CallPc},
      ((s.setCaller n pc).HoldsClients (.caller n) ↔ pc.holdsClients = true) ∧
        ((s.setCaller n pc).HoldsSubscribers (.caller n) ↔ pc.holdsSubscribers = true) :=
    fun {pc} => by simp only [Service.HoldsClients, Service.HoldsSubscribers, setCaller_self,
      and_self]
  cases h with
  | locksClients hpc hc hfree =>
    have hnone := hs.clients.of_free hfree
    exact ⟨hnone.lock (hself.1.mpr hc) fun t ht => (hother t ht).1,
      hsubscribers (by rw [hpc]; simp [CallPc.holdsSubscribers, hc]), hs.fresh⟩
  | @locksSubscribers c hpc hc hfree =>
    have hnone := hs.subscribers.of_free hfree
    have hc' : (!c.locksClients) = true := by rw [hc]; rfl
    exact ⟨hclients (by rw [hpc]; simp [CallPc.holdsClients, hc]),
      hnone.lock (hself.2.mpr hc') fun t ht => (hother t ht).2, hs.fresh⟩
  | runsOnClients hpc hc hrun =>
    obtain ⟨subscribers, sent, rfl⟩ := run_effect hrun
    have hin : s.HoldsClients (.caller n) := by
      show (s.callers n).holdsClients = true
      rw [hpc]
      exact hc
    exact ⟨hs.clients.unlock hin (mt hself.1.mp nofun) fun t ht => (hother t ht).1,
      hsubscribers (by rw [hpc]; simp [CallPc.holdsSubscribers, hc]), hs.fresh⟩
  | runsOnSubscribers hpc hc hrun =>
    obtain ⟨subscribers, sent, rfl⟩ := run_effect hrun
    have hin : s.HoldsSubscribers (.caller n) := by
      show (s.callers n).holdsSubscribers = true
      rw [hpc]
      simp [CallPc.holdsSubscribers, hc]
    exact ⟨hclients (by rw [hpc]; simp [CallPc.holdsClients, hc]),
      hs.subscribers.unlock hin (mt hself.2.mp nofun) fun t ht => (hother t ht).2, hs.fresh⟩
  | fails _ _ => exact ⟨hs.clients, hs.subscribers, hs.fresh⟩

theorem step_locked {s s' : Service} {l : Label} (hs : s.Locked) (h : s.Step l s') :
    s'.Locked := by
  cases h with
  | world _ h => exact world_locked hs h
  | acceptor _ h => exact acceptor_locked hs h
  | remover _ h => exact remover_locked hs h
  | task _ h => exact task_locked hs h
  | closer _ h => exact closer_locked hs h
  | caller _ h => exact caller_locked hs h
  | dangles _ _ _ => exact ⟨hs.clients, hs.subscribers, hs.fresh⟩

theorem init_locked (sockfd : ℤ) (automatic : Bool) : (Service.init sockfd automatic).Locked := by
  have hnobody : ∀ t, ¬ (Service.init sockfd automatic).HoldsClients t := by
    intro t
    cases t with
    | remover => cases automatic <;> nofun
    | _ => nofun
  refine ⟨fun t => iff_of_false (hnobody t) nofun, fun t => iff_of_false ?_ nofun,
    fun _ _ => rfl⟩
  cases t <;> nofun

theorem reachable_locked {s : Service} (h : s.Reachable) : s.Locked := by
  obtain ⟨sockfd, automatic, ls, hrun⟩ := h
  exact hrun.invariant (fun _ _ _ hs h => step_locked hs h) (init_locked sockfd automatic)

end TCPServer
