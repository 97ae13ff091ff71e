/-
  `close()` returns once the peers have closed their connections.

  If the peers of all clients still to be joined have closed their connections, `close()` can
  return by steps of the server's own threads (`returns_of_eof`): the receive threads are run
  to their ends first, then whoever has `_clientsMtx` gives it back, then the remover ends,
  then the loop of `close()` runs. Each phase has a measure that its steps lower. Together
  with `blocked_of_silent` this says exactly when `close()` can return.
-/
import TCPServer.Service.Closing

namespace TCPServer

open Locks Runs

/-! ## Receive threads come to their ends -/

section Own

variable {s s' : Service}

theorem own_acceptor (hf : s.fault = none) (h : s.AcceptorStep s') :
    Reaches Service.OwnStep s s' :=
  .of_step ⟨.acceptor hf h, rfl⟩

theorem own_remover (hf : s.fault = none) (h : s.RemoverStep .ok s') :
    Reaches Service.OwnStep s s' :=
  .of_step ⟨.remover hf h, rfl⟩

theorem own_task {o : ClientPtr} (hf : s.fault = none) (h : s.TaskStep o .ok s') :
    Reaches Service.OwnStep s s' :=
  .of_step ⟨.task hf h, rfl⟩

theorem own_closer (hf : s.fault = none) (h : s.CloserStep .ok s') :
    Reaches Service.OwnStep s s' :=
  .of_step ⟨.closer hf h, rfl⟩

theorem own_caller {n : ℕ} (hf : s.fault = none) (h : s.CallerStep n s') :
    Reaches Service.OwnStep s s' :=
  .of_step ⟨.caller hf h, rfl⟩

end Own

/-- From `s` to `s'` only receive threads and users of the subscribers have moved, and no
    receive thread has been started or has come back. -/
structure Service.TasksMove (s s' : Service) : Prop where
  clients : s'.server.clients = s.server.clients
  acceptor : s'.acceptor = s.acceptor
  remover : s'.remover = s.remover
  closer : s'.closer = s.closer
  eof : s'.eof = s.eof
  fault : s'.fault = s.fault
  finished : ∀ o, s.tasks o = .finished → s'.tasks o = .finished
  started : ∀ o, s.tasks o ≠ .notStarted → s'.tasks o ≠ .notStarted

theorem Service.TasksMove.refl (s : Service) : s.TasksMove s :=
  ⟨rfl, rfl, rfl, rfl, rfl, rfl, fun _ => id, fun _ => id⟩

theorem Service.TasksMove.trans {s s' s'' : Service} (h : s.TasksMove s')
    (h' : s'.TasksMove s'') : s.TasksMove s'' where
  clients := h'.clients.trans h.clients
  acceptor := h'.acceptor.trans h.acceptor
  remover := h'.remover.trans h.remover
  closer := h'.closer.trans h.closer
  eof := h'.eof.trans h.eof
  fault := h'.fault.trans h.fault
  finished := fun o ho => h'.finished o (h.finished o ho)
  started := fun o ho => h'.started o (h.started o ho)

/-- A receive thread that has not finished moves. -/
theorem tasksMove_setTask {s : Service} {o : ClientPtr} {pc : TaskPc}
    (ho : s.tasks o ≠ .finished) (hpc : pc ≠ .notStarted) : s.TasksMove (s.setTask o pc) :=
  ⟨rfl, rfl, rfl, rfl, rfl, rfl, fun _ => finished_setTask ho, fun _ => started_setTask hpc⟩

/-- Whoever has `_subscribersMtx` gives it back. -/
theorem release_subscribers {s : Service} (hs : s.Good) (hf : s.fault = none) :
    ∃ s', Reaches Service.OwnStep s s' ∧ s.TasksMove s' ∧ s'.subscribersMtx = none ∧
      s'.inbox = s.inbox ∧ ∀ o, (s.tasks o).holds = false → s'.tasks o = s.tasks o := by
  have hother : ∀ {o : ClientPtr} {pc : TaskPc}, (s.tasks o).holds = true →
      ∀ o', (s.tasks o').holds = false → (s.setTask o pc).tasks o' = s.tasks o' := by
    intro o pc ho o' ho'
    refine setTask_ne s ?_ pc
    rintro rfl
    rw [ho] at ho'
    cases ho'
  cases hmtx : s.subscribersMtx with
  | none => exact ⟨s, .refl s, .refl s, hmtx, rfl, fun _ _ => rfl⟩
  | some t =>
    have hin := (hs.locked.subscribers t).mpr hmtx
    cases t with
    | task o =>
      have hheld : (s.tasks o).holds = true := hin
      cases hpc : s.tasks o with
      | calling msg =>
        have hmove := tasksMove_setTask (s := s) (o := o) (by rw [hpc]; nofun)
          (show TaskPc.check ≠ .notStarted by nofun)
        exact ⟨_, own_task hf (task_returns hpc), { hmove with }, rfl, rfl, hother hheld⟩
      | notifying =>
        have hmove := tasksMove_setTask (s := s) (o := o) (by rw [hpc]; nofun)
          (show TaskPc.decrement ≠ .notStarted by nofun)
        exact ⟨_, own_task hf (.notifies hpc), { hmove with }, rfl, rfl, hother hheld⟩
      | _ => rw [hpc] at hheld; cases hheld
    | caller n =>
      have hheld : (s.callers n).holdsSubscribers = true := hin
      cases hpc : s.callers n with
      | running c =>
        rw [hpc] at hheld
        have hc : c.locksClients = false := by
          rw [← Bool.not_eq_true']
          exact hheld
        obtain ⟨s₁, hrun⟩ := run_ok hs.locked hs.inv hpc
        obtain ⟨subscribers, sent, rfl⟩ := run_effect hrun
        exact ⟨_, own_caller hf (.runsOnSubscribers hpc hc hrun),
          ⟨rfl, rfl, rfl, rfl, rfl, rfl, fun _ => id, fun _ => id⟩, rfl, rfl, fun _ _ => rfl⟩
      | _ => rw [hpc] at hheld; cases hheld
    | _ => exact hin.elim

/-- How much a receive thread still has to do from a point on, apart from its inbox. -/
def TaskPc.toDo : TaskPc → ℕ
  | .publishMsg _ => 8
  | .calling _ => 7
  | .check => 6
  | .waiting => 5
  | .clearFlag => 4
  | .publishDisconnected => 3
  | .notifying => 2
  | .decrement => 1
  | _ => 0

def Service.taskToDo (s : Service) (o : ClientPtr) : ℕ :=
  4 * (s.inbox o).length + (s.tasks o).toDo

/-- There is less to do at a later point with the same inbox. -/
theorem taskToDo_lt {s s' : Service} {o : ClientPtr} {pc pc' : TaskPc}
    (hinbox : s'.inbox o = s.inbox o) (hpc : s.tasks o = pc) (hpc' : s'.tasks o = pc')
    (hlt : pc'.toDo < pc.toDo) : s'.taskToDo o < s.taskToDo o := by
  unfold Service.taskToDo
  rw [hinbox, hpc, hpc']
  exact Nat.add_lt_add_left hlt _

/-- A receive thread in a started client whose peer has closed has less to do after some steps,
    or has finished. -/
theorem task_proceeds {s : Service} (hs : s.Good) (hf : s.fault = none) {o : ClientPtr}
    (heof : s.eof o = true) (hstarted : s.tasks o ≠ .notStarted) :
    s.tasks o = .finished ∨ ∃ s', Reaches Service.OwnStep s s' ∧ s.TasksMove s' ∧
      s'.taskToDo o < s.taskToDo o := by
  have hmoves : ∀ {s : Service} {p q : TaskPc}, s.tasks o = p → p ≠ .finished →
      q ≠ .notStarted → s.TasksMove (s.setTask o q) := fun hp hne hq =>
    tasksMove_setTask (hp ▸ hne) hq
  have hself : ∀ {s : Service} {pc' : TaskPc}, (s.setTask o pc').tasks o = pc' := fun {s _} =>
    setTask_self s o _
  cases hpc : s.tasks o with
  | notStarted => exact absurd hpc hstarted
  | finished => exact .inl rfl
  | check =>
    have hflag : s.server.isConnected o = true := by rw [hs.inv.flag, hpc]; rfl
    refine .inr ⟨_, own_task hf (.goesOn hpc hflag), hmoves hpc nofun nofun, ?_⟩
    exact taskToDo_lt rfl hpc hself (Nat.lt_succ_self _)
  | waiting =>
    cases hinbox : s.inbox o with
    | nil =>
      refine .inr ⟨_, own_task hf (.findsEnd hpc hinbox heof), hmoves hpc nofun nofun, ?_⟩
      exact taskToDo_lt rfl hpc hself (Nat.lt_succ_self _)
    | cons msg msgs =>
      refine .inr ⟨_, own_task hf (.receives hpc hinbox),
        { hmoves hpc (q := .publishMsg msg) nofun nofun with }, ?_⟩
      show 4 * (Function.update s.inbox o msgs o).length +
        ((s.setTask o (.publishMsg msg)).tasks o).toDo < 4 * (s.inbox o).length + (s.tasks o).toDo
      rw [Function.update_self, setTask_self, hinbox, hpc, List.length_cons]
      simp only [TaskPc.toDo]
      omega
  | publishMsg msg =>
    obtain ⟨s₁, hreach, hmove, hfree, hinbox, hsame⟩ := release_subscribers hs hf
    have hpc₁ : s₁.tasks o = .publishMsg msg := (hsame o (by rw [hpc]; rfl)).trans hpc
    refine .inr ⟨_, hreach.trans (own_task (hmove.fault.trans hf) (.locks hpc₁ hfree)),
      hmove.trans { hmoves hpc₁ (q := .calling msg) nofun nofun with }, ?_⟩
    exact taskToDo_lt (congrFun hinbox o) hpc hself (Nat.lt_succ_self _)
  | calling msg =>
    refine .inr ⟨_, own_task hf (task_returns hpc),
      { hmoves hpc (q := .check) nofun nofun with }, ?_⟩
    exact taskToDo_lt rfl hpc hself (Nat.lt_succ_self _)
  | clearFlag =>
    refine .inr ⟨_, own_task hf (.clears hpc),
      { hmoves hpc (q := .publishDisconnected) nofun nofun with }, ?_⟩
    exact taskToDo_lt rfl hpc hself (Nat.lt_succ_self _)
  | publishDisconnected =>
    obtain ⟨s₁, hreach, hmove, hfree, hinbox, hsame⟩ := release_subscribers hs hf
    have hpc₁ : s₁.tasks o = .publishDisconnected := (hsame o (by rw [hpc]; rfl)).trans hpc
    refine .inr ⟨_, hreach.trans (own_task (hmove.fault.trans hf) (.locksLast hpc₁ hfree)),
      hmove.trans { hmoves hpc₁ (q := .notifying) nofun nofun with }, ?_⟩
    exact taskToDo_lt (congrFun hinbox o) hpc hself (Nat.lt_succ_self _)
  | notifying =>
    refine .inr ⟨_, own_task hf (.notifies hpc),
      { hmoves hpc (q := .decrement) nofun nofun with }, ?_⟩
    exact taskToDo_lt rfl hpc hself (Nat.lt_succ_self _)
  | decrement =>
    refine .inr ⟨_, own_task hf (.counts hpc),
      { hmoves hpc (q := .finished) nofun nofun with }, ?_⟩
    exact taskToDo_lt rfl hpc hself (Nat.lt_succ_self _)

/-- The receive thread of a client whose peer has closed the connection comes to its end. -/
theorem finish_task {s : Service} (hs : s.Good) (hf : s.fault = none) {o : ClientPtr}
    (heof : s.eof o = true) (hstarted : s.tasks o ≠ .notStarted) :
    ∃ s', Reaches Service.OwnStep s s' ∧ s.TasksMove s' ∧ s'.tasks o = .finished := by
  have hloop : ∀ s₁ : Service, s₁.Good ∧ s.TasksMove s₁ →
      s₁.tasks o = .finished ∨ ∃ s₂, Reaches Service.OwnStep s₁ s₂ ∧
        (s₂.Good ∧ s.TasksMove s₂) ∧ s₂.taskToDo o < s₁.taskToDo o := by
    rintro s₁ ⟨hg, hmove⟩
    refine (task_proceeds hg (hmove.fault.trans hf) (by rw [hmove.eof, heof])
      (hmove.started o hstarted)).imp_right ?_
    rintro ⟨s₂, hreach, hmove', hlt⟩
    exact ⟨s₂, hreach, ⟨hg.reaches hreach, hmove.trans hmove'⟩, hlt⟩
  obtain ⟨s', hreach, ⟨-, hmove⟩, hfin⟩ :=
    reaches_of_measure (I := fun s₁ => s₁.Good ∧ s.TasksMove s₁)
      (G := fun s₁ => s₁.tasks o = .finished) (fun s₁ => s₁.taskToDo o) hloop ⟨hs, .refl s⟩
  exact ⟨s', hreach, hmove, hfin⟩

/-- So do those of all clients in a list whose peers have closed their connections. -/
theorem finish_tasks {s : Service} (hs : s.Good) (hf : s.fault = none) (os : List ClientPtr) :
    ∃ s', Reaches Service.OwnStep s s' ∧ s.TasksMove s' ∧
      ∀ o ∈ os, s.eof o = true → s.tasks o ≠ .notStarted → s'.tasks o = .finished := by
  induction os with
  | nil => exact ⟨s, .refl s, .refl s, nofun⟩
  | cons o os ih =>
    obtain ⟨s₁, hreach₁, hmove₁, hfin₁⟩ := ih
    by_cases ho : s.eof o = true ∧ s.tasks o ≠ .notStarted
    · obtain ⟨s₂, hreach₂, hmove₂, hfin₂⟩ := finish_task (hs.reaches hreach₁)
        (hmove₁.fault.trans hf) (by rw [hmove₁.eof, ho.1]) (hmove₁.started o ho.2)
      refine ⟨s₂, hreach₁.trans hreach₂, hmove₁.trans hmove₂, fun o' ho' heof hstarted => ?_⟩
      rcases List.mem_cons.mp ho' with rfl | ho'
      · exact hfin₂
      · exact hmove₂.finished o' (hfin₁ o' ho' heof hstarted)
    · refine ⟨s₁, hreach₁, hmove₁, fun o' ho' heof hstarted => ?_⟩
      rcases List.mem_cons.mp ho' with rfl | ho'
      · exact absurd ⟨heof, hstarted⟩ ho
      · exact hfin₁ o' ho' heof hstarted

/-! ## The remover comes to its end -/

/-- The receive threads of all clients that are listed or about to be have finished. -/
def Service.AllFinished (s : Service) : Prop :=
  ∀ o, o ∈ s.server.clients ∨ s.acceptor = .pushing o → s.tasks o = .finished

/-- `_clientsMtx` can be given back before the remover or `close()` goes on. -/
def Service.CanRelease (s : Service) : Prop :=
  ∃ s', Reaches Service.OwnStep s s' ∧ s'.clientsMtx = none ∧ s'.fault = none ∧
    s'.AllFinished ∧ s'.closer = s.closer ∧ s'.remover = s.remover

section Release

variable {s : Service}

theorem release_of_unlocking (hf : s.fault = none) (hall : s.AllFinished)
    (hpc : s.acceptor = .unlocking) : s.CanRelease := by
  refine ⟨_, own_acceptor hf (.unlocks hpc), rfl, hf, fun o ho => ?_, rfl, rfl⟩
  exact hall o (ho.imp_right nofun)

theorem release_of_counting (hf : s.fault = none) (hall : s.AllFinished)
    (hpc : s.acceptor = .counting) : s.CanRelease := by
  set s₁ : Service := { s with
    server := { s.server with numClientsConnected := s.server.numClientsConnected + 1 }
    acceptor := .unlocking }
  have hall₁ : s₁.AllFinished := fun o ho => hall o (ho.imp_right nofun)
  obtain ⟨s', hreach, hrest⟩ := release_of_unlocking (s := s₁) hf hall₁ rfl
  exact ⟨s', (own_acceptor hf (.counts hpc)).trans hreach, hrest⟩

theorem release_of_pushing (hf : s.fault = none) (hall : s.AllFinished) {newClient : ClientPtr}
    (hpc : s.acceptor = .pushing newClient) : s.CanRelease := by
  set s₁ : Service := { s with
    server := { s.server with clients := s.server.clients ++ [newClient] }
    acceptor := .counting }
  have hall₁ : s₁.AllFinished := fun o ho => by
    rcases List.mem_append.mp (ho.resolve_right nofun) with ho | ho
    · exact hall o (.inl ho)
    · rw [List.mem_singleton.mp ho]
      exact hall newClient (.inr hpc)
  obtain ⟨s', hreach, hrest⟩ := release_of_counting (s := s₁) hf hall₁ rfl
  exact ⟨s', (own_acceptor hf (.pushes hpc)).trans hreach, hrest⟩

/-- Whoever has `_clientsMtx` gives it back, if it is neither the remover nor `close()`. -/
theorem release_clients (hs : s.Good) (hf : s.fault = none) (hall : s.AllFinished)
    (hremover : s.remover.holds = false) (hcloser : s.closer.holds = false) :
    s.CanRelease := by
  cases hmtx : s.clientsMtx with
  | none => exact ⟨s, .refl s, hmtx, hf, hall, rfl, rfl⟩
  | some t =>
    have hin := (hs.locked.clients t).mpr hmtx
    cases t with
    | acceptor =>
      have hheld : s.acceptor.holds = true := hin
      cases hpc : s.acceptor with
      | pushing newClient => exact release_of_pushing hf hall hpc
      | counting => exact release_of_counting hf hall hpc
      | unlocking => exact release_of_unlocking hf hall hpc
      | _ => rw [hpc] at hheld; cases hheld
    | remover =>
      have hheld : s.remover.holds = true := hin
      rw [hremover] at hheld
      cases hheld
    | task o => exact hin.elim
    | closer =>
      have hheld : s.closer.holds = true := hin
      rw [hcloser] at hheld
      cases hheld
    | caller n =>
      have hheld : (s.callers n).holdsClients = true := hin
      cases hpc : s.callers n with
      | running c =>
        rw [hpc] at hheld
        obtain ⟨s₁, hrun⟩ := run_ok hs.locked hs.inv hpc
        obtain ⟨subscribers, sent, rfl⟩ := run_effect hrun
        exact ⟨_, own_caller hf (.runsOnClients hpc hheld hrun), rfl, hf, hall, rfl, rfl⟩
      | _ => rw [hpc] at hheld; cases hheld

end Release

/-! ## A sweep comes to its end -/

/-- The remover is in a sweep. -/
structure Service.InSweep (s : Service) : Prop where
  good : s.Good
  fault : s.fault = none
  holds : s.remover.holds = true

/-- From `s` to `s'` clients were taken out at most, receive threads have finished at most, and
    `close()` has not moved. -/
structure Service.SweptTo (s s' : Service) : Prop where
  clients : s'.server.clients ⊆ s.server.clients
  finished : ∀ o, s.tasks o = .finished → s'.tasks o = .finished
  closer : s'.closer = s.closer

theorem Service.SweptTo.refl (s : Service) : s.SweptTo s :=
  ⟨List.Subset.refl _, fun _ => id, rfl⟩

theorem Service.SweptTo.trans {s s' s'' : Service} (h : s.SweptTo s') (h' : s'.SweptTo s'') :
    s.SweptTo s'' where
  clients := List.Subset.trans h'.clients h.clients
  finished := fun o ho => h'.finished o (h.finished o ho)
  closer := h'.closer.trans h.closer

/-- How much of the sweep is left from a point on, with `n` clients listed, until one of them is
    erased. -/
def SweepPc.cost (n : ℕ) : SweepPc → ℕ
  | .comparing _ => n + 9
  | .scanning i => n - i + 8
  | .joining _ => 7
  | .closing _ => 6
  | .deleting _ => 5
  | .erasing _ => 4
  | _ => 0

/-- Each client listed can cost one more pass over the list. -/
def Service.sweepCost (s : Service) : ℕ :=
  s.server.clients.length * (s.server.clients.length + 10) +
    s.remover.cost s.server.clients.length

/-- The receive thread of a client that is not connected has found the end of the stream. -/
theorem ending_of_dead {s : Service} (hs : s.Good) {o : ClientPtr} (ho : o ∈ s.server.clients)
    (hdead : s.server.isConnected o = false) : (s.tasks o).ending = true := by
  have hstarted := hs.inv.started o (hs.inv.lt o ho)
  rw [hs.inv.flag] at hdead
  cases hpc : s.tasks o <;> rw [hpc] at hdead hstarted <;>
    first | rfl | exact absurd rfl hstarted | cases hdead

/-- A step of the remover that leaves the list of clients as it is. -/
theorem Service.InSweep.moves {s s' : Service} (hs : s.InSweep) (h : s.RemoverStep .ok s')
    (hclients : s'.server.clients = s.server.clients) (htasks : s'.tasks = s.tasks)
    (hcloser : s'.closer = s.closer) (hfault : s'.fault = s.fault)
    (hholds : s'.remover.holds = true)
    (hlt : s'.remover.cost s.server.clients.length < s.remover.cost s.server.clients.length) :
    ∃ s', Reaches Service.OwnStep s s' ∧ s'.InSweep ∧ s.SweptTo s' ∧
      s'.sweepCost < s.sweepCost := by
  have hreach := own_remover hs.fault h
  refine ⟨s', hreach, ⟨hs.good.reaches hreach, hfault.trans hs.fault, hholds⟩, ⟨?_, ?_, hcloser⟩,
    ?_⟩
  · rw [hclients]
    exact List.Subset.refl _
  · rw [htasks]
    exact fun _ => id
  · unfold Service.sweepCost
    rw [hclients]
    exact Nat.add_lt_add_left hlt _

/-- The thread of the client at the iterator comes to its end first, and is joined. -/
theorem join_proceeds {s : Service} (hs : s.InSweep) {i : ℕ} (hpc : s.remover = .joining i) :
    ∃ s', Reaches Service.OwnStep s s' ∧ s'.InSweep ∧ s.SweptTo s' ∧
      s'.sweepCost < s.sweepCost := by
  obtain ⟨o, hget, hdead⟩ := hs.good.inv.target i (by rw [hpc]; rfl)
  have ho := List.mem_of_getElem? hget
  obtain ⟨s₁, hreach, hmove, hfin⟩ := finish_task hs.good hs.fault
    (hs.good.closing.eof o (ending_of_dead hs.good ho hdead))
    (hs.good.inv.started o (hs.good.inv.lt o ho))
  have hpc₁ : s₁.remover = .joining i := hmove.remover.trans hpc
  have hs₁ : s₁.InSweep :=
    ⟨hs.good.reaches hreach, hmove.fault.trans hs.fault, by rw [hpc₁]; rfl⟩
  have hget₁ : s₁.server.clients[i]? = some o := by rw [hmove.clients, hget]
  obtain ⟨s', hreach', hs', hswept, hlt⟩ := hs₁.moves (.joins hpc₁ hget₁ hfin) rfl rfl rfl rfl rfl
    (by rw [hpc₁]; exact Nat.lt_succ_self 6)
  refine ⟨s', hreach.trans hreach', hs', .trans ⟨?_, hmove.finished, hmove.closer⟩ hswept, ?_⟩
  · rw [hmove.clients]
    exact List.Subset.refl _
  · unfold Service.sweepCost at hlt ⊢
    rwa [hmove.clients, hmove.remover] at hlt

/-- The client at the iterator is erased. -/
theorem erase_proceeds {s : Service} (hs : s.InSweep) {i : ℕ} (hpc : s.remover = .erasing i) :
    ∃ s', Reaches Service.OwnStep s s' ∧ s'.InSweep ∧ s.SweptTo s' ∧
      s'.sweepCost < s.sweepCost := by
  obtain ⟨o, hget, -⟩ := hs.good.inv.target i (by rw [hpc]; rfl)
  obtain ⟨n, hn⟩ : ∃ n, s.server.clients.length = n + 1 :=
    ⟨_, (Nat.sub_add_cancel (Nat.one_le_of_lt (lt_of_getElem? hget))).symm⟩
  have hlength : (s.server.clients.eraseIdx i).length = n := by
    rw [List.length_eraseIdx_of_lt (lt_of_getElem? hget), hn]
    rfl
  have hreach := own_remover hs.fault (.erases hpc)
  refine ⟨_, hreach, ⟨hs.good.reaches hreach, hs.fault, rfl⟩,
    ⟨List.eraseIdx_subset, fun _ => id, rfl⟩, ?_⟩
  show (s.server.clients.eraseIdx i).length * ((s.server.clients.eraseIdx i).length + 10) +
      ((s.server.clients.eraseIdx i).length + 9) < s.sweepCost
  unfold Service.sweepCost
  rw [hlength, hn, hpc]
  simp only [SweepPc.cost]
  nlinarith

theorem sweep_proceeds {s : Service} (hs : s.InSweep) :
    s.remover = .unlocking ∨ ∃ s', Reaches Service.OwnStep s s' ∧ s'.InSweep ∧ s.SweptTo s' ∧
      s'.sweepCost < s.sweepCost := by
  have hi := hs.good.inv
  have hcost : ∀ {pc pc' : SweepPc} {n : ℕ}, s.remover = pc → pc'.cost n < pc.cost n →
      pc'.cost n < s.remover.cost n := fun hpc hlt => hpc ▸ hlt
  have hholds := hs.holds
  cases hpc : s.remover with
  | unlocking => exact .inl rfl
  | joining i => exact .inr (join_proceeds hs hpc)
  | erasing i => exact .inr (erase_proceeds hs hpc)
  | scanning i =>
    right
    cases hget : s.server.clients[i]? with
    | none =>
      exact hs.moves (.findsNone hpc hget) rfl rfl rfl rfl rfl (hcost hpc (Nat.succ_pos _))
    | some o =>
      have hlt := lt_of_getElem? hget
      cases hflag : s.server.isConnected o with
      | true =>
        refine hs.moves (.passes hpc hget hflag) rfl rfl rfl rfl rfl (hcost hpc ?_)
        simp only [SweepPc.cost]
        omega
      | false =>
        refine hs.moves (.finds hpc hget hflag) rfl rfl rfl rfl rfl (hcost hpc ?_)
        simp only [SweepPc.cost]
        omega
  | closing i =>
    obtain ⟨o, hget, -⟩ := hi.target i (by rw [hpc]; rfl)
    obtain ⟨c, hc⟩ := (hi.alive i o hget).resolve_right (by rw [hpc]; nofun)
    exact .inr (hs.moves (.closes hpc hget hc) rfl rfl rfl rfl rfl
      (hcost hpc (Nat.lt_succ_self 5)))
  | deleting i =>
    obtain ⟨o, hget, -⟩ := hi.target i (by rw [hpc]; rfl)
    exact .inr (hs.moves (.deletes hpc hget) rfl rfl rfl rfl rfl (hcost hpc (Nat.lt_succ_self 4)))
  | comparing i =>
    right
    by_cases hlast : i = s.server.clients.length
    · exact hs.moves (.wasLast hpc hlast) rfl rfl rfl rfl rfl (hcost hpc (Nat.succ_pos _))
    · exact hs.moves (.searchesAgain hpc hlast) rfl rfl rfl rfl rfl
        (hcost hpc (Nat.lt_succ_self _))
  | _ =>
    rw [hpc] at hholds
    cases hholds

/-- A sweep can come to its end, by steps of the server's own threads. -/
theorem sweep_ends {s : Service} (hs : s.InSweep) :
    ∃ s', Reaches Service.OwnStep s s' ∧ s'.InSweep ∧ s.SweptTo s' ∧ s'.remover = .unlocking := by
  obtain ⟨s', hreach, ⟨hs', hswept⟩, hends⟩ := reaches_of_measure
    (I := fun t => t.InSweep ∧ s.SweptTo t) (G := fun t => t.remover = .unlocking)
    Service.sweepCost (fun t ⟨ht, hswept⟩ => by
      refine (sweep_proceeds ht).imp_right ?_
      rintro ⟨t', hreach, ht', hswept', hlt⟩
      exact ⟨t', hreach, ⟨ht', hswept.trans hswept'⟩, hlt⟩) ⟨hs, .refl s⟩
  exact ⟨s', hreach, hs', hswept, hends⟩

/-! ## The remover comes to its end -/

/-- `close()` waits for the remover, all of whose clients are dead. -/
structure Service.Sweeping (s : Service) : Prop where
  good : s.Good
  fault : s.fault = none
  finished : ∀ o ∈ s.server.clients, s.tasks o = .finished
  closer : s.closer = .joiningRemover
  mutex : s.clientsMtx = none ∨ s.remover.holds = true

def Service.RemoverEnds (s : Service) : Prop :=
  ∃ s', Reaches Service.OwnStep s s' ∧ s'.Sweeping ∧ s'.remover = .ended

section Ends

variable {s s' : Service}

theorem Service.RemoverEnds.of_reaches (hreach : Reaches Service.OwnStep s s')
    (h : s'.RemoverEnds) : s.RemoverEnds := by
  obtain ⟨s'', hreach', hend⟩ := h
  exact ⟨s'', hreach.trans hreach', hend⟩

/-- A step of the remover that leaves the list of clients as it is. -/
theorem Service.Sweeping.moves (hs : s.Sweeping) (h : s.RemoverStep .ok s')
    (hclients : s'.server.clients = s.server.clients) (htasks : s'.tasks = s.tasks)
    (hcloser : s'.closer = s.closer) (hfault : s'.fault = s.fault)
    (hmutex : s'.clientsMtx = none ∨ s'.remover.holds = true)
    (hends : s'.Sweeping → s'.RemoverEnds) : s.RemoverEnds := by
  have hreach := own_remover hs.fault h
  refine .of_reaches hreach (hends ⟨hs.good.reaches hreach, hfault.trans hs.fault, fun o ho => ?_,
    hcloser.trans hs.closer, hmutex⟩)
  rw [hclients] at ho
  rw [htasks]
  exact hs.finished o ho

theorem ends_of_checking (hs : s.Sweeping) (hpc : s.remover = .checking) : s.RemoverEnds := by
  have hfree : s.clientsMtx = none := hs.mutex.resolve_right (by rw [hpc]; nofun)
  have hstop : s.stop = true := hs.good.closing.stopped hs.closer
  exact hs.moves (.ends hpc hstop) rfl rfl rfl rfl (.inl hfree) fun hs' => ⟨_, .refl _, hs', rfl⟩

theorem ends_of_sleeping (hs : s.Sweeping) (hpc : s.remover = .sleeping) : s.RemoverEnds := by
  have hfree : s.clientsMtx = none := hs.mutex.resolve_right (by rw [hpc]; nofun)
  exact hs.moves (.wakes hpc) rfl rfl rfl rfl (.inl hfree) fun hs' => ends_of_checking hs' rfl

theorem ends_of_holds (hs : s.Sweeping) (hholds : s.remover.holds = true) : s.RemoverEnds := by
  obtain ⟨s', hreach, hin, hswept, hpc⟩ := sweep_ends ⟨hs.good, hs.fault, hholds⟩
  have hs' : s'.Sweeping := ⟨hin.good, hin.fault,
    fun o ho => hswept.finished o (hs.finished o (hswept.clients ho)),
    hswept.closer.trans hs.closer, .inr hin.holds⟩
  exact .of_reaches hreach (hs'.moves (.unlocks hpc) rfl rfl rfl rfl (.inl rfl) fun hs'' =>
    ends_of_sleeping hs'' rfl)

/-- The remover comes to its end, with `_clientsMtx` free. -/
theorem remover_ends (hs : s.Sweeping) : s.RemoverEnds := by
  cases hpc : s.remover with
  | ended => exact ⟨s, .refl s, hs, hpc⟩
  | checking => exact ends_of_checking hs hpc
  | sleeping => exact ends_of_sleeping hs hpc
  | locking =>
    have hfree : s.clientsMtx = none := hs.mutex.resolve_right (by rw [hpc]; nofun)
    exact hs.moves (.locks hpc hfree) rfl rfl rfl rfl (.inr rfl) fun hs' => ends_of_holds hs' rfl
  | _ => exact ends_of_holds hs (by rw [hpc]; rfl)

end Ends

/-- While the remover sweeps no client is being added. -/
theorem Service.Sweeping.allFinished {s : Service} (hs : s.Sweeping) : s.AllFinished := by
  rintro o (ho | hpc)
  · exact hs.finished o ho
  · have hin := holdsClients_acceptor hpc rfl
    rcases hs.mutex with hfree | hremover
    · have hnone : Owned none s.HoldsClients := hfree ▸ hs.good.locked.clients
      exact absurd hin (hnone.free .acceptor)
    · exact absurd hremover (hs.good.locked.clients.excludes hin (u := .remover) nofun)

/-! ## The loop of `close()` -/

/-- `close()` has got `_clientsMtx`. -/
def ClosePc.entered : ClosePc → Bool
  | .joining _ => true
  | .closing _ => true
  | .unlocking _ => true
  | .closingSocket => true
  | .returned _ => true
  | _ => false

/-- How much `close()` still has to do once it is at its loop over the clients. -/
def ClosePc.toDo (clients : ℕ) : ClosePc → ℕ
  | .joining i => 2 * (clients - i) + 4
  | .closing i => 2 * (clients - i) + 3
  | .unlocking _ => 2
  | .closingSocket => 1
  | _ => 0

def Service.closeToDo (s : Service) : ℕ := s.closer.toDo s.server.clients.length

/-- `close()` is at its loop or past it, and all clients it still joins are dead. -/
structure Service.Finishing (s : Service) : Prop where
  good : s.Good
  fault : s.fault = none
  finished : ∀ o, s.ToJoin o → s.tasks o = .finished
  entered : s.closer.entered = true

theorem close_proceeds {s : Service} (hs : s.Finishing) :
    s.Returned ∨
      ∃ s', Reaches Service.OwnStep s s' ∧ s'.Finishing ∧ s'.closeToDo < s.closeToDo := by
  have hmoves : ∀ {s' : Service}, s.CloserStep .ok s' →
      (∀ o, s'.ToJoin o → s'.tasks o = .finished) → s'.fault = s.fault →
      s'.closer.entered = true → s'.closeToDo < s.closeToDo →
      ∃ s', Reaches Service.OwnStep s s' ∧ s'.Finishing ∧ s'.closeToDo < s.closeToDo := by
    intro s' h hfin hfault hentered hlt
    have hreach := own_closer hs.fault h
    exact ⟨s', hreach, ⟨hs.good.reaches hreach, hfault.trans hs.fault, hfin, hentered⟩, hlt⟩
  have hfinished := hs.finished
  unfold Service.ToJoin at hfinished
  unfold Service.closeToDo at hmoves ⊢
  cases hpc : s.closer with
  | joining i =>
    rw [hpc] at hfinished hmoves
    right
    cases hget : s.server.clients[i]? with
    | none =>
      refine hmoves (.clears hpc hget) (fun _ => False.elim) rfl rfl ?_
      simp only [ClosePc.toDo]
      omega
    | some o =>
      refine hmoves (.joins hpc hget (hfinished o ⟨i, le_refl i, hget⟩)) ?_ rfl rfl ?_
      · rintro o' ⟨j, hij, hj⟩
        exact hfinished o' ⟨j, Nat.le_of_lt hij, hj⟩
      · exact Nat.lt_succ_self _
  | closing i =>
    rw [hpc] at hfinished hmoves
    have hlt := hs.good.closing.position i hpc
    have hget : s.server.clients[i]? = some s.server.clients[i] := List.getElem?_eq_getElem hlt
    have hin := holdsClients_closer hpc rfl
    obtain ⟨c, hc⟩ := hs.good.inv.alive_of_mem
      (remover_not_erasing_of_holds hs.good.locked hin nofun) (List.mem_of_getElem? hget)
    refine .inr (hmoves (.closes hpc hget hc) ?_ rfl rfl ?_)
    · rintro o' ⟨j, hij, hj⟩
      exact hfinished o' ⟨j, hij, hj⟩
    · simp only [ClosePc.toDo]
      omega
  | unlocking successFlag =>
    rw [hpc] at hmoves
    right
    cases successFlag with
    | true => exact hmoves (.unlocks hpc) (fun _ => False.elim) rfl rfl (Nat.lt_succ_self 1)
    | false => exact hmoves (.givesUp hpc) (fun _ => False.elim) rfl rfl Nat.two_pos
  | closingSocket =>
    rw [hpc] at hmoves
    exact .inr (hmoves (.closesSocket hpc) (fun _ => False.elim) rfl rfl Nat.one_pos)
  | returned successFlag => exact .inl ⟨successFlag, hpc⟩
  | _ =>
    have hentered := hs.entered
    rw [hpc] at hentered
    cases hentered

theorem returns_of_entered {s : Service} (hs : s.Finishing) : s.CanReturn := by
  obtain ⟨s', hreach, -, hreturned⟩ :=
    reaches_of_measure (I := Service.Finishing) (G := Service.Returned) Service.closeToDo
      (fun _ hs => close_proceeds hs) hs
  exact ⟨s', hreach, hreturned⟩

/-! ## The call as a whole -/

section Returns

variable {s : Service}

theorem Service.CanReturn.of_reaches {s' : Service} (hreach : Reaches Service.OwnStep s s')
    (h : s'.CanReturn) : s.CanReturn := by
  obtain ⟨s'', hreach', hreturned⟩ := h
  exact ⟨s'', hreach.trans hreach', hreturned⟩

theorem returns_of_locking (hs : s.Good) (hf : s.fault = none) (hall : s.AllFinished)
    (hpc : s.closer = .locking) : s.CanReturn := by
  have hended := hs.closing.gone (hs.closing.joined hpc)
  obtain ⟨s₁, hreach, hfree, hf₁, hall₁, hcloser, -⟩ :=
    release_clients hs hf hall (by rw [hended]; rfl) (by rw [hpc]; rfl)
  have hlocks := own_closer hf₁ (.locks (hcloser.trans hpc) hfree)
  refine .of_reaches (hreach.trans hlocks) (returns_of_entered ?_)
  refine ⟨(hs.reaches hreach).reaches hlocks, hf₁, ?_, rfl⟩
  rintro o ⟨j, -, hj⟩
  exact hall₁ o (.inl (List.mem_of_getElem? hj))

theorem returns_of_joiningRemover (hs : s.Good) (hf : s.fault = none) (hall : s.AllFinished)
    (hpc : s.closer = .joiningRemover) : s.CanReturn := by
  obtain ⟨s₁, hreach₁, hsweep⟩ : ∃ s₁, Reaches Service.OwnStep s s₁ ∧ s₁.Sweeping := by
    cases hremover : s.remover.holds with
    | true => exact ⟨s, .refl s, hs, hf, fun o ho => hall o (.inl ho), hpc, .inr hremover⟩
    | false =>
      obtain ⟨s₁, hreach, hfree, hf₁, hall₁, hcloser, -⟩ :=
        release_clients hs hf hall hremover (by rw [hpc]; rfl)
      exact ⟨s₁, hreach, hs.reaches hreach, hf₁, fun o ho => hall₁ o (.inl ho),
        hcloser.trans hpc, .inl hfree⟩
  obtain ⟨s₂, hreach₂, hsweep₂, hended⟩ := remover_ends hsweep
  have hjoins := own_closer hsweep₂.fault (.joinsRemover hsweep₂.closer hended)
  exact .of_reaches ((hreach₁.trans hreach₂).trans hjoins)
    (returns_of_locking (hsweep₂.good.reaches hjoins) hsweep₂.fault hsweep₂.allFinished rfl)

theorem returns_of_stopping (hs : s.Good) (hf : s.fault = none) (hall : s.AllFinished)
    (hpc : s.closer = .stopping) : s.CanReturn := by
  cases hthread : s.removerThread with
  | true =>
    have hstops := own_closer hf (.stops hpc hthread)
    exact .of_reaches hstops (returns_of_joiningRemover (hs.reaches hstops) hf hall rfl)
  | false =>
    have hgoesOn := own_closer hf (.hasNoRemover hpc hthread)
    exact .of_reaches hgoesOn (returns_of_locking (hs.reaches hgoesOn) hf hall rfl)

/-- The clients to be joined are started. -/
theorem started_of_toJoin (hs : s.Good) {o : ClientPtr} (ho : s.ToJoin o) :
    (o ∈ s.server.clients ∨ s.acceptor = .pushing o) ∧ s.tasks o ≠ .notStarted := by
  have hplace : o ∈ s.server.clients ∨ s.acceptor = .pushing o := by
    unfold Service.ToJoin at ho
    cases hpc : s.closer <;> rw [hpc] at ho
    case stopping => exact ho
    case joiningRemover => exact ho
    case locking => exact ho
    case joining =>
      obtain ⟨j, -, hj⟩ := ho
      exact .inl (List.mem_of_getElem? hj)
    case closing =>
      obtain ⟨j, -, hj⟩ := ho
      exact .inl (List.mem_of_getElem? hj)
    all_goals exact ho.elim
  refine ⟨hplace, hs.inv.started o ?_⟩
  rcases hplace with hmem | hpushing
  · exact hs.inv.lt o hmem
  · exact alive_lt (hs.inv.unlisted o (by rw [hpushing]; rfl)).1

/-- If the peers of all clients to be joined have closed their connections, `close()` can
    return. -/
theorem returns_of_eof (hs : s.Good) (hf : s.fault = none) (hcalled : s.closer ≠ .idle)
    (heof : ∀ o, s.ToJoin o → s.eof o = true) : s.CanReturn := by
  obtain ⟨s₁, hreach, hmove, hfin⟩ :=
    finish_tasks hs hf (s.server.clients ++ s.acceptor.newClient.toList)
  have hg := hs.reaches hreach
  have hf₁ := hmove.fault.trans hf
  have hfinished : ∀ o, s₁.ToJoin o → s₁.tasks o = .finished := by
    intro o ho
    have hjoin : s.ToJoin o := toJoin_of_same ho hmove.clients.symm hmove.closer.symm
      fun hpc => hmove.acceptor.symm.trans hpc
    obtain ⟨hplace, hstarted⟩ := started_of_toJoin hs hjoin
    refine hfin o (List.mem_append.mpr (hplace.imp_right fun hpc => ?_)) (heof o hjoin) hstarted
    rw [hpc]
    exact List.mem_singleton_self o
  refine .of_reaches hreach ?_
  have hentered : s₁.closer.entered = true → s₁.CanReturn := fun hentered =>
    returns_of_entered ⟨hg, hf₁, hfinished, hentered⟩
  have hjoin := hfinished
  unfold Service.ToJoin at hjoin
  cases hpc : s₁.closer with
  | idle => exact absurd (hmove.closer.symm.trans hpc) hcalled
  | stopping => rw [hpc] at hjoin; exact returns_of_stopping hg hf₁ hjoin hpc
  | joiningRemover => rw [hpc] at hjoin; exact returns_of_joiningRemover hg hf₁ hjoin hpc
  | locking => rw [hpc] at hjoin; exact returns_of_locking hg hf₁ hjoin hpc
  | _ => exact hentered (by rw [hpc]; rfl)

/-- After an exception has ended the process no thread moves. -/
theorem eq_of_fault {s' : Service} (hf : s.fault ≠ none) (h : Reaches Service.OwnStep s s') :
    s' = s := by
  obtain ⟨ls, hrun⟩ := h
  cases hrun with
  | nil => rfl
  | cons hstep _ =>
    obtain ⟨hstep, -⟩ := hstep
    cases hstep <;> contradiction

end Returns

/-- From any reachable state in which `close()` has been called it can return by steps of the
    server's own threads if and only if it has returned already, or the process has not ended
    and the peers of all clients still to be joined have closed their connections. -/
theorem close_returns_iff {s : Service} (h : s.Reachable) (hcalled : s.closer ≠ .idle) :
    s.CanReturn ↔ s.Returned ∨ s.fault = none ∧ ∀ o, s.ToJoin o → s.eof o = true := by
  have hs := reachable_good h
  constructor
  · intro hreturns
    by_cases hf : s.fault = none
    · refine .inr ⟨hf, fun o ho => ?_⟩
      by_contra hsilent
      exact blocked_of_silent hs ho (Bool.eq_false_iff.mpr hsilent) hreturns
    · obtain ⟨s', hreach, hreturned⟩ := hreturns
      rw [eq_of_fault hf hreach] at hreturned
      exact .inl hreturned
  · rintro (hreturned | ⟨hf, heof⟩)
    · exact ⟨s, .refl s, hreturned⟩
    · exact returns_of_eof hs hf hcalled heof

/-- One client, whose peer has closed the connection. -/
theorem close_returns_after_eof :
    ∃ s : Service, s.Reachable ∧ s.closer = .stopping ∧ s.ToJoin 0 ∧ s.CanReturn := by
  obtain ⟨s, hreach, hcloser, hclients, hacceptor, hfault, heof⟩ : ∃ s : Service,
      s.Reachable ∧ s.closer = .stopping ∧ s.server.clients = [0] ∧ s.acceptor = .accepting ∧
        s.fault = none ∧ s.eof 0 = true :=
    ⟨_, ⟨3, true, _, .cons (.world rfl (.connects 4 "10.0.0.2" rfl)) (.cons
      (.acceptor rfl (.locks rfl rfl)) (.cons (.acceptor rfl (.pushes rfl)) (.cons
      (.acceptor rfl (.counts rfl)) (.cons (.acceptor rfl (.unlocks rfl)) (.cons
      (.world rfl (.peerCloses 0)) (.cons (.world rfl (.closes (.inl rfl))) (.nil _)))))))⟩,
      rfl, rfl, rfl, rfl, rfl⟩
  refine ⟨s, hreach, hcloser, ?_, ?_⟩
  · unfold Service.ToJoin
    rw [hcloser]
    exact .inl (hclients ▸ List.mem_singleton_self 0)
  · refine (close_returns_iff hreach (by rw [hcloser]; nofun)).mpr (.inr ⟨hfault, ?_⟩)
    intro o ho
    unfold Service.ToJoin at ho
    rw [hcloser] at ho
    rcases ho with ho | ho
    · rw [hclients, List.mem_singleton] at ho
      rw [ho]
      exact heof
    · rw [hacceptor] at ho
      cases ho

/-- One client that stays connected and sends nothing. -/
theorem silent_client_blocks_close :
    ¬ ∀ s : Service, s.Reachable → s.closer ≠ .idle → s.CanReturn := by
  intro h
  obtain ⟨s, hreach, hcloser, hclients, heof⟩ : ∃ s : Service,
      s.Reachable ∧ s.closer = .stopping ∧ s.server.clients = [0] ∧ s.eof 0 = false :=
    ⟨_, ⟨3, true, _, .cons (.world rfl (.connects 4 "10.0.0.2" rfl)) (.cons
      (.acceptor rfl (.locks rfl rfl)) (.cons (.acceptor rfl (.pushes rfl)) (.cons
      (.acceptor rfl (.counts rfl)) (.cons (.acceptor rfl (.unlocks rfl)) (.cons
      (.world rfl (.closes (.inl rfl))) (.nil _))))))⟩, rfl, rfl, rfl⟩
  refine blocked_of_silent (o := 0) (reachable_good hreach) ?_ heof
    (h s hreach (by rw [hcloser]; nofun))
  unfold Service.ToJoin
  rw [hcloser]
  exact .inl (hclients ▸ List.mem_singleton_self 0)

end TCPServer
