/-
  Failures of system calls that stay with one client.

  A failure of `select` in a receive loop is thrown out of the thread function, and so is a
  failure of `::close` for a client that the remover takes out: `close()` catches the exception
  of `Client::close`, `removeDeadClients` does not. A failure of `recv` is taken for a message:
  the handlers are called with what the buffer still holds, and an exception of a handler leaves
  `receiveTask` like any other. `stale`, a variable that no function reads, says of which clients
  the text that is being published was not received.

  `failures_contained`: without these the process goes on, a failure on the descriptor of one
  client leaves the others as they are, and a sweep can run to its end and removes every client
  that was disconnected when it began.
-/
import TCPServer.Service.Shutdown

namespace TCPServer

open Runs

/-- Whether the text that a receive thread publishes comes from a failed `recv`. -/
def staleAfter (stale : ClientPtr → Bool) (s : Service) : Label → ClientPtr → Bool
  | .thread (.task o) (.recvError _) => Function.update stale o true
  | .thread (.task o) .ok =>
    if s.tasks o = .waiting then Function.update stale o false else stale
  | _ => stale

/-- The step is a failure of `select`, `recv` or `::close` on the descriptor of the client, or
    what its handlers do with the text of a failed `recv`. -/
inductive Service.FailsOn (s : Service) (stale : ClientPtr → Bool) : Label → ClientPtr → Prop
  | select {o : ClientPtr} (errno : String) :
      s.FailsOn stale (.thread (.task o) (.failure errno)) o
  | recv {o : ClientPtr} (text : Bytes) : s.FailsOn stale (.thread (.task o) (.recvError text)) o
  | handler {o : ClientPtr} {msg : Bytes} (how : How) : s.tasks o = .calling msg →
      stale o = true → s.FailsOn stale (.thread (.task o) how) o
  | closeInSweep {i : ℕ} {o : ClientPtr} (errno : String) : s.remover = .closing i →
      s.server.clients[i]? = some o → s.FailsOn stale (.thread .remover (.failure errno)) o
  | closeInClose {i : ℕ} {o : ClientPtr} (errno : String) : s.closer = .closing i →
      s.server.clients[i]? = some o → s.FailsOn stale (.thread .closer (.failure errno)) o

/-- The clients other than `o` are listed as before, with their flags and lists. -/
def Server.SameOthers (s s' : Server) (o : ClientPtr) : Prop :=
  ∀ o', o' ≠ o → (o' ∈ s'.clients ↔ o' ∈ s.clients) ∧
    s'.objects[o']? = s.objects[o']? ∧ s'.listOf o' = s.listOf o'

/-- No exception leaves a thread function, and a failure on the descriptor of one client
    leaves the others as they are. -/
def Contained (t : Service × (ClientPtr → Bool)) (l : Label) (t' : Service × (ClientPtr → Bool)) :
    Prop :=
  t'.1.fault = none ∧ ∀ o, t.1.FailsOn t.2 l o → t.1.server.SameOthers t'.1.server o

/-- `select` does not fail in a receive loop, nor `::close` in the remover; no handler throws,
    and none is called with the text of a failed `recv`. -/
structure FailsCaught (t : Service × (ClientPtr → Bool)) (l : Label)
    (_ : Service × (ClientPtr → Bool)) : Prop where
  select : ∀ o errno, l ≠ .thread (.task o) (.failure errno)
  close : ∀ errno, l ≠ .thread .remover (.failure errno)
  handlers : ∀ o e, l ≠ .thread (.task o) (.exception e)
  recv : ∀ o msg, l = .thread (.task o) .ok → t.1.tasks o = .calling msg → t.2 o = true →
    t.1.callsFor o msg = []

section Steps

variable {s s' : Service} {stale stale' : ClientPtr → Bool} {l : Label} {o : ClientPtr}

/-- The process goes on after a step unless the step is one of the failures. -/
theorem fault_of_caught (hl : s.Locked) (hs : s.Inv) (h : s.Step l s')
    (hcaught : FailsCaught (s, stale) l (s', stale')) : s'.fault = none := by
  cases h with
  | world hf h => cases h <;> exact hf
  | acceptor hf h => cases h <;> exact hf
  | remover hf h =>
    cases h with
    | throws errno _ _ _ => exact absurd rfl (hcaught.close errno)
    | _ => exact hf
  | @task o _ _ hf h =>
    cases h with
    | throws errno _ => exact absurd rfl (hcaught.select o errno)
    | handlerThrows e _ _ => exact absurd rfl (hcaught.handlers o e)
    | _ => exact hf
  | closer hf h => cases h <;> exact hf
  | caller hf h =>
    cases h with
    | runsOnClients _ _ hrun =>
      obtain ⟨subscribers, sent, rfl⟩ := run_effect hrun
      exact hf
    | runsOnSubscribers _ _ hrun =>
      obtain ⟨subscribers, sent, rfl⟩ := run_effect hrun
      exact hf
    | fails hpc herror =>
      obtain ⟨s', hok⟩ := run_ok hl hs hpc
      rw [hok] at herror
      cases herror
    | _ => exact hf
  | dangles _ huses hdead => exact absurd (no_dangling hl hs huses) hdead

/-- Handlers that are not called change nothing. -/
theorem server_of_uncalled {msg : Bytes} {how : How} (hpc : s.tasks o = .calling msg)
    (hcalls : s.callsFor o msg = []) (h : s.TaskStep o how s') : s'.server = s.server := by
  cases h with
  | returns hpc' _ hsame =>
    rw [hpc] at hpc'
    cases hpc'
    exact hsame hcalls
  | handlerThrows e hpc' hne =>
    rw [hpc] at hpc'
    cases hpc'
    exact absurd hcalls hne
  | clears hpc' =>
    rw [hpc] at hpc'
    cases hpc'
  | counts hpc' =>
    rw [hpc] at hpc'
    cases hpc'
  | _ => rfl

/-- A call of the handlers comes back or throws. -/
theorem how_of_calling {msg : Bytes} {how : How} (hpc : s.tasks o = .calling msg)
    (h : s.TaskStep o how s') : how = .ok ∨ ∃ e, how = .exception e := by
  cases h with
  | timesOut hpc' _ _ => cases hpc.symm.trans hpc'
  | failsToReceive stale hpc' => cases hpc.symm.trans hpc'
  | throws errno hpc' => cases hpc.symm.trans hpc'
  | handlerThrows e _ _ => exact .inr ⟨e, rfl⟩
  | _ => exact .inl rfl

/-- What handlers do with the text of a failed `recv` changes nothing, as none is called. -/
theorem server_of_stale {msg : Bytes} {how : How} (hpc : s.tasks o = .calling msg)
    (hstale : stale o = true) (h : s.Step (.thread (.task o) how) s')
    (hcaught : FailsCaught (s, stale) (.thread (.task o) how) (s', stale')) :
    s'.server = s.server := by
  cases h with
  | world _ h => cases h
  | task _ h =>
    rcases how_of_calling hpc h with rfl | ⟨e, rfl⟩
    · exact server_of_uncalled hpc (hcaught.recv o msg rfl hpc hstale) h
    · exact absurd rfl (hcaught.handlers o e)
  | dangles _ _ _ => rfl

theorem server_of_failsOn (h : s.Step l s') (hcaught : FailsCaught (s, stale) l (s', stale'))
    (hfails : s.FailsOn stale l o) : s'.server = s.server := by
  cases hfails with
  | select errno => exact absurd rfl (hcaught.select o errno)
  | recv text =>
    cases h with
    | world _ h => cases h
    | task _ h =>
      cases h
      rfl
  | handler how hpc hstale => exact server_of_stale hpc hstale h hcaught
  | closeInSweep errno _ _ => exact absurd rfl (hcaught.close errno)
  | closeInClose errno _ _ =>
    cases h with
    | world _ h => cases h
    | closer _ h => cases h <;> rfl

theorem contained_of_caught (hs : s.Good) (h : s.Step l s')
    (hcaught : FailsCaught (s, stale) l (s', stale')) : Contained (s, stale) l (s', stale') := by
  refine ⟨fault_of_caught hs.locked hs.inv h hcaught, fun o hfails o' _ => ?_⟩
  have hserver : s'.server = s.server := server_of_failsOn h hcaught hfails
  show (o' ∈ s'.server.clients ↔ _) ∧ s'.server.objects[o']? = _ ∧ s'.server.listOf o' = _
  rw [hserver]
  exact ⟨Iff.rfl, rfl, rfl⟩

end Steps

/-- A run of the service, with `stale` beside it. -/
abbrev Service.StaleStep : Service × (ClientPtr → Bool) → Label →
    Service × (ClientPtr → Bool) → Prop :=
  WithHistory Service.Step staleAfter

/-- For every run of the service from its start at whose steps neither `select` fails in a
    receive loop nor `::close` in the remover, no handler throws, and none is called with the
    text of a failed `recv`: at all its steps no exception leaves a thread function, and a
    failure on one client's descriptor leaves the other clients as they are. And a sweep that
    begins at its end can run to its own end, by steps of the server's threads, and has then
    removed all clients that were disconnected when it began. -/
theorem failures_contained {sockfd : ℤ} {automatic : Bool} {ls : List Label} {s : Service}
    {stale : ClientPtr → Bool}
    (h : Run (Along Service.StaleStep FailsCaught) (.init sockfd automatic, fun _ => false) ls
      (s, stale)) :
    Run (Along Service.StaleStep Contained) (.init sockfd automatic, fun _ => false) ls
        (s, stale) ∧
      (s.remover = .scanning 0 →
        (∃ s', Reaches Service.OwnStep s s' ∧ s'.fault = none ∧ s'.remover = .unlocking) ∧
        ∀ s' ls', Run Service.Step s ls' s' → s'.remover = .unlocking →
          ∀ o ∈ s.server.clients, s.server.isConnected o = false → o ∉ s'.server.clients) := by
  have hstep : ∀ (t : Service × (ClientPtr → Bool)) l t', t.1.Good ∧ t.1.fault = none →
      Service.StaleStep t l t' → FailsCaught t l t' → t'.1.Good ∧ t'.1.fault = none :=
    fun t l t' hs h hcaught => ⟨hs.1.step h.1, fault_of_caught hs.1.locked hs.1.inv h.1 hcaught⟩
  have hinit : (Service.init sockfd automatic).Good ∧
      (Service.init sockfd automatic).fault = none :=
    ⟨reachable_good ⟨sockfd, automatic, .refl _⟩, rfl⟩
  obtain ⟨hgood, hfault⟩ : s.Good ∧ s.fault = none := h.invariant_along hstep hinit
  refine ⟨h.along_of hstep (fun t l t' hs h hcaught => contained_of_caught hs.1 h.1 hcaught) hinit,
    fun hbegins => ⟨?_, fun s' ls' hrun hends o ho hdead => ?_⟩⟩
  · obtain ⟨s', hreach, hs', -, hends⟩ := sweep_ends ⟨hgood, hfault, by rw [hbegins]; rfl⟩
    exact ⟨s', hreach, hs'.fault, hends⟩
  · exact sweep_removes_dead hgood.inv hbegins ho hdead hrun hends

section Caught

variable {s s' : Service} {stale : ClientPtr → Bool} {l : Label}

theorem stale_step (h : s.Step l s') :
    Service.StaleStep (s, stale) l (s', staleAfter stale s l) :=
  ⟨h, rfl⟩

theorem caught_world (hf : s.fault = none) (h : s.WorldStep l s') :
    Along Service.StaleStep FailsCaught (s, stale) l (s', staleAfter stale s l) := by
  refine ⟨stale_step (.world hf h), ?_, ?_, ?_, ?_⟩
  · rintro o errno rfl
    cases h
  · rintro errno rfl
    cases h
  · rintro o e rfl
    cases h
  · rintro o msg rfl
    cases h

theorem caught_thread {u : ThreadId} (h : s.Step (.thread u .ok) s') (hu : ∀ o, u ≠ .task o) :
    Along Service.StaleStep FailsCaught (s, stale) (.thread u .ok)
      (s', staleAfter stale s (.thread u .ok)) := by
  refine ⟨stale_step h, nofun, nofun, nofun, ?_⟩
  rintro o msg ⟨⟩
  exact absurd rfl (hu o)

theorem caught_task {o : ClientPtr} (hf : s.fault = none) (h : s.TaskStep o .ok s')
    (hcalls : ∀ msg, s.tasks o = .calling msg → s.callsFor o msg = []) :
    Along Service.StaleStep FailsCaught (s, stale) (.thread (.task o) .ok)
      (s', staleAfter stale s (.thread (.task o) .ok)) := by
  refine ⟨stale_step (.task hf h), nofun, nofun, nofun, ?_⟩
  rintro _ msg ⟨⟩ hpc -
  exact hcalls msg hpc

end Caught

/-- `recv` fails for the one client, whose address no subscriber wants. The client then closes
    the connection and is swept away. -/
theorem failures_contained_recv :
    ∃ (s s' : Service) (stale : ClientPtr → Bool), (∃ ls, Run (Along Service.StaleStep Contained)
        (.init 3 true, fun _ => false) ls (s, stale)) ∧
      s.server.clients = [0] ∧ Reaches Service.OwnStep s s' ∧ s'.fault = none ∧
      0 ∉ s'.server.clients := by
  obtain ⟨s, stale, ⟨ls, hrun⟩, hremover, hclients, hdead⟩ :
      ∃ (s : Service) (stale : ClientPtr → Bool),
        (∃ ls, Run (Along Service.StaleStep FailsCaught) (.init 3 true, fun _ => false) ls
          (s, stale)) ∧
        s.remover = .scanning 0 ∧ s.server.clients = [0] ∧ s.server.isConnected 0 = false :=
    ⟨_, _, ⟨_, .cons (caught_world rfl
        (.calls (n := 0) (.subscribe ⟨"10.0.0.9", true, true⟩) rfl)) (.cons
      (caught_thread (.caller rfl (.locksSubscribers (n := 0) rfl rfl rfl)) nofun) (.cons
      (caught_thread (.caller rfl (.runsOnSubscribers (n := 0) rfl rfl rfl)) nofun) (.cons
      (caught_world rfl (.connects 4 "10.0.0.2" rfl)) (.cons
      (caught_thread (.acceptor rfl (.locks rfl rfl)) nofun) (.cons
      (caught_thread (.acceptor rfl (.pushes rfl)) nofun) (.cons
      (caught_thread (.acceptor rfl (.counts rfl)) nofun) (.cons
      (caught_thread (.acceptor rfl (.unlocks rfl)) nofun) (.cons
      (caught_task rfl (.goesOn (o := 0) rfl rfl) nofun) (.cons
      ⟨stale_step (.task rfl (.failsToReceive (o := 0) [49] rfl)), by constructor <;> simp⟩ (.cons
      (caught_task rfl (.locks (o := 0) rfl rfl) nofun) (.cons
      (caught_task rfl (task_returns (o := 0) rfl) fun _ h => by cases h; rfl) (.cons
      (caught_world rfl (.peerCloses 0)) (.cons
      (caught_task rfl (.goesOn (o := 0) rfl rfl) nofun) (.cons
      (caught_task rfl (.findsEnd (o := 0) rfl rfl rfl) nofun) (.cons
      (caught_task rfl (.clears (o := 0) rfl) nofun) (.cons
      (caught_task rfl (.locksLast (o := 0) rfl rfl) nofun) (.cons
      (caught_task rfl (.notifies (o := 0) rfl) nofun) (.cons
      (caught_task rfl (.counts (o := 0) rfl) nofun) (.cons
      (caught_thread (.remover rfl (.goesOn rfl rfl)) nofun) (.cons
      (caught_thread (.remover rfl (.locks rfl rfl)) nofun)
      (.nil _)))))))))))))))))))))⟩, rfl, rfl, rfl⟩
  obtain ⟨hcontained, hsweep⟩ := failures_contained hrun
  obtain ⟨⟨s', hreach, hfault, hends⟩, hgone⟩ := hsweep hremover
  obtain ⟨ls', hrun'⟩ := hreach
  refine ⟨s, s', stale, ⟨ls, hcontained⟩, hclients, ⟨ls', hrun'⟩, hfault, ?_⟩
  refine hgone s' ls' hrun'.of_along hends 0 ?_ hdead
  rw [hclients]
  exact List.mem_singleton_self 0

/-- `select` fails for a connected client: the exception leaves `receiveTask`. -/
theorem select_failure_ends_process :
    ¬ ∀ ls t, Run Service.StaleStep (.init 3 true, fun _ => false) ls t →
      Run (Along Service.StaleStep Contained) (.init 3 true, fun _ => false) ls t := by
  intro h
  have hgoes : ∀ {ls t}, Run (Along Service.StaleStep Contained)
      (.init 3 true, fun _ => false) ls t → t.1.fault = none := fun {_ _} hrun =>
    hrun.invariant (I := fun t => t.1.fault = none) (fun _ _ _ _ h => h.2.1) rfl
  have hfault := hgoes (h _ _ (.cons
    (stale_step (.world rfl (.connects 4 "10.0.0.2" rfl))) (.cons
    (stale_step (.task rfl (.goesOn (o := 0) rfl rfl))) (.cons
    (stale_step (.task rfl (.throws (o := 0) "Bad file descriptor" rfl))) (.nil _)))))
  cases hfault

end TCPServer
