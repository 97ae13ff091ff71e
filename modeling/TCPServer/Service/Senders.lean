/-
  Whether the client that an event is about is in the list.

  `acceptClient` starts the receive thread of a new client before it takes `_clientsMtx` and
  adds the client to `_clients`, so the thread can call `clientEventHandler` for a client that
  is not listed yet. On the other side nothing goes wrong: a client is erased only after its
  receive thread was joined. So the sender is found at every point of every call exactly if no
  call begins while its client is still to be added (`senders_listed_iff`).
-/
import TCPServer.Service.Invariant

namespace TCPServer

open Runs

/-- The client is in `_clients` and not deleted. -/
def Service.Finds (s : Service) (o : ClientPtr) : Prop :=
  o ∈ s.server.clients ∧ s.server.Alive o

/-- Every client for which `clientEventHandler` is being executed is found. -/
def Service.SendersListed (s : Service) : Prop :=
  ∀ o, (s.tasks o).handling = true → s.Finds o

/-- The step calls `clientEventHandler` for the client. -/
def Service.Calls (s s' : Service) (o : ClientPtr) : Prop :=
  (s.tasks o).handling = false ∧ (s'.tasks o).handling = true

/-- No call begins for the client that `acceptClient` has yet to add. -/
def CallsAfterAdding (s : Service) (_ : Label) (s' : Service) : Prop :=
  ∀ o, s.Calls s' o → s.acceptor.newClient ≠ some o

section Senders

variable {s s' : Service}

theorem runs_of_handling {pc : TaskPc} (h : pc.handling = true) : pc.runs = true := by
  cases pc <;> first | rfl | cases h

/-- Under the invariant, a sender is found exactly if it is not still to be added. -/
theorem finds_iff (hs : s.Inv) {o : ClientPtr} (ho : (s.tasks o).runs = true) :
    s.Finds o ↔ s.acceptor.newClient ≠ some o := by
  constructor
  · rintro ⟨hmem, -⟩ hnew
    exact (hs.unlisted o hnew).2 hmem
  · intro hnew
    have hmem := (hs.listed o ho).resolve_right hnew
    refine ⟨hmem, hs.alive_of_unfinished (hs.lt o hmem) ?_⟩
    intro hfin
    rw [hfin] at ho
    cases ho

/-- A client that is to be added was so before, or its thread has just been started. -/
theorem newClient_of_step {l : Label} (h : s.Step l s') {o : ClientPtr}
    (ho : s'.acceptor.newClient = some o) :
    s.acceptor.newClient = some o ∨ s'.tasks o = .check := by
  cases h with
  | world _ h =>
    cases h with
    | connects fileDescriptor ip _ =>
      cases ho
      exact .inr (setTask_self s _ _)
    | _ => exact .inl ho
  | acceptor _ h =>
    cases h with
    | locks hpc _ =>
      rw [hpc]
      exact .inl ho
    | _ => cases ho
  | remover _ h => cases h <;> exact .inl ho
  | task _ h => cases h <;> exact .inl ho
  | closer _ h => cases h <;> exact .inl ho
  | caller _ h =>
    obtain ⟨_, _, _, _, _, _, rfl⟩ := caller_effect h
    exact .inl ho
  | dangles _ _ _ => exact .inl ho

/-- Only a receive thread calls the handler, and it does not change who is to be added. -/
theorem newClient_of_calls {l : Label} (h : s.Step l s') {o : ClientPtr} (ho : s.Calls s' o) :
    s'.acceptor.newClient = s.acceptor.newClient := by
  have hsame : s'.tasks o = s.tasks o → s'.acceptor.newClient = s.acceptor.newClient := by
    intro htasks
    obtain ⟨hbefore, hafter⟩ := ho
    rw [htasks, hbefore] at hafter
    cases hafter
  cases h with
  | world _ h =>
    cases h with
    | connects fileDescriptor ip _ =>
      by_cases hnew : o = s.server.objects.length
      · have hafter := ho.2
        rw [hnew, show Service.tasks _ _ = _ from setTask_self s _ .check] at hafter
        cases hafter
      · exact hsame (setTask_ne s hnew .check)
    | _ => exact hsame rfl
  | acceptor _ h => cases h <;> exact hsame rfl
  | remover _ h => cases h <;> rfl
  | task _ h => cases h <;> rfl
  | closer _ h => cases h <;> rfl
  | caller _ h =>
    obtain ⟨_, _, _, _, _, _, rfl⟩ := caller_effect h
    rfl
  | dangles _ _ _ => rfl

/-- While the senders are listed, a step keeps them listed exactly if it calls the handler for
    no client that is still to be added. -/
theorem sendersListed_step_iff {l : Label} (hl : s.Locked) (hi : s.Inv) (hs : s.SendersListed)
    (h : s.Step l s') : s'.SendersListed ↔ CallsAfterAdding s l s' := by
  have hi' := hi.step hl h
  constructor
  · intro hs' o ho
    rw [← newClient_of_calls h ho]
    exact (finds_iff hi' (runs_of_handling ho.2)).mp (hs' o ho.2)
  · intro hcalls o ho
    refine (finds_iff hi' (runs_of_handling ho)).mpr fun hnew => ?_
    rcases newClient_of_step h hnew with hold | hcheck
    · cases hbefore : (s.tasks o).handling with
      | false => exact hcalls o ⟨hbefore, ho⟩ hold
      | true => exact (finds_iff hi (runs_of_handling hbefore)).mp (hs o hbefore) hold
    · rw [hcheck] at ho
      cases ho

end Senders

/-- For every run of the service: after each of its steps the client of every call of
    `clientEventHandler` under way is in `_clients` and not deleted, if and only if at each step
    that begins such a call the accepting thread is not between starting the receive thread of
    that client and adding it. -/
theorem senders_listed_iff (sockfd : ℤ) (automatic : Bool) (ls : List Label) (s : Service) :
    Run (Along Service.Step fun _ _ s' => s'.SendersListed) (.init sockfd automatic) ls s ↔
      Run (Along Service.Step CallsAfterAdding) (.init sockfd automatic) ls s := by
  refine run_along_congr (I := fun s => (s.Locked ∧ s.Inv) ∧ s.SendersListed) ?_ ?_
    ⟨⟨init_locked sockfd automatic, .init sockfd automatic⟩, nofun⟩
  · rintro s l s' ⟨⟨hl, hi⟩, -⟩ h hs'
    exact ⟨⟨step_locked hl h, hi.step hl h⟩, hs'⟩
  · rintro s l s' ⟨⟨hl, hi⟩, hs⟩ h
    exact sendersListed_step_iff hl hi hs h

/-- A client sends a message at once: its receive thread calls `clientEventHandler` while
    `_clients` is still empty. -/
theorem sender_not_listed :
    ¬ ∀ s : Service, s.Reachable → s.SendersListed := by
  intro h
  obtain ⟨s, hrun, hpc, hclients⟩ :
      ∃ s, Reaches Service.Step (Service.init 3 true) s ∧ s.tasks 0 = .publishMsg [48] ∧
        s.server.clients = [] := by
    refine ⟨_, ⟨_, .cons (.world rfl (.connects 4 "10.0.0.2" rfl)) (.cons
      (.world rfl (.peerSends (o := 0) [48] rfl)) (.cons
      (.task rfl (.goesOn (o := 0) rfl rfl)) (.cons
      (.task rfl (.receives (o := 0) rfl rfl)) (.nil _))))⟩, rfl, rfl⟩
  obtain ⟨hmem, -⟩ := h s ⟨3, true, hrun⟩ 0 (by rw [hpc]; rfl)
  rw [hclients] at hmem
  cases hmem

end TCPServer
