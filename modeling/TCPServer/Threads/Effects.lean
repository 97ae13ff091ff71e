/-
  All that a step of a thread can do.

  `Sys.AcceptorEffect`, `Sys.RemoverEffect` and `Sys.ReceiverEffect` list, each once, what the
  steps of a thread do to the state, with what is known before the step; `acceptor_effect`,
  `remover_effect` and `receiver_step_effect` give the one of a step of `Sys.step`. A receive
  thread whose `Client` does not exist any more fails.
-/
import TCPServer.Threads.HandlerSteps

namespace TCPServer

/-- The position and the client a removal is about, up to the deletion. -/
def RemoverPc.target : RemoverPc → Option (ℕ × ClientPtr)
  | .joining i o => some (i, o)
  | .closing i o => some (i, o)
  | .deleting i o => some (i, o)
  | _ => none

/-- The client of a removal that is past the join. -/
def RemoverPc.joined : RemoverPc → Option ClientPtr
  | .closing _ o => some o
  | .deleting _ o => some o
  | _ => none

inductive Sys.AcceptorEffect (s : Sys) : Sys → Prop
  | accepts (fileDescriptor : ℤ) (ip : String) : s.acceptor = .accepting →
      s.AcceptorEffect { s.setReceiver s.server.objects.length .check with
        server := { s.server with
          objects := s.server.objects ++ [⟨fileDescriptor, ip, true, none, false⟩] }
        acceptor := .started s.server.objects.length }
  | locks {newClient : ClientPtr} : s.acceptor = .started newClient → s.clientsMtx = none →
      s.AcceptorEffect { s with clientsMtx := some .acceptor, acceptor := .pushing newClient }
  | pushes {newClient : ClientPtr} : s.acceptor = .pushing newClient →
      s.AcceptorEffect { s with
        server := { s.server with clients := s.server.clients ++ [newClient] }
        acceptor := .counting }
  | counts : s.acceptor = .counting →
      s.AcceptorEffect { s with
        server := { s.server with numClientsConnected := s.server.numClientsConnected + 1 }
        acceptor := .unlocking }
  | unlocks : s.acceptor = .unlocking →
      s.AcceptorEffect { s with clientsMtx := none, acceptor := .accepting }

inductive Sys.RemoverEffect (s : Sys) : Sys → Prop
  /-- No removal is under way, before the step and after it. -/
  | moves {pc : RemoverPc} {mtx : Option Tid} : (∀ i, s.remover ≠ .erasing i) →
      pc.target = none → pc.joined = none →
      s.RemoverEffect { s with remover := pc, clientsMtx := mtx }
  | fails (e : Stop) : s.RemoverEffect (s.fails .remover e)
  | finds {i : ℕ} {client : ClientPtr} : (∀ i, s.remover ≠ .erasing i) →
      s.server.clients[i]? = some client →
      s.RemoverEffect { s with remover := .joining i client }
  | joins {i : ℕ} {client : ClientPtr} : s.remover = .joining i client →
      s.receivers client = .finished → s.RemoverEffect { s with remover := .closing i client }
  | closes {i : ℕ} {client : ClientPtr} (fds : List ℤ) : s.remover = .closing i client →
      s.RemoverEffect { s with
        server := { s.server with closed := fds }, remover := .deleting i client }
  | deletes {i : ℕ} {client : ClientPtr} : s.remover = .deleting i client →
      s.RemoverEffect { s with
        server := s.server.setObject client fun c => { c with deleted := true }
        remover := .erasing i }
  | erases {i : ℕ} : s.remover = .erasing i →
      s.RemoverEffect { s with
        server := { s.server with clients := s.server.clients.eraseIdx i }
        remover := .comparing i }

inductive Sys.ReceiverEffect (s : Sys) (o : ClientPtr) : Sys → Prop
  /-- The thread is in no callback, before the step and after it. -/
  | moves {pc : ReceiverPc} : (s.receivers o).holds = false → pc.holds = false →
      s.ReceiverEffect o (s.setReceiver o pc)
  | fails (e : Stop) : s.ReceiverEffect o (s.fails (.receiver o) e)
  | takes {msg : Bytes} : s.receivers o = .publishMsg msg → s.subscribersMtx = none →
      s.ReceiverEffect o { s.setReceiver o (.handling (.parse msg)) with
        subscribersMtx := some (.receiver o) }
  | handles {h h' : HandlerPc} {server : Server} {rand : ℕ} {r : SendResult} :
      s.receivers o = .handling h → h ≠ .returned → h.step s.server rand r = .ok (h', server) →
      s.ReceiverEffect o { s.setReceiver o (.handling h') with server := server }
  | returns : s.receivers o = .handling .returned →
      s.ReceiverEffect o { s.setReceiver o .check with subscribersMtx := none }
  | disconnects : s.receivers o = .clearFlag →
      s.ReceiverEffect o { s.setReceiver o .publishDisconnected with
        server := s.server.setObject o fun c => { c with isConnected := false } }
  | notifies : s.receivers o = .publishDisconnected → s.subscribersMtx = none →
      s.ReceiverEffect o { s.setReceiver o .notifying with subscribersMtx := some (.receiver o) }
  | notified : s.receivers o = .notifying →
      s.ReceiverEffect o { s.setReceiver o .decrement with subscribersMtx := none }
  | counts : s.receivers o = .decrement →
      s.ReceiverEffect o { s.setReceiver o .finished with
        server := { s.server with numClientsConnected := s.server.numClientsConnected - 1 } }

theorem acceptor_effect {s s' : Sys} {fileDescriptor : ℤ} {ip : String}
    (h : s.acceptorStep fileDescriptor ip = some s') : s.AcceptorEffect s' := by
  unfold Sys.acceptorStep at h
  cases hpc : s.acceptor with
  | accepting =>
    rw [hpc] at h
    cases h
    exact .accepts fileDescriptor ip hpc
  | started newClient =>
    rw [hpc] at h
    dsimp only at h
    split at h
    · rename_i hfree
      cases h
      exact .locks hpc hfree
    · cases h
  | pushing newClient =>
    rw [hpc] at h
    cases h
    exact .pushes hpc
  | counting =>
    rw [hpc] at h
    cases h
    exact .counts hpc
  | unlocking =>
    rw [hpc] at h
    cases h
    exact .unlocks hpc

theorem closeClient_ok {s s' : Server} {o : ClientPtr} {closeRet : ℤ → ℤ}
    (h : s.closeClient o closeRet = .ok s') : ∃ fds, s' = { s with closed := fds } := by
  obtain ⟨c, -, hclose⟩ := bind_ok_iff.mp h
  split at hclose
  · cases hclose
  · cases hclose
    exact ⟨_, rfl⟩

theorem remover_effect {s s' : Sys} {closeRet : ℤ → ℤ}
    (h : s.removerStep closeRet = some s') : s.RemoverEffect s' := by
  unfold Sys.removerStep at h
  cases hpc : s.remover with
  | sleeping =>
    rw [hpc] at h
    cases h
    exact .moves (by simp [hpc]) rfl rfl
  | locking =>
    rw [hpc] at h
    dsimp only at h
    split at h
    · cases h
      exact .moves (by simp [hpc]) rfl rfl
    · cases h
  | scanning i =>
    rw [hpc] at h
    dsimp only at h
    split at h
    · cases h
      exact .moves (by simp [hpc]) rfl rfl
    · rename_i client hget
      split at h
      · cases h
        exact .fails _
      · split at h
        · cases h
          exact .moves (by simp [hpc]) rfl rfl
        · cases h
          exact .finds (by simp [hpc]) hget
  | joining i client =>
    rw [hpc] at h
    dsimp only at h
    split at h
    · rename_i hfinished
      cases h
      exact .joins hpc hfinished
    · cases h
  | closing i client =>
    rw [hpc] at h
    dsimp only at h
    split at h
    · cases h
      exact .fails _
    · rename_i server hclose
      cases h
      obtain ⟨fds, rfl⟩ := closeClient_ok hclose
      exact .closes fds hpc
  | deleting i client =>
    rw [hpc] at h
    cases h
    exact .deletes hpc
  | erasing i =>
    rw [hpc] at h
    cases h
    exact .erases hpc
  | comparing i =>
    rw [hpc] at h
    dsimp only at h
    split at h
    · cases h
      exact .moves (by simp [hpc]) rfl rfl
    · cases h
      exact .moves (by simp [hpc]) rfl rfl
  | unlocking =>
    rw [hpc] at h
    cases h
    exact .moves (by simp [hpc]) rfl rfl

/-- The step of a receive thread in its handler. -/
theorem receiverStep_handling {s : Sys} {o : ClientPtr} {c : Client} {event : ReceiveEvent}
    {rand : ℕ} {r : SendResult} {h : HandlerPc} (hpc : s.receivers o = .handling h)
    (hne : h ≠ .returned) :
    s.receiverStep o c event rand r = match h.step s.server rand r with
      | .error e => some (s.fails (.receiver o) e)
      | .ok (h, server) => some { s.setReceiver o (.handling h) with server := server } := by
  unfold Sys.receiverStep
  rw [hpc]
  cases h with
  | returned => exact absurd rfl hne
  | _ => rfl

theorem receiver_effect {s s' : Sys} {o : ClientPtr} {c : Client} {event : ReceiveEvent}
    {rand : ℕ} {r : SendResult} (hstarted : s.receivers o ≠ .notStarted)
    (hnotFinished : s.receivers o ≠ .finished)
    (h : s.receiverStep o c event rand r = some s') : s.ReceiverEffect o s' := by
  cases hpc : s.receivers o with
  | notStarted => exact absurd hpc hstarted
  | finished => exact absurd hpc hnotFinished
  | check =>
    simp only [Sys.receiverStep, hpc] at h
    cases h
    refine .moves (by rw [hpc]; rfl) ?_
    split <;> rfl
  | waiting =>
    simp only [Sys.receiverStep, hpc] at h
    have hidle : (s.receivers o).holds = false := by
      rw [hpc]
      rfl
    cases event with
    | timeout =>
      cases h
      exact .moves hidle rfl
    | message msg =>
      cases h
      exact .moves hidle rfl
    | endOfStream =>
      cases h
      exact .moves hidle rfl
    | waitFailure errno =>
      cases h
      exact .fails _
  | publishMsg msg =>
    simp only [Sys.receiverStep, hpc] at h
    split at h
    · rename_i hfree
      cases h
      exact .takes hpc hfree
    · cases h
  | handling handler =>
    by_cases hret : handler = .returned
    · subst hret
      simp only [Sys.receiverStep, hpc] at h
      cases h
      exact .returns hpc
    · have h := (receiverStep_handling hpc hret).symm.trans h
      split at h
      · cases h
        exact .fails _
      · rename_i hstep
        cases h
        exact .handles hpc hret hstep
  | clearFlag =>
    simp only [Sys.receiverStep, hpc] at h
    cases h
    exact .disconnects hpc
  | publishDisconnected =>
    simp only [Sys.receiverStep, hpc] at h
    split at h
    · rename_i hfree
      cases h
      exact .notifies hpc hfree
    · cases h
  | notifying =>
    simp only [Sys.receiverStep, hpc] at h
    cases h
    exact .notified hpc
  | decrement =>
    simp only [Sys.receiverStep, hpc] at h
    cases h
    exact .counts hpc

/-! ## Steps of the threads -/

/-- The thread that takes a step. -/
def Act.thread : Act → Tid
  | .acceptor _ _ => .acceptor
  | .remover _ => .remover
  | .receiver o _ _ _ => .receiver o

theorem step_no_fault {s s' : Sys} {a : Act} (h : s.Step a s') : s.fault = none := by
  unfold Sys.Step Sys.step at h
  split at h
  · cases h
  · rename_i hf
    simpa using hf

theorem acceptor_step {s s' : Sys} {fileDescriptor : ℤ} {ip : String}
    (h : s.Step (.acceptor fileDescriptor ip) s') : s.AcceptorEffect s' := by
  unfold Sys.Step Sys.step at h
  split at h
  · cases h
  · exact acceptor_effect h

theorem remover_step {s s' : Sys} {closeRet : ℤ → ℤ} (h : s.Step (.remover closeRet) s') :
    s.RemoverEffect s' := by
  unfold Sys.Step Sys.step at h
  split at h
  · cases h
  · exact remover_effect h

/-- A receive thread that takes a step runs, and its object exists or is used in vain. -/
theorem receiver_step {s s' : Sys} {o : ClientPtr} {event : ReceiveEvent} {rand : ℕ}
    {r : SendResult} (h : s.Step (.receiver o event rand r) s') :
    s.receivers o ≠ .notStarted ∧ s.receivers o ≠ .finished ∧
      ((∃ c, s.server.object o = .ok c ∧ s.receiverStep o c event rand r = some s') ∨
        ∃ e, s.server.object o = .error e ∧ s' = s.fails (.receiver o) e) := by
  unfold Sys.Step Sys.step at h
  split at h
  · cases h
  · dsimp only at h
    split at h
    · cases h
    · rename_i hrun
      rw [not_or] at hrun
      refine ⟨hrun.1, hrun.2, ?_⟩
      split at h
      · rename_i e he
        exact .inr ⟨e, he, (Option.some.inj h).symm⟩
      · rename_i c hc
        exact .inl ⟨c, hc, h⟩

theorem receiver_step_effect {s s' : Sys} {o : ClientPtr} {event : ReceiveEvent} {rand : ℕ}
    {r : SendResult} (h : s.Step (.receiver o event rand r) s') : s.ReceiverEffect o s' := by
  obtain ⟨hstarted, hnotFinished, ⟨c, -, hstep⟩ | ⟨e, -, rfl⟩⟩ := receiver_step h
  · exact receiver_effect hstarted hnotFinished hstep
  · exact .fails e

end TCPServer
