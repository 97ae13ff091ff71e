/-
  `close()` and the clients it has to join.

  `close()` joins the receive thread of every listed client, and the only one that clears a
  client's flag is that thread itself, at the end of the stream: the line in
  `Client::terminateReceiveThread` that would clear it is a comment. So while one of the
  clients to be joined (`Service.ToJoin`) stays connected, no steps of the server's own
  threads bring `close()` to its end (`blocked_of_silent`).

  `Service.Good` collects what is known of a reachable state here.
-/
import TCPServer.Service.Failures

namespace TCPServer

open Locks Runs

/-- Steps of the server's own threads; `::close` does not fail in `close()`. -/
def Label.own : Label → Bool
  | .thread .closer (.failure _) => false
  | .thread _ _ => true
  | _ => false

abbrev Service.OwnStep : Service → Label → Service → Prop :=
  Along Service.Step fun _ l _ => l.own = true

def Service.Returned (s : Service) : Prop := ∃ successFlag, s.closer = .returned successFlag

/-- `close()` has been called and can return by steps of the server's own threads. -/
def Service.CanReturn (s : Service) : Prop :=
  ∃ s', Reaches Service.OwnStep s s' ∧ s'.Returned

/-- The client will be joined by the call of `close()` under way. -/
def Service.ToJoin (s : Service) (o : ClientPtr) : Prop :=
  match s.closer with
  | .stopping => o ∈ s.server.clients ∨ s.acceptor = .pushing o
  | .joiningRemover => o ∈ s.server.clients ∨ s.acceptor = .pushing o
  | .locking => o ∈ s.server.clients ∨ s.acceptor = .pushing o
  | .joining i => ∃ j, i ≤ j ∧ s.server.clients[j]? = some o
  | .closing i => ∃ j, i < j ∧ s.server.clients[j]? = some o
  | _ => False

/-- The receive thread has found the end of the stream. -/
def TaskPc.ending : TaskPc → Bool
  | .clearFlag => true
  | .publishDisconnected => true
  | .notifying => true
  | .decrement => true
  | .finished => true
  | _ => false

/-- What holds on the way through `close()`. -/
structure Service.Closing (s : Service) : Prop where
  eof : ∀ o, (s.tasks o).ending = true → s.eof o = true
  gone : s.removerThread = false → s.remover = .ended
  stopped : s.closer = .joiningRemover → s.stop = true
  joined : s.closer = .locking → s.removerThread = false
  position : ∀ i, s.closer = .closing i → i < s.server.clients.length

/-- All that is known of a reachable state here. -/
structure Service.Good (s : Service) : Prop where
  locked : s.Locked
  inv : s.Inv
  closing : s.Closing

section Closing

variable {s s' : Service}

/-- A receive thread that goes on in its loop. -/
theorem eof_setTask (hs : s.Closing) {o : ClientPtr} {pc : TaskPc}
    (hpc : pc.ending = true → s.eof o = true) (o' : ClientPtr)
    (ho' : ((s.setTask o pc).tasks o').ending = true) : s.eof o' = true := by
  by_cases hoo : o' = o
  · subst hoo
    rw [setTask_self] at ho'
    exact hpc ho'
  · rw [setTask_ne s hoo] at ho'
    exact hs.eof o' ho'

theorem step_closing {l : Label} (hl : s.Locked) (hi : s.Inv) (hs : s.Closing)
    (h : s.Step l s') : s'.Closing := by
  cases h with
  | world _ h =>
    cases h with
    | connects fileDescriptor ip _ => exact { hs with eof := eof_setTask hs nofun }
    | @peerCloses o =>
      refine { hs with eof := fun o' ho' => ?_ }
      show Function.update s.eof o true o' = true
      by_cases hoo : o' = o
      · rw [hoo, Function.update_self]
      · rw [Function.update_of_ne hoo]
        exact hs.eof o' ho'
    | closes _ => exact { hs with stopped := nofun, joined := nofun, position := nofun }
    | _ => exact { hs with }
  | acceptor _ h =>
    cases h with
    | @pushes o _ =>
      refine { hs with position := fun i hpc => ?_ }
      show i < (s.server.clients ++ [o]).length
      rw [List.length_append]
      exact Nat.lt_add_right _ (hs.position i hpc)
    | _ => exact { hs with }
  | remover _ h =>
    have hgone : ∀ {pc : SweepPc}, s.remover = pc → pc ≠ .ended → ∀ {P : Prop},
        s.removerThread = false → P := fun hpc hne _ hthread =>
      absurd (hs.gone hthread) (hpc ▸ hne)
    cases h with
    | throws _ _ _ _ => exact { hs with }
    | ends _ _ => exact { hs with gone := fun _ => rfl }
    | erases hpc =>
      have hin := holdsClients_remover hpc rfl
      refine { hs with gone := hgone hpc nofun, position := fun i hclosing => ?_ }
      have hjoined := closer_joined_of_holds hl hin nofun
      rw [show s.closer = .closing i from hclosing] at hjoined
      exact absurd hjoined (Nat.succ_ne_zero i)
    | _ =>
      rename_i hpc
      exact { hs with gone := by simp_all }
  | @task o _ _ _ h =>
    cases h with
    | throws _ _ => exact { hs with }
    | handlerThrows _ _ _ => exact { hs with }
    | returns _ hsame _ =>
      refine { hs with eof := eof_setTask hs nofun, position := ?_ }
      rw [hsame.clients]
      exact hs.position
    | leaves hpc hflag =>
      rw [hi.flag, hpc] at hflag
      cases hflag
    | findsEnd _ _ heof => exact { hs with eof := eof_setTask hs fun _ => heof }
    | clears hpc => exact { hs with eof := eof_setTask hs fun _ => hs.eof o (by rw [hpc]; rfl) }
    | locksLast hpc _ =>
      exact { hs with eof := eof_setTask hs fun _ => hs.eof o (by rw [hpc]; rfl) }
    | notifies hpc =>
      exact { hs with eof := eof_setTask hs fun _ => hs.eof o (by rw [hpc]; rfl) }
    | counts hpc => exact { hs with eof := eof_setTask hs fun _ => hs.eof o (by rw [hpc]; rfl) }
    | _ => exact { hs with eof := eof_setTask hs nofun }
  | closer _ h =>
    cases h with
    | stops _ _ => exact { hs with stopped := fun _ => rfl, joined := nofun, position := nofun }
    | hasNoRemover _ hthread =>
      exact { hs with stopped := nofun, joined := fun _ => hthread, position := nofun }
    | joinsRemover _ hended =>
      exact { hs with
        gone := fun _ => hended, stopped := nofun, joined := fun _ => rfl, position := nofun }
    | joins _ hget _ =>
      refine { hs with stopped := nofun, joined := nofun, position := fun j hj => ?_ }
      cases hj
      exact lt_of_getElem? hget
    | _ => exact { hs with stopped := nofun, joined := nofun, position := nofun }
  | caller _ h =>
    obtain ⟨_, _, _, _, _, _, rfl⟩ := caller_effect h
    exact { hs with }
  | dangles _ _ _ => exact { hs with }

theorem Service.Good.step {l : Label} (hs : s.Good) (h : s.Step l s') : s'.Good :=
  ⟨step_locked hs.locked h, hs.inv.step hs.locked h,
    step_closing hs.locked hs.inv hs.closing h⟩

theorem init_closing (sockfd : ℤ) (automatic : Bool) :
    (Service.init sockfd automatic).Closing := by
  refine ⟨nofun, fun h => ?_, nofun, nofun, nofun⟩
  have hautomatic : automatic = false := h
  rw [hautomatic]
  rfl

theorem reachable_good (h : s.Reachable) : s.Good := by
  obtain ⟨sockfd, automatic, ls, hrun⟩ := h
  exact hrun.invariant (I := Service.Good) (fun _ _ _ hs h => hs.step h)
    ⟨init_locked sockfd automatic, .init sockfd automatic, init_closing sockfd automatic⟩

theorem Service.Good.reaches (hs : s.Good) (h : Reaches Service.OwnStep s s') : s'.Good := by
  obtain ⟨ls, hrun⟩ := h
  exact hrun.invariant (I := Service.Good) (fun _ _ _ hs h => hs.step h.1) hs

end Closing

/-! ## A silent client -/

section Silent

variable {s s' : Service} {o : ClientPtr}

/-- While its peer has not closed the connection, a receive thread does not end. -/
theorem not_finished_of_silent (hs : s.Closing) (hsilent : s.eof o = false) :
    s.tasks o ≠ .finished := by
  intro hfin
  have heof := hs.eof o (by rw [hfin]; rfl)
  rw [hsilent] at heof
  cases heof

/-- The client stays to be joined when the list of clients and the closing thread do not
    change, unless the accepting thread was about to add it. -/
theorem toJoin_of_same (h : s.ToJoin o) (hclients : s'.server.clients = s.server.clients)
    (hcloser : s'.closer = s.closer)
    (hacceptor : s.acceptor = .pushing o → s'.acceptor = .pushing o) : s'.ToJoin o := by
  unfold Service.ToJoin at h ⊢
  rw [hclients, hcloser]
  cases hpc : s.closer <;> rw [hpc] at h <;>
    first | exact h | exact h.imp_right hacceptor

theorem acceptor_toJoin (ho : s.ToJoin o) (h : s.AcceptorStep s') : s'.ToJoin o := by
  cases h with
  | @pushes newClient hpc =>
    have hmem : o ∈ s.server.clients ∨ s.acceptor = .pushing o →
        o ∈ s.server.clients ++ [newClient] := by
      rintro (ho | hnew)
      · exact List.mem_append_left _ ho
      · rw [hpc] at hnew
        cases hnew
        exact List.mem_append_right _ (List.mem_singleton_self _)
    unfold Service.ToJoin at ho ⊢
    cases hc : s.closer with
    | stopping => rw [hc] at ho; exact .inl (hmem ho)
    | joiningRemover => rw [hc] at ho; exact .inl (hmem ho)
    | locking => rw [hc] at ho; exact .inl (hmem ho)
    | joining i =>
      rw [hc] at ho
      obtain ⟨j, hij, hj⟩ := ho
      exact ⟨j, hij, getElem?_append_of_some hj _⟩
    | closing i =>
      rw [hc] at ho
      obtain ⟨j, hij, hj⟩ := ho
      exact ⟨j, hij, getElem?_append_of_some hj _⟩
    | _ => rw [hc] at ho; exact ho.elim
  | _ =>
    rename_i hpc
    exact toJoin_of_same ho rfl rfl fun hpushing => by simp_all

/-- The remover erases only clients whose threads have finished. -/
theorem remover_toJoin {how : How} (hs : s.Good) (hunfinished : s.tasks o ≠ .finished)
    (ho : s.ToJoin o) (h : s.RemoverStep how s') : s'.ToJoin o := by
  cases h with
  | @erases i hpc =>
    obtain ⟨o', hget, -⟩ := hs.inv.target i (by rw [hpc]; rfl)
    have hfin : s.tasks o' = .finished := hs.inv.joined i o' (by rw [hpc]; rfl) hget
    have hne : o ≠ o' := by
      rintro rfl
      exact hunfinished hfin
    obtain ⟨hlt, hgetElem⟩ := List.getElem?_eq_some_iff.mp hget
    have hmem : o ∈ s.server.clients ∨ s.acceptor = .pushing o →
        o ∈ s.server.clients.eraseIdx i ∨ s.acceptor = .pushing o := Or.imp_left fun ho => by
      rw [← hs.inv.nodup.erase_getElem i hlt, hgetElem]
      exact (List.mem_erase_of_ne hne).mpr ho
    -- `close()` is not in its loop, as the remover has the mutex.
    have hout : ¬ s.HoldsClients .closer :=
      hs.locked.clients.excludes (holdsClients_remover hpc rfl) nofun
    unfold Service.ToJoin at ho ⊢
    cases hc : s.closer with
    | stopping => rw [hc] at ho; exact hmem ho
    | joiningRemover => rw [hc] at ho; exact hmem ho
    | locking => rw [hc] at ho; exact hmem ho
    | joining i => exact absurd (holdsClients_closer hc rfl) hout
    | closing i => exact absurd (holdsClients_closer hc rfl) hout
    | _ => rw [hc] at ho; exact ho.elim
  | _ => exact toJoin_of_same ho rfl rfl id

/-- `close()` goes past a client only after it has joined its thread. -/
theorem closer_toJoin {how : How} (hs : s.Good) (hunfinished : s.tasks o ≠ .finished)
    (ho : s.ToJoin o) (h : s.CloserStep how s') (hown : ∀ errno, how ≠ .failure errno) :
    s'.ToJoin o := by
  unfold Service.ToJoin at ho
  cases h with
  | stops hpc _ => rw [hpc] at ho; exact ho
  | hasNoRemover hpc _ => rw [hpc] at ho; exact ho
  | joinsRemover hpc _ => rw [hpc] at ho; exact ho
  | locks hpc hfree =>
    rw [hpc] at ho
    have hmem : o ∈ s.server.clients := by
      refine ho.resolve_right fun hpushing => ?_
      have hnone := hs.locked.clients.of_free hfree
      exact hnone.free .acceptor (holdsClients_acceptor hpushing rfl)
    obtain ⟨j, hj⟩ := List.getElem?_of_mem hmem
    exact ⟨j, Nat.zero_le j, hj⟩
  | @joins i o' hpc hget hfin =>
    rw [hpc] at ho
    obtain ⟨j, hij, hj⟩ := ho
    refine ⟨j, Nat.lt_of_le_of_ne hij ?_, hj⟩
    rintro rfl
    rw [hget] at hj
    cases hj
    exact hunfinished hfin
  | closes hpc _ _ => rw [hpc] at ho; exact ho
  | catches errno _ _ _ => exact absurd rfl (hown errno)
  | @clears i hpc hend =>
    rw [hpc] at ho
    obtain ⟨j, hij, hj⟩ := ho
    have hlt : j < s.server.clients.length := lt_of_getElem? hj
    have hle : s.server.clients.length ≤ i := List.getElem?_eq_none_iff.mp hend
    omega
  | unlocks hpc => rw [hpc] at ho; exact ho.elim
  | givesUp hpc => rw [hpc] at ho; exact ho.elim
  | closesSocket hpc => rw [hpc] at ho; exact ho.elim
  | failsToClose errno _ => exact absurd rfl (hown errno)

/-- The peers do nothing in a step of the server's own threads. -/
theorem eof_of_own {l : Label} (h : s.OwnStep l s') : s'.eof = s.eof := by
  obtain ⟨h, hown⟩ := h
  cases h with
  | world _ h => cases h <;> cases hown
  | acceptor _ h => cases h <;> rfl
  | remover _ h => cases h <;> rfl
  | task _ h => cases h <;> rfl
  | closer _ h => cases h <;> rfl
  | caller _ h =>
    obtain ⟨_, _, _, _, _, _, rfl⟩ := caller_effect h
    rfl
  | dangles _ _ _ => rfl

/-- A step of the server's own threads does not end the wait for a silent client. -/
theorem silent_step {l : Label} (hs : s.Good) (ho : s.ToJoin o) (hsilent : s.eof o = false)
    (h : s.OwnStep l s') : s'.ToJoin o ∧ s'.eof o = false := by
  refine ⟨?_, by rw [eof_of_own h, hsilent]⟩
  have hunfinished := not_finished_of_silent hs.closing hsilent
  obtain ⟨h, hown⟩ := h
  cases h with
  | world _ h => cases h <;> cases hown
  | acceptor _ h => exact acceptor_toJoin ho h
  | remover _ h => exact remover_toJoin hs hunfinished ho h
  | task _ h =>
    refine toJoin_of_same ho (task_clients h) ?_ ?_
    · cases h <;> rfl
    · cases h <;> exact id
  | closer _ h =>
    refine closer_toJoin hs hunfinished ho h ?_
    rintro errno rfl
    cases hown
  | caller _ h =>
    obtain ⟨_, _, _, _, _, _, rfl⟩ := caller_effect h
    exact toJoin_of_same ho rfl rfl id
  | dangles _ _ _ => exact toJoin_of_same ho rfl rfl id

/-- A client that is to be joined and whose peer stays connected holds up `close()`. -/
theorem blocked_of_silent (hs : s.Good) (ho : s.ToJoin o) (hsilent : s.eof o = false) :
    ¬ s.CanReturn := by
  rintro ⟨s', ⟨ls, hrun⟩, successFlag, hreturned⟩
  have hstays : s'.Good ∧ s'.ToJoin o ∧ s'.eof o = false :=
    hrun.invariant (I := fun s => s.Good ∧ s.ToJoin o ∧ s.eof o = false)
      (fun _ _ _ ⟨hs, ho, hsilent⟩ h => ⟨hs.step h.1, silent_step hs ho hsilent h⟩)
      ⟨hs, ho, hsilent⟩
  have hjoin := hstays.2.1
  unfold Service.ToJoin at hjoin
  rw [hreturned] at hjoin
  exact hjoin

end Silent

end TCPServer
