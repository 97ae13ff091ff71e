/-
  What can not go wrong, whatever system calls fail.

  No thread ever uses a deleted client (`no_dangling`), and the functions called under
  `_clientsMtx` come back (`run_ok`); so the process ends only where an exception leaves a
  thread function. A sweep that gets to its end has removed every client that was disconnected
  when it began (`sweep_removes_dead`).
-/
import TCPServer.Service.Invariant

namespace TCPServer

open Runs

/-! ## No undefined behaviour -/

section Safe

variable {s s' : Service}

/-- What a thread is about to use exists. -/
theorem no_dangling (hl : s.Locked) (hs : s.Inv) {t : ThreadId} {o : ClientPtr}
    (h : s.Uses t o) : s.server.Alive o := by
  cases t with
  | acceptor => exact h.elim
  | remover =>
    obtain ⟨i, hpos, ho⟩ := h
    refine (hs.alive i o ho).resolve_right fun hpc => ?_
    rw [hpc] at hpos
    cases hpos
  | task o' =>
    obtain ⟨rfl, hruns⟩ := h
    have hne : s.tasks o' ≠ .notStarted ∧ s.tasks o' ≠ .finished := by
      constructor <;> intro hpc <;> rw [hpc] at hruns <;> cases hruns
    exact hs.alive_of_unfinished (hl.lt hne.1) hne.2
  | closer =>
    obtain ⟨i, hpos, ho⟩ := h
    have hin : s.HoldsClients .closer := by
      show s.closer.holds = true
      cases hpc : s.closer <;> rw [hpc] at hpos <;> first | rfl | cases hpos
    exact hs.alive_of_mem (remover_not_erasing_of_holds hl hin nofun) (List.mem_of_getElem? ho)
  | caller n => exact h.elim

theorem mapM_object_ok {s : Server} {clients : List ClientPtr}
    (hs : ∀ o ∈ clients, s.Alive o) : ∃ cs, clients.mapM s.object = .ok cs := by
  induction clients with
  | nil => exact ⟨[], rfl⟩
  | cons client clients ih =>
    obtain ⟨c, hc⟩ := hs client List.mem_cons_self
    obtain ⟨cs, hcs⟩ := ih fun o ho => hs o (List.mem_cons_of_mem _ ho)
    refine ⟨c :: cs, ?_⟩
    rw [List.mapM_cons, hc, ok_bind, hcs]
    rfl

/-- A function that has its mutex comes back. -/
theorem run_ok (hl : s.Locked) (hs : s.Inv) {n : ℕ} {c : Call} (hpc : s.callers n = .running c) :
    ∃ s', s.run c = .ok s' := by
  have halive : c.locksClients = true → ∀ o ∈ s.server.clients, s.server.Alive o := by
    intro hc o ho
    have hin : s.HoldsClients (.caller n) := by
      show (s.callers n).holdsClients = true
      rw [hpc]
      exact hc
    exact hs.alive_of_mem (remover_not_erasing_of_holds hl hin nofun) ho
  cases c with
  | subscribe observer => exact ⟨_, rfl⟩
  | printClients =>
    obtain ⟨cs, hcs⟩ := mapM_object_ok (halive rfl)
    exact ⟨_, bind_ok_iff.mpr ⟨cs, hcs, rfl⟩⟩
  | sendToAllClients msg results =>
    obtain ⟨p, sent, hloop, -⟩ := sendLoop_spec msg results (halive rfl) 0
    exact ⟨_, bind_ok_iff.mpr ⟨_, hloop, rfl⟩⟩
  | sendToClient clientIP msg r =>
    rcases findIP_spec clientIP (halive rfl) with ⟨o, ho, -, hfind⟩ | ⟨-, hfind⟩
    · obtain ⟨p, sent, hsend, -⟩ := sendToClient_result (halive rfl o ho) msg r
      exact ⟨_, bind_ok_iff.mpr ⟨_, bind_ok_iff.mpr ⟨_, hfind, hsend⟩, rfl⟩⟩
    · exact ⟨_, bind_ok_iff.mpr ⟨_, bind_ok_iff.mpr ⟨_, hfind, rfl⟩, rfl⟩⟩

end Safe

/-! ## Sweeps -/

/-- Up to where the remover has come in its sweep, `o` does not stand in the list. -/
def SweepPc.Before (clients : List ClientPtr) (o : ClientPtr) : SweepPc → Prop
  | .scanning j => ∀ i, clients[i]? = some o → j ≤ i
  | .joining j => ∀ i, clients[i]? = some o → j ≤ i
  | .closing j => ∀ i, clients[i]? = some o → j ≤ i
  | .deleting j => ∀ i, clients[i]? = some o → j ≤ i
  | .erasing j => ∀ i, clients[i]? = some o → j ≤ i
  | .comparing j => ∀ i, clients[i]? = some o → j ≤ i
  | _ => o ∉ clients

/-- The disconnected client `o` is not behind the remover, and it is not added again. -/
structure Service.Ahead (s : Service) (o : ClientPtr) : Prop where
  created : o < s.server.objects.length
  dead : s.server.isConnected o = false
  notNew : s.acceptor.newClient ≠ some o
  before : s.remover.Before s.server.clients o

section Sweeps

variable {s s' : Service} {o : ClientPtr}

/-- Outside a sweep, being ahead is not being listed. -/
theorem before_of_not_mem {clients : List ClientPtr} {pc : SweepPc} (ho : o ∉ clients) :
    pc.Before clients o := by
  have hnone : ∀ {P : Prop} {i : ℕ}, clients[i]? = some o → P := fun hi =>
    absurd (List.mem_of_getElem? hi) ho
  cases pc <;> first | exact fun i hi => hnone hi | exact ho

/-- Adding another client at the end, or emptying the list, keeps it ahead. -/
theorem before_of_getElem? {clients clients' : List ClientPtr} {pc : SweepPc}
    (h : pc.Before clients o)
    (hget : ∀ i : ℕ, clients'[i]? = some o → clients[i]? = some o) : pc.Before clients' o := by
  have hmem : o ∉ clients → o ∉ clients' := fun hnot ho => by
    obtain ⟨i, hi⟩ := List.getElem?_of_mem ho
    exact hnot (List.mem_of_getElem? (hget i hi))
  cases pc <;> first | exact fun i hi => h i (hget i hi) | exact hmem h

/-- The step of the remover keeps `o` ahead: it passes connected clients only, and what it
    takes out makes the clients behind move up to where it stands. -/
theorem remover_ahead {how : How} (hs : s.Ahead o) (h : s.RemoverStep how s') : s'.Ahead o := by
  have hbefore := hs.before
  cases h with
  | goesOn hpc _ => exact { hs with before := by rw [hpc] at hbefore; exact hbefore }
  | ends hpc _ => exact { hs with before := by rw [hpc] at hbefore; exact hbefore }
  | locks hpc _ =>
    rw [hpc] at hbefore
    exact { hs with before := before_of_not_mem hbefore }
  | @passes i o' hpc hget hflag =>
    rw [hpc] at hbefore
    refine { hs with before := fun j hj => Nat.lt_of_le_of_ne (hbefore j hj) ?_ }
    rintro rfl
    have hoo : some o' = some o := hget.symm.trans hj
    cases hoo
    rw [hs.dead] at hflag
    cases hflag
  | finds hpc _ _ => exact { hs with before := by rw [hpc] at hbefore; exact hbefore }
  | @findsNone i hpc hend =>
    rw [hpc] at hbefore
    refine { hs with before := fun ho => ?_ }
    obtain ⟨j, hj⟩ := List.getElem?_of_mem ho
    have hlt : j < s.server.clients.length := lt_of_getElem? hj
    have hle : s.server.clients.length ≤ i := List.getElem?_eq_none_iff.mp hend
    exact absurd (hbefore j hj) (by omega)
  | joins hpc _ _ => exact { hs with before := by rw [hpc] at hbefore; exact hbefore }
  | closes hpc _ _ => exact { hs with before := by rw [hpc] at hbefore; exact hbefore }
  | throws errno _ _ _ => exact { hs with }
  | @deletes i o' hpc _ =>
    rw [hpc] at hbefore
    have hflag : (s.server.deleteClient o').isConnected o = s.server.isConnected o :=
      isConnected_setObject_of_eq o' (fun c => { c with deleted := true }) (fun _ => rfl) o
    refine { hs with created := ?_, dead := hflag.trans hs.dead, before := hbefore }
    rw [Server.deleteClient, length_setObject]
    exact hs.created
  | @erases i hpc =>
    rw [hpc] at hbefore
    refine { hs with before := fun j hj => ?_ }
    by_contra hlt
    have hji : j < i := Nat.lt_of_not_le hlt
    have hget : s.server.clients[j]? = some o := by
      rw [← List.getElem?_eraseIdx_of_lt hji]
      exact hj
    exact absurd (hbefore j hget) (Nat.not_le_of_lt hji)
  | searchesAgain _ _ => exact { hs with before := fun j _ => Nat.zero_le j }
  | @wasLast i hpc hend =>
    rw [hpc] at hbefore
    refine { hs with before := fun ho => ?_ }
    obtain ⟨j, hj⟩ := List.getElem?_of_mem ho
    have hlt : j < s.server.clients.length := lt_of_getElem? hj
    exact absurd (hbefore j hj) (by omega)
  | unlocks hpc => exact { hs with before := by rw [hpc] at hbefore; exact hbefore }
  | wakes hpc => exact { hs with before := by rw [hpc] at hbefore; exact hbefore }

theorem step_ahead {l : Label} (hs : s.Ahead o) (h : s.Step l s') : s'.Ahead o := by
  cases h with
  | world _ h =>
    cases h with
    | connects fileDescriptor ip _ =>
      refine { hs with
        created := ?_, dead := (isConnected_new_of_lt hs.created).trans hs.dead,
        notNew := fun h => ?_ }
      · show o < (s.server.objects ++ [_]).length
        rw [List.length_append]
        exact Nat.lt_succ_of_lt hs.created
      · exact Nat.ne_of_gt hs.created (Option.some.inj h)
    | _ => exact { hs with }
  | acceptor _ h =>
    cases h with
    | locks hpc _ => exact { hs with notNew := by have := hs.notNew; rwa [hpc] at this }
    | @pushes newClient hpc =>
      have hne : newClient ≠ o := by
        rintro rfl
        exact hs.notNew (by rw [hpc]; rfl)
      refine { hs with notNew := nofun, before := before_of_getElem? hs.before fun i hi => ?_ }
      exact (getElem?_concat_cases hi).resolve_right fun h => hne h.2.symm
    | counts _ => exact { hs with notNew := nofun }
    | unlocks _ => exact { hs with notNew := nofun }
  | remover _ h => exact remover_ahead hs h
  | @task o' _ _ _ h =>
    cases h with
    | clears _ =>
      refine { hs with created := ?_, dead := ?_ }
      · show o < (s.server.setObject o' _).objects.length
        rw [length_setObject]
        exact hs.created
      · show (s.server.setObject o' _).isConnected o = false
        by_cases hoo : o = o'
        · rw [hoo]
          exact isConnected_clear_self
        · rw [isConnected_setObject_ne hoo]
          exact hs.dead
    | returns _ hsame _ =>
      refine { hs with created := ?_, dead := (hsame.isConnected o).trans hs.dead, before := ?_ }
      · rw [length_objects_of_fixed hsame]
        exact hs.created
      · rw [hsame.clients]
        exact hs.before
    | _ => exact { hs with }
  | closer _ h =>
    cases h with
    | clears _ _ => exact { hs with before := before_of_not_mem nofun }
    | _ => exact { hs with }
  | caller _ h =>
    obtain ⟨_, _, _, _, _, _, rfl⟩ := caller_effect h
    exact { hs with }
  | dangles _ _ _ => exact { hs with }

end Sweeps

/-- A client that is listed and disconnected when a sweep begins is not listed when the sweep
    ends, whatever fails in between. -/
theorem sweep_removes_dead {s s' : Service} {ls : List Label} {o : ClientPtr}
    (hi : s.Inv) (hbegins : s.remover = .scanning 0) (ho : o ∈ s.server.clients)
    (hdead : s.server.isConnected o = false) (hrun : Run Service.Step s ls s')
    (hends : s'.remover = .unlocking) : o ∉ s'.server.clients := by
  have hahead : s.Ahead o := by
    refine ⟨hi.lt o ho, hdead, fun hnew => (hi.unlisted o hnew).2 ho, ?_⟩
    rw [hbegins]
    exact fun i _ => Nat.zero_le i
  have hlast : s'.Ahead o := hrun.invariant (fun _ _ _ hs h => step_ahead hs h) hahead
  have hbefore := hlast.before
  rw [hends] at hbefore
  exact hbefore

end TCPServer
