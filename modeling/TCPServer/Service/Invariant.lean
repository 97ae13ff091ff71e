/-
  What holds in every reachable state of the service.

  `Service.Inv`: the entries of `_clients` are different and are existing objects, apart from
  the one that the remover has deleted and not yet erased; a client that is being accepted
  exists and is not listed yet; the flag of a client is set while its receive thread is in its
  loop; a running receive thread has its client listed, or about to be; the threads that the
  remover and `close()` are past joining have finished, and so have those of deleted clients.

  One lemma for each thread, then `Service.Inv.step` and `Service.Reachable.inv`.
-/
import TCPServer.Service.Mutexes

namespace TCPServer

open Locks Runs

/-- The iterator of a removal, up to the erasure. -/
def SweepPc.target : SweepPc → Option ℕ
  | .joining i => some i
  | .closing i => some i
  | .deleting i => some i
  | .erasing i => some i
  | _ => none

/-- The iterator of a removal that is past the join. -/
def SweepPc.joined : SweepPc → Option ℕ
  | .closing i => some i
  | .deleting i => some i
  | .erasing i => some i
  | _ => none

/-- How many clients the loop of `close()` has joined. -/
def ClosePc.joined : ClosePc → ℕ
  | .joining i => i
  | .closing i => i + 1
  | _ => 0

structure Service.Inv (s : Service) : Prop where
  nodup : s.server.clients.Nodup
  lt : ∀ o ∈ s.server.clients, o < s.server.objects.length
  alive : ∀ i o, s.server.clients[i]? = some o → s.server.Alive o ∨ s.remover = .erasing i
  unlisted : ∀ o, s.acceptor.newClient = some o → s.server.Alive o ∧ o ∉ s.server.clients
  target : ∀ i, s.remover.target = some i →
    ∃ o, s.server.clients[i]? = some o ∧ s.server.isConnected o = false
  joined : ∀ i o, s.remover.joined = some i → s.server.clients[i]? = some o →
    s.tasks o = .finished
  dead : ∀ o c, s.server.objects[o]? = some c → c.deleted = true → s.tasks o = .finished
  flag : ∀ o, s.server.isConnected o = (s.tasks o).connected
  closed : ∀ i o, i < s.closer.joined → s.server.clients[i]? = some o → s.tasks o = .finished
  listed : ∀ o, (s.tasks o).runs = true →
    o ∈ s.server.clients ∨ s.acceptor.newClient = some o
  started : ∀ o, o < s.server.objects.length → s.tasks o ≠ .notStarted

section Basic

variable {s : Service}

/-- A client that is not deleted exists. -/
theorem Server.alive_of_not_deleted {s : Server} {o : ClientPtr} (ho : o < s.objects.length)
    (hd : ∀ c, s.objects[o]? = some c → c.deleted = false) : s.Alive o := by
  obtain ⟨c, hc⟩ : ∃ c, s.objects[o]? = some c := ⟨s.objects[o], List.getElem?_eq_getElem ho⟩
  exact ⟨c, object_ok_iff.mpr ⟨hc, hd c hc⟩⟩

/-- The object of a thread that has not finished exists. -/
theorem Service.Inv.alive_of_unfinished (hs : s.Inv) {o : ClientPtr}
    (ho : o < s.server.objects.length) (hpc : s.tasks o ≠ .finished) : s.server.Alive o := by
  refine Server.alive_of_not_deleted ho fun c hc => ?_
  rw [← Bool.not_eq_true]
  exact fun hd => hpc (hs.dead o c hc hd)

/-! While another thread has `_clientsMtx`, the remover is in no removal and `close()` not in its
loop. -/

theorem remover_target_of_holds (hl : s.Locked) {t : ThreadId} (ht : s.HoldsClients t)
    (hne : t ≠ .remover) : s.remover.target = none := by
  have hout : ¬ s.HoldsClients .remover := hl.clients.excludes ht hne.symm
  cases hpc : s.remover <;> simp_all [Service.HoldsClients, SweepPc.target, SweepPc.holds]

theorem remover_joined_of_holds (hl : s.Locked) {t : ThreadId} (ht : s.HoldsClients t)
    (hne : t ≠ .remover) : s.remover.joined = none := by
  have htarget := remover_target_of_holds hl ht hne
  cases hpc : s.remover <;> simp_all [SweepPc.target, SweepPc.joined]

theorem remover_not_erasing_of_holds (hl : s.Locked) {t : ThreadId} (ht : s.HoldsClients t)
    (hne : t ≠ .remover) (i : ℕ) : s.remover ≠ .erasing i := by
  intro hpc
  have htarget := remover_target_of_holds hl ht hne
  rw [hpc] at htarget
  cases htarget

theorem closer_joined_of_holds (hl : s.Locked) {t : ThreadId} (ht : s.HoldsClients t)
    (hne : t ≠ .closer) : s.closer.joined = 0 := by
  have hout : ¬ s.HoldsClients .closer := hl.clients.excludes ht hne.symm
  cases hpc : s.closer <;> simp_all [Service.HoldsClients, ClosePc.joined, ClosePc.holds]

/-- A listed client whose entry is not just being erased exists. -/
theorem Service.Inv.alive_of_mem (hs : s.Inv) (hpc : ∀ i, s.remover ≠ .erasing i)
    {o : ClientPtr} (ho : o ∈ s.server.clients) : s.server.Alive o := by
  obtain ⟨i, hi⟩ := List.getElem?_of_mem ho
  exact (hs.alive i o hi).resolve_right (hpc i)

end Basic

/-! ## The world -/

/-- A client connects, and its receive thread starts. -/
theorem Service.Inv.connect {s : Service} (hl : s.Locked) (hs : s.Inv)
    (hpc : s.acceptor = .accepting) (fileDescriptor : ℤ) (ip : String) :
    Service.Inv { s.setTask s.server.objects.length .check with
      server := s.server.newClient fileDescriptor ip
      acceptor := .started s.server.objects.length } := by
  have hne : ∀ o, o ≠ s.server.objects.length →
      (s.setTask s.server.objects.length .check).tasks o = s.tasks o := fun o ho =>
    setTask_ne s ho _
  have hfin : ∀ o, s.tasks o = .finished →
      (s.setTask s.server.objects.length .check).tasks o = .finished := fun o ho =>
    (hne o (Nat.ne_of_lt (hl.lt (by simp [ho])))).trans ho
  have halive : ∀ o, (s.server.newClient fileDescriptor ip).Alive o ↔
      s.server.Alive o ∨ o = s.server.objects.length := fun o => alive_new_iff rfl
  refine { hs with
    lt := fun o ho => ?_, alive := fun i o ho => ?_, unlisted := fun o ho => ?_,
    target := fun i hi => ?_, joined := fun i o hi ho => ?_, dead := fun o c ho hd => ?_,
    flag := fun o => ?_, closed := fun i o hi ho => ?_, listed := fun o ho => ?_,
    started := fun o ho => ?_ }
  · show o < (s.server.objects ++ [_]).length
    rw [List.length_append]
    exact Nat.lt_succ_of_lt (hs.lt o ho)
  · exact (hs.alive i o ho).imp_left fun ha => (halive o).mpr (.inl ha)
  · cases ho
    exact ⟨(halive _).mpr (.inr rfl), fun hm => Nat.lt_irrefl _ (hs.lt _ hm)⟩
  · obtain ⟨o, ho, hflag⟩ := hs.target i hi
    exact ⟨o, ho, (isConnected_new_of_lt (hs.lt o (List.mem_of_getElem? ho))).trans hflag⟩
  · exact hfin o (hs.joined i o hi ho)
  · rcases getElem?_concat_cases ho with hget | ⟨-, rfl⟩
    · exact hfin o (hs.dead o c hget hd)
    · cases hd
  · rcases Nat.lt_trichotomy o s.server.objects.length with hlt | rfl | hgt
    · exact (isConnected_new_of_lt hlt).trans (by rw [hs.flag o, hne o (Nat.ne_of_lt hlt)])
    · exact isConnected_new_self.trans (by rw [setTask_self]; rfl)
    · have hge : (s.server.newClient fileDescriptor ip).objects.length ≤ o := by
        rw [Server.newClient, List.length_append]
        exact hgt
      rw [show Server.isConnected _ o = false from isConnected_of_ge hge]
      rw [show Service.tasks _ o = .notStarted from
        (hne o (Nat.ne_of_gt hgt)).trans (hl.fresh o (Nat.le_of_lt hgt))]
      rfl
  · exact hfin o (hs.closed i o hi ho)
  · by_cases hnew : o = s.server.objects.length
    · exact .inr (congrArg some hnew.symm)
    · have hruns : (s.tasks o).runs = true := by
        rw [← hne o hnew]
        exact ho
      refine .inl ((hs.listed o hruns).resolve_right ?_)
      simp [hpc, AcceptorPc.newClient]
  · show (s.setTask s.server.objects.length .check).tasks o ≠ .notStarted
    by_cases hnew : o = s.server.objects.length
    · simp [hnew]
    · rw [hne o hnew]
      have hlt : o < (s.server.objects ++ [_]).length := ho
      rw [List.length_append, List.length_singleton] at hlt
      exact hs.started o (by omega)

theorem Service.Inv.world {s s' : Service} {l : Label} (hl : s.Locked) (hs : s.Inv)
    (h : s.WorldStep l s') : s'.Inv := by
  cases h with
  | peerSends msg _ => exact { hs with }
  | peerCloses o => exact { hs with }
  | calls c _ => exact { hs with }
  | closes hpc => exact { hs with closed := fun i o hi => absurd hi (Nat.not_lt_zero i) }
  | connects fileDescriptor ip hpc => exact hs.connect hl hpc fileDescriptor ip

/-! ## The accepting thread -/

/-- The new client comes to the end of the list. -/
theorem Service.Inv.pushClient {s : Service} (hl : s.Locked) (hs : s.Inv) {newClient : ClientPtr}
    (hpc : s.acceptor = .pushing newClient) :
    Service.Inv { s with
      server := { s.server with clients := s.server.clients ++ [newClient] }
      acceptor := .counting } := by
  have hnew : s.acceptor.newClient = some newClient := by
    rw [hpc]
    rfl
  have hin := holdsClients_acceptor hpc rfl
  obtain ⟨halive, hnot⟩ := hs.unlisted newClient hnew
  -- The remover is in no removal, and `close()` not in its loop.
  have hremover := remover_joined_of_holds hl hin (by simp)
  have hcloser := closer_joined_of_holds hl hin (by simp)
  refine { hs with
    nodup := ?_, lt := fun o ho => ?_, alive := fun i o ho => ?_,
    unlisted := by simp [AcceptorPc.newClient], target := fun i hi => ?_,
    joined := fun i o hi ho => ?_, closed := fun i o hi ho => ?_, listed := fun o ho => ?_ }
  · show (s.server.clients ++ [newClient]).Nodup
    rw [← List.concat_eq_append]
    exact .concat hnot hs.nodup
  · rcases List.mem_append.mp ho with ho | ho
    · exact hs.lt o ho
    · rw [List.mem_singleton.mp ho]
      exact alive_lt halive
  · rcases getElem?_concat_cases ho with ho | ⟨-, rfl⟩
    · exact hs.alive i o ho
    · exact .inl halive
  · obtain ⟨o, ho, hflag⟩ := hs.target i hi
    exact ⟨o, getElem?_append_of_some ho _, hflag⟩
  · have hi' : s.remover.joined = some i := hi
    rw [hremover] at hi'
    cases hi'
  · have hi' : i < s.closer.joined := hi
    rw [hcloser] at hi'
    exact absurd hi' (Nat.not_lt_zero i)
  · rcases hs.listed o ho with ho | ho
    · exact .inl (List.mem_append_left _ ho)
    · rw [hnew] at ho
      cases ho
      exact .inl (List.mem_append_right _ (List.mem_singleton_self _))

theorem Service.Inv.acceptor {s s' : Service} (hl : s.Locked) (hs : s.Inv)
    (h : s.AcceptorStep s') : s'.Inv := by
  cases h with
  | @locks newClient hpc _ =>
    have hnew : s.acceptor.newClient = some newClient := by
      rw [hpc]
      rfl
    exact { hs with
      unlisted := fun o ho => hs.unlisted o (hnew.trans ho)
      listed := fun o ho => (hs.listed o ho).imp_right fun h => hnew.symm.trans h }
  | pushes hpc => exact hs.pushClient hl hpc
  | counts hpc =>
    exact { hs with
      unlisted := by simp [AcceptorPc.newClient]
      listed := fun o ho => (hs.listed o ho).imp_right fun h => by
        rw [hpc] at h
        cases h }
  | unlocks hpc =>
    exact { hs with
      unlisted := by simp [AcceptorPc.newClient]
      listed := fun o ho => (hs.listed o ho).imp_right fun h => by
        rw [hpc] at h
        cases h }

/-! ## The remover -/

/-- A step of the remover that changes no client: what is asked of its new point. -/
theorem Service.Inv.moveRemover {s s' : Service} (hs : s.Inv)
    (halive : ∀ i, s.remover ≠ .erasing i)
    (htarget : ∀ i, s'.remover.target = some i →
      ∃ o, s.server.clients[i]? = some o ∧ s.server.isConnected o = false)
    (hjoined : ∀ i o, s'.remover.joined = some i → s.server.clients[i]? = some o →
      s.tasks o = .finished)
    (hserver : s'.server.clients = s.server.clients ∧ s'.server.objects = s.server.objects)
    (hrest : s'.acceptor = s.acceptor ∧ s'.tasks = s.tasks ∧ s'.closer = s.closer) :
    s'.Inv := by
  obtain ⟨hclients, hobjects⟩ := hserver
  obtain ⟨hacceptor, htasks, hcloser⟩ := hrest
  have halive' : ∀ o, s'.server.Alive o ↔ s.server.Alive o := fun o => by
    unfold Server.Alive Server.object
    rw [hobjects]
  have hflag : ∀ o, s'.server.isConnected o = s.server.isConnected o := fun o => by
    unfold Server.isConnected
    rw [hobjects]
  constructor
  · rw [hclients]
    exact hs.nodup
  · rw [hclients, hobjects]
    exact hs.lt
  · rw [hclients]
    exact fun i o ho => .inl ((halive' o).mpr ((hs.alive i o ho).resolve_right (halive i)))
  · rw [hclients, hacceptor]
    exact fun o ho => ⟨(halive' o).mpr (hs.unlisted o ho).1, (hs.unlisted o ho).2⟩
  · rw [hclients]
    intro i hi
    obtain ⟨o, ho, hd⟩ := htarget i hi
    exact ⟨o, ho, (hflag o).trans hd⟩
  · rw [hclients, htasks]
    exact hjoined
  · rw [hobjects, htasks]
    exact hs.dead
  · rw [htasks]
    exact fun o => (hflag o).trans (hs.flag o)
  · rw [hclients, htasks, hcloser]
    exact hs.closed
  · rw [hclients, htasks, hacceptor]
    exact hs.listed
  · rw [hobjects, htasks]
    exact hs.started

/-- A step of the remover that changes no client and leads to a point outside a removal. -/
theorem Service.Inv.idleRemover {s s' : Service} (hs : s.Inv)
    (halive : ∀ i, s.remover ≠ .erasing i) (htarget : s'.remover.target = none)
    (hserver : s'.server.clients = s.server.clients ∧ s'.server.objects = s.server.objects)
    (hrest : s'.acceptor = s.acceptor ∧ s'.tasks = s.tasks ∧ s'.closer = s.closer) :
    s'.Inv := by
  have hjoined : s'.remover.joined = none := by
    cases hpc : s'.remover <;> simp_all [SweepPc.target, SweepPc.joined]
  refine hs.moveRemover halive (fun i hi => ?_) (fun i o hi => ?_) hserver hrest
  · rw [htarget] at hi
    cases hi
  · rw [hjoined] at hi
    cases hi

/-- The remover deletes a client that is out of its thread. -/
theorem Service.Inv.deleteClient {s : Service} (hs : s.Inv) {i : ℕ} {o : ClientPtr}
    (hpc : s.remover = .deleting i) (ho : s.server.clients[i]? = some o) :
    Service.Inv { s with
      server := s.server.deleteClient o
      history := s.history ++ [.deleted o]
      remover := .erasing i } := by
  have hdone : s.tasks o = .finished := hs.joined i o (by rw [hpc]; rfl) ho
  have hflag : ∀ o', (s.server.deleteClient o).isConnected o' = s.server.isConnected o' :=
    isConnected_setObject_of_eq o _ fun _ => rfl
  refine { hs with
    lt := fun o' ho' => ?_, alive := fun j o' ho' => ?_, unlisted := fun o' ho' => ?_,
    target := fun j hj => ?_, joined := fun j o' hj ho' => ?_, dead := fun o' c ho' hd => ?_,
    flag := fun o' => (hflag o').trans (hs.flag o'), started := fun o' ho' => ?_ }
  · rw [Server.deleteClient, length_setObject]
    exact hs.lt o' ho'
  · by_cases hoo : o' = o
    · subst hoo
      rw [nodup_getElem?_inj hs.nodup ho' ho]
      exact .inr rfl
    · have hold := (hs.alive j o' ho').resolve_right (by simp [hpc])
      exact .inl (alive_delete_iff.mpr ⟨hold, hoo⟩)
  · obtain ⟨hold, hnot⟩ := hs.unlisted o' ho'
    refine ⟨alive_delete_iff.mpr ⟨hold, ?_⟩, hnot⟩
    rintro rfl
    exact hnot (List.mem_of_getElem? ho)
  · cases hj
    obtain ⟨o', ho', hd⟩ := hs.target i (by rw [hpc]; rfl)
    exact ⟨o', ho', (hflag o').trans hd⟩
  · cases hj
    exact hs.joined i o' (by rw [hpc]; rfl) ho'
  · by_cases hoo : o' = o
    · rw [hoo]
      exact hdone
    · exact hs.dead o' c ((objects_setObject_ne hoo _).symm.trans ho') hd
  · rw [Server.deleteClient, length_setObject] at ho'
    exact hs.started o' ho'

/-- The remover erases the client it has deleted. -/
theorem Service.Inv.eraseClient {s : Service} (hl : s.Locked) (hs : s.Inv) {i : ℕ}
    (hpc : s.remover = .erasing i) :
    Service.Inv { s with
      server := { s.server with clients := s.server.clients.eraseIdx i }
      remover := .comparing i } := by
  have hin := holdsClients_remover hpc rfl
  obtain ⟨o, ho, -⟩ := hs.target i (by rw [hpc]; rfl)
  have hdone : s.tasks o = .finished := hs.joined i o (by rw [hpc]; rfl) ho
  obtain ⟨hi, hget⟩ := List.getElem?_eq_some_iff.mp ho
  have herase : s.server.clients.eraseIdx i = s.server.clients.erase o := by
    rw [← hget, hs.nodup.erase_getElem i hi]
  have hmem : ∀ o', o' ∈ s.server.clients.eraseIdx i ↔ o' ≠ o ∧ o' ∈ s.server.clients :=
    fun o' => by rw [herase, hs.nodup.mem_erase_iff]
  have hcloser := closer_joined_of_holds hl hin (by simp)
  refine { hs with
    nodup := ?_, lt := fun o' ho' => hs.lt o' ((hmem o').mp ho').2,
    alive := fun j o' ho' => ?_, unlisted := fun o' ho' => ?_,
    target := by simp [SweepPc.target], joined := by simp [SweepPc.joined],
    closed := fun j o' hj _ => ?_, listed := fun o' ho' => ?_ }
  · show (s.server.clients.eraseIdx i).Nodup
    rw [herase]
    exact hs.nodup.erase o
  · have hm := (hmem o').mp (List.mem_of_getElem? ho')
    obtain ⟨j', hj'⟩ := List.getElem?_of_mem hm.2
    refine .inl ((hs.alive j' o' hj').resolve_right ?_)
    rw [hpc]
    intro hij
    cases hij
    rw [ho] at hj'
    exact hm.1 (Option.some.inj hj').symm
  · obtain ⟨halive, hnot⟩ := hs.unlisted o' ho'
    exact ⟨halive, fun hm => hnot ((hmem o').mp hm).2⟩
  · have hj' : j < s.closer.joined := hj
    rw [hcloser] at hj'
    exact absurd hj' (Nat.not_lt_zero j)
  · rcases hs.listed o' ho' with hold | hnew
    · refine .inl ((hmem o').mpr ⟨?_, hold⟩)
      rintro rfl
      have hruns : (s.tasks o').runs = true := ho'
      rw [hdone] at hruns
      cases hruns
    · exact .inr hnew

theorem Service.Inv.remover {s s' : Service} {how : How} (hl : s.Locked) (hs : s.Inv)
    (h : s.RemoverStep how s') : s'.Inv := by
  cases h with
  | throws errno _ _ _ => exact { hs with }
  | finds hpc ho hflag =>
    refine hs.moveRemover (by simp [hpc]) (fun j hj => ?_) (by simp [SweepPc.joined])
      ⟨rfl, rfl⟩ ⟨rfl, rfl, rfl⟩
    cases hj
    exact ⟨_, ho, hflag⟩
  | joins hpc ho hfin =>
    refine hs.moveRemover (by simp [hpc]) (fun j hj => ?_) (fun j o' hj ho' => ?_)
      ⟨rfl, rfl⟩ ⟨rfl, rfl, rfl⟩
    · exact hs.target j (by rw [hpc]; exact hj)
    · cases hj
      rw [ho] at ho'
      cases ho'
      exact hfin
  | closes hpc ho _ =>
    refine hs.moveRemover (by simp [hpc]) (fun j hj => ?_) (fun j o' hj ho' => ?_)
      ⟨rfl, rfl⟩ ⟨rfl, rfl, rfl⟩
    · exact hs.target j (by rw [hpc]; exact hj)
    · exact hs.joined j o' (by rw [hpc]; exact hj) ho'
  | deletes hpc ho => exact hs.deleteClient hpc ho
  | erases hpc => exact hs.eraseClient hl hpc
  | goesOn hpc _ => exact hs.idleRemover (by simp [hpc]) rfl ⟨rfl, rfl⟩ ⟨rfl, rfl, rfl⟩
  | ends hpc _ => exact hs.idleRemover (by simp [hpc]) rfl ⟨rfl, rfl⟩ ⟨rfl, rfl, rfl⟩
  | locks hpc _ => exact hs.idleRemover (by simp [hpc]) rfl ⟨rfl, rfl⟩ ⟨rfl, rfl, rfl⟩
  | passes hpc _ _ => exact hs.idleRemover (by simp [hpc]) rfl ⟨rfl, rfl⟩ ⟨rfl, rfl, rfl⟩
  | findsNone hpc _ => exact hs.idleRemover (by simp [hpc]) rfl ⟨rfl, rfl⟩ ⟨rfl, rfl, rfl⟩
  | searchesAgain hpc _ => exact hs.idleRemover (by simp [hpc]) rfl ⟨rfl, rfl⟩ ⟨rfl, rfl, rfl⟩
  | wasLast hpc _ => exact hs.idleRemover (by simp [hpc]) rfl ⟨rfl, rfl⟩ ⟨rfl, rfl, rfl⟩
  | unlocks hpc => exact hs.idleRemover (by simp [hpc]) rfl ⟨rfl, rfl⟩ ⟨rfl, rfl, rfl⟩
  | wakes hpc => exact hs.idleRemover (by simp [hpc]) rfl ⟨rfl, rfl⟩ ⟨rfl, rfl, rfl⟩

/-! ## Receive threads -/

/-- Another thread that has finished stays so when the thread of `o` moves. -/
theorem finished_setTask {s : Service} {o o' : ClientPtr} {pc : TaskPc}
    (ho : s.tasks o ≠ .finished) (h : s.tasks o' = .finished) :
    (s.setTask o pc).tasks o' = .finished := by
  have hne : o' ≠ o := by
    rintro rfl
    exact ho h
  rw [setTask_ne s hne, h]

/-- A thread that was started stays so. -/
theorem started_setTask {s : Service} {o o' : ClientPtr} {pc : TaskPc} (hpc : pc ≠ .notStarted)
    (h : s.tasks o' ≠ .notStarted) : (s.setTask o pc).tasks o' ≠ .notStarted := by
  by_cases hoo : o' = o
  · rw [hoo, setTask_self]
    exact hpc
  · rwa [setTask_ne s hoo]

/-- No thread starts when the running thread of `o` moves. -/
theorem runs_of_setTask {s : Service} {o o' : ClientPtr} {pc : TaskPc}
    (ho : (s.tasks o).runs = true) (h : ((s.setTask o pc).tasks o').runs = true) :
    (s.tasks o').runs = true := by
  by_cases hoo : o' = o
  · rw [hoo, ho]
  · rwa [setTask_ne s hoo] at h

/-- A running receive thread moves on without a change of its flag. -/
theorem Service.Inv.moveTask {s : Service} (hs : s.Inv) {o : ClientPtr} {pc : TaskPc}
    (pc' : TaskPc) (hpc : s.tasks o = pc) (hruns : pc.runs = true) (hne : pc' ≠ .notStarted)
    (hflag : pc'.connected = pc.connected) : (s.setTask o pc').Inv := by
  have hunfinished : s.tasks o ≠ .finished := by
    rw [hpc]
    rintro rfl
    cases hruns
  have hconnected : pc'.connected = (s.tasks o).connected := by rw [hpc, hflag]
  exact { hs with
    joined := fun i o' hi ho' => finished_setTask hunfinished (hs.joined i o' hi ho')
    dead := fun o' c ho' hd => finished_setTask hunfinished (hs.dead o' c ho' hd)
    flag := fun o' => (hs.flag o').trans (update_apply_eq hconnected o').symm
    closed := fun i o' hi ho' => finished_setTask hunfinished (hs.closed i o' hi ho')
    listed := fun o' ho' => hs.listed o' (runs_of_setTask (by rw [hpc, hruns]) ho')
    started := fun o' ho' => started_setTask hne (hs.started o' ho') }

/-- The thread of `o` clears the flag of its client. -/
theorem Service.Inv.clearConnected {s : Service} (hs : s.Inv) {o : ClientPtr}
    (hpc : s.tasks o = .clearFlag) :
    Service.Inv { s.setTask o .publishDisconnected with server := s.server.clearConnected o } := by
  have hunfinished : s.tasks o ≠ .finished := by simp [hpc]
  have halive : ∀ o', (s.server.clearConnected o).Alive o' ↔ s.server.Alive o' :=
    alive_setObject_iff o _ fun _ => rfl
  have hflag : ∀ o', o' ≠ o →
      (s.server.clearConnected o).isConnected o' = s.server.isConnected o' := fun o' ho' =>
    isConnected_setObject_ne ho' _
  have hlength : (s.server.clearConnected o).objects.length = s.server.objects.length :=
    length_setObject _ _ _
  refine { hs with
    lt := fun o' ho' => ?_
    alive := fun i o' ho' => (hs.alive i o' ho').imp_left (halive o').mpr
    unlisted := fun o' ho' => ⟨(halive o').mpr (hs.unlisted o' ho').1, (hs.unlisted o' ho').2⟩
    target := fun i hi => ?_
    joined := fun i o' hi ho' => finished_setTask hunfinished (hs.joined i o' hi ho')
    dead := fun o' c ho' hd => ?_
    flag := fun o' => ?_
    closed := fun i o' hi ho' => finished_setTask hunfinished (hs.closed i o' hi ho')
    listed := fun o' ho' => hs.listed o' (runs_of_setTask (by rw [hpc]; rfl) ho')
    started := fun o' ho' => started_setTask (by simp) (hs.started o' (hlength ▸ ho')) }
  · rw [hlength]
    exact hs.lt o' ho'
  · obtain ⟨o', ho', hd⟩ := hs.target i hi
    have hne : o' ≠ o := by
      rintro rfl
      rw [hs.flag, hpc] at hd
      cases hd
    exact ⟨o', ho', (hflag o' hne).trans hd⟩
  · by_cases hoo : o' = o
    · subst hoo
      -- The object was not deleted before, as its thread has not finished.
      obtain ⟨c', hget⟩ : ∃ c', s.server.objects[o']? = some c' := by
        cases hget : s.server.objects[o']? with
        | some c' => exact ⟨c', rfl⟩
        | none => simp [Server.clearConnected, Server.setObject, hget] at ho'
      rw [Server.clearConnected, objects_setObject_self hget] at ho'
      cases ho'
      exact absurd (hs.dead o' c' hget hd) hunfinished
    · rw [Server.clearConnected, objects_setObject_ne hoo] at ho'
      exact finished_setTask hunfinished (hs.dead o' c ho' hd)
  · by_cases hoo : o' = o
    · subst hoo
      exact isConnected_clear_self.trans (by rw [setTask_self]; rfl)
    · exact (hflag o' hoo).trans (by rw [hs.flag, setTask_ne s hoo])

/-- What a handler does to the lists of the clients and to the other data is not seen here. -/
theorem Service.Inv.sameClients {s : Service} (hs : s.Inv) {server' : Server}
    (h : s.server.SameClients server') : Service.Inv { s with server := server' } where
  nodup := by rw [h.clients]; exact hs.nodup
  lt o ho := by
    rw [h.clients] at ho
    rw [length_objects_of_fixed h]
    exact hs.lt o ho
  alive i o ho := by
    rw [h.clients] at ho
    exact (hs.alive i o ho).imp_left h.alive
  unlisted o ho := by
    rw [h.clients]
    exact (hs.unlisted o ho).imp_left h.alive
  target i hi := by
    obtain ⟨o, ho, hdead⟩ := hs.target i hi
    refine ⟨o, ?_, (h.isConnected o).trans hdead⟩
    rw [h.clients]
    exact ho
  joined i o hi ho := hs.joined i o hi (h.clients ▸ ho)
  dead o c' hc' hd := by
    obtain ⟨-, hnone⟩ | ⟨c, c'', hc, hc'', hfix⟩ := h.object_cases o
    · rw [hnone] at hc'
      cases hc'
    · rw [hc''] at hc'
      cases hc'
      exact hs.dead o c hc ((Client.deleted_of_fixed hfix).symm.trans hd)
  flag o := (h.isConnected o).trans (hs.flag o)
  closed i o hi ho := hs.closed i o hi (h.clients ▸ ho)
  listed o ho := by
    rw [h.clients]
    exact hs.listed o ho
  started o ho := hs.started o (length_objects_of_fixed h ▸ ho)

theorem Service.Inv.task {s s' : Service} {o : ClientPtr} {how : How} (hs : s.Inv)
    (h : s.TaskStep o how s') : s'.Inv := by
  cases h with
  | throws errno hpc => exact { hs with }
  | clears hpc => exact { hs.clearConnected hpc with }
  | leaves hpc hflag =>
    -- Nobody else clears the flag, so the loop is not left here.
    rw [hs.flag, hpc] at hflag
    cases hflag
  | goesOn hpc _ => exact { hs.moveTask .waiting hpc rfl (by simp) rfl with }
  | timesOut hpc _ _ => exact { hs.moveTask .check hpc rfl (by simp) rfl with }
  | receives hpc _ => exact { hs.moveTask (.publishMsg _) hpc rfl (by simp) rfl with }
  | failsToReceive stale hpc =>
    exact { hs.moveTask (.publishMsg stale) hpc rfl (by simp) rfl with }
  | findsEnd hpc _ _ => exact { hs.moveTask .clearFlag hpc rfl (by simp) rfl with }
  | locks hpc _ => exact { hs.moveTask (.calling _) hpc rfl (by simp) rfl with }
  | returns hpc hsame _ =>
    exact { (hs.sameClients hsame).moveTask .check hpc rfl (by simp) rfl with }
  | handlerThrows e _ _ => exact { hs with }
  | locksLast hpc _ => exact { hs.moveTask .notifying hpc rfl (by simp) rfl with }
  | notifies hpc => exact { hs.moveTask .decrement hpc rfl (by simp) rfl with }
  | counts hpc => exact { hs.moveTask .finished hpc rfl (by simp) rfl with }

/-! ## `close()` and the other callers -/

theorem Service.Inv.closer {s s' : Service} {how : How} (hl : s.Locked) (hs : s.Inv)
    (h : s.CloserStep how s') : s'.Inv := by
  have hzero : ∀ {P : Prop} {i : ℕ}, i < 0 → P := fun h => absurd h (Nat.not_lt_zero _)
  cases h with
  | @joins i o hpc ho hfin =>
    refine { hs with closed := fun j o' hj ho' => ?_ }
    rcases Nat.lt_succ_iff_lt_or_eq.mp hj with hlt | rfl
    · exact hs.closed j o' (by rw [hpc]; exact hlt) ho'
    · rw [ho] at ho'
      cases ho'
      exact hfin
  | closes hpc _ _ =>
    exact { hs with closed := fun j o' hj ho' => hs.closed j o' (by rw [hpc]; exact hj) ho' }
  | @clears i hpc hend =>
    have hin := holdsClients_closer hpc rfl
    have hremover := remover_target_of_holds hl hin (by simp)
    have hall : ∀ o ∈ s.server.clients, s.tasks o = .finished := fun o ho => by
      obtain ⟨j, hj⟩ := List.getElem?_of_mem ho
      have hlt : j < s.server.clients.length := lt_of_getElem? hj
      have hle : s.server.clients.length ≤ i := List.getElem?_eq_none_iff.mp hend
      exact hs.closed j o (by rw [hpc]; exact Nat.lt_of_lt_of_le hlt hle) hj
    refine { hs with
      nodup := List.nodup_nil, lt := by simp, alive := fun _ _ ho => ?_,
      unlisted := fun o ho => ⟨(hs.unlisted o ho).1, List.not_mem_nil⟩, target := fun j hj => ?_,
      joined := fun _ _ _ ho => ?_, closed := fun _ _ _ ho => ?_, listed := fun o ho => ?_ }
    · simp at ho
    · have hj' : s.remover.target = some j := hj
      rw [hremover] at hj'
      cases hj'
    · simp at ho
    · simp at ho
    · refine .inr ((hs.listed o ho).resolve_left fun hm => ?_)
      have hruns : (s.tasks o).runs = true := ho
      rw [hall o hm] at hruns
      cases hruns
  | closesSocket _ => exact { hs with closed := fun _ _ hi => hzero hi }
  | locks _ _ => exact { hs with closed := fun _ _ hi => hzero hi }
  | stops _ _ => exact { hs with closed := fun _ _ hi => hzero hi }
  | hasNoRemover _ _ => exact { hs with closed := fun _ _ hi => hzero hi }
  | joinsRemover _ _ => exact { hs with closed := fun _ _ hi => hzero hi }
  | catches _ _ _ _ => exact { hs with closed := fun _ _ hi => hzero hi }
  | unlocks _ => exact { hs with closed := fun _ _ hi => hzero hi }
  | givesUp _ => exact { hs with closed := fun _ _ hi => hzero hi }
  | failsToClose _ _ => exact { hs with closed := fun _ _ hi => hzero hi }

theorem Service.Inv.caller {s s' : Service} {n : ℕ} (hs : s.Inv) (h : s.CallerStep n s') :
    s'.Inv := by
  obtain ⟨_, _, _, _, _, _, rfl⟩ := caller_effect h
  exact { hs with }

/-! ## Runs -/

theorem Service.Inv.step {s s' : Service} {l : Label} (hl : s.Locked) (hs : s.Inv)
    (h : s.Step l s') : s'.Inv := by
  cases h with
  | world _ h => exact hs.world hl h
  | acceptor _ h => exact hs.acceptor hl h
  | remover _ h => exact hs.remover hl h
  | task _ h => exact hs.task h
  | closer _ h => exact hs.closer hl h
  | caller _ h => exact hs.caller h
  | dangles _ _ _ => exact { hs with }

theorem Service.Inv.init (sockfd : ℤ) (automatic : Bool) : (Service.init sockfd automatic).Inv where
  nodup := List.nodup_nil
  lt := by simp [Service.init, Server.init]
  alive := fun i o ho => by simp [Service.init, Server.init] at ho
  unlisted := by simp [Service.init, AcceptorPc.newClient]
  target := by cases automatic <;> simp [Service.init, SweepPc.target]
  joined := fun i o _ ho => by simp [Service.init, Server.init] at ho
  dead := fun o c ho => by simp [Service.init, Server.init] at ho
  flag := fun o => isConnected_of_ge (Nat.zero_le o)
  closed := fun i o hi => absurd hi (Nat.not_lt_zero i)
  listed := by simp [Service.init, TaskPc.runs]
  started := fun o ho => absurd ho (Nat.not_lt_zero o)

/-- `Locked` and `Inv` together go along every run. -/
theorem Service.Reachable.inv {s : Service} (h : s.Reachable) : s.Locked ∧ s.Inv := by
  obtain ⟨sockfd, automatic, ls, hrun⟩ := h
  have hstep : ∀ (s : Service) l s', s.Locked ∧ s.Inv → s.Step l s' → s'.Locked ∧ s'.Inv :=
    fun _ _ _ hs h => ⟨step_locked hs.1 h, hs.2.step hs.1 h⟩
  exact hrun.invariant hstep ⟨init_locked sockfd automatic, .init sockfd automatic⟩

end TCPServer
