/-
  What holds in every state the threads can reach.

  `Sys.Inv`: the lists are separate; the entries of `_clients` are different and are existing
  objects, apart from the one entry that the remover has deleted and not yet erased; a client
  that is being accepted exists and is not listed yet; the remover's iterator is at its client;
  from the join on, the receive thread of that client has finished, and so has the thread of
  every deleted client; `_subscribersMtx` is held by the receive thread that is in a callback.
-/
import TCPServer.Threads.Effects

namespace TCPServer

open Runs

structure Sys.Inv (s : Sys) : Prop where
  separate : s.server.Separate
  notStarted : ∀ o, s.server.objects.length ≤ o → s.receivers o = .notStarted
  nodup : s.server.clients.Nodup
  lt : ∀ o ∈ s.server.clients, o < s.server.objects.length
  alive : ∀ i o, s.server.clients[i]? = some o → s.server.Alive o ∨ s.remover = .erasing i
  unlisted : ∀ o, s.acceptor.newClient = some o → s.server.Alive o ∧ o ∉ s.server.clients
  target : ∀ i o, s.remover.target = some (i, o) → s.server.clients[i]? = some o
  joined : ∀ o, s.remover.joined = some o → s.receivers o = .finished
  dead : ∀ o c, s.server.objects[o]? = some c → c.deleted = true → s.receivers o = .finished
  holder : ∀ o, (s.receivers o).holds = true ↔ s.subscribersMtx = some (.receiver o)

/-! ## The accepting thread -/

/-- A client connects, and its receive thread starts. -/
theorem Sys.Inv.accept {s : Sys} (hs : s.Inv) (fileDescriptor : ℤ) (ip : String) :
    Sys.Inv { s.setReceiver s.server.objects.length .check with
      server := { s.server with
        objects := s.server.objects ++ [⟨fileDescriptor, ip, true, none, false⟩] }
      acceptor := .started s.server.objects.length } := by
  have hnew : ∀ o, ({ s.server with objects := s.server.objects ++
      [⟨fileDescriptor, ip, true, none, false⟩] } : Server).Alive o ↔
        s.server.Alive o ∨ o = s.server.objects.length := fun o => alive_new_iff rfl
  have hlen : s.receivers s.server.objects.length = .notStarted := hs.notStarted _ (le_refl _)
  refine ⟨?_, fun o ho => ?_, hs.nodup, fun o ho => ?_, fun i o ho => ?_, fun o ho => ?_,
    hs.target, fun o ho => ?_, fun o c ho hd => ?_, fun o => ?_⟩
  · have hsame : s.server.SameLists _ := sameLists_addClient s.server fileDescriptor ip
    exact hsame.separate hs.separate
  · simp only [List.length_append, List.length_singleton] at ho
    show Function.update s.receivers _ _ o = _
    rw [Function.update_of_ne (Nat.ne_of_gt ho)]
    exact hs.notStarted o (Nat.le_of_succ_le ho)
  · simp only [List.length_append, List.length_singleton]
    exact Nat.lt_succ_of_lt (hs.lt o ho)
  · exact (hs.alive i o ho).imp_left fun ha => (hnew o).mpr (.inl ha)
  · cases ho
    exact ⟨(hnew _).mpr (.inr rfl), fun hm => Nat.lt_irrefl _ (hs.lt _ hm)⟩
  · have hfin := hs.joined o ho
    have hne : o ≠ s.server.objects.length := by
      rintro rfl
      rw [hlen] at hfin
      cases hfin
    show Function.update s.receivers _ _ o = _
    rw [Function.update_of_ne hne, hfin]
  · rcases getElem?_concat_cases ho with hget | ⟨-, rfl⟩
    · have hlt := lt_of_getElem? hget
      show Function.update s.receivers _ _ o = _
      rw [Function.update_of_ne (Nat.ne_of_lt hlt), hs.dead o c hget hd]
    · cases hd
  · show (Function.update s.receivers _ _ o).holds = true ↔ _
    by_cases ho : o = s.server.objects.length
    · subst ho
      have hold := hs.holder s.server.objects.length
      rw [hlen] at hold
      rw [Function.update_self]
      exact hold
    · rw [Function.update_of_ne ho]
      exact hs.holder o

/-- The new client comes to the end of the list. -/
theorem Sys.Inv.pushClient {s : Sys} (hs : s.Inv) {newClient : ClientPtr}
    (hpc : s.acceptor = .pushing newClient) :
    Sys.Inv { s with
      server := { s.server with clients := s.server.clients ++ [newClient] }
      acceptor := .counting } := by
  obtain ⟨hnew, hnot⟩ := hs.unlisted newClient (by rw [hpc]; rfl)
  refine { hs with
    nodup := ?_, lt := fun o ho => ?_, alive := fun i o ho => ?_, unlisted := fun o ho => ?_,
    target := fun i o ho => ?_ }
  · show (s.server.clients ++ [newClient]).Nodup
    rw [← List.concat_eq_append]
    exact .concat hnot hs.nodup
  · rcases List.mem_append.mp ho with ho | ho
    · exact hs.lt o ho
    · rw [List.mem_singleton.mp ho]
      exact alive_lt hnew
  · rcases getElem?_concat_cases ho with ho | ⟨-, rfl⟩
    · exact hs.alive i o ho
    · exact .inl hnew
  · cases ho
  · exact getElem?_append_of_some (hs.target i o ho) _

theorem acceptor_inv {s s' : Sys} (hs : s.Inv) (h : s.AcceptorEffect s') : s'.Inv := by
  cases h with
  | accepts fileDescriptor ip _ => exact hs.accept fileDescriptor ip
  | locks hpc _ =>
    exact { hs with unlisted := fun o ho => hs.unlisted o (by rw [hpc]; exact ho) }
  | pushes hpc => exact hs.pushClient hpc
  | counts _ => exact { hs with unlisted := fun o ho => by cases ho }
  | unlocks _ => exact { hs with unlisted := fun o ho => by cases ho }

/-! ## The remover thread -/

/-- A step that only moves the remover to a place where no removal is under way. -/
theorem Sys.Inv.setRemover {s : Sys} (hs : s.Inv) {pc : RemoverPc} {mtx : Option Tid}
    (hpc : ∀ i, s.remover ≠ .erasing i) (htarget : pc.target = none) (hjoined : pc.joined = none) :
    Sys.Inv { s with remover := pc, clientsMtx := mtx } := by
  refine { hs with alive := fun i o ho => ?_, target := fun i o ho => ?_, joined := fun o ho => ?_ }
  · exact .inl ((hs.alive i o ho).resolve_right (hpc i))
  · rw [htarget] at ho
    cases ho
  · rw [hjoined] at ho
    cases ho

theorem Sys.Inv.fails {s : Sys} (hs : s.Inv) (t : Tid) (e : Stop) : (s.fails t e).Inv :=
  { hs with }

/-- The remover deletes a client whose thread it has joined. -/
theorem Sys.Inv.deleteClient {s : Sys} (hs : s.Inv) {i : ℕ} {client : ClientPtr}
    (hpc : s.remover = .deleting i client) :
    Sys.Inv { s with
      server := s.server.setObject client fun c => { c with deleted := true }
      remover := .erasing i } := by
  have htarget := hs.target i client (by rw [hpc]; rfl)
  have hjoined := hs.joined client (by rw [hpc]; rfl)
  have hlen : (s.server.setObject client fun c => { c with deleted := true }).objects.length =
      s.server.objects.length := by simp [Server.setObject]
  refine ⟨?_, fun o ho => ?_, hs.nodup, fun o ho => ?_, fun j o ho => ?_, fun o ho => ?_,
    fun j o ho => ?_, fun o ho => ?_, fun o c ho hd => ?_, hs.holder⟩
  · exact (sameLists_setObject s.server client (fun c => { c with deleted := true })
      fun _ => rfl).separate hs.separate
  · exact hs.notStarted o (by rw [← hlen]; exact ho)
  · show o < List.length (Server.objects _)
    rw [hlen]
    exact hs.lt o ho
  · -- of the listed clients only the one at `i` is deleted
    by_cases hij : i = j
    · exact .inr (by rw [hij])
    · refine .inl (alive_delete_iff.mpr ⟨?_, ?_⟩)
      · exact (hs.alive j o ho).resolve_right (by rw [hpc]; simp)
      · rintro rfl
        exact hij (nodup_getElem?_inj hs.nodup htarget ho)
  · obtain ⟨halive, hnot⟩ := hs.unlisted o ho
    refine ⟨alive_delete_iff.mpr ⟨halive, ?_⟩, hnot⟩
    rintro rfl
    exact hnot (List.mem_of_getElem? htarget)
  · cases ho
  · cases ho
  · by_cases heq : o = client
    · subst heq
      exact hjoined
    · exact hs.dead o c (by rw [← ho]; exact (objects_setObject_ne heq _).symm) hd

/-- The remover erases the client it has deleted. -/
theorem Sys.Inv.eraseClient {s : Sys} (hs : s.Inv) {i : ℕ} (hpc : s.remover = .erasing i) :
    Sys.Inv { s with
      server := { s.server with clients := s.server.clients.eraseIdx i }
      remover := .comparing i } := by
  refine { hs with
    nodup := hs.nodup.eraseIdx i, lt := fun o ho => hs.lt o (List.mem_of_mem_eraseIdx ho),
    alive := fun j o ho => ?_, unlisted := fun o ho => ?_, target := fun j o ho => ?_,
    joined := fun o ho => ?_ }
  · obtain ⟨k, hk, hki⟩ : ∃ k, s.server.clients[k]? = some o ∧ k ≠ i := by
      rw [List.getElem?_eraseIdx] at ho
      split at ho
      · rename_i hlt
        exact ⟨j, ho, Nat.ne_of_lt hlt⟩
      · rename_i hge
        exact ⟨j + 1, ho, by omega⟩
    refine .inl ((hs.alive k o hk).resolve_right ?_)
    rw [hpc]
    intro he
    exact hki (RemoverPc.erasing.inj he).symm
  · obtain ⟨halive, hnot⟩ := hs.unlisted o ho
    exact ⟨halive, fun hm => hnot (List.mem_of_mem_eraseIdx hm)⟩
  · cases ho
  · cases ho

theorem remover_inv {s s' : Sys} (hs : s.Inv) (h : s.RemoverEffect s') : s'.Inv := by
  cases h with
  | moves hpc htarget hjoined => exact hs.setRemover hpc htarget hjoined
  | fails e => exact hs.fails _ _
  | finds hpc hget =>
    refine { hs with
      alive := fun j o ho => ?_, target := fun j o ho => ?_, joined := fun o ho => ?_ }
    · exact .inl ((hs.alive j o ho).resolve_right (hpc j))
    · cases ho
      exact hget
    · cases ho
  | joins hpc hfinished =>
    refine { hs with
      alive := fun j o ho => ?_, target := fun j o ho => ?_, joined := fun o ho => ?_ }
    · exact .inl ((hs.alive j o ho).resolve_right (by rw [hpc]; simp))
    · cases ho
      exact hs.target _ _ (by rw [hpc]; rfl)
    · cases ho
      exact hfinished
  | closes fds hpc =>
    refine { hs with
      alive := fun j o ho => ?_, target := fun j o ho => ?_, joined := fun o ho => ?_ }
    · exact .inl ((hs.alive j o ho).resolve_right (by rw [hpc]; simp))
    · cases ho
      exact hs.target _ _ (by rw [hpc]; rfl)
    · cases ho
      exact hs.joined _ (by rw [hpc]; rfl)
  | deletes hpc => exact hs.deleteClient hpc
  | erases hpc => exact hs.eraseClient hpc

/-! ## The receive threads -/

/-- A step of a receive thread that has not finished keeps what does not depend on it. -/
theorem Sys.Inv.setReceiver {s : Sys} (hs : s.Inv) {o : ClientPtr} {pc : ReceiverPc}
    {server : Server} {mtx : Option Tid} (hstarted : s.receivers o ≠ .notStarted)
    (hnotFinished : s.receivers o ≠ .finished) (hsep : server.Separate)
    (hclients : server.clients = s.server.clients)
    (hlen : server.objects.length = s.server.objects.length)
    (halive : ∀ o', s.server.Alive o' → server.Alive o')
    (hdead : ∀ (o' : ClientPtr) (c : Client), server.objects[o']? = some c → c.deleted = true →
      ∃ c' : Client, s.server.objects[o']? = some c' ∧ c'.deleted = true)
    (hholder : ∀ o', (Function.update s.receivers o pc o').holds = true ↔
      mtx = some (.receiver o')) :
    Sys.Inv { s.setReceiver o pc with server := server, subscribersMtx := mtx } := by
  have hother : ∀ o', s.receivers o' = .finished →
      Function.update s.receivers o pc o' = .finished := fun o' hfin => by
    have hne : o' ≠ o := by
      rintro rfl
      exact hnotFinished hfin
    rw [Function.update_of_ne hne, hfin]
  refine ⟨hsep, fun o' ho' => ?_, ?_, fun o' ho' => ?_, fun i o' ho' => ?_, fun o' ho' => ?_,
    fun i o' ho' => ?_, fun o' ho' => hother o' (hs.joined o' ho'), fun o' c ho' hd => ?_,
    hholder⟩
  · have hns := hs.notStarted o' (by rw [← hlen]; exact ho')
    have hne : o' ≠ o := by
      rintro rfl
      exact hstarted hns
    show Function.update s.receivers o pc o' = _
    rw [Function.update_of_ne hne, hns]
  · rw [hclients]
    exact hs.nodup
  · rw [hclients] at ho'
    show o' < server.objects.length
    rw [hlen]
    exact hs.lt o' ho'
  · rw [hclients] at ho'
    exact (hs.alive i o' ho').imp_left (halive o')
  · obtain ⟨ha, hnot⟩ := hs.unlisted o' ho'
    rw [hclients]
    exact ⟨halive o' ha, hnot⟩
  · rw [hclients]
    exact hs.target i o' ho'
  · obtain ⟨c', hc', hd'⟩ := hdead o' c ho' hd
    exact hother o' (hs.dead o' c' hc' hd')

section Holder

variable {s : Sys} {o : ClientPtr} {pc : ReceiverPc}

theorem holder_keep (hs : s.Inv) (hpc : pc.holds = (s.receivers o).holds) (o' : ClientPtr) :
    (Function.update s.receivers o pc o').holds = true ↔
      s.subscribersMtx = some (.receiver o') := by
  by_cases ho : o' = o
  · subst ho
    rw [Function.update_self, hpc]
    exact hs.holder o'
  · rw [Function.update_of_ne ho]
    exact hs.holder o'

theorem holder_lock (hs : s.Inv) (hfree : s.subscribersMtx = none) (hpc : pc.holds = true)
    (o' : ClientPtr) :
    (Function.update s.receivers o pc o').holds = true ↔
      some (Tid.receiver o) = some (.receiver o') := by
  by_cases ho : o' = o
  · subst ho
    rw [Function.update_self]
    exact iff_of_true hpc rfl
  · rw [Function.update_of_ne ho, hs.holder, hfree]
    refine iff_of_false (by simp) fun he => ho ?_
    cases he
    rfl

theorem holder_unlock (hs : s.Inv) (hheld : (s.receivers o).holds = true)
    (hpc : pc.holds = false) (o' : ClientPtr) :
    (Function.update s.receivers o pc o').holds = true ↔ none = some (Tid.receiver o') := by
  have hmtx := (hs.holder o).mp hheld
  by_cases ho : o' = o
  · subst ho
    rw [Function.update_self, hpc]
    simp
  · rw [Function.update_of_ne ho, hs.holder, hmtx]
    refine iff_of_false (fun he => ho ?_) (by simp)
    cases he
    rfl

end Holder

/-- A step of a receive thread that leaves the server's data alone. -/
theorem Sys.Inv.moveReceiver {s : Sys} (hs : s.Inv) {o : ClientPtr} {pc : ReceiverPc}
    {mtx : Option Tid} (hstarted : s.receivers o ≠ .notStarted)
    (hnotFinished : s.receivers o ≠ .finished)
    (hholder : ∀ o', (Function.update s.receivers o pc o').holds = true ↔
      mtx = some (.receiver o')) :
    Sys.Inv { s.setReceiver o pc with subscribersMtx := mtx } :=
  hs.setReceiver hstarted hnotFinished hs.separate rfl rfl (fun _ ha => ha)
    (fun _ c hc hd => ⟨c, hc, hd⟩) hholder

theorem receiver_inv {s s' : Sys} (hs : s.Inv) {o : ClientPtr}
    (hstarted : s.receivers o ≠ .notStarted) (hnotFinished : s.receivers o ≠ .finished)
    (h : s.ReceiverEffect o s') : s'.Inv := by
  cases h with
  | moves hidle hpc =>
    exact hs.moveReceiver hstarted hnotFinished (holder_keep hs (hpc.trans hidle.symm))
  | fails e => exact hs.fails _ _
  | takes _ hfree => exact hs.moveReceiver hstarted hnotFinished (holder_lock hs hfree rfl)
  | handles hpc hret hstep =>
    obtain ⟨o', l, hr⟩ := handlerStep_relists hs.separate hret hstep
    refine hs.setReceiver hstarted hnotFinished hr.separate hr.same.clients
      (length_objects_of_fixed hr.same) (fun o' ha => hr.same.alive ha)
      (fun o' c hc hd => ?_) (holder_keep hs (by rw [hpc]; rfl))
    have hmap := hr.same.getElem? o'
    rw [hc, Option.map_some] at hmap
    obtain ⟨c', hc', hfix⟩ := Option.map_eq_some_iff.mp hmap.symm
    exact ⟨c', hc', (Client.deleted_of_fixed hfix).trans hd⟩
  | returns hpc =>
    exact hs.moveReceiver hstarted hnotFinished (holder_unlock hs (by rw [hpc]; rfl) rfl)
  | disconnects hpc =>
    refine hs.setReceiver hstarted hnotFinished ?_ rfl (by simp [Server.setObject])
      (fun o' ha => ?_) (fun o' c hc hd => ?_) (holder_keep hs (by rw [hpc]; rfl))
    · exact (sameLists_setObject s.server o (fun c => { c with isConnected := false })
        fun _ => rfl).separate hs.separate
    · exact (alive_setObject_iff o (fun c => { c with isConnected := false })
        (fun _ => rfl) o').mpr ha
    · by_cases heq : o' = o
      · subst heq
        cases hget : s.server.objects[o']? with
        | none => simp [Server.setObject, hget] at hc
        | some c' =>
          rw [objects_setObject_self hget] at hc
          cases hc
          exact ⟨c', rfl, hd⟩
      · rw [objects_setObject_ne heq] at hc
        exact ⟨c, hc, hd⟩
  | notifies _ hfree => exact hs.moveReceiver hstarted hnotFinished (holder_lock hs hfree rfl)
  | notified hpc =>
    exact hs.moveReceiver hstarted hnotFinished (holder_unlock hs (by rw [hpc]; rfl) rfl)
  | counts hpc =>
    exact hs.setReceiver hstarted hnotFinished hs.separate rfl rfl (fun _ ha => ha)
      (fun _ c hc hd => ⟨c, hc, hd⟩) (holder_keep hs (by rw [hpc]; rfl))

/-! ## Every state -/

theorem sys_step_inv {s s' : Sys} (hs : s.Inv) {a : Act} (h : s.Step a s') : s'.Inv := by
  cases a with
  | acceptor fileDescriptor ip => exact acceptor_inv hs (acceptor_step h)
  | remover closeRet => exact remover_inv hs (remover_step h)
  | receiver o event rand r =>
    obtain ⟨hstarted, hnotFinished, -⟩ := receiver_step h
    exact receiver_inv hs hstarted hnotFinished (receiver_step_effect h)

theorem sys_init_inv (sockfd : ℤ) : (Sys.init sockfd).Inv where
  separate := LinkedStore.separate_none []
  notStarted _ _ := rfl
  nodup := List.nodup_nil
  lt o ho := absurd ho List.not_mem_nil
  alive i o ho := by simp [Sys.init, Server.init] at ho
  unlisted o ho := by cases ho
  target i o ho := by cases ho
  joined o ho := by cases ho
  dead o c hc := by simp [Sys.init, Server.init] at hc
  holder o := by simp [Sys.init, ReceiverPc.holds]

theorem sys_reachable_inv {s : Sys} (h : s.Reachable) : s.Inv := by
  obtain ⟨sockfd, acts, hrun⟩ := h
  exact hrun.invariant (fun _ _ _ hs hstep => sys_step_inv hs hstep) (sys_init_inv sockfd)

/-! ## What a step leaves to other threads -/

/-- A step leaves the receive threads of others where they are, but for the thread it starts. -/
theorem receivers_other {s s' : Sys} {a : Act} {o : ClientPtr} (ha : a.thread ≠ .receiver o)
    (h : s.Step a s') :
    s'.receivers o = s.receivers o ∨
      (s.server.objects.length ≤ o ∧ s'.receivers o = .check) := by
  cases a with
  | acceptor fileDescriptor ip =>
    cases acceptor_step h with
    | accepts fileDescriptor ip _ =>
      by_cases ho : o = s.server.objects.length
      · exact .inr ⟨Nat.le_of_eq ho.symm, by rw [ho]; exact Function.update_self _ _ _⟩
      · exact .inl (Function.update_of_ne ho _ _)
    | locks _ _ => exact .inl rfl
    | pushes _ => exact .inl rfl
    | counts _ => exact .inl rfl
    | unlocks _ => exact .inl rfl
  | remover closeRet =>
    left
    cases remover_step h <;> rfl
  | receiver o' event rand r =>
    have hne : o ≠ o' := fun he => ha (by rw [he]; rfl)
    left
    cases receiver_step_effect h with
    | fails e => rfl
    | _ => exact Function.update_of_ne hne _ _

/-- Only receive threads hold `_subscribersMtx`. -/
theorem sys_reachable_subscribersMtx {s : Sys} (h : s.Reachable) {t : Tid}
    (ht : s.subscribersMtx = some t) : ∃ o, t = .receiver o := by
  obtain ⟨sockfd, acts, hrun⟩ := h
  refine hrun.invariant (I := fun s => ∀ t, s.subscribersMtx = some t → ∃ o, t = .receiver o)
    ?_ (fun t ht => by cases ht) t ht
  intro s1 a s2 h1 hstep t ht
  cases a with
  | acceptor fileDescriptor ip =>
    apply h1 t
    rw [← ht]
    cases acceptor_step hstep <;> rfl
  | remover closeRet =>
    apply h1 t
    rw [← ht]
    cases remover_step hstep <;> rfl
  | receiver o event rand r =>
    cases receiver_step_effect hstep with
    | takes _ _ => exact ⟨o, (Option.some.inj ht).symm⟩
    | notifies _ _ => exact ⟨o, (Option.some.inj ht).symm⟩
    | returns _ => cases ht
    | notified _ => cases ht
    | _ => exact h1 t ht

end TCPServer
