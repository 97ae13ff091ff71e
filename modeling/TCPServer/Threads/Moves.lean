/-
  The steps of the threads once more, with what the remover and the receive threads are at.

  `Sys.RemoverMove` and `Sys.ReceiverMove` say of a step also where it starts. From them, what
  holds of the client that is being removed and of the clients whose threads run
  (`Sys.Flags`): a client that is being removed is disconnected, and its descriptor was closed
  last; a client whose thread is in its loop is connected; what a handler has in hand exists.
-/
import TCPServer.Threads.Edits

namespace TCPServer

open Runs

/-! ## Where the threads are -/

/-- The flag was cleared and the client is still counted. -/
def ReceiverPc.leaving : ReceiverPc → Bool
  | .publishDisconnected => true
  | .notifying => true
  | .decrement => true
  | _ => false

/-- The descriptor of the client was closed, and its entry is still there. -/
def RemoverPc.closed : RemoverPc → Bool
  | .deleting _ _ => true
  | .erasing _ => true
  | _ => false

/-- The client that the remover has deleted and not erased. -/
def Sys.deletedClient (s : Sys) : Option ClientPtr :=
  match s.remover with
  | .erasing i => s.server.clients[i]?
  | _ => none

/-- The client that is being removed. -/
def Sys.victim (s : Sys) : Option ClientPtr :=
  match s.remover with
  | .joining _ o => some o
  | .closing _ o => some o
  | .deleting _ o => some o
  | .erasing i => s.server.clients[i]?
  | _ => none

/-- A thread of a client whose flag is set. -/
def ReceiverPc.active : ReceiverPc → Bool
  | .check => true
  | .waiting => true
  | .publishMsg _ => true
  | .handling _ => true
  | .clearFlag => true
  | _ => false

/-- What is known of the client that is being removed, and of the clients whose threads run. -/
structure Sys.Flags (s : Sys) : Prop where
  active : ∀ o c, (s.receivers o).active = true → s.server.objects[o]? = some c →
    c.isConnected = true
  victim : ∀ o, s.victim = some o → ∃ c, s.server.objects[o]? = some c ∧ c.isConnected = false ∧
    (s.remover.closed = true → ∃ fds, s.server.closed = fds ++ [c.sockfd]) ∧
    (s.deletedClient = some o → c.deleted = true)
  erasing : ∀ i, s.remover = .erasing i → i < s.server.clients.length

/-! ## The steps once more -/

/-- The remover is at no client. -/
def RemoverPc.idle : RemoverPc → Bool
  | .sleeping => true
  | .locking => true
  | .scanning _ => true
  | .comparing _ => true
  | .unlocking => true
  | _ => false

/-- The remover has `_clientsMtx`. -/
def RemoverPc.locked : RemoverPc → Bool
  | .sleeping => false
  | .locking => false
  | _ => true

/-- All that a step of the remover can do, with the client that it is at. -/
inductive Sys.RemoverMove (s : Sys) : Sys → Prop
  | idles {pc : RemoverPc} : s.remover.idle = true → pc.idle = true →
      pc.locked = s.remover.locked → s.RemoverMove { s with remover := pc }
  | locks : s.remover = .locking → s.clientsMtx = none →
      s.RemoverMove { s with clientsMtx := some .remover, remover := .scanning 0 }
  | unlocks : s.remover = .unlocking →
      s.RemoverMove { s with clientsMtx := none, remover := .sleeping }
  | fails (e : Stop) : s.RemoverMove (s.fails .remover e)
  | finds {i : ℕ} {client : ClientPtr} {c : Client} : s.remover = .scanning i →
      s.server.clients[i]? = some client → s.server.object client = .ok c →
      c.isConnected = false → s.RemoverMove { s with remover := .joining i client }
  | joins {i : ℕ} {client : ClientPtr} : s.remover = .joining i client →
      s.receivers client = .finished → s.RemoverMove { s with remover := .closing i client }
  | closes {i : ℕ} {client : ClientPtr} {c : Client} : s.remover = .closing i client →
      s.server.object client = .ok c →
      s.RemoverMove { s with
        server := { s.server with closed := s.server.closed ++ [c.sockfd] }
        remover := .deleting i client }
  | deletes {i : ℕ} {client : ClientPtr} : s.remover = .deleting i client →
      s.RemoverMove { s with
        server := s.server.setObject client fun c => { c with deleted := true }
        remover := .erasing i }
  | erases {i : ℕ} : s.remover = .erasing i →
      s.RemoverMove { s with
        server := { s.server with clients := s.server.clients.eraseIdx i }
        remover := .comparing i }

theorem remover_move {s s' : Sys} {closeRet : ℤ → ℤ} (h : s.Step (.remover closeRet) s') :
    s.RemoverMove s' := by
  unfold Sys.Step Sys.step at h
  split at h
  · cases h
  dsimp only at h
  unfold Sys.removerStep at h
  cases hpc : s.remover with
  | sleeping =>
    rw [hpc] at h
    cases h
    exact .idles (by rw [hpc]; rfl) rfl (by rw [hpc]; rfl)
  | locking =>
    rw [hpc] at h
    dsimp only at h
    split at h
    · rename_i hfree
      cases h
      exact .locks hpc hfree
    · cases h
  | scanning i =>
    rw [hpc] at h
    dsimp only at h
    split at h
    · cases h
      exact .idles (by rw [hpc]; rfl) rfl (by rw [hpc]; rfl)
    · rename_i client hget
      split at h
      · cases h
        exact .fails _
      · rename_i c hc
        split at h
        · cases h
          exact .idles (by rw [hpc]; rfl) rfl (by rw [hpc]; rfl)
        · rename_i hconn
          cases h
          exact .finds hpc hget hc (Bool.eq_false_iff.mpr hconn)
  | joining i client =>
    rw [hpc] at h
    dsimp only at h
    split at h
    · rename_i hfinished
      cases h
      exact .joins hpc hfinished
    · cases h
  | closing i client =>
    rw [hpc] at h
    dsimp only at h
    split at h
    · cases h
      exact .fails _
    · rename_i server hclose
      cases h
      obtain ⟨c, hc, hclose⟩ := bind_ok_iff.mp hclose
      split at hclose
      · cases hclose
      · cases hclose
        exact .closes hpc hc
  | deleting i client =>
    rw [hpc] at h
    cases h
    exact .deletes hpc
  | erasing i =>
    rw [hpc] at h
    cases h
    exact .erases hpc
  | comparing i =>
    rw [hpc] at h
    dsimp only at h
    split at h
    · cases h
      exact .idles (by rw [hpc]; rfl) rfl (by rw [hpc]; rfl)
    · cases h
      exact .idles (by rw [hpc]; rfl) rfl (by rw [hpc]; rfl)
  | unlocking =>
    rw [hpc] at h
    cases h
    exact .unlocks hpc

/-- The thread is between two messages. -/
def ReceiverPc.between : ReceiverPc → Bool
  | .check => true
  | .waiting => true
  | _ => false

theorem active_of_between {pc : ReceiverPc} (h : pc.between = true) : pc.active = true := by
  cases pc <;> first | rfl | cases h

theorem holds_of_between {pc : ReceiverPc} (h : pc.between = true) : pc.holds = false := by
  cases pc <;> first | rfl | cases h

theorem leaving_of_between {pc : ReceiverPc} (h : pc.between = true) : pc.leaving = false := by
  cases pc <;> first | rfl | cases h

/-- All that a step of a receive thread can do, with the place that it comes from. -/
inductive Sys.ReceiverMove (s : Sys) (o : ClientPtr) : Sys → Prop
  | idles {pc : ReceiverPc} : (s.receivers o).between = true → pc.holds = false →
      pc.leaving = false →
      (pc = .finished → ∃ c, s.server.objects[o]? = some c ∧ c.isConnected = false) →
      s.ReceiverMove o (s.setReceiver o pc)
  | fails (e : Stop) : s.ReceiverMove o (s.fails (.receiver o) e)
  | takes {msg : Bytes} : s.receivers o = .publishMsg msg → s.subscribersMtx = none →
      s.ReceiverMove o { s.setReceiver o (.handling (.parse msg)) with
        subscribersMtx := some (.receiver o) }
  | handles {h h' : HandlerPc} {server : Server} {rand : ℕ} {r : SendResult} :
      s.receivers o = .handling h → h ≠ .returned → h.step s.server rand r = .ok (h', server) →
      s.ReceiverMove o { s.setReceiver o (.handling h') with server := server }
  | returns : s.receivers o = .handling .returned →
      s.ReceiverMove o { s.setReceiver o .check with subscribersMtx := none }
  | disconnects : s.receivers o = .clearFlag →
      s.ReceiverMove o { s.setReceiver o .publishDisconnected with
        server := s.server.setObject o fun c => { c with isConnected := false } }
  | notifies : s.receivers o = .publishDisconnected → s.subscribersMtx = none →
      s.ReceiverMove o { s.setReceiver o .notifying with subscribersMtx := some (.receiver o) }
  | notified : s.receivers o = .notifying →
      s.ReceiverMove o { s.setReceiver o .decrement with subscribersMtx := none }
  | counts : s.receivers o = .decrement →
      s.ReceiverMove o { s.setReceiver o .finished with
        server := { s.server with numClientsConnected := s.server.numClientsConnected - 1 } }

theorem receiver_move {s s' : Sys} {o : ClientPtr} {event : ReceiveEvent} {rand : ℕ}
    {r : SendResult} (h : s.Step (.receiver o event rand r) s') : s.ReceiverMove o s' := by
  obtain ⟨hstarted, hnotFinished, ⟨c, hc, h⟩ | ⟨e, -, rfl⟩⟩ := receiver_step h
  · cases hpc : s.receivers o with
    | notStarted => exact absurd hpc hstarted
    | finished => exact absurd hpc hnotFinished
    | check =>
      simp only [Sys.receiverStep, hpc] at h
      cases h
      refine .idles (by rw [hpc]; rfl) ?_ ?_ fun hfin => ⟨c, (object_ok_iff.mp hc).1, ?_⟩
      · split <;> rfl
      · split <;> rfl
      · split at hfin
        · cases hfin
        · rename_i hconn
          exact Bool.eq_false_iff.mpr hconn
    | waiting =>
      simp only [Sys.receiverStep, hpc] at h
      have hbetween : (s.receivers o).between = true := by rw [hpc]; rfl
      cases event <;> cases h
      · exact .idles hbetween rfl rfl (by simp)
      · exact .idles hbetween rfl rfl (by simp)
      · exact .idles hbetween rfl rfl (by simp)
      · exact .fails _
    | publishMsg msg =>
      simp only [Sys.receiverStep, hpc] at h
      split at h
      · rename_i hfree
        cases h
        exact .takes hpc hfree
      · cases h
    | handling handler =>
      by_cases hret : handler = .returned
      · subst hret
        simp only [Sys.receiverStep, hpc] at h
        cases h
        exact .returns hpc
      · have h := (receiverStep_handling hpc hret).symm.trans h
        split at h
        · cases h
          exact .fails _
        · rename_i hstep
          cases h
          exact .handles hpc hret hstep
    | clearFlag =>
      simp only [Sys.receiverStep, hpc] at h
      cases h
      exact .disconnects hpc
    | publishDisconnected =>
      simp only [Sys.receiverStep, hpc] at h
      split at h
      · rename_i hfree
        cases h
        exact .notifies hpc hfree
      · cases h
    | notifying =>
      simp only [Sys.receiverStep, hpc] at h
      cases h
      exact .notified hpc
    | decrement =>
      simp only [Sys.receiverStep, hpc] at h
      cases h
      exact .counts hpc
  · exact .fails e

/-! ## Flags -/

/-- The objects are there as they were, but for lists and for flags that were cleared. -/
def Server.Follows (s s' : Server) : Prop :=
  ∀ (o : ClientPtr) (c : Client), s.objects[o]? = some c → ∃ c' : Client,
    s'.objects[o]? = some c' ∧ c'.sockfd = c.sockfd ∧ c'.deleted = c.deleted ∧
      (c.isConnected = false → c'.isConnected = false)

theorem follows_of_objects {s s' : Server}
    (h : ∀ (o : ClientPtr) (c : Client), s.objects[o]? = some c → s'.objects[o]? = some c) :
    s.Follows s' :=
  fun o c hc => ⟨c, h o c hc, rfl, rfl, id⟩

theorem follows_of_same {s s' : Server} (h : s.SameClients s') : s.Follows s' := by
  intro o c hc
  obtain ⟨hnone, -⟩ | ⟨c', c'', hc', hc'', hfix⟩ := h.object_cases o
  · rw [hc] at hnone
    cases hnone
  rw [hc] at hc'
  cases hc'
  refine ⟨c'', hc'', Client.sockfd_of_fixed hfix, Client.deleted_of_fixed hfix, fun hconn => ?_⟩
  rw [Client.isConnected_of_fixed hfix, hconn]

theorem follows_clear (s : Server) (o : ClientPtr) :
    s.Follows (s.setObject o fun c => { c with isConnected := false }) := by
  intro o' c hc
  by_cases ho : o' = o
  · subst ho
    exact ⟨_, objects_setObject_self hc _, rfl, rfl, fun _ => rfl⟩
  · exact ⟨c, (objects_setObject_ne ho _).trans hc, rfl, rfl, id⟩

/-- The place of the remover, and the clients it can be at, stay. -/
theorem Sys.Flags.follow {s s' : Sys} (hs : s.Flags) (hremover : s'.remover = s.remover)
    (hclients : ∀ i, s.remover = .erasing i → s'.server.clients[i]? = s.server.clients[i]?)
    (hclosed : s'.server.closed = s.server.closed) (hfollows : s.server.Follows s'.server)
    (hactive : ∀ o c, (s'.receivers o).active = true → s'.server.objects[o]? = some c →
      c.isConnected = true) : s'.Flags where
  active := hactive
  victim o ho := by
    have hvictim : s'.victim = s.victim ∧ s'.deletedClient = s.deletedClient := by
      unfold Sys.victim Sys.deletedClient
      rw [hremover]
      cases hpc : s.remover with
      | erasing i => exact ⟨hclients i hpc, hclients i hpc⟩
      | _ => exact ⟨rfl, rfl⟩
    obtain ⟨c, hc, hconn, hfds, hdel⟩ := hs.victim o (hvictim.1 ▸ ho)
    obtain ⟨c', hc', hfd', hdel', hconn'⟩ := hfollows o c hc
    refine ⟨c', hc', hconn' hconn, ?_, ?_⟩
    · rw [hremover, hclosed, hfd']
      exact hfds
    · rw [hvictim.2, hdel']
      exact hdel
  erasing i hi := by
    have hlt := hs.erasing i (hremover ▸ hi)
    have hget := hclients i (hremover ▸ hi)
    rw [List.getElem?_eq_getElem hlt] at hget
    exact lt_of_getElem? hget

theorem flags_acceptor {s s' : Sys} (hs : s.Flags) (h : s.AcceptorEffect s') : s'.Flags := by
  have hstay : s.server.Follows s.server := follows_of_objects fun _ _ hc => hc
  cases h with
  | accepts fileDescriptor ip _ =>
    refine hs.follow rfl (fun _ _ => rfl) rfl (follows_of_objects fun o c hc => ?_)
      fun o c ho hc => ?_
    · exact getElem?_append_of_some hc _
    · rcases getElem?_concat_cases hc with hc | ⟨-, rfl⟩
      · have hne : o ≠ s.server.objects.length := Nat.ne_of_lt (lt_of_getElem? hc)
        have hsame := setReceiver_ne s hne .check
        exact hs.active o c (by rw [← hsame]; exact ho) hc
      · rfl
  | @pushes newClient _ =>
    refine hs.follow rfl (fun i hi => ?_) rfl hstay hs.active
    exact List.getElem?_append_left (hs.erasing i hi)
  | locks _ _ => exact hs.follow rfl (fun _ _ => rfl) rfl hstay hs.active
  | counts _ => exact hs.follow rfl (fun _ _ => rfl) rfl hstay hs.active
  | unlocks _ => exact hs.follow rfl (fun _ _ => rfl) rfl hstay hs.active

theorem flags_remover {s s' : Sys} (hinv : s.Inv) (hs : s.Flags) (h : s.RemoverMove s') :
    s'.Flags := by
  cases h with
  | @idles pc _ hidle _ =>
    refine ⟨hs.active, fun o ho => ?_, fun i hi => ?_⟩
    · cases pc <;> first | (cases hidle; done) | cases ho
    · have hpc : pc = .erasing i := hi
      subst hpc
      cases hidle
  | locks _ _ => exact ⟨hs.active, fun o ho => (by cases ho), fun i hi => (by cases hi)⟩
  | unlocks _ => exact ⟨hs.active, fun o ho => (by cases ho), fun i hi => (by cases hi)⟩
  | fails e => exact ⟨hs.active, hs.victim, hs.erasing⟩
  | finds hpc hget hc hconn =>
    refine ⟨hs.active, fun o ho => ?_, fun i hi => by cases hi⟩
    cases ho
    exact ⟨_, (object_ok_iff.mp hc).1, hconn, fun h => (by cases h), fun h => (by cases h)⟩
  | joins hpc _ =>
    refine ⟨hs.active, fun o ho => ?_, fun i hi => by cases hi⟩
    cases ho
    obtain ⟨c, hc, hconn, -, -⟩ := hs.victim _ (by unfold Sys.victim; rw [hpc])
    exact ⟨c, hc, hconn, fun h => (by cases h), fun h => (by cases h)⟩
  | closes hpc hobj =>
    refine ⟨hs.active, fun o ho => ?_, fun i hi => by cases hi⟩
    cases ho
    obtain ⟨c, hc, hconn, -, -⟩ := hs.victim _ (by unfold Sys.victim; rw [hpc])
    cases hc.symm.trans (object_ok_iff.mp hobj).1
    exact ⟨_, hc, hconn, fun _ => ⟨_, rfl⟩, fun h => (by cases h)⟩
  | @deletes i client hpc =>
    have hget := hinv.target i client (by rw [hpc]; rfl)
    obtain ⟨c, hc, hconn, hfds, -⟩ := hs.victim client (by unfold Sys.victim; rw [hpc])
    refine ⟨fun o c' ho hc' => ?_, fun o ho => ?_, fun j hj => ?_⟩
    · rcases objects_setObject_cases s.server client (fun c => { c with deleted := true }) o with
        h | ⟨d, hd, h⟩
      · exact hs.active o c' ho (h ▸ hc')
      · cases h.symm.trans hc'
        exact hs.active o d ho hd
    · have heq : o = client := Option.some.inj (ho.symm.trans hget)
      subst heq
      refine ⟨_, objects_setObject_self hc _, hconn, fun _ => ?_, fun _ => rfl⟩
      exact hfds (by rw [hpc]; rfl)
    · cases hj
      exact lt_of_getElem? hget
  | erases hpc =>
    exact ⟨hs.active, fun o ho => (by cases ho), fun i hi => (by cases hi)⟩

theorem flags_receiver {s s' : Sys} (hinv : s.Inv) (hs : s.Flags) {o : ClientPtr}
    (h : s.ReceiverMove o s') : s'.Flags := by
  -- The thread goes on to a place where its flag is set only from such a place.
  have hmove : ∀ {pc : ReceiverPc} {server : Server},
      (∀ o : ClientPtr, (server.objects[o]?).map Client.fixed =
        (s.server.objects[o]?).map Client.fixed) →
      (pc.active = true → (s.receivers o).active = true) → ∀ o' c,
      (Function.update s.receivers o pc o').active = true → server.objects[o']? = some c →
      c.isConnected = true := by
    intro pc server hsame hpc o' c ho' hc
    have hmap := hsame o'
    rw [hc, Option.map_some, eq_comm, Option.map_eq_some_iff] at hmap
    obtain ⟨c₀, hc₀, hfix⟩ := hmap
    rw [← Client.isConnected_of_fixed hfix]
    refine hs.active o' c₀ ?_ hc₀
    by_cases heq : o' = o
    · subst heq
      rw [Function.update_self] at ho'
      exact hpc ho'
    · rw [Function.update_of_ne heq] at ho'
      exact ho'
  have hstay : s.server.Follows s.server := follows_of_objects fun _ _ hc => hc
  cases h with
  | idles hbetween _ _ _ =>
    exact hs.follow rfl (fun _ _ => rfl) rfl hstay
      (hmove (fun _ => rfl) fun _ => active_of_between hbetween)
  | fails e => exact ⟨hs.active, hs.victim, hs.erasing⟩
  | takes hpc _ =>
    exact hs.follow rfl (fun _ _ => rfl) rfl hstay (hmove (fun _ => rfl) fun _ => by rw [hpc]; rfl)
  | handles hpc hret hstep =>
    obtain ⟨o', l, hrel⟩ := handlerStep_relists hinv.separate hret hstep
    refine hs.follow rfl (fun i _ => ?_) hrel.same.closed (follows_of_same hrel.same)
      (hmove hrel.same.getElem? fun _ => by rw [hpc]; rfl)
    exact congrArg (·[i]?) hrel.same.clients
  | returns hpc =>
    exact hs.follow rfl (fun _ _ => rfl) rfl hstay (hmove (fun _ => rfl) fun _ => by rw [hpc]; rfl)
  | disconnects hpc =>
    refine hs.follow rfl (fun _ _ => rfl) rfl (follows_clear s.server o) fun o' c ho' hc => ?_
    have hupdate : (Function.update s.receivers o .publishDisconnected o').active = true := ho'
    by_cases heq : o' = o
    · rw [heq, Function.update_self] at hupdate
      cases hupdate
    · rw [Function.update_of_ne heq] at hupdate
      exact hs.active o' c hupdate ((objects_setObject_ne heq _).symm.trans hc)
  | notifies _ _ =>
    exact hs.follow rfl (fun _ _ => rfl) rfl hstay (hmove (fun _ => rfl) fun h => by cases h)
  | notified _ =>
    exact hs.follow rfl (fun _ _ => rfl) rfl hstay (hmove (fun _ => rfl) fun h => by cases h)
  | counts _ =>
    exact hs.follow rfl (fun _ _ => rfl) rfl hstay (hmove (fun _ => rfl) fun h => by cases h)

/-! ## What handlers have in hand -/

/-- The clients that handlers have in hand were created. -/
def Sys.HandsExist (s : Sys) : Prop :=
  ∀ o h p, s.receivers o = .handling h → p ∈ h.pointers → p < s.server.objects.length

/-- No object goes away, and no handler has more in hand. -/
theorem Sys.HandsExist.keep {s s' : Sys} (hs : s.HandsExist)
    (hlen : s.server.objects.length ≤ s'.server.objects.length)
    (hhand : ∀ o h, s'.receivers o = .handling h → s.receivers o = .handling h ∨ h.pointers = []) :
    s'.HandsExist := by
  intro o h p ho hp
  rcases hhand o h ho with ho | hnil
  · exact Nat.lt_of_lt_of_le (hs o h p ho hp) hlen
  · rw [hnil] at hp
    cases hp

/-- A thread goes on to a place where it has nothing in hand. -/
theorem handling_setReceiver {s : Sys} {o : ClientPtr} {pc : ReceiverPc}
    (hpc : ∀ h, pc = .handling h → h.pointers = []) (o' : ClientPtr) (h : HandlerPc)
    (ho' : Function.update s.receivers o pc o' = .handling h) :
    s.receivers o' = .handling h ∨ h.pointers = [] := by
  by_cases heq : o' = o
  · rw [heq, Function.update_self] at ho'
    exact .inr (hpc h ho')
  · rw [Function.update_of_ne heq] at ho'
    exact .inl ho'

theorem handsExist_step {s s' : Sys} (hinv : s.Inv) (hs : s.HandsExist) {a : Act}
    (h : s.Step a s') : s'.HandsExist := by
  cases a with
  | acceptor fileDescriptor ip =>
    cases acceptor_step h with
    | accepts fileDescriptor ip _ =>
      refine hs.keep ?_ (handling_setReceiver fun h heq => by cases heq)
      show _ ≤ (s.server.objects ++ [_]).length
      rw [List.length_append]
      exact Nat.le_add_right _ _
    | locks _ _ => exact hs
    | pushes _ => exact hs
    | counts _ => exact hs
    | unlocks _ => exact hs
  | remover closeRet =>
    cases remover_move h with
    | deletes _ => exact hs.keep (Nat.le_of_eq (by simp [Server.setObject])) fun _ _ ho => .inl ho
    | _ => exact hs
  | receiver o event rand r =>
    cases receiver_move h with
    | idles _ hpc _ _ =>
      refine hs.keep (Nat.le_refl _) (handling_setReceiver fun h heq => ?_)
      rw [heq] at hpc
      cases hpc
    | fails e => exact hs
    | takes _ _ =>
      refine hs.keep (Nat.le_refl _) (handling_setReceiver fun h heq => ?_)
      cases heq
      rfl
    | @handles hd hd' server rand r hpc hret hstep =>
      obtain ⟨o₁, l, hrel⟩ := handlerStep_relists hinv.separate hret hstep
      have hlen := length_objects_of_fixed hrel.same
      intro o' h₁ p ho' hp
      show p < server.objects.length
      rw [hlen]
      by_cases heq : o' = o
      · have hself := setReceiver_self s o (.handling hd')
        rw [heq] at ho'
        cases hself.symm.trans ho'
        rcases (handlerStep_hand hstep).2 p hp with hp | ⟨ID, -, hat⟩
        · exact hs o hd p hpc hp
        · exact hinv.lt p (List.mem_of_getElem? (at_ok_iff.mp hat).2)
      · exact hs o' h₁ p ((setReceiver_ne s heq _).symm.trans ho') hp
    | returns _ => exact hs.keep (Nat.le_refl _) (handling_setReceiver fun h heq => by cases heq)
    | disconnects _ =>
      refine hs.keep (Nat.le_of_eq (by simp [Server.setObject]))
        (handling_setReceiver fun h heq => by cases heq)
    | notifies _ _ =>
      exact hs.keep (Nat.le_refl _) (handling_setReceiver fun h heq => by cases heq)
    | notified _ => exact hs.keep (Nat.le_refl _) (handling_setReceiver fun h heq => by cases heq)
    | counts _ => exact hs.keep (Nat.le_refl _) (handling_setReceiver fun h heq => by cases heq)

theorem flags_step {s s' : Sys} (hinv : s.Inv) (hs : s.Flags) {a : Act} (h : s.Step a s') :
    s'.Flags := by
  cases a with
  | acceptor fileDescriptor ip => exact flags_acceptor hs (acceptor_step h)
  | remover closeRet => exact flags_remover hinv hs (remover_move h)
  | receiver o event rand r => exact flags_receiver hinv hs (receiver_move h)

theorem flags_init (sockfd : ℤ) : (Sys.init sockfd).Flags :=
  ⟨fun _ _ ho => (by cases ho), fun _ ho => (by cases ho), fun _ hi => (by cases hi)⟩

theorem handsExist_init (sockfd : ℤ) : (Sys.init sockfd).HandsExist :=
  fun _ _ _ ho => by cases ho

theorem sys_reachable_flags {s : Sys} (h : s.Reachable) : s.Flags := by
  obtain ⟨sockfd, acts, hrun⟩ := h
  refine (hrun.invariant (I := fun s => s.Inv ∧ s.Flags) (fun s a s' hs hstep => ?_)
    ⟨sys_init_inv sockfd, flags_init sockfd⟩).2
  exact ⟨sys_step_inv hs.1 hstep, flags_step hs.1 hs.2 hstep⟩

end TCPServer
