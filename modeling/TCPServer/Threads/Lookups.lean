/-
  The lookups of `_clients[ID]` in one run of the handler, among steps of the other threads.

  A handler that is ready stays ready at a step of another thread, unless the remover erases
  an entry at or below its index, or deletes a client it has in hand (`ready_other`).

  `lookups_agree`: in a run of the handler in which every step is taken from a `Steady` state
  all lookups give the client that was at `ID` at the start. `lookups_differ`: the client in
  front of it is removed while the handler sleeps, and the next lookup is out of range.
-/
import TCPServer.Threads.Invariant

namespace TCPServer

open Runs

/-- If the remover is about to erase an entry, it is behind the index that the handler will
    look up again, and its client is none that the handler has in hand. -/
def Sys.Steady (s : Sys) (h : HandlerPc) : Prop :=
  ∀ i, s.remover = .erasing i →
    (∀ ID, h.index = some ID → ID.val < i) ∧ ∀ p ∈ h.pointers, s.server.clients[i]? ≠ some p

/-! ## Steps of other threads -/

/-- What a step of another thread leaves to the thread of `o`: its place, all lists and numbers,
    and that the fault, if there is one, is not its own. -/
structure Sys.Around (s s' : Sys) (o : ClientPtr) : Prop where
  receiver : s'.receivers o = s.receivers o
  lists : s.server.SameLists s'.server
  numbers : s'.server.numbers = s.server.numbers
  fault : ∀ e, s'.fault ≠ some (.receiver o, e)

/-- The slot and the object of a ready handler after a step that keeps the entries of
    `_clients` up to its index, and the object. -/
theorem HandlerPc.Ready.around {s s' : Server} {ID : CInt} {c₀ : ClientPtr} {h : HandlerPc}
    (hr : h.Ready s ID c₀) (hlists : s.SameLists s')
    (hslot : h.index = some ID → s.clients[ID.val.toNat]? = some c₀ →
      s'.clients[ID.val.toNat]? = some c₀)
    (halive : h ≠ .returned → s.Alive c₀ → s'.Alive c₀) : h.Ready s' ID c₀ where
  on := hr.on
  slot hidx := by
    obtain ⟨h0, hget⟩ := at_ok_iff.mp (hr.slot hidx)
    obtain ⟨ID', hID'⟩ := Option.ne_none_iff_exists'.mp hidx
    refine at_ok_iff.mpr ⟨h0, hslot ?_ hget⟩
    rw [hID', hr.on.index ID' hID']
  alive hret := halive hret (hr.alive hret)
  list hd hret := by
    rw [hlists.listOf]
    exact hr.list hd hret

theorem acceptor_around {s s' : Sys} (hs : s.Inv) {o : ClientPtr} {h : HandlerPc}
    (ho : s.receivers o = .handling h) (hfault : s.fault = none) (hstep : s.AcceptorEffect s') :
    s.Around s' o ∧ ∀ ID c₀, h.Ready s.server ID c₀ → h.Ready s'.server ID c₀ := by
  cases hstep with
  | accepts fileDescriptor ip _ =>
    have hlists : s.server.SameLists { s.server with
        objects := s.server.objects ++ [⟨fileDescriptor, ip, true, none, false⟩] } :=
      ⟨rfl, (sameLists_addClient s.server fileDescriptor ip).headOf⟩
    have hne : o ≠ s.server.objects.length := by
      rintro rfl
      rw [hs.notStarted _ (le_refl _)] at ho
      cases ho
    refine ⟨⟨setReceiver_ne s hne _, hlists, rfl, by simp [hfault, Sys.setReceiver]⟩,
      fun ID c₀ hr => hr.around hlists (fun _ hget => hget) fun _ ha => ?_⟩
    exact (alive_new_iff rfl).mpr (.inl ha)
  | locks _ _ => exact ⟨⟨rfl, ⟨rfl, rfl⟩, rfl, by simp [hfault]⟩, fun ID c₀ hr => hr⟩
  | @pushes newClient _ =>
    refine ⟨⟨rfl, ⟨rfl, rfl⟩, rfl, by simp [hfault]⟩, fun ID c₀ hr =>
      hr.around ⟨rfl, rfl⟩ (fun _ hget => ?_) fun _ ha => ha⟩
    exact getElem?_append_of_some hget _
  | counts _ =>
    exact ⟨⟨rfl, ⟨rfl, rfl⟩, rfl, by simp [hfault]⟩, fun ID c₀ hr =>
      hr.around ⟨rfl, rfl⟩ (fun _ hget => hget) fun _ ha => ha⟩
  | unlocks _ => exact ⟨⟨rfl, ⟨rfl, rfl⟩, rfl, by simp [hfault]⟩, fun ID c₀ hr => hr⟩

theorem remover_around {s s' : Sys} (hs : s.Inv) (o : ClientPtr) {h : HandlerPc}
    (hfault : s.fault = none) (hstep : s.RemoverEffect s') :
    s.Around s' o ∧ ∀ ID c₀, h.Ready s.server ID c₀ → s.Steady h → s'.Steady h →
      h.Ready s'.server ID c₀ := by
  cases hstep with
  | moves _ _ _ => exact ⟨⟨rfl, ⟨rfl, rfl⟩, rfl, by simp [hfault]⟩, fun ID c₀ hr _ _ => hr⟩
  | fails e => exact ⟨⟨rfl, ⟨rfl, rfl⟩, rfl, by simp [Sys.fails]⟩, fun ID c₀ hr _ _ => hr⟩
  | finds _ _ => exact ⟨⟨rfl, ⟨rfl, rfl⟩, rfl, by simp [hfault]⟩, fun ID c₀ hr _ _ => hr⟩
  | joins _ _ => exact ⟨⟨rfl, ⟨rfl, rfl⟩, rfl, by simp [hfault]⟩, fun ID c₀ hr _ _ => hr⟩
  | closes fds _ =>
    exact ⟨⟨rfl, ⟨rfl, rfl⟩, rfl, by simp [hfault]⟩, fun ID c₀ hr _ _ =>
      hr.around ⟨rfl, rfl⟩ (fun _ hget => hget) fun _ ha => ha⟩
  | @deletes i client hpc =>
    have hlists := sameLists_setObject s.server client (fun c => { c with deleted := true })
      fun _ => rfl
    have htarget := hs.target i client (by rw [hpc]; rfl)
    refine ⟨⟨rfl, hlists, rfl, by simp [hfault]⟩, fun ID c₀ hr _ hsteady =>
      hr.around hlists (fun _ hget => hget) fun hret ha => alive_delete_iff.mpr ⟨ha, ?_⟩⟩
    obtain ⟨hbelow, hpointers⟩ := hsteady i rfl
    rintro rfl
    rcases hr.on.slot_or_pointer hret with hidx | hmem
    · -- `c₀` is at `ID`, in front of the deleted client
      obtain ⟨h0, hget⟩ := at_ok_iff.mp (hr.slot (by rw [hidx]; simp))
      have hlt := hbelow ID hidx
      have heq := nodup_getElem?_inj hs.nodup hget htarget
      omega
    · exact hpointers c₀ hmem htarget
  | @erases i hpc =>
    refine ⟨⟨rfl, ⟨rfl, rfl⟩, rfl, by simp [hfault]⟩, fun ID c₀ hr hsteady _ =>
      hr.around ⟨rfl, rfl⟩ (fun hidx hget => ?_) fun _ ha => ha⟩
    have hlt := (hsteady i hpc).1 ID hidx
    obtain ⟨h0, -⟩ := at_ok_iff.mp (hr.slot (by rw [hidx]; simp))
    show (s.server.clients.eraseIdx i)[ID.val.toNat]? = _
    rw [List.getElem?_eraseIdx_of_lt (by omega), hget]

/-- While `o` is in its handler another receive thread is in no callback. -/
theorem not_holds_of_handling {s : Sys} (hs : s.Inv) {o o' : ClientPtr} {h : HandlerPc}
    (ho : s.receivers o = .handling h) (hne : o' ≠ o) : (s.receivers o').holds = false := by
  have hmtx := (hs.holder o).mp (by rw [ho]; rfl)
  by_contra hh
  rw [Bool.not_eq_false] at hh
  have hmtx' := (hs.holder o').mp hh
  rw [hmtx] at hmtx'
  cases hmtx'
  exact hne rfl

theorem receiver_around {s s' : Sys} (hs : s.Inv) {o o' : ClientPtr} {h : HandlerPc}
    (ho : s.receivers o = .handling h) (hne : o' ≠ o) (hfault : s.fault = none)
    (hstep : s.ReceiverEffect o' s') :
    s.Around s' o ∧ ∀ ID c₀, h.Ready s.server ID c₀ → h.Ready s'.server ID c₀ := by
  have hidle := not_holds_of_handling hs ho hne
  have hheld := (hs.holder o).mp (by rw [ho]; rfl)
  have hkept : ∀ pc, (s.setReceiver o' pc).receivers o = s.receivers o :=
    setReceiver_ne s hne.symm
  have hfault' : ∀ pc e, (s.setReceiver o' pc).fault ≠ some (.receiver o, e) := fun pc e => by
    simp [hfault, Sys.setReceiver]
  cases hstep with
  | moves _ _ => exact ⟨⟨hkept _, ⟨rfl, rfl⟩, rfl, hfault' .check⟩, fun ID c₀ hr => hr⟩
  | fails e =>
    refine ⟨⟨rfl, ⟨rfl, rfl⟩, rfl, fun e he => hne ?_⟩, fun ID c₀ hr => hr⟩
    cases he
    rfl
  | takes _ hfree =>
    rw [hheld] at hfree
    cases hfree
  | handles hpc _ _ =>
    rw [hpc] at hidle
    cases hidle
  | returns hpc =>
    rw [hpc] at hidle
    cases hidle
  | disconnects _ =>
    have hlists := sameLists_setObject s.server o' (fun c => { c with isConnected := false })
      fun _ => rfl
    refine ⟨⟨hkept _, hlists, rfl, hfault' .check⟩, fun ID c₀ hr =>
      hr.around hlists (fun _ hget => hget) fun _ ha => ?_⟩
    exact (alive_setObject_iff o' (fun c => { c with isConnected := false })
      (fun _ => rfl) c₀).mpr ha
  | notifies _ hfree =>
    rw [hheld] at hfree
    cases hfree
  | notified hpc =>
    rw [hpc] at hidle
    cases hidle
  | counts _ =>
    exact ⟨⟨hkept _, ⟨rfl, rfl⟩, rfl, hfault' .check⟩, fun ID c₀ hr =>
      hr.around ⟨rfl, rfl⟩ (fun _ hget => hget) fun _ ha => ha⟩

/-- A step of another thread, from one `Steady` state to another, keeps a handler ready. -/
theorem ready_other {s s' : Sys} (hs : s.Inv) {o : ClientPtr} {h : HandlerPc}
    (ho : s.receivers o = .handling h) {a : Act} (ha : a.thread ≠ .receiver o)
    (hstep : s.Step a s') :
    s.Around s' o ∧ ∀ ID c₀, h.Ready s.server ID c₀ → s.Steady h → s'.Steady h →
      h.Ready s'.server ID c₀ := by
  have hfault := step_no_fault hstep
  cases a with
  | acceptor fileDescriptor ip =>
    obtain ⟨haround, hready⟩ := acceptor_around hs ho hfault (acceptor_step hstep)
    exact ⟨haround, fun ID c₀ hr _ _ => hready ID c₀ hr⟩
  | remover closeRet => exact remover_around hs o hfault (remover_step hstep)
  | receiver o' event rand r =>
    have hne : o' ≠ o := fun he => ha (by rw [he]; rfl)
    obtain ⟨haround, hready⟩ := receiver_around hs ho hne hfault (receiver_step_effect hstep)
    exact ⟨haround, fun ID c₀ hr _ _ => hready ID c₀ hr⟩

/-! ## One run of the handler -/

/-- A receive thread that runs has its object. -/
theorem alive_of_running {s : Sys} (hs : s.Inv) {o : ClientPtr}
    (hstarted : s.receivers o ≠ .notStarted) (hnotFinished : s.receivers o ≠ .finished) :
    s.server.Alive o := by
  have hlt : o < s.server.objects.length := by
    by_contra hge
    exact hstarted (hs.notStarted o (Nat.le_of_not_lt hge))
  refine ⟨s.server.objects[o], object_ok_iff.mpr ⟨List.getElem?_eq_getElem hlt, ?_⟩⟩
  by_contra hdel
  rw [Bool.not_eq_false] at hdel
  exact hnotFinished (hs.dead o _ (List.getElem?_eq_getElem hlt) hdel)

/-- The step of the thread whose handler is ready is a step of the handler. -/
theorem ready_own {s s' : Sys} (hs : s.Inv) {o : ClientPtr} {h : HandlerPc}
    (ho : s.receivers o = .handling h) (hret : h ≠ .returned) {ID : CInt} {c₀ : ClientPtr}
    (hr : h.Ready s.server ID c₀) {event : ReceiveEvent} {rand : ℕ} {r : SendResult}
    (hstep : s.Step (.receiver o event rand r) s') :
    ∃ h' server, h.step s.server rand r = .ok (h', server) ∧ h'.Ready server ID c₀ ∧
      s' = { s.setReceiver o (.handling h') with server := server } := by
  obtain ⟨hstarted, hnotFinished, hstep⟩ := receiver_step hstep
  obtain ⟨c, hc⟩ := alive_of_running hs hstarted hnotFinished
  obtain ⟨h', server, l, hok, hr', -⟩ := ready_step hs.separate hr hret rand r
  rcases hstep with ⟨c', -, hstep⟩ | ⟨e, he, -⟩
  · rw [receiverStep_handling ho hret, hok] at hstep
    exact ⟨h', server, hok, hr', (Option.some.inj hstep).symm⟩
  · rw [hc] at he
    cases he

/-- The thread of `o` is in the handler and has not failed; all that the lookups gave is `c₀`,
    and while the state is steady the handler can go on with it. -/
structure Sys.Serves (s : Sys) (o : ClientPtr) (ID : CInt) (c₀ : ClientPtr) (h : HandlerPc) :
    Prop where
  running : s.receivers o = .handling h
  on : h.On ID c₀
  ready : s.Steady h → h.Ready s.server ID c₀
  fault : ∀ e, s.fault ≠ some (.receiver o, e)

/-- The thread of `o` is in the handler and the state is steady for it. -/
def Sys.SteadyIn (s : Sys) (o : ClientPtr) : Prop :=
  ∃ h, s.receivers o = .handling h ∧ h ≠ .returned ∧ s.Steady h

theorem serves_step {s s' : Sys} (hs : s.Inv) {o : ClientPtr} {ID : CInt} {c₀ : ClientPtr}
    {h : HandlerPc} (hserves : s.Serves o ID c₀ h) (hret : h ≠ .returned)
    (hsteady : s.Steady h) {a : Act} (hstep : s.Step a s') :
    ∃ h', s'.Serves o ID c₀ h' := by
  have hr := hserves.ready hsteady
  by_cases ha : a.thread = .receiver o
  · cases a with
    | acceptor fileDescriptor ip => cases ha
    | remover closeRet => cases ha
    | receiver o' event rand r =>
      cases ha
      obtain ⟨h', server, -, hr', rfl⟩ := ready_own hs hserves.running hret hr hstep
      exact ⟨h', Function.update_self _ _ _, hr'.on, fun _ => hr', hserves.fault⟩
  · obtain ⟨haround, hready⟩ := ready_other hs hserves.running ha hstep
    exact ⟨h, by rw [haround.receiver, hserves.running], hserves.on,
      fun hsteady' => hready ID c₀ hr hsteady hsteady', haround.fault⟩

theorem on_parse {msg : Bytes} {ID : CInt} (hmsg : decodeID msg = .ok ID) (c₀ : ClientPtr) :
    (HandlerPc.parse msg).On ID c₀ := by
  refine ⟨fun msg' heq => ?_, fun ID' hID' => ?_, fun p hp => absurd hp List.not_mem_nil⟩
  · cases heq
    exact hmsg
  · rw [HandlerPc.index, hmsg] at hID'
    exact (Option.some.inj hID').symm

/-- A handler starts ready for the client at its index: this one exists, or is being erased. -/
theorem ready_start {s : Sys} (hs : s.Inv) {msg : Bytes} {ID : CInt} {c₀ : ClientPtr}
    (hmsg : decodeID msg = .ok ID) (hat : s.server.at ID = .ok c₀)
    (hsteady : s.Steady (.parse msg)) : HandlerPc.Ready s.server ID c₀ (.parse msg) := by
  refine ⟨on_parse hmsg c₀, fun _ => hat, fun _ => ?_, fun hd => by cases hd⟩
  obtain ⟨h0, hget⟩ := at_ok_iff.mp hat
  refine (hs.alive _ c₀ hget).resolve_right fun hpc => ?_
  have hlt := (hsteady _ hpc).1 ID (by rw [HandlerPc.index, hmsg]; rfl)
  omega

/-- In a run of the handler all of whose steps are taken from steady states the handler never
    fails, all it has in hand is the client `c₀` that was at its index at the start, and
    whenever it looks up its index again it finds `c₀`, which is not deleted. -/
theorem lookups_agree {s₀ s : Sys} (hs : s₀.Reachable) (hfault : s₀.fault = none)
    {o : ClientPtr} {msg : Bytes} {ID : CInt} {c₀ : ClientPtr}
    (ho : s₀.receivers o = .handling (.parse msg)) (hmsg : decodeID msg = .ok ID)
    (hat : s₀.server.at ID = .ok c₀) {acts : List Act}
    (hrun : Run (Along Sys.Step fun s _ _ => s.SteadyIn o) s₀ acts s) :
    ∃ h, s.receivers o = .handling h ∧ (∀ e, s.fault ≠ some (.receiver o, e)) ∧
      (∀ p ∈ h.pointers, p = c₀) ∧
      (s.Steady h →
        (∀ ID', h.index = some ID' → ID' = ID ∧ s.server.at ID' = .ok c₀) ∧
        (h ≠ .returned → s.server.Alive c₀) ∧
        (h.drawn = true → h ≠ .returned → s.server.listOf c₀ ≠ [])) := by
  have hinv : s.Inv ∧ ∃ h, s.Serves o ID c₀ h := by
    refine hrun.invariant (I := fun s => s.Inv ∧ ∃ h, s.Serves o ID c₀ h) ?_
      ⟨sys_reachable_inv hs, _, ho, on_parse hmsg c₀,
        ready_start (sys_reachable_inv hs) hmsg hat, by simp [hfault]⟩
    intro s1 a s2 h1 hstep
    obtain ⟨hs1, h, hserves⟩ := h1
    obtain ⟨hstep, h', hrunning, hret, hsteady⟩ := hstep
    rw [hserves.running] at hrunning
    cases hrunning
    exact ⟨sys_step_inv hs1 hstep, serves_step hs1 hserves hret hsteady hstep⟩
  obtain ⟨-, h, hserves⟩ := hinv
  refine ⟨h, hserves.running, hserves.fault, hserves.on.pointers, fun hsteady => ?_⟩
  have hr := hserves.ready hsteady
  refine ⟨fun ID' hID' => ?_, hr.alive, hr.list⟩
  obtain rfl := hserves.on.index ID' hID'
  exact ⟨rfl, hr.slot (by rw [hID']; simp)⟩

/-- Clients 0 and 1 are accepted, 1 disconnects. Client 0 asks for "0", and while its handler
    sleeps the remover sweeps client 1. -/
theorem lookups_agree_sweep_behind :
    ∃ (s₀ s : Sys) (ID : CInt) (acts : List Act), s₀.Reachable ∧
      s₀.receivers 0 = .handling (.parse (bytes "0")) ∧
      Run (Along Sys.Step fun s _ _ => s.SteadyIn 0) s₀ acts s ∧ s.server.clients = [0] ∧
      ∃ h, s.receivers 0 = .handling h ∧ (∀ e, s.fault ≠ some (.receiver 0, e)) ∧
        (∀ p ∈ h.pointers, p = 0) ∧
        (s.Steady h →
          (∀ ID', h.index = some ID' → ID' = ID ∧ s.server.at ID' = .ok 0) ∧
          (h ≠ .returned → s.server.Alive 0) ∧
          (h.drawn = true → h ≠ .returned → s.server.listOf 0 ≠ [])) := by
  have hrun : ∃ s₀ : Sys, Run Sys.Step (.init 3)
      [.acceptor 4 "10.0.0.1", .acceptor 0 "", .acceptor 0 "", .acceptor 0 "", .acceptor 0 "",
        .acceptor 5 "10.0.0.2", .acceptor 0 "", .acceptor 0 "", .acceptor 0 "", .acceptor 0 "",
        .receiver 1 .timeout 0 ⟨0, ""⟩, .receiver 1 .endOfStream 0 ⟨0, ""⟩,
        .receiver 1 .timeout 0 ⟨0, ""⟩, .receiver 1 .timeout 0 ⟨0, ""⟩,
        .receiver 1 .timeout 0 ⟨0, ""⟩, .receiver 1 .timeout 0 ⟨0, ""⟩,
        .receiver 0 .timeout 0 ⟨0, ""⟩, .receiver 0 (.message (bytes "0")) 0 ⟨0, ""⟩,
        .receiver 0 .timeout 0 ⟨0, ""⟩] s₀ ∧
      s₀.fault = none ∧ s₀.receivers 0 = .handling (.parse (bytes "0")) ∧
      s₀.server.at ⟨0, by decide, by decide⟩ = .ok 0 ∧
      ∃ s : Sys, Run (Along Sys.Step fun s _ _ => s.SteadyIn 0) s₀
        [.receiver 0 .timeout 0 ⟨0, ""⟩, .receiver 0 .timeout 0 ⟨0, ""⟩,
          .receiver 0 .timeout 0 ⟨0, ""⟩, .receiver 0 .timeout 0 ⟨0, ""⟩,
          .receiver 0 .timeout 0 ⟨0, ""⟩, .remover fun _ => 0, .remover fun _ => 0,
          .remover fun _ => 0, .remover fun _ => 0, .remover fun _ => 0, .remover fun _ => 0,
          .receiver 0 .timeout 0 ⟨0, ""⟩, .remover fun _ => 0] s ∧ s.server.clients = [0] := by
    refine ⟨_, .cons rfl (.cons rfl (.cons rfl (.cons rfl (.cons rfl (.cons rfl (.cons rfl
      (.cons rfl (.cons rfl (.cons rfl (.cons rfl (.cons rfl (.cons rfl (.cons rfl (.cons rfl
      (.cons rfl (.cons rfl (.cons rfl (.cons rfl (.nil _))))))))))))))))))), rfl, rfl, rfl, _,
      .cons ⟨rfl, _, rfl, by decide, fun i hi => by cases hi⟩
      (.cons ⟨rfl, _, rfl, by decide, fun i hi => by cases hi⟩
      (.cons ⟨rfl, _, rfl, by decide, fun i hi => by cases hi⟩
      (.cons ⟨rfl, _, rfl, by decide, fun i hi => by cases hi⟩
      (.cons ⟨rfl, _, rfl, by decide, fun i hi => by cases hi⟩
      (.cons ⟨rfl, _, rfl, by decide, fun i hi => by cases hi⟩
      (.cons ⟨rfl, _, rfl, by decide, fun i hi => by cases hi⟩
      (.cons ⟨rfl, _, rfl, by decide, fun i hi => by cases hi⟩
      (.cons ⟨rfl, _, rfl, by decide, fun i hi => by cases hi⟩
      (.cons ⟨rfl, _, rfl, by decide, fun i hi => by cases hi⟩
      (.cons ⟨rfl, _, rfl, by decide, fun i hi => by cases hi⟩
      (.cons ⟨rfl, _, rfl, by decide, ?_⟩
      (.cons ⟨rfl, _, rfl, by decide, ?_⟩ (.nil _))))))))))))), rfl⟩
    all_goals
      intro i hi
      cases hi
      refine ⟨fun ID hID => ?_, fun p hp => absurd hp List.not_mem_nil⟩
      cases hID
      decide
  obtain ⟨s₀, hreach, hfault, ho, hat, s, hrun, hclients⟩ := hrun
  exact ⟨s₀, s, _, _, ⟨3, _, hreach⟩, ho, hrun, hclients,
    lookups_agree ⟨3, _, hreach⟩ hfault ho rfl hat hrun⟩

/-- Clients 0 and 1 are accepted, 0 disconnects. Client 1 asks for "1", and while its handler
    sleeps the remover sweeps client 0: the lookup of `sortList` is out of range. -/
theorem lookups_differ :
    ∃ (s₀ s : Sys) (ID : CInt) (acts : List Act), s₀.Reachable ∧ s₀.fault = none ∧
      s₀.receivers 1 = .handling (.parse (bytes "1")) ∧
      decodeID (bytes "1") = .ok ID ∧ s₀.server.at ID = .ok 1 ∧
      Run (Along Sys.Step fun s _ _ => ∃ h, s.receivers 1 = .handling h ∧ h ≠ .returned)
        s₀ acts s ∧
      s.receivers 1 = .handling (.sortLookup ID 1) ∧ s.server.at ID = .error .badIndex ∧
      s.fault = some (.receiver 1, .badIndex) := by
  have hrun : ∃ s₀ : Sys, Run Sys.Step (.init 3)
      [.acceptor 4 "10.0.0.1", .acceptor 0 "", .acceptor 0 "", .acceptor 0 "", .acceptor 0 "",
        .acceptor 5 "10.0.0.2", .acceptor 0 "", .acceptor 0 "", .acceptor 0 "", .acceptor 0 "",
        .receiver 0 .timeout 0 ⟨0, ""⟩, .receiver 0 .endOfStream 0 ⟨0, ""⟩,
        .receiver 0 .timeout 0 ⟨0, ""⟩, .receiver 0 .timeout 0 ⟨0, ""⟩,
        .receiver 0 .timeout 0 ⟨0, ""⟩, .receiver 0 .timeout 0 ⟨0, ""⟩,
        .receiver 1 .timeout 0 ⟨0, ""⟩, .receiver 1 (.message (bytes "1")) 0 ⟨0, ""⟩,
        .receiver 1 .timeout 0 ⟨0, ""⟩] s₀ ∧
      s₀.fault = none ∧ s₀.receivers 1 = .handling (.parse (bytes "1")) ∧
      s₀.server.at ⟨1, by decide, by decide⟩ = .ok 1 ∧
      ∃ s : Sys, Run (Along Sys.Step fun s _ _ =>
          ∃ h, s.receivers 1 = .handling h ∧ h ≠ .returned) s₀
        [.receiver 1 .timeout 0 ⟨0, ""⟩, .receiver 1 .timeout 0 ⟨0, ""⟩,
          .receiver 1 .timeout 0 ⟨0, ""⟩, .receiver 1 .timeout 0 ⟨0, ""⟩,
          .receiver 1 .timeout 0 ⟨0, ""⟩, .remover fun _ => 0, .remover fun _ => 0,
          .remover fun _ => 0, .remover fun _ => 0, .remover fun _ => 0, .remover fun _ => 0,
          .receiver 1 .timeout 0 ⟨0, ""⟩, .receiver 1 .timeout 0 ⟨0, ""⟩] s ∧
        s.receivers 1 = .handling (.sortLookup ⟨1, by decide, by decide⟩ 1) ∧
        s.server.at ⟨1, by decide, by decide⟩ = .error .badIndex ∧
        s.fault = some (.receiver 1, .badIndex) := by
    refine ⟨_, .cons rfl (.cons rfl (.cons rfl (.cons rfl (.cons rfl (.cons rfl (.cons rfl
      (.cons rfl (.cons rfl (.cons rfl (.cons rfl (.cons rfl (.cons rfl (.cons rfl (.cons rfl
      (.cons rfl (.cons rfl (.cons rfl (.cons rfl (.nil _))))))))))))))))))), rfl, rfl, rfl, _,
      .cons ⟨rfl, _, rfl, by decide⟩ (.cons ⟨rfl, _, rfl, by decide⟩
      (.cons ⟨rfl, _, rfl, by decide⟩ (.cons ⟨rfl, _, rfl, by decide⟩
      (.cons ⟨rfl, _, rfl, by decide⟩ (.cons ⟨rfl, _, rfl, by decide⟩
      (.cons ⟨rfl, _, rfl, by decide⟩ (.cons ⟨rfl, _, rfl, by decide⟩
      (.cons ⟨rfl, _, rfl, by decide⟩ (.cons ⟨rfl, _, rfl, by decide⟩
      (.cons ⟨rfl, _, rfl, by decide⟩ (.cons ⟨rfl, _, rfl, by decide⟩
      (.cons ⟨rfl, _, rfl, by decide⟩ (.nil _))))))))))))), rfl, rfl, rfl⟩
  obtain ⟨s₀, hreach, hfault, ho, hat, s, hrun, hend⟩ := hrun
  exact ⟨s₀, s, _, _, ⟨3, _, hreach⟩, hfault, ho, rfl, hat, hrun, hend⟩

end TCPServer
