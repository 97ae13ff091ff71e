/-
  A call of `close()` while the accepting thread goes on.

  `close()` stops the remover, but nothing stops `acceptClient`: a client whose receive thread
  has started before the list is emptied, or is accepted after that, is put into the list
  behind the back of `close()`. So the call leaves nothing behind (`Service.ShutDown`) exactly
  when no client is on its way into the list when `close()` empties it and none is accepted
  from then on (`NothingAccepted`).

  `Service.Clean` is kept by the steps that meet this condition; the first one that does not
  leads to `Service.Missed`, where some client is or will be in the list for good.
-/
import TCPServer.Service.Closing

namespace TCPServer

open Runs

/-- `close()` is past waiting for the remover. -/
def ClosePc.pastRemover : ClosePc → Bool
  | .idle => false
  | .stopping => false
  | .joiningRemover => false
  | _ => true

/-- `close()` has emptied the list of clients, and has not failed since. -/
def ClosePc.cleared : ClosePc → Bool
  | .unlocking successFlag => successFlag
  | .closingSocket => true
  | .returned successFlag => successFlag
  | _ => false

def Label.connects : Label → Bool
  | .connect _ _ => true
  | _ => false

/-- Steps within one call of `close()`. -/
abbrev Service.CallStep : Service → Label → Service → Prop :=
  Along Service.Step fun _ l _ => l ≠ .close

/-- Steps without a new connection. -/
abbrev Service.QuietStep : Service → Label → Service → Prop :=
  Along Service.Step fun _ l _ => l.connects = false

/-- No client is left: none is listed, no receive thread runs, and no handler of a subscriber
    is called unless a connection is accepted again. -/
structure Service.ShutDown (s : Service) : Prop where
  clients : s.server.clients = []
  tasks : ∀ o, (s.tasks o).runs = false
  silent : ∀ ls s', Run Service.QuietStep s ls s' → s'.callbacks = s.callbacks

/-- The next step of `close()` empties the list of clients. -/
def Service.ClearsNext (s : Service) : Prop :=
  ∃ i, s.closer = .joining i ∧ s.server.clients[i]? = none

/-- When `close()` empties the list, no client is being accepted; afterwards none is. -/
def NothingAccepted (s : Service) (l : Label) (_ : Service) : Prop :=
  (s.ClearsNext → l = .thread .closer .ok → s.acceptor = .accepting) ∧
    (s.closer.cleared = true → l.connects = false)

/-- Some client is listed or on its way into the list. -/
def Service.Leftover (s : Service) : Prop :=
  ∃ o, o ∈ s.server.clients ∨ s.acceptor.newClient = some o

/-- What holds as long as nothing was accepted at the wrong time. -/
structure Service.Clean (s : Service) : Prop where
  good : s.Good
  gone : s.closer.pastRemover = true → s.removerThread = false
  empty : s.closer.cleared = true → s.acceptor = .accepting ∧ s.server.clients = []

/-- The list was emptied too early, or the call has failed since. -/
structure Service.Missed (s : Service) : Prop where
  good : s.Good
  gone : s.removerThread = false
  left : s.closer = .returned false ∨ s.closer.cleared = true ∧ s.Leftover

/-! ## Where no receive thread runs -/

section Silent

variable {s s' : Service}

/-- A receive thread starts only with a connection. -/
theorem not_running_step {l : Label} (hs : ∀ o, (s.tasks o).runs = false)
    (h : s.QuietStep l s') : (∀ o, (s'.tasks o).runs = false) ∧ s'.callbacks = s.callbacks := by
  obtain ⟨h, hquiet⟩ := h
  cases h with
  | world _ h =>
    cases h with
    | connects _ _ _ => cases hquiet
    | _ => exact ⟨hs, rfl⟩
  | acceptor _ h => cases h <;> exact ⟨hs, rfl⟩
  | remover _ h => cases h <;> exact ⟨hs, rfl⟩
  | @task o _ _ _ h =>
    have hstopped := hs o
    cases h with
    | throws _ _ => exact ⟨hs, rfl⟩
    | _ =>
      rename_i hpc
      simp_all [TaskPc.runs]
  | closer _ h => cases h <;> exact ⟨hs, rfl⟩
  | caller _ h =>
    obtain ⟨_, _, _, _, _, _, rfl⟩ := caller_effect h
    exact ⟨hs, rfl⟩
  | dangles _ _ _ => exact ⟨hs, rfl⟩

theorem silent_of_not_running (hs : ∀ o, (s.tasks o).runs = false) {ls : List Label}
    (h : Run Service.QuietStep s ls s') : s'.callbacks = s.callbacks := by
  have hlast := h.invariant
    (I := fun t => (∀ o, (t.tasks o).runs = false) ∧ t.callbacks = s.callbacks)
    (fun _ _ _ ht h => by
      obtain ⟨hstopped, hcallbacks⟩ := not_running_step ht.1 h
      exact ⟨hstopped, hcallbacks.trans ht.2⟩) ⟨hs, rfl⟩
  exact hlast.2

end Silent

section Call

variable {s s' : Service} {l : Label}

/-! ## Steps that meet the condition -/

theorem closer_clean {how : How} (hgood : s'.Good) (hs : s.Clean) (h : s.CloserStep how s')
    (haccepts : s.ClearsNext → how = .ok → s.acceptor = .accepting) : s'.Clean := by
  have hgone : ∀ {pc : ClosePc}, s.closer = pc → pc.pastRemover = true →
      s.removerThread = false := fun hpc hpast => hs.gone (hpc ▸ hpast)
  have hempty : ∀ {pc : ClosePc}, s.closer = pc → pc.cleared = true →
      s.acceptor = .accepting ∧ s.server.clients = [] := fun hpc hcleared =>
    hs.empty (hpc ▸ hcleared)
  refine ⟨hgood, ?_, ?_⟩
  · cases h with
    | stops _ _ => nofun
    | hasNoRemover _ hthread => exact fun _ => hthread
    | joinsRemover _ _ => exact fun _ => rfl
    | locks hpc _ => exact fun _ => hgone hpc rfl
    | joins hpc _ _ => exact fun _ => hgone hpc rfl
    | closes hpc _ _ => exact fun _ => hgone hpc rfl
    | catches _ hpc _ _ => exact fun _ => hgone hpc rfl
    | clears hpc _ => exact fun _ => hgone hpc rfl
    | unlocks hpc => exact fun _ => hgone hpc rfl
    | givesUp hpc => exact fun _ => hgone hpc rfl
    | closesSocket hpc => exact fun _ => hgone hpc rfl
    | failsToClose _ hpc => exact fun _ => hgone hpc rfl
  · cases h with
    | clears hpc hend => exact fun _ => ⟨haccepts ⟨_, hpc, hend⟩ rfl, rfl⟩
    | unlocks hpc => exact fun _ => hempty hpc rfl
    | closesSocket hpc => exact fun _ => hempty hpc rfl
    | _ => nofun

theorem step_clean (hs : s.Clean) (h : s.CallStep l s') (haccepts : NothingAccepted s l s') :
    s'.Clean := by
  obtain ⟨h, hcall⟩ := h
  have hgood := hs.good.step h
  have hempty := hs.empty
  cases h with
  | world _ h =>
    cases h with
    | connects fileDescriptor ip _ =>
      exact ⟨hgood, hs.gone, fun hcleared => nomatch haccepts.2 hcleared⟩
    | closes _ => exact absurd rfl hcall
    | _ => exact ⟨hgood, hs.gone, hempty⟩
  | acceptor _ h =>
    -- It takes no step while it waits in `accept`.
    have hbusy : ∀ {pc : AcceptorPc}, s.acceptor = pc → pc ≠ .accepting → ∀ {P : Prop},
        s.closer.cleared = true → P := fun hpc hne _ hcleared =>
      absurd (hpc.symm.trans (hempty hcleared).1) hne
    cases h with
    | locks hpc _ => exact ⟨hgood, hs.gone, hbusy hpc nofun⟩
    | pushes hpc => exact ⟨hgood, hs.gone, hbusy hpc nofun⟩
    | counts hpc => exact ⟨hgood, hs.gone, hbusy hpc nofun⟩
    | unlocks hpc => exact ⟨hgood, hs.gone, hbusy hpc nofun⟩
  | remover _ h =>
    cases h with
    | @erases i _ =>
      refine ⟨hgood, hs.gone, fun hcleared => ⟨(hempty hcleared).1, ?_⟩⟩
      show s.server.clients.eraseIdx i = []
      rw [(hempty hcleared).2, List.eraseIdx_nil]
    | _ => exact ⟨hgood, hs.gone, hempty⟩
  | task _ h =>
    have hclients := task_clients h
    refine ⟨hgood, ?_, ?_⟩
    · cases h <;> exact hs.gone
    · rw [hclients]
      cases h <;> exact hempty
  | closer _ h =>
    refine closer_clean hgood hs h fun hclears hok => ?_
    subst hok
    exact haccepts.1 hclears rfl
  | caller _ h =>
    obtain ⟨_, _, _, _, _, _, rfl⟩ := caller_effect h
    exact ⟨hgood, hs.gone, hempty⟩
  | dangles _ _ _ => exact ⟨hgood, hs.gone, hempty⟩

/-! ## The first step that does not -/

/-- While another thread has `_clientsMtx`, a client that is being accepted waits for it. -/
theorem newClient_of_holds (hl : s.Locked) {t : ThreadId} (ht : s.HoldsClients t)
    (hne : t ≠ .acceptor) (hbusy : s.acceptor ≠ .accepting) :
    ∃ o, s.acceptor.newClient = some o := by
  have hout : ¬ s.HoldsClients .acceptor := hl.clients.excludes ht hne.symm
  cases hpc : s.acceptor with
  | accepting => exact absurd hpc hbusy
  | started o => exact ⟨o, rfl⟩
  | _ => exact absurd (holdsClients_acceptor hpc rfl) hout

theorem missed_of_step (hs : s.Clean) (h : s.CallStep l s') (hwrong : ¬ NothingAccepted s l s') :
    s'.Missed := by
  obtain ⟨h, -⟩ := h
  have hgood := hs.good.step h
  unfold NothingAccepted at hwrong
  simp only [not_and_or, Classical.not_imp] at hwrong
  rcases hwrong with ⟨⟨i, hpc, hend⟩, rfl, hbusy⟩ | ⟨hcleared, hconnects⟩
  · have hgone := hs.gone (by rw [hpc]; rfl)
    have hclears : s' = { s with
        server := { s.server with clients := [] }, closer := .unlocking true } := by
      cases h with
      | world _ h => cases h
      | closer _ h => cases h <;> simp_all
      | dangles _ huses _ =>
        obtain ⟨j, hj, hget⟩ := huses
        rw [hpc] at hj
        cases hj
        rw [hend] at hget
        cases hget
    obtain ⟨o, ho⟩ := newClient_of_holds hs.good.locked (holdsClients_closer hpc rfl) nofun hbusy
    subst hclears
    exact ⟨hgood, hgone, .inr ⟨rfl, o, .inr ho⟩⟩
  · have hpast : s.closer.pastRemover = true := by
      cases hpc : s.closer <;> simp_all [ClosePc.cleared, ClosePc.pastRemover]
    cases h with
    | world _ h =>
      cases h with
      | connects fileDescriptor ip _ =>
        exact ⟨hgood, hs.gone hpast, .inr ⟨hcleared, _, .inr rfl⟩⟩
      | _ => exact absurd rfl hconnects
    | _ => exact absurd rfl hconnects

/-! ## What was missed stays -/

theorem step_missed (hs : s.Missed) (h : s.CallStep l s') : s'.Missed := by
  obtain ⟨h, hcall⟩ := h
  have hgood := hs.good.step h
  have hended : s.remover = .ended := hs.good.closing.gone hs.gone
  have hleft := hs.left
  cases h with
  | world _ h =>
    cases h with
    | connects fileDescriptor ip _ =>
      exact ⟨hgood, hs.gone, hleft.imp_right fun h => ⟨h.1, _, .inr rfl⟩⟩
    | closes _ => exact absurd rfl hcall
    | _ => exact ⟨hgood, hs.gone, hleft⟩
  | acceptor _ h =>
    refine ⟨hgood, ?_, ?_⟩
    · cases h <;> exact hs.gone
    · cases h with
      | @pushes newClient _ =>
        exact hleft.imp_right fun h => ⟨h.1, newClient, .inl (by simp)⟩
      | _ =>
        rename_i hpc
        refine hleft.imp_right fun h => ⟨h.1, ?_⟩
        obtain ⟨-, o, ho⟩ := h
        exact ⟨o, ho.imp_right fun ho => by simp_all [AcceptorPc.newClient]⟩
  | remover _ h => cases h <;> simp_all
  | task _ h =>
    have hclients := task_clients h
    refine ⟨hgood, ?_, ?_⟩
    · cases h <;> exact hs.gone
    · unfold Service.Leftover
      rw [hclients]
      cases h <;> exact hleft
  | closer _ h =>
    have hpast : ∀ {pc : ClosePc}, s.closer = pc → pc ≠ .returned false → pc.cleared = true ∧
        s.Leftover := fun hpc hne => hpc ▸ hleft.resolve_left (hpc ▸ hne)
    have hbefore : ∀ {pc : ClosePc} {P : Prop}, s.closer = pc → pc ≠ .returned false →
        pc.cleared = false → P := fun hpc hne hnot => by
      rw [(hpast hpc hne).1] at hnot
      cases hnot
    cases h with
    | stops hpc _ => exact hbefore hpc (by simp) rfl
    | hasNoRemover hpc _ => exact hbefore hpc (by simp) rfl
    | joinsRemover hpc _ => exact hbefore hpc (by simp) rfl
    | locks hpc _ => exact hbefore hpc (by simp) rfl
    | joins hpc _ _ => exact hbefore hpc (by simp) rfl
    | closes hpc _ _ => exact hbefore hpc (by simp) rfl
    | catches _ hpc _ _ => exact hbefore hpc (by simp) rfl
    | clears hpc _ => exact hbefore hpc (by simp) rfl
    | unlocks hpc => exact ⟨hgood, hs.gone, .inr ⟨rfl, (hpast hpc (by simp)).2⟩⟩
    | givesUp _ => exact ⟨hgood, hs.gone, .inl rfl⟩
    | closesSocket hpc => exact ⟨hgood, hs.gone, .inr ⟨rfl, (hpast hpc (by simp)).2⟩⟩
    | failsToClose _ _ => exact ⟨hgood, hs.gone, .inl rfl⟩
  | caller _ h =>
    obtain ⟨_, _, _, _, _, _, rfl⟩ := caller_effect h
    exact ⟨hgood, hs.gone, hleft⟩
  | dangles _ _ _ => exact ⟨hgood, hs.gone, hleft⟩

end Call

/-! ## What a call of `close()` leaves behind -/

theorem Service.Clean.shutDown {s : Service} (hs : s.Clean)
    (hreturned : s.closer = .returned true) : s.ShutDown := by
  obtain ⟨haccepting, hclients⟩ := hs.empty (by rw [hreturned]; rfl)
  have hstopped : ∀ o, (s.tasks o).runs = false := fun o => by
    rw [← Bool.not_eq_true]
    intro hruns
    rcases hs.good.inv.listed o hruns with ho | ho
    · rw [hclients] at ho
      cases ho
    · rw [haccepting] at ho
      cases ho
  exact ⟨hclients, hstopped, fun _ _ hrun => silent_of_not_running hstopped hrun⟩

theorem Service.Missed.not_shutDown {s : Service} (hs : s.Missed)
    (hreturned : s.closer = .returned true) (hended : s.acceptor = .accepting) :
    ¬ s.ShutDown := by
  intro hdown
  obtain ⟨-, o, ho⟩ := hs.left.resolve_left (by simp [hreturned])
  rw [hdown.clients, hended] at ho
  exact ho.elim nofun nofun

/-- For every call of `close()` in every run of the service, from its beginning to a state where
    it has returned success and no `acceptClient` is past `accept`: no client is left if and only
    if no client was being accepted when the list was emptied and none was accepted from then
    on. -/
theorem shutDown_iff {s₀ s : Service} {ls : List Label} (h₀ : s₀.Reachable)
    (hcalled : s₀.closer = .stopping) (hrun : Run Service.CallStep s₀ ls s)
    (hreturned : s.closer = .returned true) (hended : s.acceptor = .accepting) :
    s.ShutDown ↔ Run (Along Service.CallStep NothingAccepted) s₀ ls s := by
  have hclean : s₀.Clean := by
    refine ⟨reachable_good h₀, ?_, ?_⟩ <;> rw [hcalled] <;> nofun
  have hkeep : ∀ (s : Service) l s', s.Clean → s.CallStep l s' → NothingAccepted s l s' →
      s'.Clean := fun _ _ _ hs h => step_clean hs h
  constructor
  · intro hdown
    have hcases := run_along_or_trap (P := NothingAccepted) hkeep
      (fun _ _ _ hs h => missed_of_step hs h) (fun _ _ _ hs h => step_missed hs h) hclean hrun
    exact hcases.resolve_right fun hmissed => hmissed.not_shutDown hreturned hended hdown
  · intro hall
    exact (hall.invariant_along hkeep hclean).shutDown hreturned

/-- A client comes and goes before `close()` is called. -/
theorem shutDown_after_one_client :
    ∃ s : Service, s.Reachable ∧ s.closer = .returned true ∧ s.ShutDown := by
  have within : ∀ {s s' : Service} {l : Label}, s.Step l s' → l ≠ .close →
      (s.ClearsNext → l = .thread .closer .ok → s.acceptor = .accepting) → l.connects = false →
      Along Service.CallStep NothingAccepted s l s' := fun h hcall hclears hquiet =>
    ⟨⟨h, hcall⟩, hclears, fun _ => hquiet⟩
  obtain ⟨s₀, s, h₀, hcalled, ⟨ls, hrun⟩, hreturned, hended⟩ :
      ∃ s₀ s : Service, s₀.Reachable ∧ s₀.closer = .stopping ∧
        (∃ ls, Run (Along Service.CallStep NothingAccepted) s₀ ls s) ∧
        s.closer = .returned true ∧ s.acceptor = .accepting := by
    refine ⟨_, _, ⟨3, false, _, .cons (.world rfl (.connects 4 "10.0.0.2" rfl)) (.cons
      (.acceptor rfl (.locks rfl rfl)) (.cons (.acceptor rfl (.pushes rfl)) (.cons
      (.acceptor rfl (.counts rfl)) (.cons (.acceptor rfl (.unlocks rfl)) (.cons
      (.world rfl (.peerCloses 0)) (.cons (.task rfl (.goesOn (o := 0) rfl rfl)) (.cons
      (.task rfl (.findsEnd (o := 0) rfl rfl rfl)) (.cons
      (.task rfl (.clears (o := 0) rfl)) (.cons (.task rfl (.locksLast (o := 0) rfl rfl)) (.cons
      (.task rfl (.notifies (o := 0) rfl)) (.cons (.task rfl (.counts (o := 0) rfl)) (.cons
      (.world rfl (.closes (.inl rfl))) (.nil _)))))))))))))⟩, rfl,
      ⟨_, .cons (within (.closer rfl (.hasNoRemover rfl rfl)) nofun (fun _ _ => rfl) rfl) (.cons
      (within (.closer rfl (.locks rfl rfl)) nofun (fun _ _ => rfl) rfl) (.cons
      (within (.closer rfl (.joins (o := 0) rfl rfl rfl)) nofun (fun _ _ => rfl) rfl) (.cons
      (within (.closer rfl (.closes (o := 0) rfl rfl rfl)) nofun (fun _ _ => rfl) rfl) (.cons
      (within (.closer rfl (.clears rfl rfl)) nofun (fun _ _ => rfl) rfl) (.cons
      (within (.closer rfl (.unlocks rfl)) nofun (fun _ _ => rfl) rfl) (.cons
      (within (.closer rfl (.closesSocket rfl)) nofun (fun _ _ => rfl) rfl)
      (.nil _)))))))⟩, rfl, rfl⟩
  have hreach : s.Reachable := by
    obtain ⟨sockfd, automatic, ks, hbefore⟩ := h₀
    exact ⟨sockfd, automatic, ks ++ ls, hbefore.append hrun.of_along.of_along⟩
  exact ⟨s, hreach, hreturned, (shutDown_iff h₀ hcalled hrun.of_along hreturned hended).mpr hrun⟩

/-- `accept` gives a connection before `close()` empties the list, and the client is pushed
    after that: when `close()` has returned success, the client is listed, its thread runs,
    and what it sends is passed on to a subscriber. -/
theorem close_misses_accepted_client :
    ∃ s₀ s s' : Service, s₀.Reachable ∧ s₀.closer = .stopping ∧
      Reaches Service.CallStep s₀ s ∧ s.closer = .returned true ∧ s.acceptor = .accepting ∧
      s.server.clients ≠ [] ∧ (s.tasks 0).runs = true ∧
      Reaches Service.QuietStep s s' ∧ s'.callbacks ≠ s.callbacks := by
  refine ⟨_, _, _, ⟨3, true, _, .cons
    (.world rfl (.calls (n := 0) (.subscribe ⟨"", true, true⟩) rfl)) (.cons
    (.caller rfl (.locksSubscribers (n := 0) rfl rfl rfl)) (.cons
    (.caller rfl (.runsOnSubscribers (n := 0) rfl rfl rfl)) (.cons
    (.world rfl (.closes (.inl rfl))) (.nil _))))⟩, rfl,
    ⟨_, .cons ⟨.closer rfl (.stops rfl rfl), nofun⟩ (.cons
    ⟨.remover rfl (.ends rfl rfl), nofun⟩ (.cons
    ⟨.closer rfl (.joinsRemover rfl rfl), nofun⟩ (.cons
    ⟨.closer rfl (.locks rfl rfl), nofun⟩ (.cons
    ⟨.world rfl (.connects 4 "10.0.0.2" rfl), nofun⟩ (.cons
    ⟨.closer rfl (.clears rfl rfl), nofun⟩ (.cons ⟨.closer rfl (.unlocks rfl), nofun⟩ (.cons
    ⟨.acceptor rfl (.locks rfl rfl), nofun⟩ (.cons ⟨.acceptor rfl (.pushes rfl), nofun⟩ (.cons
    ⟨.acceptor rfl (.counts rfl), nofun⟩ (.cons ⟨.acceptor rfl (.unlocks rfl), nofun⟩ (.cons
    ⟨.closer rfl (.closesSocket rfl), nofun⟩ (.nil _))))))))))))⟩, rfl, rfl, nofun, rfl,
    ⟨_, .cons ⟨.world rfl (.peerSends (o := 0) [49] rfl), rfl⟩ (.cons
    ⟨.task rfl (.goesOn (o := 0) rfl rfl), rfl⟩ (.cons
    ⟨.task rfl (.receives (o := 0) rfl rfl), rfl⟩ (.cons
    ⟨.task rfl (.locks (o := 0) rfl rfl), rfl⟩ (.cons
    ⟨.task rfl (task_returns (o := 0) rfl), rfl⟩ (.nil _)))))⟩, by decide⟩

end TCPServer
