/-
  How many remover threads run, over any calls of `start` and `close()`.

  While a server runs there should be one remover thread in its loop, and none after a failed
  start or a successful `close()` (`expected`). It is so exactly if `start` is called once at
  most and succeeds (`removers_expected_iff`): the thread is started before the socket is set
  up and is not stopped when that fails; a second `start` overwrites the pointer to the first
  thread; and the stop flag is never cleared, so a thread started after a `close()` leaves its
  loop at once.
-/
import Mathlib.Order.Interval.Set.Infinite
import TCPServer.Lifecycle

namespace TCPServer

open Handles Runs

/-! ## What is expected -/

/-- Whether the server runs, and how many remover threads there should be, if that is said. -/
def ServerCall.next : Bool × Option ℕ → ServerCall → Bool × Option ℕ
  | _, .start _ true => (true, some 1)
  | (true, n), .start _ false => (true, n)
  | (false, _), .start _ false => (false, some 0)
  | _, .close true => (false, some 0)
  | _, .close false => (false, none)

/-- After the calls listed. -/
def expectation (calls : List ServerCall) : Bool × Option ℕ :=
  calls.foldl ServerCall.next (false, none)

def TcpServer.RemoversExpected (s : TcpServer) : Prop :=
  ∀ n, (expectation s.history).2 = some n → s.removers.count true = n

def ServerCall.isStart : ServerCall → Bool
  | .start _ _ => true
  | .close _ => false

/-- The call is not `start` without a remover thread. -/
def ServerCall.automatic : ServerCall → Bool
  | .start removeDeadClientsAutomatically _ => removeDeadClientsAutomatically
  | .close _ => true

/-- `start` is called once at most, and succeeds. -/
def StartsOnce (calls : List ServerCall) : Prop :=
  calls.filter ServerCall.isStart = [] ∨ calls.filter ServerCall.isStart = [.start true true]

theorem expectation_append (calls : List ServerCall) (call : ServerCall) :
    expectation (calls ++ [call]) = ServerCall.next (expectation calls) call := by
  unfold expectation
  rw [List.foldl_append]
  rfl

theorem filter_start_append (calls : List ServerCall) (call : ServerCall) :
    (calls ++ [call]).filter ServerCall.isStart =
      calls.filter ServerCall.isStart ++ bif call.isStart then [call] else [] := by
  rw [List.filter_append, List.filter_singleton]

/-- The server does not run, and there should be no remover thread, if anything is said. -/
def Stopped (calls : List ServerCall) : Prop :=
  (expectation calls).1 = false ∧ ∀ n, (expectation calls).2 = some n → n = 0

theorem stopped_nil : Stopped [] := ⟨rfl, nofun⟩

theorem stopped_close (calls : List ServerCall) (successFlag : Bool) :
    Stopped (calls ++ [.close successFlag]) := by
  unfold Stopped
  rw [expectation_append]
  cases successFlag with
  | true => exact ⟨rfl, fun n hn => (Option.some.inj hn).symm⟩
  | false => exact ⟨rfl, nofun⟩

/-! ## With one start at most -/

/-- The remover threads, by the calls so far. -/
structure TcpServer.Removers (s : TcpServer) : Prop where
  unstarted : s.history.filter ServerCall.isStart = [] →
    s.removers = [] ∧ s.clientsRemoverThread = none ∧ s.stop = false ∧ Stopped s.history
  startedOnce : s.history.filter ServerCall.isStart = [.start true true] →
    (s.removers = [true] ∧ s.clientsRemoverThread = some 0 ∧ s.stop = false ∧
        expectation s.history = (true, some 1)) ∨
      s.removers = [false] ∧ s.clientsRemoverThread = none ∧ s.stop = true ∧
        Stopped s.history

section Removers

variable {s s' : TcpServer} {l : TcpServer.Label}

theorem start_sameRemovers (s : TcpServer) (removeDeadClientsAutomatically : Bool)
    (setUp : SetUp) :
    (if removeDeadClientsAutomatically then s.startRemover else s).SameRemovers
      (s.start removeDeadClientsAutomatically setUp).2 := by
  unfold TcpServer.start
  cases setUp <;> exact ⟨rfl, rfl, rfl⟩

theorem init_removers : TcpServer.init.Removers :=
  ⟨fun _ => ⟨rfl, rfl, rfl, stopped_nil⟩, nofun⟩

/-- A step that neither starts nor stops remover threads. -/
theorem TcpServer.Removers.same (hs : s.Removers) (hsame : s.SameRemovers s')
    (hhistory : s'.history = s.history) : s'.Removers := by
  constructor
  · rw [hhistory, hsame.removers, hsame.thread, hsame.stop]
    exact hs.unstarted
  · rw [hhistory, hsame.removers, hsame.thread, hsame.stop]
    exact hs.startedOnce

theorem TcpServer.Removers.start (hs : s.Removers) {a : Bool} {successFlag : Bool}
    (hsame : (if a then s.startRemover else s).SameRemovers s')
    (hhistory : s'.history = s.history ++ [.start a successFlag]) : s'.Removers := by
  have hfilter : s'.history.filter ServerCall.isStart =
      s.history.filter ServerCall.isStart ++ [.start a successFlag] := by
    rw [hhistory, filter_start_append]
    rfl
  constructor
  · intro hnil
    rw [hfilter] at hnil
    exact absurd hnil (List.append_ne_nil_of_right_ne_nil _ nofun)
  · intro hone
    rw [hfilter] at hone
    obtain ⟨hnil, hlast⟩ := List.append_inj' (hone.trans (List.nil_append _).symm) rfl
    cases hlast
    obtain ⟨hremovers, -, hstop, -⟩ := hs.unstarted hnil
    refine .inl ⟨?_, ?_, hsame.stop.trans hstop, ?_⟩
    · rw [hsame.removers]
      show s.removers ++ [true] = [true]
      rw [hremovers]
      rfl
    · rw [hsame.thread]
      show some s.removers.length = some 0
      rw [hremovers]
      rfl
    · rw [hhistory, expectation_append]
      rfl

theorem TcpServer.Removers.close (hs : s.Removers) {successFlag : Bool}
    (hsame : s.terminateDeadClientsRemover.SameRemovers s')
    (hhistory : s'.history = s.history ++ [.close successFlag]) : s'.Removers := by
  have hfilter : s'.history.filter ServerCall.isStart =
      s.history.filter ServerCall.isStart := by
    rw [hhistory, filter_start_append]
    exact List.append_nil _
  have hstopped : Stopped s'.history := by
    rw [hhistory]
    exact stopped_close _ _
  have hnull : s.clientsRemoverThread = none → s.terminateDeadClientsRemover = s := by
    intro hthread
    unfold TcpServer.terminateDeadClientsRemover
    rw [hthread]
  constructor
  · intro hnil
    obtain ⟨hremovers, hthread, hstop, -⟩ := hs.unstarted (hfilter.symm.trans hnil)
    rw [hnull hthread] at hsame
    exact ⟨hsame.removers.trans hremovers, hsame.thread.trans hthread, hsame.stop.trans hstop,
      hstopped⟩
  · intro hone
    right
    rcases hs.startedOnce (hfilter.symm.trans hone) with
      ⟨hremovers, hthread, -, -⟩ | ⟨hremovers, hthread, hstop, -⟩
    · have hterminate : s.terminateDeadClientsRemover =
          { s with stop := true, removers := [false], clientsRemoverThread := none } := by
        unfold TcpServer.terminateDeadClientsRemover
        rw [hthread, hremovers]
        rfl
      rw [hterminate] at hsame
      exact ⟨hsame.removers, hsame.thread, hsame.stop, hstopped⟩
    · rw [hnull hthread] at hsame
      exact ⟨hsame.removers.trans hremovers, hsame.thread.trans hthread, hsame.stop.trans hstop,
        hstopped⟩

theorem removers_step (hs : s.Removers) (h : s.Step l s') (honce : StartsOnce s.history) :
    s'.Removers := by
  obtain ⟨-, h⟩ := h
  cases h with
  | start a setUp _ =>
    have hsame := start_sameRemovers s a setUp
    exact hs.start ⟨hsame.removers, hsame.thread, hsame.stop⟩ rfl
  | acceptClient fd ip _ _ => exact hs.same ⟨rfl, rfl, rfl⟩ rfl
  | disconnect client => exact hs.same ⟨rfl, rfl, rfl⟩ rfl
  | removes r _ _ _ _ => exact hs.same ⟨rfl, rfl, rfl⟩ rfl
  | throws r _ _ _ _ => exact hs.same ⟨rfl, rfl, rfl⟩ rfl
  | leaves t hrunning hstop =>
    rcases honce with hnil | hone
    · rw [(hs.unstarted hnil).1] at hrunning
      cases hrunning
    · rcases hs.startedOnce hone with ⟨-, -, hgoing, -⟩ | ⟨hremovers, -, -, -⟩
      · exact absurd (hstop.symm.trans hgoing) nofun
      · rw [hremovers] at hrunning
        cases t with
        | zero => cases hrunning
        | succ t => cases hrunning
  | close results r hclose =>
    have hsame := close_sameRemovers hclose
    exact hs.close ⟨hsame.removers, hsame.thread, hsame.stop⟩ rfl
  | destroy results r hclose =>
    have hsame := close_sameRemovers hclose
    exact hs.close ⟨hsame.removers, hsame.thread, hsame.stop⟩ rfl

theorem history_step (h : s.Step l s') : s.history <+: s'.history := by
  obtain ⟨-, h⟩ := h
  cases h with
  | start a setUp _ => exact List.prefix_append _ _
  | close _ _ _ => exact List.prefix_append _ _
  | destroy _ _ _ => exact List.prefix_append _ _
  | _ => exact List.prefix_refl _

theorem StartsOnce.of_prefix {calls calls' : List ServerCall} (h : StartsOnce calls')
    (hfront : calls <+: calls') : StartsOnce calls := by
  have hfilter := hfront.filter ServerCall.isStart
  rcases h with hnil | hone
  · rw [hnil] at hfilter
    exact .inl (List.prefix_nil.mp hfilter)
  · rw [hone] at hfilter
    rcases List.prefix_cons_iff.mp hfilter with hnil | ⟨calls'', hcons, hnil⟩
    · exact .inl hnil
    · rw [List.prefix_nil.mp hnil] at hcons
      exact .inr hcons

theorem removers_of_reachable (h : s.Reachable) (honce : StartsOnce s.history) :
    s.Removers := by
  obtain ⟨ls, hrun⟩ := h
  exact hrun.invariant (I := fun s => StartsOnce s.history → s.Removers)
    (fun s l s' hs h honce =>
      removers_step (hs (honce.of_prefix (history_step h))) h (honce.of_prefix (history_step h)))
    (fun _ => init_removers) honce

theorem expected_of_removers (hs : s.Removers) (honce : StartsOnce s.history) :
    s.RemoversExpected := by
  intro n hn
  rcases honce with hnil | hone
  · obtain ⟨hremovers, -, -, hstopped⟩ := hs.unstarted hnil
    rw [hremovers, hstopped.2 n hn]
    rfl
  · rcases hs.startedOnce hone with ⟨hremovers, -, -, hexpected⟩ | ⟨hremovers, -, -, hstopped⟩
    · rw [hexpected] at hn
      cases hn
      rw [hremovers]
      rfl
    · rw [hremovers, hstopped.2 n hn]
      rfl

end Removers

/-! ## Any calls can be made -/

/-- The server is there and has no clients. -/
structure TcpServer.Empty (s : TcpServer) : Prop where
  reachable : s.Reachable
  gone : s.gone = false
  clients : s.server.clients = []

section Calls

variable {s : TcpServer}

theorem exists_fresh (s : TcpServer) : ∃ fd, s.Fresh fd := by
  obtain ⟨fd, hfd, hnot⟩ := exists_not_held (Set.Ici_infinite (0 : ℤ)) s.descriptors
  exact ⟨fd, hfd, hnot⟩

/-- `start` with a remover thread can succeed and can fail. -/
theorem empty_start (hs : s.Empty) (successFlag : Bool) :
    ∃ s' : TcpServer, s'.Empty ∧ s'.history = s.history ++ [.start true successFlag] ∧
      s'.removers = s.removers ++ [true] ∧ s'.stop = s.stop := by
  obtain ⟨setUp, hflag, hfd⟩ : ∃ setUp : SetUp, setUp.error.isNone = successFlag ∧
      ∀ fd, setUp.fileDescriptor = some fd → s.Fresh fd := by
    cases successFlag with
    | false => exact ⟨.socketFailed "", rfl, nofun⟩
    | true =>
      obtain ⟨fd, hfresh⟩ := exists_fresh s
      refine ⟨.listens fd, rfl, fun fd' h => ?_⟩
      cases h
      exact hfresh
  have hstep : s.Step (.start true setUp) _ := ⟨hs.gone, .start true setUp hfd⟩
  refine ⟨_, ⟨hs.reachable.trans (.of_step hstep), ?_, ?_⟩, ?_, ?_, ?_⟩
  · cases setUp <;> exact hs.gone
  · cases setUp <;> exact hs.clients
  · subst hflag
    cases setUp <;> rfl
  · cases setUp <;> rfl
  · cases setUp <;> rfl

/-- `close()` can succeed and can fail. -/
theorem empty_close (hs : s.Empty) (successFlag : Bool) :
    ∃ s' : TcpServer, s'.Empty ∧ s'.history = s.history ++ [.close successFlag] := by
  obtain ⟨thread, stop, removers, hterminate⟩ := terminate_effect s
  have hclients : s.terminateDeadClientsRemover.server.clients = [] := by
    rw [hterminate]
    exact hs.clients
  have hover : s.terminateDeadClientsRemover.gone = false := by
    rw [hterminate]
    exact hs.gone
  set r : CloseResult := if successFlag then ⟨0, ""⟩ else ⟨-1, ""⟩ with hr
  have hclose : s.close (fun _ => r) r = .ok (TcpServer.closeSocket
      { s.terminateDeadClientsRemover with
        server := { s.terminateDeadClientsRemover.server with clients := [] } } r) := by
    unfold TcpServer.close
    dsimp only
    rw [hclients]
    rfl
  have hstep : s.Step (.close (fun _ => r) r) _ := ⟨hs.gone, .close _ r hclose⟩
  refine ⟨_, ⟨hs.reachable.trans (.of_step hstep), ?_, ?_⟩, ?_⟩
  · cases successFlag <;> exact hover
  · cases successFlag <;> rfl
  · cases successFlag <;> rfl

theorem init_empty : TcpServer.init.Empty := ⟨.refl _, rfl, rfl⟩

theorem exists_empty (calls : List ServerCall) (hcalls : ∀ call ∈ calls, call.automatic = true) :
    ∃ s : TcpServer, s.Empty ∧ s.history = calls := by
  induction calls using List.reverseRecOn with
  | nil => exact ⟨.init, init_empty, rfl⟩
  | append_singleton calls call ih =>
    obtain ⟨s, hs, hhistory⟩ := ih fun c hc => hcalls c (List.mem_append_left _ hc)
    have hcall := hcalls call (List.mem_append_right _ (List.mem_singleton_self _))
    cases call with
    | start a successFlag =>
      cases a with
      | false => cases hcall
      | true =>
        obtain ⟨s', hs', hhistory', -⟩ := empty_start hs successFlag
        exact ⟨s', hs', by rw [hhistory', hhistory]⟩
    | close successFlag =>
      obtain ⟨s', hs', hhistory'⟩ := empty_close hs successFlag
      exact ⟨s', hs', by rw [hhistory', hhistory]⟩

end Calls

/-! ## A second start, or a failed one -/

section Broken

variable {s s' : TcpServer} {successFlag : Bool}

/-- On a stopped server the thread of a failed start keeps running. -/
theorem not_expected_failed (hstopped : Stopped s.history) (hremovers : s.removers.count true = 0)
    (hhistory : s'.history = s.history ++ [.start true false])
    (hremovers' : s'.removers = s.removers ++ [true]) : ¬ s'.RemoversExpected := by
  intro hexpected
  have hnext : (expectation s'.history).2 = some 0 := by
    rw [hhistory, expectation_append, ← Prod.eta (expectation s.history), hstopped.1]
    rfl
  have hcount := hexpected 0 hnext
  rw [hremovers', List.count_append, hremovers] at hcount
  cases hcount

/-- On a running server a second start leaves two threads. -/
theorem not_expected_running (hrunning : expectation s.history = (true, some 1))
    (hremovers : s.removers = [true])
    (hhistory : s'.history = s.history ++ [.start true successFlag])
    (hremovers' : s'.removers = s.removers ++ [true]) : ¬ s'.RemoversExpected := by
  intro hexpected
  have hnext : (expectation s'.history).2 = some 1 := by
    rw [hhistory, expectation_append, hrunning]
    cases successFlag <;> rfl
  have hcount := hexpected 1 hnext
  rw [hremovers', hremovers] at hcount
  cases hcount

/-- After a `close()` the new thread leaves its loop. -/
theorem not_expected_restarted (hs' : s'.Empty) (hremovers : s.removers = [false])
    (hhistory : s'.history = s.history ++ [.start true true])
    (hremovers' : s'.removers = s.removers ++ [true]) (hstop : s'.stop = true) :
    ∃ s'' : TcpServer, s''.Reachable ∧ s''.history = s'.history ∧ ¬ s''.RemoversExpected := by
  rw [hremovers] at hremovers'
  have hstep : s'.Step (.leave 1) { s' with removers := s'.removers.set 1 false } :=
    ⟨hs'.gone, .leaves 1 (by rw [hremovers']; rfl) hstop⟩
  refine ⟨_, hs'.reachable.trans (.of_step hstep), rfl, fun hexpected => ?_⟩
  have hnext : (expectation s'.history).2 = some 1 := by
    rw [hhistory, expectation_append]
    rfl
  have hcount := hexpected 1 hnext
  rw [show TcpServer.removers _ = [false, false] by
    show s'.removers.set 1 false = _
    rw [hremovers']
    rfl] at hcount
  cases hcount

end Broken

theorem startsOnce_of_expected (calls : List ServerCall)
    (hcalls : ∀ call ∈ calls, call.automatic = true)
    (h : ∀ s : TcpServer, s.Reachable → s.history <+: calls → s.RemoversExpected) :
    StartsOnce calls := by
  induction calls using List.reverseRecOn with
  | nil => exact .inl rfl
  | append_singleton calls call ih =>
    have hbefore : ∀ c ∈ calls, c.automatic = true := fun c hc =>
      hcalls c (List.mem_append_left _ hc)
    have honce := ih hbefore fun s hs hfront => h s hs (hfront.trans (List.prefix_append _ _))
    have hfilter := filter_start_append calls call
    cases call with
    | close successFlag =>
      unfold StartsOnce
      rw [hfilter.trans (List.append_nil _)]
      exact honce
    | start a successFlag =>
      have hcall := hcalls _ (List.mem_append_right _ (List.mem_singleton_self _))
      cases a with
      | false => cases hcall
      | true =>
        obtain ⟨s, hs, hhistory⟩ := exists_empty calls hbefore
        obtain ⟨s', hs', hhistory', hremovers', hstop'⟩ := empty_start hs successFlag
        rw [← hhistory] at honce hfilter h ⊢
        have hremovers := removers_of_reachable hs.reachable honce
        have hlast : s'.RemoversExpected :=
          h s' hs'.reachable (by rw [hhistory'])
        rcases honce with hnil | hone
        · obtain ⟨hnone, -, -, hstopped⟩ := hremovers.unstarted hnil
          cases successFlag with
          | false =>
            exact absurd hlast (not_expected_failed hstopped (by rw [hnone]; rfl) hhistory'
              hremovers')
          | true =>
            rw [hnil] at hfilter
            exact .inr hfilter
        · rcases hremovers.startedOnce hone with
            ⟨hrunning, -, -, hexpected⟩ | ⟨hended, -, hstop, hstopped⟩
          · exact absurd hlast (not_expected_running hexpected hrunning hhistory' hremovers')
          · cases successFlag with
            | false =>
              exact absurd hlast (not_expected_failed hstopped (by rw [hended]; rfl) hhistory'
                hremovers')
            | true =>
              obtain ⟨s'', hreach, hsame, hnot⟩ :=
                not_expected_restarted hs' hended hhistory' hremovers' (hstop'.trans hstop)
              exact absurd (h s'' hreach (by rw [hsame, hhistory'])) hnot

/-- For every sequence of calls of `start`, with a remover thread, and of `close()`: in all
    runs that have made these calls or the first of them, the remover threads in their loops are
    as many as expected, if and only if `start` is called once at most and succeeds. -/
theorem removers_expected_iff (calls : List ServerCall)
    (hcalls : ∀ call ∈ calls, call.automatic = true) :
    (∀ s : TcpServer, s.Reachable → s.history <+: calls → s.RemoversExpected) ↔
      StartsOnce calls := by
  refine ⟨startsOnce_of_expected calls hcalls, fun honce s hs hfront => ?_⟩
  have honce' := honce.of_prefix hfront
  exact expected_of_removers (removers_of_reachable hs honce') honce'

/-- A server that is started and closed. -/
theorem removers_expected_start_close :
    ∃ s : TcpServer, s.Reachable ∧ s.history = [.start true true, .close true] ∧
      s.removers.count true = 0 := by
  obtain ⟨s, hreach, hhistory⟩ : ∃ s : TcpServer, s.Reachable ∧
      s.history = [.start true true, .close true] :=
    ⟨_, ⟨_, .cons ⟨rfl, .start true (.listens 3) (fresh_listens ⟨by decide, rfl⟩)⟩ (.cons
      ⟨rfl, .close (fun _ => ⟨0, ""⟩) ⟨0, ""⟩ rfl⟩ (.nil _))⟩, rfl⟩
  have hexpected := (removers_expected_iff [.start true true, .close true] (by decide)).mpr
    (.inr rfl) s hreach (by rw [hhistory])
  refine ⟨s, hreach, hhistory, hexpected 0 ?_⟩
  rw [hhistory]
  rfl

/-- After a `close()` the server is started again, and the new remover thread leaves its loop
    at the first test of the stop flag. -/
theorem no_remover_after_restart :
    ∃ s : TcpServer, s.Reachable ∧
      s.history = [.start true true, .close true, .start true true] ∧
      (expectation s.history).2 = some 1 ∧ s.removers.count true = 0 ∧
      ¬ s.RemoversExpected := by
  have hfresh : ∀ {s : TcpServer}, held s.descriptors 3 = false →
      ∀ fd, (SetUp.listens 3).fileDescriptor = some fd → s.Fresh fd := by
    rintro s hs fd ⟨⟩
    exact ⟨by decide, hs⟩
  obtain ⟨s, hreach, hhistory, hremovers⟩ : ∃ s : TcpServer, s.Reachable ∧
      s.history = [.start true true, .close true, .start true true] ∧
      s.removers = [false, false] :=
    ⟨_, ⟨_, .cons ⟨rfl, .start true (.listens 3) (hfresh rfl)⟩ (.cons
      ⟨rfl, .close (fun _ => ⟨0, ""⟩) ⟨0, ""⟩ rfl⟩ (.cons
      ⟨rfl, .start true (.listens 3) (hfresh rfl)⟩ (.cons
      ⟨rfl, .leaves 1 rfl rfl⟩ (.nil _))))⟩, rfl, rfl⟩
  have hexpected : (expectation s.history).2 = some 1 := by
    rw [hhistory]
    rfl
  have hcount : s.removers.count true = 0 := by
    rw [hremovers]
    rfl
  refine ⟨s, hreach, hhistory, hexpected, hcount, fun h => ?_⟩
  rw [h 1 hexpected] at hcount
  cases hcount

end TCPServer
