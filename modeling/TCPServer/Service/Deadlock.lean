/-
  No thread waits for itself, directly or through others.

  A thread waits for the owner of the mutex it is about to lock, for the receive thread it
  joins, or, in `close()`, for the remover thread. The remover and `close()` join receive
  threads while they have `_clientsMtx`, and a receive thread waits for `_subscribersMtx`;
  `Service.rank` orders these: `_subscribersMtx` below the join of a receive thread, below
  `_clientsMtx`, below the join of the remover. Waiting goes down in it (`rank_lt`).
-/
import TCPServer.Service.Mutexes

namespace TCPServer

open Locks Relation

/-- The thread is about to lock `_clientsMtx`. -/
def Service.WantsClients (s : Service) : ThreadId → Prop
  | .acceptor => ∃ o, s.acceptor = .started o
  | .remover => s.remover = .locking
  | .task _ => False
  | .closer => s.closer = .locking
  | .caller n => ∃ c, s.callers n = .locking c ∧ c.locksClients = true

/-- The thread is about to lock `_subscribersMtx`. -/
def Service.WantsSubscribers (s : Service) : ThreadId → Prop
  | .task o => (∃ msg, s.tasks o = .publishMsg msg) ∨ s.tasks o = .publishDisconnected
  | .caller n => ∃ c, s.callers n = .locking c ∧ c.locksClients = false
  | _ => False

/-- The thread joins the receive thread of the client. -/
def Service.Joins (s : Service) : ThreadId → ClientPtr → Prop
  | .remover, o => ∃ i, s.remover = .joining i ∧ s.server.clients[i]? = some o
  | .closer, o => ∃ i, s.closer = .joining i ∧ s.server.clients[i]? = some o
  | _, _ => False

/-- One thread waits for another. -/
inductive Service.WaitsFor (s : Service) : ThreadId → ThreadId → Prop
  | clientsMtx {t u : ThreadId} : s.WantsClients t → s.clientsMtx = some u → s.WaitsFor t u
  | subscribersMtx {t u : ThreadId} :
      s.WantsSubscribers t → s.subscribersMtx = some u → s.WaitsFor t u
  | task {t : ThreadId} {o : ClientPtr} :
      s.Joins t o → s.tasks o ≠ .finished → s.WaitsFor t (.task o)
  | remover : s.closer = .joiningRemover → s.remover ≠ .ended → s.WaitsFor .closer .remover

/-! ## The order -/

def TaskPc.rank : TaskPc → ℕ
  | .publishMsg _ => 1
  | .publishDisconnected => 1
  | _ => 0

def SweepPc.rank : SweepPc → ℕ
  | .joining _ => 2
  | .locking => 3
  | _ => 0

def ClosePc.rank : ClosePc → ℕ
  | .joining _ => 2
  | .locking => 3
  | .joiningRemover => 4
  | _ => 0

def AcceptorPc.rank : AcceptorPc → ℕ
  | .started _ => 3
  | _ => 0

def CallPc.rank : CallPc → ℕ
  | .locking c => if c.locksClients then 3 else 1
  | _ => 0

/-- How high the thing is that a thread waits for; 0 if it waits for nothing. -/
def Service.rank (s : Service) : ThreadId → ℕ
  | .acceptor => s.acceptor.rank
  | .remover => s.remover.rank
  | .task o => (s.tasks o).rank
  | .closer => s.closer.rank
  | .caller n => (s.callers n).rank

section Rank

variable {s : Service} {t u : ThreadId} {o : ClientPtr}

theorem rank_of_wantsClients (h : s.WantsClients t) : s.rank t = 3 := by
  cases t with
  | acceptor =>
    obtain ⟨o, hpc⟩ := h
    simp only [Service.rank, hpc, AcceptorPc.rank]
  | remover =>
    have hpc : s.remover = .locking := h
    simp only [Service.rank, hpc, SweepPc.rank]
  | task o => exact h.elim
  | closer =>
    have hpc : s.closer = .locking := h
    simp only [Service.rank, hpc, ClosePc.rank]
  | caller n =>
    obtain ⟨c, hpc, hc⟩ := h
    simp only [Service.rank, hpc, CallPc.rank, hc, if_true]

theorem rank_of_wantsSubscribers (h : s.WantsSubscribers t) : s.rank t = 1 := by
  cases t with
  | task o =>
    rcases h with ⟨msg, hpc⟩ | hpc <;> simp only [Service.rank, hpc, TaskPc.rank]
  | caller n =>
    obtain ⟨c, hpc, hc⟩ := h
    simp only [Service.rank, hpc, CallPc.rank, hc, Bool.false_eq_true, if_false]
  | _ => exact h.elim

theorem rank_of_joins (h : s.Joins t o) : s.rank t = 2 := by
  cases t with
  | remover =>
    obtain ⟨i, hpc, -⟩ := h
    simp only [Service.rank, hpc, SweepPc.rank]
  | closer =>
    obtain ⟨i, hpc, -⟩ := h
    simp only [Service.rank, hpc, ClosePc.rank]
  | _ => exact h.elim

theorem rank_task_le (s : Service) (o : ClientPtr) : s.rank (.task o) ≤ 1 := by
  show (s.tasks o).rank ≤ 1
  cases s.tasks o <;> simp [TaskPc.rank]

theorem rank_remover_le (s : Service) : s.rank .remover ≤ 3 := by
  show s.remover.rank ≤ 3
  cases s.remover <;> simp [SweepPc.rank]

/-- The owner of `_clientsMtx` may join a receive thread, and waits for no mutex. -/
theorem rank_of_holdsClients (h : s.HoldsClients t) : s.rank t ≤ 2 := by
  cases t with
  | acceptor =>
    have hin : s.acceptor.holds = true := h
    show s.acceptor.rank ≤ 2
    cases hpc : s.acceptor <;> simp_all [AcceptorPc.rank, AcceptorPc.holds]
  | remover =>
    have hin : s.remover.holds = true := h
    show s.remover.rank ≤ 2
    cases hpc : s.remover <;> simp_all [SweepPc.rank, SweepPc.holds]
  | task o => exact h.elim
  | closer =>
    have hin : s.closer.holds = true := h
    show s.closer.rank ≤ 2
    cases hpc : s.closer <;> simp_all [ClosePc.rank, ClosePc.holds]
  | caller n =>
    have hin : (s.callers n).holdsClients = true := h
    show (s.callers n).rank ≤ 2
    cases hpc : s.callers n <;> simp_all [CallPc.rank, CallPc.holdsClients]

/-- The owner of `_subscribersMtx` waits for nothing. -/
theorem rank_of_holdsSubscribers (h : s.HoldsSubscribers t) : s.rank t = 0 := by
  cases t with
  | task o =>
    have hin : (s.tasks o).holds = true := h
    show (s.tasks o).rank = 0
    cases hpc : s.tasks o <;> simp_all [TaskPc.rank, TaskPc.holds]
  | caller n =>
    have hin : (s.callers n).holdsSubscribers = true := h
    show (s.callers n).rank = 0
    cases hpc : s.callers n <;> simp_all [CallPc.rank, CallPc.holdsSubscribers]
  | _ => exact h.elim

/-- Waiting goes down in the order. -/
theorem rank_lt (hs : s.Locked) (h : s.WaitsFor t u) : s.rank u < s.rank t := by
  cases h with
  | clientsMtx hwants hmtx =>
    have hu := rank_of_holdsClients ((hs.clients u).mpr hmtx)
    have ht := rank_of_wantsClients hwants
    omega
  | subscribersMtx hwants hmtx =>
    have hu := rank_of_holdsSubscribers ((hs.subscribers u).mpr hmtx)
    have ht := rank_of_wantsSubscribers hwants
    omega
  | @task _ o hjoins _ =>
    have hu := rank_task_le s o
    have ht := rank_of_joins hjoins
    omega
  | remover hpc _ =>
    have hu := rank_remover_le s
    have ht : s.rank .closer = 4 := by simp only [Service.rank, hpc, ClosePc.rank]
    omega

end Rank

/-- In every state that the threads can reach, with any number of clients and callers, no
    thread waits for itself, directly or through other threads. -/
theorem waitsFor_acyclic {s : Service} (h : s.Reachable) (t : ThreadId) :
    ¬ TransGen s.WaitsFor t t := by
  have hrank : ∀ t u, s.WaitsFor t u → s.rank u < s.rank t := fun _ _ hw =>
    rank_lt (reachable_locked h) hw
  exact not_transGen_self hrank t

/-- From every thread, waiting leads in the end to one that waits for nobody. -/
theorem waitsFor_ends {s : Service} (h : s.Reachable) (t : ThreadId) :
    ∃ u, ReflTransGen s.WaitsFor t u ∧ ∀ v, ¬ s.WaitsFor u v :=
  exists_not_waiting (fun _ _ hw => rank_lt (reachable_locked h) hw) t

/-- `close()` waits for the remover, which joins the thread of a disconnected client, which
    waits for a thread in `subscribe`; and there is no cycle. -/
theorem waitsFor_acyclic_chain :
    ∃ s : Service, s.WaitsFor .closer .remover ∧ s.WaitsFor .remover (.task 0) ∧
      s.WaitsFor (.task 0) (.caller 0) ∧ ¬ TransGen s.WaitsFor .closer .closer := by
  let c : Call := .subscribe ⟨"", true, true⟩
  obtain ⟨s, hrun, hcloser, hremover, hclients, htask, hmtx⟩ :
      ∃ s, Runs.Reaches Service.Step (Service.init 3 true) s ∧ s.closer = .joiningRemover ∧
        s.remover = .joining 0 ∧ s.server.clients = [0] ∧ s.tasks 0 = .publishDisconnected ∧
        s.subscribersMtx = some (.caller 0) := by
    refine ⟨_, ⟨_, .cons (.world rfl (.connects 4 "10.0.0.2" rfl)) (.cons (.acceptor rfl
      (.locks rfl rfl)) (.cons (.acceptor rfl (.pushes rfl)) (.cons (.acceptor rfl (.counts rfl))
      (.cons (.acceptor rfl (.unlocks rfl)) (.cons (.world rfl (.peerCloses 0)) (.cons
      (.task rfl (.goesOn (o := 0) rfl rfl)) (.cons (.task rfl (.findsEnd (o := 0) rfl rfl rfl))
      (.cons (.task rfl (.clears (o := 0) rfl)) (.cons (.world rfl (.calls (n := 0) c rfl))
      (.cons (.caller rfl (.locksSubscribers (n := 0) (c := c) rfl rfl rfl)) (.cons
      (.remover rfl (.goesOn rfl rfl)) (.cons (.remover rfl (.locks rfl rfl)) (.cons
      (.remover rfl (.finds (i := 0) (o := 0) rfl rfl rfl)) (.cons
      (.world rfl (.closes (.inl rfl))) (.cons (.closer rfl (.stops rfl rfl))
      (.nil _))))))))))))))))⟩, rfl, rfl, rfl, rfl, rfl⟩
  refine ⟨s, .remover hcloser (by rw [hremover]; nofun), ?_, ?_,
    waitsFor_acyclic ⟨3, true, hrun⟩ .closer⟩
  · exact .task ⟨0, hremover, by rw [hclients]; rfl⟩ (by rw [htask]; nofun)
  · exact .subscribersMtx (.inr htask) hmtx

end TCPServer
