/-
  `numClientsConnected` and the clients that are connected.

  The accepting thread adds one after the receive thread of its client has started, and that
  thread takes one away after it has cleared the flag; removing a client from `_clients` and
  `close()` change nothing. So the counter and the one that `acceptClient` has still to add
  are together the number of receive threads that run (`Service.Counted`), in every reachable
  state. Where no such change is under way, the receive threads that run are those of the
  listed clients whose flag is set (`mem_connected_iff`).
-/
import TCPServer.Lib.Census
import TCPServer.Service.Closing

namespace TCPServer

open Census Runs

/-- The new client's thread was started and the client is not counted yet. -/
def AcceptorPc.uncounted : AcceptorPc → Bool
  | .started _ => true
  | .pushing _ => true
  | .counting => true
  | _ => false

/-- The flag of the client was cleared and the client is still counted. -/
def TaskPc.uncounted : TaskPc → Bool
  | .publishDisconnected => true
  | .notifying => true
  | .decrement => true
  | _ => false

/-- How many receive threads run. -/
def Service.running (s : Service) : ℕ :=
  census TaskPc.runs s.tasks s.server.objects.length

/-- What is counted and what `acceptClient` has still to count are the threads that run. -/
def Service.Counted (s : Service) : Prop :=
  s.server.numClientsConnected + s.acceptor.uncounted.toNat = s.running

/-- The listed clients that are connected. -/
def Service.connected (s : Service) : List ClientPtr :=
  s.server.clients.filter s.server.isConnected

theorem TaskPc.runs_eq (pc : TaskPc) : pc.runs = (pc.connected || pc.uncounted) := by
  cases pc <;> rfl

section Steps

variable {s s' : Service}

/-- A step that changes neither the counter nor which threads run. -/
theorem Service.Counted.keep (hs : s.Counted)
    (hnum : s'.server.numClientsConnected = s.server.numClientsConnected)
    (hacceptor : s'.acceptor.uncounted = s.acceptor.uncounted)
    (hobjects : s'.server.objects.length = s.server.objects.length)
    (htasks : ∀ o, (s'.tasks o).runs = (s.tasks o).runs) : s'.Counted := by
  unfold Service.Counted Service.running at hs ⊢
  rw [hnum, hacceptor, hobjects, hs, census_congr fun o _ => htasks o]

/-- A receive thread goes from one point to another. -/
theorem running_setTask (hl : s.Locked) {o : ClientPtr} (pc : TaskPc)
    (ho : (s.tasks o).runs = true) :
    (s.setTask o pc).running + 1 = s.running + pc.runs.toNat := by
  have hlt : o < s.server.objects.length := hl.lt fun hpc => by
    rw [hpc] at ho
    cases ho
  have hcount := census_update TaskPc.runs s.tasks hlt pc
  rw [ho] at hcount
  exact hcount

/-- A client connects, and its receive thread starts. -/
theorem Service.Counted.connect (hs : s.Counted)
    (hpc : s.acceptor = .accepting) (fileDescriptor : ℤ) (ip : String) :
    Service.Counted { s.setTask s.server.objects.length .check with
      server := s.server.newClient fileDescriptor ip
      acceptor := .started s.server.objects.length } := by
  have hlength : (s.server.newClient fileDescriptor ip).objects.length =
      s.server.objects.length + 1 := by
    rw [Server.newClient, List.length_append, List.length_singleton]
  have hold : census TaskPc.runs (s.setTask s.server.objects.length .check).tasks
      s.server.objects.length = s.running := by
    refine census_congr fun o ho => ?_
    rw [setTask_ne s (Nat.ne_of_lt ho)]
  unfold Service.Counted at hs ⊢
  rw [hpc] at hs
  unfold Service.running
  dsimp only
  rw [hlength, census_succ, hold, setTask_self]
  simp only [Server.newClient, AcceptorPc.uncounted, TaskPc.runs, Bool.toNat_true,
    Bool.toNat_false] at hs ⊢
  omega

theorem step_counted {l : Label} (hl : s.Locked) (hi : s.Inv) (hs : s.Counted)
    (h : s.Step l s') : s'.Counted := by
  cases h with
  | world _ h =>
    cases h with
    | connects fileDescriptor ip hpc => exact hs.connect hpc fileDescriptor ip
    | _ => exact hs
  | acceptor _ h =>
    cases h with
    | locks hpc _ => exact hs.keep rfl (by rw [hpc]; rfl) rfl fun _ => rfl
    | pushes hpc => exact hs.keep rfl (by rw [hpc]; rfl) rfl fun _ => rfl
    | counts hpc =>
      unfold Service.Counted at hs ⊢
      rw [hpc] at hs
      show s.server.numClientsConnected + 1 + (AcceptorPc.unlocking.uncounted.toNat : ℤ) =
        (s.running : ℤ)
      simp only [AcceptorPc.uncounted, Bool.toNat_true, Bool.toNat_false] at hs ⊢
      omega
    | unlocks hpc => exact hs.keep rfl (by rw [hpc]; rfl) rfl fun _ => rfl
  | remover _ h =>
    cases h with
    | deletes _ _ => exact hs.keep rfl rfl (length_setObject _ _ _) fun _ => rfl
    | _ => exact hs
  | @task o _ _ _ h =>
    have hmove : ∀ {pc : TaskPc} (pc' : TaskPc), s.tasks o = pc → pc'.runs = pc.runs →
        ∀ o', ((s.setTask o pc').tasks o').runs = (s.tasks o').runs :=
      fun pc' hpc hsame => update_apply_eq (by rw [hpc, hsame])
    cases h with
    | throws _ _ => exact hs
    | leaves hpc hflag =>
      rw [hi.flag, hpc] at hflag
      cases hflag
    | clears hpc => exact hs.keep rfl rfl (length_setObject _ _ _) (hmove _ hpc rfl)
    | counts hpc =>
      have hrunning := running_setTask hl .finished (by rw [hpc]; rfl)
      unfold Service.Counted at hs ⊢
      show s.server.numClientsConnected - 1 + (s.acceptor.uncounted.toNat : ℤ) =
        ((s.setTask o .finished).running : ℤ)
      simp only [TaskPc.runs, Bool.toNat_false] at hrunning
      omega
    | goesOn hpc _ => exact hs.keep rfl rfl rfl (hmove _ hpc rfl)
    | timesOut hpc _ _ => exact hs.keep rfl rfl rfl (hmove _ hpc rfl)
    | receives hpc _ => exact hs.keep rfl rfl rfl (hmove _ hpc rfl)
    | failsToReceive _ hpc => exact hs.keep rfl rfl rfl (hmove _ hpc rfl)
    | findsEnd hpc _ _ => exact hs.keep rfl rfl rfl (hmove _ hpc rfl)
    | locks hpc _ => exact hs.keep rfl rfl rfl (hmove _ hpc rfl)
    | returns hpc hsame _ =>
      exact hs.keep hsame.numClientsConnected rfl (length_objects_of_fixed hsame) (hmove _ hpc rfl)
    | handlerThrows _ _ _ => exact hs
    | locksLast hpc _ => exact hs.keep rfl rfl rfl (hmove _ hpc rfl)
    | notifies hpc => exact hs.keep rfl rfl rfl (hmove _ hpc rfl)
  | closer _ h => cases h <;> exact hs
  | caller _ h =>
    obtain ⟨_, _, _, _, _, _, rfl⟩ := caller_effect h
    exact hs
  | dangles _ _ _ => exact hs

end Steps

theorem reachable_counted {s : Service} (h : s.Reachable) : s.Counted := by
  obtain ⟨sockfd, automatic, ls, hrun⟩ := h
  have hlast : s.Good ∧ s.Counted := hrun.invariant (I := fun s => s.Good ∧ s.Counted)
    (fun _ _ _ hs h => ⟨hs.1.step h, step_counted hs.1.locked hs.1.inv hs.2 h⟩)
    ⟨reachable_good ⟨sockfd, automatic, [], .nil _⟩, rfl⟩
  exact hlast.2

/-- Where no client is being accepted and none is past clearing its flag, the threads that run
    are those of the connected clients in the list. -/
theorem mem_connected_iff {s : Service} (hs : s.Inv) (hacceptor : s.acceptor.uncounted = false)
    (htasks : ∀ o, (s.tasks o).uncounted = false) (o : ClientPtr) :
    o ∈ s.connected ↔ o < s.server.objects.length ∧ (s.tasks o).runs = true := by
  have hruns : (s.tasks o).runs = s.server.isConnected o := by
    rw [TaskPc.runs_eq, htasks o, Bool.or_false, hs.flag]
  have hnone : s.acceptor.newClient = none := by
    cases hpc : s.acceptor <;> simp_all [AcceptorPc.uncounted, AcceptorPc.newClient]
  unfold Service.connected
  rw [List.mem_filter, hruns]
  constructor
  · intro ho
    exact ⟨hs.lt o ho.1, ho.2⟩
  · intro ho
    have hlisted := hs.listed o (hruns.trans ho.2)
    rw [hnone] at hlisted
    exact ⟨hlisted.resolve_right (by simp), ho.2⟩

/-- In every state of every run of the service in which no `acceptClient` is between starting
    the thread of its client and counting it, and no receive thread between clearing its flag
    and its decrement, `numClientsConnected` is the number of listed clients that are
    connected. -/
theorem numClientsConnected_eq_connected {s : Service} (h : s.Reachable)
    (hacceptor : s.acceptor.uncounted = false) (htasks : ∀ o, (s.tasks o).uncounted = false) :
    s.server.numClientsConnected = s.connected.length := by
  have hi := h.inv.2
  have hcounted := reachable_counted h
  have hrunning : s.running = s.connected.length :=
    census_eq_length (hi.nodup.filter _) (mem_connected_iff hi hacceptor htasks)
  unfold Service.Counted at hcounted
  rw [hacceptor, Bool.toNat_false, hrunning] at hcounted
  simpa using hcounted

/-- The second client's peer closes before `acceptClient` has listed or counted it. -/
theorem numClientsConnected_died_unlisted :
    ∃ s : Service, s.server.clients = [0, 1] ∧ s.connected = [0] ∧
      s.server.numClientsConnected = 1 := by
  obtain ⟨s, hreach, hclients, hconnected, hacceptor, htasks⟩ :
      ∃ s : Service, s.Reachable ∧ s.server.clients = [0, 1] ∧ s.connected = [0] ∧
        s.acceptor.uncounted = false ∧ ∀ o, (s.tasks o).uncounted = false := by
    refine ⟨_, ⟨3, true, _, .cons (.world rfl (.connects 4 "10.0.0.2" rfl)) (.cons
      (.acceptor rfl (.locks rfl rfl)) (.cons (.acceptor rfl (.pushes rfl)) (.cons
      (.acceptor rfl (.counts rfl)) (.cons (.acceptor rfl (.unlocks rfl)) (.cons
      (.world rfl (.connects 5 "10.0.0.3" rfl)) (.cons (.world rfl (.peerCloses 1)) (.cons
      (.task rfl (.goesOn (o := 1) rfl rfl)) (.cons
      (.task rfl (.findsEnd (o := 1) rfl rfl rfl)) (.cons
      (.task rfl (.clears (o := 1) rfl)) (.cons (.task rfl (.locksLast (o := 1) rfl rfl)) (.cons
      (.task rfl (.notifies (o := 1) rfl)) (.cons (.task rfl (.counts (o := 1) rfl)) (.cons
      (.acceptor rfl (.locks rfl rfl)) (.cons (.acceptor rfl (.pushes rfl)) (.cons
      (.acceptor rfl (.counts rfl)) (.cons (.acceptor rfl (.unlocks rfl))
      (.nil _)))))))))))))))))⟩, rfl, rfl, rfl, fun o => ?_⟩
    by_cases hfirst : o = 0
    · subst hfirst
      rfl
    · by_cases hsecond : o = 1
      · subst hsecond
        rfl
      · simp [Service.setTask, Service.init, Server.init, Server.newClient, Function.update_of_ne,
          hfirst, hsecond, TaskPc.uncounted]
  refine ⟨s, hclients, hconnected, ?_⟩
  have hcount := numClientsConnected_eq_connected hreach hacceptor htasks
  rw [hconnected] at hcount
  exact hcount

end TCPServer
