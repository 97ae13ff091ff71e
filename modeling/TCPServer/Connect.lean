/-
  `TcpClient::connectTo` and the receive thread that it starts.

  The thread that calls `connectTo` on a new client and the thread of `receiveTask` share the
  flag `_isConnected`, which each access reads or writes at once. `connectTo` starts the
  receive thread first and sets the flag after that (`Client::startListen` does it the other
  way round), so the thread may find the flag unset and leave its loop.

  `ClientSide` is the client with what both threads are at, the bytes that have come in
  (`inbox`), all bytes the server has sent and all bytes published. A step is one access to what
  the threads share. `receive_thread_serves_iff` says which schedules lose the thread.

  Left out: `_subscribersMtx`, which nobody keeps; what `close()` does after clearing the flag.
-/
import TCPServer.TcpClient
import TCPServer.Cpp

namespace TCPServer

open Handles Runs

/-- Where `TcpClient::connectTo` is. -/
inductive ConnectPc where
  /-- `initializeSocket()` -/
  | initializing
  /-- `setAddress(address, port)` -/
  | resolving
  /-- `connect` -/
  | connecting
  /-- `startReceivingMessages()` -/
  | starting
  /-- `_isConnected = true` -/
  | storing
  /-- `_isClosed = false` -/
  | opening
  | returned (successFlag : Bool)
  deriving DecidableEq

/-- Where `TcpClient::receiveTask` is. -/
inductive ReceivePc where
  | notStarted
  /-- `while(_isConnected)` -/
  | check
  /-- In `waitFor` and `recv`. -/
  | waiting
  | publishing (msg : Bytes)
  | publishingDisconnected
  | ended
  /-- An exception has left it. -/
  | threw
  deriving DecidableEq

/-- The connection is there. -/
def ConnectPc.connected : ConnectPc → Bool
  | .starting => true
  | .storing => true
  | .opening => true
  | .returned true => true
  | _ => false

/-- The receive thread was started. -/
def ConnectPc.started : ConnectPc → Bool
  | .storing => true
  | .opening => true
  | .returned true => true
  | _ => false

/-- `_isConnected` was set. -/
def ConnectPc.stored : ConnectPc → Bool
  | .opening => true
  | .returned true => true
  | _ => false

theorem started_of_stored {pc : ConnectPc} (h : pc.stored = true) : pc.started = true := by
  cases pc with
  | opening => rfl
  | returned successFlag =>
    cases successFlag with
    | true => rfl
    | false => cases h
  | _ => cases h

/-- The receive thread has ended. -/
def ReceivePc.hasEnded : ReceivePc → Bool
  | .ended => true
  | .threw => true
  | _ => false

/-- The receive thread is in its loop. -/
def ReceivePc.loops : ReceivePc → Bool
  | .check => true
  | .waiting => true
  | .publishing _ => true
  | _ => false

/-- What was received and is not published yet. -/
def ReceivePc.inHand : ReceivePc → Bytes
  | .publishing msg => msg
  | _ => []

structure ClientSide where
  client : TcpClient
  connect : ConnectPc
  task : ReceivePc
  inbox : Bytes
  sent : Bytes
  published : Bytes

/-- `connectTo` is called on a new client. -/
def ClientSide.init : ClientSide where
  client := .init
  connect := .initializing
  task := .notStarted
  inbox := []
  sent := []
  published := []

inductive TaskEvent where
  | tests
  | timesOut
  | selectFails
  | receives
  | publishes
  | endOfStream
  | recvFails
  deriving DecidableEq

inductive ClientSide.Label where
  | connects
  | sends (msg : Bytes)
  | close
  | task (event : TaskEvent)
  deriving DecidableEq

/-- `connectTo`. -/
inductive ClientSide.ConnectStep (s : ClientSide) : ClientSide → Prop
  | socket (fd : ℤ) : s.connect = .initializing →
      0 ≤ fd ∧ held s.client.descriptors fd = false →
      s.ConnectStep { s with client := s.client.initializeSocket (some fd), connect := .resolving }
  | socketFails : s.connect = .initializing →
      s.ConnectStep { s with
        client := s.client.initializeSocket none, connect := .returned false }
  | resolves : s.connect = .resolving → s.ConnectStep { s with connect := .connecting }
  | doesNotResolve : s.connect = .resolving →
      s.ConnectStep { s with connect := .returned false }
  | connects : s.connect = .connecting → s.ConnectStep { s with connect := .starting }
  | isRefused : s.connect = .connecting → s.ConnectStep { s with connect := .returned false }
  | starts : s.connect = .starting →
      s.ConnectStep { s with
        client := s.client.startReceivingMessages, task := .check, connect := .storing }
  | stores : s.connect = .storing →
      s.ConnectStep { s with
        client := { s.client with isConnected := true }, connect := .opening }
  | opens : s.connect = .opening →
      s.ConnectStep { s with
        client := { s.client with isClosed := false }, connect := .returned true }

/-- `receiveTask`. -/
inductive ClientSide.TaskStep (s : ClientSide) : TaskEvent → ClientSide → Prop
  | goesOn : s.task = .check → s.client.isConnected = true →
      s.TaskStep .tests { s with task := .waiting }
  | leaves : s.task = .check → s.client.isConnected = false →
      s.TaskStep .tests { s with task := .ended }
  | timesOut : s.task = .waiting → s.inbox = [] → s.TaskStep .timesOut { s with task := .check }
  | throws : s.task = .waiting → s.TaskStep .selectFails { s with task := .threw }
  | receives (n : ℕ) : s.task = .waiting → 0 < n → n ≤ s.inbox.length → n ≤ MAX_PACKET_SIZE →
      s.TaskStep .receives { s with
        task := .publishing (s.inbox.take n), inbox := s.inbox.drop n }
  | publishes {msg : Bytes} : s.task = .publishing msg →
      s.TaskStep .publishes { s with task := .check, published := s.published ++ msg }
  | findsEnd : s.task = .waiting → s.inbox = [] →
      s.TaskStep .endOfStream { s with
        client := { s.client with isConnected := false }, task := .publishingDisconnected }
  | publishesLast : s.task = .publishingDisconnected →
      s.TaskStep .publishes { s with task := .ended }
  /-- The -1 of `recv` is not below 1 as a `size_t`. -/
  | failsToReceive (stale : Bytes) : s.task = .waiting →
      s.TaskStep .recvFails { s with task := .publishing stale }

inductive ClientSide.Step (s : ClientSide) : ClientSide.Label → ClientSide → Prop
  | connects {s' : ClientSide} : s.ConnectStep s' → s.Step .connects s'
  | task {event : TaskEvent} {s' : ClientSide} : s.TaskStep event s' → s.Step (.task event) s'
  | sends (msg : Bytes) : s.connect.connected = true →
      s.Step (.sends msg) { s with inbox := s.inbox ++ msg, sent := s.sent ++ msg }
  | close : s.client.isClosed = false →
      s.Step .close { s with client := { s.client with isConnected := false } }

/-! ## What is expected, and when -/

/-- `close()` is not called, and `recv` reports neither an end of stream nor an error. -/
def Undisturbed (_ : ClientSide) (l : ClientSide.Label) (_ : ClientSide) : Prop :=
  l ≠ .close ∧ l ≠ .task .endOfStream ∧ l ≠ .task .recvFails

abbrev ClientSide.CalmStep : ClientSide → ClientSide.Label → ClientSide → Prop :=
  Along ClientSide.Step Undisturbed

/-- The receive thread tests the flag only after `connectTo` has set it, and `select` does not
    fail. -/
def TestsAfterStore (s : ClientSide) (l : ClientSide.Label) (_ : ClientSide) : Prop :=
  (l = .task .tests → s.connect.stored = true) ∧ l ≠ .task .selectFails

/-- Steps of the receive thread at which nothing fails. -/
def TaskEvent.regular : TaskEvent → Bool
  | .tests => true
  | .timesOut => true
  | .receives => true
  | .publishes => true
  | _ => false

abbrev ClientSide.OwnStep : ClientSide → ClientSide.Label → ClientSide → Prop :=
  Along ClientSide.Step fun _ l _ => ∃ event : TaskEvent, event.regular = true ∧ l = .task event

/-- By its own steps the receive thread can publish all that the server has sent. -/
def ClientSide.Delivers (s : ClientSide) : Prop :=
  ∃ s', Reaches ClientSide.OwnStep s s' ∧ s'.published = s.sent

/-- The receive thread has not ended, and it can publish all that the server has sent. -/
def ClientSide.Serves (s : ClientSide) : Prop := s.task.hasEnded = false ∧ s.Delivers

/-! ## A thread that stays in its loop -/

/-- What holds as long as the flag is tested in time. -/
structure ClientSide.Inv (s : ClientSide) : Prop where
  sent : s.sent = s.published ++ (s.task.inHand ++ s.inbox)
  flag : s.client.isConnected = s.connect.stored
  before : s.connect.stored = false →
    s.task = if s.connect = .storing then .check else .notStarted
  after : s.connect.stored = true → s.task.loops = true

section Inv

variable {s s' : ClientSide} {l : ClientSide.Label}

theorem stored_of_loops (hs : s.Inv) (h : s.task ≠ .notStarted) (h' : s.task ≠ .check) :
    s.connect.stored = true := by
  by_contra hstored
  have hbefore := hs.before (Bool.eq_false_iff.mpr hstored)
  split at hbefore
  · exact h' hbefore
  · exact h hbefore

theorem inv_connect (hs : s.Inv) (h : s.ConnectStep s') : s'.Inv := by
  have hnot : ∀ {pc : ConnectPc}, s.connect = pc → pc.stored = false → pc ≠ .storing →
      s.task = .notStarted := by
    intro pc hpc hstored hne
    have hbefore := hs.before (by rw [hpc, hstored])
    rwa [hpc, if_neg hne] at hbefore
  have hflag : ∀ {pc : ConnectPc}, s.connect = pc → pc.stored = false →
      s.client.isConnected = false := fun hpc hstored =>
    hs.flag.trans (by rw [hpc, hstored])
  cases h with
  | socket fd hpc _ => exact ⟨hs.sent, hflag hpc rfl, fun _ => hnot hpc rfl nofun, nofun⟩
  | socketFails hpc => exact ⟨hs.sent, hflag hpc rfl, fun _ => hnot hpc rfl nofun, nofun⟩
  | resolves hpc => exact ⟨hs.sent, hflag hpc rfl, fun _ => hnot hpc rfl nofun, nofun⟩
  | doesNotResolve hpc => exact ⟨hs.sent, hflag hpc rfl, fun _ => hnot hpc rfl nofun, nofun⟩
  | connects hpc => exact ⟨hs.sent, hflag hpc rfl, fun _ => hnot hpc rfl nofun, nofun⟩
  | isRefused hpc => exact ⟨hs.sent, hflag hpc rfl, fun _ => hnot hpc rfl nofun, nofun⟩
  | starts hpc =>
    have hsent := hs.sent
    rw [hnot hpc rfl nofun] at hsent
    exact ⟨hsent, hflag hpc rfl, fun _ => rfl, nofun⟩
  | stores hpc =>
    have hcheck := hs.before (by rw [hpc]; rfl)
    rw [hpc, if_pos rfl] at hcheck
    exact ⟨hs.sent, rfl, nofun, fun _ => by rw [hcheck]; rfl⟩
  | opens hpc =>
    refine ⟨hs.sent, ?_, nofun, fun _ => hs.after (by rw [hpc]; rfl)⟩
    show s.client.isConnected = true
    rw [hs.flag, hpc]
    rfl

theorem inv_task {event : TaskEvent} (hs : s.Inv) (h : s.TaskStep event s')
    (hcalm : Undisturbed s (.task event) s') (hcond : TestsAfterStore s (.task event) s') :
    s'.Inv := by
  have hafter : ∀ {P : Prop}, s.connect.stored = true → s.connect.stored = false → P :=
    fun h h' => absurd (h.symm.trans h') nofun
  cases h with
  | goesOn hpc hflag =>
    have hstored := hcond.1 rfl
    have hsent := hs.sent
    rw [hpc] at hsent
    exact ⟨hsent, hs.flag, hafter hstored, fun _ => rfl⟩
  | leaves hpc hflag =>
    rw [hs.flag, hcond.1 rfl] at hflag
    cases hflag
  | timesOut hpc hinbox =>
    have hstored := stored_of_loops hs (by rw [hpc]; nofun) (by rw [hpc]; nofun)
    have hsent := hs.sent
    rw [hpc] at hsent
    exact ⟨hsent, hs.flag, hafter hstored, fun _ => rfl⟩
  | throws hpc => exact absurd rfl hcond.2
  | receives n hpc _ _ _ =>
    have hstored := stored_of_loops hs (by rw [hpc]; nofun) (by rw [hpc]; nofun)
    refine ⟨?_, hs.flag, hafter hstored, fun _ => rfl⟩
    show s.sent = s.published ++ (s.inbox.take n ++ s.inbox.drop n)
    rw [List.take_append_drop, hs.sent, hpc]
    rfl
  | @publishes msg hpc =>
    have hstored := stored_of_loops hs (by rw [hpc]; nofun) (by rw [hpc]; nofun)
    refine ⟨?_, hs.flag, hafter hstored, fun _ => rfl⟩
    show s.sent = s.published ++ msg ++ s.inbox
    rw [List.append_assoc, hs.sent, hpc]
    rfl
  | findsEnd _ _ => exact absurd rfl hcalm.2.1
  | publishesLast hpc =>
    have hstored := stored_of_loops hs (by rw [hpc]; nofun) (by rw [hpc]; nofun)
    have hloops := hs.after hstored
    rw [hpc] at hloops
    cases hloops
  | failsToReceive _ _ => exact absurd rfl hcalm.2.2

theorem inv_step (hs : s.Inv) (h : s.CalmStep l s') (hcond : TestsAfterStore s l s') :
    s'.Inv := by
  obtain ⟨h, hcalm⟩ := h
  cases h with
  | connects h => exact inv_connect hs h
  | task h => exact inv_task hs h hcalm hcond
  | sends msg _ =>
    refine ⟨?_, hs.flag, hs.before, hs.after⟩
    show s.sent ++ msg = s.published ++ (s.task.inHand ++ (s.inbox ++ msg))
    rw [hs.sent, List.append_assoc, List.append_assoc]
  | close _ => exact absurd rfl hcalm.1

theorem init_inv : ClientSide.init.Inv := ⟨rfl, rfl, fun _ => rfl, nofun⟩

/-! ### Everything sent can be published -/

/-- How much the receive thread still has to do. -/
def ClientSide.toDo (s : ClientSide) : ℕ :=
  3 * s.inbox.length + match s.task with
    | .publishing _ => 2
    | .check => 1
    | _ => 0

theorem own_task_step {event : TaskEvent} (h : s.TaskStep event s')
    (hregular : event.regular = true) : Reaches ClientSide.OwnStep s s' :=
  .of_step ⟨.task h, event, hregular, rfl⟩

/-- A receive thread in its loop has published everything, or has less to do after a step. -/
theorem serving_proceeds (hs : s.Inv) (hstored : s.connect.stored = true) :
    s.published = s.sent ∨ ∃ s', Reaches ClientSide.OwnStep s s' ∧
      (s'.Inv ∧ s'.connect.stored = true ∧ s'.sent = s.sent) ∧ s'.toDo < s.toDo := by
  have hmoves : ∀ {s' : ClientSide} {event : TaskEvent}, s.TaskStep event s' →
      event.regular = true → s'.connect = s.connect → s'.sent = s.sent → s'.toDo < s.toDo →
      ∃ s', Reaches ClientSide.OwnStep s s' ∧
        (s'.Inv ∧ s'.connect.stored = true ∧ s'.sent = s.sent) ∧ s'.toDo < s.toDo := by
    intro s' event h hregular hconnect hsent hlt
    refine ⟨s', own_task_step h hregular, ⟨inv_task hs h ?_ ?_, ?_, hsent⟩, hlt⟩
    · refine ⟨nofun, ?_, ?_⟩ <;> rintro ⟨⟩ <;> cases hregular
    · refine ⟨fun _ => hstored, ?_⟩
      rintro ⟨⟩
      cases hregular
    · rw [hconnect, hstored]
  have hloops := hs.after hstored
  have hsent := hs.sent
  unfold ClientSide.toDo at hmoves ⊢
  cases hpc : s.task with
  | check =>
    rw [hpc] at hmoves
    have hflag : s.client.isConnected = true := hs.flag.trans hstored
    exact .inr (hmoves (.goesOn hpc hflag) rfl rfl rfl (Nat.lt_succ_self _))
  | waiting =>
    rw [hpc] at hmoves hsent
    by_cases hinbox : s.inbox = []
    · left
      rw [hsent, hinbox]
      exact (List.append_nil _).symm
    · have hpos : 0 < s.inbox.length := List.length_pos_of_ne_nil hinbox
      -- One byte at a time is enough.
      refine .inr (hmoves (.receives 1 hpc Nat.one_pos hpos (by decide)) rfl rfl rfl ?_)
      show 3 * (s.inbox.drop 1).length + 2 < 3 * s.inbox.length + 0
      rw [List.length_drop]
      omega
  | publishing msg =>
    rw [hpc] at hmoves
    exact .inr (hmoves (.publishes hpc) rfl rfl rfl (Nat.lt_succ_self _))
  | _ =>
    rw [hpc] at hloops
    cases hloops

theorem delivers_of_inv (hs : s.Inv) (hstored : s.connect.stored = true) : s.Delivers := by
  obtain ⟨s', hreach, ⟨-, -, hsent⟩, hpublished⟩ :=
    reaches_of_measure
      (I := fun s' => s'.Inv ∧ s'.connect.stored = true ∧ s'.sent = s.sent)
      (G := fun s' => s'.published = s'.sent) ClientSide.toDo
      (fun s₁ ⟨hs₁, hstored₁, hsent₁⟩ => (serving_proceeds hs₁ hstored₁).imp_right
        fun ⟨s₂, hreach, ⟨hs₂, hstored₂, hsent₂⟩, hlt⟩ =>
          ⟨s₂, hreach, ⟨hs₂, hstored₂, hsent₂.trans hsent₁⟩, hlt⟩)
      ⟨hs, hstored, rfl⟩
  exact ⟨s', hreach, hpublished.trans hsent⟩

end Inv

/-! ## A thread that was lost -/

/-- The receive thread was started and has ended. -/
def ClientSide.Lost (s : ClientSide) : Prop :=
  s.connect.started = true ∧ s.task.hasEnded = true

section Lost

variable {s s' : ClientSide} {l : ClientSide.Label}

theorem lost_of_step (hs : s.Inv) (h : s.CalmStep l s') (hcond : ¬ TestsAfterStore s l s') :
    s'.Lost := by
  obtain ⟨h, hcalm⟩ := h
  cases h with
  | connects _ => exact absurd ⟨nofun, nofun⟩ hcond
  | sends _ _ => exact absurd ⟨nofun, nofun⟩ hcond
  | close _ => exact absurd rfl hcalm.1
  | @task event _ h =>
    cases h with
    | goesOn _ hflag => exact absurd ⟨fun _ => hs.flag.symm.trans hflag, nofun⟩ hcond
    | leaves hpc hflag =>
      have hbefore := hs.before (hs.flag.symm.trans hflag)
      by_cases hconnect : s.connect = .storing
      · refine ⟨?_, rfl⟩
        show s.connect.started = true
        rw [hconnect]
        rfl
      · rw [hpc, if_neg hconnect] at hbefore
        cases hbefore
    | throws hpc =>
      have hstored := stored_of_loops hs (by rw [hpc]; nofun) (by rw [hpc]; nofun)
      refine ⟨?_, rfl⟩
      exact started_of_stored hstored
    | _ => exact absurd ⟨nofun, nofun⟩ hcond

theorem lost_step (hs : s.Lost) (h : s.CalmStep l s') : s'.Lost := by
  obtain ⟨hstarted, hover⟩ := hs
  obtain ⟨h, -⟩ := h
  have hout : ∀ {pc : ReceivePc} {P : Prop}, s.task = pc → pc.hasEnded = false → P :=
    fun hpc hnot => absurd ((hpc ▸ hover).symm.trans hnot) nofun
  cases h with
  | connects h =>
    cases h with
    | stores hpc => exact ⟨rfl, hover⟩
    | opens hpc => exact ⟨rfl, hover⟩
    | socket _ hpc _ => rw [hpc] at hstarted; cases hstarted
    | socketFails hpc => rw [hpc] at hstarted; cases hstarted
    | resolves hpc => rw [hpc] at hstarted; cases hstarted
    | doesNotResolve hpc => rw [hpc] at hstarted; cases hstarted
    | connects hpc => rw [hpc] at hstarted; cases hstarted
    | isRefused hpc => rw [hpc] at hstarted; cases hstarted
    | starts hpc => rw [hpc] at hstarted; cases hstarted
  | sends _ _ => exact ⟨hstarted, hover⟩
  | close _ => exact ⟨hstarted, hover⟩
  | task h =>
    cases h with
    | goesOn hpc _ => exact hout hpc rfl
    | leaves hpc _ => exact hout hpc rfl
    | timesOut hpc _ => exact hout hpc rfl
    | throws hpc => exact hout hpc rfl
    | receives _ hpc _ _ _ => exact hout hpc rfl
    | publishes hpc => exact hout hpc rfl
    | findsEnd hpc _ => exact hout hpc rfl
    | publishesLast hpc => exact hout hpc rfl
    | failsToReceive _ hpc => exact hout hpc rfl

end Lost

/-- For every interleaving in which `close()` is not called and `recv` reports no end and no
    error, once `connectTo` has returned success: the receive thread has not ended and can
    publish all that the server has sent, if and only if it has tested the flag only after
    `connectTo` had set it, and `select` has not failed. -/
theorem receive_thread_serves_iff {ls : List ClientSide.Label} {s : ClientSide}
    (h : Run ClientSide.CalmStep .init ls s) (hreturned : s.connect = .returned true) :
    s.Serves ↔ Run (Along ClientSide.CalmStep TestsAfterStore) .init ls s := by
  have hserves : s.Serves ↔
      (s.task.hasEnded = false ∧ (s.connect = .returned true → s.Delivers)) :=
    and_congr_right fun _ => ⟨fun h _ => h, fun h => h hreturned⟩
  refine hserves.trans (run_along_iff_of_trap (I := ClientSide.Inv) (T := ClientSide.Lost)
    (G := fun s => s.task.hasEnded = false ∧ (s.connect = .returned true → s.Delivers))
    (fun _ _ _ hs h hcond => inv_step hs h hcond)
    (fun _ _ _ hs h hcond => lost_of_step hs h hcond) (fun _ _ _ hs h => lost_step hs h)
    (fun s hs => ⟨?_, fun hpc => delivers_of_inv hs (by rw [hpc]; rfl)⟩)
    (fun s hs hG => absurd (hs.2.symm.trans hG.1) nofun) init_inv h)
  cases hstored : s.connect.stored with
  | true =>
    have hloops := hs.after hstored
    cases hpc : s.task <;> rw [hpc] at hloops <;> first | rfl | cases hloops
  | false =>
    rw [hs.before hstored]
    split <;> rfl

/-- The flag is set in time, and a byte that comes in later can be published. -/
theorem receive_thread_serves_in_order :
    ∃ ls s, Run ClientSide.CalmStep .init ls s ∧ s.connect = .returned true ∧ s.sent = [48] ∧
      s.Serves := by
  have calm : ∀ {s s' : ClientSide} {l : ClientSide.Label}, s.Step l s' → l ≠ .close →
      (∀ event, l ≠ .task event) → Along ClientSide.CalmStep TestsAfterStore s l s' :=
    fun h hclose htask => ⟨⟨h, hclose, htask _, htask _⟩, fun htests => absurd htests (htask _),
      htask _⟩
  obtain ⟨ls, s, hrun, hreturned, hsent⟩ : ∃ ls s,
      Run (Along ClientSide.CalmStep TestsAfterStore) .init ls s ∧
        s.connect = .returned true ∧ s.sent = [48] :=
    ⟨_, _, .cons (calm (.connects (.socket 3 rfl (by decide))) nofun nofun) (.cons
      (calm (.connects (.resolves rfl)) nofun nofun) (.cons
      (calm (.connects (.connects rfl)) nofun nofun) (.cons
      (calm (.connects (.starts rfl)) nofun nofun) (.cons
      (calm (.connects (.stores rfl)) nofun nofun) (.cons
      (calm (.connects (.opens rfl)) nofun nofun) (.cons
      (calm (.sends [48] rfl) nofun nofun) (.nil _))))))), rfl, rfl⟩
  exact ⟨ls, s, hrun.of_along, hreturned, hsent,
    (receive_thread_serves_iff hrun.of_along hreturned).mpr hrun⟩

/-- The receive thread runs before `connectTo` goes on, and leaves its loop. -/
theorem receive_thread_lost :
    ¬ ∀ ls s, Run ClientSide.CalmStep .init ls s → s.connect = .returned true → s.Serves := by
  intro h
  have calm : ∀ {s s' : ClientSide} {l : ClientSide.Label}, s.Step l s' → l ≠ .close →
      l ≠ .task .endOfStream → l ≠ .task .recvFails → s.CalmStep l s' :=
    fun h hclose hend hrecv => ⟨h, hclose, hend, hrecv⟩
  have hserves := h _ _ (.cons (calm (.connects (.socket 3 rfl (by decide))) nofun nofun nofun)
    (.cons (calm (.connects (.resolves rfl)) nofun nofun nofun) (.cons
    (calm (.connects (.connects rfl)) nofun nofun nofun) (.cons
    (calm (.connects (.starts rfl)) nofun nofun nofun) (.cons
    (calm (.task (.leaves rfl rfl)) nofun nofun nofun) (.cons
    (calm (.connects (.stores rfl)) nofun nofun nofun) (.cons
    (calm (.connects (.opens rfl)) nofun nofun nofun) (.nil _)))))))) rfl
  cases hserves.1

end TCPServer
