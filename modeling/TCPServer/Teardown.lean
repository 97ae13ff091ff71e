/-
  `TcpClient::close` and the receive thread that it waits for.

  The thread that has called `connectTo` calls `close()` later, while the receive thread may be
  anywhere: in `select`, in `recv`, in a callback. `Teardown` is the client with both threads
  (`ClientSide`) and with the place in `close()`; `close()` clears `_isConnected`, joins the
  thread, deletes it, calls `::close` and sets `_isClosed`. An exception of the receive thread
  ends the process.

  Nobody but `connectTo` sets the flag again, so the thread takes three more steps at most and
  makes one more callback at most (`close_silences`), and none once `close()` is past the join.
  A disconnection is told once, and after all messages. `close()` is never stuck
  (`close_comes_back`), and once it has returned success everything is given back.

  Left out: a second call of `close()`, which finds `_isClosed` set; that callbacks come back.
-/
import TCPServer.Connect

namespace TCPServer

open Handles Runs

/-- Where `TcpClient::close` is. -/
inductive TeardownPc where
  | notCalled
  /-- `_isConnected = false` -/
  | clearing
  /-- `_receiveTask->join()` -/
  | joining
  /-- `::close(_sockfd.get())` -/
  | closing
  /-- `_isClosed = true` -/
  | storing
  | returned (successFlag : Bool)
  deriving DecidableEq

/-- What a callback of the runner is told. -/
inductive Told where
  | message (msg : Bytes)
  | disconnection
  deriving DecidableEq

structure Teardown where
  side : ClientSide
  close : TeardownPc
  /-- The callbacks so far, in order. -/
  told : List Told

def Teardown.init : Teardown := ⟨.init, .notCalled, []⟩

inductive Teardown.Label where
  | side (l : ClientSide.Label)
  | close
  deriving DecidableEq

/-- The label is one of the receive thread. -/
def Teardown.Label.ofTask : Teardown.Label → Bool
  | .side (.task _) => true
  | _ => false

/-- The callback that ends with this step. -/
def ReceivePc.tells : ReceivePc → TaskEvent → List Told
  | .publishing msg, .publishes => [.message msg]
  | .publishingDisconnected, .publishes => [.disconnection]
  | _, _ => []

def ClientSide.tells (s : ClientSide) : ClientSide.Label → List Told
  | .task event => s.task.tells event
  | _ => []

/-- `close()`. -/
inductive Teardown.CloseStep (t : Teardown) : Teardown → Prop
  | calls {successFlag : Bool} : t.close = .notCalled →
      t.side.connect = .returned successFlag → t.side.client.isClosed = false →
      t.CloseStep { t with close := .clearing }
  | isClosed {successFlag : Bool} : t.close = .notCalled →
      t.side.connect = .returned successFlag → t.side.client.isClosed = true →
      t.CloseStep { t with close := .returned false }
  | clears : t.close = .clearing →
      t.CloseStep { t with
        side := { t.side with client := { t.side.client with isConnected := false } }
        close := if t.side.client.receiveTaskPtr.isSome then .joining else .closing }
  | joins : t.close = .joining → t.side.task.hasEnded = true →
      t.CloseStep { t with
        side := { t.side with client := t.side.client.terminateReceiveThread }
        close := .closing }
  | closes (ok : Bool) : t.close = .closing →
      t.CloseStep { t with
        side := { t.side with client := { t.side.client with
          descriptors := .released t.side.client.sockfd ok :: t.side.client.descriptors } }
        close := if ok then .storing else .returned false }
  | stores : t.close = .storing →
      t.CloseStep { t with
        side := { t.side with client := { t.side.client with isClosed := true } }
        close := .returned true }

inductive Teardown.Step (t : Teardown) : Teardown.Label → Teardown → Prop
  | side {l : ClientSide.Label} {side : ClientSide} : t.side.task ≠ .threw → l ≠ .close →
      t.side.Step l side →
      t.Step (.side l) { t with side := side, told := t.told ++ t.side.tells l }
  | close {t' : Teardown} : t.side.task ≠ .threw → t.CloseStep t' → t.Step .close t'

/-- `close()` has cleared the flag, or has found it cleared. -/
def TeardownPc.cleared : TeardownPc → Bool
  | .notCalled => false
  | .clearing => false
  | _ => true

/-- `close()` needs the receive thread no more. -/
def TeardownPc.pastJoin : TeardownPc → Bool
  | .closing => true
  | .storing => true
  | .returned _ => true
  | _ => false

/-- The receive thread is in no callback and will be in none. -/
def ReceivePc.silent : ReceivePc → Bool
  | .notStarted => true
  | .ended => true
  | .threw => true
  | _ => false

/-- The steps the receive thread takes at most once the flag is cleared. -/
def ReceivePc.left : ReceivePc → ℕ
  | .check => 1
  | .waiting => 3
  | .publishing _ => 2
  | .publishingDisconnected => 1
  | _ => 0

/-- The callbacks it makes at most once the flag is cleared. -/
def ReceivePc.toTell : ReceivePc → ℕ
  | .waiting => 1
  | .publishing _ => 1
  | .publishingDisconnected => 1
  | _ => 0

/-- The steps that `close()` still takes. -/
def TeardownPc.left : TeardownPc → ℕ
  | .joining => 3
  | .closing => 2
  | .storing => 1
  | _ => 0

/-- The label is one of the receive thread or of `close()`. -/
def Teardown.Label.own (l : Teardown.Label) : Bool := l.ofTask || l = .close

/-! ## The members -/

/-- The members after `connectTo` has returned success, with the descriptor and the flag. -/
def TcpClient.opened (fd : ℤ) (flag : Bool) : TcpClient where
  sockfd := fd
  isConnected := flag
  isClosed := false
  receiveTaskPtr := some 0
  started := 1
  joined := []
  descriptors := [.acquired fd]

/-- The members on the way through `connectTo`. -/
def ConnectPc.clientAt (fd : ℤ) (flag : Bool) : ConnectPc → TcpClient
  | .initializing => .init
  | .storing => { TcpClient.opened fd flag with isClosed := true }
  | .opening => { TcpClient.opened fd flag with isClosed := true }
  | .returned _ => .opened fd flag
  | _ => { TcpClient.init with sockfd := fd, descriptors := [.acquired fd] }

/-- The members on the way through `close()`. -/
def TeardownPc.clientAt (fd : ℤ) (flag : Bool) : TeardownPc → TcpClient
  | .closing => (TcpClient.opened fd flag).terminateReceiveThread
  | .storing => { (TcpClient.opened fd flag).terminateReceiveThread with
      descriptors := [.released fd true, .acquired fd] }
  | .returned true => { (TcpClient.opened fd flag).terminateReceiveThread with
      descriptors := [.released fd true, .acquired fd], isClosed := true }
  | .returned false => { (TcpClient.opened fd flag).terminateReceiveThread with
      descriptors := [.released fd false, .acquired fd] }
  | _ => .opened fd flag

/-- The members as both say. -/
def Teardown.clientAt (t : Teardown) (fd : ℤ) (flag : Bool) : TcpClient :=
  if t.side.connect = .returned true then t.close.clientAt fd flag
  else t.side.connect.clientAt fd flag

/-! ## The invariant -/

structure Teardown.Inv (t : Teardown) : Prop where
  /-- `close()` is called when `connectTo` has returned. -/
  called : t.close ≠ .notCalled → ∃ successFlag, t.side.connect = .returned successFlag
  running : t.side.connect.started = true → t.side.task ≠ .notStarted
  idle : t.side.connect.started = false → t.side.task = .notStarted
  unconnected : t.side.connect = .returned false →
    t.side.client.isClosed = true ∧ t.side.client.isConnected = false
  opened : t.side.connect = .returned false → t.close = .notCalled ∨ t.close = .returned false
  client : t.side.connect ≠ .returned false →
    ∃ fd flag, 0 ≤ fd ∧ t.side.client = t.clientAt fd flag
  cleared : t.close.cleared = true → t.side.client.isConnected = false
  silent : t.close.pastJoin = true → t.side.task.silent = true
  told : ∃ msgs : List Bytes, t.told = msgs.map .message ∨
    t.side.task = .ended ∧ t.told = msgs.map .message ++ [.disconnection]

section Members

variable {t : Teardown} {fd : ℤ} {flag : Bool}

theorem clear_clientAt (t : Teardown) (fd : ℤ) (flag : Bool) :
    { t.clientAt fd flag with isConnected := false } = t.clientAt fd false := by
  unfold Teardown.clientAt
  by_cases h : t.side.connect = .returned true
  · rw [if_pos h, if_pos h]
    cases t.close with
    | returned successFlag => cases successFlag <;> rfl
    | _ => rfl
  · rw [if_neg h, if_neg h]
    cases t.side.connect <;> rfl

theorem teardown_init_inv : Teardown.init.Inv where
  called h := absurd rfl h
  running := nofun
  idle _ := rfl
  unconnected := nofun
  opened := nofun
  client _ := ⟨0, false, le_refl 0, rfl⟩
  cleared := nofun
  silent := nofun
  told := ⟨[], .inl rfl⟩

end Members

section Steps

variable {t t' : Teardown}

/-- Before `connectTo` has returned, `close()` is not called. -/
theorem Teardown.Inv.notCalled (ht : t.Inv) {pc : ConnectPc} (hpc : t.side.connect = pc)
    (h : ∀ successFlag, pc ≠ .returned successFlag) : t.close = .notCalled := by
  by_contra hcalled
  obtain ⟨successFlag, hreturned⟩ := ht.called hcalled
  exact h successFlag (hpc.symm.trans hreturned)

theorem cleared_of_notCalled (h : t.close = .notCalled) :
    t.close.cleared ≠ true ∧ t.close.pastJoin ≠ true := by
  rw [h]
  exact ⟨nofun, nofun⟩

/-- A step of `connectTo` after which the thread is as it was. -/
theorem Teardown.Inv.connect (ht : t.Inv) {client : TcpClient} {pc pc' : ConnectPc}
    (hpc : t.side.connect = pc) (hnot : ∀ successFlag, pc ≠ .returned successFlag)
    (hstarted : pc'.started = pc.started)
    (hclient : ∀ fd flag, 0 ≤ fd → t.side.client = pc.clientAt fd flag →
      if pc' = .returned false then client.isClosed = true ∧ client.isConnected = false
      else ∃ fd flag, 0 ≤ fd ∧ client = pc'.clientAt fd flag) :
    ({ t with side := { t.side with client := client, connect := pc' } } : Teardown).Inv := by
  have hclose := ht.notCalled hpc hnot
  obtain ⟨fd, flag, hfd, heq⟩ := ht.client (by rw [hpc]; exact hnot false)
  have hnew := hclient fd flag hfd (by
    rw [heq, Teardown.clientAt, hpc, if_neg (hnot true)])
  refine ⟨fun h => absurd hclose h, ?_, ?_, fun hfalse => ?_, fun _ => .inl hclose,
    fun hfalse => ?_, ?_, ?_, ht.told⟩
  · intro h
    exact ht.running (by rw [hpc, ← hstarted]; exact h)
  · intro h
    exact ht.idle (by rw [hpc, ← hstarted]; exact h)
  · rwa [if_pos hfalse] at hnew
  · rw [if_neg hfalse] at hnew
    obtain ⟨fd, flag, hfd, rfl⟩ := hnew
    refine ⟨fd, flag, hfd, ?_⟩
    unfold Teardown.clientAt
    by_cases htrue : pc' = .returned true
    · rw [if_pos htrue, hclose, htrue]
      rfl
    · rw [if_neg htrue]
  · exact fun h => absurd h (cleared_of_notCalled hclose).1
  · exact fun h => absurd h (cleared_of_notCalled hclose).2

theorem teardown_connect (ht : t.Inv) {side : ClientSide} (h : t.side.ConnectStep side) :
    ({ t with side := side } : Teardown).Inv := by
  cases h with
  | socket fd hpc hfresh =>
    refine ht.connect hpc nofun rfl fun fd' flag _ heq => ?_
    rw [if_neg nofun, heq]
    exact ⟨fd, false, hfresh.1, rfl⟩
  | socketFails hpc =>
    refine ht.connect hpc nofun rfl fun fd flag _ heq => ?_
    rw [if_pos rfl, heq]
    exact ⟨rfl, rfl⟩
  | resolves hpc =>
    refine ht.connect hpc nofun rfl fun fd flag hfd heq => ?_
    rw [if_neg nofun]
    exact ⟨fd, flag, hfd, heq⟩
  | doesNotResolve hpc =>
    refine ht.connect hpc nofun rfl fun fd flag _ heq => ?_
    rw [if_pos rfl, heq]
    exact ⟨rfl, rfl⟩
  | connects hpc =>
    refine ht.connect hpc nofun rfl fun fd flag hfd heq => ?_
    rw [if_neg nofun]
    exact ⟨fd, flag, hfd, heq⟩
  | isRefused hpc =>
    refine ht.connect hpc nofun rfl fun fd flag _ heq => ?_
    rw [if_pos rfl, heq]
    exact ⟨rfl, rfl⟩
  | starts hpc =>
    have hclose := ht.notCalled hpc nofun
    obtain ⟨fd, flag, hfd, heq⟩ := ht.client (by rw [hpc]; nofun)
    rw [Teardown.clientAt, hpc, if_neg nofun] at heq
    refine ⟨fun h => absurd hclose h, fun _ => nofun, nofun, nofun, nofun, fun _ => ?_, ?_, ?_, ?_⟩
    · refine ⟨fd, false, hfd, ?_⟩
      rw [heq, Teardown.clientAt, if_neg nofun]
      rfl
    · exact fun h => absurd h (cleared_of_notCalled hclose).1
    · exact fun h => absurd h (cleared_of_notCalled hclose).2
    · have hidle := ht.idle (by rw [hpc]; rfl)
      obtain ⟨msgs, htold⟩ := ht.told
      refine ⟨msgs, .inl (htold.resolve_right fun h => ?_)⟩
      rw [hidle] at h
      cases h.1
  | stores hpc =>
    refine ht.connect hpc nofun rfl fun fd flag hfd heq => ?_
    rw [if_neg nofun, heq]
    exact ⟨fd, true, hfd, rfl⟩
  | opens hpc =>
    refine ht.connect hpc nofun rfl fun fd flag hfd heq => ?_
    rw [if_neg nofun, heq]
    exact ⟨fd, flag, hfd, rfl⟩

/-- A step of the receive thread. -/
theorem Teardown.Inv.task (ht : t.Inv) {client : TcpClient} {pc pc' : ReceivePc}
    {inbox published : Bytes} {news : List Told} (hpc : t.side.task = pc)
    (hlive : pc.silent = false) (hnot : pc' ≠ .notStarted)
    (hclient : client = t.side.client ∨ client = { t.side.client with isConnected := false })
    (hnews : news = [] ∨ (∃ msg, news = [.message msg]) ∨ pc' = .ended ∧ news = [.disconnection]) :
    ({ t with
        side := { t.side with
          client := client, task := pc', inbox := inbox, published := published }
        told := t.told ++ news } : Teardown).Inv := by
  have hstarted : t.side.connect.started = true := by
    by_contra h
    rw [← hpc, ht.idle (Bool.eq_false_iff.mpr h)] at hlive
    cases hlive
  have hjoin : t.close.pastJoin = false := by
    by_contra h
    have hsilent := ht.silent (eq_true_of_ne_false h)
    rw [hpc, hlive] at hsilent
    cases hsilent
  have hreturned : t.side.connect ≠ .returned false := by
    intro h
    rw [h] at hstarted
    cases hstarted
  refine ⟨ht.called, fun _ => hnot, ?_, fun h => absurd h hreturned, fun h => absurd h hreturned,
    fun _ => ?_, fun h => ?_, ?_, ?_⟩
  · intro h
    exact absurd (hstarted.symm.trans h) nofun
  · obtain ⟨fd, flag, hfd, heq⟩ := ht.client hreturned
    rcases hclient with rfl | rfl
    · exact ⟨fd, flag, hfd, heq⟩
    · refine ⟨fd, false, hfd, ?_⟩
      rw [heq]
      exact clear_clientAt t fd flag
  · rcases hclient with rfl | rfl
    · exact ht.cleared h
    · rfl
  · intro h
    exact absurd (hjoin.symm.trans h) nofun
  · obtain ⟨msgs, htold⟩ := ht.told
    have htold : t.told = msgs.map .message := htold.resolve_right fun h => by
      rw [← hpc, h.1] at hlive
      cases hlive
    rcases hnews with rfl | ⟨msg, rfl⟩ | ⟨hended, rfl⟩
    · exact ⟨msgs, .inl ((List.append_nil _).trans htold)⟩
    · refine ⟨msgs ++ [msg], .inl ?_⟩
      rw [List.map_append, ← htold]
      rfl
    · refine ⟨msgs, .inr ⟨hended, ?_⟩⟩
      rw [← htold]

theorem teardown_task (ht : t.Inv) {event : TaskEvent} {side : ClientSide}
    (h : t.side.TaskStep event side) :
    ({ t with side := side, told := t.told ++ t.side.task.tells event } : Teardown).Inv := by
  cases h with
  | goesOn hpc hflag =>
    rw [hpc]
    exact ht.task hpc rfl nofun (.inl rfl) (.inl rfl)
  | leaves hpc hflag =>
    rw [hpc]
    exact ht.task hpc rfl nofun (.inl rfl) (.inl rfl)
  | timesOut hpc hinbox =>
    rw [hpc]
    exact ht.task hpc rfl nofun (.inl rfl) (.inl rfl)
  | throws hpc =>
    rw [hpc]
    exact ht.task hpc rfl nofun (.inl rfl) (.inl rfl)
  | receives n hpc _ _ _ =>
    rw [hpc]
    exact ht.task hpc rfl nofun (.inl rfl) (.inl rfl)
  | @publishes msg hpc =>
    rw [hpc]
    exact ht.task hpc rfl nofun (.inl rfl) (.inr (.inl ⟨msg, rfl⟩))
  | findsEnd hpc hinbox =>
    rw [hpc]
    exact ht.task hpc rfl nofun (.inr rfl) (.inl rfl)
  | publishesLast hpc =>
    rw [hpc]
    exact ht.task hpc rfl nofun (.inl rfl) (.inr (.inr ⟨rfl, rfl⟩))
  | failsToReceive stale hpc =>
    rw [hpc]
    exact ht.task hpc rfl nofun (.inl rfl) (.inl rfl)

/-- While `close()` runs, `connectTo` has returned success. -/
theorem Teardown.Inv.connected (ht : t.Inv) {pc : TeardownPc} (hpc : t.close = pc)
    (hcalled : pc ≠ .notCalled) (hfalse : pc ≠ .returned false) :
    t.side.connect = .returned true := by
  obtain ⟨successFlag, hreturned⟩ := ht.called (by rw [hpc]; exact hcalled)
  cases successFlag with
  | true => exact hreturned
  | false =>
    rcases ht.opened hreturned with h | h
    · exact absurd (hpc.symm.trans h) hcalled
    · exact absurd (hpc.symm.trans h) hfalse

theorem Teardown.Inv.clientAt (ht : t.Inv) {pc : TeardownPc} (hpc : t.close = pc)
    (hreturned : t.side.connect = .returned true) :
    ∃ fd flag, 0 ≤ fd ∧ t.side.client = pc.clientAt fd flag := by
  obtain ⟨fd, flag, hfd, heq⟩ := ht.client (by rw [hreturned]; nofun)
  refine ⟨fd, flag, hfd, ?_⟩
  rw [heq, Teardown.clientAt, if_pos hreturned, hpc]

/-- A step of `close()` on an open client. -/
theorem Teardown.Inv.close (ht : t.Inv) {client : TcpClient} {pc : TeardownPc}
    (hreturned : t.side.connect = .returned true)
    (hclient : ∃ fd flag, 0 ≤ fd ∧ client = pc.clientAt fd flag)
    (hcleared : pc.cleared = true → client.isConnected = false)
    (hsilent : pc.pastJoin = true → t.side.task.silent = true) :
    ({ t with side := { t.side with client := client }, close := pc } : Teardown).Inv := by
  have hnot : t.side.connect ≠ .returned false := by rw [hreturned]; nofun
  refine ⟨fun _ => ⟨true, hreturned⟩, ht.running, ht.idle, fun h => absurd h hnot,
    fun h => absurd h hnot, fun _ => ?_, hcleared, hsilent, ht.told⟩
  obtain ⟨fd, flag, hfd, heq⟩ := hclient
  refine ⟨fd, flag, hfd, ?_⟩
  rw [heq, Teardown.clientAt, if_pos hreturned]

theorem teardown_close (ht : t.Inv) (h : t.CloseStep t') : t'.Inv := by
  cases h with
  | @calls successFlag hpc hreturned hopen =>
    cases successFlag with
    | true =>
      obtain ⟨fd, flag, hfd, heq⟩ := ht.clientAt hpc hreturned
      exact ht.close hreturned ⟨fd, flag, hfd, heq⟩ nofun nofun
    | false => exact absurd ((ht.unconnected hreturned).1.symm.trans hopen) nofun
  | @isClosed successFlag hpc hreturned hclosed =>
    cases successFlag with
    | true =>
      obtain ⟨fd, flag, _, heq⟩ := ht.clientAt hpc hreturned
      rw [heq] at hclosed
      cases hclosed
    | false =>
      refine ⟨fun _ => ⟨false, hreturned⟩, ht.running, ht.idle, ht.unconnected,
        fun _ => .inr rfl, fun h => absurd hreturned h, fun _ => (ht.unconnected hreturned).2,
        fun _ => ?_, ht.told⟩
      show t.side.task.silent = true
      rw [ht.idle (by rw [hreturned]; rfl)]
      rfl
  | clears hpc =>
    have hreturned := ht.connected hpc nofun nofun
    obtain ⟨fd, flag, hfd, heq⟩ := ht.clientAt hpc hreturned
    rw [heq]
    exact ht.close hreturned ⟨fd, false, hfd, rfl⟩ (fun _ => rfl) nofun
  | joins hpc hended =>
    have hreturned := ht.connected hpc nofun nofun
    obtain ⟨fd, flag, hfd, heq⟩ := ht.clientAt hpc hreturned
    rw [heq]
    refine ht.close hreturned ⟨fd, flag, hfd, rfl⟩ (fun _ => rfl) fun _ => ?_
    cases htask : t.side.task <;> rw [htask] at hended <;> first | rfl | cases hended
  | closes ok hpc =>
    have hreturned := ht.connected hpc nofun nofun
    obtain ⟨fd, flag, hfd, heq⟩ := ht.clientAt hpc hreturned
    have hsilent := ht.silent (by rw [hpc]; rfl)
    rw [heq]
    cases ok with
    | true => exact ht.close hreturned ⟨fd, flag, hfd, rfl⟩ (fun _ => rfl) fun _ => hsilent
    | false => exact ht.close hreturned ⟨fd, flag, hfd, rfl⟩ (fun _ => rfl) fun _ => hsilent
  | stores hpc =>
    have hreturned := ht.connected hpc nofun nofun
    obtain ⟨fd, flag, hfd, heq⟩ := ht.clientAt hpc hreturned
    have hsilent := ht.silent (by rw [hpc]; rfl)
    rw [heq]
    exact ht.close hreturned ⟨fd, flag, hfd, rfl⟩ (fun _ => rfl) fun _ => hsilent

theorem teardown_step {l : Teardown.Label} (ht : t.Inv) (h : t.Step l t') : t'.Inv := by
  cases h with
  | close _ h => exact teardown_close ht h
  | @side l side _ hlabel h =>
    cases h with
    | connects h =>
      show Teardown.Inv { t with side := side, told := t.told ++ [] }
      rw [List.append_nil]
      exact teardown_connect ht h
    | task h => exact teardown_task ht h
    | sends msg _ =>
      refine ⟨ht.called, ht.running, ht.idle, ht.unconnected, ht.opened, ht.client, ht.cleared,
        ht.silent, ?_⟩
      show ∃ msgs : List Bytes, t.told ++ [] = _ ∨ _ ∧ t.told ++ [] = _
      rw [List.append_nil]
      exact ht.told
    | close _ => exact absurd rfl hlabel

theorem teardown_inv {ls : List Teardown.Label} (h : Run Teardown.Step .init ls t) : t.Inv :=
  h.invariant (fun _ _ _ ht h => teardown_step ht h) teardown_init_inv

end Steps

/-! ## After the flag is cleared -/

section Cleared

variable {t t' : Teardown} {l : Teardown.Label}

/-- After `close()` the members are those after the two calls, one after the other. -/
theorem settled_clientAt {fd : ℤ} (hfd : 0 ≤ fd) (flag : Bool) :
    ((TeardownPc.returned true).clientAt fd flag).Settled := by
  have htidy : (TcpClient.init.connectTo (.connected fd)).2.Tidy := by
    refine init_tidy.connectTo (fun fd' h => ?_) rfl rfl
    cases h
    exact ⟨hfd, rfl⟩
  exact htidy.settled

theorem left_le_three (pc : ReceivePc) : pc.left ≤ 3 := by
  cases pc <;> simp [ReceivePc.left]

theorem toTell_le_one (pc : ReceivePc) : pc.toTell ≤ 1 := by
  cases pc <;> simp [ReceivePc.toTell]

theorem closeLeft_le_three (pc : TeardownPc) : pc.left ≤ 3 := by
  cases pc <;> simp [TeardownPc.left]

theorem left_of_silent {pc : ReceivePc} (h : pc.silent = true) : pc.left = 0 ∧ pc.toTell = 0 := by
  cases pc <;> first | exact ⟨rfl, rfl⟩ | cases h

/-- What some steps of `close()` and of the receive thread use up of what is left to both. -/
structure Teardown.Spent (t : Teardown) (taskSteps ownSteps : ℕ) (t' : Teardown) : Prop where
  cleared : t'.close.cleared = true
  pastJoin : t.close.pastJoin = true → t'.close.pastJoin = true
  before : t.told <+: t'.told
  told : t'.told.length + t'.side.task.toTell ≤ t.told.length + t.side.task.toTell
  task : t'.side.task.left + taskSteps ≤ t.side.task.left
  own : t'.side.task.left + t'.close.left + ownSteps ≤ t.side.task.left + t.close.left

theorem Teardown.Spent.refl (hcleared : t.close.cleared = true) : t.Spent 0 0 t :=
  ⟨hcleared, id, List.prefix_rfl, le_refl _, le_refl _, le_refl _⟩

theorem Teardown.Spent.trans {m : Teardown} {a b c d : ℕ} (h : t.Spent a b m)
    (h' : m.Spent c d t') : t.Spent (c + a) (d + b) t' := by
  have htold := h.told
  have htold' := h'.told
  have htask := h.task
  have htask' := h'.task
  have hown := h.own
  have hown' := h'.own
  exact ⟨h'.cleared, fun hjoin => h'.pastJoin (h.pastJoin hjoin), h.before.trans h'.before,
    by omega, by omega, by omega⟩

theorem spent_task {event : TaskEvent} {side : ClientSide}
    (hflag : t.side.client.isConnected = false) (hcleared : t.close.cleared = true)
    (h : t.side.TaskStep event side) :
    t.Spent 1 1 { t with side := side, told := t.told ++ t.side.task.tells event } := by
  have key : ∀ pc : ReceivePc, side.task = pc → pc.left + 1 ≤ t.side.task.left →
      (t.side.task.tells event).length + pc.toTell ≤ t.side.task.toTell →
      t.Spent 1 1 { t with side := side, told := t.told ++ t.side.task.tells event } := by
    rintro pc rfl hleft htell
    refine ⟨hcleared, id, List.prefix_append _ _, ?_, hleft, ?_⟩
    · show (t.told ++ t.side.task.tells event).length + side.task.toTell ≤ _
      rw [List.length_append]
      omega
    · show side.task.left + t.close.left + 1 ≤ t.side.task.left + t.close.left
      omega
  cases h with
  | goesOn _ h => exact absurd (hflag.symm.trans h) nofun
  | leaves hpc _ => exact key .ended rfl (by rw [hpc]; decide) (by rw [hpc]; decide)
  | timesOut hpc _ => exact key .check rfl (by rw [hpc]; decide) (by rw [hpc]; decide)
  | throws hpc => exact key .threw rfl (by rw [hpc]; decide) (by rw [hpc]; decide)
  | receives n hpc _ _ _ =>
    exact key (.publishing _) rfl (by rw [hpc]; exact le_refl 3) (by rw [hpc]; exact le_refl 1)
  | publishes hpc =>
    exact key .check rfl (by rw [hpc]; exact le_refl 2) (by rw [hpc]; exact le_refl 1)
  | findsEnd hpc _ =>
    exact key .publishingDisconnected rfl (by rw [hpc]; decide) (by rw [hpc]; decide)
  | publishesLast hpc => exact key .ended rfl (by rw [hpc]; decide) (by rw [hpc]; decide)
  | failsToReceive stale hpc =>
    exact key (.publishing stale) rfl (by rw [hpc]; exact le_refl 3) (by rw [hpc]; exact le_refl 1)

theorem spent_close (hcleared : t.close.cleared = true) (h : t.CloseStep t') : t.Spent 0 1 t' := by
  have key : ∀ {client : TcpClient} {pc : TeardownPc}, pc.cleared = true → pc.pastJoin = true →
      pc.left + 1 ≤ t.close.left →
      t.Spent 0 1 { t with side := { t.side with client := client }, close := pc } := by
    intro client pc hpc hjoin hleft
    refine ⟨hpc, fun _ => hjoin, List.prefix_rfl, le_refl _, le_refl _, ?_⟩
    show t.side.task.left + pc.left + 1 ≤ _
    omega
  cases h with
  | calls hpc _ _ =>
    rw [hpc] at hcleared
    cases hcleared
  | isClosed hpc _ _ =>
    rw [hpc] at hcleared
    cases hcleared
  | clears hpc =>
    rw [hpc] at hcleared
    cases hcleared
  | joins hpc _ => exact key rfl rfl (by rw [hpc]; decide)
  | closes ok hpc =>
    cases ok with
    | true => exact key rfl rfl (by rw [hpc]; decide)
    | false => exact key rfl rfl (by rw [hpc]; decide)
  | stores hpc => exact key rfl rfl (by rw [hpc]; decide)

theorem not_returned_of_connectStep {s s' : ClientSide} (h : s.ConnectStep s')
    (successFlag : Bool) : s.connect ≠ .returned successFlag := by
  intro hreturned
  cases h with
  | socket _ hpc _ => cases hreturned.symm.trans hpc
  | socketFails hpc => cases hreturned.symm.trans hpc
  | resolves hpc => cases hreturned.symm.trans hpc
  | doesNotResolve hpc => cases hreturned.symm.trans hpc
  | connects hpc => cases hreturned.symm.trans hpc
  | isRefused hpc => cases hreturned.symm.trans hpc
  | starts hpc => cases hreturned.symm.trans hpc
  | stores hpc => cases hreturned.symm.trans hpc
  | opens hpc => cases hreturned.symm.trans hpc

/-- `connectTo` has returned when the flag is cleared by `close()`. -/
theorem Teardown.Inv.returned_of_cleared (ht : t.Inv) (hcleared : t.close.cleared = true) :
    ∃ successFlag, t.side.connect = .returned successFlag := by
  refine ht.called fun h => ?_
  rw [h] at hcleared
  cases hcleared

theorem spent_step (ht : t.Inv) (hcleared : t.close.cleared = true) (h : t.Step l t') :
    t.Spent l.ofTask.toNat l.own.toNat t' := by
  cases h with
  | close _ h => exact spent_close hcleared h
  | @side l side _ hlabel h =>
    cases h with
    | connects h =>
      obtain ⟨successFlag, hreturned⟩ := ht.returned_of_cleared hcleared
      exact absurd hreturned (not_returned_of_connectStep h successFlag)
    | task h => exact spent_task (ht.cleared hcleared) hcleared h
    | sends msg _ =>
      refine ⟨hcleared, id, List.prefix_append _ _, ?_, le_refl _, le_refl _⟩
      show (t.told ++ []).length + _ ≤ _
      rw [List.append_nil]
    | close _ => exact absurd rfl hlabel

theorem spent_run {ls : List Teardown.Label} (h : Run Teardown.Step t ls t') (ht : t.Inv)
    (hcleared : t.close.cleared = true) :
    t.Spent (ls.countP Teardown.Label.ofTask) (ls.countP Teardown.Label.own) t' := by
  induction h with
  | nil t => exact .refl hcleared
  | @cons t m t' l ls hl hr ih =>
    have hspent := spent_step ht hcleared hl
    have hrest := hspent.trans (ih (teardown_step ht hl) hspent.cleared)
    rw [List.countP_cons, List.countP_cons]
    cases hof : l.ofTask <;> cases hown : l.own <;> rw [hof, hown] at hrest <;> exact hrest

/-- One of the two threads can go on until `close()` returns. -/
theorem own_step_enabled (ht : t.Inv) (hcleared : t.close.cleared = true)
    (hthrew : t.side.task ≠ .threw) :
    (∃ successFlag, t.close = .returned successFlag) ∨
      ∃ l t', l.own = true ∧ t.Step l t' := by
  have htask : ∀ {event : TaskEvent} {side : ClientSide}, t.side.TaskStep event side →
      ∃ l t', l.own = true ∧ t.Step l t' := by
    intro event side h
    exact ⟨.side (.task event), _, rfl, .side hthrew nofun (.task h)⟩
  have hclose : ∀ {t' : Teardown}, t.CloseStep t' → ∃ l t', l.own = true ∧ t.Step l t' := by
    intro t' h
    exact ⟨.close, t', rfl, .close hthrew h⟩
  cases hpc : t.close with
  | notCalled =>
    rw [hpc] at hcleared
    cases hcleared
  | clearing =>
    rw [hpc] at hcleared
    cases hcleared
  | joining =>
    right
    cases hat : t.side.task with
    | notStarted =>
      have hreturned := ht.connected hpc nofun nofun
      exact absurd hat (ht.running (by rw [hreturned]; rfl))
    | check => exact htask (.leaves hat (ht.cleared hcleared))
    | waiting =>
      by_cases hinbox : t.side.inbox = []
      · exact htask (.timesOut hat hinbox)
      · exact htask (.receives 1 hat Nat.one_pos (List.length_pos_of_ne_nil hinbox) (by decide))
    | publishing msg => exact htask (.publishes hat)
    | publishingDisconnected => exact htask (.publishesLast hat)
    | ended => exact hclose (.joins hpc (by rw [hat]; rfl))
    | threw => exact absurd hat hthrew
  | closing => exact .inr (hclose (.closes true hpc))
  | storing => exact .inr (hclose (.stores hpc))
  | returned successFlag => exact .inl ⟨successFlag, rfl⟩

end Cleared

/-- For every interleaving of `connectTo`, `close()` and the receive thread: once `close()` has
    cleared the flag, the receive thread takes three more steps at most and makes one more
    callback at most, and none at all past the join. A disconnection comes once, and last. -/
theorem close_silences {ls ks : List Teardown.Label} {t t' : Teardown}
    (h : Run Teardown.Step .init ls t) (hclose : t.close.cleared = true)
    (hrest : Run Teardown.Step t ks t') :
    ks.countP Teardown.Label.ofTask ≤ 3 ∧ t'.told.length ≤ t.told.length + 1 ∧
      (t.close.pastJoin = true → ks.countP Teardown.Label.ofTask = 0 ∧ t'.told = t.told) ∧
      ∃ msgs : List Bytes, t'.told = msgs.map .message ∨
        t'.told = msgs.map .message ++ [.disconnection] := by
  have ht := teardown_inv h
  have hspent := spent_run hrest ht hclose
  have htask := hspent.task
  have htold := hspent.told
  have hthree := left_le_three t.side.task
  have hone := toTell_le_one t.side.task
  refine ⟨by omega, by omega, fun hjoin => ?_, ?_⟩
  · obtain ⟨hleft, htell⟩ := left_of_silent (ht.silent hjoin)
    exact ⟨by omega, (hspent.before.eq_of_length_le (by omega)).symm⟩
  · obtain ⟨msgs, htold⟩ := (teardown_inv (h.append hrest)).told
    exact ⟨msgs, htold.imp_right And.right⟩

/-- The flag is cleared while the thread waits, a byte is in the way; it is published, and
    `close()` returns success. -/
theorem teardown_last_byte :
    ∃ ls t ks t', Run Teardown.Step .init ls t ∧ t.close.cleared = true ∧
      Run Teardown.Step t ks t' ∧ t.told = [] ∧ t'.told = [.message [48]] ∧
      t'.close = .returned true := by
  have side : ∀ {t : Teardown} {l : ClientSide.Label} {side : ClientSide}, t.side.Step l side →
      l ≠ .close → t.side.task ≠ .threw →
      t.Step (.side l) { t with side := side, told := t.told ++ t.side.tells l } :=
    fun h hl hthrew => .side hthrew hl h
  have close : ∀ {t t' : Teardown}, t.CloseStep t' → t.side.task ≠ .threw → t.Step .close t' :=
    fun h hthrew => .close hthrew h
  exact ⟨_, _, _, _, .cons (side (.connects (.socket 3 rfl (by decide))) nofun nofun) (.cons
    (side (.connects (.resolves rfl)) nofun nofun) (.cons
    (side (.connects (.connects rfl)) nofun nofun) (.cons
    (side (.connects (.starts rfl)) nofun nofun) (.cons
    (side (.connects (.stores rfl)) nofun nofun) (.cons
    (side (.connects (.opens rfl)) nofun nofun) (.cons
    (side (.task (.goesOn rfl rfl)) nofun nofun) (.cons
    (side (.sends [48] rfl) nofun nofun) (.cons
    (close (.calls rfl rfl rfl) nofun) (.cons
    (close (.clears rfl) nofun) (.nil _)))))))))), rfl, .cons
    (side (.task (.receives 1 rfl Nat.one_pos (by decide) (by decide))) nofun nofun) (.cons
    (side (.task (.publishes rfl)) nofun nofun) (.cons
    (side (.task (.leaves rfl rfl)) nofun nofun) (.cons
    (close (.joins rfl rfl) nofun) (.cons
    (close (.closes true rfl) nofun) (.cons
    (close (.stores rfl) nofun) (.nil _)))))), rfl, rfl, rfl⟩

theorem close_silences_last_byte :
    ∃ ks t t', Run Teardown.Step t ks t' ∧ t.told = [] ∧ t'.told = [.message [48]] ∧
      ks.countP Teardown.Label.ofTask ≤ 3 := by
  obtain ⟨ls, t, ks, t', h, hclose, hrest, hold, hnew, -⟩ := teardown_last_byte
  exact ⟨ks, t, t', hrest, hold, hnew, (close_silences h hclose hrest).1⟩

/-- For every interleaving in which `close()` has cleared the flag: the two threads take six more
    steps at most, one of them can take its step until `close()` has returned (or `select` has
    failed, which ends the process), and when it returns success, everything is given back. -/
theorem close_comes_back {ls ks : List Teardown.Label} {t t' : Teardown}
    (h : Run Teardown.Step .init ls t) (hclose : t.close.cleared = true)
    (hrest : Run Teardown.Step t ks t') :
    ks.countP Teardown.Label.own ≤ 6 ∧
      (t'.side.task = .threw ∨ (∃ successFlag, t'.close = .returned successFlag) ∨
        ∃ l t'', l.own = true ∧ t'.Step l t'') ∧
      (t'.close = .returned true → t'.side.client.Settled) := by
  have hspent := spent_run hrest (teardown_inv h) hclose
  have ht' := teardown_inv (h.append hrest)
  have hown := hspent.own
  have hthree := left_le_three t.side.task
  have hthree' := closeLeft_le_three t.close
  refine ⟨by omega, ?_, fun hreturned => ?_⟩
  · by_cases hthrew : t'.side.task = .threw
    · exact .inl hthrew
    · exact .inr (own_step_enabled ht' hspent.cleared hthrew)
  · have hconnected := ht'.connected hreturned nofun nofun
    obtain ⟨fd, flag, hfd, heq⟩ := ht'.clientAt hreturned hconnected
    rw [heq]
    exact settled_clientAt hfd flag

theorem close_comes_back_last_byte :
    ∃ ks t t', Run Teardown.Step t ks t' ∧ t'.close = .returned true ∧
      ks.countP Teardown.Label.own ≤ 6 ∧ t'.side.client.Settled := by
  obtain ⟨ls, t, ks, t', h, hclose, hrest, -, -, hreturned⟩ := teardown_last_byte
  have hback := close_comes_back h hclose hrest
  exact ⟨ks, t, t', hrest, hreturned, hback.1, hback.2.2 hreturned⟩

end TCPServer
