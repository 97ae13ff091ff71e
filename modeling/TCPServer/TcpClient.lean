/-
  A `TcpClient` from its construction to its destruction (tcp_client.h, tcp_client.cpp).

  `connectTo`, `close` and the destructor, in any order and any number, with every way in which
  `connectTo` can end; in between the server may close the connection. `TcpClient` holds the
  members these functions use, and what was done: the threads started and joined, and the calls
  of `socket` and `::close`. A call is one step. `socket` returns a descriptor that is not open,
  and `::close` succeeds.

  In the end everything is given back (`TcpClient.Settled`) exactly when `connectTo` was only
  called on a closed client and never failed after `socket` had succeeded (`settled_iff`): the
  failure paths of `connectTo` close nothing, and `_isClosed` stays set, so that `close()` has
  no effect; a second `connectTo` overwrites the descriptor and the pointer to the thread.

  Left out: the address, the subscribers, the ID and the menu; sending is in `Sending`, the
  receive loop in `ReceiveTask`.
-/
import TCPServer.Lib.Handles
import TCPServer.Lib.Runs
import TCPServer.Common

namespace TCPServer

open Handles Runs

structure TcpClient where
  /-- `_sockfd` -/
  sockfd : ℤ
  isConnected : Bool
  isClosed : Bool
  /-- `_receiveTask`: the number of the thread it points to. -/
  receiveTaskPtr : Option ℕ
  /-- How many receive threads were started. -/
  started : ℕ
  joined : List ℕ
  /-- What `socket` and `::close` did, the last call first. -/
  descriptors : List (Event ℤ)

/-- `TcpClient::TcpClient`. -/
def TcpClient.init : TcpClient where
  sockfd := 0
  isConnected := false
  isClosed := true
  receiveTaskPtr := none
  started := 0
  joined := []
  descriptors := []

/-- How far a call of `connectTo` gets, and the descriptor that `socket` returned. -/
inductive Connecting where
  | socketFailed (strerror : String)
  | addressFailed (fileDescriptor : ℤ)
  | connectFailed (fileDescriptor : ℤ) (strerror : String)
  | connected (fileDescriptor : ℤ)
  deriving DecidableEq, Repr

/-- What `socket` returned, if it succeeded. -/
def Connecting.fileDescriptor : Connecting → Option ℤ
  | .socketFailed _ => none
  | .addressFailed fd => some fd
  | .connectFailed fd _ => some fd
  | .connected fd => some fd

/-- The call fails after `socket` has succeeded. -/
def Connecting.failsLater : Connecting → Bool
  | .addressFailed _ => true
  | .connectFailed _ _ => true
  | _ => false

/-- `TcpClient::initializeSocket`. -/
def TcpClient.initializeSocket (c : TcpClient) : Option ℤ → TcpClient
  | some fd => { c with sockfd := fd, descriptors := .acquired fd :: c.descriptors }
  | none => { c with sockfd := -1 }

def TcpClient.startReceivingMessages (c : TcpClient) : TcpClient :=
  { c with receiveTaskPtr := some c.started, started := c.started + 1 }

def TcpClient.connectTo (c : TcpClient) (how : Connecting) : PipeRet × TcpClient :=
  let c := c.initializeSocket how.fileDescriptor
  match how with
  | .socketFailed strerror => (.failure strerror, c)
  | .addressFailed _ => (.failure "Failed to resolve hostname", c)
  | .connectFailed _ strerror => (.failure strerror, c)
  | .connected _ =>
    (.success "", { c.startReceivingMessages with isConnected := true, isClosed := false })

def TcpClient.terminateReceiveThread (c : TcpClient) : TcpClient :=
  let c := { c with isConnected := false }
  match c.receiveTaskPtr with
  | some t => { c with joined := t :: c.joined, receiveTaskPtr := none }
  | none => c

/-- `TcpClient::close`, with what `::close` returns. -/
def TcpClient.close (c : TcpClient) (r : CloseResult) : PipeRet × TcpClient :=
  if c.isClosed then (.failure "client is already closed", c)
  else
    let c := c.terminateReceiveThread
    let closeFailed := decide (r.ret = -1)
    let c := { c with descriptors := .released c.sockfd (!closeFailed) :: c.descriptors }
    if closeFailed then (.failure r.strerror, c) else (.success "", { c with isClosed := true })

/-- `::close` succeeds. -/
def CloseResult.success : CloseResult := ⟨0, ""⟩

/-- `TcpClient::~TcpClient`. -/
def TcpClient.destroyed (c : TcpClient) : TcpClient := (c.close .success).2

/-! ## Runs -/

inductive TcpClient.Label where
  | connectTo (how : Connecting)
  /-- The receive thread finds that the server has closed the connection. -/
  | disconnected
  | close

inductive TcpClient.Step (c : TcpClient) : TcpClient.Label → TcpClient → Prop
  | connectTo (how : Connecting)
      (hfd : ∀ fd, how.fileDescriptor = some fd → 0 ≤ fd ∧ held c.descriptors fd = false) :
      c.Step (.connectTo how) (c.connectTo how).2
  | disconnected : c.Step .disconnected { c with isConnected := false }
  | close : c.Step .close (c.close .success).2

/-- Every descriptor from `socket` was closed exactly once, no other was, and every receive
    thread was joined. -/
structure TcpClient.Settled (c : TcpClient) : Prop where
  sound : Sound c.descriptors
  closed : ∀ fd, c.descriptors.count (.acquired fd) = c.descriptors.count (.released fd true)
  joined : ∀ t < c.started, t ∈ c.joined

/-- `connectTo` is called on a closed client and does not fail after `socket`. -/
def ConnectsClosed (c : TcpClient) (l : TcpClient.Label) (_ : TcpClient) : Prop :=
  ∀ how, l = .connectTo how → c.isClosed = true ∧ how.failsLater = false

/-! ## Nothing is lost -/

/-- A closed client has nothing, an open one the descriptor and the thread that it knows of. -/
structure TcpClient.Tidy (c : TcpClient) : Prop where
  sound : Sound c.descriptors
  succeeded : ∀ fd, .released fd false ∉ c.descriptors
  held_iff : ∀ fd, held c.descriptors fd = true ↔ c.isClosed = false ∧ fd = c.sockfd
  nonneg : c.isClosed = false → 0 ≤ c.sockfd
  started : ∀ t < c.started, t ∈ c.joined ∨ c.isClosed = false ∧ c.receiveTaskPtr = some t

/-- A descriptor is open that the client will never close. -/
def TcpClient.Leaks (c : TcpClient) : Prop :=
  ∃ fd, 0 ≤ fd ∧ held c.descriptors fd = true ∧ (c.isClosed = true ∨ c.sockfd ≠ fd)

section Close

variable {c : TcpClient}

theorem close_of_closed (h : c.isClosed = true) (r : CloseResult) : (c.close r).2 = c := by
  unfold TcpClient.close
  rw [if_pos h]

/-- What a call of `close()` on an open client does. -/
theorem close_of_open (h : c.isClosed = false) :
    (c.close .success).2 =
      { c with
        isConnected := false
        isClosed := true
        receiveTaskPtr := none
        joined := c.receiveTaskPtr.toList ++ c.joined
        descriptors := .released c.sockfd true :: c.descriptors } := by
  unfold TcpClient.close TcpClient.terminateReceiveThread
  rw [if_neg (by rw [h]; nofun)]
  cases c.receiveTaskPtr <;> rfl

end Close

section Tidy

variable {c c' : TcpClient} {l : TcpClient.Label}

theorem init_tidy : TcpClient.init.Tidy :=
  ⟨trivial, nofun, fun _ => ⟨nofun, nofun⟩, nofun, nofun⟩

/-- An entry that is not a failed release leaves the log without one. -/
theorem succeeded_cons {es : List (Event ℤ)} (h : ∀ fd, .released fd false ∉ es) {e : Event ℤ}
    (he : ∀ fd, .released fd false ≠ e) : ∀ fd, .released fd false ∉ e :: es :=
  fun fd hmem => (List.mem_cons.mp hmem).elim (he fd) (h fd)

theorem TcpClient.Tidy.close (hc : c.Tidy) : (c.close .success).2.Tidy := by
  cases hclosed : c.isClosed with
  | true =>
    rw [close_of_closed hclosed]
    exact hc
  | false =>
    rw [close_of_open hclosed]
    refine ⟨⟨(hc.held_iff c.sockfd).mpr ⟨hclosed, rfl⟩, hc.sound⟩,
      succeeded_cons hc.succeeded (by simp), fun fd => ?_, nofun, ?_⟩
    · refine ⟨fun hheld => ?_, nofun⟩
      obtain ⟨hne, hheld⟩ := held_released_iff.mp hheld
      exact absurd ((hc.held_iff fd).mp hheld).2 hne
    · intro t ht
      rcases hc.started t ht with hjoined | ⟨-, hptr⟩
      · exact .inl (List.mem_append_right _ hjoined)
      · refine .inl (List.mem_append_left _ ?_)
        rw [hptr]
        exact List.mem_singleton_self t

theorem TcpClient.Tidy.connectTo (hc : c.Tidy) {how : Connecting}
    (hfd : ∀ fd, how.fileDescriptor = some fd → 0 ≤ fd ∧ held c.descriptors fd = false)
    (hclosed : c.isClosed = true) (hhow : how.failsLater = false) :
    (c.connectTo how).2.Tidy := by
  cases how with
  | socketFailed strerror =>
    refine ⟨hc.sound, hc.succeeded, fun fd => ?_, fun hopen => ?_, fun t ht => ?_⟩
    · refine (hc.held_iff fd).trans ⟨fun h => ?_, fun h => ?_⟩ <;>
        exact absurd (hclosed.symm.trans h.1) nofun
    · exact absurd (hclosed.symm.trans hopen) nofun
    · exact hc.started t ht
  | addressFailed fd => cases hhow
  | connectFailed fd strerror => cases hhow
  | connected fd =>
    obtain ⟨hpos, hfresh⟩ := hfd fd rfl
    have hnone : ∀ fd', held c.descriptors fd' ≠ true := fun fd' hheld =>
      absurd (hclosed.symm.trans ((hc.held_iff fd').mp hheld).1) nofun
    refine ⟨⟨hfresh, hc.sound⟩, succeeded_cons hc.succeeded nofun, fun fd' => ?_, fun _ => hpos,
      fun t ht => ?_⟩
    · refine held_acquired_iff.trans ⟨fun h => ⟨rfl, h.resolve_right (hnone fd')⟩, fun h => ?_⟩
      exact .inl h.2
    · rcases Nat.lt_succ_iff_lt_or_eq.mp ht with hlt | rfl
      · refine .inl ((hc.started t hlt).resolve_right fun h => ?_)
        exact absurd (hclosed.symm.trans h.1) nofun
      · exact .inr ⟨rfl, rfl⟩

theorem tidy_step (hc : c.Tidy) (h : c.Step l c') (hcond : ConnectsClosed c l c') :
    c'.Tidy := by
  cases h with
  | connectTo how hfd =>
    obtain ⟨hclosed, hhow⟩ := hcond how rfl
    exact hc.connectTo hfd hclosed hhow
  | disconnected => exact ⟨hc.sound, hc.succeeded, hc.held_iff, hc.nonneg, hc.started⟩
  | close => exact hc.close

theorem TcpClient.Tidy.settled (hc : c.Tidy) : c.destroyed.Settled := by
  have htidy : c.destroyed.Tidy := hc.close
  have hclosed : c.destroyed.isClosed = true := by
    unfold TcpClient.destroyed
    cases hclosed : c.isClosed with
    | true =>
      rw [close_of_closed hclosed]
      exact hclosed
    | false => rw [close_of_open hclosed]
  have hnone : ∀ fd, held c.destroyed.descriptors fd = false := fun fd =>
    Bool.eq_false_iff.mpr fun hheld =>
      absurd (hclosed.symm.trans ((htidy.held_iff fd).mp hheld).1) nofun
  refine ⟨htidy.sound, htidy.sound.count_eq_of_none hnone htidy.succeeded, fun t ht => ?_⟩
  · refine (htidy.started t ht).resolve_right fun h => ?_
    exact absurd (hclosed.symm.trans h.1) nofun

end Tidy

/-! ## A lost descriptor -/

section Leaks

variable {c c' : TcpClient} {l : TcpClient.Label}

/-- A descriptor that is open and not the new one of `connectTo` is lost by the call. -/
theorem leaks_connectTo {how : Connecting} {fd : ℤ} (hpos : 0 ≤ fd)
    (hheld : held c.descriptors fd = true)
    (hfd : ∀ fd, how.fileDescriptor = some fd → 0 ≤ fd ∧ held c.descriptors fd = false) :
    (c.connectTo how).2.Leaks := by
  have hne : ∀ fd', how.fileDescriptor = some fd' → fd' ≠ fd := by
    rintro fd' hfd' rfl
    rw [(hfd fd' hfd').2] at hheld
    cases hheld
  cases how with
  | socketFailed strerror =>
    refine ⟨fd, hpos, hheld, .inr fun hsockfd => ?_⟩
    have hminus : (-1 : ℤ) = fd := hsockfd
    omega
  | addressFailed fd' =>
    exact ⟨fd, hpos, held_acquired_iff.mpr (.inr hheld), .inr (hne fd' rfl)⟩
  | connectFailed fd' strerror =>
    exact ⟨fd, hpos, held_acquired_iff.mpr (.inr hheld), .inr (hne fd' rfl)⟩
  | connected fd' =>
    exact ⟨fd, hpos, held_acquired_iff.mpr (.inr hheld), .inr (hne fd' rfl)⟩

theorem leaks_of_step (hc : c.Tidy) (h : c.Step l c') (hcond : ¬ ConnectsClosed c l c') :
    c'.Leaks := by
  cases h with
  | connectTo how hfd =>
    cases hclosed : c.isClosed with
    | false =>
      have hheld := (hc.held_iff c.sockfd).mpr ⟨hclosed, rfl⟩
      exact leaks_connectTo (hc.nonneg hclosed) hheld hfd
    | true =>
      -- The failure paths leave `_isClosed` set.
      cases how with
      | addressFailed fd =>
        exact ⟨fd, (hfd fd rfl).1, held_acquired_iff.mpr (.inl rfl), .inl hclosed⟩
      | connectFailed fd strerror =>
        exact ⟨fd, (hfd fd rfl).1, held_acquired_iff.mpr (.inl rfl), .inl hclosed⟩
      | socketFailed strerror =>
        refine absurd (fun how' h => ?_) hcond
        cases h
        exact ⟨hclosed, rfl⟩
      | connected fd =>
        refine absurd (fun how' h => ?_) hcond
        cases h
        exact ⟨hclosed, rfl⟩
  | disconnected => exact absurd nofun hcond
  | close => exact absurd nofun hcond

theorem TcpClient.Leaks.close (hc : c.Leaks) : (c.close .success).2.Leaks := by
  obtain ⟨fd, hpos, hheld, hlost⟩ := hc
  cases hclosed : c.isClosed with
  | true =>
    rw [close_of_closed hclosed]
    exact ⟨fd, hpos, hheld, hlost⟩
  | false =>
    have hne : c.sockfd ≠ fd := hlost.resolve_left (by rw [hclosed]; nofun)
    rw [close_of_open hclosed]
    exact ⟨fd, hpos, held_released_iff.mpr ⟨hne.symm, hheld⟩, .inl rfl⟩

theorem leaks_step (hc : c.Leaks) (h : c.Step l c') : c'.Leaks := by
  cases h with
  | connectTo how hfd =>
    obtain ⟨fd, hpos, hheld, -⟩ := hc
    exact leaks_connectTo hpos hheld hfd
  | disconnected => exact hc
  | close => exact hc.close

theorem TcpClient.Leaks.not_settled (hc : c.Leaks) : ¬ c.destroyed.Settled := by
  intro hsettled
  obtain ⟨fd, -, hheld, -⟩ := hc.close
  have hcount := hsettled.sound.count_eq fd
  rw [hsettled.closed fd, show held c.destroyed.descriptors fd = true from hheld,
    Bool.toNat_true, releases] at hcount
  omega

end Leaks

/-- For every run of a client followed by its destructor: every descriptor that `socket`
    returned was closed exactly once and no other was, and all receive threads were joined, if
    and only if `connectTo` was only called on a closed client, and each call failed at `socket`
    or succeeded. -/
theorem settled_iff {ls : List TcpClient.Label} {c : TcpClient}
    (h : Run TcpClient.Step .init ls c) :
    c.destroyed.Settled ↔ Run (Along TcpClient.Step ConnectsClosed) .init ls c :=
  run_along_iff_of_trap (I := TcpClient.Tidy) (T := TcpClient.Leaks)
    (fun _ _ _ hc h hcond => tidy_step hc h hcond)
    (fun _ _ _ hc h hcond => leaks_of_step hc h hcond) (fun _ _ _ hc h => leaks_step hc h)
    (fun _ hc => hc.settled) (fun _ hc => hc.not_settled) init_tidy h

/-- A connection that the server closes, `close()`, and a second connection. -/
theorem settled_after_reconnect :
    ∃ ls c, Run TcpClient.Step .init ls c ∧ c.started = 2 ∧ c.destroyed.Settled := by
  have hfresh : ∀ {es : List (Event ℤ)}, held es 3 = false →
      ∀ fd, (Connecting.connected 3).fileDescriptor = some fd → 0 ≤ fd ∧ held es fd = false := by
    rintro es hes fd ⟨⟩
    exact ⟨by decide, hes⟩
  have hcond : ∀ {c c' : TcpClient}, c.isClosed = true →
      ConnectsClosed c (.connectTo (.connected 3)) c' := by
    rintro c c' hclosed how ⟨⟩
    exact ⟨hclosed, rfl⟩
  obtain ⟨ls, c, hrun, hstarted⟩ :
      ∃ ls c, Run (Along TcpClient.Step ConnectsClosed) .init ls c ∧ c.started = 2 :=
    ⟨_, _, .cons ⟨.connectTo (.connected 3) (hfresh rfl), hcond rfl⟩ (.cons
      ⟨.disconnected, nofun⟩ (.cons ⟨.close, nofun⟩ (.cons
      ⟨.connectTo (.connected 3) (hfresh rfl), hcond rfl⟩ (.nil _)))), rfl⟩
  exact ⟨ls, c, hrun.of_along, hstarted, (settled_iff hrun.of_along).mpr hrun⟩

/-- The host name can not be resolved: the descriptor stays open. -/
theorem not_settled_after_failure :
    ¬ ∀ ls c, Run TcpClient.Step .init ls c → c.destroyed.Settled := by
  intro h
  have hsettled := h _ _ (.cons (.connectTo (.addressFailed 3) (by
    rintro fd ⟨⟩
    decide)) (.nil _))
  exact absurd (hsettled.closed 3) (by decide)

end TCPServer
