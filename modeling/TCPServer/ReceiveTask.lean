/-
  The receive threads of both sides, and what they publish for each round.

  `Client.receiveTask` (client.cpp) turns the buffer into a `std::string`, which stops at the
  first zero byte and drops the byte count; `TcpClient.receiveTask` (tcp_client.cpp) hands on
  the buffer with the count.

  `Expected` says what a receive loop is for: one message per `recv` that delivered bytes, in
  order and nothing else, up to the first `recv` that returns 0 or -1; there the flag is
  cleared, one disconnection published, and the loop left. Both tasks do that exactly when the
  first such `recv` returned 0 (`receiveTasks_expected_iff`): -1 stored in a `size_t` is not
  below 1.
-/
import TCPServer.Common

namespace TCPServer

/-- `Client::receiveTask`; the message is `none` when making the string ran past the buffer. -/
def Client.receiveTask (connected : Bool) (os : List Outcome) : List (Action (Option Bytes)) :=
  receiveLoop "Client closed connection" (fun buf _ => cStringIn buf.bytes) connected os

/-- `TcpClient::receiveTask`; the message is the buffer with the byte count. -/
def TcpClient.receiveTask (connected : Bool) (os : List Outcome) : List (Action (Buffer × ℕ)) :=
  receiveLoop "Server closed connection" (fun buf n => (buf, n)) connected os

/-! ## What the loops are for -/

/-- The round ends the connection: `recv` returned 0 or -1. -/
def Outcome.ends : Outcome → Bool
  | .recv r _ => r.ret ≤ 0
  | _ => false

def Outcome.isWaitFailure : Outcome → Bool
  | .waitFailure _ => true
  | _ => false

/-- The message a round calls for: one if `recv` delivered bytes. -/
def Outcome.message {μ : Type} (msgOf : Buffer → ℕ → μ) : Outcome → Option μ
  | .recv (.data c) buf => some (msgOf (buf.recv (.data c)) c.bytes.length)
  | _ => none

/-- The reason for a disconnection that a round calls for. -/
def Outcome.reason (closedText : String) : Outcome → String
  | .recv (.error errno) _ => errno
  | _ => closedText

/-- One message per positive `recv`, in order, before the first round that ends the
    connection; for that round the flag is cleared, one disconnection published and the task
    left. -/
def Expected {μ : Type} (closedText : String) (msgOf : Buffer → ℕ → μ) (os : List Outcome) :
    List (Action μ) :=
  ((os.takeWhile (!·.ends)).filterMap (Outcome.message msgOf)).map .publishMsg ++
    match os.find? (·.ends) with
    | some o => [.clearConnected, .publishDisconnected (o.reason closedText), .ret]
    | none => []

/-- The first round that ends the connection, if there is one, is not an error of `recv`. -/
def EndsClosed (os : List Outcome) : Prop :=
  ∀ errno buf, os.find? (·.ends) ≠ some (.recv (.error errno) buf)

@[simp] theorem ends_timeout : Outcome.ends .timeout = false := rfl

@[simp] theorem ends_data (c : Chunk) (buf : Buffer) :
    Outcome.ends (.recv (.data c) buf) = false := by
  have := c.pos
  exact decide_eq_false (by simp only [RecvResult.ret]; omega)

@[simp] theorem ends_closed (buf : Buffer) : Outcome.ends (.recv .closed buf) = true := rfl

@[simp] theorem ends_error (errno : String) (buf : Buffer) :
    Outcome.ends (.recv (.error errno) buf) = true := rfl

section Loop

variable {μ : Type} (closedText : String) (msgOf : Buffer → ℕ → μ)

theorem expected_timeout (os : List Outcome) :
    Expected closedText msgOf (.timeout :: os) = Expected closedText msgOf os := by
  simp [Expected, List.filterMap_cons, Outcome.message]

theorem expected_data (c : Chunk) (buf : Buffer) (os : List Outcome) :
    Expected closedText msgOf (.recv (.data c) buf :: os) =
      .publishMsg (msgOf (buf.recv (.data c)) c.bytes.length) ::
        Expected closedText msgOf os := by
  simp [Expected, Outcome.message]

theorem expected_closed (buf : Buffer) (os : List Outcome) :
    Expected closedText msgOf (.recv .closed buf :: os) =
      [.clearConnected, .publishDisconnected closedText, .ret] := by
  simp [Expected, List.find?_cons, Outcome.reason]

theorem expected_error (errno : String) (buf : Buffer) (os : List Outcome) :
    Expected closedText msgOf (.recv (.error errno) buf :: os) =
      [.clearConnected, .publishDisconnected errno, .ret] := by
  simp [Expected, List.find?_cons, Outcome.reason]

/-- The loop does what is expected exactly when no error of `recv` comes first. -/
theorem receiveLoop_eq_expected_iff {os : List Outcome}
    (hos : ∀ o ∈ os, o.isWaitFailure = false) :
    receiveLoop closedText msgOf true os = Expected closedText msgOf os ↔ EndsClosed os := by
  induction os with
  | nil => simp [Expected, EndsClosed]
  | cons o os ih =>
    have ih := ih fun o ho => hos o (List.mem_cons_of_mem _ ho)
    cases o with
    | waitFailure e => exact absurd (hos _ List.mem_cons_self) (by simp [Outcome.isWaitFailure])
    | timeout =>
      rw [receiveLoop_timeout, expected_timeout, ih]
      simp [EndsClosed]
    | recv r buf =>
      cases r with
      | data c =>
        rw [receiveLoop_data, expected_data, List.cons.injEq, ih]
        simp [EndsClosed]
      | closed =>
        rw [receiveLoop_closed, expected_closed]
        simp [EndsClosed, List.find?_cons]
      | error e =>
        -- The loop starts with a message where the disconnection is expected.
        rw [receiveLoop_error, expected_error]
        simp [EndsClosed, List.find?_cons]

end Loop

/-- For every sequence of outcomes without a failure of `select`, both receive tasks publish
    one message per positive `recv`, in order, and at the first `recv` that returns 0 or -1
    clear the flag, publish one disconnection and stop, if and only if that `recv` did not
    return -1. -/
theorem receiveTasks_expected_iff (os : List Outcome)
    (hos : ∀ o ∈ os, o.isWaitFailure = false) :
    (Client.receiveTask true os =
        Expected "Client closed connection" (fun buf _ => cStringIn buf.bytes) os ∧
      TcpClient.receiveTask true os =
        Expected "Server closed connection" (fun buf n => (buf, n)) os) ↔
    EndsClosed os := by
  unfold Client.receiveTask TcpClient.receiveTask
  rw [receiveLoop_eq_expected_iff _ _ hos, receiveLoop_eq_expected_iff _ _ hos, and_self]

/-- A buffer of zero bytes. -/
def zeroBuffer : Buffer := ⟨List.replicate MAX_PACKET_SIZE 0, List.length_replicate⟩

/-- A time-out, the message "hi", the end of the stream. -/
def messageThenClosed : List Outcome :=
  [.timeout, .recv (.data ⟨[104, 105], by decide, by decide⟩) zeroBuffer, .recv .closed zeroBuffer]

/-- Both tasks publish the message and stop as they should. -/
theorem receiveTasks_expected_message :
    Client.receiveTask true messageThenClosed =
        Expected "Client closed connection" (fun buf _ => cStringIn buf.bytes)
          messageThenClosed ∧
      TcpClient.receiveTask true messageThenClosed =
        Expected "Server closed connection" (fun buf n => (buf, n)) messageThenClosed ∧
      (messageThenClosed.filterMap (Outcome.message fun buf n => (buf, n))).length = 1 := by
  obtain ⟨hserver, hclient⟩ := (receiveTasks_expected_iff messageThenClosed
    (by simp [messageThenClosed, Outcome.isWaitFailure])).mpr
    (by simp [messageThenClosed, EndsClosed, List.find?_cons])
  exact ⟨hserver, hclient, rfl⟩

/-- One `recv` that fails: neither task publishes the disconnection. -/
theorem receiveTasks_not_expected_error :
    Client.receiveTask true [.recv (.error "Connection reset by peer") zeroBuffer] ≠
        Expected "Client closed connection" (fun buf _ => cStringIn buf.bytes)
          [.recv (.error "Connection reset by peer") zeroBuffer] ∧
      TcpClient.receiveTask true [.recv (.error "Connection reset by peer") zeroBuffer] ≠
        Expected "Server closed connection" (fun buf n => (buf, n))
          [.recv (.error "Connection reset by peer") zeroBuffer] := by
  unfold Client.receiveTask TcpClient.receiveTask
  simp only [receiveLoop_error, expected_error]
  simp

end TCPServer
