/-
  What the two sides share: results, waiting on a descriptor, receive buffers and the
  receive loop.

  `Client::receiveTask` (server side, client.cpp) and `TcpClient::receiveTask` (client side,
  tcp_client.cpp) are one loop, `receiveLoop`, with different texts and a different message
  made from the buffer; `Client` and `TcpClient` give each its own definition. The loop takes
  the outcomes of its blocking calls, round by round, and returns what it does.

  `recv` returns a signed number that the loop stores in a `size_t` (`numOfBytesReceived`), so
  the value for an error is `2 ^ 64 - 1` (`sizeT_error`).
-/
import TCPServer.Cpp

namespace TCPServer

/-- `pipe_ret_t`. -/
structure PipeRet where
  successFlag : Bool
  msg : String
  deriving DecidableEq, Repr

def PipeRet.failure (msg : String) : PipeRet := ⟨false, msg⟩

def PipeRet.success (msg : String) : PipeRet := ⟨true, msg⟩

/-- What `::close` returns, and the text of `errno`. -/
structure CloseResult where
  ret : ℤ
  strerror : String
  deriving DecidableEq, Repr

/-- `fd_wait::Result`. -/
inductive WaitResult where
  | FAILURE
  | TIMEOUT
  | SUCCESS
  deriving DecidableEq, Repr

/-! ## Receiving into a buffer -/

def MAX_PACKET_SIZE : ℕ := 4096

/-- `char receivedMessage[MAX_PACKET_SIZE]`. -/
structure Buffer where
  bytes : Bytes
  size : bytes.length = MAX_PACKET_SIZE

/-- Bytes that one `recv` into a buffer can deliver. -/
structure Chunk where
  bytes : Bytes
  pos : 1 ≤ bytes.length
  le : bytes.length ≤ MAX_PACKET_SIZE

/-- What `recv` does: it fails, finds the connection closed, or delivers a chunk. -/
inductive RecvResult where
  | error (errno : String)
  | closed
  | data (chunk : Chunk)

/-- The value `recv` returns. -/
def RecvResult.ret : RecvResult → ℤ
  | .error _ => -1
  | .closed => 0
  | .data c => c.bytes.length

/-- The buffer after `recv`: a chunk overwrites its front, the rest stays as it was. -/
def Buffer.recv (buf : Buffer) : RecvResult → Buffer
  | .data c => ⟨c.bytes ++ buf.bytes.drop c.bytes.length, by
      have := c.le
      have := buf.size
      simp; omega⟩
  | _ => buf

theorem sizeT_error (e : String) : sizeT (RecvResult.error e).ret = 2 ^ 64 - 1 := by
  show sizeT (-1) = 2 ^ 64 - 1
  decide

@[simp] theorem sizeT_closed : sizeT RecvResult.closed.ret = 0 := rfl

@[simp] theorem sizeT_data (c : Chunk) : sizeT (RecvResult.data c).ret = c.bytes.length := by
  have := c.le
  simp only [sizeT, RecvResult.ret, MAX_PACKET_SIZE] at *
  omega

/-! ## The receive loop -/

/-- One round of the loop as its blocking calls end: `waitFor` fails or times out, or `recv`
    is called on a buffer whose content is what earlier calls left there. -/
inductive Outcome where
  | waitFailure (errno : String)
  | timeout
  | recv (r : RecvResult) (buf : Buffer)

/-- What the loop does, for messages of type `μ`. -/
inductive Action (μ : Type) where
  | publishMsg (m : μ)
  | clearConnected
  | publishDisconnected (why : String)
  | ret
  /-- `std::runtime_error` leaves the thread function. -/
  | throws (errno : String)
  deriving DecidableEq, Repr

/-- The loop of both receive tasks, on the value of the connected flag and the outcomes of its
    rounds. `closedText` is the reason given at an end of stream and `msgOf` the message made
    of the buffer and the byte count. -/
def receiveLoop {μ : Type} (closedText : String) (msgOf : Buffer → ℕ → μ) :
    Bool → List Outcome → List (Action μ)
  | false, _ => [.ret]
  | true, [] => []
  | true, .waitFailure errno :: _ => [.throws errno]
  | true, .timeout :: os => receiveLoop closedText msgOf true os
  | true, .recv r buf :: os =>
    let numOfBytesReceived := sizeT r.ret
    let receivedMessage := buf.recv r
    if numOfBytesReceived < 1 then
      let disconnectionMessage := if numOfBytesReceived = 0 then closedText
        else match r with
          | .error errno => errno
          | _ => ""
      [.clearConnected, .publishDisconnected disconnectionMessage, .ret]
    else
      .publishMsg (msgOf receivedMessage numOfBytesReceived) ::
        receiveLoop closedText msgOf true os

section Loop

variable {μ : Type} (closedText : String) (msgOf : Buffer → ℕ → μ)

@[simp] theorem receiveLoop_nil : receiveLoop closedText msgOf true [] = [] := rfl

@[simp] theorem receiveLoop_timeout (os : List Outcome) :
    receiveLoop closedText msgOf true (.timeout :: os) =
      receiveLoop closedText msgOf true os := rfl

@[simp] theorem receiveLoop_closed (buf : Buffer) (os : List Outcome) :
    receiveLoop closedText msgOf true (.recv .closed buf :: os) =
      [.clearConnected, .publishDisconnected closedText, .ret] := by
  simp [receiveLoop]

@[simp] theorem receiveLoop_data (c : Chunk) (buf : Buffer) (os : List Outcome) :
    receiveLoop closedText msgOf true (.recv (.data c) buf :: os) =
      .publishMsg (msgOf (buf.recv (.data c)) c.bytes.length) ::
        receiveLoop closedText msgOf true os := by
  have := c.pos
  simp only [receiveLoop, sizeT_data]
  rw [if_neg (by omega)]

/-- An error of `recv` is not below one once it is a `size_t`: the loop publishes the buffer
    as a message of `2 ^ 64 - 1` bytes and goes on. -/
@[simp] theorem receiveLoop_error (errno : String) (buf : Buffer) (os : List Outcome) :
    receiveLoop closedText msgOf true (.recv (.error errno) buf :: os) =
      .publishMsg (msgOf buf (2 ^ 64 - 1)) :: receiveLoop closedText msgOf true os := by
  simp only [receiveLoop, sizeT_error]
  rw [if_neg (by omega)]
  rfl

end Loop

end TCPServer
