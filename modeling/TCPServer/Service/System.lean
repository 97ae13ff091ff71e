/-
  A started server with all its threads and any subscribers.

  The accepting thread, the remover thread and one receive thread (`receiveTask`) for each
  `Client`, together with the threads of the program that calls the server: one that calls
  `close()`, and any number that call `subscribe`, `printClients`, `sendToAllClients` or
  `sendToClient`. The handlers of the subscribers call no server function that locks, as the
  README asks; a handler that is called with a message may change the lists of the clients and
  the other data of the server (`Server.SameClients`), and may throw. A step of a thread is one
  access to what threads share; waiting
  for a mutex and joining a thread have no step until they are over. What a thread does
  between locking and unlocking without waiting for another thread is one step in
  `Call.run`, and one step for each access in the loops of the remover and of `close()`.

  The peers send and close their connections at any time; `inbox` and `eof` are what has come
  in and was not received yet. `waitFor` times out only while nothing has come in. A failure
  of `select`, `recv` or `::close`, and an exception of a handler, is the `How` of a step. An
  exception that leaves a thread function, and undefined behaviour, end the process
  (`Service.fault`).

  `history` lists the calls of `clientEventHandler`, their returns, and the deletions.

  Left out: failing rounds of `acceptClient`, which change nothing; `::send` on a connection that
  its peer has closed, which raises SIGPIPE and ends the process, is only its result here; the
  creation of a thread can not fail.
-/
import TCPServer.Sending
import TCPServer.Threads.System

namespace TCPServer

open Runs

/-! ## Threads -/

/-- Where `Client::receiveTask` is. -/
inductive TaskPc where
  | notStarted
  /-- `while (isConnected())` -/
  | check
  /-- In `waitFor` and `recv`. -/
  | waiting
  /-- `publishClientMsg` waits for `_subscribersMtx`. -/
  | publishMsg (msg : Bytes)
  /-- The handlers are called. -/
  | calling (msg : Bytes)
  /-- The end of the stream was found; the flag is to be cleared. -/
  | clearFlag
  /-- `publishClientDisconnected` waits for `_subscribersMtx`. -/
  | publishDisconnected
  /-- The handlers are called. -/
  | notifying
  /-- `numClientsConnected--` -/
  | decrement
  | finished
  deriving DecidableEq

/-- Where `TcpServer::removeDeadClients` is. -/
inductive SweepPc where
  /-- `while (!_stopRemoveClientsTask)` -/
  | checking
  | locking
  /-- `find_if` is at a position. -/
  | scanning (i : ℕ)
  /-- `Client::close` of the client at the iterator: its thread is joined, then its descriptor
      is closed. -/
  | joining (i : ℕ)
  | closing (i : ℕ)
  | deleting (i : ℕ)
  | erasing (i : ℕ)
  /-- `while (clientToRemove != _clients.end())` -/
  | comparing (i : ℕ)
  | unlocking
  | sleeping
  | ended
  deriving DecidableEq

/-- Where the thread that calls `TcpServer::close` is; the call returns success or failure. -/
inductive ClosePc where
  | idle
  /-- `if (_clientsRemoverThread)` -/
  | stopping
  | joiningRemover
  | locking
  /-- `Client::close` of the client at a position: its thread is joined, then its descriptor
      is closed. -/
  | joining (i : ℕ)
  | closing (i : ℕ)
  | unlocking (successFlag : Bool)
  /-- `::close(_sockfd.get())` -/
  | closingSocket
  | returned (successFlag : Bool)
  deriving DecidableEq

/-- A call of a server function, with what its calls of `::send` return. -/
inductive Call where
  | subscribe (observer : ServerObserver)
  | printClients
  | sendToAllClients (msg : Bytes) (results : ℕ → SendResult)
  | sendToClient (clientIP : String) (msg : Bytes) (r : SendResult)

/-- `subscribe` locks `_subscribersMtx`, the others lock `_clientsMtx`. -/
def Call.locksClients : Call → Bool
  | .subscribe _ => false
  | _ => true

/-- Where a thread that calls server functions is. -/
inductive CallPc where
  | idle
  | locking (c : Call)
  | running (c : Call)

inductive ThreadId where
  | acceptor
  | remover
  | task (client : ClientPtr)
  | closer
  | caller (n : ℕ)
  deriving DecidableEq

/-! ### What a thread is at -/

def AcceptorPc.holds : AcceptorPc → Bool
  | .pushing _ => true
  | .counting => true
  | .unlocking => true
  | _ => false

/-- The flag of the client is set. -/
def TaskPc.connected : TaskPc → Bool
  | .check => true
  | .waiting => true
  | .publishMsg _ => true
  | .calling _ => true
  | .clearFlag => true
  | _ => false

/-- The thread is inside `clientEventHandler`. -/
def TaskPc.handling : TaskPc → Bool
  | .publishMsg _ => true
  | .calling _ => true
  | .publishDisconnected => true
  | .notifying => true
  | .decrement => true
  | _ => false

/-- The thread has `_subscribersMtx`. -/
def TaskPc.holds : TaskPc → Bool
  | .calling _ => true
  | .notifying => true
  | _ => false

def TaskPc.runs : TaskPc → Bool
  | .notStarted => false
  | .finished => false
  | _ => true

/-- The thread has `_clientsMtx`. -/
def SweepPc.holds : SweepPc → Bool
  | .scanning _ => true
  | .joining _ => true
  | .closing _ => true
  | .deleting _ => true
  | .erasing _ => true
  | .comparing _ => true
  | .unlocking => true
  | _ => false

/-- The iterator, where the client at it is used next. -/
def SweepPc.position : SweepPc → Option ℕ
  | .scanning i => some i
  | .joining i => some i
  | .closing i => some i
  | .deleting i => some i
  | _ => none

/-- The thread has `_clientsMtx`. -/
def ClosePc.holds : ClosePc → Bool
  | .joining _ => true
  | .closing _ => true
  | .unlocking _ => true
  | _ => false

/-- The iterator of the loop over the clients. -/
def ClosePc.position : ClosePc → Option ℕ
  | .joining i => some i
  | .closing i => some i
  | _ => none

def CallPc.holdsClients : CallPc → Bool
  | .running c => c.locksClients
  | _ => false

def CallPc.holdsSubscribers : CallPc → Bool
  | .running c => !c.locksClients
  | _ => false

/-! ## The state -/

/-- What happened to a client. -/
inductive Occurrence where
  /-- `clientEventHandler` was called. -/
  | called (client : ClientPtr) (event : ClientEvent) (msg : Bytes)
  /-- It came back. -/
  | returned (client : ClientPtr) (event : ClientEvent)
  | deleted (client : ClientPtr)
  deriving DecidableEq

def Occurrence.client : Occurrence → ClientPtr
  | .called o _ _ => o
  | .returned o _ => o
  | .deleted o => o

structure Service where
  server : Server
  /-- `_subscribers` -/
  subscribers : List ServerObserver
  /-- The calls of handlers of subscribers. -/
  callbacks : List Callback
  acceptor : AcceptorPc
  remover : SweepPc
  tasks : ClientPtr → TaskPc
  closer : ClosePc
  callers : ℕ → CallPc
  /-- Who holds `_clientsMtx`. -/
  clientsMtx : Option ThreadId
  /-- Who holds `_subscribersMtx`. -/
  subscribersMtx : Option ThreadId
  /-- `_stopRemoveClientsTask` -/
  stop : Bool
  /-- `_clientsRemoverThread` is not null. -/
  removerThread : Bool
  /-- What has come in on the connection that is or will be accepted as a client. -/
  inbox : ClientPtr → List Bytes
  /-- The peer has closed the connection. -/
  eof : ClientPtr → Bool
  history : List Occurrence
  fault : Option (ThreadId × Stop)

/-- After `start`, with or without a remover thread. -/
def Service.init (sockfd : ℤ) (removeDeadClientsAutomatically : Bool) : Service where
  server := .init sockfd
  subscribers := []
  callbacks := []
  acceptor := .accepting
  remover := if removeDeadClientsAutomatically then .checking else .ended
  tasks := fun _ => .notStarted
  closer := .idle
  callers := fun _ => .idle
  clientsMtx := none
  subscribersMtx := none
  stop := false
  removerThread := removeDeadClientsAutomatically
  inbox := fun _ => []
  eof := fun _ => false
  history := []
  fault := none

/-- How a blocking call or a system call of a step ends. -/
inductive How where
  | ok
  | timeout
  /-- `recv` fails on a buffer that holds this string. -/
  | recvError (stale : Bytes)
  /-- `select` or `::close` fails. -/
  | failure (errno : String)
  /-- A handler throws. -/
  | exception (e : Stop)
  deriving DecidableEq

/-- A step of the world or of a thread. -/
inductive Label where
  /-- A connection is accepted. -/
  | connect (fileDescriptor : ℤ) (ip : String)
  | peerSends (client : ClientPtr) (msg : Bytes)
  | peerCloses (client : ClientPtr)
  /-- A server function is called. -/
  | call (n : ℕ) (c : Call)
  | close
  | thread (t : ThreadId) (how : How)

def Service.setTask (s : Service) (o : ClientPtr) (pc : TaskPc) : Service :=
  { s with tasks := Function.update s.tasks o pc }

def Service.setCaller (s : Service) (n : ℕ) (pc : CallPc) : Service :=
  { s with callers := Function.update s.callers n pc }

def Service.fails (s : Service) (t : ThreadId) (e : Stop) : Service :=
  { s with fault := some (t, e) }

/-- The address of a client. -/
def Server.ip (s : Server) (o : ClientPtr) : String :=
  match s.objects[o]? with
  | some c => c.ip
  | none => ""

/-- `delete` of a `Client*`. -/
def Server.deleteClient (s : Server) (o : ClientPtr) : Server :=
  s.setObject o fun c => { c with deleted := true }

/-- `setConnected(false)`. -/
def Server.clearConnected (s : Server) (o : ClientPtr) : Server :=
  s.setObject o fun c => { c with isConnected := false }

/-- `new Client(fileDescriptor)`, `setIp` and `setConnected(true)`. -/
def Server.newClient (s : Server) (fileDescriptor : ℤ) (ip : String) : Server :=
  { s with objects := s.objects ++ [⟨fileDescriptor, ip, true, none, false⟩] }

/-- The text of a disconnection by the peer. -/
def closedText : Bytes := bytes "Client closed connection"

/-- The calls of handlers with a message of the client `o`. -/
def Service.callsFor (s : Service) (o : ClientPtr) (msg : Bytes) : List Callback :=
  publishClientMsg (s.server.ip o) msg msg.length 0 s.subscribers

/-- What a called function does while it has its mutex. -/
def Service.run (s : Service) : Call → Exec Service
  | .subscribe observer => pure { s with subscribers := s.subscribers ++ [observer] }
  | .printClients => do
    let _ ← s.server.clients.mapM s.server.object
    pure s
  | .sendToAllClients msg results => do
    let (_, server) ← s.server.sendToAllClients msg results
    pure { s with server := server }
  | .sendToClient clientIP msg r => do
    let (_, server) ← s.server.sendToClientIP clientIP msg r
    pure { s with server := server }

/-! ## Steps -/

/-- The objects that the next step of a thread uses; what a called function uses is in
    `Service.run`. -/
def Service.Uses (s : Service) : ThreadId → ClientPtr → Prop
  | .remover, o => ∃ i, s.remover.position = some i ∧ s.server.clients[i]? = some o
  | .closer, o => ∃ i, s.closer.position = some i ∧ s.server.clients[i]? = some o
  | .task o', o => o' = o ∧ (s.tasks o).runs = true
  | _, _ => False

/-- What the world does. -/
inductive Service.WorldStep (s : Service) : Label → Service → Prop
  | connects (fileDescriptor : ℤ) (ip : String) : s.acceptor = .accepting →
      s.WorldStep (.connect fileDescriptor ip)
        { s.setTask s.server.objects.length .check with
          server := s.server.newClient fileDescriptor ip
          acceptor := .started s.server.objects.length }
  | peerSends {o : ClientPtr} (msg : Bytes) : s.eof o = false →
      s.WorldStep (.peerSends o msg)
        { s with inbox := Function.update s.inbox o (s.inbox o ++ [msg]) }
  | peerCloses (o : ClientPtr) :
      s.WorldStep (.peerCloses o) { s with eof := Function.update s.eof o true }
  | calls {n : ℕ} (c : Call) : s.callers n = .idle →
      s.WorldStep (.call n c) (s.setCaller n (.locking c))
  | closes : s.closer = .idle ∨ (∃ ok, s.closer = .returned ok) →
      s.WorldStep .close { s with closer := .stopping }

/-- `acceptClient`, from the start of the new client's thread on. -/
inductive Service.AcceptorStep (s : Service) : Service → Prop
  | locks {o : ClientPtr} : s.acceptor = .started o → s.clientsMtx = none →
      s.AcceptorStep { s with clientsMtx := some .acceptor, acceptor := .pushing o }
  | pushes {o : ClientPtr} : s.acceptor = .pushing o →
      s.AcceptorStep { s with
        server := { s.server with clients := s.server.clients ++ [o] }
        acceptor := .counting }
  | counts : s.acceptor = .counting →
      s.AcceptorStep { s with
        server := { s.server with numClientsConnected := s.server.numClientsConnected + 1 }
        acceptor := .unlocking }
  | unlocks : s.acceptor = .unlocking →
      s.AcceptorStep { s with clientsMtx := none, acceptor := .accepting }

/-- `removeDeadClients`. -/
inductive Service.RemoverStep (s : Service) : How → Service → Prop
  | goesOn : s.remover = .checking → s.stop = false →
      s.RemoverStep .ok { s with remover := .locking }
  | ends : s.remover = .checking → s.stop = true →
      s.RemoverStep .ok { s with remover := .ended }
  | locks : s.remover = .locking → s.clientsMtx = none →
      s.RemoverStep .ok { s with clientsMtx := some .remover, remover := .scanning 0 }
  | passes {i : ℕ} {o : ClientPtr} : s.remover = .scanning i →
      s.server.clients[i]? = some o → s.server.isConnected o = true →
      s.RemoverStep .ok { s with remover := .scanning (i + 1) }
  | finds {i : ℕ} {o : ClientPtr} : s.remover = .scanning i →
      s.server.clients[i]? = some o → s.server.isConnected o = false →
      s.RemoverStep .ok { s with remover := .joining i }
  | findsNone {i : ℕ} : s.remover = .scanning i → s.server.clients[i]? = none →
      s.RemoverStep .ok { s with remover := .unlocking }
  | joins {i : ℕ} {o : ClientPtr} : s.remover = .joining i →
      s.server.clients[i]? = some o → s.tasks o = .finished →
      s.RemoverStep .ok { s with remover := .closing i }
  | closes {i : ℕ} {o : ClientPtr} {c : Client} : s.remover = .closing i →
      s.server.clients[i]? = some o → s.server.object o = .ok c →
      s.RemoverStep .ok { s with
        server := { s.server with closed := s.server.closed ++ [c.sockfd] }
        remover := .deleting i }
  | throws {i : ℕ} {o : ClientPtr} (errno : String) : s.remover = .closing i →
      s.server.clients[i]? = some o → s.server.Alive o →
      s.RemoverStep (.failure errno) (s.fails .remover (.runtimeError errno))
  | deletes {i : ℕ} {o : ClientPtr} : s.remover = .deleting i →
      s.server.clients[i]? = some o →
      s.RemoverStep .ok { s with
        server := s.server.deleteClient o
        history := s.history ++ [.deleted o]
        remover := .erasing i }
  | erases {i : ℕ} : s.remover = .erasing i →
      s.RemoverStep .ok { s with
        server := { s.server with clients := s.server.clients.eraseIdx i }
        remover := .comparing i }
  | searchesAgain {i : ℕ} : s.remover = .comparing i → i ≠ s.server.clients.length →
      s.RemoverStep .ok { s with remover := .scanning 0 }
  | wasLast {i : ℕ} : s.remover = .comparing i → i = s.server.clients.length →
      s.RemoverStep .ok { s with remover := .unlocking }
  | unlocks : s.remover = .unlocking →
      s.RemoverStep .ok { s with clientsMtx := none, remover := .sleeping }
  | wakes : s.remover = .sleeping → s.RemoverStep .ok { s with remover := .checking }

/-- `receiveTask` of the client `o`, `publishEvent` and `clientEventHandler`. -/
inductive Service.TaskStep (s : Service) (o : ClientPtr) : How → Service → Prop
  | goesOn : s.tasks o = .check → s.server.isConnected o = true →
      s.TaskStep o .ok (s.setTask o .waiting)
  | leaves : s.tasks o = .check → s.server.isConnected o = false →
      s.TaskStep o .ok (s.setTask o .finished)
  | timesOut : s.tasks o = .waiting → s.inbox o = [] → s.eof o = false →
      s.TaskStep o .timeout (s.setTask o .check)
  | receives {msg : Bytes} {msgs : List Bytes} : s.tasks o = .waiting →
      s.inbox o = msg :: msgs →
      s.TaskStep o .ok { s.setTask o (.publishMsg msg) with
        inbox := Function.update s.inbox o msgs
        history := s.history ++ [.called o .INCOMING_MSG msg] }
  /-- The -1 of `recv` is not below 1 as a `size_t`. -/
  | failsToReceive (stale : Bytes) : s.tasks o = .waiting →
      s.TaskStep o (.recvError stale) { s.setTask o (.publishMsg stale) with
        history := s.history ++ [.called o .INCOMING_MSG stale] }
  | throws (errno : String) : s.tasks o = .waiting →
      s.TaskStep o (.failure errno) (s.fails (.task o) (.runtimeError errno))
  | findsEnd : s.tasks o = .waiting → s.inbox o = [] → s.eof o = true →
      s.TaskStep o .ok (s.setTask o .clearFlag)
  | locks {msg : Bytes} : s.tasks o = .publishMsg msg → s.subscribersMtx = none →
      s.TaskStep o .ok { s.setTask o (.calling msg) with subscribersMtx := some (.task o) }
  | returns {msg : Bytes} {server' : Server} : s.tasks o = .calling msg →
      s.server.SameClients server' → (s.callsFor o msg = [] → server' = s.server) →
      s.TaskStep o .ok { s.setTask o .check with
        server := server'
        callbacks := s.callbacks ++ s.callsFor o msg
        subscribersMtx := none
        history := s.history ++ [.returned o .INCOMING_MSG] }
  /-- The exception of a handler leaves `receiveTask`. -/
  | handlerThrows {msg : Bytes} (e : Stop) : s.tasks o = .calling msg → s.callsFor o msg ≠ [] →
      s.TaskStep o (.exception e) (s.fails (.task o) e)
  | clears : s.tasks o = .clearFlag →
      s.TaskStep o .ok { s.setTask o .publishDisconnected with
        server := s.server.clearConnected o
        history := s.history ++ [.called o .DISCONNECTED closedText] }
  | locksLast : s.tasks o = .publishDisconnected → s.subscribersMtx = none →
      s.TaskStep o .ok { s.setTask o .notifying with subscribersMtx := some (.task o) }
  | notifies : s.tasks o = .notifying →
      s.TaskStep o .ok { s.setTask o .decrement with
        callbacks := s.callbacks ++
          publishClientDisconnected (s.server.ip o) closedText 0 s.subscribers
        subscribersMtx := none }
  | counts : s.tasks o = .decrement →
      s.TaskStep o .ok { s.setTask o .finished with
        server := { s.server with numClientsConnected := s.server.numClientsConnected - 1 }
        history := s.history ++ [.returned o .DISCONNECTED] }

/-- `close`. -/
inductive Service.CloserStep (s : Service) : How → Service → Prop
  | stops : s.closer = .stopping → s.removerThread = true →
      s.CloserStep .ok { s with stop := true, closer := .joiningRemover }
  | hasNoRemover : s.closer = .stopping → s.removerThread = false →
      s.CloserStep .ok { s with closer := .locking }
  | joinsRemover : s.closer = .joiningRemover → s.remover = .ended →
      s.CloserStep .ok { s with removerThread := false, closer := .locking }
  | locks : s.closer = .locking → s.clientsMtx = none →
      s.CloserStep .ok { s with clientsMtx := some .closer, closer := .joining 0 }
  | joins {i : ℕ} {o : ClientPtr} : s.closer = .joining i →
      s.server.clients[i]? = some o → s.tasks o = .finished →
      s.CloserStep .ok { s with closer := .closing i }
  | closes {i : ℕ} {o : ClientPtr} {c : Client} : s.closer = .closing i →
      s.server.clients[i]? = some o → s.server.object o = .ok c →
      s.CloserStep .ok { s with
        server := { s.server with closed := s.server.closed ++ [c.sockfd] }
        closer := .joining (i + 1) }
  /-- The exception of `Client::close` is caught. -/
  | catches {i : ℕ} {o : ClientPtr} (errno : String) : s.closer = .closing i →
      s.server.clients[i]? = some o → s.server.Alive o →
      s.CloserStep (.failure errno) { s with closer := .unlocking false }
  | clears {i : ℕ} : s.closer = .joining i → s.server.clients[i]? = none →
      s.CloserStep .ok { s with
        server := { s.server with clients := [] }, closer := .unlocking true }
  | unlocks : s.closer = .unlocking true →
      s.CloserStep .ok { s with clientsMtx := none, closer := .closingSocket }
  | givesUp : s.closer = .unlocking false →
      s.CloserStep .ok { s with clientsMtx := none, closer := .returned false }
  | closesSocket : s.closer = .closingSocket →
      s.CloserStep .ok { s with
        server := { s.server with closed := s.server.closed ++ [s.server.sockfd] }
        closer := .returned true }
  | failsToClose (errno : String) : s.closer = .closingSocket →
      s.CloserStep (.failure errno) { s with closer := .returned false }

/-- A call of another server function. -/
inductive Service.CallerStep (s : Service) (n : ℕ) : Service → Prop
  | locksClients {c : Call} : s.callers n = .locking c → c.locksClients = true →
      s.clientsMtx = none →
      s.CallerStep n { s.setCaller n (.running c) with clientsMtx := some (.caller n) }
  | locksSubscribers {c : Call} : s.callers n = .locking c → c.locksClients = false →
      s.subscribersMtx = none →
      s.CallerStep n { s.setCaller n (.running c) with subscribersMtx := some (.caller n) }
  | runsOnClients {c : Call} {s' : Service} : s.callers n = .running c →
      c.locksClients = true → s.run c = .ok s' →
      s.CallerStep n { s'.setCaller n .idle with clientsMtx := none }
  | runsOnSubscribers {c : Call} {s' : Service} : s.callers n = .running c →
      c.locksClients = false → s.run c = .ok s' →
      s.CallerStep n { s'.setCaller n .idle with subscribersMtx := none }
  | fails {c : Call} {e : Stop} : s.callers n = .running c → s.run c = .error e →
      s.CallerStep n (s.fails (.caller n) e)

/-- A step, as long as the process has not ended. -/
inductive Service.Step (s : Service) : Label → Service → Prop
  | world {l : Label} {s' : Service} : s.fault = none → s.WorldStep l s' → s.Step l s'
  | acceptor {s' : Service} : s.fault = none → s.AcceptorStep s' →
      s.Step (.thread .acceptor .ok) s'
  | remover {how : How} {s' : Service} : s.fault = none → s.RemoverStep how s' →
      s.Step (.thread .remover how) s'
  | task {o : ClientPtr} {how : How} {s' : Service} : s.fault = none → s.TaskStep o how s' →
      s.Step (.thread (.task o) how) s'
  | closer {how : How} {s' : Service} : s.fault = none → s.CloserStep how s' →
      s.Step (.thread .closer how) s'
  | caller {n : ℕ} {s' : Service} : s.fault = none → s.CallerStep n s' →
      s.Step (.thread (.caller n) .ok) s'
  /-- A thread uses an object that does not exist any more. -/
  | dangles {t : ThreadId} {o : ClientPtr} : s.fault = none → s.Uses t o →
      ¬ s.server.Alive o → s.Step (.thread t .ok) (s.fails t .dangling)

/-- The handlers come back, and have changed nothing. -/
theorem task_returns {s : Service} {o : ClientPtr} {msg : Bytes} (h : s.tasks o = .calling msg) :
    s.TaskStep o .ok { s.setTask o .check with
      callbacks := s.callbacks ++ s.callsFor o msg
      subscribersMtx := none
      history := s.history ++ [.returned o .INCOMING_MSG] } :=
  .returns h (.refl _) fun _ => rfl

/-- A receive thread leaves the list of clients as it is. -/
theorem task_clients {s s' : Service} {o : ClientPtr} {how : How} (h : s.TaskStep o how s') :
    s'.server.clients = s.server.clients := by
  cases h with
  | returns _ hsame _ => exact hsame.clients
  | _ => rfl

def Service.Reachable (s : Service) : Prop :=
  ∃ sockfd automatic, Reaches Service.Step (.init sockfd automatic) s

end TCPServer
