/-
  The threads of the server process, step by step.

  The accepting thread, the remover thread and one receive thread for each `Client`; the
  runner's one observer, which gets the messages of all clients and no disconnections. A step
  of a thread is one access to what threads share: a mutex, a flag, `_clients`, a `Client`
  object. `_clients[ID]` in the handler is read without a lock. Waiting for a mutex and joining
  a thread have no step until they are over.

  `_subscribersMtx` is held while the observer is called, so one handler runs at a time;
  `_clientsMtx` is held by the remover for a whole sweep, in which it joins receive threads.
  An exception that leaves a thread function, and undefined behaviour, end the process
  (`Sys.fault`, with the thread).

  `HandlerPc.step` is `onIncomingMsg1` cut at its lookups of `_clients[ID]` and its uses of the
  `Client` objects they gave.

  Left out: console output, and the runner's `printClients` with it; starting and closing the
  server; SIGPIPE, which `::send` raises on a connection that its peer has closed and which ends
  the process at that point. Before the thread of a new client runs, nothing else sees the
  object, so `new Client` to the start of its thread is one step. Writing a file is one step
  here; `TCPServer.Threads.Files` has the file open before it.
-/
import TCPServer.Machine

namespace TCPServer

open Runs

/-! ## The handler -/

/-- Where the handler is, with the locals it still needs. -/
inductive HandlerPc where
  | parse (msg : Bytes)
  | lookup (ID : CInt)
  /-- `generateNumber`: its own lookup, then the rounds of its loop. -/
  | generateLookup (ID : CInt) (client : ClientPtr)
  | draw (ID : CInt) (client generateClient : ClientPtr)
  | write (ID : CInt) (client : ClientPtr) (value : ℤ)
  | sleep (ID : CInt) (value : ℤ)
  /-- `sortList`: a lookup, sorting, a second lookup, writing. -/
  | sortLookup (ID : CInt) (value : ℤ)
  | sort (ID : CInt) (value : ℤ) (client : ClientPtr)
  | sortAgain (ID : CInt) (value : ℤ)
  | sortWrite (ID : CInt) (value : ℤ) (client : ClientPtr)
  | replyLookup (ID : CInt) (value : ℤ)
  | reply (value : ℤ) (client : ClientPtr)
  | returned
  deriving DecidableEq

/-- One step of the handler, with the next result of `rand()` and of `::send`. -/
def HandlerPc.step (s : Server) (rand : ℕ) (r : SendResult) :
    HandlerPc → Exec (HandlerPc × Server)
  | .parse msg => do
    let ID ← decodeID msg
    pure (.lookup ID, s)
  | .lookup ID => do
    let client ← s.at ID
    pure (.generateLookup ID client, s)
  | .generateLookup ID client => do
    let generateClient ← s.at ID
    pure (.draw ID client generateClient, s)
  | .draw ID client generateClient => do
    match ← s.draw ID generateClient rand with
    | (some value, s) => pure (.write ID client value, s)
    | (none, s) => pure (.draw ID client generateClient, s)
  | .write ID client value => do
    let c ← s.object client
    let s ← s.writeList c.head (clientFileName ID)
    pure (.sleep ID value, s)
  | .sleep ID value => pure (.sortLookup ID value, s)
  | .sortLookup ID value => do
    let client ← s.at ID
    pure (.sort ID value client, s)
  | .sort ID value client => do
    match ← s.sortNodes client with
    | none => pure (.replyLookup ID value, s)
    | some s => pure (.sortAgain ID value, s)
  | .sortAgain ID value => do
    let client ← s.at ID
    pure (.sortWrite ID value client, s)
  | .sortWrite ID value client => do
    let s ← s.writeSorted client (clientFileName ID)
    pure (.replyLookup ID value, s)
  | .replyLookup ID value => do
    let client ← s.at ID
    pure (.reply value client, s)
  | .reply value client => do
    let (_, s) ← s.sendToClient client (to_string value) r
    pure (.returned, s)
  | .returned => pure (.returned, s)

/-! ## Threads -/

inductive ReceiverPc where
  | notStarted
  /-- `while (isConnected())` -/
  | check
  /-- In `waitFor` and `recv`. -/
  | waiting
  /-- `publishClientMsg` waits for `_subscribersMtx`. -/
  | publishMsg (msg : Bytes)
  /-- The observer's handler runs. -/
  | handling (h : HandlerPc)
  /-- The end of the stream was found; the flag is to be cleared. -/
  | clearFlag
  /-- `publishClientDisconnected` waits for `_subscribersMtx`. -/
  | publishDisconnected
  /-- `publishClientDisconnected` holds it. -/
  | notifying
  /-- `numClientsConnected--` -/
  | decrement
  | finished
  deriving DecidableEq

/-- The thread has `_subscribersMtx`. -/
def ReceiverPc.holds : ReceiverPc → Bool
  | .handling _ => true
  | .notifying => true
  | _ => false

inductive AcceptorPc where
  /-- In `accept`. -/
  | accepting
  /-- The receive thread of the new client runs; `_clientsMtx` is to be locked. -/
  | started (newClient : ClientPtr)
  | pushing (newClient : ClientPtr)
  | counting
  | unlocking
  deriving DecidableEq

/-- The client that is accepted and not yet listed. -/
def AcceptorPc.newClient : AcceptorPc → Option ClientPtr
  | .started o => some o
  | .pushing o => some o
  | _ => none

inductive RemoverPc where
  | sleeping
  | locking
  /-- `find_if` is at a position. -/
  | scanning (i : ℕ)
  /-- `Client::close`: the receive thread of the client at position `i` is joined, then its
      descriptor is closed. -/
  | joining (i : ℕ) (client : ClientPtr)
  | closing (i : ℕ) (client : ClientPtr)
  | deleting (i : ℕ) (client : ClientPtr)
  | erasing (i : ℕ)
  /-- `while (clientToRemove != _clients.end())` -/
  | comparing (i : ℕ)
  | unlocking
  deriving DecidableEq

inductive Tid where
  | acceptor
  | remover
  | receiver (client : ClientPtr)
  deriving DecidableEq

structure Sys where
  server : Server
  acceptor : AcceptorPc
  remover : RemoverPc
  receivers : ClientPtr → ReceiverPc
  /-- Who holds `_clientsMtx`. -/
  clientsMtx : Option Tid
  /-- Who holds `_subscribersMtx`. -/
  subscribersMtx : Option Tid
  fault : Option (Tid × Stop)

def Sys.init (sockfd : ℤ) : Sys where
  server := .init sockfd
  acceptor := .accepting
  remover := .locking
  receivers := fun _ => .notStarted
  clientsMtx := none
  subscribersMtx := none
  fault := none

/-- How `waitFor` and `recv` end. -/
inductive ReceiveEvent where
  | timeout
  | message (msg : Bytes)
  | endOfStream
  | waitFailure (errno : String)
  deriving DecidableEq

/-- A step of a thread, with what the world decides about it. -/
inductive Act where
  | acceptor (fileDescriptor : ℤ) (ip : String)
  | remover (closeRet : ℤ → ℤ)
  | receiver (client : ClientPtr) (event : ReceiveEvent) (rand : ℕ) (r : SendResult)

def Sys.setReceiver (s : Sys) (o : ClientPtr) (pc : ReceiverPc) : Sys :=
  { s with receivers := Function.update s.receivers o pc }

@[simp] theorem setReceiver_self (s : Sys) (o : ClientPtr) (pc : ReceiverPc) :
    (s.setReceiver o pc).receivers o = pc :=
  Function.update_self _ _ _

theorem setReceiver_ne (s : Sys) {o o' : ClientPtr} (ho : o' ≠ o) (pc : ReceiverPc) :
    (s.setReceiver o pc).receivers o' = s.receivers o' :=
  Function.update_of_ne ho _ _

def Sys.fails (s : Sys) (t : Tid) (e : Stop) : Sys := { s with fault := some (t, e) }

/-- The accepting thread: `acceptClient` in a loop. -/
def Sys.acceptorStep (s : Sys) (fileDescriptor : ℤ) (ip : String) : Option Sys :=
  match s.acceptor with
  | .accepting =>
    let newClient := s.server.objects.length
    let server := { s.server with
      objects := s.server.objects ++ [⟨fileDescriptor, ip, true, none, false⟩] }
    some { s.setReceiver newClient .check with server := server, acceptor := .started newClient }
  | .started newClient =>
    if s.clientsMtx = none then
      some { s with clientsMtx := some .acceptor, acceptor := .pushing newClient }
    else none
  | .pushing newClient =>
    let server := { s.server with clients := s.server.clients ++ [newClient] }
    some { s with server := server, acceptor := .counting }
  | .counting =>
    let server := { s.server with numClientsConnected := s.server.numClientsConnected + 1 }
    some { s with server := server, acceptor := .unlocking }
  | .unlocking => some { s with clientsMtx := none, acceptor := .accepting }

/-- The remover thread: `removeDeadClients`. -/
def Sys.removerStep (s : Sys) (closeRet : ℤ → ℤ) : Option Sys :=
  match s.remover with
  | .sleeping => some { s with remover := .locking }
  | .locking =>
    if s.clientsMtx = none then
      some { s with clientsMtx := some .remover, remover := .scanning 0 }
    else none
  | .scanning i =>
    match s.server.clients[i]? with
    | none => some { s with remover := .unlocking }
    | some client =>
      match s.server.object client with
      | .error e => some (s.fails .remover e)
      | .ok c =>
        if c.isConnected then some { s with remover := .scanning (i + 1) }
        else some { s with remover := .joining i client }
  | .joining i client =>
    if s.receivers client = .finished then some { s with remover := .closing i client } else none
  | .closing i client =>
    match s.server.closeClient client closeRet with
    | .error e => some (s.fails .remover e)
    | .ok server => some { s with server := server, remover := .deleting i client }
  | .deleting i client =>
    let server := s.server.setObject client fun c => { c with deleted := true }
    some { s with server := server, remover := .erasing i }
  | .erasing i =>
    let server := { s.server with clients := s.server.clients.eraseIdx i }
    some { s with server := server, remover := .comparing i }
  | .comparing i =>
    if i ≠ s.server.clients.length then some { s with remover := .scanning 0 }
    else some { s with remover := .unlocking }
  | .unlocking => some { s with clientsMtx := none, remover := .sleeping }

/-- The receive thread of `o`, whose object exists: `Client::receiveTask`, and the callbacks. -/
def Sys.receiverStep (s : Sys) (o : ClientPtr) (c : Client) (event : ReceiveEvent) (rand : ℕ)
    (r : SendResult) : Option Sys :=
  match s.receivers o with
  | .notStarted => none
  | .check => some (s.setReceiver o (if c.isConnected then .waiting else .finished))
  | .waiting =>
    match event with
    | .timeout => some (s.setReceiver o .check)
    | .message msg => some (s.setReceiver o (.publishMsg msg))
    | .endOfStream => some (s.setReceiver o .clearFlag)
    | .waitFailure errno => some (s.fails (.receiver o) (.runtimeError errno))
  | .publishMsg msg =>
    if s.subscribersMtx = none then
      some { s.setReceiver o (.handling (.parse msg)) with
        subscribersMtx := some (.receiver o) }
    else none
  | .handling .returned => some { s.setReceiver o .check with subscribersMtx := none }
  | .handling h =>
    match h.step s.server rand r with
    | .error e => some (s.fails (.receiver o) e)
    | .ok (h, server) => some { s.setReceiver o (.handling h) with server := server }
  | .clearFlag =>
    let server := s.server.setObject o fun c => { c with isConnected := false }
    some { s.setReceiver o .publishDisconnected with server := server }
  | .publishDisconnected =>
    if s.subscribersMtx = none then
      some { s.setReceiver o .notifying with subscribersMtx := some (.receiver o) }
    else none
  | .notifying => some { s.setReceiver o .decrement with subscribersMtx := none }
  | .decrement =>
    let server := { s.server with numClientsConnected := s.server.numClientsConnected - 1 }
    some { s.setReceiver o .finished with server := server }
  | .finished => none

/-- A step of a thread. A receive thread that goes on after its `Client` was deleted uses it. -/
def Sys.step (s : Sys) (a : Act) : Option Sys :=
  if s.fault.isSome then none else
  match a with
  | .acceptor fileDescriptor ip => s.acceptorStep fileDescriptor ip
  | .remover closeRet => s.removerStep closeRet
  | .receiver o event rand r =>
    if s.receivers o = .notStarted ∨ s.receivers o = .finished then none
    else
      match s.server.object o with
      | .error e => some (s.fails (.receiver o) e)
      | .ok c => s.receiverStep o c event rand r

abbrev Sys.Step (s : Sys) (a : Act) (s' : Sys) : Prop := s.step a = some s'

def Sys.Reachable (s : Sys) : Prop := ∃ sockfd, Reaches Sys.Step (.init sockfd) s

end TCPServer
