/-
  The server: `Client` objects, `TcpServer`, and its operations (client.h, client.cpp,
  tcp_server.h, tcp_server.cpp), and the request handler of the server runner
  (tests/server_example.cpp).

  Memory. A `Client*` is the position of its `new Client` among all of them, a `Node*` the
  position of its `new Node`. A deleted `Client` keeps its place and is marked, so that using
  it later is seen (`Stop.dangling`); nodes are never freed by the code. `Server` holds the
  fields of `TcpServer` the modelled functions use, this memory, the output files, and what
  was passed to `::send` and `::close`, in order.

  Every operation takes what the world decides as an argument (descriptors, results of system
  calls, results of `rand()`) and returns the new state, or why it does not return (`Exec`).
  Loops along `next` pointers get as many rounds as there are nodes; a list without a cycle
  needs no more (`LinkedStore.chain_length_le`), and running out is `Stop.spins`.

  The handler of the runner is called for every message of every client. It reads the message as
  an ID, draws a number for `_clients[ID]`, writes that client's list to the file named for `ID`,
  sleeps five seconds, sorts the list and writes it again, and sends the number to
  `_clients[ID]`. It resolves `_clients[ID]` five times. Here it is one step;
  `TCPServer.Threads` runs it step by step among other threads.

  Left out: the addresses bound and printed, `myMap` and `operator==`, which nothing modelled
  reads; starting and closing the server.
-/
import TCPServer.Lib.LinkedStore
import TCPServer.Common

namespace TCPServer

open LinkedStore (Node Store)

abbrev NodePtr := ℕ

abbrev ClientPtr := ℕ

abbrev Nodes := Store ℤ

/-- A `Client` object. -/
structure Client where
  sockfd : ℤ
  ip : String
  isConnected : Bool
  head : Option NodePtr
  /-- `delete` was called on it. -/
  deleted : Bool
  deriving DecidableEq, Repr

structure Server where
  nodes : Nodes
  objects : List Client
  /-- `_sockfd` -/
  sockfd : ℤ
  /-- `_fds`: the descriptors that are set in it. -/
  fds : ℤ → Bool
  /-- `_clients` -/
  clients : List ClientPtr
  numClientsConnected : ℤ
  numbers : List ℤ
  files : Bytes → Option Bytes
  sent : List (ℤ × Bytes)
  closed : List ℤ

/-- A started server without clients, its member `_fds` zero-initialised. -/
def Server.init (sockfd : ℤ) : Server where
  nodes := []
  objects := []
  sockfd := sockfd
  fds := fun _ => false
  clients := []
  numClientsConnected := 0
  numbers := []
  files := fun _ => none
  sent := []
  closed := []

/-! ## Pointers -/

/-- What `o` points to. -/
def Server.object (s : Server) (o : ClientPtr) : Exec Client :=
  match s.objects[o]? with
  | some c => if c.deleted then .error .dangling else .ok c
  | none => .error .dangling

def Server.setObject (s : Server) (o : ClientPtr) (f : Client → Client) : Server :=
  { s with objects := s.objects.modify o f }

/-- `_clients[ID]`; a negative `ID` converts to a `size_t` past the end of any vector. -/
def Server.at (s : Server) (ID : CInt) : Exec ClientPtr :=
  if 0 ≤ ID.val then
    match s.clients[ID.val.toNat]? with
    | some o => .ok o
    | none => .error .badIndex
  else .error .badIndex

/-- What `p` points to. -/
def node (h : Nodes) (p : NodePtr) : Exec (Node ℤ) :=
  match h[p]? with
  | some n => .ok n
  | none => .error .dangling

/-- The node a head pointer points to; a null head is dereferenced by its user. -/
def notNull : Option NodePtr → Exec NodePtr
  | some p => .ok p
  | none => .error .nullDeref

/-! ## Accepting and losing clients -/

/-- `TcpServer::waitForClient`. -/
def Server.waitForClient (s : Server) (timeout : ℕ) (waitResult : WaitResult)
    (strerror : String) : PipeRet :=
  if timeout > 0 then
    let noIncomingClient := !s.fds s.sockfd
    match waitResult with
    | .FAILURE => .failure strerror
    | .TIMEOUT => .failure "Timeout waiting for client"
    | .SUCCESS =>
      if noIncomingClient then .failure "File descriptor is not set" else .success ""
  else .success ""

/-- `new Client(fileDescriptor)`, `setIp`, `startListen`, `push_back` and the count, as one
    step. -/
def Server.addClient (s : Server) (fileDescriptor : ℤ) (ip : String) : Server :=
  { s with
    objects := s.objects ++ [⟨fileDescriptor, ip, true, none, false⟩]
    clients := s.clients ++ [s.objects.length]
    numClientsConnected := s.numClientsConnected + 1 }

/-- `TcpServer::acceptClient`, with the result of `waitFor` and the descriptor and address
    that `accept` gives, if it succeeds. -/
def Server.acceptClient (s : Server) (timeout : ℕ) (waitResult : WaitResult)
    (strerror : String) (accepted : Option (ℤ × String)) : Exec Server :=
  let waitingForClient := s.waitForClient timeout waitResult strerror
  if waitingForClient.successFlag then
    match accepted with
    | none => .error (.runtimeError strerror)
    | some (fileDescriptor, ip) => .ok (s.addClient fileDescriptor ip)
  else .error (.runtimeError waitingForClient.msg)

/-- The receive thread of `o` meets the end of the stream: the flag is cleared and
    `clientEventHandler` counts the disconnection. It has no effect on a client that is
    already disconnected, whose thread has ended. -/
def Server.disconnect (s : Server) (o : ClientPtr) : Server :=
  match s.objects[o]? with
  | some c =>
    if c.isConnected && !c.deleted then
      { s.setObject o (fun c => { c with isConnected := false }) with
        numClientsConnected := s.numClientsConnected - 1 }
    else s
  | none => s

def Server.isConnected (s : Server) (o : ClientPtr) : Bool :=
  match s.objects[o]? with
  | some c => c.isConnected
  | none => false

/-- `Client::close` of a client whose receive thread has ended; `closeRet` is what `::close`
    returns for the client's descriptor. -/
def Server.closeClient (s : Server) (o : ClientPtr) (closeRet : ℤ → ℤ) : Exec Server := do
  let c ← s.object o
  if closeRet c.sockfd = -1 then .error (.runtimeError "close")
  else pure { s with closed := s.closed ++ [c.sockfd] }

/-- The do-while loop of one sweep of `TcpServer::removeDeadClients`: close, delete and erase
    the first disconnected client, until there is none or the erased one was the last. -/
def Server.removeLoop (closeRet : ℤ → ℤ) : ℕ → Server → Exec Server
  | 0, _ => .error .spins
  | k + 1, s =>
    let clientToRemove := s.clients.findIdx fun o => !s.isConnected o
    match s.clients[clientToRemove]? with
    | none => .ok s
    | some o => do
      let s ← s.closeClient o closeRet
      let s := s.setObject o fun c => { c with deleted := true }
      let s := { s with clients := s.clients.eraseIdx clientToRemove }
      if clientToRemove ≠ s.clients.length then s.removeLoop closeRet k else pure s

/-- One sweep of `TcpServer::removeDeadClients`. -/
def Server.removeDeadClients (s : Server) (closeRet : ℤ → ℤ) : Exec Server :=
  s.removeLoop closeRet (s.clients.length + 1)

/-! ## Numbers -/

/-- `number` for one result of `rand()`. -/
def candidate (ID : CInt) (rand : ℕ) : ℤ :=
  if ID.val.tmod 2 = 0 then 0 + ((rand % 50 : ℕ) : ℤ) * 2
  else 0 + ((rand % 50 : ℕ) : ℤ) * 2 + 1

/-- `while (tmp->next != nullptr) tmp = tmp->next`. -/
def lastNode (h : Nodes) : ℕ → NodePtr → Exec NodePtr
  | 0, _ => .error .spins
  | k + 1, tmp => do
    let n ← node h tmp
    match n.next with
    | none => pure tmp
    | some next => lastNode h k next

/-- The new node of `generateNumber`, put at the end of the client's list. -/
def Server.appendNode (s : Server) (client : ClientPtr) (number : ℤ) : Exec Server := do
  let newNode := s.nodes.length
  let nodes := LinkedStore.alloc s.nodes number
  let c ← s.object client
  match c.head with
  | none =>
    pure { s.setObject client (fun c => { c with head := some newNode }) with nodes := nodes }
  | some head => do
    let tmp ← lastNode nodes nodes.length head
    pure { s with nodes := LinkedStore.setNext nodes tmp (some newNode) }

/-- One round of the loop of `generateNumber`: the number if it is new. -/
def Server.draw (s : Server) (ID : CInt) (client : ClientPtr) (rand : ℕ) :
    Exec (Option ℤ × Server) :=
  let number := candidate ID rand
  if s.numbers.count number ≠ 0 then pure (none, s)
  else do
    let s ← s.appendNode client number
    pure (some number, { s with numbers := s.numbers ++ [number] })

/-- The loop of `generateNumber` on the results of `rand()`. -/
def Server.generateLoop (ID : CInt) (client : ClientPtr) : List ℕ → Server → Exec (ℤ × Server)
  | [], _ => .error .spins
  | rand :: rands, s => do
    match ← s.draw ID client rand with
    | (some number, s) => pure (number, s)
    | (none, s) => s.generateLoop ID client rands

/-- `TcpServer::generateNumber`. -/
def Server.generateNumber (s : Server) (ID : CInt) (rands : List ℕ) : Exec (ℤ × Server) := do
  let client ← s.at ID
  s.generateLoop ID client rands

/-! ## Sorting a list and writing it to a file -/

/-- The inner loop of `sortList`: `sel` runs to the end and swaps data with `head`. -/
def sortInner (head : NodePtr) : ℕ → Option NodePtr → Nodes → Exec Nodes
  | _, none, nodes => pure nodes
  | 0, some _, _ => .error .spins
  | k + 1, some sel, nodes => do
    let h ← node nodes head
    let n ← node nodes sel
    let nodes := if h.data > n.data then
        LinkedStore.setData (LinkedStore.setData nodes head n.data) sel h.data
      else nodes
    sortInner head k n.next nodes

/-- The outer loop of `sortList`, for `head` and the nodes behind it. -/
def sortOuter : ℕ → NodePtr → Nodes → Exec Nodes
  | 0, _, _ => .error .spins
  | k + 1, head, nodes => do
    let h ← node nodes head
    match h.next with
    | none => pure nodes
    | some sel => do
      let nodes ← sortInner head nodes.length (some sel) nodes
      let h ← node nodes head
      let head ← notNull h.next
      sortOuter k head nodes

/-- `while (head->next != nullptr)` writing data and arrows, then the last data. -/
def writeLoop (h : Nodes) : ℕ → NodePtr → Bytes → Exec Bytes
  | 0, _, _ => .error .spins
  | k + 1, head, clientFile => do
    let n ← node h head
    match n.next with
    | none => pure (clientFile ++ to_string n.data)
    | some next => writeLoop h k next (clientFile ++ to_string n.data ++ bytes "->")

/-- The list from `head` written to the file; opening it empties it. -/
def Server.writeList (s : Server) (head : Option NodePtr) (clientFileName : Bytes) :
    Exec Server := do
  let p ← notNull head
  let text ← writeLoop s.nodes s.nodes.length p []
  pure { s with files := Function.update s.files clientFileName (some text) }

/-- The first half of `sortList`, on the client looked up first: `none` if it returns
    early, else the nodes after sorting. -/
def Server.sortNodes (s : Server) (client : ClientPtr) : Exec (Option Server) := do
  let c ← s.object client
  match c.head with
  | none => pure none
  | some head => do
    let n ← node s.nodes head
    if n.next = none then pure none
    else do
      let nodes ← sortOuter s.nodes.length head s.nodes
      pure (some { s with nodes := nodes })

/-- The second half of `sortList`, on the client looked up again. -/
def Server.writeSorted (s : Server) (client : ClientPtr) (clientFileName : Bytes) :
    Exec Server := do
  let c ← s.object client
  s.writeList c.head clientFileName

/-- `TcpServer::sortList`. -/
def Server.sortList (s : Server) (ID : CInt) (clientFileName : Bytes) : Exec Server := do
  let client ← s.at ID
  match ← s.sortNodes client with
  | none => pure s
  | some s => do
    let client ← s.at ID
    s.writeSorted client clientFileName

/-! ## Sending -/

/-- What `::send` returns, and the text of `errno`. -/
structure SendResult where
  ret : ℤ
  strerror : String

/-- `Client::send`, after the call of `::send`. -/
def Client.send (msg : Bytes) (r : SendResult) : Exec Unit :=
  let numBytesSent := sizeT r.ret
  if numBytesSent < 0 then .error (.runtimeError r.strerror)
  else if numBytesSent < msg.length then
    .error (.runtimeError s!"Only {numBytesSent} bytes out of {msg.length} was sent to client")
  else .ok ()

/-- `TcpServer::sendToClient` for a `Client` object. -/
def Server.sendToClient (s : Server) (client : ClientPtr) (msg : Bytes) (r : SendResult) :
    Exec (PipeRet × Server) := do
  let c ← s.object client
  let s := { s with sent := s.sent ++ [(c.sockfd, msg)] }
  match Client.send msg r with
  | .ok _ => pure (.success "", s)
  | .error (.runtimeError what) => pure (.failure what, s)
  | .error e => .error e

/-! ## Telling the subscribers -/

/-- `server_observer_t`: the address it wants, and which handlers are set. -/
structure ServerObserver where
  wantedIP : String
  incomingPacketHandler : Bool
  disconnectionHandler : Bool
  deriving DecidableEq, Repr

inductive ClientEvent where
  | DISCONNECTED
  | INCOMING_MSG
  deriving DecidableEq, Repr

/-- A call of a handler of the subscriber at a position of `_subscribers`; a message is what
    its pointer points to, up to the terminating zero byte, and the size passed with it. -/
inductive Callback where
  | incomingPacket (subscriber : ℕ) (clientIP : String) (msg : Bytes) (size : ℕ)
  | disconnection (subscriber : ℕ) (ip : String) (msg : Bytes)
  deriving DecidableEq, Repr

/-- `TcpServer::publishClientMsg`, from the subscriber at position `i` on. -/
def publishClientMsg (ip : String) (msg : Bytes) (msgSize : ℕ) :
    ℕ → List ServerObserver → List Callback
  | _, [] => []
  | i, subscriber :: subscribers =>
    if subscriber.wantedIP = ip ∨ subscriber.wantedIP = "" then
      if subscriber.incomingPacketHandler then
        .incomingPacket i ip msg msgSize :: publishClientMsg ip msg msgSize (i + 1) subscribers
      else publishClientMsg ip msg msgSize (i + 1) subscribers
    else publishClientMsg ip msg msgSize (i + 1) subscribers

/-- `TcpServer::publishClientDisconnected`, from the subscriber at position `i` on. -/
def publishClientDisconnected (clientIP : String) (clientMsg : Bytes) :
    ℕ → List ServerObserver → List Callback
  | _, [] => []
  | i, subscriber :: subscribers =>
    if subscriber.wantedIP = clientIP then
      if subscriber.disconnectionHandler then
        .disconnection i clientIP clientMsg ::
          publishClientDisconnected clientIP clientMsg (i + 1) subscribers
      else publishClientDisconnected clientIP clientMsg (i + 1) subscribers
    else publishClientDisconnected clientIP clientMsg (i + 1) subscribers

/-- `TcpServer::clientEventHandler`: the callbacks made, and the count of clients after it. -/
def clientEventHandler (subscribers : List ServerObserver) (numClientsConnected : ℤ)
    (ip : String) (event : ClientEvent) (msg : Bytes) : List Callback × ℤ :=
  match event with
  | .DISCONNECTED => (publishClientDisconnected ip msg 0 subscribers, numClientsConnected - 1)
  | .INCOMING_MSG => (publishClientMsg ip msg msg.length 0 subscribers, numClientsConnected)

/-! ## The runner -/

/-- `std::stoi(msg)` of the handler. -/
def decodeID (msg : Bytes) : Exec CInt := stoi (cString msg)

/-- The name of the file for the client at `ID`. -/
def clientFileName (ID : CInt) : Bytes :=
  if ID.val.tmod 2 = 0 then bytes "(EVEN) CLIENT ID #: " ++ to_string ID.val
  else bytes "(ODD) CLIENT ID #: " ++ to_string ID.val

/-- `onIncomingMsg1`, on the results of `rand()` and of the final `::send`. -/
def Server.onIncomingMsg1 (s : Server) (msg : Bytes) (rands : List ℕ) (r : SendResult) :
    Exec Server := do
  let ID ← decodeID msg
  let client ← s.at ID
  let (value, s) ← s.generateNumber ID rands
  let c ← s.object client
  let s ← s.writeList c.head (clientFileName ID)
  let s ← s.sortList ID (clientFileName ID)
  let theValue := to_string value
  let client ← s.at ID
  let (_, s) ← s.sendToClient client theValue r
  pure s

end TCPServer
