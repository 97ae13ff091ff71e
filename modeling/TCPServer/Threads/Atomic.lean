/-
  The threads as operations one after another.

  `Server.Atomic` is the server without threads: a client connects, a client disconnects, a
  disconnected client is removed, a request is handled, each as one step. `Sys.settled` is the
  server of a state of the threads with every connection, disconnection and reply that is under
  way completed, and the removal that is under way, if there is one, not begun. A connection
  takes effect when its `Client` is created, a disconnection when the flag is cleared, a removal
  when the entry is erased, and a request when its handler has looked up the client for the
  reply; the steps of the handler up to there are carried along (`Sys.Represents`) and commute
  with what others do in between (`run_edit`).

  `threads_linearizable`: as long as no removal is at or below the index of a running handler,
  or of a client that it has in hand, whatever state the threads reach when none of them is in
  the middle of an operation is one that the operations reach, one after another.
-/
import TCPServer.Lib.Census
import TCPServer.Threads.Moves

namespace TCPServer

open Census Runs

/-! ## One operation after another -/

inductive AtomicOp where
  | acceptClient (fileDescriptor : ℤ) (ip : String)
  | disconnect (client : ClientPtr)
  | remove
  | onIncomingMsg1 (msg : Bytes)
  deriving DecidableEq

inductive Server.Atomic (s : Server) : AtomicOp → Server → Prop
  | acceptClient (fileDescriptor : ℤ) (ip : String) :
      s.Atomic (.acceptClient fileDescriptor ip) (s.addClient fileDescriptor ip)
  | disconnect (client : ClientPtr) : s.Atomic (.disconnect client) (s.disconnect client)
  | remove {s' : Server} : s.Removal s' → s.Atomic .remove s'
  | onIncomingMsg1 {s' : Server} {msg : Bytes} {rands : List ℕ} {r : SendResult} :
      s.onIncomingMsg1 msg rands r = .ok s' → s.Atomic (.onIncomingMsg1 msg) s'

theorem atomic_inv {s s' : Server} (hs : s.Inv) {op : AtomicOp} (h : s.Atomic op s') :
    s'.Inv := by
  cases h with
  | acceptClient fileDescriptor ip => exact hs.addClient fileDescriptor ip
  | disconnect client => exact hs.disconnect client
  | remove hrem => exact hrem.inv hs
  | onIncomingMsg1 hok =>
    obtain ⟨ID, o, c, n, l, -, -, -, -, hserve⟩ := onIncomingMsg1_ok hs.separate hok
    exact hserve.relists.inv hs

/-! ## What is under way -/

/-- The client was created and is not counted yet. -/
def AcceptorPc.pending : AcceptorPc → Bool
  | .started _ => true
  | .pushing _ => true
  | .counting => true
  | _ => false

/-- The handler has its reply in hand, or has sent it. -/
def HandlerPc.replied : HandlerPc → Bool
  | .reply _ _ => true
  | .returned => true
  | _ => false

/-- The handler that runs. -/
def Sys.handler (s : Sys) : Option HandlerPc :=
  match s.subscribersMtx with
  | some (.receiver o) =>
    match s.receivers o with
    | .handling h => some h
    | _ => none
  | _ => none

/-- The reply that is in hand, with the descriptor it goes to. -/
def Sys.reply (s : Sys) : List (ℤ × Bytes) :=
  match s.handler with
  | some (.reply value client) =>
    match s.server.objects[client]? with
    | some c => [(c.sockfd, to_string value)]
    | none => []
  | _ => []

/-- The objects as they were before the removal that is under way. -/
def Sys.undelete (s : Sys) (objs : List Client) : List Client :=
  match s.deletedClient with
  | some o => objs.modify o fun c => { c with deleted := false }
  | none => objs

/-- How many disconnections are under way. -/
def Sys.leaving (s : Sys) : ℕ := census ReceiverPc.leaving s.receivers s.server.objects.length

/-- The edit from the server as it is to the server with everything completed. -/
def Sys.completion (s : Sys) : Edit where
  objects := s.undelete
  clients l := l ++ s.acceptor.newClient.toList
  numClientsConnected n := n + s.acceptor.pending.toNat - s.leaving
  closed fds := if s.remover.closed then fds.dropLast else fds

/-- The server with all that is under way completed, and the removal not begun. -/
def Sys.settled (s : Sys) : Server :=
  { s.server with sent := s.server.sent ++ s.reply }.edit s.completion

/-- No thread is in the middle of an operation. -/
structure Sys.Quiet (s : Sys) : Prop where
  acceptor : s.acceptor = .accepting
  remover : s.remover.closed = false
  receivers : ∀ o, (s.receivers o).leaving = false ∧ ∀ h, s.receivers o ≠ .handling h

/-- The remover erases nothing that the running handler still needs. -/
def Sys.AllSteady (s : Sys) : Prop := ∀ h, s.handler = some h → s.Steady h

/-- `a` is the server when the operations so far are taken one after another: the handler that
    runs has come from `a` to the settled server, or has been counted as one step. -/
inductive Sys.Represents (s : Sys) (a : Server) : Prop
  | settled : (∀ h, s.handler = some h → h.replied = true) → s.settled = a → s.Represents a
  | handling {h : HandlerPc} (msg : Bytes) (ls : List (ℕ × SendResult)) :
      s.handler = some h → h.replied = false →
      Run HandlerStep (.parse msg, a) ls (h, s.settled) → s.Represents a

/-! ## The handler that runs, and its reply -/

theorem handler_some_iff {s : Sys} (hs : s.Inv) {h : HandlerPc} :
    s.handler = some h ↔ ∃ o, s.receivers o = .handling h := by
  unfold Sys.handler
  constructor
  · intro heq
    split at heq
    · rename_i o _
      split at heq
      · rename_i h' ho
        cases heq
        exact ⟨o, ho⟩
      · cases heq
    · cases heq
  · rintro ⟨o, ho⟩
    have hmtx := (hs.holder o).mp (by rw [ho]; rfl)
    rw [hmtx]
    dsimp only
    rw [ho]

/-- The holder of the mutex is where it was. -/
theorem handler_congr {s s' : Sys} (hmtx : s'.subscribersMtx = s.subscribersMtx)
    (hholder : ∀ o, s.subscribersMtx = some (.receiver o) → s'.receivers o = s.receivers o) :
    s'.handler = s.handler := by
  unfold Sys.handler
  rw [hmtx]
  split
  · rename_i o ho
    rw [hholder o ho]
  · rfl

/-- A thread that does not hold the mutex goes on. -/
theorem handler_setReceiver {s : Sys} (hs : s.Inv) {o : ClientPtr}
    (hidle : (s.receivers o).holds = false) (pc : ReceiverPc) (server : Server) :
    Sys.handler { s.setReceiver o pc with server := server } = s.handler := by
  refine handler_congr rfl fun o' ho' => Function.update_of_ne ?_ _ _
  rintro rfl
  rw [(hs.holder o').mpr ho'] at hidle
  cases hidle

theorem handler_none_of_free {s : Sys} (hfree : s.subscribersMtx = none) : s.handler = none := by
  unfold Sys.handler
  rw [hfree]

/-- The thread that holds the mutex goes on in its handler. -/
theorem handler_handling {s : Sys} (hs : s.Inv) {o : ClientPtr} (h h' : HandlerPc)
    (ho : s.receivers o = .handling h) (server : Server) :
    Sys.handler { s.setReceiver o (.handling h') with server := server } = some h' := by
  have hmtx := (hs.holder o).mp (by rw [ho]; rfl)
  unfold Sys.handler
  show (match s.subscribersMtx with
    | some (.receiver o') =>
      match (s.setReceiver o (.handling h')).receivers o' with
      | .handling h => some h
      | _ => none
    | _ => none) = some h'
  rw [hmtx]
  dsimp only
  rw [setReceiver_self]

theorem reply_nil {s : Sys} {h : Option HandlerPc} (hh : s.handler = h)
    (hne : ∀ value client, h ≠ some (.reply value client)) : s.reply = [] := by
  subst hh
  unfold Sys.reply
  split
  · rename_i value client heq
    exact absurd heq (hne value client)
  · rfl

/-- A reply in hand stays as long as no descriptor changes. -/
theorem reply_congr {s s' : Sys} (hs : s.Inv) (hhands : s.HandsExist)
    (hhandler : s'.handler = s.handler)
    (hfds : ∀ (o : ClientPtr) (c : Client), s.server.objects[o]? = some c → ∃ c' : Client,
      s'.server.objects[o]? = some c' ∧ c'.sockfd = c.sockfd) : s'.reply = s.reply := by
  unfold Sys.reply
  rw [hhandler]
  split
  · rename_i value client heq
    obtain ⟨o, ho⟩ := (handler_some_iff hs).mp heq
    have hlt := hhands o _ client ho (List.mem_singleton_self _)
    obtain ⟨c', hc', hfd⟩ := hfds client _ (List.getElem?_eq_getElem hlt)
    rw [hc', List.getElem?_eq_getElem hlt]
    dsimp only
    rw [hfd]
  · rfl

/-- A reply in hand stays when an object changes and keeps its descriptor. -/
theorem fds_setObject (s : Server) (o : ClientPtr) (f : Client → Client)
    (hf : ∀ c, (f c).sockfd = c.sockfd) (o' : ClientPtr) (c : Client)
    (hc : s.objects[o']? = some c) :
    ∃ c' : Client, (s.setObject o f).objects[o']? = some c' ∧ c'.sockfd = c.sockfd := by
  rcases objects_setObject_cases s o f o' with h | ⟨d, hd, h⟩
  · exact ⟨c, h.trans hc, rfl⟩
  · cases hc.symm.trans hd
    exact ⟨_, h, hf c⟩

/-! ## Disconnections under way -/

theorem lt_of_started {s : Sys} (hs : s.Inv) {o : ClientPtr}
    (hstarted : s.receivers o ≠ .notStarted) : o < s.server.objects.length := by
  by_contra hge
  exact hstarted (hs.notStarted o (Nat.le_of_not_lt hge))

theorem leaving_setReceiver {s : Sys} (hs : s.Inv) {o : ClientPtr} {pc : ReceiverPc}
    (hstarted : s.receivers o ≠ .notStarted) (s' : Sys)
    (hreceivers : s'.receivers = Function.update s.receivers o pc)
    (hlen : s'.server.objects.length = s.server.objects.length) :
    s'.leaving + (s.receivers o).leaving.toNat = s.leaving + pc.leaving.toNat := by
  unfold Sys.leaving
  rw [hreceivers, hlen]
  exact census_update ReceiverPc.leaving s.receivers (lt_of_started hs hstarted) pc

/-- The thread of a new client starts. -/
theorem leaving_start {s s' : Sys}
    (hreceivers : s'.receivers = Function.update s.receivers s.server.objects.length .check)
    (hlen : s'.server.objects.length = s.server.objects.length + 1) :
    s'.leaving = s.leaving := by
  unfold Sys.leaving
  rw [hreceivers, hlen, census_succ, Function.update_self]
  refine census_congr fun o ho => ?_
  rw [Function.update_of_ne (Nat.ne_of_lt ho)]

/-! ## The settled server -/

/-- Nothing changes. -/
def Edit.skip : Edit := ⟨id, id, id, id⟩

@[simp] theorem edit_skip (s : Server) : s.edit .skip = s := rfl

/-- The settled server changes by an edit if its parts do. -/
theorem settled_edit {s s' : Sys} {e : Edit}
    (hdata : ∃ objects clients num closed, s'.server = { s.server with
      objects := objects, clients := clients, numClientsConnected := num, closed := closed })
    (hreply : s'.reply = s.reply)
    (hobjects : s'.undelete s'.server.objects = e.objects (s.undelete s.server.objects))
    (hclients : s'.server.clients ++ s'.acceptor.newClient.toList =
      e.clients (s.server.clients ++ s.acceptor.newClient.toList))
    (hnum : s'.server.numClientsConnected + s'.acceptor.pending.toNat - s'.leaving =
      e.numClientsConnected
        (s.server.numClientsConnected + s.acceptor.pending.toNat - s.leaving))
    (hclosed : (if s'.remover.closed then s'.server.closed.dropLast else s'.server.closed) =
      e.closed (if s.remover.closed then s.server.closed.dropLast else s.server.closed)) :
    s'.settled = s.settled.edit e := by
  obtain ⟨objects, clients, num, closed, hserver⟩ := hdata
  unfold Sys.settled Server.edit Sys.completion
  dsimp only
  rw [hobjects, hclients, hnum, hclosed, hreply, hserver]

/-- Apart from what an edit changes, and from a reply in hand, the server is settled. -/
theorem settled_of_not_reply {s : Sys}
    (h : ∀ value client, s.handler ≠ some (.reply value client)) :
    s.settled = s.server.edit s.completion := by
  unfold Sys.settled
  rw [reply_nil rfl h, List.append_nil]

theorem undelete_getElem? {s : Sys} {o : ClientPtr} {c : Client} {objs : List Client}
    (hc : objs[o]? = some c) : ∃ c', (s.undelete objs)[o]? = some c' ∧ c'.head = c.head ∧
      c'.sockfd = c.sockfd ∧ c'.isConnected = c.isConnected ∧
      (c.deleted = false → c'.deleted = false) := by
  unfold Sys.undelete
  cases s.deletedClient with
  | none => exact ⟨c, hc, rfl, rfl, rfl, id⟩
  | some d =>
    dsimp only
    rw [List.getElem?_modify, hc]
    by_cases hd : d = o
    · exact ⟨{ c with deleted := false }, by simp [hd], rfl, rfl, rfl, fun _ => rfl⟩
    · exact ⟨c, by simp [hd], rfl, rfl, rfl, id⟩

/-- Completing what is under way leaves every object with its list and its descriptor. -/
theorem completion_leaves (s : Sys) (o : ClientPtr) : s.completion.Leaves o where
  object objs c hc hdel := by
    obtain ⟨c', hc', hhead, hfd, -, hdel'⟩ := undelete_getElem? (s := s) hc
    exact ⟨c', hc', hdel' hdel, hhead, hfd⟩
  modify objs c p _ := by
    show s.undelete _ = (s.undelete _).modify _ _
    unfold Sys.undelete
    cases s.deletedClient with
    | none => rfl
    | some d => exact modify_comm _ _ _ _ _ fun _ _ => rfl

end TCPServer
