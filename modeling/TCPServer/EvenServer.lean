/-
  `evenServer` of the server runner: start the server, register `observer1`, accept clients.

  `EvenServer` is the server with the place in `evenServer`, the global `observer1`, what each
  receive thread has yet to publish, and the calls of the handlers; `start` may fail in every way,
  and so may `acceptClient`, whose exception is caught. A receive thread first gets bytes and then
  has `onIncomingMsg1` called, which waits for the mutex; if `recv` fails it goes on with what the
  buffer has. `evenServer` uses the client that it got from `acceptClient` in a later step, when
  it may be deleted. `subscribe` stores a copy of `observer1`, with an empty `wantedIP`. The
  address that the loop assigns to `observer1` after each client does not get there.

  `even_server_calls`: so each text that a receive thread gets is given to `onIncomingMsg1` once
  and in order, or is the last one and waits, with the address its client was accepted from, and
  `onClientDisconnected` is never called. When `start` has failed, the loop goes on without ever
  having a client.

  Left out: what `onIncomingMsg1` does (`Handler`), beyond not coming back; and what is printed.
-/
import TCPServer.Lifecycle
import TCPServer.Subscribers

namespace TCPServer

open Runs

/-- Where `evenServer` is. -/
inductive EvenServerPc where
  /-- `server.start(port, maxClients, removeClients)` -/
  | starting
  /-- `server.subscribe(observer1)` -/
  | subscribing
  /-- `server.acceptClient(0)` -/
  | accepting
  /-- `client->getIp()` -/
  | accepted (client : ClientPtr)
  deriving DecidableEq

def EvenServerPc.registered : EvenServerPc → Bool
  | .starting => false
  | .subscribing => false
  | _ => true

/-- What a receive thread has yet to publish. -/
inductive Publication where
  | message (msg : Bytes)
  | disconnection (why : String)

structure EvenServer where
  server : TcpServer
  /-- `_subscribers` -/
  subscribers : List ServerObserver
  observer1 : ServerObserver
  pc : EvenServerPc
  due : ClientPtr → Option Publication
  /-- The calls of the handlers so far, in order, each with the client whose thread makes it. -/
  calls : List (ClientPtr × Callback)
  /-- An exception or undefined behaviour has ended the process. -/
  ended : Bool

def EvenServer.init : EvenServer where
  server := .init
  subscribers := []
  observer1 := ⟨"", false, false⟩
  pc := .starting
  due := fun _ => none
  calls := []
  ended := false

inductive EvenServer.Label where
  | starts (setUp : SetUp)
  | subscribes
  | accepts (fileDescriptor : ℤ) (ip : String)
  | acceptFails (strerror : String)
  /-- `evenServer` uses the client it has accepted. -/
  | uses
  /-- The receive thread of a client gets the bytes `chunk`, none if `recv` fails, with `behind`
      behind them in the buffer. -/
  | recv (client : ClientPtr) (chunk behind : Bytes)
  | endOfStream (client : ClientPtr)
  /-- `select` fails in it. -/
  | waitFailure (client : ClientPtr)
  /-- It publishes; a handler that does not come back has thrown. -/
  | publishes (client : ClientPtr) (comesBack : Bool)
  | removes (r : CloseResult)

/-- `observer1` with its two handlers. -/
def EvenServer.configured (s : EvenServer) : ServerObserver :=
  { s.observer1 with incomingPacketHandler := true, disconnectionHandler := true }

/-- The calls of the handlers that an event of a client leads to. -/
def EvenServer.callsFor (s : EvenServer) (ip : String) (event : ClientEvent) (msg : Bytes) :
    List Callback :=
  (clientEventHandler s.subscribers s.server.server.numClientsConnected ip event msg).1

/-- A receive thread is in `waitFor` and `recv`. -/
def EvenServer.Receives (s : EvenServer) (client : ClientPtr) : Prop :=
  s.due client = none ∧ ∃ c, s.server.server.object client = .ok c ∧ c.isConnected = true

def EvenServer.setDue (s : EvenServer) (client : ClientPtr) (due : Option Publication) :
    EvenServer :=
  { s with due := Function.update s.due client due }

/-- `inet_ntoa` gives no empty text. -/
inductive EvenServer.Move (s : EvenServer) : EvenServer.Label → EvenServer → Prop
  | starts {server : TcpServer} (setUp : SetUp) : s.pc = .starting →
      s.server.Move (.start true setUp) server →
      s.Move (.starts setUp) { s with server := server, pc := .subscribing }
  | subscribes : s.pc = .subscribing →
      s.Move .subscribes { s with
        observer1 := s.configured
        subscribers := s.subscribers ++ [s.configured]
        pc := .accepting }
  | accepts {server : TcpServer} (fileDescriptor : ℤ) (ip : String) : s.pc = .accepting →
      ip ≠ "" → s.server.Move (.acceptClient fileDescriptor ip) server →
      s.Move (.accepts fileDescriptor ip) { s with
        server := server, pc := .accepted s.server.server.objects.length }
  | acceptFails (strerror : String) : s.pc = .accepting → s.Move (.acceptFails strerror) s
  | uses {client : ClientPtr} {c : Client} : s.pc = .accepted client →
      s.server.server.object client = .ok c →
      s.Move .uses { s with
        observer1 := { s.observer1 with wantedIP := c.ip }, pc := .accepting }
  | usesInVain {client : ClientPtr} {e : Stop} : s.pc = .accepted client →
      s.server.server.object client = .error e → s.Move .uses { s with ended := true }
  | recv (client : ClientPtr) (chunk behind : Bytes) : s.Receives client →
      s.Move (.recv client chunk behind)
        (s.setDue client (some (.message (cString (chunk ++ behind)))))
  | endOfStream (client : ClientPtr) : s.Receives client →
      s.Move (.endOfStream client)
        (s.setDue client (some (.disconnection "Client closed connection")))
  | waitFailure (client : ClientPtr) : s.Receives client →
      s.Move (.waitFailure client) { s with ended := true }
  | message {c : Client} {msg : Bytes} (client : ClientPtr) (comesBack : Bool) :
      s.due client = some (.message msg) → s.server.server.object client = .ok c →
      s.Move (.publishes client comesBack) { s.setDue client none with
        calls := s.calls ++ (s.callsFor c.ip .INCOMING_MSG msg).map (client, ·)
        ended := !comesBack }
  /-- The flag is cleared, the disconnection is published and the client counted out. -/
  | disconnection {c : Client} {why : String} {server : TcpServer} (client : ClientPtr)
      (comesBack : Bool) :
      s.due client = some (.disconnection why) → s.server.server.object client = .ok c →
      s.server.Move (.disconnect client) server →
      s.Move (.publishes client comesBack) { s.setDue client none with
        server := server
        calls := s.calls ++ (s.callsFor c.ip .DISCONNECTED (bytes why)).map (client, ·)
        ended := !comesBack }
  | removes {server : TcpServer} (r : CloseResult) : s.server.Move (.remove r) server →
      s.Move (.removes r) { s with server := server }

/-- A move of a process that is still there. -/
def EvenServer.Step (s : EvenServer) (l : EvenServer.Label) (s' : EvenServer) : Prop :=
  (s.ended = false ∧ s.server.gone = false) ∧ s.Move l s'

/-- The addresses the clients were accepted from. -/
def Server.ips (s : Server) : List String := s.objects.map Client.ip

def EvenServer.ip (s : EvenServer) (client : ClientPtr) : String :=
  (s.server.server.ips[client]?).getD ""

/-- The calls made by the thread of a client. -/
def EvenServer.callsOf (s : EvenServer) (client : ClientPtr) : List Callback :=
  (s.calls.filter fun call => call.1 = client).map Prod.snd

/-- The message that is yet to be given to a handler. -/
def messageDue : Option Publication → List Bytes
  | some (.message msg) => [msg]
  | _ => []

/-- A call of `onIncomingMsg1`. -/
def onIncomingMsg1Call (ip : String) (msg : Bytes) : Callback :=
  .incomingPacket 0 ip msg msg.length

/-- The text that the thread of a client gets in a step. -/
def EvenServer.Label.text (client : ClientPtr) : EvenServer.Label → Option Bytes
  | .recv client' chunk behind =>
    if client' = client then some (cString (chunk ++ behind)) else none
  | _ => none

/-- The texts that the thread of a client has got, in order. -/
def textsOf (client : ClientPtr) (ls : List EvenServer.Label) : List Bytes :=
  ls.filterMap (EvenServer.Label.text client)

/-- The address of the client accepted in a step. -/
def EvenServer.Label.ip : EvenServer.Label → Option String
  | .accepts _ ip => some ip
  | _ => none

structure EvenServer.Inv (s : EvenServer) : Prop where
  /-- What is subscribed has no address. -/
  subscribed : s.subscribers = if s.pc.registered then [anyObserver] else []
  fresh : s.pc.registered = false →
    s.observer1 = ⟨"", false, false⟩ ∧ s.server.server.objects = []
  listening : s.server.listening = false → s.server.server.objects = []
  named : ∀ ip ∈ s.server.server.ips, ip ≠ ""
  accepted : ∀ client, s.pc = .accepted client → client + 1 = s.server.server.ips.length
  last : (∀ client, s.pc ≠ .accepted client) →
    s.observer1.wantedIP = (s.server.server.ips.getLast?).getD ""
  due : ∀ client, s.due client ≠ none → client < s.server.server.ips.length

section Moves

variable {s s' : Server}

theorem ips_setObject (o : ClientPtr) {f : Client → Client} (hf : ∀ c, (f c).ip = c.ip) :
    (s.setObject o f).ips = s.ips := by
  unfold Server.ips
  refine List.ext_getElem? fun i => ?_
  rw [List.getElem?_map, List.getElem?_map]
  rcases objects_setObject_cases s o f i with h | ⟨c, hc, h⟩
  · rw [h]
  · rw [h, hc, Option.map_some, Option.map_some, hf]

theorem ips_disconnect (o : ClientPtr) : (s.disconnect o).ips = s.ips := by
  unfold Server.disconnect
  split
  · split
    · exact ips_setObject o fun _ => rfl
    · rfl
  · rfl

theorem Server.Removal.ips (h : s.Removal s') : s'.ips = s.ips := by
  obtain ⟨i, o, c, -, -, -, rfl⟩ := h
  exact ips_setObject o fun _ => rfl

/-- The address of a client that is there. -/
theorem ips_of_object {o : ClientPtr} {c : Client} (h : s.object o = .ok c) :
    s.ips[o]? = some c.ip := by
  unfold Server.ips
  rw [List.getElem?_map, (object_ok_iff.mp h).1]
  rfl

theorem objects_of_ips (h : s'.ips = s.ips) (hs : s.objects = []) : s'.objects = [] := by
  unfold Server.ips at h
  rw [hs] at h
  exact List.map_eq_nil_iff.mp h

/-- A disconnection and a removal leave the addresses and the listening socket. -/
theorem ips_of_move {s s' : TcpServer} {l : TcpServer.Label} (h : s.Move l s')
    (hl : (∃ o, l = .disconnect o) ∨ ∃ r, l = .remove r) :
    s'.server.ips = s.server.ips ∧ s'.listening = s.listening := by
  rcases hl with ⟨o, rfl⟩ | ⟨r, rfl⟩
  · cases h with
    | disconnect _ => exact ⟨ips_disconnect o, rfl⟩
  · cases h with
    | removes _ _ _ _ _ => exact ⟨ips_setObject _ fun _ => rfl, rfl⟩
    | throws _ _ _ _ _ => exact ⟨rfl, rfl⟩

theorem ips_of_start {s s' : TcpServer} {a : Bool} {setUp : SetUp}
    (h : s.Move (.start a setUp) s') : s'.server.ips = s.server.ips := by
  cases h with
  | start _ _ _ =>
    obtain ⟨sockfd, hserver⟩ := start_server s a setUp
    show (s.start a setUp).2.server.ips = s.server.ips
    rw [hserver]
    rfl

/-- An accepted client is the last one. -/
theorem ips_of_accept {s s' : TcpServer} {fileDescriptor : ℤ} {ip : String}
    (h : s.Move (.acceptClient fileDescriptor ip) s') :
    s'.server.ips = s.server.ips ++ [ip] ∧ s'.listening = true := by
  cases h with
  | acceptClient _ _ hlistening _ => exact ⟨List.map_append, hlistening⟩

end Moves

section Run

variable {s s' : EvenServer} {l : EvenServer.Label} {ls : List EvenServer.Label}

theorem even_init_inv : EvenServer.init.Inv where
  subscribed := rfl
  fresh _ := ⟨rfl, rfl⟩
  listening _ := rfl
  named := nofun
  accepted := nofun
  last _ := rfl
  due _ h := absurd rfl h

/-- Whatever leaves the addresses and the listening socket keeps the invariant. -/
theorem EvenServer.Inv.keep (hs : s.Inv) {server : TcpServer} {calls : List (ClientPtr × Callback)}
    {due : ClientPtr → Option Publication} {ended : Bool}
    (hips : server.server.ips = s.server.server.ips)
    (hlistening : server.listening = s.server.listening)
    (hdue : ∀ client, due client ≠ none → client < s.server.server.ips.length) :
    ({ s with server := server, calls := calls, due := due, ended := ended } : EvenServer).Inv where
  subscribed := hs.subscribed
  fresh hpc := ⟨(hs.fresh hpc).1, objects_of_ips hips (hs.fresh hpc).2⟩
  listening h := objects_of_ips hips (hs.listening (hlistening.symm.trans h))
  named := by rw [hips]; exact hs.named
  accepted := by rw [hips]; exact hs.accepted
  last := by rw [hips]; exact hs.last
  due := by rw [hips]; exact hdue

/-- There is a client only once `observer1` is registered, and nothing else is. -/
theorem EvenServer.Inv.subscribed_of_object (hs : s.Inv) {o : ClientPtr} {c : Client}
    (h : s.server.server.object o = .ok c) : s.subscribers = [anyObserver] := by
  have hpc : s.pc.registered = true := by
    by_contra hpc
    have hget := (object_ok_iff.mp h).1
    rw [(hs.fresh (Bool.eq_false_iff.mpr hpc)).2] at hget
    cases hget
  rw [hs.subscribed, if_pos hpc]

theorem lt_of_object_ips {s : Server} {o : ClientPtr} {c : Client} (h : s.object o = .ok c) :
    o < s.ips.length := by
  have hlt := lt_of_object h
  unfold Server.ips
  rwa [List.length_map]

theorem ip_of_object {o : ClientPtr} {c : Client} (h : s.server.server.object o = .ok c) :
    s.ip o = c.ip := by
  unfold EvenServer.ip
  rw [ips_of_object h]
  rfl

theorem callsFor_message (hsub : s.subscribers = [anyObserver]) (ip : String) (msg : Bytes) :
    s.callsFor ip .INCOMING_MSG msg = [onIncomingMsg1Call ip msg] := by
  unfold EvenServer.callsFor clientEventHandler
  rw [hsub]
  dsimp only
  have hgets : anyObserver.gets ip = true := by simp [ServerObserver.gets, anyObserver]
  rw [publishClientMsg_cons, if_pos hgets]
  rfl

theorem callsFor_disconnection (hsub : s.subscribers = [anyObserver]) {ip : String}
    (hip : ip ≠ "") (msg : Bytes) : s.callsFor ip .DISCONNECTED msg = [] := by
  have hnot : anyObserver.told ip = false := by
    unfold ServerObserver.told anyObserver
    simp [Ne.symm hip]
  unfold EvenServer.callsFor clientEventHandler
  rw [hsub]
  dsimp only
  rw [publishClientDisconnected_cons, hnot]
  rfl

theorem setDue_due (client client' : ClientPtr) (due : Option Publication) :
    (s.setDue client due).due client' = if client' = client then due else s.due client' := by
  unfold EvenServer.setDue
  exact Function.update_apply _ _ _ _

theorem EvenServer.Inv.setDue (hs : s.Inv) {client : ClientPtr} {due : Option Publication}
    (hdue : due ≠ none → client < s.server.server.ips.length) (client' : ClientPtr)
    (h : (s.setDue client due).due client' ≠ none) : client' < s.server.server.ips.length := by
  rw [setDue_due] at h
  split at h
  · rename_i heq
    rw [heq]
    exact hdue h
  · exact hs.due client' h

theorem EvenServer.Receives.lt (h : s.Receives client) : client < s.server.server.ips.length := by
  obtain ⟨-, c, hc, -⟩ := h
  exact lt_of_object_ips hc

/-- `start` leaves the addresses; there are none yet. -/
theorem EvenServer.Inv.starts (hs : s.Inv) (hpc : s.pc = .starting) {server : TcpServer}
    (hips : server.server.ips = s.server.server.ips) :
    ({ s with server := server, pc := .subscribing } : EvenServer).Inv := by
  obtain ⟨hobserver, hnone⟩ := hs.fresh (by rw [hpc]; rfl)
  have hnone' := objects_of_ips hips hnone
  refine ⟨?_, fun _ => ⟨hobserver, hnone'⟩, fun _ => hnone', by rw [hips]; exact hs.named, nofun,
    fun _ => ?_, by rw [hips]; exact hs.due⟩
  · show s.subscribers = _
    rw [hs.subscribed, hpc]
    rfl
  · rw [hips]
    exact hs.last (by rw [hpc]; nofun)

/-- An accepted client comes last, and is yet to be used. -/
theorem EvenServer.Inv.accepts (hs : s.Inv) (hpc : s.pc = .accepting) {server : TcpServer}
    {ip : String} (hip : ip ≠ "") (hlistening : server.listening = true)
    (hips : server.server.ips = s.server.server.ips ++ [ip]) :
    ({ s with server := server, pc := .accepted s.server.server.objects.length } :
      EvenServer).Inv := by
  refine ⟨?_, nofun, fun h => ?_, ?_, fun client hclient => ?_, fun h => absurd rfl (h _), ?_⟩
  · show s.subscribers = _
    rw [hs.subscribed, hpc]
    rfl
  · cases hlistening.symm.trans h
  · rw [hips]
    intro ip' hmem
    rcases List.mem_append.mp hmem with hmem | hmem
    · exact hs.named ip' hmem
    · rwa [List.mem_singleton.mp hmem]
  · cases hclient
    rw [hips, List.length_append]
    unfold Server.ips
    rw [List.length_map]
    rfl
  · rw [hips, List.length_append]
    exact fun client hdue => Nat.lt_add_right _ (hs.due client hdue)

theorem EvenServer.Move.inv (h : s.Move l s') (hs : s.Inv) : s'.Inv := by
  cases h with
  | starts setUp hpc hmove => exact hs.starts hpc (ips_of_start hmove)
  | subscribes hpc =>
    obtain ⟨hobserver, hnone⟩ := hs.fresh (by rw [hpc]; rfl)
    have hlast := hs.last (by rw [hpc]; nofun)
    refine ⟨?_, nofun, hs.listening, hs.named, nofun, fun _ => hlast, hs.due⟩
    rw [hs.subscribed, hpc]
    unfold EvenServer.configured
    rw [hobserver]
    rfl
  | accepts fileDescriptor ip hpc hip hmove =>
    obtain ⟨hips, hlistening⟩ := ips_of_accept hmove
    exact hs.accepts hpc hip hlistening hips
  | acceptFails strerror hpc => exact hs
  | @uses client c hpc hc =>
    refine ⟨?_, nofun, hs.listening, hs.named, nofun, fun _ => ?_, hs.due⟩
    · rw [hs.subscribed, hpc]
      rfl
    · have hlen := hs.accepted client hpc
      show c.ip = _
      rw [List.getLast?_eq_getElem?, ← hlen, Nat.add_sub_cancel, ips_of_object hc]
      rfl
  | usesInVain hpc he => exact hs.keep rfl rfl hs.due
  | recv client chunk behind hrec => exact hs.keep rfl rfl (hs.setDue fun _ => hrec.lt)
  | endOfStream client hrec => exact hs.keep rfl rfl (hs.setDue fun _ => hrec.lt)
  | waitFailure client hrec => exact hs.keep rfl rfl hs.due
  | message client comesBack hdue hc => exact hs.keep rfl rfl (hs.setDue fun h => absurd rfl h)
  | disconnection client comesBack hdue hc hmove =>
    obtain ⟨hips, hlistening⟩ := ips_of_move hmove (.inl ⟨client, rfl⟩)
    exact hs.keep hips hlistening (hs.setDue fun h => absurd rfl h)
  | removes r hmove =>
    obtain ⟨hips, hlistening⟩ := ips_of_move hmove (.inr ⟨r, rfl⟩)
    exact hs.keep hips hlistening hs.due

theorem EvenServer.Move.ips (h : s.Move l s') :
    s'.server.server.ips = s.server.server.ips ++ l.ip.toList := by
  cases h with
  | starts setUp _ hmove => exact (ips_of_start hmove).trans (List.append_nil _).symm
  | accepts fileDescriptor ip _ _ hmove => exact (ips_of_accept hmove).1
  | disconnection client comesBack _ _ hmove =>
    have hips := (ips_of_move hmove (.inl ⟨client, rfl⟩)).1
    exact hips.trans (List.append_nil _).symm
  | removes r hmove =>
    have hips := (ips_of_move hmove (.inr ⟨r, rfl⟩)).1
    exact hips.trans (List.append_nil _).symm
  | _ => exact (List.append_nil _).symm

/-- What the thread of a client has given to `onIncomingMsg1`, and what it has yet to give. -/
def EvenServer.given (s : EvenServer) (client : ClientPtr) : List Callback :=
  s.callsOf client ++ (messageDue (s.due client)).map (onIncomingMsg1Call (s.ip client))

theorem callsOf_append (calls : List (ClientPtr × Callback)) (client client' : ClientPtr)
    (new : List Callback) :
    ((calls ++ new.map (client', ·)).filter fun call => call.1 = client).map Prod.snd =
      ((calls.filter fun call => call.1 = client).map Prod.snd) ++
        if client' = client then new else [] := by
  rw [List.filter_append, List.map_append, List.filter_map, List.map_map]
  by_cases h : client' = client
  · rw [if_pos h]
    simp [Function.comp_def, h]
  · rw [if_neg h]
    simp [Function.comp_def, h]

/-- The address of a client that has something to publish stays. -/
theorem ip_stays (hips : s.server.server.ips <+: s'.server.server.ips) {client : ClientPtr}
    (h : client < s.server.server.ips.length) : s'.ip client = s.ip client := by
  obtain ⟨more, hmore⟩ := hips
  unfold EvenServer.ip
  rw [← hmore, List.getElem?_append_left h]

theorem given_congr (hs : s.Inv) (hcalls : s'.calls = s.calls) (hdue : s'.due = s.due)
    (hips : s.server.server.ips <+: s'.server.server.ips) (client : ClientPtr) :
    s'.given client = s.given client := by
  unfold EvenServer.given EvenServer.callsOf
  rw [hcalls, hdue]
  congr 1
  cases hclient : s.due client with
  | none => rfl
  | some publication =>
    rw [ip_stays hips (hs.due client (by rw [hclient]; exact Option.some_ne_none _))]

/-- A thread that gives what it had and gets something to give. -/
theorem given_setDue {client : ClientPtr} (client' : ClientPtr) {due : Option Publication}
    (new : List Callback) (got : List Bytes) (hcalls : s'.calls = s.calls ++ new.map (client', ·))
    (hdue : s'.due = Function.update s.due client' due)
    (hips : s'.server.server.ips = s.server.server.ips)
    (hnew : new ++ (messageDue due).map (onIncomingMsg1Call (s.ip client')) =
      (messageDue (s.due client') ++ got).map (onIncomingMsg1Call (s.ip client'))) :
    s'.given client = s.given client ++
      if client' = client then got.map (onIncomingMsg1Call (s.ip client)) else [] := by
  unfold EvenServer.given EvenServer.callsOf
  have hip : s'.ip client = s.ip client := by
    unfold EvenServer.ip
    rw [hips]
  rw [hip, hcalls, hdue, callsOf_append, Function.update_apply, List.append_assoc,
    List.append_assoc]
  congr 1
  by_cases h : client' = client
  · subst h
    rw [if_pos rfl, if_pos rfl, if_pos rfl, hnew, List.map_append]
  · rw [if_neg h, if_neg h, if_neg (Ne.symm h), List.nil_append, List.append_nil]

/-- What is given grows by the text that is received. -/
theorem EvenServer.Move.given (h : s.Move l s') (hs : s.Inv) (client : ClientPtr) :
    s'.given client =
      s.given client ++ (l.text client).toList.map (onIncomingMsg1Call (s.ip client)) := by
  have hsame : s'.calls = s.calls → s'.due = s.due → s'.given client = s.given client :=
    fun hcalls hdue => given_congr hs hcalls hdue ⟨_, h.ips.symm⟩ client
  cases h with
  | recv client' chunk behind hrec =>
    have htext : (EvenServer.Label.recv client' chunk behind).text client =
        if client' = client then some (cString (chunk ++ behind)) else none := rfl
    refine Eq.trans (given_setDue (s := s) client' [] [cString (chunk ++ behind)]
      (List.append_nil _).symm rfl rfl ?_) ?_
    · rw [hrec.1]
      rfl
    · rw [htext]
      split <;> rfl
  | endOfStream client' hrec =>
    refine Eq.trans (given_setDue (s := s) client' [] []
      (List.append_nil _).symm rfl rfl ?_) (by rw [List.map_nil, ite_self]; rfl)
    rw [hrec.1]
    rfl
  | @message c msg client' comesBack hdue hc =>
    refine Eq.trans (given_setDue (s := s) client' _ [] rfl rfl rfl ?_)
      (by rw [List.map_nil, ite_self]; rfl)
    rw [callsFor_message (hs.subscribed_of_object hc), hdue, ip_of_object hc]
    rfl
  | @disconnection c why server client' comesBack hdue hc hmove =>
    have hname := hs.named _ (List.mem_of_getElem? (ips_of_object hc))
    have hips := (ips_of_move hmove (.inl ⟨client', rfl⟩)).1
    refine Eq.trans (given_setDue (s := s) client' _ [] rfl rfl hips ?_)
      (by rw [List.map_nil, ite_self]; rfl)
    rw [callsFor_disconnection (hs.subscribed_of_object hc) hname, hdue]
    rfl
  | _ => exact (hsame rfl rfl).trans (List.append_nil _).symm

/-- A thread that gets a text is that of a client. -/
theorem EvenServer.Move.lt_of_text (h : s.Move l s') {client : ClientPtr} {text : Bytes}
    (htext : l.text client = some text) : client < s.server.server.ips.length := by
  cases h with
  | recv client' chunk behind hrec =>
    unfold EvenServer.Label.text at htext
    dsimp only at htext
    split at htext
    · rename_i heq
      rw [← heq]
      exact hrec.lt
    · cases htext
  | _ => cases htext

theorem even_run (h : Run EvenServer.Step s ls s') (hs : s.Inv) :
    s'.Inv ∧
      s'.server.server.ips = s.server.server.ips ++ ls.filterMap EvenServer.Label.ip ∧
      ∀ client, s'.given client =
        s.given client ++ (textsOf client ls).map (onIncomingMsg1Call (s'.ip client)) := by
  induction h with
  | nil s => exact ⟨hs, (List.append_nil _).symm, fun _ => (List.append_nil _).symm⟩
  | @cons s m s' l ls hstep _ ih =>
    obtain ⟨-, hmove⟩ := hstep
    obtain ⟨hs', hips, hgiven⟩ := ih (hmove.inv hs)
    refine ⟨hs', ?_, fun client => ?_⟩
    · rw [hips, hmove.ips]
      cases hip : l.ip <;> simp [hip]
    · rw [hgiven, hmove.given hs, List.append_assoc]
      congr 1
      unfold textsOf
      cases htext : l.text client with
      | none => simp [htext]
      | some text =>
        have hip : s'.ip client = s.ip client := by
          refine ip_stays ?_ (hmove.lt_of_text htext)
          rw [hips, hmove.ips, List.append_assoc]
          exact List.prefix_append _ _
        simp [htext, hip]

/-- For every run of the runner, however `start` ends: each text that the thread of a client has
    got from `recv` was given to `onIncomingMsg1` once, in order, with the address the client was
    accepted from, but for the last one if it waits; no other handler was called. Without a
    listening socket there was never a client. The global `observer1` has the address of the
    client accepted last, once that is used, and what is registered has none. -/
theorem even_server_calls (h : Run EvenServer.Step .init ls s) :
    s.server.server.ips = ls.filterMap EvenServer.Label.ip ∧
      (∀ client, s.callsOf client ++
          (messageDue (s.due client)).map (onIncomingMsg1Call (s.ip client)) =
        (textsOf client ls).map (onIncomingMsg1Call (s.ip client))) ∧
      (s.server.listening = false → s.server.server.objects = []) ∧
      ((∀ client, s.pc ≠ .accepted client) →
        s.observer1.wantedIP = (s.server.server.ips.getLast?).getD "") ∧
      ∀ subscriber ∈ s.subscribers, subscriber.wantedIP = "" := by
  obtain ⟨hs, hips, hgiven⟩ := even_run h even_init_inv
  refine ⟨hips, hgiven, hs.listening, hs.last, fun subscriber hmem => ?_⟩
  rw [hs.subscribed] at hmem
  split at hmem
  · rw [List.mem_singleton.mp hmem]
    rfl
  · cases hmem

end Run

/-- A client sends "0", with a zero byte behind it, and disconnects. -/
theorem even_server_calls_zero :
    ∃ ls s, Run EvenServer.Step .init ls s ∧
      s.callsOf 0 = [.incomingPacket 0 "127.0.0.1" [48] 1] := by
  have hrun : ∃ s, Run EvenServer.Step .init [.starts (.listens 3), .subscribes,
      .accepts 4 "127.0.0.1", .uses, .recv 0 [48] [0], .publishes 0 true, .endOfStream 0,
      .publishes 0 true] s ∧ s.due 0 = none := by
    refine ⟨_, .cons ⟨⟨rfl, rfl⟩, .starts (.listens 3) rfl (.start true (.listens 3) ?_)⟩ (.cons
      ⟨⟨rfl, rfl⟩, .subscribes rfl⟩ (.cons
      ⟨⟨rfl, rfl⟩, .accepts 4 "127.0.0.1" rfl (by decide)
        (.acceptClient 4 "127.0.0.1" rfl ⟨by decide, rfl⟩)⟩ (.cons
      ⟨⟨rfl, rfl⟩, .uses rfl rfl⟩ (.cons
      ⟨⟨rfl, rfl⟩, .recv 0 [48] [0] ⟨rfl, _, rfl, rfl⟩⟩ (.cons
      ⟨⟨rfl, rfl⟩, .message 0 true rfl rfl⟩ (.cons
      ⟨⟨rfl, rfl⟩, .endOfStream 0 ⟨rfl, _, rfl, rfl⟩⟩ (.cons
      ⟨⟨rfl, rfl⟩, .disconnection 0 true rfl rfl (.disconnect 0)⟩ (.nil _)))))))), rfl⟩
    intro fd hfd
    cases hfd
    exact ⟨by decide, rfl⟩
  obtain ⟨s, hrun, hdue⟩ := hrun
  obtain ⟨hips, hcalls, -⟩ := even_server_calls hrun
  have hip : s.ip 0 = "127.0.0.1" := by
    unfold EvenServer.ip
    rw [hips]
    rfl
  have hzero := hcalls 0
  rw [hdue, hip] at hzero
  exact ⟨_, s, hrun, (List.append_nil _).symm.trans hzero⟩

end TCPServer
