/-
  The client process and the server: from what is typed to the linked lists.

  One process runs `main` of the client runner, the other one the server. Connections are
  accepted in the order in which they were made, so the `Client` for the connection `k` is the
  `k`-th object of the server. A request that was sent is received later, those of a connection
  in their order and those of several in any. A `recv` brings one or more of those that wait; what
  the buffer has behind them is read with them, and that alone if `recv` fails. The handler and
  its reply are one step; a reply to a client process that has ended can raise SIGPIPE. So is
  `acceptClient`: a client is listed before a request of its is received (`Service.Senders` has
  the other case).

  `Calm`: no `connectTo`, `select`, `recv` or `::send` fails and no signal comes; a sweep finds
  nobody disconnected; each `recv` brings one request, with a zero byte behind it, and the client
  process still runs when it is answered. Then the number that a client sends is its index in
  `_clients`. `terminal_served`: the numbers drawn go, in their order, to the lists and sockets of
  the clients that asked, and in the end the list of each client is as long as 1 was typed in its
  round. `session_servable_iff` says which sessions can be served to the end: those with fifty
  requests at most in the rounds of each parity.
-/
import TCPServer.Menu
import TCPServer.Routing
import TCPServer.Sockets
import TCPServer.Draws

namespace TCPServer

open Runs Drawing

/-- The numbers sent on a connection, in order. -/
def ClientMain.sentOn (m : ClientMain) (connection : ℕ) : List CInt :=
  (m.requests.filter fun request => request.1 = connection).map Prod.snd

structure Terminal where
  main : ClientMain
  server : Server
  /-- The connections on which requests were received, in order. -/
  handled : List ℕ
  /-- The server process has ended. -/
  ended : Bool

def Terminal.init (input : Bytes) (sockfd : ℤ) : Terminal :=
  ⟨.init input, .init sockfd, [], false⟩

inductive TerminalEvent where
  | main (event : MainEvent)
  | acceptClient (fileDescriptor : ℤ) (ip : String)
  /-- The receive thread for a connection finds its end. -/
  | endOfStream (connection : ℕ)
  /-- `select` fails in it. -/
  | waitFailure (connection : ℕ)
  | removeDeadClients (closeRet : ℤ → ℤ)
  /-- `recv` brings the `n` oldest requests on a connection, none if it fails, with `behind` behind
      them in the buffer; they are handled. Without `sent`, `::send` raises SIGPIPE. -/
  | recv (connection n : ℕ) (behind : Bytes) (rands : List ℕ) (sent : Option SendResult)

/-- As `Net.after`. -/
def Terminal.after (t : Terminal) : Exec Server → Option Terminal
  | .ok s => some { t with server := s }
  | .error .spins => none
  | .error _ => some { t with ended := true }

/-- The requests on a connection that were not received yet. -/
def Terminal.waiting (t : Terminal) (connection : ℕ) : List CInt :=
  (t.main.sentOn connection).drop (t.handled.count connection)

/-- What the receive thread for a connection publishes when it gets `n` requests. -/
def Terminal.received (t : Terminal) (connection n : ℕ) (behind : Bytes) : Bytes :=
  ((t.waiting connection).take n).flatMap (fun id => to_string id.val) ++ behind

/-- A step of the server process. -/
def Terminal.serverStep (t : Terminal) : TerminalEvent → Option Terminal
  | .main _ => none
  | .acceptClient fileDescriptor ip =>
    if t.server.objects.length < t.main.connections then
      t.after (t.server.step (.acceptClient 0 .SUCCESS "" (some (fileDescriptor, ip))))
    else none
  | .endOfStream connection => t.after (t.server.step (.disconnect connection))
  | .waitFailure connection =>
    if t.server.receives connection then some { t with ended := true } else none
  | .removeDeadClients closeRet => t.after (t.server.step (.removeDeadClients closeRet))
  | .recv connection n behind rands sent =>
    let msg := t.received connection n behind
    let t' := { t with handled := t.handled ++ List.replicate n connection }
    if t.server.receives connection ∧ n ≤ (t.waiting connection).length then
      match sent with
      | some r => t'.after (t.server.step (.onIncomingMsg1 msg rands r))
      | none =>
        -- Only a connection that its peer has closed raises the signal.
        if t.main.pc.ended then
          (t'.after (t.server.step (.onIncomingMsg1 msg rands ⟨-1, "Broken pipe"⟩))).map
            fun t => { t with ended := true }
        else none
    else none

def Terminal.step (t : Terminal) (event : TerminalEvent) : Option Terminal :=
  match event with
  | .main event => do
    let main ← t.main.step event
    some { t with main := main }
  | event => if t.ended then none else t.serverStep event

abbrev Terminal.Step (t : Terminal) (event : TerminalEvent) (t' : Terminal) : Prop :=
  t.step event = some t'

/-- No call fails and no signal comes; a sweep finds all clients connected; a `recv` brings one
    request, with a zero byte behind it, and the client process runs until the whole reply is
    sent. -/
def Calm (t : Terminal) (event : TerminalEvent) (t' : Terminal) : Prop :=
  match event with
  | .main event => event = .goesOn true true
  | .waitFailure _ => False
  | .removeDeadClients _ => ∀ o ∈ t.server.clients, t.server.isConnected o = true
  | .recv _ n behind _ sent => n = 1 ∧ behind.head? = some 0 ∧ t.main.pc.ended = false ∧
      ∀ r reply, sent = some r → t'.server.sent = t.server.sent ++ [reply] →
        r.ret = reply.2.length
  | _ => True

abbrev Terminal.CalmStep : Terminal → TerminalEvent → Terminal → Prop :=
  Along Terminal.Step Calm

/-- The numbers drawn for the requests on a connection. -/
def numbersFor (handled : List ℕ) (numbers : List ℤ) (connection : ℕ) : List ℤ :=
  ((handled.zip numbers).filter fun served => served.1 = connection).map Prod.snd

/-- Every request was handled. -/
def Terminal.Settled (t : Terminal) : Prop := ∀ k, t.handled.count k = (t.main.sentOn k).length

/-- `main` has ended, and all that was asked for was handled. -/
def Terminal.Finished (t : Terminal) : Prop := t.main.pc.ended = true ∧ t.Settled

/-- How often 1 is selected in round `k`. -/
def askedIn (k : ℕ) (selected : List ℤ) : ℕ := (((selected.splitOn 2)[k]?).getD []).count 1

/-! ## The client process -/

/-- Every `connectTo` has succeeded: the connection of the client `k` is the connection `k`. -/
structure ClientMain.Direct (m : ClientMain) : Prop where
  connecting : m.pc = .connecting → m.connections = m.i
  choosing : m.pc = .choosing → m.connections = m.i + 1 ∧ m.connection = some m.i
  requests : ∀ request ∈ m.requests, request.2.val = request.1 ∧ request.1 < m.connections

section Main

variable {m m' : ClientMain} {event : MainEvent}

theorem direct_init (input : Bytes) : (ClientMain.init input).Direct := by
  refine ⟨fun _ => rfl, fun hpc => ?_, fun request hmem => ?_⟩
  · cases hpc
  · cases hmem

theorem ClientMain.Direct.step (hd : m.Direct) (hm : m.Inv)
    (h : m.Step (.goesOn true true) m') : m'.Direct := by
  cases main_does h with
  | connects _ hpc =>
    have hconn := hd.connecting hpc
    refine ⟨nofun, fun _ => ⟨?_, ?_⟩, fun request hmem => ?_⟩
    · show m.connections + 1 = m.i + 1
      omega
    · show some m.connections = some m.i
      rw [hconn]
    · obtain ⟨hval, hlt⟩ := hd.requests request hmem
      exact ⟨hval, Nat.lt_succ_of_lt hlt⟩
  | throws _ _ e _ _ => exact ⟨nofun, nofun, hd.requests⟩
  | closes _ _ selection next rest hpc _ _ _ =>
    obtain ⟨hconn, -⟩ := hd.choosing hpc
    refine ⟨fun _ => hconn, fun hnew => ?_, hd.requests⟩
    dsimp only at hnew
    split at hnew <;> cases hnew
  | requests _ selection rest connection hpc _ _ hconnection =>
    obtain ⟨hconn, hown⟩ := hd.choosing hpc
    have hid := hm.id (by rw [hpc]; rfl)
    have hself : connection = m.i := Option.some.inj (hconnection.symm.trans hown)
    refine ⟨hd.connecting, hd.choosing, fun request hmem => ?_⟩
    rcases List.mem_append.mp hmem with hmem | hmem
    · exact hd.requests request hmem
    · rw [List.mem_singleton.mp hmem, hself]
      refine ⟨hid, ?_⟩
      show m.i < m.connections
      omega
  | ignores _ _ selection rest hpc _ _ _ => exact ⟨hd.connecting, hd.choosing, hd.requests⟩

theorem ClientMain.Direct.connection (hd : m.Direct) (hpc : m.pc = .choosing) :
    m.connection ≠ none := by
  rw [(hd.choosing hpc).2]
  exact Option.some_ne_none _

/-- Nothing that was sent is taken back. -/
theorem sentOn_grows (h : m.Step event m') (k : ℕ) : m.sentOn k <+: m'.sentOn k := by
  unfold ClientMain.sentOn
  cases main_does h with
  | requests _ selection rest connection _ _ _ _ =>
    dsimp only
    rw [List.filter_append, List.map_append]
    exact List.prefix_append _ _
  | _ => exact List.prefix_refl _

/-- With its last step `main` sends nothing. -/
theorem requests_of_ended (h : m.Step event m') (hend : m'.pc.ended = true) :
    m'.requests = m.requests := by
  cases main_does h with
  | requests _ selection rest connection hpc _ _ _ =>
    dsimp only at hend
    rw [hpc] at hend
    cases hend
  | _ => rfl

theorem ClientMain.Direct.sentOn (hd : m.Direct) {k j : ℕ} {id : CInt}
    (h : (m.sentOn k)[j]? = some id) : id.val = k ∧ k < m.connections := by
  obtain ⟨request, hmem, rfl⟩ := List.mem_map.mp (List.mem_of_getElem? h)
  obtain ⟨hmem, hk⟩ := List.mem_filter.mp hmem
  rw [decide_eq_true_eq] at hk
  rw [← hk]
  exact hd.requests request hmem

/-- The requests on a connection, counted by the number in them. -/
theorem ClientMain.Direct.count_sentOn (hd : m.Direct) (k : ℕ) :
    (m.sentOn k).length = (m.requests.map fun request => request.2.val).count (k : ℤ) := by
  unfold ClientMain.sentOn
  rw [List.length_map, ← List.countP_eq_length_filter, List.count, List.countP_map]
  refine List.countP_congr fun request hmem => ?_
  obtain ⟨hval, -⟩ := hd.requests request hmem
  simp [hval]

end Main

/-! ## The server -/

/-- Nobody was removed, and the numbers have gone to the lists and sockets of the clients on
    whose connections they were asked for. -/
structure Server.Direct (s : Server) (handled : List ℕ) : Prop where
  inv : s.Inv
  clients : s.clients = List.range s.objects.length
  drawn : handled.length = s.numbers.length
  nodup : s.numbers.Nodup
  lists : ∀ o, (s.listOf o).Perm (numbersFor handled s.numbers o)
  sorted : ∀ o, (s.listOf o).Pairwise (· ≤ ·)
  fair : ∀ served ∈ handled.zip s.numbers, 0 ≤ served.2 ∧ served.2 ≤ 99 ∧
    served.2 % 2 = (served.1 : ℤ) % 2
  sent : s.sent = List.zipWith (fun o n => (s.fd o, to_string n)) handled s.numbers
  accepted : ∀ o ∈ handled, o < s.objects.length

section Server

variable {s s' : Server} {handled : List ℕ}

theorem numbersFor_append {numbers : List ℤ} (h : handled.length = numbers.length) (o : ℕ)
    (n : ℤ) (k : ℕ) :
    numbersFor (handled ++ [o]) (numbers ++ [n]) k =
      numbersFor handled numbers k ++ if o = k then [n] else [] := by
  unfold numbersFor
  rw [List.zip_append h, List.filter_append, List.map_append]
  by_cases hk : o = k
  · rw [if_pos hk]
    simp [hk]
  · rw [if_neg hk]
    simp [hk]

/-- There are as many numbers for a connection as requests were handled on it. -/
theorem length_numbersFor {numbers : List ℤ} (h : handled.length = numbers.length) (k : ℕ) :
    (numbersFor handled numbers k).length = handled.count k := by
  have hfst : (handled.zip numbers).map Prod.fst = handled :=
    List.map_fst_zip (Nat.le_of_eq h)
  unfold numbersFor
  rw [List.length_map, ← List.countP_eq_length_filter, List.count]
  conv_rhs => rw [← hfst]
  rw [List.countP_map]
  rfl

theorem Server.Direct.range_of_numbersFor (hd : s.Direct handled) (k : ℕ) (n : ℤ)
    (h : n ∈ numbersFor handled s.numbers k) : 0 ≤ n ∧ n ≤ 99 ∧ n % 2 = (k : ℤ) % 2 := by
  obtain ⟨served, hmem, rfl⟩ := List.mem_map.mp h
  obtain ⟨hmem, hk⟩ := List.mem_filter.mp hmem
  rw [decide_eq_true_eq] at hk
  have hfair := hd.fair served hmem
  rwa [hk] at hfair

theorem numbersFor_nodup {numbers : List ℤ} (h : handled.length = numbers.length)
    (hnodup : numbers.Nodup) (k : ℕ) : (numbersFor handled numbers k).Nodup := by
  have hsnd : (handled.zip numbers).map Prod.snd = numbers :=
    List.map_snd_zip (Nat.le_of_eq h.symm)
  refine List.Nodup.sublist ?_ (hsnd.symm ▸ hnodup)
  exact (List.filter_sublist (l := handled.zip numbers)).map Prod.snd

theorem zipWith_fd_congr {numbers : List ℤ} (h : ∀ o ∈ handled, s'.fd o = s.fd o) :
    List.zipWith (fun o n => (s'.fd o, to_string n)) handled numbers =
      List.zipWith (fun o n => (s.fd o, to_string n)) handled numbers := by
  induction handled generalizing numbers with
  | nil => rfl
  | cons o handled ih =>
    cases numbers with
    | nil => rfl
    | cons n numbers =>
      rw [List.zipWith_cons_cons, List.zipWith_cons_cons, h o List.mem_cons_self,
        ih fun o ho => h o (List.mem_cons_of_mem _ ho)]

theorem direct_init_server (sockfd : ℤ) : (Server.init sockfd).Direct [] where
  inv := inv_init sockfd
  clients := rfl
  drawn := rfl
  nodup := List.nodup_nil
  lists := fun _ => List.Perm.refl _
  sorted := fun _ => List.Pairwise.nil
  fair := nofun
  sent := rfl
  accepted := nofun

/-- A step that draws nothing, and at most adds a client. -/
theorem Server.Direct.keep (hd : s.Direct handled) (hinv : s'.Inv)
    (hclients : s'.clients = List.range s'.objects.length)
    (hlists : s.SameLists s') (hnumbers : s'.numbers = s.numbers) (hsent : s'.sent = s.sent)
    (hfd : ∀ o < s.objects.length, s'.fd o = s.fd o)
    (hlen : s.objects.length ≤ s'.objects.length) : s'.Direct handled := by
  have hlist := hlists.listOf
  refine ⟨hinv, hclients, ?_, ?_, fun o => ?_, fun o => ?_, ?_, ?_, fun o ho => ?_⟩
  · rw [hnumbers]
    exact hd.drawn
  · rw [hnumbers]
    exact hd.nodup
  · rw [hnumbers, hlist]
    exact hd.lists o
  · rw [hlist]
    exact hd.sorted o
  · rw [hnumbers]
    exact hd.fair
  · rw [hnumbers, hsent, zipWith_fd_congr fun o ho => hfd o (hd.accepted o ho)]
    exact hd.sent
  · exact Nat.lt_of_lt_of_le (hd.accepted o ho) hlen

theorem Server.Direct.addClient (hd : s.Direct handled) (fileDescriptor : ℤ) (ip : String) :
    (s.addClient fileDescriptor ip).Direct handled := by
  refine hd.keep (hd.inv.addClient _ _) ?_ (sameLists_addClient s _ _) rfl rfl
    (fun o ho => fd_addClient_of_lt ho) ?_
  · show s.clients ++ [s.objects.length] = List.range (s.objects ++ [_]).length
    rw [List.length_append, List.length_singleton, List.range_succ, hd.clients]
  · show s.objects.length ≤ (s.objects ++ [_]).length
    rw [List.length_append]
    exact Nat.le_add_right _ _

theorem sent_disconnect (s : Server) (o : ClientPtr) : (s.disconnect o).sent = s.sent := by
  obtain ⟨objects, num, h⟩ := disconnect_effect s o
  rw [h]

theorem Server.Direct.disconnect (hd : s.Direct handled) (o : ClientPtr) :
    (s.disconnect o).Direct handled := by
  refine hd.keep (hd.inv.disconnect o) ?_ (sameLists_disconnect s o) (disconnect_numbers s o)
    (sent_disconnect s o) (fun o' _ => fd_disconnect o o') (length_disconnect o).ge
  rw [disconnect_clients, length_disconnect]
  exact hd.clients

/-- A sweep that finds all clients connected does nothing. -/
theorem removeDeadClients_of_connected (h : ∀ o ∈ s.clients, s.isConnected o = true)
    (closeRet : ℤ → ℤ) : s.removeDeadClients closeRet = .ok s := by
  have hnone : (s.clients.findIdx fun o => !s.isConnected o) = s.clients.length := by
    refine List.findIdx_eq_length.mpr fun o ho => ?_
    rw [h o ho]
    rfl
  unfold Server.removeDeadClients Server.removeLoop
  dsimp only
  rw [hnone, List.getElem?_eq_none (Nat.le_refl _)]

theorem length_of_relists {o : ClientPtr} {l : List ℤ} (h : s.Relists s' o l) :
    s'.objects.length = s.objects.length := by
  have hlen := congrArg List.length h.same.objects
  rwa [List.length_map, List.length_map] at hlen

/-- The client with the index `o` is served. -/
theorem Server.Direct.serve (hd : s.Direct handled) {ID : CInt} {o : ClientPtr} {c : Client}
    {rands : List ℕ} {n : ℤ} {l : List ℤ} (hID : ID.val = (o : ℤ)) (hc : s.object o = .ok c)
    (hn : firstNew ID s.numbers rands = some n) (h : s.Serves s' ID o n l) :
    s'.Direct (handled ++ [o]) := by
  obtain ⟨hnew, rand, -, hcand⟩ := firstNew_some hn
  obtain ⟨h0, h99, hpar⟩ := candidate_range ID rand
  have hlt := lt_of_object hc
  refine ⟨h.relists.inv hd.inv, ?_, ?_, ?_, fun k => ?_, fun k => ?_, ?_, ?_, fun k hk => ?_⟩
  · rw [h.relists.same.clients, length_of_relists h.relists]
    exact hd.clients
  · rw [h.numbers, List.length_append, List.length_append, hd.drawn]
    rfl
  · rw [h.numbers]
    exact List.nodup_append_comm.mp (List.nodup_cons.mpr ⟨hnew, hd.nodup⟩)
  · rw [h.numbers, numbersFor_append hd.drawn]
    by_cases hk : o = k
    · rw [← hk, if_pos rfl, h.relists.listOf]
      exact h.perm.trans ((hd.lists o).append_right [n])
    · rw [if_neg hk, List.append_nil, h.relists.listOf_ne (Ne.symm hk)]
      exact hd.lists k
  · by_cases hk : o = k
    · rw [← hk, h.relists.listOf]
      exact h.sorted
    · rw [h.relists.listOf_ne (Ne.symm hk)]
      exact hd.sorted k
  · rw [h.numbers, List.zip_append hd.drawn]
    intro served hmem
    rcases List.mem_append.mp hmem with hmem | hmem
    · exact hd.fair served hmem
    · rw [List.zip_cons_cons, List.zip_nil_left, List.mem_singleton] at hmem
      rw [hmem, ← hcand, ← hID]
      exact ⟨h0, h99, hpar⟩
  · rw [h.numbers, h.relists.same.fd, List.zipWith_append hd.drawn, h.sent c hc, ← hd.sent,
      ← fd_of_object hc]
    rfl
  · rw [length_of_relists h.relists]
    rcases List.mem_append.mp hk with hk | hk
    · exact hd.accepted k hk
    · rw [List.mem_singleton.mp hk]
      exact hlt

end Server

/-! ## Both -/

structure Terminal.Inv (t : Terminal) : Prop where
  main : t.main.Inv
  direct : t.main.Direct
  server : t.server.Direct t.handled
  ended : t.ended = false
  count : ∀ k, t.handled.count k ≤ (t.main.sentOn k).length

section Step

variable {t t' : Terminal} {event : TerminalEvent}

theorem terminal_inv_init (input : Bytes) (sockfd : ℤ) : (Terminal.init input sockfd).Inv :=
  ⟨main_inv_init input, direct_init input, direct_init_server sockfd, rfl,
    fun _ => Nat.zero_le _⟩

theorem step_main_iff {event : MainEvent} :
    t.Step (.main event) t' ↔ ∃ m, t.main.Step event m ∧ t' = { t with main := m } := by
  unfold Terminal.Step Terminal.step
  simp only [Option.bind_eq_bind, Option.bind_eq_some_iff, Option.some.injEq]
  exact exists_congr fun m => and_congr_right fun _ => eq_comm

theorem serverStep_of_step (h : t.Step event t') (hevent : ∀ event', event ≠ .main event') :
    t.serverStep event = some t' := by
  unfold Terminal.Step Terminal.step at h
  split at h
  · exact absurd rfl (hevent _)
  · split at h
    · cases h
    · exact h

theorem receives_object {s : Server} {o : ClientPtr} (h : s.receives o = true) :
    ∃ c, s.object o = .ok c := by
  unfold Server.receives at h
  split at h
  · rename_i c hc
    rw [Bool.and_eq_true, Bool.not_eq_true'] at h
    exact ⟨c, object_ok_iff.mpr ⟨hc, h.2⟩⟩
  · cases h

/-- The index that a client sends is its own. -/
theorem Terminal.Inv.at_self (ht : t.Inv) {k j : ℕ} {id : CInt} {c : Client}
    (hid : (t.main.sentOn k)[j]? = some id) (hc : t.server.object k = .ok c) :
    id.val = k ∧ t.server.at id = .ok k := by
  have hval := (ht.direct.sentOn hid).1
  have hlt := lt_of_object hc
  refine ⟨hval, at_ok_iff.mpr ⟨by omega, ?_⟩⟩
  rw [ht.server.clients, hval, Int.toNat_natCast]
  exact List.getElem?_range hlt

/-- One request with a zero byte behind it is read as the index in it. -/
theorem decodeID_received {connection : ℕ} {behind : Bytes}
    (hwaits : 1 ≤ (t.waiting connection).length) (hbehind : behind.head? = some 0) :
    ∃ id, (t.main.sentOn connection)[t.handled.count connection]? = some id ∧
      decodeID (t.received connection 1 behind) = .ok id := by
  obtain ⟨id, ids, hids⟩ := List.exists_cons_of_length_pos hwaits
  obtain ⟨rest, rfl⟩ := List.head?_eq_some_iff.mp hbehind
  refine ⟨id, ?_, ?_⟩
  · have hhead := congrArg List.head? hids
    unfold Terminal.waiting at hhead
    rwa [List.head?_drop] at hhead
  · unfold Terminal.received
    rw [hids, List.take_succ_cons, List.take_zero, List.flatMap_singleton]
    unfold decodeID
    rw [cString_append_zero (zero_not_mem_to_string id.val), stoi_to_string]

/-- What happens to the oldest request that waits on a connection. -/
theorem recv_serves (ht : t.Inv) {connection n : ℕ} {behind : Bytes} {rands : List ℕ}
    {sent : Option SendResult} (h : t.CalmStep (.recv connection n behind rands sent) t') :
    ∃ s', t' = { t with server := s', handled := t.handled ++ [connection] } ∧
      t.handled.count connection < (t.main.sentOn connection).length ∧
      s'.Direct (t.handled ++ [connection]) ∧ t.server.SameClients s' ∧
      ∃ n, s'.numbers = t.server.numbers ++ [n] := by
  obtain ⟨hstep, rfl, hbehind, hlive, -⟩ := h
  have hstep := serverStep_of_step hstep nofun
  unfold Terminal.serverStep at hstep
  dsimp only at hstep
  split at hstep
  · rename_i hcond
    obtain ⟨hrec, hwaits⟩ := hcond
    obtain ⟨c, hc⟩ := receives_object hrec
    obtain ⟨id, hid, hmsg⟩ := decodeID_received hwaits hbehind
    have hlt := lt_of_getElem? hid
    obtain ⟨hval, hat⟩ := ht.at_self hid hc
    cases sent with
    | none =>
      rw [hlive] at hstep
      cases hstep
    | some r =>
      dsimp only at hstep
      cases hn : firstNew id t.server.numbers rands with
      | none =>
        have hspins : t.server.onIncomingMsg1 (t.received connection 1 behind) rands r =
            .error .spins := by
          unfold Server.onIncomingMsg1 Server.generateNumber
          rw [hmsg, ok_bind, hat, ok_bind, ok_bind, generateLoop_eq, hn]
          rfl
        rw [show t.server.step (.onIncomingMsg1 _ rands r) = _ from hspins] at hstep
        cases hstep
      | some n =>
        obtain ⟨s', l, hok, hserve⟩ :=
          onIncomingMsg1_spec ht.server.inv.separate hmsg hat hc hn r
        rw [show t.server.step (.onIncomingMsg1 _ rands r) = _ from hok] at hstep
        cases hstep
        exact ⟨s', rfl, hlt, ht.server.serve hval hc hn hserve, hserve.relists.same, n,
          hserve.numbers⟩
  · cases hstep

/-- All that a calm step can do. -/
inductive Terminal.Does (t : Terminal) : TerminalEvent → Terminal → Prop
  | main {m : ClientMain} : t.main.Step (.goesOn true true) m →
      t.Does (.main (.goesOn true true)) { t with main := m }
  | accepts (fileDescriptor : ℤ) (ip : String) :
      t.Does (.acceptClient fileDescriptor ip)
        { t with server := t.server.addClient fileDescriptor ip }
  | disconnects (connection : ℕ) :
      t.Does (.endOfStream connection) { t with server := t.server.disconnect connection }
  | sweeps (closeRet : ℤ → ℤ) : t.Does (.removeDeadClients closeRet) t
  | serves {s' : Server} {n : ℤ} (connection : ℕ) (behind : Bytes) (rands : List ℕ)
      (sent : Option SendResult) :
      t.handled.count connection < (t.main.sentOn connection).length →
      s'.Direct (t.handled ++ [connection]) → t.server.SameClients s' →
      s'.numbers = t.server.numbers ++ [n] →
      t.Does (.recv connection 1 behind rands sent)
        { t with server := s', handled := t.handled ++ [connection] }

theorem terminal_does (ht : t.Inv) (h : t.CalmStep event t') : t.Does event t' := by
  have hcalm := h.2
  cases event with
  | main event =>
    obtain ⟨m, hm, rfl⟩ := step_main_iff.mp h.1
    cases hcalm
    exact .main hm
  | acceptClient fileDescriptor ip =>
    have hstep := serverStep_of_step h.1 nofun
    unfold Terminal.serverStep at hstep
    dsimp only at hstep
    split at hstep
    · cases hstep
      exact .accepts fileDescriptor ip
    · cases hstep
  | endOfStream connection =>
    have hstep := serverStep_of_step h.1 nofun
    cases hstep
    exact .disconnects connection
  | waitFailure connection => exact hcalm.elim
  | removeDeadClients closeRet =>
    have hstep : t.after (t.server.step (.removeDeadClients closeRet)) = some t' :=
      serverStep_of_step h.1 nofun
    have hquiet := removeDeadClients_of_connected hcalm closeRet
    rw [show t.server.step (.removeDeadClients closeRet) = _ from hquiet] at hstep
    cases hstep
    exact .sweeps closeRet
  | recv connection n behind rands sent =>
    obtain ⟨s', rfl, hlt, hserver, hsame, n, hn⟩ := recv_serves ht h
    cases hcalm.1
    exact .serves connection behind rands sent hlt hserver hsame hn

/-- The server process leaves the other one alone. -/
theorem main_cases (ht : t.Inv) (h : t.CalmStep event t') :
    t.main.Step (.goesOn true true) t'.main ∨ t'.main = t.main := by
  cases terminal_does ht h with
  | main hm => exact .inl hm
  | _ => exact .inr rfl

theorem terminal_inv_step (ht : t.Inv) (h : t.CalmStep event t') : t'.Inv := by
  cases terminal_does ht h with
  | main hm =>
    exact ⟨(main_does hm).inv ht.main, ht.direct.step ht.main hm, ht.server, ht.ended,
      fun k => Nat.le_trans (ht.count k) (sentOn_grows hm k).length_le⟩
  | accepts fileDescriptor ip =>
    exact ⟨ht.main, ht.direct, ht.server.addClient _ _, ht.ended, ht.count⟩
  | disconnects connection =>
    exact ⟨ht.main, ht.direct, ht.server.disconnect _, ht.ended, ht.count⟩
  | sweeps closeRet => exact ht
  | serves connection behind rands sent hlt hserver _ _ =>
    refine ⟨ht.main, ht.direct, hserver, ht.ended, fun k => ?_⟩
    have hcount := ht.count k
    show (t.handled ++ [connection]).count k ≤ _
    rw [List.count_append]
    by_cases hk : connection = k
    · rw [hk] at hlt
      rw [hk, List.count_singleton_self]
      exact hlt
    · rw [List.count_singleton, if_neg (by simpa using hk)]
      exact hcount

end Step

/-! ## What was typed, and the lists -/

/-- The requests under one number are the 1s of that round. -/
theorem count_rounds (rounds : List (List ℤ)) (a k : ℕ) :
    (((rounds.zipIdx a).flatMap fun round =>
        List.replicate (round.1.count 1) (round.2 : ℤ)).count (k : ℤ)) =
      if a ≤ k then ((rounds[k - a]?).getD []).count 1 else 0 := by
  induction rounds generalizing a with
  | nil => simp
  | cons round rounds ih =>
    rw [List.zipIdx_cons, List.flatMap_cons, List.count_append, ih (a + 1), List.count_replicate]
    by_cases heq : a = k
    · rw [heq]
      simp
    · rw [if_neg (by simpa using heq), Nat.zero_add]
      by_cases hlt : a + 1 ≤ k
      · rw [if_pos hlt, if_pos (by omega), show k - a = (k - (a + 1)) + 1 by omega,
          List.getElem?_cons_succ]
      · rw [if_neg hlt, if_neg (by omega)]

theorem count_asked (selected : List ℤ) {k : ℕ} (hk : k < 10) :
    (asked 0 10 selected).count (k : ℤ) = askedIn k selected := by
  unfold asked askedIn
  rw [count_rounds, if_pos (Nat.zero_le k), Nat.sub_zero, List.getElem?_take_of_lt hk]

section Served

variable {input : Bytes} {sockfd : ℤ} {events : List TerminalEvent} {t : Terminal}

theorem terminal_inv_run (h : Run Terminal.CalmStep (.init input sockfd) events t) : t.Inv :=
  h.invariant (fun _ _ _ ht hstep => terminal_inv_step ht hstep) (terminal_inv_init input sockfd)

/-- `main` has its own run, in which no call fails and no signal comes. -/
theorem main_run_of_terminal {t₀ : Terminal} (h : Run Terminal.CalmStep t₀ events t)
    (ht : t₀.Inv) :
    ∃ n, Run ClientMain.Step t₀.main (List.replicate n (.goesOn true true)) t.main := by
  induction h with
  | nil t => exact ⟨0, .nil _⟩
  | cons hstep _ ih =>
    obtain ⟨n, hrun⟩ := ih (terminal_inv_step ht hstep)
    rcases main_cases ht hstep with hmain | hmain
    · exact ⟨n + 1, .cons hmain hrun⟩
    · exact ⟨n, hmain ▸ hrun⟩

/-- What `main` has asked for when it has ended, and how it has ended. -/
theorem main_of_terminal (h : Run Terminal.CalmStep (.init input sockfd) events t)
    (hend : t.main.pc.ended = true) :
    (t.main.requests.map fun request => request.2.val) = asked 0 10 (selections input) ∧
      (t.main.pc = .returned ↔ 10 ≤ (selections input).count 2) := by
  obtain ⟨n, hrun⟩ := main_run_of_terminal h (terminal_inv_init input sockfd)
  have hgood : ∀ event ∈ List.replicate n (MainEvent.goesOn true true), event = .goesOn true true :=
    fun _ => List.eq_of_mem_replicate
  exact ⟨main_ended hrun hgood hend, main_returned_iff hrun (not_killed_of_good hgood) hend⟩

/-- The requests handled on a connection, when everything is done. -/
theorem Terminal.Inv.count_handled (ht : t.Inv) (hfinished : t.Finished)
    (hall : (t.main.requests.map fun request => request.2.val) = asked 0 10 (selections input))
    (k : ℕ) : t.handled.count k = (asked 0 10 (selections input)).count (k : ℤ) := by
  rw [hfinished.2 k, ht.direct.count_sentOn, hall]

/-- In every calm run, whatever is typed and in whatever order things happen: the server goes on;
    the list of the `k`-th client is in ascending order without repetition and has the numbers
    drawn for the requests on its connection, all between 0 and 99 and of the parity of `k`; each
    number is sent once, in the order of the draws, on the socket of the client that asked. When
    `main` has ended and all requests are handled, each list is as long as 1 was selected in its
    round. -/
theorem terminal_served (h : Run Terminal.CalmStep (.init input sockfd) events t) :
    t.ended = false ∧
      (∀ k, (t.server.listOf k).Pairwise (· < ·) ∧
        (t.server.listOf k).Perm (numbersFor t.handled t.server.numbers k) ∧
        (t.server.listOf k).length = t.handled.count k ∧
        ∀ n ∈ t.server.listOf k, 0 ≤ n ∧ n ≤ 99 ∧ n % 2 = (k : ℤ) % 2) ∧
      t.server.sent =
        List.zipWith (fun k n => (t.server.fd k, to_string n)) t.handled t.server.numbers ∧
      (t.Finished → ∀ k < 10,
        (t.server.listOf k).length = askedIn k (selections input)) := by
  have ht := terminal_inv_run h
  have hlength : ∀ k, (t.server.listOf k).length = t.handled.count k := by
    intro k
    rw [(ht.server.lists k).length_eq, length_numbersFor ht.server.drawn]
  refine ⟨ht.ended, fun k => ⟨?_, ht.server.lists k, hlength k, fun n hn => ?_⟩, ht.server.sent,
    fun hfinished k hk => ?_⟩
  · refine pairwise_lt_of_nodup (ht.server.sorted k) ?_
    exact (ht.server.lists k).nodup_iff.mpr (numbersFor_nodup ht.server.drawn ht.server.nodup k)
  · exact ht.server.range_of_numbersFor k n ((ht.server.lists k).mem_iff.mp hn)
  · rw [hlength, ht.count_handled hfinished (main_of_terminal h hfinished.1).1, count_asked _ hk]

end Served

/-! ## Sessions that can be served -/

/-- The numbers of a parity were given in ascending order, and none was left out. -/
def GivenInOrder (numbers : List ℤ) : Prop :=
  numbers.Pairwise (fun a b => a % 2 = b % 2 → a < b) ∧
    ∀ n ∈ numbers, ∀ m, 0 ≤ m → m < n → m % 2 = n % 2 → m ∈ numbers

/-- The clients accepted so far are all connected, and the numbers were given in order. -/
def Terminal.Orderly (t : Terminal) : Prop :=
  (∀ o < t.server.objects.length, t.server.receives o = true) ∧ GivenInOrder t.server.numbers

section Capacity

variable {t : Terminal} {s : Server} {handled : List ℕ}

theorem Server.Direct.range (hd : s.Direct handled) (n : ℤ) (h : n ∈ s.numbers) :
    0 ≤ n ∧ n ≤ 99 := by
  have hsnd : (handled.zip s.numbers).map Prod.snd = s.numbers :=
    List.map_snd_zip (Nat.le_of_eq hd.drawn.symm)
  rw [← hsnd] at h
  obtain ⟨served, hserved, rfl⟩ := List.mem_map.mp h
  obtain ⟨h0, h99, -⟩ := hd.fair served hserved
  exact ⟨h0, h99⟩

/-- Each parity has as many numbers as requests handled. -/
theorem length_ofParity_eq (hd : s.Direct handled) (ID : CInt) :
    (ofParity ID s.numbers).length = handled.countP fun k : ℕ => (k : ℤ) % 2 = ID.val % 2 := by
  have hfst : (handled.zip s.numbers).map Prod.fst = handled :=
    List.map_fst_zip (Nat.le_of_eq hd.drawn)
  have hsnd : (handled.zip s.numbers).map Prod.snd = s.numbers :=
    List.map_snd_zip (Nat.le_of_eq hd.drawn.symm)
  unfold ofParity
  rw [← List.countP_eq_length_filter]
  conv_lhs => rw [← hsnd, List.countP_map]
  conv_rhs => rw [← hfst, List.countP_map]
  refine List.countP_congr fun served hmem => ?_
  obtain ⟨-, -, hpar⟩ := hd.fair served hmem
  simp [hpar]

theorem length_ofParity_le (hd : s.Direct handled) (ID : CInt) :
    (ofParity ID s.numbers).length ≤ 50 := by
  rw [← length_candidates ID]
  refine length_le_of_subset (hd.nodup.filter _) fun n hn => ?_
  obtain ⟨hmem, hpar⟩ := mem_ofParity.mp hn
  obtain ⟨h0, h99⟩ := hd.range n hmem
  exact mem_candidates.mpr ⟨h0, h99, hpar⟩

/-- With fewer than fifty requests of its parity handled, some draw is new for a client. -/
theorem exists_draw (hd : s.Direct handled) {ID : CInt}
    (h : (handled.countP fun k : ℕ => (k : ℤ) % 2 = ID.val % 2) < 50) :
    ∃ rand, candidate ID rand ∉ s.numbers := by
  by_contra hnone
  push Not at hnone
  have hsub : candidates ID ⊆ ofParity ID s.numbers := by
    refine candidates_subset_iff.mpr fun n hfree => ?_
    obtain ⟨rand, -, rfl⟩ := hfree.candidate
    exact hfree.2.2.2 (hnone rand)
  have hle := length_le_of_subset (candidates_nodup ID) hsub
  rw [length_candidates, length_ofParity_eq hd] at hle
  omega

/-- The lowest number that some draw gives is new. -/
theorem exists_lowest_draw (hd : s.Direct handled) {ID : CInt}
    (h : (handled.countP fun k : ℕ => (k : ℤ) % 2 = ID.val % 2) < 50) :
    ∃ rand, candidate ID rand ∉ s.numbers ∧
      ∀ m, 0 ≤ m → m < candidate ID rand → m % 2 = ID.val % 2 → m ∈ s.numbers := by
  have hdraw := exists_draw hd h
  refine ⟨Nat.find hdraw, Nat.find_spec hdraw, fun m h0 hlt hpar => ?_⟩
  obtain ⟨-, h99, hpar'⟩ := candidate_range ID (Nat.find hdraw)
  have hm : candidate ID (m.toNat / 2) = m := candidate_surjective h0 (by omega) hpar
  have hearlier : m.toNat / 2 < Nat.find hdraw := by
    have hle := candidate_le ID (Nat.find hdraw)
    omega
  have hused := Nat.find_min hdraw hearlier
  rwa [not_not, hm] at hused

/-- The lowest number that is new comes next in order. -/
theorem GivenInOrder.append {numbers : List ℤ} (h : GivenInOrder numbers) {n : ℤ}
    (hrange : ∀ m ∈ numbers, 0 ≤ m) (h0 : 0 ≤ n) (hnew : n ∉ numbers)
    (hlowest : ∀ m, 0 ≤ m → m < n → m % 2 = n % 2 → m ∈ numbers) :
    GivenInOrder (numbers ++ [n]) := by
  obtain ⟨horder, hbelow⟩ := h
  refine ⟨List.pairwise_append.mpr ⟨horder, List.pairwise_singleton _ _, ?_⟩, ?_⟩
  · intro a ha b hb hpar
    rw [List.mem_singleton.mp hb] at hpar ⊢
    -- An earlier number that is not below the new one would have been given after it.
    by_contra hle
    have hne : n ≠ a := fun heq => hnew (heq ▸ ha)
    exact hnew (hbelow a ha n h0 (by omega) hpar.symm)
  · intro a ha m hm0 hlt hpar
    rw [List.mem_append] at ha ⊢
    rcases ha with ha | ha
    · exact .inl (hbelow a ha m hm0 hlt hpar)
    · rw [List.mem_singleton.mp ha] at hlt hpar
      exact .inl (hlowest m hm0 hlt hpar)

/-- The numbers drawn for a connection ascend. -/
theorem GivenInOrder.numbersFor (h : GivenInOrder s.numbers) (hd : s.Direct handled) (k : ℕ) :
    (numbersFor handled s.numbers k).Pairwise (· < ·) := by
  have hsnd : (handled.zip s.numbers).map Prod.snd = s.numbers :=
    List.map_snd_zip (Nat.le_of_eq hd.drawn.symm)
  have hpairs := h.1
  rw [← hsnd, List.pairwise_map] at hpairs
  refine List.pairwise_map.mpr ((hpairs.filter _).imp_of_mem fun ha hb hab => ?_)
  obtain ⟨ha, hak⟩ := List.mem_filter.mp ha
  obtain ⟨hb, hbk⟩ := List.mem_filter.mp hb
  obtain ⟨-, -, hpar⟩ := hd.fair _ ha
  obtain ⟨-, -, hpar'⟩ := hd.fair _ hb
  rw [decide_eq_true_eq] at hak hbk
  exact hab (by rw [hpar, hpar', hak, hbk])

/-- Requests that were handled were sent. -/
theorem subperm_requests {m : ClientMain} (hd : m.Direct)
    (h : ∀ k, handled.count k ≤ (m.sentOn k).length) :
    (handled.map fun k : ℕ => (k : ℤ)).Subperm (m.requests.map fun request => request.2.val) := by
  refine List.subperm_ext_iff.mpr fun a ha => ?_
  obtain ⟨k, -, rfl⟩ := List.mem_map.mp ha
  rw [List.count_map_of_injective _ _ Nat.cast_injective, ← hd.count_sentOn]
  exact h k

/-- In the end all requests that were sent are handled. -/
theorem Terminal.Inv.requests_subperm (ht : t.Inv) (hfinished : t.Finished) :
    (t.main.requests.map fun request => request.2.val).Subperm
      (t.handled.map fun k : ℕ => (k : ℤ)) := by
  refine List.subperm_ext_iff.mpr fun a ha => ?_
  obtain ⟨request, hmem, rfl⟩ := List.mem_map.mp ha
  obtain ⟨hval, -⟩ := ht.direct.requests request hmem
  rw [hval, List.count_map_of_injective _ _ Nat.cast_injective, ← ht.direct.count_sentOn,
    hfinished.2 request.1]

theorem countP_cast (handled : List ℕ) (p : ℤ) :
    (handled.map fun k : ℕ => (k : ℤ)).countP (fun a => a % 2 = p) =
      handled.countP fun k : ℕ => (k : ℤ) % 2 = p := by
  rw [List.countP_map]
  rfl

/-- The requests of one parity that are all handled are at most fifty. -/
theorem Terminal.Inv.countP_requests_le (ht : t.Inv) (hfinished : t.Finished) (ID : CInt) :
    (t.main.requests.map fun request => request.2.val).countP
      (fun a => a % 2 = ID.val % 2) ≤ 50 := by
  have hle := (ht.requests_subperm hfinished).countP_le fun a => a % 2 = ID.val % 2
  have hhandled := length_ofParity_le ht.server ID
  rw [length_ofParity_eq ht.server] at hhandled
  rw [countP_cast] at hle
  omega

end Capacity

section Serving

variable {t : Terminal}

theorem receives_addClient {s : Server} (fileDescriptor : ℤ) (ip : String)
    (h : ∀ o < s.objects.length, s.receives o = true) (o : ClientPtr)
    (ho : o < (s.addClient fileDescriptor ip).objects.length) :
    (s.addClient fileDescriptor ip).receives o = true := by
  have hobjects : (s.addClient fileDescriptor ip).objects =
      s.objects ++ [⟨fileDescriptor, ip, true, none, false⟩] := rfl
  rw [hobjects, List.length_append, List.length_singleton] at ho
  unfold Server.receives
  rw [hobjects]
  by_cases hlast : o = s.objects.length
  · rw [hlast, List.getElem?_concat_length]
    rfl
  · rw [getElem?_concat_ne hlast]
    exact h o (Nat.lt_of_le_of_ne (Nat.lt_succ_iff.mp ho) hlast)

theorem receives_of_relists {s s' : Server} {o : ClientPtr} {l : List ℤ}
    (h : s.Relists s' o l) (o' : ClientPtr) (hrec : s.receives o' = true) :
    s'.receives o' = true := by
  have hfix := h.same.getElem? o'
  unfold Server.receives at hrec ⊢
  cases hs : s.objects[o']? with
  | none =>
    rw [hs] at hrec
    cases hrec
  | some c =>
    rw [hs] at hrec hfix
    obtain ⟨c', hc', hfixed⟩ := Option.map_eq_some_iff.mp hfix
    rw [hc']
    dsimp only at hrec ⊢
    rw [Client.isConnected_of_fixed hfixed, Client.deleted_of_fixed hfixed]
    exact hrec

theorem orderly_init (input : Bytes) (sockfd : ℤ) : (Terminal.init input sockfd).Orderly :=
  ⟨fun o ho => absurd ho (Nat.not_lt_zero o), .nil, nofun⟩

/-- The oldest connection that waits is accepted. -/
theorem accepts_one (ht : t.Inv) (horderly : t.Orderly)
    (h : t.server.objects.length < t.main.connections) (fileDescriptor : ℤ) :
    ∃ t', t.CalmStep (.acceptClient fileDescriptor "127.0.0.1") t' ∧ t'.main = t.main ∧
      t'.Orderly ∧ t'.handled = t.handled ∧
      t'.server.objects.length = t.server.objects.length + 1 := by
  refine ⟨{ t with server := t.server.addClient fileDescriptor "127.0.0.1" }, ⟨?_, trivial⟩,
    rfl, ⟨receives_addClient fileDescriptor "127.0.0.1" horderly.1, horderly.2⟩, rfl, ?_⟩
  · unfold Terminal.Step Terminal.step Terminal.serverStep
    dsimp only
    rw [if_neg (by rw [ht.ended]; nofun), if_pos h]
    rfl
  · exact List.length_append

/-- A request that waits on an accepted connection is handled, if its parity has not had fifty. -/
theorem serves_one (ht : t.Inv) (horderly : t.Orderly) (hlive : t.main.pc.ended = false) {k : ℕ}
    (hfew : (t.handled.countP fun i : ℕ => (i : ℤ) % 2 = (k : ℤ) % 2) < 50)
    (hwaits : t.handled.count k < (t.main.sentOn k).length)
    (haccepted : k < t.server.objects.length) :
    ∃ event t', t.CalmStep event t' ∧ t'.main = t.main ∧ t'.Orderly ∧
      t'.handled = t.handled ++ [k] ∧ t'.server.objects.length = t.server.objects.length ∧
      ∀ fileDescriptor ip, event ≠ .acceptClient fileDescriptor ip := by
  have hrec := horderly.1 k haccepted
  obtain ⟨c, hc⟩ := receives_object hrec
  have hlength : 1 ≤ (t.waiting k).length := by
    unfold Terminal.waiting
    rw [List.length_drop]
    omega
  obtain ⟨id, hid, hmsg⟩ := decodeID_received hlength (show [0].head? = some 0 from rfl)
  obtain ⟨hval, hat⟩ := ht.at_self hid hc
  rw [← hval] at hfew
  obtain ⟨rand, hnew, hlowest⟩ := exists_lowest_draw ht.server hfew
  have hn : firstNew id t.server.numbers [rand] = some (candidate id rand) := by
    unfold firstNew
    rw [List.map_singleton, List.find?_cons_of_pos (by simpa using hnew)]
  set r : SendResult := ⟨(to_string (candidate id rand)).length, ""⟩
  obtain ⟨s', l, hok, hserve⟩ := onIncomingMsg1_spec ht.server.inv.separate hmsg hat hc hn r
  refine ⟨.recv k 1 [0] [rand] (some r), { t with server := s', handled := t.handled ++ [k] },
    ⟨?_, rfl, rfl, hlive, fun r' reply hr hsent => ?_⟩, rfl, ⟨fun o ho => ?_, ?_⟩, rfl,
    length_of_relists hserve.relists, nofun⟩
  · have hstep : t.server.step (.onIncomingMsg1 (t.received k 1 [0]) [rand] r) = .ok s' := hok
    unfold Terminal.Step Terminal.step Terminal.serverStep
    dsimp only
    rw [if_neg (by rw [ht.ended]; nofun), if_pos ⟨hrec, hlength⟩, hstep]
    rfl
  · have hreply : [reply] = [(c.sockfd, to_string (candidate id rand))] :=
      List.append_cancel_left (hsent.symm.trans (hserve.sent c hc))
    cases hr
    rw [List.head_eq_of_cons_eq hreply]
  · have ho' : o < t.server.objects.length := length_of_relists hserve.relists ▸ ho
    exact receives_of_relists hserve.relists o (horderly.1 o ho')
  · obtain ⟨h0, -, hpar⟩ := candidate_range id rand
    show GivenInOrder s'.numbers
    rw [hserve.numbers]
    refine horderly.2.append (fun n hn => (ht.server.range n hn).1) h0 hnew fun m hm0 hlt hm => ?_
    exact hlowest m hm0 hlt (hm.trans hpar)

/-- Requests of any parity are at most fifty. -/
def ClientMain.Modest (m : ClientMain) : Prop :=
  ∀ p : ℤ, p = 0 ∨ p = 1 →
    (m.requests.map fun request => request.2.val).countP (fun a => a % 2 = p) ≤ 50

/-- What is left to do for the server. -/
def Terminal.toDo (t : Terminal) : ℕ :=
  (t.main.connections - t.server.objects.length) + (t.main.requests.length - t.handled.length)

/-- With few enough requests, either all are handled or one more step can be done for them,
    which is to accept no other descriptor than one given. -/
theorem terminal_proceeds (ht : t.Inv) (horderly : t.Orderly) (hlive : t.main.pc.ended = false)
    (hmodest : t.main.Modest) (fd : ℤ) :
    t.Settled ∨
      ∃ event t', t.CalmStep event t' ∧ t'.main = t.main ∧ t'.Orderly ∧ t'.toDo < t.toDo ∧
        ∀ fileDescriptor ip, event = .acceptClient fileDescriptor ip → fileDescriptor = fd := by
  by_cases hall : t.Settled
  · exact .inl hall
  right
  unfold Terminal.Settled at hall
  push Not at hall
  obtain ⟨k, hk⟩ := hall
  have hwaits : t.handled.count k < (t.main.sentOn k).length := Nat.lt_of_le_of_ne (ht.count k) hk
  unfold Terminal.toDo
  by_cases haccept : t.server.objects.length < t.main.connections
  · obtain ⟨t', hstep, hmain, horderly', hhandled, hlen⟩ := accepts_one ht horderly haccept fd
    refine ⟨_, t', hstep, hmain, horderly', ?_, fun fileDescriptor ip heq => ?_⟩
    · rw [hmain, hhandled]
      omega
    · cases heq
      rfl
  · -- The handled requests and this one are among those that were sent.
    have hsub : ((t.handled ++ [k]).map fun k : ℕ => (k : ℤ)).Subperm
        (t.main.requests.map fun request => request.2.val) := by
      refine subperm_requests ht.direct fun k' => ?_
      have hcount := ht.count k'
      rw [List.count_append, List.count_singleton]
      split
      · rename_i heq
        rw [eq_of_beq heq] at hwaits
        omega
      · exact hcount
    have hlt : k < t.main.connections :=
      (ht.direct.sentOn (List.getElem?_eq_getElem hwaits)).2
    have hfew : (t.handled.countP fun i : ℕ => (i : ℤ) % 2 = (k : ℤ) % 2) < 50 := by
      have hle := hsub.countP_le fun a => a % 2 = (k : ℤ) % 2
      have hmost := hmodest ((k : ℤ) % 2) (by omega)
      rw [countP_cast, List.countP_append, List.countP_singleton, if_pos (by simp)] at hle
      omega
    have hshort := hsub.length_le
    rw [List.length_map, List.length_map, List.length_append, List.length_singleton] at hshort
    obtain ⟨event, t', hstep, hmain, horderly', hhandled, hlen, hnot⟩ :=
      serves_one ht horderly hlive hfew hwaits (by omega)
    refine ⟨event, t', hstep, hmain, horderly', ?_, fun fileDescriptor ip heq => ?_⟩
    · rw [hmain, hhandled, List.length_append, List.length_singleton]
      omega
    · exact absurd heq (hnot fileDescriptor ip)

/-- With few enough requests, all that were sent can be handled before `main` goes on. -/
theorem terminal_settles (ht : t.Inv) (horderly : t.Orderly) (hlive : t.main.pc.ended = false)
    (hmodest : t.main.Modest) :
    ∃ t', Reaches Terminal.CalmStep t t' ∧ (t'.Inv ∧ t'.Orderly ∧ t'.main = t.main) ∧
      t'.Settled := by
  refine reaches_of_measure Terminal.toDo (fun t₁ hI => ?_) ⟨ht, horderly, rfl⟩
  obtain ⟨ht₁, horderly₁, hmain₁⟩ := hI
  refine (terminal_proceeds ht₁ horderly₁ (by rwa [hmain₁]) (by rwa [hmain₁]) 0).imp_right
    fun h => ?_
  obtain ⟨event, t₂, hstep, hmain, horderly₂, hlt, -⟩ := h
  exact ⟨t₂, .of_step hstep,
    ⟨terminal_inv_step ht₁ hstep, horderly₂, hmain.trans hmain₁⟩, hlt⟩

/-- The requests so far are among those that are asked for in all. -/
theorem modest_of_all {m : ClientMain} {input : Bytes}
    (hall : m.all = asked 0 10 (selections input))
    (heven : (asked 0 10 (selections input)).countP (fun k => k % 2 = 0) ≤ 50)
    (hodd : (asked 0 10 (selections input)).countP (fun k => k % 2 = 1) ≤ 50) : m.Modest := by
  intro p hp
  have hamong : ∀ q : ℤ → Bool, (m.requests.map fun request => request.2.val).countP q ≤
      (asked 0 10 (selections input)).countP q := by
    intro q
    rw [← hall]
    exact (List.prefix_append _ _).sublist.countP_le
  rcases hp with rfl | rfl
  · exact (hamong _).trans heven
  · exact (hamong _).trans hodd

/-- When everything is handled, `main` can take its next step; if it is the last, everything stays
    handled. -/
theorem main_proceeds (ht : t.Inv) (hsettled : t.Settled) (hlive : t.main.pc.ended = false) :
    ∃ m, t.CalmStep (.main (.goesOn true true)) { t with main := m } ∧ m.all = t.main.all ∧
      m.toDo < t.main.toDo ∧ (m.pc.ended = true → { t with main := m : Terminal }.Settled) := by
  obtain ⟨m, hm⟩ := main_goes_on ht.main hlive true true fun _ => ht.direct.connection
  have hdoes := main_does hm
  refine ⟨m, ⟨step_main_iff.mpr ⟨m, hm, rfl⟩, rfl⟩, (hdoes.all_sublist ht.main).2 rfl,
    hdoes.toDo_lt ht.main, fun hend k => ?_⟩
  show t.handled.count k = (m.sentOn k).length
  rw [hsettled k]
  unfold ClientMain.sentOn
  rw [requests_of_ended hm hend]

/-- With at most fifty requests of each parity there is a calm run in which `main` waits, at each
    of its steps, until all requests are handled. -/
theorem terminal_finishes (input : Bytes) (sockfd : ℤ)
    (heven : (asked 0 10 (selections input)).countP (fun k => k % 2 = 0) ≤ 50)
    (hodd : (asked 0 10 (selections input)).countP (fun k => k % 2 = 1) ≤ 50) :
    ∃ events t, Run Terminal.CalmStep (.init input sockfd) events t ∧ t.Finished := by
  have hrounds : ∀ t : Terminal,
      (t.Inv ∧ t.Orderly ∧ t.main.all = asked 0 10 (selections input) ∧
        (t.main.pc.ended = true → t.Settled)) →
      t.Finished ∨ ∃ t' : Terminal, Reaches Terminal.CalmStep t t' ∧
        (t'.Inv ∧ t'.Orderly ∧ t'.main.all = asked 0 10 (selections input) ∧
          (t'.main.pc.ended = true → t'.Settled)) ∧ t'.main.toDo < t.main.toDo := by
    intro t hI
    obtain ⟨ht, horderly, hall, hsettled⟩ := hI
    cases hlive : t.main.pc.ended with
    | true => exact .inl ⟨hlive, hsettled hlive⟩
    | false =>
      obtain ⟨t₁, hreach, ⟨ht₁, horderly₁, hmain₁⟩, hsettled₁⟩ :=
        terminal_settles ht horderly hlive (modest_of_all hall heven hodd)
      rw [← hmain₁] at hlive hall ⊢
      obtain ⟨m, hstep, hall₂, hlt, hlast⟩ := main_proceeds ht₁ hsettled₁ hlive
      exact .inr ⟨_, hreach.trans (.of_step hstep),
        ⟨terminal_inv_step ht₁ hstep, horderly₁, hall₂.trans hall, hlast⟩, hlt⟩
  obtain ⟨t, ⟨events, hrun⟩, -, hfinished⟩ := reaches_of_measure
    (fun t : Terminal => t.main.toDo) hrounds
    ⟨terminal_inv_init input sockfd, orderly_init input sockfd, rfl, nofun⟩
  exact ⟨events, t, hrun, hfinished⟩

/-- A session can be served to the end in a calm run if and only if at most fifty of the 1s typed
    are in rounds of even number and at most fifty in rounds of odd number. -/
theorem session_servable_iff (input : Bytes) (sockfd : ℤ) :
    (∃ events t, Run Terminal.CalmStep (.init input sockfd) events t ∧ t.Finished) ↔
      (asked 0 10 (selections input)).countP (fun k => k % 2 = 0) ≤ 50 ∧
        (asked 0 10 (selections input)).countP (fun k => k % 2 = 1) ≤ 50 := by
  constructor
  · intro h
    obtain ⟨events, t, hrun, hfinished⟩ := h
    have ht := terminal_inv_run hrun
    rw [← (main_of_terminal hrun hfinished.1).1]
    exact ⟨ht.countP_requests_le hfinished ⟨0, by decide, by decide⟩,
      ht.countP_requests_le hfinished ⟨1, by decide, by decide⟩⟩
  · intro h
    exact terminal_finishes input sockfd h.1 h.2

end Serving

/-- "1" is typed once: the list of the first client gets one number. -/
theorem terminal_served_once :
    ∃ events t, Run Terminal.CalmStep (.init [49, 10] 3) events t ∧ t.Finished ∧
      (t.server.listOf 0).length = 1 := by
  have hselected : selections [49, 10] = [1] := by
    have hone : TcpClient.getMenuSelection [49, 10] = .ok (⟨1, by decide, by decide⟩, []) := rfl
    have hnone : TcpClient.getMenuSelection [] = .error (.runtimeError
        "invalid menu input. expected a number, but got something else") := rfl
    rw [selections_ok hone, selections_error hnone]
  have hasked : asked 0 10 (selections [49, 10]) = [0] := by
    rw [hselected]
    decide
  obtain ⟨events, t, hrun, hfinished⟩ := terminal_finishes [49, 10] 3
    (by rw [hasked]; decide) (by rw [hasked]; decide)
  have hserved := (terminal_served hrun).2.2.2 hfinished 0 (by decide)
  rw [hselected] at hserved
  exact ⟨events, t, hrun, hfinished, hserved⟩

end TCPServer
