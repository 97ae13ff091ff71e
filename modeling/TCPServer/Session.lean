/-
  A session at the client runner as its user sees it: what is typed, and what the console shows.

  The receive threads of the clients print the replies while `main` goes on, and the number they
  print is that of the client that `client` points to by then. When `main` ends, the process
  ends with all of them. `Session` is `Terminal` with the replies shown so far. What a `recv`
  brings is some of the bytes sent that were not received yet, or none if it fails; what is
  printed are these and what the buffer has behind them, up to a zero byte.

  `session_tells_iff`: in a calm run each `recv` brings one reply with a zero byte behind it
  (`replies_shown_iff` has why). Then, once `main` has returned, the lines that name a client tell
  the numbers of its list, as many as were asked for in its round, if and only if every round
  was ended only after all its replies had been shown. A reply that is shown later is shown under
  the number of a later client, or never. `session_showable_tfae` says which sessions can be ended
  so. It makes no difference there if a buffer, never cleared, keeps what an earlier reply has
  left in it (`KeepsBuffer`): no reply is shorter than those before it if the numbers of each
  parity are given in ascending order (`GivenInOrder`).
-/
import Mathlib.Algebra.Order.BigOperators.Group.Finset
import Mathlib.Data.Fintype.EquivFin
import Mathlib.Tactic.TFAE
import TCPServer.Terminal
import TCPServer.Display

namespace TCPServer

open Runs

/-- A line that was shown: the connection, the number printed for the client, the bytes received
    and the text printed. -/
structure ShownReply where
  connection : ℕ
  id : CInt
  chunk : Bytes
  text : Bytes

structure Session where
  terminal : Terminal
  shown : List ShownReply

def Session.init (input : Bytes) (sockfd : ℤ) : Session := ⟨.init input sockfd, []⟩

/-- The replies sent on the socket of the client for a connection. -/
def Server.repliesOn (s : Server) (connection : ℕ) : List Bytes :=
  if connection < s.objects.length then
    (s.sent.filter fun reply => reply.1 = s.fd connection).map Prod.snd
  else []

/-- How many lines were shown for a connection. -/
def Session.shownOn (s : Session) (connection : ℕ) : ℕ :=
  s.shown.countP fun reply => reply.connection = connection

/-- What each `recv` on a connection brought. -/
def Session.chunksOn (s : Session) (connection : ℕ) : List Bytes :=
  (s.shown.filter fun reply => reply.connection = connection).map ShownReply.chunk

/-- What a buffer holds when `recv` has put some bytes into it. -/
def overwrite (buffer chunk : Bytes) : Bytes := chunk ++ buffer.drop chunk.length

/-- What the buffer for a connection holds if it was all zero bytes and only `recv` writes to
    it. -/
def Session.bufferOn (s : Session) (connection : ℕ) : Bytes :=
  (s.chunksOn connection).foldl overwrite zeroBuffer.bytes

inductive SessionEvent where
  | terminal (event : TerminalEvent)
  /-- The receive thread of the client for a connection gets the bytes `chunk`, none if `recv`
      fails, with `behind` behind them in the buffer, and prints it. -/
  | shows (connection : ℕ) (chunk behind : Bytes)

def Session.step (s : Session) : SessionEvent → Option Session
  | .terminal event => do
    let terminal ← s.terminal.step event
    some { s with terminal := terminal }
  | .shows connection chunk behind =>
    if s.terminal.main.pc.ended then none
    else if (s.chunksOn connection).flatten ++ chunk <+:
        (s.terminal.server.repliesOn connection).flatten then
      some { s with
        shown := s.shown ++
          [⟨connection, s.terminal.main.id, chunk, cString (chunk ++ behind)⟩] }
    else none

abbrev Session.Step (s : Session) (event : SessionEvent) (s' : Session) : Prop :=
  s.step event = some s'

/-- As `Calm`; `::accept` gives a descriptor that is not open; and a `recv` of the client brings
    the next reply, with a zero byte behind it. -/
def Session.Calm (s : Session) (event : SessionEvent) (s' : Session) : Prop :=
  match event with
  | .terminal e => TCPServer.Calm s.terminal e s'.terminal ∧
      ∀ fileDescriptor ip, e = .acceptClient fileDescriptor ip →
        fileDescriptor ∉ s.terminal.server.clients.map s.terminal.server.fd
  | .shows connection chunk behind =>
      (s.terminal.server.repliesOn connection)[s.shownOn connection]? = some chunk ∧
        behind.head? = some 0

abbrev Session.CalmStep : Session → SessionEvent → Session → Prop :=
  Along Session.Step Session.Calm

/-- A round is ended only when all replies to its requests were shown. -/
def WaitsForReplies (s : Session) (_ : SessionEvent) (s' : Session) : Prop :=
  s'.terminal.main.i ≠ s.terminal.main.i →
    s.shownOn s.terminal.main.i = (s.terminal.main.sentOn s.terminal.main.i).length

/-- The buffers of the receive threads, all zero bytes at first, keep what they hold from one
    `recv` to the next. -/
def KeepsBuffer (s : Session) (event : SessionEvent) (_ : Session) : Prop :=
  match event with
  | .shows connection chunk behind => behind = (s.bufferOn connection).drop chunk.length
  | _ => True

/-- The texts in the lines that name client `k`. -/
def Session.textsFor (s : Session) (k : ℕ) : List Bytes :=
  (s.shown.filter fun reply : ShownReply => reply.id.val = (k : ℤ)).map ShownReply.text

/-- The lines on the console that name a client. -/
def Session.linesFor (s : Session) (id : CInt) : List Bytes :=
  (s.shown.filter fun reply => reply.id.val = id.val).map fun reply =>
    replyLine reply.id reply.text

/-- The lines that name a client tell the numbers of its list, as many as were asked for in its
    round. -/
def Session.Tells (s : Session) (input : Bytes) : Prop :=
  ∀ id : CInt, ∀ k < 10, id.val = (k : ℕ) → ∃ ns : List ℤ,
    ns.Perm (s.terminal.server.listOf k) ∧ ns.length = askedIn k (selections input) ∧
      s.linesFor id = ns.map fun n => replyLine id (to_string n)

/-! ## What is shown was sent -/

/-- What is shown of a connection are the first numbers drawn for it. -/
structure Session.Inv (s : Session) : Prop where
  terminal : s.terminal.Inv
  sockets : s.terminal.server.DistinctSockets
  returned : s.terminal.main.pc = .returned → s.terminal.main.i = 10
  whole : ∀ reply ∈ s.shown, reply.chunk = reply.text
  shown : ∀ k, (s.shown.filter fun reply => reply.connection = k).map ShownReply.text <+:
    (numbersFor s.terminal.handled s.terminal.server.numbers k).map to_string

/-- Up to now every round was ended when all its replies had been shown. -/
structure Session.InRound (s : Session) : Prop where
  inv : s.Inv
  own : ∀ reply ∈ s.shown, reply.id.val = reply.connection
  done : ∀ k < s.terminal.main.i, s.shownOn k = (s.terminal.main.sentOn k).length

/-- A round is over, and a line of it is missing. -/
def Session.Missed (s : Session) : Prop :=
  s.Inv ∧ ∃ k < s.terminal.main.i, (s.textsFor k).length < (s.terminal.main.sentOn k).length

section Replies

variable {s : Server} {handled : List ℕ}

theorem filter_zipWith_fd {numbers : List ℤ} {k : ℕ} (h : ∀ o ∈ handled, s.fd o = s.fd k → o = k) :
    ((List.zipWith (fun o n => (s.fd o, to_string n)) handled numbers).filter
        fun reply => reply.1 = s.fd k).map Prod.snd =
      (numbersFor handled numbers k).map to_string := by
  unfold numbersFor
  induction handled generalizing numbers with
  | nil => rfl
  | cons o handled ih =>
    cases numbers with
    | nil => rfl
    | cons n numbers =>
      have hrest := @ih numbers fun o' ho' => h o' (List.mem_cons_of_mem _ ho')
      rw [List.zipWith_cons_cons, List.zip_cons_cons]
      by_cases ho : o = k
      · rw [List.filter_cons_of_pos (by simp [ho]), List.filter_cons_of_pos (by simp [ho]),
          List.map_cons, hrest]
        rfl
      · have hne : s.fd o ≠ s.fd k := fun heq => ho (h o List.mem_cons_self heq)
        rw [List.filter_cons_of_neg (by simp [hne]), List.filter_cons_of_neg (by simp [ho]), hrest]

/-- The replies on a connection are the numbers drawn for it, in order. -/
theorem repliesOn_eq (hd : s.Direct handled) (hsockets : s.DistinctSockets) (k : ℕ) :
    s.repliesOn k = (numbersFor handled s.numbers k).map to_string := by
  unfold Server.repliesOn
  split
  · rename_i hk
    rw [hd.sent]
    refine filter_zipWith_fd fun o ho heq => ?_
    unfold Server.DistinctSockets at hsockets
    rw [hd.clients] at hsockets
    exact List.inj_on_of_nodup_map hsockets (List.mem_range.mpr (hd.accepted o ho))
      (List.mem_range.mpr hk) heq
  · rename_i hk
    have hnone : handled.count k = 0 :=
      List.count_eq_zero.mpr fun hmem => hk (hd.accepted k hmem)
    rw [← length_numbersFor hd.drawn] at hnone
    rw [List.eq_nil_of_length_eq_zero hnone]
    rfl

/-- The next element comes behind a prefix. -/
theorem concat_prefix {xs ys : List Bytes} {y : Bytes} (h : xs <+: ys)
    (hy : ys[xs.length]? = some y) : xs ++ [y] <+: ys := by
  obtain ⟨zs, rfl⟩ := h
  rw [List.getElem?_append_right (Nat.le_refl _), Nat.sub_self] at hy
  cases zs with
  | nil => cases hy
  | cons z zs =>
    cases hy
    exact ⟨zs, by rw [List.append_assoc]; rfl⟩

end Replies

section Main

variable {m m' : ClientMain} {event : MainEvent}

/-- A step of `main` leaves the requests of the other rounds alone, and all of them if it ends
    its own. -/
theorem main_round (hd : m.Direct) (h : m.Step event m') :
    m'.i = m.i ∧ (∀ k ≠ m.i, m'.sentOn k = m.sentOn k) ∨
      m'.i = m.i + 1 ∧ ∀ k, m'.sentOn k = m.sentOn k := by
  cases main_does h with
  | closes _ _ _ _ _ _ _ _ _ => exact .inr ⟨rfl, fun _ => rfl⟩
  | requests _ selection rest connection hpc _ _ hconnection =>
    refine .inl ⟨rfl, fun k hk => ?_⟩
    have hself : connection = m.i :=
      Option.some.inj (hconnection.symm.trans (hd.choosing hpc).2)
    unfold ClientMain.sentOn
    rw [hself, List.filter_append, List.map_append]
    simp [Ne.symm hk]
  | _ => exact .inl ⟨rfl, fun _ _ => rfl⟩

theorem main_returned (h : m.Step event m') (hm : m.Inv) (hreturned : m'.pc = .returned) :
    m'.i = 10 := by
  cases main_does h with
  | closes _ _ selection next rest hpc _ _ _ =>
    have hround := hm.round (by rw [hpc]; rfl)
    dsimp only at hreturned ⊢
    split at hreturned
    · cases hreturned
    · omega
  | requests _ selection rest _ hpc _ _ _ => cases hpc.symm.trans hreturned
  | ignores _ _ selection rest hpc _ _ _ => cases hpc.symm.trans hreturned
  | _ => cases hreturned

/-- Requests are sent in the present round and before. -/
theorem ClientMain.Direct.round_of_sentOn (hd : m.Direct) (hlive : m.pc.ended = false) {k : ℕ}
    (h : 0 < (m.sentOn k).length) : k ≤ m.i := by
  have hlt := (hd.sentOn (List.getElem?_eq_getElem h)).2
  cases hpc : m.pc with
  | connecting =>
    have hconn := hd.connecting hpc
    omega
  | choosing =>
    have hconn := (hd.choosing hpc).1
    omega
  | _ =>
    rw [hpc] at hlive
    cases hlive

end Main

/-! ## Steps -/

section Steps

variable {t t' : Terminal} {s s' : Session} {event : SessionEvent}

/-- Different clients keep different sockets, and the numbers drawn for a connection stay. -/
theorem terminal_keeps {e : TerminalEvent} (ht : t.Inv) (hsockets : t.server.DistinctSockets)
    (h : t.CalmStep e t')
    (hfresh : ∀ fileDescriptor ip, e = .acceptClient fileDescriptor ip →
      fileDescriptor ∉ t.server.clients.map t.server.fd) :
    t'.server.DistinctSockets ∧
      ∀ k, numbersFor t.handled t.server.numbers k <+:
        numbersFor t'.handled t'.server.numbers k := by
  cases terminal_does ht h with
  | main _ => exact ⟨hsockets, fun k => List.prefix_refl _⟩
  | accepts fileDescriptor ip =>
    refine ⟨hsockets.addClient (fun o ho => ?_) (hfresh fileDescriptor ip rfl),
      fun k => List.prefix_refl _⟩
    rw [ht.server.clients] at ho
    exact List.mem_range.mp ho
  | disconnects connection =>
    refine ⟨hsockets.disconnect _, fun k => ?_⟩
    dsimp only
    rw [disconnect_numbers]
  | sweeps closeRet => exact ⟨hsockets, fun k => List.prefix_refl _⟩
  | serves connection behind rands sent _ _ hsame hn =>
    refine ⟨hsame.distinctSockets hsockets, fun k => ?_⟩
    dsimp only
    rw [hn, numbersFor_append ht.server.drawn]
    exact List.prefix_append _ _

/-- All that a calm step of a session can do. -/
theorem session_cases (hs : s.Inv) (h : s.CalmStep event s') :
    (∃ e t, event = .terminal e ∧ s.terminal.CalmStep e t ∧
        (∀ fileDescriptor ip, e = .acceptClient fileDescriptor ip →
          fileDescriptor ∉ s.terminal.server.clients.map s.terminal.server.fd) ∧
        s' = { s with terminal := t }) ∨
      ∃ connection text behind, event = .shows connection text behind ∧
        s.terminal.main.pc.ended = false ∧
        (s.terminal.server.repliesOn connection)[s.shownOn connection]? = some text ∧
        s' = { s with shown := s.shown ++ [⟨connection, s.terminal.main.id, text, text⟩] } := by
  obtain ⟨h, hcalm⟩ := h
  unfold Session.Step Session.step at h
  cases event with
  | terminal e =>
    simp only [Option.bind_eq_bind, Option.bind_eq_some_iff] at h
    obtain ⟨t, ht, heq⟩ := h
    cases heq
    exact .inl ⟨e, t, rfl, ⟨ht, hcalm.1⟩, hcalm.2, rfl⟩
  | shows connection text behind =>
    obtain ⟨htext, hbehind⟩ := hcalm
    dsimp only at h
    split at h
    · cases h
    · rename_i hlive
      split at h
      · cases h
        -- No reply has a zero byte in it.
        have hmem := List.mem_of_getElem? htext
        rw [repliesOn_eq hs.terminal.server hs.sockets] at hmem
        obtain ⟨n, -, rfl⟩ := List.mem_map.mp hmem
        obtain ⟨rest, rfl⟩ := List.head?_eq_some_iff.mp hbehind
        refine .inr ⟨connection, _, _, rfl, Bool.eq_false_iff.mpr hlive, htext, ?_⟩
        rw [cString_append_zero (zero_not_mem_to_string n)]
      · cases h

theorem session_inv_init (input : Bytes) (sockfd : ℤ) : (Session.init input sockfd).Inv :=
  ⟨terminal_inv_init input sockfd, List.nodup_nil, nofun,
    fun _ hmem => absurd hmem List.not_mem_nil, fun _ => List.nil_prefix⟩

theorem length_shown (s : Session) (k : ℕ) :
    ((s.shown.filter fun reply => reply.connection = k).map ShownReply.text).length =
      s.shownOn k := by
  unfold Session.shownOn
  rw [List.length_map, List.countP_eq_length_filter]

/-- A reply that is shown is one to a request. -/
theorem Session.Inv.shownOn_lt (hs : s.Inv) {connection : ℕ} {text : Bytes}
    (h : (s.terminal.server.repliesOn connection)[s.shownOn connection]? = some text) :
    s.shownOn connection < (s.terminal.main.sentOn connection).length := by
  have hlt := lt_of_getElem? h
  rw [repliesOn_eq hs.terminal.server hs.sockets, List.length_map,
    length_numbersFor hs.terminal.server.drawn] at hlt
  exact Nat.lt_of_lt_of_le hlt (hs.terminal.count connection)

theorem Session.Inv.shownOn_le (hs : s.Inv) (k : ℕ) :
    s.shownOn k ≤ (numbersFor s.terminal.handled s.terminal.server.numbers k).length ∧
      (numbersFor s.terminal.handled s.terminal.server.numbers k).length ≤
        (s.terminal.main.sentOn k).length := by
  constructor
  · have hle := (hs.shown k).length_le
    rwa [length_shown, List.length_map] at hle
  · rw [length_numbersFor hs.terminal.server.drawn]
    exact hs.terminal.count k

theorem session_inv_step (hs : s.Inv) (h : s.CalmStep event s') : s'.Inv := by
  rcases session_cases hs h with
    ⟨e, t, rfl, hstep, hfresh, rfl⟩ | ⟨connection, text, behind, rfl, hlive, htext, rfl⟩
  · obtain ⟨hsockets, hgrows⟩ := terminal_keeps hs.terminal hs.sockets hstep hfresh
    refine ⟨terminal_inv_step hs.terminal hstep, hsockets, ?_, hs.whole, fun k => ?_⟩
    · show t.main.pc = .returned → t.main.i = 10
      rcases main_cases hs.terminal hstep with hmain | hmain
      · exact main_returned hmain hs.terminal.main
      · rw [hmain]
        exact hs.returned
    · exact (hs.shown k).trans ((hgrows k).map to_string)
  · refine ⟨hs.terminal, hs.sockets, hs.returned, fun reply hmem => ?_, fun k => ?_⟩
    · rcases List.mem_append.mp hmem with hmem | hmem
      · exact hs.whole reply hmem
      · rw [List.mem_singleton.mp hmem]
    · dsimp only
      rw [List.filter_append, List.map_append]
      by_cases hk : connection = k
      · rw [repliesOn_eq hs.terminal.server hs.sockets, hk, ← length_shown] at htext
        simpa [hk] using concat_prefix (hs.shown k) htext
      · simpa [hk] using hs.shown k

/-! ## Rounds that are over -/

theorem inRound_init (input : Bytes) (sockfd : ℤ) : (Session.init input sockfd).InRound := by
  refine ⟨session_inv_init input sockfd, fun reply hmem => ?_, fun k hk => ?_⟩
  · cases hmem
  · exact absurd hk (Nat.not_lt_zero k)

/-- As long as rounds wait, a reply is shown in the round it was asked for in. -/
theorem inRound_step (hs : s.InRound) (h : s.CalmStep event s')
    (hwaits : WaitsForReplies s event s') : s'.InRound := by
  have hinv := session_inv_step hs.inv h
  rcases session_cases hs.inv h with
    ⟨e, t, rfl, hstep, -, rfl⟩ | ⟨connection, text, behind, rfl, hlive, htext, rfl⟩
  · refine ⟨hinv, hs.own, ?_⟩
    show ∀ k < t.main.i, s.shownOn k = (t.main.sentOn k).length
    rcases main_cases hs.inv.terminal hstep with hmain | hmain
    · intro k hk
      rcases main_round hs.inv.terminal.direct hmain with ⟨hi, hsent⟩ | ⟨hi, hsent⟩
      · rw [hi] at hk
        rw [hsent k (Nat.ne_of_lt hk)]
        exact hs.done k hk
      · have hthis : s.shownOn s.terminal.main.i =
            (s.terminal.main.sentOn s.terminal.main.i).length :=
          hwaits (by show t.main.i ≠ s.terminal.main.i; omega)
        rw [hi] at hk
        rw [hsent k]
        rcases Nat.lt_succ_iff_lt_or_eq.mp hk with hk | rfl
        · exact hs.done k hk
        · exact hthis
    · rw [hmain]
      exact hs.done
  · have hlt := hs.inv.shownOn_lt htext
    have hle := hs.inv.terminal.direct.round_of_sentOn hlive (Nat.zero_lt_of_lt hlt)
    have hconnection : connection = s.terminal.main.i := by
      by_contra hne
      have hdone := hs.done connection (Nat.lt_of_le_of_ne hle hne)
      omega
    refine ⟨hinv, fun reply hmem => ?_, fun k hk => ?_⟩
    · rcases List.mem_append.mp hmem with hmem | hmem
      · exact hs.own reply hmem
      · rw [List.mem_singleton.mp hmem]
        show s.terminal.main.id.val = (connection : ℤ)
        rw [hconnection]
        exact hs.inv.terminal.main.id hlive
    · have hk : k < s.terminal.main.i := hk
      have hold := hs.done k hk
      unfold Session.shownOn at hold ⊢
      rw [List.countP_append, hold, List.countP_singleton, if_neg (by simp; omega)]
      rfl

/-- With its own number on each reply, the lines for a client are the replies it got. -/
theorem textsFor_of_own (h : ∀ reply ∈ s.shown, reply.id.val = reply.connection) (k : ℕ) :
    s.textsFor k = (s.shown.filter fun reply => reply.connection = k).map ShownReply.text := by
  unfold Session.textsFor
  congr 1
  refine List.filter_congr fun reply hmem => ?_
  rw [h reply hmem]
  simp

theorem session_missed_of_step (hs : s.InRound) (h : s.CalmStep event s')
    (hwaits : ¬ WaitsForReplies s event s') : s'.Missed := by
  have hinv := session_inv_step hs.inv h
  unfold WaitsForReplies at hwaits
  rw [Classical.not_imp] at hwaits
  obtain ⟨hround, hmissing⟩ := hwaits
  rcases session_cases hs.inv h with
    ⟨e, t, rfl, hstep, -, rfl⟩ | ⟨connection, text, behind, rfl, hlive, htext, rfl⟩
  · have hround : t.main.i ≠ s.terminal.main.i := hround
    refine ⟨hinv, s.terminal.main.i, ?_, ?_⟩
    · show s.terminal.main.i < t.main.i
      rcases main_cases hs.inv.terminal hstep with hmain | hmain
      · rcases main_round hs.inv.terminal.direct hmain with ⟨hi, -⟩ | ⟨hi, -⟩
        · exact absurd hi hround
        · omega
      · exact absurd (congrArg ClientMain.i hmain) hround
    · show (s.textsFor _).length < (t.main.sentOn _).length
      have hgrows : (s.terminal.main.sentOn s.terminal.main.i).length ≤
          (t.main.sentOn s.terminal.main.i).length := by
        rcases main_cases hs.inv.terminal hstep with hmain | hmain
        · exact (sentOn_grows hmain _).length_le
        · rw [hmain]
      obtain ⟨hshown, hsent⟩ := hs.inv.shownOn_le s.terminal.main.i
      rw [textsFor_of_own hs.own, length_shown]
      omega
  · exact absurd rfl hround

theorem session_missed_step (hs : s.Missed) (h : s.CalmStep event s') : s'.Missed := by
  obtain ⟨hinv, k, hk, hlt⟩ := hs
  refine ⟨session_inv_step hinv h, k, ?_⟩
  rcases session_cases hinv h with
    ⟨e, t, rfl, hstep, -, rfl⟩ | ⟨connection, text, behind, rfl, hlive, htext, rfl⟩
  · show k < t.main.i ∧ (s.textsFor k).length < (t.main.sentOn k).length
    rcases main_cases hinv.terminal hstep with hmain | hmain
    · rcases main_round hinv.terminal.direct hmain with ⟨hi, hsent⟩ | ⟨hi, hsent⟩
      · rw [hi, hsent k (Nat.ne_of_lt hk)]
        exact ⟨hk, hlt⟩
      · rw [hi, hsent k]
        exact ⟨Nat.lt_succ_of_lt hk, hlt⟩
    · rw [hmain]
      exact ⟨hk, hlt⟩
  · refine ⟨hk, ?_⟩
    have hid := hinv.terminal.main.id hlive
    have hsame : ({ s with
        shown := s.shown ++ [⟨connection, s.terminal.main.id, text, text⟩] } :
        Session).textsFor k = s.textsFor k := by
      unfold Session.textsFor
      rw [List.filter_append, List.filter_cons_of_neg (by simp; omega), List.filter_nil,
        List.append_nil]
    rw [hsame]
    exact hlt

/-- The lines for a client and the texts in them. -/
theorem linesFor_eq_iff {id : CInt} {k : ℕ} (hid : id.val = k) (ns : List ℤ) :
    s.linesFor id = (ns.map fun n => replyLine id (to_string n)) ↔
      s.textsFor k = ns.map to_string := by
  have hinj : Function.Injective (replyLine id) := fun _ _ h => (replyLine_inj h).2
  have hlines : s.linesFor id = (s.textsFor k).map (replyLine id) := by
    unfold Session.linesFor Session.textsFor
    rw [hid, List.map_map]
    refine List.map_congr_left fun reply hmem => ?_
    have hval : reply.id.val = k := by simpa using (List.mem_filter.mp hmem).2
    rw [show reply.id = id from CInt.ext (hval.trans hid.symm)]
    rfl
  rw [hlines, show (fun n => replyLine id (to_string n)) = replyLine id ∘ to_string from rfl,
    ← List.map_map]
  exact (List.map_injective_iff.mpr hinj).eq_iff

/-- As `Tells`, for the rounds that are over. -/
def Session.TellsOver (s : Session) : Prop :=
  ∀ k < s.terminal.main.i, ∃ ns : List ℤ, ns.Perm (s.terminal.server.listOf k) ∧
    ns.length = (s.terminal.main.sentOn k).length ∧ s.textsFor k = ns.map to_string

theorem tellsOver_of_inRound (hs : s.InRound) : s.TellsOver := by
  intro k hk
  have hdone := hs.done k hk
  obtain ⟨hshown, hsent⟩ := hs.inv.shownOn_le k
  refine ⟨_, (hs.inv.terminal.server.lists k).symm, by omega, ?_⟩
  rw [textsFor_of_own hs.own]
  refine (hs.inv.shown k).eq_of_length_le ?_
  rw [length_shown, List.length_map]
  omega

theorem Session.Missed.not_tellsOver (hs : s.Missed) : ¬ s.TellsOver := by
  obtain ⟨-, k, hk, hlt⟩ := hs
  intro htells
  obtain ⟨ns, -, hlen, htexts⟩ := htells k hk
  rw [htexts, List.length_map] at hlt
  omega

end Steps

/-- The server and `main` have a run of their own. -/
theorem terminal_run_of_session {s₀ s : Session} {events : List SessionEvent}
    (h : Run Session.CalmStep s₀ events s) (hs : s₀.Inv) :
    ∃ events, Run Terminal.CalmStep s₀.terminal events s.terminal := by
  induction h with
  | nil s => exact ⟨[], .nil _⟩
  | @cons s₀ s₁ s event events hstep _ ih =>
    obtain ⟨events', hrun⟩ := ih (session_inv_step hs hstep)
    rcases session_cases hs hstep with
      ⟨e, t, rfl, ht, -, rfl⟩ | ⟨connection, text, behind, rfl, -, -, rfl⟩
    · exact ⟨e :: events', .cons ht hrun⟩
    · exact ⟨events', hrun⟩

theorem session_inv_run {input : Bytes} {sockfd : ℤ} {events : List SessionEvent} {s : Session}
    (h : Run Session.CalmStep (.init input sockfd) events s) : s.Inv :=
  h.invariant (fun _ _ _ hs hstep => session_inv_step hs hstep) (session_inv_init input sockfd)

section Returned

variable {input : Bytes} {sockfd : ℤ} {events : List SessionEvent} {s : Session}

/-- What `main` has asked for when it has ended, and how it has ended. -/
theorem main_of_session (h : Run Session.CalmStep (.init input sockfd) events s)
    (hend : s.terminal.main.pc.ended = true) :
    (s.terminal.main.requests.map fun request => request.2.val) =
        asked 0 10 (selections input) ∧
      (s.terminal.main.pc = .returned ↔ 10 ≤ (selections input).count 2) := by
  obtain ⟨events', hterminal⟩ := terminal_run_of_session h (session_inv_init input sockfd)
  exact main_of_terminal hterminal hend

/-- When `main` has returned, all rounds are over. -/
theorem tells_iff_tellsOver (h : Run Session.CalmStep (.init input sockfd) events s)
    (hreturned : s.terminal.main.pc = .returned) : s.Tells input ↔ s.TellsOver := by
  have hinv := session_inv_run h
  have hsent : ∀ k < 10, (s.terminal.main.sentOn k).length = askedIn k (selections input) := by
    intro k hk
    rw [hinv.terminal.direct.count_sentOn, (main_of_session h (by rw [hreturned]; rfl)).1,
      count_asked _ hk]
  unfold Session.Tells Session.TellsOver
  rw [hinv.returned hreturned]
  constructor
  · intro htells k hk
    obtain ⟨ns, hperm, hlen, hlines⟩ := htells (.ofNat k (by omega)) k hk rfl
    exact ⟨ns, hperm, hlen.trans (hsent k hk).symm, (linesFor_eq_iff rfl ns).mp hlines⟩
  · intro htells id k hk hid
    obtain ⟨ns, hperm, hlen, htexts⟩ := htells k hk
    exact ⟨ns, hperm, hlen.trans (hsent k hk), (linesFor_eq_iff hid ns).mpr htexts⟩

/-- For every run, once `main` has returned: the lines that name a client tell the numbers of its
    list, as many as were asked for in its round, if and only if no round was ended before all
    its replies had been shown. -/
theorem session_tells_iff (h : Run Session.CalmStep (.init input sockfd) events s)
    (hreturned : s.terminal.main.pc = .returned) :
    s.Tells input ↔ Run (Along Session.CalmStep WaitsForReplies) (.init input sockfd) events s :=
  (tells_iff_tellsOver h hreturned).trans (run_along_iff_of_trap
    (I := Session.InRound) (T := Session.Missed) (G := Session.TellsOver)
    (fun _ _ _ hs h hwaits => inRound_step hs h hwaits)
    (fun _ _ _ hs h hwaits => session_missed_of_step hs h hwaits)
    (fun _ _ _ hs h => session_missed_step hs h)
    (fun _ hs => tellsOver_of_inRound hs) (fun _ hs => hs.not_tellsOver)
    (inRound_init input sockfd) h)

end Returned

/-! ## Sessions that can be shown -/

abbrev Session.WaitingStep : Session → SessionEvent → Session → Prop :=
  Along Session.CalmStep WaitsForReplies

abbrev Session.KeepingStep : Session → SessionEvent → Session → Prop :=
  Along Session.WaitingStep KeepsBuffer

/-- Every request is handled, and its reply shown. -/
def Session.AllShown (s : Session) : Prop :=
  ∀ k, s.shownOn k = (s.terminal.main.sentOn k).length

/-- What is left to do before the round can be ended. -/
def Session.toShow (s : Session) : ℕ :=
  s.terminal.toDo + ∑ k ∈ Finset.range s.terminal.main.connections,
    ((s.terminal.main.sentOn k).length - s.shownOn k)

section Showing

variable {s : Session}

theorem shownOn_append (s : Session) (reply : ShownReply) (k : ℕ) :
    ({ s with shown := s.shown ++ [reply] } : Session).shownOn k =
      s.shownOn k + if reply.connection = k then 1 else 0 := by
  unfold Session.shownOn
  rw [List.countP_append, List.countP_singleton]
  simp

/-- In a calm run, what was received are whole replies. -/
theorem chunksOn_eq (hs : s.Inv) (k : ℕ) :
    s.chunksOn k = (s.shown.filter fun reply => reply.connection = k).map ShownReply.text :=
  List.map_congr_left fun reply hmem => hs.whole reply (List.mem_of_mem_filter hmem)

theorem drop_overwrite {buffer chunk : Bytes} {n : ℕ} (h : chunk.length ≤ n) :
    (overwrite buffer chunk).drop n = buffer.drop n := by
  unfold overwrite
  rw [List.drop_append, List.drop_eq_nil_of_le h, List.nil_append, List.drop_drop,
    Nat.add_sub_of_le h]

/-- Behind the longest of the chunks a buffer is as it was. -/
theorem drop_foldl_overwrite {buffer : Bytes} {chunks : List Bytes} {n : ℕ}
    (h : ∀ chunk ∈ chunks, chunk.length ≤ n) :
    (chunks.foldl overwrite buffer).drop n = buffer.drop n := by
  induction chunks generalizing buffer with
  | nil => rfl
  | cons chunk chunks ih =>
    obtain ⟨hfirst, hrest⟩ := List.forall_mem_cons.mp h
    rw [List.foldl_cons, ih hrest, drop_overwrite hfirst]

/-- Of numbers that ascend, no reply is shorter than those before it. -/
theorem length_chunksOn_le (hs : s.Inv) (horder : GivenInOrder s.terminal.server.numbers) {k : ℕ}
    {text : Bytes} (h : s.chunksOn k ++ [text] <+: s.terminal.server.repliesOn k) :
    (∀ chunk ∈ s.chunksOn k, chunk.length ≤ text.length) ∧ text.length < MAX_PACKET_SIZE := by
  have hd := hs.terminal.server
  rw [repliesOn_eq hd hs.sockets] at h
  have hrange := hd.range_of_numbersFor k
  have hascends : ((numbersFor s.terminal.handled s.terminal.server.numbers k).map
      to_string).Pairwise fun a b => a.length ≤ b.length :=
    List.pairwise_map.mpr ((horder.numbersFor hd k).imp_of_mem fun ha _ hlt =>
      length_to_string_le (hrange _ ha).1 (Int.le_of_lt hlt))
  refine ⟨fun chunk hmem => ?_, ?_⟩
  · exact (List.pairwise_append.mp (hascends.sublist h.sublist)).2.2 chunk hmem text
      (List.mem_singleton_self _)
  · obtain ⟨n, hn, rfl⟩ := List.mem_map.mp (h.subset (List.mem_append_right _
      (List.mem_singleton_self _)))
    obtain ⟨h0, h99, -⟩ := hrange n hn
    exact Nat.lt_of_le_of_lt (length_to_string_le h0 h99) (by decide)

/-- A reply that was sent can be shown, from a buffer that is never cleared, if the numbers were
    given in order. -/
theorem shows_one (hs : s.Inv) (horder : GivenInOrder s.terminal.server.numbers)
    (hlive : s.terminal.main.pc.ended = false) {k : ℕ}
    (hhandled : s.terminal.handled.count k = (s.terminal.main.sentOn k).length)
    (hlt : s.shownOn k < (s.terminal.main.sentOn k).length) :
    ∃ event, ∃ reply : ShownReply, reply.connection = k ∧
      s.CalmStep event { s with shown := s.shown ++ [reply] } ∧
      KeepsBuffer s event { s with shown := s.shown ++ [reply] } := by
  have hreplies := repliesOn_eq hs.terminal.server hs.sockets k
  have hlength : s.shownOn k < (s.terminal.server.repliesOn k).length := by
    rw [hreplies, List.length_map, length_numbersFor hs.terminal.server.drawn, hhandled]
    exact hlt
  obtain ⟨text, htext⟩ : ∃ text, (s.terminal.server.repliesOn k)[s.shownOn k]? = some text :=
    ⟨_, List.getElem?_eq_getElem hlength⟩
  have hnext : s.chunksOn k ++ [text] <+: s.terminal.server.repliesOn k := by
    rw [chunksOn_eq hs]
    refine concat_prefix (hreplies ▸ hs.shown k) ?_
    rw [length_shown]
    exact htext
  obtain ⟨hshorter, hshort⟩ := length_chunksOn_le hs horder hnext
  have hbehind : ((s.bufferOn k).drop text.length).head? = some 0 := by
    unfold Session.bufferOn
    rw [drop_foldl_overwrite hshorter]
    show ((List.replicate MAX_PACKET_SIZE (0 : UInt8)).drop text.length).head? = some 0
    rw [List.drop_replicate, List.head?_replicate, if_neg (by omega)]
  set behind := (s.bufferOn k).drop text.length with hkept
  refine ⟨.shows k text behind, ⟨k, s.terminal.main.id, text, cString (text ++ behind)⟩, rfl,
    ⟨?_, htext, hbehind⟩, hkept⟩
  unfold Session.Step Session.step
  dsimp only
  rw [if_neg (by rw [hlive]; nofun), if_pos (by simpa using hnext.flatten)]

theorem terminal_step_of_session {e : TerminalEvent} {t : Terminal} (h : s.terminal.Step e t) :
    s.Step (.terminal e) { s with terminal := t } := by
  unfold Session.Step Session.step
  dsimp only
  rw [show s.terminal.step e = some t from h]
  rfl

/-- Before a round is ended, either everything is shown or one more step can be done for it. -/
theorem session_proceeds (hs : s.InRound) (horderly : s.terminal.Orderly)
    (hlive : s.terminal.main.pc.ended = false) (hmodest : s.terminal.main.Modest) :
    s.AllShown ∨ ∃ s', Reaches Session.KeepingStep s s' ∧
      (s'.InRound ∧ s'.terminal.Orderly ∧ s'.terminal.main = s.terminal.main) ∧
        s'.toShow < s.toShow := by
  have hmoves : ∀ (event : SessionEvent) (s' : Session), s.CalmStep event s' →
      KeepsBuffer s event s' → s'.terminal.main = s.terminal.main → s'.terminal.Orderly →
      s'.toShow < s.toShow →
      ∃ s', Reaches Session.KeepingStep s s' ∧
        (s'.InRound ∧ s'.terminal.Orderly ∧ s'.terminal.main = s.terminal.main) ∧
          s'.toShow < s.toShow := by
    intro event s' hstep hkeeps hmain horderly' hlt
    have hwaits : WaitsForReplies s event s' := fun h => absurd (congrArg ClientMain.i hmain) h
    exact ⟨s', .of_step ⟨⟨hstep, hwaits⟩, hkeeps⟩,
      ⟨inRound_step hs hstep hwaits, horderly', hmain⟩, hlt⟩
  obtain ⟨fd, hfd⟩ := Infinite.exists_notMem_finset
    (s.terminal.server.clients.map s.terminal.server.fd).toFinset
  rw [List.mem_toFinset] at hfd
  rcases terminal_proceeds hs.inv.terminal horderly hlive hmodest fd with hall | h
  · by_cases hshown : s.AllShown
    · exact .inl hshown
    right
    unfold Session.AllShown at hshown
    push Not at hshown
    obtain ⟨k, hk⟩ := hshown
    have hle := hs.inv.shownOn_le k
    have hlt : s.shownOn k < (s.terminal.main.sentOn k).length := by omega
    obtain ⟨event, reply, hreply, hstep, hkeeps⟩ :=
      shows_one hs.inv horderly.2 hlive (hall k) hlt
    refine hmoves event _ hstep hkeeps rfl horderly ?_
    have hconnection : k < s.terminal.main.connections :=
      (hs.inv.terminal.direct.sentOn (List.getElem?_eq_getElem hlt)).2
    refine Nat.add_lt_add_left (Finset.sum_lt_sum (fun k' _ => ?_)
      ⟨k, Finset.mem_range.mpr hconnection, ?_⟩) _
    · rw [shownOn_append]
      exact Nat.sub_le_sub_left (Nat.le_add_right _ _) _
    · rw [shownOn_append, if_pos hreply]
      dsimp only
      omega
  · right
    obtain ⟨e, t, hstep, hmain, horderly', hlt, haccepts⟩ := h
    refine hmoves (.terminal e) { s with terminal := t }
      ⟨terminal_step_of_session hstep.1, hstep.2, fun fileDescriptor ip heq => ?_⟩ trivial hmain
      horderly' ?_
    · rw [haccepts fileDescriptor ip heq]
      exact hfd
    · unfold Session.toShow
      dsimp only
      rw [hmain]
      exact Nat.add_lt_add_right hlt _

/-- Before a round is ended, everything can be shown. -/
theorem session_settles (hs : s.InRound) (horderly : s.terminal.Orderly)
    (hlive : s.terminal.main.pc.ended = false) (hmodest : s.terminal.main.Modest) :
    ∃ s', Reaches Session.KeepingStep s s' ∧
      (s'.InRound ∧ s'.terminal.Orderly ∧ s'.terminal.main = s.terminal.main) ∧ s'.AllShown := by
  refine reaches_of_measure Session.toShow (fun s₁ hI => ?_) ⟨hs, horderly, rfl⟩
  obtain ⟨hs₁, horderly₁, hmain₁⟩ := hI
  refine (session_proceeds hs₁ horderly₁ (by rwa [hmain₁]) (by rwa [hmain₁])).imp_right fun h => ?_
  obtain ⟨s₂, hreach, ⟨hs₂, horderly₂, hmain₂⟩, hlt⟩ := h
  exact ⟨s₂, hreach, ⟨hs₂, horderly₂, hmain₂.trans hmain₁⟩, hlt⟩

/-- When everything is shown, `main` can take its next step. -/
theorem session_main_proceeds (hs : s.InRound) (horderly : s.terminal.Orderly)
    (hlive : s.terminal.main.pc.ended = false) (hmodest : s.terminal.main.Modest) :
    ∃ s', Reaches Session.KeepingStep s s' ∧ s'.InRound ∧ s'.terminal.Orderly ∧
      s'.terminal.main.all = s.terminal.main.all ∧
      s'.terminal.main.toDo < s.terminal.main.toDo := by
  obtain ⟨s₁, hreach, ⟨hs₁, horderly₁, hmain₁⟩, hshown⟩ :=
    session_settles hs horderly hlive hmodest
  rw [← hmain₁] at hlive ⊢
  have hsettled : s₁.terminal.Settled := by
    intro k
    obtain ⟨hle, hle'⟩ := hs₁.inv.shownOn_le k
    have hall := hshown k
    rw [length_numbersFor hs₁.inv.terminal.server.drawn] at hle hle'
    omega
  obtain ⟨m, hstep, hall, hlt, -⟩ := main_proceeds hs₁.inv.terminal hsettled hlive
  have hcalm : s₁.CalmStep (.terminal (.main (.goesOn true true)))
      { s₁ with terminal := { s₁.terminal with main := m } } :=
    ⟨terminal_step_of_session hstep.1, hstep.2, nofun⟩
  have hwaits : WaitsForReplies s₁ (.terminal (.main (.goesOn true true)))
      { s₁ with terminal := { s₁.terminal with main := m } } := fun _ => hshown _
  exact ⟨_, hreach.trans (.of_step ⟨⟨hcalm, hwaits⟩, trivial⟩), inRound_step hs₁ hcalm hwaits,
    horderly₁, hall, hlt⟩

end Showing

section Session

variable {input : Bytes}

theorem count_asked_of_le (selected : List ℤ) {k : ℕ} (hk : 10 ≤ k) :
    (asked 0 10 selected).count (k : ℤ) = 0 := by
  unfold asked
  rw [count_rounds, if_pos (Nat.zero_le k), Nat.sub_zero, List.getElem?_eq_none]
  · rfl
  · exact (List.length_take_le 10 _).trans hk

/-- With at most fifty requests of each parity there is a run in which every reply is shown in its
    round. -/
theorem session_waits (sockfd : ℤ)
    (heven : (asked 0 10 (selections input)).countP (fun k => k % 2 = 0) ≤ 50)
    (hodd : (asked 0 10 (selections input)).countP (fun k => k % 2 = 1) ≤ 50) :
    ∃ events s, Run Session.KeepingStep (.init input sockfd) events s ∧
      s.terminal.main.pc.ended = true := by
  have hrounds : ∀ s : Session,
      (s.InRound ∧ s.terminal.Orderly ∧ s.terminal.main.all = asked 0 10 (selections input)) →
      s.terminal.main.pc.ended = true ∨ ∃ s' : Session, Reaches Session.KeepingStep s s' ∧
        (s'.InRound ∧ s'.terminal.Orderly ∧
          s'.terminal.main.all = asked 0 10 (selections input)) ∧
        s'.terminal.main.toDo < s.terminal.main.toDo := by
    intro s hI
    obtain ⟨hs, horderly, hall⟩ := hI
    cases hlive : s.terminal.main.pc.ended with
    | true => exact .inl rfl
    | false =>
      obtain ⟨s', hreach, hs', horderly', hall', hlt⟩ :=
        session_main_proceeds hs horderly hlive (modest_of_all hall heven hodd)
      exact .inr ⟨s', hreach, ⟨hs', horderly', hall'.trans hall⟩, hlt⟩
  obtain ⟨s, ⟨events, hrun⟩, -, hend⟩ := reaches_of_measure
    (fun s : Session => s.terminal.main.toDo) hrounds
    ⟨inRound_init input sockfd, orderly_init input sockfd, rfl⟩
  exact ⟨events, s, hrun, hend⟩

theorem inRound_of_run {sockfd : ℤ} {events : List SessionEvent} {s : Session}
    (h : Run Session.WaitingStep (.init input sockfd) events s) : s.InRound :=
  h.invariant_along (fun _ _ _ hs h hwaits => inRound_step hs h hwaits)
    (inRound_init input sockfd)

/-- A session whose rounds waited is within the bounds. -/
theorem showable_of_returned {sockfd : ℤ} {events : List SessionEvent} {s : Session}
    (h : Run Session.WaitingStep (.init input sockfd) events s)
    (hreturned : s.terminal.main.pc = .returned) :
    10 ≤ (selections input).count 2 ∧
      (asked 0 10 (selections input)).countP (fun k => k % 2 = 0) ≤ 50 ∧
      (asked 0 10 (selections input)).countP (fun k => k % 2 = 1) ≤ 50 := by
  have hs := inRound_of_run h
  have hend : s.terminal.main.pc.ended = true := by rw [hreturned]; rfl
  obtain ⟨hasked, hcompletes⟩ := main_of_session h.of_along hend
  have hfinished : s.terminal.Finished := by
    refine ⟨hend, fun k => ?_⟩
    obtain ⟨hshown, hsent⟩ := hs.inv.shownOn_le k
    rw [length_numbersFor hs.inv.terminal.server.drawn] at hshown hsent
    by_cases hk : k < 10
    · have hdone := hs.done k (by rw [hs.inv.returned hreturned]; exact hk)
      omega
    · have hnone : (s.terminal.main.sentOn k).length = 0 := by
        rw [hs.inv.terminal.direct.count_sentOn, hasked, count_asked_of_le _ (Nat.le_of_not_lt hk)]
      omega
  rw [← hasked]
  exact ⟨hcompletes.mp hreturned,
    hs.inv.terminal.countP_requests_le hfinished (.ofNat 0 (by decide)),
    hs.inv.terminal.countP_requests_le hfinished (.ofNat 1 (by decide))⟩

/-- A session can be ended with every reply shown in its round, with buffers that hold anything or
    keep what they hold, if and only if ten 2s can be read and at most fifty of the 1s typed are
    in rounds of even number and at most fifty in rounds of odd number. -/
theorem session_showable_tfae (input : Bytes) (sockfd : ℤ) : List.TFAE [
    ∃ events s, Run Session.WaitingStep (.init input sockfd) events s ∧
      s.terminal.main.pc = .returned ∧ s.Tells input,
    ∃ events s, Run Session.KeepingStep (.init input sockfd) events s ∧
      s.terminal.main.pc = .returned ∧ s.Tells input,
    10 ≤ (selections input).count 2 ∧
      (asked 0 10 (selections input)).countP (fun k => k % 2 = 0) ≤ 50 ∧
      (asked 0 10 (selections input)).countP (fun k => k % 2 = 1) ≤ 50] := by
  tfae_have 2 → 1 := fun ⟨events, s, hrun, hend⟩ => ⟨events, s, hrun.of_along, hend⟩
  tfae_have 1 → 3 := by
    intro h
    obtain ⟨events, s, hrun, hreturned, -⟩ := h
    exact showable_of_returned hrun hreturned
  tfae_have 3 → 2 := by
    intro h
    obtain ⟨hcount, heven, hodd⟩ := h
    obtain ⟨events, s, hrun, hend⟩ := session_waits sockfd heven hodd
    have hcalm := hrun.of_along.of_along
    have hreturned := (main_of_session hcalm hend).2.mpr hcount
    have hs := inRound_of_run hrun.of_along
    exact ⟨events, s, hrun, hreturned,
      (tells_iff_tellsOver hcalm hreturned).mpr (tellsOver_of_inRound hs)⟩
  tfae_finish

end Session

/-- 1 is typed once, in the third round. -/
theorem session_tells_third :
    ∃ events s, Run Session.CalmStep (.init (script thirdOnly ++ []) 3) events s ∧
      s.terminal.main.pc = .returned ∧ s.Tells (script thirdOnly ++ []) := by
  have hasked : asked 0 10 (selections (script thirdOnly ++ [])) = [2] :=
    (asked_script 0 thirdOnly (by decide) []).trans (by decide)
  obtain ⟨events, s, hrun, hend⟩ := session_waits 3
    (by rw [hasked]; decide) (by rw [hasked]; decide)
  have hcalm := hrun.of_along.of_along
  have hreturned := (main_of_session hcalm hend).2.mpr (count_script thirdOnly [])
  exact ⟨events, s, hcalm, hreturned, (session_tells_iff hcalm hreturned).mpr hrun.of_along⟩

end TCPServer
