/-
  Replies on their way back: from the texts that the server sends to the console of the client
  runner.

  `TcpClient::receiveTask` hands each chunk to `publishServerMsg` as a buffer with the number of
  bytes. The runner's `onIncomingMsg` does not use the number: it prints the buffer up to the
  first zero byte, and in front of it the number of the client that `client` points to then.
  The loop does not clear the buffer between two calls of `recv`.

  `replies_shown_iff`: the console shows one line for each reply, with the number of the client
  that receives it and the text sent, if and only if each chunk is one of the texts, a zero byte
  happens to be behind each in the buffer, `recv` does not fail, and `client` still points to
  the receiver. What is shown is never shorter than what was received
  (`length_chunks_le`), so nothing makes up for a text that was cut or joined.
-/
import TCPServer.Framing
import TCPServer.Delivery

namespace TCPServer

/-- `client_observer_t`: which handlers are set; nothing reads its `wantedIP`. -/
structure ClientObserver where
  incomingPacketHandler : Bool
  disconnectionHandler : Bool

/-- A call of a handler of the subscriber at a position of `_subscibers`. -/
inductive ClientCallback where
  | incomingPacket (subscriber : ℕ) (msg : Buffer) (size : ℕ)
  | disconnection (subscriber : ℕ) (ret : PipeRet)

/-- `TcpClient::publishServerMsg`, from the subscriber at position `i` on. -/
def publishServerMsg (msg : Buffer) (msgSize : ℕ) : ℕ → List ClientObserver → List ClientCallback
  | _, [] => []
  | i, subscriber :: subscribers =>
    if subscriber.incomingPacketHandler then
      .incomingPacket i msg msgSize :: publishServerMsg msg msgSize (i + 1) subscribers
    else publishServerMsg msg msgSize (i + 1) subscribers

/-- `TcpClient::publishServerDisconnected`, from the subscriber at position `i` on. -/
def publishServerDisconnected (ret : PipeRet) : ℕ → List ClientObserver → List ClientCallback
  | _, [] => []
  | i, subscriber :: subscribers =>
    if subscriber.disconnectionHandler then
      .disconnection i ret :: publishServerDisconnected ret (i + 1) subscribers
    else publishServerDisconnected ret (i + 1) subscribers

/-- The callbacks one action of the receive thread leads to. -/
def TcpClient.publish (subscribers : List ClientObserver) :
    Action (Buffer × ℕ) → List ClientCallback
  | .publishMsg msg => publishServerMsg msg.1 msg.2 0 subscribers
  | .publishDisconnected why => publishServerDisconnected (.failure why) 0 subscribers
  | _ => []

/-- A line that `onIncomingMsg` prints. -/
def replyLine (id : CInt) (text : Bytes) : Bytes :=
  bytes "Client # " ++
    (to_string id.val ++ (bytes " got this unique number from the server: " ++ (text ++ [10])))

/-- `onIncomingMsg` of the client runner, where `id` is what `client->getID()` gives: what it
    prints, unless the buffer is read past its end. -/
def onIncomingMsg (id : CInt) (msg : Buffer) (_size : ℕ) : Option Bytes :=
  (cStringIn msg.bytes).map (replyLine id)

/-- `onDisconnection` of the client runner. -/
def onDisconnection (ret : PipeRet) : Bytes :=
  bytes "Server disconnected: " ++ (bytes ret.msg ++ [10])

/-- What the runner's handlers print, where `current j` is the number of the client that `client`
    points to at the `j`-th call. -/
def console (current : ℕ → CInt) : ℕ → List ClientCallback → Option (List Bytes)
  | _, [] => some []
  | j, .incomingPacket _ msg size :: callbacks => do
    let line ← onIncomingMsg (current j) msg size
    let lines ← console current (j + 1) callbacks
    pure (line :: lines)
  | j, .disconnection _ ret :: callbacks => do
    let lines ← console current (j + 1) callbacks
    pure (onDisconnection ret :: lines)

/-- The observer that the runner registers with each client. -/
def runnerObserver : ClientObserver := ⟨true, true⟩

/-- The console of the runner for the rounds of one receive thread. -/
def consoleOf (current : ℕ → CInt) (os : List Outcome) : Option (List Bytes) :=
  console current 0
    ((TcpClient.receiveTask true os).flatMap (TcpClient.publish [runnerObserver]))

/-! ## What the rounds bring -/

/-- The loop is left in this round. -/
def Outcome.leaves : Outcome → Bool
  | .waitFailure _ => true
  | .recv .closed _ => true
  | _ => false

def Outcome.chunk : Outcome → Option Chunk
  | .recv (.data c) _ => some c
  | _ => none

/-- Nothing but a chunk is in front of the first zero byte, and `recv` has not failed. -/
def Outcome.Whole : Outcome → Prop
  | .recv (.data c) buf => buf.bytes[c.bytes.length]? = some 0
  | .recv (.error _) _ => False
  | _ => True

/-- The rounds in which the loop goes on. -/
def goingOn (os : List Outcome) : List Outcome := os.takeWhile (!·.leaves)

/-- The chunks that are received, in order. -/
def chunksOf (os : List Outcome) : List Bytes :=
  (goingOn os).filterMap fun o => o.chunk.map Chunk.bytes

/-- The line printed at the end of the stream, if it is reached. -/
def endLine (os : List Outcome) : List Bytes :=
  match os.find? (·.leaves) with
  | some (.recv _ _) => [onDisconnection (.failure "Server closed connection")]
  | _ => []

/-- The texts in the lines for messages. -/
def shownTexts : List Outcome → Option (List Bytes)
  | [] => some []
  | .waitFailure _ :: _ => some []
  | .timeout :: os => shownTexts os
  | .recv .closed _ :: _ => some []
  | .recv r buf :: os => do
    let text ← cStringIn (buf.recv r).bytes
    let texts ← shownTexts os
    pure (text :: texts)

/-- The lines for messages from the `j`-th on. -/
def replyLines (current : ℕ → CInt) : ℕ → List Bytes → List Bytes
  | _, [] => []
  | j, text :: texts => replyLine (current j) text :: replyLines current (j + 1) texts

section Console

variable {current : ℕ → CInt}

theorem console_message (j : ℕ) (msg : Buffer) (size : ℕ) (callbacks : List ClientCallback) :
    console current j (publishServerMsg msg size 0 [runnerObserver] ++ callbacks) =
      (cStringIn msg.bytes).bind fun text => (console current (j + 1) callbacks).map
        (replyLine (current j) text :: ·) := by
  show console current j (.incomingPacket 0 msg size :: callbacks) = _
  rw [console, onIncomingMsg]
  cases cStringIn msg.bytes with
  | none => rfl
  | some text => cases console current (j + 1) callbacks <;> rfl

/-- The console shows a line for each message, and one at the end of the stream. -/
theorem console_eq (os : List Outcome) (j : ℕ) :
    console current j
        ((TcpClient.receiveTask true os).flatMap (TcpClient.publish [runnerObserver])) =
      (shownTexts os).map fun texts => replyLines current j texts ++ endLine os := by
  induction os generalizing j with
  | nil => rfl
  | cons o os ih =>
    unfold TcpClient.receiveTask at ih ⊢
    cases o with
    | waitFailure errno => rfl
    | timeout =>
      rw [receiveLoop_timeout, ih]
      rfl
    | recv r buf =>
      cases r with
      | closed =>
        rw [receiveLoop_closed]
        rfl
      | data c =>
        rw [receiveLoop_data, List.flatMap_cons, TcpClient.publish, console_message, ih,
          shownTexts]
        · cases cStringIn (buf.recv (.data c)).bytes with
          | none => rfl
          | some text => cases shownTexts os <;> rfl
        · nofun
      | error errno =>
        rw [receiveLoop_error, List.flatMap_cons, TcpClient.publish, console_message, ih,
          shownTexts]
        · show Option.bind (cStringIn buf.bytes) _ = Option.map _ ((cStringIn buf.bytes).bind _)
          cases cStringIn buf.bytes with
          | none => rfl
          | some text => cases shownTexts os <;> rfl
        · nofun

end Console

/-! ## What is shown, and what was received -/

section Texts

variable {o : Outcome} {os : List Outcome} {texts : List Bytes}

theorem goingOn_cons (h : o.leaves = false) : goingOn (o :: os) = o :: goingOn os := by
  unfold goingOn
  rw [List.takeWhile_cons, h]
  rfl

theorem goingOn_leaves (h : o.leaves = true) : goingOn (o :: os) = [] := by
  unfold goingOn
  rw [List.takeWhile_cons, h]
  rfl

theorem chunksOf_leaves (h : o.leaves = true) : chunksOf (o :: os) = [] := by
  unfold chunksOf
  rw [goingOn_leaves h]
  rfl

theorem chunksOf_other (h : o.leaves = false) (hchunk : o.chunk = none) :
    chunksOf (o :: os) = chunksOf os := by
  unfold chunksOf
  rw [goingOn_cons h, List.filterMap_cons, hchunk]
  rfl

theorem chunksOf_data (c : Chunk) (buf : Buffer) :
    chunksOf (.recv (.data c) buf :: os) = c.bytes :: chunksOf os := by
  unfold chunksOf
  rw [goingOn_cons rfl]
  rfl

/-- The string in the buffer begins with a chunk that has no zero byte. -/
theorem isPrefix_of_cStringIn {c rest text : Bytes} (hc : (0 : UInt8) ∉ c)
    (h : cStringIn (c ++ rest) = some text) : c <+: text := by
  unfold cStringIn at h
  split at h
  · have hpos : ∀ b ∈ c, decide (b ≠ 0) = true := fun b hb => decide_eq_true fun h0 => hc (h0 ▸ hb)
    rw [← Option.some.inj h, cString, List.takeWhile_append_of_pos hpos]
    exact List.prefix_append _ _
  · cases h

/-- What a round with a message shows, and what the others show. -/
theorem shownTexts_recv {r : RecvResult} {buf : Buffer}
    (h : shownTexts (.recv r buf :: os) = some texts) (hr : r ≠ .closed) :
    ∃ text rest, texts = text :: rest ∧ cStringIn (buf.recv r).bytes = some text ∧
      shownTexts os = some rest := by
  rw [shownTexts] at h
  · obtain ⟨text, htext, h⟩ := Option.bind_eq_some_iff.mp h
    obtain ⟨rest, hrest, h⟩ := Option.bind_eq_some_iff.mp h
    exact ⟨text, rest, (Option.some.inj h).symm, htext, hrest⟩
  · exact hr

/-- No less is shown than was received. -/
theorem length_chunks_le (hzero : ∀ c ∈ chunksOf os, (0 : UInt8) ∉ c)
    (h : shownTexts os = some texts) :
    (chunksOf os).flatten.length ≤ texts.flatten.length := by
  induction os generalizing texts with
  | nil => exact Nat.zero_le _
  | cons o os ih =>
    cases o with
    | waitFailure errno =>
      rw [chunksOf_leaves rfl]
      exact Nat.zero_le _
    | timeout =>
      rw [chunksOf_other rfl rfl] at hzero ⊢
      exact ih hzero h
    | recv r buf =>
      cases r with
      | closed =>
        rw [chunksOf_leaves rfl]
        exact Nat.zero_le _
      | error errno =>
        obtain ⟨text, rest, rfl, -, hrest⟩ := shownTexts_recv h nofun
        rw [chunksOf_other rfl rfl] at hzero ⊢
        have hle := ih hzero hrest
        rw [List.flatten_cons, List.length_append]
        omega
      | data c =>
        obtain ⟨text, rest, rfl, htext, hrest⟩ := shownTexts_recv h nofun
        rw [chunksOf_data] at hzero ⊢
        have hle := ih (fun c hc => hzero c (List.mem_cons_of_mem _ hc)) hrest
        have hprefix := (isPrefix_of_cStringIn (hzero c.bytes List.mem_cons_self) htext).length_le
        rw [List.flatten_cons, List.flatten_cons, List.length_append, List.length_append]
        omega

/-- If no more is shown either, the texts shown are the chunks, and each was whole. -/
theorem chunks_eq_of_length (hzero : ∀ c ∈ chunksOf os, (0 : UInt8) ∉ c)
    (hne : ∀ text ∈ texts, text ≠ []) (h : shownTexts os = some texts)
    (hle : texts.flatten.length ≤ (chunksOf os).flatten.length) :
    chunksOf os = texts ∧ ∀ o ∈ goingOn os, o.Whole := by
  induction os generalizing texts with
  | nil =>
    cases h
    exact ⟨rfl, nofun⟩
  | cons o os ih =>
    cases o with
    | waitFailure errno =>
      cases h
      rw [goingOn_leaves rfl, chunksOf_leaves rfl]
      exact ⟨rfl, nofun⟩
    | timeout =>
      rw [chunksOf_other rfl rfl] at hzero hle ⊢
      obtain ⟨heq, hwhole⟩ := ih hzero hne h hle
      rw [goingOn_cons rfl]
      refine ⟨heq, fun o ho => ?_⟩
      rcases List.mem_cons.mp ho with rfl | ho
      · exact trivial
      · exact hwhole o ho
    | recv r buf =>
      cases r with
      | closed =>
        cases h
        rw [goingOn_leaves rfl, chunksOf_leaves rfl]
        exact ⟨rfl, nofun⟩
      | error errno =>
        -- A line too many, and it is not empty.
        obtain ⟨text, rest, rfl, -, hrest⟩ := shownTexts_recv h nofun
        rw [chunksOf_other rfl rfl] at hzero hle
        have hge := length_chunks_le hzero hrest
        have hpos := List.length_pos_of_ne_nil (hne text List.mem_cons_self)
        rw [List.flatten_cons, List.length_append] at hle
        omega
      | data c =>
        obtain ⟨text, rest, rfl, htext, hrest⟩ := shownTexts_recv h nofun
        rw [chunksOf_data] at hzero hle ⊢
        have hzero' : ∀ c ∈ chunksOf os, (0 : UInt8) ∉ c :=
          fun c hc => hzero c (List.mem_cons_of_mem _ hc)
        have hge := length_chunks_le hzero' hrest
        have hprefix := isPrefix_of_cStringIn (hzero c.bytes List.mem_cons_self) htext
        have hprefix_le := hprefix.length_le
        rw [List.flatten_cons, List.flatten_cons, List.length_append, List.length_append] at hle
        have htext_eq : c.bytes = text := hprefix.eq_of_length (by omega)
        obtain ⟨heq, hwhole⟩ := ih hzero' (fun t ht => hne t (List.mem_cons_of_mem _ ht)) hrest
          (by omega)
        rw [goingOn_cons rfl, heq, htext_eq]
        refine ⟨rfl, fun o ho => ?_⟩
        rcases List.mem_cons.mp ho with rfl | ho
        · rw [← htext_eq] at htext
          have hhead := (cStringIn_append_eq_iff.mp htext).2
          rwa [List.head?_drop] at hhead
        · exact hwhole o ho

/-- Whole chunks are shown as they are. -/
theorem shownTexts_of_whole (hzero : ∀ c ∈ chunksOf os, (0 : UInt8) ∉ c)
    (hwhole : ∀ o ∈ goingOn os, o.Whole) : shownTexts os = some (chunksOf os) := by
  induction os with
  | nil => rfl
  | cons o os ih =>
    cases o with
    | waitFailure errno => rfl
    | timeout =>
      rw [chunksOf_other rfl rfl] at hzero ⊢
      rw [goingOn_cons rfl] at hwhole
      exact ih hzero fun o ho => hwhole o (List.mem_cons_of_mem _ ho)
    | recv r buf =>
      cases r with
      | closed => rfl
      | error errno =>
        rw [goingOn_cons rfl] at hwhole
        exact absurd (hwhole _ List.mem_cons_self) id
      | data c =>
        rw [chunksOf_data] at hzero ⊢
        rw [goingOn_cons rfl] at hwhole
        have hrest := ih (fun c hc => hzero c (List.mem_cons_of_mem _ hc))
          fun o ho => hwhole o (List.mem_cons_of_mem _ ho)
        have hbehind : buf.bytes[c.bytes.length]? = some 0 := hwhole _ List.mem_cons_self
        have htext : cStringIn (buf.recv (.data c)).bytes = some c.bytes := by
          refine cStringIn_append_eq_iff.mpr ⟨hzero c.bytes List.mem_cons_self, ?_⟩
          rwa [List.head?_drop]
        rw [shownTexts, htext, hrest]
        · rfl
        · nofun

end Texts

/-! ## Lines -/

section Lines

variable {current : ℕ → CInt} {own : CInt}

/-- A line says which client and which text. -/
theorem replyLine_inj {id id' : CInt} {text text' : Bytes}
    (h : replyLine id text = replyLine id' text') : id = id' ∧ text = text' := by
  have hbehind : ∀ t, bytes " got this unique number from the server: " ++ (t ++ [10]) =
      32 :: (bytes "got this unique number from the server: " ++ (t ++ [10])) := fun _ => rfl
  have hrest := List.append_cancel_left h
  rw [hbehind, hbehind] at hrest
  have hread := congrArg stoi hrest
  rw [stoi_to_string_append id (by decide), stoi_to_string_append id' (by decide)] at hread
  have hid := Except.ok.inj hread
  rw [hid] at hrest
  have htext := List.append_cancel_left (List.cons.inj (List.append_cancel_left hrest)).2
  exact ⟨hid, List.append_cancel_right htext⟩

/-- The lines are those for `texts` under `own` exactly if the texts are these, and `client`
    points to the receiver at each. -/
theorem replyLines_eq_iff (j : ℕ) (texts texts' : List Bytes) :
    replyLines current j texts = texts'.map (replyLine own) ↔
      texts = texts' ∧ ∀ i < texts'.length, current (j + i) = own := by
  induction texts generalizing j texts' with
  | nil =>
    cases texts' with
    | nil => simp [replyLines]
    | cons text' texts' => simp [replyLines]
  | cons text texts ih =>
    cases texts' with
    | nil => simp [replyLines]
    | cons text' texts' =>
      rw [replyLines, List.map_cons, List.cons.injEq, ih (j + 1) texts']
      constructor
      · intro h
        obtain ⟨hline, hrest, hcurrent⟩ := h
        obtain ⟨hid, htext⟩ := replyLine_inj hline
        refine ⟨by rw [htext, hrest], fun i hi => ?_⟩
        cases i with
        | zero => exact hid
        | succ i =>
          have := hcurrent i (Nat.lt_of_succ_lt_succ hi)
          rwa [Nat.add_assoc, Nat.add_comm 1 i] at this
      · intro h
        obtain ⟨htexts, hcurrent⟩ := h
        obtain ⟨htext, hrest⟩ := List.cons.inj htexts
        refine ⟨?_, hrest, fun i hi => ?_⟩
        · rw [htext, show current j = own from hcurrent 0 (Nat.succ_pos _)]
        · have := hcurrent (i + 1) (Nat.succ_lt_succ hi)
          rwa [Nat.add_assoc, Nat.add_comm 1 i]

end Lines

/-- For all replies `ns` sent to a client, all rounds of its receive thread that bring their
    texts, in order and without loss, and whatever the buffer held before: the console shows one
    line for each reply, with the receiver's number and the text sent, and the line at the end
    of the stream if it is reached, if and only if each chunk is one of the texts, a zero byte is
    behind each and `recv` has not failed, and `client` points to the receiver at each. -/
theorem replies_shown_iff {ns : List CInt} (hns : ∀ n ∈ ns, 0 ≤ n.val) {os : List Outcome}
    (hstream : (chunksOf os).flatten = (sentTexts ns).flatten) (current : ℕ → CInt)
    (own : CInt) :
    consoleOf current os = some ((sentTexts ns).map (replyLine own) ++ endLine os) ↔
      chunksOf os = sentTexts ns ∧ (∀ o ∈ goingOn os, o.Whole) ∧
        ∀ j < ns.length, current j = own := by
  have hzero : ∀ c ∈ chunksOf os, (0 : UInt8) ∉ c := by
    intro c hc h0
    have hmem : (0 : UInt8) ∈ (chunksOf os).flatten := List.mem_flatten.mpr ⟨c, hc, h0⟩
    exact absurd (isDigit_of_mem_sentTexts hns (hstream ▸ hmem)) (by decide)
  have hne : ∀ text ∈ sentTexts ns, text ≠ [] := by
    intro text htext
    obtain ⟨n, hn, rfl⟩ := List.mem_map.mp htext
    rw [to_string_nonneg (hns n hn)]
    exact Decimal.text_ne_nil _
  have hlength : (sentTexts ns).length = ns.length := List.length_map _
  have hlines : ∀ texts texts', replyLines current 0 texts = texts'.map (replyLine own) ↔
      texts = texts' ∧ ∀ i < texts'.length, current i = own := by
    intro texts texts'
    simpa only [Nat.zero_add] using replyLines_eq_iff 0 texts texts'
  unfold consoleOf
  rw [console_eq]
  constructor
  · intro h
    obtain ⟨texts, htexts, heq⟩ := Option.map_eq_some_iff.mp h
    obtain ⟨rfl, hcurrent⟩ := (hlines _ _).mp (List.append_cancel_right heq)
    obtain ⟨hchunks, hwhole⟩ := chunks_eq_of_length hzero hne htexts
      (le_of_eq (congrArg List.length hstream).symm)
    exact ⟨hchunks, hwhole, hlength ▸ hcurrent⟩
  · intro h
    obtain ⟨hchunks, hwhole, hcurrent⟩ := h
    rw [shownTexts_of_whole hzero hwhole, hchunks, Option.map_some,
      (hlines _ _).mpr ⟨rfl, hlength.symm ▸ hcurrent⟩]

/-- 6 and then 14 arrive, each in a chunk of its own and in a fresh buffer. -/
def sixFourteen : List Outcome :=
  [.recv (.data ⟨[54], by decide, by decide⟩) zeroBuffer, .timeout,
    .recv (.data ⟨[49, 52], by decide, by decide⟩) zeroBuffer, .recv .closed zeroBuffer]

/-- They are shown for client 0. -/
theorem replies_shown_six_fourteen :
    consoleOf (fun _ => ⟨0, by decide, by decide⟩) sixFourteen =
      some ((sentTexts [⟨6, by decide, by decide⟩, ⟨14, by decide, by decide⟩]).map
        (replyLine ⟨0, by decide, by decide⟩) ++ endLine sixFourteen) := by
  have hbehind : ∀ k, 0 < k → k < MAX_PACKET_SIZE → zeroBuffer.bytes[k]? = some 0 := by
    intro k _ hk
    show (List.replicate MAX_PACKET_SIZE (0 : UInt8))[k]? = some 0
    rw [List.getElem?_replicate, if_pos hk]
  refine (replies_shown_iff (by decide) (by decide) _ _).mpr ⟨by decide, ?_, fun _ _ => rfl⟩
  have hstays : goingOn sixFourteen = [.recv (.data ⟨[54], by decide, by decide⟩) zeroBuffer,
      .timeout, .recv (.data ⟨[49, 52], by decide, by decide⟩) zeroBuffer] := rfl
  intro o ho
  rw [hstays] at ho
  simp only [List.mem_cons, List.not_mem_nil, or_false] at ho
  rcases ho with rfl | rfl | rfl
  · exact hbehind 1 (by decide) (by decide)
  · exact trivial
  · exact hbehind 2 (by decide) (by decide)

end TCPServer
