/-
  From a received chunk to a subscriber: `Client::receiveTask`, `publishEvent`,
  `clientEventHandler` and `publishClientMsg` in a row.

  `delivery_exact_iff`: a subscriber gets exactly the bytes of a chunk, with their number, if
  and only if the chunk has no zero byte, does not fill the buffer, and the byte of the buffer
  right behind it happens to be zero. Otherwise the message is cut at a zero byte of the
  chunk, goes on into bytes an earlier chunk left, or is read past the end of the buffer.
-/
import TCPServer.ReceiveTask
import TCPServer.Server

namespace TCPServer

/-- The callbacks one action of a client's receive thread leads to; `none` if its message was
    read past the end of the buffer. -/
def deliver (subscribers : List ServerObserver) (numClientsConnected : ℤ) (ip : String) :
    Action (Option Bytes) → Option (List Callback)
  | .publishMsg msg =>
    msg.map fun m => (clientEventHandler subscribers numClientsConnected ip .INCOMING_MSG m).1
  | .publishDisconnected why =>
    some (clientEventHandler subscribers numClientsConnected ip .DISCONNECTED (bytes why)).1
  | _ => some []

/-- The callbacks of all actions of a receive thread, in order. -/
def deliverAll (subscribers : List ServerObserver) (numClientsConnected : ℤ) (ip : String) :
    List (Action (Option Bytes)) → Option (List Callback)
  | [] => some []
  | a :: as => do
    let cs ← deliver subscribers numClientsConnected ip a
    let ds ← deliverAll subscribers numClientsConnected ip as
    pure (cs ++ ds)

def Callback.subscriber : Callback → ℕ
  | .incomingPacket i _ _ _ => i
  | .disconnection i _ _ => i

/-- The subscriber's filter lets messages from `ip` through, and it has a handler. -/
def ServerObserver.gets (o : ServerObserver) (ip : String) : Bool :=
  (o.wantedIP = ip || o.wantedIP = "") && o.incomingPacketHandler

/-! ## The calls a subscriber gets -/

theorem publishClientMsg_cons (ip : String) (msg : Bytes) (n k : ℕ) (o : ServerObserver)
    (os : List ServerObserver) :
    publishClientMsg ip msg n k (o :: os) =
      (if o.gets ip then [.incomingPacket k ip msg n] else []) ++
        publishClientMsg ip msg n (k + 1) os := by
  rw [publishClientMsg]
  by_cases hw : o.wantedIP = ip ∨ o.wantedIP = ""
  · by_cases hh : o.incomingPacketHandler = true
    · have hg : o.gets ip = true := by simp [ServerObserver.gets, hw, hh]
      rw [if_pos hw, if_pos hh, if_pos hg]
      rfl
    · have hg : ¬ o.gets ip = true := by simp [ServerObserver.gets, hh]
      rw [if_pos hw, if_neg hh, if_neg hg]
      rfl
  · have hg : ¬ o.gets ip = true := by simp [ServerObserver.gets, hw]
    rw [if_neg hw, if_neg hg]
    rfl

theorem publishClientMsg_subscriber {ip : String} {msg : Bytes} {n k : ℕ}
    {os : List ServerObserver} {c : Callback} (hc : c ∈ publishClientMsg ip msg n k os) :
    k ≤ c.subscriber := by
  induction os generalizing k with
  | nil => simp [publishClientMsg] at hc
  | cons o os ih =>
    rw [publishClientMsg_cons, List.mem_append] at hc
    rcases hc with hc | hc
    · split at hc
      · rw [List.mem_singleton] at hc; rw [hc]; exact le_refl k
      · simp at hc
    · exact Nat.le_of_succ_le (ih hc)

/-- The subscriber at position `i` gets the message once if its filter lets it through. -/
theorem publishClientMsg_filter {os : List ServerObserver} {i : ℕ} {o : ServerObserver}
    (ip : String) (msg : Bytes) (n k : ℕ) (hi : os[i]? = some o) (ho : o.gets ip = true) :
    (publishClientMsg ip msg n k os).filter (·.subscriber = k + i) =
      [.incomingPacket (k + i) ip msg n] := by
  induction os generalizing k i with
  | nil => simp at hi
  | cons p os ih =>
    rw [publishClientMsg_cons, List.filter_append]
    cases i with
    | zero =>
      obtain rfl : p = o := by simpa using hi
      have hrest : (publishClientMsg ip msg n (k + 1) os).filter (·.subscriber = k + 0) = [] := by
        rw [List.filter_eq_nil_iff]
        intro c hc
        have := publishClientMsg_subscriber hc
        simp; omega
      rw [hrest, if_pos ho]
      simp [Callback.subscriber]
    | succ i =>
      have hfirst : ((if p.gets ip then [Callback.incomingPacket k ip msg n] else []).filter
          (·.subscriber = k + (i + 1))) = [] := by
        rw [List.filter_eq_nil_iff]
        intro c hc
        split at hc
        · rw [List.mem_singleton] at hc; rw [hc]; simp [Callback.subscriber]
        · simp at hc
      have := ih (k + 1) (by simpa using hi)
      rw [hfirst, List.nil_append, show k + (i + 1) = k + 1 + i by omega, this]

/-! ## The string made from the buffer -/

/-- The string read from `c` followed by `rest` is `c` exactly when `c` has no zero byte and
    `rest` starts with one. -/
theorem cStringIn_append_eq_iff {c rest : Bytes} :
    cStringIn (c ++ rest) = some c ↔ (0 : UInt8) ∉ c ∧ rest.head? = some 0 := by
  unfold cStringIn cString
  constructor
  · intro h
    split at h
    · rename_i h0
      have hc := Option.some.inj h
      have hn : (0 : UInt8) ∉ c := by
        intro hmem
        rw [← hc] at hmem
        simpa using List.mem_takeWhile_imp hmem
      refine ⟨hn, ?_⟩
      have hpos : ∀ b ∈ c, decide (b ≠ 0) = true := fun b hb =>
        decide_eq_true fun hb0 => hn (hb0 ▸ hb)
      rw [List.takeWhile_append_of_pos hpos, List.append_right_eq_self] at hc
      cases rest with
      | nil => simp [hn] at h0
      | cons b rest =>
        rw [List.takeWhile_cons] at hc
        split at hc
        · simp at hc
        · rename_i hb; simpa using hb
    · cases h
  · intro h
    obtain ⟨hn, hr⟩ := h
    cases rest with
    | nil => simp at hr
    | cons b rest =>
      obtain rfl : b = 0 := by simpa using hr
      have hpos : ∀ b ∈ c, decide (b ≠ 0) = true := fun b hb =>
        decide_eq_true fun hb0 => hn (hb0 ▸ hb)
      rw [if_pos (by simp), List.takeWhile_append_of_pos hpos]
      simp

/-! ## Delivery -/

theorem deliverAll_chunk (subscribers : List ServerObserver) (numClientsConnected : ℤ)
    (ip : String) (c : Chunk) (buf : Buffer) :
    deliverAll subscribers numClientsConnected ip
        (Client.receiveTask true [.recv (.data c) buf]) =
      (cStringIn (c.bytes ++ buf.bytes.drop c.bytes.length)).map fun m =>
        publishClientMsg ip m m.length 0 subscribers := by
  rw [Client.receiveTask, receiveLoop_data, receiveLoop_nil, deliverAll, deliver, deliverAll]
  show Option.bind _ _ = _
  cases h : cStringIn (buf.recv (.data c)).bytes with
  | none => rw [show cStringIn (c.bytes ++ _) = none from h]; rfl
  | some m =>
    rw [show cStringIn (c.bytes ++ _) = some m from h]
    simp [clientEventHandler]

/-- For every chunk, every earlier content of the buffer and every subscriber whose filter
    lets messages from `ip` through: the calls of that subscriber's handler are one call with
    exactly the bytes of the chunk and their number, if and only if the chunk has no zero byte
    and the buffer holds a zero byte right behind it. -/
theorem delivery_exact_iff (subscribers : List ServerObserver) (numClientsConnected : ℤ)
    (ip : String) (i : ℕ) (o : ServerObserver) (hi : subscribers[i]? = some o)
    (ho : o.gets ip = true) (c : Chunk) (buf : Buffer) :
    (∃ calls, deliverAll subscribers numClientsConnected ip
        (Client.receiveTask true [.recv (.data c) buf]) = some calls ∧
      calls.filter (·.subscriber = i) =
        [.incomingPacket i ip c.bytes c.bytes.length]) ↔
    (0 : UInt8) ∉ c.bytes ∧ buf.bytes[c.bytes.length]? = some 0 := by
  have hcall : ∀ m : Bytes, (publishClientMsg ip m m.length 0 subscribers).filter
      (·.subscriber = i) = [.incomingPacket i ip m m.length] := by
    intro m
    have := publishClientMsg_filter ip m m.length 0 hi ho
    rwa [Nat.zero_add] at this
  rw [deliverAll_chunk, ← List.head?_drop, ← cStringIn_append_eq_iff]
  constructor
  · intro h
    obtain ⟨calls, hc, hf⟩ := h
    obtain ⟨m, hm, rfl⟩ := Option.map_eq_some_iff.mp hc
    rw [hcall] at hf
    have : m = c.bytes := by simp at hf; exact hf.1
    rw [hm, this]
  · intro h
    refine ⟨_, by rw [h]; rfl, ?_⟩
    exact hcall c.bytes

/-- A subscriber to every address, as the runner's. -/
def anyObserver : ServerObserver := ⟨"", true, true⟩

/-- "7" into an empty buffer arrives as it is. -/
theorem delivery_exact_seven :
    ∃ calls, deliverAll [anyObserver] 1 "127.0.0.1"
        (Client.receiveTask true
          [.recv (.data ⟨[55], by decide, by decide⟩) zeroBuffer]) = some calls ∧
      calls.filter (·.subscriber = 0) = [.incomingPacket 0 "127.0.0.1" [55] 1] :=
  (delivery_exact_iff [anyObserver] 1 "127.0.0.1" 0 anyObserver rfl (by decide)
    ⟨[55], by decide, by decide⟩ zeroBuffer).mpr ⟨by decide, by
      show (List.replicate MAX_PACKET_SIZE (0 : UInt8))[1]? = some 0
      rw [List.getElem?_replicate]; rfl⟩

/-- One zero byte received: the subscriber gets an empty message instead. -/
theorem delivery_not_exact_zero :
    ¬ ∃ calls, deliverAll [anyObserver] 1 "127.0.0.1"
        (Client.receiveTask true
          [.recv (.data ⟨[0], by decide, by decide⟩) zeroBuffer]) = some calls ∧
      calls.filter (·.subscriber = 0) = [.incomingPacket 0 "127.0.0.1" [0] 1] := by
  rw [deliverAll_chunk]
  intro h
  obtain ⟨calls, hc, hf⟩ := h
  obtain ⟨m, hm, rfl⟩ := Option.map_eq_some_iff.mp hc
  have hm' : m = [] := by
    have : cStringIn ([0] ++ zeroBuffer.bytes.drop 1) = some [] := by
      rw [cStringIn, if_pos (by simp)]; rfl
    exact Option.some.inj (hm.symm.trans this)
  rw [hm'] at hf
  simp [publishClientMsg, anyObserver, Callback.subscriber] at hf

end TCPServer
