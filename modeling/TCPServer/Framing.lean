/-
  Requests on the byte stream: a client sends `to_string(ID)` for each request, one after
  another, with nothing in between; the server decodes one ID from each chunk it receives.

  `decode_eq_sent_iff`: the IDs decoded are the IDs sent, in number and order, if and only if
  every chunk is exactly one of the texts sent. The stream itself does not say where a text
  ends: decimal text has no leading zeros, so any other cut into as many chunks loses bytes
  somewhere (`length_texts_le`), and a cut into fewer or more chunks has the wrong number.
-/
import TCPServer.Server

namespace TCPServer

/-- The texts a client passes to `sendMsg` for the IDs it sends. -/
def sentTexts (ids : List CInt) : List Bytes := ids.map fun i => to_string i.val

/-- What the handler decodes from the chunks, one call for each. -/
def decodeChunks (chunks : List Bytes) : List (Exec CInt) := chunks.map decodeID

/-- The text of an ID decoded from a digit string is no longer than that string, and is that
    string if it is as long. -/
theorem decodeID_digits {c : Bytes} {i : CInt} (hne : c ≠ [])
    (hd : ∀ b ∈ c, Decimal.isDigit b = true) (h : decodeID c = .ok i) :
    (to_string i.val).length ≤ c.length ∧
      (c.length = (to_string i.val).length → c = to_string i.val) := by
  rw [decodeID, cString_digits hd, stoi_digits_iff hne hd] at h
  have ht : to_string i.val = Decimal.text (Decimal.value c) := by
    rw [h, to_string_nonneg (by omega)]
    rfl
  rw [ht]
  exact ⟨Decimal.text_length_le hne hd, Decimal.eq_text_of_length hd⟩

section Chunks

variable {chunks : List Bytes} {ids : List CInt}

/-- Chunks that decode to `ids` hold at least as many bytes as the texts of `ids`. -/
theorem length_texts_le (hne : ∀ c ∈ chunks, c ≠ [])
    (hd : ∀ c ∈ chunks, ∀ b ∈ c, Decimal.isDigit b = true)
    (h : decodeChunks chunks = ids.map .ok) :
    (sentTexts ids).flatten.length ≤ chunks.flatten.length := by
  induction chunks generalizing ids with
  | nil =>
    have : ids = [] := by simpa [decodeChunks] using h.symm
    rw [this]
    exact le_refl _
  | cons c cs ih =>
    cases ids with
    | nil => simp [decodeChunks] at h
    | cons i is =>
      simp only [decodeChunks, List.map_cons, List.cons.injEq] at h
      have h1 := (decodeID_digits (hne c List.mem_cons_self) (hd c List.mem_cons_self) h.1).1
      have h2 := ih (fun x hx => hne x (List.mem_cons_of_mem _ hx))
        (fun x hx => hd x (List.mem_cons_of_mem _ hx)) h.2
      simp only [sentTexts, List.map_cons, List.flatten_cons, List.length_append] at h2 ⊢
      omega

/-- If they hold no more, each chunk is the text of its ID. -/
theorem chunks_eq_texts (hne : ∀ c ∈ chunks, c ≠ [])
    (hd : ∀ c ∈ chunks, ∀ b ∈ c, Decimal.isDigit b = true)
    (h : decodeChunks chunks = ids.map .ok)
    (hle : chunks.flatten.length ≤ (sentTexts ids).flatten.length) :
    chunks = sentTexts ids := by
  induction chunks generalizing ids with
  | nil =>
    have : ids = [] := by simpa [decodeChunks] using h.symm
    rw [this]
    rfl
  | cons c cs ih =>
    cases ids with
    | nil => simp [decodeChunks] at h
    | cons i is =>
      simp only [decodeChunks, List.map_cons, List.cons.injEq] at h
      have hne' : ∀ x ∈ cs, x ≠ [] := fun x hx => hne x (List.mem_cons_of_mem _ hx)
      have hd' : ∀ x ∈ cs, ∀ b ∈ x, Decimal.isDigit b = true :=
        fun x hx => hd x (List.mem_cons_of_mem _ hx)
      obtain ⟨h1, h2⟩ :=
        decodeID_digits (hne c List.mem_cons_self) (hd c List.mem_cons_self) h.1
      have h3 := length_texts_le hne' hd' h.2
      simp only [sentTexts, List.map_cons, List.flatten_cons, List.length_append] at hle h3
      have hc : c = to_string i.val := h2 (by omega)
      have hcs : cs = sentTexts is := ih hne' hd' h.2 (by simp only [sentTexts]; omega)
      rw [hcs, hc]
      rfl

/-- Each text sent decodes to its ID. -/
theorem decodeChunks_sentTexts : decodeChunks (sentTexts ids) = ids.map .ok := by
  unfold decodeChunks sentTexts
  rw [List.map_map]
  refine List.map_congr_left fun i _ => ?_
  show stoi (cString (to_string i.val)) = .ok i
  rw [cString_to_string, stoi_to_string]

theorem isDigit_of_mem_sentTexts (hids : ∀ i ∈ ids, 0 ≤ i.val) {b : UInt8}
    (hb : b ∈ (sentTexts ids).flatten) : Decimal.isDigit b = true := by
  obtain ⟨t, ht, hb⟩ := List.mem_flatten.mp hb
  obtain ⟨i, hi, rfl⟩ := List.mem_map.mp ht
  rw [to_string_nonneg (hids i hi)] at hb
  exact Decimal.isDigit_of_mem_text hb

end Chunks

/-- For every sequence of non-negative IDs sent and every way the stream delivers their texts
    as chunks, in order and without loss: the IDs decoded are the IDs sent if and only if each
    chunk is one of the texts sent, whole. -/
theorem decode_eq_sent_iff (ids : List CInt) (hids : ∀ i ∈ ids, 0 ≤ i.val)
    (chunks : List Chunk)
    (hstream : (chunks.map Chunk.bytes).flatten = (sentTexts ids).flatten) :
    decodeChunks (chunks.map Chunk.bytes) = ids.map .ok ↔
      chunks.map Chunk.bytes = sentTexts ids := by
  constructor
  · intro h
    refine chunks_eq_texts ?_ ?_ h (le_of_eq (congrArg List.length hstream))
    · intro c hc
      obtain ⟨k, -, rfl⟩ := List.mem_map.mp hc
      exact List.ne_nil_of_length_pos k.pos
    · intro c hc b hb
      have hmem : b ∈ (chunks.map Chunk.bytes).flatten := List.mem_flatten.mpr ⟨c, hc, hb⟩
      exact isDigit_of_mem_sentTexts hids (hstream ▸ hmem)
  · intro h
    rw [h, decodeChunks_sentTexts]

/-- 1 and then 2, each in a chunk of its own, are decoded as sent. -/
theorem decode_eq_sent_one_two :
    decodeChunks (List.map Chunk.bytes
        [⟨[49], by decide, by decide⟩, ⟨[50], by decide, by decide⟩]) =
      List.map .ok [⟨1, by decide, by decide⟩, ⟨2, by decide, by decide⟩] :=
  (decode_eq_sent_iff [⟨1, by decide, by decide⟩, ⟨2, by decide, by decide⟩] (by decide)
    [⟨[49], by decide, by decide⟩, ⟨[50], by decide, by decide⟩] (by decide)).mpr (by decide)

/-- 1 and then 2, delivered in one chunk, are decoded as the one ID 12. -/
theorem decode_ne_sent_twelve :
    (List.map Chunk.bytes [⟨[49, 50], by decide, by decide⟩]).flatten =
        (sentTexts [⟨1, by decide, by decide⟩, ⟨2, by decide, by decide⟩]).flatten ∧
      decodeChunks (List.map Chunk.bytes [⟨[49, 50], by decide, by decide⟩]) ≠
        List.map .ok [⟨1, by decide, by decide⟩, ⟨2, by decide, by decide⟩] := by
  constructor
  · decide
  · intro h
    exact absurd (congrArg List.length h) (by decide)

end TCPServer
