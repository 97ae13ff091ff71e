/-
  What the sending functions report: `TcpServer::sendToAllClients`, both `sendToClient` and
  `TcpClient::sendMsg`.

  All of them keep the result of `::send` in a `size_t`, so the test for an error,
  `numBytesSent < 0`, is never true: -1 becomes `2 ^ 64 - 1`, which is not less than any size
  either, and a failed `::send` counts as a complete one (`takenAsSent_iff`). A short count is
  reported. `sends_reported_iff` says for each function when its report is right.

  A message is what `msg` points to, `size` bytes long; sizes are below `2 ^ 64`.
-/
import TCPServer.Objects

namespace TCPServer

/-! ## The functions -/

/-- The loop of `sendToAllClients` from position `i` of `_clients` on; `results` is what
    `::send` returns for the client at each position. -/
def Server.sendLoop (msg : Bytes) (results : ℕ → SendResult) :
    ℕ → List ClientPtr → Server → Exec (PipeRet × Server)
  | _, [], s => pure (.success "", s)
  | i, client :: clients, s => do
    let (sendingResult, s) ← s.sendToClient client msg (results i)
    if !sendingResult.successFlag then pure (sendingResult, s)
    else Server.sendLoop msg results (i + 1) clients s

/-- `TcpServer::sendToAllClients`. -/
def Server.sendToAllClients (s : Server) (msg : Bytes) (results : ℕ → SendResult) :
    Exec (PipeRet × Server) :=
  Server.sendLoop msg results 0 s.clients s

/-- `std::find_if` in `sendToClient`: the first listed client with the address. -/
def Server.findIP (s : Server) (clientIP : String) : List ClientPtr → Exec (Option ClientPtr)
  | [] => pure none
  | client :: clients => do
    let c ← s.object client
    if c.ip = clientIP then pure (some client) else s.findIP clientIP clients

/-- `TcpServer::sendToClient` for an address. -/
def Server.sendToClientIP (s : Server) (clientIP : String) (msg : Bytes) (r : SendResult) :
    Exec (PipeRet × Server) := do
  match ← s.findIP clientIP s.clients with
  | none => pure (.failure "client not found", s)
  | some client => s.sendToClient client msg r

/-- `TcpClient::sendMsg`, after the call of `::send`. -/
def TcpClient.sendMsg (msg : Bytes) (r : SendResult) : PipeRet :=
  let numBytesSent := sizeT r.ret
  if numBytesSent < 0 then .failure r.strerror
  else if numBytesSent < msg.length then
    .failure s!"Only {numBytesSent} bytes out of {msg.length} was sent to client"
  else .success ""

/-! ## One `::send` -/

/-- What `::send` can return for `size` bytes: -1, or a count up to `size`. -/
def SendResult.Valid (size : ℕ) (r : SendResult) : Prop := -1 ≤ r.ret ∧ r.ret ≤ size

/-- `::send` transferred all `size` bytes. -/
def SendResult.Complete (size : ℕ) (r : SendResult) : Prop := r.ret = size

/-- `::send` transferred fewer bytes, and it was no error. -/
def SendResult.Short (size : ℕ) (r : SendResult) : Prop := 0 ≤ r.ret ∧ r.ret < size

/-- The `size_t` made of the result is not less than `size`. -/
def SendResult.TakenAsSent (size : ℕ) (r : SendResult) : Prop := size ≤ sizeT r.ret

section One

variable {size : ℕ} {r : SendResult}

theorem sizeT_of_nonneg {n : ℤ} (hn : 0 ≤ n) (hlt : n < 2 ^ 64) : sizeT n = n.toNat := by
  rw [sizeT, Int.emod_eq_of_lt hn hlt]

theorem takenAsSent_of_error (hsize : size < 2 ^ 64) (hr : r.ret = -1) : r.TakenAsSent size := by
  have hmax : sizeT (-1) = 2 ^ 64 - 1 := by decide
  rw [SendResult.TakenAsSent, hr, hmax]
  omega

/-- A result counts as a complete transfer exactly when it is one or is an error. -/
theorem takenAsSent_iff (hsize : size < 2 ^ 64) (hr : r.Valid size) :
    r.TakenAsSent size ↔ r.Complete size ∨ r.ret = -1 := by
  obtain ⟨hge, hle⟩ := hr
  by_cases herr : r.ret = -1
  · exact iff_of_true (takenAsSent_of_error hsize herr) (.inr herr)
  · have hnat : sizeT r.ret = r.ret.toNat := sizeT_of_nonneg (by omega) (by omega)
    rw [SendResult.TakenAsSent, SendResult.Complete, hnat]
    omega

theorem not_takenAsSent_iff (hsize : size < 2 ^ 64) (hr : r.Valid size) :
    ¬ r.TakenAsSent size ↔ r.Short size := by
  obtain ⟨hge, hle⟩ := hr
  rw [takenAsSent_iff hsize ⟨hge, hle⟩, SendResult.Complete, SendResult.Short]
  omega

/-- The report on one `::send` is right exactly when it is no error. -/
theorem takenAsSent_iff_complete_iff (hsize : size < 2 ^ 64) (hr : r.Valid size) :
    (r.TakenAsSent size ↔ r.Complete size) ↔ r.ret ≠ -1 := by
  rw [takenAsSent_iff hsize hr, SendResult.Complete]
  omega

end One

/-! ## Reports -/

/-- The call returns, and it reports success exactly when `P`. -/
def Reports (result : Exec (PipeRet × Server)) (P : Prop) : Prop :=
  ∃ p s', result = .ok (p, s') ∧ (p.successFlag = true ↔ P)

/-- The client has the address. -/
def Server.HasIP (s : Server) (clientIP : String) (o : ClientPtr) : Prop :=
  ∃ c, s.object o = .ok c ∧ c.ip = clientIP

theorem reports_iff {result : Exec (PipeRet × Server)} {p : PipeRet} {s : Server} {P : Prop}
    (h : result = .ok (p, s)) : Reports result P ↔ (p.successFlag = true ↔ P) := by
  constructor
  · rintro ⟨p', s', h', hp⟩
    rw [h] at h'
    cases h'
    exact hp
  · intro hp
    exact ⟨p, s, h, hp⟩

section Reports

variable {s : Server} {msg : Bytes}

theorem clientSend_eq (msg : Bytes) (r : SendResult) :
    Client.send msg r = .ok () ∧ r.TakenAsSent msg.length ∨
      (∃ what, Client.send msg r = .error (.runtimeError what)) ∧ ¬ r.TakenAsSent msg.length := by
  unfold Client.send SendResult.TakenAsSent
  dsimp only
  rw [if_neg (Nat.not_lt_zero _)]
  by_cases hlt : sizeT r.ret < msg.length
  · rw [if_pos hlt]
    exact .inr ⟨⟨_, rfl⟩, by omega⟩
  · rw [if_neg hlt]
    exact .inl ⟨rfl, by omega⟩

/-- `sendToClient` calls `::send` once and reports what it takes the result for. -/
theorem sendToClient_result {o : ClientPtr} (ho : s.Alive o) (msg : Bytes) (r : SendResult) :
    ∃ p sent, s.sendToClient o msg r = .ok (p, { s with sent := sent }) ∧
      (p.successFlag = true ↔ r.TakenAsSent msg.length) := by
  obtain ⟨c, hc⟩ := ho
  unfold Server.sendToClient
  rw [hc, ok_bind]
  rcases clientSend_eq msg r with ⟨hok, htaken⟩ | ⟨⟨what, herror⟩, htaken⟩
  · rw [hok]
    exact ⟨_, _, rfl, iff_of_true rfl htaken⟩
  · rw [herror]
    exact ⟨_, _, rfl, iff_of_false (by simp [PipeRet.failure]) htaken⟩

theorem alive_sent {o : ClientPtr} (ho : s.Alive o) (sent : List (ℤ × Bytes)) :
    ({ s with sent := sent } : Server).Alive o :=
  ho

/-- The loop reports success exactly when every result is taken as sent. -/
theorem sendLoop_spec (msg : Bytes) (results : ℕ → SendResult) {clients : List ClientPtr}
    (hs : ∀ o ∈ clients, s.Alive o) (i : ℕ) :
    ∃ p sent, Server.sendLoop msg results i clients s = .ok (p, { s with sent := sent }) ∧
      (p.successFlag = true ↔
        ∀ j < clients.length, (results (i + j)).TakenAsSent msg.length) := by
  induction clients generalizing i s with
  | nil => exact ⟨_, _, rfl, iff_of_true rfl nofun⟩
  | cons client clients ih =>
    obtain ⟨p, sent, hsend, hp⟩ :=
      sendToClient_result (hs client List.mem_cons_self) msg (results i)
    unfold Server.sendLoop
    rw [hsend, ok_bind]
    dsimp only
    by_cases htaken : (results i).TakenAsSent msg.length
    · rw [hp.mpr htaken]
      have halive : ∀ o ∈ clients, ({ s with sent := sent } : Server).Alive o := fun o ho =>
        alive_sent (hs o (List.mem_cons_of_mem _ ho)) sent
      obtain ⟨q, sent', hloop, hq⟩ := ih halive (i + 1)
      refine ⟨q, sent', hloop, hq.trans ?_⟩
      rw [List.length_cons, Nat.forall_lt_succ_left']
      simp only [Nat.add_zero, htaken, true_and, Nat.add_assoc, Nat.add_comm 1]
    · have hflag : p.successFlag = false := by
        rw [← Bool.not_eq_true, hp]
        exact htaken
      rw [hflag]
      exact ⟨p, sent, rfl, iff_of_false (by simp [hflag]) fun h => htaken (h 0 (by simp))⟩

/-- `o` is the first of the clients that has the address. -/
def Server.FirstWithIP (s : Server) (clientIP : String) (clients : List ClientPtr)
    (o : ClientPtr) : Prop :=
  ∃ before after, clients = before ++ o :: after ∧ s.HasIP clientIP o ∧
    ∀ o' ∈ before, ¬ s.HasIP clientIP o'

theorem Server.FirstWithIP.mem {clientIP : String} {clients : List ClientPtr} {o : ClientPtr}
    (h : s.FirstWithIP clientIP clients o) : o ∈ clients ∧ s.HasIP clientIP o := by
  obtain ⟨before, after, rfl, hip, -⟩ := h
  exact ⟨by simp, hip⟩

/-- There is only one first client. -/
theorem Server.FirstWithIP.unique {clientIP : String} {clients : List ClientPtr}
    {o o' : ClientPtr} (h : s.FirstWithIP clientIP clients o)
    (h' : s.FirstWithIP clientIP clients o') : o' = o := by
  obtain ⟨before, after, rfl, hip, hbefore⟩ := h
  obtain ⟨before', after', heq, hip', hbefore'⟩ := h'
  rcases List.append_eq_append_iff.mp heq with ⟨between, rfl, hrest⟩ | ⟨between, rfl, hrest⟩
  · cases between with
    | nil => exact (List.cons.inj hrest).1.symm
    | cons a between =>
      rw [← (List.cons.inj hrest).1] at hbefore'
      exact absurd hip (hbefore' o (by simp))
  · cases between with
    | nil => exact (List.cons.inj hrest).1
    | cons a between =>
      rw [← (List.cons.inj hrest).1] at hbefore
      exact absurd hip' (hbefore o' (by simp))

/-- `find_if` finds the first listed client with the address, if there is one. -/
theorem findIP_first (clientIP : String) {clients : List ClientPtr}
    (hs : ∀ o ∈ clients, s.Alive o) :
    (∃ o, s.FirstWithIP clientIP clients o ∧ s.findIP clientIP clients = .ok (some o)) ∨
      (∀ o ∈ clients, ¬ s.HasIP clientIP o) ∧ s.findIP clientIP clients = .ok none := by
  induction clients with
  | nil => exact .inr ⟨nofun, rfl⟩
  | cons client clients ih =>
    obtain ⟨c, hc⟩ := hs client List.mem_cons_self
    unfold Server.findIP
    rw [hc, ok_bind]
    by_cases hip : c.ip = clientIP
    · rw [if_pos hip]
      exact .inl ⟨client, ⟨[], clients, rfl, ⟨c, hc, hip⟩, nofun⟩, rfl⟩
    · rw [if_neg hip]
      have hnot : ¬ s.HasIP clientIP client := by
        rintro ⟨c', hc', hip'⟩
        rw [hc] at hc'
        cases hc'
        exact hip hip'
      rcases ih fun o ho => hs o (List.mem_cons_of_mem _ ho) with
        ⟨o, ⟨before, after, hclients, hhas, hbefore⟩, hfind⟩ | ⟨hnone, hfind⟩
      · refine .inl ⟨o, ⟨client :: before, after, by rw [hclients]; rfl, hhas, ?_⟩, hfind⟩
        exact List.forall_mem_cons.mpr ⟨hnot, hbefore⟩
      · exact .inr ⟨List.forall_mem_cons.mpr ⟨hnot, hnone⟩, hfind⟩

/-- `find_if` finds a listed client with the address exactly when there is one. -/
theorem findIP_spec (clientIP : String) {clients : List ClientPtr}
    (hs : ∀ o ∈ clients, s.Alive o) :
    (∃ o ∈ clients, s.HasIP clientIP o ∧ s.findIP clientIP clients = .ok (some o)) ∨
      (∀ o ∈ clients, ¬ s.HasIP clientIP o) ∧ s.findIP clientIP clients = .ok none := by
  refine (findIP_first clientIP hs).imp_left ?_
  rintro ⟨o, hfirst, hfind⟩
  exact ⟨o, hfirst.mem.1, hfirst.mem.2, hfind⟩

/-! ### All that sending changes -/

theorem sendToClient_sent {s' : Server} {o : ClientPtr} {r : SendResult} {p : PipeRet}
    (h : s.sendToClient o msg r = .ok (p, s')) : ∃ sent, s' = { s with sent := sent } := by
  unfold Server.sendToClient at h
  obtain ⟨c, -, h⟩ := bind_ok_iff.mp h
  dsimp only at h
  split at h
  · cases h
    exact ⟨_, rfl⟩
  · cases h
    exact ⟨_, rfl⟩
  · cases h

theorem sendLoop_sent {s' : Server} {results : ℕ → SendResult} {p : PipeRet} {i : ℕ}
    {clients : List ClientPtr} (h : Server.sendLoop msg results i clients s = .ok (p, s')) :
    ∃ sent, s' = { s with sent := sent } := by
  induction clients generalizing i s with
  | nil =>
    cases h
    exact ⟨_, rfl⟩
  | cons client clients ih =>
    unfold Server.sendLoop at h
    obtain ⟨⟨q, s₁⟩, hsend, h⟩ := bind_ok_iff.mp h
    obtain ⟨sent, rfl⟩ := sendToClient_sent hsend
    dsimp only at h
    split at h
    · cases h
      exact ⟨sent, rfl⟩
    · obtain ⟨sent', rfl⟩ := ih h
      exact ⟨sent', rfl⟩

theorem sendToClientIP_sent {s' : Server} {clientIP : String} {r : SendResult} {p : PipeRet}
    (h : s.sendToClientIP clientIP msg r = .ok (p, s')) :
    ∃ sent, s' = { s with sent := sent } := by
  unfold Server.sendToClientIP at h
  obtain ⟨found, -, h⟩ := bind_ok_iff.mp h
  cases found with
  | none =>
    cases h
    exact ⟨_, rfl⟩
  | some client => exact sendToClient_sent h

theorem sendMsg_successFlag (msg : Bytes) (r : SendResult) :
    (TcpClient.sendMsg msg r).successFlag = true ↔ r.TakenAsSent msg.length := by
  unfold TcpClient.sendMsg SendResult.TakenAsSent
  dsimp only
  rw [if_neg (Nat.not_lt_zero _)]
  by_cases hlt : sizeT r.ret < msg.length
  · rw [if_pos hlt]
    exact iff_of_false (by simp [PipeRet.failure]) (by omega)
  · rw [if_neg hlt]
    exact iff_of_true rfl (by omega)

/-! ## When the reports are right -/

theorem sendToAllClients_reports_iff (hs : ∀ o ∈ s.clients, s.Alive o)
    (hsize : msg.length < 2 ^ 64) {results : ℕ → SendResult}
    (hr : ∀ i < s.clients.length, (results i).Valid msg.length) :
    Reports (s.sendToAllClients msg results)
        (∀ i < s.clients.length, (results i).Complete msg.length) ↔
      (∃ i < s.clients.length, (results i).Short msg.length) ∨
        ∀ i < s.clients.length, (results i).ret ≠ -1 := by
  obtain ⟨p, sent, hloop, hp⟩ := sendLoop_spec msg results hs 0
  simp only [Nat.zero_add] at hp
  unfold Server.sendToAllClients
  rw [reports_iff hloop, hp]
  constructor
  · intro h
    by_cases htaken : ∀ i < s.clients.length, (results i).TakenAsSent msg.length
    · refine .inr fun i hi => ?_
      exact (takenAsSent_iff_complete_iff hsize (hr i hi)).mp
        (iff_of_true (htaken i hi) (h.mp htaken i hi))
    · simp only [not_forall] at htaken
      obtain ⟨i, hi, hshort⟩ := htaken
      exact .inl ⟨i, hi, (not_takenAsSent_iff hsize (hr i hi)).mp hshort⟩
  · rintro (⟨i, hi, hshort⟩ | hne)
    · -- The short result is reported, and not all was sent.
      have hnot := (not_takenAsSent_iff hsize (hr i hi)).mpr hshort
      refine iff_of_false (fun h => hnot (h i hi)) fun h => hnot ?_
      exact (takenAsSent_iff hsize (hr i hi)).mpr (.inl (h i hi))
    · exact forall₂_congr fun i hi =>
        (takenAsSent_iff_complete_iff hsize (hr i hi)).mpr (hne i hi)

theorem sendToClient_reports_iff {o : ClientPtr} (ho : s.Alive o) (hsize : msg.length < 2 ^ 64)
    {r : SendResult} (hr : r.Valid msg.length) :
    Reports (s.sendToClient o msg r) (r.Complete msg.length) ↔ r.ret ≠ -1 := by
  obtain ⟨p, sent, hsend, hp⟩ := sendToClient_result ho msg r
  rw [reports_iff hsend, hp, takenAsSent_iff_complete_iff hsize hr]

theorem sendToClientIP_reports_iff (hs : ∀ o ∈ s.clients, s.Alive o)
    (hsize : msg.length < 2 ^ 64) {r : SendResult} (hr : r.Valid msg.length)
    (clientIP : String) :
    Reports (s.sendToClientIP clientIP msg r)
        ((∃ o ∈ s.clients, s.HasIP clientIP o) ∧ r.Complete msg.length) ↔
      ((∃ o ∈ s.clients, s.HasIP clientIP o) → r.ret ≠ -1) := by
  unfold Server.sendToClientIP
  rcases findIP_spec clientIP hs with ⟨o, ho, hhas, hfind⟩ | ⟨hnone, hfind⟩
  · have hlisted : ∃ o ∈ s.clients, s.HasIP clientIP o := ⟨o, ho, hhas⟩
    rw [hfind, ok_bind]
    simp only [hlisted, true_and, true_imp_iff]
    exact sendToClient_reports_iff (hs o ho) hsize hr
  · have hlisted : ¬ ∃ o ∈ s.clients, s.HasIP clientIP o := by
      rintro ⟨o, ho, hhas⟩
      exact hnone o ho hhas
    rw [hfind, ok_bind]
    refine iff_of_true ⟨_, _, rfl, ?_⟩ fun h => absurd h hlisted
    simp [hlisted, PipeRet.failure]

theorem sendMsg_right_iff (hsize : msg.length < 2 ^ 64) {r : SendResult}
    (hr : r.Valid msg.length) :
    ((TcpClient.sendMsg msg r).successFlag = true ↔ r.Complete msg.length) ↔ r.ret ≠ -1 := by
  rw [sendMsg_successFlag, takenAsSent_iff_complete_iff hsize hr]

/-- For every list of clients, message and result of each `::send`: the report of
    `sendToAllClients` is right if and only if no `::send` fails, or one of them is short;
    those of both `sendToClient` and of `sendMsg` if and only if their one `::send` does not
    fail. -/
theorem sends_reported_iff (hs : ∀ o ∈ s.clients, s.Alive o) (hsize : msg.length < 2 ^ 64) :
    (∀ results : ℕ → SendResult,
      (∀ i < s.clients.length, (results i).Valid msg.length) →
        (Reports (s.sendToAllClients msg results)
            (∀ i < s.clients.length, (results i).Complete msg.length) ↔
          (∃ i < s.clients.length, (results i).Short msg.length) ∨
            ∀ i < s.clients.length, (results i).ret ≠ -1)) ∧
      ∀ r : SendResult, r.Valid msg.length →
        (∀ o ∈ s.clients,
          (Reports (s.sendToClient o msg r) (r.Complete msg.length) ↔ r.ret ≠ -1)) ∧
        (∀ clientIP, (Reports (s.sendToClientIP clientIP msg r)
            ((∃ o ∈ s.clients, s.HasIP clientIP o) ∧ r.Complete msg.length) ↔
          ((∃ o ∈ s.clients, s.HasIP clientIP o) → r.ret ≠ -1))) ∧
        (((TcpClient.sendMsg msg r).successFlag = true ↔ r.Complete msg.length) ↔
          r.ret ≠ -1) := by
  refine ⟨fun results hr => sendToAllClients_reports_iff hs hsize hr, fun r hr => ⟨?_, ?_, ?_⟩⟩
  · intro o ho
    exact sendToClient_reports_iff (hs o ho) hsize hr
  · exact sendToClientIP_reports_iff hs hsize hr
  · exact sendMsg_right_iff hsize hr

/-- A server with one client. -/
def oneClient : Server := (Server.init 3).addClient 4 "10.0.0.2"

theorem oneClient_alive : ∀ o ∈ oneClient.clients, oneClient.Alive o := by
  intro o ho
  rw [List.mem_singleton.mp ho]
  exact ⟨⟨4, "10.0.0.2", true, none, false⟩, rfl⟩

/-- Two bytes are sent to the one client there is. -/
theorem sends_reported_one_client :
    Reports (oneClient.sendToAllClients [104, 105] fun _ => ⟨2, ""⟩)
        (∀ i < 1, SendResult.Complete 2 ⟨2, ""⟩) ∧
      (TcpClient.sendMsg [104, 105] ⟨2, ""⟩).successFlag = true := by
  have hvalid : SendResult.Valid 2 ⟨2, ""⟩ := ⟨by decide, by decide⟩
  obtain ⟨hall, hone⟩ := @sends_reported_iff oneClient [104, 105]
    oneClient_alive (by decide)
  obtain ⟨-, -, hmsg⟩ := hone ⟨2, ""⟩ hvalid
  refine ⟨(hall _ fun _ _ => hvalid).mpr (.inr fun _ _ => by decide), ?_⟩
  exact (hmsg.mpr (by decide)).mpr rfl

/-- The one `::send` fails, and `sendToAllClients` and `sendMsg` report success. -/
theorem send_failure_reported_as_success :
    ¬ Reports (oneClient.sendToAllClients [104, 105] fun _ => ⟨-1, "Connection reset by peer"⟩)
        (∀ i < oneClient.clients.length,
          SendResult.Complete 2 ⟨-1, "Connection reset by peer"⟩) ∧
      ¬ ((TcpClient.sendMsg [104, 105] ⟨-1, "Connection reset by peer"⟩).successFlag = true ↔
        SendResult.Complete 2 ⟨-1, "Connection reset by peer"⟩) := by
  have hincomplete : ¬ SendResult.Complete 2 ⟨-1, "Connection reset by peer"⟩ := by
    unfold SendResult.Complete
    decide
  constructor
  · rintro ⟨p, s', h, hp⟩
    have hp' : p = .success "" := congrArg Prod.fst (Except.ok.inj h).symm
    rw [hp'] at hp
    exact hincomplete (hp.mp rfl 0 (by decide))
  · intro h
    exact hincomplete (h.mp rfl)

end Reports

end TCPServer
