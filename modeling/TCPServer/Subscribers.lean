/-
  Which subscribers are told of a disconnection, and which get the messages.

  `publishClientMsg` and `publishClientDisconnected` go through the same list, each with its
  own filter: an empty `wantedIP` stands for every address in the first, and for none in the
  second. So a subscriber with an empty one, as the runner's, gets the messages of a client and
  is not told that the client is gone (`toldAsHeard_iff`).
-/
import TCPServer.Delivery
import Mathlib.Data.List.Basic

namespace TCPServer

/-- The subscriber's filter lets disconnections from `ip` through, and it has a handler. -/
def ServerObserver.told (o : ServerObserver) (ip : String) : Bool :=
  o.wantedIP = ip && o.disconnectionHandler

def ServerObserver.HasHandlers (o : ServerObserver) : Prop :=
  o.incomingPacketHandler = true ∧ o.disconnectionHandler = true

/-- The positions of the subscribers whose handler is called for an event, call by call. -/
def calledFor (subscribers : List ServerObserver) (numClientsConnected : ℤ) (ip : String)
    (event : ClientEvent) (msg : Bytes) : List ℕ :=
  (clientEventHandler subscribers numClientsConnected ip event msg).1.map Callback.subscriber

/-- The subscribers told that a client is gone are those that get its messages, each once and
    in the order of `_subscribers`. -/
def ToldAsHeard (subscribers : List ServerObserver) (ip : String) : Prop :=
  ∀ (numClientsConnected : ℤ) (msg why : Bytes),
    calledFor subscribers numClientsConnected ip .DISCONNECTED why =
      calledFor subscribers numClientsConnected ip .INCOMING_MSG msg ∧
    (calledFor subscribers numClientsConnected ip .DISCONNECTED why).Pairwise (· < ·) ∧
    (calledFor subscribers numClientsConnected ip .INCOMING_MSG msg).Pairwise (· < ·)

section Calls

variable {ip : String}

theorem publishClientDisconnected_cons (ip : String) (msg : Bytes) (k : ℕ) (o : ServerObserver)
    (os : List ServerObserver) :
    publishClientDisconnected ip msg k (o :: os) =
      (if o.told ip then [.disconnection k ip msg] else []) ++
        publishClientDisconnected ip msg (k + 1) os := by
  rw [publishClientDisconnected]
  by_cases hw : o.wantedIP = ip
  · by_cases hh : o.disconnectionHandler = true
    · have ht : o.told ip = true := by simp [ServerObserver.told, hw, hh]
      rw [if_pos hw, if_pos hh, if_pos ht]
      rfl
    · have ht : ¬ o.told ip = true := by simp [ServerObserver.told, hh]
      rw [if_pos hw, if_neg hh, if_neg ht]
      rfl
  · have ht : ¬ o.told ip = true := by simp [ServerObserver.told, hw]
    rw [if_neg hw, if_neg ht]
    rfl

/-- One call for each subscriber that gets messages from `ip`. -/
theorem publishClientMsg_eq (ip : String) (msg : Bytes) (n k : ℕ) (os : List ServerObserver) :
    publishClientMsg ip msg n k os =
      (os.findIdxs (·.gets ip) k).map fun i => .incomingPacket i ip msg n := by
  induction os generalizing k with
  | nil => rfl
  | cons o os ih =>
    rw [publishClientMsg_cons, ih, List.findIdxs_cons]
    split <;> rfl

/-- One call for each subscriber that is told of disconnections from `ip`. -/
theorem publishClientDisconnected_eq (ip : String) (msg : Bytes) (k : ℕ)
    (os : List ServerObserver) :
    publishClientDisconnected ip msg k os =
      (os.findIdxs (·.told ip) k).map fun i => .disconnection i ip msg := by
  induction os generalizing k with
  | nil => rfl
  | cons o os ih =>
    rw [publishClientDisconnected_cons, ih, List.findIdxs_cons]
    split <;> rfl

theorem calledFor_message (os : List ServerObserver) (num : ℤ) (ip : String) (msg : Bytes) :
    calledFor os num ip .INCOMING_MSG msg = os.findIdxs (·.gets ip) := by
  unfold calledFor clientEventHandler
  dsimp only
  rw [publishClientMsg_eq, List.map_map]
  exact List.map_id _

theorem calledFor_disconnection (os : List ServerObserver) (num : ℤ) (ip : String)
    (why : Bytes) : calledFor os num ip .DISCONNECTED why = os.findIdxs (·.told ip) := by
  unfold calledFor clientEventHandler
  dsimp only
  rw [publishClientDisconnected_eq, List.map_map]
  exact List.map_id _

/-- Two filters pick the same positions exactly when they agree on every entry. -/
theorem findIdxs_eq_iff {α : Type} {p q : α → Bool} (l : List α) :
    l.findIdxs p = l.findIdxs q ↔ ∀ a ∈ l, p a = q a := by
  constructor
  · intro h a ha
    obtain ⟨i, hi, rfl⟩ := List.mem_iff_getElem.mp ha
    rw [Bool.eq_iff_iff, ← List.mem_findIdxs_iff_pos_getElem hi, h,
      List.mem_findIdxs_iff_pos_getElem hi]
  · intro h
    refine List.Pairwise.eq_of_mem_iff List.pairwise_findIdxs List.pairwise_findIdxs ?_
    intro i
    rw [List.mem_findIdxs_iff_exists_getElem_pos, List.mem_findIdxs_iff_exists_getElem_pos]
    exact exists_congr fun hi => by rw [h _ (List.getElem_mem hi)]

/-- The two filters agree on a subscriber exactly when its `wantedIP` is not empty, or the
    client's address is. -/
theorem told_eq_gets_iff {o : ServerObserver} (ho : o.HasHandlers) :
    o.told ip = o.gets ip ↔ ip = "" ∨ o.wantedIP ≠ "" := by
  obtain ⟨hpacket, hdisconnection⟩ := ho
  unfold ServerObserver.told ServerObserver.gets
  rw [hpacket, hdisconnection, Bool.and_true, Bool.and_true]
  by_cases hwanted : o.wantedIP = ""
  · rw [hwanted]
    by_cases hip : ip = ""
    · simp [hip]
    · simp [hip, Ne.symm hip]
  · simp [hwanted]

end Calls

/-- For every list of subscribers with both handlers and every address: the subscribers told
    that a client is gone are those that get its messages, each once and in order, if and only
    if no subscriber has an empty `wantedIP`, or the address itself is empty. -/
theorem toldAsHeard_iff {subscribers : List ServerObserver}
    (hhandlers : ∀ o ∈ subscribers, o.HasHandlers) (ip : String) :
    ToldAsHeard subscribers ip ↔ ip = "" ∨ ∀ o ∈ subscribers, o.wantedIP ≠ "" := by
  have hagree : (∀ o ∈ subscribers, o.told ip = o.gets ip) ↔
      ip = "" ∨ ∀ o ∈ subscribers, o.wantedIP ≠ "" := by
    constructor
    · intro h
      by_cases hip : ip = ""
      · exact .inl hip
      · exact .inr fun o ho =>
          ((told_eq_gets_iff (hhandlers o ho)).mp (h o ho)).resolve_left hip
    · intro h o ho
      exact (told_eq_gets_iff (hhandlers o ho)).mpr (h.imp_right fun h => h o ho)
  rw [← hagree, ← findIdxs_eq_iff]
  unfold ToldAsHeard
  simp only [calledFor_message, calledFor_disconnection]
  constructor
  · intro h
    exact (h 0 [] []).1
  · intro heq num msg why
    exact ⟨heq, List.pairwise_findIdxs, List.pairwise_findIdxs⟩

/-- Two subscribers to two addresses. -/
theorem toldAsHeard_two_addresses :
    ToldAsHeard [⟨"10.0.0.2", true, true⟩, ⟨"10.0.0.3", true, true⟩] "10.0.0.2" := by
  refine (toldAsHeard_iff (fun o ho => ?_) "10.0.0.2").mpr (.inr fun o ho => ?_)
  · rcases List.mem_pair.mp ho with rfl | rfl <;> exact ⟨rfl, rfl⟩
  · rcases List.mem_pair.mp ho with rfl | rfl <;> decide

/-- The runner's subscriber gets the messages of a client and is not told that it is gone. -/
theorem anyObserver_not_told :
    anyObserver.HasHandlers ∧ ¬ ToldAsHeard [anyObserver] "10.0.0.2" := by
  refine ⟨⟨rfl, rfl⟩, fun h => ?_⟩
  have hsame : calledFor [anyObserver] 1 "10.0.0.2" .DISCONNECTED [] =
      calledFor [anyObserver] 1 "10.0.0.2" .INCOMING_MSG [] := (h 1 [] []).1
  exact absurd hsame (by decide)

end TCPServer
