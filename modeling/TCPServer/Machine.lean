/-
  The server as a state machine: every operation is one step.

  `Server.step` runs one operation with all that the world decides about it. The runner goes
  on after an exception of `acceptClient`; any other exception, and undefined behaviour, end
  the process, and there is no next state. `Server.Reachable` states are those of a started
  server after any number of steps.

  `step_effect` says once all that a step can do (`Server.Effect`); a sweep is a sequence of
  single removals (`Server.Removal`). `Server.Inv` is the invariant that every step keeps: the
  lists are separate, and `_clients` holds the existing objects in the order of their creation.
-/
import TCPServer.Lib.Runs
import TCPServer.Objects
import TCPServer.Handler

namespace TCPServer

open LinkedStore Relation Runs

/-- An operation of the server and what the world decides about it. -/
inductive Op where
  | acceptClient (timeout : ℕ) (waitResult : WaitResult) (strerror : String)
      (accepted : Option (ℤ × String))
  | disconnect (client : ClientPtr)
  | removeDeadClients (closeRet : ℤ → ℤ)
  | generateNumber (ID : CInt) (rands : List ℕ)
  | sortList (ID : CInt) (clientFileName : Bytes)
  | onIncomingMsg1 (msg : Bytes) (rands : List ℕ) (r : SendResult)

/-- One round of the accepting loop of the runner, which catches `std::runtime_error`. -/
def Server.acceptRound (s : Server) (timeout : ℕ) (waitResult : WaitResult) (strerror : String)
    (accepted : Option (ℤ × String)) : Exec Server :=
  match s.acceptClient timeout waitResult strerror accepted with
  | .error (.runtimeError _) => .ok s
  | result => result

def Server.step (s : Server) : Op → Exec Server
  | .acceptClient timeout waitResult strerror accepted =>
    s.acceptRound timeout waitResult strerror accepted
  | .disconnect client => .ok (s.disconnect client)
  | .removeDeadClients closeRet => s.removeDeadClients closeRet
  | .generateNumber ID rands => do
    let (_, s) ← s.generateNumber ID rands
    pure s
  | .sortList ID clientFileName => s.sortList ID clientFileName
  | .onIncomingMsg1 msg rands r => s.onIncomingMsg1 msg rands r

abbrev Server.Step (s : Server) (op : Op) (s' : Server) : Prop := s.step op = .ok s'

/-- The states of a started server. -/
def Server.Reachable (s : Server) : Prop := ∃ sockfd, Reaches Server.Step (.init sockfd) s

/-- The index an operation draws a number for, if it draws one. -/
def Op.drawsFor : Op → Option CInt
  | .generateNumber ID _ => some ID
  | .onIncomingMsg1 msg _ _ => (decodeID msg).toOption
  | _ => none

/-! ## What a step can do -/

/-- The client `o` at position `i` is closed, deleted and erased. -/
def Server.erase (s : Server) (i : ℕ) (o : ClientPtr) (sockfd : ℤ) : Server :=
  { s.setObject o (fun c => { c with deleted := true }) with
    clients := s.clients.eraseIdx i
    closed := s.closed ++ [sockfd] }

/-- One dead client is removed. -/
def Server.Removal (s s' : Server) : Prop :=
  ∃ i o c, s.clients[i]? = some o ∧ s.object o = .ok c ∧ c.isConnected = false ∧
    s' = s.erase i o c.sockfd

/-- The client `o` at index `ID` gets the number `n`; its list is `l` then. -/
structure Server.Gives (s s' : Server) (ID : CInt) (o : ClientPtr) (n : ℤ) (l : List ℤ) :
    Prop where
  slot : s.at ID = .ok o
  candidate : ∃ rand, candidate ID rand = n
  new : n ∉ s.numbers
  relists : s.Relists s' o l
  perm : l.Perm (s.listOf o ++ [n])
  numbers : s'.numbers = s.numbers ++ [n]

inductive Server.Effect (s : Server) (op : Op) : Server → Prop where
  | same : op.drawsFor = none → s.Effect op s
  | accepts (fileDescriptor : ℤ) (ip : String) :
      op.drawsFor = none → s.Effect op (s.addClient fileDescriptor ip)
  | disconnects (o : ClientPtr) : op.drawsFor = none → s.Effect op (s.disconnect o)
  | sweeps {s' : Server} {closeRet : ℤ → ℤ} :
      op = .removeDeadClients closeRet → ReflTransGen Server.Removal s s' → s.Effect op s'
  | gives {s' : Server} {ID : CInt} {o : ClientPtr} {n : ℤ} {l : List ℤ} :
      op.drawsFor = some ID → s.Gives s' ID o n l → s.Effect op s'
  | sorts {s' : Server} {ID : CInt} {o : ClientPtr} {l : List ℤ} :
      op.drawsFor = none → s.at ID = .ok o → s.Relists s' o l → l.Perm (s.listOf o) →
      s'.numbers = s.numbers → s.Effect op s'

/-- The client that `std::find_if` stops at is not connected. -/
theorem dead_of_findIdx {s : Server} {o : ClientPtr} {c : Client}
    (ho : s.clients[s.clients.findIdx fun o => !s.isConnected o]? = some o)
    (hc : s.object o = .ok c) : c.isConnected = false := by
  obtain ⟨hlt, hget⟩ := List.getElem?_eq_some_iff.mp ho
  have hp := List.findIdx_getElem (w := hlt)
  rw [hget] at hp
  unfold Server.isConnected at hp
  rw [(object_ok_iff.mp hc).1] at hp
  simpa using hp

/-- One round of the loop: nobody is dead, or the first dead client is removed, and the loop goes
    on unless that client was the last. -/
theorem removeLoop_cases {closeRet : ℤ → ℤ} {k : ℕ} {s s' : Server}
    (h : s.removeLoop closeRet (k + 1) = .ok s') :
    s.clients[s.clients.findIdx fun o => !s.isConnected o]? = none ∧ s' = s ∨
      ∃ i o c, i = s.clients.findIdx (fun o => !s.isConnected o) ∧ s.clients[i]? = some o ∧
        s.object o = .ok c ∧ c.isConnected = false ∧
        (i ≠ (s.clients.eraseIdx i).length ∧
            (s.erase i o c.sockfd).removeLoop closeRet k = .ok s' ∨
          i = (s.clients.eraseIdx i).length ∧ s' = s.erase i o c.sockfd) := by
  unfold Server.removeLoop at h
  set i := s.clients.findIdx fun o => !s.isConnected o with hi
  dsimp only at h
  cases ho : s.clients[i]? with
  | none =>
    rw [ho] at h
    cases h
    exact .inl ⟨rfl, rfl⟩
  | some o =>
    rw [ho] at h
    obtain ⟨s1, hclose, hrest⟩ := bind_ok_iff.mp h
    obtain ⟨c, hc, hclose⟩ := bind_ok_iff.mp hclose
    have hs1 : s1 = { s with closed := s.closed ++ [c.sockfd] } := by
      split at hclose
      · cases hclose
      · exact (Except.ok.inj hclose).symm
    subst hs1
    refine .inr ⟨i, o, c, rfl, ho, hc, dead_of_findIdx ho hc, ?_⟩
    split at hrest
    · rename_i hne
      exact .inl ⟨hne, hrest⟩
    · rename_i heq
      cases hrest
      exact .inr ⟨not_not.mp heq, rfl⟩

theorem removeLoop_ok {closeRet : ℤ → ℤ} {k : ℕ} {s s' : Server}
    (h : s.removeLoop closeRet k = .ok s') : ReflTransGen Server.Removal s s' := by
  induction k generalizing s with
  | zero => cases h
  | succ k ih =>
    obtain ⟨-, rfl⟩ | ⟨i, o, c, -, ho, hc, hdead, ⟨-, hrest⟩ | ⟨-, rfl⟩⟩ := removeLoop_cases h
    · exact .refl
    · exact .head ⟨i, o, c, ho, hc, hdead, rfl⟩ (ih hrest)
    · exact .single ⟨i, o, c, ho, hc, hdead, rfl⟩

theorem step_effect {s s' : Server} (hs : s.Separate) {op : Op} (h : s.Step op s') :
    s.Effect op s' := by
  cases op with
  | acceptClient timeout waitResult strerror accepted =>
    unfold Server.Step Server.step Server.acceptRound Server.acceptClient at h
    dsimp only at h
    split at h
    · cases h
      exact .same rfl
    · rename_i hne
      split at h
      · split at h
        · cases h
        · cases h
          exact .accepts _ _ rfl
      · cases h
  | disconnect o =>
    cases h
    exact .disconnects o rfl
  | removeDeadClients closeRet => exact .sweeps rfl (removeLoop_ok h)
  | generateNumber ID rands =>
    obtain ⟨⟨n, s1⟩, hgen, hok⟩ := bind_ok_iff.mp h
    cases hok
    obtain ⟨o, c, ho, -, hn, hg⟩ := generateNumber_ok hs hgen
    obtain ⟨hnew, rand, -, hcand⟩ := firstNew_some hn
    exact .gives rfl ⟨ho, ⟨rand, hcand⟩, hnew, hg.relists, List.Perm.refl _, hg.numbers⟩
  | sortList ID f =>
    obtain ⟨o, c, l, ho, -, hsort⟩ := sortList_ok hs h
    exact .sorts rfl ho hsort.relists hsort.perm hsort.numbers
  | onIncomingMsg1 msg rands r =>
    obtain ⟨ID, o, c, n, l, hmsg, ho, -, hn, hserve⟩ := onIncomingMsg1_ok hs h
    obtain ⟨hnew, rand, -, hcand⟩ := firstNew_some hn
    have hID : (Op.onIncomingMsg1 msg rands r).drawsFor = some ID := by
      rw [Op.drawsFor, hmsg]
      rfl
    exact .gives hID ⟨ho, ⟨rand, hcand⟩, hnew, hserve.relists, hserve.perm, hserve.numbers⟩

/-! ## The invariant -/

structure Server.Inv (s : Server) : Prop where
  separate : s.Separate
  mem_iff : ∀ o, o ∈ s.clients ↔ ∃ c, s.object o = .ok c
  ascending : s.clients.Pairwise (· < ·)

theorem Server.Inv.listed {s : Server} (hs : s.Inv) {o : ClientPtr} (ho : o ∈ s.clients) :
    ∃ c, s.object o = .ok c :=
  (hs.mem_iff o).mp ho

theorem Server.Inv.nodup {s : Server} (hs : s.Inv) : s.clients.Nodup :=
  hs.ascending.imp Nat.ne_of_lt

/-- `s'` has the lists of `s`. -/
structure Server.SameLists (s s' : Server) : Prop where
  nodes : s'.nodes = s.nodes
  headOf : s'.headOf = s.headOf

theorem Server.SameLists.separate {s s' : Server} (h : s.SameLists s') (hs : s.Separate) :
    s'.Separate := by
  unfold Server.Separate
  rw [h.nodes, h.headOf]
  exact hs

theorem Server.SameLists.listOf {s s' : Server} (h : s.SameLists s') (o : ClientPtr) :
    s'.listOf o = s.listOf o := by
  unfold Server.listOf
  rw [h.nodes, h.headOf]

theorem sameLists_setObject (s : Server) (o : ClientPtr) (f : Client → Client)
    (hf : ∀ c, (f c).head = c.head) : s.SameLists (s.setObject o f) := by
  refine ⟨rfl, funext fun o' => ?_⟩
  unfold Server.headOf
  rcases objects_setObject_cases s o f o' with h | ⟨c, hget, h⟩
  · rw [h]
  · rw [h, hget]
    exact hf c

theorem sameLists_addClient (s : Server) (fileDescriptor : ℤ) (ip : String) :
    s.SameLists (s.addClient fileDescriptor ip) := by
  refine ⟨rfl, funext fun o => ?_⟩
  unfold Server.headOf Server.addClient
  dsimp only
  by_cases ho : o = s.objects.length
  · rw [ho, List.getElem?_concat_length, List.getElem?_eq_none (Nat.le_refl _)]
    rfl
  · rw [getElem?_concat_ne ho]

/-- A disconnection changes objects and the count. -/
theorem disconnect_effect (s : Server) (o : ClientPtr) :
    ∃ objects num, s.disconnect o =
      { s with objects := objects, numClientsConnected := num } := by
  unfold Server.disconnect
  split
  · split <;> exact ⟨_, _, rfl⟩
  · exact ⟨_, _, rfl⟩

theorem disconnect_clients (s : Server) (o : ClientPtr) :
    (s.disconnect o).clients = s.clients := by
  obtain ⟨objects, num, h⟩ := disconnect_effect s o
  rw [h]

theorem disconnect_numbers (s : Server) (o : ClientPtr) :
    (s.disconnect o).numbers = s.numbers := by
  obtain ⟨objects, num, h⟩ := disconnect_effect s o
  rw [h]

theorem sameLists_disconnect (s : Server) (o : ClientPtr) : s.SameLists (s.disconnect o) := by
  unfold Server.disconnect
  split
  · split
    · exact ⟨rfl, (sameLists_setObject s o (fun c => { c with isConnected := false })
        fun _ => rfl).headOf⟩
    · exact ⟨rfl, rfl⟩
  · exact ⟨rfl, rfl⟩

theorem sameLists_erase (s : Server) (i : ℕ) (o : ClientPtr) (sockfd : ℤ) :
    s.SameLists (s.erase i o sockfd) :=
  ⟨rfl, (sameLists_setObject s o (fun c => { c with deleted := true }) fun _ => rfl).headOf⟩

theorem Server.Removal.sameLists {s s' : Server} (h : s.Removal s') : s.SameLists s' := by
  obtain ⟨i, o, c, -, -, -, rfl⟩ := h
  exact sameLists_erase s i o c.sockfd

theorem Server.Inv.addClient {s : Server} (hs : s.Inv) (fileDescriptor : ℤ) (ip : String) :
    (s.addClient fileDescriptor ip).Inv := by
  have hlt : ∀ o ∈ s.clients, o < s.objects.length := fun o ho => by
    obtain ⟨c, hc⟩ := hs.listed ho
    exact lt_of_object hc
  refine ⟨(sameLists_addClient s _ _).separate hs.separate, fun o => ?_, ?_⟩
  · show o ∈ s.clients ++ [s.objects.length] ↔ _
    rw [List.mem_append, List.mem_singleton, hs.mem_iff]
    exact (alive_addClient_iff fileDescriptor ip).symm
  · refine List.pairwise_append.mpr ⟨hs.ascending, List.pairwise_singleton _ _, ?_⟩
    intro a ha b hb
    rw [List.mem_singleton.mp hb]
    exact hlt a ha

theorem Server.Inv.disconnect {s : Server} (hs : s.Inv) (o : ClientPtr) :
    (s.disconnect o).Inv := by
  refine ⟨(sameLists_disconnect s o).separate hs.separate, fun o' => ?_, ?_⟩
  · rw [disconnect_clients, hs.mem_iff]
    unfold Server.disconnect
    split
    · split
      · exact (alive_setObject_iff o (fun c => { c with isConnected := false })
          (fun _ => rfl) o').symm
      · exact Iff.rfl
    · exact Iff.rfl
  · rw [disconnect_clients]
    exact hs.ascending

theorem Server.Removal.inv {s s' : Server} (h : s.Removal s') (hs : s.Inv) : s'.Inv := by
  have hlists := h.sameLists
  obtain ⟨i, o, c, ho, hc, -, rfl⟩ := h
  obtain ⟨hlt, hget⟩ := List.getElem?_eq_some_iff.mp ho
  have herase : (s.erase i o c.sockfd).clients = s.clients.erase o := by
    rw [← hget, hs.nodup.erase_getElem i hlt]
    rfl
  refine ⟨hlists.separate hs.separate, fun o' => ?_, hs.ascending.eraseIdx i⟩
  rw [herase, hs.nodup.mem_erase_iff, hs.mem_iff]
  simp only [object_ok_iff]
  show _ ↔ ∃ c', (s.setObject o fun c => { c with deleted := true }).objects[o']? = some c' ∧ _
  by_cases hne : o' = o
  · subst hne
    rw [objects_setObject_self (object_ok_iff.mp hc).1]
    simp
  · rw [objects_setObject_ne hne]
    simp [hne]

theorem Server.Relists.inv {s s' : Server} {o : ClientPtr} {l : List ℤ}
    (h : s.Relists s' o l) (hs : s.Inv) : s'.Inv := by
  refine ⟨h.separate, fun o' => ?_, ?_⟩
  · rw [h.same.clients, hs.mem_iff]
    constructor
    · intro hex
      obtain ⟨c, hc⟩ := hex
      obtain ⟨c', hc', -⟩ := h.same.object hc
      exact ⟨c', hc'⟩
    · intro hex
      obtain ⟨c', hc'⟩ := hex
      obtain ⟨c, hc, -⟩ := h.same.symm.object hc'
      exact ⟨c, hc⟩
  · rw [h.same.clients]
    exact hs.ascending

/-- What every removal keeps is kept by a sweep. -/
theorem sweep_keeps {I : Server → Prop} (hI : ∀ s s', I s → s.Removal s' → I s')
    {s s' : Server} (h : ReflTransGen Server.Removal s s') (hs : I s) : I s' := by
  induction h with
  | refl => exact hs
  | tail _ hrem ih => exact hI _ _ ih hrem

theorem sweep_inv {s s' : Server} (h : ReflTransGen Server.Removal s s') (hs : s.Inv) :
    s'.Inv :=
  sweep_keeps (fun _ _ ht hrem => hrem.inv ht) h hs

theorem inv_init (sockfd : ℤ) : (Server.init sockfd).Inv := by
  refine ⟨separate_none [], fun o => ?_, List.Pairwise.nil⟩
  simp [object_ok_iff, Server.init]

theorem step_inv {s s' : Server} (hs : s.Inv) {op : Op} (h : s.Step op s') : s'.Inv := by
  cases step_effect hs.separate h with
  | same _ => exact hs
  | accepts fd ip _ => exact hs.addClient fd ip
  | disconnects o _ => exact hs.disconnect o
  | sweeps _ hsweep => exact sweep_inv hsweep hs
  | gives _ hg => exact hg.relists.inv hs
  | sorts _ _ hr _ _ => exact hr.inv hs

theorem reachable_inv {s : Server} (h : s.Reachable) : s.Inv := by
  obtain ⟨sockfd, ops, hrun⟩ := h
  exact hrun.invariant (fun _ _ _ hs hstep => step_inv hs hstep) (inv_init sockfd)

end TCPServer
