/-
  The handler does not see what others do to the clients.

  An `Edit` is a change of what the other threads change: the `Client` objects, `_clients`, the
  count of clients and the descriptors closed. A connection, a disconnection and a removal are
  edits (`addClient_eq_edit`, `disconnect_eq_edit`, `erase_eq_edit`). An edit spares an index
  if the entry of `_clients` there stays, and its object, as far as the handler uses it
  (`Edit.Spares`). The steps of a handler for this index can then be taken before the edit or
  after it (`handlerStep_edit`, `run_edit`).

  The steps of a handler from its start to its end are one call of `onIncomingMsg1`
  (`onIncomingMsg1_of_run`, the converse of `handler_run`).
-/
import TCPServer.Lib.Simulation
import TCPServer.Threads.Lookups

namespace TCPServer

open Runs

/-! ## Edits -/

structure Edit where
  objects : List Client → List Client
  clients : List ClientPtr → List ClientPtr
  numClientsConnected : ℤ → ℤ
  closed : List ℤ → List ℤ

def Server.edit (s : Server) (e : Edit) : Server :=
  { s with
    objects := e.objects s.objects
    clients := e.clients s.clients
    numClientsConnected := e.numClientsConnected s.numClientsConnected
    closed := e.closed s.closed }

/-- A client connects; its object is the one at `newClient`. -/
def Edit.add (newClient : ClientPtr) (fileDescriptor : ℤ) (ip : String) : Edit where
  objects objs := objs ++ [⟨fileDescriptor, ip, true, none, false⟩]
  clients l := l ++ [newClient]
  numClientsConnected n := n + 1
  closed fds := fds

/-- A connected client disconnects. -/
def Edit.clear (client : ClientPtr) : Edit where
  objects objs := objs.modify client fun c => { c with isConnected := false }
  clients l := l
  numClientsConnected n := n - 1
  closed fds := fds

/-- The client at position `i` is removed. -/
def Edit.erase (i : ℕ) (client : ClientPtr) (sockfd : ℤ) : Edit where
  objects objs := objs.modify client fun c => { c with deleted := true }
  clients l := l.eraseIdx i
  numClientsConnected n := n
  closed fds := fds ++ [sockfd]

theorem addClient_eq_edit (s : Server) (fileDescriptor : ℤ) (ip : String) :
    s.addClient fileDescriptor ip = s.edit (.add s.objects.length fileDescriptor ip) :=
  rfl

theorem erase_eq_edit (s : Server) (i : ℕ) (o : ClientPtr) (sockfd : ℤ) :
    s.erase i o sockfd = s.edit (.erase i o sockfd) :=
  rfl

theorem disconnect_eq_edit {s : Server} {o : ClientPtr} {c : Client} (hc : s.object o = .ok c)
    (hconn : c.isConnected = true) : s.disconnect o = s.edit (.clear o) := by
  obtain ⟨hget, hdel⟩ := object_ok_iff.mp hc
  unfold Server.disconnect
  simp only [hget, hconn, hdel, Bool.not_false, Bool.and_self, if_true]
  rfl

/-- The edit leaves the object `o` with its list and its descriptor. -/
structure Edit.Leaves (e : Edit) (o : ClientPtr) : Prop where
  object : ∀ objs c, objs[o]? = some c → c.deleted = false →
    ∃ c', (e.objects objs)[o]? = some c' ∧ c'.deleted = false ∧ c'.head = c.head ∧
      c'.sockfd = c.sockfd
  modify : ∀ objs c p, objs[o]? = some c →
    e.objects (objs.modify o fun c => { c with head := p }) =
      (e.objects objs).modify o fun c => { c with head := p }

/-- The edit leaves the entry at `ID`, if there is one, and its object. -/
def Edit.Spares (e : Edit) (ID : CInt) (clients : List ClientPtr) : Prop :=
  0 ≤ ID.val → ∀ o, clients[ID.val.toNat]? = some o →
    (e.clients clients)[ID.val.toNat]? = some o ∧ e.Leaves o

/-- Changes of one object at a time commute, if the functions do. -/
theorem modify_comm {α : Type} (l : List α) (i j : ℕ) (f g : α → α)
    (h : i = j → ∀ a, f (g a) = g (f a)) :
    (l.modify i f).modify j g = (l.modify j g).modify i f := by
  by_cases hij : i = j
  · subst hij
    rw [List.modify_modify_eq, List.modify_modify_eq]
    exact congrArg (l.modify i) (funext fun a => (h rfl a).symm)
  · exact List.modify_modify_ne f g l hij

/-- An object is changed among the first ones as it is among all. -/
theorem modify_append_of_lt {α : Type} {l : List α} {i : ℕ} (h : i < l.length) (f : α → α)
    (l' : List α) : (l ++ l').modify i f = l.modify i f ++ l' := by
  have hlen : i < (l.modify i f).length := by
    rw [List.length_modify]
    exact h
  refine List.ext_getElem? fun k => ?_
  rw [List.getElem?_modify]
  by_cases hk : i = k
  · subst hk
    rw [List.getElem?_append_left hlen, List.getElem?_append_left h, List.getElem?_modify]
  · by_cases hkl : k < l.length
    · have hkl' : k < (l.modify i f).length := by
        rw [List.length_modify]
        exact hkl
      rw [List.getElem?_append_left hkl', List.getElem?_append_left hkl, List.getElem?_modify]
    · rw [List.getElem?_append_right (Nat.le_of_not_lt hkl),
        List.getElem?_append_right (by rw [List.length_modify]; omega), List.length_modify]
      simp [hk]

theorem add_spares (newClient : ClientPtr) (fileDescriptor : ℤ) (ip : String) (ID : CInt)
    (clients : List ClientPtr) : (Edit.add newClient fileDescriptor ip).Spares ID clients := by
  intro _ o ho
  refine ⟨getElem?_append_of_some ho _, fun objs c hc hdel => ?_, fun objs c p hc => ?_⟩
  · exact ⟨c, getElem?_append_of_some hc _, hdel, rfl, rfl⟩
  · exact (modify_append_of_lt (lt_of_getElem? hc) _ _).symm

theorem clear_spares (client : ClientPtr) (ID : CInt) (clients : List ClientPtr) :
    (Edit.clear client).Spares ID clients := by
  intro _ o ho
  refine ⟨ho, fun objs c hc hdel => ?_, fun objs c p hc => modify_comm _ _ _ _ _ fun _ _ => rfl⟩
  show ∃ c', (objs.modify client _)[o]? = some c' ∧ _
  rw [List.getElem?_modify, hc]
  by_cases h : client = o
  · exact ⟨{ c with isConnected := false }, by simp [h], hdel, rfl, rfl⟩
  · exact ⟨c, by simp [h], hdel, rfl, rfl⟩

/-- A removal behind the index spares it. -/
theorem erase_spares {i : ℕ} {client : ClientPtr} (sockfd : ℤ) {ID : CInt}
    {clients : List ClientPtr} (hnodup : clients.Nodup) (hi : clients[i]? = some client)
    (hlt : ID.val < i) : (Edit.erase i client sockfd).Spares ID clients := by
  intro h0 o ho
  have hlt' : ID.val.toNat < i := by omega
  have hne : client ≠ o := by
    rintro rfl
    exact absurd (nodup_getElem?_inj hnodup ho hi) (by omega)
  refine ⟨?_, fun objs c hc hdel => ?_, fun objs c p hc => ?_⟩
  · show (clients.eraseIdx i)[_]? = _
    rw [List.getElem?_eraseIdx_of_lt hlt', ho]
  · refine ⟨c, ?_, hdel, rfl, rfl⟩
    show (objs.modify client _)[o]? = _
    rw [List.getElem?_modify, hc]
    simp [hne]
  · exact modify_comm _ _ _ _ _ fun h => absurd h.symm hne

/-! ## The handler among edits -/

section Operations

variable {s s' : Server} {e : Edit} {o : ClientPtr}

theorem at_edit {ID : CInt} (he : e.Spares ID s.clients) (h : s.at ID = .ok o) :
    (s.edit e).at ID = .ok o ∧ e.Leaves o := by
  obtain ⟨h0, hget⟩ := at_ok_iff.mp h
  obtain ⟨hget', hleaves⟩ := he h0 o hget
  exact ⟨at_ok_iff.mpr ⟨h0, hget'⟩, hleaves⟩

theorem object_edit {c : Client} (he : e.Leaves o) (hc : s.object o = .ok c) :
    ∃ c', (s.edit e).object o = .ok c' ∧ c'.head = c.head ∧ c'.sockfd = c.sockfd := by
  obtain ⟨hget, hdel⟩ := object_ok_iff.mp hc
  obtain ⟨c', hget', hdel', hhead, hfd⟩ := he.object _ _ hget hdel
  exact ⟨c', object_ok_iff.mpr ⟨hget', hdel'⟩, hhead, hfd⟩

theorem appendNode_edit {v : ℤ} (he : e.Leaves o) (h : s.appendNode o v = .ok s') :
    (s.edit e).appendNode o v = .ok (s'.edit e) := by
  unfold Server.appendNode at h ⊢
  obtain ⟨c, hc, h⟩ := bind_ok_iff.mp h
  obtain ⟨c', hc', hhead, -⟩ := object_edit he hc
  rw [hc', ok_bind, hhead]
  cases hp : c.head with
  | none =>
    rw [hp] at h
    cases h
    refine congrArg Except.ok ?_
    show Server.mk _ ((e.objects s.objects).modify o _) _ _ _ _ _ _ _ _ =
      Server.mk _ _ _ _ _ _ _ _ _ _
    rw [← he.modify _ c _ (object_ok_iff.mp hc).1]
    rfl
  | some head =>
    rw [hp] at h
    obtain ⟨tmp, htmp, h⟩ := bind_ok_iff.mp h
    cases h
    dsimp only
    rw [show (s.edit e).nodes = s.nodes from rfl, htmp]
    rfl

theorem writeList_edit {head : Option NodePtr} {f : Bytes} (h : s.writeList head f = .ok s') :
    (s.edit e).writeList head f = .ok (s'.edit e) := by
  obtain ⟨p, hp, h⟩ := bind_ok_iff.mp h
  obtain ⟨text, htext, h⟩ := bind_ok_iff.mp h
  cases h
  unfold Server.writeList
  rw [hp, ok_bind, show (s.edit e).nodes = s.nodes from rfl, htext]
  rfl

theorem sortNodes_edit {r : Option Server} (he : e.Leaves o) (h : s.sortNodes o = .ok r) :
    (s.edit e).sortNodes o = .ok (r.map fun s => s.edit e) := by
  obtain ⟨c, hc, h⟩ := bind_ok_iff.mp h
  obtain ⟨c', hc', hhead, -⟩ := object_edit he hc
  unfold Server.sortNodes
  rw [hc', ok_bind, hhead]
  cases hp : c.head with
  | none =>
    rw [hp] at h
    cases h
    rfl
  | some head =>
    rw [hp] at h
    obtain ⟨n, hn, h⟩ := bind_ok_iff.mp h
    dsimp only
    rw [show (s.edit e).nodes = s.nodes from rfl, hn, ok_bind]
    split at h
    · rename_i hnext
      cases h
      rw [if_pos hnext]
      rfl
    · rename_i hnext
      obtain ⟨nodes, hsort, h⟩ := bind_ok_iff.mp h
      cases h
      rw [if_neg hnext, hsort]
      rfl

end Operations

/-- A step of the handler can be taken after an edit as well that leaves what the handler looks
    up in this step, and the clients it has in hand. -/
theorem handlerStep_edit {s s' : Server} {h h' : HandlerPc} {e : Edit} {rand : ℕ}
    {r : SendResult} (hat : ∀ ID o, h.index = some ID → s.at ID = .ok o → (s.edit e).at ID = .ok o)
    (hleaves : ∀ p ∈ h.pointers, e.Leaves p) (hstep : h.step s rand r = .ok (h', s')) :
    h.step (s.edit e) rand r = .ok (h', s'.edit e) := by
  cases h with
  | parse msg =>
    obtain ⟨ID', hmsg, hok⟩ := bind_ok_iff.mp hstep
    cases hok
    rw [HandlerPc.step, hmsg]
    rfl
  | lookup ID' =>
    obtain ⟨client, hlookup, hok⟩ := bind_ok_iff.mp hstep
    cases hok
    rw [HandlerPc.step, hat ID' _ rfl hlookup]
    rfl
  | generateLookup ID' client =>
    obtain ⟨g, hlookup, hok⟩ := bind_ok_iff.mp hstep
    cases hok
    rw [HandlerPc.step, hat ID' _ rfl hlookup]
    rfl
  | draw ID' client g =>
    have hg := hleaves g (by simp)
    obtain ⟨⟨n, s1⟩, hdraw, hok⟩ := bind_ok_iff.mp hstep
    unfold Server.draw at hdraw
    dsimp only at hdraw
    rw [HandlerPc.step, Server.draw]
    rw [show (s.edit e).numbers = s.numbers from rfl]
    split at hdraw
    · rename_i hused
      cases hdraw
      cases hok
      rw [if_pos hused]
      rfl
    · rename_i hnew
      obtain ⟨s2, happ, hdraw⟩ := bind_ok_iff.mp hdraw
      cases hdraw
      cases hok
      rw [if_neg hnew, appendNode_edit hg happ]
      rfl
  | write ID' client value =>
    have hclient := hleaves client (by simp)
    obtain ⟨c, hc, h1⟩ := bind_ok_iff.mp hstep
    obtain ⟨s1, hw, hok⟩ := bind_ok_iff.mp h1
    cases hok
    obtain ⟨c', hc', hhead, -⟩ := object_edit hclient hc
    rw [HandlerPc.step, hc', ok_bind, hhead, writeList_edit hw]
    rfl
  | sleep ID' value =>
    cases hstep
    rfl
  | sortLookup ID' value =>
    obtain ⟨client, hlookup, hok⟩ := bind_ok_iff.mp hstep
    cases hok
    rw [HandlerPc.step, hat ID' _ rfl hlookup]
    rfl
  | sort ID' value client =>
    have hclient := hleaves client (by simp)
    obtain ⟨sorted, hsort, hok⟩ := bind_ok_iff.mp hstep
    rw [HandlerPc.step, sortNodes_edit hclient hsort]
    cases sorted with
    | none =>
      cases hok
      rfl
    | some s1 =>
      cases hok
      rfl
  | sortAgain ID' value =>
    obtain ⟨client, hlookup, hok⟩ := bind_ok_iff.mp hstep
    cases hok
    rw [HandlerPc.step, hat ID' _ rfl hlookup]
    rfl
  | sortWrite ID' value client =>
    have hclient := hleaves client (by simp)
    obtain ⟨s1, hsw, hok⟩ := bind_ok_iff.mp hstep
    obtain ⟨c, hc, hw⟩ := bind_ok_iff.mp hsw
    cases hok
    obtain ⟨c', hc', hhead, -⟩ := object_edit hclient hc
    rw [HandlerPc.step, Server.writeSorted, hc', ok_bind, hhead, writeList_edit hw]
    rfl
  | replyLookup ID' value =>
    obtain ⟨client, hlookup, hok⟩ := bind_ok_iff.mp hstep
    cases hok
    rw [HandlerPc.step, hat ID' _ rfl hlookup]
    rfl
  | reply value client =>
    have hclient := hleaves client (by simp)
    obtain ⟨⟨ret, s1⟩, hsend, hok⟩ := bind_ok_iff.mp hstep
    obtain ⟨c, hc, -⟩ := bind_ok_iff.mp hsend
    obtain ⟨c', hc', -, hfd⟩ := object_edit hclient hc
    obtain ⟨ret1, hspec⟩ := sendToClient_spec hc (to_string value) r
    obtain ⟨ret2, hspec'⟩ := sendToClient_spec hc' (to_string value) r
    rw [hspec] at hsend
    cases hsend
    cases hok
    rw [HandlerPc.step, hspec', hfd]
    rfl
  | returned =>
    cases hstep
    rfl

/-- A step keeps the index, or gives it up; what it has in hand then, it had or looked up. -/
theorem handlerStep_hand {s s' : Server} {h h' : HandlerPc} {rand : ℕ} {r : SendResult}
    (hstep : h.step s rand r = .ok (h', s')) :
    (∀ ID, h'.index = some ID → h.index = some ID) ∧
      ∀ p ∈ h'.pointers, p ∈ h.pointers ∨ ∃ ID, h.index = some ID ∧ s.at ID = .ok p := by
  cases h with
  | parse msg =>
    obtain ⟨ID, hmsg, hok⟩ := bind_ok_iff.mp hstep
    cases hok
    refine ⟨fun ID' hID' => ?_, by simp⟩
    rw [HandlerPc.index, hmsg]
    exact hID'
  | draw ID client g =>
    obtain ⟨⟨n, s1⟩, -, hok⟩ := bind_ok_iff.mp hstep
    cases n <;> cases hok
    · exact ⟨fun _ hID => hID, fun p hp => .inl hp⟩
    · exact ⟨fun _ hID => hID, fun p hp => .inl (List.mem_cons.mpr (.inl (by simpa using hp)))⟩
  | write ID client value =>
    obtain ⟨c, -, h1⟩ := bind_ok_iff.mp hstep
    obtain ⟨s1, -, hok⟩ := bind_ok_iff.mp h1
    cases hok
    exact ⟨fun _ hID => hID, by simp⟩
  | sleep ID value =>
    cases hstep
    exact ⟨fun _ hID => hID, by simp⟩
  | sort ID value client =>
    obtain ⟨sorted, -, hok⟩ := bind_ok_iff.mp hstep
    cases sorted <;> cases hok
    · exact ⟨fun _ hID => hID, by simp⟩
    · exact ⟨fun _ hID => hID, by simp⟩
  | sortWrite ID value client =>
    obtain ⟨s1, -, hok⟩ := bind_ok_iff.mp hstep
    cases hok
    exact ⟨fun _ hID => hID, by simp⟩
  | reply value client =>
    obtain ⟨x, -, hok⟩ := bind_ok_iff.mp hstep
    cases hok
    exact ⟨by simp, by simp⟩
  | returned =>
    cases hstep
    exact ⟨by simp, by simp⟩
  | generateLookup ID client =>
    obtain ⟨p, hat, hok⟩ := bind_ok_iff.mp hstep
    cases hok
    refine ⟨fun _ hID => hID, fun q hq => ?_⟩
    rcases List.mem_cons.mp hq with rfl | hq
    · exact .inl (List.mem_singleton_self _)
    · rw [List.mem_singleton.mp hq]
      exact .inr ⟨ID, rfl, hat⟩
  | replyLookup ID value =>
    obtain ⟨p, hat, hok⟩ := bind_ok_iff.mp hstep
    cases hok
    refine ⟨by simp, fun q hq => .inr ⟨ID, rfl, ?_⟩⟩
    rw [List.mem_singleton.mp hq, hat]
  | lookup ID =>
    obtain ⟨p, hat, hok⟩ := bind_ok_iff.mp hstep
    cases hok
    refine ⟨fun _ hID => hID, fun q hq => .inr ⟨ID, rfl, ?_⟩⟩
    rw [List.mem_singleton.mp hq, hat]
  | sortLookup ID value =>
    obtain ⟨p, hat, hok⟩ := bind_ok_iff.mp hstep
    cases hok
    refine ⟨fun _ hID => hID, fun q hq => .inr ⟨ID, rfl, ?_⟩⟩
    rw [List.mem_singleton.mp hq, hat]
  | sortAgain ID value =>
    obtain ⟨p, hat, hok⟩ := bind_ok_iff.mp hstep
    cases hok
    refine ⟨fun _ hID => hID, fun q hq => .inr ⟨ID, rfl, ?_⟩⟩
    rw [List.mem_singleton.mp hq, hat]

/-- The handler works at `ID`, on the client that it finds there. -/
structure HandlerPc.Finds (h : HandlerPc) (ID : CInt) (s : Server) : Prop where
  index : ∀ ID', h.index = some ID' → ID' = ID
  pointers : ∀ p ∈ h.pointers, s.at ID = .ok p

/-- What a handler keeps in a run: separate lists, `_clients`, and where it works. -/
structure HandlerPc.AtWork (ID : CInt) (clients : List ClientPtr) (x : HandlerPc × Server) :
    Prop where
  separate : x.2.Separate
  clients : x.2.clients = clients
  finds : x.1.Finds ID x.2

theorem atWork_step {ID : CInt} {clients : List ClientPtr} {x x' : HandlerPc × Server}
    {l : ℕ × SendResult} (hx : HandlerPc.AtWork ID clients x) (hstep : HandlerStep x l x') :
    HandlerPc.AtWork ID clients x' := by
  obtain ⟨hret, hstep⟩ := hstep
  obtain ⟨o, list, hrel⟩ := handlerStep_relists hx.separate hret hstep
  obtain ⟨hindex, hpointers⟩ := handlerStep_hand hstep
  refine ⟨hrel.separate, hrel.same.clients.trans hx.clients, fun ID' hID' => ?_, fun p hp => ?_⟩
  · exact hx.finds.index ID' (hindex ID' hID')
  · rw [hrel.same.at]
    rcases hpointers p hp with hp | ⟨ID', hID', hat⟩
    · exact hx.finds.pointers p hp
    · rw [← hx.finds.index ID' hID', hat]

theorem atWork_run {ID : CInt} {clients : List ClientPtr} {x x' : HandlerPc × Server}
    {ls : List (ℕ × SendResult)} (hrun : Run HandlerStep x ls x')
    (hx : HandlerPc.AtWork ID clients x) : HandlerPc.AtWork ID clients x' :=
  hrun.invariant (fun _ _ _ hx hstep => atWork_step hx hstep) hx

/-- A run of the handler can be taken after an edit that spares its index as well. -/
theorem run_edit {ID : CInt} {e : Edit} {x x' : HandlerPc × Server}
    {ls : List (ℕ × SendResult)} (he : e.Spares ID x.2.clients)
    (hx : HandlerPc.AtWork ID x.2.clients x) (hrun : Run HandlerStep x ls x') :
    Run HandlerStep (x.1, x.2.edit e) ls (x'.1, x'.2.edit e) := by
  refine hrun.commute (f := fun x => (x.1, x.2.edit e)) (P := HandlerPc.AtWork ID x.2.clients)
    (fun y l y' hy hstep => ⟨⟨hstep.1, ?_⟩, atWork_step hy hstep⟩) hx
  have he' : e.Spares ID y.2.clients := by
    rw [hy.clients]
    exact he
  refine handlerStep_edit (fun ID' o hID' hat => ?_) (fun p hp => ?_) hstep.2
  · obtain rfl := hy.finds.index ID' hID'
    exact (at_edit he' hat).1
  · exact (at_edit he' (hy.finds.pointers p hp)).2

/-! ## What is left of the handler -/

/-- The reply, from its lookup on. -/
def Server.replyTo (s : Server) (ID : CInt) (value : ℤ) (r : SendResult) : Exec Server := do
  let client ← s.at ID
  let (_, s) ← s.sendToClient client (to_string value) r
  pure s

/-- From `sortList` on. -/
def Server.sortAndReply (s : Server) (ID : CInt) (value : ℤ) (r : SendResult) :
    Exec Server := do
  let s ← s.sortList ID (clientFileName ID)
  s.replyTo ID value r

/-- From the first writing of the file on. -/
def Server.writeAndReply (s : Server) (ID : CInt) (client : ClientPtr) (value : ℤ)
    (r : SendResult) : Exec Server := do
  let c ← s.object client
  let s ← s.writeList c.head (clientFileName ID)
  s.sortAndReply ID value r

/-- `onIncomingMsg1` from where the handler is. -/
def HandlerPc.finish (rands : List ℕ) (r : SendResult) : HandlerPc → Server → Exec Server
  | .parse msg, s => s.onIncomingMsg1 msg rands r
  | .lookup ID, s => do
    let client ← s.at ID
    let (value, s) ← s.generateNumber ID rands
    s.writeAndReply ID client value r
  | .generateLookup ID client, s => do
    let (value, s) ← s.generateNumber ID rands
    s.writeAndReply ID client value r
  | .draw ID client generateClient, s => do
    let (value, s) ← s.generateLoop ID generateClient rands
    s.writeAndReply ID client value r
  | .write ID client value, s => s.writeAndReply ID client value r
  | .sleep ID value, s => s.sortAndReply ID value r
  | .sortLookup ID value, s => s.sortAndReply ID value r
  | .sort ID value client, s => do
    match ← s.sortNodes client with
    | none => s.replyTo ID value r
    | some s => do
      let client ← s.at ID
      let s ← s.writeSorted client (clientFileName ID)
      s.replyTo ID value r
  | .sortAgain ID value, s => do
    let client ← s.at ID
    let s ← s.writeSorted client (clientFileName ID)
    s.replyTo ID value r
  | .sortWrite ID value client, s => do
    let s ← s.writeSorted client (clientFileName ID)
    s.replyTo ID value r
  | .replyLookup ID value, s => s.replyTo ID value r
  | .reply value client, s => do
    let (_, s) ← s.sendToClient client (to_string value) r
    pure s
  | .returned, s => .ok s

theorem onIncomingMsg1_eq (s : Server) (msg : Bytes) (rands : List ℕ) (r : SendResult) :
    s.onIncomingMsg1 msg rands r = (do
      let ID ← decodeID msg
      HandlerPc.finish rands r (.lookup ID) s) :=
  rfl

/-- A step of the handler and the rest after it are the rest before it. -/
theorem finish_step {s s' t : Server} {h h' : HandlerPc} {rand : ℕ} {rands : List ℕ}
    {r r' : SendResult} (hstep : h.step s rand r' = .ok (h', s'))
    (hrest : h'.finish rands r s' = .ok t) : ∃ rands', h.finish rands' r s = .ok t := by
  cases h with
  | parse msg =>
    obtain ⟨ID, hmsg, hok⟩ := bind_ok_iff.mp hstep
    cases hok
    refine ⟨rands, ?_⟩
    rw [HandlerPc.finish, onIncomingMsg1_eq, hmsg, ok_bind, hrest]
  | lookup ID =>
    obtain ⟨client, hat, hok⟩ := bind_ok_iff.mp hstep
    cases hok
    refine ⟨rands, ?_⟩
    rw [HandlerPc.finish, hat, ok_bind]
    exact hrest
  | generateLookup ID client =>
    obtain ⟨g, hat, hok⟩ := bind_ok_iff.mp hstep
    cases hok
    refine ⟨rands, ?_⟩
    rw [HandlerPc.finish, Server.generateNumber, hat, ok_bind]
    exact hrest
  | draw ID client g =>
    -- the draw is the first round of the loop
    refine ⟨rand :: rands, ?_⟩
    obtain ⟨⟨n, s1⟩, hdraw, hok⟩ := bind_ok_iff.mp hstep
    rw [HandlerPc.finish, Server.generateLoop, hdraw, ok_bind]
    cases n <;> cases hok
    · exact hrest
    · exact hrest
  | write ID client value =>
    obtain ⟨c, hc, h1⟩ := bind_ok_iff.mp hstep
    obtain ⟨s1, hw, hok⟩ := bind_ok_iff.mp h1
    cases hok
    refine ⟨rands, ?_⟩
    rw [HandlerPc.finish, Server.writeAndReply, hc, ok_bind, hw, ok_bind]
    exact hrest
  | sleep ID value =>
    cases hstep
    exact ⟨rands, hrest⟩
  | sortLookup ID value =>
    obtain ⟨client, hat, hok⟩ := bind_ok_iff.mp hstep
    cases hok
    refine ⟨rands, ?_⟩
    obtain ⟨sorted, hsort, hrest⟩ := bind_ok_iff.mp hrest
    rw [HandlerPc.finish, Server.sortAndReply, Server.sortList, hat, ok_bind, hsort, ok_bind]
    cases sorted with
    | none => exact hrest
    | some s1 =>
      obtain ⟨again, hagain, hrest⟩ := bind_ok_iff.mp hrest
      obtain ⟨s2, hw, hrest⟩ := bind_ok_iff.mp hrest
      dsimp only
      rw [hagain, ok_bind, hw]
      exact hrest
  | sort ID value client =>
    obtain ⟨sorted, hsort, hok⟩ := bind_ok_iff.mp hstep
    refine ⟨rands, ?_⟩
    rw [HandlerPc.finish, hsort, ok_bind]
    cases sorted <;> cases hok
    · exact hrest
    · exact hrest
  | sortAgain ID value =>
    obtain ⟨client, hat, hok⟩ := bind_ok_iff.mp hstep
    cases hok
    refine ⟨rands, ?_⟩
    rw [HandlerPc.finish, hat, ok_bind]
    exact hrest
  | sortWrite ID value client =>
    obtain ⟨s1, hw, hok⟩ := bind_ok_iff.mp hstep
    cases hok
    refine ⟨rands, ?_⟩
    rw [HandlerPc.finish, hw, ok_bind]
    exact hrest
  | replyLookup ID value =>
    obtain ⟨client, hat, hok⟩ := bind_ok_iff.mp hstep
    cases hok
    refine ⟨rands, ?_⟩
    rw [HandlerPc.finish, Server.replyTo, hat, ok_bind]
    exact hrest
  | reply value client =>
    obtain ⟨⟨ret, s1⟩, hsend, hok⟩ := bind_ok_iff.mp hstep
    cases hok
    cases hrest
    obtain ⟨c, hc, -⟩ := bind_ok_iff.mp hsend
    obtain ⟨ret1, hspec⟩ := sendToClient_spec hc (to_string value) r'
    obtain ⟨ret2, hspec'⟩ := sendToClient_spec hc (to_string value) r
    rw [hspec] at hsend
    cases hsend
    refine ⟨rands, ?_⟩
    rw [HandlerPc.finish, hspec']
    rfl
  | returned =>
    cases hstep
    exact ⟨rands, hrest⟩

/-- The steps of a handler from its start to its end are a call of `onIncomingMsg1`, whatever
    the `::send` of the reply returns. -/
theorem onIncomingMsg1_of_run {s s' : Server} {msg : Bytes} {ls : List (ℕ × SendResult)}
    (hrun : Run HandlerStep (.parse msg, s) ls (.returned, s')) (r : SendResult) :
    ∃ rands, s.onIncomingMsg1 msg rands r = .ok s' := by
  suffices hfin : ∀ x x' : HandlerPc × Server, Run HandlerStep x ls x' → x'.1 = .returned →
      ∃ rands, x.1.finish rands r x.2 = .ok x'.2 from hfin _ _ hrun rfl
  clear hrun
  intro x x' hrun hret
  induction hrun with
  | nil x =>
    refine ⟨[], ?_⟩
    rw [hret]
    rfl
  | cons hstep _ ih =>
    obtain ⟨rands, hrest⟩ := ih hret
    exact finish_step hstep.2 hrest

end TCPServer
