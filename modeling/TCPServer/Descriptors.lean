/-
  Which descriptors a server passes to `::close`.

  A log of descriptors is `Sound` if every `::close` is on a descriptor that `socket` or
  `accept` returned and that was not passed to `::close` since: the call gives a descriptor up
  whether it succeeds or fails, and must not be repeated. The server keeps the log sound in
  every run in which `close()` and the destructor get to the listening socket only while there
  is one to close, and in which nothing is closed any more after a `close()` that failed at a
  client (`closes_owned`). Neither is checked: `_sockfd` is 0 before the first start and keeps
  its value after `close()`, which the destructor calls again; and a `close()` that fails at a
  client leaves the clients it has passed to `::close` in `_clients`.
-/
import TCPServer.Lifecycle
import TCPServer.Sockets

namespace TCPServer

open Handles Runs

/-- The call of `close()` gets past the clients. -/
def TcpServer.PassesClients (s : TcpServer) (results : ℕ → CloseResult) : Prop :=
  ∀ i < s.server.clients.length, (results i).ret ≠ -1

/-- `close()` gets to the socket only if it is open, and after a `close()` that has failed at a
    client there is neither another one nor a round of a sweep. -/
def ClosesOpen (s : TcpServer) (l : TcpServer.Label) (_ : TcpServer) : Prop :=
  match l with
  | .close results _ => s.halfClosed = false ∧ (s.PassesClients results → s.socketOpen = true)
  | .destroy results _ => s.halfClosed = false ∧ (s.PassesClients results → s.socketOpen = true)
  | .remove _ => s.halfClosed = false
  | _ => True

/-- The descriptors the server is still to close. -/
def TcpServer.owned (s : TcpServer) : List ℤ :=
  (if s.socketOpen then [s.server.sockfd] else []) ++ s.server.clients.map s.server.fd

/-- The server is there, and no `close()` has failed at a client. -/
def TcpServer.Intact (s : TcpServer) : Prop := s.gone = false ∧ s.halfClosed = false

structure TcpServer.Inv (s : TcpServer) : Prop where
  sound : Sound s.descriptors
  lt : ∀ o ∈ s.server.clients, o < s.server.objects.length
  nodup : s.Intact → s.owned.Nodup
  isHeld : s.Intact → ∀ fd ∈ s.owned, held s.descriptors fd = true

/-! ## `close()` -/

section Close

variable {s s' : TcpServer} {results : ℕ → CloseResult} {r : CloseResult} {ret : PipeRet}

/-- What the loop over the clients from position `i` on has done. -/
structure TcpServer.ClosedClients (s s' : TcpServer) (results : ℕ → CloseResult) (i : ℕ)
    (clients : List ClientPtr) (ret : PipeRet) : Prop where
  sound : Sound s'.descriptors
  server : s'.server = s.server
  socketOpen : s'.socketOpen = s.socketOpen
  passes : ret.successFlag = true →
    (∀ j < clients.length, (results (i + j)).ret ≠ -1) ∧
    ∀ fd, held s.descriptors fd = true → fd ∉ clients.map s.server.fd →
      held s'.descriptors fd = true
  fails : ret.successFlag = false → s'.halfClosed = true

theorem closeClients_spec {i : ℕ} {clients : List ClientPtr} (hsound : Sound s.descriptors)
    (hnodup : (clients.map s.server.fd).Nodup)
    (hheld : ∀ o ∈ clients, held s.descriptors (s.server.fd o) = true)
    (h : s.closeClients results i clients = .ok (ret, s')) :
    s.ClosedClients s' results i clients ret := by
  induction clients generalizing i s with
  | nil =>
    cases h
    exact ⟨hsound, rfl, rfl, fun _ => ⟨nofun, fun fd hfd _ => hfd⟩, nofun⟩
  | cons client clients ih =>
    obtain ⟨c, hc, hround⟩ := closeClients_cases h
    rw [← fd_of_object hc] at hround
    obtain ⟨hnew, hnodup⟩ := List.nodup_cons.mp hnodup
    have hfirst := hheld client List.mem_cons_self
    rcases hround with ⟨hret, rfl, rfl⟩ | ⟨hret, hrest⟩
    · exact ⟨⟨hfirst, hsound⟩, rfl, rfl, nofun, fun _ => rfl⟩
    · have hothers₁ : ∀ o ∈ clients, held (s.closeDescriptor (s.server.fd client)
          (results i)).descriptors (s.server.fd o) = true := fun o ho =>
        held_released_iff.mpr ⟨fun heq => hnew (List.mem_map.mpr ⟨o, ho, heq⟩),
          hheld o (List.mem_cons_of_mem _ ho)⟩
      have hloop := ih (s := s.closeDescriptor (s.server.fd client) (results i))
        ⟨hfirst, hsound⟩ hnodup hothers₁ hrest
      refine ⟨hloop.sound, hloop.server, hloop.socketOpen, fun hflag => ?_, hloop.fails⟩
      obtain ⟨hpass, hothers⟩ := hloop.passes hflag
      refine ⟨fun j hj => ?_, fun fd hfd hnot => ?_⟩
      · cases j with
        | zero => exact hret
        | succ j =>
          have hpass' := hpass j (Nat.lt_of_succ_lt_succ hj)
          rwa [Nat.add_right_comm] at hpass'
      · rw [List.map_cons, List.mem_cons, not_or] at hnot
        exact hothers fd (held_released_iff.mpr ⟨hnot.1, hfd⟩) hnot.2

/-- Without clients and after its socket was passed to `::close`, the server owns nothing. -/
theorem closeSocket_inv (hsound : Sound s.descriptors) (hclients : s.server.clients = [])
    (hheld : held s.descriptors s.server.sockfd = true) : (s.closeSocket r).2.Inv := by
  have howned : (s.closeSocket r).2.owned = [] := by
    unfold TcpServer.owned
    rw [closeSocket_effect]
    exact List.map_eq_nil_iff.mpr hclients
  refine ⟨?_, ?_, fun _ => ?_, fun _ fd hfd => ?_⟩
  · rw [closeSocket_effect]
    exact ⟨hheld, hsound⟩
  · rw [closeSocket_effect]
    show ∀ o ∈ s.server.clients, _
    rw [hclients]
    nofun
  · rw [howned]
    exact List.nodup_nil
  · rw [howned] at hfd
    cases hfd

theorem TcpServer.Inv.close (hs : s.Inv) (hintact : s.Intact)
    (hopen : s.PassesClients results → s.socketOpen = true)
    (h : s.close results r = .ok (ret, s')) : s'.Inv := by
  obtain ⟨closing, s₂, hclients, hrest⟩ := close_cases h
  obtain ⟨thread, stop, removers, hterminate⟩ := terminate_effect s
  rw [hterminate] at hclients
  set s₁ : TcpServer :=
    { s with clientsRemoverThread := thread, stop := stop, removers := removers }
  have hi : s₁.Inv := ⟨hs.sound, hs.lt, hs.nodup, hs.isHeld⟩
  have hintact₁ : s₁.Intact := hintact
  have hopen₁ : s₁.PassesClients results → s₁.socketOpen = true := hopen
  have hnodup := List.nodup_append.mp (hi.nodup hintact₁)
  have hclosed := closeClients_spec hi.sound hnodup.2.1
    (fun o ho => hi.isHeld hintact₁ _ (List.mem_append_right _ (List.mem_map_of_mem ho))) hclients
  rcases hrest with ⟨hflag, rfl⟩ | ⟨hflag, rfl⟩
  · obtain ⟨hpass, hothers⟩ := hclosed.passes hflag
    have hsocket : s₁.socketOpen = true := hopen₁ fun i hi => by
      rw [← Nat.zero_add i]
      exact hpass i hi
    have hmem : s₁.server.sockfd ∈ s₁.owned := by
      unfold TcpServer.owned
      rw [hsocket]
      exact List.mem_append_left _ (List.mem_singleton_self _)
    have hfirst : ∀ fd ∈ s₁.server.clients.map s₁.server.fd, s₁.server.sockfd ≠ fd := by
      refine hnodup.2.2 _ ?_
      rw [hsocket]
      exact List.mem_singleton_self _
    have hheld : held s₂.descriptors s₁.server.sockfd = true :=
      hothers _ (hi.isHeld hintact₁ _ hmem) fun hin => hfirst _ hin rfl
    refine closeSocket_inv hclosed.sound rfl ?_
    show held s₂.descriptors s₂.server.sockfd = true
    rw [hclosed.server]
    exact hheld
  · have hhalf : ¬ s'.Intact := fun h => absurd (h.2.symm.trans (hclosed.fails hflag)) nofun
    refine ⟨hclosed.sound, ?_, fun h => absurd h hhalf, fun h => absurd h hhalf⟩
    rw [hclosed.server]
    exact hi.lt

end Close

/-! ## The other moves -/

section Moves

variable {s s' : TcpServer}

theorem owned_congr (hopen : s'.socketOpen = s.socketOpen)
    (hsockfd : s'.server.sockfd = s.server.sockfd)
    (hclients : s'.server.clients = s.server.clients)
    (hfd : ∀ o ∈ s.server.clients, s'.server.fd o = s.server.fd o) : s'.owned = s.owned := by
  unfold TcpServer.owned
  rw [hopen, hsockfd, hclients, List.map_congr_left hfd]

theorem fresh_not_owned (hs : s.Inv) (hintact : s.Intact) {fd : ℤ}
    (hfd : s.Fresh fd) : fd ∉ s.owned := by
  intro hmem
  have hheld := hs.isHeld hintact fd hmem
  rw [hfd.2] at hheld
  cases hheld

theorem initializeSocket_inv (hs : s.Inv) {fd : Option ℤ}
    (hfd : ∀ fd', fd = some fd' → s.Fresh fd') : (s.initializeSocket fd).Inv := by
  have hclients : s.Intact → (s.server.clients.map s.server.fd).Nodup := fun hintact =>
    (List.nodup_append.mp (hs.nodup hintact)).2.1
  cases fd with
  | none =>
    refine ⟨hs.sound, hs.lt, hclients, fun hintact fd hmem => ?_⟩
    exact hs.isHeld hintact fd (List.mem_append_right _ hmem)
  | some fd =>
    have hfresh := hfd fd rfl
    refine ⟨⟨hfresh.2, hs.sound⟩, hs.lt, fun hintact => ?_, fun hintact fd' hmem => ?_⟩
    · refine List.nodup_cons.mpr ⟨fun hmem => ?_, hclients hintact⟩
      exact fresh_not_owned hs hintact hfresh (List.mem_append_right _ hmem)
    · refine held_acquired_iff.mpr ((List.mem_cons.mp hmem).imp_right fun hmem => ?_)
      exact hs.isHeld hintact fd' (List.mem_append_right _ hmem)

theorem start_inv (hs : s.Inv) {a : Bool} {setUp : SetUp}
    (hfd : ∀ fd, setUp.fileDescriptor = some fd → s.Fresh fd) : (s.start a setUp).2.Inv := by
  set s₀ := if a then s.startRemover else s with hs₀
  have hi : s₀.Inv := by
    rw [hs₀]
    split
    · exact ⟨hs.sound, hs.lt, hs.nodup, hs.isHeld⟩
    · exact hs
  have hfd₀ : ∀ fd, setUp.fileDescriptor = some fd → s₀.Fresh fd := by
    rw [hs₀]
    split <;> exact hfd
  have hsocket := initializeSocket_inv hi hfd₀
  unfold TcpServer.start
  dsimp only
  split <;> exact ⟨hsocket.sound, hsocket.lt, hsocket.nodup, hsocket.isHeld⟩

theorem accept_inv (hs : s.Inv) {fd : ℤ} {ip : String} (hfd : s.Fresh fd) :
    TcpServer.Inv { s with
      server := s.server.addClient fd ip, descriptors := .acquired fd :: s.descriptors } := by
  set s' : TcpServer := { s with
    server := s.server.addClient fd ip, descriptors := .acquired fd :: s.descriptors }
  have howned : s'.owned = s.owned ++ [fd] := by
    have hmap : (s.server.clients ++ [s.server.objects.length]).map (s.server.addClient fd ip).fd =
        s.server.clients.map s.server.fd ++ [fd] := by
      rw [List.map_append, List.map_congr_left fun o ho => fd_addClient_of_lt (hs.lt o ho),
        List.map_singleton, fd_addClient_self]
    unfold TcpServer.owned
    rw [List.append_assoc]
    exact congrArg _ hmap
  refine ⟨⟨hfd.2, hs.sound⟩, fun o ho => ?_, fun hintact => ?_, fun hintact fd' hmem => ?_⟩
  · show o < (s.server.objects ++ [_]).length
    rw [List.length_append]
    rcases List.mem_append.mp ho with ho | ho
    · exact Nat.lt_succ_of_lt (hs.lt o ho)
    · rw [List.mem_singleton.mp ho]
      exact Nat.lt_succ_self _
  · rw [howned, ← List.concat_eq_append]
    exact .concat (fresh_not_owned hs hintact hfd) (hs.nodup hintact)
  · rw [howned, List.mem_append, List.mem_singleton] at hmem
    exact held_acquired_iff.mpr (hmem.symm.imp_right (hs.isHeld hintact fd'))

theorem disconnect_inv (hs : s.Inv) (client : ClientPtr) :
    TcpServer.Inv { s with server := s.server.disconnect client } := by
  have hsockfd : (s.server.disconnect client).sockfd = s.server.sockfd := by
    unfold Server.disconnect
    split
    · split <;> rfl
    · rfl
  have hclients := disconnect_clients s.server client
  have howned : TcpServer.owned { s with server := s.server.disconnect client } = s.owned :=
    owned_congr rfl hsockfd hclients fun o _ => fd_disconnect client o
  refine ⟨hs.sound, fun o ho => ?_, fun hintact => ?_, fun hintact fd hmem => ?_⟩
  · show o < (s.server.disconnect client).objects.length
    rw [length_disconnect]
    exact hs.lt o (hclients ▸ ho)
  · rw [howned]
    exact hs.nodup hintact
  · rw [howned] at hmem
    exact hs.isHeld hintact fd hmem

/-- The descriptor of a listed client is owned. -/
theorem mem_owned {i : ℕ} {o : ClientPtr} {c : Client} (ho : s.server.clients[i]? = some o)
    (hc : s.server.object o = .ok c) : c.sockfd ∈ s.owned := by
  rw [← fd_of_object hc]
  exact List.mem_append_right _ (List.mem_map_of_mem (List.mem_of_getElem? ho))

theorem remove_inv (hs : s.Inv) (hintact : s.Intact) {i : ℕ} {o : ClientPtr} {c : Client}
    {r : CloseResult} (ho : s.server.clients[i]? = some o) (hc : s.server.object o = .ok c) :
    TcpServer.Inv { s.closeDescriptor c.sockfd r with
      server := s.server.erase i o c.sockfd } := by
  set s' : TcpServer := { s.closeDescriptor c.sockfd r with
    server := s.server.erase i o c.sockfd }
  have hfd : (s.server.clients.map s.server.fd)[i]? = some c.sockfd := by
    rw [List.getElem?_map, ho]
    exact congrArg some (fd_of_object hc)
  have hmem : c.sockfd ∈ s.owned := mem_owned ho hc
  have howned : s'.owned = s.owned.erase c.sockfd := by
    obtain ⟨-, hnodup, hdisjoint⟩ := List.nodup_append.mp (hs.nodup hintact)
    obtain ⟨hlt, hget⟩ := List.getElem?_eq_some_iff.mp hfd
    have hsame : (s.server.erase i o c.sockfd).fd = s.server.fd := funext (fd_erase i o c.sockfd)
    have hmap : (s.server.clients.eraseIdx i).map s.server.fd =
        (s.server.clients.map s.server.fd).erase c.sockfd := by
      rw [← List.eraseIdx_map, ← hnodup.erase_getElem i hlt, hget]
    have hnot : c.sockfd ∉ if s.socketOpen then [s.server.sockfd] else [] := fun hin =>
      hdisjoint _ hin _ (List.mem_of_getElem? hfd) rfl
    unfold TcpServer.owned
    rw [List.erase_append_right _ hnot, ← hmap, ← hsame]
    rfl
  refine ⟨⟨hs.isHeld hintact _ hmem, hs.sound⟩, fun o' ho' => ?_, fun _ => ?_, fun _ fd hin => ?_⟩
  · show o' < (s.server.objects.modify o _).length
    rw [List.length_modify]
    exact hs.lt o' (List.mem_of_mem_eraseIdx ho')
  · rw [howned]
    exact (hs.nodup hintact).erase _
  · rw [howned, (hs.nodup hintact).mem_erase_iff] at hin
    exact held_released_iff.mpr ⟨hin.1, hs.isHeld hintact fd hin.2⟩

/-- The attempt that fails is on a descriptor that was held, and the last thing that happens. -/
theorem throw_inv (hs : s.Inv) (hintact : s.Intact) {i : ℕ} {o : ClientPtr} {c : Client}
    {r : CloseResult} (ho : s.server.clients[i]? = some o) (hc : s.server.object o = .ok c) :
    TcpServer.Inv { s.closeDescriptor c.sockfd r with gone := true } :=
  ⟨⟨hs.isHeld hintact _ (mem_owned ho hc), hs.sound⟩, hs.lt, fun h => absurd h.1 nofun,
    fun h => absurd h.1 nofun⟩

theorem init_owned : TcpServer.init.Inv :=
  ⟨trivial, nofun, fun _ => List.nodup_nil, fun _ => nofun⟩

theorem TcpServer.Inv.step (hs : s.Inv) {l : TcpServer.Label} (h : s.Step l s')
    (hcond : ClosesOpen s l s') : s'.Inv := by
  obtain ⟨hthere, h⟩ := h
  cases h with
  | start a setUp hfd =>
    have hi := start_inv hs (a := a) hfd
    exact ⟨hi.sound, hi.lt, hi.nodup, hi.isHeld⟩
  | acceptClient fd ip _ hfd => exact accept_inv hs hfd
  | disconnect client => exact disconnect_inv hs client
  | removes r _ ho hc _ => exact remove_inv hs ⟨hthere, hcond⟩ ho hc
  | throws r _ ho hc _ => exact throw_inv hs ⟨hthere, hcond⟩ ho hc
  | leaves t _ _ => exact ⟨hs.sound, hs.lt, hs.nodup, hs.isHeld⟩
  | close results r h =>
    have hi := hs.close ⟨hthere, hcond.1⟩ hcond.2 h
    exact ⟨hi.sound, hi.lt, hi.nodup, hi.isHeld⟩
  | destroy results r h =>
    have hi := hs.close ⟨hthere, hcond.1⟩ hcond.2 h
    exact ⟨hi.sound, hi.lt, fun h => absurd h.1 nofun, fun h => absurd h.1 nofun⟩

end Moves

/-- For every run of a server, from its construction on: if at each of its steps `close()` and
    the destructor get to the listening socket only while it is open, and nothing is closed any
    more after a `close()` that failed at a client, then every `::close` was on a descriptor
    that `socket` or `accept` had returned and that had not been passed to `::close` since. -/
theorem closes_owned {ls : List TcpServer.Label} {s : TcpServer}
    (h : Run (Along TcpServer.Step ClosesOpen) .init ls s) : Sound s.descriptors :=
  (h.invariant (I := TcpServer.Inv) (fun _ _ _ hs h => hs.step h.1 h.2) init_owned).sound

/-- A server that is started, accepts a client and removes it, and whose destructor fails to
    close the listening socket. -/
theorem closes_owned_one_client :
    ∃ ls s, Run (Along TcpServer.Step ClosesOpen) .init ls s ∧ s.gone = true ∧
      Sound s.descriptors := by
  obtain ⟨ls, s, hrun, hover⟩ :
      ∃ ls s, Run (Along TcpServer.Step ClosesOpen) .init ls s ∧ s.gone = true :=
    ⟨_, _, .cons ⟨⟨rfl, .start true (.listens 3) (fresh_listens ⟨by decide, rfl⟩)⟩, trivial⟩ (.cons
      ⟨⟨rfl, .acceptClient 4 "10.0.0.2" rfl ⟨by decide, rfl⟩⟩, trivial⟩ (.cons
      ⟨⟨rfl, .disconnect 0⟩, trivial⟩ (.cons
      ⟨⟨rfl, .removes (o := 0) ⟨0, ""⟩ List.mem_cons_self rfl rfl (by decide)⟩, rfl⟩ (.cons
      ⟨⟨rfl, .destroy (fun _ => ⟨0, ""⟩) ⟨-1, "Input/output error"⟩ rfl⟩, rfl, fun _ => rfl⟩
      (.nil _))))), rfl⟩
  exact ⟨ls, s, hrun, hover, closes_owned hrun⟩

/-- The destructor closes the listening socket that `close()` has closed already. -/
theorem descriptor_closed_twice :
    ¬ ∀ ls s, Run TcpServer.Step .init ls s → Sound s.descriptors := by
  intro h
  have hsound := h _ _ (.cons
    ⟨rfl, .start true (.listens 3) (fresh_listens ⟨by decide, rfl⟩)⟩ (.cons
    ⟨rfl, .close (fun _ => ⟨0, ""⟩) ⟨0, ""⟩ rfl⟩ (.cons
    ⟨rfl, .destroy (fun _ => ⟨0, ""⟩) ⟨0, ""⟩ rfl⟩ (.nil _))))
  exact absurd hsound.1 (by decide)

end TCPServer
