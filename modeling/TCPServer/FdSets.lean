/-
  Which descriptors `fd_wait::waitFor` passes to `FD_SET`.

  `FD_SET` is for descriptors below `FD_SETSIZE`, and nothing compares a descriptor with it:
  `accept` returns one that is not open, however high, and the number of clients given to
  `start` is only the length of the queue of `listen`. A run keeps to the range of `FD_SET`
  exactly if every descriptor that `accept` returns in it is below `FD_SETSIZE` and
  `waitForClient` waits on a listening descriptor in that range only (`inRange_iff`). With
  1021 clients at a time, on the lowest descriptors there are, it does not
  (`fdSet_out_of_range`).

  A round of the loop of a receive thread is one step, and the last round is the disconnection.
  `acceptClient` is two, `waitForClient` and `accept`.
-/
import TCPServer.Lifecycle
import TCPServer.Sockets

namespace TCPServer

open Handles Runs

/-- `FD_SETSIZE`. -/
def FD_SETSIZE : ℤ := 1024

/-- The descriptors that an `fd_set` has a place for. -/
def InFdSet (fd : ℤ) : Prop := 0 ≤ fd ∧ fd < FD_SETSIZE

instance : DecidablePred InFdSet := fun _ => inferInstanceAs (Decidable (_ ∧ _))

/-- A server and what was passed to `FD_SET`, the last descriptor first. -/
structure WatchedServer where
  tcpServer : TcpServer
  fdSet : List ℤ

def WatchedServer.init : WatchedServer where
  tcpServer := .init
  fdSet := []

inductive WatchedServer.Label where
  | move (l : TcpServer.Label)
  /-- A round of `Client::receiveTask` after which the loop goes on. -/
  | receiveTask (client : ClientPtr)
  | waitForClient (timeout : ℕ)

/-- What a round of the receive loop of the client passes to `waitFor`. -/
def Server.watched (s : Server) (client : ClientPtr) : List ℤ :=
  match s.objects[client]? with
  | some c => if c.isConnected && !c.deleted then [c.sockfd] else []
  | none => []

/-- What a step passes to `waitFor`. -/
def Server.waitsFor (s : Server) : WatchedServer.Label → List ℤ
  | .move (.disconnect client) => s.watched client
  | .move _ => []
  | .receiveTask client => s.watched client
  | .waitForClient timeout => if timeout > 0 then [s.sockfd] else []

/-- `waitFor` puts the descriptors into its sets. -/
def WatchedServer.watch (x : WatchedServer) (l : WatchedServer.Label) (s : TcpServer) :
    WatchedServer where
  tcpServer := s
  fdSet := x.tcpServer.server.waitsFor l ++ x.fdSet

inductive WatchedServer.Step (x : WatchedServer) : WatchedServer.Label → WatchedServer → Prop
  | move {l : TcpServer.Label} {s : TcpServer} : x.tcpServer.Step l s →
      x.Step (.move l) (x.watch (.move l) s)
  | receiveTask (client : ClientPtr) : x.tcpServer.gone = false →
      x.Step (.receiveTask client) (x.watch (.receiveTask client) x.tcpServer)
  | waitForClient (timeout : ℕ) : x.tcpServer.gone = false →
      x.Step (.waitForClient timeout) (x.watch (.waitForClient timeout) x.tcpServer)

/-- `accept` returns a descriptor below `FD_SETSIZE`, and `waitForClient` waits only while the
    listening descriptor is in the range of `FD_SET`. -/
def BelowLimit (x : WatchedServer) (l : WatchedServer.Label) (_ : WatchedServer) : Prop :=
  match l with
  | .move (.acceptClient fd _) => fd < FD_SETSIZE
  | .waitForClient timeout => timeout > 0 → InFdSet x.tcpServer.server.sockfd
  | _ => True

/-- The receive loops that run pass descriptors to `FD_SET` that are in its range. -/
def Server.LoopsInRange (s : Server) : Prop := ∀ o, ∀ fd ∈ s.watched o, InFdSet fd

/-- All that was passed to `FD_SET` is in its range, and so is what the receive loops that run
    pass to it in their next rounds. -/
structure WatchedServer.InRange (x : WatchedServer) : Prop where
  passed : ∀ fd ∈ x.fdSet, InFdSet fd
  next : x.tcpServer.server.LoopsInRange

/-! ## What the receive loops pass on -/

section Watched

variable {s s' : Server} {o : ClientPtr}

theorem watched_setObject_ne {o' : ClientPtr} (ho : o' ≠ o) (f : Client → Client) :
    (s.setObject o f).watched o' = s.watched o' := by
  unfold Server.watched
  rw [objects_setObject_ne ho]

theorem watched_addClient_self (fd : ℤ) (ip : String) :
    (s.addClient fd ip).watched s.objects.length = [fd] := by
  unfold Server.watched Server.addClient
  rw [List.getElem?_concat_length]
  rfl

theorem watched_addClient_ne (ho : o ≠ s.objects.length) (fd : ℤ) (ip : String) :
    (s.addClient fd ip).watched o = s.watched o := by
  unfold Server.watched Server.addClient
  rw [getElem?_concat_ne ho]

theorem watched_of_none (hget : s.objects[o]? = none) : s.watched o = [] := by
  unfold Server.watched
  rw [hget]

/-- A client that is not connected has no receive loop any more. -/
theorem watched_of_dead {c : Client} (hget : s.objects[o]? = some c)
    (hdead : c.isConnected = false) : s.watched o = [] := by
  unfold Server.watched
  rw [hget]
  dsimp only
  rw [hdead]
  rfl

theorem watched_disconnect_self (s : Server) (o : ClientPtr) : (s.disconnect o).watched o = [] := by
  unfold Server.disconnect
  cases hget : s.objects[o]? with
  | none => exact watched_of_none hget
  | some c =>
    dsimp only
    split
    · exact watched_of_dead (objects_setObject_self hget _) rfl
    · rename_i hover
      unfold Server.watched
      rw [hget]
      exact if_neg hover

theorem watched_disconnect_ne {o' : ClientPtr} (ho : o' ≠ o) :
    (s.disconnect o).watched o' = s.watched o' := by
  unfold Server.disconnect
  split
  · split
    · exact watched_setObject_ne ho _
    · rfl
  · rfl

/-- The removed client had no receive loop any more. -/
theorem Server.Removal.watched (h : s.Removal s') (o' : ClientPtr) :
    s'.watched o' = s.watched o' := by
  obtain ⟨i, o, c, -, hc, hdead, rfl⟩ := h
  have hget := (object_ok_iff.mp hc).1
  by_cases ho : o' = o
  · subst ho
    rw [watched_of_dead hget hdead]
    exact watched_of_dead (objects_setObject_self hget _) hdead
  · exact watched_setObject_ne ho _

end Watched

/-! ## The range of `FD_SET` -/

section Range

variable {s s' : Server} {x x' : WatchedServer}

theorem loopsInRange_congr (h : ∀ o, s'.watched o = s.watched o) :
    s'.LoopsInRange ↔ s.LoopsInRange := by
  unfold Server.LoopsInRange
  simp only [h]

theorem loopsInRange_addClient {fd : ℤ} (ip : String) :
    (s.addClient fd ip).LoopsInRange ↔ s.LoopsInRange ∧ InFdSet fd := by
  constructor
  · intro h
    refine ⟨fun o fd' hfd => ?_, h s.objects.length fd ?_⟩
    · by_cases ho : o = s.objects.length
      · rw [watched_of_none (List.getElem?_eq_none (Nat.le_of_eq ho.symm))] at hfd
        cases hfd
      · exact h o fd' (by rwa [watched_addClient_ne ho])
    · rw [watched_addClient_self]
      exact List.mem_singleton_self fd
  · rintro ⟨h, hnew⟩ o fd' hfd
    by_cases ho : o = s.objects.length
    · rw [ho, watched_addClient_self, List.mem_singleton] at hfd
      rwa [hfd]
    · rw [watched_addClient_ne ho] at hfd
      exact h o fd' hfd

theorem loopsInRange_disconnect (client : ClientPtr) :
    (∀ fd ∈ s.watched client, InFdSet fd) ∧ (s.disconnect client).LoopsInRange ↔
      s.LoopsInRange := by
  constructor
  · rintro ⟨hclient, h⟩ o fd hfd
    by_cases ho : o = client
    · exact hclient fd (ho ▸ hfd)
    · exact h o fd (by rwa [watched_disconnect_ne ho])
  · intro h
    refine ⟨h client, fun o fd hfd => ?_⟩
    by_cases ho : o = client
    · rw [ho, watched_disconnect_self] at hfd
      cases hfd
    · rw [watched_disconnect_ne ho] at hfd
      exact h o fd hfd

/-- After a step, what it has passed on and what was passed on before are in range. -/
theorem inRange_watch_iff (l : WatchedServer.Label) (s : TcpServer) :
    (x.watch l s).InRange ↔ (∀ fd ∈ x.fdSet, InFdSet fd) ∧
      (∀ fd ∈ x.tcpServer.server.waitsFor l, InFdSet fd) ∧ s.server.LoopsInRange := by
  constructor
  · rintro ⟨hpassed, hnext⟩
    exact ⟨fun fd hfd => hpassed fd (List.mem_append_right _ hfd),
      fun fd hfd => hpassed fd (List.mem_append_left _ hfd), hnext⟩
  · rintro ⟨hold, hnew, hnext⟩
    exact ⟨fun fd hfd => (List.mem_append.mp hfd).elim (hnew fd) (hold fd), hnext⟩

/-- What a move of the server needs, to pass on what is in range and to leave such loops. -/
theorem Server.MovedBy.loopsInRange_iff {l : TcpServer.Label} (h : s.MovedBy l s') :
    (∀ fd ∈ s.waitsFor (.move l), InFdSet fd) ∧ s'.LoopsInRange ↔
      s.LoopsInRange ∧ BelowLimit x (.move l) x' := by
  have hsilent : ∀ {t : Server}, (∀ o, t.watched o = s.watched o) →
      ((∀ fd ∈ ([] : List ℤ), InFdSet fd) ∧ t.LoopsInRange ↔ s.LoopsInRange ∧ True) := by
    intro t ht
    rw [loopsInRange_congr ht, and_true]
    exact and_iff_right nofun
  cases h with
  | starts a setUp sockfd => exact hsilent fun _ => rfl
  | @accepts fd ip hfd =>
    show (∀ fd ∈ ([] : List ℤ), InFdSet fd) ∧ _ ↔ s.LoopsInRange ∧ fd < FD_SETSIZE
    rw [loopsInRange_addClient, and_iff_right nofun]
    exact and_congr_right fun _ => and_iff_right hfd
  | disconnects client =>
    show _ ↔ s.LoopsInRange ∧ True
    rw [and_true]
    exact loopsInRange_disconnect client
  | removes r hrem => exact hsilent hrem.watched
  | throws r => exact hsilent fun _ => rfl
  | leaves t => exact hsilent fun _ => rfl
  | closes results r _ => exact hsilent fun _ => rfl
  | destroys results r _ => exact hsilent fun _ => rfl

/-- A step leads to a state in range from such a state only, and if it meets the condition. -/
theorem step_inRange_iff {l : WatchedServer.Label} (h : x.Step l x') :
    x'.InRange ↔ x.InRange ∧ BelowLimit x l x' := by
  have hstart : x.InRange ↔ (∀ fd ∈ x.fdSet, InFdSet fd) ∧ x.tcpServer.server.LoopsInRange :=
    ⟨fun h => ⟨h.passed, h.next⟩, fun h => ⟨h.1, h.2⟩⟩
  rw [hstart, and_assoc]
  cases h with
  | move hmove => rw [inRange_watch_iff, (move_server hmove.2).loopsInRange_iff]
  | receiveTask client _ =>
    rw [inRange_watch_iff]
    refine and_congr_right fun _ => ?_
    show (∀ fd ∈ x.tcpServer.server.watched client, InFdSet fd) ∧ _ ↔ _ ∧ True
    rw [and_true]
    exact and_iff_right_of_imp fun hloops => hloops client
  | waitForClient timeout _ =>
    rw [inRange_watch_iff]
    refine and_congr_right fun _ => and_comm.trans (and_congr_right fun _ => ?_)
    show (∀ fd ∈ if timeout > 0 then [x.tcpServer.server.sockfd] else [], InFdSet fd) ↔
      (timeout > 0 → InFdSet x.tcpServer.server.sockfd)
    split
    · rename_i htimeout
      rw [List.forall_mem_singleton]
      exact ⟨fun hfd _ => hfd, fun hfd => hfd htimeout⟩
    · rename_i htimeout
      exact iff_of_true nofun fun h => absurd h htimeout

end Range

/-- For every run of a server, from its construction on, with any number of clients: all the
    descriptors that receive loops and `waitForClient` passed to `FD_SET` are at least 0 and
    less than `FD_SETSIZE`, and so are those that the receive loops still running pass to it
    next, if and only if every descriptor that `accept` returned is less than `FD_SETSIZE` and
    `waitForClient` waited only while the listening descriptor was in that range. -/
theorem inRange_iff {ls : List WatchedServer.Label} {x : WatchedServer}
    (h : Run WatchedServer.Step .init ls x) :
    x.InRange ↔ Run (Along WatchedServer.Step BelowLimit) .init ls x := by
  refine run_along_iff_of_trap (I := WatchedServer.InRange) (T := fun x => ¬ x.InRange)
    (fun _ _ _ hin hstep hlimit => (step_inRange_iff hstep).mpr ⟨hin, hlimit⟩)
    (fun _ _ _ _ hstep hlimit hin => hlimit ((step_inRange_iff hstep).mp hin).2)
    (fun _ _ _ hout hstep hin => hout ((step_inRange_iff hstep).mp hin).1)
    (fun _ hin => hin) (fun _ hout => hout) ⟨nofun, fun o fd hfd => ?_⟩ h
  rw [watched_of_none rfl] at hfd
  cases hfd

/-- The server is started on descriptor 3, waits, accepts a client on descriptor 4, and the
    client sends something and disconnects. -/
theorem inRange_one_client :
    ∃ ls x, Run WatchedServer.Step .init ls x ∧ x.fdSet = [4, 4, 3] ∧ x.InRange := by
  obtain ⟨ls, x, hrun, hfds⟩ : ∃ ls x,
      Run (Along WatchedServer.Step BelowLimit) .init ls x ∧ x.fdSet = [4, 4, 3] :=
    ⟨_, _, .cons ⟨.move ⟨rfl, .start false (.listens 3) (fresh_listens ⟨by decide, rfl⟩)⟩, trivial⟩
      (.cons ⟨.waitForClient 5 rfl, fun _ => (by decide : InFdSet 3)⟩
      (.cons ⟨.move ⟨rfl, .acceptClient 4 "10.0.0.2" rfl ⟨by decide, rfl⟩⟩,
        (by decide : (4 : ℤ) < FD_SETSIZE)⟩
      (.cons ⟨.receiveTask 0 rfl, trivial⟩
      (.cons ⟨.move ⟨rfl, .disconnect 0⟩, trivial⟩ (.nil _))))), rfl⟩
  exact ⟨ls, x, hrun.of_along, hfds, (inRange_iff hrun.of_along).mpr hrun⟩

/-! ## Many clients -/

/-- Any number of clients is connected at a time, on the lowest descriptors from 4 on. -/
theorem connects_many (n : ℕ) :
    ∃ ls x, Run WatchedServer.Step .init ls x ∧ x.tcpServer.gone = false ∧
      x.tcpServer.listening = true ∧ x.tcpServer.server.objects.length = n ∧
      (∀ fd, held x.tcpServer.descriptors fd = true → fd < 4 + n) ∧
      ∀ k < n, x.tcpServer.server.watched k = [4 + (k : ℤ)] := by
  induction n with
  | zero =>
    refine ⟨_, _, .single (.move ⟨rfl, .start false (.listens 3) (fresh_listens ⟨by decide, rfl⟩)⟩),
      rfl, rfl, rfl, fun fd hfd => ?_, nofun⟩
    have hfirst : fd = 3 := (held_acquired_iff.mp hfd).resolve_right nofun
    omega
  | succ n ih =>
    obtain ⟨ls, x, hrun, hgone, hlistening, hlength, hheld, hwatched⟩ := ih
    have hfresh : x.tcpServer.Fresh (4 + n) := by
      refine ⟨by omega, ?_⟩
      rw [← Bool.not_eq_true]
      exact fun hfd => absurd (hheld _ hfd) (lt_irrefl _)
    refine ⟨_, _, hrun.snoc (.move ⟨hgone, .acceptClient (4 + n) "" hlistening hfresh⟩), hgone,
      hlistening, ?_, fun fd hfd => ?_, fun k hk => ?_⟩
    · show (x.tcpServer.server.objects ++ [_]).length = n + 1
      rw [List.length_append, hlength]
      rfl
    · rcases held_acquired_iff.mp hfd with hnew | hold
      · omega
      · have hlt := hheld fd hold
        omega
    · show (x.tcpServer.server.addClient (4 + n) "").watched k = _
      by_cases hlast : k = x.tcpServer.server.objects.length
      · rw [hlast, watched_addClient_self, hlength]
      · rw [watched_addClient_ne hlast]
        exact hwatched k (by omega)

/-- With 1021 clients at a time the last one has descriptor 1024, and its receive loop passes
    that to `FD_SET`. -/
theorem fdSet_out_of_range :
    ¬ ∀ ls x, Run WatchedServer.Step .init ls x → ∀ fd ∈ x.fdSet, InFdSet fd := by
  intro h
  obtain ⟨ls, x, hrun, hgone, -, -, -, hwatched⟩ := connects_many 1021
  have hround := hrun.snoc (.receiveTask 1020 hgone)
  have hlast : 1024 ∈ x.tcpServer.server.watched 1020 := by
    rw [hwatched 1020 (by decide)]
    exact List.mem_singleton_self _
  have hlimit := (h _ _ hround 1024 (List.mem_append_left _ hlast)).2
  exact absurd hlimit (by decide)

end TCPServer
