/-
  The descriptors of the listed clients.

  Nothing but `new Client` sets the descriptor of a client. `::accept` gives none that is open,
  so it is not that of a listed client (`FreshAccept`), and the listed clients have different
  descriptors (`reaches_distinctSockets`).
-/
import TCPServer.Machine

namespace TCPServer

open Runs

/-- The descriptor of a client. -/
def Server.fd (s : Server) (o : ClientPtr) : ℤ :=
  match s.objects[o]? with
  | some c => c.sockfd
  | none => -1

/-- The listed clients have different descriptors. -/
def Server.DistinctSockets (s : Server) : Prop := (s.clients.map s.fd).Nodup

instance : DecidablePred Server.DistinctSockets :=
  fun s => inferInstanceAs (Decidable (s.clients.map s.fd).Nodup)

/-- The descriptor of an accepted client is not that of a listed one. -/
def FreshAccept (s : Server) (_ : Op) (s' : Server) : Prop :=
  ∀ fileDescriptor ip, s' = s.addClient fileDescriptor ip → fileDescriptor ∉ s.clients.map s.fd

/-! ## Descriptors of clients -/

section Fd

variable {s : Server} {o : ClientPtr}

theorem fd_of_object {c : Client} (h : s.object o = .ok c) : s.fd o = c.sockfd := by
  unfold Server.fd
  rw [(object_ok_iff.mp h).1]

theorem fd_setObject (o : ClientPtr) (f : Client → Client)
    (hf : ∀ c, (f c).sockfd = c.sockfd) (o' : ClientPtr) : (s.setObject o f).fd o' = s.fd o' := by
  unfold Server.fd
  rcases objects_setObject_cases s o f o' with h | ⟨c, hget, h⟩
  · rw [h]
  · rw [h, hget]
    exact hf c

theorem fd_disconnect (client o : ClientPtr) : (s.disconnect client).fd o = s.fd o := by
  unfold Server.disconnect
  split
  · split
    · exact fd_setObject client (fun c => { c with isConnected := false }) (fun _ => rfl) o
    · rfl
  · rfl

theorem length_disconnect (client : ClientPtr) :
    (s.disconnect client).objects.length = s.objects.length := by
  unfold Server.disconnect
  split
  · split
    · exact List.length_modify _ _ _
    · rfl
  · rfl

theorem fd_addClient_of_lt {fd : ℤ} {ip : String} (ho : o < s.objects.length) :
    (s.addClient fd ip).fd o = s.fd o := by
  unfold Server.fd Server.addClient
  rw [List.getElem?_append_left ho]

theorem fd_addClient_self {fd : ℤ} {ip : String} :
    (s.addClient fd ip).fd s.objects.length = fd := by
  unfold Server.fd Server.addClient
  rw [List.getElem?_concat_length]

theorem fd_erase (i : ℕ) (o : ClientPtr) (sockfd : ℤ) (o' : ClientPtr) :
    (s.erase i o sockfd).fd o' = s.fd o' :=
  fd_setObject o (fun c => { c with deleted := true }) (fun _ => rfl) o'

end Fd

/-! ## Every step keeps them different -/

section Distinct

variable {s s' : Server}

theorem Server.SameClients.fd (h : s.SameClients s') : s'.fd = s.fd := by
  funext o
  unfold Server.fd
  obtain ⟨hget, hget'⟩ | ⟨c, c', hget, hget', hfix⟩ := h.object_cases o
  · rw [hget, hget']
  · rw [hget, hget']
    exact Client.sockfd_of_fixed hfix

theorem Server.SameClients.distinctSockets (h : s.SameClients s') (hs : s.DistinctSockets) :
    s'.DistinctSockets := by
  unfold Server.DistinctSockets
  rw [h.clients, h.fd]
  exact hs

/-- A descriptor that no listed client has comes to those of the listed ones. -/
theorem Server.DistinctSockets.addClient (hs : s.DistinctSockets)
    (hlt : ∀ o ∈ s.clients, o < s.objects.length) {fileDescriptor : ℤ} {ip : String}
    (hfresh : fileDescriptor ∉ s.clients.map s.fd) :
    (s.addClient fileDescriptor ip).DistinctSockets := by
  have hold : s.clients.map (s.addClient fileDescriptor ip).fd = s.clients.map s.fd :=
    List.map_congr_left fun o ho => fd_addClient_of_lt (hlt o ho)
  unfold Server.DistinctSockets
  show ((s.clients ++ [s.objects.length]).map _).Nodup
  rw [List.map_append, List.map_singleton, hold, fd_addClient_self, ← List.concat_eq_append]
  exact .concat hfresh hs

theorem Server.DistinctSockets.disconnect (hs : s.DistinctSockets) (o : ClientPtr) :
    (s.disconnect o).DistinctSockets := by
  have hfd : (s.disconnect o).fd = s.fd := funext fun o' => fd_disconnect o o'
  unfold Server.DistinctSockets
  rw [disconnect_clients, hfd]
  exact hs

theorem Server.Removal.distinctSockets (h : s.Removal s') (hs : s.DistinctSockets) :
    s'.DistinctSockets := by
  obtain ⟨i, o, c, -, -, -, rfl⟩ := h
  have hfd : (s.erase i o c.sockfd).fd = s.fd := funext fun o' => fd_erase i o c.sockfd o'
  unfold Server.DistinctSockets
  rw [hfd]
  exact hs.sublist ((List.eraseIdx_sublist s.clients i).map s.fd)

theorem step_distinctSockets {op : Op} (hi : s.Inv) (hs : s.DistinctSockets)
    (h : s.Step op s') (hfresh : FreshAccept s op s') : s'.DistinctSockets := by
  cases step_effect hi.separate h with
  | same _ => exact hs
  | accepts fileDescriptor ip _ =>
    refine hs.addClient (fun o ho => ?_) (hfresh fileDescriptor ip rfl)
    obtain ⟨c, hc⟩ := hi.listed ho
    exact lt_of_object hc
  | disconnects o _ => exact hs.disconnect o
  | sweeps _ hsweep => exact sweep_keeps (fun _ _ ht hrem => hrem.distinctSockets ht) hsweep hs
  | gives _ hg => exact hg.relists.same.distinctSockets hs
  | sorts _ _ hr _ _ => exact hr.same.distinctSockets hs

theorem reaches_distinctSockets {sockfd : ℤ}
    (h : Reaches (Along Server.Step FreshAccept) (.init sockfd) s) :
    s.Inv ∧ s.DistinctSockets := by
  obtain ⟨ops, hrun⟩ := h
  exact hrun.invariant (I := fun s => s.Inv ∧ s.DistinctSockets)
    (fun _ _ _ hs h => ⟨step_inv hs.1 h.1, step_distinctSockets hs.1 hs.2 h.1 h.2⟩)
    ⟨inv_init sockfd, List.nodup_nil⟩

/-- Listed clients with one descriptor are one client. -/
theorem fd_inj (hs : s.DistinctSockets) {o o' : ClientPtr} (ho : o ∈ s.clients)
    (ho' : o' ∈ s.clients) (heq : s.fd o = s.fd o') : o = o' :=
  List.inj_on_of_nodup_map hs ho ho' heq

end Distinct

end TCPServer
