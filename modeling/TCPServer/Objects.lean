/-
  Which `Client` objects exist and which of them are connected, under the operations on them.

  `Server.Alive` objects were created and not deleted. Deleting, creating and disconnecting
  are given by what they do to `Alive` and to `Server.isConnected`, one lemma each.
-/
import TCPServer.Lists

namespace TCPServer

section Entries

variable {α : Type} {l : List α} {i j : ℕ} {a b : α}

theorem lt_of_getElem? (h : l[i]? = some a) : i < l.length := by
  obtain ⟨hlt, -⟩ := List.getElem?_eq_some_iff.mp h
  exact hlt

/-- Equal entries of a list without duplicates have the same place. -/
theorem nodup_getElem?_inj (hl : l.Nodup) (hi : l[i]? = some a) (hj : l[j]? = some a) :
    i = j :=
  (List.getElem?_inj (lt_of_getElem? hi) hl).mp (hi.trans hj.symm)

/-- An entry stays where it is when others are added at the end. -/
theorem getElem?_append_of_some (h : l[i]? = some a) (l' : List α) :
    (l ++ l')[i]? = some a := by
  rw [List.getElem?_append_left (lt_of_getElem? h), h]

/-- A push changes one place only. -/
theorem getElem?_concat_ne (h : i ≠ l.length) : (l ++ [a])[i]? = l[i]? := by
  by_cases hlt : i < l.length
  · exact List.getElem?_append_left hlt
  · have hge : l.length < i := by omega
    rw [List.getElem?_eq_none (Nat.le_of_lt hge), List.getElem?_eq_none]
    rw [List.length_append, List.length_singleton]
    exact hge

/-- After a push, an entry is an old one or the new one. -/
theorem getElem?_concat_cases (h : (l ++ [a])[i]? = some b) :
    l[i]? = some b ∨ i = l.length ∧ b = a := by
  by_cases hlt : i < l.length
  · rw [List.getElem?_append_left hlt] at h
    exact .inl h
  · have hle := lt_of_getElem? h
    rw [List.length_append, List.length_singleton] at hle
    have hi : i = l.length := by omega
    subst hi
    rw [List.getElem?_concat_length] at h
    exact .inr ⟨rfl, (Option.some.inj h).symm⟩

end Entries

/-- The object exists: it was created and not deleted. -/
def Server.Alive (s : Server) (o : ClientPtr) : Prop := ∃ c, s.object o = .ok c

theorem Server.SameClients.alive {s s' : Server} (h : s.SameClients s') {o : ClientPtr}
    (ho : s.Alive o) : s'.Alive o := by
  obtain ⟨c, hc⟩ := ho
  obtain ⟨c', hc', -⟩ := h.object hc
  exact ⟨c', hc'⟩

theorem length_objects_of_fixed {s s' : Server} (h : s.SameClients s') :
    s'.objects.length = s.objects.length := by
  have := congrArg List.length h.objects
  simpa using this

theorem lt_of_object {s : Server} {o : ClientPtr} {c : Client} (h : s.object o = .ok c) :
    o < s.objects.length :=
  (List.getElem?_eq_some_iff.mp (object_ok_iff.mp h).1).1

theorem alive_lt {s : Server} {o : ClientPtr} (h : s.Alive o) : o < s.objects.length := by
  obtain ⟨c, hc⟩ := h
  exact lt_of_object hc

/-- A deleted object no longer exists; the others do as before. -/
theorem alive_delete_iff {s : Server} {o o' : ClientPtr} :
    (s.setObject o fun c => { c with deleted := true }).Alive o' ↔ s.Alive o' ∧ o' ≠ o := by
  unfold Server.Alive
  simp only [object_ok_iff]
  by_cases ho : o' = o
  · subst ho
    cases hget : s.objects[o']? with
    | none => simp [Server.setObject, hget]
    | some c => simp [objects_setObject_self hget]
  · simp [objects_setObject_ne ho, ho]

/-- A new object is added to those that exist. -/
theorem alive_new_iff {s : Server} {c : Client} (hc : c.deleted = false) {o : ClientPtr} :
    ({ s with objects := s.objects ++ [c] } : Server).Alive o ↔
      s.Alive o ∨ o = s.objects.length := by
  unfold Server.Alive
  simp only [object_ok_iff]
  by_cases ho : o = s.objects.length
  · subst ho
    simp [hc]
  · simp [getElem?_concat_ne ho, ho]

theorem alive_addClient_iff {s : Server} (fileDescriptor : ℤ) (ip : String) {o : ClientPtr} :
    (s.addClient fileDescriptor ip).Alive o ↔ s.Alive o ∨ o = s.objects.length :=
  alive_new_iff (c := ⟨fileDescriptor, ip, true, none, false⟩) rfl

/-- Changing an object in place keeps it, unless it is deleted. -/
theorem alive_setObject_iff {s : Server} (o : ClientPtr) (f : Client → Client)
    (hf : ∀ c, (f c).deleted = c.deleted) (o' : ClientPtr) :
    (s.setObject o f).Alive o' ↔ s.Alive o' := by
  unfold Server.Alive
  simp only [object_ok_iff]
  rcases objects_setObject_cases s o f o' with h | ⟨c, hget, h⟩
  · rw [h]
  · rw [h, hget]
    simp only [Option.some.injEq, exists_eq_left', hf]

/-! ## The connected flag -/

theorem isConnected_setObject_of_eq {s : Server} (o : ClientPtr) (f : Client → Client)
    (hf : ∀ c, (f c).isConnected = c.isConnected) (o' : ClientPtr) :
    (s.setObject o f).isConnected o' = s.isConnected o' := by
  unfold Server.isConnected
  rcases objects_setObject_cases s o f o' with h | ⟨c, hget, h⟩
  · rw [h]
  · rw [h, hget]
    exact hf c

theorem isConnected_setObject_ne {s : Server} {o o' : ClientPtr} (ho : o' ≠ o)
    (f : Client → Client) : (s.setObject o f).isConnected o' = s.isConnected o' := by
  unfold Server.isConnected
  rw [objects_setObject_ne ho]

theorem Server.SameClients.isConnected {s s' : Server} (h : s.SameClients s') (o : ClientPtr) :
    s'.isConnected o = s.isConnected o := by
  unfold Server.isConnected
  obtain ⟨hget, hget'⟩ | ⟨c, c', hget, hget', hfix⟩ := h.object_cases o
  · rw [hget, hget']
  · rw [hget, hget']
    exact Client.isConnected_of_fixed hfix

theorem isConnected_clear_self {s : Server} {o : ClientPtr} :
    (s.setObject o fun c => { c with isConnected := false }).isConnected o = false := by
  unfold Server.isConnected
  cases hget : s.objects[o]? with
  | none => simp [Server.setObject, hget]
  | some c => simp [objects_setObject_self hget]

theorem isConnected_new_of_lt {s : Server} {c : Client} {o : ClientPtr}
    (ho : o < s.objects.length) :
    ({ s with objects := s.objects ++ [c] } : Server).isConnected o = s.isConnected o := by
  unfold Server.isConnected
  rw [List.getElem?_append_left ho]

theorem isConnected_new_self {s : Server} {c : Client} :
    ({ s with objects := s.objects ++ [c] } : Server).isConnected s.objects.length =
      c.isConnected := by
  unfold Server.isConnected
  rw [List.getElem?_concat_length]

theorem isConnected_of_ge {s : Server} {o : ClientPtr} (ho : s.objects.length ≤ o) :
    s.isConnected o = false := by
  unfold Server.isConnected
  rw [List.getElem?_eq_none ho]

end TCPServer
