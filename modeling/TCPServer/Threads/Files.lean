/-
  The files of the server.

  A file holds a list of numbers joined with arrows, and the numbers can be read back from it
  (`readNumbers_joined`). Whatever the threads do, every file they have written holds different
  numbers that are all in the list of one client (`written_held`). Where operations are taken
  one after another, the file of a client that is still at the index of its creation holds
  exactly its list, in ascending order, and none is written as long as the list is empty
  (`Server.Coherent`, `atomic_coherent`); with `represents_of_run` this is so for the threads as
  well, whenever none of them is in the middle of an operation (`written_coherent`).

  `Disk` adds the files of earlier runs, which bear the same names, and opening a file, which
  empties it. A file that no handler is writing is what this run has written last, or else what
  it was at the start (`Disk.Agrees`, `agrees_step`): `threads_files_held`,
  `threads_files_coherent`.

  Left out: files that cannot be opened or written.
-/
import TCPServer.Threads.Linearization
import TCPServer.Threads.Numbers

namespace TCPServer

open Runs
open Decimal (isDigit text)

/-! ## The text of a list -/

/-- The numbers in a file: what `stoi` reads of the pieces between the bytes `>`. -/
def readNumbers (text : Bytes) : Exec (List CInt) := (text.splitOn 62).mapM stoi

theorem gt_not_mem_to_string (n : ℤ) : (62 : UInt8) ∉ to_string n := by
  have hdigit : ∀ m, (62 : UInt8) ∉ text m := fun m hm =>
    absurd (Decimal.isDigit_of_mem_text hm) (by decide)
  unfold to_string
  split
  · exact fun h => (List.mem_cons.mp h).elim (by decide) (hdigit _)
  · exact hdigit _

theorem readNumbers_joined {is : List CInt} (hne : is ≠ []) :
    readNumbers (joined (is.map CInt.val)) = .ok is := by
  induction is with
  | nil => exact absurd rfl hne
  | cons i is ih =>
    cases is with
    | nil =>
      rw [List.map_singleton, joined_singleton, readNumbers,
        List.splitOn_eq_singleton (gt_not_mem_to_string _), List.mapM_cons, stoi_to_string]
      rfl
    | cons j is =>
      have hrest := ih (List.cons_ne_nil _ _)
      have htext : joined ((i :: j :: is).map CInt.val) =
          (to_string i.val ++ [45]) ++ 62 :: joined ((j :: is).map CInt.val) := by
        rw [List.map_cons, List.map_cons, joined_cons_cons, List.append_assoc, List.append_assoc]
        rfl
      have hpiece : (62 : UInt8) ∉ to_string i.val ++ [45] := by
        simp [gt_not_mem_to_string]
      unfold readNumbers at hrest ⊢
      rw [htext, List.splitOn_append_cons_self_of_not_mem hpiece, List.mapM_cons,
        stoi_to_string_append i (by decide), ok_bind, hrest]
      rfl

/-! ## The files in every state -/

/-- What a step does with lists and files: nothing, or a handler takes it. -/
theorem step_does {s s' : Sys} (hs : s.Inv) {a : Act} (h : s.Step a s') :
    (s.server.SameLists s'.server ∧ s'.server.files = s.server.files) ∨
      ∃ o h h' rand, s.receivers o = .handling h ∧ h.Does s.server rand h' s'.server := by
  cases a with
  | acceptor fileDescriptor ip =>
    left
    cases acceptor_step h with
    | accepts fileDescriptor ip _ =>
      exact ⟨⟨rfl, (sameLists_addClient s.server fileDescriptor ip).headOf⟩, rfl⟩
    | _ => exact ⟨⟨rfl, rfl⟩, rfl⟩
  | remover closeRet =>
    left
    cases remover_step h with
    | @deletes i client _ =>
      exact ⟨sameLists_setObject s.server client (fun c => { c with deleted := true })
        fun _ => rfl, rfl⟩
    | _ => exact ⟨⟨rfl, rfl⟩, rfl⟩
  | receiver o event rand r =>
    cases receiver_step_effect h with
    | handles ho hret hstep =>
      exact .inr ⟨o, _, _, _, ho, handlerStep_does hs.separate hret hstep⟩
    | disconnects _ =>
      exact .inl ⟨sameLists_setObject s.server o (fun c => { c with isConnected := false })
        fun _ => rfl, rfl⟩
    | _ => exact .inl ⟨⟨rfl, rfl⟩, rfl⟩

/-- Every file was written for an index, and its numbers are in the list of one client. -/
def Server.FilesHeld (s : Server) : Prop :=
  ∀ f text, s.files f = some text → (∃ ID, f = clientFileName ID) ∧
    ∃ o l, l ≠ [] ∧ text = joined l ∧ l.Subperm (s.listOf o)

/-- No list loses a number, and no file changes. -/
theorem Server.FilesHeld.keep {s s' : Server} (hs : s.FilesHeld) (hfiles : s'.files = s.files)
    (hlists : ∀ o, (s.listOf o).Subperm (s'.listOf o)) : s'.FilesHeld := by
  intro f text hf
  rw [hfiles] at hf
  obtain ⟨hname, o, l, hne, htext, hsub⟩ := hs f text hf
  exact ⟨hname, o, l, hne, htext, hsub.trans (hlists o)⟩

theorem Server.FilesHeld.relist {s s' : Server} (hs : s.FilesHeld) {o : ClientPtr} {l : List ℤ}
    (hrel : s.Relists s' o l) (hfiles : s'.files = s.files) (hl : (s.listOf o).Subperm l) :
    s'.FilesHeld := by
  refine hs.keep hfiles fun o' => ?_
  by_cases ho : o' = o
  · subst ho
    rw [hrel.listOf]
    exact hl
  · rw [hrel.listOf_ne ho]

theorem filesHeld_does {s s' : Server} (hs : s.FilesHeld) {h h' : HandlerPc} {rand : ℕ}
    (hdoes : h.Does s rand h' s') : s'.FilesHeld := by
  cases hdoes with
  | moves _ _ => exact hs
  | draws _ _ _ hrel _ hfiles _ =>
    exact hs.relist hrel hfiles (List.sublist_append_left _ _).subperm
  | @writes h' ID client _ _ _ hne =>
    intro f text hf
    by_cases hname : f = clientFileName ID
    · subst hname
      have hf' : Function.update s.files (clientFileName ID) (some (joined (s.listOf client)))
          (clientFileName ID) = some text := hf
      rw [Function.update_self] at hf'
      exact ⟨⟨ID, rfl⟩, client, s.listOf client, hne, (Option.some.inj hf').symm, .refl _⟩
    · exact hs f text ((Function.update_of_ne hname _ _).symm.trans hf)
  | sorts _ _ _ hrel hperm _ hfiles _ => exact hs.relist hrel hfiles hperm.symm.subperm
  | replies _ _ => exact hs

theorem filesHeld_step {s s' : Sys} (hinv : s.Inv) (hs : s.server.FilesHeld) {a : Act}
    (h : s.Step a s') : s'.server.FilesHeld := by
  rcases step_does hinv h with ⟨hlists, hfiles⟩ | ⟨o, hd, hd', rand, -, hdoes⟩
  · refine hs.keep hfiles fun o => ?_
    rw [hlists.listOf]
  · exact filesHeld_does hs hdoes

theorem sys_reachable_filesHeld {s : Sys} (h : s.Reachable) : s.server.FilesHeld := by
  obtain ⟨sockfd, acts, hrun⟩ := h
  refine (hrun.invariant (I := fun s => s.Inv ∧ s.server.FilesHeld) (fun s a s' hs hstep => ?_)
    ⟨sys_init_inv sockfd, fun f text hf => by cases hf⟩).2
  exact ⟨sys_step_inv hs.1 hstep, filesHeld_step hs.1 hs.2 hstep⟩

theorem exists_cints {l : List ℤ} (h : ∀ n ∈ l, InRange n) :
    ∃ is : List CInt, is.map CInt.val = l := by
  induction l with
  | nil => exact ⟨[], rfl⟩
  | cons n l ih =>
    obtain ⟨is, his⟩ := ih fun m hm => h m (List.mem_cons_of_mem n hm)
    obtain ⟨h0, h99⟩ := h n List.mem_cons_self
    exact ⟨⟨n, by omega, by omega⟩ :: is, by rw [List.map_cons, his]⟩

/-- The list of a client is one of all lists, or empty. -/
theorem listOf_sublist (s : Server) (o : ClientPtr) :
    (s.listOf o).Sublist s.allLists.flatten := by
  by_cases ho : o < s.objects.length
  · refine List.sublist_flatten_of_mem (List.mem_map.mpr ⟨o, List.mem_range.mpr ho, rfl⟩)
  · have hnone : s.headOf o = none := by
      unfold Server.headOf
      rw [List.getElem?_eq_none (Nat.le_of_not_lt ho)]
      rfl
    unfold Server.listOf
    rw [hnone, LinkedStore.listFrom_none]
    exact List.nil_sublist _

/-- Whatever the threads do, every file they have written was written for an index, and the numbers
    read from it are one or more different numbers drawn, all in the list of one client. -/
theorem written_held {s : Sys} (h : s.Reachable) {f text : Bytes}
    (hf : s.server.files f = some text) :
    ∃ (ID : CInt) (ns : List CInt) (o : ClientPtr), f = clientFileName ID ∧
      readNumbers text = .ok ns ∧ ns ≠ [] ∧ ns.Nodup ∧
      (∀ n ∈ ns, n.val ∈ s.server.numbers) ∧ (ns.map CInt.val).Subperm (s.server.listOf o) := by
  obtain ⟨⟨ID, hname⟩, o, l, hne, rfl, hsub⟩ := sys_reachable_filesHeld h f text hf
  obtain ⟨hnd, hall, hperm⟩ := (sys_reachable_once h).balanced
  have hperm' : s.server.numbers.Perm s.server.allLists.flatten := by
    simpa [Ledgers.Ledger.total, Server.accounts] using hperm
  have hdrawn : ∀ n ∈ s.server.listOf o, n ∈ s.server.numbers := fun n hn =>
    hperm'.mem_iff.mpr ((listOf_sublist s.server o).subset hn)
  have hnodup : (s.server.listOf o).Nodup :=
    (hperm'.nodup_iff.mp hnd).sublist (listOf_sublist s.server o)
  obtain ⟨ns, rfl⟩ := exists_cints fun n hn => hall n (hdrawn n (hsub.subset hn))
  have hns : ns ≠ [] := by
    rintro rfl
    exact hne rfl
  refine ⟨ID, ns, o, hname, readNumbers_joined hns, hns, ?_, fun n hn => ?_, hsub⟩
  · obtain ⟨l', hl', hsubl⟩ := hsub
    exact (hl'.nodup_iff.mp (hnodup.sublist hsubl)).of_map
  · exact hdrawn _ (hsub.subset (List.mem_map_of_mem hn))

/-! ## The files, one operation after another -/

/-- A client that is still at the index of its creation has its list, ascending, in the file of
    this index, and no file while its list is empty. -/
structure Server.Coherent (s : Server) : Prop where
  unused : ∀ ID : CInt, (s.objects.length : ℤ) ≤ ID.val → s.files (clientFileName ID) = none
  sorted : ∀ ID : CInt, 0 ≤ ID.val → s.clients[ID.val.toNat]? = some ID.val.toNat →
    (s.listOf ID.val.toNat).Pairwise (· ≤ ·)
  files : ∀ ID : CInt, 0 ≤ ID.val → s.clients[ID.val.toNat]? = some ID.val.toNat →
    s.files (clientFileName ID) =
      if s.listOf ID.val.toNat = [] then none else some (joined (s.listOf ID.val.toNat))

theorem coherent_init (sockfd : ℤ) : (Server.init sockfd).Coherent :=
  ⟨fun _ _ => rfl, fun _ _ h => (by cases h), fun _ _ h => (by cases h)⟩

/-- In an ascending list no entry is smaller than its place. -/
theorem le_of_ascending {l : List ℕ} (hl : l.Pairwise (· < ·)) {k v : ℕ} (hk : l[k]? = some v) :
    k ≤ v := by
  induction k generalizing v with
  | zero => exact Nat.zero_le v
  | succ k ih =>
    obtain ⟨hlt, hv⟩ := List.getElem?_eq_some_iff.mp hk
    have hprev := ih (List.getElem?_eq_getElem (Nat.lt_of_succ_lt hlt))
    have hstep := List.pairwise_iff_getElem.mp hl k (k + 1) (Nat.lt_of_succ_lt hlt) hlt
      (Nat.lt_succ_self k)
    omega

/-- A client that is at the index of its creation after an operation was there before it. -/
theorem Server.Coherent.keep {s s' : Server} (hs : s.Coherent)
    (hlen : s.objects.length ≤ s'.objects.length) (hfiles : s'.files = s.files)
    (hlists : s.SameLists s')
    (hclients : ∀ k : ℕ, s'.clients[k]? = some k → s.clients[k]? = some k) : s'.Coherent where
  unused ID hID := by
    rw [hfiles]
    exact hs.unused ID (by omega)
  sorted ID h0 hget := by
    rw [hlists.listOf]
    exact hs.sorted ID h0 (hclients _ hget)
  files ID h0 hget := by
    rw [hlists.listOf, hfiles]
    exact hs.files ID h0 (hclients _ hget)

theorem disconnect_data (s : Server) (o : ClientPtr) :
    (s.disconnect o).objects.length = s.objects.length ∧ (s.disconnect o).files = s.files := by
  unfold Server.disconnect
  split
  · split
    · exact ⟨List.length_modify _ _ _, rfl⟩
    · exact ⟨rfl, rfl⟩
  · exact ⟨rfl, rfl⟩

theorem coherent_addClient {s : Server} (hs : s.Coherent) (fileDescriptor : ℤ) (ip : String) :
    (s.addClient fileDescriptor ip).Coherent := by
  have hlists := sameLists_addClient s fileDescriptor ip
  have hlen : (s.addClient fileDescriptor ip).objects.length = s.objects.length + 1 := by
    simp [Server.addClient]
  -- The new client is at the index of its creation only if no client was ever removed.
  have hnew : ∀ ID : CInt, 0 ≤ ID.val → (s.addClient fileDescriptor ip).clients[ID.val.toNat]? =
      some ID.val.toNat → s.clients[ID.val.toNat]? = some ID.val.toNat ∨
        (s.objects.length : ℤ) = ID.val := by
    intro ID h0 hget
    rcases getElem?_concat_cases hget with hget | ⟨-, heq⟩
    · exact .inl hget
    · have hlast : ID.val.toNat = s.objects.length := heq
      exact .inr (by omega)
  have hempty : s.listOf s.objects.length = [] := by
    unfold Server.listOf Server.headOf
    rw [List.getElem?_eq_none (Nat.le_refl _)]
    exact LinkedStore.listFrom_none _
  refine ⟨fun ID hID => hs.unused ID (by omega), fun ID h0 hget => ?_, fun ID h0 hget => ?_⟩
  · rw [hlists.listOf]
    rcases hnew ID h0 hget with hold | heq
    · exact hs.sorted ID h0 hold
    · rw [show ID.val.toNat = s.objects.length by omega, hempty]
      exact List.Pairwise.nil
  · rw [hlists.listOf]
    rcases hnew ID h0 hget with hold | heq
    · exact hs.files ID h0 hold
    · rw [show ID.val.toNat = s.objects.length by omega, hempty]
      exact hs.unused ID (by omega)

theorem coherent_removal {s s' : Server} (hinv : s.Inv) (hs : s.Coherent) (h : s.Removal s') :
    s'.Coherent := by
  have hlists := h.sameLists
  obtain ⟨i, o, c, hget, -, -, rfl⟩ := h
  refine hs.keep (Nat.le_of_eq (List.length_modify _ _ _).symm) rfl hlists fun k hk => ?_
  have hk' : (s.clients.eraseIdx i)[k]? = some k := hk
  by_cases hlt : k < i
  · rw [List.getElem?_eraseIdx_of_lt hlt] at hk'
    exact hk'
  · rw [List.getElem?_eraseIdx_of_ge (Nat.le_of_not_lt hlt)] at hk'
    exact absurd (le_of_ascending hinv.ascending hk') (by omega)

theorem coherent_serves {s s' : Server} (hinv : s.Inv) (hs : s.Coherent) {ID : CInt}
    {o : ClientPtr} {n : ℤ} {l : List ℤ} (hat : s.at ID = .ok o) (h : s.Serves s' ID o n l) :
    s'.Coherent := by
  obtain ⟨h0, hget⟩ := at_ok_iff.mp hat
  have hbelow : ID.val.toNat < s.objects.length := by
    obtain ⟨c, hc⟩ := hinv.listed (List.mem_of_getElem? hget)
    exact Nat.lt_of_le_of_lt (le_of_ascending hinv.ascending hget) (lt_of_object hc)
  have hlen := length_objects_of_fixed h.relists.same
  have hne : l ≠ [] := by
    rintro rfl
    exact absurd h.perm.symm.eq_nil (by simp)
  -- The file of another index stays.
  have hother : ∀ ID' : CInt, 0 ≤ ID'.val → ID' ≠ ID →
      s'.files (clientFileName ID') = s.files (clientFileName ID') := by
    intro ID' h0' hID'
    rw [h.files]
    exact Function.update_of_ne (fun heq => hID' (clientFileName_injective h0' h0 heq)) _ _
  have hself : ∀ ID' : CInt, 0 ≤ ID'.val → s.clients[ID'.val.toNat]? = some ID'.val.toNat →
      ID' ≠ ID → s'.listOf ID'.val.toNat = s.listOf ID'.val.toNat := by
    intro ID' h0' hget' hID'
    refine h.relists.listOf_ne fun heq => hID' (CInt.ext ?_)
    have hplace : ID'.val.toNat = ID.val.toNat :=
      nodup_getElem?_inj hinv.nodup (hget'.trans (congrArg some heq)) hget
    omega
  refine ⟨fun ID' hID' => ?_, fun ID' h0' hget' => ?_, fun ID' h0' hget' => ?_⟩
  · rw [hother ID' (by omega) (by rintro rfl; omega)]
    exact hs.unused ID' (by omega)
  · rw [h.relists.same.clients] at hget'
    by_cases hID : ID' = ID
    · subst hID
      cases hget.symm.trans hget'
      rw [h.relists.listOf]
      exact h.sorted
    · rw [hself ID' h0' hget' hID]
      exact hs.sorted ID' h0' hget'
  · rw [h.relists.same.clients] at hget'
    by_cases hID : ID' = ID
    · subst hID
      cases hget.symm.trans hget'
      rw [h.relists.listOf, if_neg hne, h.files]
      exact Function.update_self _ _ _
    · rw [hself ID' h0' hget' hID, hother ID' h0' hID]
      exact hs.files ID' h0' hget'

theorem atomic_coherent {s s' : Server} (hinv : s.Inv) (hs : s.Coherent) {op : AtomicOp}
    (h : s.Atomic op s') : s'.Coherent := by
  cases h with
  | acceptClient fileDescriptor ip => exact coherent_addClient hs fileDescriptor ip
  | disconnect client =>
    obtain ⟨hlen, hfiles⟩ := disconnect_data s client
    refine hs.keep (Nat.le_of_eq hlen.symm) hfiles (sameLists_disconnect s client) fun k hk => ?_
    rw [disconnect_clients] at hk
    exact hk
  | remove hrem => exact coherent_removal hinv hs hrem
  | onIncomingMsg1 hok =>
    obtain ⟨ID, o, c, n, l, -, hat, -, -, hserve⟩ := onIncomingMsg1_ok hinv.separate hok
    exact coherent_serves hinv hs hat hserve

/-- As long as the remover erases nothing that the running handler still needs: when no thread is
    in the middle of an operation, the list of a client that is still at the index of its
    creation is ascending, and it was written last under this index, if it is not empty. -/
theorem written_coherent {sockfd : ℤ} {s : Sys} {acts : List Act}
    (hrun : Run (Along Sys.Step fun s _ _ => s.AllSteady) (.init sockfd) acts s)
    (hquiet : s.Quiet) {ID : CInt} (h0 : 0 ≤ ID.val)
    (hget : s.server.clients[ID.val.toNat]? = some ID.val.toNat) :
    (s.server.listOf ID.val.toNat).Pairwise (· ≤ ·) ∧
      s.server.files (clientFileName ID) =
        if s.server.listOf ID.val.toNat = [] then none
        else some (joined (s.server.listOf ID.val.toNat)) := by
  obtain ⟨a, ⟨ops, hops⟩, hrep⟩ := represents_of_run hrun
  have hs := sys_reachable_inv ⟨sockfd, acts, hrun.of_along⟩
  rw [hrep.quiet hs hquiet] at hget ⊢
  obtain ⟨-, hcoherent⟩ := hops.invariant (I := fun s => s.Inv ∧ s.Coherent)
    (fun _ _ _ hs hop => ⟨atomic_inv hs.1 hop, atomic_coherent hs.1 hs.2 hop⟩)
    ⟨inv_init sockfd, coherent_init sockfd⟩
  exact ⟨hcoherent.sorted ID h0 hget, hcoherent.files ID h0 hget⟩

/-! ## The files on disk -/

/-- The file that the receive thread of `o` opens, writes and closes in its next step. -/
def Sys.file (s : Sys) (o : ClientPtr) : Option Bytes :=
  match s.receivers o with
  | .handling h => h.file
  | _ => none

def Sys.fileOf (s : Sys) : Act → Option Bytes
  | .receiver o _ _ _ => s.file o
  | _ => none

/-- The threads, and all files there are. -/
structure Disk where
  sys : Sys
  files : Bytes → Option Bytes

/-- The server starts. The files are those of earlier runs. -/
def Disk.init (sockfd : ℤ) (files : Bytes → Option Bytes) : Disk := ⟨.init sockfd, files⟩

inductive DiskAct where
  /-- The receive thread has opened its file, which empties it, and has written some of it. -/
  | opened (client : ClientPtr) (text : Bytes)
  | act (a : Act)

def Disk.step (d : Disk) : DiskAct → Option Disk
  | .opened o text =>
    if d.sys.fault.isSome then none
    else (d.sys.file o).map fun f => { d with files := Function.update d.files f (some text) }
  | .act a =>
    (d.sys.step a).map fun s =>
      match d.sys.fileOf a with
      -- A handler that fails before it has closed its file leaves it as it is.
      | some f => if s.fault.isSome then ⟨s, d.files⟩
          else ⟨s, Function.update d.files f (s.server.files f)⟩
      | none => ⟨s, d.files⟩

abbrev Disk.Step (d : Disk) (a : DiskAct) (d' : Disk) : Prop := d.step a = some d'

/-! ## What a step does with a file -/

theorem file_of_not_holds {s : Sys} {o : ClientPtr} (h : (s.receivers o).holds = false) :
    s.file o = none := by
  unfold Sys.file
  cases hpc : s.receivers o with
  | handling handler =>
    rw [hpc] at h
    cases h
  | _ => rfl

theorem file_of_handling {s : Sys} {o : ClientPtr} {h : HandlerPc}
    (ho : s.receivers o = .handling h) : s.file o = h.file := by
  unfold Sys.file
  rw [ho]

/-- Where only the thread of `o` goes on, the others have the files they had. -/
theorem file_setReceiver {s : Sys} {o o' : ClientPtr} (ho : o' ≠ o) (pc : ReceiverPc) :
    (s.setReceiver o pc).file o' = s.file o' := by
  unfold Sys.file
  rw [setReceiver_ne s ho]

/-- The step of a handler writes its file, or it has none open and writes nothing. -/
theorem does_files {s s' : Server} {h h' : HandlerPc} {rand : ℕ} (hdoes : h.Does s rand h' s') :
    (h.file = none ∧ s'.files = s.files) ∨
      ∃ f text, h.file = some f ∧ s'.files = Function.update s.files f (some text) := by
  cases hdoes with
  | moves _ hfile => exact .inl ⟨hfile, rfl⟩
  | draws hpc _ _ _ _ hfiles _ =>
    subst hpc
    exact .inl ⟨rfl, hfiles⟩
  | writes _ hfile _ _ => exact .inr ⟨_, _, hfile, rfl⟩
  | sorts _ hfile _ _ _ _ hfiles _ => exact .inl ⟨hfile, hfiles⟩
  | replies hpc _ =>
    subst hpc
    exact .inl ⟨rfl, rfl⟩

/-- All that a step can do about files: the thread has none open or fails, and no thread is taken
    from its file; or the thread writes its file, and only that one may be given up. -/
theorem step_file {s s' : Sys} (hs : s.Inv) {a : Act} (h : s.Step a s') :
    (s'.server.files = s.server.files ∧ (s.fileOf a = none ∨ s'.fault.isSome = true) ∧
        ∀ o f, s.file o = some f → s'.file o = some f) ∨
      ∃ f text, s.fileOf a = some f ∧ s'.fault.isSome = false ∧
        s'.server.files = Function.update s.server.files f (some text) ∧
        ∀ o g, s.file o = some g → g ≠ f → s'.file o = some g := by
  -- The thread of `o` goes on from a place where it has no file open.
  have hmove : ∀ {o : ClientPtr} {pc : ReceiverPc}, s.file o = none →
      ∀ o' f, s.file o' = some f → (s.setReceiver o pc).file o' = some f := by
    intro o pc ho o' f hf
    have hne : o' ≠ o := by
      rintro rfl
      cases ho.symm.trans hf
    rw [file_setReceiver hne, hf]
  have hidle : ∀ {o : ClientPtr} {pc : ReceiverPc}, s.receivers o = pc → pc.holds = false →
      s.file o = none := fun ho hpc => file_of_not_holds (by rw [ho, hpc])
  cases a with
  | acceptor fileDescriptor ip =>
    left
    cases acceptor_step h with
    | accepts fileDescriptor ip _ =>
      have hnew : s.file s.server.objects.length = none :=
        hidle (hs.notStarted _ (Nat.le_refl _)) rfl
      exact ⟨rfl, .inl rfl, hmove hnew⟩
    | _ => exact ⟨rfl, .inl rfl, fun _ _ hf => hf⟩
  | remover closeRet =>
    left
    cases remover_step h with
    | _ => exact ⟨rfl, .inl rfl, fun _ _ hf => hf⟩
  | receiver o event rand r =>
    cases receiver_step_effect h with
    | moves hold _ =>
      have hnone := file_of_not_holds hold
      exact .inl ⟨rfl, .inl hnone, hmove hnone⟩
    | fails e => exact .inl ⟨rfl, .inr rfl, fun _ _ hf => hf⟩
    | takes hpc _ =>
      have hnone := hidle hpc rfl
      exact .inl ⟨rfl, .inl hnone, hmove hnone⟩
    | @handles handler handler' server _ _ ho hret hstep =>
      have hfile := file_of_handling ho
      rcases does_files (handlerStep_does hs.separate hret hstep) with
        ⟨hnone, hfiles⟩ | ⟨f, text, hsome, hfiles⟩
      · exact .inl ⟨hfiles, .inl (hfile.trans hnone), hmove (hfile.trans hnone)⟩
      · refine .inr ⟨f, text, hfile.trans hsome, ?_, hfiles, fun o' g hg hne => ?_⟩
        · show s.fault.isSome = false
          rw [step_no_fault h]
          rfl
        · have ho' : o' ≠ o := by
            rintro rfl
            rw [hfile, hsome] at hg
            exact hne (Option.some.inj hg).symm
          exact (file_setReceiver ho' _).trans hg
    | returns hpc =>
      have hnone : s.file o = none := file_of_handling hpc
      exact .inl ⟨rfl, .inl hnone, hmove hnone⟩
    | disconnects hpc =>
      have hnone := hidle hpc rfl
      exact .inl ⟨rfl, .inl hnone, hmove hnone⟩
    | notifies hpc _ =>
      have hnone := hidle hpc rfl
      exact .inl ⟨rfl, .inl hnone, hmove hnone⟩
    | notified hpc =>
      have hnone : s.file o = none := by
        unfold Sys.file
        rw [hpc]
      exact .inl ⟨rfl, .inl hnone, hmove hnone⟩
    | counts hpc =>
      have hnone := hidle hpc rfl
      exact .inl ⟨rfl, .inl hnone, hmove hnone⟩

/-! ## What is in a file -/

/-- A file that no handler is writing is what this run has written last, or what it was. -/
def Disk.Agrees (files : Bytes → Option Bytes) (d : Disk) : Prop :=
  ∀ f, (∀ o, d.sys.file o ≠ some f) → d.files f = (d.sys.server.files f).or (files f)

theorem agrees_step {files : Bytes → Option Bytes} {d d' : Disk} (hs : d.sys.Inv)
    (hd : d.Agrees files) {a : DiskAct} (h : d.Step a d') : d'.Agrees files := by
  intro f hidle
  cases a with
  | opened o text =>
    unfold Disk.Step Disk.step at h
    dsimp only at h
    split at h
    · cases h
    · obtain ⟨g, hg, rfl⟩ := Option.map_eq_some_iff.mp h
      have hne : f ≠ g := by
        rintro rfl
        exact hidle o hg
      exact (Function.update_of_ne hne _ _).trans (hd f hidle)
  | act a =>
    obtain ⟨s', hstep, rfl⟩ := Option.map_eq_some_iff.mp h
    rcases step_file hs hstep with ⟨hfiles, hopen, hkeep⟩ | ⟨g, text, hg, hok, hfiles, hkeep⟩
    · -- No file is written.
      have hbefore : ∀ o, d.sys.file o ≠ some f := by
        intro o ho
        split at hidle
        · split at hidle <;> exact hidle o (hkeep o f ho)
        · exact hidle o (hkeep o f ho)
      have hsame := hd f hbefore
      rw [← hfiles] at hsame
      split
      · rename_i hsome
        rcases hopen with hnone | hfault
        · cases hnone.symm.trans hsome
        · rw [if_pos hfault]
          exact hsame
      · exact hsame
    · rw [hg] at hidle ⊢
      simp only [hok, Bool.false_eq_true, if_false] at hidle ⊢
      by_cases hfg : f = g
      · subst hfg
        rw [Function.update_self, hfiles, Function.update_self]
        rfl
      · rw [Function.update_of_ne hfg, hfiles, Function.update_of_ne hfg]
        exact hd f fun o ho => hidle o (hkeep o f ho hfg)

/-- A step takes the threads on as one of theirs does, or leaves them where they are. -/
theorem disk_step_sys {d d' : Disk} {a : DiskAct} (h : d.Step a d') :
    d'.sys = d.sys ∨ ∃ b, d.sys.Step b d'.sys := by
  cases a with
  | opened o text =>
    unfold Disk.Step Disk.step at h
    dsimp only at h
    split at h
    · cases h
    · obtain ⟨f, -, rfl⟩ := Option.map_eq_some_iff.mp h
      exact .inl rfl
  | act a =>
    obtain ⟨s', hstep, rfl⟩ := Option.map_eq_some_iff.mp h
    refine .inr ⟨a, ?_⟩
    split
    · split <;> exact hstep
    · exact hstep

/-- The threads take the steps they take without a disk, and every file that no handler is writing
    agrees with what they have written. -/
theorem disk_answered (P : Sys → Prop) (files : Bytes → Option Bytes) :
    Answers (Along Disk.Step fun d _ _ => P d.sys) (Along Sys.Step fun s _ _ => P s)
      (fun d => d.sys.Inv ∧ d.Agrees files) fun d s => d.sys = s where
  keeps := by
    rintro d a d' ⟨hs, hd⟩ ⟨hstep, -⟩
    refine ⟨?_, agrees_step hs hd hstep⟩
    rcases disk_step_sys hstep with hsame | ⟨b, hb⟩
    · rw [hsame]
      exact hs
    · exact sys_step_inv hs hb
  step := by
    rintro d a d' s - rfl ⟨hstep, hP⟩
    rcases disk_step_sys hstep with hsame | ⟨b, hb⟩
    · exact ⟨d.sys, .refl _, hsame⟩
    · exact ⟨d'.sys, .of_step ⟨hb, hP⟩, rfl⟩

theorem disk_run {P : Sys → Prop} {sockfd : ℤ} {files : Bytes → Option Bytes}
    {acts : List DiskAct} {d : Disk}
    (hrun : Run (Along Disk.Step fun d _ _ => P d.sys) (.init sockfd files) acts d) :
    Reaches (Along Sys.Step fun s _ _ => P s) (.init sockfd) d.sys ∧ d.Agrees files := by
  have hstart : (Disk.init sockfd files).sys.Inv ∧ (Disk.init sockfd files).Agrees files :=
    ⟨sys_init_inv sockfd, fun f _ => rfl⟩
  obtain ⟨s, hreach, rfl⟩ := (disk_answered P files).reaches hrun hstart rfl
  have hinv := hrun.invariant (I := fun d => d.sys.Inv ∧ d.Agrees files)
    (fun _ _ _ => (disk_answered P files).keeps) hstart
  exact ⟨hreach, hinv.2⟩

/-- Whatever the threads do and whatever files there were at the start, a file that no handler is
    writing is as it was then, or it was written for an index, and the numbers read from it are
    one or more different numbers drawn, all in the list of one client. -/
theorem threads_files_held {sockfd : ℤ} {files : Bytes → Option Bytes} {acts : List DiskAct}
    {d : Disk} (hrun : Run Disk.Step (.init sockfd files) acts d) {f : Bytes}
    (hidle : ∀ o, d.sys.file o ≠ some f) :
    d.files f = files f ∨
      ∃ (ID : CInt) (text : Bytes) (ns : List CInt) (o : ClientPtr), f = clientFileName ID ∧
        d.files f = some text ∧ readNumbers text = .ok ns ∧ ns ≠ [] ∧ ns.Nodup ∧
        (∀ n ∈ ns, n.val ∈ d.sys.server.numbers) ∧
        (ns.map CInt.val).Subperm (d.sys.server.listOf o) := by
  have halong : Run (Along Disk.Step fun _ _ _ => True) (.init sockfd files) acts d :=
    hrun.mono fun _ _ _ hstep => ⟨hstep, trivial⟩
  obtain ⟨⟨bs, hreach⟩, hagrees⟩ := disk_run (P := fun _ => True) halong
  have hdisk := hagrees f hidle
  cases hwritten : d.sys.server.files f with
  | none =>
    rw [hwritten, Option.none_or] at hdisk
    exact .inl hdisk
  | some text =>
    rw [hwritten, Option.some_or] at hdisk
    obtain ⟨ID, ns, o, hname, hread, hns, hnodup, hdrawn, hsub⟩ :=
      written_held ⟨sockfd, bs, hreach.of_along⟩ hwritten
    exact .inr ⟨ID, text, ns, o, hname, hdisk, hread, hns, hnodup, hdrawn, hsub⟩

/-- What the threads do can be done with a disk. -/
theorem run_disk {P : Sys → Prop} {s s' : Sys} {acts : List Act}
    (hrun : Run (Along Sys.Step fun s _ _ => P s) s acts s') (files : Bytes → Option Bytes) :
    ∃ files', Run (Along Disk.Step fun d _ _ => P d.sys) ⟨s, files⟩ (acts.map .act)
      ⟨s', files'⟩ := by
  induction hrun generalizing files with
  | nil s => exact ⟨files, .nil _⟩
  | @cons s m s' a acts hstep _ ih =>
    have hdisk : ∃ files', Disk.Step ⟨s, files⟩ (.act a) ⟨m, files'⟩ := by
      unfold Disk.Step Disk.step
      simp only [hstep.1, Option.map_some]
      split
      · split <;> exact ⟨_, rfl⟩
      · exact ⟨_, rfl⟩
    obtain ⟨files₁, hfirst⟩ := hdisk
    obtain ⟨files₂, hrest⟩ := ih files₁
    exact ⟨files₂, .cons ⟨hfirst, hstep.2⟩ hrest⟩

theorem quiet_file {s : Sys} (hquiet : s.Quiet) (f : Bytes) (o : ClientPtr) :
    s.file o ≠ some f := by
  intro ho
  unfold Sys.file at ho
  split at ho
  · rename_i h hpc
    exact (hquiet.receivers o).2 h hpc
  · cases ho

/-- The file of client 0 is left from an earlier run, in which it was given 2 and 4. -/
theorem threads_files_held_six :
    ∃ (d : Disk) (acts : List DiskAct) (ns : List CInt),
      Run Disk.Step (.init 3 fun _ => some (bytes "2->4")) acts d ∧
        d.files (bytes "(EVEN) CLIENT ID #: 0") = some (bytes "6") ∧
        readNumbers (bytes "6") = .ok ns ∧ ns.Nodup ∧
        ∀ n ∈ ns, n.val ∈ d.sys.server.numbers := by
  obtain ⟨s, hrun, hquiet, -, -, -, -, hwritten⟩ := run_among
  obtain ⟨files, hdisk⟩ := run_disk hrun fun _ => some (bytes "2->4")
  have hidle := quiet_file hquiet (bytes "(EVEN) CLIENT ID #: 0")
  have hfile := (disk_run hdisk).2 _ hidle
  rw [hwritten, Option.some_or] at hfile
  rcases threads_files_held hdisk.of_along hidle with hold | ⟨-, text, ns, -, -, htext, hread, -,
    hnodup, hdrawn, -⟩
  · cases hfile.symm.trans hold
  · cases hfile.symm.trans htext
    exact ⟨_, _, ns, hdisk.of_along, hfile, hread, hnodup, hdrawn⟩

/-- As long as the remover erases nothing that the running handler still needs, and whatever files
    there were at the start: when no thread is in the middle of an operation, the file of a
    client that is still at the index of its creation gives its list, in ascending order; it is
    as it was at the start if the list is empty. -/
theorem threads_files_coherent {sockfd : ℤ} {files : Bytes → Option Bytes}
    {acts : List DiskAct} {d : Disk}
    (hrun : Run (Along Disk.Step fun d _ _ => d.sys.AllSteady) (.init sockfd files) acts d)
    (hquiet : d.sys.Quiet) {ID : CInt} (h0 : 0 ≤ ID.val)
    (hget : d.sys.server.clients[ID.val.toNat]? = some ID.val.toNat) :
    (d.sys.server.listOf ID.val.toNat).Pairwise (· ≤ ·) ∧
      d.files (clientFileName ID) =
        if d.sys.server.listOf ID.val.toNat = [] then files (clientFileName ID)
        else some (joined (d.sys.server.listOf ID.val.toNat)) := by
  obtain ⟨⟨bs, hreach⟩, hagrees⟩ := disk_run (P := Sys.AllSteady) hrun
  obtain ⟨hsorted, hwritten⟩ := written_coherent hreach hquiet h0 hget
  refine ⟨hsorted, ?_⟩
  rw [hagrees _ (quiet_file hquiet _), hwritten]
  split
  · exact Option.none_or
  · exact Option.some_or

theorem threads_files_coherent_among :
    ∃ (d : Disk) (acts : List DiskAct),
      Run (Along Disk.Step fun d _ _ => d.sys.AllSteady) (.init 3 fun _ => some (bytes "2->4"))
        acts d ∧ d.sys.Quiet ∧ d.sys.server.listOf 0 = [6] ∧
        d.files (clientFileName ⟨0, by decide, by decide⟩) = some (joined [6]) := by
  obtain ⟨s, hrun, hquiet, hclients, -, -, hlist, -⟩ := run_among
  obtain ⟨files, hdisk⟩ := run_disk hrun fun _ => some (bytes "2->4")
  set zero : CInt := ⟨0, by decide, by decide⟩
  have hzero : s.server.clients[zero.val.toNat]? = some zero.val.toNat := by
    rw [hclients]
    rfl
  have hlist' : s.server.listOf zero.val.toNat = [6] := hlist
  have hfile := (threads_files_coherent hdisk hquiet (by decide) hzero).2
  dsimp only at hfile
  rw [hlist', if_neg (List.cons_ne_nil _ _)] at hfile
  exact ⟨_, _, hdisk, hquiet, hlist, hfile⟩

end TCPServer
