/-
  The client runner (tests/client_example.cpp): the menu of a `TcpClient`, and `main`.

  `main` takes ten `TcpClient` objects, one after another. Each calls `connectTo` once, and then
  reads selections from `std::cin` until one is 2; a 1 sends `to_string(getID())`. `std::cin` is
  the list of all bytes up to its end. `ClientMain.step` is the next thing `main` does; whether
  `connectTo` succeeds, whether `::send` sends the one byte, and whether a signal ends the process
  instead, is given (`MainEvent`). Without a connection nothing is sent: `::send` fails there or
  raises SIGPIPE. A request is recorded with the connection it went out on.

  `main_asks`: what is asked for is a function of the selections that can be read (`asked`): the
  1s of each round, under the number of the round; all of it is sent if no call fails and no
  signal comes. `main_of_script`: lines typed for ten rounds are read back as they were meant.

  Left out: what is printed, and the signal handler (the `close()` it calls is in `TcpClient`).
-/
import TCPServer.Lib.Runs
import TCPServer.Server

namespace TCPServer

open Runs Decimal

/-- The text behind the number that `stoi` reads. -/
def afterNumber (s : Bytes) : Bytes := (takeSign (s.dropWhile isSpace)).2.dropWhile isDigit

/-- `std::cin >> selection`: the number and what is left, unless the stream fails. -/
def readInt (input : Bytes) : Option (CInt × Bytes) :=
  match stoi input with
  | .ok n => some (n, afterNumber input)
  | .error _ => none

/-- `std::cin.ignore(.., '\n')`. -/
def ignoreLine (input : Bytes) : Bytes := (input.dropWhile (· ≠ 10)).drop 1

/-- `TcpClient::getMenuSelection`, with what it leaves in `std::cin`. -/
def TcpClient.getMenuSelection (input : Bytes) : Exec (CInt × Bytes) :=
  match readInt input with
  | none =>
    .error (.runtimeError "invalid menu input. expected a number, but got something else")
  | some (selection, rest) => .ok (selection, ignoreLine rest)

/-- Where `main` is. -/
inductive MainPc where
  /-- `client->connectTo(..)` -/
  | connecting
  /-- `client->getMenuSelection()` -/
  | choosing
  | returned
  /-- Nothing catches the exception of `getMenuSelection`. -/
  | threw
  | killed
  deriving DecidableEq, Repr

structure ClientMain where
  pc : MainPc
  i : ℕ
  /-- What is left in `std::cin`. -/
  input : Bytes
  /-- `TcpClient::numClients` -/
  numClients : CInt
  /-- `client->getID()` -/
  id : CInt
  /-- How many calls of `connectTo` have succeeded. -/
  connections : ℕ
  /-- The connection of `client`. -/
  connection : Option ℕ
  /-- For each request the connection it was sent on, and the number in it. -/
  requests : List (ℕ × CInt)

inductive MainEvent where
  /-- The process goes on; what `connectTo` returns, and whether `sendMsg` sends the request. -/
  | goesOn (connected sent : Bool)
  /-- It is ended: by SIGPIPE in `sendMsg`, by SIGINT, or by an exception in a receive thread. -/
  | killed
  deriving DecidableEq, Repr

def CInt.ofNat (n : ℕ) (h : n ≤ 2147483647) : CInt := ⟨n, by omega, by omega⟩

/-- The first `TcpClient` is constructed before `main` begins. -/
def ClientMain.init (input : Bytes) : ClientMain where
  pc := .connecting
  i := 0
  input := input
  numClients := .ofNat 1 (by decide)
  id := .ofNat 0 (by decide)
  connections := 0
  connection := none
  requests := []

/-- `client = new TcpClient()`, unless `numClients` overflows. -/
def ClientMain.newClient (m : ClientMain) : Option ClientMain := do
  let next ← m.numClients.inc
  some { m with numClients := next, id := m.numClients, connection := none }

/-- The end of a round of the `for` loop. -/
def ClientMain.nextRound (m : ClientMain) : Option ClientMain := do
  let m ← m.newClient
  some { m with i := m.i + 1, pc := if m.i + 1 < 10 then .connecting else .returned }

/-- `client->sendMsg(..)`: nothing can be sent without a connection. -/
def ClientMain.sendMsg (m : ClientMain) (sent : Bool) : Option ClientMain :=
  if sent then do
    let connection ← m.connection
    some { m with requests := m.requests ++ [(connection, m.id)] }
  else some m

/-- A selection, and what is done for it. -/
def ClientMain.choose (m : ClientMain) (sent : Bool) : Option ClientMain :=
  match TcpClient.getMenuSelection m.input with
  | .error _ => some { m with pc := .threw }
  | .ok (selection, rest) =>
    let m := { m with input := rest }
    if selection.val = 2 then m.nextRound
    else if selection.val = 1 then m.sendMsg sent
    else some m

def MainPc.ended : MainPc → Bool
  | .returned => true
  | .threw => true
  | .killed => true
  | _ => false

def ClientMain.step (m : ClientMain) : MainEvent → Option ClientMain
  | .killed => if m.pc.ended then none else some { m with pc := .killed }
  | .goesOn connected sent =>
    match m.pc with
    | .connecting =>
      if connected then
        some { m with
          pc := .choosing
          connections := m.connections + 1
          connection := some m.connections }
      else some { m with pc := .choosing }
    | .choosing => m.choose sent
    | _ => none

abbrev ClientMain.Step (m : ClientMain) (event : MainEvent) (m' : ClientMain) : Prop :=
  m.step event = some m'

/-! ## Reading selections -/

section Reading

variable {input rest : Bytes} {selection : CInt}

theorem getMenuSelection_ok_iff :
    TcpClient.getMenuSelection input = .ok (selection, rest) ↔
      stoi input = .ok selection ∧ rest = ignoreLine (afterNumber input) := by
  unfold TcpClient.getMenuSelection readInt
  cases stoi input with
  | error e => simp
  | ok n => simp [eq_comm]

theorem length_dropWhile_le {α : Type} (p : α → Bool) (l : List α) :
    (l.dropWhile p).length ≤ l.length :=
  (List.dropWhile_sublist p).length_le

theorem length_takeSign_le (s : Bytes) : (takeSign s).2.length ≤ s.length := by
  unfold takeSign
  split <;> simp

/-- A number has a digit at least. -/
theorem length_afterNumber_lt (h : stoi input = .ok selection) :
    (afterNumber input).length < input.length := by
  unfold stoi at h
  dsimp only at h
  split at h
  · cases h
  · rename_i hdigits
    have hpos := List.length_pos_of_ne_nil hdigits
    have hlen := congrArg List.length
      (List.takeWhile_append_dropWhile (p := isDigit) (l := (takeSign (input.dropWhile isSpace)).2))
    have hsign := length_takeSign_le (input.dropWhile isSpace)
    have hspace := length_dropWhile_le isSpace input
    rw [List.length_append] at hlen
    unfold afterNumber
    omega

theorem getMenuSelection_length
    (h : TcpClient.getMenuSelection input = .ok (selection, rest)) :
    rest.length < input.length := by
  obtain ⟨hread, rfl⟩ := getMenuSelection_ok_iff.mp h
  have hnumber := length_afterNumber_lt hread
  have hline := length_dropWhile_le (fun b : UInt8 => b ≠ 10) (afterNumber input)
  unfold ignoreLine
  rw [List.length_drop]
  omega

end Reading

/-- The selections that can be read one after another. -/
def selections (input : Bytes) : List ℤ :=
  match _h : TcpClient.getMenuSelection input with
  | .error _ => []
  | .ok (selection, rest) => selection.val :: selections rest
termination_by input.length
decreasing_by exact getMenuSelection_length (by assumption)

theorem selections_error {input : Bytes} {e : Stop}
    (h : TcpClient.getMenuSelection input = .error e) : selections input = [] := by
  rw [selections]
  split
  · rfl
  · rename_i hok
    rw [h] at hok
    cases hok

theorem selections_ok {input rest : Bytes} {selection : CInt}
    (h : TcpClient.getMenuSelection input = .ok (selection, rest)) :
    selections input = selection.val :: selections rest := by
  rw [selections]
  split
  · rename_i herror
    rw [h] at herror
    cases herror
  · rename_i hok
    rw [h] at hok
    cases hok
    rfl

/-- The 1s of each round, under the number of the round: for `n` rounds from round `k` on. -/
def asked (k n : ℕ) (selected : List ℤ) : List ℤ :=
  (((selected.splitOn 2).take n).zipIdx k).flatMap fun round =>
    List.replicate (round.1.count 1) (round.2 : ℤ)

section Asked

variable {k n : ℕ} {selected : List ℤ}

@[simp] theorem asked_nil (k n : ℕ) : asked k n [] = [] := by
  unfold asked
  cases n with
  | zero => rfl
  | succ n => simp

@[simp] theorem asked_zero (k : ℕ) (selected : List ℤ) : asked k 0 selected = [] := rfl

/-- A 2 ends the round. -/
theorem asked_two : asked k (n + 1) (2 :: selected) = asked (k + 1) n selected := by
  unfold asked
  rw [List.splitOn, List.splitOnP_cons_eq_if_modifyHead, if_pos (by decide)]
  simp [List.splitOn]

/-- Any other selection belongs to the round that has begun. -/
theorem asked_cons {selection : ℤ} (h : selection ≠ 2) :
    asked k (n + 1) (selection :: selected) =
      (if selection = 1 then [(k : ℤ)] else []) ++ asked k (n + 1) selected := by
  obtain ⟨round, rounds, hrounds⟩ :=
    List.exists_cons_of_ne_nil (List.splitOnP_ne_nil (· == 2) selected)
  unfold asked
  rw [List.splitOn, List.splitOnP_cons_eq_if_modifyHead, if_neg (by simpa using h), List.splitOn,
    hrounds]
  by_cases hone : selection = 1
  · rw [if_pos hone, hone]
    simp [List.replicate_succ]
  · rw [if_neg hone]
    simp [hone]

end Asked

/-! ## What `main` asks for -/

/-- How many rounds are left. -/
def ClientMain.left (m : ClientMain) : ℕ := if m.pc.ended then 0 else 10 - m.i

/-- What has been asked for, and what will be. -/
def ClientMain.all (m : ClientMain) : List ℤ :=
  (m.requests.map fun request => request.2.val) ++ asked m.i m.left (selections m.input)

/-- There are rounds left as long as `main` has not ended; the number of `client` is the number
    of the round. -/
structure ClientMain.Inv (m : ClientMain) : Prop where
  round : m.pc.ended = false → m.i < 10
  id : m.pc.ended = false → m.id.val = m.i
  numClients : m.numClients.val = m.i + 1
  le : m.i ≤ 10

section Step

variable {m m' : ClientMain} {event : MainEvent}

/-- All that one step of `main` can do. -/
inductive ClientMain.Does (m : ClientMain) : MainEvent → ClientMain → Prop
  | connects (sent : Bool) : m.pc = .connecting →
      m.Does (.goesOn true sent) { m with
        pc := .choosing, connections := m.connections + 1, connection := some m.connections }
  | refused (sent : Bool) : m.pc = .connecting →
      m.Does (.goesOn false sent) { m with pc := .choosing }
  | throws (connected sent : Bool) (e : Stop) : m.pc = .choosing →
      TcpClient.getMenuSelection m.input = .error e →
      m.Does (.goesOn connected sent) { m with pc := .threw }
  | closes (connected sent : Bool) (selection next : CInt) (rest : Bytes) : m.pc = .choosing →
      TcpClient.getMenuSelection m.input = .ok (selection, rest) → selection.val = 2 →
      m.numClients.inc = some next →
      m.Does (.goesOn connected sent) { m with
        input := rest, numClients := next, id := m.numClients, connection := none
        i := m.i + 1, pc := if m.i + 1 < 10 then .connecting else .returned }
  | requests (connected : Bool) (selection : CInt) (rest : Bytes) (connection : ℕ) :
      m.pc = .choosing → TcpClient.getMenuSelection m.input = .ok (selection, rest) →
      selection.val = 1 → m.connection = some connection →
      m.Does (.goesOn connected true) { m with
        input := rest, requests := m.requests ++ [(connection, m.id)] }
  /-- The selection is no number of the menu, or nothing was sent for it. -/
  | ignores (connected sent : Bool) (selection : CInt) (rest : Bytes) : m.pc = .choosing →
      TcpClient.getMenuSelection m.input = .ok (selection, rest) → selection.val ≠ 2 →
      (sent = true → selection.val ≠ 1) → m.Does (.goesOn connected sent) { m with input := rest }
  | dies : m.pc.ended = false → m.Does .killed { m with pc := .killed }

theorem main_does (h : m.Step event m') : m.Does event m' := by
  unfold ClientMain.Step ClientMain.step at h
  cases event with
  | killed =>
    dsimp only at h
    split at h
    · cases h
    · rename_i hlive
      cases h
      exact .dies (Bool.eq_false_iff.mpr hlive)
  | goesOn connected sent =>
    dsimp only at h
    split at h
    · rename_i hpc
      cases connected with
      | true =>
        cases h
        exact .connects sent hpc
      | false =>
        cases h
        exact .refused sent hpc
    · rename_i hpc
      unfold ClientMain.choose at h
      split at h
      · rename_i e hmenu
        cases h
        exact .throws connected sent e hpc hmenu
      · rename_i selection rest hmenu
        dsimp only at h
        split at h
        · rename_i htwo
          unfold ClientMain.nextRound ClientMain.newClient at h
          simp only [Option.bind_eq_bind, Option.bind_eq_some_iff] at h
          obtain ⟨_, ⟨next, hnext, heq⟩, hm⟩ := h
          cases heq
          cases hm
          exact .closes connected sent selection next rest hpc hmenu htwo hnext
        · rename_i htwo
          split at h
          · rename_i hone
            unfold ClientMain.sendMsg at h
            cases sent with
            | true =>
              obtain ⟨connection, hconnection, heq⟩ := Option.bind_eq_some_iff.mp h
              cases heq
              exact .requests connected selection rest connection hpc hmenu hone hconnection
            | false =>
              cases h
              exact .ignores connected false selection rest hpc hmenu htwo nofun
          · rename_i hone
            cases h
            exact .ignores connected sent selection rest hpc hmenu htwo fun _ => hone
    · cases h

theorem ClientMain.Does.inv (h : m.Does event m') (hm : m.Inv) : m'.Inv := by
  cases h with
  | connects sent hpc =>
    have hlive : m.pc.ended = false := by rw [hpc]; rfl
    exact ⟨fun _ => hm.round hlive, fun _ => hm.id hlive, hm.numClients, hm.le⟩
  | refused sent hpc =>
    have hlive : m.pc.ended = false := by rw [hpc]; rfl
    exact ⟨fun _ => hm.round hlive, fun _ => hm.id hlive, hm.numClients, hm.le⟩
  | dies _ => exact ⟨nofun, nofun, hm.numClients, hm.le⟩
  | throws connected sent e hpc _ => exact ⟨nofun, nofun, hm.numClients, hm.le⟩
  | closes connected sent selection next rest hpc _ _ hnext =>
    have hround := hm.round (by rw [hpc]; rfl)
    have hnum := hm.numClients
    have hval : next.val = m.numClients.val + 1 := by
      unfold CInt.inc at hnext
      split at hnext
      · cases hnext
        rfl
      · cases hnext
    refine ⟨fun hlive => ?_, fun _ => ?_, ?_, ?_⟩
    · by_contra hge
      dsimp only at hlive hge
      rw [if_neg hge] at hlive
      cases hlive
    · dsimp only
      omega
    · dsimp only
      omega
    · dsimp only
      omega
  | requests connected selection rest connection hpc _ _ _ =>
    exact ⟨hm.round, hm.id, hm.numClients, hm.le⟩
  | ignores connected sent selection rest hpc _ _ _ =>
    exact ⟨hm.round, hm.id, hm.numClients, hm.le⟩

theorem left_of_live (h : m.pc.ended = false) : m.left = 10 - m.i := by
  unfold ClientMain.left
  rw [h]
  rfl

/-- What is asked for in the end is known from the start, and what is sent is a part of it: all,
    unless a call fails or the process is ended. -/
theorem ClientMain.Does.all_sublist (h : m.Does event m') (hm : m.Inv) :
    m'.all.Sublist m.all ∧ (event = .goesOn true true → m'.all = m.all) := by
  have hsame : m'.all = m.all →
      m'.all.Sublist m.all ∧ (event = .goesOn true true → m'.all = m.all) :=
    fun heq => ⟨heq ▸ List.Sublist.refl _, fun _ => heq⟩
  have hleft : m.pc = .choosing → m.left = 10 - m.i ∧ 10 - m.i = 10 - (m.i + 1) + 1 := by
    intro hpc
    have hlive : m.pc.ended = false := by rw [hpc]; rfl
    have hround := hm.round hlive
    exact ⟨left_of_live hlive, by omega⟩
  unfold ClientMain.all at hsame ⊢
  cases h with
  | connects sent hpc =>
    refine hsame ?_
    rw [left_of_live (m := m) (by rw [hpc]; rfl)]
    rfl
  | refused sent hpc =>
    refine hsame ?_
    rw [left_of_live (m := m) (by rw [hpc]; rfl)]
    rfl
  | throws connected sent e hpc hmenu =>
    refine hsame ?_
    rw [selections_error hmenu, asked_nil, asked_nil]
  | closes connected sent selection next rest hpc hmenu htwo _ =>
    refine hsame ?_
    obtain ⟨hm_left, hsucc⟩ := hleft hpc
    have hnew : ∀ pc : MainPc, pc = (if m.i + 1 < 10 then .connecting else .returned) →
        (if pc.ended then 0 else 10 - (m.i + 1)) = 10 - (m.i + 1) := by
      intro pc hpc
      by_cases hlt : m.i + 1 < 10
      · rw [hpc, if_pos hlt]
        rfl
      · rw [hpc, if_neg hlt]
        show 0 = _
        omega
    rw [selections_ok hmenu, htwo, hm_left, hsucc, asked_two]
    unfold ClientMain.left
    dsimp only
    rw [hnew _ rfl]
  | requests connected selection rest connection hpc hmenu hone _ =>
    refine hsame ?_
    obtain ⟨hm_left, hsucc⟩ := hleft hpc
    have hid := hm.id (by rw [hpc]; rfl)
    have hm_left' : ∀ input requests,
        ({ m with input := input, requests := requests } : ClientMain).left = 10 - m.i :=
      fun _ _ => hm_left
    rw [hm_left', selections_ok hmenu, hm_left, hsucc, asked_cons (by omega), if_pos hone,
      List.map_append, List.append_assoc]
    dsimp only
    rw [List.map_singleton, hid]
  | ignores connected sent selection rest hpc hmenu htwo hone =>
    obtain ⟨hm_left, hsucc⟩ := hleft hpc
    have hm_left' : ∀ input, ({ m with input := input } : ClientMain).left = 10 - m.i :=
      fun _ => hm_left
    rw [hm_left', selections_ok hmenu, hm_left, hsucc, asked_cons htwo]
    refine ⟨(List.sublist_append_right _ _).append_left _, fun heq => ?_⟩
    cases heq
    rw [if_neg (hone rfl), List.nil_append]
  | dies hlive =>
    refine ⟨?_, nofun⟩
    exact (List.nil_sublist _).append_left _

/-- The selections go on to the end of the tenth round. -/
def ClientMain.Completes (m : ClientMain) : Prop :=
  m.pc = .returned ∨ m.pc.ended = false ∧ m.left ≤ (selections m.input).count 2

theorem completes_of_live (h : m.pc.ended = false) :
    m.Completes ↔ 10 - m.i ≤ (selections m.input).count 2 := by
  unfold ClientMain.Completes
  rw [left_of_live h]
  refine ⟨fun hor => ?_, fun hle => .inr ⟨h, hle⟩⟩
  rcases hor with hpc | ⟨-, hle⟩
  · rw [hpc] at h
    cases h
  · exact hle

theorem ClientMain.Does.completes_iff (h : m.Does event m') (hm : m.Inv)
    (hne : event ≠ .killed) : m'.Completes ↔ m.Completes := by
  have hlive : m.pc = .choosing → m.pc.ended = false := by
    intro hpc
    rw [hpc]
    rfl
  cases h with
  | connects sent hpc =>
    rw [completes_of_live rfl, completes_of_live (m := m) (by rw [hpc]; rfl)]
  | refused sent hpc =>
    rw [completes_of_live rfl, completes_of_live (m := m) (by rw [hpc]; rfl)]
  | dies _ => exact absurd rfl hne
  | throws connected sent e hpc hmenu =>
    have hround := hm.round (hlive hpc)
    refine iff_of_false (fun hor => ?_) (fun hor => ?_)
    · rcases hor with hret | ⟨hlive', -⟩
      · cases hret
      · cases hlive'
    · have hle := (completes_of_live (hlive hpc)).mp hor
      rw [selections_error hmenu, List.count_nil] at hle
      omega
  | closes connected sent selection next rest hpc hmenu htwo _ =>
    have hround := hm.round (hlive hpc)
    rw [completes_of_live (hlive hpc), selections_ok hmenu, htwo, List.count_cons_self]
    by_cases hlt : m.i + 1 < 10
    · rw [completes_of_live (by dsimp only; rw [if_pos hlt]; rfl)]
      dsimp only
      omega
    · refine iff_of_true (.inl (if_neg hlt)) ?_
      omega
  | requests connected selection rest connection hpc hmenu hone _ =>
    have hold := completes_of_live (hlive hpc)
    rw [selections_ok hmenu, List.count_cons_of_ne (by omega)] at hold
    refine Iff.trans (completes_of_live ?_) hold.symm
    exact hlive hpc
  | ignores connected sent selection rest hpc hmenu htwo _ =>
    have hold := completes_of_live (hlive hpc)
    rw [selections_ok hmenu, List.count_cons_of_ne htwo] at hold
    refine Iff.trans (completes_of_live ?_) hold.symm
    exact hlive hpc

/-- How many steps are left at most. -/
def ClientMain.toDo (m : ClientMain) : ℕ :=
  match m.pc with
  | .connecting => m.input.length + (10 - m.i) + 2
  | .choosing => m.input.length + (10 - m.i) + 1
  | _ => 0

theorem ClientMain.Does.toDo_lt (h : m.Does event m') (hm : m.Inv) :
    m'.toDo < m.toDo := by
  unfold ClientMain.toDo
  cases h with
  | connects sent hpc =>
    rw [hpc]
    exact Nat.lt_succ_self _
  | refused sent hpc =>
    rw [hpc]
    exact Nat.lt_succ_self _
  | dies hlive =>
    cases hpc : m.pc with
    | connecting => exact Nat.succ_pos _
    | choosing => exact Nat.succ_pos _
    | _ =>
      rw [hpc] at hlive
      cases hlive
  | throws connected sent e hpc _ =>
    rw [hpc]
    exact Nat.succ_pos _
  | closes connected sent selection next rest hpc hmenu _ _ =>
    have hround := hm.round (by rw [hpc]; rfl)
    have hlen := getMenuSelection_length hmenu
    rw [hpc]
    dsimp only
    by_cases hlt : m.i + 1 < 10
    · rw [if_pos hlt]
      dsimp only
      omega
    · rw [if_neg hlt]
      exact Nat.succ_pos _
  | requests connected selection rest connection hpc hmenu _ _ =>
    have hlen := getMenuSelection_length hmenu
    rw [hpc]
    dsimp only
    omega
  | ignores connected sent selection rest hpc hmenu _ _ =>
    have hlen := getMenuSelection_length hmenu
    rw [hpc]
    dsimp only
    omega

/-- `main` does not stop before it has ended; a request can be sent if there is a connection. -/
theorem main_goes_on (hm : m.Inv) (hlive : m.pc.ended = false) (connected sent : Bool)
    (hsent : sent = true → m.pc = .choosing → m.connection ≠ none) :
    ∃ m', m.Step (.goesOn connected sent) m' := by
  have hround := hm.round hlive
  have hnum := hm.numClients
  unfold ClientMain.Step ClientMain.step
  cases hpc : m.pc with
  | connecting => cases connected <;> exact ⟨_, rfl⟩
  | choosing =>
    unfold ClientMain.choose
    dsimp only
    split
    · exact ⟨_, rfl⟩
    · split
      · have hinc : m.numClients.val + 1 ≤ 2147483647 := by omega
        unfold ClientMain.nextRound ClientMain.newClient CInt.inc
        dsimp only
        rw [dif_pos hinc]
        exact ⟨_, rfl⟩
      · split
        · unfold ClientMain.sendMsg
          cases sent with
          | true =>
            obtain ⟨connection, hconnection⟩ := Option.ne_none_iff_exists'.mp (hsent rfl hpc)
            dsimp only
            rw [hconnection]
            exact ⟨_, rfl⟩
          | false => exact ⟨_, rfl⟩
        · exact ⟨_, rfl⟩
  | _ =>
    rw [hpc] at hlive
    cases hlive

/-- Where `connectTo` does not fail, there is a connection to send on. -/
theorem connection_step (hm : m.pc = .choosing → m.connection ≠ none) {sent : Bool}
    (h : m.Step (.goesOn true sent) m') : m'.pc = .choosing → m'.connection ≠ none := by
  cases main_does h with
  | connects _ _ => exact fun _ => Option.some_ne_none _
  | throws _ _ _ _ _ => nofun
  | closes _ _ _ _ _ _ _ _ _ =>
    intro hpc
    dsimp only at hpc
    split at hpc <;> cases hpc
  | requests _ _ _ _ _ _ _ _ => exact hm
  | ignores _ _ _ _ _ _ _ _ => exact hm

end Step

section Run

variable {input : Bytes} {events : List MainEvent} {m m' : ClientMain}

theorem main_inv_init (input : Bytes) : (ClientMain.init input).Inv :=
  ⟨fun _ => Nat.succ_pos 9, fun _ => rfl, rfl, Nat.zero_le 10⟩

theorem main_run (h : Run ClientMain.Step m events m') (hm : m.Inv) :
    m'.Inv ∧ events.length + m'.toDo ≤ m.toDo ∧ m'.all.Sublist m.all ∧
      (.killed ∉ events → (m'.Completes ↔ m.Completes)) ∧
      ((∀ event ∈ events, event = .goesOn true true) → m'.all = m.all) := by
  induction h with
  | nil m => exact ⟨hm, by simp, .refl _, fun _ => Iff.rfl, fun _ => rfl⟩
  | cons hstep _ ih =>
    have hdoes := main_does hstep
    obtain ⟨hinv, hlen, hsub, hcompletes, hall⟩ := ih (hdoes.inv hm)
    have hlt := hdoes.toDo_lt hm
    obtain ⟨hsub₁, hall₁⟩ := hdoes.all_sublist hm
    refine ⟨hinv, ?_, hsub.trans hsub₁, fun hkilled => ?_, fun hgood => ?_⟩
    · rw [List.length_cons]
      omega
    · have hne := List.ne_of_not_mem_cons hkilled
      have hrest := List.not_mem_of_not_mem_cons hkilled
      exact (hcompletes hrest).trans (hdoes.completes_iff hm hne.symm)
    · obtain ⟨hfirst, hrest⟩ := List.forall_mem_cons.mp hgood
      exact (hall hrest).trans (hall₁ hfirst)

/-- `main` gets to its end if no call fails and no signal comes. -/
theorem main_ends (hm : m.Inv) (hconnection : m.pc = .choosing → m.connection ≠ none) :
    ∃ k m', Run ClientMain.Step m (List.replicate k (.goesOn true true)) m' ∧
      m'.pc.ended = true := by
  induction htodo : m.toDo using Nat.strong_induction_on generalizing m with
  | _ n ih =>
    cases hend : m.pc.ended with
    | true => exact ⟨0, m, .nil m, hend⟩
    | false =>
      obtain ⟨m₁, hstep⟩ := main_goes_on hm hend true true fun _ => hconnection
      have hdoes := main_does hstep
      have hlt := hdoes.toDo_lt hm
      obtain ⟨k, m', hrun, hend'⟩ :=
        ih m₁.toDo (by omega) (hdoes.inv hm) (connection_step hconnection hstep) rfl
      exact ⟨k + 1, m', .cons hstep hrun, hend'⟩

/-- What `main` has asked for when it has ended, if no call failed and no signal came. -/
theorem main_ended (h : Run ClientMain.Step (.init input) events m)
    (hgood : ∀ event ∈ events, event = .goesOn true true) (hend : m.pc.ended = true) :
    (m.requests.map fun request => request.2.val) = asked 0 10 (selections input) := by
  obtain ⟨-, -, -, -, hall⟩ := main_run h (main_inv_init input)
  rw [show asked 0 10 (selections input) = m.all from (hall hgood).symm]
  unfold ClientMain.all ClientMain.left
  rw [hend]
  exact (List.append_nil _).symm

/-- How `main` has ended, if no signal came. -/
theorem main_returned_iff (h : Run ClientMain.Step (.init input) events m)
    (hkilled : .killed ∉ events) (hend : m.pc.ended = true) :
    m.pc = .returned ↔ 10 ≤ (selections input).count 2 := by
  obtain ⟨-, -, -, hcompletes, -⟩ := main_run h (main_inv_init input)
  have hiff := (hcompletes hkilled).trans (completes_of_live (m := .init input) rfl)
  rw [← show _ ↔ 10 ≤ (selections input).count 2 from hiff]
  unfold ClientMain.Completes
  rw [hend]
  simp

theorem not_killed_of_good (hgood : ∀ event ∈ events, event = .goesOn true true) :
    .killed ∉ events := fun hmem => by cases hgood _ hmem

/-- In every run of `main`, whatever is typed, whichever calls of `connectTo` and `sendMsg` fail
    and whatever signal comes: it ends after so many steps at most, and never stops before. The
    numbers sent are some of those that the selections ask for, in their order: the 1s of each
    of the first ten rounds, under the number of the round, where a 2 ends a round. Unless it is
    killed, `main` returns, and does not throw, exactly if ten 2s can be read. If no call fails
    and no signal comes, the numbers sent are the first of those asked for, and all in the end. -/
theorem main_asks (h : Run ClientMain.Step (.init input) events m) :
    events.length ≤ input.length + 12 ∧
      (m.pc.ended = false → ∀ connected sent,
        (sent = true → m.pc = .choosing → m.connection ≠ none) →
        ∃ m', m.Step (.goesOn connected sent) m') ∧
      (m.requests.map fun request => request.2.val).Sublist (asked 0 10 (selections input)) ∧
      (.killed ∉ events → m.pc.ended = true →
        (m.pc = .returned ↔ 10 ≤ (selections input).count 2)) ∧
      ((∀ event ∈ events, event = .goesOn true true) →
        (m.requests.map fun request => request.2.val) <+: asked 0 10 (selections input) ∧
          (m.pc.ended = true →
            (m.requests.map fun request => request.2.val) = asked 0 10 (selections input))) := by
  obtain ⟨hinv, hlen, hsub, -, hall⟩ := main_run h (main_inv_init input)
  have htodo : (ClientMain.init input).toDo = input.length + 12 := rfl
  refine ⟨by omega, main_goes_on hinv, ?_, main_returned_iff h, fun hgood => ?_⟩
  · exact (List.sublist_append_left _ _).trans hsub
  · exact ⟨⟨_, hall hgood⟩, main_ended h hgood⟩

end Run

/-- One number is asked for in the first round, and then the input ends. -/
theorem main_asks_once :
    ∃ m, Run ClientMain.Step (.init [49, 10]) (List.replicate 3 (.goesOn true true)) m ∧
      m.pc = .threw ∧ m.requests = [(0, ⟨0, by decide, by decide⟩)] ∧
      asked 0 10 (selections [49, 10]) = [0] := by
  obtain ⟨m, hrun, hpc, hrequests⟩ : ∃ m,
      Run ClientMain.Step (.init [49, 10]) (List.replicate 3 (.goesOn true true)) m ∧
        m.pc = .threw ∧ m.requests = [(0, ⟨0, by decide, by decide⟩)] :=
    ⟨_, .cons rfl (.cons rfl (.cons rfl (.nil _))), rfl, rfl⟩
  have hasked := ((main_asks hrun).2.2.2.2 fun _ => List.eq_of_mem_replicate).2 (by rw [hpc]; rfl)
  rw [hrequests] at hasked
  exact ⟨m, hrun, hpc, hrequests, hasked.symm⟩

/-! ## A script -/

/-- A line typed at the menu: a number, and whatever is behind it. -/
structure MenuLine where
  selection : CInt
  behind : Bytes
  newline : (10 : UInt8) ∉ behind
  digit : ∀ b, behind.head? = some b → isDigit b = false

def MenuLine.text (l : MenuLine) : Bytes := to_string l.selection.val ++ (l.behind ++ [10])

/-- Rounds of lines, and a 2 behind each. -/
def script (rounds : List (List MenuLine)) : Bytes :=
  rounds.flatMap fun lines => lines.flatMap MenuLine.text ++ [50, 10]

section Script

theorem dropWhile_digits_append {ds : Bytes} (hd : ∀ b ∈ ds, isDigit b = true)
    {b : UInt8} (hb : isDigit b = false) (rest : Bytes) :
    (ds ++ b :: rest).dropWhile isDigit = b :: rest := by
  rw [List.dropWhile_append_of_pos hd, List.dropWhile_cons, hb]
  rfl

theorem afterNumber_to_string (n : ℤ) {b : UInt8} (hb : isDigit b = false) (rest : Bytes) :
    afterNumber (to_string n ++ b :: rest) = b :: rest := by
  have hdigits : ∀ b ∈ text n.natAbs, isDigit b = true :=
    fun _ hb => Decimal.isDigit_of_mem_text hb
  unfold afterNumber to_string
  by_cases hn : n < 0
  · rw [if_pos hn]
    exact dropWhile_digits_append hdigits hb rest
  · rw [if_neg hn, takeSign_digits_append (Decimal.text_ne_nil _) hdigits]
    exact dropWhile_digits_append hdigits hb rest

theorem ignoreLine_append {junk : Bytes} (h : (10 : UInt8) ∉ junk) (rest : Bytes) :
    ignoreLine (junk ++ 10 :: rest) = rest := by
  have hjunk : ∀ b ∈ junk, decide (b ≠ 10) = true := by
    intro b hb
    exact decide_eq_true fun heq => h (heq ▸ hb)
  unfold ignoreLine
  rw [List.dropWhile_append_of_pos hjunk, List.dropWhile_cons]
  simp

/-- A line is read as its number. -/
theorem getMenuSelection_line (l : MenuLine) (rest : Bytes) :
    TcpClient.getMenuSelection (l.text ++ rest) = .ok (l.selection, rest) := by
  have htext : l.text ++ rest = to_string l.selection.val ++ (l.behind ++ 10 :: rest) := by
    unfold MenuLine.text
    simp
  obtain ⟨b, tail, htail, hb⟩ : ∃ b tail, l.behind ++ 10 :: rest = b :: tail ∧
      isDigit b = false := by
    cases hbehind : l.behind with
    | nil => exact ⟨10, rest, rfl, by decide⟩
    | cons b behind => exact ⟨b, _, rfl, l.digit b (by rw [hbehind]; rfl)⟩
  refine getMenuSelection_ok_iff.mpr ⟨?_, ?_⟩
  · rw [htext, htail]
    exact stoi_to_string_append l.selection hb tail
  · rw [htext, htail, afterNumber_to_string _ hb, ← htail, ignoreLine_append l.newline]

theorem selections_lines (lines : List MenuLine) (rest : Bytes) :
    selections (lines.flatMap MenuLine.text ++ rest) =
      (lines.map fun l => l.selection.val) ++ selections rest := by
  induction lines with
  | nil => rfl
  | cons l lines ih =>
    rw [List.flatMap_cons, List.append_assoc, selections_ok (getMenuSelection_line l _), ih]
    rfl

theorem selections_close (rest : Bytes) : selections ([50, 10] ++ rest) = 2 :: selections rest := by
  have hmenu := getMenuSelection_line ⟨⟨2, by decide, by decide⟩, [], by simp, by simp⟩ rest
  rw [show MenuLine.text _ = [50, 10] by decide] at hmenu
  exact selections_ok hmenu

/-- What `n` rounds of lines ask for, from round `k` on. -/
theorem asked_script (k : ℕ) (rounds : List (List MenuLine))
    (h : ∀ lines ∈ rounds, ∀ l ∈ lines, l.selection.val ≠ 2) (rest : Bytes) :
    asked k rounds.length (selections (script rounds ++ rest)) =
      (rounds.zipIdx k).flatMap fun round =>
        List.replicate (round.1.countP fun l => l.selection.val = 1) (round.2 : ℤ) := by
  induction rounds generalizing k with
  | nil => rfl
  | cons lines rounds ih =>
    have hrest := ih (k + 1) fun lines hlines => h lines (List.mem_cons_of_mem _ hlines)
    have hlines := h lines List.mem_cons_self
    have hscript : script (lines :: rounds) ++ rest =
        lines.flatMap MenuLine.text ++ ([50, 10] ++ (script rounds ++ rest)) := by
      unfold script
      simp
    rw [hscript, selections_lines, selections_close, List.zipIdx_cons, List.flatMap_cons,
      ← hrest]
    clear hscript hrest ih h
    induction lines with
    | nil => exact asked_two
    | cons l lines ih =>
      have hne := hlines l List.mem_cons_self
      rw [List.map_cons, List.cons_append, List.length_cons, asked_cons hne]
      have := ih fun l hl => hlines l (List.mem_cons_of_mem _ hl)
      rw [List.length_cons] at this
      rw [this]
      by_cases hone : l.selection.val = 1
      · rw [if_pos hone, List.countP_cons_of_pos (by simpa using hone), List.replicate_succ]
        rfl
      · rw [if_neg hone, List.countP_cons_of_neg (by simpa using hone)]
        rfl

theorem count_script (rounds : List (List MenuLine)) (rest : Bytes) :
    rounds.length ≤ (selections (script rounds ++ rest)).count 2 := by
  induction rounds with
  | nil => exact Nat.zero_le _
  | cons lines rounds ih =>
    have hscript : script (lines :: rounds) ++ rest =
        lines.flatMap MenuLine.text ++ ([50, 10] ++ (script rounds ++ rest)) := by
      unfold script
      simp
    rw [hscript, selections_lines, selections_close, List.count_append, List.count_cons_self,
      List.length_cons]
    omega

/-- For ten rounds of lines typed at the menu, of any numbers but 2, each with anything behind it
    that is no digit at first, a 2 behind each round and anything in the end: if no `connectTo`
    and no `sendMsg` fails and no signal comes, `main` returns, and has asked, under the number
    of each round, as often as 1 was typed in it. -/
theorem main_of_script {rounds : List (List MenuLine)} (hlen : rounds.length = 10)
    (hother : ∀ lines ∈ rounds, ∀ l ∈ lines, l.selection.val ≠ 2) {rest : Bytes}
    {events : List MainEvent} {m : ClientMain}
    (h : Run ClientMain.Step (.init (script rounds ++ rest)) events m)
    (hgood : ∀ event ∈ events, event = .goesOn true true) (hend : m.pc.ended = true) :
    m.pc = .returned ∧
      (m.requests.map fun request => request.2.val) = rounds.zipIdx.flatMap fun round =>
        List.replicate (round.1.countP fun l => l.selection.val = 1) (round.2 : ℤ) := by
  have hasked := main_ended h hgood hend
  have hreturned := main_returned_iff h (not_killed_of_good hgood) hend
  have hscript := asked_script 0 rounds hother rest
  have hcount := count_script rounds rest
  rw [hlen] at hscript hcount
  exact ⟨hreturned.mpr hcount, hasked.trans hscript⟩

end Script

/-- The line "1!". -/
def exclaimed : MenuLine where
  selection := .ofNat 1 (by decide)
  behind := [33]
  newline := by decide
  digit := by
    intro b hb
    cases hb
    decide

/-- It is typed in the third round, and nothing in the others. -/
def thirdOnly : List (List MenuLine) := [] :: [] :: [exclaimed] :: List.replicate 7 []

theorem main_of_script_third :
    ∃ events m, Run ClientMain.Step (.init (script thirdOnly ++ [])) events m ∧
      m.pc = .returned ∧ (m.requests.map fun request => request.2.val) = [2] := by
  obtain ⟨k, m, hrun, hend⟩ := main_ends (main_inv_init (script thirdOnly ++ [])) nofun
  obtain ⟨hreturned, hasked⟩ :=
    main_of_script (by decide) (by decide) hrun (fun _ => List.eq_of_mem_replicate) hend
  exact ⟨_, m, hrun, hreturned, hasked.trans (by decide)⟩

end TCPServer
