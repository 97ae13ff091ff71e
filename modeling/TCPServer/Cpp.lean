/-
  The C++ the sources are written in, as far as the model uses it.

  * `Bytes`: what a `char` buffer, a `std::string` or a socket carries.
  * `CInt`: an `int`. `sizeT`: what a signed result becomes when it is stored in a `size_t`.
  * `Stop`: why a call does not come back with a result. The first three are exceptions, the
    next three undefined behaviour, and `spins` a loop that has not ended on the input it was
    given.
  * `stoi` and `to_string` as the standard library documents them: `stoi` skips blanks, takes
    an optional sign and the longest run of digits and ignores what follows.
  * `cString`: the `std::string` made from a `const char *`, up to the first zero byte.
-/
import TCPServer.Lib.Decimal
import Mathlib.Data.List.TakeWhile

namespace TCPServer

open Decimal (isDigit text value)

abbrev Bytes := List UInt8

/-- The bytes of a text literal. -/
def bytes (s : String) : Bytes := s.toList.map Char.toUInt8

/-- An `int`. -/
structure CInt where
  val : ℤ
  ge : -2147483648 ≤ val
  le : val ≤ 2147483647
  deriving DecidableEq, Repr

theorem CInt.ext {a b : CInt} (h : a.val = b.val) : a = b := by
  cases a; cases b; cases h; rfl

/-- `i + 1`, unless it overflows. -/
def CInt.inc (i : CInt) : Option CInt :=
  if h : i.val + 1 ≤ 2147483647 then some ⟨i.val + 1, by have := i.ge; omega, h⟩ else none

/-- What the signed value `r` is once it is stored in a `size_t`. -/
def sizeT (r : ℤ) : ℕ := (r % 2 ^ 64).toNat

/-- Why a call does not return a result. -/
inductive Stop where
  | invalidArgument
  | outOfRange
  | runtimeError (what : String)
  /-- A vector is indexed past its end. -/
  | badIndex
  | nullDeref
  /-- A deleted or never allocated object is used. -/
  | dangling
  | spins
  deriving DecidableEq, Repr

abbrev Exec := Except Stop

section Exec

variable {α β : Type}

@[simp] theorem ok_bind (a : α) (f : α → Exec β) : ((Except.ok a : Exec α) >>= f) = f a := rfl

@[simp] theorem error_bind (e : Stop) (f : α → Exec β) :
    ((Except.error e : Exec α) >>= f) = .error e := rfl

@[simp] theorem pure_ok (a : α) : (pure a : Exec α) = .ok a := rfl

/-- A sequence of two calls returns exactly when both do. -/
theorem bind_ok_iff {x : Exec α} {f : α → Exec β} {b : β} :
    (x >>= f) = .ok b ↔ ∃ a, x = .ok a ∧ f a = .ok b := by
  cases x with
  | error e => simp
  | ok a => simp

end Exec

/-! ## Numbers and their text -/

def isSpace (b : UInt8) : Bool := b = 32 || (9 ≤ b && b ≤ 13)

/-- The text of an optional sign taken off: whether it was a minus, and the rest. -/
def takeSign : Bytes → Bool × Bytes
  | 43 :: s => (false, s)
  | 45 :: s => (true, s)
  | s => (false, s)

/-- `std::stoi`. -/
def stoi (s : Bytes) : Exec CInt :=
  let (neg, t) := takeSign (s.dropWhile isSpace)
  let ds := t.takeWhile isDigit
  if ds = [] then .error .invalidArgument
  else
    let v : ℤ := if neg then -(value ds : ℤ) else value ds
    if h : -2147483648 ≤ v ∧ v ≤ 2147483647 then .ok ⟨v, h.1, h.2⟩ else .error .outOfRange

/-- `std::to_string`; `operator<<` writes an `int` the same way. -/
def to_string (n : ℤ) : Bytes := if n < 0 then 45 :: text n.natAbs else text n.natAbs

theorem not_isSpace_of_isDigit {b : UInt8} (h : isDigit b = true) : isSpace b = false := by
  have := Decimal.isDigit_iff.mp h
  simp only [isSpace, Bool.or_eq_false_iff, decide_eq_false_iff_not, Bool.and_eq_false_iff,
    UInt8.le_iff_toNat_le, ← UInt8.toNat_inj]
  have h32 : (32 : UInt8).toNat = 32 := rfl
  have h9 : (9 : UInt8).toNat = 9 := rfl
  have h13 : (13 : UInt8).toNat = 13 := rfl
  omega

theorem takeWhile_isDigit_eq_self {ds : Bytes} (hd : ∀ b ∈ ds, isDigit b = true) :
    ds.takeWhile isDigit = ds :=
  List.takeWhile_eq_self_iff.mpr hd

/-- A digit string has no blanks and no sign in front. -/
theorem takeSign_digits {ds : Bytes} (hd : ∀ b ∈ ds, isDigit b = true) :
    takeSign (ds.dropWhile isSpace) = (false, ds) := by
  cases ds with
  | nil => rfl
  | cons d ds =>
    have h := hd d List.mem_cons_self
    have hr := Decimal.isDigit_iff.mp h
    rw [List.dropWhile_cons, not_isSpace_of_isDigit h]
    have h43 : d ≠ 43 := by rintro rfl; simp at hr
    have h45 : d ≠ 45 := by rintro rfl; simp at hr
    unfold takeSign
    split <;> simp_all

/-- `stoi` of a digit string is its value, as long as that is an `int`. -/
theorem stoi_digits_iff {ds : Bytes} (hne : ds ≠ []) (hd : ∀ b ∈ ds, isDigit b = true)
    (i : CInt) : stoi ds = .ok i ↔ i.val = value ds := by
  simp only [stoi, takeSign_digits hd, takeWhile_isDigit_eq_self hd, if_neg hne,
    Bool.false_eq_true, if_false]
  constructor
  · intro h
    split at h
    · exact (congrArg CInt.val (Except.ok.inj h)).symm
    · cases h
  · intro h
    have hge := i.ge
    have hle := i.le
    rw [dif_pos (by omega)]
    exact congrArg Except.ok (CInt.ext h.symm)

theorem to_string_nonneg {n : ℤ} (hn : 0 ≤ n) : to_string n = text n.toNat := by
  rw [to_string, if_neg (by omega), show n.natAbs = n.toNat by omega]

/-- A greater number has no shorter text. -/
theorem length_to_string_le {m n : ℤ} (hm : 0 ≤ m) (h : m ≤ n) :
    (to_string m).length ≤ (to_string n).length := by
  rw [to_string_nonneg hm, to_string_nonneg (hm.trans h)]
  exact Decimal.text_length_mono (by omega)

/-- Reading the text of an `int` gives that `int`. -/
theorem stoi_to_string (i : CInt) : stoi (to_string i.val) = .ok i := by
  have hge := i.ge
  have hle := i.le
  by_cases hi : i.val < 0
  · have hsign : takeSign ((45 :: text i.val.natAbs).dropWhile isSpace) =
        (true, text i.val.natAbs) := rfl
    have hv : -((i.val.natAbs : ℕ) : ℤ) = i.val := by omega
    have hbound : -2147483648 ≤ -((i.val.natAbs : ℕ) : ℤ) ∧
        -((i.val.natAbs : ℕ) : ℤ) ≤ 2147483647 := by omega
    rw [to_string, if_pos hi, stoi, hsign]
    simp only [takeWhile_isDigit_eq_self fun _ hb => Decimal.isDigit_of_mem_text hb,
      if_neg (Decimal.text_ne_nil _), Decimal.value_text, if_true, dif_pos hbound]
    exact congrArg Except.ok (CInt.ext hv)
  · have hn : 0 ≤ i.val := by omega
    rw [to_string_nonneg hn, stoi_digits_iff (Decimal.text_ne_nil _)
      (fun _ hb => Decimal.isDigit_of_mem_text hb), Decimal.value_text]
    omega

/-- What `stoi` reads of a text: a sign, and the digits behind it. -/
theorem stoi_congr {s s' : Bytes}
    (hsign : (takeSign (s.dropWhile isSpace)).1 = (takeSign (s'.dropWhile isSpace)).1)
    (hdigits : (takeSign (s.dropWhile isSpace)).2.takeWhile isDigit =
      (takeSign (s'.dropWhile isSpace)).2.takeWhile isDigit) : stoi s = stoi s' := by
  unfold stoi
  generalize takeSign (s.dropWhile isSpace) = x at hsign hdigits ⊢
  generalize takeSign (s'.dropWhile isSpace) = y at hsign hdigits ⊢
  obtain ⟨neg, t⟩ := x
  obtain ⟨neg', t'⟩ := y
  dsimp only at hsign hdigits ⊢
  subst hsign
  simp only [hdigits]

theorem takeWhile_digits_append {ds : Bytes} (hd : ∀ b ∈ ds, isDigit b = true)
    {b : UInt8} (hb : isDigit b = false) (rest : Bytes) :
    (ds ++ b :: rest).takeWhile isDigit = ds.takeWhile isDigit := by
  rw [List.takeWhile_append_of_pos hd, List.takeWhile_cons, hb, takeWhile_isDigit_eq_self hd]
  exact List.append_nil ds

theorem takeSign_digits_append {ds : Bytes} (hne : ds ≠ []) (hd : ∀ b ∈ ds, isDigit b = true)
    (rest : Bytes) : takeSign ((ds ++ rest).dropWhile isSpace) = (false, ds ++ rest) := by
  obtain ⟨d, ds, rfl⟩ := List.exists_cons_of_ne_nil hne
  have h := hd d List.mem_cons_self
  rw [List.cons_append, List.dropWhile_cons, not_isSpace_of_isDigit h]
  have hr := Decimal.isDigit_iff.mp h
  have h43 : d ≠ 43 := by rintro rfl; simp at hr
  have h45 : d ≠ 45 := by rintro rfl; simp at hr
  show takeSign (d :: (ds ++ rest)) = _
  unfold takeSign
  split <;> simp_all

/-- The number ends in front of the first byte that is no digit. -/
theorem stoi_to_string_append (i : CInt) {b : UInt8} (hb : isDigit b = false) (rest : Bytes) :
    stoi (to_string i.val ++ b :: rest) = .ok i := by
  have hdigits : ∀ n, ∀ b ∈ text n, isDigit b = true :=
    fun _ _ hb => Decimal.isDigit_of_mem_text hb
  rw [← stoi_to_string i]
  by_cases hi : i.val < 0
  · have htext : to_string i.val = 45 :: text i.val.natAbs := if_pos hi
    rw [htext]
    exact stoi_congr rfl (takeWhile_digits_append (hdigits _) hb rest)
  · have htext := to_string_nonneg (show 0 ≤ i.val by omega)
    refine stoi_congr ?_ ?_ <;>
      rw [htext, takeSign_digits_append (Decimal.text_ne_nil _) (hdigits _),
        takeSign_digits (hdigits _)]
    exact takeWhile_digits_append (hdigits _) hb rest

theorem to_string_injective {m n : ℤ} (hm : 0 ≤ m) (hn : 0 ≤ n)
    (h : to_string m = to_string n) : m = n := by
  rw [to_string_nonneg hm, to_string_nonneg hn] at h
  have := Decimal.text_injective h
  omega

example : stoi (bytes " +12x") = .ok ⟨12, by decide, by decide⟩ := by decide

/-! ## Strings from character pointers -/

/-- The string that starts at the first byte of `m` and ends before the first zero byte. -/
def cString (m : Bytes) : Bytes := m.takeWhile (· ≠ 0)

theorem cString_eq_self {m : Bytes} (h : (0 : UInt8) ∉ m) : cString m = m :=
  List.takeWhile_eq_self_iff.mpr fun _ hb => decide_eq_true fun h0 => h (h0 ▸ hb)

theorem cString_digits {ds : Bytes} (hd : ∀ b ∈ ds, isDigit b = true) : cString ds = ds :=
  cString_eq_self fun h0 => absurd (hd 0 h0) (by decide)

theorem zero_not_mem_to_string (n : ℤ) : (0 : UInt8) ∉ to_string n := by
  have hdigit : ∀ m, (0 : UInt8) ∉ text m := fun m hm =>
    absurd (Decimal.isDigit_of_mem_text hm) (by decide)
  intro h0
  unfold to_string at h0
  split at h0
  · rcases List.mem_cons.mp h0 with h0 | h0
    · exact absurd h0 (by decide)
    · exact hdigit _ h0
  · exact hdigit _ h0

theorem cString_to_string (n : ℤ) : cString (to_string n) = to_string n :=
  cString_eq_self (zero_not_mem_to_string n)

/-- The bytes behind a zero byte are not read. -/
theorem cString_append_zero {c : Bytes} (h : (0 : UInt8) ∉ c) (rest : Bytes) :
    cString (c ++ 0 :: rest) = c := by
  have hkeep : ∀ b ∈ c, decide (b ≠ 0) = true := fun b hb => decide_eq_true fun heq => h (heq ▸ hb)
  unfold cString
  rw [List.takeWhile_append_of_pos hkeep]
  simp

/-- The string read from a buffer, or `none` if no zero byte stops the reading inside it. -/
def cStringIn (buf : Bytes) : Option Bytes :=
  if (0 : UInt8) ∈ buf then some (cString buf) else none

end TCPServer
