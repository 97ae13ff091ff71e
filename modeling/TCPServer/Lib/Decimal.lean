/-
  Decimal text of natural numbers, as bytes.

  `text n` is the usual decimal text (no sign, no leading zero); `value ds` reads a string of
  digits, leading zeros allowed. `value_text` is the round trip. Of all digit strings with a
  given value `text` is the shortest (`text_length_le`) and the only one of its length
  (`eq_text_of_length`), so a digit string that is no longer than the text of its value is that
  text.
-/
import Mathlib.Data.List.Basic
import Mathlib.Data.List.Induction
import Mathlib.Data.Nat.Digits.Defs
import Mathlib.Tactic.IntervalCases

namespace Decimal

def isDigit (b : UInt8) : Bool := 48 ≤ b && b ≤ 57

/-- What the digit `b` counts for. -/
def digitVal (b : UInt8) : ℕ := b.toNat - 48

/-- The decimal text of `n`. -/
def text (n : ℕ) : List UInt8 := (Nat.toDigits 10 n).map Char.toUInt8

/-- The number that a string of digits stands for. -/
def value (ds : List UInt8) : ℕ := ds.foldl (fun a d => 10 * a + digitVal d) 0

/-! ## Digits -/

theorem isDigit_iff {b : UInt8} : isDigit b = true ↔ 48 ≤ b.toNat ∧ b.toNat ≤ 57 := by
  simp [isDigit, UInt8.le_iff_toNat_le]

theorem isDigit_digitChar {d : ℕ} (h : d < 10) : isDigit (Nat.digitChar d).toUInt8 = true := by
  interval_cases d <;> rfl

theorem digitVal_digitChar {d : ℕ} (h : d < 10) : digitVal (Nat.digitChar d).toUInt8 = d := by
  interval_cases d <;> rfl

theorem digitVal_lt {b : UInt8} (h : isDigit b = true) : digitVal b < 10 := by
  have := isDigit_iff.mp h
  unfold digitVal
  omega

theorem digitVal_inj {a b : UInt8} (ha : isDigit a = true) (hb : isDigit b = true)
    (h : digitVal a = digitVal b) : a = b := by
  have h1 := isDigit_iff.mp ha
  have h2 := isDigit_iff.mp hb
  unfold digitVal at h
  exact UInt8.toNat_inj.mp (by omega)

/-! ## The text of a number -/

/-- The last digit of `text n` is `n % 10`; what stands before it is `text (n / 10)`. -/
theorem text_eq (n : ℕ) :
    text n = (if n < 10 then [] else text (n / 10)) ++ [(Nat.digitChar (n % 10)).toUInt8] := by
  unfold text
  rw [Nat.toDigits_eq_if (by omega)]
  split
  · rename_i h; simp [Nat.mod_eq_of_lt h]
  · simp

theorem text_ne_nil (n : ℕ) : text n ≠ [] := by
  rw [text_eq]; simp

theorem isDigit_of_mem_text {n : ℕ} {b : UInt8} (hb : b ∈ text n) : isDigit b = true := by
  induction n using Nat.strong_induction_on with
  | _ n ih =>
    rw [text_eq, List.mem_append, List.mem_singleton] at hb
    rcases hb with hb | rfl
    · split at hb
      · simp at hb
      · exact ih (n / 10) (by omega) hb
    · exact isDigit_digitChar (Nat.mod_lt _ (by omega))

theorem text_length_le_of_lt {n k : ℕ} (hk : 1 ≤ k) (h : n < 10 ^ k) : (text n).length ≤ k := by
  induction k generalizing n with
  | zero => omega
  | succ k ih =>
    rw [text_eq]
    split
    · simp
    · have hk : 1 ≤ k := by
        rcases k with _ | k
        · simp at h; omega
        · omega
      have hn : n / 10 < 10 ^ k := by rw [Nat.pow_succ] at h; omega
      have := ih hk hn
      simp; omega

theorem text_length_mono {m n : ℕ} (h : m ≤ n) : (text m).length ≤ (text n).length := by
  induction n using Nat.strong_induction_on generalizing m with
  | _ n ih =>
    rw [text_eq m, text_eq n, List.length_append, List.length_append]
    refine Nat.add_le_add_right ?_ 1
    by_cases hm : m < 10
    · rw [if_pos hm]
      exact Nat.zero_le _
    · rw [if_neg hm, if_neg (by omega)]
      exact ih (n / 10) (by omega) (by omega)

/-! ## Reading digits -/

@[simp] theorem value_nil : value [] = 0 := rfl

theorem value_concat (ds : List UInt8) (d : UInt8) :
    value (ds ++ [d]) = 10 * value ds + digitVal d := by
  simp [value, List.foldl_append]

/-- Reading the text of `n` gives `n`. -/
theorem value_text (n : ℕ) : value (text n) = n := by
  induction n using Nat.strong_induction_on with
  | _ n ih =>
    rw [text_eq, value_concat, digitVal_digitChar (Nat.mod_lt _ (by omega))]
    split
    · simp; omega
    · rw [ih (n / 10) (by omega)]; omega

theorem text_injective : Function.Injective text :=
  Function.LeftInverse.injective value_text

theorem value_lt {ds : List UInt8} (hd : ∀ b ∈ ds, isDigit b = true) :
    value ds < 10 ^ ds.length := by
  induction ds using List.reverseRecOn with
  | nil => simp
  | append_singleton ds d ih =>
    have h1 := ih fun b hb => hd b (List.mem_append_left _ hb)
    have h2 := digitVal_lt (hd d (by simp))
    rw [value_concat, List.length_append, List.length_singleton, Nat.pow_succ]
    omega

/-- No digit string is shorter than the text of its value. -/
theorem text_length_le {ds : List UInt8} (hne : ds ≠ []) (hd : ∀ b ∈ ds, isDigit b = true) :
    (text (value ds)).length ≤ ds.length :=
  text_length_le_of_lt (List.length_pos_of_ne_nil hne) (value_lt hd)

/-- Digit strings of one length are told apart by their values. -/
theorem value_inj {ds es : List UInt8} (hd : ∀ b ∈ ds, isDigit b = true)
    (he : ∀ b ∈ es, isDigit b = true) (hl : ds.length = es.length) (hv : value ds = value es) :
    ds = es := by
  induction ds using List.reverseRecOn generalizing es with
  | nil => exact (List.length_eq_zero_iff.mp hl.symm).symm
  | append_singleton ds d ih =>
    obtain rfl | ⟨es, e, rfl⟩ := List.eq_nil_or_concat' es
    · simp at hl
    have h1 := digitVal_lt (hd d (by simp))
    have h2 := digitVal_lt (he e (by simp))
    rw [value_concat, value_concat] at hv
    have hde : d = e := digitVal_inj (hd d (by simp)) (he e (by simp)) (by omega)
    rw [hde, ih (fun b hb => hd b (List.mem_append_left _ hb))
      (fun b hb => he b (List.mem_append_left _ hb)) (by simpa using hl) (by omega)]

theorem eq_text_of_length {ds : List UInt8} (hd : ∀ b ∈ ds, isDigit b = true)
    (hl : ds.length = (text (value ds)).length) : ds = text (value ds) :=
  value_inj hd (fun _ hb => isDigit_of_mem_text hb) hl (value_text _).symm

end Decimal
