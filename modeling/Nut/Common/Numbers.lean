import Mathlib.Tactic.IntervalCases
import Nut.Common.CString

/-!
# Numbers in other bases

`strtol` with a base, without the end pointer; `long` has 64 bits.
-/

namespace Nut

/-- The value of a digit or a letter. -/
def digitValue (c : Char) : Nat :=
  if c.isDigit then c.toNat - 48
  else if c.isLower then c.toNat - 87
  else if c.isUpper then c.toNat - 55
  else 36

/-- The number that a text starts with. -/
def leadingNumber (base : Nat) (s : CStr) : Nat :=
  (s.takeWhile fun c => digitValue c < base).foldl (fun n c => n * base + digitValue c) 0

/-- A text starts with `0x` and a digit. -/
def hexPrefix : CStr → Bool
  | '0' :: x :: c :: _ => (x = 'x' || x = 'X') && digitValue c < 16
  | _ => false

/-- The base and the digits, where `base` may be 0. -/
def baseOf (base : Nat) (s : CStr) : Nat × CStr :=
  if (base = 0 ∨ base = 16) ∧ hexPrefix s then (16, s.drop 2)
  else if base = 0 then (if s.head? = some '0' then 8 else 10, s)
  else (base, s)

def strtolBase (base : Nat) (s : CStr) : Int :=
  match s.dropWhile isspace with
  | '-' :: t => max (-(leadingNumber (baseOf base t).1 (baseOf base t).2 : Int)) (-2 ^ 63)
  | '+' :: t => min (leadingNumber (baseOf base t).1 (baseOf base t).2 : Int) (2 ^ 63 - 1)
  | t => min (leadingNumber (baseOf base t).1 (baseOf base t).2 : Int) (2 ^ 63 - 1)

theorem digitValue_digitChar {d : Nat} (h : d < 16) : digitValue d.digitChar = d := by
  interval_cases d <;> decide

/-- The digits of a number are of its base. -/
theorem digitValue_lt_of_mem_toDigits {b n : Nat} (hb : 1 < b) (hb' : b ≤ 16) :
    ∀ c ∈ Nat.toDigits b n, digitValue c < b := by
  induction n using Nat.strongRecOn with
  | ind n ih =>
    rw [Nat.toDigits_eq_if hb]
    split
    · rename_i hlt
      rintro c hc
      rw [List.mem_singleton.1 hc, digitValue_digitChar (by omega)]
      exact hlt
    · rename_i hle
      intro c hc
      rcases List.mem_append.1 hc with hc | hc
      · exact ih (n / b) (Nat.div_lt_self (by omega) hb) c hc
      · have hmod : n % b < b := Nat.mod_lt _ (by omega)
        rw [List.mem_singleton.1 hc, digitValue_digitChar (by omega)]
        exact hmod

/-- The digits of a number are read back. -/
theorem foldl_toDigits {b n : Nat} (hb : 1 < b) (hb' : b ≤ 16) :
    (Nat.toDigits b n).foldl (fun m c => m * b + digitValue c) 0 = n := by
  induction n using Nat.strongRecOn with
  | ind n ih =>
    rw [Nat.toDigits_eq_if hb]
    split
    · rename_i hlt
      rw [List.foldl_cons, List.foldl_nil, digitValue_digitChar (by omega), Nat.zero_mul, Nat.zero_add]
    · have hmod : n % b < b := Nat.mod_lt _ (by omega)
      rw [List.foldl_append, ih (n / b) (Nat.div_lt_self (by omega) hb), List.foldl_cons, List.foldl_nil,
        digitValue_digitChar (by omega), Nat.mul_comm]
      exact Nat.div_add_mod n b

theorem leadingNumber_replicate (b k : Nat) (s : CStr) (hb : 0 < b) :
    leadingNumber b (List.replicate k '0' ++ s) = leadingNumber b s := by
  have hzero : digitValue '0' = 0 := rfl
  induction k with
  | zero => rfl
  | succ k ih =>
    rw [← ih, leadingNumber, List.replicate_succ, List.cons_append, List.takeWhile_cons_of_pos (by simpa [hzero] using hb),
      List.foldl_cons, hzero, Nat.zero_mul, leadingNumber]

theorem leadingNumber_toDigits {b n : Nat} (hb : 1 < b) (hb' : b ≤ 16) : leadingNumber b (Nat.toDigits b n) = n := by
  have hall : ∀ c ∈ Nat.toDigits b n, decide (digitValue c < b) = true := fun c hc =>
    decide_eq_true (digitValue_lt_of_mem_toDigits hb hb' c hc)
  rw [leadingNumber, List.takeWhile_eq_self_iff.2 hall, foldl_toDigits hb hb']

theorem isspace_of_digitValue {c : Char} (h : digitValue c < 16) : isspace c = false := by
  refine Bool.eq_false_iff.2 fun hspace => ?_
  have hcode : c.toNat < 33 := by
    simp only [isspace, Bool.or_eq_true, decide_eq_true_eq, Bool.and_eq_true] at hspace
    rcases hspace with rfl | ⟨-, hle⟩
    · decide
    · omega
  have hdigit : c.isDigit = false := Bool.eq_false_iff.2 fun hc => by have := isDigit_bounds hc; omega
  have hlower : c.isLower = false := Bool.eq_false_iff.2 fun hc => by
    have hbounds : (decide (97 ≤ c.val) && decide (c.val ≤ 122)) = true := hc
    rw [Bool.and_eq_true, decide_eq_true_eq] at hbounds
    have : (97 : UInt32).toNat ≤ c.val.toNat := UInt32.le_iff_toNat_le.1 hbounds.1
    have hval : c.val.toNat = c.toNat := rfl
    simp at this
    omega
  have hupper : c.isUpper = false := Bool.eq_false_iff.2 fun hc => by
    have hbounds : decide (65 ≤ c.val ∧ c.val ≤ 90) = true := hc
    have : (65 : UInt32).toNat ≤ c.val.toNat := UInt32.le_iff_toNat_le.1 (of_decide_eq_true hbounds).1
    have hval : c.val.toNat = c.toNat := rfl
    simp at this
    omega
  rw [digitValue, hdigit, hlower, hupper] at h
  simp at h

/-- Hexadecimal digits, which are no sign and no prefix. -/
theorem strtolBase_digits {s : CStr} (hs : s ≠ []) (hdigits : ∀ c ∈ s, digitValue c < 16) :
    strtolBase 16 s = min (leadingNumber 16 s : Int) (2 ^ 63 - 1) := by
  obtain ⟨c, t, rfl⟩ := List.exists_cons_of_ne_nil hs
  have hc := hdigits c List.mem_cons_self
  have hprefix : hexPrefix (c :: t) = false := by
    unfold hexPrefix
    split
    · rename_i x d t' heq
      obtain ⟨-, rfl⟩ := List.cons.inj heq
      have hx := hdigits x (by simp)
      have h1 : x ≠ 'x' := by rintro rfl; revert hx; decide
      have h2 : x ≠ 'X' := by rintro rfl; revert hx; decide
      simp [h1, h2]
    · rfl
  unfold strtolBase
  rw [List.dropWhile_cons_of_neg (by simp [isspace_of_digitValue hc])]
  split
  · rename_i heq
    rw [(List.cons.inj heq).1] at hc
    exact absurd hc (by decide)
  · rename_i heq
    rw [(List.cons.inj heq).1] at hc
    exact absurd hc (by decide)
  · rw [baseOf, hprefix, if_neg (by simp), if_neg (by decide)]

/-- Hexadecimal digits are read back, whatever zeros are before them. -/
theorem strtolBase_toDigits {n : Nat} (hn : n < 2 ^ 63) (k : Nat) :
    strtolBase 16 (List.replicate k '0' ++ Nat.toDigits 16 n) = n := by
  have hne : List.replicate k '0' ++ Nat.toDigits 16 n ≠ [] := by simp [Nat.toDigits_ne_nil]
  have hdigits : ∀ c ∈ List.replicate k '0' ++ Nat.toDigits 16 n, digitValue c < 16 := by
    intro c hc
    rcases List.mem_append.1 hc with hc | hc
    · rw [List.eq_of_mem_replicate hc]
      decide
    · exact digitValue_lt_of_mem_toDigits (by omega) (by omega) c hc
  rw [strtolBase_digits hne hdigits, leadingNumber_replicate _ _ _ (by omega), leadingNumber_toDigits (by omega) (by omega)]
  omega
end Nut
