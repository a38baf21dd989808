import Mathlib.Data.Char
import Mathlib.Order.Compare
import Mathlib.Data.List.Lex
import Mathlib.Data.List.TakeWhile
import Mathlib.Tactic.Linarith

/-!
# C strings

The functions of the C library that the sources use, on strings written as the list of their characters before the
terminating NUL; a byte is the `Char` of that code.  `int` is `Int32`, and `long` has 64 bits, as on the platforms
where the daemons run, so `atoi` saturates at the bounds of `long` and then wraps.
-/

namespace Nut

/-- A C string: the characters before the NUL. -/
abbrev CStr := List Char

/-- A test of the characters of a text, not of all characters. -/
instance decidableForallMem (s : CStr) (p : Char → Prop) [DecidablePred p] : Decidable (∀ c ∈ s, p c) :=
  List.decidableBAll p s

instance lawfulBEq : LawfulBEq CStr := inferInstance

/-- `isspace` in the C locale. -/
def isspace (c : Char) : Bool := c = ' ' || (9 ≤ c.toNat && c.toNat ≤ 13)

@[simp] theorem isspace_space : isspace ' ' = true := rfl
@[simp] theorem isspace_hash : isspace '#' = false := rfl
@[simp] theorem isspace_backslash : isspace '\\' = false := rfl
@[simp] theorem isspace_quote : isspace '"' = false := rfl
@[simp] theorem isspace_equals : isspace '=' = false := rfl

/-- The characters 0x20..0x7f, which the parser keeps in a word. -/
def isKept (c : Char) : Bool := 0x20 ≤ c.toNat && c.toNat ≤ 0x7f

/-- The string with its letters in lower case: two strings are equal to `strcasecmp` when these are. -/
def tolower (s : CStr) : CStr := s.map Char.toLower

/-- `cmp` at the linear order of `α`, whatever other order instances `α` has. -/
def order {α : Type*} [LinearOrder α] (a b : α) : Ordering := cmp a b

/-- The sign of the result of `strcasecmp`. -/
def strcasecmp (s t : CStr) : Ordering := order (tolower s) (tolower t)

theorem strcasecmp_eq {s t : CStr} : strcasecmp s t = .eq ↔ tolower s = tolower t := cmp_eq_eq_iff _ _

@[simp] theorem strcasecmp_self (s : CStr) : strcasecmp s s = .eq := strcasecmp_eq.2 rfl

/-- A name that compares equal with another compares differently with the rest. -/
theorem strcasecmp_ne {s t u : CStr} (hst : strcasecmp s t = .eq) (h : strcasecmp t u ≠ .eq) :
    strcasecmp s u ≠ .eq := by
  rw [ne_eq, strcasecmp_eq] at h ⊢
  rwa [strcasecmp_eq.1 hst]

@[simp] theorem length_tolower (s : CStr) : (tolower s).length = s.length := List.length_map _

/-- A character is a capital letter, or the same in lower case. -/
theorem toLower_cases (c : Char) : c.toLower = c ∨ (65 ≤ c.toNat ∧ c.toNat ≤ 90) ∧ c.toLower.toNat = c.toNat + 32 := by
  by_cases hc : c.toLower = c
  · exact .inl hc
  · refine .inr ?_
    unfold Char.toLower at hc ⊢
    split at hc
    · rename_i hcap
      have h1 : 65 ≤ c.toNat := UInt32.le_iff_toNat_le.1 hcap.1
      have h2 : c.toNat ≤ 90 := UInt32.le_iff_toNat_le.1 hcap.2
      refine ⟨⟨h1, h2⟩, ?_⟩
      rw [dif_pos hcap]
      show (c.val + ('a'.val - 'A'.val)).toNat = c.toNat + 32
      have hdiff : ('a'.val - 'A'.val).toNat = 32 := rfl
      have hval : c.val.toNat = c.toNat := rfl
      rw [UInt32.toNat_add, hdiff, hval]
      omega
    · exact absurd rfl hc

/-- No character but a capital letter changes in lower case, and it becomes a small letter. -/
theorem toLower_eq {c d : Char} (h : c.toLower = d) (hd : d.toNat < 97 ∨ 122 < d.toNat) : c = d := by
  rcases toLower_cases c with hc | ⟨hcap, hc⟩
  · exact hc.symm.trans h
  · rw [h] at hc
    omega

theorem isKept_toLower (c : Char) : isKept c.toLower = isKept c := by
  rcases toLower_cases c with h | ⟨hcap, h⟩
  · rw [h]
  · rw [isKept, isKept, decide_eq_true (by omega : 0x20 ≤ c.toNat), decide_eq_true (by omega : c.toNat ≤ 0x7f),
      decide_eq_true (by omega : 0x20 ≤ c.toLower.toNat), decide_eq_true (by omega : c.toLower.toNat ≤ 0x7f)]

/-- The text left in a buffer of `size` bytes by `snprintf`. -/
def snprintf (size : Nat) (text : CStr) : CStr := text.take (size - 1)

theorem snprintf_of_lt {size : Nat} {text : CStr} (h : text.length < size) : snprintf size text = text :=
  List.take_of_length_le (by omega)

theorem length_snprintf_lt {size : Nat} (h : 0 < size) (text : CStr) : (snprintf size text).length < size := by
  simp only [snprintf, List.length_take]; omega

/-- The text left in the buffer `dst` of `size` bytes by `snprintfcat`, which keeps the last byte free. -/
def snprintfcat (dst : CStr) (size : Nat) (text : CStr) : CStr := dst ++ snprintf (size - 1 - dst.length) text

/-- `strtol` in base 10, without the end pointer. -/
def strtol (s : CStr) : Int :=
  match s.dropWhile isspace with
  | '-' :: t => max (-(Nat.ofDigitChars 10 (t.takeWhile Char.isDigit) 0 : Int)) (-2 ^ 63)
  | '+' :: t => min (Nat.ofDigitChars 10 (t.takeWhile Char.isDigit) 0 : Int) (2 ^ 63 - 1)
  | t => min (Nat.ofDigitChars 10 (t.takeWhile Char.isDigit) 0 : Int) (2 ^ 63 - 1)

def atoi (s : CStr) : Int32 := Int32.ofInt (strtol s)

/-- The text of an `int` under `%i` and `%d`. -/
def formatInt (i : Int32) : CStr :=
  if i.toInt < 0 then '-' :: Nat.toDigits 10 i.toInt.natAbs else Nat.toDigits 10 i.toInt.natAbs

private theorem takeWhile_digits {ds rest : CStr} (hds : ∀ c ∈ ds, c.isDigit = true)
    (h : ∀ c ∈ rest.head?, c.isDigit = false) : (ds ++ rest).takeWhile Char.isDigit = ds := by
  rw [List.takeWhile_append_of_pos hds]
  cases rest with
  | nil => simp
  | cons c rest => rw [List.takeWhile_cons_of_neg (by simpa using h c (by simp)), List.append_nil]

private theorem isDigit_toDigits {n : Nat} {c : Char} (h : c ∈ Nat.toDigits 10 n) : c.isDigit = true :=
  Nat.isDigit_of_mem_toDigits (by omega) (by omega) h

theorem isDigit_bounds {c : Char} (h : c.isDigit = true) : 48 ≤ c.toNat ∧ c.toNat ≤ 57 := by
  simp only [Char.isDigit, Bool.and_eq_true, decide_eq_true_eq] at h
  have h1 : (48 : UInt32).toNat ≤ c.val.toNat := UInt32.le_iff_toNat_le.1 h.1
  have h2 : c.val.toNat ≤ (57 : UInt32).toNat := UInt32.le_iff_toNat_le.1 h.2
  exact ⟨h1, h2⟩

private theorem isDigit_not_sign {c : Char} (h : c.isDigit = true) :
    isspace c = false ∧ c ≠ '-' ∧ c ≠ '+' := by
  have hb := isDigit_bounds h
  refine ⟨?_, ?_, ?_⟩
  · have hs : c ≠ ' ' := by rintro rfl; simp at hb
    simp only [isspace, hs, decide_false, Bool.false_or, Bool.and_eq_false_iff, decide_eq_false_iff_not]
    omega
  · rintro rfl; simp at hb
  · rintro rfl; simp at hb

/-- Digits are read up to the first character that is not one. -/
theorem strtol_digits {ds rest : CStr} (hne : ds ≠ []) (hds : ∀ c ∈ ds, c.isDigit = true)
    (h : ∀ c ∈ rest.head?, c.isDigit = false) :
    strtol (ds ++ rest) = min (Nat.ofDigitChars 10 ds 0 : Int) (2 ^ 63 - 1) := by
  have htake := takeWhile_digits hds h
  obtain ⟨c, ds, rfl⟩ := List.exists_cons_of_ne_nil hne
  obtain ⟨hs, hm, hp⟩ := isDigit_not_sign (hds c (by simp))
  unfold strtol
  rw [List.cons_append, List.dropWhile_cons_of_neg (by simp [hs])]
  split
  · rename_i t he; exact absurd (List.cons.inj he).1 hm
  · rename_i t he; exact absurd (List.cons.inj he).1 hp
  · rw [← List.cons_append, htake]

/-- A number is read back up to the first character that is not a digit. -/
theorem atoi_formatInt_append (i : Int32) {rest : CStr} (h : ∀ c ∈ rest.head?, c.isDigit = false) :
    atoi (formatInt i ++ rest) = i := by
  have hlt := i.toInt_lt
  have hle := i.le_toInt
  have hval : Nat.ofDigitChars 10 (Nat.toDigits 10 i.toInt.natAbs) 0 = i.toInt.natAbs :=
    Nat.ofDigitChars_ten_toDigits
  have key : strtol (formatInt i ++ rest) = i.toInt := by
    unfold formatInt
    split
    · rename_i hneg
      have htake := takeWhile_digits (fun c => isDigit_toDigits (n := i.toInt.natAbs)) h
      unfold strtol
      rw [List.cons_append, List.dropWhile_cons_of_neg (by decide)]
      simp only [htake, hval]
      omega
    · rw [strtol_digits Nat.toDigits_ne_nil (fun c => isDigit_toDigits) h, hval]
      omega
  rw [atoi, key, Int32.ofInt_toInt]

theorem atoi_formatInt (i : Int32) : atoi (formatInt i) = i := by
  have h := @atoi_formatInt_append i [] (by simp)
  simpa using h

example : atoi "  -12abc".toList = -12 := by decide

/-- The text of a number is made of digits and a minus sign. -/
theorem mem_formatInt {i : Int32} {c : Char} (h : c ∈ formatInt i) : c = '-' ∨ c.isDigit = true := by
  unfold formatInt at h
  split at h
  · rcases List.mem_cons.1 h with rfl | h
    · exact .inl rfl
    · exact .inr (Nat.isDigit_of_mem_toDigits (by omega) (by omega) h)
  · exact .inr (Nat.isDigit_of_mem_toDigits (by omega) (by omega) h)

theorem formatInt_ne_nil (i : Int32) : formatInt i ≠ [] := by
  unfold formatInt
  split
  · simp
  · exact Nat.toDigits_ne_nil

end Nut
