import Mathlib.Data.Int.ModEq
import Mathlib.Data.Nat.Bitwise
import Mathlib.Tactic.Linarith
import Mathlib.Tactic.Ring

/-!
# Signed integers of C

The operators of C on a signed type of `w` bits in two's complement, as functions on integers.  An operator has no result
where C does not define one: where a sum or a difference leaves the type, and where `1` is shifted by a negative number or
into the sign.  The operators on bits are those of `BitVec`; with the mask of the low `b` bits they are arithmetic modulo
`2 ^ b` (`and_mask`, `or_not_mask`).
-/

namespace CInt

/-- The numbers of the type. -/
def InRange (w : Nat) (x : Int) : Prop := -((2 ^ (w - 1) : Nat) : Int) ≤ x ∧ x < (2 ^ (w - 1) : Nat)

instance (w : Nat) (x : Int) : Decidable (InRange w x) := inferInstanceAs (Decidable (_ ∧ _))

theorem InRange.of_abs_le {w k : Nat} {x : Int} (hk : k + 1 < w) (h : x.natAbs ≤ 2 ^ k) : InRange w x := by
  have hlt : 2 ^ k < 2 ^ (w - 1) := Nat.pow_lt_pow_right (by omega) (by omega)
  unfold InRange
  omega

/-- What a sum or a difference evaluates to. -/
def result (w : Nat) (x : Int) : Option Int := if InRange w x then some x else none

theorem result_of_inRange {w : Nat} {x : Int} (h : InRange w x) : result w x = some x := if_pos h

/-- `1 << k` -/
def shiftOne (w : Nat) (k : Int) : Option Int := if 0 ≤ k ∧ k < w - 1 then some (2 ^ k.toNat) else none

theorem shiftOne_of_lt {w k : Nat} (h : k + 1 < w) : shiftOne w k = some (2 ^ k) := by
  rw [shiftOne, if_pos (by omega), Int.toNat_natCast]

theorem shiftOne_eq_none {w : Nat} {k : Int} (h : k < 0 ∨ (w : Int) - 1 ≤ k) : shiftOne w k = none := if_neg (by omega)

def and (w : Nat) (x y : Int) : Int := (BitVec.ofInt w x &&& BitVec.ofInt w y).toInt

def or (w : Nat) (x y : Int) : Int := (BitVec.ofInt w x ||| BitVec.ofInt w y).toInt

def not (w : Nat) (x : Int) : Int := (~~~BitVec.ofInt w x).toInt

section

variable {w b : Nat}

private theorem toNat_mask (hb : b < w) : (BitVec.ofInt w (2 ^ b - 1)).toNat = 2 ^ b - 1 := by
  have hlt : 2 ^ b < 2 ^ w := Nat.pow_lt_pow_right (by omega) hb
  have hpos : 0 < 2 ^ b := Nat.two_pow_pos b
  have hcast : (2 : Int) ^ b - 1 = ((2 ^ b - 1 : Nat) : Int) := by push_cast [hpos]; omega
  rw [hcast, BitVec.ofInt_natCast, BitVec.toNat_ofNat, Nat.mod_eq_of_lt (by omega)]

private theorem toInt_of_lt {x : BitVec w} (hb : b < w) (h : x.toNat < 2 ^ b) : x.toInt = x.toNat := by
  have hle : 2 ^ (b + 1) ≤ 2 ^ w := Nat.pow_le_pow_right (by omega) hb
  rw [pow_succ] at hle
  exact BitVec.toInt_eq_toNat_of_lt (by omega)

/-- The low bits of a number are its residue. -/
theorem and_mask (hb : b < w) (x : Int) : and w x (2 ^ b - 1) = x % 2 ^ b := by
  have hpos : 0 < 2 ^ b := Nat.two_pow_pos b
  have hnat : (BitVec.ofInt w x &&& BitVec.ofInt w (2 ^ b - 1)).toNat = (BitVec.ofInt w x).toNat % 2 ^ b := by
    rw [BitVec.toNat_and, toNat_mask hb, Nat.and_two_pow_sub_one_eq_mod]
  have hdvd : (2 : Int) ^ b ∣ ((2 ^ w : Nat) : Int) := by
    push_cast
    exact pow_dvd_pow 2 hb.le
  have hx : ((BitVec.ofInt w x).toNat : Int) = x % (2 ^ w : Nat) := by
    rw [BitVec.toNat_ofInt, Int.toNat_of_nonneg (Int.emod_nonneg _ (by positivity))]
  rw [and, toInt_of_lt hb (by rw [hnat]; exact Nat.mod_lt _ hpos), hnat, Int.natCast_mod, hx]
  push_cast
  exact Int.emod_emod_of_dvd _ (by exact_mod_cast hdvd)

/-- One bit of a number. -/
theorem and_bit (hb : b + 1 < w) (x : Int) : and w x (2 ^ b) ≠ 0 ↔ x / 2 ^ b % 2 = 1 := by
  obtain ⟨k, rfl⟩ : ∃ k, w = b + 1 + k := ⟨w - (b + 1), by omega⟩
  have hlt : 2 ^ (b + 1) < 2 ^ (b + 1 + k) := Nat.pow_lt_pow_right (by omega) hb
  have hpow : 2 ^ (b + 1) = 2 ^ b * 2 := pow_succ 2 b
  have hpos : 0 < 2 ^ b := Nat.two_pow_pos b
  have hcast : (2 : Int) ^ b = ((2 ^ b : Nat) : Int) := by push_cast; rfl
  obtain ⟨n, hn⟩ : ∃ n, n = (BitVec.ofInt (b + 1 + k) x).toNat := ⟨_, rfl⟩
  have hnat : (BitVec.ofInt (b + 1 + k) x &&& BitVec.ofInt (b + 1 + k) (2 ^ b)).toNat = (n.testBit b).toNat * 2 ^ b := by
    rw [hcast, BitVec.ofInt_natCast, BitVec.toNat_and, ← hn, BitVec.toNat_ofNat, Nat.mod_eq_of_lt (by omega),
      Nat.and_two_pow]
  have hx : (n : Int) = x % (2 ^ (b + 1 + k) : Nat) := by
    rw [hn, BitVec.toNat_ofInt, Int.toNat_of_nonneg (Int.emod_nonneg _ (by positivity))]
  have hquot : ((n / 2 ^ b % 2 : Nat) : Int) = x / 2 ^ b % 2 := by
    have hsplit : x = n + 2 ^ b * (2 * (2 ^ k * (x / (2 ^ (b + 1 + k) : Nat)))) := by
      have hdiv := Int.emod_add_mul_ediv x (2 ^ (b + 1 + k) : Nat)
      have hfactor : ((2 ^ (b + 1 + k) : Nat) : Int) = 2 ^ b * (2 * 2 ^ k) := by push_cast; ring
      rw [← hx, hfactor] at hdiv
      rw [hfactor, ← mul_assoc 2, ← mul_assoc, hdiv]
    rw [hsplit, Int.add_mul_ediv_left _ _ (by positivity), Int.add_mul_emod_self_left]
    push_cast
    rfl
  have hsmall : (BitVec.ofInt (b + 1 + k) x &&& BitVec.ofInt (b + 1 + k) (2 ^ b)).toNat < 2 ^ (b + 1) := by
    rw [hnat]
    cases n.testBit b
    · simp
    · simp [hpow]
  rw [and, toInt_of_lt hb hsmall, hnat, Nat.testBit_eq_decide_div_mod_eq, ← hquot]
  by_cases hbit : n / 2 ^ b % 2 = 1
  · simp [hbit]
  · have hzero : n / 2 ^ b % 2 = 0 := by omega
    simp [hzero]

/-- The bit under the highest one tells the upper half of the numbers. -/
theorem and_top (hb : b + 1 < w) {x : Int} (h0 : 0 ≤ x) (hx : x < 2 ^ (b + 1)) : and w x (2 ^ b) ≠ 0 ↔ 2 ^ b ≤ x := by
  have hpow : (2 : Int) ^ (b + 1) = 2 ^ b * 2 := pow_succ 2 b
  have hpos : (0 : Int) < 2 ^ b := by positivity
  rw [and_bit hb]
  by_cases hle : 2 ^ b ≤ x
  · have hdiv : x / 2 ^ b = 1 :=
      ((Int.ediv_emod_unique (q := 1) (r := x - 2 ^ b) hpos).2 ⟨by omega, by omega, by omega⟩).1
    simp [hdiv, hle]
  · simp [Int.ediv_eq_zero_of_lt h0 (not_le.1 hle), hle]

/-- Setting all bits above the mask subtracts the power. -/
theorem or_not_mask (hb : b < w) {x : Int} (h0 : 0 ≤ x) (hx : x < 2 ^ b) : or w x (not w (2 ^ b - 1)) = x - 2 ^ b := by
  obtain ⟨n, rfl⟩ := Int.eq_ofNat_of_zero_le h0
  have hn : n < 2 ^ b := by exact_mod_cast hx
  have hlt : 2 ^ b < 2 ^ w := Nat.pow_lt_pow_right (by omega) hb
  have hdisjoint : BitVec.ofInt w n &&& ~~~BitVec.ofInt w (2 ^ b - 1) = 0#w := by
    apply BitVec.eq_of_getLsbD_eq
    intro i hi
    have hmask : (BitVec.ofInt w (2 ^ b - 1)).getLsbD i = decide (i < b) := by
      rw [BitVec.getLsbD, toNat_mask hb, Nat.testBit_two_pow_sub_one]
    have hbit : b ≤ i → (BitVec.ofInt w n).getLsbD i = false := by
      intro hle
      rw [BitVec.getLsbD, BitVec.ofInt_natCast, BitVec.toNat_ofNat, Nat.mod_eq_of_lt (by omega)]
      exact Nat.testBit_lt_two_pow (lt_of_lt_of_le hn (Nat.pow_le_pow_right (by omega) hle))
    rw [BitVec.getLsbD_and, BitVec.getLsbD_not, hmask, BitVec.getLsbD_zero]
    by_cases hib : i < b
    · simp [hib]
    · rw [hbit (not_lt.1 hib), Bool.false_and]
  have hnot : ~~~BitVec.ofInt w (2 ^ b - 1) = BitVec.ofInt w (-2 ^ b) := by
    have hmask : (2 : Int) ^ b - 1 = ((2 ^ b - 1 : Nat) : Int) := by push_cast [Nat.one_le_two_pow]; omega
    have hneg : -(2 : Int) ^ b = Int.negSucc (2 ^ b - 1) := by
      rw [Int.negSucc_eq, ← hmask]
      omega
    rw [hmask, hneg, BitVec.ofInt_natCast, BitVec.ofInt_negSucc_eq_not_ofNat]
  have hhalf : (2 : Int) ^ b ≤ 2 ^ (w - 1) := pow_le_pow_right₀ (by omega) (by omega)
  rw [or, not, BitVec.ofInt_toInt, ← BitVec.add_eq_or_of_and_eq_zero _ _ hdisjoint, hnot, ← BitVec.ofInt_add,
    BitVec.toInt_ofInt_eq_self (by omega) (by omega) (by omega)]
  omega

end

end CInt
