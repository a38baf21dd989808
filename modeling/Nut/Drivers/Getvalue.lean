import Nut.Drivers.Hidparser
import Nut.Lib.CInt
import Mathlib.Data.Nat.Size
import Mathlib.Tactic.LinearCombination

/-!
# Values in a report

`GetValue` collects the bits of a field and moves the number into the logical range of the item; `SetValue` puts a number
into the bits.  Here `int` has 32 bits and `long` has 64.  There is no result where a shift, a sum or a difference is not
defined.
-/

namespace Nut

namespace Hid

open CInt

/-- The loop of `hibit` that takes bits. -/
def bitLoop (x res : Nat) : Nat := if x = 0 then res else bitLoop (x / 2) (res + 1)

/-- The loop of `hibit` that takes bytes, and the other after it. -/
def byteLoop (x res : Nat) : Nat := if 0xff < x then byteLoop (x / 256) (res + 8) else bitLoop x res

/-- One more than the position of the highest bit of a number. -/
def hibit (x : Nat) : Nat := byteLoop x 0

/-- `value += (1 << Weight)` -/
def addBit (value : Int) (weight : Nat) : Option Int := do
  let bit ← shiftOne 32 weight
  result 64 (value + bit)

/-- The loop of `GetValue`. -/
def rawValue (buf : List Byte) (d : HIDData) : Option Int :=
  (List.range d.size).foldlM (fun value weight =>
    if bitAt buf (d.offset + 8 + weight) then addBit value weight else some value) 0

/-- `value` with the bits above the mask set, if the range has negative numbers and the sign bit is set. -/
def signExtend (d : HIDData) (value mask signbit : Int) : Int :=
  if d.logMin < 0 ∧ CInt.and 64 value signbit ≠ 0 then CInt.or 64 value (CInt.not 64 mask) else value

/-- The end of `GetValue`: the number with its own sign, moved to the closest one in the range. -/
def nearest (d : HIDData) (rawvalue : Int) : Option Int := do
  let mask ← shiftOne 32 d.size
  let mask ← result 32 (mask - 1)
  let signbit ← shiftOne 32 (d.size - 1)
  let value := signExtend d rawvalue mask signbit
  return if value < d.logMin then d.logMin else if d.logMax < value then d.logMax else value

/-- `GetValue`, once it is known how many bits are significant. -/
def reduce (d : HIDData) (b : Int) (rawvalue : Int) : Option Int := do
  let mask ← shiftOne 32 b
  let mask ← result 32 (mask - 1)
  let signbit ← shiftOne 32 (b - 1)
  let value := signExtend d (CInt.and 64 rawvalue mask) mask signbit
  if d.logMin ≤ value ∧ value ≤ d.logMax then return value
  let m ← result 64 (value - d.logMin)
  let value ← result 64 (d.logMin + CInt.and 64 m mask)
  if value ≤ d.logMax then return value
  nearest d rawvalue

/-- `GetValue`, from the raw number on. -/
def translate (d : HIDData) (rawvalue : Int) : Option Int := do
  let diff ← result 64 (d.logMax - d.logMin)
  let range ← result 64 (diff + 1)
  if range ≤ 0 then return rawvalue
  let last ← result 64 (range - 1)
  reduce d (hibit (last % 2 ^ 32).toNat) rawvalue

/-- `GetValue` -/
def getValue (buf : List Byte) (d : HIDData) : Option Int := do
  let rawvalue ← rawValue buf d
  translate d rawvalue

/-- `SetValue`, with its shifts. -/
def setValueShifts (d : HIDData) (buf : List Byte) (value : Int) : Option (List Byte) :=
  (List.range d.size).foldlM (fun buf (weight : Nat) => do
    let bit ← shiftOne 32 weight
    some (setBit buf (d.offset + 8 + weight) (CInt.and 64 value bit ≠ 0))) buf

/-! ### The number of significant bits -/

theorem size_div_pow (x k : Nat) : (x / 2 ^ k).size = x.size - k := by
  refine le_antisymm ?_ ?_
  · rw [Nat.size_le, Nat.div_lt_iff_lt_mul (Nat.two_pow_pos k), ← pow_add, ← Nat.size_le]
    omega
  · rw [Nat.sub_le_iff_le_add, Nat.size_le, pow_add, ← Nat.div_lt_iff_lt_mul (Nat.two_pow_pos k), ← Nat.size_le]

theorem bitLoop_eq (x res : Nat) : bitLoop x res = res + x.size := by
  induction x, res using bitLoop.induct with
  | case1 res => rw [bitLoop, if_pos rfl, Nat.size_zero, Nat.add_zero]
  | case2 x res hx ih =>
    have hsize := size_div_pow x 1
    have hpos : 0 < x.size := Nat.size_pos.2 (Nat.pos_of_ne_zero hx)
    rw [pow_one] at hsize
    rw [bitLoop, if_neg hx, ih, hsize]
    omega

theorem byteLoop_eq (x res : Nat) : byteLoop x res = res + x.size := by
  induction x, res using byteLoop.induct with
  | case1 x res hx ih =>
    have hsize := size_div_pow x 8
    have hpos : 8 < x.size := Nat.lt_size.2 (by omega)
    rw [byteLoop, if_pos hx, ih, show 256 = 2 ^ 8 from rfl, hsize]
    omega
  | case2 x res hx => rw [byteLoop, if_neg hx, bitLoop_eq]

theorem hibit_eq (x : Nat) : hibit x = x.size := by rw [hibit, byteLoop_eq, Nat.zero_add]

/-! ### The bits of a field -/

/-- The number in the `size` bits from `start` on. -/
def fieldValue (buf : List Byte) (start : Nat) : Nat → Nat
  | 0 => 0
  | size + 1 => fieldValue buf start size + if bitAt buf (start + size) then 2 ^ size else 0

theorem fieldValue_lt (buf : List Byte) (start size : Nat) : fieldValue buf start size < 2 ^ size := by
  induction size with
  | zero => simp [fieldValue]
  | succ size ih =>
    rw [fieldValue, pow_succ]
    split <;> omega

/-- The residue with one bit more. -/
theorem emod_pow_succ (v : Int) (size : Nat) : v % 2 ^ (size + 1) = v % 2 ^ size + 2 ^ size * (v / 2 ^ size % 2) := by
  have hpos : (0 : Int) < 2 ^ size := by positivity
  have hquot := Int.emod_add_mul_ediv v (2 ^ size)
  have hbit := Int.emod_add_mul_ediv (v / 2 ^ size) 2
  have h0 := Int.emod_nonneg v hpos.ne'
  have hlt := Int.emod_lt_of_pos v hpos
  have hpow : (2 : Int) ^ (size + 1) = 2 ^ size * 2 := pow_succ 2 size
  refine ((Int.ediv_emod_unique (q := v / 2 ^ size / 2) (by positivity)).2 ⟨?_, ?_, ?_⟩).2
  · rw [hpow]
    linear_combination hquot + 2 ^ size * hbit
  · rcases Int.emod_two_eq_zero_or_one (v / 2 ^ size) with h | h <;> rw [h] <;> omega
  · rcases Int.emod_two_eq_zero_or_one (v / 2 ^ size) with h | h <;> rw [h] <;> omega

/-- The field holds the low bits of a number when its bits are those. -/
theorem fieldValue_of_bits {buf : List Byte} {start size : Nat} {v : Int}
    (h : ∀ weight < size, bitAt buf (start + weight) = (v / 2 ^ weight % 2 = 1)) :
    (fieldValue buf start size : Int) = v % 2 ^ size := by
  induction size with
  | zero =>
    rw [pow_zero, Int.emod_one]
    rfl
  | succ size ih =>
    have hbit := h size (Nat.lt_succ_self size)
    rw [fieldValue, emod_pow_succ, ← ih fun weight hw => h weight (by omega)]
    by_cases hone : v / 2 ^ size % 2 = 1
    · simp [hbit, hone]
    · have hzero : v / 2 ^ size % 2 = 0 := by omega
      simp [hbit, hzero]

private theorem range_split {size : Nat} (h : 32 ≤ size) : ∃ weights, List.range size = List.range 31 ++ 31 :: weights := by
  refine ⟨(List.range (size - 32)).map (32 + ·), ?_⟩
  conv => lhs; rw [show size = 32 + (size - 32) by omega, List.range_add, List.range_succ]
  simp

theorem addBit_eq {value weight : Nat} (hvalue : value < 2 ^ weight) (hweight : weight ≤ 30) :
    addBit value weight = some ((value + 2 ^ weight : Nat) : Int) := by
  have hle : 2 ^ weight ≤ 2 ^ 30 := Nat.pow_le_pow_right (by omega) hweight
  have hshift := shiftOne_of_lt (w := 32) (k := weight) (by omega)
  have hcast : (value : Int) + 2 ^ weight = ((value + 2 ^ weight : Nat) : Int) := by push_cast; rfl
  have hrange : InRange 64 ((value + 2 ^ weight : Nat) : Int) := .of_abs_le (k := 31) (by omega) (by omega)
  rw [addBit, hshift, Option.bind_eq_bind, Option.bind_some, hcast, result_of_inRange hrange]

private theorem rawLoop (buf : List Byte) (start : Nat) {size : Nat} (hsize : size ≤ 31) :
    (List.range size).foldlM (fun value weight => if bitAt buf (start + weight) then addBit value weight else some value)
      (0 : Int) = some (fieldValue buf start size : Int) := by
  induction size with
  | zero => rfl
  | succ size ih =>
    have hadd := addBit_eq (fieldValue_lt buf start size) (by omega)
    rw [List.range_succ, List.foldlM_append, ih (by omega), fieldValue]
    by_cases hbit : bitAt buf (start + size)
    · simp [hbit, hadd]
    · simp [hbit]

theorem rawValue_eq {d : HIDData} (hsize : d.size ≤ 31) (buf : List Byte) :
    rawValue buf d = some (fieldValue buf (d.offset + 8) d.size : Int) := rawLoop buf _ hsize

private theorem setLoop (d : HIDData) (buf : List Byte) (value : Int) {size : Nat} (hsize : size ≤ 31) :
    (List.range size).foldlM (fun buf (weight : Nat) => do
      let bit ← shiftOne 32 weight
      some (setBit buf (d.offset + 8 + weight) (CInt.and 64 value bit ≠ 0))) buf =
    some ((List.range size).foldl (fun buf weight => setBit buf (d.offset + 8 + weight) (valueBit value weight)) buf) := by
  induction size with
  | zero => rfl
  | succ size ih =>
    have hshift := shiftOne_of_lt (w := 32) (k := size) (by omega)
    have hbit : decide (CInt.and 64 value (2 ^ size) ≠ 0) = valueBit value size := by
      rw [valueBit, Nat.mod_eq_of_lt (by omega)]
      exact decide_eq_decide.2 (and_bit (by omega) value)
    rw [List.range_succ, List.foldlM_append, ih (by omega), List.foldl_append]
    simp [hshift, ← hbit]

/-- `SetValue` masks the number with a bit for each weight. -/
theorem setValueShifts_eq (d : HIDData) (buf : List Byte) (value : Int) :
    setValueShifts d buf value = if d.size ≤ 31 then some (setValue d buf value) else none := by
  unfold setValueShifts
  by_cases hsize : d.size ≤ 31
  · rw [if_pos hsize, setLoop d buf value hsize, setValue]
  · obtain ⟨weights, hweights⟩ := range_split (not_le.1 hsize)
    have hshift := shiftOne_eq_none (w := 32) (k := 31) (by omega)
    rw [if_neg hsize, hweights, List.foldlM_append, setLoop d buf value (Nat.le_refl _)]
    simp [hshift]

/-! ### The logical range -/

/-- The bounds of the range are what `FormatValue` yields. -/
structure Formatted (d : HIDData) : Prop where
  logMin : -2 ^ 31 ≤ d.logMin ∧ d.logMin < 2 ^ 31
  logMax : -2 ^ 31 ≤ d.logMax ∧ d.logMax < 2 ^ 31

/-- A number of `k + 1` bits, with the sign that the range gives it. -/
def signOf (d : HIDData) (k : Nat) (value : Int) : Int :=
  if d.logMin < 0 ∧ 2 ^ k ≤ value then value - 2 ^ (k + 1) else value

theorem signExtend_eq {k : Nat} (hk : k + 1 < 64) (d : HIDData) {value : Int} (h0 : 0 ≤ value)
    (h : value < 2 ^ (k + 1)) : signExtend d value (2 ^ (k + 1) - 1) (2 ^ k) = signOf d k value := by
  have htop := and_top hk h0 h
  unfold signExtend signOf
  simp only [htop, or_not_mask hk h0 h]

theorem signOf_emod (d : HIDData) (k : Nat) (value : Int) : signOf d k value % 2 ^ (k + 1) = value % 2 ^ (k + 1) := by
  unfold signOf
  split
  · rw [Int.sub_emod_right]
  · rfl

/-- The least number from the bottom of the range on that has the low bits of `value`. -/
def lifted (d : HIDData) (b : Nat) (value : Int) : Int := d.logMin + (value - d.logMin) % 2 ^ b

theorem lifted_emod (d : HIDData) (b : Nat) (value : Int) : lifted d b value % 2 ^ b = value % 2 ^ b := by
  rw [lifted, Int.add_emod_emod, add_sub_cancel]

theorem lifted_le {d : HIDData} {b : Nat} {value x : Int} (hx : d.logMin ≤ x) (hmod : x % 2 ^ b = value % 2 ^ b) :
    d.logMin ≤ lifted d b value ∧ lifted d b value ≤ x := by
  have hpos : (0 : Int) < 2 ^ b := by positivity
  have hsame : (value - d.logMin) % 2 ^ b = (x - d.logMin) % 2 ^ b := by
    rw [Int.sub_emod, ← hmod, ← Int.sub_emod]
  have hquot := Int.emod_add_mul_ediv (x - d.logMin) (2 ^ b)
  have hquot0 : 0 ≤ 2 ^ b * ((x - d.logMin) / 2 ^ b) := mul_nonneg hpos.le (Int.ediv_nonneg (by omega) hpos.le)
  have h0 := Int.emod_nonneg (x - d.logMin) hpos.ne'
  unfold lifted
  rw [hsame]
  omega

theorem result_mask {b : Nat} (hb : b ≤ 30) : result 32 (2 ^ b - 1) = some (2 ^ b - 1) := by
  have hle : 2 ^ b ≤ 2 ^ 30 := Nat.pow_le_pow_right (by omega) hb
  have hpos : 0 < 2 ^ b := Nat.two_pow_pos b
  have hcast : (2 : Int) ^ b = ((2 ^ b : Nat) : Int) := by push_cast; rfl
  exact result_of_inRange (.of_abs_le (k := 30) (by omega) (by omega))

/-- With no number in the range, the number of the field is returned as it is. -/
theorem translate_of_empty {d : HIDData} (hd : Formatted d) (h : d.logMax < d.logMin) (raw : Int) :
    translate d raw = some raw := by
  obtain ⟨⟨hmin, hmin'⟩, hmax, hmax'⟩ := hd
  have hdiff : result 64 (d.logMax - d.logMin) = some (d.logMax - d.logMin) :=
    result_of_inRange (.of_abs_le (k := 32) (by omega) (by omega))
  have hrange : result 64 (d.logMax - d.logMin + 1) = some (d.logMax - d.logMin + 1) :=
    result_of_inRange (.of_abs_le (k := 32) (by omega) (by omega))
  rw [translate, hdiff, Option.bind_eq_bind, Option.bind_some, hrange, Option.bind_some, if_pos (by omega)]
  rfl

/-- The number of significant bits of the range. -/
def rangeBits (d : HIDData) : Nat := hibit (d.logMax - d.logMin).toNat

theorem rangeBits_eq (d : HIDData) : rangeBits d = (d.logMax - d.logMin).toNat.size := hibit_eq _

theorem translate_of_le {d : HIDData} (hd : Formatted d) (h : d.logMin ≤ d.logMax) (raw : Int) :
    translate d raw = reduce d (rangeBits d) raw := by
  obtain ⟨⟨hmin, hmin'⟩, hmax, hmax'⟩ := hd
  obtain ⟨diff, hdiff⟩ : ∃ diff : Nat, d.logMax - d.logMin = diff := Int.eq_ofNat_of_zero_le (by omega)
  have hlast : hibit ((diff : Int) % 2 ^ 32).toNat = rangeBits d := by
    rw [Int.emod_eq_of_lt (by omega) (by omega), rangeBits, hdiff]
  have hdiff64 : result 64 ((diff : Nat) : Int) = some (diff : Int) :=
    result_of_inRange (.of_abs_le (k := 32) (by omega) (by omega))
  have hrange64 : result 64 ((diff : Int) + 1) = some ((diff : Int) + 1) :=
    result_of_inRange (.of_abs_le (k := 32) (by omega) (by omega))
  rw [translate, hdiff, hdiff64, Option.bind_eq_bind, Option.bind_some, hrange64, Option.bind_some, if_neg (by omega),
    add_sub_cancel_right, hdiff64, Option.bind_some, hlast]

theorem reduce_eq {d : HIDData} (hd : Formatted d) {k : Nat} (hk : k ≤ 29) (raw : Int) :
    reduce d (k + 1 : Nat) raw =
      let value := signOf d k (raw % 2 ^ (k + 1))
      if d.logMin ≤ value ∧ value ≤ d.logMax then some value
      else if lifted d (k + 1) raw ≤ d.logMax then some (lifted d (k + 1) raw) else nearest d raw := by
  obtain ⟨⟨hmin, hmin'⟩, hmax, hmax'⟩ := hd
  have hpow : 2 ^ (k + 1) ≤ 2 ^ 30 := Nat.pow_le_pow_right (by omega) (by omega)
  have hcast : (2 : Int) ^ (k + 1) = ((2 ^ (k + 1) : Nat) : Int) := by push_cast; rfl
  have hpos : 0 < 2 ^ (k + 1) := Nat.two_pow_pos _
  have hsign : shiftOne 32 (((k + 1 : Nat) : Int) - 1) = some (2 ^ k) := by
    rw [Int.natCast_add, Int.natCast_one, add_sub_cancel_right]
    exact shiftOne_of_lt (by omega)
  have hmod0 := Int.emod_nonneg raw (b := 2 ^ (k + 1)) (by omega)
  have hmodlt := Int.emod_lt_of_pos raw (b := 2 ^ (k + 1)) (by omega)
  obtain ⟨value, hvalue⟩ : ∃ value, value = signOf d k (raw % 2 ^ (k + 1)) := ⟨_, rfl⟩
  have hvaluemod : value % 2 ^ (k + 1) = raw % 2 ^ (k + 1) := by rw [hvalue, signOf_emod, Int.emod_emod_of_dvd _ dvd_rfl]
  have hbounds : -2 ^ (k + 1) ≤ value ∧ value < 2 ^ (k + 1) := by
    rw [hvalue, signOf]
    split <;> omega
  have hm64 : result 64 (value - d.logMin) = some (value - d.logMin) :=
    result_of_inRange (.of_abs_le (k := 33) (by omega) (by omega))
  have hlifted : d.logMin + (value - d.logMin) % 2 ^ (k + 1) = lifted d (k + 1) raw := by
    rw [lifted, Int.sub_emod, hvaluemod, ← Int.sub_emod]
  have hlifted64 : result 64 (lifted d (k + 1) raw) = some (lifted d (k + 1) raw) := by
    have h1 := Int.emod_nonneg (raw - d.logMin) (b := 2 ^ (k + 1)) (by omega)
    have h2 := Int.emod_lt_of_pos (raw - d.logMin) (b := 2 ^ (k + 1)) (by omega)
    exact result_of_inRange (.of_abs_le (k := 33) (by omega) (by unfold lifted; omega))
  rw [reduce, shiftOne_of_lt (by omega), Option.bind_eq_bind, Option.bind_some, result_mask (by omega), Option.bind_some,
    hsign, Option.bind_some, and_mask (by omega), signExtend_eq (by omega) d hmod0 hmodlt, ← hvalue]
  dsimp only
  rw [hm64, Option.bind_some, and_mask (by omega), hlifted, hlifted64, Option.bind_some]
  rfl

/-- With one number in the range or more than `2 ^ 30`, there is a shift that is not defined. -/
theorem reduce_eq_none {d : HIDData} {b : Nat} (hb : b = 0 ∨ 31 ≤ b) (raw : Int) : reduce d b raw = none := by
  rcases hb with rfl | hb
  · rw [reduce, shiftOne_of_lt (by omega), Option.bind_eq_bind, Option.bind_some, result_mask (by omega), Option.bind_some,
      shiftOne_eq_none (by omega), Option.bind_none]
  · rw [reduce, shiftOne_eq_none (by omega), Option.bind_eq_bind, Option.bind_none]

/-- The numbers of the range with the low bits of `raw`. -/
def Congruent (d : HIDData) (b : Nat) (raw x : Int) : Prop := d.logMin ≤ x ∧ x ≤ d.logMax ∧ x % 2 ^ b = raw % 2 ^ b

/-- Where the range has a number with the low bits of the field, `GetValue` returns one. -/
theorem reduce_congruent {d : HIDData} (hd : Formatted d) {b : Nat} (hb : 1 ≤ b ∧ b ≤ 30) {raw : Int}
    (h : ∃ x, Congruent d b raw x) : ∃ x, reduce d b raw = some x ∧ Congruent d b raw x := by
  obtain ⟨k, rfl⟩ : ∃ k, b = k + 1 := ⟨b - 1, by omega⟩
  obtain ⟨y, hmin, hmax, hmod⟩ := h
  have hlifted := lifted_le hmin hmod
  rw [reduce_eq hd (by omega)]
  dsimp only
  split
  · rename_i hin
    exact ⟨_, rfl, hin.1, hin.2, by rw [signOf_emod, Int.emod_emod_of_dvd _ dvd_rfl]⟩
  · rw [if_pos (by omega)]
    exact ⟨_, rfl, hlifted.1, by omega, lifted_emod _ _ _⟩

/-- Otherwise it rounds the number of the field. -/
theorem reduce_nearest {d : HIDData} (hd : Formatted d) {b : Nat} (hb : 1 ≤ b ∧ b ≤ 30) {raw : Int}
    (h : ¬∃ x, Congruent d b raw x) : reduce d b raw = nearest d raw := by
  obtain ⟨k, rfl⟩ : ∃ k, b = k + 1 := ⟨b - 1, by omega⟩
  have hpos : (0 : Int) < 2 ^ (k + 1) := by positivity
  rw [reduce_eq hd (by omega)]
  dsimp only
  rw [if_neg, if_neg]
  · intro hle
    have h0 := Int.emod_nonneg (raw - d.logMin) hpos.ne'
    exact h ⟨_, by unfold lifted; omega, hle, lifted_emod _ _ _⟩
  · rintro ⟨hmin, hmax⟩
    exact h ⟨_, hmin, hmax, by rw [signOf_emod, Int.emod_emod_of_dvd _ dvd_rfl]⟩

theorem nearest_range {d : HIDData} (hrange : d.logMin ≤ d.logMax) {raw x : Int} (h : nearest d raw = some x) :
    d.logMin ≤ x ∧ x ≤ d.logMax := by
  unfold nearest at h
  obtain ⟨_, -, h⟩ := Option.bind_eq_some_iff.1 h
  obtain ⟨_, -, h⟩ := Option.bind_eq_some_iff.1 h
  obtain ⟨_, -, h⟩ := Option.bind_eq_some_iff.1 h
  obtain rfl := Option.some.inj h
  split_ifs <;> omega

theorem nearest_isSome (d : HIDData) (raw : Int) : (nearest d raw).isSome = true ↔ 1 ≤ d.size ∧ d.size ≤ 30 := by
  constructor
  · intro h
    obtain ⟨x, hx⟩ := Option.isSome_iff_exists.1 h
    unfold nearest at hx
    obtain ⟨_, hmask, hx⟩ := Option.bind_eq_some_iff.1 hx
    obtain ⟨_, -, hx⟩ := Option.bind_eq_some_iff.1 hx
    obtain ⟨_, hsign, hx⟩ := Option.bind_eq_some_iff.1 hx
    by_contra hsize
    rcases not_and_or.1 hsize with hsize | hsize
    · rw [shiftOne_eq_none (by omega)] at hsign
      cases hsign
    · rw [shiftOne_eq_none (by omega)] at hmask
      cases hmask
  · rintro ⟨hsize, hsize'⟩
    have hsign : shiftOne 32 ((d.size : Int) - 1) = some (2 ^ (d.size - 1)) := by
      rw [show (d.size : Int) - 1 = ((d.size - 1 : Nat) : Int) by omega]
      exact shiftOne_of_lt (by omega)
    rw [nearest, shiftOne_of_lt (by omega), Option.bind_eq_bind, Option.bind_some, result_mask hsize', Option.bind_some, hsign]
    rfl

/-! ### What the parser makes of the bounds -/

theorem littleEndian_lt (reportDesc : Nat → UInt8) (pos size : Nat) : littleEndian reportDesc pos size < 256 ^ size := by
  induction size generalizing pos with
  | zero => simp [littleEndian]
  | succ size ih =>
    have hbyte : (reportDesc pos).toNat < 256 := (reportDesc pos).toNat_lt
    have hrest := ih (pos + 1)
    rw [littleEndian, pow_succ]
    omega

/-- The parser holds an item with the number in its bytes, and bounds that come from such. -/
structure Bounded (p : HIDParser) : Prop where
  value : p.value < 256 ^ itemSize p.item
  data : Formatted p.data

theorem formatValue_range {value item : Nat} (h : value < 256 ^ itemSize item) :
    -2 ^ 31 ≤ formatValue value (itemSize item) ∧ formatValue value (itemSize item) < 2 ^ 31 := by
  have hsigned : ∀ bits ∈ [8, 16, 32], -2 ^ 31 ≤ signed bits value ∧ signed bits value < 2 ^ 31 := by
    intro bits hbits
    simp only [List.mem_cons, List.not_mem_nil, or_false] at hbits
    rcases hbits with rfl | rfl | rfl <;> simp only [signed] <;> split <;> omega
  unfold itemSize at *
  split at h
  · simp only [formatValue]
    omega
  · exact hsigned 8 (by simp)
  · exact hsigned 16 (by simp)
  · exact hsigned 32 (by simp)

theorem keeps_bounded : Keeps Bounded Formatted where
  start := ⟨by decide, by decide, by decide⟩
  next reportDesc p h := ⟨littleEndian_lt _ _ _, h.data⟩
  item p p' r h hitem := by
    rcases hidItem_cases hitem with ⟨-, hq⟩ | ⟨-, rfl, hq | hq | hq | rfl⟩
    · unfold mainItem at hq
      obtain ⟨path, -, hq⟩ := Option.bind_eq_some_iff.1 hq
      obtain ⟨usageTab, -, hq⟩ := Option.bind_eq_some_iff.1 hq
      obtain ⟨⟨tab, offset⟩, -, hq⟩ := Option.bind_eq_some_iff.1 hq
      obtain ⟨⟨tab', offset'⟩, -, hq⟩ := Option.bind_eq_some_iff.1 hq
      obtain ⟨rfl, rfl⟩ := Prod.mk.inj (Option.some.inj hq)
      refine ⟨⟨h.value, ⟨h.data.logMin, h.data.logMax⟩⟩, fun data found hdata => ?_⟩
      obtain ⟨rfl, rfl⟩ := Prod.mk.inj (Option.some.inj hdata)
      exact ⟨h.data.logMin, h.data.logMax⟩
    · unfold usageItem at hq
      split_ifs at hq
      obtain rfl := Option.some.inj hq
      exact ⟨⟨h.value, h.data⟩, by simp⟩
    · unfold collectionItem at hq
      obtain ⟨path, -, hq⟩ := Option.bind_eq_some_iff.1 hq
      obtain ⟨-, -, hq⟩ := Option.bind_eq_some_iff.1 hq
      obtain ⟨path', -, hq⟩ := Option.bind_eq_some_iff.1 hq
      obtain rfl := Option.some.inj hq
      exact ⟨⟨h.value, ⟨h.data.logMin, h.data.logMax⟩⟩, by simp⟩
    · unfold endCollectionItem at hq
      obtain ⟨node, -, rfl⟩ := Option.map_eq_some_iff.1 hq
      exact ⟨⟨h.value, ⟨h.data.logMin, h.data.logMax⟩⟩, by simp⟩
    · have hspec := globalItem_spec p
      have hformat := formatValue_range h.value
      refine ⟨⟨?_, ?_, ?_⟩, by simp⟩
      · rw [hspec.item, hspec.value]
        exact h.value
      · rcases hspec.logMin with hmin | hmin <;> rw [hmin]
        · exact h.data.logMin
        · exact hformat
      · rcases hspec.logMax with hmax | hmax <;> rw [hmax]
        · exact h.data.logMax
        · exact hformat

/-- The bounds of every item of a descriptor. -/
theorem parse_formatted {reportDesc : Nat → UInt8} {n : Nat} {desc : HIDDesc}
    (h : parseReportDesc reportDesc n = some desc) : ∀ d ∈ desc.item, Formatted d := keeps_bounded.parse h

/-! ### Set, then get -/

/-- Two numbers of the range with the same significant bits are the same. -/
theorem congruent_unique {d : HIDData} {x y raw : Int} (hx : Congruent d (rangeBits d) raw x)
    (hy : Congruent d (rangeBits d) raw y) : x = y := by
  have hlt : (d.logMax - d.logMin).toNat < 2 ^ rangeBits d := by
    rw [rangeBits_eq]
    exact Nat.lt_size_self _
  have hcast : (2 : Int) ^ rangeBits d = ((2 ^ rangeBits d : Nat) : Int) := by push_cast; rfl
  have hdvd : (2 : Int) ^ rangeBits d ∣ x - y := Int.dvd_of_emod_eq_zero (by
    rw [Int.sub_emod, hx.2.2, ← hy.2.2, sub_self, Int.zero_emod])
  have hzero : x - y = 0 := Int.eq_zero_of_abs_lt_dvd hdvd (by
    have := hx.1; have := hx.2.1; have := hy.1; have := hy.2.1
    rw [hcast, abs_lt]
    omega)
  omega

theorem getValue_eq {d : HIDData} (hsize : d.size ≤ 31) (buf : List Byte) :
    getValue buf d = translate d (fieldValue buf (d.offset + 8) d.size) := by
  rw [getValue, rawValue_eq hsize, Option.bind_eq_bind, Option.bind_some]

/-- The range has at least two numbers, and a field of `size` bits has room for it. -/
theorem rangeBits_le {d : HIDData} {size : Nat} (hrange : d.logMin < d.logMax)
    (hroom : d.logMax - d.logMin + 1 ≤ 2 ^ size) : 1 ≤ rangeBits d ∧ rangeBits d ≤ size := by
  have hcast : (2 : Int) ^ size = ((2 ^ size : Nat) : Int) := by push_cast; rfl
  rw [rangeBits_eq]
  exact ⟨Nat.size_pos.2 (by omega), Nat.size_le.2 (by omega)⟩

/-- A number that has been set is got back, `SetValue` changes only the bits of the item, and `GetValue` always returns a
number of the range, with the significant bits of the field if the range has such a number. -/
theorem get_set {d : HIDData} {buf : List Byte} (hd : Formatted d) (hsize : 1 ≤ d.size ∧ d.size ≤ 30)
    (hrange : d.logMin < d.logMax) (hroom : d.logMax - d.logMin + 1 ≤ 2 ^ d.size)
    (hlen : d.offset + 8 + d.size ≤ 8 * buf.length) :
    (∀ v, d.logMin ≤ v → v ≤ d.logMax →
      setValueShifts d buf v = some (setValue d buf v) ∧ (setValue d buf v).length = buf.length ∧
        (∀ b, ¬(d.offset + 8 ≤ b ∧ b < d.offset + 8 + d.size) → bitAt (setValue d buf v) b = bitAt buf b) ∧
          getValue (setValue d buf v) d = some v) ∧
      ∃ x, getValue buf d = some x ∧ d.logMin ≤ x ∧ x ≤ d.logMax ∧
        ((∃ y, Congruent d (rangeBits d) (fieldValue buf (d.offset + 8) d.size) y) →
          x % 2 ^ rangeBits d = fieldValue buf (d.offset + 8) d.size % 2 ^ rangeBits d) := by
  have hbits := rangeBits_le hrange hroom
  have hget : ∀ buf, getValue buf d = reduce d (rangeBits d) (fieldValue buf (d.offset + 8) d.size) := fun buf => by
    rw [getValue_eq (by omega), translate_of_le hd hrange.le]
  refine ⟨fun v hmin hmax => ⟨?_, length_setValue d buf v, fun b hb => ?_, ?_⟩, ?_⟩
  · rw [setValueShifts_eq, if_pos (by omega)]
  · rw [bitAt_setValue hlen, if_neg hb]
  · have hfield : (fieldValue (setValue d buf v) (d.offset + 8) d.size : Int) = v % 2 ^ d.size := by
      refine fieldValue_of_bits fun weight hw => ?_
      rw [bitAt_setValue hlen, if_pos (by omega), Nat.add_sub_cancel_left, valueBit, Nat.mod_eq_of_lt (by omega),
        decide_eq_true_eq]
    have hcongruent : Congruent d (rangeBits d) (v % 2 ^ d.size) v := by
      refine ⟨hmin, hmax, (Int.emod_emod_of_dvd v ?_).symm⟩
      exact pow_dvd_pow 2 hbits.2
    rw [hget, hfield]
    obtain ⟨x, hx, hsame⟩ := reduce_congruent hd (by omega) ⟨v, hcongruent⟩
    rw [hx, congruent_unique hsame hcongruent]
  · rw [hget]
    by_cases h : ∃ y, Congruent d (rangeBits d) (fieldValue buf (d.offset + 8) d.size) y
    · obtain ⟨x, hx, hsame⟩ := reduce_congruent hd (by omega) h
      exact ⟨x, hx, hsame.1, hsame.2.1, fun _ => hsame.2.2⟩
    · obtain ⟨x, hx⟩ := Option.isSome_iff_exists.1 ((nearest_isSome d (fieldValue buf (d.offset + 8) d.size)).2 hsize)
      have hin := nearest_range hrange.le hx
      exact ⟨x, by rw [reduce_nearest hd (by omega) h, hx], hin.1, hin.2, fun h' => absurd h' h⟩

theorem get_set_percent :
    let d : HIDData := { HIDParser.init.data with size := 8, logMin := -1, logMax := 100 }
    setValueShifts d [1, 0] 64 = some (setValue d [1, 0] 64) ∧ getValue (setValue d [1, 0] 64) d = some 64 :=
  have h := (@get_set { HIDParser.init.data with size := 8, logMin := -1, logMax := 100 } [1, 0]
    ⟨by decide, by decide⟩ (by decide) (by decide) (by decide) (by decide)).1 64 (by decide) (by decide)
  ⟨h.1, h.2.2.2⟩

/-! ### Arithmetic that is defined -/

/-- `GetValue` and `SetValue` of an item are defined for every report that holds it. -/
def ArithmeticDefined (d : HIDData) : Prop :=
  ∀ buf : List Byte, d.offset + 8 + d.size ≤ 8 * buf.length →
    (getValue buf d).isSome = true ∧ ∀ value, (setValueShifts d buf value).isSome = true

/-- A field of at most 31 bits with no number in its range, or with 2 to `2 ^ 30`; without bits it holds 0, which must have
the significant bits of a number of the range, and with 31 bits it may hold anything, so the range must have a number for
all. -/
def RangeDefined (d : HIDData) : Prop :=
  d.size ≤ 31 ∧ (d.logMax < d.logMin ∨ (d.logMin < d.logMax ∧ d.logMax - d.logMin < 2 ^ 30 ∧
    (d.size = 0 → ∃ k, d.logMin ≤ k * 2 ^ rangeBits d ∧ k * 2 ^ rangeBits d ≤ d.logMax) ∧
      (d.size = 31 → d.logMax - d.logMin + 1 = 2 ^ rangeBits d)))

/-- A report in which the field holds a number. -/
theorem exists_fieldValue (d : HIDData) (hsize : d.size ≤ 31) {raw : Int} (h0 : 0 ≤ raw) (h : raw < 2 ^ d.size) :
    ∃ buf : List Byte, d.offset + 8 + d.size ≤ 8 * buf.length ∧ (fieldValue buf (d.offset + 8) d.size : Int) = raw := by
  have hlen : d.offset + 8 + d.size ≤ 8 * (List.replicate (d.offset + 8 + d.size) (0 : Byte)).length := by
    rw [List.length_replicate]
    omega
  refine ⟨setValue d (List.replicate (d.offset + 8 + d.size) 0) raw, by rw [length_setValue]; exact hlen, ?_⟩
  have hbits : ∀ weight < d.size, bitAt (setValue d (List.replicate (d.offset + 8 + d.size) 0) raw) (d.offset + 8 + weight) =
      (raw / 2 ^ weight % 2 = 1) := by
    intro weight hw
    rw [bitAt_setValue hlen, if_pos (by omega), Nat.add_sub_cancel_left, valueBit, Nat.mod_eq_of_lt (by omega),
      decide_eq_true_eq]
  rw [fieldValue_of_bits hbits, Int.emod_eq_of_lt h0 h]

/-- A field without bits holds 0. -/
theorem congruent_zero (d : HIDData) (b : Nat) :
    (∃ x, Congruent d b 0 x) ↔ ∃ k, d.logMin ≤ k * 2 ^ b ∧ k * 2 ^ b ≤ d.logMax := by
  constructor
  · rintro ⟨x, hmin, hmax, hmod⟩
    have hx : x / 2 ^ b * 2 ^ b = x := Int.ediv_mul_cancel (Int.dvd_of_emod_eq_zero (by simpa using hmod))
    exact ⟨x / 2 ^ b, by rw [hx]; exact ⟨hmin, hmax⟩⟩
  · rintro ⟨k, hmin, hmax⟩
    exact ⟨k * 2 ^ b, hmin, hmax, by simp⟩

/-- A range as large as the power has a number for every field, -/
theorem congruent_full {d : HIDData} {b : Nat} (h : d.logMax - d.logMin + 1 = 2 ^ b) (raw : Int) :
    ∃ x, Congruent d b raw x := by
  have hpos : (0 : Int) < 2 ^ b := by positivity
  have h0 := Int.emod_nonneg (raw - d.logMin) hpos.ne'
  have hlt := Int.emod_lt_of_pos (raw - d.logMin) hpos
  exact ⟨lifted d b raw, by unfold lifted; omega, by unfold lifted; omega, lifted_emod _ _ _⟩

/-- and a smaller one has none for some field. -/
theorem exists_not_congruent {d : HIDData} {b : Nat} (h : d.logMax - d.logMin + 1 < 2 ^ b) :
    ∃ raw, 0 ≤ raw ∧ raw < 2 ^ b ∧ ¬∃ x, Congruent d b raw x := by
  have hpos : (0 : Int) < 2 ^ b := by positivity
  refine ⟨_, Int.emod_nonneg (d.logMin - 1) hpos.ne', Int.emod_lt_of_pos _ hpos, ?_⟩
  rintro ⟨x, hmin, hmax, hmod⟩
  have hdvd : (2 : Int) ^ b ∣ x - (d.logMin - 1) := Int.dvd_of_emod_eq_zero (by
    rw [Int.sub_emod, hmod, Int.emod_emod_of_dvd _ dvd_rfl, sub_self, Int.zero_emod])
  have hle := Int.le_of_dvd (by omega) hdvd
  omega

/-- The arithmetic of every item of a descriptor is defined if and only if its size and its range are such. -/
theorem arithmetic_defined {reportDesc : Nat → UInt8} {n : Nat} {desc : HIDDesc}
    (h : parseReportDesc reportDesc n = some desc) {d : HIDData} (hd : d ∈ desc.item) :
    ArithmeticDefined d ↔ RangeDefined d := by
  have hformatted := parse_formatted h d hd
  have hcast : (2 : Int) ^ rangeBits d = ((2 ^ rangeBits d : Nat) : Int) := by push_cast; rfl
  have hroom : d.logMin ≤ d.logMax → d.logMax - d.logMin < 2 ^ rangeBits d := by
    intro hle
    have hlt := Nat.lt_size_self (d.logMax - d.logMin).toNat
    rw [hcast, rangeBits_eq]
    omega
  have hget : d.size ≤ 31 → d.logMin ≤ d.logMax → ∀ buf,
      getValue buf d = reduce d (rangeBits d) (fieldValue buf (d.offset + 8) d.size) := fun hsize hle buf => by
    rw [getValue_eq hsize, translate_of_le hformatted hle]
  constructor
  · intro hdef
    have hsize : d.size ≤ 31 := by
      obtain ⟨-, hset⟩ := hdef (List.replicate (d.offset + 8 + d.size) 0) (by rw [List.length_replicate]; omega)
      by_contra hsize
      have hsome := hset 0
      rw [setValueShifts_eq, if_neg hsize] at hsome
      cases hsome
    refine ⟨hsize, (lt_or_ge d.logMax d.logMin).imp id fun hle => ?_⟩
    -- what a report with a given number in the field says
    have hdef' : ∀ raw, 0 ≤ raw → raw < 2 ^ d.size → (reduce d (rangeBits d) raw).isSome = true := by
      intro raw h0 hraw
      obtain ⟨buf, hlen, hfield⟩ := exists_fieldValue d hsize h0 hraw
      have hsome := (hdef buf hlen).1
      rwa [hget hsize hle, hfield] at hsome
    have hbits : 1 ≤ rangeBits d ∧ rangeBits d ≤ 30 := by
      by_contra hbits
      have hsome := hdef' 0 le_rfl (by positivity)
      rw [reduce_eq_none (by omega)] at hsome
      cases hsome
    have hsmall : d.logMax - d.logMin < 2 ^ 30 := by
      have hle := Nat.size_le.1 (rangeBits_eq d ▸ hbits.2)
      omega
    have hpositive : 0 < (d.logMax - d.logMin).toNat := Nat.size_pos.1 (rangeBits_eq d ▸ hbits.1)
    have hcongruent : ∀ raw, 0 ≤ raw → raw < 2 ^ d.size → ¬(1 ≤ d.size ∧ d.size ≤ 30) →
        ∃ x, Congruent d (rangeBits d) raw x := by
      intro raw h0 hraw hother
      by_contra hnone
      have hsome := hdef' raw h0 hraw
      rw [reduce_nearest hformatted hbits hnone] at hsome
      exact hother ((nearest_isSome d raw).1 hsome)
    refine ⟨by omega, hsmall, fun hzero => ?_, fun hfull => ?_⟩
    · exact (congruent_zero d _).1 (hcongruent 0 le_rfl (by positivity) (by omega))
    · by_contra hne
      obtain ⟨raw, h0, hraw, hnone⟩ := exists_not_congruent (lt_of_le_of_ne (hroom hle) hne)
      exact hnone (hcongruent raw h0 (lt_of_lt_of_le hraw (pow_le_pow_right₀ (by omega) (by omega))) (by omega))
  · rintro ⟨hsize, hrange⟩ buf -
    refine ⟨?_, fun value => by rw [setValueShifts_eq, if_pos hsize]; rfl⟩
    rcases hrange with hempty | ⟨hlt, hsmall, hzero, hfull⟩
    · rw [getValue_eq hsize, translate_of_empty hformatted hempty]
      rfl
    have hbits : 1 ≤ rangeBits d ∧ rangeBits d ≤ 30 := rangeBits_le hlt (by omega)
    rw [hget hsize hlt.le]
    by_cases hcongruent : ∃ x, Congruent d (rangeBits d) (fieldValue buf (d.offset + 8) d.size) x
    · obtain ⟨x, hx, -⟩ := reduce_congruent hformatted hbits hcongruent
      rw [hx]
      rfl
    rw [reduce_nearest hformatted hbits hcongruent, nearest_isSome]
    by_contra hother
    rcases Nat.eq_zero_or_pos d.size with h0 | h0
    · refine hcongruent ?_
      rw [h0, fieldValue]
      exact (congruent_zero d _).2 (hzero h0)
    · exact hcongruent (congruent_full (hfull (by omega)) _)

/-- A field of eight bits for a percentage. -/
private def percentDesc : List UInt8 := [0x09, 0x01, 0x85, 0x01, 0x25, 0x64, 0x75, 0x08, 0x95, 0x01, 0xB1, 0x00]

/-- The same without its bounds. -/
private def boundlessDesc : List UInt8 := [0x09, 0x01, 0x85, 0x01, 0x75, 0x08, 0x95, 0x01, 0xB1, 0x00]

private def percentItem (logMax : Int) : HIDData :=
  ⟨⟨1, 1 :: List.replicate 9 0⟩, 1, 0, 8, itemFeature, 0, 0, 0, 0, logMax, 0, 0, false, false⟩

theorem arithmetic_percent : ∃ desc, parseReportDesc (memory percentDesc) 12 = some desc ∧
    ∃ d ∈ desc.item, ArithmeticDefined d := by
  obtain ⟨desc, hparse, hitem⟩ : ∃ desc, parseReportDesc (memory percentDesc) 12 = some desc ∧
      desc.item = [percentItem 100] := Option.map_eq_some_iff.1 (by decide +kernel)
  have hd : percentItem 100 ∈ desc.item := by rw [hitem]; exact List.mem_singleton.2 rfl
  refine ⟨desc, hparse, _, hd, (arithmetic_defined hparse hd).2 ⟨by decide, .inr ⟨by decide, by decide, ?_, ?_⟩⟩⟩
  · exact fun h => absurd h (by decide)
  · exact fun h => absurd h (by decide)

/-- A range of one number has no significant bits, and `1` is shifted by -1. -/
theorem arithmetic_boundless : ∃ desc, parseReportDesc (memory boundlessDesc) 10 = some desc ∧
    ∃ d ∈ desc.item, ¬ArithmeticDefined d := by
  obtain ⟨desc, hparse, hitem⟩ : ∃ desc, parseReportDesc (memory boundlessDesc) 10 = some desc ∧
      desc.item = [percentItem 0] := Option.map_eq_some_iff.1 (by decide +kernel)
  refine ⟨desc, hparse, _, by rw [hitem]; exact List.mem_singleton.2 rfl, fun hdef => ?_⟩
  have hbits : rangeBits (percentItem 0) = 0 := by rw [rangeBits_eq]; simp [percentItem]
  have hsome := (hdef [1, 0] (by decide)).1
  rw [getValue_eq (by decide), translate_of_le ⟨by decide, by decide⟩ (by decide), hbits, reduce_eq_none (.inl rfl)] at hsome
  cases hsome

end Hid

end Nut
