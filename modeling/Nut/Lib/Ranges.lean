import Mathlib.Data.Nat.Bitwise
import Mathlib.Data.Nat.Digits.Lemmas
import Mathlib.Order.Bounds.Basic

/-!
# Ranges of numbers

The numbers of `w` bits that agree in their first `m` bits are a range, whose bounds are taken with masks
(`and_mask`, `or_mask`).  A number may be written in bytes, the highest first, where the prefix ends within one of
them (`low_value`, `high_value`).  A walk that takes the successor until it is at the last number passes every
number of a range once (`exists_walk`).
-/

namespace Ranges

/-! ### Prefixes -/

/-- Two numbers of `w` bits agree in their first `m` bits. -/
def SharesPrefix (w m x y : Nat) : Prop := ∀ i, w - m ≤ i → x.testBit i = y.testBit i

section Masks

variable {w m x y k : Nat}

theorem sharesPrefix_iff : SharesPrefix w m x y ↔ x / 2 ^ (w - m) = y / 2 ^ (w - m) := by
  constructor
  · intro h
    refine Nat.eq_of_testBit_eq fun i => ?_
    rw [Nat.testBit_div_two_pow, Nat.testBit_div_two_pow]
    exact h _ (Nat.le_add_left _ _)
  · intro h i hi
    have hbit := congrArg (Nat.testBit · (i - (w - m))) h
    simpa only [Nat.testBit_div_two_pow, Nat.sub_add_cancel hi] using hbit

/-- The lowest and the highest number with the prefix of `x`. -/
def low (k x : Nat) : Nat := 2 ^ k * (x / 2 ^ k)

def high (k x : Nat) : Nat := 2 ^ k * (x / 2 ^ k) + (2 ^ k - 1)

theorem or_mask (k x : Nat) : x ||| (2 ^ k - 1) = high k x := by
  have hpos := Nat.two_pow_pos k
  refine Nat.eq_of_testBit_eq fun i => ?_
  rw [high, Nat.testBit_two_pow_mul_add _ (by omega), Nat.testBit_or, Nat.testBit_two_pow_sub_one]
  by_cases hi : i < k
  · simp [hi]
  · simp [hi, Nat.testBit_div_two_pow, Nat.sub_add_cancel (Nat.le_of_not_lt hi)]

theorem and_mask {n : Nat} (hk : k ≤ n) (hx : x < 2 ^ n) : x &&& (2 ^ n - 2 ^ k) = low k x := by
  have hsub : 2 ^ n - 2 ^ k = 2 ^ k * (2 ^ (n - k) - 1) + 0 := by
    rw [Nat.mul_sub, ← Nat.pow_add, Nat.add_sub_cancel' hk, Nat.mul_one, Nat.add_zero]
  have hlow : low k x = 2 ^ k * (x / 2 ^ k) + 0 := rfl
  refine Nat.eq_of_testBit_eq fun i => ?_
  rw [hlow, hsub, Nat.testBit_two_pow_mul_add _ (Nat.two_pow_pos k), Nat.testBit_and,
    Nat.testBit_two_pow_mul_add _ (Nat.two_pow_pos k), Nat.testBit_two_pow_sub_one]
  by_cases hi : i < k
  · simp [hi]
  · rw [if_neg hi, if_neg hi, Nat.testBit_div_two_pow, Nat.sub_add_cancel (Nat.le_of_not_lt hi)]
    by_cases hn : i < n
    · simp [show i - k < n - k by omega]
    · have hzero : x.testBit i = false :=
        Nat.testBit_lt_two_pow (hx.trans_le (Nat.pow_le_pow_right (by omega) (by omega)))
      simp [hzero]

theorem isLeast_low : IsLeast {y | SharesPrefix w m x y} (low (w - m) x) := by
  have hpos := Nat.two_pow_pos (w - m)
  constructor
  · rw [Set.mem_ofPred_eq, sharesPrefix_iff, low, Nat.mul_div_cancel_left _ hpos]
  · intro y hy
    rw [Set.mem_ofPred_eq, sharesPrefix_iff] at hy
    rw [low, hy]
    exact Nat.mul_div_le y _

theorem isGreatest_high : IsGreatest {y | SharesPrefix w m x y} (high (w - m) x) := by
  have hpos := Nat.two_pow_pos (w - m)
  constructor
  · rw [Set.mem_ofPred_eq, sharesPrefix_iff, high, Nat.mul_add_div hpos,
      Nat.div_eq_of_lt (show 2 ^ (w - m) - 1 < 2 ^ (w - m) by omega), Nat.add_zero]
  · intro y hy
    rw [Set.mem_ofPred_eq, sharesPrefix_iff] at hy
    have hlt := Nat.lt_mul_div_succ y hpos
    rw [high, hy]
    rw [Nat.mul_add] at hlt
    omega

end Masks

/-! ### Bytes -/

/-- The number that bytes write, the highest byte first. -/
def value (bytes : List UInt8) : Nat := Nat.ofDigits 256 (bytes.reverse.map UInt8.toNat)

section Bytes

theorem value_append (as bs : List UInt8) : value (as ++ bs) = value as * 256 ^ bs.length + value bs := by
  simp only [value, List.reverse_append, List.map_append, Nat.ofDigits_append, List.length_map, List.length_reverse]
  ring

theorem value_singleton (b : UInt8) : value [b] = b.toNat := by simp [value]

theorem value_cons (b : UInt8) (bs : List UInt8) : value (b :: bs) = b.toNat * 256 ^ bs.length + value bs := by
  rw [← List.singleton_append, value_append, value_singleton]

theorem value_concat (bs : List UInt8) (b : UInt8) : value (bs ++ [b]) = value bs * 256 + b.toNat := by
  rw [value_append, value_singleton, List.length_singleton, Nat.pow_one]

theorem value_lt (bytes : List UInt8) : value bytes < 256 ^ bytes.length := by
  have h := Nat.ofDigits_lt_base_pow_length (b := 256) (by omega) (l := bytes.reverse.map UInt8.toNat) (by
    intro d hd
    obtain ⟨b, -, rfl⟩ := List.mem_map.1 hd
    exact UInt8.toNat_lt b)
  simpa [value] using h

theorem value_injective {as bs : List UInt8} (hlen : as.length = bs.length) (h : value as = value bs) : as = bs := by
  induction as generalizing bs with
  | nil => exact (List.length_eq_zero_iff.1 hlen.symm).symm
  | cons a as ih =>
    obtain ⟨b, bs, rfl⟩ := List.exists_cons_of_length_eq_add_one hlen.symm
    have hlen' : as.length = bs.length := Nat.succ_injective hlen
    have ha := value_lt as
    have hb := value_lt bs
    rw [value_cons, value_cons, hlen'] at h
    rw [hlen'] at ha
    have hpos : 0 < 256 ^ bs.length := Nat.pow_pos (by omega)
    have hhead : a.toNat = b.toNat := by
      have hdiv := congrArg (· / 256 ^ bs.length) h
      simpa [Nat.mul_comm _ (256 ^ bs.length), Nat.mul_add_div hpos, Nat.div_eq_of_lt ha, Nat.div_eq_of_lt hb] using hdiv
    have htail : value as = value bs := by
      rw [hhead] at h
      omega
    rw [UInt8.toNat_inj.1 hhead, ih hlen' htail]

theorem value_replicate_zero (n : Nat) : value (List.replicate n 0) = 0 := by
  induction n with
  | zero => rfl
  | succ n ih => simp [List.replicate_succ, value_cons, ih]

theorem value_replicate_max (n : Nat) : value (List.replicate n 0xFF) + 1 = 256 ^ n := by
  induction n with
  | zero => rfl
  | succ n ih =>
    rw [List.replicate_succ, value_cons, Nat.add_assoc, ih, List.length_replicate, Nat.pow_succ]
    change 255 * 256 ^ n + 256 ^ n = _
    omega

/-- The range of a prefix that ends in the byte `b`. -/
theorem low_value (pre : List UInt8) (b : UInt8) (suf : List UInt8) {j : Nat} (hj : j ≤ 8) :
    low (8 * suf.length + j) (value (pre ++ b :: suf)) =
      value pre * 256 ^ (suf.length + 1) + low j b.toNat * 256 ^ suf.length := by
  have hpow : 2 ^ (8 * suf.length + j) = 256 ^ suf.length * 2 ^ j := by rw [Nat.pow_add, Nat.pow_mul]
  have hbyte : 256 = 2 ^ j * 2 ^ (8 - j) := by rw [← Nat.pow_add, Nat.add_sub_cancel' hj]
  have hvalue : value (pre ++ b :: suf) = 256 ^ suf.length * (value pre * 256 + b.toNat) + value suf := by
    rw [value_append, value_cons, List.length_cons, Nat.pow_succ]
    ring
  have hdiv : value (pre ++ b :: suf) / 2 ^ (8 * suf.length + j) = value pre * 2 ^ (8 - j) + b.toNat / 2 ^ j := by
    have hsplit : value pre * 256 + b.toNat = 2 ^ j * (value pre * 2 ^ (8 - j)) + b.toNat := by
      conv_lhs => rw [hbyte]
      ring
    rw [hpow, ← Nat.div_div_eq_div_mul, hvalue, Nat.mul_add_div (Nat.pow_pos (by omega)), Nat.div_eq_of_lt (value_lt suf),
      Nat.add_zero, hsplit, Nat.mul_add_div (Nat.two_pow_pos j)]
  have hall : 256 ^ (suf.length + 1) = 256 ^ suf.length * 2 ^ j * 2 ^ (8 - j) := by
    rw [Nat.pow_succ, Nat.mul_assoc, ← hbyte]
  rw [low, low, hdiv, hpow, hall]
  ring

theorem high_value (pre : List UInt8) (b : UInt8) (suf : List UInt8) {j : Nat} (hj : j ≤ 8) :
    high (8 * suf.length + j) (value (pre ++ b :: suf)) =
      value pre * 256 ^ (suf.length + 1) + high j b.toNat * 256 ^ suf.length + (256 ^ suf.length - 1) := by
  have hlow := low_value pre b suf hj
  have hpow : 2 ^ (8 * suf.length + j) = 2 ^ j * 256 ^ suf.length := by rw [Nat.pow_add, Nat.pow_mul, Nat.mul_comm]
  have hpos : 0 < 256 ^ suf.length := Nat.pow_pos (by omega)
  have hmask : (2 ^ j - 1) * 256 ^ suf.length + 256 ^ suf.length = 2 ^ j * 256 ^ suf.length := by
    rw [← Nat.succ_mul, Nat.succ_eq_add_one, Nat.sub_add_cancel (Nat.two_pow_pos j)]
  change low _ _ + (2 ^ (8 * suf.length + j) - 1) = _ + (low j b.toNat + (2 ^ j - 1)) * _ + _
  rw [hlow, hpow, Nat.add_mul]
  omega

end Bytes

/-! ### Walks -/

/-- The numbers that a walk passes, where `step` gives no successor of the last. -/
inductive Walk {α : Type*} (step : α → Option α) : α → List α → Prop
  | last {a : α} : step a = none → Walk step a [a]
  | next {a b : α} {l : List α} : step a = some b → Walk step b l → Walk step a (a :: l)

/-- A walk that goes up by one and ends at `stop` passes what is between, in order. -/
theorem exists_walk {α : Type*} {step : α → Option α} {value : α → Nat} {stop start : α}
    (hinj : ∀ a b, value a = value b → a = b) (hstop : step stop = none)
    (hstep : ∀ a, a ≠ stop → ∃ b, step a = some b ∧ (value a < value stop → value b = value a + 1))
    (hle : value start ≤ value stop) :
    ∃ l, Walk step start l ∧ l.Pairwise (value · < value ·) ∧ ∀ a, a ∈ l ↔ value start ≤ value a ∧ value a ≤ value stop := by
  induction hn : value stop - value start generalizing start with
  | zero =>
    have heq : start = stop := hinj _ _ (by omega)
    subst heq
    refine ⟨[start], .last hstop, List.pairwise_singleton _ _, fun a => ?_⟩
    rw [List.mem_singleton]
    exact ⟨fun h => h ▸ ⟨le_rfl, le_rfl⟩, fun h => hinj _ _ (by omega)⟩
  | succ n ih =>
    have hne : start ≠ stop := by
      rintro rfl
      omega
    obtain ⟨b, hb, hvalue⟩ := hstep start hne
    have hvalue := hvalue (by omega)
    obtain ⟨l, hwalk, hsorted, hmem⟩ := @ih b (by omega) (by omega)
    refine ⟨start :: l, .next hb hwalk, List.pairwise_cons.2 ⟨fun a ha => ?_, hsorted⟩, fun a => ?_⟩
    · have := ((hmem a).1 ha).1
      omega
    · rw [List.mem_cons, hmem]
      constructor
      · rintro (rfl | h)
        · exact ⟨le_rfl, hle⟩
        · omega
      · intro h
        by_cases heq : value a = value start
        · exact Or.inl (hinj _ _ heq)
        · exact Or.inr (by omega)

end Ranges
