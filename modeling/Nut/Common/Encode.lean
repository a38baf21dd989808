import Nut.Common.Words

/-!
# The destination of the encoder

`pconf_encode` with the bytes of its destination and its index into them.  Its writes stay inside, and it leaves the text
of `pconfEncode` and NULs after it (`pconfEncodeInto_eq`).  That is the encoding of the longest prefix of the source which
leaves room for a NUL, but for a destination of one byte, where `maxlen - 1` wraps around (`pconfEncodeInto_iff`).
-/

namespace Nut

/-- The number of values of a `size_t`. -/
def sizeT : Nat := 2 ^ 64

/-- Write a byte of the destination; there is no result where it has no such byte. -/
def putByte (dest : CStr) (i : Nat) (c : Char) : Option CStr := if i < dest.length then some (dest.set i c) else none

/-- The loop of `pconf_encode`. -/
def encodeInto (maxlen : Nat) (dest : CStr) (destlen : Nat) : CStr → Option CStr
  | [] => some dest
  | c :: src =>
    if pconfEscape c then
      -- `maxlen - 1` is a `size_t`
      if (maxlen + (sizeT - 1)) % sizeT ≤ destlen then some dest
      else
        (putByte dest destlen '\\').bind fun dest =>
          if maxlen ≤ destlen + 1 then some dest
          else (putByte dest (destlen + 1) c).bind fun dest => encodeInto maxlen dest (destlen + 2) src
    else if maxlen ≤ destlen then some dest
    else (putByte dest destlen c).bind fun dest => encodeInto maxlen dest (destlen + 1) src

/-- `dest` are the `destsize` bytes of the destination. -/
def pconfEncodeInto (src dest : CStr) : Option CStr :=
  if dest.length < 1 then some dest
  else encodeInto (dest.length - 1) (List.replicate dest.length '\x00') 0 src

/-- The text, and NULs up to the size of the destination. -/
def padded (size : Nat) (text : CStr) : CStr := text ++ List.replicate (size - text.length) '\x00'

/-- The destination holds a text that ends with a NUL, the encoding of the longest prefix of the source that leaves room
for it. -/
structure EncodesLongest (src dest : CStr) : Prop where
  terminated : '\x00' ∈ dest
  longest : ∃ pre, pre <+: src ∧ (dest.takeWhile fun c => c ≠ '\x00') = escape pre ∧ (escape pre).length < dest.length ∧
    ∀ p, p <+: src → (escape p).length < dest.length → p <+: pre

section

variable {size maxlen : Nat} {text src dest : CStr} {c : Char}

theorem length_padded (h : text.length ≤ size) : (padded size text).length = size := by
  simp only [padded, List.length_append, List.length_replicate]
  omega

/-- The next byte is the first of the NULs. -/
theorem putByte_padded (h : text.length < size) (c : Char) :
    putByte (padded size text) text.length c = some (padded size (text ++ [c])) := by
  have hlen := length_padded (Nat.le_of_lt h)
  obtain ⟨n, hn⟩ : ∃ n, size - text.length = n + 1 := ⟨size - text.length - 1, by omega⟩
  have hn' : size - (text ++ [c]).length = n := by
    rw [List.length_append, List.length_singleton]
    omega
  rw [putByte, hlen, if_pos h, padded, padded, hn, hn', List.replicate_succ, List.set_append_right _ _ (Nat.le_refl _),
    Nat.sub_self, List.set_cons_zero, List.append_assoc]
  rfl

theorem size_sub_one (hsize : maxlen + 1 < sizeT) :
    (maxlen + (sizeT - 1)) % sizeT ≤ text.length ↔ maxlen ≠ 0 ∧ maxlen - 1 ≤ text.length ∨ sizeT - 1 ≤ text.length ∧ maxlen = 0 := by
  rcases Nat.eq_zero_or_pos maxlen with rfl | hpos
  · rw [Nat.zero_add, Nat.mod_eq_of_lt (by omega)]
    simp
  · have hwrap : maxlen + (sizeT - 1) = maxlen - 1 + sizeT := by
      have hpositive : 0 < sizeT := by decide
      omega
    rw [hwrap, Nat.add_mod_right, Nat.mod_eq_of_lt (by omega)]
    omega

/-- The writes stay inside the destination, and leave the text of the encoder. -/
theorem encodeInto_eq (hsize : maxlen + 1 < sizeT) (htext : text.length ≤ maxlen) (src : CStr) :
    encodeInto maxlen (padded (maxlen + 1) text) text.length src = some (padded (maxlen + 1) (pconfEncodeLoop maxlen text src)) := by
  induction src generalizing text with
  | nil => rfl
  | cons c src ih =>
    rw [encodeInto, pconfEncodeLoop]
    have hfull : (maxlen + (sizeT - 1)) % sizeT ≤ text.length ↔ maxlen ≠ 0 ∧ maxlen - 1 ≤ text.length := by
      rw [size_sub_one hsize]
      omega
    have hone : (text ++ ['\\']).length = text.length + 1 := by simp
    by_cases hescape : pconfEscape c = true
    · simp only [hescape, if_true, hfull, hone]
      by_cases hboth : maxlen ≠ 0 ∧ maxlen - 1 ≤ text.length
      · rw [if_pos hboth, if_pos hboth]
      · rw [if_neg hboth, if_neg hboth, putByte_padded (by omega), Option.bind_some]
        by_cases hlast : maxlen ≤ text.length + 1
        · rw [if_pos hlast, if_pos hlast]
        · have htwo : text ++ ['\\', c] = text ++ ['\\'] ++ [c] := by simp
          have hlen : text.length + 2 = (text ++ ['\\', c]).length := by simp
          rw [if_neg hlast, if_neg hlast, ← hone, putByte_padded (by omega), Option.bind_some, ← htwo, hlen]
          exact ih (by omega)
    · simp only [hescape, Bool.false_eq_true, if_false]
      by_cases hlast : maxlen ≤ text.length
      · rw [if_pos hlast, if_pos hlast]
      · have hlen : text.length + 1 = (text ++ [c]).length := by simp
        rw [if_neg hlast, if_neg hlast, putByte_padded (by omega), Option.bind_some, hlen]
        exact ih (by omega)

/-- The destination holds the text of `pconfEncode`. -/
theorem pconfEncodeInto_eq (hdest : 1 ≤ dest.length) (hsize : dest.length < sizeT) (src : CStr) :
    pconfEncodeInto src dest = some (padded dest.length (pconfEncode src dest.length)) := by
  obtain ⟨n, hn⟩ : ∃ n, dest.length = n + 1 := ⟨dest.length - 1, by omega⟩
  rw [pconfEncodeInto, if_neg (by omega), hn]
  exact @encodeInto_eq n [] (by omega) (Nat.zero_le _) src

/-! ### The longest prefix -/

theorem prefix_pconfEncodeLoop (text src : CStr) : text <+: pconfEncodeLoop maxlen text src := by
  induction src generalizing text with
  | nil => exact List.prefix_rfl
  | cons c src ih =>
    rw [pconfEncodeLoop]
    split_ifs
    · exact List.prefix_rfl
    · exact List.prefix_append _ _
    · exact (List.prefix_append _ _).trans (ih _)
    · exact List.prefix_rfl
    · exact (List.prefix_append _ _).trans (ih _)

/-- A prefix whose encoding has room is encoded. -/
theorem escape_prefix_pconfEncodeLoop {p : CStr} (h : (text ++ escape p).length ≤ maxlen) (q : CStr) :
    text ++ escape p <+: pconfEncodeLoop maxlen text (p ++ q) := by
  induction p generalizing text with
  | nil =>
    rw [escape_nil, List.append_nil]
    exact prefix_pconfEncodeLoop text q
  | cons c p ih =>
    rw [escape_cons] at h ⊢
    rw [List.cons_append, pconfEncodeLoop]
    by_cases hescape : pconfEscape c = true
    · simp only [hescape, if_true] at h ⊢
      have hlen : text.length + 2 ≤ maxlen := by
        simp only [List.length_append, List.length_cons, List.length_nil] at h
        omega
      rw [if_neg (by omega), if_neg (by simp; omega), ← List.append_assoc]
      exact ih (by rwa [List.append_assoc])
    · simp only [hescape, Bool.false_eq_true, if_false] at h ⊢
      have hlen : text.length + 1 ≤ maxlen := by
        simp only [List.length_append, List.length_cons, List.length_nil] at h
        omega
      rw [if_neg (by omega), ← List.append_assoc]
      exact ih (by rwa [List.append_assoc])

/-- Of two prefixes of a text the one with the longer encoding is the longer one. -/
theorem prefix_of_escape {p q : CStr} (hp : p <+: src) (hq : q <+: src) (h : escape p <+: escape q) : p <+: q := by
  rcases List.prefix_or_prefix_of_prefix hp hq with hpq | ⟨t, rfl⟩
  · exact hpq
  · have hlen := h.length_le
    have ht := length_le_escape t
    rw [escape_append, List.length_append] at hlen
    have hnil : t = [] := List.eq_nil_of_length_eq_zero (by omega)
    exact ⟨[], by rw [hnil, List.append_nil, List.append_nil]⟩

theorem nul_notMem_escape (h : '\x00' ∉ src) : '\x00' ∉ escape src := by
  intro hmem
  obtain ⟨c, hc, hin⟩ := List.mem_flatMap.1 hmem
  split_ifs at hin with hescape
  · rcases List.mem_cons.1 hin with h0 | h0
    · exact absurd h0 (by decide)
    · exact h (List.mem_singleton.1 h0 ▸ hc)
  · exact h (List.mem_singleton.1 hin ▸ hc)

/-- The string in a padded destination is its text. -/
theorem takeWhile_padded (h : '\x00' ∉ text) : ((padded size text).takeWhile fun c => c ≠ '\x00') = text := by
  have htext : ∀ c ∈ text, decide (c ≠ '\x00') = true := by
    intro c hc
    rw [decide_eq_true_eq]
    rintro rfl
    exact h hc
  rw [padded, List.takeWhile_append_of_pos htext, List.takeWhile_replicate]
  simp

theorem nul_mem_padded (h : text.length < size) : '\x00' ∈ padded size text :=
  List.mem_append_right _ (List.mem_replicate.2 ⟨by omega, rfl⟩)

/-- With two bytes or more the destination holds the encoding of the longest prefix. -/
theorem encodesLongest_of_two (h : 2 ≤ size) (hsrc : '\x00' ∉ src) : EncodesLongest src (padded size (pconfEncode src size)) := by
  obtain ⟨k, hk, hlen, -⟩ := pconfEncode_take src h
  have hpre : src.take k <+: src := List.take_prefix k src
  have hnul : '\x00' ∉ escape (src.take k) := nul_notMem_escape fun hmem => hsrc (hpre.subset hmem)
  rw [hk]
  refine ⟨nul_mem_padded hlen, src.take k, hpre, takeWhile_padded hnul, ?_, fun p hp hplen => ?_⟩
  · rwa [length_padded (Nat.le_of_lt hlen)]
  · rw [length_padded (Nat.le_of_lt hlen)] at hplen
    refine prefix_of_escape hp hpre ?_
    obtain ⟨q, rfl⟩ := hp
    rw [← hk]
    exact @escape_prefix_pconfEncodeLoop (size - 1) [] p (by rw [List.nil_append]; omega) q

end

/-- `pconf_encode` writes into its destination only; it leaves a terminated string there that is the encoding of the longest
prefix with room for it, exactly if the destination has two bytes or the source does not begin with a character that is
escaped. -/
theorem pconfEncodeInto_iff {src dest : CStr} (hdest : 1 ≤ dest.length) (hsize : dest.length < sizeT) (hsrc : '\x00' ∉ src) :
    ∃ dest', pconfEncodeInto src dest = some dest' ∧ dest'.length = dest.length ∧
      (EncodesLongest src dest' ↔ 2 ≤ dest.length ∨ ∀ c ∈ src.head?, pconfEscape c = false) := by
  refine ⟨_, pconfEncodeInto_eq hdest hsize src, ?_⟩
  by_cases htwo : 2 ≤ dest.length
  · have hlongest := encodesLongest_of_two htwo hsrc
    obtain ⟨k, hk, hlen, -⟩ := pconfEncode_take src htwo
    exact ⟨by rw [hk, length_padded (Nat.le_of_lt hlen)], iff_of_true hlongest (.inl htwo)⟩
  · have hone : dest.length = 1 := by omega
    have hshort : ∀ p : CStr, (escape p).length < 1 → p = [] := by
      intro p hp
      have hlen := length_le_escape p
      exact List.eq_nil_of_length_eq_zero (by omega)
    have empty : EncodesLongest src (padded 1 []) :=
      ⟨by decide, [], List.nil_prefix, rfl, by decide, fun p _ hp => hshort p hp ▸ List.nil_prefix⟩
    rw [hone]
    cases src with
    | nil => exact ⟨rfl, iff_of_true empty (.inr (by simp))⟩
    | cons c src =>
      by_cases hescape : pconfEscape c = true
      · -- the backslash takes the place of the NUL
        have htext : pconfEncode (c :: src) 1 = ['\\'] := by
          simp [pconfEncode, pconfEncodeLoop, hescape]
        rw [htext]
        refine ⟨rfl, iff_of_false (fun h => absurd h.terminated (by decide)) ?_⟩
        rintro (h | h)
        · omega
        · rw [h c rfl] at hescape
          exact absurd hescape (by decide)
      · have htext : pconfEncode (c :: src) 1 = [] := by
          simp [pconfEncode, pconfEncodeLoop, hescape]
        rw [htext]
        refine ⟨rfl, iff_of_true empty (.inr ?_)⟩
        simpa using hescape

theorem pconfEncodeInto_quotes : ∃ dest', pconfEncodeInto "a\"#".toList "xxxx".toList = some dest' ∧ dest'.length = 4 ∧
    (EncodesLongest "a\"#".toList dest' ↔ 2 ≤ 4 ∨ ∀ c ∈ "a\"#".toList.head?, pconfEscape c = false) :=
  pconfEncodeInto_iff (by decide) (by decide) (by decide)

/-- The string in a destination of one byte is not terminated. -/
theorem pconfEncodeInto_one : pconfEncodeInto "#".toList "x".toList = some "\\".toList ∧ ¬EncodesLongest "#".toList "\\".toList :=
  ⟨by decide, fun h => absurd h.terminated (by decide)⟩

end Nut
