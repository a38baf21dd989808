import Nut.Common.Numbers

/-!
# `cgilib.c`: the arguments of a CGI program

`unescape` looks for the end of the string one character too far, and of the two digits after a percent sign it tests the
first one twice.  So a percent sign at the end makes it read behind the terminator, and an escape with a first digit only is
decoded.

There is no result where memory is read that is behind the string and not known to belong to it (`behind`).  The inner `none`
is the end of the program with an error.
-/

namespace Nut

namespace Cgilib

def isxdigit (c : Char) : Bool := digitValue c < 16

/-- The text of a character under `%c`; the terminator ends the text. -/
def formatC (ch : Char) : CStr := if ch = '\x00' then [] else [ch]

/-- The byte at an index, where some bytes are known behind the terminator. -/
def byteAt (behind buf : CStr) (i : Nat) : Option Char := (buf ++ '\x00' :: behind)[i]?

/-- The character of an escape. -/
def escaped (hex0 hex1 : Char) : Char :=
  let ch := Char.ofNat (strtolBase 16 [hex0, hex1]).toNat
  if ch = '\n' ∨ ch = '\r' then ' ' else ch

/-- The loop of `unescape` from the index `i` on. -/
def unescapeLoop (behind buf : CStr) : Nat → Nat → CStr → Option (Option CStr)
  | 0, _, newbuf => some (some newbuf)
  | fuel + 1, i, newbuf =>
    let buflen := buf.length + 2
    if i < buflen - 1 then do
      let ch ← byteAt behind buf i
      let ch := if ch = '+' then ' ' else ch
      if ch = '%' then
        if buflen < i + 2 then some none
        else
          let hex0 ← byteAt behind buf (i + 1)
          let hex1 ← byteAt behind buf (i + 2)
          if isxdigit hex0 ∧ isxdigit hex0 then
            unescapeLoop behind buf fuel (i + 3) (snprintfcat newbuf buflen (formatC (escaped hex0 hex1)))
          else some none
      else unescapeLoop behind buf fuel (i + 1) (snprintfcat newbuf buflen (formatC ch))
    else some (some newbuf)

def unescape (buf : CStr) : Option (Option CStr) := unescapeLoop [] buf (buf.length + 1) 0 []

/-- `unescape` of a string that stands in a longer buffer, with the byte behind its terminator. -/
def unescapeWithin (behind : Char) (buf : CStr) : Option (Option CStr) := unescapeLoop [behind] buf (buf.length + 1) 0 []

example : unescape "a+b%41%0a".toList = some (some "a bA ".toList) := by decide +kernel

/-- What the loop appends for a plain character. -/
def plain (c : Char) : Char := if c = '+' then ' ' else c

/-- The loop as a function of the characters that are left. -/
def scan : CStr → Option (Option CStr)
  | [] => some (some [])
  | '%' :: [] => none
  | '%' :: [hex0] => if isxdigit hex0 then some (some (formatC (escaped hex0 '\x00'))) else some none
  | '%' :: hex0 :: hex1 :: t =>
    if isxdigit hex0 then (scan t).map (Option.map (formatC (escaped hex0 hex1) ++ ·)) else some none
  | c :: t => (scan t).map (Option.map (plain c :: ·))

/-- The text that a string is decoded to, if it is. -/
def decoded (s : CStr) : Option CStr := (unescape s).join

/-- The text in which every escape is its byte. -/
def decode : CStr → CStr
  | '%' :: hex0 :: hex1 :: t => escaped hex0 hex1 :: decode t
  | c :: t => plain c :: decode t
  | [] => []

/-- Every percent sign is followed by two hexadecimal digits. -/
def WellFormed (s : CStr) : Prop :=
  ∀ pre rest : CStr, s = pre ++ '%' :: rest →
    ∃ hex0 hex1 t, rest = hex0 :: hex1 :: t ∧ isxdigit hex0 = true ∧ isxdigit hex1 = true

/-- The pieces that the loop takes. -/
inductive Taken : CStr → Prop
  | nil : Taken []
  | plain {c : Char} {t : CStr} : c ≠ '%' → Taken t → Taken (c :: t)
  | escape {hex0 hex1 : Char} {t : CStr} : isxdigit hex0 = true → Taken t → Taken ('%' :: hex0 :: hex1 :: t)

/-- The loop comes to a percent sign with a character behind it that is no digit. -/
def Rejected (s : CStr) : Prop :=
  ∃ pre hex0 rest, Taken pre ∧ isxdigit hex0 = false ∧ s = pre ++ '%' :: hex0 :: rest

/-- No byte behind the string is read, exactly the well-formed strings are decoded, and they are decoded right. -/
def Exact (s : CStr) : Prop :=
  ∃ r, unescape s = some r ∧ (r ≠ none ↔ WellFormed s) ∧ ∀ t, r = some t → t = decode s

/-- The URL encodings of a text. -/
inductive Encodes : CStr → CStr → Prop
  | nil : Encodes [] []
  | plain {c : Char} {p e : CStr} : c ≠ '%' → c ≠ '+' → Encodes p e → Encodes (c :: p) (c :: e)
  | blank {p e : CStr} : Encodes p e → Encodes (' ' :: p) ('+' :: e)
  | escape {c hex0 hex1 : Char} {p e : CStr} : isxdigit hex0 = true → isxdigit hex1 = true →
      digitValue hex0 * 16 + digitValue hex1 = c.toNat → Encodes p e → Encodes (c :: p) ('%' :: hex0 :: hex1 :: e)

section Loop

theorem isxdigit_iff {c : Char} : isxdigit c = true ↔ digitValue c < 16 := decide_eq_true_iff

theorem isxdigit_nul : isxdigit '\x00' = false := by decide

theorem isxdigit_percent : isxdigit '%' = false := by decide

theorem length_formatC (c : Char) : (formatC c).length ≤ 1 := by
  unfold formatC
  split <;> simp

theorem formatC_of_ne {c : Char} (h : c ≠ '\x00') : formatC c = [c] := if_neg h

/-- An append with room for the character. -/
theorem snprintfcat_formatC {newbuf : CStr} {buflen : Nat} (c : Char) (h : newbuf.length + 2 < buflen) :
    snprintfcat newbuf buflen (formatC c) = newbuf ++ formatC c := by
  have hlen := length_formatC c
  rw [snprintfcat, snprintf_of_lt]
  omega

theorem plain_ne {c : Char} (h : c ≠ '\x00') : plain c ≠ '\x00' := by
  unfold plain
  split
  · decide
  · exact h

section

variable {behind : CStr}

theorem byteAt_append (pre : CStr) (c : Char) (t : CStr) : byteAt behind (pre ++ c :: t) pre.length = some c := by
  simp [byteAt]

theorem byteAt_length (s : CStr) : byteAt behind s s.length = some '\x00' := by simp [byteAt]

theorem byteAt_behind (s : CStr) : byteAt behind s (s.length + 1) = behind.head? := by
  cases behind <;> simp [byteAt]

theorem unescapeLoop_done (s newbuf : CStr) (fuel i : Nat) (h : s.length < i) :
    unescapeLoop behind s fuel i newbuf = some (some newbuf) := by
  cases fuel with
  | zero => rfl
  | succ fuel =>
    rw [unescapeLoop, if_neg]
    omega

/-- The loop also takes the terminator, which adds nothing. -/
theorem unescapeLoop_end (s newbuf : CStr) (fuel : Nat) :
    unescapeLoop behind s fuel s.length newbuf = some (some newbuf) := by
  cases fuel with
  | zero => rfl
  | succ fuel =>
    have hlt : s.length < s.length + 2 - 1 := by omega
    have hcat : snprintfcat newbuf (s.length + 2) (formatC '\x00') = newbuf := by
      rw [formatC, if_pos rfl, snprintfcat]
      simp [snprintf]
    rw [unescapeLoop]
    simp only [if_pos hlt, byteAt_length, Option.bind_eq_bind, Option.bind_some]
    rw [if_neg (by decide), if_neg (by decide), hcat]
    exact unescapeLoop_done s newbuf fuel _ (by omega)

/-- A plain character is appended. -/
theorem unescapeLoop_plain {s pre t newbuf : CStr} {c : Char} (fuel : Nat) (hs : s = pre ++ c :: t) (hc : c ≠ '%')
    (hnul : c ≠ '\x00') (hlen : newbuf.length ≤ pre.length) :
    unescapeLoop behind s (fuel + 1) pre.length newbuf =
      unescapeLoop behind s fuel (pre.length + 1) (newbuf ++ [plain c]) := by
  have hs' : s.length = pre.length + t.length + 1 := by simp [hs, Nat.add_assoc]
  have hlt : pre.length < s.length + 2 - 1 := by omega
  have hbyte : byteAt behind s pre.length = some c := hs ▸ byteAt_append pre c t
  have hplain : plain c ≠ '%' := by
    unfold plain
    split
    · decide
    · exact hc
  rw [unescapeLoop]
  simp only [if_pos hlt, hbyte, Option.bind_eq_bind, Option.bind_some]
  change (if plain c = '%' then _ else _) = _
  rw [if_neg hplain]
  change unescapeLoop behind s fuel _ (snprintfcat newbuf _ (formatC (plain c))) = _
  rw [snprintfcat_formatC _ (by omega), formatC_of_ne (plain_ne hnul)]

/-- An escape is read, with the terminator for a second digit that is not there. -/
theorem unescapeLoop_escape {s pre t newbuf : CStr} {hex0 hex1 : Char} (fuel : Nat)
    (hs : s = pre ++ '%' :: hex0 :: t) (hbyte : byteAt behind s (pre.length + 2) = some hex1)
    (hlen : newbuf.length ≤ pre.length) :
    unescapeLoop behind s (fuel + 1) pre.length newbuf =
      if isxdigit hex0 then unescapeLoop behind s fuel (pre.length + 3) (newbuf ++ formatC (escaped hex0 hex1))
      else some none := by
  have hs' : s.length = pre.length + t.length + 2 := by simp [hs, Nat.add_assoc]
  have hlt : pre.length < s.length + 2 - 1 := by omega
  have hpercent : byteAt behind s pre.length = some '%' := hs ▸ byteAt_append pre '%' (hex0 :: t)
  have hfirst : byteAt behind s (pre.length + 1) = some hex0 := by
    have := @byteAt_append behind (pre ++ ['%']) hex0 t
    simpa [hs] using this
  rw [unescapeLoop]
  simp only [if_pos hlt, hpercent, hfirst, hbyte, Option.bind_eq_bind, Option.bind_some]
  rw [show (if '%' = '+' then ' ' else '%') = '%' from rfl, if_pos rfl, if_neg (by omega),
    snprintfcat_formatC _ (by omega)]
  simp only [and_self]

/-- What the loop ends with where it comes to a percent sign at the end. -/
def settled (behind : CStr) (r : Option (Option CStr)) : Option (Option CStr) := if behind = [] then r else some r.join

theorem settled_some (r : Option CStr) : settled behind (some r) = some r := by
  unfold settled
  split <;> rfl

/-- In the last case of `scan` the character is no percent sign. -/
theorem ne_percent {c : Char} {t : CStr} (hend : c = '%' → t = [] → False) (hone : ∀ hex0, c = '%' → t = [hex0] → False)
    (htwo : ∀ hex0 hex1 rest, c = '%' → t = hex0 :: hex1 :: rest → False) : c ≠ '%' := by
  rintro rfl
  rcases t with _ | ⟨hex0, _ | ⟨hex1, rest⟩⟩
  · exact hend rfl rfl
  · exact hone hex0 rfl rfl
  · exact htwo hex0 hex1 rest rfl rfl

/-- The loop, by what is left of the string. -/
theorem unescapeLoop_scan {s : CStr} (hnul : '\x00' ∉ s) (rest : CStr) (fuel : Nat) (pre newbuf : CStr)
    (hs : s = pre ++ rest) (hlen : newbuf.length ≤ pre.length) (hfuel : rest.length < fuel) :
    unescapeLoop behind s fuel pre.length newbuf = settled behind ((scan rest).map (Option.map (newbuf ++ ·))) := by
  induction rest using scan.induct generalizing fuel pre newbuf with
  | case1 =>
    rw [List.append_nil] at hs
    subst hs
    rw [unescapeLoop_end s newbuf fuel, scan, Option.map_some, settled_some]
    simp
  | case2 =>
    obtain ⟨fuel, rfl⟩ : ∃ k, fuel = k + 1 := ⟨fuel - 1, by omega⟩
    have hs' : s.length = pre.length + 1 := by simp [hs]
    have hpercent : byteAt behind s pre.length = some '%' := hs ▸ byteAt_append pre '%' []
    rw [unescapeLoop]
    simp only [if_pos (show pre.length < s.length + 2 - 1 by omega), hpercent, Option.bind_eq_bind, Option.bind_some]
    rw [show (if '%' = '+' then ' ' else '%') = '%' from rfl, if_pos rfl, if_neg (by omega), ← hs', byteAt_length,
      show pre.length + 2 = s.length + 1 by omega, byteAt_behind]
    cases behind with
    | nil => rfl
    | cons c behind =>
      -- the terminator is no digit, whatever is behind it
      simp only [List.head?_cons, Option.bind_some, isxdigit_nul, Bool.false_eq_true, and_self, if_false]
      rfl
  | case3 hex0 hdigit =>
    obtain ⟨fuel, rfl⟩ : ∃ k, fuel = k + 1 := ⟨fuel - 1, by omega⟩
    have hs' : s.length = pre.length + 2 := by simp [hs]
    have hbyte : byteAt behind s (pre.length + 2) = some '\x00' := hs' ▸ byteAt_length s
    rw [unescapeLoop_escape fuel hs hbyte hlen, scan, if_pos hdigit, if_pos hdigit, unescapeLoop_done _ _ _ _ (by omega),
      Option.map_some, settled_some]
    rfl
  | case4 hex0 hdigit =>
    obtain ⟨fuel, rfl⟩ : ∃ k, fuel = k + 1 := ⟨fuel - 1, by omega⟩
    have hs' : s.length = pre.length + 2 := by simp [hs]
    have hbyte : byteAt behind s (pre.length + 2) = some '\x00' := hs' ▸ byteAt_length s
    rw [unescapeLoop_escape fuel hs hbyte hlen, scan, if_neg hdigit, if_neg hdigit, Option.map_some, settled_some]
    rfl
  | case5 hex0 hex1 t hdigit ih =>
    obtain ⟨fuel, rfl⟩ : ∃ k, fuel = k + 1 := ⟨fuel - 1, by omega⟩
    have hbyte : byteAt behind s (pre.length + 2) = some hex1 := by
      have := @byteAt_append behind (pre ++ ['%', hex0]) hex1 t
      simpa [hs] using this
    have hchar := length_formatC (escaped hex0 hex1)
    have hnext := ih fuel (pre ++ ['%', hex0, hex1]) (newbuf ++ formatC (escaped hex0 hex1)) (by simp [hs])
      (by simp only [List.length_append, List.length_cons, List.length_nil]; omega)
      (by simp only [List.length_cons] at hfuel; omega)
    rw [unescapeLoop_escape fuel hs hbyte hlen, scan, if_pos hdigit, if_pos hdigit,
      show pre.length + 3 = (pre ++ ['%', hex0, hex1]).length by simp, hnext]
    simp [Option.map_map, Function.comp_def]
  | case6 hex0 hex1 t hdigit =>
    obtain ⟨fuel, rfl⟩ : ∃ k, fuel = k + 1 := ⟨fuel - 1, by omega⟩
    have hbyte : byteAt behind s (pre.length + 2) = some hex1 := by
      have := @byteAt_append behind (pre ++ ['%', hex0]) hex1 t
      simpa [hs] using this
    rw [unescapeLoop_escape fuel hs hbyte hlen, scan, if_neg hdigit, if_neg hdigit, Option.map_some, settled_some]
    rfl
  | case7 c t hend hone htwo ih =>
    obtain ⟨fuel, rfl⟩ : ∃ k, fuel = k + 1 := ⟨fuel - 1, by omega⟩
    have hc : c ≠ '%' := ne_percent hend hone htwo
    have hne : c ≠ '\x00' := by
      rintro rfl
      exact hnul (by simp [hs])
    have hnext := ih fuel (pre ++ [c]) (newbuf ++ [plain c]) (by simp [hs]) (by simp [hlen])
      (by simp only [List.length_cons] at hfuel; omega)
    rw [unescapeLoop_plain fuel hs hc hne hlen, scan, show pre.length + 1 = (pre ++ [c]).length by simp, hnext]
    · simp [Option.map_map, Function.comp_def]
    · exact hend
    · exact hone
    · exact htwo

end

theorem unescape_scan {s : CStr} (hnul : '\x00' ∉ s) : unescape s = scan s := by
  have h := @unescapeLoop_scan [] s hnul s (s.length + 1) [] [] rfl le_rfl (Nat.lt_succ_self _)
  have hid : (scan s).map (Option.map (([] : CStr) ++ ·)) = scan s := by
    simp
  exact h.trans hid

/-- In a longer buffer a percent sign at the end is refused like every bad escape, whatever is behind it. -/
theorem unescapeWithin_eq (behind : Char) {s : CStr} (hnul : '\x00' ∉ s) : unescapeWithin behind s = some (decoded s) := by
  have h := @unescapeLoop_scan [behind] s hnul s (s.length + 1) [] [] rfl le_rfl (Nat.lt_succ_self _)
  have hid : (scan s).map (Option.map (([] : CStr) ++ ·)) = scan s := by
    simp
  rw [hid, ← unescape_scan hnul] at h
  exact h

end Loop

section Digits

theorem digitValue_eq_zero {c : Char} (h : digitValue c = 0) : c = '0' := by
  unfold digitValue at h
  split at h
  · rename_i hdigit
    have hbounds := isDigit_bounds hdigit
    have hcode : c.toNat = '0'.toNat := by
      change c.toNat = 48
      omega
    exact Char.toNat_inj.1 hcode
  · split at h
    · rename_i hlower
      have hbounds : (decide (97 ≤ c.val) && decide (c.val ≤ 122)) = true := hlower
      have hle : (97 : UInt32).toNat ≤ c.val.toNat :=
        UInt32.le_iff_toNat_le.1 (of_decide_eq_true (Bool.and_eq_true_iff.1 hbounds).1)
      have hval : c.val.toNat = c.toNat := rfl
      simp at hle
      omega
    · split at h
      · rename_i hupper
        have hbounds : 65 ≤ c.val ∧ c.val ≤ 90 := of_decide_eq_true hupper
        have hle : (65 : UInt32).toNat ≤ c.val.toNat := UInt32.le_iff_toNat_le.1 hbounds.1
        have hval : c.val.toNat = c.toNat := rfl
        simp at hle
        omega
      · omega

/-- Two digits are read as their number. -/
theorem strtolBase_pair {hex0 hex1 : Char} (h0 : isxdigit hex0 = true) (h1 : isxdigit hex1 = true) :
    (strtolBase 16 [hex0, hex1]).toNat = digitValue hex0 * 16 + digitValue hex1 := by
  rw [isxdigit_iff] at h0 h1
  have hnumber : leadingNumber 16 [hex0, hex1] = digitValue hex0 * 16 + digitValue hex1 := by
    simp [leadingNumber, h0, h1]
  rw [strtolBase_digits (by simp) (by simp [h0, h1]), hnumber]
  omega

theorem escaped_pair {hex0 hex1 c : Char} (h0 : isxdigit hex0 = true) (h1 : isxdigit hex1 = true)
    (hc : digitValue hex0 * 16 + digitValue hex1 = c.toNat) :
    escaped hex0 hex1 = if c = '\n' ∨ c = '\r' then ' ' else c := by
  rw [escaped, strtolBase_pair h0 h1, hc, Char.ofNat_toNat]

theorem toNat_ofNat_byte {n : Nat} (h : n < 256) : (Char.ofNat n).toNat = n := by
  have hvalid : n.isValidChar := Or.inl (by omega)
  rw [Char.ofNat, dif_pos hvalid]
  rfl

/-- The escape of the terminator. -/
theorem escaped_eq_nul {hex0 hex1 : Char} (h0 : isxdigit hex0 = true) (h1 : isxdigit hex1 = true) :
    escaped hex0 hex1 = '\x00' ↔ hex0 = '0' ∧ hex1 = '0' := by
  have hlt0 := isxdigit_iff.1 h0
  have hlt1 := isxdigit_iff.1 h1
  have hcode := toNat_ofNat_byte (show digitValue hex0 * 16 + digitValue hex1 < 256 by omega)
  rw [escaped_pair h0 h1 hcode.symm]
  constructor
  · intro h
    split at h
    · exact absurd h (by decide)
    · rw [h] at hcode
      have hzero : ('\x00' : Char).toNat = 0 := rfl
      exact ⟨digitValue_eq_zero (by omega), digitValue_eq_zero (by omega)⟩
  · rintro ⟨rfl, rfl⟩
    decide

end Digits

section Scan

theorem scan_plain {c : Char} (t : CStr) (hc : c ≠ '%') : scan (c :: t) = (scan t).map (Option.map (plain c :: ·)) := by
  rw [scan]
  all_goals
    intros
    contradiction

theorem decode_plain {c : Char} (t : CStr) (hc : c ≠ '%') : decode (c :: t) = plain c :: decode t := by
  rw [decode]
  intro hex0 hex1 rest h
  exact absurd h hc

theorem WellFormed.tail {c : Char} {t : CStr} (h : WellFormed (c :: t)) : WellFormed t := by
  intro pre rest hs
  exact h (c :: pre) rest (by rw [hs, List.cons_append])

/-- The well-formed strings, from the left. -/
theorem WellFormed.cases {s : CStr} (h : WellFormed s) :
    s = [] ∨ (∃ c t, c ≠ '%' ∧ s = c :: t ∧ WellFormed t) ∨
      ∃ hex0 hex1 t, isxdigit hex0 = true ∧ isxdigit hex1 = true ∧ s = '%' :: hex0 :: hex1 :: t ∧ WellFormed t := by
  rcases s with _ | ⟨c, t⟩
  · exact Or.inl rfl
  · by_cases hc : c = '%'
    · subst hc
      obtain ⟨hex0, hex1, t', rfl, h0, h1⟩ := h [] t rfl
      exact Or.inr (Or.inr ⟨hex0, hex1, t', h0, h1, rfl, h.tail.tail.tail⟩)
    · exact Or.inr (Or.inl ⟨c, t, hc, rfl, h.tail⟩)

theorem wellFormed_nil : WellFormed [] := fun pre rest h => absurd h.symm (by simp)

theorem wellFormed_plain {c : Char} {t : CStr} (hc : c ≠ '%') (h : WellFormed t) : WellFormed (c :: t) := by
  intro pre rest hs
  rcases pre with _ | ⟨d, pre⟩
  · exact absurd (List.cons.inj hs).1 hc
  · exact h pre rest (List.cons.inj hs).2

theorem wellFormed_escape {hex0 hex1 : Char} {t : CStr} (h0 : isxdigit hex0 = true) (h1 : isxdigit hex1 = true)
    (h : WellFormed t) : WellFormed ('%' :: hex0 :: hex1 :: t) := by
  have hne : ∀ {hex : Char}, isxdigit hex = true → hex ≠ '%' := by
    rintro hex hdigit rfl
    exact Bool.false_ne_true (isxdigit_percent.symm.trans hdigit)
  intro pre rest hs
  rcases pre with _ | ⟨d, pre⟩
  · exact ⟨hex0, hex1, t, (List.cons.inj hs).2.symm, h0, h1⟩
  · exact wellFormed_plain (hne h0) (wellFormed_plain (hne h1) h) pre rest (List.cons.inj hs).2

/-- A well-formed string is decoded, and the bytes 0 are dropped. -/
theorem scan_wellFormed {s : CStr} (h : WellFormed s) (hnul : '\x00' ∉ s) :
    scan s = some (some ((decode s).filter (· ≠ '\x00'))) := by
  induction hn : s.length using Nat.strongRecOn generalizing s with
  | ind n ih =>
    rcases h.cases with rfl | ⟨c, t, hc, rfl, ht⟩ | ⟨hex0, hex1, t, h0, h1, rfl, ht⟩
    · rfl
    · have hc' : plain c ≠ '\x00' := plain_ne fun h => hnul (by simp [h])
      have hrest := ih t.length (by rw [← hn]; simp) ht (fun h => hnul (by simp [h])) rfl
      rw [scan_plain t hc, decode_plain t hc, hrest]
      simp [hc']
    · have hrest := ih t.length (by rw [← hn]; simp; omega) ht (fun h => hnul (by simp [h])) rfl
      rw [scan, if_pos h0, hrest, decode]
      by_cases hchar : escaped hex0 hex1 = '\x00'
      · simp [hchar, formatC]
      · simp [hchar, formatC]

/-- The byte 0 comes out of the one escape. -/
theorem nul_mem_decode {s : CStr} (h : WellFormed s) (hnul : '\x00' ∉ s) :
    '\x00' ∈ decode s ↔ "%00".toList <:+: s := by
  induction hn : s.length using Nat.strongRecOn generalizing s with
  | ind n ih =>
    rcases h.cases with rfl | ⟨c, t, hc, rfl, ht⟩ | ⟨hex0, hex1, t, h0, h1, rfl, ht⟩
    · simp [decode]
    · have hc' : '\x00' ≠ plain c := (plain_ne fun h => hnul (by simp [h])).symm
      have hrest := ih t.length (by rw [← hn]; simp) ht (fun h => hnul (by simp [h])) rfl
      rw [decode_plain t hc, List.mem_cons, List.infix_cons_iff, hrest]
      simp [hc', hc.symm]
    · have hrest := ih t.length (by rw [← hn]; simp; omega) ht (fun h => hnul (by simp [h])) rfl
      have hne0 : '%' ≠ hex0 := by
        rintro rfl
        exact absurd h0 (by decide)
      have hne1 : '%' ≠ hex1 := by
        rintro rfl
        exact absurd h1 (by decide)
      rw [decode, List.mem_cons, hrest, eq_comm, escaped_eq_nul h0 h1]
      simp [List.infix_cons_iff, hne0, hne1, eq_comm]

/-- What comes behind the pieces that are taken is what the loop ends with. -/
theorem scan_taken {pre rest : CStr} (h : Taken pre) (hrest : scan rest = some none) : scan (pre ++ rest) = some none := by
  induction h with
  | nil => exact hrest
  | @plain c t hc _ ih => rw [List.cons_append, scan_plain _ hc, ih]; rfl
  | @escape hex0 hex1 t hdigit _ ih =>
    rw [List.cons_append, List.cons_append, List.cons_append, scan, if_pos hdigit, ih]
    rfl

theorem scan_bad {hex0 : Char} (rest : CStr) (h : isxdigit hex0 = false) : scan ('%' :: hex0 :: rest) = some none := by
  cases rest with
  | nil => rw [scan, if_neg (by simp [h])]
  | cons hex1 t => rw [scan, if_neg (by simp [h])]

theorem map_cons_eq_none {r : Option (Option CStr)} {f : CStr → CStr} (h : r.map (Option.map f) = some none) :
    r = some none := by
  rcases r with _ | _ | t
  · cases h
  · rfl
  · cases h

theorem scan_rejected {s : CStr} : scan s = some none ↔ Rejected s := by
  constructor
  · intro h
    induction s using scan.induct with
    | case1 => cases h
    | case2 => cases h
    | case3 hex0 hdigit =>
      rw [scan, if_pos hdigit] at h
      cases h
    | case4 hex0 hdigit => exact ⟨[], hex0, [], .nil, by simpa using hdigit, rfl⟩
    | case5 hex0 hex1 t hdigit ih =>
      rw [scan, if_pos hdigit] at h
      obtain ⟨pre, bad, rest, hpre, hbad, rfl⟩ := ih (map_cons_eq_none h)
      exact ⟨'%' :: hex0 :: hex1 :: pre, bad, rest, .escape hdigit hpre, hbad, rfl⟩
    | case6 hex0 hex1 t hdigit => exact ⟨[], hex0, hex1 :: t, .nil, by simpa using hdigit, rfl⟩
    | case7 c t hend hone htwo ih =>
      have hc : c ≠ '%' := ne_percent hend hone htwo
      rw [scan_plain t hc] at h
      obtain ⟨pre, bad, rest, hpre, hbad, rfl⟩ := ih (map_cons_eq_none h)
      exact ⟨c :: pre, bad, rest, .plain hc hpre, hbad, rfl⟩
  · rintro ⟨pre, hex0, rest, hpre, hbad, rfl⟩
    exact scan_taken hpre (scan_bad rest hbad)

theorem Rejected.not_wellFormed {s : CStr} (h : Rejected s) : ¬ WellFormed s := by
  obtain ⟨pre, hex0, rest, -, hbad, rfl⟩ := h
  intro hwell
  obtain ⟨_, _, _, heq, hdigit, -⟩ := hwell pre (hex0 :: rest) rfl
  rw [(List.cons.inj heq).1, hdigit] at hbad
  cases hbad

/-- An encoding of a printable text is decoded to it. -/
theorem scan_encodes {p e : CStr} (h : Encodes p e) (hp : ∀ c ∈ p, 32 ≤ c.toNat) : scan e = some (some p) := by
  induction h with
  | nil => rfl
  | @plain c p e hc hplus _ ih =>
    rw [scan_plain e hc, ih fun d hd => hp d (List.mem_cons_of_mem _ hd), plain, if_neg hplus]
    rfl
  | @blank p e _ ih =>
    rw [scan_plain e (by decide), ih fun d hd => hp d (List.mem_cons_of_mem _ hd), plain, if_pos rfl]
    rfl
  | @escape c hex0 hex1 p e h0 h1 hcode _ ih =>
    have hprint := hp c List.mem_cons_self
    have hbreak : ¬ (c = '\n' ∨ c = '\r') := by
      rintro (rfl | rfl)
      · exact absurd hprint (by decide)
      · exact absurd hprint (by decide)
    have hne : c ≠ '\x00' := by
      rintro rfl
      exact absurd hprint (by decide)
    rw [scan, if_pos h0, ih fun d hd => hp d (List.mem_cons_of_mem _ hd), escaped_pair h0 h1 hcode, if_neg hbreak,
      formatC_of_ne hne]
    rfl

end Scan

/-- `unescape` is exact on a well-formed string without the escape of the terminator, and on a string that it rejects; every
encoding of a printable text is decoded to the text. -/
theorem unescape_exact_iff {s : CStr} (hnul : '\x00' ∉ s) :
    (Exact s ↔ (WellFormed s ∧ ¬ "%00".toList <:+: s) ∨ Rejected s) ∧
      ∀ p : CStr, (∀ c ∈ p, 32 ≤ c.toNat) → Encodes p s → unescape s = some (some p) := by
  rw [Exact, unescape_scan hnul]
  constructor
  · constructor
    · rintro ⟨r, hr, hiff, hdecode⟩
      by_cases hwell : WellFormed s
      · refine Or.inl ⟨hwell, fun hinfix => ?_⟩
        -- the byte 0 is decoded, but it ends the string
        have hscan := scan_wellFormed hwell hnul
        have hfilter := hdecode _ (Option.some.inj (hr.symm.trans hscan))
        have hmem := (nul_mem_decode hwell hnul).2 hinfix
        rw [← hfilter] at hmem
        simp at hmem
      · refine Or.inr (scan_rejected.1 ?_)
        have hnone : r = none := not_not.1 (mt hiff.1 hwell)
        rw [hr, hnone]
    · rintro (⟨hwell, hinfix⟩ | hbad)
      · have hdrop : (decode s).filter (· ≠ '\x00') = decode s := by
          refine List.filter_eq_self.2 fun c hc => decide_eq_true ?_
          rintro rfl
          exact hinfix ((nul_mem_decode hwell hnul).1 hc)
        refine ⟨some (decode s), ?_, ?_, ?_⟩
        · rw [scan_wellFormed hwell hnul, hdrop]
        · exact ⟨fun _ => hwell, fun _ => Option.some_ne_none _⟩
        · intro t ht
          exact (Option.some.inj ht).symm
      · refine ⟨none, scan_rejected.2 hbad, ?_, ?_⟩
        · exact ⟨fun h => absurd rfl h, fun h => absurd h hbad.not_wellFormed⟩
        · intro t ht
          cases ht
  · intro p hp henc
    exact scan_encodes henc hp

/-- A blank and an escape between letters. -/
theorem unescape_exact_blank : Exact "a+b%41".toList ∧ unescape "a+b%41".toList = some (some "a bA".toList) := by
  refine ⟨(unescape_exact_iff (by decide)).1.2 (Or.inl ⟨?_, by decide⟩),
    (unescape_exact_iff (by decide)).2 "a bA".toList (by decide) ?_⟩
  · exact wellFormed_plain (by decide) (wellFormed_plain (by decide) (wellFormed_plain (by decide)
      (wellFormed_escape (by decide) (by decide) wellFormed_nil)))
  · exact .plain (by decide) (by decide) (.blank (.plain (by decide) (by decide)
      (.escape (by decide) (by decide) (by decide) .nil)))

/-- A percent sign at the end is read behind the string, and the digit before the end is decoded alone. -/
theorem truncated_escape : unescape "%".toList = none ∧ unescape "%4".toList = some (some ['\x04']) ∧
    ¬ Exact "%".toList ∧ ¬ Exact "%4".toList := by
  have hloop : unescape "%".toList = none := by decide
  have hdigit : unescape "%4".toList = some (some ['\x04']) := by decide +kernel
  refine ⟨hloop, hdigit, ?_, ?_⟩
  · rintro ⟨r, hr, -⟩
    rw [hloop] at hr
    cases hr
  · rintro ⟨r, hr, hiff, -⟩
    rw [hdigit] at hr
    have hwell := hiff.1 (by rw [← Option.some.inj hr]; exact Option.some_ne_none _)
    obtain ⟨_, _, _, h, -⟩ := hwell [] ['4'] rfl
    cases h

end Cgilib

end Nut
