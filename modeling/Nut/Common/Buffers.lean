import Nut.Common.CString
import Nut.Lib.Memory

/-!
# `common.c`: `snprintfcat` on the bytes of a buffer

`snprintfcat` takes one byte off the size for the terminator, and `vsnprintf` takes another, so the last byte is never
used by a text.  On the strings of the buffers it is `snprintfcat` of `Nut.Common.CString` (`snprintfcatMem_spec`).
-/

namespace Nut

open Memory

/-- There is no result where the block has no terminator. -/
def strlen (mem : List Char) : Option UInt64 :=
  if '\x00' ∈ mem then some (UInt64.ofNat (text '\x00' mem).length) else none

def intMax : Nat := 2147483647

/-- `vsnprintf` at the offset `str` of a block, when the format and its arguments give `out`. -/
def vsnprintf (mem : List Char) (str size : UInt64) (out : List Char) : Option (List Char × Int32) :=
  let ret := if out.length ≤ intMax then Int32.ofNat out.length else -1
  if size = 0 then some (mem, ret)
  else (write mem str.toNat (out.take (size.toNat - 1) ++ ['\x00'])).map (·, ret)

/-- There is no result where the assertion fails or a byte outside of the block is written. -/
def snprintfcatMem (dst : List Char) (size : UInt64) (out : List Char) : Option (List Char × Int32) := do
  let len ← strlen dst
  let size := size - 1
  if len ≤ size then
    let (dst, ret) ← vsnprintf dst len (size - len) out
    let dst ← write dst size.toNat ['\x00']
    some (dst, Int32.ofInt (len.toNat + ret.toInt))
  else none

/-- Successive calls on one buffer. -/
def snprintfcatAll (dst : List Char) (size : UInt64) : List (List Char) → Option (List Char)
  | [] => some dst
  | out :: outs => do
    let (dst, _) ← snprintfcatMem dst size out
    snprintfcatAll dst size outs

/-- A buffer of `size` bytes with a string in it. -/
structure IsBuffer (dst : List Char) (size : UInt64) : Prop where
  pos : 0 < size.toNat
  fits : size.toNat ≤ dst.length
  short : (text '\x00' dst).length ≤ size.toNat - 1

theorem IsBuffer.nul_mem {dst : List Char} {size : UInt64} (h : IsBuffer dst size) : '\x00' ∈ dst := by
  have hpos := h.pos
  have hfits := h.fits
  have hshort := h.short
  exact length_text_lt_iff.1 (by omega)

/-- `vsnprintf` behind the string appends what fits. -/
theorem vsnprintf_spec {dst : List Char} {str n : UInt64} (hstr : str.toNat = (text '\x00' dst).length)
    (hn : str.toNat + n.toNat ≤ dst.length) (out : List Char) :
    ∃ dst' ret, vsnprintf dst str n out = some (dst', ret) ∧
      text '\x00' dst' = text '\x00' dst ++ snprintf n.toNat (text '\x00' out) ∧ dst'.length = dst.length ∧ dst'.drop (str.toNat + n.toNat) = dst.drop (str.toNat + n.toNat) := by
  unfold vsnprintf
  by_cases hzero : n = 0
  · refine ⟨dst, _, if_pos hzero, ?_, rfl, rfl⟩
    rw [hzero, snprintf]
    exact (List.append_nil _).symm
  · have hpos : n.toNat ≠ 0 := fun h => hzero (UInt64.toNat_inj.1 h)
    have htake : (out.take (n.toNat - 1)).length ≤ n.toNat - 1 := List.length_take_le _ _
    obtain ⟨dst', hwrite, htext⟩ := write_end '\x00' dst (out.take (n.toNat - 1)) (by omega)
    rw [← hstr] at hwrite
    refine ⟨dst', _, by rw [if_neg hzero, hwrite]; rfl, ?_, length_write hwrite, drop_write hwrite ?_⟩
    · rw [htext, text_take, snprintf]
    · rw [List.length_append, List.length_singleton]
      omega

/-- On the strings of its buffers `snprintfcat` is the model of the other modules; nothing behind the buffer changes. -/
theorem snprintfcatMem_spec {dst : List Char} {size : UInt64} (h : IsBuffer dst size) (out : List Char) :
    ∃ dst' ret, snprintfcatMem dst size out = some (dst', ret) ∧ IsBuffer dst' size ∧
      text '\x00' dst' = snprintfcat (text '\x00' dst) size.toNat (text '\x00' out) ∧
      dst'.drop size.toNat = dst.drop size.toNat := by
  have hpos := h.pos
  have hfits := h.fits
  have hshort := h.short
  have hlen : (UInt64.ofNat (text '\x00' dst).length).toNat = (text '\x00' dst).length :=
    UInt64.toNat_ofNat_of_lt (Nat.lt_of_le_of_lt (hshort.trans (Nat.sub_le _ _)) size.toNat_lt)
  have hsize : (size - 1).toNat = size.toNat - 1 := UInt64.toNat_sub_of_le _ _ (by rw [UInt64.le_iff_toNat_le]; exact hpos)
  have hle : UInt64.ofNat (text '\x00' dst).length ≤ size - 1 := by
    rw [UInt64.le_iff_toNat_le, hlen, hsize]
    exact hshort
  have hroom : (size - 1 - UInt64.ofNat (text '\x00' dst).length).toNat = size.toNat - 1 - (text '\x00' dst).length := by
    rw [UInt64.toNat_sub_of_le _ _ hle, hlen, hsize]
  obtain ⟨dst₁, ret, hprint, htext₁, hlen₁, hdrop₁⟩ :=
    vsnprintf_spec (n := size - 1 - UInt64.ofNat (text '\x00' dst).length) hlen (by omega) out
  rw [hroom] at htext₁
  have hshort₁ : (text '\x00' dst₁).length ≤ size.toNat - 1 := by
    rw [htext₁, List.length_append, snprintf, List.length_take]
    omega
  obtain ⟨dst₂, hwrite, htext₂⟩ := write_nul '\x00' (show (size - 1).toNat < dst₁.length by omega)
  rw [hsize, List.take_of_length_le hshort₁] at htext₂
  have hlen₂ := length_write hwrite
  refine ⟨dst₂, Int32.ofInt ((UInt64.ofNat (text '\x00' dst).length).toNat + ret.toInt), ?_,
    ⟨hpos, by omega, by rw [htext₂]; exact hshort₁⟩, ?_, ?_⟩
  · simp only [snprintfcatMem, strlen, if_pos h.nul_mem, Option.bind_eq_bind, Option.bind_some, if_pos hle, hprint, hwrite]
  · rw [htext₂]
    exact htext₁
  · have hdrop₂ := drop_write hwrite (k := size.toNat) (by rw [hsize, List.length_singleton]; omega)
    have hdrop := congrArg (List.drop 1) hdrop₁
    rw [List.drop_drop, List.drop_drop, hlen, hroom,
      show (text '\x00' dst).length + (size.toNat - 1 - (text '\x00' dst).length) + 1 = size.toNat by omega] at hdrop
    exact hdrop₂.trans hdrop

/-- Successive calls are those of the strings. -/
theorem snprintfcatAll_spec {dst : List Char} {size : UInt64} (h : IsBuffer dst size) (outs : List (List Char)) :
    ∃ dst', snprintfcatAll dst size outs = some dst' ∧ IsBuffer dst' size ∧
      text '\x00' dst' = (outs.map (text '\x00')).foldl (snprintfcat · size.toNat) (text '\x00' dst) ∧
      dst'.drop size.toNat = dst.drop size.toNat := by
  induction outs generalizing dst with
  | nil => exact ⟨dst, rfl, h, rfl, rfl⟩
  | cons out outs ih =>
    obtain ⟨dst₁, ret, hcall, h₁, htext₁, hdrop₁⟩ := snprintfcatMem_spec h out
    obtain ⟨dst₂, hcalls, h₂, htext₂, hdrop₂⟩ := ih h₁
    refine ⟨dst₂, ?_, h₂, ?_, hdrop₂.trans hdrop₁⟩
    · rw [snprintfcatAll, hcall]
      exact hcalls
    · rw [htext₂, htext₁]
      rfl

/-! ### What successive calls leave -/

theorem snprintfcat_eq_take {string : CStr} {size : Nat} (h : string.length ≤ size - 2) (text : CStr) :
    snprintfcat string size text = (string ++ text).take (size - 2) := by
  rw [snprintfcat, snprintf, List.take_append, List.take_of_length_le h]
  congr 2
  omega

theorem take_take_append {α : Type*} (l l' : List α) (k : Nat) : (l.take k ++ l').take k = (l ++ l').take k := by
  rw [List.take_append, List.take_append, List.take_take, Nat.min_self, List.length_take]
  rcases Nat.le_total l.length k with h | h
  · rw [Nat.min_eq_right h]
  · rw [Nat.min_eq_left h, Nat.sub_self, Nat.sub_eq_zero_of_le h]

/-- A buffer that is full to the last byte stays as it is. -/
theorem foldl_snprintfcat_full {dst : CStr} {size : Nat} (h : dst.length + 1 = size) (outs : List CStr) :
    outs.foldl (snprintfcat · size) dst = dst := by
  induction outs with
  | nil => rfl
  | cons out outs ih =>
    have hout : snprintfcat dst size out = dst := by
      rw [snprintfcat, show size - 1 - dst.length = 0 by omega]
      exact List.append_nil dst
    rw [List.foldl_cons, hout, ih]

/-- All other buffers keep two bytes less than their size. -/
theorem foldl_snprintfcat_take {dst : CStr} {size : Nat} (h : dst.length ≤ size - 2) (outs : List CStr) :
    outs.foldl (snprintfcat · size) dst = (dst ++ outs.flatten).take (size - 2) := by
  induction outs generalizing dst with
  | nil =>
    rw [List.flatten_nil, List.append_nil, List.take_of_length_le h]
    rfl
  | cons out outs ih =>
    rw [List.foldl_cons, snprintfcat_eq_take h, ih (List.length_take_le _ _), take_take_append, List.append_assoc,
      List.flatten_cons]

/-- The last byte is not used: nothing is lost exactly if the buffer was full before or it is not filled. -/
theorem foldl_snprintfcat_eq_iff {dst : CStr} {size : Nat} (hpos : 0 < size) (h : dst.length ≤ size - 1) (outs : List CStr) :
    outs.foldl (snprintfcat · size) dst = (dst ++ outs.flatten).take (size - 1) ↔
      dst.length + 1 = size ∨ dst.length + outs.flatten.length + 1 < size := by
  by_cases hfull : dst.length + 1 = size
  · rw [foldl_snprintfcat_full hfull, List.take_left' (by omega)]
    exact iff_of_true rfl (.inl hfull)
  · rw [foldl_snprintfcat_take (by omega)]
    constructor
    · intro heq
      have hlen := congrArg List.length heq
      rw [List.length_take, List.length_take, List.length_append] at hlen
      exact .inr (by omega)
    · rintro (hsize | hroom)
      · exact absurd hsize hfull
      · have hlen : (dst ++ outs.flatten).length ≤ size - 2 := by
          rw [List.length_append]
          omega
        rw [List.take_of_length_le hlen, List.take_of_length_le (by omega)]

end Nut
