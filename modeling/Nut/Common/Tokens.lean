import Nut.Common.CString

/-!
# Tokens

`strtok_r` on a text that is not read otherwise, so that cutting it in place needs no memory.
-/

namespace Nut

/-- The length of the part of `s` from the characters of `accept`. -/
def strspn (s accept : CStr) : Nat := (s.takeWhile (· ∈ accept)).length

/-- `strtok_r`: the token, and what the next call goes on from. -/
def strtok (delim s : CStr) : Option CStr × CStr :=
  let s := s.dropWhile (· ∈ delim)
  if s = [] then (none, []) else (some (s.takeWhile (· ∉ delim)), (s.dropWhile (· ∉ delim)).tail)

/-- A text up to the first occurrence of a character. -/
theorem takeWhile_append_cons {a : CStr} {c : Char} (h : c ∉ a) (b : CStr) :
    (a ++ c :: b).takeWhile (· ≠ c) = a ∧ (a ++ c :: b).dropWhile (· ≠ c) = c :: b := by
  have hall : ∀ d ∈ a, decide (d ≠ c) = true := fun d hd => decide_eq_true fun hdc => h (hdc ▸ hd)
  constructor
  · rw [List.takeWhile_append_of_pos hall, List.takeWhile_cons_of_neg (by simp), List.append_nil]
  · rw [List.dropWhile_append_of_pos hall, List.dropWhile_cons_of_neg (by simp)]

/-- A token between two delimiters. -/
theorem strtok_append {delim w rest : CStr} {d : Char} (hw : w ≠ []) (hword : ∀ c ∈ w, c ∉ delim) (hd : d ∈ delim) :
    strtok delim (w ++ d :: rest) = (some w, rest) := by
  obtain ⟨c, w', rfl⟩ := List.exists_cons_of_ne_nil hw
  have hc : c ∉ delim := hword c List.mem_cons_self
  have hdrop : (c :: w' ++ d :: rest).dropWhile (· ∈ delim) = c :: w' ++ d :: rest :=
    List.dropWhile_cons_of_neg (by simpa using hc)
  have hall : ∀ a ∈ c :: w', decide (a ∉ delim) = true := fun a ha => decide_eq_true (hword a ha)
  have hstop : decide (d ∉ delim) = false := by simpa using hd
  rw [strtok, hdrop, if_neg (by simp), List.takeWhile_append_of_pos hall, List.dropWhile_append_of_pos hall,
    List.takeWhile_cons_of_neg (by simp [hstop]), List.dropWhile_cons_of_neg (by simp [hstop]), List.append_nil, List.tail_cons]

/-- The last token. -/
theorem strtok_last {delim w : CStr} (hw : w ≠ []) (hword : ∀ c ∈ w, c ∉ delim) : strtok delim w = (some w, []) := by
  obtain ⟨c, w', rfl⟩ := List.exists_cons_of_ne_nil hw
  have hc : c ∉ delim := hword c List.mem_cons_self
  have hdrop : (c :: w').dropWhile (· ∈ delim) = c :: w' := List.dropWhile_cons_of_neg (by simpa using hc)
  have hall : ∀ a ∈ c :: w', decide (a ∉ delim) = true := fun a ha => decide_eq_true (hword a ha)
  rw [strtok, hdrop, if_neg (by simp), List.takeWhile_eq_self_iff.2 hall, List.dropWhile_eq_nil_iff.2 hall]
  rfl

end Nut
