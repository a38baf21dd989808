import Nut.Common.State

/-!
# Reading a template

A template is read by `fgets`, a line or a piece of a longer line at a time, and `parse_line` cuts what was read at each
`@`.  A position in the file is the text behind it.
-/

namespace Nut.Template

def largebuf : Nat := 1024

/-- A text up to the end of its first line. -/
def lineOf : CStr → CStr
  | [] => []
  | c :: t => if c = '\n' then [c] else c :: lineOf t

/-- `fgets` into a buffer of `largebuf` bytes: what it reads, and the text behind. -/
def fgets (tf : CStr) : Option (CStr × CStr) :=
  if tf = [] then none
  else
    let buf := (lineOf tf).take (largebuf - 1)
    some (buf, tf.drop buf.length)

/-- The lines of a text, each with its newline. -/
def linesOf : CStr → List CStr
  | [] => []
  | c :: t =>
    if c = '\n' then [c] :: linesOf t
    else
      match linesOf t with
      | [] => [[c]]
      | l :: ls => (c :: l) :: ls

/-- What `parse_line` comes to: a character to pass through, or a command. -/
inductive Item
  | char (c : Char)
  | command (cmd : CStr)
  deriving DecidableEq

/-- The items of a text, where the command `cmd` may be open. -/
def cut : Option CStr → CStr → List Item
  | _, [] => []
  | none, c :: t => if c = '@' then cut (some []) t else .char c :: cut none t
  | some cmd, c :: t => if c = '@' then .command (snprintf smallbuf cmd) :: cut none t else cut (some (cmd ++ [c])) t

/-- The command that is open behind a text. -/
def openAfter : Option CStr → CStr → Option CStr
  | cmd, [] => cmd
  | none, c :: t => if c = '@' then openAfter (some []) t else openAfter none t
  | some cmd, c :: t => if c = '@' then openAfter none t else openAfter (some (cmd ++ [c])) t

def items (buf : CStr) : List Item := cut none buf

/-- Where a line is too long to be read at once, no command is cut, and the commands `marks` are in the last piece. -/
def Whole (marks : List CStr) (l : CStr) : Prop :=
  ∀ a b, l = a ++ b → b ≠ [] → largebuf - 1 ∣ a.length →
    openAfter none a = none ∧ ∀ m ∈ marks, .command m ∉ items a

theorem cut_append (cmd : Option CStr) (a b : CStr) : cut cmd (a ++ b) = cut cmd a ++ cut (openAfter cmd a) b := by
  induction a generalizing cmd with
  | nil => cases cmd <;> rfl
  | cons c a ih =>
    rw [List.cons_append]
    cases cmd with
    | none =>
      by_cases hc : c = '@'
      · simp only [cut, openAfter, if_pos hc, ih]
      · simp only [cut, openAfter, if_neg hc, ih, List.cons_append]
    | some cmd =>
      by_cases hc : c = '@'
      · simp only [cut, openAfter, if_pos hc, ih, List.cons_append]
      · simp only [cut, openAfter, if_neg hc, ih]

theorem openAfter_append (cmd : Option CStr) (a b : CStr) :
    openAfter cmd (a ++ b) = openAfter (openAfter cmd a) b := by
  induction a generalizing cmd with
  | nil => cases cmd <;> rfl
  | cons c a ih =>
    rw [List.cons_append]
    cases cmd with
    | none =>
      by_cases hc : c = '@'
      · simp only [openAfter, if_pos hc, ih]
      · simp only [openAfter, if_neg hc, ih]
    | some cmd =>
      by_cases hc : c = '@'
      · simp only [openAfter, if_pos hc, ih]
      · simp only [openAfter, if_neg hc, ih]

theorem items_append {a : CStr} (h : openAfter none a = none) (b : CStr) : items (a ++ b) = items a ++ items b := by
  unfold items
  rw [cut_append, h]

/-- A short line is read at once. -/
theorem whole_of_length {marks : List CStr} {l : CStr} (h : l.length < largebuf) : Whole marks l := by
  intro a b hl hb hdvd
  have hlength : l.length = a.length + b.length := by rw [hl, List.length_append]
  have hpos : 0 < b.length := List.length_pos_iff.2 hb
  have hlarge : largebuf = 1024 := rfl
  have hzero : a.length = 0 := Nat.eq_zero_of_dvd_of_lt hdvd (by omega)
  rw [List.length_eq_zero_iff.1 hzero]
  exact ⟨rfl, fun m _ => List.not_mem_nil⟩

/-- What is left of a line behind its first piece. -/
theorem Whole.drop {marks : List CStr} {a b : CStr} (h : Whole marks (a ++ b)) (ha : a.length = largebuf - 1)
    (hb : b ≠ []) : Whole marks b := by
  have hopen : openAfter none a = none := (h a b rfl hb (ha ▸ dvd_rfl)).1
  intro c d hcd hd hdvd
  have hall := h (a ++ c) d (by rw [hcd, List.append_assoc]) hd
    (by rw [List.length_append, ha]; exact Nat.dvd_add dvd_rfl hdvd)
  rw [openAfter_append, hopen, items_append hopen] at hall
  exact ⟨hall.1, fun m hm hmem => hall.2 m hm (List.mem_append_right _ hmem)⟩

section Lines

variable {l a b rest : CStr} {ls : List CStr}

/-- The rest of a line is one. -/
theorem lineOf_of_append (h : lineOf (a ++ b ++ rest) = a ++ b) (hb : b ≠ []) : lineOf (b ++ rest) = b := by
  induction a with
  | nil => exact h
  | cons c a ih =>
    simp only [List.cons_append, lineOf] at h
    by_cases hc : c = '\n'
    · rw [if_pos hc, List.cons.injEq] at h
      exact absurd (List.append_eq_nil_iff.1 h.2.symm).2 hb
    · rw [if_neg hc, List.cons.injEq] at h
      exact ih h.2

/-- A line that fits the buffer is read with its newline. -/
theorem fgets_line (h : lineOf (l ++ rest) = l) (hl : l ≠ []) (hlength : l.length < largebuf) :
    fgets (l ++ rest) = some (l, rest) := by
  have htake : l.take (largebuf - 1) = l := List.take_of_length_le (by omega)
  simp only [fgets, if_neg (List.append_ne_nil_of_left_ne_nil hl rest), h, htake, List.drop_left]

/-- A longer line is read in pieces. -/
theorem fgets_piece (h : lineOf (a ++ b ++ rest) = a ++ b) (ha : a.length = largebuf - 1) :
    fgets (a ++ b ++ rest) = some (a, b ++ rest) := by
  have hne : a ++ b ++ rest ≠ [] := by
    intro hnil
    have hlength := congrArg List.length hnil
    rw [List.length_append, List.length_append, ha] at hlength
    have hlarge : largebuf = 1024 := rfl
    simp only [List.length_nil] at hlength
    omega
  have htake : (a ++ b).take (largebuf - 1) = a := by rw [← ha, List.take_left]
  simp only [fgets, if_neg hne, h, htake]
  rw [List.append_assoc, List.drop_left]

/-- The lines of a text one after the other. -/
inductive Lines : List CStr → Prop
  | nil : Lines []
  | cons {l : CStr} {ls : List CStr} : l ≠ [] → lineOf (l ++ ls.flatten) = l → Lines ls → Lines (l :: ls)

theorem Lines.tail_append {body : List CStr} (h : Lines (body ++ l :: ls)) : Lines ls := by
  induction body with
  | nil =>
    cases h with
    | cons _ _ hlines => exact hlines
  | cons k body ih =>
    cases h with
    | cons _ _ hlines => exact ih hlines

theorem flatten_linesOf (template : CStr) : (linesOf template).flatten = template := by
  induction template with
  | nil => rfl
  | cons c t ih =>
    simp only [linesOf]
    split
    · rw [List.flatten_cons, ih, List.singleton_append]
    · cases h : linesOf t with
      | nil => rw [← ih, h]; rfl
      | cons l ls => rw [← ih, h]; rfl

theorem lines_linesOf (template : CStr) : Lines (linesOf template) := by
  induction template with
  | nil => exact .nil
  | cons c t ih =>
    simp only [linesOf]
    split
    · rename_i hc
      refine .cons (List.cons_ne_nil c []) ?_ ih
      rw [List.singleton_append, lineOf, if_pos hc]
    · rename_i hc
      cases h : linesOf t with
      | nil => exact .cons (List.cons_ne_nil c []) (by simp only [List.flatten_nil, List.append_nil, lineOf, if_neg hc]) .nil
      | cons l ls =>
        rw [h] at ih
        cases ih with
        | cons hne hline hlines =>
          refine .cons (List.cons_ne_nil c l) ?_ hlines
          rw [List.cons_append, lineOf, if_neg hc, hline]

end Lines

end Nut.Template
