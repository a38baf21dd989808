import Nut.Common.CString

/-!
# `upsconf.c`: the lines of `ups.conf`

`conf_args` gives the settings of the file, each with its section, to a function of the program that reads it.  A flag has no
value.  There is no result where a string is indexed out of its bounds or where the function of the program has none.
-/

namespace Nut

namespace Upsconf

/-- A call of `do_upsconf_args`. -/
structure Setting where
  upsname : Option CStr
  var : CStr
  val : Option CStr

/-- A character of a string, up to the terminator. -/
def charAt (s : CStr) (i : Int) : Option Char := if 0 ≤ i then (s ++ ['\x00'])[i.toNat]? else none

/-- The test for `[upsname]`, which looks at the last character only behind a bracket. -/
def isHeader (arg0 : CStr) : Option Bool := do
  if (← charAt arg0 0) = '[' then
    let last ← charAt arg0 (arg0.length - 1)
    return last = ']'
  else return false

section

variable {σ : Type} (doUpsconfArgs : σ → Setting → Option σ)

/-- The section and the state of the program after one more line. -/
def confArgs (st : Option CStr × σ) : List CStr → Option (Option CStr × σ)
  | [] => some st
  | arg0 :: rest => do
    if ← isHeader arg0 then return (some arg0.dropLast.tail, st.2)
    else
      match rest with
      | [] => (doUpsconfArgs st.2 ⟨st.1, arg0, none⟩).map fun s => (st.1, s)
      | [_] => return st
      | arg1 :: arg2 :: _ =>
        if arg1 = "=".toList then (doUpsconfArgs st.2 ⟨st.1, arg0, some arg2⟩).map fun s => (st.1, s) else return st

def readUpsconf (s : σ) (lines : List (List CStr)) : Option σ :=
  (lines.foldlM (confArgs doUpsconfArgs) (none, s)).map Prod.snd

end

/-! ### The settings of a file -/

inductive Line
  | header (upsname : CStr)
  | setting (var : CStr) (val : Option CStr)
  | other

def lineOf : List CStr → Line
  | [] => .other
  | arg0 :: rest =>
    if arg0.head? = some '[' ∧ arg0.getLast? = some ']' then .header arg0.dropLast.tail
    else
      match rest with
      | [] => .setting arg0 none
      | [_] => .other
      | arg1 :: arg2 :: _ => if arg1 = "=".toList then .setting arg0 (some arg2) else .other

/-- The settings with their sections, where `upsname` is the section of the first lines. -/
def settingsFrom (upsname : Option CStr) : List Line → List Setting
  | [] => []
  | .header upsname :: lines => settingsFrom (some upsname) lines
  | .setting var val :: lines => ⟨upsname, var, val⟩ :: settingsFrom upsname lines
  | .other :: lines => settingsFrom upsname lines

def settings (lines : List (List CStr)) : List Setting := settingsFrom none (lines.map lineOf)

section

variable {σ : Type} {doUpsconfArgs : σ → Setting → Option σ}

theorem charAt_getLast {s : CStr} (h : s ≠ []) : charAt s (s.length - 1) = s.getLast? := by
  have hpos := List.length_pos_iff.2 h
  have hindex : ((s.length : Int) - 1).toNat = s.length - 1 := by omega
  rw [charAt, if_pos (by omega), hindex, List.getElem?_append_left (by omega), List.getLast?_eq_getElem?]

/-- The test reads no string out of its bounds. -/
theorem isHeader_eq (arg0 : CStr) : isHeader arg0 = some (decide (arg0.head? = some '[' ∧ arg0.getLast? = some ']')) := by
  rcases arg0 with _ | ⟨c, arg0⟩
  · rfl
  · have hfirst : charAt (c :: arg0) 0 = some c := rfl
    have hlast := charAt_getLast (List.cons_ne_nil c arg0)
    obtain ⟨d, hd⟩ := Option.isSome_iff_exists.1 (List.getLast?_isSome.2 (List.cons_ne_nil c arg0))
    unfold isHeader
    rw [hfirst, hlast, hd]
    by_cases hc : c = '['
    · simp [hc]
    · simp [hc]

theorem confArgs_line (st : Option CStr × σ) (args : List CStr) :
    confArgs doUpsconfArgs st args =
      match lineOf args with
      | .header upsname => some (some upsname, st.2)
      | .setting var val => (doUpsconfArgs st.2 ⟨st.1, var, val⟩).map fun s => (st.1, s)
      | .other => some st := by
  rcases args with _ | ⟨arg0, rest⟩
  · rfl
  · simp only [confArgs, lineOf, isHeader_eq]
    by_cases hheader : arg0.head? = some '[' ∧ arg0.getLast? = some ']'
    · simp [hheader]
    · rcases rest with _ | ⟨arg1, _ | ⟨arg2, rest⟩⟩
      · simp [hheader]
      · simp [hheader]
      · by_cases heq : arg1 = ['=']
        · simp [hheader, heq]
        · simp [hheader, heq]

/-- A file is read as its settings. -/
theorem readUpsconf_eq (s : σ) (lines : List (List CStr)) :
    readUpsconf doUpsconfArgs s lines = (settings lines).foldlM doUpsconfArgs s := by
  have hlines : ∀ (lines : List (List CStr)) (upsname : Option CStr) (s : σ),
      (lines.foldlM (confArgs doUpsconfArgs) (upsname, s)).map Prod.snd =
        (settingsFrom upsname (lines.map lineOf)).foldlM doUpsconfArgs s := by
    intro lines
    induction lines with
    | nil => exact fun _ _ => rfl
    | cons args lines ih =>
      intro upsname s
      rw [List.foldlM_cons, confArgs_line, List.map_cons]
      rcases lineOf args with upsname' | ⟨var, val⟩ | _
      · exact ih (some upsname') s
      · rw [settingsFrom, List.foldlM_cons]
        cases hcall : doUpsconfArgs s ⟨upsname, var, val⟩ with
        | none => simp [hcall]
        | some s' => simpa [hcall] using ih upsname s'
      · exact ih upsname s
  exact hlines lines none s

end

end Upsconf

end Nut
