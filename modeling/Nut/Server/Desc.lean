import Nut.Common.Eof
import Nut.Server.Moves

/-!
# `desc.c`: the descriptions of variables and commands

`cmdvartab` is read once, when the server starts.

* `listGet_descLoad`: the description of a name is the one on the last line of the file for it, up to case;
* `RunsWith.lists`: it is the same in every state of the run.
-/

namespace Nut

/-- The argument lists of the first calls of `pconf_file_next`, without those of lines with a parse error. -/
def soundLists : Nat → PconfCtx → CStr → List (List CStr)
  | 0, _, _ => []
  | n + 1, ctx, f =>
    match pconfFileNext ctx f with
    | (ctx, rest, true) =>
      if ctx.error then soundLists n { ctx with error := false } rest else ctx.args :: soundLists n ctx rest
    | (_, _, false) => []

/-- The lines of a file; every call but the last takes a character. -/
def soundLines (f : CStr) : List (List CStr) := soundLists (f.length + 1) pconfInit f

/-- Replace the description of the first entry of the name. -/
def descReplace (name desc : CStr) : List (CStr × CStr) → List (CStr × CStr)
  | [] => []
  | temp :: list => if strcasecmp temp.1 name = .eq then (temp.1, desc) :: list else temp :: descReplace name desc list

def descAdd (list : List (CStr × CStr)) (name desc : CStr) : List (CStr × CStr) :=
  if list.any fun temp => strcasecmp temp.1 name = .eq then descReplace name desc list else (name, desc) :: list

/-- `cmd_list` and `var_list` after one more line. -/
def descLine (lists : List (CStr × CStr) × List (CStr × CStr)) :
    List CStr → List (CStr × CStr) × List (CStr × CStr)
  | arg0 :: arg1 :: arg2 :: _ =>
    if arg0 = "CMDDESC".toList then (descAdd lists.1 arg1 arg2, lists.2)
    else if arg0 = "VARDESC".toList then (lists.1, descAdd lists.2 arg1 arg2)
    else lists
  | _ => lists

/-- The lines of `cmdvartab`, if it can be opened. -/
def vartabLines (f : Option CStr) : List (List CStr) := f.elim [] soundLines

def descLoad (f : Option CStr) : List (CStr × CStr) × List (CStr × CStr) := (vartabLines f).foldl descLine ([], [])

/-! ### The description of a name -/

/-- The description on a line, if the line is for the name. -/
def lineDesc (keyword name : CStr) : List CStr → Option CStr
  | arg0 :: arg1 :: arg2 :: _ => if arg0 = keyword ∧ strcasecmp arg1 name = .eq then some arg2 else none
  | _ => none

/-- The description on the last line for the name. -/
def lastDesc (keyword : CStr) (lines : List (List CStr)) (name : CStr) : Option CStr :=
  (lines.filterMap (lineDesc keyword name)).getLast?

theorem listGet_cons (temp : CStr × CStr) (list : List (CStr × CStr)) (name : CStr) :
    listGet (temp :: list) name = if strcasecmp temp.1 name = .eq then some temp.2 else listGet list name := by
  unfold listGet
  rw [List.find?_cons]
  by_cases h : strcasecmp temp.1 name = .eq <;> simp [h]

theorem listGet_descReplace {list : List (CStr × CStr)} {name : CStr}
    (hany : ∃ temp ∈ list, strcasecmp temp.1 name = .eq) (desc name' : CStr) :
    listGet (descReplace name desc list) name' = if strcasecmp name name' = .eq then some desc else listGet list name' := by
  induction list with
  | nil => simp at hany
  | cons temp list ih =>
    rw [descReplace]
    by_cases htemp : strcasecmp temp.1 name = .eq
    · -- the entry has the name in another spelling
      have hsame : strcasecmp temp.1 name' = .eq ↔ strcasecmp name name' = .eq := by
        rw [strcasecmp_eq, strcasecmp_eq, strcasecmp_eq.1 htemp]
      rw [if_pos htemp, listGet_cons, listGet_cons]
      simp only [hsame]
      split_ifs <;> rfl
    · have hrest : ∃ temp ∈ list, strcasecmp temp.1 name = .eq := by
        obtain ⟨other, hother, hname⟩ := hany
        rcases List.mem_cons.1 hother with rfl | hother
        · exact absurd hname htemp
        · exact ⟨other, hother, hname⟩
      rw [if_neg htemp, listGet_cons, listGet_cons, ih hrest]
      by_cases hname : strcasecmp name name' = .eq
      · have hne : strcasecmp temp.1 name' ≠ .eq := by
          rw [strcasecmp_eq] at hname
          rwa [ne_eq, strcasecmp_eq, ← hname, ← strcasecmp_eq]
        rw [if_neg hne, if_pos hname, if_pos hname]
      · rw [if_neg hname, if_neg hname]

theorem listGet_descAdd (list : List (CStr × CStr)) (name desc name' : CStr) :
    listGet (descAdd list name desc) name' = if strcasecmp name name' = .eq then some desc else listGet list name' := by
  unfold descAdd
  split_ifs with hany
  · rw [listGet_descReplace (by simpa using hany), if_pos ‹_›]
  · rw [listGet_descReplace (by simpa using hany), if_neg ‹_›]
  · rw [listGet_cons, if_pos ‹_›]
  · rw [listGet_cons, if_neg ‹_›]

theorem listGet_descAdd_or (list : List (CStr × CStr)) (name desc name' : CStr) :
    listGet (descAdd list name desc) name' =
      (if strcasecmp name name' = .eq then some desc else none).or (listGet list name') := by
  rw [listGet_descAdd]
  split_ifs <;> rfl

/-- What one more line changes for a name. -/
theorem listGet_descLine (lists : List (CStr × CStr) × List (CStr × CStr)) (args : List CStr) (name : CStr) :
    listGet (descLine lists args).1 name = (lineDesc "CMDDESC".toList name args).or (listGet lists.1 name) ∧
      listGet (descLine lists args).2 name = (lineDesc "VARDESC".toList name args).or (listGet lists.2 name) := by
  have hne : "CMDDESC".toList ≠ "VARDESC".toList := by decide
  rcases args with _ | ⟨arg0, _ | ⟨arg1, _ | ⟨arg2, rest⟩⟩⟩
  case nil | cons.nil | cons.cons.nil => exact ⟨rfl, rfl⟩
  case cons.cons.cons =>
    unfold descLine lineDesc
    dsimp only
    generalize "CMDDESC".toList = cmddesc, "VARDESC".toList = vardesc at hne ⊢
    by_cases hcmd : arg0 = cmddesc
    · subst hcmd
      simp only [hne, if_true, true_and, false_and, if_false]
      exact ⟨listGet_descAdd_or .., rfl⟩
    · by_cases hvar : arg0 = vardesc
      · subst hvar
        simp only [hcmd, if_true, true_and, false_and, if_false]
        exact ⟨rfl, listGet_descAdd_or ..⟩
      · simp only [hcmd, hvar, false_and, if_false]
        exact ⟨rfl, rfl⟩

theorem lastDesc_concat (keyword : CStr) (lines : List (List CStr)) (args : List CStr) (name : CStr) :
    lastDesc keyword (lines ++ [args]) name = (lineDesc keyword name args).or (lastDesc keyword lines name) := by
  unfold lastDesc
  rw [List.filterMap_append]
  cases h : lineDesc keyword name args <;> simp [h]

/-- The lists hold, for each name, the description on the last line for it. -/
theorem listGet_descLoad (f : Option CStr) (name : CStr) :
    listGet (descLoad f).1 name = lastDesc "CMDDESC".toList (vartabLines f) name ∧
      listGet (descLoad f).2 name = lastDesc "VARDESC".toList (vartabLines f) name := by
  unfold descLoad
  induction vartabLines f using List.reverseRecOn with
  | nil => exact ⟨rfl, rfl⟩
  | append_singleton lines args ih =>
    have hline := listGet_descLine (lines.foldl descLine ([], [])) args name
    rw [List.foldl_append, List.foldl_cons, List.foldl_nil, lastDesc_concat, lastDesc_concat, ← ih.1, ← ih.2]
    exact hline

/-! ### While the server runs -/

variable {adds dels : Prop}

theorem Move.lists {s s' : Upsd} (h : Move adds dels s s') : s'.cmdList = s.cmdList ∧ s'.varList = s.varList := by
  cases h with
  | disconnect fd =>
    unfold clientDisconnect
    split
    · exact ⟨rfl, rfl⟩
    · dsimp only
      split
      · exact ⟨rfl, rfl⟩
      · unfold declogins
        split <;> exact ⟨rfl, rfl⟩
  | upses | client | login | fsd | connect | create | delete | users | limits => exact ⟨rfl, rfl⟩

theorem Moved.lists {s s' : Upsd} (h : Moved adds dels s s') : s'.cmdList = s.cmdList ∧ s'.varList = s.varList := by
  induction h with
  | refl => exact ⟨rfl, rfl⟩
  | tail _ hmove ih =>
    have hone := hmove.lists
    exact ⟨hone.1.trans ih.1, hone.2.trans ih.2⟩

/-- A server that has just been started with this file. -/
def StartedWith (f : Option CStr) (s : Upsd) : Prop :=
  ∃ c files maxconn upsVersion, upsdStart c files maxconn (descLoad f).1 (descLoad f).2 upsVersion = some s

/-- The states of a server that was started with this file. -/
def RunsWith (f : Option CStr) : Upsd → Prop := Transition.Reach (StartedWith f) Does

theorem StartedWith.started {f : Option CStr} {s : Upsd} (h : StartedWith f s) : Started s := by
  obtain ⟨c, files, maxconn, upsVersion, h⟩ := h
  exact ⟨c, files, maxconn, _, _, upsVersion, h⟩

theorem StartedWith.lists {f : Option CStr} {s : Upsd} (h : StartedWith f s) :
    s.cmdList = (descLoad f).1 ∧ s.varList = (descLoad f).2 := by
  obtain ⟨c, files, maxconn, upsVersion, h⟩ := h
  unfold upsdStart at h
  split at h
  · rename_i upsdConf _ _ _
    obtain ⟨upstable, -, h⟩ := Option.bind_eq_some_iff.1 h
    dsimp only at h
    split_ifs at h
    have hmoves (s : Upsd) : Moved True True s (upsconfAdd c false (loadUpsdconf s upsdConf) upstable) :=
      (moves_loadUpsdconf s upsdConf).trans (moves_upsconfAdd c false _ upstable)
    rw [← Option.some.inj h]
    exact (hmoves _).lists
  · simp at h

theorem RunsWith.stage {f : Option CStr} {s : Upsd} (h : RunsWith f s) : s.Stage :=
  h.invariant (fun _ hs => .init hs.started) fun _ _ hs hdoes => hs.step hdoes

/-- The descriptions stay as they were loaded. -/
theorem RunsWith.lists {f : Option CStr} {s : Upsd} (h : RunsWith f s) :
    s.cmdList = (descLoad f).1 ∧ s.varList = (descLoad f).2 := by
  induction h with
  | init h => exact h.lists
  | @step s s' h hdoes ih =>
    obtain ⟨mid, hmid, hmid'⟩ := hdoes.moves (RunsWith.stage h).uniqueNames
    exact ⟨(hmid'.lists.1.trans hmid.lists.1).trans ih.1, (hmid'.lists.2.trans hmid.lists.2).trans ih.2⟩

end Nut
