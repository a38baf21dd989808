import Nut.Common.State
import Nut.Common.Words

/-!
# The tree of variables as a search tree

The operations of `state.c` are those of a search tree whose keys are the names in lower case: `stateTreeFind` is
`find`, `stateSetinfo` is `upsert`, `stateDelinfo` is `erase`, and the others are `modify` at one variable
(`stateAddenum_fst`, ..., `stateSetflags_eq`).  The lists of a variable and the list of commands are described by
their members.
-/

namespace Nut

open SearchTree

/-- The key of a node: names are compared without regard to case. -/
def nodeKey (node : StNode) : CStr := tolower node.var

theorem stateTreeFind_eq (t : StTree) (var : CStr) : stateTreeFind t var = find nodeKey (tolower var) t := by
  induction t with
  | nil => rfl
  | node left node right ihl ihr =>
    rw [stateTreeFind, find_node, ihl, ihr]
    rfl

theorem stateTreeStore_eq (t : StTree) (var : CStr) (new : StNode) :
    stateTreeStore t var new = SearchTree.modify nodeKey (tolower var) (fun _ => new) t := by
  induction t with
  | nil => rfl
  | node left node right ihl ihr =>
    rw [stateTreeStore, modify_node, ihl, ihr]
    rfl

/-- Storing `f` of the node that was found. -/
theorem stateTreeStore_of_find {t : StTree} {var : CStr} {n : StNode} {f : StNode → StNode}
    (h : stateTreeFind t var = some n) : stateTreeStore t var (f n) = SearchTree.modify nodeKey (tolower var) f t := by
  rw [stateTreeFind_eq] at h
  rw [stateTreeStore_eq]
  refine modify_congr fun a ha => ?_
  rw [h] at ha
  rw [Option.some.inj ha]

/-! ### Variables -/

/-- `val` is the encoded `raw`, whether or not the two share their buffer. -/
theorem valEscape_eq (n : StNode) : valEscape n = { n with val := pconfEncode n.raw stMaxValueLen } := by
  unfold valEscape
  by_cases h : n.raw = pconfEncode n.raw stMaxValueLen
  · rw [if_pos h, ← h]
  · rw [if_neg h]

@[simp] theorem valEscape_var (n : StNode) : (valEscape n).var = n.var := by rw [valEscape_eq]
@[simp] theorem valEscape_raw (n : StNode) : (valEscape n).raw = n.raw := by rw [valEscape_eq]
@[simp] theorem valEscape_flags (n : StNode) : (valEscape n).flags = n.flags := by rw [valEscape_eq]
@[simp] theorem valEscape_aux (n : StNode) : (valEscape n).aux = n.aux := by rw [valEscape_eq]
@[simp] theorem valEscape_enumList (n : StNode) : (valEscape n).enumList = n.enumList := by rw [valEscape_eq]
@[simp] theorem valEscape_rangeList (n : StNode) : (valEscape n).rangeList = n.rangeList := by rw [valEscape_eq]
@[simp] theorem valEscape_val (n : StNode) : (valEscape n).val = pconfEncode n.raw stMaxValueLen := by rw [valEscape_eq]

/-- `state_setinfo` leaves the variable as it is. -/
def keepsValue (val : CStr) (n : StNode) : Bool :=
  strcasecmp n.raw val = .eq || n.flags &&& stFlagImmutable ≠ 0

/-- What `state_setinfo` does to a variable that exists. -/
def setRaw (val : CStr) (n : StNode) : StNode := if keepsValue val n then n else valEscape { n with raw := val }

/-- What the new value does not change. -/
private theorem apply_setRaw {α : Type*} (f : StNode → α) {val : CStr} {n : StNode}
    (hf : f (valEscape { n with raw := val }) = f n) : f (setRaw val n) = f n := by
  unfold setRaw
  split
  · rfl
  · exact hf

@[simp] theorem setRaw_var (val : CStr) (n : StNode) : (setRaw val n).var = n.var :=
  apply_setRaw StNode.var (valEscape_var _)
@[simp] theorem setRaw_flags (val : CStr) (n : StNode) : (setRaw val n).flags = n.flags :=
  apply_setRaw StNode.flags (valEscape_flags _)
@[simp] theorem setRaw_aux (val : CStr) (n : StNode) : (setRaw val n).aux = n.aux :=
  apply_setRaw StNode.aux (valEscape_aux _)
@[simp] theorem setRaw_enumList (val : CStr) (n : StNode) : (setRaw val n).enumList = n.enumList :=
  apply_setRaw StNode.enumList (valEscape_enumList _)
@[simp] theorem setRaw_rangeList (val : CStr) (n : StNode) : (setRaw val n).rangeList = n.rangeList :=
  apply_setRaw StNode.rangeList (valEscape_rangeList _)

theorem setRaw_of_keeps {val : CStr} {n : StNode} (h : keepsValue val n = true) : setRaw val n = n := if_pos h

theorem setRaw_raw {val : CStr} {n : StNode} (h : keepsValue val n = false) : (setRaw val n).raw = val := by
  simp [setRaw, h]

@[simp] theorem newNode_var (var val : CStr) : (newNode var val).var = var := valEscape_var _
@[simp] theorem newNode_raw (var val : CStr) : (newNode var val).raw = val := valEscape_raw _
@[simp] theorem newNode_val (var val : CStr) : (newNode var val).val = pconfEncode val stMaxValueLen := valEscape_val _
@[simp] theorem newNode_flags (var val : CStr) : (newNode var val).flags = 0 := valEscape_flags _
@[simp] theorem newNode_aux (var val : CStr) : (newNode var val).aux = 0 := valEscape_aux _
@[simp] theorem newNode_enumList (var val : CStr) : (newNode var val).enumList = [] := valEscape_enumList _
@[simp] theorem newNode_rangeList (var val : CStr) : (newNode var val).rangeList = [] := valEscape_rangeList _

private theorem stateSetinfo_eq (t : StTree) (var val : CStr) :
    stateSetinfo t var val =
      (upsert nodeKey (tolower var) (setRaw val) (newNode var val) t,
        (stateTreeFind t var).elim true fun n => !keepsValue val n) := by
  induction t with
  | nil => rfl
  | node left node right ihl ihr =>
    rw [stateSetinfo, upsert_node, stateTreeFind, ihl, ihr]
    have hcmp : order (nodeKey node) (tolower var) = strcasecmp node.var var := rfl
    unfold order at hcmp
    rw [hcmp]
    rcases hc : strcasecmp node.var var
    · rfl
    · by_cases h1 : strcasecmp node.raw val = .eq
      · simp [h1, setRaw, keepsValue]
      · by_cases h2 : node.flags &&& stFlagImmutable = 0#32
        · simp [h1, h2, setRaw, keepsValue]
        · simp [h1, h2, setRaw, keepsValue]
    · rfl

theorem stateSetinfo_fst (t : StTree) (var val : CStr) :
    (stateSetinfo t var val).1 = upsert nodeKey (tolower var) (setRaw val) (newNode var val) t := by
  rw [stateSetinfo_eq]

/-- `state_setinfo` reports a change unless the variable keeps its value. -/
theorem stateSetinfo_snd (t : StTree) (var val : CStr) :
    (stateSetinfo t var val).2 = (stateTreeFind t var).elim true fun n => !keepsValue val n := by
  rw [stateSetinfo_eq]

private theorem stTreeNodeAddLoop_eq (sptr : StTree) (var : CStr) (t : StTree) :
    stTreeNodeAddLoop sptr var t = hang nodeKey (tolower var) sptr t := by
  induction t with
  | nil => rfl
  | node left node right ihl ihr =>
    rw [stTreeNodeAddLoop, hang_node, ihl, ihr]
    rfl

theorem stTreeNodeAdd_eq (nptr sptr : StTree) : stTreeNodeAdd nptr sptr = graft nodeKey sptr nptr := by
  cases sptr with
  | nil => rfl
  | node left node right => exact stTreeNodeAddLoop_eq _ _ _

private theorem stateDelinfo_eq (t : StTree) (var : CStr) :
    stateDelinfo t var = (erase nodeKey (tolower var) t, (stateTreeFind t var).isSome) := by
  induction t with
  | nil => rfl
  | node left node right ihl ihr =>
    rw [stateDelinfo, erase_node, stateTreeFind, ihl, ihr, stTreeNodeAdd_eq]
    have hcmp : order (nodeKey node) (tolower var) = strcasecmp node.var var := rfl
    unfold order at hcmp
    rw [hcmp]
    rcases hc : strcasecmp node.var var <;> rfl

theorem stateDelinfo_fst (t : StTree) (var : CStr) : (stateDelinfo t var).1 = erase nodeKey (tolower var) t := by
  rw [stateDelinfo_eq]

theorem stateDelinfo_snd (t : StTree) (var : CStr) : (stateDelinfo t var).2 = (stateTreeFind t var).isSome := by
  rw [stateDelinfo_eq]

/-! ### What belongs to a variable -/

theorem stTreeEnumAdd_eq (l : List CStr) (enc : CStr) :
    stTreeEnumAdd l enc = if enc ∈ l then (l, false) else (l ++ [enc], true) := by
  induction l with
  | nil => rfl
  | cons item l ih =>
    rw [stTreeEnumAdd, ih]
    by_cases h : item = enc
    · simp [h]
    · by_cases hl : enc ∈ l
      · simp [h, hl]
      · simp [h, hl, Ne.symm h]

/-- The items that `st_tree_del_enum` looks for. -/
def isEnum (val item : CStr) : Bool := strcasecmp item val = .eq

theorem stTreeDelEnum_fst (l : List CStr) (val : CStr) : (stTreeDelEnum l val).1 = l.eraseP (isEnum val) := by
  induction l with
  | nil => rfl
  | cons item l ih =>
    by_cases h : strcasecmp item val = .eq
    · simp [stTreeDelEnum, h, isEnum]
    · simp [stTreeDelEnum, h, isEnum, ih]

theorem stTreeDelEnum_snd (l : List CStr) (val : CStr) : (stTreeDelEnum l val).2 = l.any (isEnum val) := by
  induction l with
  | nil => rfl
  | cons item l ih =>
    by_cases h : strcasecmp item val = .eq
    · simp [stTreeDelEnum, h, isEnum]
    · simp [stTreeDelEnum, h, isEnum, ih]

/-- The ranges that are in the way of a new one, and that `st_tree_del_range` looks for. -/
def meets (min max : Int32) (r : Range) : Bool := r.min = min || r.max = max

theorem stTreeRangeAdd_eq (l : List Range) (min max : Int32) :
    stTreeRangeAdd l min max = if l.any (meets min max) then (l, false) else (l ++ [⟨min, max⟩], true) := by
  induction l with
  | nil => rfl
  | cons item l ih =>
    rw [stTreeRangeAdd, ih, List.any_cons]
    by_cases h1 : item.min = min
    · simp [meets, h1]
    · by_cases h2 : item.max = max
      · simp [meets, h2]
      · by_cases hl : l.any (meets min max) = true
        · simp [meets, h1, h2, hl]
        · simp [meets, h1, h2, hl]

theorem stTreeDelRange_fst (l : List Range) (min max : Int32) :
    (stTreeDelRange l min max).1 = l.eraseP (meets min max) := by
  induction l with
  | nil => rfl
  | cons item l ih =>
    rw [stTreeDelRange]
    by_cases h1 : item.min = min
    · simp [meets, h1]
    · by_cases h2 : item.max = max
      · simp [meets, h2]
      · simp [meets, h1, h2, ih]

theorem stTreeDelRange_snd (l : List Range) (min max : Int32) :
    (stTreeDelRange l min max).2 = l.any (meets min max) := by
  induction l with
  | nil => rfl
  | cons item l ih =>
    rw [stTreeDelRange]
    by_cases h1 : item.min = min
    · simp [meets, h1]
    · by_cases h2 : item.max = max
      · simp [meets, h2]
      · simp [meets, h1, h2, ih]

/-- The changes that the operations make at the variable they find. -/
def addEnumTo (enc : CStr) (n : StNode) : StNode := { n with enumList := (stTreeEnumAdd n.enumList enc).1 }
def delEnumFrom (val : CStr) (n : StNode) : StNode := { n with enumList := (stTreeDelEnum n.enumList val).1 }
def addRangeTo (min max : Int32) (n : StNode) : StNode :=
  { n with rangeList := (stTreeRangeAdd n.rangeList min max).1 }
def delRangeFrom (min max : Int32) (n : StNode) : StNode :=
  { n with rangeList := (stTreeDelRange n.rangeList min max).1 }
def setAuxOf (aux : Int32) (n : StNode) : StNode := { n with aux := aux }
def setFlagsOf (flags : BitVec 32) (n : StNode) : StNode := { n with flags := flags }

theorem nodeKey_setRaw (val : CStr) (n : StNode) : nodeKey (setRaw val n) = nodeKey n := by simp [nodeKey]
theorem nodeKey_newNode (var val : CStr) : nodeKey (newNode var val) = tolower var := by simp [nodeKey]
theorem nodeKey_addEnumTo (enc : CStr) (n : StNode) : nodeKey (addEnumTo enc n) = nodeKey n := rfl
theorem nodeKey_delEnumFrom (val : CStr) (n : StNode) : nodeKey (delEnumFrom val n) = nodeKey n := rfl
theorem nodeKey_addRangeTo (min max : Int32) (n : StNode) : nodeKey (addRangeTo min max n) = nodeKey n := rfl
theorem nodeKey_delRangeFrom (min max : Int32) (n : StNode) : nodeKey (delRangeFrom min max n) = nodeKey n := rfl
theorem nodeKey_setAuxOf (aux : Int32) (n : StNode) : nodeKey (setAuxOf aux n) = nodeKey n := rfl
theorem nodeKey_setFlagsOf (flags : BitVec 32) (n : StNode) : nodeKey (setFlagsOf flags n) = nodeKey n := rfl

theorem stateAddenum_fst (t : StTree) (var val : CStr) :
    (stateAddenum t var val).1 =
      SearchTree.modify nodeKey (tolower var) (addEnumTo (pconfEncode val stMaxValueLen)) t := by
  rcases h : stateTreeFind t var with _ | n
  · rw [modify_of_find_none (stateTreeFind_eq t var ▸ h)]
    simp [stateAddenum, h]
  · rw [← stateTreeStore_of_find h]
    simp [stateAddenum, h, addEnumTo]

theorem stateAddenum_snd (t : StTree) (var val : CStr) :
    (stateAddenum t var val).2 =
      (stateTreeFind t var).elim false fun n => decide (pconfEncode val stMaxValueLen ∉ n.enumList) := by
  rcases h : stateTreeFind t var with _ | n
  · simp [stateAddenum, h]
  · by_cases hm : pconfEncode val stMaxValueLen ∈ n.enumList
    · simp [stateAddenum, h, stTreeEnumAdd_eq, hm]
    · simp [stateAddenum, h, stTreeEnumAdd_eq, hm]

theorem stateDelenum_fst (t : StTree) (var val : CStr) :
    (stateDelenum t var val).1 = SearchTree.modify nodeKey (tolower var) (delEnumFrom val) t := by
  rcases h : stateTreeFind t var with _ | n
  · rw [modify_of_find_none (stateTreeFind_eq t var ▸ h)]
    simp [stateDelenum, h]
  · rw [← stateTreeStore_of_find h]
    simp [stateDelenum, h, delEnumFrom]

theorem stateDelenum_snd (t : StTree) (var val : CStr) :
    (stateDelenum t var val).2 = (stateTreeFind t var).elim false fun n => n.enumList.any (isEnum val) := by
  rcases h : stateTreeFind t var with _ | n
  · simp [stateDelenum, h]
  · simp [stateDelenum, h, stTreeDelEnum_snd]

theorem stateAddrange_fst (t : StTree) (var : CStr) (min max : Int32) :
    (stateAddrange t var min max).1 =
      if max < min then t else SearchTree.modify nodeKey (tolower var) (addRangeTo min max) t := by
  by_cases hlt : max < min
  · simp [stateAddrange, hlt]
  · rcases h : stateTreeFind t var with _ | n
    · rw [modify_of_find_none (stateTreeFind_eq t var ▸ h)]
      simp [stateAddrange, hlt, h]
    · rw [← stateTreeStore_of_find h]
      simp [stateAddrange, hlt, h, addRangeTo]

theorem stateAddrange_snd (t : StTree) (var : CStr) (min max : Int32) :
    (stateAddrange t var min max).2 =
      (!decide (max < min) && (stateTreeFind t var).elim false fun n => !n.rangeList.any (meets min max)) := by
  by_cases hlt : max < min
  · simp [stateAddrange, hlt]
  · rcases h : stateTreeFind t var with _ | n
    · simp [stateAddrange, hlt, h]
    · by_cases hm : n.rangeList.any (meets min max) = true
      · simp [stateAddrange, hlt, h, stTreeRangeAdd_eq, hm]
      · simp [stateAddrange, hlt, h, stTreeRangeAdd_eq, hm]

theorem stateDelrange_fst (t : StTree) (var : CStr) (min max : Int32) :
    (stateDelrange t var min max).1 = SearchTree.modify nodeKey (tolower var) (delRangeFrom min max) t := by
  rcases h : stateTreeFind t var with _ | n
  · rw [modify_of_find_none (stateTreeFind_eq t var ▸ h)]
    simp [stateDelrange, h]
  · rw [← stateTreeStore_of_find h]
    simp [stateDelrange, h, delRangeFrom]

theorem stateDelrange_snd (t : StTree) (var : CStr) (min max : Int32) :
    (stateDelrange t var min max).2 =
      (stateTreeFind t var).elim false fun n => n.rangeList.any (meets min max) := by
  rcases h : stateTreeFind t var with _ | n
  · simp [stateDelrange, h]
  · simp [stateDelrange, h, stTreeDelRange_snd]

theorem stateSetaux_fst (t : StTree) (var auxs : CStr) :
    (stateSetaux t var auxs).1 = SearchTree.modify nodeKey (tolower var) (setAuxOf (atoi auxs)) t := by
  rcases h : stateTreeFind t var with _ | n
  · rw [modify_of_find_none (stateTreeFind_eq t var ▸ h)]
    simp [stateSetaux, h]
  · by_cases ha : n.aux = atoi auxs
    · have hsame : setAuxOf (atoi auxs) n = n := by rw [setAuxOf, ← ha]
      rw [modify_eq_self fun a hf => by
        rw [← stateTreeFind_eq, h] at hf
        rw [← Option.some.inj hf, hsame]]
      simp [stateSetaux, h, ha]
    · rw [← stateTreeStore_of_find h]
      simp [stateSetaux, h, ha, setAuxOf]

theorem stateSetflags_eq (t : StTree) (var : CStr) (flag : List CStr) :
    stateSetflags t var flag = SearchTree.modify nodeKey (tolower var) (setFlagsOf (flag.foldl setflag 0)) t := by
  rcases h : stateTreeFind t var with _ | n
  · rw [modify_of_find_none (stateTreeFind_eq t var ▸ h)]
    simp [stateSetflags, h]
  · rw [← stateTreeStore_of_find h]
    simp [stateSetflags, h, setFlagsOf]

/-! ### Commands -/

/-- The list of commands is kept in the order of their names. -/
def CmdSorted (l : List CStr) : Prop := l.Pairwise fun a b => tolower a < tolower b

theorem strcasecmp_lt {s t : CStr} : strcasecmp s t = .lt ↔ tolower s < tolower t := cmp_eq_lt_iff _ _

private theorem strcasecmp_gt {s t : CStr} : strcasecmp s t = .gt ↔ tolower t < tolower s := cmp_eq_gt_iff _ _

section

variable {name cmd : CStr} (l : List CStr)

private theorem stateAddcmd_nil (cmd : CStr) : stateAddcmd [] cmd = ([cmd], true) := rfl

private theorem stateDelcmd_nil (cmd : CStr) : stateDelcmd [] cmd = ([], false) := rfl

private theorem stateAddcmd_lt (h : strcasecmp name cmd = .lt) :
    stateAddcmd (name :: l) cmd = (name :: (stateAddcmd l cmd).1, (stateAddcmd l cmd).2) := by
  rw [stateAddcmd, h]

private theorem stateAddcmd_eq (h : strcasecmp name cmd = .eq) : stateAddcmd (name :: l) cmd = (name :: l, false) := by
  rw [stateAddcmd, h]

private theorem stateAddcmd_gt (h : strcasecmp name cmd = .gt) :
    stateAddcmd (name :: l) cmd = (cmd :: name :: l, true) := by
  rw [stateAddcmd, h]

private theorem stateDelcmd_lt (h : strcasecmp name cmd = .lt) :
    stateDelcmd (name :: l) cmd = (name :: (stateDelcmd l cmd).1, (stateDelcmd l cmd).2) := by
  rw [stateDelcmd, h]

private theorem stateDelcmd_eq (h : strcasecmp name cmd = .eq) : stateDelcmd (name :: l) cmd = (l, true) := by
  rw [stateDelcmd, h]

private theorem stateDelcmd_gt (h : strcasecmp name cmd = .gt) : stateDelcmd (name :: l) cmd = (name :: l, false) := by
  rw [stateDelcmd, h]

end

/-- A command is added unless one of that name is there. -/
theorem mem_stateAddcmd {l : List CStr} (hl : CmdSorted l) (cmd c : CStr) :
    c ∈ (stateAddcmd l cmd).1 ↔ c ∈ l ∨ c = cmd ∧ ∀ d ∈ l, tolower d ≠ tolower cmd := by
  induction l with
  | nil => simp [stateAddcmd_nil]
  | cons name l ih =>
    obtain ⟨hname, hl⟩ := List.pairwise_cons.1 hl
    rcases h : strcasecmp name cmd
    · have hlt := strcasecmp_lt.1 h
      simp [stateAddcmd_lt l h, ih hl, hlt.ne, or_assoc]
    · have heq := strcasecmp_eq.1 h
      simp [stateAddcmd_eq l h, heq]
    · have hgt := strcasecmp_gt.1 h
      have hnone : ∀ d ∈ l, tolower d ≠ tolower cmd := fun d hd => (hgt.trans (hname d hd)).ne'
      simp only [stateAddcmd_gt l h, List.mem_cons, forall_eq_or_imp]
      constructor
      · rintro (rfl | hc)
        · exact .inr ⟨rfl, hgt.ne', hnone⟩
        · exact .inl hc
      · rintro (hc | ⟨rfl, -⟩)
        · exact .inr hc
        · exact .inl rfl

theorem cmdSorted_addcmd {l : List CStr} (hl : CmdSorted l) (cmd : CStr) : CmdSorted (stateAddcmd l cmd).1 := by
  induction l with
  | nil => exact List.pairwise_singleton _ _
  | cons name l ih =>
    obtain ⟨hname, hl'⟩ := List.pairwise_cons.1 hl
    rcases h : strcasecmp name cmd
    · simp only [stateAddcmd_lt l h]
      refine List.pairwise_cons.2 ⟨fun c hc => ?_, ih hl'⟩
      rcases (mem_stateAddcmd hl' cmd c).1 hc with hc | ⟨rfl, -⟩
      · exact hname c hc
      · exact strcasecmp_lt.1 h
    · simpa only [stateAddcmd_eq l h] using hl
    · have hgt := strcasecmp_gt.1 h
      simp only [stateAddcmd_gt l h]
      refine List.pairwise_cons.2 ⟨fun c hc => ?_, hl⟩
      rcases List.mem_cons.1 hc with rfl | hc
      · exact hgt
      · exact hgt.trans (hname c hc)

/-- A name above all others is added at the end. -/
theorem stateAddcmd_of_lt {l : List CStr} {cmd : CStr} (h : ∀ d ∈ l, tolower d < tolower cmd) :
    (stateAddcmd l cmd).1 = l ++ [cmd] := by
  induction l with
  | nil => rfl
  | cons name l ih =>
    have hlt : strcasecmp name cmd = .lt := strcasecmp_lt.2 (h name (by simp))
    simp [stateAddcmd_lt l hlt, ih fun d hd => h d (by simp [hd])]

theorem stateAddcmd_snd {l : List CStr} (hl : CmdSorted l) (cmd : CStr) :
    (stateAddcmd l cmd).2 = true ↔ ∀ d ∈ l, tolower d ≠ tolower cmd := by
  induction l with
  | nil => simp [stateAddcmd_nil]
  | cons name l ih =>
    obtain ⟨hname, hl⟩ := List.pairwise_cons.1 hl
    rcases h : strcasecmp name cmd
    · have hlt := strcasecmp_lt.1 h
      simp [stateAddcmd_lt l h, ih hl, hlt.ne]
    · have heq := strcasecmp_eq.1 h
      simp [stateAddcmd_eq l h, heq]
    · have hgt := strcasecmp_gt.1 h
      simp only [stateAddcmd_gt l h, true_iff, List.mem_cons, forall_eq_or_imp]
      exact ⟨hgt.ne', fun d hd => (hgt.trans (hname d hd)).ne'⟩

theorem stateAddcmd_same {l : List CStr} {cmd : CStr} (h : (stateAddcmd l cmd).2 = false) : (stateAddcmd l cmd).1 = l := by
  induction l with
  | nil => simp [stateAddcmd_nil] at h
  | cons name l ih =>
    rcases hc : strcasecmp name cmd
    · rw [stateAddcmd_lt l hc] at h ⊢
      exact congrArg (name :: ·) (ih h)
    · rw [stateAddcmd_eq l hc]
    · simp [stateAddcmd_gt l hc] at h

theorem stateDelcmd_same {l : List CStr} {cmd : CStr} (h : (stateDelcmd l cmd).2 = false) : (stateDelcmd l cmd).1 = l := by
  induction l with
  | nil => rfl
  | cons name l ih =>
    rcases hc : strcasecmp name cmd
    · rw [stateDelcmd_lt l hc] at h ⊢
      exact congrArg (name :: ·) (ih h)
    · simp [stateDelcmd_eq l hc] at h
    · rw [stateDelcmd_gt l hc]

theorem stateDelcmd_snd {l : List CStr} (hl : CmdSorted l) (cmd : CStr) :
    (stateDelcmd l cmd).2 = true ↔ ∃ d ∈ l, tolower d = tolower cmd := by
  induction l with
  | nil => simp [stateDelcmd_nil]
  | cons name l ih =>
    obtain ⟨hname, hl⟩ := List.pairwise_cons.1 hl
    rcases h : strcasecmp name cmd
    · have hlt := strcasecmp_lt.1 h
      simp [stateDelcmd_lt l h, ih hl, hlt.ne]
    · have heq := strcasecmp_eq.1 h
      simp [stateDelcmd_eq l h, heq]
    · have hgt := strcasecmp_gt.1 h
      simp only [stateDelcmd_gt l h, Bool.false_eq_true, false_iff, not_exists, not_and, List.mem_cons]
      rintro d (rfl | hd)
      · exact hgt.ne'
      · exact (hgt.trans (hname d hd)).ne'

theorem mem_stateDelcmd {l : List CStr} (hl : CmdSorted l) (cmd c : CStr) :
    c ∈ (stateDelcmd l cmd).1 ↔ c ∈ l ∧ tolower c ≠ tolower cmd := by
  induction l with
  | nil => simp [stateDelcmd_nil]
  | cons name l ih =>
    obtain ⟨hname, hl⟩ := List.pairwise_cons.1 hl
    rcases h : strcasecmp name cmd
    · have hlt := strcasecmp_lt.1 h
      simp only [stateDelcmd_lt l h, List.mem_cons, ih hl]
      constructor
      · rintro (rfl | ⟨hc, hne⟩)
        · exact ⟨.inl rfl, hlt.ne⟩
        · exact ⟨.inr hc, hne⟩
      · rintro ⟨rfl | hc, hne⟩
        · exact .inl rfl
        · exact .inr ⟨hc, hne⟩
    · have heq := strcasecmp_eq.1 h
      simp only [stateDelcmd_eq l h, List.mem_cons]
      constructor
      · exact fun hc => ⟨.inr hc, heq ▸ (hname c hc).ne'⟩
      · rintro ⟨rfl | hc, hne⟩
        · exact absurd heq hne
        · exact hc
    · have hgt := strcasecmp_gt.1 h
      simp only [stateDelcmd_gt l h, List.mem_cons, iff_self_and]
      rintro (rfl | hc)
      · exact hgt.ne'
      · exact (hgt.trans (hname c hc)).ne'

theorem cmdSorted_delcmd {l : List CStr} (hl : CmdSorted l) (cmd : CStr) : CmdSorted (stateDelcmd l cmd).1 := by
  induction l with
  | nil => exact List.Pairwise.nil
  | cons name l ih =>
    obtain ⟨hname, hl'⟩ := List.pairwise_cons.1 hl
    rcases h : strcasecmp name cmd
    · simp only [stateDelcmd_lt l h]
      exact List.pairwise_cons.2 ⟨fun c hc => hname c ((mem_stateDelcmd hl' cmd c).1 hc).1, ih hl'⟩
    · simp only [stateDelcmd_eq l h]; exact hl'
    · simpa only [stateDelcmd_gt l h] using hl

end Nut
