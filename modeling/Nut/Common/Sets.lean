import Nut.Common.StateTree
import Nut.Lib.SetRuns

/-!
# The sets of `state.c`

The list of instant commands, the ranges and the enumeration of a variable are linked lists that callers add to and
delete from one item at a time.  Whether they are the sets that the callers mean is said of every sequence of calls.

* The list of commands is a sorted set of names up to letter case (`cmdlist_sorted_set`).
* The ranges are a set of pairs exactly if no call is made for an absent pair while another one shares a bound with it
  (`ranges_are_set_iff`).
* The enumeration is a set of values exactly if every value added is short enough for its encoded form to be its own, and
  for every value deleted the first item equal to it up to letter case is its encoded form (`enums_are_set_iff`).
-/

namespace Nut

open SearchTree SetRuns

/-! ### The list of commands -/

section Commands

/-- A call of `state_addcmd` or `state_delcmd`. -/
def cmdCall (list : List CStr) : SetOp CStr → List CStr × Bool
  | .insert cmd => stateAddcmd list cmd
  | .delete cmd => stateDelcmd list cmd

/-- A command of that name, in any letter case, is in the list. -/
def HasCmd (list : List CStr) (cmd : CStr) : Prop := ∃ name ∈ list, strcasecmp name cmd = .eq

/-- The list after several calls. -/
def cmdRun (ops : List (SetOp CStr)) : List CStr := ops.foldl (fun list op => (cmdCall list op).1) []

theorem hasCmd_iff {list : List CStr} {cmd : CStr} : HasCmd list cmd ↔ ∃ name ∈ list, tolower name = tolower cmd := by
  simp only [HasCmd, strcasecmp_eq]

theorem cmdSorted_cmdCall {list : List CStr} (h : CmdSorted list) (op : SetOp CStr) : CmdSorted (cmdCall list op).1 := by
  cases op with
  | insert cmd => exact cmdSorted_addcmd h cmd
  | delete cmd => exact cmdSorted_delcmd h cmd

/-- What a call does to the names, as they are in lower case. -/
theorem names_cmdCall {list : List CStr} (h : CmdSorted list) (op : SetOp CStr) (k : CStr) :
    (∃ name ∈ (cmdCall list op).1, tolower name = k) ↔
      op.map tolower = .insert k ∨ tolower op.key ≠ k ∧ ∃ name ∈ list, tolower name = k := by
  cases op with
  | insert cmd =>
    show (∃ name ∈ (stateAddcmd list cmd).1, tolower name = k) ↔ SetOp.insert (tolower cmd) = .insert k ∨ tolower cmd ≠ k ∧ _
    simp only [mem_stateAddcmd h, SetOp.insert.injEq]
    constructor
    · rintro ⟨name, hname | ⟨rfl, -⟩, rfl⟩
      · by_cases hk : tolower cmd = tolower name
        · exact .inl hk
        · exact .inr ⟨hk, name, hname, rfl⟩
      · exact .inl rfl
    · rintro (rfl | ⟨-, name, hname, rfl⟩)
      · by_cases hmem : ∃ d ∈ list, tolower d = tolower cmd
        · obtain ⟨d, hd, he⟩ := hmem
          exact ⟨d, .inl hd, he⟩
        · exact ⟨cmd, .inr ⟨rfl, fun d hd he => hmem ⟨d, hd, he⟩⟩, rfl⟩
      · exact ⟨name, .inl hname, rfl⟩
  | delete cmd =>
    show (∃ name ∈ (stateDelcmd list cmd).1, tolower name = k) ↔ SetOp.delete (tolower cmd) = .insert k ∨ tolower cmd ≠ k ∧ _
    simp only [mem_stateDelcmd h, reduceCtorEq, false_or]
    constructor
    · rintro ⟨name, ⟨hname, hne⟩, rfl⟩
      exact ⟨hne.symm, name, hname, rfl⟩
    · rintro ⟨hne, name, hname, rfl⟩
      exact ⟨name, ⟨hname, hne.symm⟩, rfl⟩

/-- A call says whether it changed the list. -/
theorem cmdCall_snd {list : List CStr} (h : CmdSorted list) (op : SetOp CStr) :
    (cmdCall list op).2 = true ↔ (cmdCall list op).1 ≠ list := by
  constructor
  · intro hchanged hsame
    cases op with
    | insert cmd =>
      have hnone := (stateAddcmd_snd h cmd).1 hchanged
      have hmem := (mem_stateAddcmd h cmd cmd).2 (.inr ⟨rfl, hnone⟩)
      exact hnone cmd (by rwa [show (stateAddcmd list cmd).1 = list from hsame] at hmem) rfl
    | delete cmd =>
      obtain ⟨d, hd, he⟩ := (stateDelcmd_snd h cmd).1 hchanged
      rw [← show (stateDelcmd list cmd).1 = list from hsame] at hd
      exact ((mem_stateDelcmd h cmd d).1 hd).2 he
  · intro hne
    by_contra hsame
    rw [Bool.not_eq_true] at hsame
    cases op with
    | insert cmd => exact hne (stateAddcmd_same hsame)
    | delete cmd => exact hne (stateDelcmd_same hsame)

/-- The list of commands after any sequence of calls: it is sorted without two names that differ in letter case only; a
name is there if the last call for it added it; what a call returns is whether it changed the list; and neither loop
stops short of a name that is there. -/
theorem cmdlist_sorted_set (ops : List (SetOp CStr)) :
    ((cmdRun ops).Pairwise fun a b => strcasecmp a b = .lt) ∧
    (∀ cmd, HasCmd (cmdRun ops) cmd ↔ LastInserts (ops.map (SetOp.map tolower)) (tolower cmd)) ∧
    (∀ op, (cmdCall (cmdRun ops) op).2 = true ↔ (cmdCall (cmdRun ops) op).1 ≠ cmdRun ops) ∧
    (∀ cmd, (stateAddcmd (cmdRun ops) cmd).2 = false ↔ HasCmd (cmdRun ops) cmd) ∧
    ∀ cmd, (stateDelcmd (cmdRun ops) cmd).2 = true ↔ HasCmd (cmdRun ops) cmd := by
  obtain ⟨hsorted, hnames⟩ : CmdSorted (cmdRun ops) ∧
      ∀ k, (∃ name ∈ cmdRun ops, tolower name = k) ↔ LastInserts (ops.map (SetOp.map tolower)) k :=
    shows_run (fun list k => ∃ name ∈ list, tolower name = k) List.Pairwise.nil (by simp)
      (fun list op h => ⟨cmdSorted_cmdCall h op, names_cmdCall h op⟩) ops
  refine ⟨?_, ?_, cmdCall_snd hsorted, ?_, ?_⟩
  · exact hsorted.imp fun h => strcasecmp_lt.2 h
  · intro cmd
    rw [hasCmd_iff, hnames]
  · intro cmd
    rw [hasCmd_iff, ← Bool.not_eq_true, stateAddcmd_snd hsorted]
    simp
  · intro cmd
    rw [hasCmd_iff, stateDelcmd_snd hsorted]

end Commands

/-! ### The ranges of a variable -/

section Ranges

/-- A call of `state_addrange` or `state_delrange` for the variable. -/
def rangeCall (var : CStr) (root : StTree) : SetOp Range → StTree
  | .insert r => (stateAddrange root var r.min r.max).1
  | .delete r => (stateDelrange root var r.min r.max).1

/-- The ranges of the variable after several calls. -/
def rangesAfter (var : CStr) (root : StTree) (ops : List (SetOp Range)) : List Range :=
  stateGetrangelist (ops.foldl (rangeCall var) root) var

/-- Throughout the calls the ranges are the set of the pairs whose last call added them; a call that adds a pair keeps the
others, and one that deletes a pair that is not there removes nothing. -/
structure RangesAreSet (var : CStr) (root : StTree) (ops : List (SetOp Range)) : Prop where
  pairs : ∀ before, before <+: ops → (rangesAfter var root before).Nodup ∧
    ∀ r, r ∈ rangesAfter var root before ↔ LastInserts before r
  added : ∀ before r, before ++ [.insert r] <+: ops →
    ∀ s, s ∈ rangesAfter var root before ∨ s = r → s ∈ rangesAfter var root (before ++ [.insert r])
  absent : ∀ before r, before ++ [.delete r] <+: ops → r ∉ rangesAfter var root before →
    rangesAfter var root (before ++ [.delete r]) = rangesAfter var root before

/-- The pairs share neither bound. -/
def Range.Apart (r s : Range) : Prop := s.min ≠ r.min ∧ s.max ≠ r.max

theorem meets_iff {r s : Range} : meets r.min r.max s = true ↔ ¬r.Apart s := by
  rw [meets, Range.Apart, Bool.or_eq_true, decide_eq_true_eq, decide_eq_true_eq, not_and_or, not_not, not_not]

theorem Range.not_apart_self (r : Range) : ¬r.Apart r := fun h => h.1 rfl

/-- What a call makes of the list of ranges. -/
def rangeListCall (list : List Range) : SetOp Range → List Range
  | .insert r => (stTreeRangeAdd list r.min r.max).1
  | .delete r => (stTreeDelRange list r.min r.max).1

/-- No range to be added is upside down. -/
def Upright (op : SetOp Range) : Prop := ∀ r, op = .insert r → r.min ≤ r.max

theorem find_rangeCall {var : CStr} {root : StTree} {n : StNode} (hn : stateTreeFind root var = some n)
    {op : SetOp Range} (hop : Upright op) :
    stateTreeFind (rangeCall var root op) var = some { n with rangeList := rangeListCall n.rangeList op } := by
  rw [stateTreeFind_eq] at hn
  cases op with
  | insert r =>
    have hle : ¬r.max < r.min := Int32.not_lt.2 (hop r rfl)
    rw [rangeCall, stateAddrange_fst, if_neg hle, stateTreeFind_eq, find_modify_self (nodeKey_addRangeTo _ _), hn]
    rfl
  | delete r =>
    rw [rangeCall, stateDelrange_fst, stateTreeFind_eq, find_modify_self (nodeKey_delRangeFrom _ _), hn]
    rfl

theorem find_rangeCalls {var : CStr} {root : StTree} {n : StNode} (hn : stateTreeFind root var = some n)
    {ops : List (SetOp Range)} (hops : ∀ op ∈ ops, Upright op) :
    stateTreeFind (ops.foldl (rangeCall var) root) var =
      some { n with rangeList := ops.foldl rangeListCall n.rangeList } := by
  induction ops generalizing root n with
  | nil => exact hn
  | cons op ops ih => exact ih (find_rangeCall hn (hops op (by simp))) fun o ho => hops o (by simp [ho])

theorem mem_rangeListCall_insert {list : List Range} (hl : list.Nodup) (r : Range) :
    ((rangeListCall list (.insert r)).Nodup ∧ ∀ s, s ∈ rangeListCall list (.insert r) ↔ r = s ∨ s ∈ list) ↔
      r ∈ list ∨ ∀ s ∈ list, r.Apart s := by
  show ((stTreeRangeAdd list r.min r.max).1.Nodup ∧ ∀ s, s ∈ (stTreeRangeAdd list r.min r.max).1 ↔ _) ↔ _
  rw [stTreeRangeAdd_eq]
  by_cases hmeets : list.any (meets r.min r.max) = true
  · obtain ⟨s, hs, hrs⟩ := List.any_eq_true.1 hmeets
    rw [if_pos hmeets]
    constructor
    · rintro ⟨-, h⟩
      exact .inl ((h r).2 (.inl rfl))
    · rintro (h | h)
      · refine ⟨hl, fun t => ⟨.inr, ?_⟩⟩
        rintro (rfl | ht)
        · exact h
        · exact ht
      · exact absurd (h s hs) (meets_iff.1 hrs)
  · have hapart : ∀ s ∈ list, r.Apart s := by
      intro s hs
      by_contra h
      exact hmeets (List.any_eq_true.2 ⟨s, hs, meets_iff.2 h⟩)
    have hr : r ∉ list := fun h => r.not_apart_self (hapart r h)
    rw [if_neg hmeets]
    refine iff_of_true ⟨nodup_concat_iff.2 ⟨hr, hl⟩, fun s => ?_⟩ (.inr hapart)
    rw [List.mem_append, List.mem_singleton, or_comm]
    exact or_congr_left eq_comm

theorem mem_rangeListCall_delete {list : List Range} (hl : list.Nodup)
    (hapart : ∀ r ∈ list, ∀ s ∈ list, r = s ∨ r.Apart s) (r : Range) :
    ((rangeListCall list (.delete r)).Nodup ∧ ∀ s, s ∈ rangeListCall list (.delete r) ↔ s ≠ r ∧ s ∈ list) ↔
      r ∈ list ∨ ∀ s ∈ list, r.Apart s := by
  have hnodup : (list.eraseP (meets r.min r.max)).Nodup := hl.sublist List.eraseP_sublist
  show ((stTreeDelRange list r.min r.max).1.Nodup ∧ ∀ s, s ∈ (stTreeDelRange list r.min r.max).1 ↔ _) ↔ _
  rw [stTreeDelRange_fst, erases_iff hl, and_iff_right hnodup]
  by_cases hr : r ∈ list
  · rw [if_pos hr]
    refine iff_of_true ?_ (.inl hr)
    obtain ⟨s, hs⟩ := Option.isSome_iff_exists.1
      (List.find?_isSome.2 ⟨r, hr, meets_iff.2 r.not_apart_self⟩)
    rcases hapart r hr s (List.mem_of_find?_eq_some hs) with rfl | h
    · exact hs
    · exact absurd h (meets_iff.1 (List.find?_some hs))
  · rw [if_neg hr, List.find?_eq_none]
    simp only [meets_iff, not_not, hr, false_or]

/-- The call is made for a pair that is there, or that shares no bound with one that is. -/
def KnownOrApart (before : List (SetOp Range)) (op : SetOp Range) : Prop :=
  LastInserts before op.key ∨ ∀ s, LastInserts before s → op.key.Apart s

/-- The pairs in the set share no bound with each other. -/
def AllApart (before : List (SetOp Range)) : Prop :=
  ∀ r, LastInserts before r → ∀ s, LastInserts before s → r = s ∨ r.Apart s

theorem Range.Apart.symm {r s : Range} (h : r.Apart s) : s.Apart r := ⟨h.1.symm, h.2.symm⟩

theorem AllApart.concat {before : List (SetOp Range)} (h : AllApart before) {op : SetOp Range}
    (hop : KnownOrApart before op) : AllApart (before ++ [op]) := by
  cases op with
  | insert r =>
    have hnew : ∀ s, LastInserts before s → r = s ∨ r.Apart s := by
      intro s hs
      rcases hop with hr | hr
      · exact h r hr s hs
      · exact .inr (hr s hs)
    intro a ha b hb
    rcases lastInserts_insert.1 ha with rfl | ha
    · rcases lastInserts_insert.1 hb with rfl | hb
      · exact .inl rfl
      · exact hnew b hb
    · rcases lastInserts_insert.1 hb with rfl | hb
      · exact (hnew a ha).imp Eq.symm Range.Apart.symm
      · exact h a ha b hb
  | delete r =>
    intro a ha b hb
    exact h a (lastInserts_delete.1 ha).2 b (lastInserts_delete.1 hb).2

/-- One more call keeps the set exactly if it is made for a pair that is known or apart. -/
theorem rangeListCall_iff {list : List Range} {before : List (SetOp Range)} (hapart : AllApart before)
    (hl : list.Nodup ∧ ∀ r, r ∈ list ↔ LastInserts before r) (op : SetOp Range) :
    ((rangeListCall list op).Nodup ∧ ∀ r, r ∈ rangeListCall list op ↔ LastInserts (before ++ [op]) r) ↔
      KnownOrApart before op := by
  unfold KnownOrApart
  cases op with
  | insert r =>
    simp only [lastInserts_insert, ← hl.2]
    exact mem_rangeListCall_insert hl.1 r
  | delete r =>
    have happly := mem_rangeListCall_delete hl.1
      (fun a ha b hb => hapart a ((hl.2 a).1 ha) b ((hl.2 b).1 hb)) r
    simp only [lastInserts_delete, ← hl.2]
    simp only [ne_comm] at happly ⊢
    exact happly

/-- The ranges of a variable behave as a set of pairs exactly if every call is made for a pair that is there or that
shares no bound with one that is. -/
theorem ranges_are_set_iff {var : CStr} {root : StTree} {n : StNode} (hn : stateTreeFind root var = some n)
    (hnone : n.rangeList = []) (ops : List (SetOp Range)) (hops : ∀ op ∈ ops, Upright op) :
    RangesAreSet var root ops ↔ ∀ before op, before ++ [op] <+: ops → KnownOrApart before op := by
  have hlist : ∀ before, before <+: ops → rangesAfter var root before = before.foldl rangeListCall [] := by
    intro before hpre
    rw [rangesAfter, stateGetrangelist, find_rangeCalls hn fun op hop => hops op (hpre.subset hop), hnone]
  have hthroughout := throughout_iff
    (fun before => (before.foldl rangeListCall []).Nodup ∧
      ∀ r, r ∈ before.foldl rangeListCall [] ↔ LastInserts before r) AllApart KnownOrApart ops
    ⟨List.nodup_nil, fun r => iff_of_false (by simp) (lastInserts_nil r)⟩
    (fun r hr => absurd hr (lastInserts_nil r))
    (fun before op _ hapart hset => by
      rw [List.foldl_append]
      exact rangeListCall_iff hapart hset op)
    (fun before op _ hapart hop => hapart.concat hop)
  rw [← hthroughout]
  constructor
  · intro h before hpre
    rw [← hlist before hpre]
    exact h.pairs before hpre
  · intro h
    have pairs : ∀ before, before <+: ops → (rangesAfter var root before).Nodup ∧
        ∀ r, r ∈ rangesAfter var root before ↔ LastInserts before r := by
      intro before hpre
      rw [hlist before hpre]
      exact h before hpre
    refine ⟨pairs, fun before r hpre s hs => ?_, fun before r hpre hr => ?_⟩
    · rw [(pairs _ hpre).2, lastInserts_insert]
      rw [(pairs before ((List.prefix_append _ _).trans hpre)).2] at hs
      exact hs.symm.imp_left Eq.symm
    · -- nothing was found, since otherwise something would be missing
      have hshort := (List.prefix_append before [SetOp.delete r]).trans hpre
      obtain ⟨hnodup, hmem⟩ := pairs before hshort
      have hafter := (pairs _ hpre).2
      rw [hlist before hshort] at hnodup hmem hr ⊢
      rw [hlist _ hpre, List.foldl_append] at hafter ⊢
      show (stTreeDelRange (before.foldl rangeListCall []) r.min r.max).1 = _
      simp only [List.foldl_cons, List.foldl_nil, rangeListCall, stTreeDelRange_fst, lastInserts_delete, ← hmem] at hafter ⊢
      simp only [ne_comm (a := r), erases_iff hnodup, if_neg hr] at hafter
      exact eraseP_of_find_none hafter

/-- A tree with one variable, which has neither ranges nor an enumeration. -/
def transferHigh : StTree := (stateSetinfo .nil "input.transfer.high".toList "253".toList).1

theorem ranges_are_set_one :
    RangesAreSet "input.transfer.high".toList transferHigh [.insert ⟨240, 260⟩, .delete ⟨240, 260⟩] ↔
      ∀ before op, before ++ [op] <+: [.insert ⟨240, 260⟩, .delete ⟨240, 260⟩] → KnownOrApart before op :=
  ranges_are_set_iff (n := newNode "input.transfer.high".toList "253".toList) (by decide +kernel) (by decide +kernel) _
    (by
      intro op hop r hr
      subst hr
      simp only [List.mem_cons, SetOp.insert.injEq, reduceCtorEq, List.not_mem_nil, or_false] at hop
      subst hop
      decide)

/-- Of two ranges with the same minimum only the first is taken. -/
theorem ranges_one_lost :
    ¬RangesAreSet "input.transfer.high".toList transferHigh [.insert ⟨240, 260⟩, .insert ⟨240, 270⟩] := by
  intro h
  have hmem := ((h.pairs _ List.prefix_rfl).2 ⟨240, 270⟩).2
    ⟨[.insert ⟨240, 260⟩], [], rfl, by simp⟩
  have hlist : rangesAfter "input.transfer.high".toList transferHigh [.insert ⟨240, 260⟩, .insert ⟨240, 270⟩] =
      [⟨240, 260⟩] := by decide +kernel
  rw [hlist] at hmem
  exact absurd hmem (by decide)

end Ranges

/-! ### The enumeration of a variable -/

section Enums

/-- A call of `state_addenum` or `state_delenum` for the variable. -/
def enumCall (var : CStr) (root : StTree) : SetOp CStr → StTree
  | .insert val => (stateAddenum root var val).1
  | .delete val => (stateDelenum root var val).1

/-- The enumeration of the variable after several calls. -/
def enumsAfter (var : CStr) (root : StTree) (ops : List (SetOp CStr)) : List CStr :=
  stateGetenumlist (ops.foldl (enumCall var) root) var

/-- The item that `state_addenum` makes of a value. -/
def enumItem (val : CStr) : CStr := pconfEncode val stMaxValueLen

/-- Throughout the calls the values offered are those whose last call added them, each once; a value that is added and then
deleted is gone, and nothing else is. -/
structure EnumsAreSet (var : CStr) (root : StTree) (ops : List (SetOp CStr)) : Prop where
  offered : ∀ before, before <+: ops → (enumsAfter var root before).Nodup ∧
    ∀ val, Printable val → (enumItem val ∈ enumsAfter var root before ↔ LastInserts before val)
  removed : ∀ before val, before ++ [.insert val, .delete val] <+: ops → ∀ other, Printable other →
    (enumItem other ∈ enumsAfter var root (before ++ [.insert val, .delete val]) ↔
      other ≠ val ∧ enumItem other ∈ enumsAfter var root (before ++ [.insert val]))

/-- What a call makes of the list of items. -/
def enumListCall (list : List CStr) : SetOp CStr → List CStr
  | .insert val => (stTreeEnumAdd list (enumItem val)).1
  | .delete val => (stTreeDelEnum list val).1

/-- A value is added with room to spare; the item that is found for a value to be deleted is the item of that value. -/
def FindsOwnItem (list : List CStr) : SetOp CStr → Prop
  | .insert val => (escape val).length + 2 < stMaxValueLen
  | .delete val => list.find? (isEnum val) = if enumItem val ∈ list then some (enumItem val) else none

theorem find_enumCall {var : CStr} {root : StTree} {n : StNode} (hn : stateTreeFind root var = some n) (op : SetOp CStr) :
    stateTreeFind (enumCall var root op) var = some { n with enumList := enumListCall n.enumList op } := by
  rw [stateTreeFind_eq] at hn
  cases op with
  | insert val =>
    rw [enumCall, stateAddenum_fst, stateTreeFind_eq, find_modify_self (nodeKey_addEnumTo _), hn]
    rfl
  | delete val =>
    rw [enumCall, stateDelenum_fst, stateTreeFind_eq, find_modify_self (nodeKey_delEnumFrom _), hn]
    rfl

theorem find_enumCalls {var : CStr} {root : StTree} {n : StNode} (hn : stateTreeFind root var = some n)
    (ops : List (SetOp CStr)) :
    stateTreeFind (ops.foldl (enumCall var) root) var =
      some { n with enumList := ops.foldl enumListCall n.enumList } := by
  induction ops generalizing root n with
  | nil => exact hn
  | cons op ops ih => exact ih (find_enumCall hn op)

theorem mem_enumListCall_insert (list : List CStr) (val item : CStr) :
    item ∈ enumListCall list (.insert val) ↔ item = enumItem val ∨ item ∈ list := by
  rw [enumListCall, stTreeEnumAdd_eq]
  by_cases h : enumItem val ∈ list
  · rw [if_pos h]
    exact ⟨.inr, fun hi => hi.elim (fun he => he ▸ h) id⟩
  · rw [if_neg h]
    simp [or_comm]

theorem nodup_enumListCall {list : List CStr} (hl : list.Nodup) (op : SetOp CStr) : (enumListCall list op).Nodup := by
  cases op with
  | insert val =>
    rw [enumListCall, stTreeEnumAdd_eq]
    by_cases h : enumItem val ∈ list
    · rwa [if_pos h]
    · rw [if_neg h]
      exact nodup_concat_iff.2 ⟨h, hl⟩
  | delete val =>
    rw [enumListCall, stTreeDelEnum_fst]
    exact hl.sublist List.eraseP_sublist

theorem nodup_enumListCalls (ops : List (SetOp CStr)) : (ops.foldl enumListCall []).Nodup := by
  induction ops using List.reverseRecOn with
  | nil => exact List.nodup_nil
  | append_singleton ops op ih =>
    rw [List.foldl_append]
    exact nodup_enumListCall ih op

/-- Only what was added is offered. -/
theorem enumItem_of_mem {ops : List (SetOp CStr)} {item : CStr} (h : item ∈ ops.foldl enumListCall []) :
    ∃ val, .insert val ∈ ops ∧ item = enumItem val := by
  induction ops using List.reverseRecOn with
  | nil => simp at h
  | append_singleton ops op ih =>
    rw [List.foldl_append] at h
    have earlier : item ∈ ops.foldl enumListCall [] → ∃ val, .insert val ∈ ops ++ [op] ∧ item = enumItem val := by
      intro hi
      obtain ⟨val, hval, he⟩ := ih hi
      exact ⟨val, List.mem_append_left _ hval, he⟩
    cases op with
    | insert val =>
      rcases (mem_enumListCall_insert _ val item).1 h with he | hi
      · exact ⟨val, by simp, he⟩
      · exact earlier hi
    | delete val =>
      have hi : item ∈ (ops.foldl enumListCall []).eraseP (isEnum val) := by
        rwa [← stTreeDelEnum_fst]
      exact earlier (List.mem_of_mem_eraseP hi)

/-- A value that does not leave room shares its item with values longer than any that was added. -/
theorem exists_other_value {val : CStr} (hval : Printable val) (hlong : stMaxValueLen ≤ (escape val).length + 2)
    (ops : List (SetOp CStr)) : ∃ other, Printable other ∧ enumItem other = enumItem val ∧ .insert other ∉ ops := by
  have hfinite : ∃ bound, ∀ other, .insert other ∈ ops → other.length < bound := by
    induction ops with
    | nil => exact ⟨0, by simp⟩
    | cons op ops ih =>
      obtain ⟨bound, hbound⟩ := ih
      refine ⟨max bound (op.key.length + 1), fun other hother => ?_⟩
      rcases List.mem_cons.1 hother with rfl | hother
      · exact lt_max_of_lt_right (Nat.lt_succ_self _)
      · exact lt_max_of_lt_left (hbound other hother)
  obtain ⟨bound, hbound⟩ := hfinite
  refine ⟨val ++ '"' :: List.replicate bound ' ', ?_, ?_, fun hmem => ?_⟩
  · intro c hc
    rcases List.mem_append.1 hc with hc | hc
    · exact hval c hc
    · rcases List.mem_cons.1 hc with rfl | hc
      · decide
      · obtain rfl := List.eq_of_mem_replicate hc
        decide
  · exact pconfEncode_full (by decide) hlong rfl _
  · have hlen := hbound _ hmem
    simp only [List.length_append, List.length_cons, List.length_replicate] at hlen
    omega

/-- One more call keeps the set exactly if it finds its own item. -/
theorem enumListCall_iff {before : List (SetOp CStr)} {op : SetOp CStr} (hprint : ∀ o ∈ before ++ [op], Printable o.key)
    (hshort : ∀ val, .insert val ∈ before → (escape val).length + 2 < stMaxValueLen)
    (hset : ∀ val, Printable val → (enumItem val ∈ before.foldl enumListCall [] ↔ LastInserts before val)) :
    (∀ val, Printable val → (enumItem val ∈ enumListCall (before.foldl enumListCall []) op ↔ LastInserts (before ++ [op]) val)) ↔
      FindsOwnItem (before.foldl enumListCall []) op := by
  have hkey : Printable op.key := hprint op (by simp)
  cases op with
  | insert val =>
    simp only [lastInserts_insert, mem_enumListCall_insert]
    constructor
    · intro h
      show (escape val).length + 2 < stMaxValueLen
      by_contra hlong
      obtain ⟨other, hother, he, hnot⟩ := exists_other_value hkey (not_lt.1 hlong) (.insert val :: before)
      simp only [List.mem_cons, SetOp.insert.injEq, not_or] at hnot
      rcases (h other hother).1 (.inl he) with hv | hlast
      · exact hnot.1 hv.symm
      · exact hnot.2 hlast.mem
    · intro h other hother
      rw [enumItem, enumItem, pconfEncode_eq_iff h, ← enumItem, hset other hother]
      exact or_congr_left eq_comm
  | delete val =>
    simp only [lastInserts_delete, enumListCall, stTreeDelEnum_fst]
    show _ ↔ (before.foldl enumListCall []).find? (isEnum val) = _
    rw [← erases_iff (nodup_enumListCalls before)]
    constructor
    · intro h item
      by_cases hi : item ∈ before.foldl enumListCall []
      · obtain ⟨other, hother, rfl⟩ := enumItem_of_mem hi
        have hother' : Printable other := hprint _ (List.mem_append_left _ hother)
        rw [h other hother', ← hset other hother']
        have heq : enumItem val = enumItem other ↔ val = other := pconfEncode_eq_iff (hshort other hother) val
        rw [ne_eq, ne_eq, ← heq, eq_comm]
      · exact iff_of_false (fun hmem => hi (List.mem_of_mem_eraseP hmem)) fun hmem => hi hmem.2
    · intro h other hother
      rw [h, ← hset other hother]
      refine and_congr_left fun hi => ?_
      have hmem := ((hset other hother).1 hi).mem
      have heq : enumItem val = enumItem other ↔ val = other := pconfEncode_eq_iff (hshort other hmem) val
      rw [ne_eq, ne_eq, ← heq, eq_comm]

/-- The enumeration of a variable behaves as a set of values exactly if every value added leaves room and every value
deleted finds its own item. -/
theorem enums_are_set_iff {var : CStr} {root : StTree} {n : StNode} (hn : stateTreeFind root var = some n)
    (hnone : n.enumList = []) (ops : List (SetOp CStr)) (hprint : ∀ op ∈ ops, Printable op.key) :
    EnumsAreSet var root ops ↔
      ∀ before op, before ++ [op] <+: ops → FindsOwnItem (enumsAfter var root before) op := by
  have hlist : ∀ before, enumsAfter var root before = before.foldl enumListCall [] := by
    intro before
    rw [enumsAfter, stateGetenumlist, find_enumCalls hn, hnone]
  simp only [hlist]
  have hthroughout := throughout_iff
    (fun before => ∀ val, Printable val → (enumItem val ∈ before.foldl enumListCall [] ↔ LastInserts before val))
    (fun before => ∀ val, .insert val ∈ before → (escape val).length + 2 < stMaxValueLen)
    (fun before => FindsOwnItem (before.foldl enumListCall [])) ops
    (fun val _ => iff_of_false (by simp) (lastInserts_nil val))
    (by simp)
    (fun before op hpre hshort hset => by
      rw [List.foldl_append]
      exact enumListCall_iff (fun o ho => hprint o (hpre.subset ho)) hshort hset)
    (fun before op _ hshort hop val hval => by
      rcases List.mem_append.1 hval with hval | hval
      · exact hshort val hval
      · obtain rfl := List.mem_singleton.1 hval
        exact hop)
  rw [← hthroughout]
  constructor
  · intro h before hpre
    rw [← hlist before]
    exact (h.offered before hpre).2
  · intro h
    refine ⟨fun before hpre => ?_, fun before val hpre other hother => ?_⟩
    · rw [hlist before]
      exact ⟨nodup_enumListCalls before, h before hpre⟩
    · have hsplit : before ++ [SetOp.insert val, .delete val] = before ++ [.insert val] ++ [.delete val] := by simp
      rw [hsplit] at hpre ⊢
      rw [hlist, hlist, h _ hpre other hother, h _ ((List.prefix_append _ _).trans hpre) other hother, lastInserts_delete,
        ne_comm]

theorem enums_are_set_one :
    EnumsAreSet "input.transfer.high".toList transferHigh [.insert "253".toList, .delete "253".toList] ↔
      ∀ before op, before ++ [op] <+: [.insert "253".toList, .delete "253".toList] →
        FindsOwnItem (enumsAfter "input.transfer.high".toList transferHigh before) op :=
  enums_are_set_iff (n := newNode "input.transfer.high".toList "253".toList) (by decide +kernel) (by decide +kernel) _
    (by decide +kernel)

/-- A value with a quote is not found under its own name. -/
theorem enum_quote_stays :
    ¬EnumsAreSet "input.transfer.high".toList transferHigh [.insert "2\"".toList, .delete "2\"".toList] := by
  intro h
  have hgone := (h.removed [] "2\"".toList List.prefix_rfl "2\"".toList (by decide +kernel)).1 (by decide +kernel)
  exact hgone.1 rfl

end Enums

end Nut
