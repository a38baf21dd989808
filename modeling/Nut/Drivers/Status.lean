import Mathlib.Data.List.Induction
import Nut.Common.Buffers
import Nut.Drivers.Dstate

/-!
# `dstate.c`: the status of the UPS

The buffers in which a driver collects `ups.status` and `ups.alarm` before they are published.  Both are filled by
`snprintfcat`, which does not use the last byte of a buffer, so a status of 255 characters loses the last one
(`snprintfcat_appends`).
-/

namespace Nut

structure StatusState where
  dstate : Dstate
  ignorelb : Bool
  statusBuf : CStr
  alarmBuf : CStr
  alarmActive : Bool
  deriving DecidableEq

def statusInit (s : StatusState) : StatusState :=
  { s with
    ignorelb := if (dstateGetinfo s.dstate "driver.flag.ignorelb".toList).isSome then true else s.ignorelb
    statusBuf := [] }

/-- An element is added to a buffer, behind a space if there are others. -/
def addElement (buf element : CStr) : CStr :=
  snprintfcat buf stMaxValueLen (if 0 < buf.length then ' ' :: element else element)

def statusSet (s : StatusState) (buf : CStr) : StatusState :=
  if s.ignorelb ∧ strcasecmp buf "LB".toList = .eq then s else { s with statusBuf := addElement s.statusBuf buf }

/-- The variable `var` is below its limit `low`. -/
def below (d : Dstate) (var low : CStr) : Bool :=
  match dstateGetinfo d var, dstateGetinfo d low with
  | some val, some low => strtol val < strtol low
  | _, _ => false

def statusCommit (w : Nat → Bool) (s : StatusState) : StatusState :=
  let s :=
    if s.ignorelb ∧ (below s.dstate "battery.charge".toList "battery.charge.low".toList ∨
        below s.dstate "battery.runtime".toList "battery.runtime.low".toList) then
      { s with statusBuf := snprintfcat s.statusBuf stMaxValueLen " LB".toList }
    else s
  { s with
    dstate := (dstateSetinfo w s.dstate "ups.status".toList
      (if s.alarmActive then "ALARM ".toList ++ s.statusBuf else s.statusBuf)).1 }

def alarmInit (s : StatusState) : StatusState := { s with alarmBuf := [] }

def alarmSet (s : StatusState) (buf : CStr) : StatusState := { s with alarmBuf := addElement s.alarmBuf buf }

def alarmCommit (w : Nat → Bool) (s : StatusState) : StatusState :=
  if 0 < s.alarmBuf.length then
    { s with dstate := (dstateSetinfo w s.dstate "ups.alarm".toList s.alarmBuf).1, alarmActive := true }
  else { s with dstate := (dstateDelinfo w s.dstate "ups.alarm".toList).1, alarmActive := false }

/-! ### What a status keeps -/

/-- The elements that are not ignored. -/
def taken (ignorelb : Bool) (words : List CStr) : List CStr :=
  words.filter fun buf => ¬(ignorelb ∧ strcasecmp buf "LB".toList = .eq)

/-- The whole status, without the limit of the buffer. -/
def joinedStatus (words : List CStr) : CStr :=
  words.foldl (fun buf element => buf ++ if 0 < buf.length then ' ' :: element else element) []

theorem statusBuf_foldl_statusSet (s : StatusState) (words : List CStr) :
    (words.foldl statusSet s).statusBuf = (taken s.ignorelb words).foldl addElement s.statusBuf := by
  induction words generalizing s with
  | nil => rfl
  | cons buf words ih =>
    rw [List.foldl_cons, ih]
    by_cases h : s.ignorelb ∧ strcasecmp buf "LB".toList = .eq
    · have hset : statusSet s buf = s := if_pos h
      rw [hset, taken, taken, List.filter_cons, if_neg (by simpa using h)]
    · have hset : statusSet s buf = { s with statusBuf := addElement s.statusBuf buf } := if_neg h
      rw [hset, taken, taken, List.filter_cons, if_pos (decide_eq_true h), List.foldl_cons]

/-- The buffer of a status keeps 254 characters. -/
theorem foldl_addElement (words : List CStr) :
    words.foldl addElement [] = (joinedStatus words).take (stMaxValueLen - 2) := by
  induction words using List.reverseRecOn with
  | nil => rfl
  | append_singleton words element ih =>
    have hjoined : joinedStatus (words ++ [element]) = joinedStatus words ++
        if 0 < (joinedStatus words).length then ' ' :: element else element := by
      rw [joinedStatus, List.foldl_concat]
      rfl
    have hempty : 0 < ((joinedStatus words).take (stMaxValueLen - 2)).length ↔ 0 < (joinedStatus words).length := by
      rw [List.length_take, stMaxValueLen]
      omega
    rw [List.foldl_concat, ih, hjoined, addElement, snprintfcat_eq_take (List.length_take_le _ _), take_take_append]
    simp only [hempty]

theorem foldl_addElement_eq_iff (words : List CStr) :
    words.foldl addElement [] = (joinedStatus words).take (stMaxValueLen - 1) ↔
      (joinedStatus words).length + 1 < stMaxValueLen := by
  rw [foldl_addElement]
  constructor
  · intro heq
    have hlen := congrArg List.length heq
    rw [List.length_take, List.length_take, stMaxValueLen] at hlen
    rw [stMaxValueLen]
    omega
  · intro h
    rw [List.take_of_length_le (by omega), List.take_of_length_le (by omega)]

/-- The calls of `snprintfcat` on a buffer, and those of `status_set`, leave as much as fits exactly if the buffer was
full before, or one byte more than the terminator needs stays free. -/
theorem snprintfcat_appends {dst : List Char} {size : UInt64} (h : IsBuffer dst size) (outs : List (List Char))
    {s : StatusState} (hs : s.statusBuf = []) (words : List CStr) :
    (∃ dst', snprintfcatAll dst size outs = some dst' ∧ IsBuffer dst' size ∧
      (Memory.text '\x00' dst' =
          (Memory.text '\x00' dst ++ (outs.map (Memory.text '\x00')).flatten).take (size.toNat - 1) ↔
        (Memory.text '\x00' dst).length + 1 = size.toNat ∨
          (Memory.text '\x00' dst).length + (outs.map (Memory.text '\x00')).flatten.length + 1 < size.toNat)) ∧
    ((words.foldl statusSet s).statusBuf = (joinedStatus (taken s.ignorelb words)).take (stMaxValueLen - 1) ↔
      (joinedStatus (taken s.ignorelb words)).length + 1 < stMaxValueLen) := by
  constructor
  · obtain ⟨dst', hcalls, h', htext, -⟩ := snprintfcatAll_spec h outs
    refine ⟨dst', hcalls, h', ?_⟩
    rw [htext]
    exact foldl_snprintfcat_eq_iff h.pos h.short (outs.map (Memory.text '\x00'))
  · rw [statusBuf_foldl_statusSet, hs]
    exact foldl_addElement_eq_iff (taken s.ignorelb words)

/-- A buffer of eight bytes takes the words " RW" and " ST" as they are. -/
theorem snprintfcat_appends_flags :
    (∃ dst', snprintfcatAll (List.replicate 8 '\x00') 8 [" RW".toList, " ST".toList] = some dst' ∧ IsBuffer dst' 8 ∧
      (Memory.text '\x00' dst' = ([] ++ [" RW".toList, " ST".toList].flatten).take 7 ↔ 0 + 1 = 8 ∨ 0 + 6 + 1 < 8)) ∧
    ((["OL".toList].foldl statusSet ⟨⟨false, .nil, [], [], 0⟩, false, [], [], false⟩).statusBuf =
        (joinedStatus (taken false ["OL".toList])).take (stMaxValueLen - 1) ↔
      (joinedStatus (taken false ["OL".toList])).length + 1 < stMaxValueLen) :=
  snprintfcat_appends ⟨by decide, by decide, by decide⟩ _ rfl _

/-- `snprintfcat(dst, 4, "c")` on "ab" leaves "ab", where "abc" fits. -/
theorem last_byte_unused : IsBuffer ['a', 'b', '\x00', '\x00'] 4 ∧
    ∃ dst', snprintfcatAll ['a', 'b', '\x00', '\x00'] 4 [['c']] = some dst' ∧
      Memory.text '\x00' dst' = ['a', 'b'] ∧ (['a', 'b'] ++ ['c']).take 3 = ['a', 'b', 'c'] :=
  ⟨⟨by decide, by decide, by decide⟩, ['a', 'b', '\x00', '\x00'], by decide, by decide, by decide⟩

end Nut
