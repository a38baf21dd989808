import Nut.Sync.Frame
import Nut.Sync.Unescaped

/-!
# Structural updates

The calls that change flags, `aux`, ranges, commands or the presence of a variable broadcast one line each.  Two of
the lines are not the ones that the server expects: `SETFLAGS` without a flag has too few arguments, and `DELRANGE`
puts both numbers in one word, so that the server takes the second from whatever an earlier line left in the fourth
slot.  `structural_iff` says exactly when the mirror follows.
-/

namespace Nut

open ChunkReader Lexer SearchTree

/-- What the driver publishes of a variable. -/
def sentView (n : StNode) : CStr × CStr × BitVec 32 × Int32 × List CStr × List Range :=
  (n.var, n.val, n.flags &&& stFlagSent, n.aux, n.enumList, n.rangeList)

/-- The same variables, the same commands and the same word on the data. -/
structure Mirror.Same (m m' : Mirror) : Prop where
  vars : Agree nodeKey sentView m.inforoot m'.inforoot
  cmds : m.cmdlist = m'.cmdlist
  dataOk : m.dataOk = m'.dataOk

/-- The state of a driver, as a mirror should show it. -/
def Dstate.published (d : Dstate) : Mirror where
  inforoot := d.dtreeRoot
  cmdlist := d.cmdhead
  dataOk := !d.stale
  dumpdone := true

/-- A driver and a server between two lines, whose mirror shows the state of the driver. -/
structure Synced (d : Dstate) (ups : Upstype) : Prop where
  same : d.published.Same ups.mirror
  driver : d.published.Sorted
  server : ups.mirror.Sorted
  ranges : Holds (fun n => n.rangeList.Nodup) d.dtreeRoot
  flags : Holds (fun n => n.flags &&& (stFlagSent ||| stFlagImmutable) = n.flags) d.dtreeRoot
  connected : ups.sockFd ≠ none
  idle : AtLineStart ups.sockCtx

/-- However the server reads what the driver wrote between `d` and `d'`, it accepts it and then shows `d'`. -/
def Understood (fd : Nat) (d d' : Dstate) (ups : Upstype) : Prop :=
  ∀ reads : List (Int × CStr), (∀ r ∈ reads, r.2.length ≤ smallbuf) →
    connOut d' fd = (connOut d fd).map (· ++ (reads.map Prod.snd).flatten) →
    ∃ ups', sstateReads ups reads = some ups' ∧ d'.published.Same ups'.mirror ∧ ∃ r ∈ reads, ups'.lastHeard = r.1

/-- The calls without a value. -/
inductive StructOp where
  | setflags (var : CStr) (flags : BitVec 32)
  | setaux (var : CStr) (aux : Int32)
  | addrange (var : CStr) (min max : Int32)
  | delrange (var : CStr) (min max : Int32)
  | addcmd (cmd : CStr)
  | delcmd (cmd : CStr)
  | delinfo (var : CStr)
  deriving DecidableEq

namespace StructOp

def name : StructOp → CStr
  | setflags var _ | setaux var _ | addrange var _ _ | delrange var _ _ | delinfo var => var
  | addcmd cmd | delcmd cmd => cmd

def run (w : Nat → Bool) (d : Dstate) : StructOp → Dstate
  | setflags var flags => dstateSetflags w d var flags
  | setaux var aux => dstateSetaux w d var aux
  | addrange var min max => (dstateAddrange w d var min max).1
  | delrange var min max => (dstateDelrange w d var min max).1
  | addcmd cmd => dstateAddcmd w d cmd
  | delcmd cmd => (dstateDelcmd w d cmd).1
  | delinfo var => (dstateDelinfo w d var).1

/-- The call finds something to change. -/
def changes (d : Dstate) : StructOp → Bool
  | setflags var flags =>
    (stateTreeFind d.dtreeRoot var).elim false fun n => n.flags &&& stFlagImmutable = 0 && n.flags ≠ flags
  | setaux var aux => (stateTreeFind d.dtreeRoot var).elim false fun n => n.aux ≠ aux
  | addrange var min max => (stateAddrange d.dtreeRoot var min max).2
  | delrange var min max => (stateDelrange d.dtreeRoot var min max).2
  | addcmd cmd => (stateAddcmd d.cmdhead cmd).2
  | delcmd cmd => (stateDelcmd d.cmdhead cmd).2
  | delinfo var => (stateDelinfo d.dtreeRoot var).2

/-- The change itself. -/
def apply (m : Mirror) : StructOp → Mirror
  | setflags var flags => { m with inforoot := SearchTree.modify nodeKey (tolower var) (setFlagsOf flags) m.inforoot }
  | setaux var aux => { m with inforoot := SearchTree.modify nodeKey (tolower var) (setAuxOf aux) m.inforoot }
  | addrange var min max => { m with inforoot := (stateAddrange m.inforoot var min max).1 }
  | delrange var min max => { m with inforoot := (stateDelrange m.inforoot var min max).1 }
  | addcmd cmd => { m with cmdlist := (stateAddcmd m.cmdlist cmd).1 }
  | delcmd cmd => { m with cmdlist := (stateDelcmd m.cmdlist cmd).1 }
  | delinfo var => { m with inforoot := (stateDelinfo m.inforoot var).1 }

/-- The line of a call. -/
def line : StructOp → CStr
  | setflags var flags => "SETFLAGS ".toList ++ flist var flags ++ "\n".toList
  | setaux var aux => "SETAUX ".toList ++ var ++ " ".toList ++ formatInt aux ++ "\n".toList
  | addrange var min max =>
    "ADDRANGE ".toList ++ var ++ "  ".toList ++ formatInt min ++ " ".toList ++ formatInt max ++ "\n".toList
  | delrange var min max =>
    "DELRANGE ".toList ++ var ++ " \"".toList ++ formatInt min ++ " ".toList ++ formatInt max ++ "\"\n".toList
  | addcmd cmd => "ADDCMD ".toList ++ cmd ++ "\n".toList
  | delcmd cmd => "DELCMD ".toList ++ cmd ++ "\n".toList
  | delinfo var => "DELINFO ".toList ++ var ++ "\n".toList

/-- The flags of a call are among those that a driver may give to a variable. -/
def KnownFlags : StructOp → Prop
  | setflags _ flags => flags &&& stFlagSent = flags
  | _ => True

instance (op : StructOp) : Decidable op.KnownFlags := by
  cases op <;> unfold KnownFlags <;> infer_instance

/-- There is a flag to set, and the range that the server looks for, whose end it takes from the fourth of `slots`, is
the one to delete. -/
def Fine (d : Dstate) (slots : List CStr) : StructOp → Prop
  | setflags _ flags => flags &&& stFlagSent ≠ 0
  | delrange var min max =>
    ∃ slot ∈ slots[3]?, (stateGetrangelist d.dtreeRoot var).find? (meets min (atoi slot)) =
      (stateGetrangelist d.dtreeRoot var).find? (meets min max)
  | _ => True

/-! ### The driver -/

theorem run_of_changes (w : Nat → Bool) {d : Dstate} {op : StructOp} (h : op.changes d = true) :
    op.run w d = sendToAll w { d with
      dtreeRoot := (op.apply d.published).inforoot
      cmdhead := (op.apply d.published).cmdlist } op.line := by
  cases op with
  | setflags var flags =>
    rcases hf : stateTreeFind d.dtreeRoot var with _ | n
    · simp [changes, hf] at h
    · simp only [changes, hf, Option.elim_some, Bool.and_eq_true, decide_eq_true_eq] at h
      have hstore := @stateTreeStore_of_find _ _ _ (setFlagsOf flags) hf
      simp only [run, dstateSetflags, hf, h.1, h.2, ne_eq, not_true_eq_false, if_false, apply, Dstate.published]
      rw [← hstore]
      rfl
  | setaux var aux =>
    rcases hf : stateTreeFind d.dtreeRoot var with _ | n
    · simp [changes, hf] at h
    · simp only [changes, hf, Option.elim_some, decide_eq_true_eq] at h
      have hstore := @stateTreeStore_of_find _ _ _ (setAuxOf aux) hf
      simp only [run, dstateSetaux, hf, h, if_false, apply, Dstate.published]
      rw [← hstore]
      rfl
  | addrange var min max =>
    have h' : (stateAddrange d.dtreeRoot var min max).2 = true := h
    simp only [run, dstateAddrange, h', if_true]; rfl
  | delrange var min max =>
    have h' : (stateDelrange d.dtreeRoot var min max).2 = true := h
    simp only [run, dstateDelrange, h', if_true]; rfl
  | addcmd cmd =>
    have h' : (stateAddcmd d.cmdhead cmd).2 = true := h
    simp only [run, dstateAddcmd, h', if_true]; rfl
  | delcmd cmd =>
    have h' : (stateDelcmd d.cmdhead cmd).2 = true := h
    simp only [run, dstateDelcmd, h', if_true]; rfl
  | delinfo var =>
    have h' : (stateDelinfo d.dtreeRoot var).2 = true := h
    simp only [run, dstateDelinfo, h', if_true]; rfl

/-- Nothing is sent when nothing changes. -/
theorem run_of_not_changes (w : Nat → Bool) {d : Dstate} {op : StructOp} (h : op.changes d = false) :
    op.run w d = d := by
  cases op with
  | setflags var flags =>
    rcases hf : stateTreeFind d.dtreeRoot var with _ | n
    · simp [run, dstateSetflags, hf]
    · simp only [run, dstateSetflags, hf]
      by_cases himm : n.flags &&& stFlagImmutable = 0
      · have hsame : n.flags = flags := by simpa [changes, hf, himm] using h
        rw [if_neg (by simpa using himm), if_pos hsame]
      · rw [if_pos himm]
  | setaux var aux =>
    rcases hf : stateTreeFind d.dtreeRoot var with _ | n
    · simp [run, dstateSetaux, hf]
    · have hsame : n.aux = aux := by simpa [changes, hf] using h
      simp [run, dstateSetaux, hf, hsame]
  | addrange var min max =>
    have h' : (stateAddrange d.dtreeRoot var min max).2 = false := h
    have htree : (stateAddrange d.dtreeRoot var min max).1 = d.dtreeRoot := by
      rw [stateAddrange_snd] at h'
      rw [stateAddrange_fst]
      split
      · rfl
      · rename_i hlt
        refine modify_eq_self fun n hn => ?_
        rw [← stateTreeFind_eq] at hn
        have hmeets : n.rangeList.any (meets min max) = true := by simpa [hlt, hn] using h'
        simp [addRangeTo, stTreeRangeAdd_eq, hmeets]
    simp [run, dstateAddrange, h', htree]
  | delrange var min max =>
    have h' : (stateDelrange d.dtreeRoot var min max).2 = false := h
    have htree : (stateDelrange d.dtreeRoot var min max).1 = d.dtreeRoot := by
      rw [stateDelrange_snd] at h'
      rw [stateDelrange_fst]
      refine modify_eq_self fun n hn => ?_
      rw [← stateTreeFind_eq] at hn
      have hnone : n.rangeList.eraseP (meets min max) = n.rangeList := by
        rw [List.eraseP_eq_self_iff]
        simpa [hn] using h'
      simp [delRangeFrom, stTreeDelRange_fst, hnone]
    simp [run, dstateDelrange, h', htree]
  | addcmd cmd =>
    have h' : (stateAddcmd d.cmdhead cmd).2 = false := h
    simp [run, dstateAddcmd, h', stateAddcmd_same h']
  | delcmd cmd =>
    have h' : (stateDelcmd d.cmdhead cmd).2 = false := h
    simp [run, dstateDelcmd, h', stateDelcmd_same h']
  | delinfo var =>
    have h' : (stateDelinfo d.dtreeRoot var).2 = false := h
    have htree : (stateDelinfo d.dtreeRoot var).1 = d.dtreeRoot := by
      rw [stateDelinfo_snd, Option.isSome_eq_false_iff, Option.isNone_iff_eq_none, stateTreeFind_eq] at h'
      rw [stateDelinfo_fst, erase_of_find_none h']
    simp [run, dstateDelinfo, h', htree]

theorem published_run (w : Nat → Bool) {d : Dstate} {op : StructOp} (h : op.changes d = true) :
    (op.run w d).published = op.apply d.published := by
  rw [run_of_changes w h]
  simp only [Dstate.published, sendToAll_dtreeRoot, sendToAll_cmdhead, sendToAll_stale]
  cases op <;> rfl

/-! ### The effect on the mirror -/

/-- Mirrors that show the same still do after the same change. -/
theorem same_apply {m m' : Mirror} (h : m.Same m') (hm : m.Sorted) (hm' : m'.Sorted) (op : StructOp) :
    (op.apply m).Same (op.apply m') := by
  have hvars := h.vars
  cases op with
  | setflags var flags =>
    refine ⟨Agree.modify hvars (nodeKey_setFlagsOf _) (nodeKey_setFlagsOf _) fun a b _ _ hview => ?_, h.cmds, h.dataOk⟩
    simp only [sentView, Prod.mk.injEq] at hview
    simp [sentView, setFlagsOf, hview]
  | setaux var aux =>
    refine ⟨Agree.modify hvars (nodeKey_setAuxOf _) (nodeKey_setAuxOf _) fun a b _ _ hview => ?_, h.cmds, h.dataOk⟩
    simp only [sentView, Prod.mk.injEq] at hview
    simp [sentView, setAuxOf, hview]
  | addrange var min max =>
    refine ⟨?_, h.cmds, h.dataOk⟩
    simp only [apply, stateAddrange_fst]
    split
    · exact hvars
    · refine Agree.modify hvars (nodeKey_addRangeTo _ _) (nodeKey_addRangeTo _ _) fun a b _ _ hview => ?_
      simp only [sentView, Prod.mk.injEq] at hview
      simp [sentView, addRangeTo, hview]
  | delrange var min max =>
    refine ⟨?_, h.cmds, h.dataOk⟩
    simp only [apply, stateDelrange_fst]
    refine Agree.modify hvars (nodeKey_delRangeFrom _ _) (nodeKey_delRangeFrom _ _) fun a b _ _ hview => ?_
    simp only [sentView, Prod.mk.injEq] at hview
    simp [sentView, delRangeFrom, hview]
  | addcmd cmd => exact ⟨hvars, by simp only [apply, h.cmds], h.dataOk⟩
  | delcmd cmd => exact ⟨hvars, by simp only [apply, h.cmds], h.dataOk⟩
  | delinfo var =>
    refine ⟨?_, h.cmds, h.dataOk⟩
    simp only [apply, stateDelinfo_fst]
    exact Agree.erase hvars hm.tree hm'.tree

/-- A mirror that is the same at the name of the call does not show the change. -/
theorem not_same_of_changes {d : Dstate} {ups : Upstype} (h : Synced d ups) {op : StructOp} (hflags : op.KnownFlags)
    (hop : op.changes d = true) {m : Mirror} (hat : ups.mirror.SameAt (tolower op.name) m) :
    ¬(op.apply d.published).Same m := by
  intro hsame
  -- what the driver has of the variable before and after is the same
  have hview : (find nodeKey (tolower op.name) d.dtreeRoot).map sentView =
      (find nodeKey (tolower op.name) (op.apply d.published).inforoot).map sentView := by
    have hbefore : (find nodeKey (tolower op.name) d.dtreeRoot).map sentView =
        (find nodeKey (tolower op.name) ups.mirror.inforoot).map sentView := h.same.vars _
    rw [hbefore, hat.1, hsame.vars]
  have hcmds : ∀ c, tolower c = tolower op.name → (c ∈ d.cmdhead ↔ c ∈ (op.apply d.published).cmdlist) := by
    intro c hc
    have hbefore : d.cmdhead = ups.mirror.cmdlist := h.same.cmds
    rw [hbefore, hat.2 c hc, hsame.cmds]
  cases op with
  | setflags var flags =>
    simp only [name, apply, Dstate.published] at hview
    rw [find_modify_self (nodeKey_setFlagsOf _), ← stateTreeFind_eq] at hview
    rcases hf : stateTreeFind d.dtreeRoot var with _ | n
    · simp [changes, hf] at hop
    · simp only [hf, Option.map_some, Option.some.injEq, sentView, setFlagsOf, Prod.mk.injEq] at hview
      simp only [changes, hf, Option.elim_some, Bool.and_eq_true, decide_eq_true_eq] at hop
      have hknown : n.flags &&& (stFlagSent ||| stFlagImmutable) = n.flags := h.flags.find (stateTreeFind_eq _ _ ▸ hf)
      rw [BitVec.and_or_distrib_left, hop.1] at hknown
      have hsent : n.flags &&& stFlagSent = n.flags := by simpa using hknown
      exact hop.2 (hsent.symm.trans (hview.2.2.1.trans hflags))
  | setaux var aux =>
    simp only [name, apply, Dstate.published] at hview
    rw [find_modify_self (nodeKey_setAuxOf _), ← stateTreeFind_eq] at hview
    rcases hf : stateTreeFind d.dtreeRoot var with _ | n
    · simp [changes, hf] at hop
    · simp only [hf, Option.map_some, Option.some.injEq, sentView, setAuxOf, Prod.mk.injEq] at hview
      simp only [changes, hf, Option.elim_some, decide_eq_true_eq] at hop
      exact hop hview.2.2.2.1
  | addrange var min max =>
    simp only [name, apply, Dstate.published, stateAddrange_fst] at hview
    simp only [changes, stateAddrange_snd, Bool.and_eq_true, Bool.not_eq_true', decide_eq_false_iff_not] at hop
    rw [if_neg hop.1, find_modify_self (nodeKey_addRangeTo _ _), ← stateTreeFind_eq] at hview
    rcases hf : stateTreeFind d.dtreeRoot var with _ | n
    · simp [hf] at hop
    · have hmeets : n.rangeList.any (meets min max) = false := by simpa [hf] using hop.2
      simp only [hf, Option.map_some, Option.some.injEq, sentView, addRangeTo, Prod.mk.injEq, stTreeRangeAdd_eq,
        hmeets] at hview
      simpa using hview.2.2.2.2.2
  | delrange var min max =>
    simp only [name, apply, Dstate.published, stateDelrange_fst] at hview
    simp only [changes, stateDelrange_snd] at hop
    rw [find_modify_self (nodeKey_delRangeFrom _ _), ← stateTreeFind_eq] at hview
    rcases hf : stateTreeFind d.dtreeRoot var with _ | n
    · simp [hf] at hop
    · simp only [hf, Option.map_some, Option.some.injEq, sentView, delRangeFrom, Prod.mk.injEq,
        stTreeDelRange_fst] at hview
      rw [hf, Option.elim_some] at hop
      obtain ⟨r, hr, hmeets⟩ := List.any_eq_true.1 hop
      exact List.eraseP_eq_self_iff.1 hview.2.2.2.2.2.symm r hr hmeets
  | addcmd cmd =>
    have hnew := (stateAddcmd_snd h.driver.cmds cmd).1 hop
    have hmem : cmd ∈ (stateAddcmd d.cmdhead cmd).1 := (mem_stateAddcmd h.driver.cmds cmd cmd).2 (.inr ⟨rfl, hnew⟩)
    exact hnew cmd ((hcmds cmd rfl).2 hmem) rfl
  | delcmd cmd =>
    obtain ⟨c, hc, hkey⟩ := (stateDelcmd_snd h.driver.cmds cmd).1 hop
    exact ((mem_stateDelcmd h.driver.cmds cmd c).1 ((hcmds c hkey).1 hc)).2 hkey
  | delinfo var =>
    simp only [name, apply, Dstate.published, stateDelinfo_fst] at hview
    simp only [changes, stateDelinfo_snd] at hop
    have hordered : Ordered nodeKey d.dtreeRoot := h.driver.tree
    rw [find_erase hordered, if_pos rfl, ← stateTreeFind_eq] at hview
    rcases hf : stateTreeFind d.dtreeRoot var with _ | n
    · simp [hf] at hop
    · simp [hf] at hview

/-! ### The words of the line -/

/-- The words that the server reads when the name is a plain word. -/
def words : StructOp → List CStr
  | setflags var flags => "SETFLAGS".toList :: var :: flagWords flags
  | setaux var aux => ["SETAUX".toList, var, formatInt aux]
  | addrange var min max => ["ADDRANGE".toList, var, formatInt min, formatInt max]
  | delrange var min max => ["DELRANGE".toList, var, formatInt min ++ ' ' :: formatInt max]
  | addcmd cmd => ["ADDCMD".toList, cmd]
  | delcmd cmd => ["DELCMD".toList, cmd]
  | delinfo var => ["DELINFO".toList, var]

/-- What the server does with these words. -/
def effect (slots : List CStr) (m : Mirror) : StructOp → Option (Mirror × Bool)
  | setflags var flags =>
    some (if flags &&& stFlagSent = 0 then (m, false) else (apply m (setflags var (flags &&& stFlagSent)), true))
  | delrange var min _ => slots[3]?.map fun slot => (apply m (delrange var min (atoi slot)), true)
  | op => some (op.apply m, true)

/-- The text after the name. -/
def rest : StructOp → CStr
  | setflags _ flags => ((flagWords flags).flatMap fun w => ' ' :: w) ++ ['\n']
  | setaux _ aux => ' ' :: formatInt aux ++ ['\n']
  | addrange _ min max => ' ' :: ' ' :: formatInt min ++ ' ' :: formatInt max ++ ['\n']
  | delrange _ min max => ' ' :: '"' :: (formatInt min ++ ' ' :: formatInt max ++ ['"', '\n'])
  | addcmd _ | delcmd _ | delinfo _ => ['\n']

def keyword : StructOp → CStr
  | setflags _ _ => "SETFLAGS".toList
  | setaux _ _ => "SETAUX".toList
  | addrange _ _ _ => "ADDRANGE".toList
  | delrange _ _ _ => "DELRANGE".toList
  | addcmd _ => "ADDCMD".toList
  | delcmd _ => "DELCMD".toList
  | delinfo _ => "DELINFO".toList

private theorem flist_fits {var : CStr} {flags : BitVec 32} (hfit : (setflags var flags).line.length < stSockBufLen) :
    (flist var flags).length < smallbuf - 2 := by
  have hline : (setflags var flags).line = "SETFLAGS ".toList ++ flist var flags ++ ['\n'] := rfl
  have hkeyword : "SETFLAGS ".toList.length = 9 := by decide
  rw [hline, List.length_append, List.length_append, List.length_singleton, hkeyword] at hfit
  unfold stSockBufLen at hfit
  unfold smallbuf
  omega

theorem line_eq {op : StructOp} (hfit : op.line.length < stSockBufLen) :
    op.line = op.keyword ++ ' ' :: (op.name ++ op.rest) := by
  cases op with
  | setflags var flags =>
    show "SETFLAGS ".toList ++ flist var flags ++ "\n".toList = "SETFLAGS".toList ++ ' ' :: (var ++ (_ ++ ['\n']))
    rw [flist_eq (flist_fits hfit)]
    simp
  | setaux var aux =>
    show "SETAUX ".toList ++ var ++ " ".toList ++ formatInt aux ++ "\n".toList =
      "SETAUX".toList ++ ' ' :: (var ++ (' ' :: formatInt aux ++ ['\n']))
    simp
  | addrange var min max =>
    show "ADDRANGE ".toList ++ var ++ "  ".toList ++ formatInt min ++ " ".toList ++ formatInt max ++ "\n".toList =
      "ADDRANGE".toList ++ ' ' :: (var ++ (' ' :: ' ' :: formatInt min ++ ' ' :: formatInt max ++ ['\n']))
    simp
  | delrange var min max =>
    show "DELRANGE ".toList ++ var ++ " \"".toList ++ formatInt min ++ " ".toList ++ formatInt max ++ "\"\n".toList =
      "DELRANGE".toList ++ ' ' :: (var ++ (' ' :: '"' :: (formatInt min ++ ' ' :: formatInt max ++ ['"', '\n'])))
    simp
  | addcmd cmd =>
    show "ADDCMD ".toList ++ cmd ++ "\n".toList = "ADDCMD".toList ++ ' ' :: (cmd ++ ['\n'])
    simp
  | delcmd cmd =>
    show "DELCMD ".toList ++ cmd ++ "\n".toList = "DELCMD".toList ++ ' ' :: (cmd ++ ['\n'])
    simp
  | delinfo var =>
    show "DELINFO ".toList ++ var ++ "\n".toList = "DELINFO".toList ++ ' ' :: (var ++ ['\n'])
    simp

private theorem name_fits {op : StructOp} (hfit : op.line.length < stSockBufLen) :
    op.name.length + op.rest.length < pconfDefaultWordlenLimit := by
  rw [line_eq hfit, List.length_append, List.length_cons, List.length_append] at hfit
  unfold stSockBufLen at hfit
  unfold pconfDefaultWordlenLimit
  omega

private theorem numbers_kept {min max : Int32} {c : Char} (h : c ∈ formatInt min ++ ' ' :: formatInt max) :
    isKept c = true ∧ pconfEscape c = false := by
  have digits : c = '-' ∨ c.isDigit = true → isKept c = true ∧ pconfEscape c = false := by
    rintro (rfl | hd)
    · decide
    · obtain ⟨h1, h2⟩ := isDigit_bounds hd
      have h3 : c ≠ '#' := by rintro rfl; simp at h1
      have h4 : c ≠ '\\' := by rintro rfl; simp at h2
      have h5 : c ≠ '"' := by rintro rfl; simp at h1
      simp only [isKept, pconfEscape, h3, h4, h5, decide_false, Bool.or_false, and_true, Bool.and_eq_true,
        decide_eq_true_eq]
      omega
  rw [List.mem_append, List.mem_cons] at h
  rcases h with h | rfl | h
  · exact digits (mem_formatInt h)
  · decide
  · exact digits (mem_formatInt h)

theorem reads_line_words {op : StructOp} (hname : PlainWord op.name) (hfit : op.line.length < stSockBufLen) :
    ReadsAs step start op.line start op.words := by
  have hvar : IsWord op.name := ⟨hname, by have := name_fits hfit; omega⟩
  cases op with
  | setflags var flags =>
    have hlist := flist_fits hfit
    show ReadsAs step start ("SETFLAGS ".toList ++ flist var flags ++ "\n".toList) start
      ("SETFLAGS".toList :: var :: flagWords flags)
    rcases hflags : flagWords flags with _ | ⟨flag, rest⟩
    · have hbare : flist var flags = var := by rw [flist_eq hlist, hflags]; simp
      rw [hbare]
      exact reads_line_word (by decide : IsWord "SETFLAGS".toList) hvar
    · exact reads_setflags hvar hflags hlist
  | setaux var aux => exact reads_setaux hvar aux
  | addrange var min max => exact reads_addrange_broadcast hvar min max
  | delrange var min max =>
    have hval : Kept (formatInt min ++ ' ' :: formatInt max) := fun c hc => (numbers_kept hc).1
    have hlen : (formatInt min ++ ' ' :: formatInt max).length ≤ pconfDefaultWordlenLimit := by
      have hrest := name_fits hfit
      simp only [rest, List.length_cons, List.length_append] at hrest
      rw [List.length_append, List.length_cons]
      omega
    have h := @reads_line_quoted var _ "DELRANGE".toList (by decide) hvar hval hlen
    rw [escape_of_forall fun c hc => (numbers_kept hc).2] at h
    have hline : (delrange var min max).line =
        "DELRANGE".toList ++ " ".toList ++ var ++ " \"".toList ++ (formatInt min ++ ' ' :: formatInt max) ++
          "\"\n".toList := by
      rw [line_eq hfit]
      show "DELRANGE".toList ++ ' ' :: (var ++ (' ' :: '"' :: (formatInt min ++ ' ' :: formatInt max ++ ['"', '\n']))) = _
      simp
    rw [hline]
    exact h
  | addcmd cmd => exact reads_addcmd hvar
  | delcmd cmd => exact reads_delcmd hvar
  | delinfo var => exact reads_delinfo hvar

theorem parseArgs_opWords (ups : Upstype) (op : StructOp) (slots : List CStr) :
    parseArgs ups op.words.length (op.words ++ slots.drop op.words.length) =
      (op.effect slots ups.mirror).map fun r => (ups.setMirror r.1, r.2) := by
  cases op with
  | setflags var flags =>
    rcases hflags : flagWords flags with _ | ⟨flag, rest⟩
    · simp only [words, hflags, effect, if_pos (flagWords_eq_nil.1 hflags)]
      rfl
    · have hne : ¬flags &&& stFlagSent = 0 := by
        rw [← flagWords_eq_nil, hflags]; simp
      have h := parseArgs_words ups (.setflags var flag rest) (slots.drop (Message.setflags var flag rest).words.length)
      simp only [words, hflags, effect, if_neg hne]
      rw [← foldl_setflag_flagWords, hflags]
      simp only [Message.words, Message.exec, stateSetflags_eq] at h
      exact h
  | setaux var aux =>
    have h := parseArgs_words ups (.setaux var (formatInt aux)) (slots.drop 3)
    simp only [Message.exec, stateSetaux_fst, atoi_formatInt] at h
    exact h
  | addrange var min max =>
    have h := parseArgs_words ups (.addrange var (formatInt min) (formatInt max)) (slots.drop 4)
    simp only [Message.exec, atoi_formatInt] at h
    exact h
  | delrange var min max =>
    have hmin : atoi (formatInt min ++ ' ' :: formatInt max) = min :=
      atoi_formatInt_append min (by simp)
    have hslot : (slots.drop 3)[0]? = slots[3]? := by simp
    show (slots.drop 3)[0]?.map (fun slot => ({ ups with inforoot := (stateDelrange ups.inforoot var
      (atoi (formatInt min ++ ' ' :: formatInt max)) (atoi slot)).1 }, true)) = _
    rw [hslot, hmin, effect, Option.map_map]
    rfl
  | addcmd cmd => exact parseArgs_words ups (.addcmd cmd) _
  | delcmd cmd => exact parseArgs_words ups (.delcmd cmd) _
  | delinfo var => exact parseArgs_words ups (.delinfo var) _

/-- Deleting the first item that satisfies a condition, from a list without repetitions. -/
private theorem eraseP_eq_iff {α : Type*} {p q : α → Bool} {l : List α} (hl : l.Nodup) :
    l.eraseP p = l.eraseP q ↔ l.find? p = l.find? q := by
  induction l with
  | nil => simp
  | cons x l ih =>
    obtain ⟨hx, hl⟩ := List.nodup_cons.1 hl
    rcases hp : p x with _ | _ <;> rcases hq : q x with _ | _
    · simp [hp, hq, ih hl]
    · simp only [List.eraseP_cons, hp, hq, List.find?_cons, cond_true, cond_false]
      constructor
      · intro h
        exact absurd (h ▸ List.mem_cons_self : x ∈ l) hx
      · intro h
        exact absurd (List.mem_of_find?_eq_some h) hx
    · simp only [List.eraseP_cons, hp, hq, List.find?_cons, cond_true, cond_false]
      constructor
      · intro h
        exact absurd (h ▸ List.mem_cons_self : x ∈ l) hx
      · intro h
        exact absurd (List.mem_of_find?_eq_some h.symm) hx
    · simp [hp, hq]

/-- The server accepts the words and follows exactly when they are fine. -/
theorem effect_iff {d : Dstate} {ups : Upstype} (h : Synced d ups) {op : StructOp} (hflags : op.KnownFlags)
    (hop : op.changes d = true) (slots : List CStr) :
    (∃ m, op.effect slots ups.mirror = some (m, true) ∧ (op.apply d.published).Same m) ↔ op.Fine d slots := by
  have hsame := same_apply h.same h.driver h.server op
  cases op with
  | setflags var flags =>
    have hsent : flags &&& stFlagSent = flags := hflags
    simp only [effect, Fine, hsent]
    split
    · rename_i hzero
      simp [hzero]
    · rename_i hne
      exact ⟨fun _ => hne, fun _ => ⟨_, rfl, hsame⟩⟩
  | delrange var min max =>
    simp only [changes, stateDelrange_snd] at hop
    rcases hf : stateTreeFind d.dtreeRoot var with _ | n
    · simp [hf] at hop
    · have hranges : stateGetrangelist d.dtreeRoot var = n.rangeList := by rw [stateGetrangelist, hf]
      have hnodup : n.rangeList.Nodup := h.ranges.find (stateTreeFind_eq _ _ ▸ hf)
      have hview := h.same.vars (tolower var)
      simp only [Dstate.published] at hview
      rw [← stateTreeFind_eq, hf] at hview
      simp only [effect, Fine, hranges]
      rcases slots[3]? with _ | slot
      · simp
      · simp only [Option.map_some, Option.some.injEq, Prod.mk.injEq, and_true, Option.mem_def, exists_eq_left',
          ← eraseP_eq_iff hnodup]
        constructor
        · intro hm
          have hk := hm.vars (tolower var)
          simp only [apply, Dstate.published, stateDelrange_fst] at hk
          rw [find_modify_self (nodeKey_delRangeFrom _ _), find_modify_self (nodeKey_delRangeFrom _ _),
            ← stateTreeFind_eq, hf] at hk
          rcases hb : find nodeKey (tolower var) ups.mirror.inforoot with _ | b
          · rw [hb] at hk
            simp at hk
          · rw [hb] at hk hview
            simp only [Option.map_some, Option.some.injEq, sentView, delRangeFrom, Prod.mk.injEq,
              stTreeDelRange_fst] at hk hview
            rw [hk.2.2.2.2.2, hview.2.2.2.2.2]
        · intro heq
          refine ⟨?_, h.same.cmds, h.same.dataOk⟩
          simp only [apply, stateDelrange_fst]
          refine Agree.modify h.same.vars (nodeKey_delRangeFrom _ _) (nodeKey_delRangeFrom _ _)
            fun a b ha _ hab => ?_
          have han : a = n := by
            have ha' : find nodeKey (tolower var) d.dtreeRoot = some a := ha
            rw [← stateTreeFind_eq, hf] at ha'
            exact (Option.some.inj ha').symm
          simp only [sentView, Prod.mk.injEq] at hab
          simp only [sentView, delRangeFrom, stTreeDelRange_fst, Prod.mk.injEq]
          refine ⟨hab.1, hab.2.1, hab.2.2.1, hab.2.2.2.1, hab.2.2.2.2.1, ?_⟩
          rw [← hab.2.2.2.2.2, han, heq]
  | setaux | addrange | addcmd | delcmd | delinfo => exact ⟨fun _ => trivial, fun _ => ⟨_, rfl, hsame⟩⟩

/-! ### A line that is not read back -/

private theorem kept_flist {var : CStr} (hvar : Kept var) (flags : BitVec 32) : Kept (flist var flags) := by
  have hcat {dst text : CStr} (hdst : Kept dst) (htext : Kept text) : Kept (snprintfcat dst smallbuf text) :=
    kept_append hdst (kept_snprintf htext)
  have hrw : Kept (if flags &&& stFlagRw ≠ 0 then snprintfcat (snprintf smallbuf var) smallbuf " RW".toList
      else snprintf smallbuf var) := by
    split
    · exact hcat (kept_snprintf hvar) (by decide)
    · exact kept_snprintf hvar
  unfold flist
  simp only
  split
  · exact hcat hrw (by decide)
  · exact hrw

private theorem kept_formatInt (i : Int32) : Kept (formatInt i) :=
  fun _ hc => (@numbers_kept i i _ (List.mem_append_left _ hc)).1

/-- The only newline is at the end of the line. -/
private theorem line_body {op : StructOp} (hname : Kept op.name) : ∃ body, op.line = body ++ ['\n'] ∧ '\n' ∉ body := by
  suffices hkept : ∃ body, op.line = body ++ ['\n'] ∧ Kept body by
    obtain ⟨body, hline, hbody⟩ := hkept
    exact ⟨body, hline, fun hmem => absurd (hbody _ hmem) (by decide)⟩
  cases op with
  | setflags var flags => exact ⟨_, rfl, kept_append (by decide) (kept_flist hname flags)⟩
  | setaux var aux =>
    exact ⟨_, rfl, kept_append (kept_append (kept_append (by decide) hname) (by decide)) (kept_formatInt aux)⟩
  | addrange var min max =>
    exact ⟨_, rfl, kept_append (kept_append (kept_append (kept_append (kept_append (by decide) hname) (by decide))
      (kept_formatInt min)) (by decide)) (kept_formatInt max)⟩
  | delrange var min max =>
    refine ⟨"DELRANGE ".toList ++ var ++ " \"".toList ++ formatInt min ++ " ".toList ++ formatInt max ++ ['"'], ?_, ?_⟩
    · show "DELRANGE ".toList ++ var ++ " \"".toList ++ formatInt min ++ " ".toList ++ formatInt max ++ ['"', '\n'] = _
      simp
    · exact kept_append (kept_append (kept_append (kept_append (kept_append (kept_append (by decide) hname) (by decide))
        (kept_formatInt min)) (by decide)) (kept_formatInt max)) (by decide)
  | addcmd cmd | delcmd cmd | delinfo var => exact ⟨_, rfl, kept_append (by decide) hname⟩

private theorem keyword_isWord (op : StructOp) : IsWord op.keyword := by
  cases op with
  | setflags => exact (by decide : IsWord "SETFLAGS".toList)
  | setaux => exact (by decide : IsWord "SETAUX".toList)
  | addrange => exact (by decide : IsWord "ADDRANGE".toList)
  | delrange => exact (by decide : IsWord "DELRANGE".toList)
  | addcmd => exact (by decide : IsWord "ADDCMD".toList)
  | delcmd => exact (by decide : IsWord "DELCMD".toList)
  | delinfo => exact (by decide : IsWord "DELINFO".toList)

/-- Text without quotes and escapes that starts with a blank, or a newline. -/
private def Unquoted (s : CStr) : Prop :=
  (∀ c ∈ s, isKept c ∨ c = '\n') ∧ (s.head? = some ' ' ∨ s = ['\n']) ∧ '"' ∉ s ∧ '\\' ∉ s

private theorem unquoted_cons {s : CStr} (h : ∀ c ∈ s, isKept c = true ∧ pconfEscape c = false) :
    Unquoted (' ' :: s ++ ['\n']) := by
  have hesc : ∀ c, pconfEscape c = true → c ∉ ' ' :: s ++ ['\n'] := by
    intro c hc hmem
    simp only [List.cons_append, List.mem_cons, List.mem_append, List.not_mem_nil, or_false] at hmem
    rcases hmem with rfl | hmem | rfl
    · exact absurd hc (by decide)
    · rw [(h c hmem).2] at hc
      exact absurd hc (by decide)
    · exact absurd hc (by decide)
  refine ⟨fun c hc => ?_, .inl rfl, hesc _ rfl, hesc _ rfl⟩
  simp only [List.cons_append, List.mem_cons, List.mem_append, List.not_mem_nil, or_false] at hc
  rcases hc with rfl | hc | rfl
  · exact .inl rfl
  · exact .inl (h c hc).1
  · exact .inr rfl

theorem number_chars {i : Int32} {c : Char} (h : c ∈ formatInt i) : isKept c = true ∧ pconfEscape c = false :=
  @numbers_kept i i c (List.mem_append_left _ h)

private theorem rest_unquoted {op : StructOp} (h : ∀ var min max, op ≠ delrange var min max) : Unquoted op.rest := by
  have hnl : Unquoted ['\n'] := ⟨by simp, .inr rfl, by decide, by decide⟩
  cases op with
  | setflags var flags =>
    have hwords : ∀ c ∈ "RW STRING".toList, isKept c = true ∧ pconfEscape c = false := by decide
    show Unquoted (((flagWords flags).flatMap fun w => ' ' :: w) ++ ['\n'])
    unfold flagWords
    split <;> split
    · exact unquoted_cons hwords
    · exact unquoted_cons (by decide : ∀ c ∈ "RW".toList, isKept c = true ∧ pconfEscape c = false)
    · exact unquoted_cons (by decide : ∀ c ∈ "STRING".toList, isKept c = true ∧ pconfEscape c = false)
    · exact hnl
  | setaux var aux => exact unquoted_cons fun c hc => number_chars hc
  | addrange var min max =>
    show Unquoted (' ' :: (' ' :: formatInt min ++ ' ' :: formatInt max) ++ ['\n'])
    refine unquoted_cons fun c hc => ?_
    rcases List.mem_cons.1 hc with rfl | hc
    · decide
    · exact numbers_kept hc
  | delrange var min max => exact absurd rfl (h var min max)
  | addcmd | delcmd | delinfo => exact hnl

/-- When the server reads the name of the call, up to case, in its line, the name is a plain word. -/
private theorem plain_of_line {op : StructOp} (hname : Kept op.name) (hfit : op.line.length < stSockBufLen) {ws : List CStr}
    {a : CStr} (h : ReadsAs step start op.line start ws) (ha : [op.keyword] ++ [a] <+: ws)
    (heq : tolower a = tolower op.name) : PlainWord op.name := by
  have hsize := name_fits hfit
  have hlen : op.name.length < pconfDefaultWordlenLimit := by omega
  have hkw := keyword_isWord op
  have hstart : silent step start (op.keyword ++ [' ']) = some ⟨[op.keyword], [], .between⟩ :=
    silent_word [] hkw.1 hkw.2 (by decide)
  have hline : op.line = op.keyword ++ [' '] ++ (op.name ++ op.rest) := by
    rw [line_eq hfit]; simp
  have hne : op.name ++ op.rest ≠ [] := by
    cases op <;> simp [rest]
  rw [hline] at h
  obtain ⟨l, hl, hs⟩ := h.split hne
  rw [hstart, Option.some.injEq] at hl
  subst hl
  by_cases hdel : ∃ var min max, op = delrange var min max
  · obtain ⟨var, min, max, rfl⟩ := hdel
    obtain ⟨c, s, hcs⟩ := List.exists_cons_of_ne_nil (formatInt_ne_nil min)
    have hchars : ∀ x ∈ formatInt min ++ ' ' :: formatInt max, isKept x = true ∧ pconfEscape x = false :=
      fun x hx => numbers_kept hx
    have hc : c = '-' ∨ c.isDigit = true := mem_formatInt (by rw [hcs]; simp)
    have hc' := hchars c (by rw [hcs]; simp)
    have hblank : c ≠ ' ' := by
      rintro rfl
      exact absurd hc (by decide)
    have hsplit : (delrange var min max).rest =
        ' ' :: '"' :: c :: (s ++ ' ' :: formatInt max ++ ['"', '\n']) := by
      simp [rest, hcs]
    rw [hsplit] at hs
    refine plain_of_quoted hname hlen hs ⟨hc'.1, hblank, ?_, ?_⟩ ?_ ha heq
    · rintro rfl; exact absurd hc'.2 (by decide)
    · rintro rfl; exact absurd hc'.2 (by decide)
    · intro hmem
      have hmem' : '\\' ∈ (formatInt min ++ ' ' :: formatInt max) ++ ['"', '\n'] := by
        rw [hcs]; simpa using hmem
      rcases List.mem_append.1 hmem' with hm | hm
      · exact absurd (hchars _ hm).2 (by decide)
      · exact absurd hm (by decide)
  · obtain ⟨h1, h2, h3, h4⟩ := rest_unquoted fun var min max he => hdel ⟨var, min, max, he⟩
    exact plain_of_first hname hlen hs h1 h2 h3 h4 ha heq

end StructOp

section Structural

variable {w : Nat → Bool} {d : Dstate} {ups : Upstype} {fd : Nat} {op : StructOp}

private theorem connOut_run (hw : ∀ n, w n = true) (hop : op.changes d = true) :
    connOut (op.run w d) fd = (connOut d fd).map (· ++ snprintf stSockBufLen op.line) := by
  rw [StructOp.run_of_changes w hop, connOut_sendToAll hw]
  rfl

/-- The server that understands a call has read a whole line with a plain name. -/
private theorem plain_of_understood (hw : ∀ n, w n = true) (h : Synced d ups) (hflags : op.KnownFlags)
    (hop : op.changes d = true) (hund : Understood fd d (op.run w d) ups) :
    op.line.length < stSockBufLen ∧ PlainWord op.name := by
  obtain ⟨ups', hreads, hsame, -⟩ := hund [(0, snprintf stSockBufLen op.line)]
    (by simpa using Nat.le_of_lt (Nat.lt_of_lt_of_le (length_snprintf_lt (by decide) op.line) (by decide)))
    (by simpa using connOut_run hw hop)
  have hread := hreads
  rw [sstateReads_one] at hread
  rw [StructOp.published_run w hop] at hsame
  have lost : ups.mirror.SameAt (tolower op.name) ups'.mirror → False :=
    fun hat => StructOp.not_same_of_changes h hflags hop hat hsame
  have hname : Kept op.name := by
    by_contra hk
    exact lost (sstateReadline_outside h.connected h.idle h.server hread hk)
  obtain ⟨body, hbody, hnl⟩ := StructOp.line_body hname
  have hfit : op.line.length < stSockBufLen := by
    by_contra hlong
    -- the newline is cut off
    have hcut : snprintf stSockBufLen op.line = body.take (stSockBufLen - 1) := by
      rw [hbody, List.length_append, List.length_singleton] at hlong
      rw [hbody, snprintf, List.take_append_of_le_length (by omega)]
    have hitems := (readChunk_overlays h.idle (body.take (stSockBufLen - 1))).1
    rw [Lexer.delimited.readChunk_items fun hmem => hnl (List.mem_of_mem_take hmem)] at hitems
    rw [hcut, sstateReadline_data h.connected, hitems] at hread
    have hups : { ups with sockCtx := (readChunk pconfStep ups.sockCtx (body.take (stSockBufLen - 1))).1 } = ups' :=
      Option.some.inj hread
    exact lost (hups ▸ .refl _ _)
  refine ⟨hfit, ?_⟩
  rw [snprintf_of_lt hfit, hbody] at hread
  rcases sstateReadline_line h.connected h.idle 0 hnl with ⟨ctx, hctx⟩ | ⟨ws, A, ctx, hws, hctx⟩
  · rw [hread, Option.some.injEq] at hctx
    exact (lost (hctx ▸ .refl _ _)).elim
  · rw [hread] at hctx
    rcases hp : parseArgs ups ws.length (ws ++ A) with _ | ⟨u, known⟩
    · simp [sstateLine, hp] at hctx
    · have hmir : ups'.mirror = u.mirror := by
        cases known
        · simp only [sstateLine, Option.bind_some, hp, Option.map_some, Option.some.injEq] at hctx
          rw [hctx]; rfl
        · simp only [sstateLine, Option.bind_some, hp, Option.map_some, Option.some.injEq, if_true] at hctx
          rw [hctx]; rfl
      by_cases h2 : 2 ≤ ws.length
      · obtain ⟨k, a, t, rfl⟩ : ∃ k a t, ws = k :: a :: t := by
          rcases ws with _ | ⟨k, _ | ⟨a, t⟩⟩
          · simp at h2
          · simp at h2
          · exact ⟨k, a, t, rfl⟩
        have htouch : Touches a ups.mirror u.mirror := parseArgs_touches hp fun _ => rfl
        have heq : tolower a = tolower op.name := by
          by_contra hne
          exact lost (hmir ▸ htouch.sameAt h.server (Ne.symm hne))
        have hpre : [op.keyword] ++ [a] <+: k :: a :: t := by
          have hkw := StructOp.keyword_isWord op
          have hstart : silent step start (op.keyword ++ [' ']) = some ⟨[op.keyword], [], .between⟩ :=
            silent_word [] hkw.1 hkw.2 (by decide)
          have hline : body ++ ['\n'] = op.keyword ++ [' '] ++ (op.name ++ op.rest) := by
            rw [← hbody, StructOp.line_eq hfit]; simp
          rw [hline] at hws
          obtain ⟨l, hl, hs⟩ := hws.split (by cases op <;> simp [StructOp.rest])
          rw [hstart, Option.some.injEq] at hl
          subst hl
          obtain ⟨t', ht'⟩ := words_kept hs
          obtain ⟨rfl, -⟩ := List.cons.inj ht'
          exact List.prefix_append [op.keyword, a] t
        exact StructOp.plain_of_line hname hfit (hbody ▸ hws) hpre heq
      · -- without a first argument the line changes nothing that has a name
        have htouch : Touches (op.name ++ ['x']) ups.mirror u.mirror := parseArgs_touches hp fun h => absurd h h2
        have hne : tolower op.name ≠ tolower (op.name ++ ['x']) := by
          intro heq
          simpa using congrArg List.length heq
        exact (lost (hmir ▸ htouch.sameAt h.server hne)).elim

/-- The broadcast of a change that is understood says what it should. -/
private theorem fine_of_understood (hw : ∀ n, w n = true) (h : Synced d ups) (hflags : op.KnownFlags)
    (hop : op.changes d = true) (hund : Understood fd d (op.run w d) ups) :
    op.line.length < stSockBufLen ∧ PlainWord op.name ∧ op.Fine d ups.sockCtx.arglist := by
  obtain ⟨hfit, hname⟩ := plain_of_understood hw h hflags hop hund
  refine ⟨hfit, hname, (StructOp.effect_iff h hflags hop _).1 ?_⟩
  -- the line is read at a time that tells whether it was accepted
  have hcut := snprintf_of_lt hfit
  obtain ⟨ups', hreads, hsame, r, hr, hheard⟩ := hund [(ups.lastHeard + 1, op.line)]
    (by simpa using Nat.le_of_lt (Nat.lt_of_lt_of_le hfit (by decide)))
    (by simpa [hcut] using connOut_run hw hop)
  have hline : ReadsAs step start ([(ups.lastHeard + 1, op.line)].map Prod.snd).flatten start op.words := by
    simpa using StructOp.reads_line_words hname hfit
  obtain ⟨r', hr', ctx, ctx', -, hexec⟩ := sstateReads_line h.connected h.idle hline
  rw [List.mem_singleton] at hr hr'
  rw [hreads, hr', sstateLine, Option.bind_some, StructOp.parseArgs_opWords] at hexec
  rcases heff : op.effect ups.sockCtx.arglist ups.mirror with _ | ⟨m, known⟩
  · have heff' : op.effect ups.sockCtx.arglist { ups with sockCtx := ctx }.mirror = none := heff
    rw [heff'] at hexec
    simp at hexec
  · have heff' : op.effect ups.sockCtx.arglist { ups with sockCtx := ctx }.mirror = some (m, known) := heff
    rw [heff'] at hexec
    have hu := Option.some.inj hexec
    cases known
    · have hups : ups'.lastHeard = ups.lastHeard := by rw [hu]; rfl
      rw [hr] at hheard
      simp only at hheard
      omega
    · have hm : ups'.mirror = m := by rw [hu]; rfl
      exact ⟨m, rfl, by rw [← StructOp.published_run w hop, ← hm]; exact hsame⟩

/-- The broadcast of a change is understood exactly when its line fits the buffer, its name is a plain word, and the
line says what it should: it has a flag to set, or the range to delete is the one that the server looks for. -/
theorem structural_iff (hw : ∀ n, w n = true) (h : Synced d ups) (hfd : (connOut d fd).isSome) (op : StructOp)
    (hflags : op.KnownFlags) (hop : op.changes d = true) :
    Understood fd d (op.run w d) ups ↔
      op.line.length < stSockBufLen ∧ PlainWord op.name ∧ op.Fine d ups.sockCtx.arglist := by
  constructor
  · exact fine_of_understood hw h hflags hop
  · rintro ⟨hfit, hname, hfine⟩ reads - hreads
    obtain ⟨m, heff, hsame⟩ := (StructOp.effect_iff h hflags hop _).2 hfine
    obtain ⟨out, hout⟩ := Option.isSome_iff_exists.1 hfd
    have hstream : (reads.map Prod.snd).flatten = op.line := by
      rw [connOut_run hw hop, snprintf_of_lt hfit, hout, Option.map_some, Option.map_some, Option.some.injEq,
        List.append_cancel_left_eq] at hreads
      exact hreads.symm
    have hline : ReadsAs step start (reads.map Prod.snd).flatten start op.words := by
      rw [hstream]
      exact StructOp.reads_line_words hname hfit
    obtain ⟨r, hr, ctx, ctx', -, hexec⟩ := sstateReads_line h.connected h.idle hline
    have heff' : op.effect ups.sockCtx.arglist { ups with sockCtx := ctx }.mirror = some (m, true) := heff
    rw [sstateLine, Option.bind_some, StructOp.parseArgs_opWords, heff'] at hexec
    refine ⟨_, hexec, ?_, r, hr, rfl⟩
    rw [StructOp.published_run w hop]
    exact hsame

end Structural

/-! ### A writable variable with a range -/

private def chargeNode : StNode :=
  { newNode "battery.charge.low".toList "20".toList with flags := stFlagRw, rangeList := [⟨10, 50⟩] }

/-- A driver with one variable and a connection. -/
def chargeDriver : Dstate := { sockConnect Dstate.init 4 with dtreeRoot := .node .nil chargeNode .nil }

/-- The server at the other end, before it has read anything with four words. -/
def chargeServer : Upstype :=
  { newUps "usbhid-ups".toList "ups".toList none with sockFd := some 4, inforoot := .node .nil chargeNode .nil }

private theorem synced_charge : Synced chargeDriver chargeServer := by
  have hsingle : ∀ {P : StNode → Prop}, P chargeNode → Holds P (.node .nil chargeNode .nil) := by
    intro P h a ha
    obtain rfl : a = chargeNode := by simpa using ha
    exact h
  exact {
    same := ⟨fun _ => rfl, rfl, rfl⟩
    driver := ⟨List.pairwise_singleton _ _, List.Pairwise.nil⟩
    server := ⟨List.pairwise_singleton _ _, List.Pairwise.nil⟩
    ranges := hsingle (by decide)
    flags := hsingle (by decide)
    connected := by simp [chargeServer]
    idle := atLineStart_pconfInit }

/-- Taking a variable's last flag away does not reach the server. -/
theorem structural_ignored :
    ¬∀ (d : Dstate) (ups : Upstype) (fd : Nat) (op : StructOp), Synced d ups → (connOut d fd).isSome → op.KnownFlags →
      op.changes d = true → Understood fd d (op.run (fun _ => true) d) ups := by
  intro h
  have hund := h chargeDriver chargeServer 4 (.setflags "battery.charge.low".toList 0) synced_charge (by decide)
    (by decide) (by decide)
  have hfine := fine_of_understood (fun _ => rfl) synced_charge (by decide) (by decide) hund
  exact absurd hfine.2.2 (by simp [StructOp.Fine])

theorem structural_iff_addcmd :
    Understood 4 chargeDriver ((StructOp.addcmd "test.battery.start".toList).run (fun _ => true) chargeDriver)
      chargeServer :=
  (structural_iff (fun _ => rfl) synced_charge (by decide) (.addcmd "test.battery.start".toList) trivial
    (by decide)).2 ⟨by show _ < _; decide, by decide, trivial⟩

end Nut
