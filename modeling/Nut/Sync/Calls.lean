import Nut.Lib.Transition
import Nut.Sync.Incremental
import Nut.Sync.Structural

/-!
# The calls of a driver

All calls of the interface of `dstate.c`, and what holds of the state of a driver in every run of them: the variables
are in order, their names and those of the commands are plain words, values are encoded, and no list has an item
twice (`Reachable.sound`).
-/

namespace Nut

open SearchTree Transition

inductive Call where
  | value (op : ValueOp)
  | struct (op : StructOp)
  | dataok
  | datastale
  deriving DecidableEq

namespace Call

def run (w : Nat → Bool) (d : Dstate) : Call → Dstate
  | value op => op.run w d
  | struct op => op.run w d
  | dataok => dstateDataok w d
  | datastale => dstateDatastale w d

/-- The names are plain words, and the parser drops no character of a value. -/
def Valid : Call → Prop
  | value op => PlainWord op.var ∧ Kept op.value
  | struct op => PlainWord op.name
  | dataok | datastale => True

instance (c : Call) : Decidable c.Valid := by
  cases c <;> unfold Valid <;> infer_instance

end Call

/-- What a driver does: perform one of the calls `P`, accept or lose a connection. -/
inductive DriverStep (P : Call → Prop) (w : Nat → Bool) (d : Dstate) : Dstate → Prop
  | call (c : Call) (hc : P c) : DriverStep P w d (c.run w d)
  | accept (fd : Nat) : DriverStep P w d (sockConnect d fd)
  | disconnect (fd : Nat) : DriverStep P w d (sockDisconnect d fd)

/-- The states of a driver in a run with the calls `P`, some writes of which may fail. -/
def Reachable (P : Call → Prop) (w : Nat → Bool) (d : Dstate) : Prop :=
  Reach (fun d => d = Dstate.init) (DriverStep P w) d

/-- A stored value: a text in which the characters are escaped, within the size of the buffer. -/
def Encoded (e : CStr) : Prop := ∃ v, Kept v ∧ e = escape v ∧ e.length < stMaxValueLen

theorem encoded_pconfEncode {v : CStr} (hv : Kept v) : Encoded (pconfEncode v stMaxValueLen) := by
  obtain ⟨k, hk, hlen, -⟩ := pconfEncode_take v (by decide : 2 ≤ stMaxValueLen)
  exact ⟨v.take k, fun c hc => hv c (List.mem_of_mem_take hc), hk, hk ▸ hlen⟩

namespace Encoded

variable {e : CStr} (h : Encoded e)
include h

theorem kept_unescape : Kept (unescape e) := by
  obtain ⟨v, hv, rfl, -⟩ := h
  rwa [unescape_escape]

theorem escape_unescape : escape (unescape e) = e := by
  obtain ⟨v, -, rfl, -⟩ := h
  rw [unescape_escape]

theorem length_unescape : (unescape e).length < stMaxValueLen := by
  obtain ⟨v, -, rfl, hlen⟩ := h
  rw [unescape_escape]
  exact Nat.lt_of_le_of_lt (length_le_escape v) hlen

/-- Encoding what was read back gives what was stored. -/
theorem pconfEncode_unescape : pconfEncode (unescape e) stMaxValueLen = e := by
  obtain ⟨v, -, rfl, hlen⟩ := h
  rw [unescape_escape, pconfEncode_fits hlen]

end Encoded

/-- What holds of every variable of a driver. -/
structure SoundNode (n : StNode) : Prop where
  var : PlainWord n.var
  val : Encoded n.val
  enums : ∀ e ∈ n.enumList, Encoded e
  nodup : n.enumList.Nodup
  ranges : n.rangeList.Pairwise fun r s => r.min ≠ s.min ∧ r.max ≠ s.max
  bounds : ∀ r ∈ n.rangeList, r.min ≤ r.max

structure SoundDriver (d : Dstate) : Prop where
  sorted : d.published.Sorted
  nodes : Holds SoundNode d.dtreeRoot
  cmds : ∀ c ∈ d.cmdhead, PlainWord c

namespace SoundNode

variable {n : StNode}

private theorem newNode {var val : CStr} (hvar : PlainWord var) (hval : Kept val) : SoundNode (newNode var val) where
  var := by rwa [newNode_var]
  val := by rw [newNode_val]; exact encoded_pconfEncode hval
  enums := by simp
  nodup := by simp
  ranges := by simp
  bounds := by simp

private theorem setRaw (h : SoundNode n) {val : CStr} (hval : Kept val) : SoundNode (setRaw val n) := by
  rcases hk : keepsValue val n with _ | _
  · refine ⟨by simpa using h.var, ?_, by simpa using h.enums, by simpa using h.nodup, by simpa using h.ranges,
      by simpa using h.bounds⟩
    have hval' : (Nut.setRaw val n).val = pconfEncode val stMaxValueLen := by simp [Nut.setRaw, hk]
    rw [hval']
    exact encoded_pconfEncode hval
  · rwa [setRaw_of_keeps hk]

private theorem addEnumTo (h : SoundNode n) {val : CStr} (hval : Kept val) :
    SoundNode (addEnumTo (pconfEncode val stMaxValueLen) n) := by
  by_cases hmem : pconfEncode val stMaxValueLen ∈ n.enumList
  · have hsame : Nut.addEnumTo (pconfEncode val stMaxValueLen) n = n := by simp [Nut.addEnumTo, stTreeEnumAdd_eq, hmem]
    rwa [hsame]
  · have hnew : (Nut.addEnumTo (pconfEncode val stMaxValueLen) n).enumList =
        n.enumList ++ [pconfEncode val stMaxValueLen] := by simp [Nut.addEnumTo, stTreeEnumAdd_eq, hmem]
    refine ⟨h.var, h.val, ?_, ?_, h.ranges, h.bounds⟩
    · rw [hnew]
      intro e he
      rcases List.mem_append.1 he with he | he
      · exact h.enums e he
      · rw [List.mem_singleton.1 he]
        exact encoded_pconfEncode hval
    · rw [hnew]
      exact List.nodup_append.2 ⟨h.nodup, List.nodup_singleton _, by
        intro a ha b hb hab
        rw [hab, List.mem_singleton.1 hb] at ha
        exact hmem ha⟩

private theorem delEnumFrom (h : SoundNode n) (val : CStr) : SoundNode (delEnumFrom val n) := by
  have hsub : (Nut.delEnumFrom val n).enumList.Sublist n.enumList := by
    simp only [Nut.delEnumFrom, stTreeDelEnum_fst]
    exact List.eraseP_sublist
  exact ⟨h.var, h.val, fun e he => h.enums e (hsub.subset he), h.nodup.sublist hsub, h.ranges, h.bounds⟩

private theorem addRangeTo (h : SoundNode n) {min max : Int32} (hle : ¬max < min) : SoundNode (addRangeTo min max n) := by
  by_cases hany : n.rangeList.any (meets min max) = true
  · have hsame : Nut.addRangeTo min max n = n := by simp [Nut.addRangeTo, stTreeRangeAdd_eq, hany]
    rwa [hsame]
  · have hnew : (Nut.addRangeTo min max n).rangeList = n.rangeList ++ [⟨min, max⟩] := by
      simp [Nut.addRangeTo, stTreeRangeAdd_eq, hany]
    refine ⟨h.var, h.val, h.enums, h.nodup, ?_, ?_⟩
    · rw [hnew]
      refine List.pairwise_append.2 ⟨h.ranges, List.pairwise_singleton _ _, fun r hr s hs => ?_⟩
      obtain rfl := List.mem_singleton.1 hs
      have hmeets : meets min max r = false := by
        by_contra hm
        exact hany (List.any_eq_true.2 ⟨r, hr, by simpa using hm⟩)
      simpa [meets] using hmeets
    · rw [hnew]
      intro r hr
      rcases List.mem_append.1 hr with hr | hr
      · exact h.bounds r hr
      · obtain rfl := List.mem_singleton.1 hr
        exact Int32.not_lt.1 hle

private theorem delRangeFrom (h : SoundNode n) (min max : Int32) : SoundNode (delRangeFrom min max n) := by
  have hsub : (Nut.delRangeFrom min max n).rangeList.Sublist n.rangeList := by
    simp only [Nut.delRangeFrom, stTreeDelRange_fst]
    exact List.eraseP_sublist
  exact ⟨h.var, h.val, h.enums, h.nodup, h.ranges.sublist hsub, fun r hr => h.bounds r (hsub.subset hr)⟩

end SoundNode

namespace SoundDriver

variable {w : Nat → Bool} {d : Dstate}

/-- A driver that differs only in its connections. -/
theorem congr {d' : Dstate} (h : SoundDriver d) (htree : d'.dtreeRoot = d.dtreeRoot) (hcmds : d'.cmdhead = d.cmdhead) :
    SoundDriver d' := by
  refine ⟨⟨?_, ?_⟩, by rw [htree]; exact h.nodes, by rw [hcmds]; exact h.cmds⟩
  · show Ordered nodeKey d'.dtreeRoot
    rw [htree]; exact h.sorted.tree
  · show CmdSorted d'.cmdhead
    rw [hcmds]; exact h.sorted.cmds

/-- The tree after a call with a value, which is cut to the size of the buffer first. -/
private theorem valueOp (h : SoundDriver d) {op : ValueOp} (hvar : PlainWord op.var) (hvalue : Kept op.value) :
    SoundDriver (op.run w d) := by
  have hcmds : (op.run w d).cmdhead = d.cmdhead := by
    cases op <;> simp only [ValueOp.run, dstateSetinfo, dstateAddenum, dstateDelenum] <;> split <;> simp
  have hord : Ordered nodeKey d.dtreeRoot := h.sorted.tree
  suffices htree : Ordered nodeKey (op.run w d).dtreeRoot ∧ Holds SoundNode (op.run w d).dtreeRoot from
    ⟨⟨htree.1, show CmdSorted (op.run w d).cmdhead by rw [hcmds]; exact h.sorted.cmds⟩, htree.2, by
      rw [hcmds]; exact h.cmds⟩
  cases op with
  | setinfo var value =>
    have htree : ((ValueOp.setinfo var value).run w d).dtreeRoot =
        (stateSetinfo d.dtreeRoot var (snprintf stMaxValueLen value)).1 := by
      simp only [ValueOp.run, dstateSetinfo]; split <;> simp
    rw [htree, stateSetinfo_fst]
    exact ⟨ordered_upsert (nodeKey_setRaw _) (nodeKey_newNode _ _) hord,
      Holds.upsert h.nodes (fun n hn => hn.setRaw (kept_snprintf hvalue))
        (SoundNode.newNode hvar (kept_snprintf hvalue))⟩
  | addenum var value =>
    have htree : ((ValueOp.addenum var value).run w d).dtreeRoot =
        (stateAddenum d.dtreeRoot var (snprintf stMaxValueLen value)).1 := by
      simp only [ValueOp.run, dstateAddenum]; split <;> simp
    rw [htree, stateAddenum_fst]
    exact ⟨ordered_modify (nodeKey_addEnumTo _) hord,
      Holds.modify h.nodes fun n hn => hn.addEnumTo (kept_snprintf hvalue)⟩
  | delenum var value =>
    have htree : ((ValueOp.delenum var value).run w d).dtreeRoot = (stateDelenum d.dtreeRoot var value).1 := by
      simp only [ValueOp.run, dstateDelenum]; split <;> simp
    rw [htree, stateDelenum_fst]
    exact ⟨ordered_modify (nodeKey_delEnumFrom _) hord, Holds.modify h.nodes fun n hn => hn.delEnumFrom value⟩

private theorem structOp (h : SoundDriver d) {op : StructOp} (hname : PlainWord op.name) : SoundDriver (op.run w d) := by
  rcases hop : op.changes d with _ | _
  · rwa [StructOp.run_of_not_changes w hop]
  have hpub := StructOp.published_run w hop
  have htree : (op.run w d).dtreeRoot = (op.apply d.published).inforoot := congrArg Mirror.inforoot hpub
  have hcmds : (op.run w d).cmdhead = (op.apply d.published).cmdlist := congrArg Mirror.cmdlist hpub
  have hord : Ordered nodeKey d.dtreeRoot := h.sorted.tree
  have hset : ∀ {f : StNode → StNode} (var : CStr), (∀ n, nodeKey (f n) = nodeKey n) →
      (∀ n, SoundNode n → SoundNode (f n)) →
      Ordered nodeKey (SearchTree.modify nodeKey (tolower var) f d.dtreeRoot) ∧
        Holds SoundNode (SearchTree.modify nodeKey (tolower var) f d.dtreeRoot) :=
    fun var hkey hf => ⟨ordered_modify hkey hord, Holds.modify h.nodes hf⟩
  suffices hall : (Ordered nodeKey (op.apply d.published).inforoot ∧ Holds SoundNode (op.apply d.published).inforoot) ∧
      CmdSorted (op.apply d.published).cmdlist ∧ ∀ c ∈ (op.apply d.published).cmdlist, PlainWord c by
    obtain ⟨⟨h1, h2⟩, h3, h4⟩ := hall
    refine ⟨⟨?_, ?_⟩, by rw [htree]; exact h2, by rw [hcmds]; exact h4⟩
    · show Ordered nodeKey (op.run w d).dtreeRoot
      rw [htree]; exact h1
    · show CmdSorted (op.run w d).cmdhead
      rw [hcmds]; exact h3
  have hcmd : CmdSorted d.cmdhead ∧ ∀ c ∈ d.cmdhead, PlainWord c := ⟨h.sorted.cmds, h.cmds⟩
  cases op with
  | setflags var flags =>
    exact ⟨hset var (nodeKey_setFlagsOf _) fun n hn => ⟨hn.var, hn.val, hn.enums, hn.nodup, hn.ranges, hn.bounds⟩, hcmd⟩
  | setaux var aux =>
    exact ⟨hset var (nodeKey_setAuxOf _) fun n hn => ⟨hn.var, hn.val, hn.enums, hn.nodup, hn.ranges, hn.bounds⟩, hcmd⟩
  | addrange var min max =>
    refine ⟨?_, hcmd⟩
    simp only [StructOp.apply, stateAddrange_fst]
    split
    · exact ⟨hord, h.nodes⟩
    · rename_i hlt
      exact hset var (nodeKey_addRangeTo _ _) fun n hn => hn.addRangeTo hlt
  | delrange var min max =>
    refine ⟨?_, hcmd⟩
    simp only [StructOp.apply, stateDelrange_fst]
    exact hset var (nodeKey_delRangeFrom _ _) fun n hn => hn.delRangeFrom min max
  | addcmd cmd =>
    refine ⟨⟨hord, h.nodes⟩, cmdSorted_addcmd hcmd.1 cmd, fun c hc => ?_⟩
    rcases (mem_stateAddcmd hcmd.1 cmd c).1 hc with hc | ⟨rfl, -⟩
    · exact hcmd.2 c hc
    · exact hname
  | delcmd cmd =>
    exact ⟨⟨hord, h.nodes⟩, cmdSorted_delcmd hcmd.1 cmd, fun c hc => hcmd.2 c ((mem_stateDelcmd hcmd.1 cmd c).1 hc).1⟩
  | delinfo var =>
    refine ⟨?_, hcmd⟩
    simp only [StructOp.apply, stateDelinfo_fst]
    exact ⟨ordered_erase hord, Holds.erase h.nodes⟩

theorem call (h : SoundDriver d) {c : Call} (hc : c.Valid) : SoundDriver (c.run w d) := by
  cases c with
  | value op => exact h.valueOp hc.1 hc.2
  | struct op => exact h.structOp hc
  | dataok =>
    have hsame : (dstateDataok w d).dtreeRoot = d.dtreeRoot ∧ (dstateDataok w d).cmdhead = d.cmdhead := by
      unfold dstateDataok; split <;> simp
    exact h.congr hsame.1 hsame.2
  | datastale =>
    have hsame : (dstateDatastale w d).dtreeRoot = d.dtreeRoot ∧ (dstateDatastale w d).cmdhead = d.cmdhead := by
      unfold dstateDatastale; split <;> simp
    exact h.congr hsame.1 hsame.2

theorem init : SoundDriver Dstate.init where
  sorted := ⟨ordered_nil, List.Pairwise.nil⟩
  nodes := holds_nil
  cmds := by simp [Dstate.init]

end SoundDriver

/-- Every state of a driver in a run is sound. -/
theorem Reachable.sound {w : Nat → Bool} {d : Dstate} (h : Reachable Call.Valid w d) : SoundDriver d := by
  refine Reach.invariant h (fun s hs => hs ▸ SoundDriver.init) fun s s' hs hstep => ?_
  cases hstep with
  | call c hc => exact hs.call hc
  | accept fd => exact hs.congr rfl rfl
  | disconnect fd => exact hs.congr rfl rfl

end Nut
