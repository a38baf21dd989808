import Mathlib.Data.List.Pairwise
import Nut.Sync.Dumpall

/-!
# A mirror that is behind

What a mirror may have of a driver when every line on its way has been read (`Behind`): before the dump, a part of
what the driver has, besides the `ups.status` that the server made up when it connected; after the dump, all of it.
Every call keeps the relation (`Behind.call`), and the dump completes it (`Behind.dump`).
-/

namespace Nut

open ChunkReader Lexer SearchTree

/-! ### Calls as messages -/

/-- The call with the value that the driver stores, which is cut to the size of its buffer. -/
def ValueOp.cut : ValueOp → ValueOp
  | setinfo var value => setinfo var (snprintf stMaxValueLen value)
  | addenum var value => addenum var (snprintf stMaxValueLen value)
  | delenum var value => delenum var value

/-- The driver with the state that `m` shows. -/
def Dstate.withState (d : Dstate) (m : Mirror) : Dstate :=
  { d with dtreeRoot := m.inforoot, cmdhead := m.cmdlist, stale := !m.dataOk }

namespace Call

/-- Calls whose lines come as they are meant: plain names, and values without a character to escape. -/
def Spoken : Call → Prop
  | value op => PlainWord op.var ∧ Kept op.value ∧ ∀ c ∈ op.value, pconfEscape c = false
  | struct op => PlainWord op.name
  | dataok | datastale => True

instance : DecidablePred Spoken
  | value _ => inferInstanceAs (Decidable (_ ∧ _ ∧ _))
  | struct _ => inferInstanceAs (Decidable (PlainWord _))
  | dataok | datastale => inferInstanceAs (Decidable True)

/-- Calls whose lines the server understands: plain names, values without a character to escape, flags of which the
line names one, and nothing deleted but variables and commands. -/
def Plain : Call → Prop
  | value (.setinfo var val) | value (.addenum var val) => PlainWord var ∧ Kept val ∧ ∀ c ∈ val, pconfEscape c = false
  | value (.delenum _ _) => False
  | struct (.setflags var flags) => PlainWord var ∧ flags &&& stFlagSent ≠ 0
  | struct (.delrange _ _ _) => False
  | struct op => PlainWord op.name
  | dataok | datastale => True

instance : DecidablePred Plain
  | value (.setinfo _ _) | value (.addenum _ _) => inferInstanceAs (Decidable (_ ∧ _ ∧ _))
  | value (.delenum _ _) | struct (.delrange _ _ _) => inferInstanceAs (Decidable False)
  | struct (.setflags _ _) => inferInstanceAs (Decidable (_ ∧ _))
  | struct (.setaux _ _) | struct (.delinfo _) | struct (.addcmd _) | struct (.delcmd _)
  | struct (.addrange _ _ _) => inferInstanceAs (Decidable (PlainWord _))
  | dataok | datastale => inferInstanceAs (Decidable True)

def line : Call → CStr
  | value op => op.cut.line
  | struct op => op.line
  | dataok => "DATAOK\n".toList
  | datastale => "DATASTALE\n".toList

/-- The call finds something to change. -/
def changes (d : Dstate) : Call → Bool
  | value op => op.cut.changes d.dtreeRoot
  | struct op => op.changes d
  | dataok => d.stale
  | datastale => !d.stale

/-- The change itself. -/
def apply (m : Mirror) : Call → Mirror
  | value op => { m with inforoot := op.cut.tree m.inforoot }
  | struct op => op.apply m
  | dataok => { m with dataOk := true }
  | datastale => { m with dataOk := false }

def message : Call → Message
  | value op => op.cut.message
  | struct (.setflags var flags) => flagsMessage var flags
  | struct (.setaux var aux) => .setaux var (formatInt aux)
  | struct (.addrange var min max) => .addrange var (formatInt min) (formatInt max)
  | struct (.delrange var _ _) => .noflags var
  | struct (.addcmd cmd) => .addcmd cmd
  | struct (.delcmd cmd) => .delcmd cmd
  | struct (.delinfo var) => .delinfo var
  | dataok => .dataok
  | datastale => .datastale

/-- The words of the line. -/
def words : Call → List CStr
  | value op => op.cut.message.words
  | struct op => op.words
  | dataok => ["DATAOK".toList]
  | datastale => ["DATASTALE".toList]

variable {w : Nat → Bool} {d : Dstate} {c : Call}

theorem Plain.spoken (h : c.Plain) : c.Spoken := by
  rcases c with (⟨var, val⟩ | ⟨var, val⟩ | ⟨var, val⟩) | op | _ | _
  · exact h
  · exact h
  · exact h.elim
  · cases op
    case setflags => exact h.1
    case delrange => exact h.elim
    all_goals exact h
  · trivial
  · trivial

theorem Spoken.valid (h : c.Spoken) : c.Valid := by
  rcases c with op | op | _ | _
  · exact ⟨h.1, h.2.1⟩
  · exact h
  · trivial
  · trivial

theorem Plain.words_eq (h : c.Plain) : c.words = c.message.words := by
  rcases c with op | op | _ | _
  · rfl
  · cases op with
    | setflags var flags =>
      show "SETFLAGS".toList :: var :: flagWords flags = (flagsMessage var flags).words
      unfold flagsMessage
      rcases flagWords flags with _ | ⟨flag, rest⟩ <;> rfl
    | delrange var min max => exact h.elim
    | setaux | addrange | addcmd | delcmd | delinfo => rfl
  · rfl
  · rfl

private theorem escape_cut {val : CStr} (h : ∀ c ∈ val, pconfEscape c = false) :
    (escape (snprintf stMaxValueLen val)).length < stMaxValueLen := by
  have hplain : ∀ c ∈ snprintf stMaxValueLen val, pconfEscape c = false := fun c hc => h c (List.mem_of_mem_take hc)
  rw [escape_of_forall hplain]
  exact length_snprintf_lt (by decide) val

private theorem snprintf_snprintf (size : Nat) (text : CStr) :
    snprintf size (snprintf size text) = snprintf size text := by
  simp [snprintf, List.take_take]

/-- A call changes the state and broadcasts one line, or does nothing. -/
theorem Spoken.run_eq (h : c.Spoken) (w : Nat → Bool) (d : Dstate) :
    c.run w d = if c.changes d then sendToAll w (d.withState (c.apply d.published)) c.line else d := by
  have hstale : ∀ t, d.withState { d.published with inforoot := t } = { d with dtreeRoot := t } := by
    intro t
    simp [Dstate.withState, Dstate.published]
  rcases c with op | op | _ | _
  · have hcut : op.run w d = op.cut.run w d := by
      cases op <;> simp only [ValueOp.run, ValueOp.cut, dstateSetinfo, dstateAddenum, snprintf_snprintf]
    have hfit : op.cut.ValueFits := by
      cases op
      · exact escape_cut h.2.2
      · exact escape_cut h.2.2
      · trivial
    show op.run w d = if op.cut.changes d.dtreeRoot then
      sendToAll w (d.withState { d.published with inforoot := op.cut.tree d.dtreeRoot }) op.cut.line else d
    rw [hcut, ValueOp.run_eq w d hfit, hstale]
    split
    · rfl
    · rename_i hchanges
      rw [ValueOp.tree_of_not_changes hfit (by simpa using hchanges)]
  · show op.run w d = if op.changes d then sendToAll w (d.withState (op.apply d.published)) op.line else d
    rcases hop : op.changes d with _ | _
    · rw [StructOp.run_of_not_changes w hop]
      rfl
    · rw [StructOp.run_of_changes w hop, if_pos rfl]
      congr 1
      have hok : (op.apply d.published).dataOk = !d.stale := by cases op <;> rfl
      simp [Dstate.withState, hok]
  · show dstateDataok w d = if d.stale then sendToAll w (d.withState { d.published with dataOk := true }) _ else d
    unfold dstateDataok
    rfl
  · show dstateDatastale w d = if !d.stale then sendToAll w (d.withState { d.published with dataOk := false }) _ else d
    unfold dstateDatastale
    rcases d.stale with _ | _ <;> rfl

theorem Plain.run_eq (h : c.Plain) (w : Nat → Bool) (d : Dstate) :
    c.run w d = if c.changes d then sendToAll w (d.withState (c.apply d.published)) c.line else d :=
  h.spoken.run_eq w d

theorem published_withState (c : Call) (d : Dstate) : (d.withState (c.apply d.published)).published = c.apply d.published := by
  rcases c with op | op | _ | _
  · simp [Dstate.published, Dstate.withState, apply]
  · cases op <;> simp [Dstate.published, Dstate.withState, apply, StructOp.apply]
  · rfl
  · rfl

/-- The line of a call is read as its words. -/
theorem Spoken.reads (h : c.Spoken) (hfit : c.line.length < stSockBufLen) :
    ReadsAs step start c.line start c.words := by
  rcases c with op | op | _ | _
  · have hsnp : ∀ {val : CStr}, Kept val → Kept (snprintf stMaxValueLen val) :=
      fun hval c hc => hval c (List.mem_of_mem_take hc)
    have hesc : ∀ {val : CStr}, (∀ c ∈ val, pconfEscape c = false) →
        escape (snprintf stMaxValueLen val) = snprintf stMaxValueLen val :=
      fun hval => escape_of_forall fun c hc => hval c (List.mem_of_mem_take hc)
    have hlen : ∀ val : CStr, (snprintf stMaxValueLen val).length ≤ pconfDefaultWordlenLimit := fun val => by
      have hlt := length_snprintf_lt (by decide : 0 < stMaxValueLen) val
      unfold stMaxValueLen at hlt
      unfold pconfDefaultWordlenLimit stMaxValueLen
      omega
    have hvar : IsWord op.var := isWord_of_le h.1 hfit (by
      show op.var.length ≤ (ValueOp.line _).length
      cases op <;> simp only [ValueOp.line, ValueOp.cut, ValueOp.var, List.length_append] <;> omega)
    cases op with
    | setinfo var val =>
      have hreads := reads_setinfo hvar (hsnp h.2.1) (hlen val)
      rw [hesc h.2.2] at hreads
      exact hreads
    | addenum var val =>
      have hreads := reads_addenum hvar (hsnp h.2.1) (hlen val)
      rw [hesc h.2.2] at hreads
      exact hreads
    | delenum var val =>
      have hval : val.length ≤ pconfDefaultWordlenLimit := by
        have hfit' : (ValueOp.line (.delenum var val)).length < stSockBufLen := hfit
        simp only [ValueOp.line, ValueOp.value, List.length_append] at hfit'
        unfold stSockBufLen at hfit'
        unfold pconfDefaultWordlenLimit
        omega
      have hreads := reads_delenum hvar h.2.1 hval
      rw [escape_of_forall h.2.2] at hreads
      exact hreads
  · exact StructOp.reads_line_words h hfit
  · exact reads_keyword (by decide : IsWord "DATAOK".toList)
  · exact reads_keyword (by decide : IsWord "DATASTALE".toList)

/-- The line of a plain call is its message. -/
theorem Plain.reads (h : c.Plain) (hfit : c.line.length < stSockBufLen) :
    ReadsAs step start c.line start c.message.words :=
  h.words_eq ▸ h.spoken.reads hfit

end Call

/-! ### The driver -/

/-- A variable whose value has nothing to escape. -/
structure PlainNode (n : StNode) : Prop where
  raw : ∀ c ∈ n.raw, pconfEscape c = false
  length : n.raw.length < stMaxValueLen
  val : n.val = pconfEncode n.raw stMaxValueLen

theorem PlainNode.val_eq {n : StNode} (h : PlainNode n) : n.val = n.raw := by
  have hesc := escape_of_forall h.raw
  rw [h.val, pconfEncode_fits (by rw [hesc]; exact h.length), hesc]

theorem PlainNode.unescape_val {n : StNode} (h : PlainNode n) : unescape n.val = n.raw := by
  have hesc := unescape_escape n.raw
  rw [escape_of_forall h.raw] at hesc
  rw [h.val_eq, hesc]

private theorem plainNode_newNode {var val : CStr} (hval : ∀ c ∈ val, pconfEscape c = false)
    (hlen : val.length < stMaxValueLen) : PlainNode (newNode var val) where
  raw := by rwa [newNode_raw]
  length := by rwa [newNode_raw]
  val := by rw [newNode_val, newNode_raw]

private theorem PlainNode.setRaw {n : StNode} (h : PlainNode n) {val : CStr} (hval : ∀ c ∈ val, pconfEscape c = false)
    (hlen : val.length < stMaxValueLen) : PlainNode (setRaw val n) := by
  rcases hk : keepsValue val n with _ | _
  · have hraw := setRaw_raw hk
    refine ⟨by rwa [hraw], by rwa [hraw], ?_⟩
    simp [Nut.setRaw, hk]
  · rwa [setRaw_of_keeps hk]

/-- A driver whose values have nothing to escape. -/
structure PlainDriver (d : Dstate) : Prop where
  sound : SoundDriver d
  nodes : Holds PlainNode d.dtreeRoot

theorem PlainDriver.init : PlainDriver Dstate.init := ⟨SoundDriver.init, holds_nil⟩

private theorem Call.Spoken.plainNodes {c : Call} (h : c.Spoken) {m : Mirror} (hm : Holds PlainNode m.inforoot) :
    Holds PlainNode (c.apply m).inforoot := by
  rcases c with (⟨var, val⟩ | ⟨var, val⟩ | ⟨var, val⟩) | op | _ | _
  · have hval : ∀ c ∈ snprintf stMaxValueLen val, pconfEscape c = false := fun c hc =>
      h.2.2 c (List.mem_of_mem_take hc)
    have hlen := length_snprintf_lt (by decide : 0 < stMaxValueLen) val
    show Holds PlainNode (stateSetinfo m.inforoot var (snprintf stMaxValueLen val)).1
    rw [stateSetinfo_fst]
    exact Holds.upsert hm (fun n hn => hn.setRaw hval hlen) (plainNode_newNode hval hlen)
  · show Holds PlainNode (stateAddenum m.inforoot var (snprintf stMaxValueLen val)).1
    rw [stateAddenum_fst]
    exact Holds.modify hm fun n hn => ⟨hn.raw, hn.length, hn.val⟩
  · show Holds PlainNode (stateDelenum m.inforoot var val).1
    rw [stateDelenum_fst]
    exact Holds.modify hm fun n hn => ⟨hn.raw, hn.length, hn.val⟩
  · cases op with
    | setflags var flags => exact Holds.modify hm fun n hn => ⟨hn.raw, hn.length, hn.val⟩
    | setaux var aux => exact Holds.modify hm fun n hn => ⟨hn.raw, hn.length, hn.val⟩
    | addrange var min max =>
      show Holds PlainNode (stateAddrange m.inforoot var min max).1
      rw [stateAddrange_fst]
      split
      · exact hm
      · exact Holds.modify hm fun n hn => ⟨hn.raw, hn.length, hn.val⟩
    | delrange var min max =>
      show Holds PlainNode (stateDelrange m.inforoot var min max).1
      rw [stateDelrange_fst]
      exact Holds.modify hm fun n hn => ⟨hn.raw, hn.length, hn.val⟩
    | delinfo var =>
      show Holds PlainNode (stateDelinfo m.inforoot var).1
      rw [stateDelinfo_fst]
      exact Holds.erase hm
    | addcmd | delcmd => exact hm
  · exact hm
  · exact hm

theorem PlainDriver.call {d : Dstate} (hd : PlainDriver d) {c : Call} (h : c.Spoken) (w : Nat → Bool) :
    PlainDriver (c.run w d) := by
  refine ⟨hd.sound.call h.valid, ?_⟩
  rw [h.run_eq]
  split
  · rw [sendToAll_dtreeRoot]
    exact h.plainNodes hd.nodes
  · exact hd.nodes

/-! ### The relation -/

/-- The variable that the server makes up when it connects. -/
def placeholder : StNode := newNode "ups.status".toList "WAIT".toList

/-- What the mirror has of a variable `n` of the driver; `done` tells whether the dump was sent. -/
structure NodeBehind (done : Bool) (k : CStr) (n m : StNode) : Prop where
  raw : m.raw = n.raw ∨ done = false ∧ k = nodeKey placeholder ∧ m.raw = placeholder.raw
  val : m.val = pconfEncode m.raw stMaxValueLen
  flags : m.flags = n.flags &&& stFlagSent ∨ done = false ∧ m.flags = 0
  aux : m.aux = n.aux ∨ done = false ∧ m.aux = 0
  enums : ∀ e ∈ m.enumList, e ∈ n.enumList
  enumsDone : done = true → ∀ e ∈ n.enumList, e ∈ m.enumList
  ranges : ∀ r ∈ m.rangeList, r ∈ n.rangeList
  rangesDone : done = true → ∀ r ∈ n.rangeList, r ∈ m.rangeList

/-- The same for a name that either may have or not. -/
def VarBehind (done : Bool) (k : CStr) : Option StNode → Option StNode → Prop
  | some n, some m => NodeBehind done k n m
  | some _, none => done = false
  | none, some m => done = false ∧ k = nodeKey placeholder ∧ m = placeholder
  | none, none => True

/-- The mirror `m` is behind the state `p` that the driver publishes. -/
structure Behind (done : Bool) (p m : Mirror) : Prop where
  vars : ∀ k, VarBehind done k (find nodeKey k p.inforoot) (find nodeKey k m.inforoot)
  cmds : ∀ c ∈ m.cmdlist, c ∈ p.cmdlist
  cmdsDone : done = true → m.cmdlist = p.cmdlist
  dataOk : done = true → m.dataOk = p.dataOk
  dumpdone : m.dumpdone = done
  sorted : m.Sorted

variable {done : Bool} {k : CStr}

/-- Just after the connection the mirror is behind every driver. -/
theorem behind_placeholder (p : Mirror) {m : Mirror} (htree : m.inforoot = .node .nil placeholder .nil) (hcmds : m.cmdlist = [])
    (hdump : m.dumpdone = false) : Behind false p m where
  vars := by
    intro k
    rw [htree]
    by_cases hk : k = nodeKey placeholder
    · have hfind : find nodeKey k (.node .nil placeholder .nil) = some placeholder := by
        rw [hk, find_node, cmp_self_eq_eq]
      rw [hfind]
      rcases find nodeKey k p.inforoot with _ | n
      · exact ⟨rfl, hk, rfl⟩
      · exact ⟨.inr ⟨rfl, hk, rfl⟩, by decide, .inr ⟨rfl, by decide⟩, .inr ⟨rfl, by decide⟩, by
          simp [placeholder], by simp, by simp [placeholder], by simp⟩
    · have hord : Ordered nodeKey (.node .nil placeholder .nil : StTree) := List.pairwise_singleton _ _
      have hfind : find nodeKey k (.node .nil placeholder .nil) = none := by
        rw [find_eq_none hord]
        intro a ha
        obtain rfl : a = placeholder := by simpa using ha
        exact Ne.symm hk
      rw [hfind]
      rcases find nodeKey k p.inforoot with _ | n <;> trivial
  cmds := by simp [hcmds]
  cmdsDone := by simp
  dataOk := by simp
  dumpdone := hdump
  sorted := ⟨by rw [htree]; exact List.pairwise_singleton _ _, by rw [hcmds]; exact List.Pairwise.nil⟩

theorem NodeBehind.not_immutable {n m : StNode} (h : NodeBehind done k n m) : m.flags &&& stFlagImmutable = 0 := by
  rcases h.flags with hf | ⟨-, hf⟩
  · have hnone : stFlagSent &&& stFlagImmutable = 0 := by decide
    rw [hf, BitVec.and_assoc, hnone]
    exact BitVec.and_zero
  · rw [hf]
    rfl

/-! #### Variables -/

private theorem VarBehind.setinfo {o p : Option StNode} (h : VarBehind done k o p) {var val : CStr}
    (ho : ∀ n ∈ o, keepsValue val n = false) :
    VarBehind done k (some (o.elim (newNode var val) (setRaw val))) (some (p.elim (newNode var val) (setRaw val))) := by
  have fresh : ∀ (done : Bool) {n : StNode}, n.raw = val → (done = true → n.flags = 0 ∧ n.aux = 0 ∧ n.enumList = [] ∧
      n.rangeList = []) → NodeBehind done k n (newNode var val) := by
    intro done n hraw hnew
    rcases done with _ | _
    · exact ⟨.inl (by simp [hraw]), by simp, .inr ⟨rfl, by simp⟩, .inr ⟨rfl, by simp⟩, by simp, by simp, by simp, by simp⟩
    · obtain ⟨h1, h2, h3, h4⟩ := hnew rfl
      exact ⟨.inl (by simp [hraw]), by simp, .inl (by simp [h1]), .inl (by simp [h2]), by simp, by simp [h3], by simp,
        by simp [h4]⟩
  rcases o with _ | n <;> rcases p with _ | m
  · exact fresh done (by simp) (by simp)
  · -- the driver gives the variable that the server made up a value
    obtain ⟨rfl, hk, rfl⟩ := h
    show NodeBehind false k (newNode var val) (setRaw val placeholder)
    rcases hkeep : keepsValue val placeholder with _ | _
    · exact ⟨.inl (by rw [setRaw_raw hkeep, newNode_raw]), by simp [setRaw, hkeep], .inr ⟨rfl, by simp [placeholder]⟩,
        .inr ⟨rfl, by simp [placeholder]⟩, by simp [placeholder], by simp, by simp [placeholder], by simp⟩
    · rw [setRaw_of_keeps hkeep]
      exact ⟨.inr ⟨rfl, hk, rfl⟩, by decide, .inr ⟨rfl, by decide⟩, .inr ⟨rfl, by decide⟩, by simp [placeholder],
        by simp, by simp [placeholder], by simp⟩
  · have hkeep := ho n rfl
    obtain rfl : done = false := h
    exact fresh false (setRaw_raw hkeep) (by simp)
  · have hkeep := ho n rfl
    have hnm : NodeBehind done k n m := h
    show NodeBehind done k (setRaw val n) (setRaw val m)
    rcases hm : keepsValue val m with _ | _
    · exact ⟨.inl (by rw [setRaw_raw hm, setRaw_raw hkeep]), by simp [setRaw, hm], by simpa using hnm.flags,
        by simpa using hnm.aux, by simpa using hnm.enums, by simpa using hnm.enumsDone, by simpa using hnm.ranges,
        by simpa using hnm.rangesDone⟩
    · -- the mirror keeps its value: it must be the one that the server made up
      rw [setRaw_of_keeps hm]
      have hmade : done = false ∧ k = nodeKey placeholder ∧ m.raw = placeholder.raw := by
        rcases hnm.raw with hraw | hmade
        · simp only [keepsValue, Bool.or_eq_true, decide_eq_true_eq, ne_eq, hraw, hnm.not_immutable,
            not_true_eq_false, or_false] at hm
          simp [keepsValue, hm] at hkeep
        · exact hmade
      exact ⟨.inr hmade, hnm.val, by simpa using hnm.flags, by simpa using hnm.aux, by simpa using hnm.enums,
        by simpa using hnm.enumsDone, by simpa using hnm.ranges, by simpa using hnm.rangesDone⟩

/-- A change of a variable that the driver has. -/
private theorem VarBehind.map {n : StNode} {p : Option StNode} (h : VarBehind done k (some n) p) {f g : StNode → StNode}
    (hf : ∀ m, NodeBehind done k n m → NodeBehind done k (f n) (g m)) : VarBehind done k (some (f n)) (p.map g) := by
  rcases p with _ | m
  · exact h
  · exact hf m h

private theorem NodeBehind.addEnumTo {n m : StNode} (h : NodeBehind done k n m) (e : CStr) :
    NodeBehind done k (addEnumTo e n) (addEnumTo e m) := by
  have hmem : ∀ (a : StNode) (x : CStr), x ∈ (Nut.addEnumTo e a).enumList ↔ x ∈ a.enumList ∨ x = e := by
    intro a x
    by_cases he : e ∈ a.enumList
    · simp only [Nut.addEnumTo, stTreeEnumAdd_eq, if_pos he]
      exact ⟨.inl, fun hx => hx.elim id fun hx => hx ▸ he⟩
    · simp [Nut.addEnumTo, stTreeEnumAdd_eq, he]
  refine ⟨h.raw, h.val, h.flags, h.aux, fun x hx => ?_, fun hd x hx => ?_, h.ranges, h.rangesDone⟩
  · exact (hmem n x).2 (((hmem m x).1 hx).imp_left (h.enums x))
  · exact (hmem m x).2 (((hmem n x).1 hx).imp_left (h.enumsDone hd x))

private theorem NodeBehind.addRangeTo {n m : StNode} (h : NodeBehind done k n m) {min max : Int32}
    (hn : n.rangeList.any (meets min max) = false) : NodeBehind done k (addRangeTo min max n) (addRangeTo min max m) := by
  have hm : m.rangeList.any (meets min max) = false := by
    rw [List.any_eq_false] at hn ⊢
    exact fun r hr => hn r (h.ranges r hr)
  have hadd : ∀ {a : StNode}, a.rangeList.any (meets min max) = false →
      (Nut.addRangeTo min max a).rangeList = a.rangeList ++ [⟨min, max⟩] := by
    intro a ha
    simp [Nut.addRangeTo, stTreeRangeAdd_eq, ha]
  refine ⟨h.raw, h.val, h.flags, h.aux, h.enums, h.enumsDone, fun r hr => ?_, fun hd r hr => ?_⟩
  · rw [hadd hm, List.mem_append] at hr
    rw [hadd hn, List.mem_append]
    exact hr.imp_left (h.ranges r)
  · rw [hadd hn, List.mem_append] at hr
    rw [hadd hm, List.mem_append]
    exact hr.imp_left (h.rangesDone hd r)

/-! #### The mirror -/

/-- A change of one variable on both sides. -/
private theorem Behind.at {p m : Mirror} (h : Behind done p m) {t t' : StTree} {k₀ : CStr}
    (hp : ∀ k, k ≠ k₀ → find nodeKey k t = find nodeKey k p.inforoot)
    (hm : ∀ k, k ≠ k₀ → find nodeKey k t' = find nodeKey k m.inforoot)
    (hat : VarBehind done k₀ (find nodeKey k₀ t) (find nodeKey k₀ t')) (hord : Ordered nodeKey t') :
    Behind done { p with inforoot := t } { m with inforoot := t' } where
  vars := by
    intro k
    by_cases hk : k = k₀
    · rw [hk]; exact hat
    · show VarBehind done k (find nodeKey k t) (find nodeKey k t')
      rw [hp k hk, hm k hk]
      exact h.vars k
  cmds := h.cmds
  cmdsDone := h.cmdsDone
  dataOk := h.dataOk
  dumpdone := h.dumpdone
  sorted := ⟨hord, h.sorted.cmds⟩

/-- A change of a variable that the driver has, and what the mirror makes of it. -/
private theorem Behind.modify {p m : Mirror} (h : Behind done p m) {var : CStr} {n : StNode}
    (hn : stateTreeFind p.inforoot var = some n) {f g : StNode → StNode} (hkey : ∀ a, nodeKey (f a) = nodeKey a)
    (hkey' : ∀ a, nodeKey (g a) = nodeKey a)
    (hf : ∀ b, NodeBehind done (tolower var) n b → NodeBehind done (tolower var) (f n) (g b)) :
    Behind done { p with inforoot := SearchTree.modify nodeKey (tolower var) f p.inforoot }
      { m with inforoot := SearchTree.modify nodeKey (tolower var) g m.inforoot } := by
  refine h.at (fun k hk => find_modify_of_ne hkey hk _) (fun k hk => find_modify_of_ne hkey' hk _) ?_
    (ordered_modify hkey' h.sorted.tree)
  have hvar := h.vars (tolower var)
  rw [find_modify_self hkey, find_modify_self hkey']
  rw [stateTreeFind_eq] at hn
  rw [hn] at hvar ⊢
  exact hvar.map hf

private theorem behind_valueOp {d : Dstate} {m : Mirror} (h : Behind done d.published m) {op : ValueOp}
    (hop : op.changes d.dtreeRoot = true) (hdel : ∀ var val, op ≠ .delenum var val) :
    Behind done { d.published with inforoot := op.tree d.dtreeRoot } { m with inforoot := op.tree m.inforoot } := by
  cases op with
  | setinfo var val =>
    have hkey := nodeKey_setRaw val
    have hnew := nodeKey_newNode var val
    simp only [ValueOp.tree, stateSetinfo_fst]
    refine h.at (fun k hk => find_upsert_of_ne hkey hnew hk _) (fun k hk => find_upsert_of_ne hkey hnew hk _) ?_
      (ordered_upsert hkey hnew h.sorted.tree)
    rw [find_upsert_self hkey hnew, find_upsert_self hkey hnew]
    refine (h.vars (tolower var)).setinfo fun n hn => ?_
    have hn' : find nodeKey (tolower var) d.dtreeRoot = some n := hn
    simpa [ValueOp.changes, stateTreeFind_eq, hn'] using hop
  | addenum var val =>
    rcases hn : stateTreeFind d.dtreeRoot var with _ | n
    · simp [ValueOp.changes, hn] at hop
    · simp only [ValueOp.tree, stateAddenum_fst]
      exact h.modify hn (nodeKey_addEnumTo _) (nodeKey_addEnumTo _) fun b hb => hb.addEnumTo _
  | delenum var val => exact absurd rfl (hdel var val)

private theorem behind_structOp {d : Dstate} (hd : PlainDriver d) {m : Mirror} (h : Behind done d.published m) {op : StructOp}
    (hop : op.changes d = true) (hplain : (Call.struct op).Plain) :
    Behind done (op.apply d.published) ((Call.struct op).message.exec m) := by
  have hcmds : CmdSorted d.cmdhead := hd.sound.sorted.cmds
  cases op with
  | setflags var flags =>
    rcases hn : stateTreeFind d.dtreeRoot var with _ | n
    · simp [StructOp.changes, hn] at hop
    · -- the line names the flags that the server learns of
      show Behind done _ ((flagsMessage var flags).exec m)
      rw [exec_flagsMessage, if_pos hplain.2]
      exact h.modify hn (nodeKey_setFlagsOf _) (nodeKey_setFlagsOf _) fun b hb =>
        ⟨hb.raw, hb.val, .inl rfl, hb.aux, hb.enums, hb.enumsDone, hb.ranges, hb.rangesDone⟩
  | setaux var aux =>
    rcases hn : stateTreeFind d.dtreeRoot var with _ | n
    · simp [StructOp.changes, hn] at hop
    · show Behind done _ ((Message.setaux var (formatInt aux)).exec m)
      rw [exec_setaux]
      exact h.modify hn (nodeKey_setAuxOf _) (nodeKey_setAuxOf _) fun b hb =>
        ⟨hb.raw, hb.val, hb.flags, .inl rfl, hb.enums, hb.enumsDone, hb.ranges, hb.rangesDone⟩
  | addrange var min max =>
    simp only [StructOp.changes, stateAddrange_snd, Bool.and_eq_true, Bool.not_eq_true', decide_eq_false_iff_not] at hop
    rcases hn : stateTreeFind d.dtreeRoot var with _ | n
    · simp [hn] at hop
    · have hmeets : n.rangeList.any (meets min max) = false := by simpa [hn] using hop.2
      show Behind done _ ((Message.addrange var (formatInt min) (formatInt max)).exec m)
      simp only [StructOp.apply, Message.exec, atoi_formatInt, stateAddrange_fst, if_neg hop.1]
      exact h.modify hn (nodeKey_addRangeTo _ _) (nodeKey_addRangeTo _ _) fun b hb => hb.addRangeTo hmeets
  | delrange var min max => exact hplain.elim
  | addcmd cmd =>
    have hnew := (stateAddcmd_snd hcmds cmd).1 hop
    refine ⟨h.vars, fun c hc => ?_, fun hdone => ?_, h.dataOk, h.dumpdone, ⟨h.sorted.tree, cmdSorted_addcmd h.sorted.cmds cmd⟩⟩
    · refine (mem_stateAddcmd hcmds cmd c).2 ?_
      rcases (mem_stateAddcmd h.sorted.cmds cmd c).1 hc with hc | ⟨hc, -⟩
      · exact .inl (h.cmds c hc)
      · exact .inr ⟨hc, hnew⟩
    · show (stateAddcmd m.cmdlist cmd).1 = (stateAddcmd d.published.cmdlist cmd).1
      rw [h.cmdsDone hdone]
  | delcmd cmd =>
    refine ⟨h.vars, fun c hc => ?_, fun hdone => ?_, h.dataOk, h.dumpdone, ⟨h.sorted.tree, cmdSorted_delcmd h.sorted.cmds cmd⟩⟩
    · obtain ⟨hc, hne⟩ := (mem_stateDelcmd h.sorted.cmds cmd c).1 hc
      exact (mem_stateDelcmd hcmds cmd c).2 ⟨h.cmds c hc, hne⟩
    · show (stateDelcmd m.cmdlist cmd).1 = (stateDelcmd d.published.cmdlist cmd).1
      rw [h.cmdsDone hdone]
  | delinfo var =>
    have hord : Ordered nodeKey d.dtreeRoot := hd.sound.sorted.tree
    show Behind done _ ((Message.delinfo var).exec m)
    simp only [StructOp.apply, Message.exec, stateDelinfo_fst]
    have helse : ∀ k, k ≠ tolower var →
        find nodeKey k (erase nodeKey (tolower var) m.inforoot) = find nodeKey k m.inforoot := by
      intro k hk
      rw [find_erase h.sorted.tree, if_neg hk]
    refine h.at (fun k hk => ?_) helse ?_ (ordered_erase h.sorted.tree)
    · show find nodeKey k (erase nodeKey (tolower var) d.dtreeRoot) = _
      rw [find_erase hord, if_neg hk]
      rfl
    · show VarBehind done _ (find nodeKey _ (erase nodeKey (tolower var) d.dtreeRoot)) _
      rw [find_erase hord, find_erase h.sorted.tree, if_pos rfl, if_pos rfl]
      trivial

/-- A plain call keeps the mirror behind, once its message is read. -/
theorem Behind.call {d : Dstate} (hd : PlainDriver d) {m : Mirror} (h : Behind done d.published m) {c : Call}
    (hc : c.Plain) (hop : c.changes d = true) : Behind done (c.apply d.published) (c.message.exec m) := by
  rcases c with op | op | _ | _
  · have hdel : ∀ var val, op.cut ≠ .delenum var val := by
      intro var val
      cases op
      · simp [ValueOp.cut]
      · simp [ValueOp.cut]
      · exact hc.elim
    have hexec : (Call.value op).message.exec m = { m with inforoot := op.cut.tree m.inforoot } := by cases op <;> rfl
    rw [hexec]
    exact behind_valueOp h hop hdel
  · exact behind_structOp hd h hop hc
  · exact ⟨h.vars, h.cmds, h.cmdsDone, fun _ => rfl, h.dumpdone, ⟨h.sorted.tree, h.sorted.cmds⟩⟩
  · exact ⟨h.vars, h.cmds, h.cmdsDone, fun _ => rfl, h.dumpdone, ⟨h.sorted.tree, h.sorted.cmds⟩⟩

/-! ### The dump -/

/-- The driver has a status other than the one that the server made up. -/
def StatusSet (d : Dstate) : Prop :=
  ∃ n, stateTreeFind d.dtreeRoot placeholder.var = some n ∧ strcasecmp n.val placeholder.raw ≠ .eq

private theorem mem_foldl_enumAdd (l acc : List CStr) (x : CStr) :
    x ∈ l.foldl (fun acc val => (stTreeEnumAdd acc val).1) acc ↔ x ∈ acc ∨ x ∈ l := by
  induction l generalizing acc with
  | nil => simp
  | cons val l ih =>
    rw [List.foldl_cons, ih, stTreeEnumAdd_eq]
    split
    · rename_i hmem
      simp only [List.mem_cons]
      constructor
      · exact Or.imp_right .inr
      · rintro (h | rfl | h)
        · exact .inl h
        · exact .inl hmem
        · exact .inr h
    · simp [or_assoc]

private theorem mem_foldl_rangeAdd {L : List Range} (hL : L.Pairwise fun r s => r.min ≠ s.min ∧ r.max ≠ s.max)
    {l acc : List Range} (hl : ∀ r ∈ l, r ∈ L) (hacc : ∀ r ∈ acc, r ∈ L) (x : Range) :
    x ∈ l.foldl (fun acc r => (stTreeRangeAdd acc r.min r.max).1) acc ↔ x ∈ acc ∨ x ∈ l := by
  induction l generalizing acc with
  | nil => simp
  | cons r l ih =>
    have hr := hl r (by simp)
    rw [List.foldl_cons, stTreeRangeAdd_eq]
    split
    · rename_i hany
      -- a range in the way can only be the range itself
      obtain ⟨s, hs, hmeets⟩ := List.any_eq_true.1 hany
      have hsr : s = r := by
        by_contra hne
        have hsymm : Std.Symm fun r s : Range => r.min ≠ s.min ∧ r.max ≠ s.max :=
          ⟨fun _ _ hab => ⟨hab.1.symm, hab.2.symm⟩⟩
        have hdiff := hL.forall (hacc s hs) hr hne
        simp [meets, hdiff] at hmeets
      rw [ih (fun a ha => hl a (by simp [ha])) hacc, List.mem_cons]
      constructor
      · exact Or.imp_right .inr
      · rintro (h | rfl | h)
        · exact .inl h
        · exact .inl (hsr ▸ hs)
        · exact .inr h
    · rw [ih (fun a ha => hl a (by simp [ha])) fun a ha => by
        rcases List.mem_append.1 ha with ha | ha
        · exact hacc a ha
        · rw [List.mem_singleton.1 ha]; exact hr]
      simp [or_assoc]

private theorem foldl_cmds_of_subset {cmds acc : List CStr} (hc : CmdSorted cmds) (hacc : CmdSorted acc)
    (hsub : ∀ c ∈ acc, c ∈ cmds) : cmds.foldl (fun l cmd => (stateAddcmd l cmd).1) acc = cmds := by
  -- the result is sorted and has the same members
  suffices hgen : ∀ (l acc : List CStr), CmdSorted acc → (∀ c ∈ acc, c ∈ cmds) → (∀ c ∈ l, c ∈ cmds) →
      CmdSorted (l.foldl (fun l cmd => (stateAddcmd l cmd).1) acc) ∧
        ∀ c, c ∈ l.foldl (fun l cmd => (stateAddcmd l cmd).1) acc ↔ c ∈ acc ∨ c ∈ l by
    obtain ⟨hsorted, hmem⟩ := hgen cmds acc hacc hsub fun c hc => hc
    have hperm : (cmds.foldl (fun l cmd => (stateAddcmd l cmd).1) acc).Perm cmds := by
      have hnodup : ∀ {l : List CStr}, CmdSorted l → l.Nodup := fun h =>
        List.Pairwise.imp (fun hlt he => absurd (he ▸ hlt) (lt_irrefl _)) h
      rw [List.perm_ext_iff_of_nodup (hnodup hsorted) (hnodup hc)]
      intro c
      rw [hmem]
      exact ⟨fun h => h.elim (hsub c) id, .inr⟩
    exact hperm.eq_of_pairwise (fun a b _ _ hab hba => absurd (hab.trans hba) (lt_irrefl _)) hsorted hc
  intro l
  induction l with
  | nil => exact fun acc hacc _ _ => ⟨hacc, by simp⟩
  | cons cmd l ih =>
    intro acc hacc hsub hl
    have hmem : ∀ c, c ∈ (stateAddcmd acc cmd).1 ↔ c ∈ acc ∨ c = cmd := by
      intro c
      rw [mem_stateAddcmd hacc]
      constructor
      · exact Or.imp_right And.left
      · rintro (hc' | rfl)
        · exact .inl hc'
        · by_cases hnew : ∀ a ∈ acc, tolower a ≠ tolower c
          · exact .inr ⟨rfl, hnew⟩
          · -- the command of that name is the command itself
            push Not at hnew
            obtain ⟨a, ha, hkey⟩ := hnew
            have hac : a = c := by
              by_contra hne
              have hsymm : Std.Symm fun a b : CStr => tolower a ≠ tolower b := ⟨fun _ _ hab => hab.symm⟩
              have hapart : cmds.Pairwise fun a b => tolower a ≠ tolower b := hc.imp fun hlt => hlt.ne
              exact hapart.forall (hsub a ha) (hl c (by simp)) hne hkey
            exact .inl (hac ▸ ha)
    obtain ⟨h1, h2⟩ := ih (stateAddcmd acc cmd).1 (cmdSorted_addcmd hacc cmd)
      (fun c hc' => by
        rcases (hmem c).1 hc' with h | rfl
        · exact hsub c h
        · exact hl c (by simp))
      fun c hc' => hl c (by simp [hc'])
    refine ⟨h1, fun c => ?_⟩
    rw [List.foldl_cons, h2, hmem, List.mem_cons, or_assoc]

private theorem nodeBehind_dumpInto {n a : StNode} (hn : SoundNode n) (hraw : a.raw = n.raw)
    (hval : a.val = pconfEncode a.raw stMaxValueLen) (hflags : a.flags = n.flags &&& stFlagSent ∨ a.flags = 0)
    (haux : a.aux = n.aux ∨ a.aux = 0) (henums : ∀ e ∈ a.enumList, e ∈ n.enumList)
    (hranges : ∀ r ∈ a.rangeList, r ∈ n.rangeList) (k : CStr) : NodeBehind true k n (dumpInto n a) := by
  rw [dumpInto_eq]
  refine ⟨.inl hraw, hval, .inl ?_, .inl ?_, fun e he => ?_, fun _ e he => ?_, fun r hr => ?_, fun _ r hr => ?_⟩
  · show (if n.flags &&& stFlagSent ≠ 0 then n.flags &&& stFlagSent else a.flags) = n.flags &&& stFlagSent
    split
    · rfl
    · rename_i hzero
      rcases hflags with h | h
      · exact h
      · rw [h, not_not.1 hzero]
  · show (if n.aux ≠ 0 then n.aux else a.aux) = n.aux
    split
    · rfl
    · rename_i hzero
      rcases haux with h | h
      · exact h
      · rw [h, not_not.1 hzero]
  · exact ((mem_foldl_enumAdd _ _ e).1 he).elim (henums e) id
  · exact (mem_foldl_enumAdd _ _ e).2 (.inr he)
  · exact ((mem_foldl_rangeAdd hn.ranges (fun r hr => hr) hranges r).1 hr).elim (hranges r) id
  · exact (mem_foldl_rangeAdd hn.ranges (fun r hr => hr) hranges r).2 (.inr hr)

private theorem foldl_exec_sorted (ms : List Message) {m : Mirror} (h : m.Sorted) : (ms.foldl Message.exec m).Sorted := by
  induction ms generalizing m with
  | nil => exact h
  | cons msg ms ih => exact ih (exec_sorted h msg)

/-- After a dump the mirror has what the driver has of a variable. -/
private theorem nodeBehind_dumpNode {n : StNode} (hn : SoundNode n) (hp : PlainNode n) {p : Option StNode}
    (h : VarBehind false k (some n) p)
    (hstatus : k = nodeKey placeholder → strcasecmp n.val placeholder.raw ≠ .eq) : NodeBehind true k n (dumpNode n p) := by
  unfold dumpNode
  rw [hp.unescape_val]
  rcases p with _ | m
  · exact nodeBehind_dumpInto hn (by simp) (by simp) (.inr (by simp)) (.inr (by simp)) (by simp) (by simp) k
  · have hm : NodeBehind false k n m := h
    have hraw : (setRaw n.raw m).raw = n.raw := by
      rcases hkeep : keepsValue n.raw m with _ | _
      · exact setRaw_raw hkeep
      · rw [setRaw_of_keeps hkeep]
        rcases hm.raw with hraw | ⟨-, hk, hraw⟩
        · exact hraw
        · -- the value that the server made up is not the status of the driver
          have hne := hstatus hk
          rw [hp.val_eq] at hne
          simp only [keepsValue, Bool.or_eq_true, decide_eq_true_eq, ne_eq, hm.not_immutable, not_true_eq_false,
            or_false, hraw] at hkeep
          exact absurd (strcasecmp_eq.2 (strcasecmp_eq.1 hkeep).symm) hne
    have hval : (setRaw n.raw m).val = pconfEncode (setRaw n.raw m).raw stMaxValueLen := by
      rcases hkeep : keepsValue n.raw m with _ | _
      · simp [setRaw, hkeep]
      · rw [setRaw_of_keeps hkeep]; exact hm.val
    exact nodeBehind_dumpInto hn hraw hval (by simpa using hm.flags) (by simpa using hm.aux) (by simpa using hm.enums)
      (by simpa using hm.ranges) k

/-- The dump completes the mirror. -/
theorem Behind.dump {d : Dstate} (hd : PlainDriver d) (hs : StatusSet d) {m : Mirror} (h : Behind false d.published m) :
    Behind true d.published ((dumpMessages d).foldl Message.exec m) := by
  have hcmds : CmdSorted d.cmdhead := hd.sound.sorted.cmds
  obtain ⟨s, hs, hne⟩ := hs
  rw [stateTreeFind_eq] at hs
  obtain ⟨t, ht, hfind⟩ := exec_dump hd.sound m
  have hfold := foldl_cmds_of_subset hcmds h.sorted.cmds h.cmds
  have hord : Ordered nodeKey t := by
    have hsorted : ((dumpMessages d).foldl Message.exec m).Sorted := foldl_exec_sorted _ h.sorted
    rw [ht] at hsorted
    exact hsorted.tree
  rw [ht, hfold]
  refine ⟨fun k => ?_, fun c hc => hc, fun _ => rfl, fun _ => rfl, rfl, ⟨hord, hcmds⟩⟩
  have hvar := h.vars k
  show VarBehind true k (find nodeKey k d.dtreeRoot) (find nodeKey k t)
  rw [hfind]
  have hroot : d.published.inforoot = d.dtreeRoot := rfl
  rw [hroot] at hvar
  rcases hn : find nodeKey k d.dtreeRoot with _ | n
  · rw [hn] at hvar
    rcases hm : find nodeKey k m.inforoot with _ | a
    · trivial
    · rw [hm] at hvar
      obtain ⟨-, hk, -⟩ := hvar
      rw [hk] at hn
      exact absurd (hs.symm.trans hn) (by simp)
  · rw [hn] at hvar
    refine nodeBehind_dumpNode (hd.sound.nodes.find hn) (hd.nodes.find hn) hvar fun hk => ?_
    rw [hk] at hn
    have hsn : s = n := Option.some.inj (hs.symm.trans hn)
    exact hsn ▸ hne

/-! ### The same up to order -/

/-- What the driver publishes of a variable, without the order of its lists. -/
def setView (n : StNode) : CStr × BitVec 32 × Int32 × Set CStr × Set Range :=
  (n.val, n.flags &&& stFlagSent, n.aux, {e | e ∈ n.enumList}, {r | r ∈ n.rangeList})

/-- The same variables with the same values, flags, `aux` and sets, the same commands and the same word on the data. -/
structure Mirror.SameSets (m m' : Mirror) : Prop where
  vars : Agree nodeKey setView m.inforoot m'.inforoot
  cmds : m.cmdlist = m'.cmdlist
  dataOk : m.dataOk = m'.dataOk

/-- A mirror that is not behind shows the state of the driver. -/
theorem Behind.sameSets {d : Dstate} (hd : PlainDriver d) {m : Mirror} (h : Behind true d.published m) :
    d.published.SameSets m := by
  refine ⟨fun k => ?_, (h.cmdsDone rfl).symm, (h.dataOk rfl).symm⟩
  have hvar := h.vars k
  rcases hn : find nodeKey k d.published.inforoot with _ | n
  · rw [hn] at hvar
    rcases hm : find nodeKey k m.inforoot with _ | a
    · rfl
    · rw [hm] at hvar
      exact Bool.noConfusion hvar.1
  · rw [hn] at hvar
    rcases hm : find nodeKey k m.inforoot with _ | a
    · rw [hm] at hvar
      exact Bool.noConfusion (show true = false from hvar)
    rw [hm] at hvar
    have hnode : NodeBehind true k n a := hvar
    have hplain : PlainNode n := hd.nodes.find hn
    have hraw : a.raw = n.raw := hnode.raw.elim id fun h => absurd h.1 (by decide)
    have hflags : a.flags = n.flags &&& stFlagSent := hnode.flags.elim id fun h => absurd h.1 (by decide)
    have haux : a.aux = n.aux := hnode.aux.elim id fun h => absurd h.1 (by decide)
    have hval : a.val = n.val := by rw [hnode.val, hraw, hplain.val]
    have henums : {e | e ∈ n.enumList} = {e | e ∈ a.enumList} := by
      ext e
      exact ⟨hnode.enumsDone rfl e, hnode.enums e⟩
    have hranges : {r | r ∈ n.rangeList} = {r | r ∈ a.rangeList} := by
      ext r
      exact ⟨hnode.rangesDone rfl r, hnode.ranges r⟩
    have hsent := and_stFlagSent_self n.flags
    simp only [Option.map_some, setView, hval, hflags, haux, henums, hranges, hsent]

end Nut
