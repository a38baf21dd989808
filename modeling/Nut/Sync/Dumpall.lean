import Mathlib.Data.List.Forall2
import Nut.Drivers.Dump
import Nut.Sync.Calls

/-!
# `DUMPALL`

The lines of a dump are messages (`lineOf_dump`), which put every variable of the driver into the mirror and leave
the others as they are (`exec_dump`).  On an empty mirror the result is the state of the driver (`dumpall_fidelity`).
-/

namespace Nut

open ChunkReader Lexer SearchTree Transition

/-! ### The messages of a dump -/

def flagsMessage (var : CStr) (flags : BitVec 32) : Message :=
  match flagWords flags with
  | [] => .noflags var
  | flag :: rest => .setflags var flag rest

/-- The messages for one variable. -/
def nodeMessages (n : StNode) : List Message :=
  [.setinfo n.var (unescape n.val)] ++ n.enumList.map (fun val => .addenum n.var (unescape val)) ++
  n.rangeList.map (fun r => .addrange n.var (formatInt r.min) (formatInt r.max)) ++
  (if n.aux ≠ 0 then [.setaux n.var (formatInt n.aux)] else []) ++
  (if n.flags ≠ 0 then [flagsMessage n.var n.flags] else [])

def dumpMessages (d : Dstate) : List Message :=
  (if d.stale then [.datastale] else []) ++ d.dtreeRoot.walk.flatMap nodeMessages ++ d.cmdhead.map .addcmd ++
    (if d.stale then [] else [.dataok]) ++ [.dumpdone]

/-- A line that is read as a message, if the buffer holds it. -/
def LineOf (text : CStr) (m : Message) : Prop :=
  text.length < stSockBufLen → ReadsAs step start text start m.words

theorem isWord_of_le {var : CStr} (hvar : PlainWord var) {n : Nat} (h : n < stSockBufLen) (hle : var.length ≤ n) :
    IsWord var := by
  refine ⟨hvar, ?_⟩
  unfold stSockBufLen at h
  unfold pconfDefaultWordlenLimit
  omega

private theorem lineOf_quoted {kw var val : CStr} {m : Message} (hkw : IsWord kw) (hvar : PlainWord var) (hval : Encoded val)
    (hm : m.words = [kw, var, unescape val]) :
    LineOf (kw ++ " ".toList ++ var ++ " \"".toList ++ val ++ "\"\n".toList) m := by
  intro hfit
  have hlen := hval.length_unescape
  have h := @reads_line_quoted var (unescape val) kw hkw
    (isWord_of_le hvar hfit (by simp only [List.length_append]; omega)) hval.kept_unescape
    (by unfold stMaxValueLen at hlen; unfold pconfDefaultWordlenLimit; omega)
  rwa [hval.escape_unescape, ← hm] at h

private theorem forall₂_map {α : Type*} {l : List α} {f : α → CStr} {g : α → Message}
    (h : ∀ a ∈ l, LineOf (f a) (g a)) : List.Forall₂ LineOf (l.map f) (l.map g) := by
  rw [List.forall₂_map_left_iff, List.forall₂_map_right_iff]
  exact List.forall₂_same.2 h

private theorem lineOf_setflags {var : CStr} (hvar : PlainWord var) (flags : BitVec 32) :
    LineOf ("SETFLAGS ".toList ++ flist var flags ++ "\n".toList) (flagsMessage var flags) := by
  intro hfit
  have hlist : (flist var flags).length < smallbuf - 2 := by
    have hkeyword : "SETFLAGS ".toList.length = 9 := by decide
    rw [List.length_append, List.length_append, hkeyword] at hfit
    unfold stSockBufLen at hfit
    unfold smallbuf
    omega
  have hname : IsWord var := by
    refine isWord_of_le hvar hfit ?_
    rw [flist_eq hlist]
    simp only [List.length_append]
    omega
  unfold flagsMessage
  rcases hflags : flagWords flags with _ | ⟨flag, rest⟩
  · have hbare : flist var flags = var := by rw [flist_eq hlist, hflags]; simp
    rw [hbare]
    exact reads_noflags hname
  · exact reads_setflags hname hflags hlist

private theorem lineOf_node {n : StNode} (hn : SoundNode n) : List.Forall₂ LineOf (nodeDump n) (nodeMessages n) := by
  unfold nodeDump nodeMessages
  refine List.rel_append (List.rel_append (List.rel_append (List.rel_append ?_ ?_) ?_) ?_) ?_
  · exact .cons (lineOf_quoted (by decide : IsWord "SETINFO".toList) hn.var hn.val rfl) .nil
  · exact forall₂_map fun val hval => lineOf_quoted (by decide : IsWord "ADDENUM".toList) hn.var (hn.enums val hval) rfl
  · refine forall₂_map fun r _ hfit => reads_addrange (isWord_of_le hn.var hfit ?_) r.min r.max
    simp only [List.length_append]
    omega
  · split
    · refine .cons (fun hfit => reads_setaux (isWord_of_le hn.var hfit ?_) n.aux) .nil
      simp only [List.length_append]
      omega
    · exact .nil
  · split
    · exact .cons (lineOf_setflags hn.var n.flags) .nil
    · exact .nil

/-- The lines of a dump are its messages. -/
theorem lineOf_dump {d : Dstate} (hd : SoundDriver d) : List.Forall₂ LineOf (dumpLines d) (dumpMessages d) := by
  have keyword : ∀ {kw : CStr} {m : Message}, IsWord kw → m.words = [kw] → LineOf (kw ++ "\n".toList) m :=
    fun hkw hm _ => hm ▸ reads_keyword hkw
  unfold dumpLines dumpMessages
  refine List.rel_append (List.rel_append (List.rel_append (List.rel_append ?_ ?_) ?_) ?_) ?_
  · split
    · exact .cons (keyword (by decide : IsWord "DATASTALE".toList) rfl) .nil
    · exact .nil
  · have hnodes := hd.nodes
    unfold Holds at hnodes
    generalize d.dtreeRoot.walk = nodes at hnodes
    induction nodes with
    | nil => exact .nil
    | cons n nodes ih =>
      rw [List.flatMap_cons, List.flatMap_cons]
      exact List.rel_append (lineOf_node (hnodes n (by simp))) (ih fun m hm => hnodes m (by simp [hm]))
  · refine forall₂_map fun cmd hcmd hfit => reads_addcmd (isWord_of_le (hd.cmds cmd hcmd) hfit ?_)
    simp only [List.length_append]
    omega
  · split
    · exact .nil
    · exact .cons (keyword (by decide : IsWord "DATAOK".toList) rfl) .nil
  · exact .cons (keyword (by decide : IsWord "DUMPDONE".toList) rfl) .nil

/-- More lines on their way to the server. -/
theorem Receives.lines {ups : Upstype} {chan : CStr} {ms ms' : List Message} {lines : List CStr}
    (h : Receives ups chan ms) (hl : List.Forall₂ LineOf lines ms') (hfit : ∀ text ∈ lines, text.length < stSockBufLen) :
    Receives ups (chan ++ lines.flatMap (snprintf stSockBufLen)) (ms ++ ms') := by
  induction hl generalizing chan ms with
  | nil => simpa using h
  | cons hm _ ih =>
    rename_i text m lines ms' _
    have htext := hfit text (by simp)
    have hone := h.append (hm htext)
    have hrest := ih hone fun t ht => hfit t (by simp [ht])
    rw [List.flatMap_cons, snprintf_of_lt htext]
    simpa using hrest

/-! ### The effect of a dump -/

/-- The state of a variable after the lists, `aux` and the flags of `n` were added to it. -/
def dumpInto (n a : StNode) : StNode :=
  let a := n.enumList.foldl (fun a val => addEnumTo val a) a
  let a := n.rangeList.foldl (fun a r => addRangeTo r.min r.max a) a
  let a := if n.aux ≠ 0 then setAuxOf n.aux a else a
  if n.flags &&& stFlagSent ≠ 0 then setFlagsOf (n.flags &&& stFlagSent) a else a

/-- What a dump of `n` makes of the variable of the mirror. -/
def dumpNode (n : StNode) (o : Option StNode) : StNode :=
  dumpInto n (o.elim (newNode n.var (unescape n.val)) (setRaw (unescape n.val)))

private theorem nodeKey_foldl {α : Type*} {f : StNode → α → StNode} (hf : ∀ a x, nodeKey (f a x) = nodeKey a) (l : List α)
    (a : StNode) : nodeKey (l.foldl f a) = nodeKey a := by
  induction l generalizing a with
  | nil => rfl
  | cons x l ih => rw [List.foldl_cons, ih, hf]

theorem nodeKey_dumpInto (n a : StNode) : nodeKey (dumpInto n a) = nodeKey a := by
  have h1 := nodeKey_foldl (fun a val => nodeKey_addEnumTo val a) n.enumList a
  have h2 := nodeKey_foldl (fun a (r : Range) => nodeKey_addRangeTo r.min r.max a) n.rangeList
    (n.enumList.foldl (fun a val => addEnumTo val a) a)
  have h3 : ∀ b, nodeKey (if n.aux ≠ 0 then setAuxOf n.aux b else b) = nodeKey b := by
    intro b; split <;> rfl
  have h4 : ∀ b, nodeKey (if n.flags &&& stFlagSent ≠ 0 then setFlagsOf (n.flags &&& stFlagSent) b else b) =
      nodeKey b := by
    intro b; split <;> rfl
  unfold dumpInto
  rw [h4, h3, h2, h1]

/-- Messages about a variable that was just put into the tree. -/
private theorem foldl_exec_upsert {α : Type*} {k : CStr} {f : StNode → StNode} {new : StNode} {l : List α}
    {msg : α → Message} {g : α → StNode → StNode} (hf : ∀ a, nodeKey (f a) = nodeKey a) (hnew : nodeKey new = k)
    (hg : ∀ x a, nodeKey (g x a) = nodeKey a)
    (hmsg : ∀ x ∈ l, ∀ m : Mirror, (msg x |>.exec m) = { m with inforoot := SearchTree.modify nodeKey k (g x) m.inforoot })
    (m : Mirror) (t : StTree) :
    (l.map msg).foldl Message.exec { m with inforoot := upsert nodeKey k f new t } =
      { m with inforoot := upsert nodeKey k (fun a => l.foldl (fun a x => g x a) (f a)) (l.foldl (fun a x => g x a) new) t } := by
  induction l generalizing f new with
  | nil => rfl
  | cons x l ih =>
    rw [List.map_cons, List.foldl_cons, hmsg x (by simp)]
    show (l.map msg).foldl Message.exec
      { m with inforoot := SearchTree.modify nodeKey k (g x) (upsert nodeKey k f new t) } = _
    rw [modify_upsert hf hnew, ih (fun a => (hg x _).trans (hf a)) ((hg x _).trans hnew) fun y hy => hmsg y (by simp [hy])]
    rfl

private theorem exec_addenum {val : CStr} (hval : Encoded val) (var : CStr) (m : Mirror) :
    (Message.addenum var (unescape val)).exec m =
      { m with inforoot := SearchTree.modify nodeKey (tolower var) (addEnumTo val) m.inforoot } := by
  simp only [Message.exec, stateAddenum_fst, hval.pconfEncode_unescape]

private theorem exec_addrange {r : Range} (hr : r.min ≤ r.max) (var : CStr) (m : Mirror) :
    (Message.addrange var (formatInt r.min) (formatInt r.max)).exec m =
      { m with inforoot := SearchTree.modify nodeKey (tolower var) (addRangeTo r.min r.max) m.inforoot } := by
  simp only [Message.exec, atoi_formatInt, stateAddrange_fst]
  rw [if_neg (Int32.not_lt.2 hr)]

theorem exec_setaux (var : CStr) (aux : Int32) (m : Mirror) :
    (Message.setaux var (formatInt aux)).exec m =
      { m with inforoot := SearchTree.modify nodeKey (tolower var) (setAuxOf aux) m.inforoot } := by
  simp only [Message.exec, stateSetaux_fst, atoi_formatInt]

theorem exec_flagsMessage (var : CStr) {flags : BitVec 32} (m : Mirror) :
    (flagsMessage var flags).exec m = if flags &&& stFlagSent ≠ 0
      then { m with inforoot := SearchTree.modify nodeKey (tolower var) (setFlagsOf (flags &&& stFlagSent)) m.inforoot }
      else m := by
  unfold flagsMessage
  rcases hflags : flagWords flags with _ | ⟨flag, rest⟩
  · rw [if_neg (by simpa using flagWords_eq_nil.1 hflags)]
    rfl
  · have hne : flags &&& stFlagSent ≠ 0 := by
      rw [ne_eq, ← flagWords_eq_nil, hflags]; simp
    rw [if_pos hne, ← foldl_setflag_flagWords, hflags]
    simp only [Message.exec, stateSetflags_eq]

private theorem foldl_aux {k : CStr} {f : StNode → StNode} {new : StNode} (hf : ∀ a, nodeKey (f a) = nodeKey a)
    (hnew : nodeKey new = k) (n : StNode) (hk : nodeKey n = k) (m : Mirror) (t : StTree) :
    (if n.aux ≠ 0 then [Message.setaux n.var (formatInt n.aux)] else []).foldl Message.exec
        { m with inforoot := upsert nodeKey k f new t } =
      { m with
        inforoot := upsert nodeKey k (fun a => if n.aux ≠ 0 then setAuxOf n.aux (f a) else f a)
          (if n.aux ≠ 0 then setAuxOf n.aux new else new) t } := by
  by_cases haux : n.aux ≠ 0
  · simp only [if_pos haux, List.foldl_cons, List.foldl_nil, exec_setaux]
    rw [show tolower n.var = k from hk, modify_upsert hf hnew]
  · simp only [if_neg haux, List.foldl_nil]

private theorem foldl_flags {k : CStr} {f : StNode → StNode} {new : StNode} (hf : ∀ a, nodeKey (f a) = nodeKey a)
    (hnew : nodeKey new = k) (n : StNode) (hk : nodeKey n = k) (m : Mirror) (t : StTree) :
    (if n.flags ≠ 0 then [flagsMessage n.var n.flags] else []).foldl Message.exec
        { m with inforoot := upsert nodeKey k f new t } =
      { m with
        inforoot := upsert nodeKey k
          (fun a => if n.flags &&& stFlagSent ≠ 0 then setFlagsOf (n.flags &&& stFlagSent) (f a) else f a)
          (if n.flags &&& stFlagSent ≠ 0 then setFlagsOf (n.flags &&& stFlagSent) new else new) t } := by
  by_cases hzero : n.flags = 0
  · simp [hzero]
  · rw [if_pos hzero, List.foldl_cons, List.foldl_nil, exec_flagsMessage]
    by_cases hsent : n.flags &&& stFlagSent ≠ 0
    · simp only [if_pos hsent]
      rw [show tolower n.var = k from hk, modify_upsert hf hnew]
    · simp only [if_neg hsent]

/-- The messages for a variable put it into the tree. -/
theorem exec_nodeMessages {n : StNode} (hn : SoundNode n) (m : Mirror) :
    (nodeMessages n).foldl Message.exec m =
      { m with inforoot := upsert nodeKey (nodeKey n) (fun a => dumpNode n (some a)) (dumpNode n none) m.inforoot } := by
  have hset : Message.exec m (.setinfo n.var (unescape n.val)) =
      { m with inforoot := upsert nodeKey (nodeKey n) (setRaw (unescape n.val)) (newNode n.var (unescape n.val)) m.inforoot } := by
    simp only [Message.exec, stateSetinfo_fst]
    rfl
  have hk₁ := nodeKey_setRaw (unescape n.val)
  have hn₁ : nodeKey (newNode n.var (unescape n.val)) = nodeKey n := nodeKey_newNode _ _
  have hkey₁ := nodeKey_foldl (fun a val => nodeKey_addEnumTo val a) n.enumList
  have hkey₂ := nodeKey_foldl (fun a (r : Range) => nodeKey_addRangeTo r.min r.max a) n.rangeList
  have hkey₃ : ∀ b, nodeKey (if n.aux ≠ 0 then setAuxOf n.aux b else b) = nodeKey b := by
    intro b; split <;> rfl
  unfold nodeMessages
  rw [List.foldl_append, List.foldl_append, List.foldl_append, List.foldl_append, List.foldl_cons, List.foldl_nil, hset,
    foldl_exec_upsert hk₁ hn₁ nodeKey_addEnumTo fun val hval m => exec_addenum (hn.enums val hval) n.var m,
    foldl_exec_upsert (fun a => (hkey₁ _).trans (hk₁ a)) ((hkey₁ _).trans hn₁)
      (fun (r : Range) => nodeKey_addRangeTo r.min r.max) fun r hr m => exec_addrange (hn.bounds r hr) n.var m,
    foldl_aux (fun a => (hkey₂ _).trans ((hkey₁ _).trans (hk₁ a))) ((hkey₂ _).trans ((hkey₁ _).trans hn₁)) n rfl,
    foldl_flags (fun a => (hkey₃ _).trans ((hkey₂ _).trans ((hkey₁ _).trans (hk₁ a))))
      ((hkey₃ _).trans ((hkey₂ _).trans ((hkey₁ _).trans hn₁))) n rfl]
  rfl

private theorem nodeKey_dumpNode_none (n : StNode) : nodeKey (dumpNode n none) = nodeKey n := by
  rw [dumpNode, nodeKey_dumpInto, Option.elim_none, nodeKey_newNode]
  rfl

private theorem nodeKey_dumpNode_some (n a : StNode) : nodeKey (dumpNode n (some a)) = nodeKey a := by
  rw [dumpNode, nodeKey_dumpInto, Option.elim_some, nodeKey_setRaw]

/-- The messages for several variables change each of these and no other. -/
theorem exec_nodes {nodes : List StNode} (hn : ∀ n ∈ nodes, SoundNode n)
    (hkeys : nodes.Pairwise fun a b => nodeKey a < nodeKey b) (m : Mirror) :
    ∃ t, (nodes.flatMap nodeMessages).foldl Message.exec m = { m with inforoot := t } ∧
      ∀ k, find nodeKey k t = ((nodes.find? fun n => nodeKey n = k).elim (find nodeKey k m.inforoot) fun n =>
        some (dumpNode n (find nodeKey k m.inforoot))) := by
  induction nodes generalizing m with
  | nil => exact ⟨m.inforoot, rfl, fun _ => rfl⟩
  | cons n nodes ih =>
    obtain ⟨hlt, hkeys⟩ := List.pairwise_cons.1 hkeys
    rw [List.flatMap_cons, List.foldl_append, exec_nodeMessages (hn n (by simp))]
    obtain ⟨t, ht, hfind⟩ := ih (fun a ha => hn a (by simp [ha])) hkeys
      { m with inforoot := upsert nodeKey (nodeKey n) (fun a => dumpNode n (some a)) (dumpNode n none) m.inforoot }
    refine ⟨t, ht, fun k => ?_⟩
    rw [hfind]
    have hups := find_upsert (nodeKey_dumpNode_some n) (nodeKey_dumpNode_none n) k m.inforoot
    rw [hups]
    by_cases hk : nodeKey n = k
    · -- the other variables have other names
      have hnone : nodes.find? (fun a => nodeKey a = k) = none := by
        rw [List.find?_eq_none]
        intro a ha
        simpa [hk] using (hlt a ha).ne'
      rw [hnone, if_pos hk.symm, List.find?_cons_of_pos (by simpa using hk), hk]
      rcases find nodeKey k m.inforoot with _ | a <;> rfl
    · rw [if_neg (Ne.symm hk), List.find?_cons_of_neg (by simpa using hk)]

private theorem find_walk {t : StTree} (ht : Ordered nodeKey t) (k : CStr) :
    t.walk.find? (fun n => nodeKey n = k) = find nodeKey k t := by
  rcases hk : find nodeKey k t with _ | n
  · rw [List.find?_eq_none]
    intro a ha
    simpa using (find_eq_none ht).1 hk a ha
  · obtain ⟨hn, hkey⟩ := (find_eq_some ht).1 hk
    rcases hw : t.walk.find? (fun n => nodeKey n = k) with _ | a
    · exact absurd hkey (by simpa using List.find?_eq_none.1 hw n hn)
    · have ha : nodeKey a = k := by simpa using List.find?_some hw
      have hfind := find_of_mem ht (List.mem_of_find?_eq_some hw)
      rw [ha, hk] at hfind
      exact hfind.symm

private theorem exec_cmds (cmds : List CStr) (m : Mirror) :
    (cmds.map Message.addcmd).foldl Message.exec m =
      { m with cmdlist := cmds.foldl (fun l cmd => (stateAddcmd l cmd).1) m.cmdlist } := by
  induction cmds generalizing m with
  | nil => rfl
  | cons cmd cmds ih => rw [List.map_cons, List.foldl_cons, ih]; rfl

/-- A dump puts every variable of the driver into the mirror, which keeps the variables that the driver does not have,
and adds its commands. -/
theorem exec_dump {d : Dstate} (hd : SoundDriver d) (m : Mirror) :
    ∃ t, (dumpMessages d).foldl Message.exec m =
        ⟨t, d.cmdhead.foldl (fun l cmd => (stateAddcmd l cmd).1) m.cmdlist, !d.stale, true⟩ ∧
      ∀ k, find nodeKey k t = (find nodeKey k d.dtreeRoot).elim (find nodeKey k m.inforoot) fun n =>
        some (dumpNode n (find nodeKey k m.inforoot)) := by
  have hord : Ordered nodeKey d.dtreeRoot := hd.sorted.tree
  obtain ⟨m₁, hm₁, htree, hcmds, hok⟩ : ∃ m₁, (if d.stale then [Message.datastale] else []).foldl Message.exec m = m₁ ∧
      m₁.inforoot = m.inforoot ∧ m₁.cmdlist = m.cmdlist ∧ (d.stale = true → m₁.dataOk = false) := by
    split
    · exact ⟨_, rfl, rfl, rfl, fun _ => rfl⟩
    · rename_i hstale
      exact ⟨_, rfl, rfl, rfl, fun h => absurd h hstale⟩
  obtain ⟨t, ht, hfind⟩ := exec_nodes hd.nodes hord m₁
  refine ⟨t, ?_, fun k => ?_⟩
  · unfold dumpMessages
    rw [List.foldl_append, List.foldl_append, List.foldl_append, List.foldl_append, hm₁, ht, exec_cmds, hcmds]
    rcases hstale : d.stale with _ | _
    · rfl
    · show Mirror.mk t _ m₁.dataOk true = _
      rw [hok hstale]
      rfl
  · rw [hfind, find_walk hord, htree]

/-! ### The dump of a variable -/

private theorem foldl_addEnumTo (l : List CStr) (a : StNode) :
    l.foldl (fun a val => addEnumTo val a) a =
      { a with enumList := l.foldl (fun acc val => (stTreeEnumAdd acc val).1) a.enumList } := by
  induction l generalizing a with
  | nil => rfl
  | cons val l ih => rw [List.foldl_cons, ih]; rfl

private theorem foldl_addRangeTo (l : List Range) (a : StNode) :
    l.foldl (fun a r => addRangeTo r.min r.max a) a =
      { a with rangeList := l.foldl (fun acc r => (stTreeRangeAdd acc r.min r.max).1) a.rangeList } := by
  induction l generalizing a with
  | nil => rfl
  | cons r l ih => rw [List.foldl_cons, ih]; rfl

/-- The fields of a variable after the dump. -/
theorem dumpInto_eq (n a : StNode) :
    dumpInto n a = { a with
      enumList := n.enumList.foldl (fun acc val => (stTreeEnumAdd acc val).1) a.enumList
      rangeList := n.rangeList.foldl (fun acc r => (stTreeRangeAdd acc r.min r.max).1) a.rangeList
      aux := if n.aux ≠ 0 then n.aux else a.aux
      flags := if n.flags &&& stFlagSent ≠ 0 then n.flags &&& stFlagSent else a.flags } := by
  unfold dumpInto
  simp only [foldl_addEnumTo, foldl_addRangeTo]
  by_cases haux : n.aux ≠ 0 <;> by_cases hflags : n.flags &&& stFlagSent ≠ 0
  · simp only [if_pos haux, if_pos hflags]; rfl
  · simp only [if_pos haux, if_neg hflags]; rfl
  · simp only [if_neg haux, if_pos hflags]; rfl
  · simp only [if_neg haux, if_neg hflags]

private theorem foldl_enumAdd {l acc : List CStr} (h : (acc ++ l).Nodup) :
    l.foldl (fun acc val => (stTreeEnumAdd acc val).1) acc = acc ++ l := by
  induction l generalizing acc with
  | nil => simp
  | cons val l ih =>
    have hval : val ∉ acc := by
      intro hmem
      exact (List.nodup_append.1 h).2.2 val hmem val (by simp) rfl
    rw [List.foldl_cons, stTreeEnumAdd_eq, if_neg hval, ih (by simpa using h)]
    simp

private theorem foldl_rangeAdd {l acc : List Range}
    (h : (acc ++ l).Pairwise fun r s => r.min ≠ s.min ∧ r.max ≠ s.max) :
    l.foldl (fun acc r => (stTreeRangeAdd acc r.min r.max).1) acc = acc ++ l := by
  induction l generalizing acc with
  | nil => simp
  | cons r l ih =>
    have hmeets : acc.any (meets r.min r.max) = false := by
      rw [List.any_eq_false]
      intro s hs
      have hne := (List.pairwise_append.1 h).2.2 s hs r (by simp)
      simp [meets, hne]
    rw [List.foldl_cons, stTreeRangeAdd_eq, if_neg (by simp [hmeets]), ih (by simpa using h)]
    simp

theorem and_stFlagSent_self (flags : BitVec 32) : flags &&& stFlagSent &&& stFlagSent = flags &&& stFlagSent := by
  rw [BitVec.and_assoc, BitVec.and_self]

/-- A variable that the mirror does not have is as the driver has it after the dump. -/
theorem sentView_dumpNode {n : StNode} (hn : SoundNode n) : sentView (dumpNode n none) = sentView n := by
  have hflags : (if n.flags &&& stFlagSent ≠ 0 then n.flags &&& stFlagSent else 0) &&& stFlagSent =
      n.flags &&& stFlagSent := by
    split
    · exact and_stFlagSent_self n.flags
    · rename_i hzero
      rw [not_not] at hzero
      rw [hzero]
      rfl
  have haux : (if n.aux ≠ 0 then n.aux else 0) = n.aux := by
    split
    · rfl
    · rename_i hzero
      exact (not_not.1 hzero).symm
  simp only [dumpNode, dumpInto_eq, Option.elim_none, sentView, newNode_var, newNode_val, newNode_aux, newNode_flags,
    newNode_enumList, newNode_rangeList, hflags, haux, hn.val.pconfEncode_unescape]
  rw [foldl_enumAdd (by simpa using hn.nodup), foldl_rangeAdd (by simpa using hn.ranges), List.nil_append,
    List.nil_append]

private theorem foldl_addcmd {cmds acc : List CStr} (h : CmdSorted (acc ++ cmds)) :
    cmds.foldl (fun l cmd => (stateAddcmd l cmd).1) acc = acc ++ cmds := by
  induction cmds generalizing acc with
  | nil => simp
  | cons cmd cmds ih =>
    have hlt : ∀ c ∈ acc, tolower c < tolower cmd := fun c hc => (List.pairwise_append.1 h).2.2 c hc cmd (by simp)
    rw [List.foldl_cons, stateAddcmd_of_lt hlt, ih (by simpa using h)]
    simp

/-- A dump makes of an empty mirror what the driver publishes. -/
theorem same_exec_dump {d : Dstate} (hd : SoundDriver d) {m : Mirror} (htree : m.inforoot = .nil) (hcmds : m.cmdlist = []) :
    d.published.Same ((dumpMessages d).foldl Message.exec m) := by
  obtain ⟨t, ht, hfind⟩ := exec_dump hd m
  rw [ht]
  refine ⟨fun k => ?_, ?_, rfl⟩
  · rw [hfind, htree]
    show (find nodeKey k d.dtreeRoot).map sentView = _
    rcases hk : find nodeKey k d.dtreeRoot with _ | n
    · rfl
    · have hnode : SoundNode n := hd.nodes.find hk
      show some (sentView n) = some (sentView (dumpNode n none))
      rw [sentView_dumpNode hnode]
  · have hsorted : CmdSorted ([] ++ d.cmdhead) := hd.sorted.cmds
    show d.cmdhead = _
    rw [hcmds, foldl_addcmd hsorted]
    rfl

/-- However the server reads the answer to `DUMPALL`, it is done with it and shows the state of the driver. -/
def DumpFollowed (w : Nat → Bool) (fd : Nat) (d : Dstate) (ups : Upstype) : Prop :=
  ∀ reads : List (Int × CStr), connOut (dumpAll w fd d) fd = (connOut d fd).map (· ++ (reads.map Prod.snd).flatten) →
    ∃ ups', sstateReads ups reads = some ups' ∧ ups'.dumpdone = true ∧ d.published.Same ups'.mirror

/-- A server with an empty record between two lines follows every dump of a driver whose names are plain words. -/
theorem dumpall_fidelity {w w' : Nat → Bool} {d : Dstate} {ups : Upstype} {fd : Nat} (hr : Reachable Call.Valid w' d)
    (hw : ∀ n, w n = true) (hfd : (connOut d fd).isSome) (hfit : ∀ text ∈ dumpLines d, text.length < stSockBufLen)
    (hconn : ups.sockFd ≠ none) (hidle : AtLineStart ups.sockCtx) (htree : ups.inforoot = .nil) (hcmds : ups.cmdlist = []) :
    DumpFollowed w fd d ups := by
  intro reads hreads
  have hd := hr.sound
  obtain ⟨out, hout⟩ := Option.isSome_iff_exists.1 hfd
  have hstream : (reads.map Prod.snd).flatten = (dumpLines d).flatMap (snprintf stSockBufLen) := by
    rw [(dumpAll_sent hw fd d).connOut, hout, Option.map_some, Option.map_some, Option.some.injEq,
      List.append_cancel_left_eq] at hreads
    exact hreads.symm
  have hrec := (Receives.start hconn hidle).lines (lineOf_dump hd) hfit
  rw [List.nil_append, List.nil_append, ← hstream] at hrec
  obtain ⟨ups', hread, hmirror, -, -⟩ := hrec.reads
  have hsame := @same_exec_dump d hd ups.mirror htree hcmds
  rw [← hmirror] at hsame
  refine ⟨ups', hread, ?_, hsame⟩
  obtain ⟨t, ht, -⟩ := exec_dump hd ups.mirror
  rw [ht] at hmirror
  exact congrArg Mirror.dumpdone hmirror

/-! ### Names that do not get through -/

/-- A name without quote, backslash, `#`, `=` and blanks. -/
def FreeName (name : CStr) : Prop := ∀ c ∈ name, c ≠ '"' ∧ c ≠ '\\' ∧ c ≠ '#' ∧ c ≠ '=' ∧ isspace c = false

instance (name : CStr) : Decidable (FreeName name) := inferInstanceAs (Decidable (∀ _ ∈ _, _))

/-- Calls with such names, among which are the empty one and those with characters that the parser drops. -/
def Call.Free : Call → Prop
  | value op => FreeName op.var ∧ Kept op.value
  | struct op => FreeName op.name
  | dataok | datastale => True

/-- A driver with one variable and a connection. -/
def nameDriver (name : CStr) : Dstate := sockConnect (dstateSetinfo (fun _ => true) Dstate.init name "42".toList).1 4

private theorem reachable_nameDriver {name : CStr} (hname : FreeName name) :
    Reachable Call.Free (fun _ => true) (nameDriver name) :=
  .step (.step (.init rfl) (.call (.value (.setinfo name "42".toList)) ⟨hname, (by decide : Kept "42".toList)⟩))
    (.accept 4)

/-- A variable without a name is not in the mirror after the dump, and neither is one with a character that the parser
drops. -/
theorem dumpall_name_lost :
    (Reachable Call.Free (fun _ => true) (nameDriver []) ∧
      (∀ text ∈ dumpLines (nameDriver []), text.length < stSockBufLen) ∧
        ¬DumpFollowed (fun _ => true) 4 (nameDriver []) emptyServer) ∧
    (Reachable Call.Free (fun _ => true) (nameDriver "ups\x01load".toList) ∧
      (∀ text ∈ dumpLines (nameDriver "ups\x01load".toList), text.length < stSockBufLen) ∧
        ¬DumpFollowed (fun _ => true) 4 (nameDriver "ups\x01load".toList) emptyServer) := by
  refine ⟨⟨reachable_nameDriver (by decide), by decide, fun h => ?_⟩,
    ⟨reachable_nameDriver (by decide), by decide, fun h => ?_⟩⟩
  · obtain ⟨ups', hread, -, hsame⟩ := h [(0, "DATASTALE\nSETINFO  \"42\"\nDUMPDONE\n".toList)] (by decide)
    have hlost : (sstateReads emptyServer [(0, "DATASTALE\nSETINFO  \"42\"\nDUMPDONE\n".toList)]).map Upstype.inforoot =
        some .nil := by decide
    rw [hread, Option.map_some, Option.some.injEq] at hlost
    have hview := hsame.vars []
    rw [show ups'.mirror.inforoot = .nil from hlost] at hview
    exact absurd (congrArg Option.isSome hview) (by decide)
  · obtain ⟨ups', hread, -, hsame⟩ := h [(0, "DATASTALE\nSETINFO ups\x01load \"42\"\nDUMPDONE\n".toList)] (by decide)
    rw [sstateReads_one] at hread
    have hout := @sstateReadline_outside 0 emptyServer ups' _ (by decide) atLineStart_pconfInit
      ⟨ordered_nil, List.Pairwise.nil⟩ hread "ups\x01load".toList (by decide)
    have hview := hsame.vars (tolower "ups\x01load".toList)
    rw [← hout.1] at hview
    exact absurd (congrArg Option.isSome hview) (by decide)

theorem dumpall_fidelity_load : DumpFollowed (fun _ => true) 4 (nameDriver "ups.load".toList) emptyServer :=
  dumpall_fidelity (.step (.step (.init rfl) (.call (.value (.setinfo "ups.load".toList "42".toList)) (by decide)))
    (.accept 4)) (fun _ => rfl) (by decide) (by decide) (by decide) atLineStart_pconfInit rfl rfl

end Nut
