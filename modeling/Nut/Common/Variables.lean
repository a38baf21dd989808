import Nut.Common.StateTree
import Nut.Lib.SetRuns

/-!
# The tree of variables over its whole life

Every sequence of the calls that change the tree, from the empty tree on.

* The tree stays a search tree and shows the set of variables that were set and not deleted since
  (`variables_search_tree`).
* What is read is what was set, but for letter case (`setinfo_reads`).  This is said of the buffers `raw` and `safe` and
  of the pointer `val`, which follow the nodes of the model through every history (`buffers_run`).
-/

namespace Nut

open SearchTree SetRuns

/-- A call that changes the tree; `storeflags` is the assignment of `dstate_setflags` to the flags of a variable. -/
inductive StateCall where
  | setinfo (var val : CStr)
  | delinfo (var : CStr)
  | addenum (var val : CStr)
  | delenum (var val : CStr)
  | addrange (var : CStr) (min max : Int32)
  | delrange (var : CStr) (min max : Int32)
  | setaux (var auxs : CStr)
  | setflags (var : CStr) (flag : List CStr)
  | storeflags (var : CStr) (flags : BitVec 32)

namespace StateCall

def run (root : StTree) : StateCall → StTree
  | setinfo var val => (stateSetinfo root var val).1
  | delinfo var => (stateDelinfo root var).1
  | addenum var val => (stateAddenum root var val).1
  | delenum var val => (stateDelenum root var val).1
  | addrange var min max => (stateAddrange root var min max).1
  | delrange var min max => (stateDelrange root var min max).1
  | setaux var auxs => (stateSetaux root var auxs).1
  | setflags var flag => stateSetflags root var flag
  | storeflags var flags =>
    match stateTreeFind root var with
    | none => root
    | some sttmp => stateTreeStore root var { sttmp with flags := flags }

/-- What the call means for the set of variables, whose names are told apart up to letter case. -/
def setOp : StateCall → Option (SetOp CStr)
  | setinfo var _ => some (.insert (tolower var))
  | delinfo var => some (.delete (tolower var))
  | _ => none

end StateCall

/-- The change leaves name and value of a variable alone. -/
structure KeepsReading (f : StNode → StNode) : Prop where
  var : ∀ n, (f n).var = n.var
  raw : ∀ n, (f n).raw = n.raw
  val : ∀ n, (f n).val = n.val

theorem KeepsReading.key {f : StNode → StNode} (h : KeepsReading f) (n : StNode) : nodeKey (f n) = nodeKey n := by
  rw [nodeKey, nodeKey, h.var]

theorem keeps_id : KeepsReading id := ⟨fun _ => rfl, fun _ => rfl, fun _ => rfl⟩
theorem keeps_addEnumTo (enc : CStr) : KeepsReading (addEnumTo enc) := ⟨fun _ => rfl, fun _ => rfl, fun _ => rfl⟩
theorem keeps_delEnumFrom (val : CStr) : KeepsReading (delEnumFrom val) := ⟨fun _ => rfl, fun _ => rfl, fun _ => rfl⟩
theorem keeps_addRangeTo (min max : Int32) : KeepsReading (addRangeTo min max) :=
  ⟨fun _ => rfl, fun _ => rfl, fun _ => rfl⟩
theorem keeps_delRangeFrom (min max : Int32) : KeepsReading (delRangeFrom min max) :=
  ⟨fun _ => rfl, fun _ => rfl, fun _ => rfl⟩
theorem keeps_setAuxOf (aux : Int32) : KeepsReading (setAuxOf aux) := ⟨fun _ => rfl, fun _ => rfl, fun _ => rfl⟩
theorem keeps_setFlagsOf (flags : BitVec 32) : KeepsReading (setFlagsOf flags) := ⟨fun _ => rfl, fun _ => rfl, fun _ => rfl⟩

/-- A call sets a variable, deletes one, or changes one without touching its value. -/
theorem StateCall.run_cases (call : StateCall) (root : StTree) :
    (∃ var val, call = .setinfo var val ∧
      call.run root = upsert nodeKey (tolower var) (setRaw val) (newNode var val) root) ∨
    (∃ var, call = .delinfo var ∧ call.run root = erase nodeKey (tolower var) root) ∨
    call.setOp = none ∧ ∃ k f, KeepsReading f ∧ call.run root = SearchTree.modify nodeKey k f root := by
  cases call with
  | setinfo var val => exact .inl ⟨var, val, rfl, stateSetinfo_fst root var val⟩
  | delinfo var => exact .inr (.inl ⟨var, rfl, stateDelinfo_fst root var⟩)
  | addenum var val => exact .inr (.inr ⟨rfl, _, _, keeps_addEnumTo _, stateAddenum_fst root var val⟩)
  | delenum var val => exact .inr (.inr ⟨rfl, _, _, keeps_delEnumFrom val, stateDelenum_fst root var val⟩)
  | addrange var min max =>
    by_cases hlt : max < min
    · refine .inr (.inr ⟨rfl, tolower var, id, keeps_id, ?_⟩)
      have hsame : SearchTree.modify nodeKey (tolower var) id root = root := modify_eq_self fun a _ => rfl
      rw [hsame, StateCall.run, stateAddrange_fst, if_pos hlt]
    · refine .inr (.inr ⟨rfl, tolower var, addRangeTo min max, keeps_addRangeTo min max, ?_⟩)
      rw [StateCall.run, stateAddrange_fst, if_neg hlt]
  | delrange var min max => exact .inr (.inr ⟨rfl, _, _, keeps_delRangeFrom min max, stateDelrange_fst root var min max⟩)
  | setaux var auxs => exact .inr (.inr ⟨rfl, _, _, keeps_setAuxOf _, stateSetaux_fst root var auxs⟩)
  | setflags var flag => exact .inr (.inr ⟨rfl, _, _, keeps_setFlagsOf _, stateSetflags_eq root var flag⟩)
  | storeflags var flags =>
    refine .inr (.inr ⟨rfl, tolower var, setFlagsOf flags, keeps_setFlagsOf flags, ?_⟩)
    rcases h : stateTreeFind root var with _ | n
    · rw [modify_of_find_none (stateTreeFind_eq root var ▸ h)]
      simp [StateCall.run, h]
    · rw [← stateTreeStore_of_find h]
      simp [StateCall.run, h, setFlagsOf]

/-! ### The search tree -/

section Search

/-- The loop of `st_tree_node_add` gets to the branch of the duplicate. -/
def stTreeNodeAddLoopDuplicate (var : CStr) : StTree → Bool
  | .nil => false
  | .node left node right =>
    match strcasecmp node.var var with
    | .gt => stTreeNodeAddLoopDuplicate var left
    | .lt => stTreeNodeAddLoopDuplicate var right
    | .eq => true

def stTreeNodeAddDuplicate (nptr sptr : StTree) : Bool :=
  match sptr with
  | .nil => false
  | .node _ root _ => stTreeNodeAddLoopDuplicate root.var nptr

/-- `state_delinfo` gets to the branch of the duplicate in `st_tree_node_add`. -/
def stateDelinfoDuplicate : StTree → CStr → Bool
  | .nil, _ => false
  | .node left node right, var =>
    match strcasecmp node.var var with
    | .gt => stateDelinfoDuplicate left var
    | .lt => stateDelinfoDuplicate right var
    | .eq => stTreeNodeAddDuplicate right left

theorem stTreeNodeAddLoopDuplicate_eq (var : CStr) (t : StTree) :
    stTreeNodeAddLoopDuplicate var t = (stateTreeFind t var).isSome := by
  induction t with
  | nil => rfl
  | node left node right ihl ihr =>
    rw [stTreeNodeAddLoopDuplicate, stateTreeFind, ihl, ihr]
    rcases strcasecmp node.var var <;> rfl

/-- In an ordered tree the root of the left subtree is not on the right. -/
theorem stateDelinfoDuplicate_eq {t : StTree} (ht : Ordered nodeKey t) (var : CStr) :
    stateDelinfoDuplicate t var = false := by
  induction t with
  | nil => rfl
  | node left node right ihl ihr =>
    obtain ⟨hl, hr, hlt, hgt⟩ := ordered_node.1 ht
    rw [stateDelinfoDuplicate, ihl hl, ihr hr]
    rcases strcasecmp node.var var
    · rfl
    · cases left with
      | nil => rfl
      | node left' root right' =>
        show stTreeNodeAddLoopDuplicate root.var right = false
        have hroot : nodeKey root < nodeKey node := hlt root (by simp)
        rw [stTreeNodeAddLoopDuplicate_eq, stateTreeFind_eq, Option.isSome_eq_false_iff, Option.isNone_iff_eq_none,
          find_eq_none hr]
        intro n hn
        exact (hroot.trans (hgt n hn)).ne'
    · rfl

theorem StateCall.ordered_run {t : StTree} (ht : Ordered nodeKey t) (call : StateCall) :
    Ordered nodeKey (call.run t) := by
  rcases call.run_cases t with ⟨var, val, -, h⟩ | ⟨var, -, h⟩ | ⟨-, k, f, hf, h⟩
  · rw [h]
    exact ordered_upsert (nodeKey_setRaw val) (nodeKey_newNode var val) ht
  · rw [h]
    exact ordered_erase ht
  · rw [h]
    exact ordered_modify hf.key ht

theorem isSome_modify {f : StNode → StNode} (hf : ∀ n, nodeKey (f n) = nodeKey n) (k k' : CStr) (t : StTree) :
    (find nodeKey k' (SearchTree.modify nodeKey k f t)).isSome = (find nodeKey k' t).isSome := by
  rw [find_modify hf]
  by_cases hk : k' = k
  · rw [if_pos hk, hk, Option.isSome_map]
  · rw [if_neg hk]

/-- A variable is there if the last of the calls that set or delete it sets it. -/
theorem ordered_and_found (calls : List StateCall) :
    Ordered nodeKey (calls.foldl StateCall.run .nil) ∧
    ∀ k, (find nodeKey k (calls.foldl StateCall.run .nil)).isSome ↔ LastInserts (calls.filterMap StateCall.setOp) k := by
  induction calls using List.reverseRecOn with
  | nil => exact ⟨ordered_nil, fun k => iff_of_false (by simp [find_nil]) (lastInserts_nil k)⟩
  | append_singleton calls call ih =>
    obtain ⟨hord, hfound⟩ := ih
    rw [List.foldl_append, List.filterMap_append]
    refine ⟨call.ordered_run hord, fun k => ?_⟩
    show (find nodeKey k (call.run (calls.foldl StateCall.run .nil))).isSome ↔ _
    rcases call.run_cases (calls.foldl StateCall.run .nil) with ⟨var, val, rfl, h⟩ | ⟨var, rfl, h⟩ | ⟨hop, k', f, hf, h⟩
    · rw [h, find_upsert (nodeKey_setRaw val) (nodeKey_newNode var val)]
      show _ ↔ LastInserts (calls.filterMap StateCall.setOp ++ [.insert (tolower var)]) k
      rw [lastInserts_insert, ← hfound]
      by_cases hk : k = tolower var
      · simp [hk]
      · simp [hk, Ne.symm hk]
    · rw [h, find_erase hord]
      show _ ↔ LastInserts (calls.filterMap StateCall.setOp ++ [.delete (tolower var)]) k
      rw [lastInserts_delete, ← hfound]
      by_cases hk : k = tolower var
      · simp [hk]
      · simp [hk, Ne.symm hk]
    · rw [h, isSome_modify hf.key, hfound]
      simp [hop]

/-- The tree after any sequence of calls: the walk from left to right is strictly ascending and consists of the nodes that
are found, each once; a name is found if the last call that set or deleted it set it; a deletion keeps every other node as
it is; and the branch of the duplicate is never reached. -/
theorem variables_search_tree (calls : List StateCall) :
    let t := calls.foldl StateCall.run .nil
    (t.walk.Pairwise fun a b => strcasecmp a.var b.var = .lt) ∧
    (∀ n, n ∈ t.walk ↔ stateTreeFind t n.var = some n) ∧
    t.walk.Nodup ∧
    (∀ var, (stateTreeFind t var).isSome ↔ LastInserts (calls.filterMap StateCall.setOp) (tolower var)) ∧
    (∀ var, (stateDelinfo t var).1.walk = t.walk.filter fun n => strcasecmp n.var var ≠ .eq) ∧
    (∀ var other, strcasecmp other var ≠ .eq → stateTreeFind (stateDelinfo t var).1 other = stateTreeFind t other) ∧
    ∀ var, stateDelinfoDuplicate t var = false := by
  intro t
  obtain ⟨hord, hfound⟩ : Ordered nodeKey t ∧
    ∀ k, (find nodeKey k t).isSome ↔ LastInserts (calls.filterMap StateCall.setOp) k := ordered_and_found calls
  refine ⟨hord.imp fun h => strcasecmp_lt.2 h, fun n => ?_, hord.imp fun h he => ?_, fun var => ?_, fun var => ?_,
    fun var other hne => ?_, stateDelinfoDuplicate_eq hord⟩
  · rw [stateTreeFind_eq, find_eq_some hord]
    exact ⟨fun hn => ⟨hn, rfl⟩, And.left⟩
  · rw [he] at h
    exact lt_irrefl _ h
  · rw [stateTreeFind_eq, hfound]
  · rw [stateDelinfo_fst, walk_erase hord]
    refine List.filter_congr fun n _ => ?_
    rw [decide_eq_decide, ne_eq, ne_eq, strcasecmp_eq]
    rfl
  · rw [stateTreeFind_eq, stateDelinfo_fst, find_erase hord, if_neg fun he => hne (strcasecmp_eq.2 he), stateTreeFind_eq]

end Search

/-! ### The buffers of a value -/

section Buffers

/-- The fields `raw`, `rawsize`, `safe`, `safesize` and `val` of a node; `val` points to `safe` or to `raw`. -/
structure StBuffers where
  raw : CStr
  rawsize : Nat
  safe : CStr
  safesize : Nat
  inSafe : Bool
  deriving DecidableEq

namespace StBuffers

/-- The text behind `val`. -/
def val (b : StBuffers) : CStr := if b.inSafe then b.safe else b.raw

/-- `val_escape`. -/
def escapeVal (b : StBuffers) : StBuffers :=
  let etmp := pconfEncode b.raw stMaxValueLen
  if b.raw = etmp then { b with inSafe := false }
  else
    let safesize := if b.safesize < etmp.length + 1 then etmp.length + 1 else b.safesize
    { b with safesize := safesize, safe := snprintf safesize etmp, inSafe := true }

/-- A new value is stored, in a larger buffer if it needs one. -/
def store (b : StBuffers) (val : CStr) : StBuffers :=
  let rawsize := if b.rawsize < val.length + 1 then val.length + 1 else b.rawsize
  escapeVal { b with rawsize := rawsize, raw := snprintf rawsize val }

def new (val : CStr) : StBuffers :=
  escapeVal { raw := val, rawsize := val.length + 1, safe := [], safesize := 0, inSafe := false }

end StBuffers

/-- The tree together with the buffers of its nodes, by the names in lower case. -/
structure StStore where
  tree : StTree
  buffers : CStr → Option StBuffers

namespace StStore

def empty : StStore := { tree := .nil, buffers := fun _ => none }

/-- What `state_setinfo` makes of the buffers of the variable. -/
def setBuffers (s : StStore) (var val : CStr) : Option StBuffers :=
  match stateTreeFind s.tree var, s.buffers (tolower var) with
  | none, _ => some (.new val)
  | some _, none => none
  | some node, some b =>
    if strcasecmp b.raw val = .eq then some b
    else if node.flags &&& stFlagImmutable ≠ 0 then some b
    else some (b.store val)

def call (s : StStore) (c : StateCall) : StStore :=
  { tree := c.run s.tree
    buffers :=
      match c with
      | .setinfo var val => Function.update s.buffers (tolower var) (s.setBuffers var val)
      | .delinfo var => Function.update s.buffers (tolower var) none
      | _ => s.buffers }

def run (calls : List StateCall) : StStore := calls.foldl call empty

/-- `state_getinfo`: the text behind the pointer `val` of the node that is found. -/
def getinfo (s : StStore) (var : CStr) : Option CStr :=
  match stateTreeFind s.tree var with
  | none => none
  | some _ => (s.buffers (tolower var)).map StBuffers.val

end StStore

/-- The buffers hold the value of the node, and the texts fit in them. -/
structure Holding (b : StBuffers) (n : StNode) : Prop where
  raw : b.raw = n.raw
  val : b.val = n.val
  rawFits : b.raw.length < b.rawsize
  safeFits : b.inSafe = true → b.safe.length < b.safesize

/-- Every node has buffers that hold its value. -/
def Buffered (s : StStore) : Prop :=
  ∀ k, (find nodeKey k s.tree = none ∧ s.buffers k = none) ∨
    ∃ n b, find nodeKey k s.tree = some n ∧ s.buffers k = some b ∧ Holding b n

theorem holding_escapeVal {b : StBuffers} {n : StNode} (hraw : b.raw = n.raw) (hfits : b.raw.length < b.rawsize) :
    Holding b.escapeVal (valEscape n) := by
  unfold StBuffers.escapeVal
  dsimp only
  by_cases h : b.raw = pconfEncode b.raw stMaxValueLen
  · rw [if_pos h]
    exact ⟨by simpa using hraw, by simpa [StBuffers.val, ← hraw] using h, hfits, fun hs => absurd hs (by simp)⟩
  · rw [if_neg h]
    have hroom : (pconfEncode b.raw stMaxValueLen).length <
        if b.safesize < (pconfEncode b.raw stMaxValueLen).length + 1 then (pconfEncode b.raw stMaxValueLen).length + 1
        else b.safesize := by
      split_ifs <;> omega
    have hsafe := snprintf_of_lt hroom
    refine ⟨by simpa using hraw, ?_, hfits, fun _ => ?_⟩
    · simpa [StBuffers.val, ← hraw] using hsafe
    · rw [hsafe]
      exact hroom

theorem holding_new (var val : CStr) : Holding (.new val) (newNode var val) :=
  holding_escapeVal rfl (Nat.lt_succ_self _)

theorem holding_store {b : StBuffers} {n : StNode} (val : CStr) :
    Holding (b.store val) (valEscape { n with raw := val }) := by
  have hroom : val.length < if b.rawsize < val.length + 1 then val.length + 1 else b.rawsize := by
    split_ifs <;> omega
  have hraw := snprintf_of_lt hroom
  refine holding_escapeVal hraw ?_
  rw [hraw]
  exact hroom

theorem Holding.setBuffers {s : StStore} {var val : CStr} {n : StNode} {b : StBuffers} (h : Holding b n)
    (hn : stateTreeFind s.tree var = some n) (hb : s.buffers (tolower var) = some b) :
    ∃ b', s.setBuffers var val = some b' ∧ Holding b' (setRaw val n) := by
  rw [StStore.setBuffers, hn, hb]
  dsimp only
  rw [h.raw]
  by_cases hsame : strcasecmp n.raw val = .eq
  · rw [if_pos hsame, setRaw_of_keeps (by simp [keepsValue, hsame])]
    exact ⟨b, rfl, h⟩
  · rw [if_neg hsame]
    by_cases himm : n.flags &&& stFlagImmutable ≠ 0
    · rw [if_pos himm, setRaw_of_keeps (by simpa [keepsValue] using .inr himm)]
      exact ⟨b, rfl, h⟩
    · rw [if_neg himm, setRaw, if_neg (by simpa [keepsValue, hsame] using himm)]
      exact ⟨_, rfl, holding_store val⟩

theorem Buffered.call {s : StStore} (h : Buffered s) (hord : Ordered nodeKey s.tree) (c : StateCall) :
    Buffered (s.call c) := by
  intro k
  rcases c.run_cases s.tree with ⟨var, val, rfl, hrun⟩ | ⟨var, rfl, hrun⟩ | ⟨hop, k', f, hf, hrun⟩
  · show (find nodeKey k (StateCall.run s.tree (.setinfo var val)) = none ∧ Function.update s.buffers (tolower var) _ k = none) ∨
      ∃ n b, find nodeKey k (StateCall.run s.tree (.setinfo var val)) = some n ∧
        Function.update s.buffers (tolower var) _ k = some b ∧ Holding b n
    rw [hrun, find_upsert (nodeKey_setRaw val) (nodeKey_newNode var val)]
    by_cases hk : k = tolower var
    · subst hk
      rw [if_pos rfl, Function.update_self]
      rcases h (tolower var) with ⟨hn, -⟩ | ⟨n, b, hn, hb, hhold⟩
      · refine .inr ⟨_, .new val, rfl, ?_, ?_⟩
        · rw [StStore.setBuffers, stateTreeFind_eq, hn]
        · rw [hn]
          exact holding_new var val
      · obtain ⟨b', hset, hhold'⟩ := @Holding.setBuffers s var val n b hhold (by rw [stateTreeFind_eq, hn]) hb
        refine .inr ⟨_, b', rfl, hset, ?_⟩
        rw [hn]
        exact hhold'
    · rw [if_neg hk, Function.update_of_ne hk]
      exact h k
  · show (find nodeKey k (StateCall.run s.tree (.delinfo var)) = none ∧ Function.update s.buffers (tolower var) _ k = none) ∨
      ∃ n b, find nodeKey k (StateCall.run s.tree (.delinfo var)) = some n ∧
        Function.update s.buffers (tolower var) _ k = some b ∧ Holding b n
    rw [hrun, find_erase hord]
    by_cases hk : k = tolower var
    · subst hk
      exact .inl ⟨if_pos rfl, Function.update_self _ _ _⟩
    · rw [if_neg hk, Function.update_of_ne hk]
      exact h k
  · have hbuf : (s.call c).buffers = s.buffers := by
      cases c <;> first | rfl | cases hop
    rw [hbuf]
    show (find nodeKey k (c.run s.tree) = none ∧ _) ∨ ∃ n b, find nodeKey k (c.run s.tree) = some n ∧ _
    rw [hrun, find_modify hf.key]
    by_cases hk : k = k'
    · subst hk
      rw [if_pos rfl]
      rcases h k with ⟨hn, hb⟩ | ⟨n, b, hn, hb, hhold⟩
      · exact .inl ⟨by rw [hn]; rfl, hb⟩
      · refine .inr ⟨f n, b, by rw [hn]; rfl, hb, ?_⟩
        exact ⟨by rw [hf.raw, hhold.raw], by rw [hf.val, hhold.val], hhold.rawFits, hhold.safeFits⟩
    · rw [if_neg hk]
      exact h k

theorem tree_run (calls : List StateCall) : (StStore.run calls).tree = calls.foldl StateCall.run .nil := by
  induction calls using List.reverseRecOn with
  | nil => rfl
  | append_singleton calls call ih =>
    rw [StStore.run, List.foldl_append, List.foldl_append, ← ih]
    rfl

/-- The buffers follow the nodes through every history. -/
theorem buffers_run (calls : List StateCall) : Buffered (StStore.run calls) := by
  induction calls using List.reverseRecOn with
  | nil => exact fun k => .inl ⟨rfl, rfl⟩
  | append_singleton calls call ih =>
    have hord : Ordered nodeKey (StStore.run calls).tree := by
      rw [tree_run]
      exact (ordered_and_found calls).1
    rw [StStore.run, List.foldl_append]
    exact ih.call hord call

/-- What is read is the value of the node. -/
theorem Buffered.getinfo {s : StStore} (h : Buffered s) (var : CStr) : s.getinfo var = stateGetinfo s.tree var := by
  rw [StStore.getinfo, stateGetinfo, stateTreeFind_eq]
  rcases h (tolower var) with ⟨hn, -⟩ | ⟨n, b, hn, hb, hhold⟩
  · rw [hn]
    rfl
  · rw [hn, hb]
    exact congrArg some hhold.val

/-- The value of a node is its encoded raw value. -/
theorem encoded_run (calls : List StateCall) :
    Holds (fun n => n.val = pconfEncode n.raw stMaxValueLen) (calls.foldl StateCall.run .nil) := by
  induction calls using List.reverseRecOn with
  | nil => exact holds_nil
  | append_singleton calls call ih =>
    rw [List.foldl_append]
    show Holds _ (call.run (calls.foldl StateCall.run .nil))
    rcases call.run_cases (calls.foldl StateCall.run .nil) with ⟨var, val, -, h⟩ | ⟨var, -, h⟩ | ⟨-, k, f, hf, h⟩
    · rw [h]
      refine ih.upsert (fun n hn => ?_) (by simp)
      unfold setRaw
      split
      · exact hn
      · simp
    · rw [h]
      exact ih.erase
    · rw [h]
      exact ih.modify fun n hn => by rw [hf.raw, hf.val, hn]

/-- The variable holds the value already, as `state_setinfo` compares values. -/
def HoldsValue (root : StTree) (var val : CStr) : Prop :=
  ∃ n, stateTreeFind root var = some n ∧ strcasecmp n.raw val = .eq

/-- After any history, setting a variable that is not immutable to a value that is short enough: what is read is the encoded
value, except that a value equal to the one held up to letter case changes nothing; the result says whether it did, which
is whether the value read changed if the one held was short enough too; and every other variable is unchanged. -/
theorem setinfo_reads (calls : List StateCall) (var val : CStr) (hval : (escape val).length < stMaxValueLen)
    (hmut : ∀ n, stateTreeFind (StStore.run calls).tree var = some n → n.flags &&& stFlagImmutable = 0) :
    let s := StStore.run calls
    let s' := s.call (.setinfo var val)
    let ret := (stateSetinfo s.tree var val).2
    (¬HoldsValue s.tree var val → s'.getinfo var = some (pconfEncode val stMaxValueLen) ∧ ret = true) ∧
    (HoldsValue s.tree var val → s'.getinfo var = s.getinfo var ∧ ret = false) ∧
    ((∀ n, stateTreeFind s.tree var = some n → (escape n.raw).length < stMaxValueLen) →
      (ret = true ↔ stateTreeFind s.tree var = none ∨ s'.getinfo var ≠ s.getinfo var)) ∧
    ∀ other, strcasecmp other var ≠ .eq →
      stateTreeFind s'.tree other = stateTreeFind s.tree other ∧ s'.getinfo other = s.getinfo other := by
  intro s s' ret
  have hord : Ordered nodeKey s.tree := by
    rw [show s.tree = calls.foldl StateCall.run .nil from tree_run calls]
    exact (ordered_and_found calls).1
  have hencoded : ∀ n, stateTreeFind s.tree var = some n → n.val = pconfEncode n.raw stMaxValueLen := by
    intro n hn
    rw [show s.tree = calls.foldl StateCall.run .nil from tree_run calls, stateTreeFind_eq] at hn
    exact (encoded_run calls).find hn
  have hbuf : Buffered s := buffers_run calls
  have hbuf' : Buffered s' := hbuf.call hord _
  have hfind : ∀ other, stateTreeFind s'.tree other =
      if tolower other = tolower var then some ((stateTreeFind s.tree var).elim (newNode var val) (setRaw val))
      else stateTreeFind s.tree other := by
    intro other
    show stateTreeFind (stateSetinfo s.tree var val).1 other = _
    rw [stateSetinfo_fst, stateTreeFind_eq, stateTreeFind_eq, stateTreeFind_eq,
      find_upsert (nodeKey_setRaw val) (nodeKey_newNode var val)]
    by_cases hk : tolower other = tolower var
    · rw [if_pos hk, if_pos hk]
    · rw [if_neg hk, if_neg hk]
  have hread : s'.getinfo var = some ((stateTreeFind s.tree var).elim (newNode var val) (setRaw val)).val := by
    rw [hbuf'.getinfo, stateGetinfo, hfind, if_pos rfl, Option.map_some]
  have hread₀ : s.getinfo var = (stateTreeFind s.tree var).map StNode.val := by rw [hbuf.getinfo, stateGetinfo]
  have hret : ret = (stateTreeFind s.tree var).elim true fun n => !keepsValue val n := stateSetinfo_snd s.tree var val
  refine ⟨fun hnew => ?_, ?_, fun hfits => ?_, fun other hne => ?_⟩
  · rw [hread, hret]
    rcases hn : stateTreeFind s.tree var with _ | n
    · exact ⟨by simp, rfl⟩
    · have hkeep : keepsValue val n = false := by
        have hcase : strcasecmp n.raw val ≠ .eq := fun h => hnew ⟨n, hn, h⟩
        simp [keepsValue, hcase, hmut n hn]
      exact ⟨by simp [setRaw, hkeep], by simp [hkeep]⟩
  · rintro ⟨n, hn, hcase⟩
    have hkeep : keepsValue val n = true := by simp [keepsValue, hcase]
    rw [hread, hread₀, hret, hn]
    exact ⟨by simp [setRaw_of_keeps hkeep], by simp [hkeep]⟩
  · rw [hread, hread₀, hret]
    rcases hn : stateTreeFind s.tree var with _ | n
    · simp
    · by_cases hcase : strcasecmp n.raw val = .eq
      · have hkeep : keepsValue val n = true := by simp [keepsValue, hcase]
        simp [hkeep, setRaw_of_keeps hkeep]
      · have hkeep : keepsValue val n = false := by simp [keepsValue, hcase, hmut n hn]
        -- both values are encoded in full, so that their encodings differ
        have hdiffer : pconfEncode val stMaxValueLen ≠ n.val := by
          rw [hencoded n hn, pconfEncode_fits hval, pconfEncode_fits (hfits n hn)]
          intro he
          rw [escape_injective he] at hcase
          exact hcase (strcasecmp_self _)
        simp [setRaw, hkeep, hdiffer]
  · have hk : tolower other ≠ tolower var := fun he => hne (strcasecmp_eq.2 he)
    have hsame : stateTreeFind s'.tree other = stateTreeFind s.tree other := by rw [hfind, if_neg hk]
    refine ⟨hsame, ?_⟩
    rw [hbuf'.getinfo, hbuf.getinfo, stateGetinfo, stateGetinfo, hsame]

/-- A variable that was set twice, and another. -/
def setCalls : List StateCall :=
  [.setinfo "ups.id".toList "a".toList, .setinfo "battery.charge".toList "100".toList,
    .setflags "ups.id".toList ["RW".toList], .setinfo "ups.id".toList "b".toList]

/-- The third value of a variable. -/
theorem setinfo_reads_changed :
    let s := StStore.run setCalls
    let s' := s.call (.setinfo "ups.id".toList "b\"c".toList)
    s.getinfo "ups.id".toList = some "b".toList ∧ s'.getinfo "ups.id".toList = some "b\\\"c".toList ∧
      (stateSetinfo s.tree "ups.id".toList "b\"c".toList).2 = true ∧
      stateTreeFind s'.tree "battery.charge".toList = stateTreeFind s.tree "battery.charge".toList ∧
      s'.getinfo "battery.charge".toList = s.getinfo "battery.charge".toList := by
  have hnode : (stateTreeFind (StStore.run setCalls).tree "ups.id".toList).map (fun n => (n.raw, n.flags &&& stFlagImmutable)) =
      some ("b".toList, 0) := by decide +kernel
  obtain ⟨n, hn, hnode⟩ := Option.map_eq_some_iff.1 hnode
  obtain ⟨hraw, hflags⟩ := Prod.mk.inj hnode
  have hmut : ∀ m, stateTreeFind (StStore.run setCalls).tree "ups.id".toList = some m → m.flags &&& stFlagImmutable = 0 := by
    intro m hm
    rw [← Option.some.inj (hn.symm.trans hm)]
    exact hflags
  have hnew : ¬HoldsValue (StStore.run setCalls).tree "ups.id".toList "b\"c".toList := by
    rintro ⟨m, hm, hcase⟩
    rw [← Option.some.inj (hn.symm.trans hm), hraw] at hcase
    exact absurd hcase (by decide)
  obtain ⟨hchanged, -, -, hothers⟩ :=
    setinfo_reads setCalls "ups.id".toList "b\"c".toList (by decide +kernel) hmut
  obtain ⟨hread, hret⟩ := hchanged hnew
  obtain ⟨hfind, hget⟩ := hothers "battery.charge".toList (by decide)
  exact ⟨by decide +kernel, hread.trans (by decide +kernel), hret, hfind, hget⟩

/-- A value that differs in letter case only is not taken. -/
theorem setinfo_case_kept :
    let s := StStore.run [.setinfo "ups.id".toList "abc".toList]
    (s.call (.setinfo "ups.id".toList "ABC".toList)).getinfo "ups.id".toList ≠
      some (pconfEncode "ABC".toList stMaxValueLen) := by
  decide +kernel

end Buffers

end Nut
