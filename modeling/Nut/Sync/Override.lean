import Nut.Common.Variables
import Nut.Drivers.Main
import Nut.Sync.Calls

/-!
# Overrides

A setting `override.X = v` of `ups.conf` sets the variable and makes it immutable.  Of the calls of the driver only
`dstate_delinfo` does not look at that flag, so the value stays exactly as long as the variable is not deleted
(`override_kept_iff`).
-/

namespace Nut

open SearchTree Transition

/-- The change touches neither name nor value of a variable, nor the flags of an immutable one. -/
structure KeepsImmutable (f : StNode → StNode) : Prop extends KeepsReading f where
  flags : ∀ n, n.flags &&& stFlagImmutable ≠ 0 → (f n).flags = n.flags

/-- What `dstate_setflags` does to a variable. -/
def setFlagsUnless (flags : BitVec 32) (n : StNode) : StNode :=
  if n.flags &&& stFlagImmutable ≠ 0 then n else { n with flags := flags }

theorem keepsImmutable_setFlagsUnless (flags : BitVec 32) : KeepsImmutable (setFlagsUnless flags) := by
  refine ⟨⟨fun n => ?_, fun n => ?_, fun n => ?_⟩, fun n hn => by rw [setFlagsUnless, if_pos hn]⟩ <;>
    (unfold setFlagsUnless; split_ifs <;> rfl)

theorem dtreeRoot_setflags (w : Nat → Bool) (d : Dstate) (var : CStr) (flags : BitVec 32) :
    (dstateSetflags w d var flags).dtreeRoot =
      SearchTree.modify nodeKey (tolower var) (setFlagsUnless flags) d.dtreeRoot := by
  have hsame : ∀ n, stateTreeFind d.dtreeRoot var = some n → setFlagsUnless flags n = n →
      SearchTree.modify nodeKey (tolower var) (setFlagsUnless flags) d.dtreeRoot = d.dtreeRoot := by
    intro n hn he
    refine modify_eq_self fun a ha => ?_
    rw [← stateTreeFind_eq, hn] at ha
    rw [← Option.some.inj ha, he]
  unfold dstateSetflags
  rcases hn : stateTreeFind d.dtreeRoot var with _ | n
  · rw [modify_of_find_none (stateTreeFind_eq d.dtreeRoot var ▸ hn)]
  · dsimp only
    by_cases himm : n.flags &&& stFlagImmutable ≠ 0
    · rw [if_pos himm, hsame n hn (if_pos himm)]
    · rw [if_neg himm]
      by_cases heq : n.flags = flags
      · rw [if_pos heq, hsame n hn (by rw [setFlagsUnless, if_neg himm, ← heq])]
      · rw [if_neg heq, sendToAll_dtreeRoot, ← stateTreeStore_of_find hn, setFlagsUnless, if_neg himm]

theorem dtreeRoot_setaux (w : Nat → Bool) (d : Dstate) (var : CStr) (aux : Int32) :
    (dstateSetaux w d var aux).dtreeRoot = SearchTree.modify nodeKey (tolower var) (setAuxOf aux) d.dtreeRoot := by
  unfold dstateSetaux
  rcases hn : stateTreeFind d.dtreeRoot var with _ | n
  · rw [modify_of_find_none (stateTreeFind_eq d.dtreeRoot var ▸ hn)]
  · dsimp only
    by_cases heq : n.aux = aux
    · rw [if_pos heq]
      refine (modify_eq_self fun a ha => ?_).symm
      rw [← stateTreeFind_eq, hn] at ha
      rw [← Option.some.inj ha, setAuxOf, ← heq]
    · rw [if_neg heq, sendToAll_dtreeRoot, ← stateTreeStore_of_find hn, setAuxOf]

theorem dtreeRoot_setinfo (w : Nat → Bool) (d : Dstate) (var text : CStr) :
    (dstateSetinfo w d var text).1.dtreeRoot =
      upsert nodeKey (tolower var) (setRaw (snprintf stMaxValueLen text)) (newNode var (snprintf stMaxValueLen text))
        d.dtreeRoot := by
  rw [← stateSetinfo_fst]
  unfold dstateSetinfo
  dsimp only
  split
  · rw [sendToAll_dtreeRoot]
  · rfl

theorem dtreeRoot_delinfo (w : Nat → Bool) (d : Dstate) (var : CStr) :
    (dstateDelinfo w d var).1.dtreeRoot = erase nodeKey (tolower var) d.dtreeRoot := by
  rw [← stateDelinfo_fst]
  unfold dstateDelinfo
  dsimp only
  split
  · rw [sendToAll_dtreeRoot]
  · rfl

theorem find_setinfo_of_ne {w : Nat → Bool} {d : Dstate} {var v text : CStr} (h : tolower v ≠ tolower var) :
    stateTreeFind (dstateSetinfo w d var text).1.dtreeRoot v = stateTreeFind d.dtreeRoot v := by
  rw [dtreeRoot_setinfo, stateTreeFind_eq, stateTreeFind_eq, find_upsert_of_ne (nodeKey_setRaw _) (nodeKey_newNode _ _) h]

theorem find_delinfo {w : Nat → Bool} {d : Dstate} (hd : Ordered nodeKey d.dtreeRoot) (var v : CStr) :
    stateTreeFind (dstateDelinfo w d var).1.dtreeRoot v =
      if tolower v = tolower var then none else stateTreeFind d.dtreeRoot v := by
  rw [dtreeRoot_delinfo, stateTreeFind_eq, stateTreeFind_eq, find_erase hd]
  by_cases h : tolower v = tolower var
  · rw [if_pos h, if_pos h]
  · rw [if_neg h, if_neg h]

theorem ordered_setinfo {w : Nat → Bool} {d : Dstate} (hd : Ordered nodeKey d.dtreeRoot) (var text : CStr) :
    Ordered nodeKey (dstateSetinfo w d var text).1.dtreeRoot := by
  rw [dtreeRoot_setinfo]
  exact ordered_upsert (nodeKey_setRaw _) (nodeKey_newNode _ _) hd

/-- The variable has the value, and the others are as they were. -/
structure VarSet (root root' : StTree) (varname value : CStr) : Prop where
  value : ∃ n, stateTreeFind root' varname = some n ∧ n.raw = value
  others : ∀ v, tolower v ≠ tolower varname → stateTreeFind root' v = stateTreeFind root v

/-- A change that keeps names and values. -/
theorem VarSet.modify {root root' : StTree} {varname value : CStr} (h : VarSet root root' varname value) {f : StNode → StNode} (hf : KeepsReading f) :
    VarSet root (SearchTree.modify nodeKey (tolower varname) f root') varname value where
  value := by
    obtain ⟨n, hn, hraw⟩ := h.value
    refine ⟨f n, ?_, (hf.raw n).trans hraw⟩
    rw [stateTreeFind_eq] at hn ⊢
    rw [find_modify_self hf.key, hn]
    rfl
  others v hv := by
    rw [stateTreeFind_eq, find_modify_of_ne hf.key hv, ← stateTreeFind_eq]
    exact h.others v hv

/-- `dstate_setinfo` sets a variable that does not keep another value. -/
theorem varSet_setinfo {w : Nat → Bool} {d : Dstate} {varname value : CStr} (hlen : value.length < stMaxValueLen)
    (hfree : ∀ n, stateTreeFind d.dtreeRoot varname = some n →
      n.raw = value ∨ strcasecmp n.raw value ≠ .eq ∧ n.flags &&& stFlagImmutable = 0) :
    VarSet d.dtreeRoot (dstateSetinfo w d varname value).1.dtreeRoot varname value where
  value := by
    rw [dtreeRoot_setinfo, stateTreeFind_eq, find_upsert_self (nodeKey_setRaw _) (nodeKey_newNode _ _), snprintf_of_lt hlen]
    refine ⟨_, rfl, ?_⟩
    rw [stateTreeFind_eq] at hfree
    cases hfind : find nodeKey (tolower varname) d.dtreeRoot with
    | none => exact newNode_raw varname value
    | some n =>
      rcases hfree n hfind with hraw | ⟨hcase, himm⟩
      · have hkeeps : keepsValue value n = true := by simp [keepsValue, hraw]
        exact (congrArg StNode.raw (setRaw_of_keeps hkeeps)).trans hraw
      · exact setRaw_raw (by simp [keepsValue, hcase, himm])
  others v hv := find_setinfo_of_ne hv

/-- The call deletes the variable. -/
def Call.Deletes (var : CStr) (c : Call) : Prop := ∃ name, c = .struct (.delinfo name) ∧ strcasecmp name var = .eq

/-- A call sets a variable, deletes one, or changes one that keeps its value, and its flags if it is immutable. -/
theorem Call.tree_cases (w : Nat → Bool) (d : Dstate) (c : Call) :
    (∃ var val, (c.run w d).dtreeRoot = upsert nodeKey (tolower var) (setRaw val) (newNode var val) d.dtreeRoot) ∨
    (∃ var, c = .struct (.delinfo var) ∧ (c.run w d).dtreeRoot = erase nodeKey (tolower var) d.dtreeRoot) ∨
    ∃ k f, KeepsImmutable f ∧ (c.run w d).dtreeRoot = SearchTree.modify nodeKey k f d.dtreeRoot := by
  have hid : ∀ d' : Dstate, d'.dtreeRoot = d.dtreeRoot → ∃ k f, KeepsImmutable f ∧
      d'.dtreeRoot = SearchTree.modify nodeKey k f d.dtreeRoot := by
    intro d' h
    exact ⟨[], id, ⟨keeps_id, fun _ _ => rfl⟩, h.trans (modify_eq_self fun _ _ => rfl).symm⟩
  have hsend : ∀ (d₁ : Dstate) (ret : Bool) (text : CStr),
      (if ret then sendToAll w d₁ text else d₁).dtreeRoot = d₁.dtreeRoot := by
    intro d₁ ret text
    cases ret <;> simp
  cases c with
  | value op =>
    cases op with
    | setinfo var value =>
      refine .inl ⟨var, snprintf stMaxValueLen value, ?_⟩
      rw [← stateSetinfo_fst]
      exact hsend _ _ _
    | addenum var value =>
      let enc := pconfEncode (snprintf stMaxValueLen value) stMaxValueLen
      refine .inr (.inr ⟨tolower var, addEnumTo enc, ⟨keeps_addEnumTo enc, fun _ _ => rfl⟩, ?_⟩)
      rw [← stateAddenum_fst]
      exact hsend _ _ _
    | delenum var value =>
      refine .inr (.inr ⟨tolower var, delEnumFrom value, ⟨keeps_delEnumFrom _, fun _ _ => rfl⟩, ?_⟩)
      rw [← stateDelenum_fst]
      exact hsend _ _ _
  | struct op =>
    cases op with
    | setflags var flags =>
      exact .inr (.inr ⟨_, _, keepsImmutable_setFlagsUnless flags, dtreeRoot_setflags w d var flags⟩)
    | setaux var aux => exact .inr (.inr ⟨_, _, ⟨keeps_setAuxOf aux, fun _ _ => rfl⟩, dtreeRoot_setaux w d var aux⟩)
    | addrange var min max =>
      have htree : (Call.run w d (.struct (.addrange var min max))).dtreeRoot = (stateAddrange d.dtreeRoot var min max).1 :=
        hsend _ _ _
      rw [stateAddrange_fst] at htree
      by_cases hlt : max < min
      · rw [if_pos hlt] at htree
        exact .inr (.inr (hid _ htree))
      · rw [if_neg hlt] at htree
        exact .inr (.inr ⟨_, _, ⟨keeps_addRangeTo min max, fun _ _ => rfl⟩, htree⟩)
    | delrange var min max =>
      refine .inr (.inr ⟨tolower var, delRangeFrom min max, ⟨keeps_delRangeFrom _ _, fun _ _ => rfl⟩, ?_⟩)
      rw [← stateDelrange_fst]
      exact hsend _ _ _
    | addcmd cmd => exact .inr (.inr (hid _ (hsend _ _ _)))
    | delcmd cmd => exact .inr (.inr (hid _ (hsend _ _ _)))
    | delinfo var =>
      refine .inr (.inl ⟨var, rfl, ?_⟩)
      rw [← stateDelinfo_fst]
      exact hsend _ _ _
  | dataok =>
    refine .inr (.inr (hid _ ?_))
    show (dstateDataok w d).dtreeRoot = _
    unfold dstateDataok
    split <;> simp
  | datastale =>
    refine .inr (.inr (hid _ ?_))
    show (dstateDatastale w d).dtreeRoot = _
    unfold dstateDatastale
    split <;> simp

/-- The tree of a driver: in order, and every value is the encoded raw value. -/
structure TreeFit (d : Dstate) : Prop where
  ordered : Ordered nodeKey d.dtreeRoot
  encoded : Holds (fun n => n.val = pconfEncode n.raw stMaxValueLen) d.dtreeRoot

theorem TreeFit.call {d : Dstate} (h : TreeFit d) (w : Nat → Bool) (c : Call) : TreeFit (c.run w d) := by
  rcases c.tree_cases w d with ⟨var, val, ht⟩ | ⟨var, -, ht⟩ | ⟨k, f, hf, ht⟩
  · refine ⟨?_, ?_⟩
    · rw [ht]
      exact ordered_upsert (nodeKey_setRaw val) (nodeKey_newNode var val) h.ordered
    · rw [ht]
      refine h.encoded.upsert (fun n hn => ?_) (by simp)
      unfold setRaw
      split
      · exact hn
      · simp
  · refine ⟨?_, ?_⟩
    · rw [ht]
      exact ordered_erase h.ordered
    · rw [ht]
      exact h.encoded.erase
  · refine ⟨?_, ?_⟩
    · rw [ht]
      exact ordered_modify hf.key h.ordered
    · rw [ht]
      exact h.encoded.modify fun n hn => by rw [hf.raw, hf.val, hn]

theorem Reachable.treeFit {P : Call → Prop} {w : Nat → Bool} {d : Dstate} (h : Reachable P w d) : TreeFit d := by
  refine Reach.invariant h (fun s hs => hs ▸ ⟨ordered_nil, holds_nil⟩) fun s s' hs hstep => ?_
  cases hstep with
  | call c hc => exact hs.call w c
  | accept fd => exact ⟨hs.ordered, hs.encoded⟩
  | disconnect fd => exact ⟨hs.ordered, hs.encoded⟩

/-- The variable is there, cannot be changed, and has the value `e`. -/
def Fixed (d : Dstate) (var e : CStr) : Prop :=
  ∃ n, stateTreeFind d.dtreeRoot var = some n ∧ n.flags &&& stFlagImmutable ≠ 0 ∧ n.val = e

/-- Every call but its deletion leaves an immutable variable alone. -/
theorem Fixed.call {d : Dstate} {var e : CStr} (h : Fixed d var e) (hd : TreeFit d) (w : Nat → Bool) {c : Call}
    (hc : ¬c.Deletes var) : Fixed (c.run w d) var e := by
  obtain ⟨n, hn, himm, hval⟩ := h
  unfold Fixed
  rw [stateTreeFind_eq] at hn ⊢
  rcases c.tree_cases w d with ⟨name, val, ht⟩ | ⟨name, rfl, ht⟩ | ⟨k, f, hf, ht⟩
  · rw [ht, find_upsert (nodeKey_setRaw val) (nodeKey_newNode name val)]
    by_cases hk : tolower var = tolower name
    · rw [if_pos hk, ← hk, hn]
      refine ⟨n, ?_, himm, hval⟩
      rw [Option.elim_some, setRaw_of_keeps (by simpa [keepsValue] using .inr himm)]
    · rw [if_neg hk]
      exact ⟨n, hn, himm, hval⟩
  · have hk : tolower var ≠ tolower name := fun he => hc ⟨name, rfl, strcasecmp_eq.2 he.symm⟩
    rw [ht, find_erase hd.ordered, if_neg hk]
    exact ⟨n, hn, himm, hval⟩
  · rw [ht, find_modify hf.key]
    by_cases hk : tolower var = k
    · rw [if_pos hk, ← hk, hn]
      exact ⟨f n, rfl, by rwa [hf.flags n himm], by rw [hf.val, hval]⟩
    · rw [if_neg hk]
      exact ⟨n, hn, himm, hval⟩

/-- The setting takes effect: its value fits, and the variable does not exist, has that value, or is neither immutable nor
equal to it up to letter case. -/
def TakesEffect (d : Dstate) (var v : CStr) : Prop :=
  (escape v).length < stMaxValueLen ∧ ∀ n, stateTreeFind d.dtreeRoot var = some n →
    n.val = escape v ∨ n.flags &&& stFlagImmutable = 0 ∧ strcasecmp n.raw v ≠ .eq

/-- The driver after the setting. -/
def overridden (w : Nat → Bool) (d : Dstate) (var v : CStr) : Dstate :=
  dstateSetflags w (dstateSetinfo w d var v).1 var stFlagImmutable

/-- The setting reaches `storeval`. -/
theorem doUpsconfArgs_override {w : Nat → Bool} {vartab : Dstate → CStr → Option CStr → Option Dstate}
    {upsname progname setting v : CStr} {d : Dstate} (hset : strncasecmp setting "override.".toList 9 = .eq) :
    Main.doUpsconfArgs w vartab upsname progname d (some upsname) setting (some v) =
      some (overridden w d (setting.drop 9) v) := by
  have hne : ∀ name : CStr, strncasecmp name "override.".toList 9 ≠ .eq → setting ≠ name := by
    rintro name hname rfl
    exact hname hset
  have hmain : mainArg w d setting (some v) = (d, false) := by
    unfold mainArg
    dsimp only
    rw [if_neg (hne _ (by decide)), if_neg (hne _ (by decide)), if_neg (hne _ (by decide)), if_neg (hne _ (by decide)),
      if_neg (hne _ (by decide)), if_neg (hne _ (by decide))]
  unfold Main.doUpsconfArgs
  dsimp only
  rw [if_neg (fun h => h rfl), hmain]
  dsimp only
  rw [if_neg (hne _ (by decide)), if_neg (hne _ (by decide)), storeval, if_pos hset]
  rfl

/-- Afterwards the variable is fixed, with the value that `state_setinfo` left. -/
theorem fixed_overridden (w : Nat → Bool) (d : Dstate) (var v : CStr) :
    Fixed (overridden w d var v) var
      ((stateTreeFind d.dtreeRoot var).elim (newNode var (snprintf stMaxValueLen v))
        (setRaw (snprintf stMaxValueLen v))).val := by
  have hset : (dstateSetinfo w d var v).1.dtreeRoot = upsert nodeKey (tolower var) (setRaw (snprintf stMaxValueLen v))
      (newNode var (snprintf stMaxValueLen v)) d.dtreeRoot := by
    rw [← stateSetinfo_fst]
    unfold dstateSetinfo
    dsimp only
    split <;> simp
  unfold Fixed
  rw [overridden, dtreeRoot_setflags, hset, stateTreeFind_eq, stateTreeFind_eq,
    find_modify_self (keepsImmutable_setFlagsUnless _).key,
    find_upsert_self (nodeKey_setRaw _) (nodeKey_newNode var _), Option.map_some]
  refine ⟨_, rfl, ?_, (keepsImmutable_setFlagsUnless _).val _⟩
  unfold setFlagsUnless
  split_ifs with himm
  · exact himm
  · show stFlagImmutable &&& stFlagImmutable ≠ 0
    decide

theorem length_pconfEncode_lt (v : CStr) : (pconfEncode v stMaxValueLen).length < stMaxValueLen := by
  obtain ⟨k, hk, hlen, -⟩ := pconfEncode_take v (by decide : 2 ≤ stMaxValueLen)
  rwa [hk]

/-- The value left is that of the setting exactly if the setting takes effect. -/
theorem takesEffect_iff {d : Dstate} (hd : TreeFit d) (var v : CStr) :
    ((stateTreeFind d.dtreeRoot var).elim (newNode var (snprintf stMaxValueLen v))
      (setRaw (snprintf stMaxValueLen v))).val = escape v ↔ TakesEffect d var v := by
  have hwhole : (escape v).length < stMaxValueLen → snprintf stMaxValueLen v = v := fun h =>
    snprintf_of_lt (Nat.lt_of_le_of_lt (length_le_escape v) h)
  have hnew : (pconfEncode (snprintf stMaxValueLen v) stMaxValueLen = escape v) ↔ (escape v).length < stMaxValueLen := by
    constructor
    · intro h
      rw [← h]
      exact length_pconfEncode_lt _
    · intro h
      rw [hwhole h, pconfEncode_fits h]
  rcases hn : stateTreeFind d.dtreeRoot var with _ | n
  · rw [Option.elim_none, newNode_val, hnew, TakesEffect, hn]
    simp
  · have hval : n.val = pconfEncode n.raw stMaxValueLen := hd.encoded.find (stateTreeFind_eq d.dtreeRoot var ▸ hn)
    rw [Option.elim_some, TakesEffect, hn]
    simp only [Option.some.injEq, forall_eq']
    constructor
    · intro h
      rcases hkeep : keepsValue (snprintf stMaxValueLen v) n with _ | _
      · have hfits : (escape v).length < stMaxValueLen := by
          rw [← hnew, ← h]
          simp [setRaw, hkeep]
        rw [hwhole hfits] at hkeep
        refine ⟨hfits, .inr ?_⟩
        simp only [keepsValue, Bool.or_eq_false_iff, decide_eq_false_iff_not, not_not] at hkeep
        exact ⟨hkeep.2, hkeep.1⟩
      · rw [setRaw_of_keeps hkeep] at h
        refine ⟨?_, .inl h⟩
        rw [← h, hval]
        exact length_pconfEncode_lt _
    · rintro ⟨hfits, h⟩
      rw [hwhole hfits]
      rcases hkeep : keepsValue v n with _ | _
      · simp [setRaw, hkeep, pconfEncode_fits hfits]
      · rw [setRaw_of_keeps hkeep]
        rcases h with h | ⟨hmut, hcase⟩
        · exact h
        · simp [keepsValue, hmut, hcase] at hkeep

theorem treeFit_overridden {d : Dstate} (hd : TreeFit d) (w : Nat → Bool) (var v : CStr) :
    TreeFit (overridden w d var v) :=
  (hd.call w (.value (.setinfo var v))).call w (.struct (.setflags var stFlagImmutable))

theorem Fixed.run {d : Dstate} {var e : CStr} (h : Fixed d var e) (hd : TreeFit d) (w : Nat → Bool) {calls : List Call}
    (hcalls : ∀ c ∈ calls, ¬c.Deletes var) : Fixed (calls.foldl (Call.run w) d) var e := by
  induction calls generalizing d with
  | nil => exact h
  | cons c calls ih =>
    exact ih (h.call hd w (hcalls c (by simp))) (hd.call w c) fun c' hc' => hcalls c' (by simp [hc'])

theorem treeFit_run {d : Dstate} (hd : TreeFit d) (w : Nat → Bool) (calls : List Call) :
    TreeFit (calls.foldl (Call.run w) d) := by
  induction calls generalizing d with
  | nil => exact hd
  | cons c calls ih => exact ih (hd.call w c)

/-- After its deletion the variable has no value. -/
theorem getinfo_of_deletes {d : Dstate} {var : CStr} (hd : TreeFit d) (w : Nat → Bool) {c : Call} (hc : c.Deletes var) :
    dstateGetinfo (c.run w d) var = none := by
  obtain ⟨name, rfl, hcase⟩ := hc
  have htree : (Call.run w d (.struct (.delinfo name))).dtreeRoot = erase nodeKey (tolower name) d.dtreeRoot := by
    rw [← stateDelinfo_fst]
    show (dstateDelinfo w d name).1.dtreeRoot = _
    unfold dstateDelinfo
    dsimp only
    split <;> simp
  rw [dstateGetinfo, stateGetinfo, stateTreeFind_eq, htree, find_erase hd.ordered, if_pos (strcasecmp_eq.1 hcase).symm]
  rfl

/-- A setting `override.X = v` in the section of the UPS, in any state of the driver: the value published for `X` is `v`
after every sequence of calls exactly if the setting takes effect and none of the calls deletes the variable. -/
theorem override_kept_iff {P : Call → Prop} {w : Nat → Bool} {d : Dstate} (hd : Reachable P w d)
    (vartab : Dstate → CStr → Option CStr → Option Dstate) (upsname progname : CStr) {setting : CStr}
    (hset : strncasecmp setting "override.".toList 9 = .eq) (v : CStr) (calls : List Call) :
    ∃ d', Main.doUpsconfArgs w vartab upsname progname d (some upsname) setting (some v) = some d' ∧
      ((∀ before, before <+: calls →
          dstateGetinfo (before.foldl (Call.run w) d') (setting.drop 9) = some (escape v)) ↔
        TakesEffect d (setting.drop 9) v ∧ ∀ c ∈ calls, ¬c.Deletes (setting.drop 9)) := by
  refine ⟨_, doUpsconfArgs_override hset, ?_⟩
  have hfixed := fixed_overridden w d (setting.drop 9) v
  have hread : ∀ (d : Dstate) (var e : CStr), Fixed d var e → dstateGetinfo d var = some e := by
    rintro d var e ⟨n, hn, -, rfl⟩
    rw [dstateGetinfo, stateGetinfo, hn]
    rfl
  have hfit := treeFit_overridden hd.treeFit w (setting.drop 9) v
  rw [← takesEffect_iff hd.treeFit]
  constructor
  · intro h
    refine ⟨?_, fun c hc hdel => ?_⟩
    · have hnow := h [] (by simp)
      rw [List.foldl_nil, hread _ _ _ hfixed] at hnow
      exact Option.some.inj hnow
    · obtain ⟨before, after, rfl⟩ := List.append_of_mem hc
      have hthen := h (before ++ [c]) ⟨after, by simp⟩
      rw [List.foldl_append, List.foldl_cons, List.foldl_nil, getinfo_of_deletes (treeFit_run hfit w before) w hdel] at hthen
      exact absurd hthen (by simp)
  · rintro ⟨heffect, hnodel⟩ before hpre
    rw [heffect] at hfixed
    exact hread _ _ _ (hfixed.run hfit w fun c hc => hnodel c (hpre.subset hc))

theorem override_kept_first :
    ∃ d', Main.doUpsconfArgs (fun _ => true) (fun d _ _ => some d) "su".toList "dummy-ups".toList .init (some "su".toList)
        "override.ups.id".toList (some "a".toList) = some d' ∧
      ((∀ before, before <+: [Call.value (.setinfo "ups.id".toList "b".toList)] →
          dstateGetinfo (before.foldl (Call.run fun _ => true) d') ("override.ups.id".toList.drop 9) =
            some (escape "a".toList)) ↔
        TakesEffect .init ("override.ups.id".toList.drop 9) "a".toList ∧
          ∀ c ∈ [Call.value (.setinfo "ups.id".toList "b".toList)], ¬c.Deletes ("override.ups.id".toList.drop 9)) :=
  @override_kept_iff (fun _ => True) _ _ (.init rfl) _ _ _ _ (by decide) _ _

/-- A driver that deletes the variable deletes the override. -/
theorem override_deleted :
    ∃ d', Main.doUpsconfArgs (fun _ => true) (fun d _ _ => some d) "su".toList "dummy-ups".toList .init (some "su".toList)
        "override.ups.id".toList (some "a".toList) = some d' ∧
      dstateGetinfo d' "ups.id".toList = some "a".toList ∧
      dstateGetinfo (Call.run (fun _ => true) d' (.struct (.delinfo "ups.id".toList))) "ups.id".toList = none :=
  ⟨_, rfl, by decide +kernel, by decide +kernel⟩

end Nut
