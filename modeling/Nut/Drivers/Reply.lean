import Nut.Drivers.Blazer
import Nut.Sync.Override

/-!
# The handling of status replies

`blazer_status` leaves the status as it was or sets it from the eight bits of the last field (`Handled`), except where the
bits ask for the voltages and one of them was never published (`blazer_status_iff`).
-/

namespace Nut

namespace Blazer

/-- The variable has this value, to `strcasecmp`, or cannot be changed. -/
def Has (d : Dstate) (var value : CStr) : Prop :=
  ∃ n, stateTreeFind d.dtreeRoot var = some n ∧ keepsValue value n = true

/-- The variables that the status bits set. -/
def statusVars : List CStr := ["ups.status".toList, "ups.alarm".toList, "ups.beeper.status".toList, "ups.type".toList]

section

variable {F : Type}

/-- Nothing of the status has changed. -/
structure Unchanged (s s' : State F) : Prop where
  vars : ∀ var ∈ statusVars, stateTreeFind s'.status.dstate.dtreeRoot var = stateTreeFind s.status.dstate.dtreeRoot var
  online : s'.online = s.online

/-- The alarms of the status bits. -/
def alarms (val : CStr) : List CStr :=
  (if bit val 3 then ["UPS selftest failed!".toList] else []) ++ if bit val 6 then ["Shutdown imminent!".toList] else []

/-- The element of the published voltages. -/
def published (m : Doubles F) (s : State F) : Option CStr :=
  match getinfo s "input.voltage".toList, getinfo s "output.voltage".toList with
  | some vi, some vo => regulation m (m.strtod vi) (m.strtod vo)
  | _, _ => none

/-- The elements of the status; where `ignorelb` is set, the low battery bit is not used. -/
def words (val : CStr) (ignorelb : Bool) (published : Option CStr) : List CStr :=
  [if bit val 0 then "OB".toList else "OL".toList] ++ (if bit val 1 && !ignorelb then ["LB".toList] else []) ++
    (if bit val 2 then published.toList else []) ++ (if bit val 5 then ["CAL".toList] else []) ++
    if bit val 6 then ["FSD".toList] else []

/-- The battery is low by the published values. -/
def low (d : Dstate) : Bool :=
  below d "battery.charge".toList "battery.charge.low".toList || below d "battery.runtime".toList "battery.runtime.low".toList

def statusText (m : Doubles F) (s : State F) (val : CStr) : CStr :=
  (if alarms val = [] then [] else "ALARM ".toList) ++ [' '].intercalate (words val s.status.ignorelb (published m s)) ++
    if s.status.ignorelb ∧ low s.status.dstate then " LB".toList else []

/-- The state `s'` after the status bits `val` were taken in the state `s`. -/
structure FromBits (m : Doubles F) (s s' : State F) (val : CStr) : Prop where
  beeper : Has s'.status.dstate "ups.beeper.status".toList (if bit val 7 then "enabled".toList else "disabled".toList)
  type : Has s'.status.dstate "ups.type".toList (if bit val 4 then "offline / line interactive".toList else "online".toList)
  online : s'.online = !bit val 0
  ignorelb : s'.status.ignorelb = (s.status.ignorelb || (getinfo s "driver.flag.ignorelb".toList).isSome)
  alarm : if alarms val = [] then stateTreeFind s'.status.dstate.dtreeRoot "ups.alarm".toList = none
    else Has s'.status.dstate "ups.alarm".toList ([' '].intercalate (alarms val))
  status : Has s'.status.dstate "ups.status".toList (statusText m s' val)

/-- The first `n` fields, where the first one was found. -/
def fieldsFrom : Nat → Option CStr × CStr → List CStr
  | 0, _ => []
  | _ + 1, (none, _) => []
  | n + 1, (some val, last) => val :: fieldsFrom n (strtok " \r\n".toList last)

/-- The fields of a reply, eight at most. -/
def fields (buf : CStr) : List CStr := fieldsFrom 8 (strtok " ".toList buf.tail)

/-- The status bits of a reply that is accepted. -/
def statusBits (ret : Int) (buf : CStr) : Option CStr :=
  if 46 ≤ ret ∧ buf.head? = some '(' then (fields buf)[7]?.filter fun val => strspn val "01".toList = 8 else none

/-- The reply is handled as a whole: the status is as it was, or set from the bits. -/
def Handled (m : Doubles F) (w : Nat → Bool) (runtimecal : Bool) (s : State F) (ret : Int) (buf : CStr) : Prop :=
  ∃ s' r, blazerStatus m w runtimecal s ret buf = some (s', r) ∧
    (r = -1 ∧ Unchanged s s' ∨ r = 0 ∧ ∃ val, (fields buf)[7]? = some val ∧ FromBits m s s' val)

/-- The variable of field `i` is not there before the reply, nor does it come with it. -/
def Unknown (s : State F) (buf var : CStr) (i : Nat) : Prop :=
  getinfo s var = none ∧ ∀ val ∈ (fields buf)[i]?, numeric val = false

end

/-! ### The variables -/

open SearchTree

section

variable {w : Nat → Bool} {d : Dstate}

theorem keepsValue_setRaw (val : CStr) (n : StNode) : keepsValue val (setRaw val n) = true := by
  by_cases h : keepsValue val n = true
  · rw [setRaw_of_keeps h, h]
  · have hraw := setRaw_raw (Bool.not_eq_true _ ▸ h)
    simp [keepsValue, hraw]

theorem has_setinfo {var text : CStr} (h : text.length < stMaxValueLen) : Has (dstateSetinfo w d var text).1 var text := by
  rw [Has, dtreeRoot_setinfo, stateTreeFind_eq, find_upsert_self (nodeKey_setRaw _) (nodeKey_newNode _ _), snprintf_of_lt h]
  refine ⟨_, rfl, ?_⟩
  cases find nodeKey (tolower var) d.dtreeRoot with
  | none => simp [keepsValue]
  | some n => exact keepsValue_setRaw text n

theorem isSome_setinfo (var text v : CStr) :
    (stateTreeFind (dstateSetinfo w d var text).1.dtreeRoot v).isSome =
      (decide (tolower v = tolower var) || (stateTreeFind d.dtreeRoot v).isSome) := by
  by_cases h : tolower v = tolower var
  · rw [dtreeRoot_setinfo, stateTreeFind_eq, h, find_upsert_self (nodeKey_setRaw _) (nodeKey_newNode _ _)]
    simp
  · rw [find_setinfo_of_ne h]
    simp [h]

end

/-! ### The fields -/

section

variable {F : Type} {m : Doubles F} {w : Nat → Bool} {runtimecal : Bool}

theorem find_setinfo_state {s : State F} {var v text : CStr} (h : tolower v ≠ tolower var) :
    stateTreeFind (setinfo w s var text).status.dstate.dtreeRoot v = stateTreeFind s.status.dstate.dtreeRoot v :=
  find_setinfo_of_ne h

/-- What the conversion of a number changes: the charge of the battery at most. -/
theorem run_charge (s : State F) (ptr : CStr) (c : Conv) :
    (c.run m w runtimecal s ptr).1.status = s.status ∧ (c.run m w runtimecal s ptr).1.online = s.online ∨
      ∃ (s' : State F) (text : CStr), s'.status = s.status ∧ s'.online = s.online ∧
        (c.run m w runtimecal s ptr).1 = setinfo w s' "battery.charge".toList text := by
  cases c with
  | strtod => exact Or.inl ⟨rfl, rfl⟩
  | load => exact Or.inl ⟨rfl, rfl⟩
  | battery =>
    simp only [Conv.run, blazerBattery]
    split
    · exact Or.inr ⟨_, _, by dsimp only, by dsimp only, Eq.refl (setinfo w _ _ _)⟩
    · exact Or.inl ⟨rfl, rfl⟩

/-- What a field changes: its variable and the charge of the battery. -/
structure Touched (f : Field) (val : CStr) (s s' : State F) : Prop where
  rest : ∀ v, tolower v ≠ tolower f.var → tolower v ≠ "battery.charge".toList →
    stateTreeFind s'.status.dstate.dtreeRoot v = stateTreeFind s.status.dstate.dtreeRoot v
  there : ∀ v, tolower v ≠ "battery.charge".toList → (stateTreeFind s'.status.dstate.dtreeRoot v).isSome =
    (decide (numeric val = true ∧ tolower v = tolower f.var) || (stateTreeFind s.status.dstate.dtreeRoot v).isSome)
  ordered : Ordered nodeKey s.status.dstate.dtreeRoot → Ordered nodeKey s'.status.dstate.dtreeRoot
  online : s'.online = s.online
  ignorelb : s'.status.ignorelb = s.status.ignorelb

theorem publish_touched (s : State F) (f : Field) (val : CStr) : Touched f val s (publish m w runtimecal s f val) := by
  unfold publish
  by_cases hnum : numeric val = true
  · rw [if_pos hnum]
    dsimp only
    rcases @run_charge F m w runtimecal s val f.conv with ⟨hstatus, honline⟩ | ⟨s', text, hs, ho, hrun⟩
    · refine ⟨fun v hv _ => ?_, fun v _ => ?_, fun h => ?_, honline, ?_⟩
      · rw [find_setinfo_state hv, hstatus]
      · rw [setinfo, isSome_setinfo, hstatus]
        simp [hnum]
      · rw [setinfo, hstatus]
        exact ordered_setinfo h _ _
      · rw [setinfo, hstatus]
    · refine ⟨fun v hv hc => ?_, fun v hc => ?_, fun h => ?_, ?_, ?_⟩
      · rw [find_setinfo_state hv, hrun, find_setinfo_state hc, hs]
      · rw [setinfo, isSome_setinfo, hrun, find_setinfo_state hc, hs]
        simp [hnum]
      · rw [hrun, setinfo, setinfo, hs]
        exact ordered_setinfo (ordered_setinfo h _ _) _ _
      · rw [hrun, setinfo, setinfo, ho]
      · rw [hrun, setinfo, setinfo, hs]
  · rw [if_neg hnum]
    exact ⟨fun _ _ _ => rfl, fun v _ => by simp [hnum], id, rfl, rfl⟩

/-- What the loop over the table changes, with the fields that it finds. -/
structure Looped (fs : List Field) (vals : List CStr) (s s' : State F) : Prop where
  rest : ∀ v, (∀ f ∈ fs, tolower v ≠ tolower f.var) → tolower v ≠ "battery.charge".toList →
    stateTreeFind s'.status.dstate.dtreeRoot v = stateTreeFind s.status.dstate.dtreeRoot v
  there : ∀ v, tolower v ≠ "battery.charge".toList → ((stateTreeFind s'.status.dstate.dtreeRoot v).isSome ↔
    (∃ (i : Nat) (f : Field) (val : CStr), fs[i]? = some f ∧ vals[i]? = some val ∧ numeric val = true ∧ tolower v = tolower f.var) ∨
      (stateTreeFind s.status.dstate.dtreeRoot v).isSome)
  ordered : Ordered nodeKey s.status.dstate.dtreeRoot → Ordered nodeKey s'.status.dstate.dtreeRoot
  online : s'.online = s.online
  ignorelb : s'.status.ignorelb = s.status.ignorelb

theorem Looped.refl (fs : List Field) (s : State F) : Looped fs [] s s where
  rest _ _ _ := rfl
  there v _ := by simp
  ordered := id
  online := rfl
  ignorelb := rfl

theorem statusLoop_looped (fs : List Field) (s : State F) (t : Option CStr × CStr) :
    (statusLoop m w runtimecal fs s t).2 = (fieldsFrom (fs.length + 1) t)[fs.length]? ∧
      Looped fs (fieldsFrom (fs.length + 1) t) s (statusLoop m w runtimecal fs s t).1 := by
  induction fs generalizing s t with
  | nil =>
    obtain ⟨val, last⟩ := t
    refine ⟨?_, fun v _ _ => rfl, fun v _ => by simp [statusLoop], id, rfl, rfl⟩
    cases val with
    | none => rfl
    | some val => rfl
  | cons f fs ih =>
    obtain ⟨val, last⟩ := t
    cases val with
    | none => exact ⟨rfl, Looped.refl _ _⟩
    | some val =>
      have htouched := @publish_touched F m w runtimecal s f val
      obtain ⟨hfield, hloop⟩ := ih (publish m w runtimecal s f val) (strtok " \r\n".toList last)
      rw [statusLoop]
      refine ⟨hfield, fun v hv hc => ?_, fun v hc => ?_, fun h => hloop.ordered (htouched.ordered h),
        hloop.online.trans htouched.online, hloop.ignorelb.trans htouched.ignorelb⟩
      · rw [hloop.rest v (fun g hg => hv g (List.mem_cons_of_mem _ hg)) hc, htouched.rest v (hv f List.mem_cons_self) hc]
      · rw [hloop.there v hc, htouched.there v hc, Bool.or_eq_true, decide_eq_true_eq, List.length_cons, fieldsFrom]
        constructor
        · rintro (⟨i, g, x, hg, hx, hnum, hv⟩ | ⟨hnum, hv⟩ | hold)
          · exact Or.inl ⟨i + 1, g, x, hg, hx, hnum, hv⟩
          · exact Or.inl ⟨0, f, val, rfl, rfl, hnum, hv⟩
          · exact Or.inr hold
        · rintro (⟨i, g, x, hg, hx, hnum, hv⟩ | hold)
          · cases i with
            | zero =>
              cases hg
              cases hx
              exact Or.inr (Or.inl ⟨hnum, hv⟩)
            | succ i => exact Or.inl ⟨i, g, x, hg, hx, hnum, hv⟩
          · exact Or.inr (Or.inr hold)

/-! ### The status bits -/

/-- An element that is added under a condition. -/
def addIf (c : Bool) (buf element : CStr) : CStr := if c then addElement buf element else buf

theorem statusSet_of_ne {word : CStr} (h : strcasecmp word "LB".toList ≠ .eq) (s : StatusState) :
    statusSet s word = { s with statusBuf := addElement s.statusBuf word } := by
  rw [statusSet, if_neg fun hc => h hc.2]

theorem statusSet_lb (s : StatusState) :
    statusSet s "LB".toList = { s with statusBuf := addIf (!s.ignorelb) s.statusBuf "LB".toList } := by
  obtain ⟨dstate, ignorelb, statusBuf, alarmBuf, alarmActive⟩ := s
  unfold statusSet
  cases ignorelb with
  | false =>
    rw [if_neg (by simp)]
    rfl
  | true =>
    rw [if_pos ⟨rfl, strcasecmp_self _⟩]
    rfl

theorem regulation_cases (m : Doubles F) (vi vo : F) : regulation m vi vo = none ∨ regulation m vi vo = some "TRIM".toList ∨
    regulation m vi vo = some "BYPASS".toList ∨ regulation m vi vo = some "BOOST".toList := by
  unfold regulation
  split_ifs
  · exact Or.inl rfl
  · exact Or.inr (Or.inl rfl)
  · exact Or.inr (Or.inr (Or.inl rfl))
  · exact Or.inr (Or.inr (Or.inr rfl))
  · exact Or.inl rfl

/-- The element for the voltages. -/
def addOpt (buf : CStr) : Option CStr → CStr
  | none => buf
  | some word => addElement buf word

theorem setRegulation_eq (m : Doubles F) (s : State F) :
    setRegulation m s = if getinfo s "input.voltage".toList = none ∨ getinfo s "output.voltage".toList = none then none
      else some { s with status := { s.status with statusBuf := addOpt s.status.statusBuf (published m s) } } := by
  unfold setRegulation published
  cases hvi : getinfo s "input.voltage".toList with
  | none => rfl
  | some vi =>
    cases hvo : getinfo s "output.voltage".toList with
    | none => rfl
    | some vo =>
      rw [if_neg (by simp)]
      dsimp only
      rcases regulation_cases m (m.strtod vi) (m.strtod vo) with h | h | h | h
      · rw [h]
        rfl
      · rw [h]
        dsimp only
        rw [set, statusSet_of_ne (by decide)]
        rfl
      · rw [h]
        dsimp only
        rw [set, statusSet_of_ne (by decide)]
        rfl
      · rw [h]
        dsimp only
        rw [set, statusSet_of_ne (by decide)]
        rfl

/-- What is in the buffer for the status in the end. -/
def collected (val : CStr) (ignorelb : Bool) (published : Option CStr) : CStr :=
  let buf := addElement [] (if bit val 0 then "OB".toList else "OL".toList)
  let buf := addIf (bit val 1 && !ignorelb) buf "LB".toList
  let buf := if bit val 2 then addOpt buf published else buf
  addIf (bit val 6) (addIf (bit val 5) buf "CAL".toList) "FSD".toList

def collectedAlarms (val : CStr) : CStr :=
  addIf (bit val 6) (addIf (bit val 3) [] "UPS selftest failed!".toList) "Shutdown imminent!".toList

/-- The state after the first two variables. -/
def named (w : Nat → Bool) (s : State F) (val : CStr) : State F :=
  setinfo w (setinfo w s "ups.beeper.status".toList (if bit val 7 then "enabled".toList else "disabled".toList))
    "ups.type".toList (if bit val 4 then "offline / line interactive".toList else "online".toList)

theorem startStatus_eq (w : Nat → Bool) (s : State F) (val : CStr) :
    startStatus w s val =
      { named w s val with
        online := !bit val 0
        status :=
          { statusInit (named w s val).status with
            statusBuf := addIf (bit val 1 && !(statusInit (named w s val).status).ignorelb)
              (addElement [] (if bit val 0 then "OB".toList else "OL".toList)) "LB".toList } } := by
  have hob := statusSet_of_ne (show strcasecmp "OB".toList "LB".toList ≠ .eq by decide)
  have hol := statusSet_of_ne (show strcasecmp "OL".toList "LB".toList ≠ .eq by decide)
  have hnamed : setinfo w (setinfo w s "ups.beeper.status".toList (if bit val 7 then "enabled".toList else "disabled".toList))
      "ups.type".toList (if bit val 4 then "offline / line interactive".toList else "online".toList) = named w s val := rfl
  unfold startStatus
  simp only [hnamed]
  cases bit val 0 with
  | false =>
    simp only [Bool.false_eq_true, if_false, set, hol]
    cases bit val 1 with
    | false => rfl
    | true =>
      rw [if_pos rfl, statusSet_lb]
      rfl
  | true =>
    simp only [if_true, set, hob]
    cases bit val 1 with
    | false => rfl
    | true =>
      rw [if_pos rfl, statusSet_lb]
      rfl

theorem endStatus_eq (w : Nat → Bool) (s : State F) (val : CStr) :
    endStatus w s val =
      { s with
        status := statusCommit w (alarmCommit w
          { s.status with
            statusBuf := addIf (bit val 6) (addIf (bit val 5) s.status.statusBuf "CAL".toList) "FSD".toList
            alarmBuf := collectedAlarms val }) } := by
  have hcal := statusSet_of_ne (show strcasecmp "CAL".toList "LB".toList ≠ .eq by decide)
  have hfsd := statusSet_of_ne (show strcasecmp "FSD".toList "LB".toList ≠ .eq by decide)
  unfold endStatus collectedAlarms
  cases bit val 5 with
  | false =>
    cases bit val 6 with
    | false => cases bit val 3 <;> rfl
    | true => cases bit val 3 <;> simp only [Bool.false_eq_true, if_false, if_true, set, hfsd] <;> rfl
  | true =>
    simp only [if_true, set, hcal]
    cases bit val 6 with
    | false => cases bit val 3 <;> rfl
    | true => cases bit val 3 <;> simp only [Bool.false_eq_true, if_false, if_true, hfsd] <;> rfl

private theorem added : ∀ b0 b1 b2 b5 b6 : Bool,
    ∀ r ∈ [none, some "TRIM".toList, some "BYPASS".toList, some "BOOST".toList],
    (addIf b6 (addIf b5 (if b2 then addOpt (addIf b1 (addElement [] (if b0 then "OB".toList else "OL".toList)) "LB".toList) r
      else addIf b1 (addElement [] (if b0 then "OB".toList else "OL".toList)) "LB".toList) "CAL".toList) "FSD".toList =
      [' '].intercalate ([if b0 then "OB".toList else "OL".toList] ++ (if b1 then ["LB".toList] else []) ++
        (if b2 then r.toList else []) ++ (if b5 then ["CAL".toList] else []) ++ if b6 then ["FSD".toList] else [])) ∧
    (addIf b6 (addIf b5 (if b2 then addOpt (addIf b1 (addElement [] (if b0 then "OB".toList else "OL".toList)) "LB".toList) r
      else addIf b1 (addElement [] (if b0 then "OB".toList else "OL".toList)) "LB".toList) "CAL".toList) "FSD".toList).length
      ≤ 40 := by
  decide

theorem published_cases (m : Doubles F) (s : State F) :
    published m s ∈ [none, some "TRIM".toList, some "BYPASS".toList, some "BOOST".toList] := by
  unfold published
  split
  · rename_i vi vo _ _
    rcases regulation_cases m (m.strtod vi) (m.strtod vo) with h | h | h | h <;> rw [h] <;> decide
  · decide

theorem collected_eq (m : Doubles F) (s : State F) (val : CStr) (ignorelb : Bool) :
    collected val ignorelb (published m s) = [' '].intercalate (words val ignorelb (published m s)) ∧
      (collected val ignorelb (published m s)).length ≤ 40 :=
  added (bit val 0) (bit val 1 && !ignorelb) (bit val 2) (bit val 5) (bit val 6) _ (published_cases m s)

theorem collectedAlarms_eq (val : CStr) :
    collectedAlarms val = [' '].intercalate (alarms val) ∧ (collectedAlarms val).length ≤ 60 ∧
      (collectedAlarms val = [] ↔ alarms val = []) := by
  unfold collectedAlarms alarms
  cases bit val 3 <;> cases bit val 6 <;> decide

end

section

variable {w : Nat → Bool} {st : StatusState}

theorem below_congr {d d' : Dstate} {var low : CStr} (hvar : stateTreeFind d'.dtreeRoot var = stateTreeFind d.dtreeRoot var)
    (hlow : stateTreeFind d'.dtreeRoot low = stateTreeFind d.dtreeRoot low) : below d' var low = below d var low := by
  simp only [below, dstateGetinfo, stateGetinfo, hvar, hlow]

/-- The variable of a commit apart, `low` depends on no variable that is set here. -/
theorem low_congr {d d' : Dstate} (h : ∀ v, tolower v ≠ "ups.alarm".toList → tolower v ≠ "ups.status".toList →
    stateTreeFind d'.dtreeRoot v = stateTreeFind d.dtreeRoot v) : low d' = low d := by
  unfold low
  rw [below_congr (h _ (by decide) (by decide)) (h _ (by decide) (by decide)),
    below_congr (h _ (by decide) (by decide)) (h _ (by decide) (by decide))]

theorem alarmCommit_spec (hord : Ordered nodeKey st.dstate.dtreeRoot) (hlen : st.alarmBuf.length < stMaxValueLen) :
    (alarmCommit w st).ignorelb = st.ignorelb ∧ (alarmCommit w st).statusBuf = st.statusBuf ∧
      (alarmCommit w st).alarmActive = !decide (st.alarmBuf = []) ∧
      (∀ v, tolower v ≠ "ups.alarm".toList →
        stateTreeFind (alarmCommit w st).dstate.dtreeRoot v = stateTreeFind st.dstate.dtreeRoot v) ∧
      if st.alarmBuf = [] then stateTreeFind (alarmCommit w st).dstate.dtreeRoot "ups.alarm".toList = none
      else Has (alarmCommit w st).dstate "ups.alarm".toList st.alarmBuf := by
  unfold alarmCommit
  by_cases hnil : st.alarmBuf = []
  · rw [if_neg (by simp [hnil]), if_pos hnil]
    refine ⟨rfl, rfl, by simp [hnil], fun v hv => ?_, ?_⟩
    · rw [find_delinfo hord]
      exact if_neg hv
    · rw [find_delinfo hord, if_pos rfl]
  · rw [if_pos (List.length_pos_iff.2 hnil), if_neg hnil]
    exact ⟨rfl, rfl, by simp [hnil], fun v hv => find_setinfo_of_ne hv, has_setinfo hlen⟩

/-- What is published as the status. -/
theorem statusCommit_spec (hlen : st.statusBuf.length ≤ 40) :
    (statusCommit w st).ignorelb = st.ignorelb ∧
      (∀ v, tolower v ≠ "ups.status".toList →
        stateTreeFind (statusCommit w st).dstate.dtreeRoot v = stateTreeFind st.dstate.dtreeRoot v) ∧
      Has (statusCommit w st).dstate "ups.status".toList ((if st.alarmActive then "ALARM ".toList else []) ++ st.statusBuf ++
        if st.ignorelb ∧ low st.dstate then " LB".toList else []) := by
  have hlow : (below st.dstate "battery.charge".toList "battery.charge.low".toList = true ∨
      below st.dstate "battery.runtime".toList "battery.runtime.low".toList = true) ↔ low st.dstate = true := by
    rw [low, Bool.or_eq_true]
  have hcat : snprintfcat st.statusBuf stMaxValueLen " LB".toList = st.statusBuf ++ " LB".toList := by
    rw [snprintfcat, snprintf_of_lt]
    show 3 < stMaxValueLen - 1 - st.statusBuf.length
    unfold stMaxValueLen
    omega
  unfold statusCommit
  simp only [hlow, hcat]
  by_cases hc : st.ignorelb = true ∧ low st.dstate = true
  · rw [if_pos hc, if_pos hc]
    refine ⟨rfl, fun v hv => find_setinfo_of_ne hv, ?_⟩
    have h := @has_setinfo w st.dstate "ups.status".toList
      ((if st.alarmActive then "ALARM ".toList else []) ++ st.statusBuf ++ " LB".toList) (by
        unfold stMaxValueLen
        split <;> simp <;> omega)
    cases hact : st.alarmActive with
    | false => simpa [hact] using h
    | true => simpa [hact] using h
  · rw [if_neg hc, if_neg hc]
    refine ⟨rfl, fun v hv => find_setinfo_of_ne hv, ?_⟩
    have h := @has_setinfo w st.dstate "ups.status".toList
      ((if st.alarmActive then "ALARM ".toList else []) ++ st.statusBuf) (by
        unfold stMaxValueLen
        split <;> simp <;> omega)
    cases hact : st.alarmActive with
    | false => simpa [hact] using h
    | true => simpa [hact] using h

end

section

variable {F : Type} {m : Doubles F} {w : Nat → Bool} {s : State F}

theorem getinfo_congr {s' : State F} {var : CStr}
    (h : stateTreeFind s'.status.dstate.dtreeRoot var = stateTreeFind s.status.dstate.dtreeRoot var) :
    getinfo s' var = getinfo s var := by
  simp only [getinfo, dstateGetinfo, stateGetinfo, h]

theorem getinfo_eq_none {var : CStr} : getinfo s var = none ↔ stateTreeFind s.status.dstate.dtreeRoot var = none := by
  simp [getinfo, dstateGetinfo, stateGetinfo]

theorem find_named (val : CStr) {v : CStr} (hbeeper : tolower v ≠ "ups.beeper.status".toList)
    (htype : tolower v ≠ "ups.type".toList) :
    stateTreeFind (named w s val).status.dstate.dtreeRoot v = stateTreeFind s.status.dstate.dtreeRoot v := by
  rw [named, find_setinfo_state htype, find_setinfo_state hbeeper]

theorem published_congr {s' : State F} (hvi : getinfo s' "input.voltage".toList = getinfo s "input.voltage".toList)
    (hvo : getinfo s' "output.voltage".toList = getinfo s "output.voltage".toList) : published m s' = published m s := by
  unfold published
  rw [hvi, hvo]

/-- The state before the last elements are added. -/
theorem setStatus_some (m : Doubles F) (w : Nat → Bool) (s : State F) (val : CStr)
    (h : bit val 2 = true → getinfo s "input.voltage".toList ≠ none ∧ getinfo s "output.voltage".toList ≠ none) :
    setStatus m w s val = some { named w s val with
      online := !bit val 0
      status := statusCommit w (alarmCommit w
        { statusInit (named w s val).status with
          statusBuf := collected val (statusInit (named w s val).status).ignorelb (published m (named w s val))
          alarmBuf := collectedAlarms val }) } := by
  have hvi : getinfo (named w s val) "input.voltage".toList = getinfo s "input.voltage".toList :=
    getinfo_congr (find_named val (by decide) (by decide))
  have hvo : getinfo (named w s val) "output.voltage".toList = getinfo s "output.voltage".toList :=
    getinfo_congr (find_named val (by decide) (by decide))
  unfold setStatus collected
  simp only [startStatus_eq]
  cases h2 : bit val 2 with
  | false =>
    simp only [Bool.false_eq_true, if_false, endStatus_eq]
  | true =>
    obtain ⟨hi, ho⟩ := h h2
    simp only [if_true, setRegulation_eq]
    rw [if_neg]
    · simp only [endStatus_eq]
      rfl
    · rintro (hnone | hnone)
      · exact hi (hvi.symm.trans hnone)
      · exact ho (hvo.symm.trans hnone)

theorem setStatus_none (m : Doubles F) (w : Nat → Bool) (s : State F) {val : CStr} (h2 : bit val 2 = true)
    (h : getinfo s "input.voltage".toList = none ∨ getinfo s "output.voltage".toList = none) : setStatus m w s val = none := by
  have hvi : getinfo (named w s val) "input.voltage".toList = getinfo s "input.voltage".toList :=
    getinfo_congr (find_named val (by decide) (by decide))
  have hvo : getinfo (named w s val) "output.voltage".toList = getinfo s "output.voltage".toList :=
    getinfo_congr (find_named val (by decide) (by decide))
  rw [← hvi, ← hvo] at h
  unfold setStatus
  simp only [startStatus_eq, h2, if_true, setRegulation_eq]
  rw [if_pos]
  exact h

/-- Where the voltages are there if they are asked for, the status is that of the bits. -/
theorem setStatus_fromBits (hord : Ordered nodeKey s.status.dstate.dtreeRoot) (val : CStr)
    (h : bit val 2 = true → getinfo s "input.voltage".toList ≠ none ∧ getinfo s "output.voltage".toList ≠ none) :
    ∃ s', setStatus m w s val = some s' ∧ FromBits m s s' val := by
  refine ⟨_, setStatus_some m w s val h, ?_⟩
  obtain ⟨t, ht⟩ : ∃ t, t = named w s val := ⟨_, rfl⟩
  rw [← ht]
  have hordt : Ordered nodeKey t.status.dstate.dtreeRoot := by
    rw [ht]
    exact ordered_setinfo (ordered_setinfo hord _ _) _ _
  have hbeeper : Has t.status.dstate "ups.beeper.status".toList (if bit val 7 then "enabled".toList else "disabled".toList) := by
    obtain ⟨n, hn, hkeep⟩ := @has_setinfo w s.status.dstate "ups.beeper.status".toList
      (if bit val 7 then "enabled".toList else "disabled".toList) (by split <;> decide)
    refine ⟨n, ?_, hkeep⟩
    rw [ht, named, find_setinfo_state (by decide)]
    exact hn
  have htype : Has t.status.dstate "ups.type".toList
      (if bit val 4 then "offline / line interactive".toList else "online".toList) := by
    rw [ht]
    exact has_setinfo (by split <;> decide)
  have hlb : getinfo t "driver.flag.ignorelb".toList = getinfo s "driver.flag.ignorelb".toList := by
    rw [ht]
    exact getinfo_congr (find_named val (by decide) (by decide))
  obtain ⟨hcollected, hshort⟩ := collected_eq m t val (statusInit t.status).ignorelb
  obtain ⟨halarms, halarmsShort, hnil⟩ := collectedAlarms_eq val
  -- the two commits
  obtain ⟨st, hst⟩ : ∃ st : StatusState, st = { statusInit t.status with
    statusBuf := collected val (statusInit t.status).ignorelb (published m t), alarmBuf := collectedAlarms val } := ⟨_, rfl⟩
  rw [← hst]
  obtain ⟨hig, hbuf, hactive, hrest, halarm⟩ := @alarmCommit_spec w st (by rw [hst]; exact hordt) (by
    rw [hst]
    exact lt_of_le_of_lt halarmsShort (by decide))
  obtain ⟨hig', hrest', hstatus⟩ := @statusCommit_spec w (alarmCommit w st) (by rw [hbuf, hst]; exact hshort)
  have hfinal : ∀ v, tolower v ≠ "ups.alarm".toList → tolower v ≠ "ups.status".toList →
      stateTreeFind (statusCommit w (alarmCommit w st)).dstate.dtreeRoot v = stateTreeFind t.status.dstate.dtreeRoot v := by
    intro v halarm hstatus
    rw [hrest' v hstatus, hrest v halarm, hst]
    rfl
  refine ⟨?_, ?_, rfl, ?_, ?_, ?_⟩
  · obtain ⟨n, hn, hkeep⟩ := hbeeper
    exact ⟨n, (hfinal _ (by decide) (by decide)).trans hn, hkeep⟩
  · obtain ⟨n, hn, hkeep⟩ := htype
    exact ⟨n, (hfinal _ (by decide) (by decide)).trans hn, hkeep⟩
  · refine (hig'.trans hig).trans ?_
    have hinit : (statusInit t.status).ignorelb =
        if (getinfo t "driver.flag.ignorelb".toList).isSome then true else t.status.ignorelb := rfl
    have hold : t.status.ignorelb = s.status.ignorelb := by rw [ht]; rfl
    rw [hst]
    refine hinit.trans ?_
    rw [hlb, hold]
    cases (getinfo s "driver.flag.ignorelb".toList).isSome <;> simp
  · have halarmBuf : st.alarmBuf = collectedAlarms val := by rw [hst]
    have hsame := hrest' "ups.alarm".toList (by decide)
    rw [halarmBuf] at halarm
    by_cases h : alarms val = []
    · rw [if_pos (hnil.2 h)] at halarm
      rw [if_pos h]
      exact hsame.trans halarm
    · rw [if_neg fun hc => h (hnil.1 hc), halarms] at halarm
      rw [if_neg h]
      obtain ⟨n, hn, hkeep⟩ := halarm
      exact ⟨n, hsame.trans hn, hkeep⟩
  · have hpublished : published m { t with online := !bit val 0, status := statusCommit w (alarmCommit w st) } =
        published m t :=
      published_congr (getinfo_congr (hfinal _ (by decide) (by decide))) (getinfo_congr (hfinal _ (by decide) (by decide)))
    have hlow : low (statusCommit w (alarmCommit w st)).dstate = low (alarmCommit w st).dstate :=
      low_congr fun v _ hv => hrest' v hv
    have hactive' : (alarmCommit w st).alarmActive = !decide (alarms val = []) := by
      rw [hactive]
      simp only [hst, hnil]
    have hbuf' : (alarmCommit w st).statusBuf = [' '].intercalate (words val (statusCommit w (alarmCommit w st)).ignorelb
        (published m t)) := by
      rw [hbuf, hig', hig, hst]
      exact hcollected
    rw [hactive', hbuf', ← hlow, ← hig'] at hstatus
    unfold statusText
    rw [hpublished]
    by_cases h : alarms val = []
    · simpa [h] using hstatus
    · simpa [h] using hstatus

/-! ### The reply -/

theorem unchanged_of_looped {s' : State F} {vals : List CStr} (h : Looped statusTable vals s s') : Unchanged s s' where
  vars v hv := by
    refine h.rest v ?_ ?_
    · revert v
      decide
    · revert v
      decide
  online := h.online

theorem Unchanged.refl (s : State F) : Unchanged s s := ⟨fun _ _ => rfl, rfl⟩

/-- A voltage of the table is known after the loop unless it was not before and does not come with the reply. -/
theorem getinfo_looped {s' : State F} {buf : CStr} (h : Looped statusTable (fields buf) s s') {i : Nat} {f : Field}
    (hf : statusTable[i]? = some f) (hcharge : tolower f.var ≠ "battery.charge".toList) :
    getinfo s' f.var = none ↔ Unknown s buf f.var i := by
  have hnodup : (statusTable.map fun f => tolower f.var).Nodup := by decide
  have hlt : i < statusTable.length := (List.getElem?_eq_some_iff.1 hf).1
  have hthere := h.there f.var hcharge
  have hnew : (∃ (j : Nat) (g : Field) (val : CStr), statusTable[j]? = some g ∧ (fields buf)[j]? = some val ∧ numeric val = true ∧
      tolower f.var = tolower g.var) ↔ ∃ val, (fields buf)[i]? = some val ∧ numeric val = true := by
    constructor
    · rintro ⟨j, g, val, hg, hval, hnum, hname⟩
      have hij : i = j := by
        refine (List.getElem?_inj (by rwa [List.length_map]) hnodup).1 ?_
        rw [List.getElem?_map, List.getElem?_map, hf, hg]
        exact congrArg some hname
      exact ⟨val, hij ▸ hval, hnum⟩
    · rintro ⟨val, hval, hnum⟩
      exact ⟨i, f, val, hf, hval, hnum, rfl⟩
  rw [hnew] at hthere
  rw [Unknown, getinfo_eq_none, getinfo_eq_none, ← Option.not_isSome_iff_eq_none, ← Option.not_isSome_iff_eq_none, hthere, not_or,
    and_comm, not_exists]
  refine and_congr_right fun _ => forall_congr' fun val => ?_
  rw [Option.mem_def, not_and, Bool.not_eq_true]

private theorem blazerStatus_of_start (m : Doubles F) (w : Nat → Bool) (runtimecal : Bool) (s : State F) {ret : Int}
    {buf : CStr} (hret : ¬ret < 46) (hstart : buf.head? = some '(') :
    blazerStatus m w runtimecal s ret buf =
      match statusLoop m w runtimecal statusTable s (strtok " ".toList buf.tail) with
      | (s, none) => some (s, -1)
      | (s, some val) =>
        if strspn val "01".toList ≠ 8 then some (s, -1) else (setStatus m w s val).map fun s => (s, 0) := by
  unfold blazerStatus
  exact (if_neg hret).trans (if_neg (by simpa using hstart))

/-- A reply is handled as a whole, except where the bits of an accepted one ask for the voltages and one of them is not
known. -/
theorem blazer_status_iff (m : Doubles F) (w : Nat → Bool) (runtimecal : Bool) {P : Call → Prop} (s : State F)
    (hs : Reachable P w s.status.dstate) (ret : Int) (buf : CStr) :
    Handled m w runtimecal s ret buf ↔
      ¬ ((∃ val, statusBits ret buf = some val ∧ bit val 2 = true) ∧
        (Unknown s buf "input.voltage".toList 0 ∨ Unknown s buf "output.voltage".toList 2)) := by
  have hord := hs.treeFit.ordered
  by_cases hret : ret < 46
  · have hnone : statusBits ret buf = none := if_neg (by omega)
    rw [hnone]
    refine ⟨fun _ h => by simp at h, fun _ => ⟨s, -1, if_pos hret, Or.inl ⟨rfl, .refl s⟩⟩⟩
  by_cases hstart : buf.head? = some '('
  · obtain ⟨hfield, hloop⟩ := @statusLoop_looped F m w runtimecal statusTable s
      (strtok " ".toList buf.tail)
    have hrun := blazerStatus_of_start m w runtimecal s hret hstart
    have hbits : statusBits ret buf = (fields buf)[7]?.filter fun val => strspn val "01".toList = 8 :=
      if_pos ⟨by omega, hstart⟩
    obtain ⟨r, hr⟩ : ∃ r, r = statusLoop m w runtimecal statusTable s (strtok " ".toList buf.tail) := ⟨_, rfl⟩
    rw [← hr] at hfield hloop hrun
    obtain ⟨s', field⟩ := r
    have hfields : (fields buf)[7]? = field := hfield.symm
    rw [hbits, hfields]
    cases field with
    | none =>
      refine ⟨fun _ h => by simp at h, fun _ => ⟨s', -1, hrun, Or.inl ⟨rfl, unchanged_of_looped hloop⟩⟩⟩
    | some val =>
      dsimp only at hrun
      by_cases height : strspn val "01".toList = 8
      · rw [if_neg (by simpa using height)] at hrun
        have hfilter : (some val).filter (fun val => decide (strspn val "01".toList = 8)) = some val :=
          if_pos (decide_eq_true height)
        rw [hfilter, ← @getinfo_looped F s _ buf hloop 0 ⟨"input.voltage".toList, 1, .strtod⟩ rfl (by decide),
          ← @getinfo_looped F s _ buf hloop 2 ⟨"output.voltage".toList, 1, .strtod⟩ rfl (by decide)]
        constructor
        · rintro ⟨t, r, ht, -⟩ ⟨⟨val', hval, h2⟩, hnone⟩
          cases hval
          rw [hrun, setStatus_none m w s' h2 hnone] at ht
          cases ht
        · intro h
          obtain ⟨t, ht, hfrom⟩ := setStatus_fromBits (m := m) (w := w) (hloop.ordered hord) val fun h2 =>
            ⟨fun hn => h ⟨⟨val, rfl, h2⟩, Or.inl hn⟩, fun hn => h ⟨⟨val, rfl, h2⟩, Or.inr hn⟩⟩
          rw [ht] at hrun
          refine ⟨t, 0, hrun, Or.inr ⟨rfl, val, hfields, { hfrom with ignorelb := ?_ }⟩⟩
          have hflag : getinfo s' "driver.flag.ignorelb".toList = getinfo s "driver.flag.ignorelb".toList :=
            getinfo_congr (hloop.rest _ (by decide) (by decide))
          rw [hfrom.ignorelb, hloop.ignorelb, hflag]
      · rw [if_pos height] at hrun
        have hfilter : (some val).filter (fun val => decide (strspn val "01".toList = 8)) = none :=
          if_neg (mt of_decide_eq_true height)
        rw [hfilter]
        refine ⟨fun _ h => by simp at h, fun _ => ⟨s', -1, hrun, Or.inl ⟨rfl, unchanged_of_looped hloop⟩⟩⟩
  · have hnone : statusBits ret buf = none := if_neg fun h => hstart h.2
    rw [hnone]
    refine ⟨fun _ h => by simp at h, fun _ => ⟨s, -1, ?_, Or.inl ⟨rfl, .refl s⟩⟩⟩
    rw [blazerStatus, if_neg hret, if_pos hstart]

end

/-- Hundredths in place of `double`, enough for the numbers of a reply. -/
def hundredths : Doubles Int where
  strtod s := strtol s * 100 + match s.dropWhile (· ≠ '.') with
    | [_, a] => strtol [a] * 10
    | _ :: a :: b :: _ => strtol [a, b]
    | _ => 0
  format n x := formatInt (Int32.ofInt (x / 100)) ++
    if n = 0 then [] else '.' :: (formatInt (Int32.ofInt (100 + x % 100))).tail.take n
  lit n k := n * 100 / 10 ^ k
  mul x y := x * y / 100
  sub x y := x - y
  div x y := x * 100 / y
  pow x y := if y = 0 then 100 else x
  lt x y := x < y

/-- The state at the start, with an exponent of 0. -/
def started : State Int where
  status := ⟨Dstate.init, false, [], [], false⟩
  online := true
  batt := ⟨100, 0, -100, -100, -100, -100⟩
  load := ⟨0, 10, 100⟩

/-- A reply with all fields. -/
theorem blazer_status_normal :
    Handled hundredths (fun _ => true) false started 47 "(226.0 195.0 226.0 014 49.0 27.5 30.0 00001000\r".toList :=
  (blazer_status_iff (P := fun _ => True) hundredths (fun _ => true) false started (.init rfl) 47
    "(226.0 195.0 226.0 014 49.0 27.5 30.0 00001000\r".toList).2 fun h => by
      obtain ⟨⟨val, hval, h2⟩, -⟩ := h
      have hbits : statusBits 47 "(226.0 195.0 226.0 014 49.0 27.5 30.0 00001000\r".toList = some "00001000".toList := by
        decide
      rw [hbits] at hval
      cases hval
      exact absurd h2 (by decide)

/-- The input voltage is not a number, and none was published before. -/
theorem blazer_status_null :
    ¬ Handled hundredths (fun _ => true) false started 47 "(---.- 195.0 226.0 014 49.0 27.5 30.0 00101000\r".toList := by
  have hnone : (blazerStatus hundredths (fun _ => true) false started 47
      "(---.- 195.0 226.0 014 49.0 27.5 30.0 00101000\r".toList).isNone = true := by decide
  rintro ⟨s', r, hrun, -⟩
  rw [hrun] at hnone
  cases hnone

end Blazer

end Nut
