import Nut.Drivers.Libhid
import Nut.Drivers.Lookup
import Nut.Drivers.Outlets

/-!
# Setting variables that have a table

`setvar` of `usbhid-ups.c` and `su_setvar` of `snmp-ups.c` look for the value in the table of the variable and send the code
that they get.  A value that is not in the table has the code -1, which is sent like any other one.  In `usbhid-ups.c` a
conversion function goes before the table, and in `snmp-ups.c` the table of a string is not used.
-/

namespace Nut

/-- A value with a code is sent as this code, and one that has none is not sent. -/
def Mapped {C : Type} (code : Option C) (Sent : C → Prop) (Kept : Prop) : Prop :=
  (∀ c, code = some c → Sent c) ∧ (code = none → Kept)

namespace Hid

/-! ### `usbhid-ups.c` -/

/-- An entry of a lookup table; the last one has NULL for a name.  `nuf` may be NULL; its result is converted to `long`. -/
structure InfoLkp where
  hidValue : Int
  nutValue : Option CStr
  nuf : Option (CStr → Int)

/-- An entry of the table `hid2nut` with what `setvar` reads of it. -/
structure HidEntry extends HidInfo where
  infoFlags : BitVec 32
  hidpath : Option CStr
  hid2info : Option (List InfoLkp)

/-- The variables of the driver. -/
structure Hidups where
  hid2nut : List HidEntry
  desc : HIDDesc
  rbuf : Reportbuf
  dstate : Dstate
  dataHasChanged : Bool

/-- What is outside the driver, and the conversion of a value to logical units, which is one of `double`. -/
structure Ups where
  w : Nat → Bool
  taken : Bool
  toLogical : HIDData → Int → Int

/-- The results of `setvar`. -/
inductive StatSet where
  | handled
  | unknown
  deriving DecidableEq

def findNutInfo (s : Hidups) (varname : CStr) : Option HidEntry :=
  s.hid2nut.find? fun item => strcasecmp item.infoType varname = .eq ∧ item.hiddata ≠ none

/-- The loop over the table. -/
def findNutValue : List InfoLkp → CStr → Option Int
  | [], _ => none
  | e :: hid2info, value =>
    match e.nutValue with
    | none => some (-1)
    | some name => if name = value then some e.hidValue else findNutValue hid2info value

def huFindValinfo (hid2info : List InfoLkp) (value : CStr) : Option Int :=
  match hid2info with
  | [] => none
  | e :: _ =>
    match e.nuf with
    | some nuf => some (nuf value)
    | none => findNutValue hid2info value

/-- The second result is the report that is sent to the device. -/
def setvar (u : Ups) (s : Hidups) (varname val : CStr) : Option (Hidups × Option (List Byte) × StatSet) :=
  match findNutInfo s varname with
  | none => some (s, none, .unknown)
  | some item =>
    if item.infoFlags &&& stFlagRw = 0 then some (s, none, .unknown)
    else if item.hidflags &&& huFlagAbsent ≠ 0 then
      some ({ s with dstate := (dstateSetinfo u.w s.dstate item.infoType val).1 }, none, .handled)
    else if item.hidpath = none then some (s, none, .unknown)
    else
      match (match item.hid2info with
        | some hid2info => huFindValinfo hid2info val
        | none => some (strtol val)) with
      | none => none
      | some value =>
        match item.hiddata.bind fun i => s.desc.item[i]? with
        | none => some (s, none, .unknown)
        | some hiddata =>
          match hidSetDataValue s.rbuf hiddata (u.toLogical hiddata value) u.taken with
          | none => none
          | some (rbuf, report) =>
            if report ≠ none ∧ u.taken then some ({ s with rbuf := rbuf, dataHasChanged := true }, report, .handled)
            else some ({ s with rbuf := rbuf }, report, .unknown)

/-- The code of the first entry with the name, before the end of the table. -/
def hidCode (hid2info : List InfoLkp) (val : CStr) : Option Int :=
  ((hid2info.takeWhile fun e => e.nutValue ≠ none).find? fun e => e.nutValue = some val).map InfoLkp.hidValue

/-- The variable has an item of the device that can be set, and a table. -/
structure Settable (s : Hidups) (varname : CStr) (hiddata : HIDData) (hid2info : List InfoLkp) : Prop where
  entry : ∃ item, findNutInfo s varname = some item ∧ item.infoFlags &&& stFlagRw ≠ 0 ∧
    item.hidflags &&& huFlagAbsent = 0 ∧ item.hidpath ≠ none ∧ item.hid2info = some hid2info ∧
      (item.hiddata.bind fun i => s.desc.item[i]?) = some hiddata
  settable : hiddata.attr ≠ attrDataCst

/-- The report with the value. -/
def reportOf (u : Ups) (s : Hidups) (hiddata : HIDData) (value : Int) : List Byte :=
  setValue hiddata (s.rbuf.data hiddata.reportID) (u.toLogical hiddata value)

/-- The first entry with the name is found. -/
theorem findNutValue_of_code {hid2info : List InfoLkp} {val : CStr} {code : Int} (h : hidCode hid2info val = some code) :
    findNutValue hid2info val = some code := by
  induction hid2info with
  | nil => cases h
  | cons e hid2info ih =>
    unfold hidCode at h
    rw [findNutValue]
    cases hname : e.nutValue with
    | none =>
      rw [List.takeWhile_cons_of_neg (by rw [hname]; decide)] at h
      cases h
    | some name =>
      rw [List.takeWhile_cons_of_pos (by rw [hname]; rfl)] at h
      by_cases heq : name = val
      · rw [List.find?_cons_of_pos (by rw [hname, heq]; exact decide_eq_true rfl)] at h
        exact (if_pos heq).trans h
      · rw [List.find?_cons_of_neg (by rw [hname]; exact fun h => heq (Option.some.inj (of_decide_eq_true h)))] at h
        exact (if_neg heq).trans (ih h)

section

variable {s : Hidups} {varname val : CStr} {hiddata : HIDData} {hid2info : List InfoLkp}

/-- What is looked up is sent, whatever it is. -/
theorem setvar_of_found (u : Ups) (h : Settable s varname hiddata hid2info)
    (hroom : hiddata.offset + 8 + hiddata.size ≤ 8 * (s.rbuf.data hiddata.reportID).length) {value : Int}
    (hvalue : huFindValinfo hid2info val = some value) :
    ∃ s', setvar u s varname val = some (s', some (reportOf u s hiddata value), if u.taken then .handled else .unknown) ∧
      s'.dstate = s.dstate := by
  obtain ⟨item, hitem, hrw, hpresent, hpath, htable, hdata⟩ := h.entry
  have hsent : ∃ rbuf, hidSetDataValue s.rbuf hiddata (u.toLogical hiddata value) u.taken =
      some (rbuf, some (reportOf u s hiddata value)) := by
    unfold hidSetDataValue setItemBuffered
    dsimp only
    rw [if_neg h.settable, if_neg (Nat.not_lt.2 hroom)]
    cases u.taken with
    | true => exact ⟨_, rfl⟩
    | false => exact ⟨_, rfl⟩
  obtain ⟨rbuf, hrbuf⟩ := hsent
  unfold setvar
  rw [hitem]
  dsimp only
  rw [if_neg hrw, if_neg (not_not.2 hpresent), if_neg hpath, htable]
  dsimp only
  rw [hvalue]
  dsimp only
  rw [hdata]
  dsimp only
  rw [hrbuf]
  dsimp only
  cases u.taken with
  | true => exact ⟨_, rfl, rfl⟩
  | false => exact ⟨_, rfl, rfl⟩

theorem setvar_of_lost (u : Ups) (h : Settable s varname hiddata hid2info) (hvalue : huFindValinfo hid2info val = none) :
    setvar u s varname val = none := by
  obtain ⟨item, hitem, hrw, hpresent, hpath, htable, -⟩ := h.entry
  unfold setvar
  rw [hitem]
  dsimp only
  rw [if_neg hrw, if_neg (not_not.2 hpresent), if_neg hpath, htable]
  dsimp only
  rw [hvalue]

/-- The value is in the table, and a conversion function, if there is one, gives what its code gives. -/
def HidFound (u : Ups) (s : Hidups) (hiddata : HIDData) (hid2info : List InfoLkp) (val : CStr) : Prop :=
  ∃ code, hidCode hid2info val = some code ∧ ∀ e ∈ hid2info.head?, ∀ nuf, e.nuf = some nuf →
    reportOf u s hiddata (nuf val) = reportOf u s hiddata code

theorem setvar_mapped_iff (u : Ups) (h : Settable s varname hiddata hid2info)
    (hroom : hiddata.offset + 8 + hiddata.size ≤ 8 * (s.rbuf.data hiddata.reportID).length) :
    Mapped (hidCode hid2info val)
        (fun code => ∃ s', setvar u s varname val =
          some (s', some (reportOf u s hiddata code), if u.taken then .handled else .unknown))
        (∃ s' stat, setvar u s varname val = some (s', none, stat) ∧ s'.dstate = s.dstate ∧ stat ≠ .handled) ↔
      HidFound u s hiddata hid2info val := by
  constructor
  · rintro ⟨hsent, hkept⟩
    cases hcode : hidCode hid2info val with
    | none =>
      obtain ⟨s', stat, hset, -⟩ := hkept hcode
      cases hvalue : huFindValinfo hid2info val with
      | none =>
        rw [setvar_of_lost u h hvalue] at hset
        cases hset
      | some value =>
        obtain ⟨s₁, hset₁, -⟩ := setvar_of_found u h hroom hvalue
        rw [hset₁] at hset
        cases hset
    | some code =>
      refine ⟨code, hcode, fun e he nuf hnuf => ?_⟩
      obtain ⟨s', hset⟩ := hsent code hcode
      have hvalue : huFindValinfo hid2info val = some (nuf val) := by
        obtain ⟨rest, rfl⟩ := List.head?_eq_some_iff.1 he
        rw [huFindValinfo, hnuf]
      obtain ⟨s₁, hset₁, -⟩ := setvar_of_found u h hroom hvalue
      have hreport := (Prod.mk.inj (Prod.mk.inj (Option.some.inj (hset₁.symm.trans hset))).2).1
      exact Option.some.inj hreport
  · rintro ⟨code, hcode, hnuf⟩
    refine ⟨fun code' hcode' => ?_, fun hnone => nomatch hcode.symm.trans hnone⟩
    rw [← Option.some.inj (hcode.symm.trans hcode')]
    cases hid2info with
    | nil => cases hcode
    | cons e rest =>
      cases hfun : e.nuf with
      | none =>
        have hvalue : huFindValinfo (e :: rest) val = some code := by
          rw [huFindValinfo, hfun]
          exact findNutValue_of_code hcode
        obtain ⟨s', hset, -⟩ := setvar_of_found u h hroom hvalue
        exact ⟨s', hset⟩
      | some nuf =>
        have hvalue : huFindValinfo (e :: rest) val = some (nuf val) := by
          rw [huFindValinfo, hfun]
        obtain ⟨s', hset, -⟩ := setvar_of_found u h hroom hvalue
        rw [← hnuf e rfl nuf hfun]
        exact ⟨s', hset⟩

end

end Hid

namespace SnmpUps

/-! ### `snmp-ups.c` -/

variable {F : Type}

/-- The code of the first entry with the name, before the end of the table, which has the name `NULL`. -/
def snmpCode (oid2info : List InfoLkp) (val : CStr) : Option Int32 :=
  ((oid2info.takeWhile fun e => e.infoValue ≠ none ∧ e.infoValue ≠ some "NULL".toList).find? fun e =>
    e.infoValue = some val).map InfoLkp.oidValue

/-- The entry that `su_setvar` works on. -/
def suSetvarEntry (s : Snmp F) (varname : CStr) : Option (SnmpInfo F) :=
  if isOutletName varname then
    match findTemplate s varname .invalid with
    | some (.ok (template, number)) => do
      let dfl ← outletDefault template number
      let oid ← outletOid template number
      if suInfosize ≤ varname.length then none else some { template with infoType := varname, oid := oid, dfl := dfl }
    | _ => none
  else suFindInfo s varname

/-- The variable has an entry that can be set, and a table. -/
structure Settable (s : Snmp F) (varname : CStr) (info : SnmpInfo F) (oid : CStr) (oid2info : List InfoLkp) : Prop where
  entry : suSetvarEntry s varname = some info
  ok : has info.flags suFlagOk = true
  rw : info.infoFlags &&& stFlagRw ≠ 0
  oid_eq : info.oid = some oid
  table : info.oid2info = some oid2info

theorem suSetvar_eq {env : Env F} {s : Snmp F} {varname : CStr} {info : SnmpInfo F} (h : suSetvarEntry s varname = some info)
    (val : CStr) : suSetvar env s varname val = setEntry env s info val := by
  unfold suSetvarEntry at h
  unfold suSetvar
  by_cases hname : isOutletName varname = true
  · rw [if_pos hname] at h ⊢
    split at h
    · rename_i template number hfind
      obtain ⟨dfl, hdfl, h⟩ := Option.bind_eq_some_iff.1 h
      obtain ⟨oid, hoid, h⟩ := Option.bind_eq_some_iff.1 h
      split at h
      · cases h
      · rename_i hlen
        rw [hfind, ← Option.some.inj h]
        simp only [hdfl, hoid, Option.bind_eq_bind, Option.bind_some, if_neg hlen]
    · cases h
  · rw [if_neg hname] at h ⊢
    rw [h]

/-- The first entry with the name is found. -/
theorem suFindValinfo_of_code {oid2info : List InfoLkp} {val : CStr} {code : Int32} (h : snmpCode oid2info val = some code) :
    suFindValinfo oid2info val = some code := by
  induction oid2info with
  | nil => cases h
  | cons e oid2info ih =>
    unfold snmpCode at h
    rw [suFindValinfo]
    cases hname : e.infoValue with
    | none =>
      rw [List.takeWhile_cons_of_neg (by rw [hname]; decide)] at h
      cases h
    | some name =>
      dsimp only
      by_cases hnull : name = "NULL".toList
      · rw [List.takeWhile_cons_of_neg (by rw [hname, hnull]; decide)] at h
        cases h
      · rw [List.takeWhile_cons_of_pos (by rw [hname]; exact decide_eq_true ⟨nofun, fun h => hnull (Option.some.inj h)⟩)] at h
        rw [if_neg hnull]
        by_cases heq : name = val
        · rw [List.find?_cons_of_pos (by rw [hname, heq]; exact decide_eq_true rfl)] at h
          exact (if_pos heq).trans h
        · rw [List.find?_cons_of_neg (by rw [hname]; exact fun h => heq (Option.some.inj (of_decide_eq_true h)))] at h
          exact (if_neg heq).trans (ih h)

section

variable {s : Snmp F} {varname val oid : CStr} {info : SnmpInfo F} {oid2info : List InfoLkp}

/-- The code that is looked up, whatever it is. -/
theorem suSetvar_of_found (env : Env F) (h : Settable s varname info oid oid2info)
    (hstring : info.infoFlags &&& stFlagString = 0) {value : Int32} (hvalue : suFindValinfo oid2info val = some value) :
    ∃ s' stat, suSetvar env s varname val = some (s', stat) ∧ s'.sets = s.sets ++ [⟨oid, 'i', formatLong value.toInt⟩] := by
  rw [suSetvar_eq h.entry, setEntry, if_neg (not_not.2 h.ok), if_neg h.rw, h.oid_eq]
  dsimp only
  rw [if_neg (not_not.2 hstring), h.table]
  simp only [hvalue, Option.map_some]
  exact sent_of_set env s info val _

theorem suSetvar_of_string (env : Env F) (h : Settable s varname info oid oid2info)
    (hstring : info.infoFlags &&& stFlagString ≠ 0) :
    ∃ s' stat, suSetvar env s varname val = some (s', stat) ∧ s'.sets = s.sets ++ [⟨oid, 's', val⟩] := by
  rw [suSetvar_eq h.entry, setEntry, if_neg (not_not.2 h.ok), if_neg h.rw, h.oid_eq]
  dsimp only
  rw [if_pos hstring]
  exact sent_of_set env s info val _

theorem suSetvar_mapped_iff (env : Env F) (h : Settable s varname info oid oid2info) (val : CStr) :
    Mapped (snmpCode oid2info val)
        (fun code => ∃ s' stat, suSetvar env s varname val = some (s', stat) ∧
          s'.sets = s.sets ++ [⟨oid, 'i', formatLong code.toInt⟩])
        (∃ s' stat, suSetvar env s varname val = some (s', stat) ∧ s'.sets = s.sets ∧
          s'.status.dstate = s.status.dstate ∧ stat ≠ .handled) ↔
      info.infoFlags &&& stFlagString = 0 ∧ ∃ code, snmpCode oid2info val = some code := by
  -- a text in the place of the code is neither of the two
  have hlost : ∀ r, (∃ s' stat, suSetvar env s varname val = some (s', stat) ∧ s'.sets = s.sets ++ [r]) →
      ¬ ∃ s' stat, suSetvar env s varname val = some (s', stat) ∧ s'.sets = s.sets ∧
        s'.status.dstate = s.status.dstate ∧ stat ≠ .handled := by
    rintro r ⟨s₁, stat₁, hset₁, hsets₁⟩ ⟨s', stat, hset, hsets, -⟩
    have hs := (Prod.mk.inj (Option.some.inj (hset₁.symm.trans hset))).1
    rw [hs, hsets] at hsets₁
    exact absurd (List.self_eq_append_right.1 hsets₁) (List.cons_ne_nil _ _)
  constructor
  · rintro ⟨hsent, hkept⟩
    by_cases hstring : info.infoFlags &&& stFlagString = 0
    · refine ⟨hstring, ?_⟩
      cases hcode : snmpCode oid2info val with
      | some code => exact ⟨code, rfl⟩
      | none =>
        cases hvalue : suFindValinfo oid2info val with
        | none =>
          obtain ⟨s', stat, hset, -⟩ := hkept hcode
          rw [suSetvar_eq h.entry, setEntry_unready env s h.ok h.rw h.oid_eq hstring h.table hvalue] at hset
          cases hset
        | some value => exact absurd (hkept hcode) (hlost _ (suSetvar_of_found env h hstring hvalue))
    · obtain ⟨s₁, stat₁, hset₁, hsets₁⟩ := @suSetvar_of_string F s varname val oid info oid2info env h hstring
      cases hcode : snmpCode oid2info val with
      | none => exact absurd (hkept hcode) (hlost _ ⟨s₁, stat₁, hset₁, hsets₁⟩)
      | some code =>
        obtain ⟨s', stat, hset, hsets⟩ := hsent code hcode
        have hs := (Prod.mk.inj (Option.some.inj (hset₁.symm.trans hset))).1
        rw [← hs, hsets₁] at hsets
        have hrequest := List.singleton_inj.1 (List.append_cancel_left hsets)
        have htype : 's' = 'i' := congrArg SetRequest.type hrequest
        exact absurd htype (by decide)
  · rintro ⟨hstring, code, hcode⟩
    refine ⟨fun code' hcode' => ?_, fun hnone => nomatch hcode.symm.trans hnone⟩
    rw [← Option.some.inj (hcode.symm.trans hcode')]
    exact suSetvar_of_found env h hstring (suFindValinfo_of_code hcode)

end

end SnmpUps

/-- A variable of the device with a table is set to the code of the value, or not at all, if and only if the value is in the
table and the table is used: no conversion function gives something else, and the variable is not one that is sent as a
text. -/
theorem set_mapped_iff (val : CStr) :
    (∀ {reportDesc : Nat → UInt8} {n : Nat} {s : Hid.Hidups} {m : Bool} {device : Nat → List Hid.Byte} {events : List Hid.Event}
      {sys : Hid.System} {varname : CStr} {hiddata : Hid.HIDData} {hid2info : List Hid.InfoLkp} (u : Hid.Ups),
      Hid.parseReportDesc reportDesc n = some s.desc → (Hid.System.start s.desc device).run s.desc m events = some sys →
      s.rbuf = sys.rbuf → Hid.Settable s varname hiddata hid2info →
        (Mapped (Hid.hidCode hid2info val)
            (fun code => ∃ s', Hid.setvar u s varname val =
              some (s', some (Hid.reportOf u s hiddata code), if u.taken then .handled else .unknown))
            (∃ s' stat, Hid.setvar u s varname val = some (s', none, stat) ∧ s'.dstate = s.dstate ∧ stat ≠ .handled) ↔
          Hid.HidFound u s hiddata hid2info val)) ∧
      ∀ {F : Type} {s : SnmpUps.Snmp F} {varname oid : CStr} {info : SnmpUps.SnmpInfo F} {oid2info : List SnmpUps.InfoLkp}
        (env : SnmpUps.Env F), SnmpUps.Settable s varname info oid oid2info →
          (Mapped (SnmpUps.snmpCode oid2info val)
              (fun code => ∃ s' stat, SnmpUps.suSetvar env s varname val = some (s', stat) ∧
                s'.sets = s.sets ++ [⟨oid, 'i', SnmpUps.formatLong code.toInt⟩])
              (∃ s' stat, SnmpUps.suSetvar env s varname val = some (s', stat) ∧ s'.sets = s.sets ∧
                s'.status.dstate = s.status.dstate ∧ stat ≠ .handled) ↔
            info.infoFlags &&& stFlagString = 0 ∧ ∃ code, SnmpUps.snmpCode oid2info val = some code) := by
  refine ⟨?_, fun env h => SnmpUps.suSetvar_mapped_iff env h val⟩
  intro reportDesc n s m device events sys varname hiddata hid2info u hd hrun hrbuf h
  refine Hid.setvar_mapped_iff u h ?_
  obtain ⟨item, -, -, -, -, -, hdata⟩ := h.entry
  obtain ⟨i, -, hi⟩ := Option.bind_eq_some_iff.1 hdata
  rw [hrbuf]
  exact Hid.run_room hd hrun hiddata (List.mem_of_getElem? hi)

namespace Hid

/-- A Feature item of 8 bits. -/
def startDesc : List UInt8 :=
  [0x05, 0x84, 0x09, 0x04, 0xA1, 0x01, 0x85, 0x01, 0x75, 0x08, 0x95, 0x01, 0x09, 0x24, 0xB1, 0x02, 0xC0]

def startItem : HIDData :=
  ⟨⟨2, 0x840004 :: 0x840024 :: List.replicate 8 0⟩, 1, 0, 8, itemFeature, 2, 0, 0, 0, 0, 0, 0, false, false⟩

theorem startDesc_parsed : ∃ d, parseReportDesc (memory startDesc) 17 = some d ∧ d.item = [startItem] :=
  Option.map_eq_some_iff.1 (by decide +kernel)

def yesNo : List InfoLkp := [⟨0, some "no".toList, none⟩, ⟨1, some "yes".toList, none⟩, ⟨0, none, none⟩]

def startEntry : HidEntry := ⟨⟨"ups.start.auto".toList, 0, some 0⟩, stFlagRw, some "UPS.PowerSummary".toList, some yesNo⟩

/-- The driver that has one variable. -/
def startUps (d : HIDDesc) : Hidups := ⟨[startEntry], d, newReportBuffer d, .init, false⟩

/-- A device that takes what it gets, with values in logical units. -/
def takes : Ups := ⟨fun _ => true, true, fun _ value => value⟩

theorem startUps_settable {d : HIDDesc} (h : d.item = [startItem]) :
    Settable (startUps d) "ups.start.auto".toList startItem yesNo := by
  have hfind : findNutInfo (startUps d) "ups.start.auto".toList = some startEntry :=
    List.find?_cons_of_pos (by decide +kernel)
  refine ⟨⟨startEntry, hfind, by decide, by decide, nofun, rfl, ?_⟩, by decide⟩
  show d.item[0]? = some startItem
  rw [h]
  rfl

end Hid

namespace SnmpUps

def startTable : List InfoLkp := [⟨1, some "yes".toList⟩, ⟨2, some "no".toList⟩, ⟨0, some "NULL".toList⟩]

def startEntry : SnmpInfo Unit :=
  { numberEntry "ups.start.auto".toList ".1".toList 0 none with infoFlags := stFlagRw, oid2info := some startTable }

theorem startEntry_settable :
    Settable (firstWalk [startEntry]) "ups.start.auto".toList startEntry ".1".toList startTable :=
  ⟨by rfl, by decide, by decide, rfl, rfl⟩

end SnmpUps

/-- A name of the tables is sent as its code. -/
theorem set_mapped_yes :
    (∃ d, Hid.parseReportDesc (Hid.memory Hid.startDesc) 17 = some d ∧ ∃ s',
      Hid.setvar Hid.takes (Hid.startUps d) "ups.start.auto".toList "yes".toList =
        some (s', some (Hid.reportOf Hid.takes (Hid.startUps d) Hid.startItem 1), .handled)) ∧
      ∃ s' stat, SnmpUps.suSetvar (SnmpUps.numbers fun _ => none) (SnmpUps.firstWalk [SnmpUps.startEntry])
        "ups.start.auto".toList "yes".toList = some (s', stat) ∧ s'.sets = [⟨".1".toList, 'i', "1".toList⟩] := by
  refine ⟨?_, ?_⟩
  · obtain ⟨d, hd, hitem⟩ := Hid.startDesc_parsed
    have hrun : (Hid.System.start (Hid.startUps d).desc fun _ => []).run (Hid.startUps d).desc false [] =
        some (Hid.System.start d fun _ => []) := rfl
    have hfound : Hid.HidFound Hid.takes (Hid.startUps d) Hid.startItem Hid.yesNo "yes".toList := by
      refine ⟨1, by decide, fun e he nuf hnuf => ?_⟩
      rw [← Option.some.inj he] at hnuf
      cases hnuf
    have hmapped := ((set_mapped_iff "yes".toList).1 Hid.takes hd hrun rfl (Hid.startUps_settable hitem)).2 hfound
    exact ⟨d, hd, hmapped.1 1 (by decide)⟩
  · have hmapped := ((set_mapped_iff "yes".toList).2 (SnmpUps.numbers fun _ => none) SnmpUps.startEntry_settable).2
      ⟨by decide, 1, by decide⟩
    exact hmapped.1 1 (by decide)

/-- A text that is not in the tables is sent as -1, and taken. -/
theorem unknown_value_sent :
    (∃ d, Hid.parseReportDesc (Hid.memory Hid.startDesc) 17 = some d ∧
      Hid.Settable (Hid.startUps d) "ups.start.auto".toList Hid.startItem Hid.yesNo ∧
        Hid.hidCode Hid.yesNo "maybe".toList = none ∧
          ∃ s', Hid.setvar Hid.takes (Hid.startUps d) "ups.start.auto".toList "maybe".toList =
            some (s', some [0, 255], .handled)) ∧
      SnmpUps.Settable (SnmpUps.firstWalk [SnmpUps.startEntry]) "ups.start.auto".toList SnmpUps.startEntry ".1".toList
          SnmpUps.startTable ∧
        SnmpUps.snmpCode SnmpUps.startTable "maybe".toList = none ∧
          ∃ s', SnmpUps.suSetvar (SnmpUps.numbers fun _ => none) (SnmpUps.firstWalk [SnmpUps.startEntry])
            "ups.start.auto".toList "maybe".toList = some (s', .handled) ∧
              s'.sets = [⟨".1".toList, 'i', "-1".toList⟩] ∧
                SnmpUps.getinfo s' "ups.start.auto".toList = some "maybe".toList := by
  refine ⟨?_, SnmpUps.startEntry_settable, by decide, ?_⟩
  · have hall : ((Hid.parseReportDesc (Hid.memory Hid.startDesc) 17).bind fun d =>
        (Hid.setvar Hid.takes (Hid.startUps d) "ups.start.auto".toList "maybe".toList).map fun r => (d.item, r.2)) =
          some ([Hid.startItem], some [0, 255], .handled) := by decide +kernel
    obtain ⟨d, hd, hall⟩ := Option.bind_eq_some_iff.1 hall
    obtain ⟨⟨s', r⟩, hset, hr⟩ := Option.map_eq_some_iff.1 hall
    obtain ⟨hitem, hr⟩ := Prod.mk.inj hr
    exact ⟨d, hd, Hid.startUps_settable hitem, by decide, s', hset.trans (congrArg (fun r => some (s', r)) hr)⟩
  · have hcheck : (SnmpUps.suSetvar (SnmpUps.numbers fun _ => none) (SnmpUps.firstWalk [SnmpUps.startEntry])
        "ups.start.auto".toList "maybe".toList).any (fun r => r.2 = .handled ∧
          r.1.sets = [⟨".1".toList, 'i', "-1".toList⟩] ∧
            SnmpUps.getinfo r.1 "ups.start.auto".toList = some "maybe".toList) = true := by decide +kernel
    obtain ⟨⟨s', stat⟩, hset, hr⟩ := (Option.any_eq_true _ _).1 hcheck
    obtain ⟨hstat, hsets, hinfo⟩ := of_decide_eq_true hr
    exact ⟨s', hset.trans (congrArg (fun stat => some (s', stat)) hstat), hsets, hinfo⟩

end Nut
