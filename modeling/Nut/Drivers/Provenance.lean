import Nut.Drivers.Getvalue
import Nut.Drivers.Libhid

/-!
# Where a value comes from

A report ID has one buffer and one time, whatever types of reports have this ID: `get_report` asks for Feature reports,
interrupts bring Input reports, and `SetValue` changes bits in between.  What is stored in the buffers is recorded here, so
that a value can be traced to the report that it is decoded from (`value_traced`).
-/

namespace Nut

namespace Hid

/-- `get_item_buffered`; the second result is the value. -/
def getItemBuffered (rbuf : Reportbuf) (pData : HIDData) (age now stamp : Int) (reply : Option (List Byte)) :
    Option (Reportbuf × Option Int) :=
  match refreshReportBuffer rbuf pData age now stamp reply with
  | none => none
  | some (rbuf, false) => some (rbuf, none)
  | some (rbuf, true) => (getValue (rbuf.data pData.reportID) pData).map fun value => (rbuf, some value)

/-- What `get_report` gives. -/
def System.reply (m : Bool) (s : System) (id : Nat) (failed : Bool) : Option (List Byte) :=
  if failed then none else some (getReport m s.rbuf s.device id)

/-- What is stored in a buffer: a report that the device delivered, or the bits of an item that is set. -/
inductive Stored
  | report (type id : Nat) (report : List Byte) (time : Int)
  | bits (id offset size : Nat)
  deriving DecidableEq

/-- What an event stores. -/
def System.stored (d : HIDDesc) (m : Bool) (s : System) : Event → List Stored
  | .getItem i age now stamp failed =>
    match d.item[i]? with
    | none => []
    | some pData =>
      if now < s.rbuf.ts pData.reportID + age then []
      else
        match s.reply m pData.reportID failed with
        | none => []
        | some [] => []
        | some (b :: report) => [.report itemFeature pData.reportID (b :: report) stamp]
  | .setItem i _ _ =>
    match d.item[i]? with
    | none => []
    | some hiddata => if hiddata.attr = attrDataCst then [] else [.bits hiddata.reportID hiddata.offset hiddata.size]
  | .interrupt buf now => if buf = [] then [] else [.report itemInput (buf.headD 0).toNat buf now]
  | .device _ _ => []

/-- A run with the record of what was stored, the last first. -/
def System.record (d : HIDDesc) (m : Bool) (s : System × List Stored) (events : List Event) :
    Option (System × List Stored) :=
  events.foldlM (fun s e => (s.1.step d m e).map fun r => (r.1, s.1.stored d m e ++ s.2)) s

/-- What goes into the buffer of an item's report, except for bits of other items. -/
def Stored.On (pData : HIDData) : Stored → Bool
  | .report _ id _ _ => id = pData.reportID
  | .bits id offset size => id = pData.reportID ∧ offset < pData.offset + pData.size ∧ pData.offset < offset + size

/-- A report is long enough for an item. -/
def Within (pData : HIDData) (report : List Byte) : Prop := pData.offset + 8 + pData.size ≤ 8 * report.length

/-- The value is decoded from a report of the ID and the type of the item that the device delivered just now, among what is
`new`, or less than `age` seconds ago. -/
def FromReport (new log : List Stored) (pData : HIDData) (age now hValue : Int) : Prop :=
  ∃ report time, getValue report pData = some hValue ∧ Within pData report ∧
    (.report pData.type pData.reportID report time ∈ new ∨
      .report pData.type pData.reportID report time ∈ log ∧ now < time + age)

/-- In the buffer, where that is used, no report of another type, no part of a report and no value to set has been stored
over a report with the item; where the device is asked, it has the item in a Feature report and sends enough of it. -/
def Unmixed (m : Bool) (s : System) (log : List Stored) (pData : HIDData) (age now : Int) (failed : Bool) : Prop :=
  if now < s.rbuf.ts pData.reportID + age then
    ∃ report time, log.find? (Stored.On pData) = some (.report pData.type pData.reportID report time) ∧ Within pData report
  else
    ∀ report, s.reply m pData.reportID failed = some report → report ≠ [] →
      pData.type = itemFeature ∧ Within pData report

/-- The time at which an event happens is not before the epoch. -/
def Event.Timed : Event → Prop
  | .getItem _ _ _ stamp _ => 0 ≤ stamp
  | .interrupt _ now => 0 ≤ now
  | .setItem .. => True
  | .device .. => True

/-! ### One event -/

section Steps

variable {d : HIDDesc} {m : Bool} {rbuf rbuf' : Reportbuf} {pData : HIDData} {age now stamp : Int}

/-- The value is that of the bits of the item. -/
theorem getValue_congr {buf buf' : List Byte}
    (h : ∀ weight < pData.size, bitAt buf (pData.offset + 8 + weight) = bitAt buf' (pData.offset + 8 + weight)) :
    getValue buf pData = getValue buf' pData := by
  have hloop : ∀ weights : List Nat, (∀ weight ∈ weights, weight < pData.size) → ∀ value : Int,
      weights.foldlM (fun value weight =>
        if bitAt buf (pData.offset + 8 + weight) then addBit value weight else some value) value =
      weights.foldlM (fun value weight =>
        if bitAt buf' (pData.offset + 8 + weight) then addBit value weight else some value) value := by
    intro weights
    induction weights with
    | nil => exact fun _ _ => rfl
    | cons weight weights ih =>
      intro hall value
      obtain ⟨hweight, hweights⟩ := List.forall_mem_cons.1 hall
      rw [List.foldlM_cons, List.foldlM_cons, h weight hweight]
      exact congrArg _ (funext fun value => ih hweights value)
  have hraw : rawValue buf pData = rawValue buf' pData :=
    hloop (List.range pData.size) (fun weight hweight => List.mem_range.1 hweight) 0
  rw [getValue, getValue, hraw]

/-- The buffer is young, or nothing is read, or the report is read into it. -/
theorem refresh_spec {reply : Option (List Byte)} {ok : Bool}
    (h : refreshReportBuffer rbuf pData age now stamp reply = some (rbuf', ok)) :
    (now < rbuf.ts pData.reportID + age ∧ rbuf' = rbuf ∧ ok = true) ∨
      (¬ now < rbuf.ts pData.reportID + age ∧ (reply = none ∨ reply = some []) ∧ rbuf' = rbuf ∧ ok = false) ∨
      ¬ now < rbuf.ts pData.reportID + age ∧ ∃ b report, reply = some (b :: report) ∧
        rbuf' = { rbuf with
          ts := Function.update rbuf.ts pData.reportID stamp
          data := Function.update rbuf.data pData.reportID
            (b :: report ++ (rbuf.data pData.reportID).drop (report.length + 1)) } ∧ ok = true := by
  unfold refreshReportBuffer at h
  dsimp only at h
  by_cases hyoung : now < rbuf.ts pData.reportID + age
  · rw [if_pos hyoung] at h
    obtain ⟨rfl, rfl⟩ := Prod.mk.inj (Option.some.inj h)
    exact .inl ⟨hyoung, rfl, rfl⟩
  · rw [if_neg hyoung] at h
    refine .inr ?_
    rcases reply with _ | _ | ⟨b, report⟩
    · obtain ⟨rfl, rfl⟩ := Prod.mk.inj (Option.some.inj h)
      exact .inl ⟨hyoung, .inl rfl, rfl, rfl⟩
    · obtain ⟨rfl, rfl⟩ := Prod.mk.inj (Option.some.inj h)
      exact .inl ⟨hyoung, .inr rfl, rfl, rfl⟩
    · dsimp only at h
      split_ifs at h
      obtain ⟨rfl, rfl⟩ := Prod.mk.inj (Option.some.inj h)
      exact .inr ⟨hyoung, b, report, rfl, rfl, rfl⟩

theorem bitAt_append_left {report rest : List Byte} {bit : Nat} (h : bit < 8 * report.length) :
    bitAt (report ++ rest) bit = bitAt report bit := by
  have hlt : bit / 8 < report.length := by omega
  rw [bitAt, bitAt, List.getD_eq_getElem?_getD, List.getD_eq_getElem?_getD, List.getElem?_append_left hlt]

theorem bitAt_take {report : List Byte} {n bit : Nat} (h : bit < 8 * n) : bitAt (report.take n) bit = bitAt report bit := by
  have hlt : bit / 8 < n := by omega
  rw [bitAt, bitAt, List.getD_eq_getElem?_getD, List.getD_eq_getElem?_getD, List.getElem?_take_of_lt hlt]

theorem hidSetDataValue_ts {hiddata : HIDData} {value : Int} {taken : Bool} {r : Option (List Byte)}
    (h : hidSetDataValue rbuf hiddata value taken = some (rbuf', r)) (id : Nat) :
    rbuf'.ts id = rbuf.ts id ∨ rbuf'.ts id = 0 := by
  unfold hidSetDataValue setItemBuffered at h
  dsimp only at h
  split_ifs at h
  · obtain ⟨rfl, -⟩ := Prod.mk.inj (Option.some.inj h)
    exact .inl rfl
  · obtain ⟨rfl, -⟩ := Prod.mk.inj (Option.some.inj h)
    exact .inr rfl
  · obtain ⟨rfl, -⟩ := Prod.mk.inj (Option.some.inj h)
    exact .inl rfl

end Steps

/-! ### The record -/

/-- The last report of an item's ID is in the buffer, with its time or with none. -/
structure Recorded (s : System) (log : List Stored) : Prop where
  timed : ∀ type id report time, .report type id report time ∈ log → 0 ≤ time
  found : ∀ pData : HIDData, pData.offset + 8 + pData.size ≤ 8 * s.rbuf.len pData.reportID →
    ∀ type id report time, log.find? (Stored.On pData) = some (.report type id report time) → Within pData report →
      (∀ weight < pData.size,
        bitAt (s.rbuf.data pData.reportID) (pData.offset + 8 + weight) = bitAt report (pData.offset + 8 + weight)) ∧
      (s.rbuf.ts pData.reportID = time ∨ s.rbuf.ts pData.reportID = 0)

section Record

variable {d : HIDDesc} {m : Bool} {s s' : System} {log log' : List Stored}

theorem recorded_start (device : Nat → List Byte) : Recorded (System.start d device) [] where
  timed := fun _ _ _ _ h => absurd h List.not_mem_nil
  found := fun _ _ _ _ _ _ h => by cases h

/-- A report is stored. -/
theorem Recorded.report (h : Recorded s log) {type id : Nat} {report data : List Byte} {time : Int} (htime : 0 ≤ time)
    (hbits : ∀ bit < 8 * report.length, bit < 8 * s.rbuf.len id → bitAt data bit = bitAt report bit) :
    Recorded ⟨{ s.rbuf with ts := Function.update s.rbuf.ts id time, data := Function.update s.rbuf.data id data }, s.device⟩
      (.report type id report time :: log) where
  timed := by
    intro type' id' report' time' hmem
    rcases List.mem_cons.1 hmem with heq | hmem
    · obtain ⟨-, -, -, rfl⟩ := Stored.report.inj heq
      exact htime
    · exact h.timed _ _ _ _ hmem
  found := by
    intro pData hroom type' id' report' time' hfind hwithin
    dsimp only at hroom ⊢
    by_cases hid : id = pData.reportID
    · rw [List.find?_cons_of_pos (by simpa [Stored.On] using hid)] at hfind
      obtain ⟨-, -, rfl, rfl⟩ := Stored.report.inj (Option.some.inj hfind)
      rw [← hid, Function.update_self, Function.update_self]
      unfold Within at hwithin
      rw [← hid] at hroom
      exact ⟨fun weight hweight => hbits _ (by omega) (by omega), .inl rfl⟩
    · rw [List.find?_cons_of_neg (by simpa [Stored.On] using hid)] at hfind
      rw [Function.update_of_ne (Ne.symm hid), Function.update_of_ne (Ne.symm hid)]
      exact h.found pData hroom _ _ _ _ hfind hwithin

/-- An item is set. -/
theorem Recorded.bits (h : Recorded s log) {hiddata : HIDData} {value : Int} {ts : Nat → Int}
    (hfits : hiddata.offset + 8 + hiddata.size ≤ 8 * (s.rbuf.data hiddata.reportID).length)
    (hts : ∀ id, ts id = s.rbuf.ts id ∨ ts id = 0) :
    Recorded
      ⟨{ s.rbuf with
          ts := ts
          data := Function.update s.rbuf.data hiddata.reportID
            (setValue hiddata (s.rbuf.data hiddata.reportID) value) }, s.device⟩
      (.bits hiddata.reportID hiddata.offset hiddata.size :: log) where
  timed := by
    intro type id report time hmem
    rcases List.mem_cons.1 hmem with heq | hmem
    · cases heq
    · exact h.timed _ _ _ _ hmem
  found := by
    intro pData hroom type id report time hfind hwithin
    dsimp only at hroom ⊢
    rw [List.find?_cons] at hfind
    split at hfind
    · cases hfind
    · rename_i hoff
      obtain ⟨hbits, htime⟩ := h.found pData hroom _ _ _ _ hfind hwithin
      constructor
      · intro weight hweight
        rw [← hbits weight hweight]
        by_cases hid : hiddata.reportID = pData.reportID
        · have hapart : ¬ (hiddata.offset < pData.offset + pData.size ∧ pData.offset < hiddata.offset + hiddata.size) := by
            simpa [Stored.On, hid] using hoff
          rw [← hid, Function.update_self, bitAt_setValue hfits, if_neg (by omega)]
        · rw [Function.update_of_ne (Ne.symm hid)]
      · rcases hts pData.reportID with hsame | hzero
        · rw [hsame]
          exact htime
        · exact .inr hzero

/-- What an event stores is recorded. -/
theorem Recorded.step (h : Recorded s log) {e : Event} {r : Option (List Byte)} (htimed : e.Timed)
    (hstep : s.step d m e = some (s', r)) : Recorded s' (s.stored d m e ++ log) := by
  cases e with
  | device id report =>
    obtain ⟨rfl, -⟩ := Prod.mk.inj (Option.some.inj hstep)
    exact ⟨h.timed, h.found⟩
  | interrupt buf now =>
    obtain ⟨rfl, -⟩ := Prod.mk.inj (Option.some.inj hstep)
    unfold System.stored
    dsimp only
    split_ifs
    · exact h
    · refine h.report htimed fun bit hbit hlen => ?_
      rw [bitAt_append_left (by rw [List.length_take]; omega), bitAt_take (by omega)]
  | getItem i age now stamp failed =>
    unfold System.step at hstep
    unfold System.stored
    dsimp only at hstep ⊢
    cases hitem : d.item[i]? with
    | none =>
      rw [hitem] at hstep
      obtain ⟨rfl, -⟩ := Prod.mk.inj (Option.some.inj hstep)
      exact h
    | some pData =>
      rw [hitem] at hstep
      obtain ⟨⟨rbuf, ok⟩, hread, hres⟩ := Option.map_eq_some_iff.1 hstep
      obtain ⟨rfl, -⟩ := Prod.mk.inj hres
      dsimp only
      rcases refresh_spec hread with ⟨hyoung, rfl, -⟩ | ⟨hold, hreply, rfl, -⟩ | ⟨hold, b, report, hreply, rfl, -⟩
      · rw [if_pos hyoung]
        exact h
      · rw [if_neg hold]
        rcases hreply with hreply | hreply
        · rw [show s.reply m pData.reportID failed = none from hreply]
          exact h
        · rw [show s.reply m pData.reportID failed = some [] from hreply]
          exact h
      · rw [if_neg hold, show s.reply m pData.reportID failed = some (b :: report) from hreply]
        exact h.report htimed fun bit hbit _ => bitAt_append_left hbit
  | setItem i value taken =>
    unfold System.step at hstep
    unfold System.stored
    dsimp only at hstep ⊢
    cases hitem : d.item[i]? with
    | none =>
      rw [hitem] at hstep
      obtain ⟨rfl, -⟩ := Prod.mk.inj (Option.some.inj hstep)
      exact h
    | some hiddata =>
      rw [hitem] at hstep
      obtain ⟨⟨rbuf, r'⟩, hset, hres⟩ := Option.map_eq_some_iff.1 hstep
      obtain ⟨rfl, -⟩ := Prod.mk.inj hres
      dsimp only
      have hts := hidSetDataValue_ts hset
      rcases hidSetDataValue_cases hset with ⟨hcst, rfl, -⟩ | ⟨hcst, hfits, -, ts, rfl⟩
      · rw [if_pos hcst]
        exact h
      · rw [if_neg hcst]
        exact h.bits hfits hts

/-- The record of a run. -/
theorem Recorded.run (h : Recorded s log) {events : List Event} (htimed : ∀ e ∈ events, e.Timed)
    (hrun : System.record d m (s, log) events = some (s', log')) :
    Recorded s' log' ∧ s.run d m events = some s' := by
  induction events generalizing s log with
  | nil =>
    obtain ⟨rfl, rfl⟩ := Prod.mk.inj (Option.some.inj hrun)
    exact ⟨h, rfl⟩
  | cons e events ih =>
    obtain ⟨he, hevents⟩ := List.forall_mem_cons.1 htimed
    rw [System.record, List.foldlM_cons] at hrun
    obtain ⟨mid, hmid, hrun⟩ := Option.bind_eq_some_iff.1 hrun
    obtain ⟨⟨s1, r⟩, hstep, rfl⟩ := Option.map_eq_some_iff.1 hmid
    obtain ⟨hrecorded, hrest⟩ := ih (h.step he hstep) hevents hrun
    refine ⟨hrecorded, ?_⟩
    rw [System.run, List.foldlM_cons]
    dsimp only at hstep
    rw [hstep]
    exact hrest

end Record

/-! ### Values -/

/-- In every run, when an item is read and nothing else was mixed into its report, the value is decoded from a report of its
own, which the device delivered just now or less than `age` seconds ago. -/
theorem value_traced {reportDesc : Nat → UInt8} {n : Nat} {d : HIDDesc} (hd : parseReportDesc reportDesc n = some d)
    {m : Bool} {device : Nat → List Byte} {events : List Event} {s : System} {log : List Stored}
    (htimed : ∀ e ∈ events, e.Timed) (hrun : System.record d m (System.start d device, []) events = some (s, log))
    {i : Nat} {pData : HIDData} (hitem : d.item[i]? = some pData) {age now stamp : Int} {failed : Bool}
    {rbuf : Reportbuf} {hValue : Int}
    (hget : getItemBuffered s.rbuf pData age now stamp (s.reply m pData.reportID failed) = some (rbuf, some hValue))
    (hunmixed : Unmixed m s log pData age now failed) :
    FromReport (s.stored d m (.getItem i age now stamp failed)) log pData age now hValue := by
  obtain ⟨hrecorded, hsystem⟩ := (recorded_start device).run htimed hrun
  have hroom := run_room hd hsystem pData (List.mem_of_getElem? hitem)
  obtain ⟨hsized, -⟩ := run_sized (newReportBuffer_spec d).1 hsystem
  rw [hsized] at hroom
  unfold Unmixed at hunmixed
  unfold getItemBuffered at hget
  cases hread : refreshReportBuffer s.rbuf pData age now stamp (s.reply m pData.reportID failed) with
  | none =>
    rw [hread] at hget
    cases hget
  | some result =>
    obtain ⟨rbuf', ok⟩ := result
    rw [hread] at hget
    rcases refresh_spec hread with ⟨hyoung, rfl, rfl⟩ | ⟨hold, -, -, rfl⟩ | ⟨hold, b, report, hreply, rfl, rfl⟩
    · obtain ⟨value, hvalue, hres⟩ := Option.map_eq_some_iff.1 hget
      obtain ⟨-, hsome⟩ := Prod.mk.inj hres
      obtain rfl := Option.some.inj hsome
      rw [if_pos hyoung] at hunmixed
      obtain ⟨report, time, hfind, hwithin⟩ := hunmixed
      obtain ⟨hbits, htime⟩ := hrecorded.found pData hroom _ _ _ _ hfind hwithin
      have hmem := List.mem_of_find?_eq_some hfind
      have hpos : 0 ≤ time := hrecorded.timed _ _ _ _ hmem
      refine ⟨report, time, ?_, hwithin, .inr ⟨hmem, ?_⟩⟩
      · rw [← getValue_congr hbits]
        exact hvalue
      · rcases htime with htime | htime <;> omega
    · cases hget
    · obtain ⟨value, hvalue, hres⟩ := Option.map_eq_some_iff.1 hget
      obtain ⟨-, hsome⟩ := Prod.mk.inj hres
      obtain rfl := Option.some.inj hsome
      rw [if_neg hold] at hunmixed
      obtain ⟨htype, hwithin⟩ := hunmixed (b :: report) hreply (List.cons_ne_nil b report)
      refine ⟨b :: report, stamp, ?_, hwithin, .inl ?_⟩
      · have hbits : ∀ weight < pData.size,
            bitAt (b :: report ++ (s.rbuf.data pData.reportID).drop (report.length + 1)) (pData.offset + 8 + weight) =
              bitAt (b :: report) (pData.offset + 8 + weight) := by
          intro weight hweight
          unfold Within at hwithin
          exact bitAt_append_left (by omega)
        rw [← getValue_congr hbits]
        dsimp only at hvalue
        rw [Function.update_self] at hvalue
        exact hvalue
      · unfold System.stored
        dsimp only
        rw [hitem]
        dsimp only
        rw [if_neg hold, hreply, htype]
        exact List.mem_singleton_self _

/-- A Feature item of 16 bits and an Input item of 8 bits, both in report 1. -/
private def sharedDesc : List UInt8 :=
  [0x05, 0x84, 0x09, 0x04, 0xA1, 0x01, 0x85, 0x01, 0x15, 0x00, 0x26, 0xFF, 0x00, 0x75, 0x10, 0x95, 0x01, 0x09, 0x24, 0xB1,
    0x02, 0x75, 0x08, 0x09, 0x25, 0x81, 0x02, 0xC0]

/-- The Feature item is read from the device, and the report of the device changes. -/
private def cachedEvents : List Event := [.getItem 0 2 100 100 false, .device 1 [1, 9, 0]]

/-- Three seconds later the Feature item is read from the buffer. -/
theorem value_traced_cached : ∃ d s log pData, parseReportDesc (memory sharedDesc) 28 = some d ∧ d.item[0]? = some pData ∧
    System.record d false (System.start d fun _ => [1, 5, 0], []) cachedEvents = some (s, log) ∧
    s.stored d false (.getItem 0 5 103 103 false) = [] ∧
    FromReport (s.stored d false (.getItem 0 5 103 103 false)) log pData 5 103 5 := by
  have hall : ((parseReportDesc (memory sharedDesc) 28).bind fun d => d.item[0]?.bind fun pData =>
      (System.record d false (System.start d fun _ => [1, 5, 0], []) cachedEvents).bind fun r =>
        (getItemBuffered r.1.rbuf pData 5 103 103 (r.1.reply false pData.reportID false)).map fun g =>
          (g.2, decide (103 < r.1.rbuf.ts pData.reportID + 5),
            decide (r.2.find? (Stored.On pData) = some (.report pData.type pData.reportID [1, 5, 0] 100)),
            decide (pData.offset + 8 + pData.size ≤ 8 * 3))) = some (some 5, true, true, true) := by decide +kernel
  obtain ⟨d, hd, hall⟩ := Option.bind_eq_some_iff.1 hall
  obtain ⟨pData, hitem, hall⟩ := Option.bind_eq_some_iff.1 hall
  obtain ⟨⟨s, log⟩, hrun, hall⟩ := Option.bind_eq_some_iff.1 hall
  obtain ⟨⟨rbuf, value⟩, hget, hall⟩ := Option.map_eq_some_iff.1 hall
  simp only [Prod.mk.injEq, decide_eq_true_eq] at hall
  obtain ⟨rfl, hold, hfind, hwithin⟩ := hall
  have htimed : ∀ e ∈ cachedEvents, Event.Timed e := by
    intro e he
    rcases List.mem_cons.1 he with rfl | he
    · exact (by decide : (0 : Int) ≤ 100)
    · rw [List.mem_singleton.1 he]
      trivial
  have hunmixed : Unmixed false s log pData 5 103 false := by
    rw [Unmixed, if_pos hold]
    exact ⟨[1, 5, 0], 100, hfind, hwithin⟩
  refine ⟨d, s, log, pData, hd, hitem, hrun, ?_, value_traced hd htimed hrun hitem hget hunmixed⟩
  rw [System.stored, hitem]
  exact if_pos hold

/-- An Input report arrives, and the Feature item with its ID is decoded from it. -/
theorem feature_from_input : ¬∀ reportDesc n d, parseReportDesc reportDesc n = some d → ∀ m device events s log,
    (∀ e ∈ events, Event.Timed e) → System.record d m (System.start d device, []) events = some (s, log) →
    ∀ i pData age now stamp failed rbuf hValue, d.item[i]? = some pData →
    getItemBuffered s.rbuf pData age now stamp (s.reply m pData.reportID failed) = some (rbuf, some hValue) →
    FromReport (s.stored d m (.getItem i age now stamp failed)) log pData age now hValue := by
  intro h
  have hall : ((parseReportDesc (memory sharedDesc) 28).bind fun d => d.item[0]?.bind fun pData =>
      (System.record d false (System.start d fun _ => [], []) [.interrupt [1, 7] 100]).bind fun r =>
        (getItemBuffered r.1.rbuf pData 30 101 101 (r.1.reply false pData.reportID false)).map fun result =>
          (result.2, pData.type, decide (101 < r.1.rbuf.ts pData.reportID + 30))) = some (some 7, itemFeature, true) := by
    decide +kernel
  obtain ⟨d, hd, hall⟩ := Option.bind_eq_some_iff.1 hall
  obtain ⟨pData, hitem, hall⟩ := Option.bind_eq_some_iff.1 hall
  obtain ⟨⟨s, log⟩, hrun, hall⟩ := Option.bind_eq_some_iff.1 hall
  obtain ⟨⟨rbuf, value⟩, hget, hall⟩ := Option.map_eq_some_iff.1 hall
  simp only [Prod.mk.injEq] at hall
  obtain ⟨rfl, htype, hyoung⟩ := hall
  have htimed : ∀ e ∈ [Event.interrupt [1, 7] 100], e.Timed := by
    intro e he
    rw [List.mem_singleton.1 he]
    exact (by decide : (0 : Int) ≤ 100)
  obtain ⟨report, time, -, -, hmem | ⟨hmem, -⟩⟩ := h _ _ d hd false _ _ s log htimed hrun 0 pData 30 101 101 false rbuf 7
    hitem hget
  · unfold System.stored at hmem
    dsimp only at hmem
    rw [hitem] at hmem
    dsimp only at hmem
    rw [if_pos (of_decide_eq_true hyoung)] at hmem
    exact List.not_mem_nil hmem
  · obtain ⟨-, rfl⟩ := Prod.mk.inj (Option.some.inj hrun)
    rw [htype] at hmem
    have hinput : Stored.report itemFeature pData.reportID report time ∈ [.report itemInput 1 [1, 7] 100] := hmem
    obtain ⟨hsame, -⟩ := Stored.report.inj (List.mem_singleton.1 hinput)
    exact absurd hsame (by decide)

end Hid

end Nut
