import Nut.Drivers.Hidparser
import Mathlib.Logic.Function.Basic

/-!
# `libhid.c`: the report buffer

The items of a report share one buffer (`Reportbuf`).  It is read from the device when an item is wanted and the buffer is
old, and input reports go into it as they arrive.  To set an item its bits are changed in the buffer, as old as that may be,
and the whole report is sent.  So an item is sent as it was last read (`neighbours_kept_iff`).

A value to set is one in logical units.  The device is what `get_report` would return, for every report.  There is no result
where a buffer overflows.
-/

namespace Nut

namespace Hid

/-- The length is that of the report and its ID; a report that is not allocated has no data. -/
structure Reportbuf where
  ts : Nat → Int
  len : Nat → Nat
  data : Nat → List Byte

def newReportBuffer (d : HIDDesc) : Reportbuf :=
  d.item.foldl (fun rbuf pData =>
    let id := pData.reportID
    if rbuf.data id ≠ [] then rbuf
    else
      { rbuf with
        len := Function.update rbuf.len id (d.replen id + 1)
        data := Function.update rbuf.data id (List.replicate (d.replen id + 1) 0) })
    ⟨fun _ => 0, fun _ => 0, fun _ => []⟩

/-- The size of a pointer: what `max_report_size` makes of the size to ask for. -/
def sizeofPointer : Nat := 8

/-- What `get_report` returns. -/
def getReport (maxReportSize : Bool) (rbuf : Reportbuf) (device : Nat → List Byte) (id : Nat) : List Byte :=
  (device id).take (if maxReportSize then sizeofPointer else rbuf.len id)

/-- `now` and `stamp` are the two times that are taken.  The result says whether the report is in the buffer. -/
def refreshReportBuffer (rbuf : Reportbuf) (pData : HIDData) (age now stamp : Int) (reply : Option (List Byte)) :
    Option (Reportbuf × Bool) :=
  let id := pData.reportID
  if now < rbuf.ts id + age then some (rbuf, true)
  else
    match reply with
    | none => some (rbuf, false)
    | some [] => some (rbuf, false)
    | some (b :: reply) =>
      if (rbuf.data id).length < reply.length + 1 then none
      else
        some ({ rbuf with
          ts := Function.update rbuf.ts id stamp
          data := Function.update rbuf.data id (b :: reply ++ (rbuf.data id).drop (reply.length + 1)) }, true)

/-- The second result is the report that is sent, and the third whether the device took it. -/
def setItemBuffered (rbuf : Reportbuf) (pData : HIDData) (value : Int) (taken : Bool) :
    Option (Reportbuf × List Byte × Bool) :=
  let id := pData.reportID
  if 8 * (rbuf.data id).length < pData.offset + 8 + pData.size then none
  else
    let report := setValue pData (rbuf.data id) value
    let rbuf := { rbuf with data := Function.update rbuf.data id report }
    if taken then some ({ rbuf with ts := Function.update rbuf.ts id 0 }, report, true) else some (rbuf, report, false)

def fileReportBuffer (rbuf : Reportbuf) (buf : List Byte) (now : Int) : Reportbuf :=
  let id := (buf.headD 0).toNat
  { rbuf with
    ts := Function.update rbuf.ts id now
    data := Function.update rbuf.data id (buf.take (rbuf.len id) ++ (rbuf.data id).drop (buf.take (rbuf.len id)).length) }

def attrDataCst : Nat := 0x01

/-- A report is sent when the item is not constant. -/
def hidSetDataValue (rbuf : Reportbuf) (hiddata : HIDData) (value : Int) (taken : Bool) :
    Option (Reportbuf × Option (List Byte)) :=
  if hiddata.attr = attrDataCst then some (rbuf, none)
  else
    match setItemBuffered rbuf hiddata value taken with
    | none => none
    | some (rbuf, report, false) => some (rbuf, some report)
    | some (rbuf, report, true) => some ({ rbuf with ts := fun _ => 0 }, some report)

/-! ### Runs -/

/-- The driver and the device. -/
structure System where
  rbuf : Reportbuf
  device : Nat → List Byte

/-- What happens: item `i` is read or set, an input report arrives, or a report of the device changes. -/
inductive Event where
  | getItem (i : Nat) (age now stamp : Int) (failed : Bool)
  | setItem (i : Nat) (value : Int) (taken : Bool)
  | interrupt (buf : List Byte) (now : Int)
  | device (id : Nat) (report : List Byte)

/-- The second result is the report that is sent to the device. -/
def System.step (d : HIDDesc) (maxReportSize : Bool) (s : System) : Event → Option (System × Option (List Byte))
  | .getItem i age now stamp failed =>
    match d.item[i]? with
    | none => some (s, none)
    | some hiddata =>
      let reply := if failed then none else some (getReport maxReportSize s.rbuf s.device hiddata.reportID)
      (refreshReportBuffer s.rbuf hiddata age now stamp reply).map fun r => ({ s with rbuf := r.1 }, none)
  | .setItem i value taken =>
    match d.item[i]? with
    | none => some (s, none)
    | some hiddata => (hidSetDataValue s.rbuf hiddata value taken).map fun r => ({ s with rbuf := r.1 }, r.2)
  | .interrupt buf now => some (if buf = [] then s else { s with rbuf := fileReportBuffer s.rbuf buf now }, none)
  | .device id report => some ({ s with device := Function.update s.device id report }, none)

def System.start (d : HIDDesc) (device : Nat → List Byte) : System := ⟨newReportBuffer d, device⟩

def System.run (d : HIDDesc) (maxReportSize : Bool) (s : System) (events : List Event) : Option System :=
  events.foldlM (fun s e => (s.step d maxReportSize e).map Prod.fst) s

/-! ### The neighbours of an item -/

/-- The other items of the report of item `i`. -/
def neighbours (d : HIDDesc) (i : Nat) : List HIDData :=
  match d.item[i]? with
  | none => []
  | some pData => (d.item.eraseIdx i).filter fun other => other.reportID = pData.reportID ∧ other.type = pData.type

/-- A bit that the device holds: it returns the byte with it. -/
def System.held (maxReportSize : Bool) (s : System) (id bit : Nat) : Option Bool :=
  (getReport maxReportSize s.rbuf s.device id)[bit / 8]?.map fun b => b.getLsbD (bit % 8)

/-- A report carries what the device holds of an item. -/
def System.Carries (maxReportSize : Bool) (s : System) (report : List Byte) (pData : HIDData) : Prop :=
  ∀ weight < pData.size, ∀ x, s.held maxReportSize pData.reportID (pData.offset + 8 + weight) = some x →
    bitAt report (pData.offset + 8 + weight) = x

/-- What the report of an item will carry once that is set: its bits are those of the value, and the others those of the
buffer.  So much is to be what the device holds of another item. -/
def System.Current (maxReportSize : Bool) (s : System) (pData : HIDData) (value : Int) (other : HIDData) : Prop :=
  ∀ weight < other.size, ∀ x, s.held maxReportSize other.reportID (other.offset + 8 + weight) = some x →
    (if pData.offset ≤ other.offset + weight ∧ other.offset + weight < pData.offset + pData.size then
      valueBit value (other.offset + weight - pData.offset)
    else bitAt (s.rbuf.data pData.reportID) (other.offset + 8 + weight)) = x

/-! ### The buffer -/

/-- Every report that is allocated has its length. -/
def Sized (rbuf : Reportbuf) : Prop := ∀ id, (rbuf.data id).length = rbuf.len id

/-- A report is replaced by one that is as long. -/
private theorem sized_update {rbuf : Reportbuf} (hs : Sized rbuf) {id : Nat} {report : List Byte} {ts : Nat → Int}
    (h : report.length = rbuf.len id) : Sized ⟨ts, rbuf.len, Function.update rbuf.data id report⟩ := by
  intro id'
  by_cases hid : id' = id
  · rw [hid]
    dsimp only
    rw [Function.update_self]
    exact h
  · dsimp only
    rw [Function.update_of_ne hid]
    exact hs id'

theorem newReportBuffer_spec (d : HIDDesc) : Sized (newReportBuffer d) ∧
    ∀ data ∈ d.item, (newReportBuffer d).len data.reportID = d.replen data.reportID + 1 := by
  have hloop : ∀ (items : List HIDData) (rbuf : Reportbuf), Sized rbuf →
      (∀ id, rbuf.data id ≠ [] → rbuf.len id = d.replen id + 1) → ∀ rbuf', items.foldl (fun rbuf pData =>
        let id := pData.reportID
        if rbuf.data id ≠ [] then rbuf
        else
          { rbuf with
            len := Function.update rbuf.len id (d.replen id + 1)
            data := Function.update rbuf.data id (List.replicate (d.replen id + 1) 0) }) rbuf = rbuf' →
      Sized rbuf' ∧ (∀ id, rbuf.data id ≠ [] → rbuf'.data id ≠ []) ∧
        (∀ id, rbuf'.data id ≠ [] → rbuf'.len id = d.replen id + 1) ∧ ∀ data ∈ items, rbuf'.data data.reportID ≠ [] := by
    intro items
    induction items with
    | nil =>
      rintro rbuf hs hlen rbuf' rfl
      exact ⟨hs, fun _ h => h, hlen, by simp⟩
    | cons pData items ih =>
      intro rbuf hs hlen rbuf' hfold
      rw [List.foldl_cons] at hfold
      dsimp only at hfold
      by_cases halloc : rbuf.data pData.reportID ≠ []
      · rw [if_pos halloc] at hfold
        obtain ⟨hs', hkept, hlen', hall⟩ := ih rbuf hs hlen rbuf' hfold
        refine ⟨hs', hkept, hlen', fun data hdata => ?_⟩
        rcases List.mem_cons.1 hdata with rfl | hdata
        · exact hkept _ halloc
        · exact hall data hdata
      · rw [if_neg halloc] at hfold
        have hzeros : List.replicate (d.replen pData.reportID + 1) (0 : Byte) ≠ [] := by simp
        have hsized : Sized ⟨rbuf.ts, Function.update rbuf.len pData.reportID (d.replen pData.reportID + 1),
            Function.update rbuf.data pData.reportID (List.replicate (d.replen pData.reportID + 1) 0)⟩ := by
          intro id
          dsimp only
          by_cases heq : id = pData.reportID
          · simp [heq]
          · rw [Function.update_of_ne heq, Function.update_of_ne heq]
            exact hs id
        obtain ⟨hs', hkept, hlen', hall⟩ := ih _ hsized (fun id hid => by
          dsimp only at hid ⊢
          by_cases heq : id = pData.reportID
          · rw [heq, Function.update_self]
          · rw [Function.update_of_ne heq] at hid ⊢
            exact hlen id hid) rbuf' hfold
        refine ⟨hs', fun id hid => hkept id ?_, hlen', fun data hdata => ?_⟩
        · dsimp only
          by_cases heq : id = pData.reportID
          · rw [heq, Function.update_self]
            exact hzeros
          · rw [Function.update_of_ne heq]
            exact hid
        · rcases List.mem_cons.1 hdata with rfl | hdata
          · refine hkept _ ?_
            dsimp only
            rw [Function.update_self]
            exact hzeros
          · exact hall data hdata
  obtain ⟨hs, -, hlen, hall⟩ := hloop d.item ⟨fun _ => 0, fun _ => 0, fun _ => []⟩ (fun _ => rfl)
    (fun _ h => absurd rfl h) _ rfl
  exact ⟨hs, fun data hdata => hlen _ (hall data hdata)⟩

/-- The buffer is as it was, or the report was read into it. -/
theorem refresh_cases {rbuf rbuf' : Reportbuf} {pData : HIDData} {age now stamp : Int} {reply : Option (List Byte)} {ok : Bool}
    (h : refreshReportBuffer rbuf pData age now stamp reply = some (rbuf', ok)) : rbuf' = rbuf ∨
      ∃ report, reply = some report ∧ report.length ≤ (rbuf.data pData.reportID).length ∧
        rbuf' = { rbuf with
          ts := Function.update rbuf.ts pData.reportID stamp
          data := Function.update rbuf.data pData.reportID
            (report ++ (rbuf.data pData.reportID).drop report.length) } := by
  unfold refreshReportBuffer at h
  dsimp only at h
  split_ifs at h
  · exact .inl (Prod.mk.inj (Option.some.inj h)).1.symm
  · split at h
    · exact .inl (Prod.mk.inj (Option.some.inj h)).1.symm
    · exact .inl (Prod.mk.inj (Option.some.inj h)).1.symm
    · rename_i b report
      split_ifs at h with hlong
      refine .inr ⟨b :: report, rfl, by rw [List.length_cons]; omega, (Prod.mk.inj (Option.some.inj h)).1.symm⟩

/-- Nothing is sent of a constant item; otherwise the report in the buffer is changed and sent. -/
theorem hidSetDataValue_cases {rbuf rbuf' : Reportbuf} {hiddata : HIDData} {value : Int} {taken : Bool}
    {r : Option (List Byte)} (h : hidSetDataValue rbuf hiddata value taken = some (rbuf', r)) :
    (hiddata.attr = attrDataCst ∧ rbuf' = rbuf ∧ r = none) ∨
      (hiddata.attr ≠ attrDataCst ∧ hiddata.offset + 8 + hiddata.size ≤ 8 * (rbuf.data hiddata.reportID).length ∧
        r = some (setValue hiddata (rbuf.data hiddata.reportID) value) ∧ ∃ ts, rbuf' = { rbuf with
          ts := ts
          data := Function.update rbuf.data hiddata.reportID
            (setValue hiddata (rbuf.data hiddata.reportID) value) }) := by
  unfold hidSetDataValue setItemBuffered at h
  by_cases hcst : hiddata.attr = attrDataCst
  · rw [if_pos hcst] at h
    obtain ⟨rfl, rfl⟩ := Prod.mk.inj (Option.some.inj h)
    exact .inl ⟨hcst, rfl, rfl⟩
  rw [if_neg hcst] at h
  dsimp only at h
  by_cases hfits : 8 * (rbuf.data hiddata.reportID).length < hiddata.offset + 8 + hiddata.size
  · simp [hfits] at h
  rw [if_neg hfits] at h
  cases taken with
  | true =>
    obtain ⟨rfl, rfl⟩ := Prod.mk.inj (Option.some.inj h)
    exact .inr ⟨hcst, by omega, rfl, _, rfl⟩
  | false =>
    obtain ⟨rfl, rfl⟩ := Prod.mk.inj (Option.some.inj h)
    exact .inr ⟨hcst, by omega, rfl, _, rfl⟩

/-- A step leaves the lengths as they are. -/
theorem step_sized {d : HIDDesc} {m : Bool} {s s' : System} {e : Event} {r : Option (List Byte)}
    (hs : Sized s.rbuf) (h : s.step d m e = some (s', r)) : Sized s'.rbuf ∧ s'.rbuf.len = s.rbuf.len := by
  cases e with
  | device id report =>
    obtain ⟨rfl, -⟩ := Prod.mk.inj (Option.some.inj h)
    exact ⟨hs, rfl⟩
  | interrupt buf now =>
    obtain ⟨rfl, -⟩ := Prod.mk.inj (Option.some.inj h)
    split_ifs
    · exact ⟨hs, rfl⟩
    · refine ⟨sized_update hs ?_, rfl⟩
      rw [List.length_append, List.length_drop, hs, List.length_take]
      omega
  | getItem i age now stamp failed =>
    unfold System.step at h
    dsimp only at h
    split at h
    · obtain ⟨rfl, -⟩ := Prod.mk.inj (Option.some.inj h)
      exact ⟨hs, rfl⟩
    · obtain ⟨⟨rbuf, ok⟩, hread, hres⟩ := Option.map_eq_some_iff.1 h
      obtain ⟨rfl, -⟩ := Prod.mk.inj hres
      rcases refresh_cases hread with rfl | ⟨report, -, hle, rfl⟩
      · exact ⟨hs, rfl⟩
      · refine ⟨sized_update hs ?_, rfl⟩
        rw [← hs, List.length_append, List.length_drop]
        omega
  | setItem i value taken =>
    unfold System.step at h
    dsimp only at h
    split at h
    · obtain ⟨rfl, -⟩ := Prod.mk.inj (Option.some.inj h)
      exact ⟨hs, rfl⟩
    · obtain ⟨⟨rbuf, r'⟩, hset, hres⟩ := Option.map_eq_some_iff.1 h
      obtain ⟨rfl, -⟩ := Prod.mk.inj hres
      rcases hidSetDataValue_cases hset with ⟨-, rfl, -⟩ | ⟨-, -, -, ts, rfl⟩
      · exact ⟨hs, rfl⟩
      · exact ⟨sized_update hs (by rw [length_setValue, hs]), rfl⟩

/-- A run leaves the lengths as they are. -/
theorem run_sized {d : HIDDesc} {m : Bool} {events : List Event} {s s' : System} (hs : Sized s.rbuf)
    (h : s.run d m events = some s') : Sized s'.rbuf ∧ s'.rbuf.len = s.rbuf.len := by
  induction events generalizing s with
  | nil =>
    obtain rfl := Option.some.inj h
    exact ⟨hs, rfl⟩
  | cons e events ih =>
    rw [System.run, List.foldlM_cons] at h
    obtain ⟨mid, hmid, h⟩ := Option.bind_eq_some_iff.1 h
    obtain ⟨⟨mid', r⟩, hstep, rfl⟩ := Option.map_eq_some_iff.1 hmid
    obtain ⟨hs', hlen⟩ := step_sized hs hstep
    obtain ⟨hs'', hlen'⟩ := ih hs' h
    exact ⟨hs'', hlen'.trans hlen⟩

/-- In a run the buffer has room for every report. -/
theorem run_room {reportDesc : Nat → UInt8} {n : Nat} {d : HIDDesc} (hd : parseReportDesc reportDesc n = some d)
    {m : Bool} {device : Nat → List Byte} {events : List Event} {s : System}
    (hrun : (System.start d device).run d m events = some s) :
    ∀ data ∈ d.item, data.offset + 8 + data.size ≤ 8 * (s.rbuf.data data.reportID).length := by
  obtain ⟨hs, hlen⟩ := newReportBuffer_spec d
  obtain ⟨hs', hlen'⟩ := run_sized hs hrun
  intro data hdata
  have hroom := parse_replen hd data hdata
  have hall := hlen data hdata
  rw [hs', hlen', System.start]
  dsimp only
  omega

/-! ### Setting an item -/

private theorem reportID_of_neighbour {d : HIDDesc} {i : Nat} {pData other : HIDData} (hitem : d.item[i]? = some pData)
    (h : other ∈ neighbours d i) : other.reportID = pData.reportID := by
  unfold neighbours at h
  rw [hitem] at h
  simpa using And.left (by simpa using (List.mem_filter.1 h).2)

/-- In every run, when an item is set that is not constant, a report is sent; it carries what the device holds of the other
items of the report if and only if the value and the report in the buffer do. -/
theorem neighbours_kept_iff {reportDesc : Nat → UInt8} {n : Nat} {d : HIDDesc} (hd : parseReportDesc reportDesc n = some d)
    {m : Bool} {device : Nat → List Byte} {events : List Event} {s : System}
    (hrun : (System.start d device).run d m events = some s) {i : Nat} {pData : HIDData} (hitem : d.item[i]? = some pData)
    (hattr : pData.attr ≠ attrDataCst) (value : Int) (taken : Bool) :
    ∃ s' report, s.step d m (.setItem i value taken) = some (s', some report) ∧
      ((∀ other ∈ neighbours d i, s.Carries m report other) ↔
        ∀ other ∈ neighbours d i, s.Current m pData value other) := by
  have hroom := run_room hd hrun pData (List.mem_of_getElem? hitem)
  have hsends : ∃ s', s.step d m (.setItem i value taken) =
      some (s', some (setValue pData (s.rbuf.data pData.reportID) value)) := by
    unfold System.step hidSetDataValue setItemBuffered
    dsimp only
    rw [hitem]
    dsimp only
    rw [if_neg hattr, if_neg (by omega)]
    cases taken
    · exact ⟨_, rfl⟩
    · exact ⟨_, rfl⟩
  obtain ⟨s', hstep⟩ := hsends
  refine ⟨s', _, hstep, forall₂_congr fun other hother => ?_⟩
  have hid := reportID_of_neighbour hitem hother
  refine forall₂_congr fun weight _ => forall₂_congr fun x _ => ?_
  rw [bitAt_setValue hroom]
  have hin : (pData.offset + 8 ≤ other.offset + 8 + weight ∧ other.offset + 8 + weight < pData.offset + 8 + pData.size) ↔
      pData.offset ≤ other.offset + weight ∧ other.offset + weight < pData.offset + pData.size := by omega
  have hweight : other.offset + 8 + weight - (pData.offset + 8) = other.offset + weight - pData.offset := by omega
  rw [hweight]
  simp only [hin]

/-- The report in the buffer is what the device returns. -/
def System.Fresh (m : Bool) (s : System) (id : Nat) : Prop :=
  ∀ bit x, s.held m id bit = some x → bitAt (s.rbuf.data id) bit = x

/-- What changes a report in the buffer or in the device, other than a read. -/
def Touches (d : HIDDesc) (id : Nat) : Event → Prop
  | .getItem .. => False
  | .setItem i _ _ => ∃ pData, d.item[i]? = some pData ∧ pData.reportID = id
  | .interrupt buf _ => (buf.headD 0).toNat = id
  | .device id' _ => id' = id

/-- An item that has no bit in common with the one that is set is sent as the device has it when the report is fresh. -/
theorem current_of_fresh {m : Bool} {s : System} {pData other : HIDData} (h : s.Fresh m pData.reportID)
    (hid : other.reportID = pData.reportID)
    (hapart : other.offset + other.size ≤ pData.offset ∨ pData.offset + pData.size ≤ other.offset) (value : Int) :
    s.Current m pData value other := by
  intro weight hweight x hx
  rw [if_neg (by omega), ← hid]
  exact hid ▸ h _ x (hid ▸ hx)

private theorem bitAt_read {report rest : List Byte} {bit : Nat} {x : Bool}
    (h : report[bit / 8]?.map (fun b => b.getLsbD (bit % 8)) = some x) : bitAt (report ++ rest) bit = x := by
  obtain ⟨b, hb, rfl⟩ := Option.map_eq_some_iff.1 h
  have hlt : bit / 8 < report.length := (List.getElem?_eq_some_iff.1 hb).1
  rw [bitAt, List.getD_eq_getElem?_getD, List.getElem?_append_left hlt, hb]
  rfl

/-- A read makes the report fresh. -/
theorem fresh_of_read {d : HIDDesc} {m : Bool} {s s' : System} {i : Nat} {pData : HIDData} {age now stamp : Int}
    {r : Option (List Byte)} (hitem : d.item[i]? = some pData) (hold : s.rbuf.ts pData.reportID + age ≤ now)
    (hreply : getReport m s.rbuf s.device pData.reportID ≠ [])
    (h : s.step d m (.getItem i age now stamp false) = some (s', r)) : s'.Fresh m pData.reportID := by
  unfold System.step at h
  dsimp only at h
  rw [hitem] at h
  obtain ⟨⟨rbuf, ok⟩, hread, hres⟩ := Option.map_eq_some_iff.1 h
  obtain ⟨rfl, -⟩ := Prod.mk.inj hres
  unfold refreshReportBuffer at hread
  dsimp only at hread
  rw [if_neg (by omega), if_neg (by decide)] at hread
  split at hread
  · contradiction
  · rename_i hnil
    exact absurd (Option.some.inj hnil) hreply
  · rename_i b report hsome
    split_ifs at hread
    obtain ⟨rfl, -⟩ := Prod.mk.inj (Option.some.inj hread)
    intro bit x hx
    have hsame : s.held m pData.reportID bit = some x := hx
    rw [System.held, Option.some.inj hsome] at hsame
    dsimp only
    rw [Function.update_self]
    exact bitAt_read hsame

/-- A report stays fresh. -/
theorem fresh_step {d : HIDDesc} {m : Bool} {s s' : System} {e : Event} {r : Option (List Byte)} {id : Nat}
    (hf : s.Fresh m id) (he : ¬Touches d id e) (h : s.step d m e = some (s', r)) : s'.Fresh m id := by
  -- the buffer and the device are the same for this report
  have hsame (rbuf : Reportbuf) (device : Nat → List Byte) (hdata : rbuf.data id = s.rbuf.data id)
      (hlen : rbuf.len = s.rbuf.len) (hdevice : device id = s.device id) : System.Fresh m ⟨rbuf, device⟩ id := by
    intro bit x hx
    rw [System.held, getReport] at hx
    dsimp only at hx ⊢
    rw [hdevice, hlen] at hx
    rw [hdata]
    exact hf bit x hx
  cases e with
  | device id' report =>
    obtain ⟨rfl, -⟩ := Prod.mk.inj (Option.some.inj h)
    exact hsame _ _ rfl rfl (Function.update_of_ne (fun heq => he heq.symm) ..)
  | interrupt buf now =>
    obtain ⟨rfl, -⟩ := Prod.mk.inj (Option.some.inj h)
    split_ifs
    · exact hf
    · exact hsame _ _ (Function.update_of_ne (fun heq => he heq.symm) ..) rfl rfl
  | getItem i age now stamp failed =>
    unfold System.step at h
    dsimp only at h
    split at h
    · obtain ⟨rfl, -⟩ := Prod.mk.inj (Option.some.inj h)
      exact hf
    · rename_i hiddata hitem
      obtain ⟨⟨rbuf, ok⟩, hread, hres⟩ := Option.map_eq_some_iff.1 h
      obtain ⟨rfl, -⟩ := Prod.mk.inj hres
      rcases refresh_cases hread with rfl | ⟨report, hreply, -, rfl⟩
      · exact hf
      · by_cases hid : id = hiddata.reportID
        · -- it is read again
          split_ifs at hreply
          intro bit x hx
          have hheld : s.held m id bit = some x := hx
          rw [System.held, hid, Option.some.inj hreply] at hheld
          dsimp only
          rw [hid, Function.update_self]
          exact bitAt_read hheld
        · exact hsame _ _ (Function.update_of_ne hid ..) rfl rfl
  | setItem i value taken =>
    unfold System.step at h
    dsimp only at h
    split at h
    · obtain ⟨rfl, -⟩ := Prod.mk.inj (Option.some.inj h)
      exact hf
    · rename_i hiddata hitem
      obtain ⟨⟨rbuf, r'⟩, hset, hres⟩ := Option.map_eq_some_iff.1 h
      obtain ⟨rfl, -⟩ := Prod.mk.inj hres
      rcases hidSetDataValue_cases hset with ⟨-, rfl, -⟩ | ⟨-, -, -, ts, rfl⟩
      · exact hf
      · have hid : id ≠ hiddata.reportID := fun heq => he ⟨hiddata, hitem, heq.symm⟩
        exact hsame _ _ (Function.update_of_ne hid ..) rfl rfl

/-- A report that was read is fresh until something touches it. -/
theorem fresh_run {d : HIDDesc} {m : Bool} {id : Nat} {events : List Event} {s s' : System} (hf : s.Fresh m id)
    (he : ∀ e ∈ events, ¬Touches d id e) (h : s.run d m events = some s') : s'.Fresh m id := by
  induction events generalizing s with
  | nil =>
    obtain rfl := Option.some.inj h
    exact hf
  | cons e events ih =>
    rw [System.run, List.foldlM_cons] at h
    obtain ⟨mid, hmid, h⟩ := Option.bind_eq_some_iff.1 h
    obtain ⟨⟨mid', r⟩, hstep, rfl⟩ := Option.map_eq_some_iff.1 hmid
    exact ih (fresh_step hf (he e (List.mem_cons_self ..)) hstep) (fun e' he' => he e' (List.mem_cons_of_mem _ he')) h

/-- The driver at work: an item of 8 bits of two in report 1. -/
private def twoFeatures : List UInt8 :=
  [0x05, 0x84, 0x09, 0x04, 0xA1, 0x01, 0x85, 0x01, 0x75, 0x08, 0x95, 0x01, 0x09, 0x24, 0xB1, 0x02, 0x09, 0x25, 0xB1, 0x02,
    0xC0]

/-- The device of the two items. -/
private def atRest (d : HIDDesc) : System := System.start d fun _ => [1, 5, 7]

/-- The second item is read, and then another report changes. -/
private def readThenOther : List Event := [.getItem 1 2 100 100 false, .device 2 [2, 6]]

/-- The first item is set when the second has been read and nothing touched it since. -/
theorem neighbour_kept_when_read : ∃ d s pData, parseReportDesc (memory twoFeatures) 21 = some d ∧
    (atRest d).run d false readThenOther = some s ∧ d.item[0]? = some pData ∧
    ∃ s' report, s.step d false (.setItem 0 9 true) = some (s', some report) ∧
      ∀ other ∈ neighbours d 0, s.Carries false report other := by
  have hall : ((parseReportDesc (memory twoFeatures) 21).bind fun d =>
      ((atRest d).step d false (.getItem 1 2 100 100 false)).bind fun _ =>
        d.item[0]?.bind fun pData => d.item[1]?.map fun second =>
          decide ((pData.attr, pData.offset, pData.size) = (2, 0, 8) ∧
            second.reportID = pData.reportID ∧ second.reportID = 1 ∧ (atRest d).rbuf.ts second.reportID = 0 ∧
            getReport false (atRest d).rbuf (atRest d).device second.reportID = [1, 5, 7] ∧
            (neighbours d 0).map (fun other => (other.offset, other.size)) = [(8, 8)])) = some true := by decide +kernel
  obtain ⟨d, hd, hall⟩ := Option.bind_eq_some_iff.1 hall
  obtain ⟨⟨s₁, r₁⟩, hread, hall⟩ := Option.bind_eq_some_iff.1 hall
  obtain ⟨pData, hitem, hall⟩ := Option.bind_eq_some_iff.1 hall
  obtain ⟨second, hsecond, hall⟩ := Option.map_eq_some_iff.1 hall
  obtain ⟨hfirst, hid, hone, hts, hreply, hothers⟩ := of_decide_eq_true hall
  obtain ⟨hattr, hplace⟩ := Prod.mk.inj hfirst
  obtain ⟨hoffset, hsize⟩ := Prod.mk.inj hplace
  let s : System := { s₁ with device := Function.update s₁.device 2 [2, 6] }
  have hother : s₁.run d false [.device 2 [2, 6]] = some s := rfl
  have hrun : (atRest d).run d false readThenOther = some s := by
    have hstep : ((atRest d).step d false (.getItem 1 2 100 100 false)).map Prod.fst = some s₁ := by rw [hread]; rfl
    rw [readThenOther, System.run, List.foldlM_cons, hstep]
    exact hother
  -- the read makes the report fresh, and the other report does not touch it
  have hfresh : s.Fresh false pData.reportID := by
    have hnow : s₁.Fresh false second.reportID := fresh_of_read hsecond (by rw [hts]; decide) (by rw [hreply]; decide) hread
    rw [hid] at hnow hone
    refine fresh_run hnow (fun e he => ?_) hother
    obtain rfl := List.mem_singleton.1 he
    rw [hone]
    exact (by decide : ¬ (2 : Nat) = 1)
  obtain ⟨s', report, hstep, hkept⟩ := neighbours_kept_iff hd hrun hitem (by rw [hattr]; decide) 9 true
  refine ⟨d, s, pData, hd, hrun, hitem, s', report, hstep, hkept.2 fun other hmem => ?_⟩
  have hplace : (other.offset, other.size) ∈ [(8, 8)] := hothers ▸ List.mem_map_of_mem hmem
  obtain ⟨hapart, -⟩ := Prod.mk.inj (List.mem_singleton.1 hplace)
  exact current_of_fresh hfresh (reportID_of_neighbour hitem hmem) (.inr (by omega)) 9

/-- The second item is read, and then it changes. -/
private def readThenChange : List Event := [.getItem 1 2 100 100 false, .device 1 [1, 5, 8]]

/-- The second item is sent as it was read, not as it is. -/
theorem neighbour_sent_stale : ¬∀ reportDesc n d, parseReportDesc reportDesc n = some d → ∀ m device events s,
    (System.start d device).run d m events = some s → ∀ i pData value taken s' report, d.item[i]? = some pData →
    pData.type = itemFeature → s.step d m (.setItem i value taken) = some (s', some report) →
    ∀ other ∈ neighbours d i, s.Carries m report other := by
  intro h
  have hall : ((parseReportDesc (memory twoFeatures) 21).bind fun d =>
      ((System.start d fun _ => [1, 5, 7]).run d false readThenChange).bind fun s =>
        d.item[0]?.bind fun pData => (s.step d false (.setItem 0 9 true)).bind fun r => r.2.map fun report =>
          (pData.type, (neighbours d 0).map (fun other => (other.reportID, other.offset, other.size)), bitAt report 16,
            s.held false 1 16)) = some (itemFeature, [(1, 8, 8)], true, some false) := by decide +kernel
  obtain ⟨d, hd, hall⟩ := Option.bind_eq_some_iff.1 hall
  obtain ⟨s, hs, hall⟩ := Option.bind_eq_some_iff.1 hall
  obtain ⟨pData, hitem, hall⟩ := Option.bind_eq_some_iff.1 hall
  obtain ⟨⟨s', r⟩, hstep, hall⟩ := Option.bind_eq_some_iff.1 hall
  obtain ⟨report, rfl, hall⟩ := Option.map_eq_some_iff.1 hall
  obtain ⟨htype, hall⟩ := Prod.mk.inj (Option.some.inj hall)
  obtain ⟨hothers, hall⟩ := Prod.mk.inj hall
  obtain ⟨hsent, hheld⟩ := Prod.mk.inj hall
  have hmem : (1, 8, 8) ∈ (neighbours d 0).map fun other => (other.reportID, other.offset, other.size) := by
    rw [hothers]
    exact List.mem_singleton_self _
  obtain ⟨other, hother, hplace⟩ := List.mem_map.1 hmem
  simp only [Prod.mk.injEq] at hplace
  obtain ⟨hid, hoffset, hsize⟩ := hplace
  have hcarries := h _ _ d hd _ _ _ s hs 0 pData 9 true s' report hitem htype hstep other hother 0 (by omega) false
    (by rw [hid, hoffset]; exact hheld)
  rw [hoffset] at hcarries
  rw [hsent] at hcarries
  contradiction

end Hid

end Nut
