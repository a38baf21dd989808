import Nut.Drivers.Libhid

/-!
# The accesses to the report buffers

What each event reads, writes or copies in a buffer, as the number of its bytes that are needed for it.  The buffers are
as long as the items of the descriptor ask for (`parse_replen`), so the values lie in them; with the flag
`max_report_size` a report is asked for with the size of a pointer, whatever its length (`reports_held_iff`).
-/

namespace Nut

namespace Hid

/-- The bytes of the buffer of report `id`, from its first one on, that are needed. -/
structure Access where
  id : Nat
  bytes : Nat

/-- The bytes that `GetValue` and `SetValue` index. -/
def valueAccesses (pData : HIDData) : List Access :=
  (List.range pData.size).map fun weight => ⟨pData.reportID, (pData.offset + 8 + weight) / 8 + 1⟩

/-- The accesses of an event: `get_report` with its length and `GetValue`, `SetValue` and `set_report` with its length, or
the copy in `file_report_buffer`. -/
def System.accesses (d : HIDDesc) (maxReportSize : Bool) (s : System) : Event → List Access
  | .getItem i age now stamp failed =>
    match d.item[i]? with
    | none => []
    | some hiddata =>
      let id := hiddata.reportID
      let reply := if failed then none else some (getReport maxReportSize s.rbuf s.device id)
      (if now < s.rbuf.ts id + age then [] else [⟨id, if maxReportSize then sizeofPointer else s.rbuf.len id⟩]) ++
        match refreshReportBuffer s.rbuf hiddata age now stamp reply with
        | some (_, true) => valueAccesses hiddata
        | _ => []
  | .setItem i _ _ =>
    match d.item[i]? with
    | none => []
    | some hiddata =>
      if hiddata.attr = attrDataCst then []
      else valueAccesses hiddata ++ [⟨hiddata.reportID, s.rbuf.len hiddata.reportID⟩]
  | .interrupt buf _ => if buf = [] then [] else [⟨(buf.headD 0).toNat, min buf.length (s.rbuf.len (buf.headD 0).toNat)⟩]
  | .device _ _ => []

/-- Every sequence of events goes through, and what happens next is within the buffers. -/
def ReportsHeld (d : HIDDesc) (maxReportSize : Bool) : Prop :=
  ∀ device events, ∃ s, (System.start d device).run d maxReportSize events = some s ∧
    ∀ e, ∀ a ∈ s.accesses d maxReportSize e, a.bytes ≤ s.rbuf.len a.id ∧ s.rbuf.len a.id = (s.rbuf.data a.id).length

/-- The state between two events: the lengths are those of the descriptor, and a pointer fits where that is asked for. -/
structure Held (d : HIDDesc) (maxReportSize : Bool) (rbuf : Reportbuf) : Prop where
  sized : Sized rbuf
  room : ∀ data ∈ d.item, data.offset + 8 + data.size ≤ 8 * rbuf.len data.reportID
  asked : maxReportSize = true → ∀ data ∈ d.item, sizeofPointer ≤ rbuf.len data.reportID

theorem held_start {reportDesc : Nat → UInt8} {n : Nat} {d : HIDDesc} (hd : parseReportDesc reportDesc n = some d) {m : Bool}
    (h : m = true → ∀ data ∈ d.item, 7 ≤ d.replen data.reportID) : Held d m (newReportBuffer d) := by
  obtain ⟨hs, hlen⟩ := newReportBuffer_spec d
  refine ⟨hs, fun data hdata => ?_, fun hm data hdata => ?_⟩
  · have hroom := parse_replen hd data hdata
    rw [hlen data hdata]
    omega
  · have hle := h hm data hdata
    rw [hlen data hdata, sizeofPointer]
    omega

theorem mem_valueAccesses {pData : HIDData} {a : Access} (h : a ∈ valueAccesses pData) :
    a.id = pData.reportID ∧ 8 * a.bytes < pData.offset + 16 + pData.size := by
  obtain ⟨weight, hweight, rfl⟩ := List.mem_map.1 h
  have hlt := List.mem_range.1 hweight
  exact ⟨rfl, by dsimp only; omega⟩

/-- What an event accesses lies in the buffers. -/
theorem Held.accesses {d : HIDDesc} {m : Bool} {s : System} (h : Held d m s.rbuf) (e : Event) :
    ∀ a ∈ s.accesses d m e, a.bytes ≤ s.rbuf.len a.id := by
  have hvalue {i : Nat} {data : HIDData} (hitem : d.item[i]? = some data) :
      ∀ a ∈ valueAccesses data, a.bytes ≤ s.rbuf.len a.id := by
    intro a ha
    obtain ⟨hid, hbytes⟩ := mem_valueAccesses ha
    have hroom := h.room data (List.mem_of_getElem? hitem)
    rw [hid]
    omega
  intro a ha
  cases e with
  | device id report => simp [System.accesses] at ha
  | interrupt buf now =>
    unfold System.accesses at ha
    dsimp only at ha
    split_ifs at ha
    · simp at ha
    · obtain rfl := List.mem_singleton.1 ha
      exact Nat.min_le_right _ _
  | setItem i value taken =>
    unfold System.accesses at ha
    dsimp only at ha
    split at ha
    · simp at ha
    · rename_i data hitem
      split_ifs at ha
      · simp at ha
      · rcases List.mem_append.1 ha with ha | ha
        · exact hvalue hitem a ha
        · obtain rfl := List.mem_singleton.1 ha
          exact Nat.le_refl _
  | getItem i age now stamp failed =>
    unfold System.accesses at ha
    dsimp only at ha
    split at ha
    · simp at ha
    · rename_i data hitem
      rcases List.mem_append.1 ha with ha | ha
      · split_ifs at ha with hage hm
        · simp at ha
        · obtain rfl := List.mem_singleton.1 ha
          exact h.asked hm data (List.mem_of_getElem? hitem)
        · obtain rfl := List.mem_singleton.1 ha
          exact Nat.le_refl _
      · split at ha
        · exact hvalue hitem a ha
        · simp at ha

theorem refresh_total {rbuf : Reportbuf} {pData : HIDData} {reply : Option (List Byte)} (age now stamp : Int)
    (h : ∀ report, reply = some report → report.length ≤ (rbuf.data pData.reportID).length) :
    ∃ r, refreshReportBuffer rbuf pData age now stamp reply = some r := by
  unfold refreshReportBuffer
  dsimp only
  split
  · exact ⟨_, rfl⟩
  · split
    · exact ⟨_, rfl⟩
    · exact ⟨_, rfl⟩
    · rename_i b report
      have hlen := h _ rfl
      rw [List.length_cons] at hlen
      rw [if_neg (by omega)]
      exact ⟨_, rfl⟩

/-- What `get_report` returns fits into the buffer. -/
theorem Held.reply {d : HIDDesc} {m : Bool} {s : System} (h : Held d m s.rbuf) {data : HIDData} (hdata : data ∈ d.item) :
    (getReport m s.rbuf s.device data.reportID).length ≤ (s.rbuf.data data.reportID).length := by
  unfold getReport
  rw [List.length_take, h.sized]
  cases m with
  | false => exact Nat.min_le_left _ _
  | true => exact Nat.le_trans (Nat.min_le_left _ _) (h.asked rfl data hdata)

/-- An event goes through. -/
theorem Held.step {d : HIDDesc} {m : Bool} {s : System} (h : Held d m s.rbuf) (e : Event) :
    ∃ s' r, s.step d m e = some (s', r) ∧ Held d m s'.rbuf := by
  have hsome : ∃ r, s.step d m e = some r := by
    cases e with
    | device id report => exact ⟨_, rfl⟩
    | interrupt buf now => exact ⟨_, rfl⟩
    | getItem i age now stamp failed =>
      unfold System.step
      dsimp only
      split
      · exact ⟨_, rfl⟩
      · rename_i data hitem
        have hreply : ∀ report, (if failed then none else some (getReport m s.rbuf s.device data.reportID)) = some report →
            report.length ≤ (s.rbuf.data data.reportID).length := by
          intro report hreply
          split_ifs at hreply
          exact Option.some.inj hreply ▸ h.reply (List.mem_of_getElem? hitem)
        obtain ⟨r, hr⟩ := refresh_total age now stamp hreply
        rw [hr]
        exact ⟨_, rfl⟩
    | setItem i value taken =>
      unfold System.step
      dsimp only
      split
      · exact ⟨_, rfl⟩
      · rename_i data hitem
        have hroom := h.room data (List.mem_of_getElem? hitem)
        unfold hidSetDataValue setItemBuffered
        dsimp only
        split
        · exact ⟨_, rfl⟩
        · rw [if_neg (by rw [h.sized]; omega)]
          cases taken <;> exact ⟨_, rfl⟩
  obtain ⟨⟨s', r⟩, hstep⟩ := hsome
  obtain ⟨hs, hlen⟩ := step_sized h.sized hstep
  exact ⟨s', r, hstep, hs, by rw [hlen]; exact h.room, by rw [hlen]; exact h.asked⟩

theorem Held.run {d : HIDDesc} {m : Bool} {s : System} (h : Held d m s.rbuf) (events : List Event) :
    ∃ s', s.run d m events = some s' ∧ Held d m s'.rbuf := by
  induction events generalizing s with
  | nil => exact ⟨s, rfl, h⟩
  | cons e events ih =>
    obtain ⟨mid, r, hstep, hmid⟩ := h.step e
    obtain ⟨s', hrun, hs'⟩ := ih hmid
    refine ⟨s', ?_, hs'⟩
    rw [System.run, List.foldlM_cons, hstep]
    exact hrun

/-- The buffers are never overrun if and only if a report is asked for with its own length, or none is shorter than a
pointer. -/
theorem reports_held_iff {reportDesc : Nat → UInt8} {n : Nat} {d : HIDDesc} (hd : parseReportDesc reportDesc n = some d)
    (m : Bool) : ReportsHeld d m ↔ m = false ∨ ∀ data ∈ d.item, 7 ≤ d.replen data.reportID := by
  constructor
  · intro h
    refine (Bool.eq_false_or_eq_true m).symm.imp id fun hm data hdata => ?_
    obtain ⟨i, hitem⟩ := List.mem_iff_getElem?.1 hdata
    obtain ⟨s, hrun, hheld⟩ := h (fun _ => []) []
    obtain rfl := Option.some.inj hrun
    have hlen := (newReportBuffer_spec d).2 data hdata
    -- the report is asked for
    have hasked : sizeofPointer ≤ (System.start d fun _ => []).rbuf.len data.reportID :=
      (hheld (.getItem i 0 ((newReportBuffer d).ts data.reportID) 0 true) ⟨data.reportID, sizeofPointer⟩ (by
        unfold System.accesses
        dsimp only
        rw [hitem]
        refine List.mem_append_left _ ?_
        rw [if_neg (by simp [System.start]), if_pos hm]
        exact List.mem_singleton_self _)).1
    rw [System.start, hlen, sizeofPointer] at hasked
    omega
  · intro h device events
    have hstart : Held d m (System.start d device).rbuf := held_start hd fun hm => h.resolve_left (by simp [hm])
    obtain ⟨s, hrun, hs⟩ := hstart.run events
    exact ⟨s, hrun, fun e a ha => ⟨hs.accesses e a ha, (hs.sized a.id).symm⟩⟩

/-- A report of two bytes, the first of which is its ID. -/
private def shortDesc : List UInt8 := [0x09, 0x01, 0x85, 0x01, 0x75, 0x08, 0x95, 0x01, 0xB1, 0x00]

theorem reports_held_short : ∃ d, parseReportDesc (memory shortDesc) 10 = some d ∧ ReportsHeld d false := by
  obtain ⟨d, hd⟩ : ∃ d, parseReportDesc (memory shortDesc) 10 = some d := Option.isSome_iff_exists.1 (by decide +kernel)
  exact ⟨d, hd, (reports_held_iff hd false).2 (.inl rfl)⟩

/-- The device may answer eight bytes, and they are put into the two. -/
theorem report_overrun : ∃ d, parseReportDesc (memory shortDesc) 10 = some d ∧ ¬ReportsHeld d true := by
  have hrun : ((parseReportDesc (memory shortDesc) 10).map fun d =>
      ((System.start d fun _ => List.replicate 8 1).run d true [.getItem 0 0 0 0 false]).isNone) = some true := by
    decide +kernel
  obtain ⟨d, hd, hnone⟩ := Option.map_eq_some_iff.1 hrun
  refine ⟨d, hd, fun h => ?_⟩
  obtain ⟨s, hs, -⟩ := h (fun _ => List.replicate 8 1) [.getItem 0 0 0 0 false]
  rw [hs] at hnone
  cases hnone

end Hid

end Nut
