import Nut.Drivers.Bounds

/-!
# The fields of a main item

`HIDParse` is called once for each field of a main item, and counts the fields that are left in a byte.  It makes the fields
that the item declares unless their number is 0, which it counts down to 255, or the descriptor ends with the item, after
which there is no more than one (`item_fields_iff`).
-/

namespace Nut

namespace Hid

/-- The rounds of the loop from an item of the descriptor to the next one, with the fields that they make. -/
inductive ItemRun (reportDesc : Nat → UInt8) (n : Nat) : HIDParser → List (HIDData × Nat) → HIDParser → Prop
  | last {p p' : HIDParser} {r : Option (HIDData × Nat)} (h : Iteration reportDesc n p p' r) (hcount : p'.count = 0) :
      ItemRun reportDesc n p r.toList p'
  | more {p q p' : HIDParser} {r : Option (HIDData × Nat)} {fields : List (HIDData × Nat)}
      (h : Iteration reportDesc n p q r) (hcount : q.count ≠ 0) (hrest : ItemRun reportDesc n q fields p') :
      ItemRun reportDesc n p (r.toList ++ fields) p'

/-- Calls of `HIDParse` one after the other, as long as there are fields. -/
def hidCalls (reportDesc : Nat → UInt8) (n : Nat) : Nat → HIDParser → Option (HIDParser × List (HIDData × Nat))
  | 0, p => some (p, [])
  | m + 1, p =>
    match hidParse reportDesc n (n + 1) p with
    | none => none
    | some (p, none) => some (p, [])
    | some (p, some r) => (hidCalls reportDesc n m p).map fun rest => (rest.1, r :: rest.2)

/-- A field of the item in hand with one of its usages: a new object, or the continuation of one when there is none. -/
def IsField (p : HIDParser) (usage : Nat) (field : HIDData × Nat) : Prop :=
  ∃ offset, field = (fieldData p usage offset, if usage ≠ 0 then 1 else 0)

/-- The parser is done with an item: it is before the next one, without usages, in the same collections and with the same
globals. -/
structure Resumes (reportDesc : Nat → UInt8) (p p' : HIDParser) : Prop where
  pos : p'.pos = (nextItem reportDesc p).pos
  count : p'.count = 0
  usageTab : p'.usageTab = []
  upage : p'.upage = p.upage
  reportCount : p'.reportCount = p.reportCount
  globals : globals p'.data = globals p.data
  size : p'.data.path.size = p.data.path.size
  node : p'.data.path.node.take p.data.path.size = p.data.path.node.take p.data.path.size

/-- The fields of the item before the parser, with the usages in their order: the calls of `HIDParse` give these fields and go
on with the next item. -/
structure FieldsRight (reportDesc : Nat → UInt8) (n : Nat) (p : HIDParser) (usages : List Nat)
    (fields : List (HIDData × Nat)) (p' : HIDParser) : Prop where
  run : ItemRun reportDesc n p fields p'
  number : fields.length = p.reportCount
  field : ∀ i (h : i < fields.length), IsField (nextItem reportDesc p) (usages.getD i 0) fields[i]
  calls : ∀ m, hidCalls reportDesc n (fields.length + m) p =
    (hidCalls reportDesc n m p').map fun rest => (rest.1, fields ++ rest.2)
  resumes : Resumes reportDesc p p'

/-- `HIDParse` gets to the item after `k` others, and makes the fields that it declares. -/
def ItemRight (reportDesc : Nat → UInt8) (n k : Nat) : Prop :=
  ∃ p nitems fields p', Reached reportDesc n (fun _ => True) k p nitems ∧ p.count = 0 ∧
    FieldsRight reportDesc n p (outline reportDesc n k).usages fields p'

variable {reportDesc : Nat → UInt8} {n : Nat}

/-! ### The rounds of a main item -/

theorem hidParse_of_iteration {p p' : HIDParser} {r : HIDData × Nat} (h : Iteration reportDesc n p p' (some r)) (fuel : Nat) :
    hidParse reportDesc n (fuel + 1) p = some (p', some r) := by
  have hresult := h.result
  unfold fetch at hresult
  rw [hidParse, if_pos h.more, hresult]

/-- A round within a main item makes a field. -/
theorem Standing.field {j : Nat} {p p' : HIDParser} {o : Outline} {r : Option (HIDData × Nat)}
    (hs : Standing reportDesc n p o j) (hmain : isMain (o.item reportDesc) = true) (h : Iteration reportDesc n p p' r) :
    ∃ o' data found, r = some (data, found) ∧ p'.count = o.number - (j + 1) ∧ InHand reportDesc (fetch reportDesc p) o ∧
      (fetch reportDesc p).usageTab = o.usages.drop j ∧ FieldMade (fetch reportDesc p) p' o' data found ∧
      Standing reportDesc n p' (if p'.count = 0 then o.next reportDesc n else o) (if p'.count = 0 then 0 else j + 1) := by
  obtain ⟨-, -, hstep⟩ := hs.step h
  cases hstep with
  | passed hother => exact absurd (hother.symm.trans hmain) (by decide)
  | made _ _ hcount hand husage hmade hs' => exact ⟨_, _, _, rfl, hcount, hand, husage, hmade, hs'⟩

/-- After the first field the rounds go on only while the item is not the last one. -/
theorem ItemRun.number {p p' : HIDParser} {fields : List (HIDData × Nat)} (h : ItemRun reportDesc n p fields p') {j : Nat}
    {o : Outline} (hs : Standing reportDesc n p o j) (hmain : isMain (o.item reportDesc) = true) :
    fields.length = o.number - j ∧ (o.after reportDesc < n ∨ j + 1 = o.number) := by
  induction h generalizing j with
  | last h hcount =>
    obtain ⟨o', data, found, rfl, hleft, -⟩ := hs.field hmain h
    have hj := hs.number_pos
    refine ⟨?_, .inr (by omega)⟩
    rw [Option.toList_some, List.length_singleton]
    omega
  | more h hcount hrest ih =>
    obtain ⟨o', data, found, rfl, hleft, hand, -, hmade, hs'⟩ := hs.field hmain h
    rw [if_neg hcount, if_neg hcount] at hs'
    obtain ⟨hlen, -⟩ := ih hs'
    refine ⟨?_, .inl ?_⟩
    · rw [Option.toList_some, List.singleton_append, List.length_cons, hlen]
      omega
    · have hmore : ∀ {q p' : HIDParser} {fields}, ItemRun reportDesc n q fields p' → q.pos < n := by
        intro q p' fields hrun
        cases hrun with
        | last h => exact h.more
        | more h => exact h.more
      rw [← hand.pos, ← hmade.pos]
      exact hmore hrest

/-- Each field is the result of a call. -/
theorem ItemRun.calls {p p' : HIDParser} {fields : List (HIDData × Nat)} (h : ItemRun reportDesc n p fields p') {j : Nat}
    {o : Outline} (hs : Standing reportDesc n p o j) (hmain : isMain (o.item reportDesc) = true) (m : Nat) :
    hidCalls reportDesc n (fields.length + m) p =
      (hidCalls reportDesc n m p').map fun rest => (rest.1, fields ++ rest.2) := by
  induction h generalizing j with
  | last h hcount =>
    obtain ⟨o', data, found, rfl, -⟩ := hs.field hmain h
    rw [Option.toList_some, List.length_singleton, Nat.add_comm, hidCalls, hidParse_of_iteration h]
    rfl
  | more h hcount hrest ih =>
    obtain ⟨o', data, found, rfl, -, -, -, -, hs'⟩ := hs.field hmain h
    rw [if_neg hcount, if_neg hcount] at hs'
    rw [Option.toList_some, List.singleton_append, List.length_cons, Nat.add_right_comm, hidCalls, hidParse_of_iteration h]
    dsimp only
    rw [ih hs', Option.map_map]
    rfl

/-- The parser `p` has the item in hand that `q` has, in the same collections and with the same globals. -/
structure SameItem (q p : HIDParser) : Prop where
  item : p.item = q.item
  value : p.value = q.value
  upage : p.upage = q.upage
  reportCount : p.reportCount = q.reportCount
  globals : globals p.data = globals q.data
  size : p.data.path.size = q.data.path.size
  node : ∀ usage, p.data.path.node.set q.data.path.size usage = q.data.path.node.set q.data.path.size usage

theorem SameItem.refl (q : HIDParser) : SameItem q q := ⟨rfl, rfl, rfl, rfl, rfl, rfl, fun _ => rfl⟩

theorem SameItem.fieldData {q p : HIDParser} (h : SameItem q p) (usage offset : Nat) :
    fieldData p usage offset = fieldData q usage offset := by
  have hdata (p : HIDParser) : Hid.fieldData p usage offset =
      { Hid.globals p.data with
        path := ⟨p.data.path.size + 1, p.data.path.node.set p.data.path.size usage⟩
        type := p.item &&& itemMask
        attr := p.value % 256
        offset := offset } := rfl
  rw [hdata, hdata, h.globals, h.size, h.node, h.item, h.value]

theorem SameItem.made {q p p' : HIDParser} {o : Outline} {data : HIDData} {found : Nat} (h : SameItem q p)
    (hmade : FieldMade p p' o data found) : SameItem q p' := by
  refine ⟨hmade.item.trans h.item, hmade.value.trans h.value, hmade.upage.trans h.upage,
    hmade.reportCount.trans h.reportCount, hmade.globals.trans h.globals, hmade.size.trans h.size, fun usage => ?_⟩
  rw [hmade.node, h.size, List.set_set]
  exact h.node usage

/-- The path is that of the collections again. -/
theorem SameItem.take {q p : HIDParser} (h : SameItem q p) :
    p.data.path.node.take q.data.path.size = q.data.path.node.take q.data.path.size := by
  have htake (node : List Nat) : (node.set q.data.path.size 0).take q.data.path.size = node.take q.data.path.size :=
    List.take_set_of_le (Nat.le_refl _)
  rw [← htake, h.node, htake]

/-- From the field after the first `j` on, a main item that fits makes its fields. -/
theorem fields_made {p q : HIDParser} {o : Outline} (hmain : isMain (o.item reportDesc) = true)
    (hfits : o.Fits reportDesc n) (left : Nat) {j : Nat} (hleft : o.number - j ≤ left)
    (hs : Standing reportDesc n p o j) (hmore : p.pos < n) (hgo : o.after reportDesc < n ∨ j + 1 = o.number)
    (hsame : SameItem q (fetch reportDesc p)) : ∃ fields p', ItemRun reportDesc n p fields p' ∧
      (∀ i (h : i < fields.length), IsField q (o.usages.getD (j + i) 0) fields[i]) ∧
      p'.count = 0 ∧ p'.pos = o.after reportDesc ∧ p'.usageTab = [] ∧ SameItem q p' := by
  have hj := hs.number_pos
  induction left generalizing p j with
  | zero => omega
  | succ left ih =>
    obtain ⟨p', r, h⟩ := hs.total hmore hfits
    obtain ⟨o', data, found, rfl, hcount, hand, husage, hmade, hs'⟩ := hs.field hmain h
    have hpos : p'.pos = o.after reportDesc := hmade.pos.trans hand.pos
    have hfield : IsField q (o.usages.getD j 0) (data, found) := by
      have husage' : (fetch reportDesc p).usageTab.headD 0 = o.usages.getD j 0 := by
        rw [husage, List.headD_eq_head?_getD, List.head?_drop, List.getD_eq_getElem?_getD]
      obtain ⟨offset, hdata⟩ := hmade.data
      have hfound := hmade.found
      rw [husage'] at hdata hfound
      exact ⟨offset, by rw [hdata, hfound, hsame.fieldData]⟩
    by_cases hlast : p'.count = 0
    · refine ⟨[(data, found)], p', .last h hlast, fun i hi => ?_, hlast, hpos, ?_, hsame.made hmade⟩
      · obtain rfl : i = 0 := by simpa using hi
        exact hfield
      · have htab := hmade.agrees.usageTab
        rw [if_pos hlast] at htab
        exact htab
    · rw [if_neg hlast, if_neg hlast] at hs'
      have hnext : o.after reportDesc < n := by
        rcases hgo with hgo | hgo
        · exact hgo
        · omega
      have hsame' : SameItem q (fetch reportDesc p') := by
        rw [fetch, if_neg hlast]
        exact hsame.made hmade
      obtain ⟨fields, p'', hrun, hfields, hdone⟩ := ih (by omega) hs' (hpos ▸ hnext) (.inl hnext)
        hsame' hs'.number_pos
      refine ⟨(data, found) :: fields, p'', .more h hlast hrun, fun i hi => ?_, hdone⟩
      cases i with
      | zero => exact hfield
      | succ i =>
        have hi' : i < fields.length := Nat.lt_of_succ_lt_succ hi
        have hshift : j + (i + 1) = j + 1 + i := by omega
        rw [hshift]
        exact hfields i hi'

/-- `HIDParse` makes the fields that a main item declares, and goes on with the next item, exactly when the items up to it fit,
its report count is not 0, and it is not the last of the descriptor with more than one field. -/
theorem item_fields_iff {k : Nat} (hmore : (outline reportDesc n k).pos < n)
    (hmain : isMain ((outline reportDesc n k).item reportDesc) = true) : ItemRight reportDesc n k ↔
      (∀ k' ≤ k, (outline reportDesc n k').Fits reportDesc n) ∧ (outline reportDesc n k).reportCount ≠ 0 ∧
        ((outline reportDesc n (k + 1)).pos < n ∨ (outline reportDesc n k).reportCount = 1) := by
  have hnext : (outline reportDesc n (k + 1)).pos = (outline reportDesc n k).after reportDesc := by
    rw [outline, next_of_main hmore hmain]
    rfl
  rw [hnext]
  constructor
  · rintro ⟨p, nitems, fields, p', hp, hcount, hright⟩
    obtain ⟨hpos, ha, -⟩ := hp.idle hcount
    obtain ⟨-, -, -, hbefore⟩ := hp.standing
    have hs : Standing reportDesc n p (outline reportDesc n k) 0 := .before hcount hpos ha
    have hfits : (outline reportDesc n k).Fits reportDesc n := by
      cases hright.run with
      | last h => exact (hs.step h).2.1
      | more h => exact (hs.step h).2.1
    obtain ⟨hlen, hgo⟩ := hright.run.number hs hmain
    rw [hright.number, ha.reportCount, Outline.number, Nat.sub_zero] at hlen
    rw [Outline.number] at hgo
    have hsmall := ha.smallCount
    have hne : (outline reportDesc n k).reportCount ≠ 0 := by
      intro hzero
      rw [hzero] at hlen
      exact absurd hlen (by decide)
    rw [if_neg hne] at hgo
    refine ⟨fun k' hk' => ?_, hne, hgo.imp_right fun h => by omega⟩
    rcases Nat.lt_or_eq_of_le hk' with hk' | rfl
    · exact hbefore k' hk'
    · exact hfits
  · rintro ⟨hfits, hne, hgo⟩
    have hnumber : (outline reportDesc n k).number = (outline reportDesc n k).reportCount := if_neg hne
    obtain ⟨p, hp, hcount⟩ := reach (fun _ => True) (fun _ _ => trivial)
      (fun k' hk' => hfits k' (Nat.le_of_lt hk')) hmore
    obtain ⟨hpos, ha, -⟩ := hp.idle hcount
    have hs : Standing reportDesc n p (outline reportDesc n k) 0 := .before hcount hpos ha
    have hfetch : fetch reportDesc p = nextItem reportDesc p := if_pos hcount
    obtain ⟨fields, p', hrun, hfields, hcount', hpos', husage, hsame⟩ := fields_made (q := nextItem reportDesc p) hmain
      (hfits k (Nat.le_refl k)) _ (Nat.le_refl _) hs (hpos ▸ hmore) (hgo.imp_right fun h => by omega)
      (hfetch ▸ SameItem.refl _)
    obtain ⟨hlen, -⟩ := hrun.number hs hmain
    refine ⟨p, _, fields, p', hp, hcount, hrun, ?_, fun i hi => ?_, hrun.calls hs hmain, ?_⟩
    · rw [hlen, hnumber, ha.reportCount]
      rfl
    · have hfield := hfields i hi
      rwa [Nat.zero_add] at hfield
    · have hnextpos := (inHand_nextItem reportDesc hpos ha).1.pos
      exact ⟨hpos'.trans hnextpos.symm, hcount', husage, hsame.upage, hsame.reportCount, hsame.globals, hsame.size, hsame.take⟩

/-- A collection with one Feature item of a declared count. -/
def featureDesc (count : UInt8) : List UInt8 :=
  [0x05, 0x84, 0x09, 0x04, 0xA1, 0x01, 0x85, 0x01, 0x75, 0x08, 0x95, count, 0x09, 0x1F, 0xB1, 0x02, 0xC0]

theorem item_fields_two : ItemRight (memory (featureDesc 2)) 17 7 :=
  (item_fields_iff (by decide +kernel) (by decide +kernel)).2 ⟨by decide +kernel, by decide +kernel, by decide +kernel⟩

/-- An item with the count 0: there are 256 fields. -/
theorem item_fields_zero : ¬ItemRight (memory (featureDesc 0)) 17 7 := by
  rintro ⟨p, nitems, fields, p', hp, hcount, hright⟩
  obtain ⟨hpos, ha, -⟩ := hp.idle hcount
  have hmain : isMain ((outline (memory (featureDesc 0)) 17 7).item (memory (featureDesc 0))) = true := by decide +kernel
  have hzero : (outline (memory (featureDesc 0)) 17 7).reportCount = 0 := by decide +kernel
  obtain ⟨hlen, -⟩ := hright.run.number (.before hcount hpos ha) hmain
  rw [hright.number, ha.reportCount, Outline.number, if_pos hzero, hzero] at hlen
  exact absurd hlen (by decide)

end Hid

end Nut
