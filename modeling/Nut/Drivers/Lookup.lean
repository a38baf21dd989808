import Nut.Common.CString
import Nut.Drivers.Hidparser

/-!
# The search for an item

`FindObject_with_Path` compares as many nodes as the path that it is given has, whatever the length of the item's own path;
the driver looks for the Feature item with the path of an event, and then in its table for the entry of that item, which may
be `NULL`.  A pointer to an item is its position in the descriptor.
-/

namespace Nut

namespace Hid

/-- The nodes in use. -/
def HIDPath.nodes (path : HIDPath) : List Nat := path.node.take path.size

/-- The comparisons of `FindObject_with_Path`. -/
def Compared (path : HIDPath) (type : Nat) (data : HIDData) : Bool :=
  data.type = type ∧ data.path.node.take path.size = path.nodes

/-- `FindObject_with_Path` -/
def findObjectWithPath (d : HIDDesc) (path : HIDPath) (type : Nat) : Option Nat := d.item.findIdx? (Compared path type)

/-- The item has the type and the path. -/
def IsObject (path : HIDPath) (type : Nat) (data : HIDData) : Bool :=
  data.type = type ∧ data.path.size = path.size ∧ data.path.nodes = path.nodes

/-- The first item with the type and the path. -/
def object (d : HIDDesc) (path : HIDPath) (type : Nat) : Option Nat := d.item.findIdx? (IsObject path type)

theorem isObject_iff {path : HIDPath} {type : Nat} {data : HIDData} :
    IsObject path type data = true ↔ Compared path type data = true ∧ data.path.size = path.size := by
  rw [IsObject, Compared, decide_eq_true_iff, decide_eq_true_iff]
  unfold HIDPath.nodes
  constructor
  · rintro ⟨htype, hsize, hnodes⟩
    exact ⟨⟨htype, hsize ▸ hnodes⟩, hsize⟩
  · rintro ⟨⟨htype, hnodes⟩, hsize⟩
    exact ⟨htype, hsize, by rw [hsize, hnodes]⟩

/-- The first element with a property. -/
theorem findIdx_iff {α : Type*} {p : α → Bool} {l : List α} {i : Nat} :
    l.findIdx? p = some i ↔ ∃ a, l[i]? = some a ∧ p a = true ∧ ∀ j < i, ∀ b, l[j]? = some b → p b = false := by
  rw [List.findIdx?_eq_some_iff_getElem]
  constructor
  · rintro ⟨hi, hp, hbefore⟩
    refine ⟨l[i], List.getElem?_eq_getElem hi, hp, fun j hj b hb => ?_⟩
    obtain ⟨hlt, rfl⟩ := List.getElem?_eq_some_iff.1 hb
    exact Bool.eq_false_iff.2 (hbefore j hj)
  · rintro ⟨a, ha, hp, hbefore⟩
    obtain ⟨hi, rfl⟩ := List.getElem?_eq_some_iff.1 ha
    exact ⟨hi, hp, fun j hj => Bool.eq_false_iff.1 (hbefore j hj _ (List.getElem?_eq_getElem (by omega)))⟩

theorem isObject_of_not_compared {path : HIDPath} {type : Nat} {data : HIDData} (h : Compared path type data = false) :
    IsObject path type data = false := by
  refine Bool.eq_false_iff.2 fun hobject => ?_
  rw [(isObject_iff.1 hobject).1] at h
  cases h

/-- The first item with the nodes of a path, when it has no other length, is the item with that path. -/
theorem object_of_compared {d : HIDDesc} {path : HIDPath} {type i : Nat} {data : HIDData}
    (hfind : findObjectWithPath d path type = some i) (hdata : d.item[i]? = some data) (hsize : data.path.size = path.size) :
    object d path type = some i := by
  obtain ⟨data', hdata', hcompared, hbefore⟩ := findIdx_iff.1 hfind
  obtain rfl := Option.some.inj (hdata.symm.trans hdata')
  exact findIdx_iff.2 ⟨data, hdata, isObject_iff.2 ⟨hcompared, hsize⟩, fun j hj b hb =>
    isObject_of_not_compared (hbefore j hj b hb)⟩

/-- The search returns the first item with the type and the path, or `NULL` without one, if and only if the items whose
nodes begin with the path, but whose own path is longer or shorter, come after such an item. -/
theorem find_object_iff (d : HIDDesc) (path : HIDPath) (type : Nat) :
    findObjectWithPath d path type = object d path type ↔
      ∀ (i : Nat) data, d.item[i]? = some data → Compared path type data = true → data.path.size ≠ path.size →
        ∃ j < i, ∃ data', d.item[j]? = some data' ∧ IsObject path type data' = true := by
  constructor
  · intro h i data hi hcompared hsize
    obtain ⟨k, hk⟩ : ∃ k, findObjectWithPath d path type = some k := by
      rw [← Option.isSome_iff_exists, findObjectWithPath, List.findIdx?_isSome]
      exact List.any_eq_true.2 ⟨data, List.mem_of_getElem? hi, hcompared⟩
    obtain ⟨-, -, -, hbefore⟩ := findIdx_iff.1 hk
    obtain ⟨data', hk', hobject, -⟩ := findIdx_iff.1 (h.symm.trans hk)
    refine ⟨k, ?_, data', hk', hobject⟩
    rcases Nat.lt_trichotomy k i with hlt | rfl | hgt
    · exact hlt
    · obtain rfl := Option.some.inj (hi.symm.trans hk')
      exact absurd (isObject_iff.1 hobject).2 hsize
    · have hfalse := hbefore i hgt data hi
      rw [hcompared] at hfalse
      cases hfalse
  · intro h
    cases hfind : findObjectWithPath d path type with
    | none =>
      have hnone := List.findIdx?_eq_none_iff.1 hfind
      exact (List.findIdx?_eq_none_iff.2 fun data hdata => isObject_of_not_compared (hnone data hdata)).symm
    | some i =>
      obtain ⟨data, hi, hcompared, hbefore⟩ := findIdx_iff.1 hfind
      by_cases hsize : data.path.size = path.size
      · exact (object_of_compared hfind hi hsize).symm
      · obtain ⟨j, hj, data', hdata', hobject⟩ := h i data hi hcompared hsize
        have hfalse := hbefore j hj data' hdata'
        rw [(isObject_iff.1 hobject).1] at hfalse
        cases hfalse

/-- A collection with an item in it. -/
private def nestedDesc : List UInt8 :=
  [0x05, 0x84, 0x09, 0x04, 0xA1, 0x01, 0x85, 0x01, 0x75, 0x08, 0x95, 0x01, 0x09, 0x24, 0xB1, 0x02, 0xC0]

/-- The path of the collection is that of no item, but its item is returned for it. -/
theorem find_object_prefix : ∃ d, parseReportDesc (memory nestedDesc) 17 = some d ∧
    findObjectWithPath d ⟨1, 0x840004 :: List.replicate 9 0⟩ itemFeature ≠
      object d ⟨1, 0x840004 :: List.replicate 9 0⟩ itemFeature := by
  obtain ⟨d, hparse, hitem⟩ : ∃ d, parseReportDesc (memory nestedDesc) 17 = some d ∧
      (d.item.findIdx? (Compared ⟨1, 0x840004 :: List.replicate 9 0⟩ itemFeature),
        d.item.findIdx? (IsObject ⟨1, 0x840004 :: List.replicate 9 0⟩ itemFeature)) = (some 0, none) :=
    Option.map_eq_some_iff.1 (by decide +kernel)
  obtain ⟨hfind, hobject⟩ := Prod.mk.inj hitem
  refine ⟨d, hparse, ?_⟩
  rw [findObjectWithPath, object, hfind, hobject]
  exact Option.some_ne_none 0

/-! ### The events -/

def huFlagAbsent : Nat := 8

/-- An entry of the table `hid2nut`; the last one, with `NULL` for `info_type`, is not in the list. -/
structure HidInfo where
  infoType : CStr
  hidflags : Nat
  hiddata : Option Nat

/-- `find_hid_info` -/
def findHidInfo (hid2nut : List HidInfo) (hiddata : Option Nat) : Option HidInfo :=
  hid2nut.find? fun item => item.hidflags &&& huFlagAbsent = 0 ∧ item.hiddata = hiddata

section

variable {α : Type}

/-- The body of the loop over the events in `upsdrv_updateinfo`: what `ups_infoval_set` is called with.  `value` is what
`HIDGetDataValue` reads, if it does. -/
def updateEvent (d : HIDDesc) (hid2nut : List HidInfo) (event : HIDData) (value : Option α) : Option (HidInfo × α) := do
  let value ← value
  let item ← findHidInfo hid2nut (findObjectWithPath d event.path itemFeature)
  some (item, value)

/-- An event sets the entry of the Feature item with its path, to its value; without such an item or entry it sets
nothing. -/
structure EventRight (d : HIDDesc) (hid2nut : List HidInfo) (event : HIDData) (value : α) : Prop where
  feature : ∀ item v, updateEvent d hid2nut event (some value) = some (item, v) →
    v = value ∧ ∃ i, object d event.path itemFeature = some i ∧ item.hiddata = some i
  unused : (∀ item ∈ hid2nut, item.hidflags &&& huFlagAbsent = 0 → ∀ i, object d event.path itemFeature = some i →
    item.hiddata ≠ some i) → updateEvent d hid2nut event (some value) = none

/-- An entry that the driver maps, other than a server side variable, keeps clear of an event: if it has no HID item, some
Feature item has nodes that begin with the path of the event; and if its item has such nodes but a path of another length,
an earlier Feature item has such nodes too. -/
def Clear (d : HIDDesc) (path : HIDPath) (item : HidInfo) : Prop :=
  match item.hiddata with
  | none => ∃ data ∈ d.item, Compared path itemFeature data = true
  | some i => ∀ data, d.item[i]? = some data → Compared path itemFeature data = true → data.path.size ≠ path.size →
      ∃ j < i, ∃ data', d.item[j]? = some data' ∧ Compared path itemFeature data' = true

theorem updateEvent_eq (d : HIDDesc) (hid2nut : List HidInfo) (event : HIDData) (value : α) :
    updateEvent d hid2nut event (some value) =
      (findHidInfo hid2nut (findObjectWithPath d event.path itemFeature)).map fun item => (item, value) := by
  cases h : findHidInfo hid2nut (findObjectWithPath d event.path itemFeature) <;> simp [updateEvent, h]

theorem findHidInfo_some {hid2nut : List HidInfo} {hiddata : Option Nat} {item : HidInfo}
    (h : findHidInfo hid2nut hiddata = some item) :
    item ∈ hid2nut ∧ item.hidflags &&& huFlagAbsent = 0 ∧ item.hiddata = hiddata := by
  have hitem := List.find?_some h
  rw [decide_eq_true_iff] at hitem
  exact ⟨List.mem_of_find?_eq_some h, hitem⟩

theorem findHidInfo_of_mem {hid2nut : List HidInfo} {item : HidInfo} (hmem : item ∈ hid2nut)
    (hflags : item.hidflags &&& huFlagAbsent = 0) : ∃ item', findHidInfo hid2nut item.hiddata = some item' := by
  refine Option.isSome_iff_exists.1 (List.find?_isSome.2 ⟨item, hmem, ?_⟩)
  rw [decide_eq_true_iff]
  exact ⟨hflags, rfl⟩

/-- The events of a descriptor are right if and only if every entry of the table keeps clear of them. -/
theorem event_right_iff (d : HIDDesc) (hid2nut : List HidInfo) (event : HIDData) (value : α) :
    EventRight d hid2nut event value ↔
      ∀ item ∈ hid2nut, item.hidflags &&& huFlagAbsent = 0 → Clear d event.path item := by
  constructor
  · intro h item hmem hflags
    -- what follows when the search returns what the entry has
    have hright : findObjectWithPath d event.path itemFeature = item.hiddata →
        ∃ i, object d event.path itemFeature = some i ∧ item.hiddata = some i := by
      intro hfind
      obtain ⟨item', hitem'⟩ := findHidInfo_of_mem hmem hflags
      have hcall : updateEvent d hid2nut event (some value) = some (item', value) := by
        rw [updateEvent_eq, hfind, hitem', Option.map_some]
      obtain ⟨-, i, hobject, hdata⟩ := h.feature item' value hcall
      exact ⟨i, hobject, (findHidInfo_some hitem').2.2.symm.trans hdata⟩
    unfold Clear
    cases hdata : item.hiddata with
    | none =>
      by_contra hnone
      have hfind : findObjectWithPath d event.path itemFeature = none :=
        List.findIdx?_eq_none_iff.2 fun data hd => Bool.eq_false_iff.2 fun hc => hnone ⟨data, hd, hc⟩
      obtain ⟨i, -, hi⟩ := hright (hfind.trans hdata.symm)
      rw [hdata] at hi
      cases hi
    | some i =>
      intro data hi hcompared hsize
      by_contra hnone
      have hfind : findObjectWithPath d event.path itemFeature = some i :=
        findIdx_iff.2 ⟨data, hi, hcompared, fun j hj data' hdata' =>
          Bool.eq_false_iff.2 fun hc => hnone ⟨j, hj, data', hdata', hc⟩⟩
      obtain ⟨k, hobject, hk⟩ := hright (hfind.trans hdata.symm)
      obtain rfl := Option.some.inj (hdata.symm.trans hk)
      obtain ⟨data', hdata', hobject', -⟩ := findIdx_iff.1 hobject
      obtain rfl := Option.some.inj (hi.symm.trans hdata')
      exact hsize (isObject_iff.1 hobject').2
  · intro h
    have hfeature : ∀ item v, updateEvent d hid2nut event (some value) = some (item, v) →
        v = value ∧ item ∈ hid2nut ∧ item.hidflags &&& huFlagAbsent = 0 ∧
          ∃ i, object d event.path itemFeature = some i ∧ item.hiddata = some i := by
      intro item v hcall
      rw [updateEvent_eq] at hcall
      obtain ⟨item', hitem', hres⟩ := Option.map_eq_some_iff.1 hcall
      obtain ⟨rfl, rfl⟩ := Prod.mk.inj hres
      obtain ⟨hmem, hflags, hdata⟩ := findHidInfo_some hitem'
      have hclear := h item' hmem hflags
      unfold Clear at hclear
      refine ⟨rfl, hmem, hflags, ?_⟩
      cases hfind : findObjectWithPath d event.path itemFeature with
      | none =>
        rw [hdata, hfind] at hclear
        obtain ⟨data, hd, hcompared⟩ := hclear
        have hfalse := List.findIdx?_eq_none_iff.1 hfind data hd
        rw [hcompared] at hfalse
        cases hfalse
      | some i =>
        rw [hdata, hfind] at hclear
        obtain ⟨data, hi, hcompared, hbefore⟩ := findIdx_iff.1 hfind
        refine ⟨i, object_of_compared hfind hi ?_, hdata.trans hfind⟩
        by_contra hsize
        obtain ⟨j, hj, data', hdata', hc⟩ := hclear data hi hcompared hsize
        have hfalse := hbefore j hj data' hdata'
        rw [hc] at hfalse
        cases hfalse
    refine ⟨fun item v hcall => ?_, fun hunused => ?_⟩
    · obtain ⟨hv, -, -, hobject⟩ := hfeature item v hcall
      exact ⟨hv, hobject⟩
    · rw [Option.eq_none_iff_forall_not_mem]
      rintro ⟨item, v⟩ hcall
      obtain ⟨-, hmem, hflags, i, hobject, hdata⟩ := hfeature item v hcall
      exact hunused item hmem hflags i hobject hdata

end

/-- An input item with a path that no feature item has. -/
private def inputDesc : List UInt8 :=
  [0x05, 0x84, 0x09, 0x04, 0xA1, 0x01, 0x85, 0x01, 0x75, 0x08, 0x95, 0x01, 0x09, 0x24, 0x81, 0x02, 0xC0]

private def inputItem : HIDData :=
  ⟨⟨2, 0x840004 :: 0x840024 :: List.replicate 8 0⟩, 1, 0, 8, itemInput, 2, 0, 0, 0, 0, 0, 0, false, false⟩

/-- The variable has no item in the descriptor, and gets the value of the event. -/
theorem event_unmapped : ∃ d, parseReportDesc (memory inputDesc) 17 = some d ∧ ∃ event ∈ d.item, event.type = itemInput ∧
    ¬EventRight d [⟨"battery.charge".toList, 0, none⟩] event 50 := by
  obtain ⟨d, hparse, hitem⟩ : ∃ d, parseReportDesc (memory inputDesc) 17 = some d ∧ d.item = [inputItem] :=
    Option.map_eq_some_iff.1 (by decide +kernel)
  refine ⟨d, hparse, inputItem, by rw [hitem]; exact List.mem_singleton.2 rfl, rfl, fun h => ?_⟩
  have hcall : updateEvent d [⟨"battery.charge".toList, 0, none⟩] inputItem (some 50) =
      some (⟨"battery.charge".toList, 0, none⟩, 50) := by
    rw [updateEvent_eq, findObjectWithPath, hitem]
    rfl
  obtain ⟨-, i, -, hdata⟩ := h.feature _ _ hcall
  cases hdata

end Hid

end Nut
