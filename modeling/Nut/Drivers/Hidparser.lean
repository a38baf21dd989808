import Mathlib.Data.List.Forall2
import Mathlib.Logic.Relation
import Mathlib.Tactic.Linarith

/-!
# `hidparser.c`: the fields of a report descriptor

The parser reads the items of a descriptor one by one (`hidParse`) and keeps, for every report, the bit where its next
field starts (`getReportOffset`).  A report is a report ID with a type: feature, input or output.

The descriptor is the memory from its first byte on, of which the first `n` bytes belong to it.  There is no result where
the parser writes or reads outside of its tables.
-/

namespace Nut

namespace Hid

def pathSize : Nat := 10
def usageTabSize : Nat := 50
def maxReport : Nat := 300
def reportDscSize : Nat := 6144

def sizeMask : Nat := 0x03
def itemMask : Nat := 0xFC

def itemCollection : Nat := 0xA0
def itemEndCollection : Nat := 0xC0
def itemFeature : Nat := 0xB0
def itemInput : Nat := 0x80
def itemOutput : Nat := 0x90
def itemUpage : Nat := 0x04
def itemLogMin : Nat := 0x14
def itemLogMax : Nat := 0x24
def itemPhyMin : Nat := 0x34
def itemPhyMax : Nat := 0x44
def itemUnitExp : Nat := 0x54
def itemUnit : Nat := 0x64
def itemRepSize : Nat := 0x74
def itemRepId : Nat := 0x84
def itemRepCount : Nat := 0x94
def itemUsage : Nat := 0x08
def itemLong : Nat := 0xFC

/-- The first `size` nodes are in use. -/
structure HIDPath where
  size : Nat
  node : List Nat
  deriving DecidableEq

/-- There is no result when the table has no room. -/
def HIDPath.push (path : HIDPath) (node : Nat) : Option HIDPath :=
  if path.size < pathSize then some ⟨path.size + 1, path.node.set path.size node⟩ else none

/-- A field of a report. -/
structure HIDData where
  path : HIDPath
  reportID : Nat
  offset : Nat
  size : Nat
  type : Nat
  attr : Nat
  unit : Nat
  unitExp : Int
  logMin : Int
  logMax : Int
  phyMin : Int
  phyMax : Int
  havePhyMin : Bool
  havePhyMax : Bool
  deriving DecidableEq

/-- An entry of `OffsetTab`. -/
structure ReportOffset where
  reportID : Nat
  type : Nat
  offset : Nat
  deriving DecidableEq

/-- `usageTab` are the usages on the stack; the entries above them are 0. -/
structure HIDParser where
  pos : Nat
  item : Nat
  value : Nat
  data : HIDData
  offsetTab : List ReportOffset
  reportCount : Nat
  count : Nat
  upage : Nat
  usageTab : List Nat
  deriving DecidableEq

def HIDParser.init : HIDParser where
  pos := 0
  item := 0
  value := 0
  data := ⟨⟨0, List.replicate pathSize 0⟩, 0, 0, 0, 0, 0, 0, 0, 0, 0, 0, 0, false, false⟩
  offsetTab := List.replicate maxReport ⟨0, 0, 0⟩
  reportCount := 0
  count := 0
  upage := 0
  usageTab := []

def itemSize (item : Nat) : Nat :=
  match item &&& sizeMask with
  | 0 => 0
  | 1 => 1
  | 2 => 2
  | _ => 4

/-- The number in the `size` bytes from `pos` on. -/
def littleEndian (reportDesc : Nat → UInt8) (pos : Nat) : Nat → Nat
  | 0 => 0
  | size + 1 => (reportDesc pos).toNat + 256 * littleEndian reportDesc (pos + 1) size

/-- Read or change the offset for a report: `f` is applied to what `*GetReportOffset` points to, and the second result is
what it pointed to. -/
def getReportOffset (reportID type : Nat) (f : Nat → Nat) : List ReportOffset → Option (List ReportOffset × Nat)
  | [] => none
  | e :: tab =>
    let e := if e.reportID = 0 then ⟨reportID, type, 0⟩ else e
    if e.reportID ≠ reportID ∨ e.type ≠ type then (getReportOffset reportID type f tab).map fun r => (e :: r.1, r.2)
    else some ({ e with offset := f e.offset } :: tab, e.offset)

/-- The `int` that the low bytes of a value stand for. -/
def signed (bits value : Nat) : Int :=
  let v := value % 2 ^ bits
  if v < 2 ^ (bits - 1) then v else v - 2 ^ bits

def formatValue (value size : Nat) : Int :=
  match size with
  | 1 => signed 8 value
  | 2 => signed 16 value
  | 4 => signed 32 value
  | _ => value

/-- The exponent of a unit: four bits with a sign. -/
def unitExp (value : Nat) : Int :=
  let exp := signed 8 value
  if 7 < exp then signed 8 (value % 256 ||| 0xF0) else exp

/-- The entries of a stack of usages after the first; the table has no entry to move down when it is full. -/
def unstack (usageTab : List Nat) : Option (List Nat) := if usageTabSize ≤ usageTab.length then none else some usageTab.tail

/-- A main item: one field of the report.  The result is the field, with 1 for a new object and 0 for a continuation. -/
def mainItem (p : HIDParser) : Option (HIDParser × Option (HIDData × Nat)) := do
  let usage := p.usageTab.headD 0
  let found := if usage ≠ 0 then 1 else 0
  let count := if p.count = 0 then p.reportCount else p.count
  let path ← p.data.path.push usage
  let usageTab ← unstack p.usageTab
  let type := p.item &&& itemMask
  let (tab, offset) ← getReportOffset p.data.reportID type id p.offsetTab
  let data := { p.data with path := path, type := type, attr := p.value % 256, offset := offset }
  let (tab, _) ← getReportOffset p.data.reportID type (fun offset => (offset + p.data.size) % 256) tab
  let count := (count + 255) % 256
  some ({ p with
    data := { data with path := { path with size := path.size - 1 } }
    offsetTab := tab
    count := count
    usageTab := if count = 0 then [] else usageTab }, some (data, found))

/-- The index of a collection. -/
def HIDPath.pushIndex (path : HIDPath) (value : Nat) : Option HIDPath :=
  if 0x80 ≤ value then path.push (0x00ff0000 ||| (value &&& 0x7F)) else some path

/-- An item that opens a collection. -/
def collectionItem (p : HIDParser) : Option HIDParser := do
  let path ← p.data.path.push (p.usageTab.headD 0)
  let _ ← unstack p.usageTab
  let path ← path.pushIndex p.value
  some { p with data := { p.data with path := path }, usageTab := [] }

/-- The size of the path wraps around below 0. -/
def endCollectionItem (p : HIDParser) : Option HIDParser :=
  let size := (p.data.path.size + 255) % 256
  p.data.path.node[size]?.map fun node =>
    let size := if node &&& 0xffff0000 = 0x00ff0000 then (size + 255) % 256 else size
    { p with data := { p.data with path := { p.data.path with size := size } }, usageTab := [] }

/-- What an item puts on the stack of usages. -/
def usageOf (upage item value : Nat) : Nat :=
  if 2 < item &&& sizeMask then value else upage * 2 ^ 16 + value % 2 ^ 16

def usageItem (p : HIDParser) : Option HIDParser :=
  if usageTabSize ≤ p.usageTab.length then none
  else some { p with usageTab := p.usageTab ++ [usageOf p.upage p.item p.value] }

/-- An item that changes the data of the fields after it. -/
def globalItem (p : HIDParser) : HIDParser :=
  let tag := p.item &&& itemMask
  let value := formatValue p.value (itemSize p.item)
  if tag = itemUpage then { p with upage := p.value % 2 ^ 16 }
  else if tag = itemRepId then { p with data := { p.data with reportID := p.value % 256 } }
  else if tag = itemRepSize then { p with data := { p.data with size := p.value % 256 } }
  else if tag = itemRepCount then { p with reportCount := p.value % 256 }
  else if tag = itemUnitExp then { p with data := { p.data with unitExp := unitExp p.value } }
  else if tag = itemUnit then { p with data := { p.data with unit := p.value } }
  else if tag = itemLogMin then { p with data := { p.data with logMin := value } }
  else if tag = itemLogMax then { p with data := { p.data with logMax := value } }
  else if tag = itemPhyMin then { p with data := { p.data with phyMin := value, havePhyMin := true } }
  else if tag = itemPhyMax then { p with data := { p.data with phyMax := value, havePhyMax := true } }
  else if tag = itemLong then { p with pos := (p.pos + p.value % 256) % 2 ^ 16 }
  else p

def isMain (item : Nat) : Bool :=
  item &&& itemMask = itemFeature || item &&& itemMask = itemInput || item &&& itemMask = itemOutput

/-- The `switch` on the item. -/
def hidItem (p : HIDParser) : Option (HIDParser × Option (HIDData × Nat)) :=
  if isMain p.item then mainItem p
  else if p.item &&& itemMask = itemUsage then (usageItem p).map fun p => (p, none)
  else if p.item &&& itemMask = itemCollection then (collectionItem p).map fun p => (p, none)
  else if p.item &&& itemMask = itemEndCollection then (endCollectionItem p).map fun p => (p, none)
  else some (globalItem p, none)

/-- Get the next item. -/
def nextItem (reportDesc : Nat → UInt8) (p : HIDParser) : HIDParser :=
  let item := (reportDesc p.pos).toNat
  let pos := (p.pos + 1) % 2 ^ 16
  { p with
    item := item
    value := littleEndian reportDesc pos (itemSize item)
    pos := (pos + itemSize item) % 2 ^ 16 }

theorem nextItem_pos (reportDesc : Nat → UInt8) (p : HIDParser) :
    (nextItem reportDesc p).pos = (p.pos + 1 + itemSize (reportDesc p.pos).toNat) % 2 ^ 16 :=
  Nat.mod_add_mod ..

/-- The loop of `HIDParse`, as far as the fuel goes; without a field when the descriptor ends. -/
def hidParse (reportDesc : Nat → UInt8) (n : Nat) : Nat → HIDParser → Option (HIDParser × Option (HIDData × Nat))
  | 0, _ => none
  | fuel + 1, p =>
    if p.pos < n then
      match hidItem (if p.count = 0 then nextItem reportDesc p else p) with
      | none => none
      | some (p, some r) => some (p, some r)
      | some (p, none) => hidParse reportDesc n fuel p
    else some (p, none)

/-- `replen` are the lengths of the reports in bytes. -/
structure HIDDesc where
  item : List HIDData
  replen : Nat → Nat

/-- The loop of `Parse_ReportDesc`, as far as the fuel goes. -/
def parseLoop (reportDesc : Nat → UInt8) (n : Nat) : Nat → HIDParser → HIDDesc → Option HIDDesc
  | 0, _, _ => none
  | fuel + 1, p, d =>
    if d.item.length < maxReport then
      match hidParse reportDesc n (n + 1) p with
      | none => none
      | some (_, none) => some d
      | some (p, some (data, found)) =>
        let max := (data.offset + data.size + 7) / 8
        parseLoop reportDesc n fuel p
          { item := if found = 0 then d.item else d.item ++ [data]
            replen := fun id => if id = data.reportID ∧ d.replen id < max then max else d.replen id }
    else some d

def parseReportDesc (reportDesc : Nat → UInt8) (n : Nat) : Option HIDDesc :=
  match parseLoop reportDesc n (256 * (n + 1)) .init ⟨[], fun _ => 0⟩ with
  | none => none
  | some d => if d.item = [] then none else some d

/-- The memory with a descriptor, with zeros after it. -/
def memory (bytes : List UInt8) (i : Nat) : UInt8 := bytes.getD i 0

/-! ### Values in a report -/

abbrev Byte := BitVec 8

/-- Bit `bit` of a report. -/
def bitAt (buf : List Byte) (bit : Nat) : Bool := (buf.getD (bit / 8) 0).getLsbD (bit % 8)

def setBit (buf : List Byte) (bit : Nat) (state : Bool) : List Byte :=
  buf.modify (bit / 8) fun b => if state then b ||| .twoPow 8 (bit % 8) else b &&& ~~~.twoPow 8 (bit % 8)

/-- A bit of a `long`, which is masked with an `int` that is shifted by the weight; the shift counts modulo 32. -/
def valueBit (value : Int) (weight : Nat) : Bool := value / 2 ^ (weight % 32) % 2 = 1

/-- The first byte of a report is its ID. -/
def setValue (d : HIDData) (buf : List Byte) (value : Int) : List Byte :=
  (List.range d.size).foldl (fun buf weight => setBit buf (d.offset + 8 + weight) (valueBit value weight)) buf

@[simp] theorem length_setBit (buf : List Byte) (bit : Nat) (state : Bool) : (setBit buf bit state).length = buf.length :=
  List.length_modify ..

theorem bitAt_setBit {buf : List Byte} {bit : Nat} (h : bit / 8 < buf.length) (state : Bool) (b : Nat) :
    bitAt (setBit buf bit state) b = if b = bit then state else bitAt buf b := by
  unfold bitAt setBit
  rw [List.getD_eq_getElem?_getD, List.getElem?_modify, List.getD_eq_getElem?_getD]
  by_cases hbyte : bit / 8 = b / 8
  · have hlt : b / 8 < buf.length := by omega
    simp only [hbyte, if_true, List.getElem?_eq_getElem hlt, Option.map_eq_map, Option.map_some, Option.getD_some]
    have hmod : b % 8 < 8 := Nat.mod_lt _ (by omega)
    have hsame : b = bit ↔ b % 8 = bit % 8 := by omega
    by_cases hb : b = bit
    · subst hb
      cases state <;> simp [hmod]
    · have hne : ¬b % 8 = bit % 8 := fun h => hb (hsame.2 h)
      cases state <;> simp [hb, hne, hmod]
  · have hb : b ≠ bit := fun hb => hbyte (by rw [hb])
    simp [hbyte, hb]

theorem length_setValue (d : HIDData) (buf : List Byte) (value : Int) : (setValue d buf value).length = buf.length := by
  unfold setValue
  induction List.range d.size generalizing buf with
  | nil => rfl
  | cons weight weights ih => rw [List.foldl_cons, ih, length_setBit]

/-- `SetValue` puts the bits of the value into those of the item, and changes no other. -/
theorem bitAt_setValue {d : HIDData} {buf : List Byte} (h : d.offset + 8 + d.size ≤ 8 * buf.length) (value : Int) (b : Nat) :
    bitAt (setValue d buf value) b =
      if d.offset + 8 ≤ b ∧ b < d.offset + 8 + d.size then valueBit value (b - (d.offset + 8)) else bitAt buf b := by
  have hloop : ∀ size ≤ d.size, ((List.range size).foldl (fun buf weight =>
      setBit buf (d.offset + 8 + weight) (valueBit value weight)) buf).length = buf.length ∧
      ∀ b, bitAt ((List.range size).foldl (fun buf weight =>
        setBit buf (d.offset + 8 + weight) (valueBit value weight)) buf) b =
          if d.offset + 8 ≤ b ∧ b < d.offset + 8 + size then valueBit value (b - (d.offset + 8)) else bitAt buf b := by
    intro size
    induction size with
    | zero =>
      intro _
      refine ⟨rfl, fun b => ?_⟩
      rw [if_neg (by omega)]
      rfl
    | succ size ih =>
      intro hsize
      obtain ⟨hlen, hbits⟩ := ih (by omega)
      rw [List.range_succ, List.foldl_append, List.foldl_cons, List.foldl_nil]
      refine ⟨by rw [length_setBit, hlen], fun b => ?_⟩
      rw [bitAt_setBit (by rw [hlen]; omega), hbits]
      by_cases hb : b = d.offset + 8 + size
      · have hweight : b - (d.offset + 8) = size := by omega
        rw [if_pos hb, if_pos (by omega), hweight]
      · rw [if_neg hb]
        by_cases hin : d.offset + 8 ≤ b ∧ b < d.offset + 8 + size
        · rw [if_pos hin, if_pos (by omega)]
        · rw [if_neg hin, if_neg (by omega)]
  exact (hloop d.size (Nat.le_refl _)).2 b

/-! ### What an item does -/

/-- An item is a main item with one field, or it yields none. -/
theorem hidItem_cases {p p' : HIDParser} {r : Option (HIDData × Nat)} (h : hidItem p = some (p', r)) :
    (isMain p.item = true ∧ mainItem p = some (p', r)) ∨ (isMain p.item = false ∧ r = none ∧
      (usageItem p = some p' ∨ collectionItem p = some p' ∨ endCollectionItem p = some p' ∨ p' = globalItem p)) := by
  have hmap {o : Option HIDParser} (h : o.map (fun p => (p, none)) = some (p', r)) : r = none ∧ o = some p' := by
    obtain ⟨q, hq, hres⟩ := Option.map_eq_some_iff.1 h
    obtain ⟨rfl, rfl⟩ := Prod.mk.inj hres
    exact ⟨rfl, hq⟩
  unfold hidItem at h
  by_cases hmain : isMain p.item = true
  · rw [if_pos hmain] at h
    exact .inl ⟨hmain, h⟩
  rw [if_neg hmain] at h
  refine .inr ⟨Bool.eq_false_iff.2 hmain, ?_⟩
  split_ifs at h
  · exact ⟨(hmap h).1, .inl (hmap h).2⟩
  · exact ⟨(hmap h).1, .inr (.inl (hmap h).2)⟩
  · exact ⟨(hmap h).1, .inr (.inr (.inl (hmap h).2))⟩
  · obtain ⟨rfl, rfl⟩ := Prod.mk.inj (Option.some.inj h)
    exact ⟨rfl, .inr (.inr (.inr rfl))⟩

/-- What a global item leaves as it is, and where the bounds of the fields come from. -/
structure GlobalStep (p p' : HIDParser) : Prop where
  item : p'.item = p.item
  value : p'.value = p.value
  count : p'.count = p.count
  offsetTab : p'.offsetTab = p.offsetTab
  usageTab : p'.usageTab = p.usageTab
  path : p'.data.path = p.data.path
  logMin : p'.data.logMin = p.data.logMin ∨ p'.data.logMin = formatValue p.value (itemSize p.item)
  logMax : p'.data.logMax = p.data.logMax ∨ p'.data.logMax = formatValue p.value (itemSize p.item)
  pos : p'.pos = if p.item &&& itemMask = itemLong then (p.pos + p.value % 256) % 2 ^ 16 else p.pos

theorem globalItem_spec (p : HIDParser) : GlobalStep p (globalItem p) := by
  have hite {tag : Nat} {a b : HIDParser} (hne : tag ≠ itemLong) (ha : p.item &&& itemMask ≠ itemLong → GlobalStep p a)
      (hb : GlobalStep p b) : GlobalStep p (if p.item &&& itemMask = tag then a else b) := by
    split
    · rename_i htag
      exact ha (htag ▸ hne)
    · exact hb
  unfold globalItem
  refine hite (by decide) (fun h => ⟨rfl, rfl, rfl, rfl, rfl, rfl, .inl rfl, .inl rfl, (if_neg h).symm⟩) ?_
  refine hite (by decide) (fun h => ⟨rfl, rfl, rfl, rfl, rfl, rfl, .inl rfl, .inl rfl, (if_neg h).symm⟩) ?_
  refine hite (by decide) (fun h => ⟨rfl, rfl, rfl, rfl, rfl, rfl, .inl rfl, .inl rfl, (if_neg h).symm⟩) ?_
  refine hite (by decide) (fun h => ⟨rfl, rfl, rfl, rfl, rfl, rfl, .inl rfl, .inl rfl, (if_neg h).symm⟩) ?_
  refine hite (by decide) (fun h => ⟨rfl, rfl, rfl, rfl, rfl, rfl, .inl rfl, .inl rfl, (if_neg h).symm⟩) ?_
  refine hite (by decide) (fun h => ⟨rfl, rfl, rfl, rfl, rfl, rfl, .inl rfl, .inl rfl, (if_neg h).symm⟩) ?_
  refine hite (by decide) (fun h => ⟨rfl, rfl, rfl, rfl, rfl, rfl, .inr rfl, .inl rfl, (if_neg h).symm⟩) ?_
  refine hite (by decide) (fun h => ⟨rfl, rfl, rfl, rfl, rfl, rfl, .inl rfl, .inr rfl, (if_neg h).symm⟩) ?_
  refine hite (by decide) (fun h => ⟨rfl, rfl, rfl, rfl, rfl, rfl, .inl rfl, .inl rfl, (if_neg h).symm⟩) ?_
  refine hite (by decide) (fun h => ⟨rfl, rfl, rfl, rfl, rfl, rfl, .inl rfl, .inl rfl, (if_neg h).symm⟩) ?_
  by_cases hlong : p.item &&& itemMask = itemLong
  · rw [if_pos hlong]
    exact ⟨rfl, rfl, rfl, rfl, rfl, rfl, .inl rfl, .inl rfl, (if_pos hlong).symm⟩
  · rw [if_neg hlong]
    exact ⟨rfl, rfl, rfl, rfl, rfl, rfl, .inl rfl, .inl rfl, (if_neg hlong).symm⟩

/-- `Inv` holds of the parser between two items, and `Q` of every field. -/
structure Keeps (Inv : HIDParser → Prop) (Q : HIDData → Prop) : Prop where
  start : Inv .init
  next : ∀ reportDesc p, Inv p → Inv (nextItem reportDesc p)
  item : ∀ p p' r, Inv p → hidItem p = some (p', r) → Inv p' ∧ ∀ data found, r = some (data, found) → Q data

theorem Keeps.hidParse {Inv : HIDParser → Prop} {Q : HIDData → Prop} (h : Keeps Inv Q) {reportDesc : Nat → UInt8}
    {n fuel : Nat} {p p' : HIDParser} {r : Option (HIDData × Nat)} (hp : Inv p)
    (hcall : hidParse reportDesc n fuel p = some (p', r)) : Inv p' ∧ ∀ data found, r = some (data, found) → Q data := by
  induction fuel generalizing p with
  | zero => simp [Hid.hidParse] at hcall
  | succ fuel ih =>
    rw [Hid.hidParse] at hcall
    have hstart : Inv (if p.count = 0 then nextItem reportDesc p else p) := by
      split
      · exact h.next _ _ hp
      · exact hp
    by_cases hpos : p.pos < n
    · rw [if_pos hpos] at hcall
      cases hq : hidItem (if p.count = 0 then nextItem reportDesc p else p) with
      | none => simp [hq] at hcall
      | some res =>
        obtain ⟨q, r'⟩ := res
        have hitem := h.item _ _ _ hstart hq
        simp only [hq] at hcall
        cases r' with
        | none => exact ih hitem.1 hcall
        | some r' =>
          obtain ⟨rfl, rfl⟩ := Prod.mk.inj (Option.some.inj hcall)
          exact hitem
    · rw [if_neg hpos] at hcall
      obtain ⟨rfl, rfl⟩ := Prod.mk.inj (Option.some.inj hcall)
      exact ⟨hp, by simp⟩

theorem Keeps.parseLoop {Inv : HIDParser → Prop} {Q : HIDData → Prop} (h : Keeps Inv Q) {reportDesc : Nat → UInt8}
    {n fuel : Nat} {p : HIDParser} {d d' : HIDDesc} (hp : Inv p) (hd : ∀ data ∈ d.item, Q data)
    (hloop : parseLoop reportDesc n fuel p d = some d') : ∀ data ∈ d'.item, Q data := by
  induction fuel generalizing p d with
  | zero => simp [Hid.parseLoop] at hloop
  | succ fuel ih =>
    rw [Hid.parseLoop] at hloop
    split_ifs at hloop
    · cases hcall : Hid.hidParse reportDesc n (n + 1) p with
      | none => simp [hcall] at hloop
      | some res =>
        obtain ⟨p', r⟩ := res
        have hparse := h.hidParse hp hcall
        simp only [hcall] at hloop
        cases r with
        | none => exact Option.some.inj hloop ▸ hd
        | some r =>
          obtain ⟨data, found⟩ := r
          refine ih hparse.1 (fun data' hmem => ?_) hloop
          dsimp only at hmem
          split_ifs at hmem
          · exact hd data' hmem
          · rcases List.mem_append.1 hmem with hmem | hmem
            · exact hd data' hmem
            · exact List.mem_singleton.1 hmem ▸ hparse.2 data found rfl
    · exact Option.some.inj hloop ▸ hd

/-- Every item of a descriptor. -/
theorem Keeps.parse {Inv : HIDParser → Prop} {Q : HIDData → Prop} (h : Keeps Inv Q) {reportDesc : Nat → UInt8} {n : Nat}
    {d : HIDDesc} (hparse : parseReportDesc reportDesc n = some d) : ∀ data ∈ d.item, Q data := by
  unfold parseReportDesc at hparse
  cases hloop : Hid.parseLoop reportDesc n (256 * (n + 1)) .init ⟨[], fun _ => 0⟩ with
  | none => simp [hloop] at hparse
  | some d' =>
    simp only [hloop] at hparse
    split_ifs at hparse
    obtain rfl := Option.some.inj hparse
    exact h.parseLoop h.start (by simp) hloop

/-! ### The fuel -/

theorem itemSize_le (item : Nat) : itemSize item ≤ 4 := by
  unfold itemSize
  split <;> omega

/-- What an item does to the position and to the count of the fields that are left. -/
structure Moved (p p' : HIDParser) : Prop where
  item : p'.item = p.item
  pos : p'.pos = if p.item &&& itemMask = itemLong then (p.pos + p.value % 256) % 2 ^ 16 else p.pos
  count : p'.count = if isMain p.item then ((if p.count = 0 then p.reportCount else p.count) + 255) % 256 else p.count

theorem tag_ne_itemLong {item : Nat} (h : isMain item = true) : item &&& itemMask ≠ itemLong := by
  intro hlong
  rw [isMain, hlong] at h
  exact absurd h (by decide)

private theorem mainItem_moved {p p' : HIDParser} {r : Option (HIDData × Nat)} (hmain : isMain p.item = true)
    (h : mainItem p = some (p', r)) : Moved p p' ∧ r.isSome = true := by
  unfold mainItem at h
  obtain ⟨path, -, h⟩ := Option.bind_eq_some_iff.1 h
  obtain ⟨usageTab, -, h⟩ := Option.bind_eq_some_iff.1 h
  obtain ⟨⟨tab, offset⟩, -, h⟩ := Option.bind_eq_some_iff.1 h
  obtain ⟨⟨tab', offset'⟩, -, h⟩ := Option.bind_eq_some_iff.1 h
  obtain ⟨rfl, rfl⟩ := Prod.mk.inj (Option.some.inj h)
  exact ⟨⟨rfl, (if_neg (tag_ne_itemLong hmain)).symm, (if_pos hmain).symm⟩, rfl⟩

/-- What moves only the tables. -/
private theorem Moved.of_same {p p' : HIDParser} (hmain : isMain p.item = false) (hlong : p.item &&& itemMask ≠ itemLong)
    (hitem : p'.item = p.item) (hpos : p'.pos = p.pos) (hcount : p'.count = p.count) : Moved p p' :=
  ⟨hitem, hpos.trans (if_neg hlong).symm, hcount.trans (if_neg (by simp [hmain])).symm⟩

theorem hidItem_moved {p p' : HIDParser} {r : Option (HIDData × Nat)} (h : hidItem p = some (p', r)) :
    Moved p p' ∧ r.isSome = isMain p.item := by
  rcases hidItem_cases h with ⟨hmain, hq⟩ | ⟨hmain, rfl, hq⟩
  · rw [hmain]
    exact mainItem_moved hmain hq
  refine ⟨?_, hmain.symm⟩
  by_cases hlong : p.item &&& itemMask = itemLong
  · have hglobal : hidItem p = some (globalItem p, none) := by
      rw [hidItem, if_neg (by simp [hmain]), hlong, if_neg (by decide), if_neg (by decide), if_neg (by decide)]
    rw [hglobal] at h
    obtain ⟨rfl, -⟩ := Prod.mk.inj (Option.some.inj h)
    have hspec := globalItem_spec p
    exact ⟨hspec.item, hspec.pos, hspec.count.trans (if_neg (by simp [hmain])).symm⟩
  rcases hq with hq | hq | hq | rfl
  · unfold usageItem at hq
    split_ifs at hq
    obtain rfl := Option.some.inj hq
    exact .of_same hmain hlong rfl rfl rfl
  · unfold collectionItem at hq
    obtain ⟨path, -, hq⟩ := Option.bind_eq_some_iff.1 hq
    obtain ⟨-, -, hq⟩ := Option.bind_eq_some_iff.1 hq
    obtain ⟨path', -, hq⟩ := Option.bind_eq_some_iff.1 hq
    obtain rfl := Option.some.inj hq
    exact .of_same hmain hlong rfl rfl rfl
  · unfold endCollectionItem at hq
    obtain ⟨node, -, rfl⟩ := Option.map_eq_some_iff.1 hq
    exact .of_same hmain hlong rfl rfl rfl
  · have hspec := globalItem_spec p
    exact .of_same hmain hlong hspec.item (hspec.pos.trans (if_neg hlong)) hspec.count

/-- Within a main item the parser goes on with it. -/
def Busy (p : HIDParser) : Prop := p.count ≠ 0 → isMain p.item = true

/-- A round of the loop of `HIDParse`, as far as it decides what the next one reads: the tables may hold anything after it.
A write outside of a table, which ends the model, is a round of this kind too as long as it leaves these members. -/
structure Round (reportDesc : Nat → UInt8) (n : Nat) (p p' : HIDParser) : Prop where
  more : p.pos < n
  moved : Moved (if p.count = 0 then nextItem reportDesc p else p) p'

/-- The bytes that a round takes. -/
def consumed (reportDesc : Nat → UInt8) (p : HIDParser) : Nat :=
  if p.count = 0 then
    1 + itemSize (reportDesc p.pos).toNat +
      if (reportDesc p.pos).toNat &&& itemMask = itemLong then (nextItem reportDesc p).value % 256 else 0
  else 0

theorem consumed_le (reportDesc : Nat → UInt8) (p : HIDParser) : consumed reportDesc p ≤ 260 := by
  have hle := itemSize_le (reportDesc p.pos).toNat
  unfold consumed
  split_ifs
  · omega
  · omega
  · omega

theorem Round.of_hidItem {reportDesc : Nat → UInt8} {n : Nat} {p p' : HIDParser} {r : Option (HIDData × Nat)} (hpos : p.pos < n)
    (h : hidItem (if p.count = 0 then nextItem reportDesc p else p) = some (p', r)) : Round reportDesc n p p' :=
  ⟨hpos, (hidItem_moved h).1⟩

namespace Round

variable {reportDesc : Nat → UInt8} {n : Nat} {p p' : HIDParser}

/-- The position does not wrap around. -/
theorem pos_eq (h : Round reportDesc n p p') (hn : n ≤ reportDscSize) (hb : Busy p) :
    p'.pos = p.pos + consumed reportDesc p := by
  have hmore := h.more
  have hmoved := h.moved
  rw [reportDscSize] at hn
  unfold consumed
  by_cases hidle : p.count = 0
  · have hle := itemSize_le (reportDesc p.pos).toNat
    have hnext : (nextItem reportDesc p).pos = p.pos + 1 + itemSize (reportDesc p.pos).toNat :=
      (nextItem_pos reportDesc p).trans (Nat.mod_eq_of_lt (by omega))
    have hitem : (nextItem reportDesc p).item = (reportDesc p.pos).toNat := rfl
    rw [if_pos hidle] at hmoved ⊢
    rw [hmoved.pos, hnext, hitem]
    split_ifs
    · rw [Nat.mod_eq_of_lt (by omega)]
      omega
    · omega
  · rw [if_neg hidle] at hmoved ⊢
    rw [hmoved.pos, if_neg (tag_ne_itemLong (hb hidle)), Nat.add_zero]

theorem busy (h : Round reportDesc n p p') (hb : Busy p) : Busy p' := by
  intro hne
  rw [h.moved.item]
  by_cases hidle : p.count = 0
  · have hcount := h.moved.count
    rw [if_pos hidle] at hcount ⊢
    by_contra hmain
    rw [if_neg hmain] at hcount
    exact hne (hcount.trans hidle)
  · rw [if_neg hidle]
    exact hb hidle

/-- A round takes an item, or one of the fields that are left of an item. -/
theorem takes (h : Round reportDesc n p p') (hn : n ≤ reportDscSize) (hb : Busy p) :
    p.count = 0 ∧ p.pos < p'.pos ∧ p'.count < 256 ∨
      p.count ≠ 0 ∧ p'.pos = p.pos ∧ p'.count = (p.count + 255) % 256 := by
  have hpos := h.pos_eq hn hb
  have hcount := h.moved.count
  unfold consumed at hpos
  by_cases hidle : p.count = 0
  · rw [if_pos hidle] at hpos hcount
    refine .inl ⟨hidle, by omega, ?_⟩
    rw [hcount]
    split
    · exact Nat.mod_lt _ (by omega)
    · exact hidle.trans_lt (by omega)
  · rw [if_neg hidle] at hpos hcount
    rw [if_pos (hb hidle), if_neg hidle] at hcount
    exact .inr ⟨hidle, hpos, hcount⟩

end Round

/-- What every round makes smaller. -/
theorem transGen_lt {reportDesc : Nat → UInt8} {n : Nat} {α : Type*} [Preorder α] {m : HIDParser → α}
    (hm : ∀ p p', Busy p → Round reportDesc n p p' → m p' < m p) {p p' : HIDParser} (hb : Busy p)
    (h : Relation.TransGen (Round reportDesc n) p p') : Busy p' ∧ m p' < m p := by
  induction h with
  | single h => exact ⟨h.busy hb, hm _ _ hb h⟩
  | tail _ h ih => exact ⟨h.busy ih.1, (hm _ _ ih.1 h).trans ih.2⟩

/-- A call goes from round to round, and finds a field in the last one. -/
theorem hidParse_rounds {reportDesc : Nat → UInt8} {n fuel : Nat} {p p' : HIDParser} {r : Option (HIDData × Nat)}
    (h : hidParse reportDesc n fuel p = some (p', r)) :
    Relation.ReflTransGen (Round reportDesc n) p p' ∧ (r.isSome → Relation.TransGen (Round reportDesc n) p p') := by
  induction fuel generalizing p with
  | zero => simp [hidParse] at h
  | succ fuel ih =>
    rw [hidParse] at h
    by_cases hpos : p.pos < n
    · rw [if_pos hpos] at h
      cases hq : hidItem (if p.count = 0 then nextItem reportDesc p else p) with
      | none => simp [hq] at h
      | some res =>
        obtain ⟨q, r'⟩ := res
        have hround := Round.of_hidItem hpos hq
        simp only [hq] at h
        cases r' with
        | none =>
          obtain ⟨hrefl, htrans⟩ := ih h
          exact ⟨.head hround hrefl, fun hr => .head hround (htrans hr)⟩
        | some r' =>
          obtain ⟨rfl, -⟩ := Prod.mk.inj (Option.some.inj h)
          exact ⟨.single hround, fun _ => .single hround⟩
    · rw [if_neg hpos] at h
      obtain ⟨rfl, rfl⟩ := Prod.mk.inj (Option.some.inj h)
      exact ⟨.refl, fun hr => absurd hr (by simp)⟩

/-- A call that finds a field takes an item, or one of the fields that are left of an item. -/
theorem hidParse_moves {reportDesc : Nat → UInt8} {n : Nat} (hn : n ≤ reportDscSize) {fuel : Nat} {p p' : HIDParser}
    {r : HIDData × Nat} (hb : Busy p) (h : hidParse reportDesc n fuel p = some (p', some r)) :
    Busy p' ∧ 256 * (n - p'.pos) + p'.count < 256 * (n - p.pos) + p.count := by
  refine transGen_lt (m := fun p => 256 * (n - p.pos) + p.count) (fun p p' hb hround => ?_) hb ((hidParse_rounds h).2 rfl)
  have hmore := hround.more
  rcases hround.takes hn hb with htakes | htakes
  · omega
  · omega

/-- Fuel beyond the bytes that are left changes nothing. -/
theorem hidParse_fuel {reportDesc : Nat → UInt8} {n : Nat} (hn : n ≤ reportDscSize) {fuel : Nat} {p : HIDParser} (hb : Busy p)
    (hfuel : n - p.pos < fuel) : hidParse reportDesc n (fuel + 1) p = hidParse reportDesc n fuel p := by
  induction fuel generalizing p with
  | zero => omega
  | succ fuel ih =>
    rw [hidParse, hidParse]
    by_cases hpos : p.pos < n
    · rw [if_pos hpos, if_pos hpos]
      cases hq : hidItem (if p.count = 0 then nextItem reportDesc p else p) with
      | none => rfl
      | some res =>
        obtain ⟨q, _ | r⟩ := res
        · have hround := Round.of_hidItem hpos hq
          have hidle : p.count = 0 := by
            by_contra hne
            have hsome := (hidItem_moved hq).2
            rw [if_neg hne, hb hne] at hsome
            cases hsome
          refine ih (hround.busy hb) ?_
          rcases hround.takes hn hb with htakes | htakes
          · omega
          · exact absurd hidle htakes.1
        · rfl
    · rw [if_neg hpos, if_neg hpos]

/-- The fuel of `parseReportDesc` is enough: more of it changes nothing. -/
theorem parseLoop_fuel {reportDesc : Nat → UInt8} {n : Nat} (hn : n ≤ reportDscSize) {fuel : Nat} {p : HIDParser}
    (d : HIDDesc) (hb : Busy p) (hfuel : 256 * (n - p.pos) + p.count < fuel) :
    parseLoop reportDesc n (fuel + 1) p d = parseLoop reportDesc n fuel p d := by
  induction fuel generalizing p d with
  | zero => omega
  | succ fuel ih =>
    rw [parseLoop, parseLoop]
    by_cases hfull : d.item.length < maxReport
    · rw [if_pos hfull, if_pos hfull]
      cases hcall : hidParse reportDesc n (n + 1) p with
      | none => rfl
      | some res =>
        obtain ⟨p', _ | ⟨data, found⟩⟩ := res
        · rfl
        · obtain ⟨hb', hlt⟩ := hidParse_moves hn hb hcall
          exact ih _ hb' (by omega)
    · rw [if_neg hfull, if_neg hfull]

/-! ### The length of a report -/

private theorem parseLoop_replen {reportDesc : Nat → UInt8} {n fuel : Nat} {p : HIDParser} {d d' : HIDDesc}
    (hd : ∀ data ∈ d.item, data.offset + data.size ≤ 8 * d.replen data.reportID)
    (h : parseLoop reportDesc n fuel p d = some d') :
    ∀ data ∈ d'.item, data.offset + data.size ≤ 8 * d'.replen data.reportID := by
  induction fuel generalizing p d with
  | zero => simp [parseLoop] at h
  | succ fuel ih =>
    rw [parseLoop] at h
    split_ifs at h
    · cases hcall : hidParse reportDesc n (n + 1) p with
      | none => simp [hcall] at h
      | some res =>
        obtain ⟨p', _ | ⟨data, found⟩⟩ := res
        · simp only [hcall, Option.some.injEq] at h
          exact h ▸ hd
        · simp only [hcall] at h
          refine ih (fun data' hdata' => ?_) h
          dsimp only at hdata' ⊢
          have hlen : data.offset + data.size ≤ 8 * ((data.offset + data.size + 7) / 8) := by omega
          have hold : data' ∈ d.item → data'.offset + data'.size ≤ 8 * (if data'.reportID = data.reportID ∧
              d.replen data'.reportID < (data.offset + data.size + 7) / 8 then (data.offset + data.size + 7) / 8
              else d.replen data'.reportID) := by
            intro hmem
            have hle := hd data' hmem
            split_ifs with hmax
            · omega
            · exact hle
          split_ifs at hdata'
          · exact hold hdata'
          · rcases List.mem_append.1 hdata' with hmem | hmem
            · exact hold hmem
            · obtain rfl := List.mem_singleton.1 hmem
              split_ifs with hmax
              · exact hlen
              · omega
    · obtain rfl := Option.some.inj h
      exact hd

/-- Every field lies in its report. -/
theorem parse_replen {reportDesc : Nat → UInt8} {n : Nat} {d : HIDDesc} (h : parseReportDesc reportDesc n = some d) :
    ∀ data ∈ d.item, data.offset + data.size ≤ 8 * d.replen data.reportID := by
  unfold parseReportDesc at h
  cases hloop : parseLoop reportDesc n (256 * (n + 1)) .init ⟨[], fun _ => 0⟩ with
  | none => simp [hloop] at h
  | some d' =>
    simp only [hloop] at h
    split_ifs at h
    obtain rfl := Option.some.inj h
    exact parseLoop_replen (by simp) hloop

end Hid

end Nut
