import Nut.Drivers.Hidparser
import Mathlib.Data.List.Basic
import Mathlib.Algebra.BigOperators.Group.List.Basic

/-!
# The layout of a report

What a descriptor says on its reports is read off its main items (`mainItems`): in each report the fields follow each other
(`ReportField.start`).  The parser counts the same bits, in a byte, and does not count them at all without a report ID
(`layout_iff`).
-/

namespace Nut

namespace Hid

/-! ### What a descriptor says -/

/-- What the items of a descriptor have declared so far. -/
structure Globals where
  upage : Nat
  reportID : Nat
  reportSize : Nat
  reportCount : Nat

def Globals.item (g : Globals) (tag value : Nat) : Globals :=
  if tag = itemUpage then { g with upage := value % 2 ^ 16 }
  else if tag = itemRepId then { g with reportID := value }
  else if tag = itemRepSize then { g with reportSize := value }
  else if tag = itemRepCount then { g with reportCount := value }
  else g

/-- A main item with what is declared for it; `last` says that the descriptor ends with it. -/
structure MainItem where
  reportID : Nat
  type : Nat
  size : Nat
  count : Nat
  usages : List Nat
  last : Bool
  deriving DecidableEq

/-- The main items of a descriptor from `pos` on. -/
def mainItems (reportDesc : Nat → UInt8) (n : Nat) (g : Globals) (usages : List Nat) (pos : Nat) : List MainItem :=
  if h : pos < n then
    let item := (reportDesc pos).toNat
    let tag := item &&& itemMask
    let value := littleEndian reportDesc (pos + 1) (itemSize item)
    let next := pos + 1 + itemSize item
    if isMain item then
      ⟨g.reportID, tag, g.reportSize, g.reportCount, usages, n ≤ next⟩ :: mainItems reportDesc n g [] next
    else if tag = itemUsage then mainItems reportDesc n g (usages ++ [usageOf g.upage item value]) next
    else if tag = itemCollection ∨ tag = itemEndCollection then mainItems reportDesc n g [] next
    else if tag = itemLong then mainItems reportDesc n g usages (next + value % 256)
    else mainItems reportDesc n (g.item tag value) usages next
  else []
termination_by n - pos

def descItems (reportDesc : Nat → UInt8) (n : Nat) : List MainItem := mainItems reportDesc n ⟨0, 0, 0, 0⟩ [] 0

/-- A field in its report: `size` bits from the bit `start` on; `count` is that of its main item. -/
structure ReportField where
  reportID : Nat
  type : Nat
  start : Nat
  size : Nat
  count : Nat
  usage : Nat
  deriving DecidableEq

/-- The fields that the parser makes of a main item.  It stops at the end of the descriptor, and counts 0 down to 255. -/
def MainItem.number (m : MainItem) : Nat := if m.last then 1 else if m.count = 0 then 256 else m.count

def MainItem.field (m : MainItem) (base k : Nat) : ReportField where
  reportID := m.reportID
  type := m.type
  start := base + k * m.size
  size := m.size
  count := m.count
  usage := m.usages.getD k 0

/-- The bits of a report that main items take. -/
def bitsOf (before : List MainItem) (reportID type : Nat) : Nat :=
  ((before.filter fun m => m.reportID = reportID ∧ m.type = type).map fun m => m.size * m.count).sum

/-- The fields of main items, each after the bits of those before it. -/
def fieldsAfter (before : List MainItem) : List MainItem → List ReportField
  | [] => []
  | m :: ms =>
    (List.range' 0 m.number).map (m.field (bitsOf before m.reportID m.type)) ++ fieldsAfter (before ++ [m]) ms

/-- The fields with a usage, up to the size of the table. -/
def produced (reportDesc : Nat → UInt8) (n : Nat) : List ReportField :=
  ((fieldsAfter [] (descItems reportDesc n)).filter fun f => f.usage ≠ 0).take maxReport

/-- The descriptor is not longer than `REPORT_DSC_SIZE`, and report IDs, sizes and counts are those a byte has room for. -/
structure Documented (reportDesc : Nat → UInt8) (n : Nat) : Prop where
  length : n ≤ reportDscSize
  items : ∀ m ∈ descItems reportDesc n, m.reportID < 256 ∧ m.size < 256 ∧ m.count < 256

def ReportField.bits (f : ReportField) : List Nat := List.range' f.start f.size

def HIDData.bits (d : HIDData) : List Nat := List.range' d.offset d.size

def ReportField.isOf (reportID type : Nat) (f : ReportField) : Bool := f.reportID = reportID ∧ f.type = type

def HIDData.isOf (reportID type : Nat) (d : HIDData) : Bool := d.reportID = reportID ∧ d.type = type

/-- The fields of a report start where the descriptor says, and have no bit in common. -/
structure LaidOut (item : List HIDData) (fields : List ReportField) (reportID type : Nat) : Prop where
  offset : List.Forall₂ (fun data field => data.offset = field.start ∧ data.size = field.size)
    (item.filter (HIDData.isOf reportID type)) (fields.filter (ReportField.isOf reportID type))
  disjoint : (item.filter (HIDData.isOf reportID type)).Pairwise fun d d' => d.bits.Disjoint d'.bits

/-- A report with an ID starts all of its fields in its first 256 bits, and one without starts them all at 0.  A main item
with the count 0 takes no bits, so what is made of it has none in common with a later field. -/
structure Fits (fields : List ReportField) (reportID type : Nat) : Prop where
  start : ∀ f ∈ fields.filter (ReportField.isOf reportID type), f.start < if reportID = 0 then 1 else 256
  count : (fields.filter (ReportField.isOf reportID type)).Pairwise fun f f' => f.count = 0 → f.bits.Disjoint f'.bits

/-! ### The table of offsets -/

/-- What the table says on a report. -/
def offsetOf (tab : List ReportOffset) (reportID type : Nat) : Nat :=
  ((tab.find? fun e => e.reportID = reportID ∧ e.type = type).map ReportOffset.offset).getD 0

/-- The entries in use come first. -/
def Packed (tab : List ReportOffset) : Prop := tab.Pairwise fun e e' => e.reportID = 0 → e'.reportID = 0

private theorem offsetOf_of_free {tab : List ReportOffset} {reportID : Nat} (hid : reportID ≠ 0)
    (h : ∀ e ∈ tab, e.reportID = 0) (type : Nat) : offsetOf tab reportID type = 0 := by
  have hnone : tab.find? (fun e => e.reportID = reportID ∧ e.type = type) = none := by
    rw [List.find?_eq_none]
    intro e he heq
    simp only [decide_eq_true_eq] at heq
    exact hid (heq.1.symm.trans (h e he))
  rw [offsetOf, hnone]
  rfl

private theorem offsetOf_cons (e : ReportOffset) (tab : List ReportOffset) (reportID type : Nat) :
    offsetOf (e :: tab) reportID type =
      if e.reportID = reportID ∧ e.type = type then e.offset else offsetOf tab reportID type := by
  unfold offsetOf
  rw [List.find?_cons]
  split_ifs with h
  · simp [h]
  · simp [h]

/-- A report without an ID is always at 0; otherwise its offset is read and changed, and no other. -/
theorem getReportOffset_spec {reportID type o : Nat} {f : Nat → Nat} {tab tab' : List ReportOffset} (hp : Packed tab)
    (h : getReportOffset reportID type f tab = some (tab', o)) : Packed tab' ∧
      (o = if reportID = 0 then 0 else offsetOf tab reportID type) ∧
      ∀ reportID' type', reportID' ≠ 0 → offsetOf tab' reportID' type' =
        if reportID' = reportID ∧ type' = type then f (offsetOf tab reportID type) else offsetOf tab reportID' type' := by
  induction tab generalizing tab' with
  | nil => simp [getReportOffset] at h
  | cons e tab ih =>
    obtain ⟨hhead, htail⟩ := List.pairwise_cons.1 hp
    rw [getReportOffset] at h
    by_cases hfree : e.reportID = 0
    · -- the first free entry becomes that of the report
      simp only [hfree, if_true, ne_eq, not_true, or_self, if_false, Option.some.injEq, Prod.mk.injEq] at h
      obtain ⟨rfl, rfl⟩ := h
      have hzero : ∀ e' ∈ tab, e'.reportID = 0 := fun e' he' => hhead e' he' hfree
      refine ⟨List.pairwise_cons.2 ⟨fun e' he' _ => hzero e' he', htail⟩, ?_, fun id' type' hid' => ?_⟩
      · split_ifs with hid
        · rfl
        · refine (offsetOf_of_free hid (fun e' he' => ?_) type).symm
          rcases List.mem_cons.1 he' with rfl | he'
          · exact hfree
          · exact hzero e' he'
      · have hfree' : ∀ e' ∈ e :: tab, e'.reportID = 0 := by
          intro e' he'
          rcases List.mem_cons.1 he' with rfl | he'
          · exact hfree
          · exact hzero e' he'
        rw [offsetOf_cons, offsetOf_of_free hid' hfree']
        dsimp only
        by_cases hsame : id' = reportID ∧ type' = type
        · obtain ⟨rfl, rfl⟩ := hsame
          simp only [and_self, if_true]
          rw [offsetOf_of_free hid' hfree']
        · rw [if_neg hsame, if_neg (fun h => hsame ⟨h.1.symm, h.2.symm⟩), offsetOf_of_free hid' hzero]
    · simp only [hfree, if_false] at h
      by_cases hother : e.reportID ≠ reportID ∨ e.type ≠ type
      · rw [if_pos hother] at h
        obtain ⟨⟨tab₁, o₁⟩, hrec, hres⟩ := Option.map_eq_some_iff.1 h
        obtain ⟨rfl, rfl⟩ := Prod.mk.inj hres
        obtain ⟨hp', ho, hall⟩ := ih htail hrec
        have hne : ¬(e.reportID = reportID ∧ e.type = type) := fun h => hother.elim (fun h' => h' h.1) fun h' => h' h.2
        refine ⟨List.pairwise_cons.2 ⟨fun _ _ h => absurd h hfree, hp'⟩, ?_, fun id' type' hid' => ?_⟩
        · rw [ho, offsetOf_cons, if_neg hne]
        · rw [offsetOf_cons, offsetOf_cons, offsetOf_cons, if_neg hne, hall id' type' hid']
          by_cases hsame : id' = reportID ∧ type' = type
          · obtain ⟨rfl, rfl⟩ := hsame
            rw [if_neg hne]
            simp only [and_self, if_true]
          · simp only [hsame, if_false]
      · have hsame : e.reportID = reportID ∧ e.type = type := by
          by_contra hne
          exact hother (not_and_or.1 hne)
        rw [if_neg hother] at h
        obtain ⟨rfl, rfl⟩ := Prod.mk.inj (Option.some.inj h)
        refine ⟨List.pairwise_cons.2 ⟨fun _ _ h => absurd h hfree, htail⟩, ?_, fun id' type' hid' => ?_⟩
        · rw [if_neg (hsame.1 ▸ hfree), offsetOf_cons, if_pos hsame]
        · rw [offsetOf_cons, offsetOf_cons, offsetOf_cons, if_pos hsame]
          dsimp only
          by_cases heq : id' = reportID ∧ type' = type
          · rw [if_pos heq, if_pos ⟨hsame.1.trans heq.1.symm, hsame.2.trans heq.2.symm⟩]
          · rw [if_neg heq, if_neg fun h => heq ⟨h.1.symm.trans hsame.1, h.2.symm.trans hsame.2⟩]
            have hne : ¬(e.reportID = id' ∧ e.type = type') := fun h => heq ⟨h.1.symm.trans hsame.1, h.2.symm.trans hsame.2⟩
            rw [if_neg hne]

/-! ### The parser -/

/-- The report ID, the size and the count with which the parser meets a main item. -/
structure Meets (g : Globals) (p : HIDParser) : Prop where
  upage : p.upage = g.upage
  reportID : p.data.reportID = g.reportID % 256
  size : p.data.size = g.reportSize % 256
  count : p.reportCount = g.reportCount % 256

/-- One field of a main item. -/
structure FieldStep (p p' : HIDParser) (data : HIDData) (found : Nat) : Prop where
  pos : p'.pos = p.pos
  item : p'.item = p.item
  upage : p'.upage = p.upage
  reportCount : p'.reportCount = p.reportCount
  reportID : p'.data.reportID = p.data.reportID
  size : p'.data.size = p.data.size
  dataID : data.reportID = p.data.reportID
  dataType : data.type = p.item &&& itemMask
  dataSize : data.size = p.data.size
  dataOffset : data.offset =
    if p.data.reportID = 0 then 0 else offsetOf p.offsetTab p.data.reportID (p.item &&& itemMask)
  packed : Packed p'.offsetTab
  offset : ∀ reportID type, reportID ≠ 0 → offsetOf p'.offsetTab reportID type =
    if reportID = p.data.reportID ∧ type = p.item &&& itemMask then (offsetOf p.offsetTab reportID type + p.data.size) % 256
    else offsetOf p.offsetTab reportID type
  found : found = if p.usageTab.headD 0 ≠ 0 then 1 else 0
  count : p'.count = ((if p.count = 0 then p.reportCount else p.count) + 255) % 256
  usageTab : p'.usageTab = if p'.count = 0 then [] else p.usageTab.tail

theorem mainItem_spec {p p' : HIDParser} {r : Option (HIDData × Nat)} (hp : Packed p.offsetTab)
    (h : mainItem p = some (p', r)) : ∃ data found, r = some (data, found) ∧ FieldStep p p' data found := by
  unfold mainItem at h
  obtain ⟨path, -, h⟩ := Option.bind_eq_some_iff.1 h
  obtain ⟨usageTab, husage, h⟩ := Option.bind_eq_some_iff.1 h
  obtain ⟨⟨tab, offset⟩, htab, h⟩ := Option.bind_eq_some_iff.1 h
  obtain ⟨⟨tab', offset'⟩, htab', h⟩ := Option.bind_eq_some_iff.1 h
  obtain ⟨rfl, rfl⟩ := Prod.mk.inj (Option.some.inj h)
  obtain ⟨hp₁, hoffset, hsame⟩ := getReportOffset_spec hp htab
  obtain ⟨hp₂, -, hchanged⟩ := getReportOffset_spec hp₁ htab'
  have hread : ∀ reportID type, reportID ≠ 0 → offsetOf tab reportID type = offsetOf p.offsetTab reportID type := by
    intro reportID type hid
    rw [hsame reportID type hid]
    split_ifs with heq
    · rw [heq.1, heq.2]
      rfl
    · rfl
  have htail : usageTab = p.usageTab.tail := by
    unfold unstack at husage
    split_ifs at husage
    exact (Option.some.inj husage).symm
  refine ⟨_, _, rfl, rfl, rfl, rfl, rfl, rfl, rfl, rfl, rfl, rfl, hoffset, hp₂, fun reportID type hid => ?_, rfl, rfl, ?_⟩
  · rw [hchanged reportID type hid, hread reportID type hid]
    split_ifs with heq
    · rw [heq.1, heq.2, hread _ _ (heq.1 ▸ hid)]
    · rfl
  · rw [htail]

/-- The item of the parser is a global one, or one that it skips. -/
theorem meets_globalItem {g : Globals} {p : HIDParser} (h : Meets g p) :
    Meets (g.item (p.item &&& itemMask) p.value) (globalItem p) := by
  have hitem {tag : Nat} {a b : HIDParser} {a' b' : Globals} (ha : Meets a' a) (hb : Meets b' b) :
      Meets (if p.item &&& itemMask = tag then a' else b') (if p.item &&& itemMask = tag then a else b) := by
    split
    · exact ha
    · exact hb
  -- an item that the layout does not depend on
  have hother {tag : Nat} {a b : HIDParser} (ha : Meets g a) (hb : Meets g b) :
      Meets g (if p.item &&& itemMask = tag then a else b) := by
    split
    · exact ha
    · exact hb
  have hdata (data : HIDData) (hid : data.reportID = p.data.reportID) (hsize : data.size = p.data.size) :
      Meets g { p with data := data } := ⟨h.upage, hid.trans h.reportID, hsize.trans h.size, h.count⟩
  unfold globalItem Globals.item
  dsimp only
  refine hitem ⟨rfl, h.reportID, h.size, h.count⟩ ?_
  refine hitem ⟨h.upage, rfl, h.size, h.count⟩ ?_
  refine hitem ⟨h.upage, h.reportID, rfl, h.count⟩ ?_
  refine hitem ⟨h.upage, h.reportID, h.size, rfl⟩ ?_
  refine hother (hdata _ rfl rfl) ?_
  refine hother (hdata _ rfl rfl) ?_
  refine hother (hdata _ rfl rfl) ?_
  refine hother (hdata _ rfl rfl) ?_
  refine hother (hdata _ rfl rfl) ?_
  refine hother (hdata _ rfl rfl) ?_
  exact hother ⟨h.upage, h.reportID, h.size, h.count⟩ h

/-- What a field of the parser says about the field that the descriptor declares. -/
structure Matches (data : HIDData) (f : ReportField) : Prop where
  reportID : data.reportID = f.reportID
  type : data.type = f.type
  size : data.size = f.size
  offset : data.offset = if f.reportID = 0 then 0 else f.start % 256

/-- A main item has what is declared for it. -/
structure Declared (g : Globals) (item : Nat) (m : MainItem) : Prop where
  reportID : m.reportID = g.reportID
  type : m.type = item &&& itemMask
  size : m.size = g.reportSize
  count : m.count = g.reportCount

/-- The fields that the parser has still to find: it is between two items, or within a main item of which it has made `k`
fields, or at the end. -/
inductive Ahead (reportDesc : Nat → UInt8) (n : Nat) : HIDParser → List ReportField → Prop
  | between {p : HIDParser} {g : Globals} {before : List MainItem} (hcount : p.count = 0) (hg : Meets g p)
      (hsmall : ∀ m ∈ mainItems reportDesc n g p.usageTab p.pos, m.reportID < 256 ∧ m.size < 256 ∧ m.count < 256)
      (hp : Packed p.offsetTab)
      (htab : ∀ id type, id ≠ 0 → offsetOf p.offsetTab id type = bitsOf before id type % 256) :
      Ahead reportDesc n p (fieldsAfter before (mainItems reportDesc n g p.usageTab p.pos))
  | within {p : HIDParser} {g : Globals} {before : List MainItem} {m : MainItem} {k : Nat} (hpos : p.pos < n)
      (hitem : isMain p.item = true) (hg : Meets g p) (hp : Packed p.offsetTab)
      (hm : Declared g p.item m) (hlast : m.last = false)
      (hmsmall : m.reportID < 256 ∧ m.size < 256 ∧ m.count < 256) (hk : k < m.number) (hcount : p.count = m.number - k)
      (husage : p.usageTab = m.usages.drop k)
      (hsmall : ∀ m ∈ mainItems reportDesc n g [] p.pos, m.reportID < 256 ∧ m.size < 256 ∧ m.count < 256)
      (htab : ∀ id type, id ≠ 0 → offsetOf p.offsetTab id type =
        (bitsOf before id type + if id = m.reportID ∧ type = m.type then k * m.size else 0) % 256) :
      Ahead reportDesc n p ((List.range' k (m.number - k)).map (m.field (bitsOf before m.reportID m.type)) ++
        fieldsAfter (before ++ [m]) (mainItems reportDesc n g [] p.pos))
  | ended {p : HIDParser} (hpos : n ≤ p.pos) : Ahead reportDesc n p []

private theorem mainItems_end {reportDesc : Nat → UInt8} {n pos : Nat} (h : n ≤ pos) (g : Globals) (usages : List Nat) :
    mainItems reportDesc n g usages pos = [] := by
  rw [mainItems, dif_neg (by omega)]

private theorem headD_drop (l : List Nat) (k : Nat) : (l.drop k).headD 0 = l.getD k 0 := by
  rw [List.headD_eq_head?_getD, List.head?_drop, List.getD_eq_getElem?_getD]

private theorem bitsOf_append (before : List MainItem) (m : MainItem) (id type : Nat) :
    bitsOf (before ++ [m]) id type =
      bitsOf before id type + if id = m.reportID ∧ type = m.type then m.size * m.count else 0 := by
  unfold bitsOf
  rw [List.filter_append, List.map_append, List.sum_append, List.filter_singleton]
  by_cases h : m.reportID = id ∧ m.type = type
  · rw [decide_eq_true h, if_pos ⟨h.1.symm, h.2.symm⟩]
    simp
  · rw [decide_eq_false h, if_neg fun h' => h ⟨h'.1.symm, h'.2.symm⟩]
    simp

/-- The field `k` of a main item is found, and the parser goes on to the next. -/
private theorem field_ahead {reportDesc : Nat → UInt8} {n k : Nat} {p p' : HIDParser} {g : Globals} {before : List MainItem}
    {m : MainItem} {data : HIDData} {found : Nat} (hstep : FieldStep p p' data found) (hitem : isMain p.item = true)
    (hg : Meets g p) (hm : Declared g p.item m) (hlast : m.last = decide (n ≤ p.pos))
    (hmsmall : m.reportID < 256 ∧ m.size < 256 ∧ m.count < 256) (hk : k < m.number)
    (hleft : p'.count = (if m.count = 0 then 256 else m.count) - k - 1) (husage : p.usageTab = m.usages.drop k)
    (hsmall : ∀ m ∈ mainItems reportDesc n g [] p.pos, m.reportID < 256 ∧ m.size < 256 ∧ m.count < 256)
    (htab : ∀ id type, id ≠ 0 → offsetOf p.offsetTab id type =
      (bitsOf before id type + if id = m.reportID ∧ type = m.type then k * m.size else 0) % 256) :
    ∃ f rest, (List.range' k (m.number - k)).map (m.field (bitsOf before m.reportID m.type)) ++
        fieldsAfter (before ++ [m]) (mainItems reportDesc n g [] p.pos) = f :: rest ∧
      Matches data f ∧ (found = if f.usage ≠ 0 then 1 else 0) ∧ Ahead reportDesc n p' rest := by
  have hid : m.reportID = p.data.reportID := by
    rw [hg.reportID, ← hm.reportID]
    exact (Nat.mod_eq_of_lt hmsmall.1).symm
  have htype : m.type = p.item &&& itemMask := hm.type
  have hsize : m.size = p.data.size := by
    rw [hg.size, ← hm.size]
    exact (Nat.mod_eq_of_lt hmsmall.2.1).symm
  have hg' : Meets g p' := by
    refine ⟨hstep.upage.trans hg.upage, hstep.reportID.trans hg.reportID, hstep.size.trans hg.size, ?_⟩
    exact hstep.reportCount.trans hg.count
  -- the bits of the report are counted
  have htab' : ∀ id type, id ≠ 0 → offsetOf p'.offsetTab id type =
      (bitsOf before id type + if id = m.reportID ∧ type = m.type then (k + 1) * m.size else 0) % 256 := by
    intro id type hne
    rw [hstep.offset id type hne, htab id type hne, ← hid, ← htype, ← hsize]
    split_ifs
    · rw [Nat.add_one_mul]
      omega
    · rfl
  refine ⟨m.field (bitsOf before m.reportID m.type) k, (List.range' (k + 1) (m.number - (k + 1))).map
    (m.field (bitsOf before m.reportID m.type)) ++ fieldsAfter (before ++ [m]) (mainItems reportDesc n g [] p.pos), ?_, ?_, ?_, ?_⟩
  · have hnumber : m.number - k = m.number - (k + 1) + 1 := by omega
    rw [hnumber, List.range'_succ]
    rfl
  · refine ⟨hstep.dataID.trans hid.symm, hstep.dataType.trans htype.symm, hstep.dataSize.trans hsize.symm, ?_⟩
    rw [hstep.dataOffset, ← hid, ← htype]
    unfold MainItem.field
    dsimp only
    by_cases hzero : m.reportID = 0
    · rw [if_pos hzero, if_pos hzero]
    · rw [if_neg hzero, if_neg hzero, htab _ _ hzero]
      simp
  · rw [hstep.found, husage, headD_drop]
    rfl
  · by_cases hend : n ≤ p.pos
    · have hnumber : m.number = 1 := by rw [MainItem.number, hlast, decide_eq_true hend, if_pos rfl]
      have hnone : m.number - (k + 1) = 0 := by omega
      rw [hnone, mainItems_end hend]
      exact .ended (hstep.pos ▸ hend)
    · have hmore : m.last = false := hlast.trans (decide_eq_false hend)
      have hnumber : m.number = if m.count = 0 then 256 else m.count := by
        rw [MainItem.number, hmore]
        simp
      rw [← hnumber] at hleft
      by_cases hdone : m.number = k + 1
      · -- the main item is done
        have hcount : p'.count = 0 := by omega
        have htail : p'.usageTab = [] := by rw [hstep.usageTab, if_pos hcount]
        have hnone : m.number - (k + 1) = 0 := by omega
        rw [hnone, ← hstep.pos, ← htail]
        rw [← hstep.pos, ← htail] at hsmall
        refine .between hcount hg' hsmall hstep.packed fun id type hne => ?_
        rw [htab' id type hne, bitsOf_append, ← hdone, hnumber, Nat.mul_comm]
        split_ifs with hsame hzero
        · rw [hzero]
          omega
        · rfl
        · rfl
      · have hcount : p'.count ≠ 0 := by omega
        have htail : p'.usageTab = m.usages.drop (k + 1) := by
          rw [hstep.usageTab, if_neg hcount, husage, List.tail_drop]
        rw [← hstep.pos]
        rw [← hstep.pos] at hsmall
        rw [← hstep.item] at hm hitem
        refine .within ?_ hitem hg' hstep.packed hm hmore hmsmall (by omega) (by omega) htail hsmall htab'
        rw [hstep.pos]
        omega

/-- An item that is no main item makes no field. -/
private theorem other_ahead {reportDesc : Nat → UInt8} {n : Nat} {p q q' : HIDParser} {g : Globals} {before ms : List MainItem}
    {r : Option (HIDData × Nat)} (hn : n ≤ reportDscSize) (hpos : p.pos < n) (hq : q = nextItem reportDesc p)
    (hmain : isMain q.item = false) (hcount : p.count = 0) (hg : Meets g p)
    (hms : mainItems reportDesc n g p.usageTab p.pos = ms)
    (hsmall : ∀ m ∈ ms, m.reportID < 256 ∧ m.size < 256 ∧ m.count < 256) (hp : Packed p.offsetTab)
    (htab : ∀ id type, id ≠ 0 → offsetOf p.offsetTab id type = bitsOf before id type % 256)
    (h : hidItem q = some (q', r)) : r = none ∧ Ahead reportDesc n q' (fieldsAfter before ms) := by
  have hle := itemSize_le (reportDesc p.pos).toNat
  have hitem : q.item = (reportDesc p.pos).toNat := by rw [hq]; rfl
  rw [reportDscSize] at hn
  have hvalue : q.value = littleEndian reportDesc (p.pos + 1) (itemSize q.item) := by
    have hstart : (p.pos + 1) % 2 ^ 16 = p.pos + 1 := Nat.mod_eq_of_lt (by omega)
    rw [hq, ← hstart]
    rfl
  have hnext : q.pos = p.pos + 1 + itemSize q.item := by
    rw [hitem, hq, nextItem_pos]
    exact Nat.mod_eq_of_lt (by omega)
  rw [← hitem] at hle
  have hsame : q.count = p.count ∧ q.offsetTab = p.offsetTab ∧ q.usageTab = p.usageTab := by
    rw [hq]
    exact ⟨rfl, rfl, rfl⟩
  have hgq : Meets g q := by
    rw [hq]
    exact ⟨hg.upage, hg.reportID, hg.size, hg.count⟩
  -- where the parser goes on
  have hgo {g' : Globals} (hrest : ms = mainItems reportDesc n g' q'.usageTab q'.pos) (hg' : Meets g' q')
      (hcount' : q'.count = q.count) (htab' : q'.offsetTab = q.offsetTab) :
      Ahead reportDesc n q' (fieldsAfter before ms) := by
    rw [hrest] at hsmall ⊢
    refine .between (hcount'.trans (hsame.1.trans hcount)) hg' hsmall ?_ ?_
    · rw [htab', hsame.2.1]
      exact hp
    · rw [htab', hsame.2.1]
      exact htab
  have hno : ¬isMain q.item = true := by
    rw [hmain]
    decide
  rw [mainItems, dif_pos hpos] at hms
  dsimp only at hms
  rw [← hitem, ← hvalue, ← hnext, if_neg hno] at hms
  unfold hidItem at h
  rw [if_neg hno] at h
  by_cases husage : q.item &&& itemMask = itemUsage
  · rw [if_pos husage] at h hms
    obtain ⟨q₁, hq₁, hres⟩ := Option.map_eq_some_iff.1 h
    obtain ⟨rfl, rfl⟩ := Prod.mk.inj hres
    unfold usageItem at hq₁
    split_ifs at hq₁
    obtain rfl := Option.some.inj hq₁
    refine ⟨rfl, hgo ?_ ⟨hgq.upage, hgq.reportID, hgq.size, hgq.count⟩ rfl rfl⟩
    rw [← hms, ← hsame.2.2, ← hgq.upage]
  rw [if_neg husage] at h hms
  by_cases hopen : q.item &&& itemMask = itemCollection
  · rw [if_pos hopen] at h
    rw [if_pos (.inl hopen)] at hms
    obtain ⟨q₁, hq₁, hres⟩ := Option.map_eq_some_iff.1 h
    obtain ⟨rfl, rfl⟩ := Prod.mk.inj hres
    unfold collectionItem at hq₁
    obtain ⟨path, -, hq₁⟩ := Option.bind_eq_some_iff.1 hq₁
    obtain ⟨-, -, hq₁⟩ := Option.bind_eq_some_iff.1 hq₁
    obtain ⟨path', -, hq₁⟩ := Option.bind_eq_some_iff.1 hq₁
    obtain rfl := Option.some.inj hq₁
    exact ⟨rfl, hgo hms.symm ⟨hgq.upage, hgq.reportID, hgq.size, hgq.count⟩ rfl rfl⟩
  rw [if_neg hopen] at h
  by_cases hclose : q.item &&& itemMask = itemEndCollection
  · rw [if_pos hclose] at h
    rw [if_pos (.inr hclose)] at hms
    obtain ⟨q₁, hq₁, hres⟩ := Option.map_eq_some_iff.1 h
    obtain ⟨rfl, rfl⟩ := Prod.mk.inj hres
    unfold endCollectionItem at hq₁
    obtain ⟨node, -, rfl⟩ := Option.map_eq_some_iff.1 hq₁
    exact ⟨rfl, hgo hms.symm ⟨hgq.upage, hgq.reportID, hgq.size, hgq.count⟩ rfl rfl⟩
  rw [if_neg hclose] at h
  rw [if_neg fun hc => hc.elim hopen hclose] at hms
  obtain ⟨rfl, rfl⟩ := Prod.mk.inj (Option.some.inj h)
  have hglobal := globalItem_spec q
  refine ⟨rfl, ?_⟩
  by_cases hlong : q.item &&& itemMask = itemLong
  · rw [if_pos hlong] at hms
    have hstays : g.item (q.item &&& itemMask) q.value = g := by
      rw [hlong]
      rfl
    have hwrap : (q.pos + q.value % 256) % 2 ^ 16 = q.pos + q.value % 256 := Nat.mod_eq_of_lt (by omega)
    refine hgo ?_ (hstays ▸ meets_globalItem hgq) hglobal.count hglobal.offsetTab
    rw [← hms, hglobal.usageTab, hsame.2.2, hglobal.pos, if_pos hlong, hwrap]
  · rw [if_neg hlong] at hms
    refine hgo ?_ (meets_globalItem hgq) hglobal.count hglobal.offsetTab
    rw [← hms, hglobal.usageTab, hsame.2.2, hglobal.pos, if_neg hlong]

/-- What a call of the parser finds is the next field. -/
private theorem hidParse_ahead {reportDesc : Nat → UInt8} {n : Nat} (hn : n ≤ reportDscSize) (fuel : Nat) {p p' : HIDParser}
    {rest : List ReportField} {r : Option (HIDData × Nat)} (ha : Ahead reportDesc n p rest)
    (h : hidParse reportDesc n fuel p = some (p', r)) : (r = none → rest = []) ∧ ∀ data found, r = some (data, found) →
      ∃ f rest', rest = f :: rest' ∧ Matches data f ∧ (found = if f.usage ≠ 0 then 1 else 0) ∧ Ahead reportDesc n p' rest' := by
  have hmainItem {q q' : HIDParser} {r : Option (HIDData × Nat)} (hitem : isMain q.item = true)
      (h : hidItem q = some (q', r)) : mainItem q = some (q', r) := by
    rw [hidItem, if_pos hitem] at h
    exact h
  induction fuel generalizing p rest with
  | zero => simp [hidParse] at h
  | succ fuel ih =>
    rw [hidParse] at h
    cases ha with
    | ended hpos =>
      rw [if_neg (by omega)] at h
      obtain ⟨rfl, rfl⟩ := Prod.mk.inj (Option.some.inj h)
      simp
    | @within g before m k hpos hitem hg hp hm hlast hmsmall hk hcount husage hsmall htab =>
      have hbusy : p.count ≠ 0 := by omega
      have hnumber : m.number = if m.count = 0 then 256 else m.count := by
        rw [MainItem.number, hlast]
        simp
      rw [if_pos hpos, if_neg hbusy] at h
      cases hq : hidItem p with
      | none => simp [hq] at h
      | some res =>
        obtain ⟨q, r'⟩ := res
        obtain ⟨data, found, rfl, hstep⟩ := mainItem_spec hp (hmainItem hitem hq)
        simp only [hq, Option.some.injEq, Prod.mk.injEq] at h
        obtain ⟨rfl, rfl⟩ := h
        refine ⟨by simp, fun data' found' hr => ?_⟩
        obtain ⟨rfl, rfl⟩ := Prod.mk.inj (Option.some.inj hr)
        refine field_ahead hstep hitem hg hm (hlast.trans (decide_eq_false (by omega)).symm) hmsmall hk ?_ husage hsmall htab
        rw [hstep.count, if_neg hbusy, hcount, ← hnumber]
        have hle : m.number ≤ 256 := by
          rw [hnumber]
          split_ifs <;> omega
        omega
    | @between g before hcount hg hsmall hp htab =>
      by_cases hpos : p.pos < n
      · rw [if_pos hpos, if_pos hcount] at h
        have hgq : Meets g (nextItem reportDesc p) := ⟨hg.upage, hg.reportID, hg.size, hg.count⟩
        cases hq : hidItem (nextItem reportDesc p) with
        | none => simp [hq] at h
        | some res =>
          obtain ⟨q, r'⟩ := res
          cases hmain : isMain (nextItem reportDesc p).item with
          | false =>
            obtain ⟨rfl, ha'⟩ := other_ahead hn hpos rfl hmain hcount hg rfl hsmall hp htab hq
            simp only [hq] at h
            exact ih ha' h
          | true =>
            obtain ⟨data, found, rfl, hstep⟩ := mainItem_spec (p := nextItem reportDesc p) hp (hmainItem hmain hq)
            simp only [hq, Option.some.injEq, Prod.mk.injEq] at h
            obtain ⟨rfl, rfl⟩ := h
            refine ⟨by simp, fun data' found' hr => ?_⟩
            obtain ⟨rfl, rfl⟩ := Prod.mk.inj (Option.some.inj hr)
            -- the first field of the main item
            have hnext : (nextItem reportDesc p).pos = p.pos + 1 + itemSize (reportDesc p.pos).toNat := by
              have hle := itemSize_le (reportDesc p.pos).toNat
              rw [reportDscSize] at hn
              exact (nextItem_pos reportDesc p).trans (Nat.mod_eq_of_lt (by omega))
            rw [mainItems, dif_pos hpos] at hsmall ⊢
            dsimp only at hsmall ⊢
            rw [if_pos (show isMain (reportDesc p.pos).toNat = true from hmain), ← hnext] at hsmall ⊢
            have hmsmall := hsmall _ (List.mem_cons_self ..)
            refine field_ahead (k := 0) hstep hmain hgq ⟨rfl, rfl, rfl, rfl⟩ rfl hmsmall ?_ ?_ rfl
              (fun m hm => hsmall m (List.mem_cons_of_mem _ hm)) fun id type hne => ?_
            · unfold MainItem.number
              dsimp only
              split_ifs <;> omega
            · have hsame : (nextItem reportDesc p).count = 0 := hcount
              rw [hstep.count, if_pos hsame, hgq.count, Nat.mod_eq_of_lt hmsmall.2.2]
              have hlt := hmsmall.2.2
              dsimp only at hlt ⊢
              split_ifs <;> omega
            · rw [Nat.zero_mul, ite_self, Nat.add_zero]
              exact htab id type hne
      · rw [if_neg hpos] at h
        obtain ⟨rfl, rfl⟩ := Prod.mk.inj (Option.some.inj h)
        rw [mainItems_end (by omega)]
        simp [fieldsAfter]

private theorem parseLoop_fields {reportDesc : Nat → UInt8} {n : Nat} (hn : n ≤ reportDscSize) (fuel : Nat) {p : HIDParser}
    {d d' : HIDDesc} {rest : List ReportField} (ha : Ahead reportDesc n p rest)
    (h : parseLoop reportDesc n fuel p d = some d') : ∃ items, d'.item = d.item ++ items ∧
      List.Forall₂ Matches items ((rest.filter fun f => f.usage ≠ 0).take (maxReport - d.item.length)) := by
  induction fuel generalizing p d rest with
  | zero => simp [parseLoop] at h
  | succ fuel ih =>
    rw [parseLoop] at h
    by_cases hfull : d.item.length < maxReport
    · rw [if_pos hfull] at h
      cases hcall : hidParse reportDesc n (n + 1) p with
      | none => simp [hcall] at h
      | some res =>
        obtain ⟨p', r⟩ := res
        obtain ⟨hnone, hsome⟩ := hidParse_ahead hn (n + 1) ha hcall
        cases r with
        | none =>
          simp only [hcall, Option.some.injEq] at h
          subst h
          rw [hnone rfl]
          exact ⟨[], by simp, by simp⟩
        | some df =>
          obtain ⟨data, found⟩ := df
          obtain ⟨f, rest', rfl, hmatch, hfound, ha'⟩ := hsome data found rfl
          simp only [hcall] at h
          obtain ⟨items, hitems, hall⟩ := ih ha' h
          by_cases husage : f.usage = 0
          · -- padding, or more of the object before
            rw [if_pos (by rw [hfound, if_neg (by simpa using husage)])] at hitems hall
            exact ⟨items, hitems, by simpa [husage] using hall⟩
          · rw [if_neg (by rw [hfound, if_pos husage]; decide)] at hitems hall
            refine ⟨data :: items, by rw [hitems, List.append_assoc, List.singleton_append], ?_⟩
            have hroom : maxReport - d.item.length = maxReport - (d.item ++ [data]).length + 1 := by
              rw [List.length_append, List.length_singleton]
              omega
            rw [List.filter_cons_of_pos (by simpa using husage), hroom, List.take_succ_cons]
            exact .cons hmatch hall
    · rw [if_neg hfull] at h
      obtain rfl := Option.some.inj h
      have hroom : maxReport - d.item.length = 0 := by omega
      rw [hroom]
      exact ⟨[], by simp, by simp⟩

/-- The parser finds the fields that the descriptor declares, and has their offsets up to a multiple of 256, or 0 where there
is no report ID. -/
theorem items_match {reportDesc : Nat → UInt8} {n : Nat} {d : HIDDesc} (hdoc : Documented reportDesc n)
    (h : parseReportDesc reportDesc n = some d) : List.Forall₂ Matches d.item (produced reportDesc n) := by
  unfold parseReportDesc at h
  cases hloop : parseLoop reportDesc n (256 * (n + 1)) .init ⟨[], fun _ => 0⟩ with
  | none => simp [hloop] at h
  | some d' =>
    simp only [hloop] at h
    split_ifs at h
    obtain rfl := Option.some.inj h
    have hfree : ∀ e ∈ HIDParser.init.offsetTab, e.reportID = 0 := by
      intro e he
      rw [List.eq_of_mem_replicate he]
    have hstart : Ahead reportDesc n .init (fieldsAfter [] (descItems reportDesc n)) := by
      refine .between rfl ⟨rfl, rfl, rfl, rfl⟩ hdoc.items ?_ fun id type hne => ?_
      · exact List.pairwise_of_forall_mem_list fun _ _ e he _ => hfree e he
      · exact offsetOf_of_free hne hfree type
    obtain ⟨items, hitems, hall⟩ := parseLoop_fields hdoc.length _ hstart hloop
    rw [hitems]
    exact hall

/-! ### The layout -/

/-- A later field of the same report starts where the first ends, or after that. -/
def ReportField.Before (f f' : ReportField) : Prop :=
  f.reportID = f'.reportID ∧ f.type = f'.type → f.count ≠ 0 → f.start + f.size ≤ f'.start

private theorem bitsOf_le_start {before ms : List MainItem} {f : ReportField} (h : f ∈ fieldsAfter before ms) :
    bitsOf before f.reportID f.type ≤ f.start := by
  induction ms generalizing before with
  | nil => simp [fieldsAfter] at h
  | cons m ms ih =>
    rw [fieldsAfter] at h
    rcases List.mem_append.1 h with h | h
    · obtain ⟨k, -, rfl⟩ := List.mem_map.1 h
      exact Nat.le_add_right _ _
    · have hle := ih h
      rw [bitsOf_append] at hle
      omega

private theorem before_fieldsAfter (before ms : List MainItem) :
    (fieldsAfter before ms).Pairwise ReportField.Before := by
  induction ms generalizing before with
  | nil => exact .nil
  | cons m ms ih =>
    rw [fieldsAfter, List.pairwise_append]
    refine ⟨?_, ih _, fun f hf f' hf' hsame hcount => ?_⟩
    · rw [List.pairwise_map]
      refine List.Pairwise.imp (fun {k k'} (hlt : k < k') _ _ => ?_) List.pairwise_lt_range'
      have hmul : (k + 1) * m.size ≤ k' * m.size := Nat.mul_le_mul_right _ hlt
      rw [Nat.add_one_mul] at hmul
      unfold MainItem.field
      dsimp only
      omega
    · -- the main item ends where the later ones begin
      obtain ⟨k, hk, rfl⟩ := List.mem_map.1 hf
      have hcount : m.count ≠ 0 := hcount
      have hlast : k < m.count := by
        have hlt := (List.mem_range'_1.1 hk).2
        unfold MainItem.number at hlt
        split_ifs at hlt <;> omega
      have hle := bitsOf_le_start hf'
      have hmul : (k + 1) * m.size ≤ m.count * m.size := Nat.mul_le_mul_right _ hlast
      rw [Nat.add_one_mul, Nat.mul_comm m.count] at hmul
      rw [bitsOf_append, if_pos ⟨hsame.1.symm, hsame.2.symm⟩, ← hsame.1, ← hsame.2] at hle
      unfold MainItem.field at hle ⊢
      dsimp only at hle ⊢
      omega

private theorem disjoint_of_before {f f' : ReportField} (h : f.start + f.size ≤ f'.start) : f.bits.Disjoint f'.bits := by
  intro b hb hb'
  have h1 := (List.mem_range'_1.1 hb).2
  have h2 := (List.mem_range'_1.1 hb').1
  omega

/-- The fields of one report, with what the parser says about them. -/
private theorem laidOut_report {items : List HIDData} {fields : List ReportField} {reportID type : Nat}
    (hmatch : List.Forall₂ Matches items fields) (hbefore : fields.Pairwise ReportField.Before)
    (hof : ∀ f ∈ fields, f.reportID = reportID ∧ f.type = type) :
    (List.Forall₂ (fun data f => data.offset = f.start ∧ data.size = f.size) items fields ∧
        items.Pairwise fun d d' => d.bits.Disjoint d'.bits) ↔
      (∀ f ∈ fields, f.start < if reportID = 0 then 1 else 256) ∧
        fields.Pairwise fun f f' => f.count = 0 → f.bits.Disjoint f'.bits := by
  have hoffset : List.Forall₂ (fun data f => data.offset = f.start ∧ data.size = f.size) items fields ↔
      ∀ f ∈ fields, f.start < if reportID = 0 then 1 else 256 := by
    have hone {data : HIDData} {f : ReportField} (hm : Matches data f) (hid : f.reportID = reportID) :
        (data.offset = f.start ∧ data.size = f.size) ↔ f.start < if reportID = 0 then 1 else 256 := by
      rw [hm.offset, hid]
      constructor
      · rintro ⟨hstart, -⟩
        split_ifs at hstart ⊢ <;> omega
      · intro hlt
        refine ⟨?_, hm.size⟩
        split_ifs at hlt ⊢ <;> omega
    clear hbefore
    induction hmatch with
    | nil => simp
    | @cons data f items fields hm hall ih =>
      have hrest := ih fun f' hf' => hof f' (List.mem_cons_of_mem _ hf')
      rw [List.forall₂_cons, List.forall_mem_cons]
      exact and_congr (hone hm (hof f (List.mem_cons_self ..)).1) hrest
  rw [hoffset]
  refine and_congr_right fun hstart => ?_
  -- the bits are those that the descriptor declares
  have hbits : items.map HIDData.bits = fields.map ReportField.bits := by
    have hall := hoffset.2 hstart
    clear hmatch hbefore hof hoffset hstart
    induction hall with
    | nil => rfl
    | cons hm _ ih =>
      rw [List.map_cons, List.map_cons, ih, HIDData.bits, ReportField.bits, hm.1, hm.2]
  rw [← List.pairwise_map (f := HIDData.bits) (R := List.Disjoint), hbits, List.pairwise_map]
  constructor
  · intro hdisjoint
    refine hdisjoint.imp ?_
    intro f f' hd _
    exact hd
  · intro hzero
    refine (hzero.and hbefore).imp_of_mem fun {f f'} hf hf' hboth => ?_
    by_cases hcount : f.count = 0
    · exact hboth.1 hcount
    · have hsame : f.reportID = f'.reportID ∧ f.type = f'.type :=
        ⟨(hof f hf).1.trans (hof f' hf').1.symm, (hof f hf).2.trans (hof f' hf').2.symm⟩
      exact disjoint_of_before (hboth.2 hsame hcount)

/-- For every descriptor, the fields of a report are laid out as it says if and only if they start in the first 256 bits of
the report, or all at 0 without a report ID, and no field of a main item with the count 0 meets a later one. -/
theorem layout_iff {reportDesc : Nat → UInt8} {n : Nat} {d : HIDDesc} (hdoc : Documented reportDesc n)
    (h : parseReportDesc reportDesc n = some d) (reportID type : Nat) :
    LaidOut d.item (produced reportDesc n) reportID type ↔ Fits (produced reportDesc n) reportID type := by
  have hmatch : List.Forall₂ Matches (d.item.filter (HIDData.isOf reportID type))
      ((produced reportDesc n).filter (ReportField.isOf reportID type)) := by
    refine List.rel_filter (fun {data f} hm => ?_) (items_match hdoc h)
    have hsame : HIDData.isOf reportID type data = ReportField.isOf reportID type f := by
      rw [HIDData.isOf, ReportField.isOf, hm.reportID, hm.type]
    exact Bool.eq_iff_iff.1 hsame
  have hbefore : ((produced reportDesc n).filter (ReportField.isOf reportID type)).Pairwise ReportField.Before := by
    refine List.Pairwise.sublist List.filter_sublist (List.Pairwise.sublist (List.take_sublist _ _) ?_)
    exact List.Pairwise.sublist List.filter_sublist (before_fieldsAfter [] (descItems reportDesc n))
  have hof : ∀ f ∈ (produced reportDesc n).filter (ReportField.isOf reportID type), f.reportID = reportID ∧ f.type = type := by
    intro f hf
    simpa [ReportField.isOf] using (List.mem_filter.1 hf).2
  have hboth := laidOut_report hmatch hbefore hof
  constructor
  · rintro ⟨hoffset, hdisjoint⟩
    obtain ⟨hstart, hcount⟩ := hboth.1 ⟨hoffset, hdisjoint⟩
    exact ⟨hstart, hcount⟩
  · rintro ⟨hstart, hcount⟩
    obtain ⟨hoffset, hdisjoint⟩ := hboth.2 ⟨hstart, hcount⟩
    exact ⟨hoffset, hdisjoint⟩

/-- Two features of 8 bits, after a report ID. -/
private def withID : List UInt8 :=
  [0x05, 0x84, 0x09, 0x04, 0xA1, 0x01, 0x85, 0x01, 0x75, 0x08, 0x95, 0x01, 0x09, 0x24, 0xB1, 0x02, 0x09, 0x25, 0xB1, 0x02,
    0xC0]

/-- The same without a report ID. -/
private def withoutID : List UInt8 :=
  [0x05, 0x84, 0x09, 0x04, 0xA1, 0x01, 0x75, 0x08, 0x95, 0x01, 0x09, 0x24, 0xB1, 0x02, 0x09, 0x25, 0xB1, 0x02, 0xC0]

/-- With a report ID the second feature follows the first. -/
theorem layout_with_id : ∃ d, parseReportDesc (memory withID) 21 = some d ∧
    LaidOut d.item (produced (memory withID) 21) 1 itemFeature := by
  have hsome : (parseReportDesc (memory withID) 21).isSome = true := by decide +kernel
  obtain ⟨d, hd⟩ := Option.isSome_iff_exists.1 hsome
  have hcount : ∀ f ∈ (produced (memory withID) 21).filter (ReportField.isOf 1 itemFeature), f.count ≠ 0 := by decide +kernel
  refine ⟨d, hd, (layout_iff ⟨by decide, by decide +kernel⟩ hd 1 itemFeature).2 ⟨by decide +kernel, ?_⟩⟩
  exact List.pairwise_of_forall_mem_list fun f hf _ _ hzero => absurd hzero (hcount f hf)

/-- Without one both features are at 0. -/
theorem layout_without_id : ¬∀ reportDesc n d, Documented reportDesc n → parseReportDesc reportDesc n = some d →
    ∀ reportID type, LaidOut d.item (produced reportDesc n) reportID type := by
  intro h
  have hbits : (parseReportDesc (memory withoutID) 19).map (fun d =>
      (d.item.filter (HIDData.isOf 0 itemFeature)).map HIDData.bits) = some [List.range' 0 8, List.range' 0 8] := by
    decide +kernel
  obtain ⟨d, hd, hboth⟩ := Option.map_eq_some_iff.1 hbits
  have hdisjoint := (h _ _ d ⟨by decide, by decide +kernel⟩ hd 0 itemFeature).disjoint
  rw [← List.pairwise_map (f := HIDData.bits) (R := List.Disjoint), hboth, List.pairwise_pair] at hdisjoint
  exact hdisjoint (a := 0) (by decide) (by decide)

end Hid

end Nut
