import Nut.Drivers.Hidparser

/-!
# The outline of a descriptor

What the parser of `hidparser.c` touches depends on the items before: on the collections that are open, the usages since the
last main item and the reports that have a field.  The outline of a descriptor (`outline`) follows these item by item, with
lists that have no bound.  As long as every item fits into the tables, the parser agrees with it (`Standing`).
-/

namespace Nut

namespace Hid

/-! ### What the parser touches -/

/-- Something that `Parse_ReportDesc` touches: a byte of the descriptor, a node of the path, the size of the path that it
lowers, a usage on the stack, the result of `GetReportOffset`, an item of the result or the length of a report. -/
inductive Touch
  | byte (pos : Nat)
  | node (i : Nat)
  | shrink (size : Nat)
  | usage (i : Nat)
  | offset (found : Bool)
  | item (i : Nat)
  | replen (reportID : Nat)
  deriving DecidableEq

def Touch.InRange (n : Nat) : Touch → Prop
  | .byte pos => pos < n
  | .node i => i < pathSize
  | .shrink size => 0 < size
  | .usage i => i < usageTabSize
  | .offset found => found = true
  | .item i => i < maxReport
  | .replen reportID => reportID < 256

/-- The parser with the item that it handles. -/
def fetch (reportDesc : Nat → UInt8) (p : HIDParser) : HIDParser := if p.count = 0 then nextItem reportDesc p else p

def fetchAccesses (reportDesc : Nat → UInt8) (p : HIDParser) : List Touch :=
  if p.count = 0 then
    .byte p.pos :: (List.range (itemSize (reportDesc p.pos).toNat)).map fun i => .byte ((p.pos + 1) % 2 ^ 16 + i)
  else []

/-- The usages are moved down by one. -/
def unstackAccesses (usageTab : List Nat) : List Touch :=
  (List.range usageTab.length).flatMap fun i => [.usage i, .usage (i + 1)]

/-- The offset of the report is read and then changed. -/
def mainAccesses (p : HIDParser) : List Touch :=
  let size := p.data.path.size
  let entry := getReportOffset p.data.reportID (p.item &&& itemMask) id p.offsetTab
  let entry' := entry.bind fun r => getReportOffset p.data.reportID (p.item &&& itemMask) id r.1
  [.usage 0, .node size] ++ unstackAccesses p.usageTab ++
    [.offset entry.isSome, .offset entry'.isSome, .shrink ((size + 1) % 256)]

def collectionAccesses (p : HIDParser) : List Touch :=
  let size := p.data.path.size
  [.usage 0, .node size] ++ unstackAccesses p.usageTab ++ if 0x80 ≤ p.value then [.node ((size + 1) % 256)] else []

/-- A node that is the index of a collection. -/
def isIndex (node : Nat) : Bool := node &&& 0xffff0000 = 0x00ff0000

def endCollectionAccesses (p : HIDParser) : List Touch :=
  let size := (p.data.path.size + 255) % 256
  [.shrink p.data.path.size, .node size] ++ if isIndex (p.data.path.node.getD size 0) then [.shrink size] else []

def itemAccesses (p : HIDParser) : List Touch :=
  if isMain p.item then mainAccesses p
  else if p.item &&& itemMask = itemUsage then [.usage p.usageTab.length]
  else if p.item &&& itemMask = itemCollection then collectionAccesses p
  else if p.item &&& itemMask = itemEndCollection then endCollectionAccesses p
  else []

/-- What one round of the loop of `HIDParse` touches. -/
def accesses (reportDesc : Nat → UInt8) (p : HIDParser) : List Touch :=
  fetchAccesses reportDesc p ++ itemAccesses (fetch reportDesc p)

/-- A round of the loop of `HIDParse` that touches nothing out of range. -/
structure Iteration (reportDesc : Nat → UInt8) (n : Nat) (p p' : HIDParser) (r : Option (HIDData × Nat)) : Prop where
  more : p.pos < n
  bounds : ∀ a ∈ accesses reportDesc p, a.InRange n
  result : hidItem (fetch reportDesc p) = some (p', r)

/-- By how much a result of `HIDParse` raises the number of items. -/
def foundOf (r : Option (HIDData × Nat)) : Nat := r.elim 0 Prod.snd

/-- The parser gets there, from one call of `HIDParse` to the next as long as there is room for more items: it is done with
`k` items of the descriptor, and there are `nitems` in the result. -/
inductive Reached (reportDesc : Nat → UInt8) (n : Nat) (room : Nat → Prop) : Nat → HIDParser → Nat → Prop
  | start : Reached reportDesc n room 0 .init 0
  | step {k nitems : Nat} {p p' : HIDParser} {r : Option (HIDData × Nat)} (hp : Reached reportDesc n room k p nitems)
      (hroom : room nitems) (h : Iteration reportDesc n p p' r) :
      Reached reportDesc n room (if p'.count = 0 then k + 1 else k) p' (nitems + foundOf r)

/-! ### The outline -/

/-- The items of a descriptor up to one of them: the nodes of the collections that are open, from the inside out, the
usages for the next main item, and the reports with an ID that have a field; `found` counts the fields with a usage. -/
structure Outline where
  pos : Nat
  nodes : List Nat
  usages : List Nat
  upage : Nat
  reportID : Nat
  reportCount : Nat
  reports : List (Nat × Nat)
  found : Nat
  deriving DecidableEq

def Outline.start : Outline := ⟨0, [], [], 0, 0, 0, [], 0⟩

/-- The fields with a usage. -/
def objects (usages : List Nat) : Nat := (usages.filter fun usage => usage ≠ 0).length

/-- The reports with one more, which is in no list without an ID. -/
def addReport (reportID type : Nat) (reports : List (Nat × Nat)) : List (Nat × Nat) :=
  if reportID = 0 ∨ (reportID, type) ∈ reports then reports else reports ++ [(reportID, type)]

/-- The nodes of a collection: its usage, below its index. -/
def opened (usages : List Nat) (value : Nat) : List Nat :=
  if 0x80 ≤ value then [0x00ff0000 ||| (value &&& 0x7F), usages.headD 0] else [usages.headD 0]

/-- How many nodes the innermost collection has. -/
def closing (nodes : List Nat) : Nat := if isIndex (nodes.headD 0) then 2 else 1

namespace Outline

/-- The fields that are made of a main item. -/
def number (o : Outline) : Nat := if o.reportCount = 0 then 256 else o.reportCount

def mainItem (o : Outline) (type : Nat) : Outline :=
  { o with
    usages := []
    reports := addReport o.reportID type o.reports
    found := o.found + objects (o.usages.take o.number) }

def globalItem (o : Outline) (tag value : Nat) : Outline :=
  if tag = itemUpage then { o with upage := value % 2 ^ 16 }
  else if tag = itemRepId then { o with reportID := value % 256 }
  else if tag = itemRepCount then { o with reportCount := value % 256 }
  else if tag = itemLong then { o with pos := (o.pos + value % 256) % 2 ^ 16 }
  else o

variable (reportDesc : Nat → UInt8) (n : Nat)

def item (o : Outline) : Nat := (reportDesc o.pos).toNat

def tag (o : Outline) : Nat := o.item reportDesc &&& itemMask

def value (o : Outline) : Nat := littleEndian reportDesc ((o.pos + 1) % 2 ^ 16) (itemSize (o.item reportDesc))

/-- The position after the item. -/
def after (o : Outline) : Nat := ((o.pos + 1) % 2 ^ 16 + itemSize (o.item reportDesc)) % 2 ^ 16

def next (o : Outline) : Outline :=
  if o.pos < n then
    let o' := { o with pos := o.after reportDesc }
    if isMain (o.item reportDesc) then o'.mainItem (o.tag reportDesc)
    else if o.tag reportDesc = itemUsage then
      { o' with usages := o.usages ++ [usageOf o.upage (o.item reportDesc) (o.value reportDesc)] }
    else if o.tag reportDesc = itemCollection then
      { o' with nodes := opened o.usages (o.value reportDesc) ++ o.nodes, usages := [] }
    else if o.tag reportDesc = itemEndCollection then { o' with nodes := o.nodes.drop (closing o.nodes), usages := [] }
    else o'.globalItem (o.tag reportDesc) (o.value reportDesc)
  else o

/-- The item lies within the descriptor, and the tables of the parser have room for what it does.  A collection that ends
is one that was opened. -/
structure Fits (o : Outline) : Prop where
  whole : (o.pos + 1) % 2 ^ 16 + itemSize (o.item reportDesc) ≤ n
  main : isMain (o.item reportDesc) = true → o.nodes.length < pathSize ∧ o.usages.length < usageTabSize ∧
    ((o.reportID, o.tag reportDesc) ∈ o.reports ∨ o.reports.length < maxReport)
  usage : o.tag reportDesc = itemUsage → o.usages.length < usageTabSize
  collection : o.tag reportDesc = itemCollection →
    (opened o.usages (o.value reportDesc) ++ o.nodes).length ≤ pathSize ∧ o.usages.length < usageTabSize
  endCollection : o.tag reportDesc = itemEndCollection → closing o.nodes ≤ o.nodes.length

instance (o : Outline) : Decidable (o.Fits reportDesc n) :=
  decidable_of_iff ((o.pos + 1) % 2 ^ 16 + itemSize (o.item reportDesc) ≤ n ∧
    (isMain (o.item reportDesc) = true → o.nodes.length < pathSize ∧ o.usages.length < usageTabSize ∧
      ((o.reportID, o.tag reportDesc) ∈ o.reports ∨ o.reports.length < maxReport)) ∧
    (o.tag reportDesc = itemUsage → o.usages.length < usageTabSize) ∧
    (o.tag reportDesc = itemCollection →
      (opened o.usages (o.value reportDesc) ++ o.nodes).length ≤ pathSize ∧ o.usages.length < usageTabSize) ∧
    (o.tag reportDesc = itemEndCollection → closing o.nodes ≤ o.nodes.length))
    ⟨fun ⟨hwhole, hmain, husage, hcollection, hend⟩ => ⟨hwhole, hmain, husage, hcollection, hend⟩,
      fun h => ⟨h.whole, h.main, h.usage, h.collection, h.endCollection⟩⟩

end Outline

/-- The outline after `k` items. -/
def outline (reportDesc : Nat → UInt8) (n : Nat) : Nat → Outline
  | 0 => .start
  | k + 1 => (outline reportDesc n k).next reportDesc n

/-! ### The tables -/

/-- The table has an entry for each of the reports, and no other with an ID. -/
inductive Holds : List ReportOffset → List (Nat × Nat) → Prop
  | free {tab : List ReportOffset} (h : ∀ e ∈ tab, e.reportID = 0) : Holds tab []
  | used {e : ReportOffset} {tab : List ReportOffset} {reports : List (Nat × Nat)} (hid : e.reportID ≠ 0)
      (h : Holds tab reports) : Holds (e :: tab) ((e.reportID, e.type) :: reports)

theorem addReport_cons {reportID type : Nat} {r : Nat × Nat} (reports : List (Nat × Nat)) (h : r ≠ (reportID, type)) :
    addReport reportID type (r :: reports) = r :: addReport reportID type reports := by
  unfold addReport
  have hmem : (reportID, type) ∈ r :: reports ↔ (reportID, type) ∈ reports :=
    ⟨fun hr => (List.mem_cons.1 hr).resolve_left (Ne.symm h), List.mem_cons_of_mem r⟩
  by_cases hin : reportID = 0 ∨ (reportID, type) ∈ reports
  · rw [if_pos hin, if_pos (hin.imp_right hmem.2)]
  · rw [if_neg hin, if_neg fun h' => hin (h'.imp_right hmem.1)]
    rfl

/-- The table still has an entry for the report. -/
theorem room_addReport {reportID type size : Nat} {reports : List (Nat × Nat)}
    (h : (reportID, type) ∈ reports ∨ reports.length < size) :
    (reportID, type) ∈ addReport reportID type reports ∨ (addReport reportID type reports).length < size := by
  unfold addReport
  split_ifs with hin
  · exact h
  · exact .inl (List.mem_append_right _ (List.mem_singleton_self _))

theorem addReport_addReport (reportID type : Nat) (reports : List (Nat × Nat)) :
    addReport reportID type (addReport reportID type reports) = addReport reportID type reports := by
  have hdone : reportID = 0 ∨ (reportID, type) ∈ addReport reportID type reports := by
    by_cases hin : reportID = 0 ∨ (reportID, type) ∈ reports
    · unfold addReport
      rw [if_pos hin]
      exact hin
    · unfold addReport
      rw [if_neg hin]
      exact .inr (List.mem_append_right _ (List.mem_singleton_self _))
  rw [addReport, if_pos hdone]

/-- What `GetReportOffset` leaves in the table. -/
theorem Holds.getReportOffset {reportID type offset : Nat} {f : Nat → Nat} {tab tab' : List ReportOffset}
    {reports : List (Nat × Nat)} (h : Holds tab reports) (hget : getReportOffset reportID type f tab = some (tab', offset)) :
    Holds tab' (addReport reportID type reports) ∧ tab'.length = tab.length := by
  induction h generalizing tab' with
  | free hfree =>
    rename_i tab
    cases tab with
    | nil => simp [Hid.getReportOffset] at hget
    | cons e tab =>
      rw [Hid.getReportOffset, if_pos (hfree e (List.mem_cons_self ..))] at hget
      dsimp only at hget
      rw [if_neg (by simp)] at hget
      obtain ⟨rfl, -⟩ := Prod.mk.inj (Option.some.inj hget)
      have hrest : ∀ e ∈ tab, e.reportID = 0 := fun e he => hfree e (List.mem_cons_of_mem _ he)
      refine ⟨?_, rfl⟩
      by_cases hid : reportID = 0
      · rw [addReport, if_pos (.inl hid)]
        refine .free fun e' he' => ?_
        rcases List.mem_cons.1 he' with rfl | he'
        · exact hid
        · exact hrest e' he'
      · rw [addReport, if_neg (by simp [hid])]
        exact .used hid (.free hrest)
  | used hid h ih =>
    rename_i e tab reports
    rw [Hid.getReportOffset, if_neg hid] at hget
    by_cases hother : e.reportID ≠ reportID ∨ e.type ≠ type
    · rw [if_pos hother] at hget
      obtain ⟨⟨tab₁, o₁⟩, hrec, hres⟩ := Option.map_eq_some_iff.1 hget
      obtain ⟨rfl, rfl⟩ := Prod.mk.inj hres
      obtain ⟨hholds, hlen⟩ := ih hrec
      rw [addReport_cons]
      · exact ⟨.used hid hholds, by rw [List.length_cons, List.length_cons, hlen]⟩
      · intro heq
        obtain ⟨hsame, hsame'⟩ := Prod.mk.inj heq
        exact hother.elim (fun hne => hne hsame) fun hne => hne hsame'
    · rw [if_neg hother] at hget
      obtain ⟨rfl, -⟩ := Prod.mk.inj (Option.some.inj hget)
      obtain ⟨hsame, hsame'⟩ : e.reportID = reportID ∧ e.type = type := by
        simpa only [ne_eq, not_or, not_not] using hother
      rw [addReport, if_pos (.inr (by simp [hsame, hsame']))]
      exact ⟨.used hid h, rfl⟩

/-- `GetReportOffset` finds the report, or a free entry. -/
theorem Holds.isSome_getReportOffset {reportID type : Nat} {f : Nat → Nat} {tab : List ReportOffset}
    {reports : List (Nat × Nat)} (h : Holds tab reports) : (Hid.getReportOffset reportID type f tab).isSome = true ↔
      (reportID, type) ∈ reports ∨ reports.length < tab.length := by
  induction h with
  | free hfree =>
    rename_i tab
    cases tab with
    | nil => simp [Hid.getReportOffset]
    | cons e tab =>
      rw [Hid.getReportOffset, if_pos (hfree e (List.mem_cons_self ..))]
      simp
  | used hid h ih =>
    rename_i e tab reports
    rw [Hid.getReportOffset, if_neg hid]
    by_cases hother : e.reportID ≠ reportID ∨ e.type ≠ type
    · rw [if_pos hother, Option.isSome_map, ih, List.mem_cons, List.length_cons, List.length_cons, Nat.add_lt_add_iff_right]
      have hne : (reportID, type) ≠ (e.reportID, e.type) := by
        intro heq
        obtain ⟨rfl, rfl⟩ := Prod.mk.inj heq
        simp at hother
      rw [or_iff_right hne]
    · rw [if_neg hother]
      obtain ⟨rfl, rfl⟩ : e.reportID = reportID ∧ e.type = type := by
        simpa only [ne_eq, not_or, not_not] using hother
      simp

/-- The nodes are those on the path. -/
structure OnPath (path : HIDPath) (nodes : List Nat) : Prop where
  size : path.size = nodes.length
  length : path.node.length = pathSize
  node : path.node.take nodes.length = nodes.reverse

theorem OnPath.length_le {path : HIDPath} {nodes : List Nat} (h : OnPath path nodes) : nodes.length ≤ pathSize := by
  have hlen : (path.node.take nodes.length).length = nodes.reverse.length := by rw [h.node]
  rw [List.length_take, List.length_reverse, h.length] at hlen
  omega

theorem OnPath.push {path path' : HIDPath} {nodes : List Nat} {node : Nat} (h : OnPath path nodes)
    (hpush : path.push node = some path') : OnPath path' (node :: nodes) := by
  unfold HIDPath.push at hpush
  split_ifs at hpush with hroom
  obtain rfl := Option.some.inj hpush
  have hlt : path.size < path.node.length := by
    rw [h.length]
    exact hroom
  refine ⟨by rw [List.length_cons, ← h.size], by rw [List.length_set, h.length], ?_⟩
  rw [List.length_cons, List.reverse_cons, ← h.node, ← h.size, List.take_add_one, List.take_set_of_le (Nat.le_refl _),
    List.getElem?_set_self hlt]
  rfl

/-- The node at the end of the path. -/
theorem OnPath.last {path : HIDPath} {nodes : List Nat} (h : OnPath path nodes) (hne : nodes ≠ []) :
    path.node[path.size - 1]? = some (nodes.headD 0) := by
  obtain ⟨node, nodes, rfl⟩ := List.exists_cons_of_ne_nil hne
  have hlt : path.size - 1 < path.size := by
    rw [h.size, List.length_cons]
    omega
  have htake := List.getElem?_take_of_lt (l := path.node) hlt
  rw [← htake, h.size, h.node, List.length_cons, Nat.add_sub_cancel, List.reverse_cons,
    List.getElem?_append_right (by simp), List.length_reverse, Nat.sub_self]
  rfl

/-- The path after its last nodes are taken off. -/
theorem OnPath.drop {path : HIDPath} {nodes : List Nat} (h : OnPath path nodes) {k : Nat} (hk : k ≤ nodes.length) :
    OnPath ⟨path.size - k, path.node⟩ (nodes.drop k) := by
  refine ⟨by rw [List.length_drop, ← h.size], h.length, ?_⟩
  rw [List.length_drop]
  have htake : path.node.take (nodes.length - k) = (path.node.take nodes.length).take (nodes.length - k) := by
    rw [List.take_take, Nat.min_eq_left (by omega)]
  dsimp only
  rw [htake, h.node, List.take_reverse, Nat.sub_sub_self hk]

/-! ### The parser and the outline -/

/-- The parser has the tables of the outline. -/
structure Agrees (p : HIDParser) (o : Outline) : Prop where
  upage : p.upage = o.upage
  reportID : p.data.reportID = o.reportID
  small : o.reportID < 256
  reportCount : p.reportCount = o.reportCount
  smallCount : o.reportCount < 256
  usageTab : p.usageTab = o.usages
  path : OnPath p.data.path o.nodes
  reports : Holds p.offsetTab o.reports
  length : p.offsetTab.length = maxReport

/-- The parser has an item of the descriptor in hand. -/
structure InHand (reportDesc : Nat → UInt8) (p : HIDParser) (o : Outline) : Prop where
  pos : p.pos = o.after reportDesc
  item : p.item = o.item reportDesc
  value : p.value = o.value reportDesc

/-- Where the parser stands: before an item of the descriptor, or within a main item of which it has made `j` fields. -/
inductive Standing (reportDesc : Nat → UInt8) (n : Nat) (p : HIDParser) (o : Outline) : Nat → Prop
  | before (hcount : p.count = 0) (hpos : p.pos = o.pos) (h : Agrees p o) : Standing reportDesc n p o 0
  | within {j : Nat} (hfirst : 0 < j) (hj : j < o.number) (hcount : p.count = o.number - j) (hmain : isMain (o.item reportDesc) = true)
      (hmore : o.pos < n) (hfits : o.Fits reportDesc n) (hand : InHand reportDesc p o)
      (h : Agrees p { o with usages := o.usages.drop j, reports := addReport o.reportID (o.tag reportDesc) o.reports }) :
      Standing reportDesc n p o j

theorem number_le {o : Outline} (h : o.reportCount < 256) : o.number ≤ 256 := by
  unfold Outline.number
  split_ifs <;> omega

theorem number_pos (o : Outline) : 0 < o.number := by
  unfold Outline.number
  split_ifs <;> omega

theorem Standing.start (reportDesc : Nat → UInt8) (n : Nat) : Standing reportDesc n .init .start 0 := by
  have hfree : ∀ e ∈ HIDParser.init.offsetTab, e.reportID = 0 := by
    intro e he
    rw [List.eq_of_mem_replicate he]
  exact .before rfl rfl
    ⟨rfl, rfl, by decide, rfl, by decide, rfl, ⟨rfl, rfl, rfl⟩, .free hfree, List.length_replicate ..⟩

/-- The field that the parser makes of the item in hand. -/
def fieldData (p : HIDParser) (usage offset : Nat) : HIDData :=
  { p.data with
    path := ⟨p.data.path.size + 1, p.data.path.node.set p.data.path.size usage⟩
    type := p.item &&& itemMask
    attr := p.value % 256
    offset := offset }

/-- The globals of a field, without what is of the field itself. -/
def globals (data : HIDData) : HIDData := { data with path := ⟨0, []⟩, offset := 0, type := 0, attr := 0 }

/-- A field and the parser after it. -/
structure FieldMade (p p' : HIDParser) (o : Outline) (data : HIDData) (found : Nat) : Prop where
  pos : p'.pos = p.pos
  item : p'.item = p.item
  value : p'.value = p.value
  count : p'.count = ((if p.count = 0 then p.reportCount else p.count) + 255) % 256
  upage : p'.upage = p.upage
  reportCount : p'.reportCount = p.reportCount
  data : ∃ offset, data = fieldData p (p.usageTab.headD 0) offset
  found : found = if p.usageTab.headD 0 ≠ 0 then 1 else 0
  globals : globals p'.data = globals p.data
  size : p'.data.path.size = p.data.path.size
  node : p'.data.path.node = p.data.path.node.set p.data.path.size (p.usageTab.headD 0)
  agrees : Agrees p' { o with
    usages := if p'.count = 0 then [] else o.usages.tail
    reports := addReport o.reportID (p.item &&& itemMask) o.reports }

theorem mainItem_made {p p' : HIDParser} {o : Outline} {r : Option (HIDData × Nat)} (ha : Agrees p o)
    (h : mainItem p = some (p', r)) : ∃ data found, r = some (data, found) ∧ FieldMade p p' o data found := by
  unfold mainItem at h
  obtain ⟨path, hpush, h⟩ := Option.bind_eq_some_iff.1 h
  obtain ⟨usageTab, husage, h⟩ := Option.bind_eq_some_iff.1 h
  obtain ⟨⟨tab, offset⟩, htab, h⟩ := Option.bind_eq_some_iff.1 h
  obtain ⟨⟨tab', offset'⟩, htab', h⟩ := Option.bind_eq_some_iff.1 h
  obtain ⟨rfl, rfl⟩ := Prod.mk.inj (Option.some.inj h)
  obtain ⟨hholds, hlen⟩ := ha.reports.getReportOffset htab
  obtain ⟨hholds', hlen'⟩ := hholds.getReportOffset htab'
  have hon := ha.path.push hpush
  unfold unstack at husage
  split_ifs at husage
  obtain rfl := Option.some.inj husage
  unfold HIDPath.push at hpush
  split_ifs at hpush
  obtain rfl := Option.some.inj hpush
  rw [addReport_addReport, ha.reportID] at hholds'
  refine ⟨_, _, rfl, rfl, rfl, rfl, rfl, rfl, rfl, ⟨offset, rfl⟩, rfl, rfl, rfl, rfl, ?_⟩
  refine ⟨ha.upage, ha.reportID, ha.small, ha.reportCount, ha.smallCount, ?_, ?_, hholds', by rw [hlen', hlen, ha.length]⟩
  · dsimp only
    rw [ha.usageTab]
  · exact hon.drop (k := 1) (by simp)

/-! ### Items that fit -/

theorem unstackAccesses_iff {n : Nat} {usageTab : List Nat} :
    (∀ a ∈ unstackAccesses usageTab, a.InRange n) ↔ usageTab.length < usageTabSize := by
  unfold unstackAccesses
  constructor
  · intro h
    by_contra hfull
    -- the last usage is moved down from beyond the table
    have hlast : Touch.usage usageTab.length ∈
        (List.range usageTab.length).flatMap fun i => [Touch.usage i, Touch.usage (i + 1)] := by
      have hpos : 0 < usageTab.length := Nat.lt_of_lt_of_le (by decide) (Nat.le_of_not_lt hfull)
      refine List.mem_flatMap.2 ⟨usageTab.length - 1, List.mem_range.2 (by omega), ?_⟩
      rw [Nat.sub_add_cancel hpos]
      simp
    exact hfull (h _ hlast)
  · intro hlt a ha
    obtain ⟨i, hi, hmem⟩ := List.mem_flatMap.1 ha
    have hi := List.mem_range.1 hi
    simp only [List.mem_cons, List.not_mem_nil, or_false] at hmem
    rcases hmem with rfl | rfl
    · exact Nat.lt_trans hi hlt
    · exact Nat.lt_of_le_of_lt hi hlt

theorem mainAccesses_iff {n : Nat} {p : HIDParser} {o : Outline} (ha : Agrees p o) :
    (∀ a ∈ mainAccesses p, a.InRange n) ↔ o.nodes.length < pathSize ∧ o.usages.length < usageTabSize ∧
      ((o.reportID, p.item &&& itemMask) ∈ o.reports ∨ o.reports.length < maxReport) := by
  have hfound : (getReportOffset p.data.reportID (p.item &&& itemMask) id p.offsetTab).isSome = true ↔ _ :=
    ha.reports.isSome_getReportOffset
  rw [ha.length, ha.reportID] at hfound
  -- the second call finds what the first one found
  have hagain : ∀ r, getReportOffset o.reportID (p.item &&& itemMask) id p.offsetTab = some r →
      (getReportOffset o.reportID (p.item &&& itemMask) id r.1).isSome = true := by
    rintro ⟨tab, offset⟩ hr
    obtain ⟨hholds, hlen⟩ := ha.reports.getReportOffset hr
    rw [hholds.isSome_getReportOffset, hlen, ha.length]
    exact room_addReport (hfound.1 (by rw [hr]; rfl))
  unfold mainAccesses
  dsimp only
  rw [ha.reportID, List.forall_mem_append, List.forall_mem_append, unstackAccesses_iff, ha.usageTab, ha.path.size]
  simp only [List.forall_mem_cons, List.not_mem_nil, false_imp_iff, implies_true, and_true, Touch.InRange]
  rw [← hfound]
  constructor
  · rintro ⟨⟨⟨-, hnode⟩, husage⟩, hentry, -, -⟩
    exact ⟨hnode, husage, hentry⟩
  · rintro ⟨hnode, husage, hentry⟩
    refine ⟨⟨⟨by decide, hnode⟩, husage⟩, hentry, ?_, ?_⟩
    · obtain ⟨r, hr⟩ := Option.isSome_iff_exists.1 hentry
      rw [hr]
      exact hagain r hr
    · rw [pathSize] at hnode
      omega

theorem collectionAccesses_iff {n : Nat} {p : HIDParser} {o : Outline} (ha : Agrees p o) :
    (∀ a ∈ collectionAccesses p, a.InRange n) ↔
      (opened o.usages p.value ++ o.nodes).length ≤ pathSize ∧ o.usages.length < usageTabSize := by
  unfold collectionAccesses opened
  dsimp only
  rw [List.forall_mem_append, List.forall_mem_append, unstackAccesses_iff, ha.usageTab, ha.path.size]
  have hle := ha.path.length_le
  by_cases hindex : 0x80 ≤ p.value
  · rw [if_pos hindex, if_pos hindex]
    simp only [List.forall_mem_cons, List.not_mem_nil, false_imp_iff, implies_true, and_true, Touch.InRange,
      List.length_append, List.length_cons, List.length_nil, pathSize, usageTabSize] at hle ⊢
    omega
  · rw [if_neg hindex, if_neg hindex]
    simp only [List.forall_mem_cons, List.not_mem_nil, false_imp_iff, implies_true, and_true, Touch.InRange,
      List.length_append, List.length_cons, List.length_nil, pathSize, usageTabSize] at hle ⊢
    omega

theorem endCollectionAccesses_iff {n : Nat} {p : HIDParser} {o : Outline} (ha : Agrees p o) :
    (∀ a ∈ endCollectionAccesses p, a.InRange n) ↔ closing o.nodes ≤ o.nodes.length := by
  unfold endCollectionAccesses closing
  dsimp only
  have hle := ha.path.length_le
  rw [pathSize] at hle
  by_cases hnone : o.nodes = []
  · have hzero : p.data.path.size = 0 := by rw [ha.path.size, hnone]; rfl
    rw [hnone, hzero]
    refine iff_of_false (fun h => absurd (h _ (List.mem_append_left _ (List.mem_cons_self ..))) (Nat.lt_irrefl 0)) ?_
    split_ifs <;> simp
  have hlast := ha.path.last hnone
  have hpos : 0 < o.nodes.length := List.length_pos_of_ne_nil hnone
  have hsize : (p.data.path.size + 255) % 256 = p.data.path.size - 1 := by
    rw [ha.path.size]
    omega
  rw [hsize, List.getD_eq_getElem?_getD, hlast, Option.getD_some, ha.path.size, List.forall_mem_append]
  by_cases hindex : isIndex (o.nodes.headD 0) = true
  · rw [if_pos hindex, if_pos hindex]
    simp only [List.forall_mem_cons, List.not_mem_nil, false_imp_iff, implies_true, and_true, Touch.InRange, pathSize]
    omega
  · rw [if_neg hindex, if_neg hindex]
    simp only [List.forall_mem_cons, List.not_mem_nil, false_imp_iff, implies_true, and_true, Touch.InRange, pathSize]
    omega

theorem fetchAccesses_iff {reportDesc : Nat → UInt8} {n : Nat} {p : HIDParser} {o : Outline} (hcount : p.count = 0)
    (hpos : p.pos = o.pos) (hmore : o.pos < n) : (∀ a ∈ fetchAccesses reportDesc p, a.InRange n) ↔
      (o.pos + 1) % 2 ^ 16 + itemSize (o.item reportDesc) ≤ n := by
  unfold fetchAccesses Outline.item
  rw [if_pos hcount, hpos, List.forall_mem_cons, List.forall_mem_map]
  simp only [List.mem_range, Touch.InRange]
  have hwrap : (o.pos + 1) % 2 ^ 16 ≤ o.pos + 1 := Nat.mod_le _ _
  constructor
  · rintro ⟨-, hbytes⟩
    by_cases hsize : itemSize (reportDesc o.pos).toNat = 0
    · omega
    · have hlast := hbytes (itemSize (reportDesc o.pos).toNat - 1) (by omega)
      omega
  · intro hwhole
    exact ⟨hmore, fun i hi => by omega⟩

theorem tag_of_isMain {item : Nat} (h : isMain item = true) :
    item &&& itemMask ≠ itemUsage ∧ item &&& itemMask ≠ itemCollection ∧ item &&& itemMask ≠ itemEndCollection := by
  unfold isMain at h
  simp only [Bool.or_eq_true, decide_eq_true_eq] at h
  rcases h with (h | h) | h <;> rw [h] <;> decide

theorem itemAccesses_iff {reportDesc : Nat → UInt8} {n : Nat} {p : HIDParser} {o : Outline} (hand : InHand reportDesc p o)
    (ha : Agrees p o) (hwhole : (o.pos + 1) % 2 ^ 16 + itemSize (o.item reportDesc) ≤ n) :
    (∀ a ∈ itemAccesses p, a.InRange n) ↔ o.Fits reportDesc n := by
  have htag : p.item &&& itemMask = o.tag reportDesc := by rw [hand.item]; rfl
  unfold itemAccesses
  rw [htag, hand.item]
  by_cases hmain : isMain (o.item reportDesc) = true
  · obtain ⟨husage, hcollection, hend⟩ := tag_of_isMain hmain
    rw [if_pos hmain, mainAccesses_iff ha, htag]
    exact ⟨fun h => ⟨hwhole, fun _ => h, fun heq => absurd heq husage, fun heq => absurd heq hcollection,
      fun heq => absurd heq hend⟩, fun h => h.main hmain⟩
  rw [if_neg hmain]
  by_cases husage : o.tag reportDesc = itemUsage
  · rw [if_pos husage, List.forall_mem_singleton, ha.usageTab]
    exact ⟨fun h => ⟨hwhole, fun h => absurd h hmain, fun _ => h, fun heq => absurd (husage.symm.trans heq) (by decide),
      fun heq => absurd (husage.symm.trans heq) (by decide)⟩, fun h => h.usage husage⟩
  rw [if_neg husage]
  by_cases hcollection : o.tag reportDesc = itemCollection
  · rw [if_pos hcollection, collectionAccesses_iff ha, hand.value]
    exact ⟨fun h => ⟨hwhole, fun h => absurd h hmain, fun heq => absurd heq husage, fun _ => h,
      fun heq => absurd (hcollection.symm.trans heq) (by decide)⟩, fun h => h.collection hcollection⟩
  rw [if_neg hcollection]
  by_cases hend : o.tag reportDesc = itemEndCollection
  · rw [if_pos hend, endCollectionAccesses_iff ha]
    exact ⟨fun h => ⟨hwhole, fun h => absurd h hmain, fun heq => absurd heq husage, fun heq => absurd heq hcollection,
      fun _ => h⟩, fun h => h.endCollection hend⟩
  · rw [if_neg hend]
    exact ⟨fun _ => ⟨hwhole, fun h => absurd h hmain, fun heq => absurd heq husage, fun heq => absurd heq hcollection,
      fun heq => absurd heq hend⟩, fun _ => by simp⟩

/-- The next item of the descriptor. -/
theorem inHand_nextItem (reportDesc : Nat → UInt8) {p : HIDParser} {o : Outline} (hpos : p.pos = o.pos) (ha : Agrees p o) :
    InHand reportDesc (nextItem reportDesc p) o ∧ Agrees (nextItem reportDesc p) o := by
  refine ⟨?_, ha.upage, ha.reportID, ha.small, ha.reportCount, ha.smallCount, ha.usageTab, ha.path, ha.reports, ha.length⟩
  unfold nextItem
  rw [hpos]
  exact ⟨rfl, rfl, rfl⟩

/-- Before an item, the parser stays in range exactly when the item fits. -/
theorem before_bounds_iff {reportDesc : Nat → UInt8} {n : Nat} {p : HIDParser} {o : Outline} (hcount : p.count = 0)
    (hpos : p.pos = o.pos) (ha : Agrees p o) (hmore : o.pos < n) :
    (∀ a ∈ accesses reportDesc p, a.InRange n) ↔ o.Fits reportDesc n := by
  obtain ⟨hand, ha'⟩ := inHand_nextItem reportDesc hpos ha
  unfold accesses fetch
  rw [List.forall_mem_append, fetchAccesses_iff hcount hpos hmore, if_pos hcount]
  exact ⟨fun h => (itemAccesses_iff hand ha' h.1).1 h.2, fun h => ⟨h.whole, (itemAccesses_iff hand ha' h.whole).2 h⟩⟩

/-- Within a main item that fits, the parser stays in range. -/
theorem within_bounds {reportDesc : Nat → UInt8} {n j : Nat} {p : HIDParser} {o : Outline} (hbusy : p.count ≠ 0)
    (hmain : isMain (o.item reportDesc) = true) (hfits : o.Fits reportDesc n) (hand : InHand reportDesc p o)
    (ha : Agrees p { o with usages := o.usages.drop j, reports := addReport o.reportID (o.tag reportDesc) o.reports }) :
    ∀ a ∈ accesses reportDesc p, a.InRange n := by
  have htag : p.item &&& itemMask = o.tag reportDesc := by rw [hand.item]; rfl
  obtain ⟨hnodes, husages, hreports⟩ := hfits.main hmain
  unfold accesses fetch fetchAccesses itemAccesses
  rw [if_neg hbusy, if_neg hbusy, List.nil_append, hand.item, if_pos hmain, mainAccesses_iff ha, htag]
  refine ⟨hnodes, ?_, room_addReport hreports⟩
  dsimp only
  rw [List.length_drop]
  omega

/-! ### A round of the loop -/

theorem usageItem_agrees {p : HIDParser} {o : Outline} (ha : Agrees p o) (hroom : o.usages.length < usageTabSize) :
    ∃ p', usageItem p = some p' ∧ p'.count = p.count ∧ p'.pos = p.pos ∧
      Agrees p' { o with usages := o.usages ++ [usageOf o.upage p.item p.value] } := by
  unfold usageItem
  rw [if_neg (by rw [ha.usageTab]; exact Nat.not_le.2 hroom)]
  refine ⟨_, rfl, rfl, rfl, ha.upage, ha.reportID, ha.small, ha.reportCount, ha.smallCount, ?_, ha.path, ha.reports, ha.length⟩
  dsimp only
  rw [ha.usageTab, ha.upage]

theorem OnPath.push_of_lt {path : HIDPath} {nodes : List Nat} (h : OnPath path nodes) (hroom : nodes.length < pathSize)
    (node : Nat) : ∃ path', path.push node = some path' ∧ OnPath path' (node :: nodes) := by
  cases hpush : path.push node with
  | none =>
    unfold HIDPath.push at hpush
    rw [if_pos (by rw [h.size]; exact hroom)] at hpush
    cases hpush
  | some path' => exact ⟨path', rfl, h.push hpush⟩

theorem collectionItem_agrees {p : HIDParser} {o : Outline} (ha : Agrees p o)
    (hroom : (opened o.usages p.value ++ o.nodes).length ≤ pathSize) (husages : o.usages.length < usageTabSize) :
    ∃ p', collectionItem p = some p' ∧ p'.count = p.count ∧ p'.pos = p.pos ∧
      Agrees p' { o with nodes := opened o.usages p.value ++ o.nodes, usages := [] } := by
  have hlen : o.nodes.length + 1 ≤ (opened o.usages p.value ++ o.nodes).length := by
    unfold opened
    split_ifs <;> simp
  obtain ⟨path, hpush, hpath⟩ := ha.path.push_of_lt (Nat.lt_of_lt_of_le (Nat.lt_succ_self _) (hlen.trans hroom))
    (o.usages.headD 0)
  have hindex : ∃ path', path.pushIndex p.value = some path' ∧ OnPath path' (opened o.usages p.value ++ o.nodes) := by
    unfold HIDPath.pushIndex opened
    unfold opened at hroom
    split_ifs with hvalue
    · rw [if_pos hvalue] at hroom
      exact hpath.push_of_lt (Nat.lt_of_succ_le hroom) _
    · exact ⟨path, rfl, hpath⟩
  obtain ⟨path', hpush', hpath'⟩ := hindex
  have hstack : unstack o.usages = some o.usages.tail := by
    unfold unstack
    rw [if_neg (Nat.not_le.2 husages)]
  unfold collectionItem
  rw [ha.usageTab, hpush, hstack]
  refine ⟨{ p with data := { p.data with path := path' }, usageTab := [] }, ?_, rfl, rfl, ha.upage, ha.reportID, ha.small,
    ha.reportCount, ha.smallCount, rfl, hpath', ha.reports, ha.length⟩
  rw [Option.bind_eq_bind, Option.bind_some, Option.bind_eq_bind, Option.bind_some, hpush']
  rfl

theorem endCollectionItem_agrees {p : HIDParser} {o : Outline} (ha : Agrees p o) (hclosing : closing o.nodes ≤ o.nodes.length) :
    ∃ p', endCollectionItem p = some p' ∧ p'.count = p.count ∧ p'.pos = p.pos ∧
      Agrees p' { o with nodes := o.nodes.drop (closing o.nodes), usages := [] } := by
  have hpos : 0 < closing o.nodes := by
    unfold closing
    split_ifs <;> decide
  have hnone : o.nodes ≠ [] := by
    rintro hnil
    rw [hnil] at hclosing hpos
    exact absurd (Nat.lt_of_lt_of_le hpos hclosing) (Nat.lt_irrefl 0)
  have hle := ha.path.length_le
  rw [pathSize] at hle
  have hsize : (p.data.path.size + 255) % 256 = p.data.path.size - 1 := by
    rw [ha.path.size]
    omega
  unfold endCollectionItem
  dsimp only
  rw [hsize, ha.path.last hnone]
  have hdrop := ha.path.drop hclosing
  have hnew : (if o.nodes.headD 0 &&& 0xffff0000 = 0x00ff0000 then (p.data.path.size - 1 + 255) % 256
      else p.data.path.size - 1) = p.data.path.size - closing o.nodes := by
    unfold closing isIndex at hclosing ⊢
    simp only [decide_eq_true_eq] at hclosing ⊢
    rw [ha.path.size]
    split_ifs at hclosing ⊢
    · omega
    · rfl
  refine ⟨_, rfl, rfl, rfl, ha.upage, ha.reportID, ha.small, ha.reportCount, ha.smallCount, rfl, ?_, ha.reports, ha.length⟩
  dsimp only
  rw [hnew]
  exact hdrop

theorem globalItem_agrees {p : HIDParser} {o : Outline} (ha : Agrees p o) (hpos : p.pos = o.pos) :
    (globalItem p).pos = (o.globalItem (p.item &&& itemMask) p.value).pos ∧
      Agrees (globalItem p) (o.globalItem (p.item &&& itemMask) p.value) := by
  let Same (p' : HIDParser) (o' : Outline) : Prop := p'.pos = o'.pos ∧ Agrees p' o'
  have hbyte : p.value % 256 < 256 := Nat.mod_lt _ (by decide)
  have hitem {tag : Nat} {a b : HIDParser} {a' b' : Outline} (ha : Same a a') (hb : Same b b') :
      Same (if p.item &&& itemMask = tag then a else b) (if p.item &&& itemMask = tag then a' else b') := by
    split
    · exact ha
    · exact hb
  -- an item that the outline does not know
  have hother {tag : Nat} {a b : HIDParser} {b' : Outline} (hne : tag ≠ itemLong) (ha : Same a o)
      (hb : Same b (if p.item &&& itemMask = itemLong then b' else o)) :
      Same (if p.item &&& itemMask = tag then a else b) (if p.item &&& itemMask = itemLong then b' else o) := by
    split
    · rename_i htag
      rw [if_neg (htag ▸ hne)]
      exact ha
    · exact hb
  have hdata (data : HIDData) (hid : data.reportID = p.data.reportID) (hpath : data.path = p.data.path) :
      Same { p with data := data } o :=
    ⟨hpos, ha.upage, hid.trans ha.reportID, ha.small, ha.reportCount, ha.smallCount, ha.usageTab, hpath ▸ ha.path,
      ha.reports, ha.length⟩
  have hlong : Same { p with pos := (p.pos + p.value % 256) % 2 ^ 16 } { o with pos := (o.pos + p.value % 256) % 2 ^ 16 } :=
    ⟨by rw [← hpos], ha.upage, ha.reportID, ha.small, ha.reportCount, ha.smallCount, ha.usageTab, ha.path, ha.reports,
      ha.length⟩
  unfold globalItem Outline.globalItem
  dsimp only
  refine hitem ⟨hpos, rfl, ha.reportID, ha.small, ha.reportCount, ha.smallCount, ha.usageTab, ha.path, ha.reports,
    ha.length⟩ ?_
  refine hitem ⟨hpos, ha.upage, rfl, hbyte, ha.reportCount, ha.smallCount, ha.usageTab, ha.path, ha.reports, ha.length⟩ ?_
  by_cases hcount : p.item &&& itemMask = itemRepCount
  · rw [if_neg (by rw [hcount]; decide), if_pos hcount, if_pos hcount]
    exact ⟨hpos, ha.upage, ha.reportID, ha.small, rfl, hbyte, ha.usageTab, ha.path, ha.reports, ha.length⟩
  rw [if_neg hcount, if_neg hcount]
  refine hother (by decide) (hdata _ rfl rfl) ?_
  refine hother (by decide) (hdata _ rfl rfl) ?_
  refine hother (by decide) (hdata _ rfl rfl) ?_
  refine hother (by decide) (hdata _ rfl rfl) ?_
  refine hother (by decide) (hdata _ rfl rfl) ?_
  refine hother (by decide) (hdata _ rfl rfl) ?_
  refine hother (by decide) (hdata _ rfl rfl) ?_
  exact hitem hlong ⟨hpos, ha⟩

/-- An item that fits and is no main item. -/
theorem other_agrees {reportDesc : Nat → UInt8} {n : Nat} {p : HIDParser} {o : Outline} (hand : InHand reportDesc p o)
    (ha : Agrees p o) (hmore : o.pos < n) (hfits : o.Fits reportDesc n) (hmain : ¬isMain (o.item reportDesc) = true) :
    ∃ p', hidItem p = some (p', none) ∧ p'.count = p.count ∧ p'.pos = (o.next reportDesc n).pos ∧
      Agrees p' (o.next reportDesc n) := by
  have htag : p.item &&& itemMask = o.tag reportDesc := by rw [hand.item]; rfl
  have hmove {p' : HIDParser} {o' : Outline} (h : Agrees p' o') (pos : Nat) : Agrees p' { o' with pos := pos } :=
    ⟨h.upage, h.reportID, h.small, h.reportCount, h.smallCount, h.usageTab, h.path, h.reports, h.length⟩
  unfold hidItem Outline.next
  rw [htag, hand.item, if_neg hmain, if_pos hmore]
  dsimp only
  rw [if_neg hmain]
  by_cases husage : o.tag reportDesc = itemUsage
  · rw [if_pos husage, if_pos husage]
    obtain ⟨p', hitem, hcount, hpos, ha'⟩ := usageItem_agrees ha (hfits.usage husage)
    rw [hand.item, hand.value] at ha'
    rw [hitem]
    exact ⟨p', rfl, hcount, hpos.trans hand.pos, hmove ha' _⟩
  rw [if_neg husage, if_neg husage]
  by_cases hcollection : o.tag reportDesc = itemCollection
  · rw [if_pos hcollection, if_pos hcollection]
    obtain ⟨hroom, husages⟩ := hfits.collection hcollection
    rw [← hand.value] at hroom
    obtain ⟨p', hitem, hcount, hpos, ha'⟩ := collectionItem_agrees ha hroom husages
    rw [hand.value] at ha'
    rw [hitem]
    exact ⟨p', rfl, hcount, hpos.trans hand.pos, hmove ha' _⟩
  rw [if_neg hcollection, if_neg hcollection]
  by_cases hend : o.tag reportDesc = itemEndCollection
  · rw [if_pos hend, if_pos hend]
    obtain ⟨p', hitem, hcount, hpos, ha'⟩ := endCollectionItem_agrees ha (hfits.endCollection hend)
    rw [hitem]
    exact ⟨p', rfl, hcount, hpos.trans hand.pos, hmove ha' _⟩
  rw [if_neg hend, if_neg hend]
  obtain ⟨hpos, ha'⟩ := globalItem_agrees (hmove ha (o.after reportDesc)) hand.pos
  rw [htag, hand.value] at hpos ha'
  exact ⟨globalItem p, rfl, (globalItem_spec p).count, hpos, ha'⟩

/-- A main item for which there is room yields a field. -/
theorem mainItem_total {p : HIDParser} {o : Outline} (ha : Agrees p o) (hnodes : o.nodes.length < pathSize)
    (husages : o.usages.length < usageTabSize)
    (hreports : (o.reportID, p.item &&& itemMask) ∈ o.reports ∨ o.reports.length < maxReport) :
    ∃ p' data found, mainItem p = some (p', some (data, found)) := by
  obtain ⟨path, hpush, -⟩ := ha.path.push_of_lt hnodes (p.usageTab.headD 0)
  have hstack : unstack p.usageTab = some p.usageTab.tail := by
    unfold unstack
    rw [if_neg (by rw [ha.usageTab]; exact Nat.not_le.2 husages)]
  have hfound {tab : List ReportOffset} {reports : List (Nat × Nat)} {f : Nat → Nat} (hholds : Holds tab reports)
      (hlen : tab.length = maxReport) (hin : (o.reportID, p.item &&& itemMask) ∈ reports ∨ reports.length < maxReport) :
      ∃ r, getReportOffset p.data.reportID (p.item &&& itemMask) f tab = some r := by
    refine Option.isSome_iff_exists.1 (hholds.isSome_getReportOffset.2 ?_)
    rw [ha.reportID, hlen]
    exact hin
  obtain ⟨r, hr⟩ := hfound (f := id) ha.reports ha.length hreports
  obtain ⟨hholds, hlen⟩ := ha.reports.getReportOffset hr
  rw [ha.reportID] at hholds
  obtain ⟨r', hr'⟩ := hfound (f := fun offset => (offset + p.data.size) % 256) hholds (hlen.trans ha.length)
    (room_addReport hreports)
  unfold mainItem
  dsimp only
  rw [hpush, hstack, Option.bind_eq_bind, Option.bind_some, Option.bind_eq_bind, Option.bind_some, hr,
    Option.bind_eq_bind, Option.bind_some, hr', Option.bind_some]
  exact ⟨_, _, _, rfl⟩

/-- What a round of the loop does, seen from the outline: an item is passed, or one more field of a main item is made. -/
inductive Stepped (reportDesc : Nat → UInt8) (n : Nat) (p p' : HIDParser) (o : Outline) (j : Nat) :
    Option (HIDData × Nat) → Prop
  | passed (hmain : isMain (o.item reportDesc) = false) (hcount : p'.count = 0) (hj : j = 0)
      (h : Standing reportDesc n p' (o.next reportDesc n) 0) : Stepped reportDesc n p p' o j none
  | made {o' : Outline} {data : HIDData} {found : Nat} (hmain : isMain (o.item reportDesc) = true) (hj : j < o.number)
      (hcount : p'.count = o.number - (j + 1)) (hand : InHand reportDesc (fetch reportDesc p) o)
      (husage : (fetch reportDesc p).usageTab = o.usages.drop j) (hmade : FieldMade (fetch reportDesc p) p' o' data found)
      (h : Standing reportDesc n p' (if p'.count = 0 then o.next reportDesc n else o) (if p'.count = 0 then 0 else j + 1)) :
      Stepped reportDesc n p p' o j (some (data, found))

/-- The field after the first `j` of a main item. -/
theorem made_stepped {reportDesc : Nat → UInt8} {n j : Nat} {p q p' : HIDParser} {o : Outline} {r : Option (HIDData × Nat)}
    (hq : fetch reportDesc p = q) (hmain : isMain (o.item reportDesc) = true) (hmore : o.pos < n)
    (hfits : o.Fits reportDesc n) (hj : j < o.number) (hand : InHand reportDesc q o)
    (hleft : (if q.count = 0 then q.reportCount else q.count) = if o.number - j = 256 then 0 else o.number - j)
    {reports : List (Nat × Nat)} (hreports : addReport o.reportID (o.tag reportDesc) reports =
      addReport o.reportID (o.tag reportDesc) o.reports)
    (ha : Agrees q { o with usages := o.usages.drop j, reports := reports }) (h : mainItem q = some (p', r)) :
    Stepped reportDesc n p p' o j r := by
  have htag : q.item &&& itemMask = o.tag reportDesc := by rw [hand.item]; rfl
  obtain ⟨data, found, rfl, hmade⟩ := mainItem_made ha h
  have hnumber := number_le ha.smallCount
  have hnumber : o.number ≤ 256 := hnumber
  have hcount : p'.count = o.number - (j + 1) := by
    rw [hmade.count, hleft]
    split_ifs <;> omega
  have hagrees := hmade.agrees
  rw [htag] at hagrees
  dsimp only at hagrees
  rw [hreports, List.tail_drop] at hagrees
  subst hq
  refine .made hmain hj hcount hand ha.usageTab hmade ?_
  have hpos : p'.pos = o.after reportDesc := hmade.pos.trans hand.pos
  by_cases hlast : p'.count = 0
  · rw [if_pos hlast] at hagrees ⊢
    rw [if_pos hlast]
    unfold Outline.next
    rw [if_pos hmore]
    dsimp only
    rw [if_pos hmain]
    exact .before hlast hpos ⟨hagrees.upage, hagrees.reportID, hagrees.small, hagrees.reportCount, hagrees.smallCount,
      hagrees.usageTab, hagrees.path, hagrees.reports, hagrees.length⟩
  · rw [if_neg hlast] at hagrees ⊢
    rw [if_neg hlast]
    exact .within (Nat.succ_pos j) (by omega) hcount hmain hmore hfits
      ⟨hpos, hmade.item.trans hand.item, hmade.value.trans hand.value⟩ hagrees

theorem Standing.number_pos {reportDesc : Nat → UInt8} {n j : Nat} {p : HIDParser} {o : Outline}
    (h : Standing reportDesc n p o j) : j < o.number := by
  cases h with
  | before => exact Hid.number_pos o
  | within _ hj => exact hj

/-- In a round that touches nothing out of range, the item fits and the parser stays with the outline. -/
theorem Standing.step {reportDesc : Nat → UInt8} {n j : Nat} {p p' : HIDParser} {o : Outline} {r : Option (HIDData × Nat)}
    (hs : Standing reportDesc n p o j) (h : Iteration reportDesc n p p' r) :
    o.pos < n ∧ o.Fits reportDesc n ∧ Stepped reportDesc n p p' o j r := by
  have hj := hs.number_pos
  cases hs with
  | before hcount hpos ha =>
    have hmore : o.pos < n := hpos ▸ h.more
    have hfits := (before_bounds_iff hcount hpos ha hmore).1 h.bounds
    obtain ⟨hand, ha'⟩ := inHand_nextItem reportDesc hpos ha
    have hq : fetch reportDesc p = nextItem reportDesc p := if_pos hcount
    have hresult := h.result
    rw [hq] at hresult
    refine ⟨hmore, hfits, ?_⟩
    by_cases hmain : isMain (o.item reportDesc) = true
    · rw [hidItem, if_pos (by rw [hand.item]; exact hmain)] at hresult
      have hzero : (nextItem reportDesc p).count = 0 := hcount
      refine made_stepped hq hmain hmore hfits hj hand ?_ rfl ha' hresult
      rw [if_pos hzero, ha'.reportCount, Nat.sub_zero]
      have hsmall := ha.smallCount
      unfold Outline.number
      split_ifs <;> omega
    · obtain ⟨p₁, hitem, hcount', hpos', ha₁⟩ := other_agrees hand ha' hmore hfits hmain
      rw [hitem] at hresult
      obtain ⟨rfl, rfl⟩ := Prod.mk.inj (Option.some.inj hresult)
      have hcount₁ := hcount'.trans hcount
      exact .passed (Bool.eq_false_iff.2 hmain) hcount₁ rfl (.before hcount₁ hpos' ha₁)
  | within hfirst _ hcount hmain hmore hfits hand ha =>
    have hbusy : p.count ≠ 0 := by omega
    have hq : fetch reportDesc p = p := if_neg hbusy
    have hresult := h.result
    rw [hq, hidItem, if_pos (by rw [hand.item]; exact hmain)] at hresult
    refine ⟨hmore, hfits, made_stepped hq hmain hmore hfits hj hand ?_ (addReport_addReport ..) ha hresult⟩
    have hnumber : o.number ≤ 256 := number_le ha.smallCount
    rw [if_neg hbusy, hcount, if_neg (by omega)]

end Hid

end Nut
