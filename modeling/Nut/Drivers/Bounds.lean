import Nut.Drivers.Outline

/-!
# The bounds of the parser

`Parse_ReportDesc` tests no limit of its tables, nor whether the bytes of an item belong to the descriptor.  It stays in range
exactly on the descriptors whose items fit (`in_bounds_iff`).
-/

namespace Nut

namespace Hid

/-! ### Runs -/

theorem objects_take_succ (usages : List Nat) (j : Nat) :
    objects (usages.take (j + 1)) = objects (usages.take j) + if (usages.drop j).headD 0 ≠ 0 then 1 else 0 := by
  unfold objects
  rw [List.take_add_one, List.filter_append, List.length_append, List.headD_eq_head?_getD, List.head?_drop]
  cases usages[j]? with
  | none => rfl
  | some usage =>
    by_cases hzero : usage = 0
    · simp [hzero]
    · simp [hzero]

theorem next_of_main {reportDesc : Nat → UInt8} {n : Nat} {o : Outline} (hmore : o.pos < n)
    (hmain : isMain (o.item reportDesc) = true) :
    o.next reportDesc n = { o with pos := o.after reportDesc }.mainItem (o.tag reportDesc) := by
  unfold Outline.next
  rw [if_pos hmore]
  dsimp only
  rw [if_pos hmain]

theorem next_found {reportDesc : Nat → UInt8} {n : Nat} {o : Outline} (hmain : ¬isMain (o.item reportDesc) = true) :
    (o.next reportDesc n).found = o.found := by
  have hglobal (o : Outline) (tag value : Nat) : (o.globalItem tag value).found = o.found := by
    unfold Outline.globalItem
    split_ifs <;> rfl
  unfold Outline.next
  dsimp only
  rw [if_neg hmain]
  split_ifs
  · rfl
  · rfl
  · rfl
  · exact hglobal ..
  · rfl

theorem le_next_found (reportDesc : Nat → UInt8) (n : Nat) (o : Outline) : o.found ≤ (o.next reportDesc n).found := by
  by_cases hmain : isMain (o.item reportDesc) = true
  · by_cases hmore : o.pos < n
    · rw [next_of_main hmore hmain]
      exact Nat.le_add_right ..
    · unfold Outline.next
      rw [if_neg hmore]
  · exact Nat.le_of_eq (next_found hmain).symm

theorem pos_of_next {reportDesc : Nat → UInt8} {n : Nat} {o : Outline} (h : (o.next reportDesc n).pos < n) : o.pos < n := by
  by_contra hend
  unfold Outline.next at h
  rw [if_neg hend] at h
  exact hend h

variable {reportDesc : Nat → UInt8} {n : Nat} {room : Nat → Prop}

/-- Wherever the parser gets, it has the tables of the outline, and all items before fit. -/
theorem Reached.standing {k nitems : Nat} {p : HIDParser} (h : Reached reportDesc n room k p nitems) :
    ∃ j, Standing reportDesc n p (outline reportDesc n k) j ∧
      nitems = (outline reportDesc n k).found + objects ((outline reportDesc n k).usages.take j) ∧
      ∀ k' < k, (outline reportDesc n k').Fits reportDesc n := by
  induction h with
  | start => exact ⟨0, Standing.start reportDesc n, rfl, fun k' hk' => absurd hk' (Nat.not_lt_zero k')⟩
  | step hp hroom h ih =>
    rename_i k nitems p p' r
    obtain ⟨j, hs, hitems, hbefore⟩ := ih
    obtain ⟨hmore, hfits, hstep⟩ := hs.step h
    have hthrough : ∀ k' < k + 1, (outline reportDesc n k').Fits reportDesc n := by
      intro k' hk'
      rcases Nat.lt_succ_iff_lt_or_eq.1 hk' with hk' | rfl
      · exact hbefore k' hk'
      · exact hfits
    cases hstep with
    | passed hmain hcount hj hs' =>
      rw [if_pos hcount]
      refine ⟨0, hs', ?_, hthrough⟩
      have hfound := next_found (n := n) (Bool.eq_false_iff.1 hmain)
      rw [outline, hfound, hitems, hj]
      rfl
    | made hmain hj hcount hand husage hmade hs' =>
      rename_i o' data found
      have hfound : foundOf (some (data, found)) =
          if ((outline reportDesc n k).usages.drop j).headD 0 ≠ 0 then 1 else 0 := by
        rw [← husage]
        exact hmade.found
      rw [hfound, hitems, Nat.add_assoc, ← objects_take_succ]
      by_cases hlast : p'.count = 0
      · rw [if_pos hlast] at hs' ⊢
        rw [if_pos hlast] at hs'
        refine ⟨0, hs', ?_, hthrough⟩
        have hdone : j + 1 = (outline reportDesc n k).number := by omega
        rw [outline, next_of_main hmore hmain, hdone]
        rfl
      · rw [if_neg hlast] at hs' ⊢
        rw [if_neg hlast] at hs'
        exact ⟨j + 1, hs', rfl, hbefore⟩

/-- The parser can go on with an item that fits. -/
theorem Standing.total {j : Nat} {p : HIDParser} {o : Outline} (hs : Standing reportDesc n p o j) (hmore : p.pos < n)
    (hfits : o.Fits reportDesc n) : ∃ p' r, Iteration reportDesc n p p' r := by
  have hfield {q : HIDParser} {o' : Outline} (hq : fetch reportDesc p = q) (hmain : isMain (o.item reportDesc) = true)
      (hand : InHand reportDesc q o) (ha : Agrees q o') (hbounds : ∀ a ∈ accesses reportDesc p, a.InRange n)
      (hnodes : o'.nodes.length < pathSize) (husages : o'.usages.length < usageTabSize)
      (hreports : (o'.reportID, o.tag reportDesc) ∈ o'.reports ∨ o'.reports.length < maxReport) :
      ∃ p' r, Iteration reportDesc n p p' r := by
    have htag : q.item &&& itemMask = o.tag reportDesc := by rw [hand.item]; rfl
    rw [← htag] at hreports
    obtain ⟨p', data, found, hresult⟩ := mainItem_total ha hnodes husages hreports
    refine ⟨p', some (data, found), hmore, hbounds, ?_⟩
    rw [hq, hidItem, if_pos (by rw [hand.item]; exact hmain)]
    exact hresult
  cases hs with
  | before hcount hpos ha =>
    have hbounds := (before_bounds_iff hcount hpos ha (hpos ▸ hmore)).2 hfits
    obtain ⟨hand, ha'⟩ := inHand_nextItem reportDesc hpos ha
    have hq : fetch reportDesc p = nextItem reportDesc p := if_pos hcount
    by_cases hmain : isMain (o.item reportDesc) = true
    · obtain ⟨hnodes, husages, hreports⟩ := hfits.main hmain
      exact hfield hq hmain hand ha' hbounds hnodes husages hreports
    · obtain ⟨p', hresult, -⟩ := other_agrees hand ha' (hpos ▸ hmore) hfits hmain
      rw [← hq] at hresult
      exact ⟨p', none, hmore, hbounds, hresult⟩
  | within hfirst hj hcount hmain hmore' hfits' hand ha =>
    have hbusy : p.count ≠ 0 := by omega
    obtain ⟨hnodes, husages, hreports⟩ := hfits.main hmain
    refine hfield (if_neg hbusy) hmain hand ha (within_bounds hbusy hmain hfits hand ha) hnodes ?_ (room_addReport hreports)
    dsimp only
    rw [List.length_drop]
    omega

/-- Between two items, the parser has found what the outline says. -/
theorem Reached.idle {k nitems : Nat} {p : HIDParser} (h : Reached reportDesc n room k p nitems) (hcount : p.count = 0) :
    p.pos = (outline reportDesc n k).pos ∧ Agrees p (outline reportDesc n k) ∧ nitems = (outline reportDesc n k).found := by
  obtain ⟨j, hs, hitems, -⟩ := h.standing
  cases hs with
  | before _ hpos ha => exact ⟨hpos, ha, hitems⟩
  | within _ hj hbusy => exact absurd (hbusy.symm.trans hcount) (by omega)

theorem Reached.nitems_le {k nitems : Nat} {p : HIDParser} (h : Reached reportDesc n room k p nitems)
    (hmore : (outline reportDesc n k).pos < n) : nitems ≤ (outline reportDesc n (k + 1)).found := by
  obtain ⟨j, hs, rfl, -⟩ := h.standing
  cases hs with
  | before => exact le_next_found reportDesc n (outline reportDesc n k)
  | within _ hj _ hmain =>
    have hfirst := List.take_prefix_take_left (l := (outline reportDesc n k).usages) (Nat.le_of_lt hj)
    rw [outline, next_of_main hmore hmain]
    exact Nat.add_le_add_left (hfirst.sublist.filter _).length_le _

/-- From within an item, the parser gets to the next one when there is one. -/
theorem reach_next {k : Nat} (hroom : ∀ m ≤ (outline reportDesc n (k + 1)).found, room m)
    (hfits : (outline reportDesc n k).Fits reportDesc n) (hnext : (outline reportDesc n (k + 1)).pos < n) (left : Nat)
    {j nitems : Nat} {p : HIDParser} (hleft : (outline reportDesc n k).number - j ≤ left)
    (hp : Reached reportDesc n room k p nitems) (hs : Standing reportDesc n p (outline reportDesc n k) j) :
    ∃ p' nitems', Reached reportDesc n room (k + 1) p' nitems' ∧ p'.count = 0 := by
  have hmore : (outline reportDesc n k).pos < n := pos_of_next hnext
  induction left generalizing j nitems p with
  | zero =>
    have hj := hs.number_pos
    omega
  | succ left ih =>
    have hpos : p.pos < n := by
      cases hs with
      | before _ hpos => exact hpos ▸ hmore
      | within _ _ _ hmain _ _ hand =>
        rw [hand.pos]
        rw [outline, next_of_main hmore hmain] at hnext
        exact hnext
    obtain ⟨p', r, h⟩ := hs.total hpos hfits
    have hp' := hp.step (hroom _ (hp.nitems_le hmore)) h
    by_cases hcount : p'.count = 0
    · rw [if_pos hcount] at hp'
      exact ⟨p', _, hp', hcount⟩
    · rw [if_neg hcount] at hp'
      obtain ⟨-, -, hstep⟩ := hs.step h
      cases hstep with
      | passed _ hzero => exact absurd hzero hcount
      | made _ hj _ _ _ _ hs' =>
        rw [if_neg hcount, if_neg hcount] at hs'
        exact ih (by omega) hp' hs'

/-- Every item is reached when all items before fit. -/
theorem reach (room : Nat → Prop) {k : Nat} (hroom : ∀ m ≤ (outline reportDesc n k).found, room m)
    (hfits : ∀ k' < k, (outline reportDesc n k').Fits reportDesc n) (hmore : (outline reportDesc n k).pos < n) :
    ∃ p, Reached reportDesc n room k p (outline reportDesc n k).found ∧ p.count = 0 := by
  induction k with
  | zero => exact ⟨.init, .start, rfl⟩
  | succ k ih =>
    have hle : (outline reportDesc n k).found ≤ (outline reportDesc n (k + 1)).found :=
      le_next_found reportDesc n (outline reportDesc n k)
    obtain ⟨p, hp, hcount⟩ := ih (fun m hm => hroom m (hm.trans hle)) (fun k' hk' => hfits k' (Nat.lt_succ_of_lt hk'))
      (pos_of_next hmore)
    obtain ⟨hpos, ha, -⟩ := hp.idle hcount
    obtain ⟨p', nitems, hp', hcount'⟩ := reach_next hroom (hfits k (Nat.lt_succ_self k)) hmore _ (Nat.le_refl _) hp
      (.before hcount hpos ha)
    obtain ⟨-, -, rfl⟩ := hp'.idle hcount'
    exact ⟨p', hp', hcount'⟩

/-! ### `Parse_ReportDesc` -/

/-- What `Parse_ReportDesc` touches in a round of `HIDParse`: a field is kept in the item `nitems`, and may raise the length
of its report. -/
def parseAccesses (reportDesc : Nat → UInt8) (p : HIDParser) (nitems : Nat) : List Touch :=
  accesses reportDesc p ++ if isMain (fetch reportDesc p).item then [.item nitems, .replen p.data.reportID] else []

/-- Nothing that `Parse_ReportDesc` touches is out of range. -/
def InBounds (reportDesc : Nat → UInt8) (n : Nat) : Prop :=
  ∀ k p nitems, Reached reportDesc n (fun nitems => nitems < maxReport) k p nitems → nitems < maxReport → p.pos < n →
    ∀ a ∈ parseAccesses reportDesc p nitems, a.InRange n

/-- `Parse_ReportDesc` stays in its tables and in the descriptor exactly when each item up to the last of `MAX_REPORT`
objects lies within the descriptor and fits into the tables. -/
theorem in_bounds_iff (reportDesc : Nat → UInt8) (n : Nat) : InBounds reportDesc n ↔
    ∀ k, (outline reportDesc n k).pos < n → (outline reportDesc n k).found < maxReport →
      (outline reportDesc n k).Fits reportDesc n := by
  constructor
  · intro h k
    induction k using Nat.strongRecOn with
    | ind k ih =>
      intro hmore hfound
      -- the items before are below the same limits
      have hbelow : ∀ k' ≤ k, (outline reportDesc n k').pos < n ∧ (outline reportDesc n k').found < maxReport := by
        intro k' hk'
        induction hk' using Nat.decreasingInduction with
        | self => exact ⟨hmore, hfound⟩
        | of_succ k' _ hnext => exact ⟨pos_of_next hnext.1, Nat.lt_of_le_of_lt (le_next_found ..) hnext.2⟩
      obtain ⟨p, hp, hcount⟩ := reach (fun nitems => nitems < maxReport)
        (fun m hm => Nat.lt_of_le_of_lt hm hfound)
        (fun k' hk' => ih k' hk' (hbelow k' (Nat.le_of_lt hk')).1 (hbelow k' (Nat.le_of_lt hk')).2) hmore
      obtain ⟨hpos, ha, -⟩ := hp.idle hcount
      exact (before_bounds_iff hcount hpos ha hmore).1 fun a hin =>
        h k p _ hp hfound (hpos ▸ hmore) a (List.mem_append_left _ hin)
  · intro h k p nitems hp hroom hmore a hin
    obtain ⟨j, hs, hitems, -⟩ := hp.standing
    have hbounds : (∀ a ∈ accesses reportDesc p, a.InRange n) ∧ p.data.reportID < 256 := by
      cases hs with
      | before hcount hpos ha =>
        have hfits := h k (hpos ▸ hmore) (Nat.lt_of_le_of_lt (Nat.le_add_right ..) (hitems ▸ hroom))
        exact ⟨(before_bounds_iff hcount hpos ha (hpos ▸ hmore)).2 hfits, ha.reportID ▸ ha.small⟩
      | within hfirst hj hcount hmain hmore' hfits hand ha =>
        exact ⟨within_bounds (by omega) hmain hfits hand ha, ha.reportID ▸ ha.small⟩
    rcases List.mem_append.1 hin with hin | hin
    · exact hbounds.1 a hin
    · split_ifs at hin
      · simp only [List.mem_cons, List.not_mem_nil, or_false] at hin
        rcases hin with rfl | rfl
        · exact hroom
        · exact hbounds.2
      · exact absurd hin List.not_mem_nil

/-- An End Collection without a collection: the size of the path drops below 0. -/
theorem end_collection_out_of_bounds : ¬InBounds (memory [0xC0]) 1 := by
  intro h
  have hshrink : Touch.shrink 0 ∈ parseAccesses (memory [0xC0]) .init 0 := by decide
  exact Nat.lt_irrefl 0 (h 0 .init 0 .start (by decide) (by decide) _ hshrink)

end Hid

end Nut
