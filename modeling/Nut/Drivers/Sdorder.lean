import Nut.Lib.Parts
import Nut.Drivers.Upsdrvctl

/-!
# `upsdrvctl.c`: the settings of a section in any order

The lines behind a header can stand in any order.  What a section has behind its headers are its `parts`, and from these come
the values that its `sdorder` can have in the table (`outcomes`) and the settings that can come behind its first one
(`behind`).  With them it is said of each section, and of each two, what the order of a shutdown needs (`Placed`).
-/

namespace Nut

open Upsconf Buckets Parts

namespace Upsdrvctl

/-- The settings behind each header, after those before the first header. -/
def blocksFrom (upsname : Option CStr) : List Line → List (List Setting)
  | [] => [[]]
  | .header n :: lines => [] :: blocksFrom (some n) lines
  | .setting var val :: lines => (blocksFrom upsname lines).modifyHead (⟨upsname, var, val⟩ :: ·)
  | .other :: lines => blocksFrom upsname lines

def blocks (lines : List (List CStr)) : List (List Setting) := blocksFrom none (lines.map lineOf)

def inSection (n : CStr) (b : List Setting) : Bool := b.any fun c => c.upsname = some n

/-- The settings of a section, header by header. -/
def parts (n : CStr) (lines : List (List CStr)) : List (List Setting) := (blocks lines).filter (inSection n)

/-- The value that a setting gives the `sdorder`. -/
def sdorderOf (c : Setting) : Option Int := if c.var = "sdorder".toList then c.val.map strtol else none

/-- What each section has to meet, and each two sections in the order of their first settings. -/
structure Placed (lines : List (List CStr)) : Prop where
  unnamed : ∀ c ∈ settings lines, c.upsname = none → c.val = none →
    c.var ≠ "maxstartdelay".toList ∧ c.var ≠ "driverpath".toList
  named : ∀ c ∈ settings lines, c.upsname ≠ none → c.val = none → c.var ≠ "driver".toList ∧ c.var ≠ "port".toList
  flags : ∀ n ∈ headers lines, ∀ c ∈ behind (parts n lines), c.val = none →
    c.var ≠ "maxstartdelay".toList ∧ c.var ≠ "sdorder".toList
  counted : ∀ n ∈ headers lines, ∀ c ∈ behind (parts n lines), sdorderOf c ≠ some (2 ^ 31 - 1)
  settled : ∀ n ∈ headers lines, parts n lines ≠ []
  signs : ∀ n ∈ headers lines, ∀ v ∈ outcomes sdorderOf 0 (parts n lines), 0 ≤ v ↔ 0 ≤ written (settings lines) n
  order : (sections (settings lines)).Pairwise fun n m => 0 ≤ written (settings lines) n → 0 ≤ written (settings lines) m →
    (written (settings lines) n ≤ written (settings lines) m ∧
      ∀ v ∈ outcomes sdorderOf 0 (parts n lines), ∀ w ∈ outcomes sdorderOf 0 (parts m lines), v ≤ w) ∨
    (written (settings lines) m ≤ written (settings lines) n ∧
      ∀ v ∈ outcomes sdorderOf 0 (parts n lines), ∀ w ∈ outcomes sdorderOf 0 (parts m lines), w < v)

section Blocks

variable {lines lines' : List (List CStr)} {n : CStr}

theorem inSection_perm (n : CStr) (b b' : List Setting) (h : b.Perm b') : inSection n b = inSection n b' := h.any_eq

/-- The settings of a block have one section. -/
theorem blocksFrom_uniform (upsname : Option CStr) (ls : List Line) :
    ∃ b bs, blocksFrom upsname ls = b :: bs ∧ (∀ c ∈ b, c.upsname = upsname) ∧
      ∀ b' ∈ bs, ∃ upsname', ∀ c ∈ b', c.upsname = upsname' := by
  induction ls generalizing upsname with
  | nil => exact ⟨[], [], rfl, fun c hc => absurd hc List.not_mem_nil, fun b hb => absurd hb List.not_mem_nil⟩
  | cons line ls ih =>
    cases line with
    | header n =>
      obtain ⟨b, bs, hblocks, hb, hbs⟩ := ih (some n)
      refine ⟨[], b :: bs, by rw [blocksFrom, hblocks], fun c hc => absurd hc List.not_mem_nil, fun b' hb' => ?_⟩
      rcases List.mem_cons.1 hb' with rfl | hb'
      · exact ⟨some n, hb⟩
      · exact hbs b' hb'
    | setting var val =>
      obtain ⟨b, bs, hblocks, hb, hbs⟩ := ih upsname
      refine ⟨⟨upsname, var, val⟩ :: b, bs, by rw [blocksFrom, hblocks]; rfl, fun c hc => ?_, hbs⟩
      rcases List.mem_cons.1 hc with rfl | hc
      · rfl
      · exact hb c hc
    | other => exact ih upsname

theorem exists_of_mem_blocks {b : List Setting} (h : b ∈ blocks lines) : ∃ upsname, ∀ c ∈ b, c.upsname = upsname := by
  obtain ⟨b₀, bs, hblocks, hb₀, hbs⟩ := blocksFrom_uniform none (lines.map lineOf)
  rw [blocks, hblocks] at h
  rcases List.mem_cons.1 h with rfl | h
  · exact ⟨none, hb₀⟩
  · exact hbs b h

theorem flatten_blocksFrom (upsname : Option CStr) (ls : List Line) :
    (blocksFrom upsname ls).flatten = settingsFrom upsname ls := by
  induction ls generalizing upsname with
  | nil => rfl
  | cons line ls ih =>
    cases line with
    | header n => exact ih (some n)
    | setting var val =>
      obtain ⟨b, bs, hblocks, -, -⟩ := blocksFrom_uniform upsname ls
      have hrest := ih upsname
      rw [hblocks] at hrest
      rw [blocksFrom, hblocks, settingsFrom, ← hrest]
      rfl
    | other => exact ih upsname

/-- The parts of a section are its settings. -/
theorem flatten_parts (n : CStr) (lines : List (List CStr)) : (parts n lines).flatten = ofSection n (settings lines) := by
  have hall : ∀ bs : List (List Setting), (∀ b ∈ bs, ∃ upsname, ∀ c ∈ b, c.upsname = upsname) →
      (bs.filter (inSection n)).flatten = ofSection n bs.flatten := by
    intro bs
    induction bs with
    | nil => exact fun _ => rfl
    | cons b bs ih =>
      intro huniform
      obtain ⟨upsname, hb⟩ := huniform b List.mem_cons_self
      have hrest := ih fun b' hb' => huniform b' (List.mem_cons_of_mem _ hb')
      rw [List.flatten_cons, ofSection, List.filter_append, ← ofSection, ← ofSection, ← hrest]
      by_cases hin : inSection n b = true
      · obtain ⟨c, hc, hcn⟩ := List.any_eq_true.1 hin
        have hname : upsname = some n := (hb c hc).symm.trans (of_decide_eq_true hcn)
        have hself : ofSection n b = b := List.filter_eq_self.2 fun c hc => decide_eq_true ((hb c hc).trans hname)
        rw [List.filter_cons_of_pos hin, hself, List.flatten_cons]
      · have hnil : ofSection n b = [] :=
          List.filter_eq_nil_iff.2 fun c hc hcn => hin (List.any_eq_true.2 ⟨c, hc, hcn⟩)
        rw [List.filter_cons_of_neg hin, hnil, List.nil_append]
  have hflat : (blocks lines).flatten = settings lines := flatten_blocksFrom none (lines.map lineOf)
  rw [parts, hall (blocks lines) fun b => exists_of_mem_blocks, hflat]

theorem ne_nil_of_mem_parts {b : List Setting} (h : b ∈ parts n lines) : b ≠ [] := by
  rintro rfl
  exact Bool.false_ne_true (List.mem_filter.1 h).2

/-- A block is in one section. -/
theorem inSection_apart {m : CStr} (hne : m ≠ n) {b : List Setting} (hb : b ∈ blocks lines) (h : inSection m b = true) :
    inSection n b = false := by
  obtain ⟨upsname, hall⟩ := exists_of_mem_blocks hb
  obtain ⟨c, hc, hcm⟩ := List.any_eq_true.1 h
  by_contra hn
  obtain ⟨d, hd, hdn⟩ := List.any_eq_true.1 (Bool.not_eq_false _ ▸ hn)
  have hname : some m = some n :=
    (of_decide_eq_true hcm).symm.trans ((hall c hc).trans ((hall d hd).symm.trans (of_decide_eq_true hdn)))
  exact hne (Option.some.inj hname)

end Blocks

section Orders

variable {lines lines' : List (List CStr)} {n m : CStr}

theorem rearranged_modifyHead {bs bs' : List (List Setting)} (h : Rearranged bs bs') (c : Setting) :
    Rearranged (bs.modifyHead (c :: ·)) (bs'.modifyHead (c :: ·)) := by
  cases h with
  | nil => exact .nil
  | cons hb h => exact .cons (hb.cons c) h

theorem rearranged_blocks (h : Reordered lines lines') (upsname : Option CStr) :
    Rearranged (blocksFrom upsname (lines.map lineOf)) (blocksFrom upsname (lines'.map lineOf)) := by
  induction h generalizing upsname with
  | nil => exact Rearranged.refl _
  | cons args _ ih =>
    rw [List.map_cons, List.map_cons]
    cases lineOf args with
    | header n => exact .cons (.refl _) (ih (some n))
    | setting var val => exact rearranged_modifyHead (ih upsname) _
    | other => exact ih upsname
  | @swap args args' lines hargs hargs' =>
    rw [List.map_cons, List.map_cons, List.map_cons, List.map_cons]
    cases h : lineOf args with
    | header n => exact absurd h (hargs n)
    | setting var val =>
      cases h' : lineOf args' with
      | header n => exact absurd h' (hargs' n)
      | setting var' val' =>
        obtain ⟨b, bs, hblocks, -, -⟩ := blocksFrom_uniform upsname (lines.map lineOf)
        simp only [blocksFrom, hblocks, List.modifyHead_cons]
        exact .cons (.swap _ _ _) (Rearranged.refl bs)
      | other => exact Rearranged.refl _
    | other =>
      cases h' : lineOf args' with
      | header n => exact absurd h' (hargs' n)
      | setting var' val' => exact Rearranged.refl _
      | other => exact Rearranged.refl _
  | trans _ _ ih ih' => exact (ih upsname).trans (ih' upsname)

theorem parts_reordered (h : Reordered lines lines') (n : CStr) : Rearranged (parts n lines) (parts n lines') :=
  (rearranged_blocks h none).filter (inSection_perm n)

theorem Reordered.refl (lines : List (List CStr)) : Reordered lines lines := by
  induction lines with
  | nil => exact .nil
  | cons args lines ih => exact .cons args ih

theorem Reordered.append_left (body : List (List CStr)) (h : Reordered lines lines') :
    Reordered (body ++ lines) (body ++ lines') := by
  induction body with
  | nil => exact h
  | cons args body ih => exact .cons args ih

/-- Lines without a header can stand in any order. -/
theorem Reordered.of_perm {body body' : List (List CStr)} (h : body.Perm body')
    (hbody : ∀ args ∈ body, ∀ n, lineOf args ≠ .header n) (rest : List (List CStr)) :
    Reordered (body ++ rest) (body' ++ rest) := by
  induction h with
  | nil => exact .refl rest
  | cons args _ ih => exact .cons args (ih fun args hargs => hbody args (List.mem_cons_of_mem _ hargs))
  | swap args args' body =>
    exact .swap _ (hbody args' List.mem_cons_self) (hbody args (List.mem_cons_of_mem _ List.mem_cons_self))
  | trans h _ ih ih' => exact (ih hbody).trans (ih' fun args hargs => hbody args (h.mem_iff.2 hargs))

/-- The setting of a line that is no header. -/
def settingOf (upsname : Option CStr) (args : List CStr) : Option Setting :=
  match lineOf args with
  | .setting var val => some ⟨upsname, var, val⟩
  | _ => none

/-- Lines without a header add to the first block. -/
theorem blocksFrom_append {body : List (List CStr)} (hbody : ∀ args ∈ body, ∀ n, lineOf args ≠ .header n)
    (upsname : Option CStr) (ls : List Line) :
    blocksFrom upsname (body.map lineOf ++ ls) =
      (blocksFrom upsname ls).modifyHead (body.filterMap (settingOf upsname) ++ ·) := by
  induction body with
  | nil =>
    obtain ⟨b, bs, hblocks, -, -⟩ := blocksFrom_uniform upsname ls
    change blocksFrom upsname ls = _
    rw [hblocks]
    rfl
  | cons args body ih =>
    have hrest := ih fun args hargs => hbody args (List.mem_cons_of_mem _ hargs)
    obtain ⟨b, bs, hblocks, -, -⟩ := blocksFrom_uniform upsname ls
    rw [hblocks, List.modifyHead_cons] at hrest ⊢
    rw [List.map_cons, List.cons_append, List.filterMap_cons, settingOf]
    cases h : lineOf args with
    | header n => exact absurd h (hbody args List.mem_cons_self n)
    | setting var val =>
      rw [blocksFrom, hrest]
      rfl
    | other => exact hrest

/-- A file has no header or a first one. -/
theorem exists_first_header (lines : List (List CStr)) :
    (∀ args ∈ lines, ∀ n, lineOf args ≠ .header n) ∨ ∃ body args rest n, lines = body ++ args :: rest ∧
      (∀ args ∈ body, ∀ n, lineOf args ≠ .header n) ∧ lineOf args = .header n := by
  induction lines with
  | nil => exact Or.inl fun args h => absurd h List.not_mem_nil
  | cons args lines ih =>
    by_cases hargs : ∃ n, lineOf args = .header n
    · obtain ⟨n, hn⟩ := hargs
      exact Or.inr ⟨[], args, lines, n, rfl, fun args h => absurd h List.not_mem_nil, hn⟩
    · rw [not_exists] at hargs
      rcases ih with hall | ⟨body, args', rest, n, rfl, hbody, hn⟩
      · exact Or.inl (List.forall_mem_cons.2 ⟨hargs, hall⟩)
      · exact Or.inr ⟨args :: body, args', rest, n, rfl, List.forall_mem_cons.2 ⟨hargs, hbody⟩, hn⟩

/-- Every order of the settings in the blocks is one of the lines. -/
theorem exists_reordered {bs : List (List Setting)} (upsname : Option CStr)
    (h : Rearranged (blocksFrom upsname (lines.map lineOf)) bs) :
    ∃ lines', Reordered lines lines' ∧ blocksFrom upsname (lines'.map lineOf) = bs := by
  induction hlength : lines.length using Nat.strong_induction_on generalizing lines upsname bs with
  | _ k ih =>
    rcases exists_first_header lines with hall | ⟨body, args, rest, n, rfl, hbody, hn⟩
    · have hblocks := blocksFrom_append hall upsname []
      rw [List.append_nil] at hblocks
      rw [hblocks] at h
      cases h with
      | @cons _ b _ _ hb h =>
        cases h
        dsimp only at hb
        rw [List.append_nil] at hb
        obtain ⟨lines', hperm, hlines'⟩ := exists_perm_filterMap hb lines rfl
        have hall' : ∀ args ∈ lines', ∀ n, lineOf args ≠ .header n := fun args hargs => hall args (hperm.mem_iff.2 hargs)
        have hreordered := Reordered.of_perm hperm hall []
        rw [List.append_nil, List.append_nil] at hreordered
        refine ⟨lines', hreordered, ?_⟩
        have hblocks' := blocksFrom_append hall' upsname []
        rw [List.append_nil, hlines'] at hblocks'
        rw [hblocks']
        exact congrArg (fun b => [b]) (List.append_nil b)
    · have hcut : ∀ {body rest : List (List CStr)}, (∀ args ∈ body, ∀ n, lineOf args ≠ .header n) →
          blocksFrom upsname ((body ++ args :: rest).map lineOf) =
            body.filterMap (settingOf upsname) :: blocksFrom (some n) (rest.map lineOf) := by
        intro body rest hbody
        rw [List.map_append, List.map_cons, hn, blocksFrom_append hbody, blocksFrom]
        exact congrArg (· :: _) (List.append_nil _)
      rw [hcut hbody] at h
      cases h with
      | @cons _ b _ bs hb h =>
        obtain ⟨rest', hrest, hblocks⟩ := ih rest.length (by rw [← hlength]; simp; omega) (some n) h rfl
        obtain ⟨body', hperm, hbody'⟩ := exists_perm_filterMap hb body rfl
        have hfree : ∀ args ∈ body', ∀ n, lineOf args ≠ .header n := fun args hargs => hbody args (hperm.mem_iff.2 hargs)
        refine ⟨body' ++ args :: rest', ?_, ?_⟩
        · exact (Reordered.of_perm hperm hbody _).trans (Reordered.append_left body' (.cons args hrest))
        · rw [hcut hfree, hbody', hblocks]

/-- The settings of one section can be reordered and those of the others left alone. -/
theorem exists_parts {ps : List (List Setting)} (h : Rearranged (parts n lines) ps) :
    ∃ lines', Reordered lines lines' ∧ parts n lines' = ps ∧ ∀ m, m ≠ n → parts m lines' = parts m lines := by
  obtain ⟨bs, hall, hother, hsection⟩ := exists_rearranged h
  obtain ⟨lines', hreordered, hblocks⟩ := exists_reordered none hall
  refine ⟨lines', hreordered, ?_, fun m hm => ?_⟩
  · rw [parts, blocks, hblocks]
    exact hsection (inSection_perm n)
  · rw [parts, blocks, hblocks]
    exact hother (inSection m) (inSection_perm m) fun b hb => inSection_apart hm hb

end Orders

section Values

variable {lines lines' : List (List CStr)} {n m : CStr}

theorem kept_eq_lastBehind (lines : List (List CStr)) (n : CStr) :
    kept (settings lines) n = lastBehind sdorderOf 0 (parts n lines).flatten := by
  have hvalues : ∀ cs : List Setting, (valuesOf "sdorder".toList cs).map strtol = cs.filterMap sdorderOf := by
    intro cs
    unfold valuesOf sdorderOf
    generalize "sdorder".toList = sd
    rw [List.map_filterMap, List.filterMap_filter]
    congr 1
    funext c
    by_cases hvar : c.var = sd <;> simp [hvar]
  rw [kept, lastBehind, flatten_parts, ← hvalues, List.getLast?_map]

/-- The value that is taken of a section is one of its outcomes. -/
theorem kept_mem_outcomes (h : Reordered lines lines') (n : CStr) :
    kept (settings lines') n ∈ outcomes sdorderOf 0 (parts n lines) := by
  rw [mem_outcomes fun p => ne_nil_of_mem_parts, kept_eq_lastBehind]
  exact ⟨_, parts_reordered h n, rfl⟩

/-- Every outcome is the value that is taken in some order, and the others are taken as before. -/
theorem exists_kept {v : Int} (h : v ∈ outcomes sdorderOf 0 (parts n lines)) :
    ∃ lines', Reordered lines lines' ∧ kept (settings lines') n = v ∧ ∀ m, m ≠ n → parts m lines' = parts m lines := by
  obtain ⟨ps, hps, hlast⟩ := (mem_outcomes fun p => ne_nil_of_mem_parts).1 h
  obtain ⟨lines', hreordered, hparts, hother⟩ := exists_parts hps
  exact ⟨lines', hreordered, by rw [kept_eq_lastBehind, hparts]; exact hlast, hother⟩

theorem exists_kept_two {v w : Int} (hne : n ≠ m) (h : v ∈ outcomes sdorderOf 0 (parts n lines))
    (h' : w ∈ outcomes sdorderOf 0 (parts m lines)) :
    ∃ lines', Reordered lines lines' ∧ kept (settings lines') n = v ∧ kept (settings lines') m = w := by
  obtain ⟨lines', hreordered, hv, hother⟩ := exists_kept h
  rw [← hother m hne.symm] at h'
  obtain ⟨lines'', hreordered', hw, hother'⟩ := exists_kept h'
  refine ⟨lines'', hreordered.trans hreordered', ?_, hw⟩
  rw [kept_eq_lastBehind, hother' n hne, ← kept_eq_lastBehind, hv]

/-- What can come behind the first setting of a section does so in some order. -/
theorem mem_behind_parts {c : Setting} :
    c ∈ behind (parts n lines) ↔ ∃ lines', Reordered lines lines' ∧ c ∈ (ofSection n (settings lines')).tail := by
  rw [mem_behind fun p => ne_nil_of_mem_parts]
  constructor
  · rintro ⟨ps, hps, hc⟩
    obtain ⟨lines', hreordered, hparts, -⟩ := exists_parts hps
    exact ⟨lines', hreordered, by rwa [← flatten_parts, hparts]⟩
  · rintro ⟨lines', hreordered, hc⟩
    exact ⟨_, parts_reordered hreordered n, by rwa [flatten_parts]⟩

theorem parts_eq_nil : parts n lines = [] ↔ n ∉ sections (settings lines) := by
  rw [← ofSection_eq_nil, ← flatten_parts]
  constructor
  · intro h
    rw [h]
    rfl
  · intro h
    cases hparts : parts n lines with
    | nil => rfl
    | cons p ps =>
      rw [hparts, List.flatten_cons] at h
      exact absurd (List.append_eq_nil_iff.1 h).1 (ne_nil_of_mem_parts (hparts ▸ List.mem_cons_self))

/-- The largest `int` is counted where it comes behind the first setting. -/
theorem counted_iff (cs : List Setting) :
    Counted cs ↔ ∀ n, ∀ c ∈ (ofSection n cs).tail, sdorderOf c ≠ some (2 ^ 31 - 1) := by
  unfold Counted
  refine forall_congr' fun n => ?_
  generalize (ofSection n cs).tail = l
  constructor
  · intro h c hc hval
    unfold sdorderOf at hval
    split at hval
    · rename_i hvar
      obtain ⟨val, hcval, hstrtol⟩ := Option.map_eq_some_iff.1 hval
      exact h val (List.mem_filterMap.2 ⟨c, List.mem_filter.2 ⟨hc, decide_eq_true hvar⟩, hcval⟩) hstrtol
    · cases hval
  · intro h val hval hmax
    obtain ⟨c, hc, hcval⟩ := List.mem_filterMap.1 hval
    obtain ⟨hc, hvar⟩ := List.mem_filter.1 hc
    refine h c hc ?_
    rw [sdorderOf, if_pos (of_decide_eq_true hvar), hcval, ← hmax]
    rfl

end Values

section Stable

variable {lines lines' : List (List CStr)} {n m : CStr} {v w : Int}

/-- Every two outcomes stand as the values that the file itself gives. -/
theorem Stable.alike_outcomes (h : Stable lines) (hsub : [n, m].Sublist (sections (settings lines))) (hne : n ≠ m)
    (hkn : 0 ≤ kept (settings lines) n) (hkm : 0 ≤ kept (settings lines) m) (hv : v ∈ outcomes sdorderOf 0 (parts n lines))
    (hw : w ∈ outcomes sdorderOf 0 (parts m lines)) : kept (settings lines) n ≤ kept (settings lines) m ↔ v ≤ w := by
  obtain ⟨lines', hlines', rfl, rfl⟩ := exists_kept_two hne hv hw
  exact (h.reordered lines' hlines').2.2.alike n m hsub hkn hkm

theorem Stable.readable (h : Stable lines) {c : Setting} (hc : c ∈ behind (parts n lines)) :
    (c.val = none → c.var ≠ "maxstartdelay".toList ∧ c.var ≠ "sdorder".toList) ∧ sdorderOf c ≠ some (2 ^ 31 - 1) := by
  obtain ⟨lines', hlines', hc⟩ := mem_behind_parts.1 hc
  obtain ⟨hflags, hcounted, -⟩ := h.reordered lines' hlines'
  exact ⟨hflags.later n c hc, (counted_iff _).1 hcounted n c hc⟩

theorem Stable.signs (h : Stable lines) (hn : n ∈ sections (settings lines)) (hv : v ∈ outcomes sdorderOf 0 (parts n lines)) :
    0 ≤ v ↔ 0 ≤ written (settings lines) n := by
  obtain ⟨lines', hlines', rfl, -⟩ := exists_kept hv
  exact ((h.reordered lines' hlines').2.2.taken n hn).symm.trans (h.taken n hn).symm

theorem Stable.placed (h : Stable lines) : Placed lines := by
  refine ⟨h.flags.unnamed, h.flags.named, fun n _ c hc => (h.readable hc).1, fun n _ c hc => (h.readable hc).2,
    fun n hn hnil => parts_eq_nil.1 hnil (h.settled n hn), fun n hn v hv => h.signs (h.settled n hn) hv, ?_⟩
  refine List.pairwise_iff_forall_sublist.2 fun {n m} hsub hwn hwm => ?_
  have hn := hsub.subset List.mem_cons_self
  have hm := hsub.subset (List.mem_cons_of_mem _ List.mem_cons_self)
  have hne : n ≠ m := by
    have := (nodup_sections (settings lines)).sublist hsub
    simpa using this
  have hkn := (h.taken n hn).1 hwn
  have hkm := (h.taken m hm).1 hwm
  -- the file itself shows which of the two orders it is
  by_cases hle : kept (settings lines) n ≤ kept (settings lines) m
  · have hearlier : Earlier (kept (settings lines)) (sections (settings lines)) n m := by
      rcases Int.lt_or_eq_of_le hle with hlt | heq
      · exact Or.inl hlt
      · exact Or.inr ⟨heq, hsub⟩
    exact Or.inl ⟨h.sorted n m hn hm hkn hkm hne hearlier, fun v hv w hw => (h.alike_outcomes hsub hne hkn hkm hv hw).1 hle⟩
  · have hearlier : Earlier (kept (settings lines)) (sections (settings lines)) m n := Or.inl (by omega)
    refine Or.inr ⟨h.sorted m n hm hn hkm hkn hne.symm hearlier, fun v hv w hw => ?_⟩
    have := mt (h.alike_outcomes hsub hne hkn hkm hv hw).2 hle
    omega

/-- No order of the settings puts a flag or the largest `int` where it is read. -/
theorem Placed.readable (h : Placed lines) (hlines' : Reordered lines lines') :
    FlagsIgnored (settings lines') ∧ Counted (settings lines') := by
  have hbehind : ∀ n, ∀ c ∈ (ofSection n (settings lines')).tail,
      (c.val = none → c.var ≠ "maxstartdelay".toList ∧ c.var ≠ "sdorder".toList) ∧ sdorderOf c ≠ some (2 ^ 31 - 1) := by
    intro n c hc
    have hmem := mem_behind_parts.2 ⟨lines', hlines', hc⟩
    -- a section without a header has no settings
    by_cases hn : n ∈ headers lines
    · exact ⟨h.flags n hn c hmem, h.counted n hn c hmem⟩
    · rw [parts_eq_nil.2 fun h => hn (headers_of_sections h)] at hmem
      cases hmem
  have hperm := (reordered_settings hlines' none).1
  exact ⟨⟨fun c hc => h.unnamed c (hperm.mem_iff.2 hc), fun c hc => h.named c (hperm.mem_iff.2 hc),
    fun n c hc => (hbehind n c hc).1⟩, (counted_iff _).2 fun n c hc => (hbehind n c hc).2⟩

/-- In every order of the settings the sections that are called are those that are to be. -/
theorem Placed.taken (h : Placed lines) (hlines' : Reordered lines lines') (hn : n ∈ sections (settings lines)) :
    0 ≤ written (settings lines) n ↔ 0 ≤ kept (settings lines') n :=
  (h.signs n (headers_of_sections hn) _ (kept_mem_outcomes hlines' n)).symm

theorem Placed.sorted (h : Placed lines) (hn : n ∈ sections (settings lines)) (hm : m ∈ sections (settings lines))
    (hkn : 0 ≤ kept (settings lines) n) (hkm : 0 ≤ kept (settings lines) m) (hne : n ≠ m)
    (hearlier : Earlier (kept (settings lines)) (sections (settings lines)) n m) :
    written (settings lines) n ≤ written (settings lines) m := by
  have hself := Reordered.refl lines
  have hkept := fun n => kept_mem_outcomes hself n
  have hwn := (h.taken hself hn).2 hkn
  have hwm := (h.taken hself hm).2 hkm
  -- one of the two has its first setting before the other
  rcases sublist_or_swap hn hm hne with hsub | hsub
  · rcases List.pairwise_iff_forall_sublist.1 h.order hsub hwn hwm with ⟨hle, -⟩ | ⟨-, hlt⟩
    · exact hle
    · have := hlt _ (hkept n) _ (hkept m)
      rcases hearlier with hearlier | ⟨hearlier, -⟩ <;> omega
  · rcases List.pairwise_iff_forall_sublist.1 h.order hsub hwm hwn with ⟨-, hle⟩ | ⟨hle, -⟩
    · have := hle _ (hkept m) _ (hkept n)
      rcases hearlier with hearlier | ⟨-, hsub'⟩
      · omega
      · exact absurd hsub (not_sublist_swap (nodup_sections (settings lines)) hsub')
    · exact hle

/-- Two sections stand to each other in every order of the settings as they do in the file. -/
theorem Placed.alike (h : Placed lines) (hlines' : Reordered lines lines')
    (hsub : [n, m].Sublist (sections (settings lines))) (hkn : 0 ≤ kept (settings lines) n)
    (hkm : 0 ≤ kept (settings lines) m) :
    kept (settings lines) n ≤ kept (settings lines) m ↔ kept (settings lines') n ≤ kept (settings lines') m := by
  have hself := Reordered.refl lines
  have hn := hsub.subset List.mem_cons_self
  have hm := hsub.subset (List.mem_cons_of_mem _ List.mem_cons_self)
  have hkept := fun n => kept_mem_outcomes hself n
  have hkept' := fun n => kept_mem_outcomes hlines' n
  rcases List.pairwise_iff_forall_sublist.1 h.order hsub ((h.taken hself hn).2 hkn) ((h.taken hself hm).2 hkm) with ⟨-, hle⟩ | ⟨-, hlt⟩
  · exact iff_of_true (hle _ (hkept n) _ (hkept m)) (hle _ (hkept' n) _ (hkept' m))
  · have h1 := hlt _ (hkept n) _ (hkept m)
    have h2 := hlt _ (hkept' n) _ (hkept' m)
    omega

theorem Placed.stable (h : Placed lines) : Stable lines where
  flags := (h.readable (Reordered.refl lines)).1
  counted := (h.readable (Reordered.refl lines)).2
  settled n hn := not_not.1 fun hnot => h.settled n hn (parts_eq_nil.2 hnot)
  taken _ hn := h.taken (Reordered.refl lines) hn
  sorted _ _ hn hm hkn hkm hne hearlier := h.sorted hn hm hkn hkm hne hearlier
  reordered lines' hlines' := by
    obtain ⟨hflags, hcounted⟩ := h.readable hlines'
    refine ⟨hflags, hcounted, fun n hn => ?_, fun n m hsub hkn hkm => h.alike hlines' hsub hkn hkm⟩
    exact (h.taken (Reordered.refl lines) hn).symm.trans (h.taken hlines' hn)

end Stable

/-- A file keeps its order in all orders of its settings exactly if its sections, each by itself and with each other, are
placed. -/
theorem stable_iff {lines : List (List CStr)} : Stable lines ↔ Placed lines := ⟨Stable.placed, Placed.stable⟩

/-- A shutdown calls the sections as they are written, whatever the order of their settings, exactly if each section and each
two of them are placed. -/
theorem shutdown_order_iff (drvpath : CStr) {lines : List (List CStr)} (hrange : InRange (settings lines)) :
    Law drvpath lines ↔ Placed lines := (law_iff drvpath hrange).trans stable_iff

/-- The first section is called before the second, whether its `sdorder` is lost or not; the second has its `sdorder` behind
a header of its own. -/
theorem shutdown_order_two :
    Law "/bin".toList [["[a]".toList], ["driver".toList, "=".toList, "x".toList], ["sdorder".toList, "=".toList, "2".toList],
      ["[b]".toList], ["port".toList, "=".toList, "y".toList], ["[b]".toList], ["sdorder".toList, "=".toList, "5".toList]] := by
  refine (shutdown_order_iff "/bin".toList ?_).2
    { unnamed := by decide +kernel
      named := by decide +kernel
      flags := by decide +kernel
      counted := by decide +kernel
      settled := by decide +kernel
      signs := by decide +kernel
      order := by decide +kernel }
  unfold InRange
  decide +kernel

/-- The `sdorder` in the first line of a section is lost. -/
theorem first_sdorder_lost :
    ¬ Law "/bin".toList [["[a]".toList], ["sdorder".toList, "=".toList, "1".toList], ["driver".toList, "=".toList, "x".toList],
      ["[b]".toList], ["driver".toList, "=".toList, "x".toList]] := by
  rintro ⟨names, hshutdown, hordered, -⟩
  have hnames : shutdown "/bin".toList [["[a]".toList], ["sdorder".toList, "=".toList, "1".toList],
      ["driver".toList, "=".toList, "x".toList], ["[b]".toList], ["driver".toList, "=".toList, "x".toList]] =
        some ["a".toList, "b".toList] := by decide +kernel
  obtain rfl := Option.some.inj (hnames.symm.trans hshutdown)
  have hsorted := (List.pairwise_cons.1 hordered.sorted).1 "b".toList List.mem_cons_self
  exact absurd hsorted (by decide +kernel)

end Upsdrvctl

end Nut
