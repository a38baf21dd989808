import Mathlib.Data.List.Induction
import Nut.Lib.Buckets
import Nut.Common.Upsconf

/-!
# `upsdrvctl.c`: the order of a shutdown

`do_upsconf_args` makes the entry of a section at its first setting, and of this setting it takes only the driver and the
port.  So an `sdorder` that comes first in its section is lost.

There is no result where a missing value is duplicated or converted, or where the counter of `send_all_drivers` overflows.
-/

namespace Nut

open Upsconf Buckets

namespace Upsdrvctl

/-- `ups_t` -/
structure UpsT where
  upsname : CStr
  driver : Option CStr
  port : Option CStr
  sdorder : Int32
  maxstartdelay : Int32

structure Ctl where
  upstable : List UpsT
  maxsdorder : Int32
  maxstartdelay : Int32
  driverpath : CStr

/-- A setting of a section that has an entry. -/
def setKnown (tmp : UpsT) (var val : CStr) : UpsT :=
  if var = "driver".toList then { tmp with driver := some val }
  else if var = "port".toList then { tmp with port := some val }
  else if var = "maxstartdelay".toList then { tmp with maxstartdelay := atoi val }
  else if var = "sdorder".toList then { tmp with sdorder := atoi val }
  else tmp

/-- The first setting of a section. -/
def setNew (tmp : UpsT) (var val : CStr) : UpsT :=
  if var = "driver".toList then { tmp with driver := some val }
  else if var = "port".toList then { tmp with port := some val }
  else tmp

def newUps (upsname : CStr) : UpsT := ⟨upsname, none, none, 0, -1⟩

def doUpsconfArgs (st : Ctl) (c : Setting) : Option Ctl :=
  match c.upsname, c.val with
  | none, some val =>
    if c.var = "maxstartdelay".toList then some { st with maxstartdelay := atoi val }
    else if c.var = "driverpath".toList then some { st with driverpath := val }
    else some st
  | none, none => if c.var = "maxstartdelay".toList ∨ c.var = "driverpath".toList then none else some st
  | some upsname, val =>
    if st.upstable.any fun tmp => tmp.upsname = upsname then
      match val with
      | some val =>
        some { st with
          upstable := st.upstable.map fun tmp => if tmp.upsname = upsname then setKnown tmp c.var val else tmp
          maxsdorder := if c.var = "sdorder".toList ∧ st.maxsdorder < atoi val then atoi val else st.maxsdorder }
      | none =>
        if c.var = "driver".toList ∨ c.var = "port".toList ∨ c.var = "maxstartdelay".toList ∨ c.var = "sdorder".toList then none
        else some st
    else
      match val with
      | some val => some { st with upstable := st.upstable ++ [setNew (newUps upsname) c.var val] }
      | none =>
        if c.var = "driver".toList ∨ c.var = "port".toList then none
        else some { st with upstable := st.upstable ++ [newUps upsname] }

/-- The names for which `send_all_drivers` calls `shutdown_driver`; without an entry the program ends before. -/
def sendAllDrivers (st : Ctl) : Option (List CStr) :=
  if st.upstable = [] then some []
  else if st.maxsdorder.toInt = 2 ^ 31 - 1 then none
  else some ((List.range (st.maxsdorder.toInt.toNat + 1)).flatMap fun i : Nat =>
    (st.upstable.filter fun ups => ups.sdorder.toInt = (i : Int)).map UpsT.upsname)

/-- `upsdrvctl shutdown`, with the default of `driverpath`. -/
def shutdown (drvpath : CStr) (lines : List (List CStr)) : Option (List CStr) :=
  (readUpsconf doUpsconfArgs ⟨[], 0, 45, drvpath⟩ lines).bind sendAllDrivers

/-! ### The sections of a file -/

/-- The sections with a setting, in the order of their first settings. -/
def sections (cs : List Setting) : List CStr :=
  cs.foldl (fun names c => match c.upsname with
    | some n => if n ∈ names then names else names ++ [n]
    | none => names) []

/-- The settings of a section. -/
def ofSection (n : CStr) (cs : List Setting) : List Setting := cs.filter fun c => c.upsname = some n

/-- The values of a variable in settings. -/
def valuesOf (var : CStr) (cs : List Setting) : List CStr :=
  (cs.filter fun c => c.var = var).filterMap Setting.val

/-- The `sdorder` of a section as it is written, the last one where there are several. -/
def written (cs : List Setting) (n : CStr) : Int := ((valuesOf "sdorder".toList (ofSection n cs)).getLast?.map strtol).getD 0

/-- The `sdorder` of a section without its first setting. -/
def kept (cs : List Setting) (n : CStr) : Int :=
  ((valuesOf "sdorder".toList (ofSection n cs).tail).getLast?.map strtol).getD 0

/-- The sections of a file, also those without a setting. -/
def headers (lines : List (List CStr)) : List CStr :=
  lines.filterMap fun args => match lineOf args with
    | .header n => some n
    | _ => none

/-- The lines of every section in another order. -/
inductive Reordered : List (List CStr) → List (List CStr) → Prop
  | nil : Reordered [] []
  | cons (args : List CStr) {lines lines' : List (List CStr)} : Reordered lines lines' →
      Reordered (args :: lines) (args :: lines')
  | swap {args args' : List CStr} (lines : List (List CStr)) : (∀ n, lineOf args ≠ .header n) →
      (∀ n, lineOf args' ≠ .header n) → Reordered (args :: args' :: lines) (args' :: args :: lines)
  | trans {lines lines' lines'' : List (List CStr)} : Reordered lines lines' → Reordered lines' lines'' →
      Reordered lines lines''

/-- Every section whose `sdorder` is not negative is called once and the others never, in the order of the values. -/
structure Ordered (lines : List (List CStr)) (names : List CStr) : Prop where
  once : ∀ n ∈ headers lines, 0 ≤ written (settings lines) n → names.count n = 1
  never : ∀ n ∈ headers lines, written (settings lines) n < 0 → n ∉ names
  known : ∀ n ∈ names, n ∈ headers lines
  sorted : names.Pairwise fun n m => written (settings lines) n ≤ written (settings lines) m

/-- The shutdown is right, and is the same for every order of the settings inside the sections. -/
def Law (drvpath : CStr) (lines : List (List CStr)) : Prop :=
  ∃ names, shutdown drvpath lines = some names ∧ Ordered lines names ∧
    ∀ lines', Reordered lines lines' → shutdown drvpath lines' = some names

/-- No `sdorder` leaves the range of an `int`. -/
def InRange (cs : List Setting) : Prop :=
  ∀ c ∈ cs, c.var = "sdorder".toList → ∀ val, c.val = some val → -2 ^ 31 ≤ strtol val ∧ strtol val < 2 ^ 31

/-- No flag has the name of a setting that is duplicated or converted. -/
structure FlagsIgnored (cs : List Setting) : Prop where
  unnamed : ∀ c ∈ cs, c.upsname = none → c.val = none → c.var ≠ "maxstartdelay".toList ∧ c.var ≠ "driverpath".toList
  named : ∀ c ∈ cs, c.upsname ≠ none → c.val = none → c.var ≠ "driver".toList ∧ c.var ≠ "port".toList
  later : ∀ n, ∀ c ∈ (ofSection n cs).tail, c.val = none → c.var ≠ "maxstartdelay".toList ∧ c.var ≠ "sdorder".toList

/-- No `sdorder` behind the first setting of its section is the largest `int`. -/
def Counted (cs : List Setting) : Prop :=
  ∀ n, ∀ val ∈ valuesOf "sdorder".toList (ofSection n cs).tail, strtol val ≠ 2 ^ 31 - 1

/-- The values that the table takes of a section. -/
def later (cs : List Setting) (n : CStr) : List CStr := valuesOf "sdorder".toList (ofSection n cs).tail

section Sections

theorem sections_concat (cs : List Setting) (c : Setting) :
    sections (cs ++ [c]) =
      match c.upsname with
      | some n => if n ∈ sections cs then sections cs else sections cs ++ [n]
      | none => sections cs := by
  rw [sections, List.foldl_append]
  rfl

theorem mem_sections {cs : List Setting} {n : CStr} : n ∈ sections cs ↔ ∃ c ∈ cs, c.upsname = some n := by
  induction cs using List.reverseRecOn with
  | nil => simp [sections]
  | append_singleton cs c ih =>
    rw [sections_concat]
    rcases hc : c.upsname with _ | m
    · rw [ih]
      simp [hc]
    · simp only [List.mem_append, List.mem_singleton, or_and_right, exists_or, exists_eq_left, hc, Option.some.injEq, ← ih]
      split
      · rename_i hm
        constructor
        · exact Or.inl
        · rintro (h | rfl)
          · exact h
          · exact hm
      · rw [List.mem_append, List.mem_singleton, eq_comm (a := n)]

theorem nodup_sections (cs : List Setting) : (sections cs).Nodup := by
  induction cs using List.reverseRecOn with
  | nil => exact List.nodup_nil
  | append_singleton cs c ih =>
    rw [sections_concat]
    rcases c.upsname with _ | m
    · exact ih
    · dsimp only
      split
      · exact ih
      · rename_i hm
        exact List.Nodup.append ih (List.nodup_singleton m) (by simpa using hm)

theorem sections_congr {cs cs' : List Setting} (h : cs.map Setting.upsname = cs'.map Setting.upsname) :
    sections cs = sections cs' := by
  have hfold : ∀ (ds : List Setting), sections ds = (ds.map Setting.upsname).foldl (fun names c => match c with
      | some n => if n ∈ names then names else names ++ [n]
      | none => names) [] := fun ds => by
    rw [List.foldl_map]
    rfl
  rw [hfold, hfold, h]

theorem ofSection_eq_nil {cs : List Setting} {n : CStr} : ofSection n cs = [] ↔ n ∉ sections cs := by
  rw [mem_sections, ofSection, List.filter_eq_nil_iff]
  simp

theorem ofSection_concat (cs : List Setting) (c : Setting) (n : CStr) :
    ofSection n (cs ++ [c]) = ofSection n cs ++ if c.upsname = some n then [c] else [] := by
  rw [ofSection, ofSection, List.filter_append]
  by_cases hc : c.upsname = some n <;> simp [hc]

/-- What one more setting adds behind the first one of a section. -/
theorem tail_concat (cs : List Setting) (c : Setting) (n : CStr) :
    (ofSection n (cs ++ [c])).tail = (ofSection n cs).tail ++ if c.upsname = some n ∧ n ∈ sections cs then [c] else [] := by
  rw [ofSection_concat]
  by_cases hc : c.upsname = some n
  · by_cases hn : n ∈ sections cs
    · have hne : ofSection n cs ≠ [] := fun h => ofSection_eq_nil.1 h hn
      rw [if_pos hc, List.tail_append_of_ne_nil hne, if_pos ⟨hc, hn⟩]
    · rw [ofSection_eq_nil.2 hn, if_pos hc, if_neg fun h => hn h.2]
      rfl
  · rw [if_neg hc, if_neg fun h => hc h.1, List.append_nil, List.append_nil]

theorem valuesOf_append (var : CStr) (cs cs' : List Setting) : valuesOf var (cs ++ cs') = valuesOf var cs ++ valuesOf var cs' := by
  rw [valuesOf, List.filter_append, List.filterMap_append, ← valuesOf, ← valuesOf]

theorem valuesOf_singleton (var : CStr) (c : Setting) : valuesOf var [c] = if c.var = var then c.val.toList else [] := by
  by_cases hvar : c.var = var
  · cases hval : c.val <;> simp [valuesOf, hvar, hval]
  · simp [valuesOf, hvar]

/-- What one more setting adds to the values of a section. -/
theorem valuesOf_concat (var : CStr) (cs : List Setting) (c : Setting) (n : CStr) :
    valuesOf var (ofSection n (cs ++ [c])) =
      valuesOf var (ofSection n cs) ++ if c.upsname = some n ∧ c.var = var then c.val.toList else [] := by
  rw [ofSection_concat, valuesOf_append]
  by_cases hn : c.upsname = some n
  · rw [if_pos hn, valuesOf_singleton]
    simp only [hn, true_and]
  · rw [if_neg hn, if_neg fun h => hn h.1]
    rfl

/-- What one more setting adds to the values behind the first setting. -/
theorem valuesOf_tail_concat (var : CStr) (cs : List Setting) (c : Setting) (n : CStr) :
    valuesOf var (ofSection n (cs ++ [c])).tail =
      valuesOf var (ofSection n cs).tail ++
        if c.upsname = some n ∧ n ∈ sections cs ∧ c.var = var then c.val.toList else [] := by
  rw [tail_concat, valuesOf_append]
  by_cases hn : c.upsname = some n ∧ n ∈ sections cs
  · rw [if_pos hn, valuesOf_singleton]
    by_cases hvar : c.var = var
    · rw [if_pos hvar, if_pos ⟨hn.1, hn.2, hvar⟩]
    · rw [if_neg hvar, if_neg fun h => hvar h.2.2]
  · rw [if_neg hn, if_neg fun h => hn ⟨h.1, h.2.1⟩]
    rfl

/-- What one more setting adds to the values that are taken. -/
theorem later_concat (cs : List Setting) (c : Setting) (n : CStr) :
    later (cs ++ [c]) n =
      later cs n ++ if c.upsname = some n ∧ n ∈ sections cs ∧ c.var = "sdorder".toList then c.val.toList else [] :=
  valuesOf_tail_concat "sdorder".toList cs c n

theorem kept_eq (cs : List Setting) (n : CStr) : kept cs n = ((later cs n).getLast?.map strtol).getD 0 := rfl

end Sections

/-! ### The table -/

/-- The table after some settings. -/
structure Tabled (cs : List Setting) (st : Ctl) : Prop where
  names : st.upstable.map UpsT.upsname = sections cs
  orders : ∀ ups ∈ st.upstable, ups.sdorder.toInt = kept cs ups.upsname
  nonneg : 0 ≤ st.maxsdorder.toInt
  bound : ∀ n, ∀ val ∈ later cs n, strtol val ≤ st.maxsdorder.toInt
  reached : st.maxsdorder.toInt = 0 ∨ ∃ n, ∃ val ∈ later cs n, strtol val = st.maxsdorder.toInt

section Table

theorem any_upsname {cs : List Setting} {st : Ctl} (h : st.upstable.map UpsT.upsname = sections cs) (n : CStr) :
    (st.upstable.any fun tmp => tmp.upsname = n) = true ↔ n ∈ sections cs := by
  rw [← h, List.any_eq_true, List.mem_map]
  simp

theorem setKnown_spec (tmp : UpsT) (var val : CStr) :
    (setKnown tmp var val).upsname = tmp.upsname ∧
      (setKnown tmp var val).sdorder = if var = "sdorder".toList then atoi val else tmp.sdorder := by
  have hother : "driver".toList ≠ "sdorder".toList ∧ "port".toList ≠ "sdorder".toList ∧
      "maxstartdelay".toList ≠ "sdorder".toList := by decide
  generalize hsd : "sdorder".toList = sd at hother ⊢
  unfold setKnown
  rw [hsd]
  split
  · rename_i h
    rw [h, if_neg hother.1]
    exact ⟨rfl, rfl⟩
  · split
    · rename_i h
      rw [h, if_neg hother.2.1]
      exact ⟨rfl, rfl⟩
    · split
      · rename_i h
        rw [h, if_neg hother.2.2]
        exact ⟨rfl, rfl⟩
      · split <;> exact ⟨rfl, rfl⟩

theorem setNew_spec (tmp : UpsT) (var val : CStr) :
    (setNew tmp var val).upsname = tmp.upsname ∧ (setNew tmp var val).sdorder = tmp.sdorder := by
  unfold setNew
  split
  · exact ⟨rfl, rfl⟩
  · split <;> exact ⟨rfl, rfl⟩

theorem atoi_toInt {val : CStr} (h : -2 ^ 31 ≤ strtol val) (h' : strtol val < 2 ^ 31) : (atoi val).toInt = strtol val :=
  Int32.toInt_ofInt_of_le (by omega) (by omega)

/-- A setting that adds nothing to the values leaves a table as it is. -/
theorem Tabled.of_later {cs cs' : List Setting} {st st' : Ctl} (h : Tabled cs st) (hlater : ∀ n, later cs' n = later cs n)
    (hmax : st'.maxsdorder = st.maxsdorder) (hnames : st'.upstable.map UpsT.upsname = sections cs')
    (horders : ∀ ups ∈ st'.upstable, ups.sdorder.toInt = kept cs ups.upsname) : Tabled cs' st' where
  names := hnames
  orders ups hups := by rw [kept_eq, hlater, ← kept_eq]; exact horders ups hups
  nonneg := hmax ▸ h.nonneg
  bound n val hval := hmax ▸ h.bound n val (hlater n ▸ hval)
  reached := by
    rw [hmax]
    exact h.reached.imp id fun ⟨n, val, hval, heq⟩ => ⟨n, val, (hlater n).symm ▸ hval, heq⟩

/-- A table after a setting of a new section. -/
theorem Tabled.append {cs : List Setting} {st : Ctl} (h : Tabled cs st) {c : Setting} {n : CStr} (hc : c.upsname = some n)
    (hn : n ∉ sections cs) {ups : UpsT} (hname : ups.upsname = n) (horder : ups.sdorder = 0)
    (hnames : (st.upstable ++ [ups]).map UpsT.upsname = sections (cs ++ [c])) :
    Tabled (cs ++ [c]) { st with upstable := st.upstable ++ [ups] } := by
  have hlater : ∀ m, later (cs ++ [c]) m = later cs m := by
    intro m
    have hnot : ¬ (c.upsname = some m ∧ m ∈ sections cs ∧ c.var = "sdorder".toList) := by
      rintro ⟨hm, hmem, -⟩
      rw [hc] at hm
      exact hn (Option.some.inj hm ▸ hmem)
    rw [later_concat, if_neg hnot, List.append_nil]
  refine h.of_later hlater rfl hnames ?_
  intro u hu
  rcases List.mem_append.1 hu with hu | hu
  · exact h.orders u hu
  · rw [List.mem_singleton.1 hu, horder, kept_eq, hname]
    have hnil : later cs n = [] := by
      rw [later, ofSection_eq_nil.2 hn]
      rfl
    rw [hnil]
    rfl

/-- A table after a setting with a value of a section that has an entry. -/
theorem Tabled.update {cs : List Setting} {st : Ctl} (h : Tabled cs st) {c : Setting} {n val : CStr}
    (hc : c.upsname = some n) (hval : c.val = some val) (hn : n ∈ sections cs)
    (hrange : c.var = "sdorder".toList → -2 ^ 31 ≤ strtol val ∧ strtol val < 2 ^ 31)
    (hnames : (st.upstable.map fun tmp => if tmp.upsname = n then setKnown tmp c.var val else tmp).map UpsT.upsname =
      sections (cs ++ [c])) :
    Tabled (cs ++ [c]) { st with
      upstable := st.upstable.map fun tmp => if tmp.upsname = n then setKnown tmp c.var val else tmp
      maxsdorder := if c.var = "sdorder".toList ∧ st.maxsdorder < atoi val then atoi val else st.maxsdorder } := by
  by_cases hvar : c.var = "sdorder".toList
  · obtain ⟨hlow, hhigh⟩ := hrange hvar
    have hint := atoi_toInt hlow hhigh
    have hlater : ∀ m, later (cs ++ [c]) m = later cs m ++ if m = n then [val] else [] := by
      intro m
      rw [later_concat, hc, hval]
      by_cases hm : m = n
      · rw [if_pos ⟨by rw [hm], hm ▸ hn, hvar⟩, if_pos hm]
        rfl
      · rw [if_neg fun h => hm (Option.some.inj h.1).symm, if_neg hm]
    have hlt : st.maxsdorder < atoi val ↔ st.maxsdorder.toInt < strtol val := by rw [Int32.lt_iff_toInt_lt, hint]
    refine ⟨hnames, ?_, ?_, ?_, ?_⟩
    · intro ups hups
      obtain ⟨tmp, htmp, rfl⟩ := List.mem_map.1 hups
      by_cases hname : tmp.upsname = n
      · rw [if_pos hname, (setKnown_spec tmp c.var val).2, if_pos hvar, (setKnown_spec tmp c.var val).1, kept_eq, hlater,
          if_pos hname, hint]
        simp
      · rw [if_neg hname, kept_eq, hlater, if_neg hname, List.append_nil, ← kept_eq]
        exact h.orders tmp htmp
    · dsimp only
      split
      · rename_i hmax
        have := hlt.1 hmax.2
        have := h.nonneg
        omega
      · exact h.nonneg
    · intro m v hv
      rw [hlater, List.mem_append] at hv
      dsimp only
      rcases hv with hv | hv
      · have := h.bound m v hv
        split
        · rename_i hmax
          have := hlt.1 hmax.2
          omega
        · exact this
      · have hv : v = val := by
          split at hv
          · exact List.mem_singleton.1 hv
          · cases hv
        subst hv
        split
        · exact hint.ge
        · rename_i hmax
          have := mt hlt.2 fun h => hmax ⟨hvar, h⟩
          omega
    · dsimp only
      split
      · exact Or.inr ⟨n, val, by rw [hlater, if_pos rfl]; simp, hint.symm⟩
      · exact h.reached.imp id fun ⟨m, v, hv, heq⟩ => ⟨m, v, by rw [hlater]; exact List.mem_append_left _ hv, heq⟩
  · have hlater : ∀ m, later (cs ++ [c]) m = later cs m := by
      intro m
      rw [later_concat, if_neg fun h => hvar h.2.2, List.append_nil]
    refine h.of_later hlater (if_neg fun h => hvar h.1) hnames ?_
    intro ups hups
    obtain ⟨tmp, htmp, rfl⟩ := List.mem_map.1 hups
    split
    · rw [(setKnown_spec tmp c.var val).2, if_neg hvar, (setKnown_spec tmp c.var val).1]
      exact h.orders tmp htmp
    · exact h.orders tmp htmp

/-- A flag that the reader survives. -/
def FlagIgnored (cs : List Setting) (c : Setting) : Prop :=
  c.val = none →
    match c.upsname with
    | some n => c.var ≠ "driver".toList ∧ c.var ≠ "port".toList ∧
        (n ∈ sections cs → c.var ≠ "maxstartdelay".toList ∧ c.var ≠ "sdorder".toList)
    | none => c.var ≠ "maxstartdelay".toList ∧ c.var ≠ "driverpath".toList

theorem doUpsconfArgs_global (st : Ctl) (var : CStr) (val : Option CStr) :
    (doUpsconfArgs st ⟨none, var, val⟩ = none ↔ val = none ∧ (var = "maxstartdelay".toList ∨ var = "driverpath".toList)) ∧
      ∀ st', doUpsconfArgs st ⟨none, var, val⟩ = some st' →
        st'.upstable = st.upstable ∧ st'.maxsdorder = st.maxsdorder := by
  unfold doUpsconfArgs
  generalize "maxstartdelay".toList = w₁
  generalize "driverpath".toList = w₂
  rcases val with _ | val
  · dsimp only
    split
    · rename_i hvar
      exact ⟨iff_of_true rfl ⟨rfl, hvar⟩, fun st' h => by cases h⟩
    · rename_i hvar
      refine ⟨iff_of_false (Option.some_ne_none _) fun h => hvar h.2, fun st' h => ?_⟩
      cases h
      exact ⟨rfl, rfl⟩
  · dsimp only
    split
    · refine ⟨iff_of_false (Option.some_ne_none _) fun h => Option.some_ne_none _ h.1, fun st' h => ?_⟩
      cases h
      exact ⟨rfl, rfl⟩
    · split
      · refine ⟨iff_of_false (Option.some_ne_none _) fun h => Option.some_ne_none _ h.1, fun st' h => ?_⟩
        cases h
        exact ⟨rfl, rfl⟩
      · refine ⟨iff_of_false (Option.some_ne_none _) fun h => Option.some_ne_none _ h.1, fun st' h => ?_⟩
        cases h
        exact ⟨rfl, rfl⟩

theorem doUpsconfArgs_known {st : Ctl} {n : CStr} (hany : (st.upstable.any fun tmp => tmp.upsname = n) = true) (var : CStr) :
    doUpsconfArgs st ⟨some n, var, none⟩ =
      if var = "driver".toList ∨ var = "port".toList ∨ var = "maxstartdelay".toList ∨ var = "sdorder".toList then none
      else some st := if_pos hany

theorem doUpsconfArgs_new {st : Ctl} {n : CStr} (hany : (st.upstable.any fun tmp => tmp.upsname = n) = false) (var : CStr) :
    doUpsconfArgs st ⟨some n, var, none⟩ =
      if var = "driver".toList ∨ var = "port".toList then none
      else some { st with upstable := st.upstable ++ [newUps n] } := if_neg (by rw [hany]; exact Bool.false_ne_true)

theorem doUpsconfArgs_known_val {st : Ctl} {n : CStr} (hany : (st.upstable.any fun tmp => tmp.upsname = n) = true)
    (var val : CStr) :
    doUpsconfArgs st ⟨some n, var, some val⟩ = some { st with
      upstable := st.upstable.map fun tmp => if tmp.upsname = n then setKnown tmp var val else tmp
      maxsdorder := if var = "sdorder".toList ∧ st.maxsdorder < atoi val then atoi val else st.maxsdorder } := if_pos hany

theorem doUpsconfArgs_new_val {st : Ctl} {n : CStr} (hany : (st.upstable.any fun tmp => tmp.upsname = n) = false)
    (var val : CStr) :
    doUpsconfArgs st ⟨some n, var, some val⟩ = some { st with upstable := st.upstable ++ [setNew (newUps n) var val] } :=
  if_neg (by rw [hany]; exact Bool.false_ne_true)

theorem flagIgnored_of_val {cs : List Setting} {upsname : Option CStr} {var val : CStr} :
    FlagIgnored cs ⟨upsname, var, some val⟩ := fun h => absurd h (Option.some_ne_none _)

/-- One more setting is read exactly if it is no flag that fails. -/
theorem doUpsconfArgs_eq_none {cs : List Setting} {st : Ctl} (h : st.upstable.map UpsT.upsname = sections cs) (c : Setting) :
    doUpsconfArgs st c = none ↔ ¬ FlagIgnored cs c := by
  obtain ⟨upsname, var, val⟩ := c
  rcases upsname with _ | n
  · rw [(doUpsconfArgs_global st var val).1]
    constructor
    · rintro ⟨hval, hvar⟩ hflag
      obtain ⟨h1, h2⟩ := hflag hval
      exact hvar.elim h1 h2
    · intro hflag
      refine not_not.1 fun hnot => hflag fun hval => ?_
      exact ⟨fun h => hnot ⟨hval, Or.inl h⟩, fun h => hnot ⟨hval, Or.inr h⟩⟩
  · by_cases hn : n ∈ sections cs
    · have hany := (any_upsname h n).2 hn
      rcases val with _ | val
      · rw [doUpsconfArgs_known hany]
        split
        · rename_i hvar
          refine iff_of_true rfl fun hflag => ?_
          obtain ⟨h1, h2, h3⟩ := hflag rfl
          obtain ⟨h3, h4⟩ := h3 hn
          rcases hvar with hvar | hvar | hvar | hvar
          · exact h1 hvar
          · exact h2 hvar
          · exact h3 hvar
          · exact h4 hvar
        · rename_i hvar
          refine iff_of_false (Option.some_ne_none _) fun hflag => hflag fun _ => ?_
          rw [not_or, not_or, not_or] at hvar
          exact ⟨hvar.1, hvar.2.1, fun _ => hvar.2.2⟩
      · rw [doUpsconfArgs_known_val hany]
        exact iff_of_false (Option.some_ne_none _) fun hflag => hflag flagIgnored_of_val
    · have hany : (st.upstable.any fun tmp => decide (tmp.upsname = n)) = false :=
        Bool.eq_false_iff.2 fun h' => hn ((any_upsname h n).1 h')
      rcases val with _ | val
      · rw [doUpsconfArgs_new hany]
        split
        · rename_i hvar
          refine iff_of_true rfl fun hflag => ?_
          obtain ⟨h1, h2, -⟩ := hflag rfl
          exact hvar.elim h1 h2
        · rename_i hvar
          refine iff_of_false (Option.some_ne_none _) fun hflag => hflag fun _ => ?_
          exact ⟨(not_or.1 hvar).1, (not_or.1 hvar).2, fun h => absurd h hn⟩
      · rw [doUpsconfArgs_new_val hany]
        exact iff_of_false (Option.some_ne_none _) fun hflag => hflag flagIgnored_of_val

/-- The table has an entry for each section. -/
theorem doUpsconfArgs_names {cs : List Setting} {st st' : Ctl} (h : st.upstable.map UpsT.upsname = sections cs) {c : Setting}
    (hst : doUpsconfArgs st c = some st') : st'.upstable.map UpsT.upsname = sections (cs ++ [c]) := by
  obtain ⟨upsname, var, val⟩ := c
  rw [sections_concat]
  rcases upsname with _ | n
  · rw [((doUpsconfArgs_global st var val).2 st' hst).1]
    exact h
  · dsimp only
    by_cases hn : n ∈ sections cs
    · have hany := (any_upsname h n).2 hn
      rw [if_pos hn]
      rcases val with _ | val
      · rw [doUpsconfArgs_known hany] at hst
        split at hst
        · cases hst
        · cases hst
          exact h
      · rw [doUpsconfArgs_known_val hany] at hst
        cases hst
        rw [List.map_map, ← h]
        refine List.map_congr_left fun tmp _ => ?_
        rw [Function.comp]
        split
        · exact (setKnown_spec tmp var val).1
        · rfl
    · have hany : (st.upstable.any fun tmp => decide (tmp.upsname = n)) = false :=
        Bool.eq_false_iff.2 fun h' => hn ((any_upsname h n).1 h')
      rw [if_neg hn]
      rcases val with _ | val
      · rw [doUpsconfArgs_new hany] at hst
        split at hst
        · cases hst
        · cases hst
          rw [List.map_append, h]
          rfl
      · rw [doUpsconfArgs_new_val hany] at hst
        cases hst
        rw [List.map_append, h, List.map_singleton, (setNew_spec _ _ _).1]
        rfl

/-- The table after one more setting. -/
theorem doUpsconfArgs_tabled {cs : List Setting} {st st' : Ctl} (h : Tabled cs st) {c : Setting}
    (hrange : c.var = "sdorder".toList → ∀ val, c.val = some val → -2 ^ 31 ≤ strtol val ∧ strtol val < 2 ^ 31)
    (hst : doUpsconfArgs st c = some st') : Tabled (cs ++ [c]) st' := by
  have hnames := doUpsconfArgs_names h.names hst
  obtain ⟨upsname, var, val⟩ := c
  rcases upsname with _ | n
  · obtain ⟨htable, hmax⟩ := (doUpsconfArgs_global st var val).2 st' hst
    have hlater : ∀ m, later (cs ++ [⟨none, var, val⟩]) m = later cs m := by
      intro m
      rw [later_concat, if_neg fun h => Option.some_ne_none m h.1.symm, List.append_nil]
    exact h.of_later hlater hmax hnames (htable ▸ h.orders)
  · by_cases hn : n ∈ sections cs
    · have hany := (any_upsname h.names n).2 hn
      rcases val with _ | val
      · rw [doUpsconfArgs_known hany] at hst
        split at hst
        · cases hst
        · cases hst
          have hlater : ∀ m, later (cs ++ [⟨some n, var, none⟩]) m = later cs m := by
            intro m
            rw [later_concat]
            dsimp only [Option.toList]
            rw [ite_self, List.append_nil]
          exact h.of_later hlater rfl hnames h.orders
      · rw [doUpsconfArgs_known_val hany] at hst
        cases hst
        exact @Tabled.update cs st h ⟨some n, var, some val⟩ n val rfl rfl hn (fun hvar => hrange hvar val rfl) hnames
    · have hany : (st.upstable.any fun tmp => decide (tmp.upsname = n)) = false :=
        Bool.eq_false_iff.2 fun h' => hn ((any_upsname h.names n).1 h')
      rcases val with _ | val
      · rw [doUpsconfArgs_new hany] at hst
        split at hst
        · cases hst
        · cases hst
          exact @Tabled.append cs st h ⟨some n, var, none⟩ n rfl hn (newUps n) rfl rfl hnames
      · rw [doUpsconfArgs_new_val hany] at hst
        cases hst
        exact @Tabled.append cs st h ⟨some n, var, some val⟩ n rfl hn _ (setNew_spec _ _ _).1 (setNew_spec _ _ _).2 hnames

theorem tabled_nil (drvpath : CStr) : Tabled [] ⟨[], 0, 45, drvpath⟩ where
  names := rfl
  orders _ h := absurd h List.not_mem_nil
  nonneg := le_rfl
  bound _ _ h := absurd h List.not_mem_nil
  reached := Or.inl rfl

/-- The flags of a list of settings, one by one. -/
theorem flagsIgnored_concat (cs : List Setting) (c : Setting) :
    FlagsIgnored (cs ++ [c]) ↔ FlagsIgnored cs ∧ FlagIgnored cs c := by
  constructor
  · intro h
    refine ⟨⟨fun d hd => h.unnamed d (List.mem_append_left _ hd), fun d hd => h.named d (List.mem_append_left _ hd),
      fun n d hd => h.later n d ?_⟩, fun hval => ?_⟩
    · rw [tail_concat]
      exact List.mem_append_left _ hd
    · have hc : c ∈ cs ++ [c] := List.mem_append_right _ List.mem_cons_self
      cases hname : c.upsname with
      | none => exact h.unnamed c hc hname hval
      | some n =>
        obtain ⟨h1, h2⟩ := h.named c hc (by rw [hname]; exact Option.some_ne_none n) hval
        refine ⟨h1, h2, fun hn => h.later n c ?_ hval⟩
        rw [tail_concat, if_pos ⟨hname, hn⟩]
        exact List.mem_append_right _ List.mem_cons_self
  · rintro ⟨hall, hone⟩
    refine ⟨fun d hd hname hval => ?_, fun d hd hname hval => ?_, fun n d hd hval => ?_⟩
    · rcases List.mem_append.1 hd with hd | hd
      · exact hall.unnamed d hd hname hval
      · obtain rfl := List.mem_singleton.1 hd
        have h := hone hval
        rw [hname] at h
        exact h
    · rcases List.mem_append.1 hd with hd | hd
      · exact hall.named d hd hname hval
      · obtain rfl := List.mem_singleton.1 hd
        obtain ⟨n, hn⟩ := Option.ne_none_iff_exists'.1 hname
        have h := hone hval
        rw [hn] at h
        exact ⟨h.1, h.2.1⟩
    · rw [tail_concat] at hd
      rcases List.mem_append.1 hd with hd | hd
      · exact hall.later n d hd hval
      · split at hd
        · rename_i hn
          obtain rfl := List.mem_singleton.1 hd
          have h := hone hval
          rw [hn.1] at h
          exact h.2.2 hn.2
        · cases hd

/-- The settings are read exactly if the flags are ignored. -/
theorem foldlM_names (drvpath : CStr) (cs : List Setting) :
    (cs.foldlM doUpsconfArgs ⟨[], 0, 45, drvpath⟩ = none ↔ ¬ FlagsIgnored cs) ∧
      ∀ st, cs.foldlM doUpsconfArgs ⟨[], 0, 45, drvpath⟩ = some st → st.upstable.map UpsT.upsname = sections cs := by
  induction cs using List.reverseRecOn with
  | nil =>
    refine ⟨iff_of_false (by simp) fun h => h ?_, fun st h => ?_⟩
    · exact ⟨fun _ h => absurd h List.not_mem_nil, fun _ h => absurd h List.not_mem_nil,
        fun _ _ h => absurd h List.not_mem_nil⟩
    · cases h
      rfl
  | append_singleton cs c ih =>
    obtain ⟨hnone, hnames⟩ := ih
    rw [flagsIgnored_concat, List.foldlM_append]
    cases hfold : cs.foldlM doUpsconfArgs (⟨[], 0, 45, drvpath⟩ : Ctl) with
    | none =>
      have hflags := hnone.1 hfold
      exact ⟨iff_of_true rfl fun h => hflags h.1, fun st h => by cases h⟩
    | some st =>
      have hflags : FlagsIgnored cs := not_not.1 (mt hnone.2 (by rw [hfold]; simp))
      have hone : ([c].foldlM doUpsconfArgs st : Option Ctl) = doUpsconfArgs st c := by simp
      change (([c].foldlM doUpsconfArgs st : Option Ctl) = none ↔ _) ∧ ∀ st', ([c].foldlM doUpsconfArgs st : Option Ctl) = some st' → _
      rw [hone, doUpsconfArgs_eq_none (hnames st hfold)]
      exact ⟨⟨fun h h' => h h'.2, fun h h' => h ⟨hflags, h'⟩⟩, fun st' => doUpsconfArgs_names (hnames st hfold)⟩

/-- The settings are read into the table. -/
theorem foldlM_tabled (drvpath : CStr) {cs : List Setting} (hrange : InRange cs) {st : Ctl}
    (h : cs.foldlM doUpsconfArgs ⟨[], 0, 45, drvpath⟩ = some st) : Tabled cs st := by
  induction cs using List.reverseRecOn generalizing st with
  | nil =>
    cases h
    exact tabled_nil drvpath
  | append_singleton cs c ih =>
    rw [List.foldlM_append] at h
    obtain ⟨st₀, hfold, hone⟩ := Option.bind_eq_some_iff.1 h
    have hcall : doUpsconfArgs st₀ c = some st := by simpa using hone
    exact doUpsconfArgs_tabled (ih (fun d hd => hrange d (List.mem_append_left _ hd)) hfold) (hrange c (by simp)) hcall

end Table

/-! ### The order of the calls -/

/-- The sections that are called, by the values that are taken. -/
def order (cs : List Setting) : List CStr := buckets (kept cs) (2 ^ 31 - 1) (sections cs)

/-- The values that are taken in two files order the sections in the same way. -/
structure Agrees (cs cs' : List Setting) : Prop where
  taken : ∀ n ∈ sections cs, 0 ≤ kept cs n ↔ 0 ≤ kept cs' n
  alike : ∀ n m, [n, m].Sublist (sections cs) → 0 ≤ kept cs n → 0 ≤ kept cs m →
    (kept cs n ≤ kept cs m ↔ kept cs' n ≤ kept cs' m)

/-- What the values that are taken have to meet in the file and in every order of its settings. -/
structure Stable (lines : List (List CStr)) : Prop where
  flags : FlagsIgnored (settings lines)
  counted : Counted (settings lines)
  settled : ∀ n ∈ headers lines, n ∈ sections (settings lines)
  taken : ∀ n ∈ sections (settings lines), 0 ≤ written (settings lines) n ↔ 0 ≤ kept (settings lines) n
  sorted : ∀ n m, n ∈ sections (settings lines) → m ∈ sections (settings lines) → 0 ≤ kept (settings lines) n →
    0 ≤ kept (settings lines) m → n ≠ m → Earlier (kept (settings lines)) (sections (settings lines)) n m →
    written (settings lines) n ≤ written (settings lines) m
  reordered : ∀ lines', Reordered lines lines' →
    FlagsIgnored (settings lines') ∧ Counted (settings lines') ∧ Agrees (settings lines) (settings lines')

section Order

theorem kept_cases (cs : List Setting) (n : CStr) : kept cs n = 0 ∨ ∃ val ∈ later cs n, kept cs n = strtol val := by
  rw [kept_eq]
  cases h : (later cs n).getLast? with
  | none => exact Or.inl rfl
  | some val => exact Or.inr ⟨val, List.mem_of_getLast? h, rfl⟩

theorem mem_of_later {cs : List Setting} {n val : CStr} (h : val ∈ later cs n) :
    ∃ c ∈ cs, c.var = "sdorder".toList ∧ c.val = some val := by
  obtain ⟨c, hc, hval⟩ := List.mem_filterMap.1 h
  obtain ⟨hc, hvar⟩ := List.mem_filter.1 hc
  exact ⟨c, (List.mem_filter.1 (List.mem_of_mem_tail hc)).1, of_decide_eq_true hvar, hval⟩

theorem kept_le {cs : List Setting} (hrange : InRange cs) (n : CStr) : kept cs n ≤ (2 ^ 31 - 1 : Nat) := by
  rcases kept_cases cs n with h | ⟨val, hval, h⟩
  · omega
  · obtain ⟨c, hc, hvar, hcval⟩ := mem_of_later hval
    have := (hrange c hc hvar val hcval).2
    omega

/-- The walk over a table. -/
theorem sendAllDrivers_spec {cs : List Setting} {st : Ctl} (h : Tabled cs st) (hrange : InRange cs) (names : List CStr) :
    sendAllDrivers st = some names ↔ Counted cs ∧ names = order cs := by
  have hmax : st.maxsdorder.toInt < 2 ^ 31 := st.maxsdorder.toInt_lt
  have hcounted : st.maxsdorder.toInt = 2 ^ 31 - 1 ↔ ¬ Counted cs := by
    constructor
    · intro heq hcounted
      rcases h.reached with hzero | ⟨n, val, hval, hreached⟩
      · omega
      · exact hcounted n val hval (by omega)
    · intro hnot
      unfold Counted at hnot
      push Not at hnot
      obtain ⟨n, val, hval, heq⟩ := hnot
      have := h.bound n val hval
      omega
  have hbound : ∀ n ∈ sections cs, kept cs n ≤ (st.maxsdorder.toInt.toNat : Nat) := by
    intro n _
    have h0 := h.nonneg
    rcases kept_cases cs n with hzero | ⟨val, hval, heq⟩
    · omega
    · have := h.bound n val hval
      omega
  have hfilter : ∀ i : Nat, (st.upstable.filter fun ups => ups.sdorder.toInt = (i : Int)).map UpsT.upsname =
      (sections cs).filter fun n => kept cs n = (i : Int) := by
    intro i
    rw [← h.names, List.filter_map]
    congr 1
    refine List.filter_congr fun ups hups => ?_
    rw [Function.comp, h.orders ups hups]
  have hwalk : ((List.range (st.maxsdorder.toInt.toNat + 1)).flatMap fun i : Nat =>
      (st.upstable.filter fun ups => ups.sdorder.toInt = (i : Int)).map UpsT.upsname) = order cs := by
    have hsame := (buckets_eq_iff (nodup_sections cs) hbound fun n _ => kept_le hrange n).2
      ⟨fun _ _ => Iff.rfl, fun _ _ _ _ _ => Iff.rfl⟩
    rw [order, ← hsame, buckets]
    congr 1
    exact funext hfilter
  unfold sendAllDrivers
  rw [hwalk]
  by_cases htable : st.upstable = []
  · have hnil : sections cs = [] := by rw [← h.names, htable]; rfl
    have hempty : order cs = [] := by
      rw [order, hnil]
      exact List.eq_nil_iff_forall_not_mem.2 fun n hn =>
        List.not_mem_nil ((mem_buckets fun m hm => absurd hm List.not_mem_nil).1 hn).1
    have hall : Counted cs := by
      intro n val hval
      have hn : ofSection n cs = [] := ofSection_eq_nil.2 (by rw [hnil]; exact List.not_mem_nil)
      rw [hn] at hval
      exact absurd hval List.not_mem_nil
    rw [if_pos htable, hempty, Option.some.injEq]
    exact ⟨fun h => ⟨hall, h.symm⟩, fun h => h.2.symm⟩
  · rw [if_neg htable]
    by_cases hover : st.maxsdorder.toInt = 2 ^ 31 - 1
    · rw [if_pos hover]
      exact ⟨fun h => absurd h.symm (Option.some_ne_none _), fun h => absurd h.1 (hcounted.1 hover)⟩
    · rw [if_neg hover, Option.some.injEq]
      exact ⟨fun h => ⟨not_not.1 (mt hcounted.2 hover), h.symm⟩, fun h => h.2.symm⟩

theorem shutdown_eq_some {drvpath : CStr} {lines : List (List CStr)} (hrange : InRange (settings lines)) (names : List CStr) :
    shutdown drvpath lines = some names ↔
      FlagsIgnored (settings lines) ∧ Counted (settings lines) ∧ names = order (settings lines) := by
  have hnone := (foldlM_names drvpath (settings lines)).1
  rw [shutdown, readUpsconf_eq]
  cases hfold : (settings lines).foldlM doUpsconfArgs (⟨[], 0, 45, drvpath⟩ : Ctl) with
  | none => exact ⟨fun h => absurd h.symm (Option.some_ne_none _), fun h => absurd h.1 (hnone.1 hfold)⟩
  | some st =>
    have hflags : FlagsIgnored (settings lines) := not_not.1 (mt hnone.2 (by rw [hfold]; exact Option.some_ne_none _))
    rw [Option.bind_some, sendAllDrivers_spec (foldlM_tabled drvpath hrange hfold) hrange]
    exact ⟨fun h => ⟨hflags, h⟩, fun h => h.2⟩

theorem mem_settingsFrom {lines : List Line} {upsname : Option CStr} {c : Setting} (h : c ∈ settingsFrom upsname lines) :
    c.upsname = upsname ∨ ∃ n, c.upsname = some n ∧ .header n ∈ lines := by
  induction lines generalizing upsname with
  | nil => cases h
  | cons line lines ih =>
    cases line with
    | header m =>
      rcases ih h with h | ⟨n, hn, hmem⟩
      · exact Or.inr ⟨m, h, List.mem_cons_self⟩
      · exact Or.inr ⟨n, hn, List.mem_cons_of_mem _ hmem⟩
    | setting var val =>
      rcases List.mem_cons.1 h with rfl | h
      · exact Or.inl rfl
      · exact (ih h).imp id fun ⟨n, hn, hmem⟩ => ⟨n, hn, List.mem_cons_of_mem _ hmem⟩
    | other => exact (ih h).imp id fun ⟨n, hn, hmem⟩ => ⟨n, hn, List.mem_cons_of_mem _ hmem⟩

theorem mem_headers {lines : List (List CStr)} {n : CStr} : n ∈ headers lines ↔ .header n ∈ lines.map lineOf := by
  rw [headers, List.mem_filterMap, List.mem_map]
  refine exists_congr fun args => and_congr_right fun _ => ?_
  cases lineOf args <;> simp

theorem headers_of_sections {lines : List (List CStr)} {n : CStr} (h : n ∈ sections (settings lines)) : n ∈ headers lines := by
  obtain ⟨c, hc, hn⟩ := mem_sections.1 h
  rcases mem_settingsFrom hc with h | ⟨m, hm, hmem⟩
  · rw [hn] at h
    cases h
  · rw [hn] at hm
    rw [mem_headers, Option.some.inj hm]
    exact hmem

theorem sections_of_written {cs : List Setting} {n : CStr} (h : written cs n ≠ 0) : n ∈ sections cs := by
  by_contra hn
  refine h ?_
  rw [written, ofSection_eq_nil.2 hn]
  rfl

theorem mem_order {cs : List Setting} (hrange : InRange cs) {n : CStr} : n ∈ order cs ↔ n ∈ sections cs ∧ 0 ≤ kept cs n :=
  mem_buckets fun m _ => kept_le hrange m

/-- When the calls are in order. -/
theorem ordered_iff {lines : List (List CStr)} (hrange : InRange (settings lines)) :
    Ordered lines (order (settings lines)) ↔
      (∀ n ∈ headers lines, n ∈ sections (settings lines)) ∧
        (∀ n ∈ sections (settings lines), 0 ≤ written (settings lines) n ↔ 0 ≤ kept (settings lines) n) ∧
        ∀ n m, n ∈ sections (settings lines) → m ∈ sections (settings lines) → 0 ≤ kept (settings lines) n →
          0 ≤ kept (settings lines) m → n ≠ m → Earlier (kept (settings lines)) (sections (settings lines)) n m →
          written (settings lines) n ≤ written (settings lines) m := by
  generalize hcs : settings lines = cs at hrange ⊢
  have hnodup : (order cs).Nodup := nodup_buckets (nodup_sections cs)
  have hsorted : (order cs).Pairwise (fun n m => written cs n ≤ written cs m) ↔ _ :=
    pairwise_buckets_iff (nodup_sections cs) fun n _ => kept_le hrange n
  constructor
  · rintro ⟨honce, hnever, -, hpairs⟩
    rw [hcs] at honce hnever hpairs
    have hmem : ∀ n ∈ headers lines, 0 ≤ written cs n → n ∈ order cs := fun n hn hw =>
      List.count_pos_iff.1 (by rw [honce n hn hw]; exact Nat.one_pos)
    refine ⟨fun n hn => ?_, fun n hn => ⟨fun hw => ?_, fun hk => ?_⟩, hsorted.1 hpairs⟩
    · by_cases hw : 0 ≤ written cs n
      · exact ((mem_order hrange).1 (hmem n hn hw)).1
      · exact sections_of_written (by omega)
    · exact ((mem_order hrange).1 (hmem n (headers_of_sections (hcs ▸ hn)) hw)).2
    · by_contra hw
      exact hnever n (headers_of_sections (hcs ▸ hn)) (by omega) ((mem_order hrange).2 ⟨hn, hk⟩)
  · rintro ⟨hsettled, htaken, hpairs⟩
    refine ⟨fun n hn hw => ?_, fun n hn hw hmem => ?_, fun n hn => ?_, ?_⟩
    · rw [hcs] at hw
      have hsec := hsettled n hn
      exact List.count_eq_one_of_mem hnodup ((mem_order hrange).2 ⟨hsec, (htaken n hsec).1 hw⟩)
    · rw [hcs] at hw
      obtain ⟨hsec, hk⟩ := (mem_order hrange).1 hmem
      have := (htaken n hsec).2 hk
      omega
    · exact headers_of_sections (hcs ▸ ((mem_order hrange).1 hn).1)
    · rw [hcs]
      exact hsorted.2 hpairs

/-- Lines in another order give the same settings in another order, and the same sections one after the other. -/
theorem reordered_settings {lines lines' : List (List CStr)} (h : Reordered lines lines') (upsname : Option CStr) :
    (settingsFrom upsname (lines.map lineOf)).Perm (settingsFrom upsname (lines'.map lineOf)) ∧
      (settingsFrom upsname (lines.map lineOf)).map Setting.upsname =
        (settingsFrom upsname (lines'.map lineOf)).map Setting.upsname := by
  induction h generalizing upsname with
  | nil => exact ⟨.refl _, rfl⟩
  | cons args _ ih =>
    rw [List.map_cons, List.map_cons]
    cases lineOf args with
    | header n => exact ih (some n)
    | setting var val => exact ⟨(ih upsname).1.cons _, congrArg (upsname :: ·) (ih upsname).2⟩
    | other => exact ih upsname
  | @swap args args' lines hargs hargs' =>
    rw [List.map_cons, List.map_cons, List.map_cons, List.map_cons]
    cases h : lineOf args with
    | header n => exact absurd h (hargs n)
    | setting var val =>
      cases h' : lineOf args' with
      | header n => exact absurd h' (hargs' n)
      | setting var' val' => exact ⟨.swap _ _ _, rfl⟩
      | other => exact ⟨.refl _, rfl⟩
    | other =>
      cases h' : lineOf args' with
      | header n => exact absurd h' (hargs' n)
      | setting var' val' => exact ⟨.refl _, rfl⟩
      | other => exact ⟨.refl _, rfl⟩
  | trans _ _ ih ih' => exact ⟨(ih upsname).1.trans (ih' upsname).1, (ih upsname).2.trans (ih' upsname).2⟩

theorem InRange.perm {cs cs' : List Setting} (h : InRange cs) (hperm : cs.Perm cs') : InRange cs' :=
  fun c hc => h c (hperm.mem_iff.2 hc)

/-- Two files with the same sections are ordered alike. -/
theorem order_eq_iff {cs cs' : List Setting} (hsections : sections cs' = sections cs) (hrange : InRange cs)
    (hrange' : InRange cs') : order cs' = order cs ↔ Agrees cs cs' := by
  have hiff := @buckets_eq_iff _ (kept cs) (kept cs') (2 ^ 31 - 1) (2 ^ 31 - 1) (sections cs) (nodup_sections cs)
    (fun n _ => kept_le hrange n) fun n _ => kept_le hrange' n
  unfold order
  rw [hsections]
  constructor
  · intro h
    obtain ⟨htaken, halike⟩ := hiff.1 h.symm
    exact ⟨htaken, halike⟩
  · intro h
    exact (hiff.2 ⟨h.taken, h.alike⟩).symm

end Order

/-- The calls of a shutdown are right and the same for every order exactly if the values that are taken order the sections
alike in all of them. -/
theorem law_iff (drvpath : CStr) {lines : List (List CStr)} (hrange : InRange (settings lines)) :
    Law drvpath lines ↔ Stable lines := by
  have hother : ∀ lines', Reordered lines lines' → InRange (settings lines') ∧
      sections (settings lines') = sections (settings lines) := by
    intro lines' h
    obtain ⟨hperm, hnames⟩ := reordered_settings h none
    exact ⟨hrange.perm hperm, (sections_congr hnames).symm⟩
  constructor
  · rintro ⟨names, hshutdown, hordered, hall⟩
    obtain ⟨hflags, hcounted, hnames⟩ := (shutdown_eq_some hrange names).1 hshutdown
    rw [hnames] at hordered hall
    obtain ⟨hsettled, htaken, hsorted⟩ := (ordered_iff hrange).1 hordered
    refine ⟨hflags, hcounted, hsettled, htaken, hsorted, fun lines' h => ?_⟩
    obtain ⟨hrange', hsections⟩ := hother lines' h
    obtain ⟨hflags', hcounted', hsame⟩ := (shutdown_eq_some hrange' _).1 (hall lines' h)
    exact ⟨hflags', hcounted', (order_eq_iff hsections hrange hrange').1 hsame.symm⟩
  · intro h
    refine ⟨order (settings lines), (shutdown_eq_some hrange _).2 ⟨h.flags, h.counted, rfl⟩,
      (ordered_iff hrange).2 ⟨h.settled, h.taken, h.sorted⟩, fun lines' hlines => ?_⟩
    obtain ⟨hrange', hsections⟩ := hother lines' hlines
    obtain ⟨hflags', hcounted', hagrees⟩ := h.reordered lines' hlines
    exact (shutdown_eq_some hrange' _).2 ⟨hflags', hcounted', ((order_eq_iff hsections hrange hrange').2 hagrees).symm⟩

end Upsdrvctl

end Nut
