import Nut.Server.Conf
import Nut.Drivers.Upsdrvctl

/-!
# Flags in `ups.conf`

`upsd` and `upsdrvctl` read `ups.conf` through the `conf_args` of `upsconf.c`, each with a `do_upsconf_args` of its own.  A flag
has no value, and for some names both duplicate or convert the value without a test.  There is no result then, and none where
`conf_args` reads a string out of its bounds.

A flag at the head of a section makes its entry in `upsdrvctl`, and the setting behind it is then taken in full, where without
the flag only a driver or a port would be.
-/

namespace Nut

open Upsconf

namespace Flags

/-- `do_upsconf_args` of the server. -/
def upsdArgs (upstable : List UpsT) (c : Upsconf.Setting) : Option (List UpsT) := doUpsconfArgs upstable c.upsname c.var c.val

/-- The driver, the port and the description that the server has of a section. -/
def upsdOf (upstable : List UpsT) (upsname : CStr) : Option CStr × Option CStr × Option CStr :=
  match upstable.find? fun temp => temp.upsname = upsname with
  | some temp => (temp.driver, temp.port, temp.desc)
  | none => (none, none, none)

/-- The driver, the port, the `sdorder` and the `maxstartdelay` that `upsdrvctl` has of a section. -/
def upsdrvctlOf (st : Upsdrvctl.Ctl) (upsname : CStr) : Option CStr × Option CStr × Int32 × Int32 :=
  match st.upstable.find? fun tmp => tmp.upsname = upsname with
  | some tmp => (tmp.driver, tmp.port, tmp.sdorder, tmp.maxstartdelay)
  | none => (none, none, 0, -1)

/-- Lines without some of the flags. -/
inductive Unflagged : List (List CStr) → List (List CStr) → Prop
  | nil : Unflagged [] []
  | keep (args : List CStr) {lines lines' : List (List CStr)} : Unflagged lines lines' →
      Unflagged (args :: lines) (args :: lines')
  | drop {args : List CStr} {lines lines' : List (List CStr)} {var : CStr} : lineOf args = .setting var none →
      Unflagged lines lines' → Unflagged (args :: lines) lines'

/-- Both programs read the file to its end, and in the end they have the same without any of its flags. -/
structure Harmless (drvpath : CStr) (lines : List (List CStr)) : Prop where
  upsd : ∃ upstable, Nut.readUpsconf lines = some upstable ∧
    ∀ lines', Unflagged lines lines' →
      ∃ upstable', Nut.readUpsconf lines' = some upstable' ∧ upsdOf upstable' = upsdOf upstable
  upsdrvctl : ∃ st, Upsconf.readUpsconf Upsdrvctl.doUpsconfArgs ⟨[], 0, 45, drvpath⟩ lines = some st ∧
    ∀ lines', Unflagged lines lines' →
      ∃ st', Upsconf.readUpsconf Upsdrvctl.doUpsconfArgs ⟨[], 0, 45, drvpath⟩ lines' = some st' ∧
        upsdrvctlOf st' = upsdrvctlOf st ∧ st'.maxstartdelay = st.maxstartdelay ∧ st'.driverpath = st.driverpath

/-- The flags that end the server. -/
def UpsdFails (c : Upsconf.Setting) : Prop :=
  c.upsname ≠ none ∧ c.val = none ∧ (c.var = "driver".toList ∨ c.var = "port".toList ∨ c.var = "desc".toList)

/-- Where a section begins with a flag, its first value is the default, or is set again, if it is an `sdorder` or a
`maxstartdelay`. -/
def FlagsIdle (cs : List Upsconf.Setting) : Prop :=
  ∀ n flag, (Upsdrvctl.ofSection n cs).head? = some flag → flag.val = none →
    ∀ c rest, (Upsdrvctl.ofSection n cs).filter (fun c => c.val.isSome) = c :: rest →
      ∀ val, c.val = some val → Upsdrvctl.valuesOf c.var rest = [] →
        (c.var = "sdorder".toList → atoi val = 0) ∧ (c.var = "maxstartdelay".toList → atoi val = -1)

/-! ### The settings without flags -/

/-- Settings without some of the flags. -/
inductive Fewer : List Upsconf.Setting → List Upsconf.Setting → Prop
  | nil : Fewer [] []
  | keep (c : Upsconf.Setting) {cs cs' : List Upsconf.Setting} : Fewer cs cs' → Fewer (c :: cs) (c :: cs')
  | drop {c : Upsconf.Setting} {cs cs' : List Upsconf.Setting} : c.val = none → Fewer cs cs' → Fewer (c :: cs) cs'

section Fewer

variable {cs cs' : List Upsconf.Setting} {lines lines' : List (List CStr)}

theorem fewer_settings (h : Unflagged lines lines') (upsname : Option CStr) :
    Fewer (settingsFrom upsname (lines.map lineOf)) (settingsFrom upsname (lines'.map lineOf)) := by
  induction h generalizing upsname with
  | nil => exact .nil
  | keep args _ ih =>
    rw [List.map_cons, List.map_cons]
    cases lineOf args with
    | header n => exact ih (some n)
    | setting var val => exact .keep _ (ih upsname)
    | other => exact ih upsname
  | drop hflag _ ih =>
    rw [List.map_cons, hflag]
    exact .drop rfl (ih upsname)

theorem Fewer.sublist (h : Fewer cs cs') : cs'.Sublist cs := by
  induction h with
  | nil => exact .refl _
  | keep c _ ih => exact ih.cons_cons c
  | drop _ _ ih => exact ih.cons _

theorem Fewer.filter (h : Fewer cs cs') (p : Upsconf.Setting → Bool) : Fewer (cs.filter p) (cs'.filter p) := by
  induction h with
  | nil => exact .nil
  | keep c _ ih =>
    rw [List.filter_cons, List.filter_cons]
    split
    · exact .keep c ih
    · exact ih
  | drop hflag _ ih =>
    rw [List.filter_cons]
    split
    · exact .drop hflag ih
    · exact ih

/-- Flags have no values. -/
theorem Fewer.valuesOf (h : Fewer cs cs') (var : CStr) : Upsdrvctl.valuesOf var cs' = Upsdrvctl.valuesOf var cs := by
  unfold Upsdrvctl.valuesOf
  have hfilter := h.filter fun c => c.var = var
  generalize (cs.filter fun c => c.var = var) = ds at hfilter
  generalize (cs'.filter fun c => c.var = var) = ds' at hfilter
  induction hfilter with
  | nil => rfl
  | keep c _ ih => rw [List.filterMap_cons, List.filterMap_cons, ih]
  | drop hflag _ ih => rw [List.filterMap_cons, hflag, ih]

theorem Fewer.valued (h : Fewer cs cs') :
    cs'.filter (fun c => c.val.isSome) = cs.filter fun c => c.val.isSome := by
  induction h with
  | nil => rfl
  | keep c _ ih => rw [List.filter_cons, List.filter_cons, ih]
  | drop hflag _ ih => rw [List.filter_cons_of_neg (by rw [hflag]; exact Bool.false_ne_true), ih]

theorem valuesOf_valued (var : CStr) (cs : List Upsconf.Setting) :
    Upsdrvctl.valuesOf var (cs.filter fun c => c.val.isSome) = Upsdrvctl.valuesOf var cs := by
  have hall : Fewer cs (cs.filter fun c => c.val.isSome) := by
    induction cs with
    | nil => exact .nil
    | cons c cs ih =>
      rw [List.filter_cons]
      split
      · exact .keep c ih
      · rename_i hflag
        exact .drop (Option.not_isSome_iff_eq_none.1 hflag) ih
  exact hall.valuesOf var

/-- The last value behind the first setting, with the first value of the section behind a flag and not. -/
theorem Fewer.last_tail (h : Fewer cs cs') (var : CStr) {dflt : Int32}
    (hidle : ∀ flag, cs.head? = some flag → flag.val = none → ∀ c rest, cs.filter (fun c => c.val.isSome) = c :: rest →
      ∀ val, c.val = some val → c.var = var → Upsdrvctl.valuesOf var rest = [] → atoi val = dflt) :
    ((Upsdrvctl.valuesOf var cs'.tail).getLast?.map atoi).getD dflt =
      ((Upsdrvctl.valuesOf var cs.tail).getLast?.map atoi).getD dflt := by
  cases h with
  | nil => rfl
  | keep c h => rw [List.tail_cons, List.tail_cons, h.valuesOf]
  | @drop flag cs cs' hflag h =>
    rw [List.tail_cons, ← h.valuesOf]
    rcases cs' with _ | ⟨c, rest⟩
    · rfl
    · rw [List.tail_cons, ← List.singleton_append, Upsdrvctl.valuesOf_append, Upsdrvctl.valuesOf_singleton]
      by_cases hvar : c.var = var
      · rw [if_pos hvar]
        cases hval : c.val with
        | none => rfl
        | some val =>
          by_cases hrest : Upsdrvctl.valuesOf var rest = []
          · have hvalued : (flag :: cs).filter (fun c => c.val.isSome) = c :: rest.filter fun c => c.val.isSome := by
              rw [List.filter_cons_of_neg (by rw [hflag]; exact Bool.false_ne_true), ← h.valued,
                List.filter_cons_of_pos (by rw [hval]; rfl)]
            rw [hrest]
            exact (hidle flag rfl hflag c _ hvalued val hval hvar ((valuesOf_valued var rest).trans hrest)).symm
          · obtain ⟨last, hlast⟩ := Option.isSome_iff_exists.1 (List.getLast?_isSome.2 hrest)
            rw [List.getLast?_append, hlast]
            rfl
      · rw [if_neg hvar, List.nil_append]

end Fewer

/-- The table with one entry changed, where an entry keeps its name. -/
theorem find?_map_if {τ : Type} {name : τ → CStr} {f : τ → τ} (hf : ∀ t, name (f t) = name t) (l : List τ) (m n : CStr) :
    (l.map fun t => if name t = m then f t else t).find? (fun t => name t = n) =
      (l.find? fun t => name t = n).map fun t => if n = m then f t else t := by
  induction l with
  | nil => rfl
  | cons t l ih =>
    have hname : name (if name t = m then f t else t) = name t := by
      split
      · exact hf t
      · rfl
    rw [List.map_cons, List.find?_cons, List.find?_cons, hname]
    by_cases ht : name t = n
    · simp [ht]
    · simp [ht, ih]

/-- A part of what a program has read is the last of the values that go there. -/
theorem view_foldlM {σ α : Type} {call : σ → Upsconf.Setting → Option σ} {s : σ} (view : σ → α) (conv : CStr → α)
    (vals : List Upsconf.Setting → List CStr) {Goes : List Upsconf.Setting → Upsconf.Setting → Prop}
    [∀ cs c, Decidable (Goes cs c)] (hnil : vals [] = [])
    (hconcat : ∀ cs c, vals (cs ++ [c]) = vals cs ++ if Goes cs c then c.val.toList else [])
    (hstep : ∀ cs t t' c, cs.foldlM call s = some t → call t c = some t' →
      view t' = if Goes cs c then (c.val.map conv).getD (view t) else view t)
    {cs : List Upsconf.Setting} {t : σ} (h : cs.foldlM call s = some t) :
    view t = ((vals cs).getLast?.map conv).getD (view s) := by
  induction cs using List.reverseRecOn generalizing t with
  | nil =>
    cases h
    rw [hnil]
    rfl
  | append_singleton cs c ih =>
    rw [List.foldlM_append] at h
    obtain ⟨before, hfold, hone⟩ := Option.bind_eq_some_iff.1 h
    have hcall : call before c = some t := by simpa using hone
    rw [hstep cs before t c hfold hcall, hconcat, ih hfold]
    by_cases hgoes : Goes cs c
    · rw [if_pos hgoes, if_pos hgoes, List.getLast?_append]
      cases c.val <;> rfl
    · rw [if_neg hgoes, if_neg hgoes, List.append_nil]

section Upsd

/-- A line of the server is a line of `upsconf.c`. -/
theorem confArgs_upsd (st : Option CStr × List UpsT) (args : List CStr) :
    Upsconf.confArgs upsdArgs st args = Nut.confArgs st args := by
  rw [confArgs_line]
  rcases args with _ | ⟨arg0, rest⟩
  · rfl
  · by_cases hheader : arg0.head? = some '[' ∧ arg0.getLast? = some ']'
    · simp only [lineOf, Nut.confArgs, sectionName, if_pos hheader]
    · rcases rest with _ | ⟨arg1, _ | ⟨arg2, rest⟩⟩
      · simp only [lineOf, Nut.confArgs, sectionName, if_neg hheader]
        rfl
      · simp only [lineOf, Nut.confArgs, sectionName, if_neg hheader]
      · simp only [lineOf, Nut.confArgs, sectionName, if_neg hheader]
        by_cases heq : arg1 = "=".toList
        · simp only [if_pos heq]
          rfl
        · simp only [if_neg heq]

/-- What the server has read of a file are its settings, one after the other. -/
theorem readUpsconf_upsd (lines : List (List CStr)) : Nut.readUpsconf lines = (Upsconf.settings lines).foldlM upsdArgs [] := by
  have hargs : Nut.confArgs = Upsconf.confArgs upsdArgs := funext fun st => funext fun args => (confArgs_upsd st args).symm
  rw [Nut.readUpsconf, hargs]
  exact readUpsconf_eq [] lines

/-- A call that fails for some settings fails in a file that has one of them. -/
theorem foldlM_eq_none_iff {σ : Type} {call : σ → Upsconf.Setting → Option σ} {Fails : Upsconf.Setting → Prop}
    (hcall : ∀ t c, call t c = none ↔ Fails c) (s : σ) (cs : List Upsconf.Setting) :
    cs.foldlM call s = none ↔ ∃ c ∈ cs, Fails c := by
  induction cs generalizing s with
  | nil => simp
  | cons c cs ih =>
    rw [List.foldlM_cons, List.exists_mem_cons_iff, ← hcall s c]
    cases h : call s c with
    | none => exact iff_of_true rfl (Or.inl rfl)
    | some t => exact (ih t).trans (or_iff_right (Option.some_ne_none t)).symm

theorem upsdArgs_eq_none (upstable : List UpsT) (c : Upsconf.Setting) : upsdArgs upstable c = none ↔ UpsdFails c := by
  obtain ⟨upsname, var, val⟩ := c
  unfold upsdArgs doUpsconfArgs UpsdFails
  rcases upsname with _ | n
  · exact iff_of_false (Option.some_ne_none _) fun h => h.1 rfl
  · rcases val with _ | val
    · dsimp only
      split
      · rename_i hvar
        exact iff_of_true rfl ⟨Option.some_ne_none n, rfl, hvar⟩
      · rename_i hvar
        exact iff_of_false (Option.some_ne_none _) fun h => hvar h.2.2
    · exact iff_of_false (Option.some_ne_none _) fun h => Option.some_ne_none val h.2.1

/-- A value goes into the field with its name. -/
theorem setUpsT_spec (temp : UpsT) (var val : CStr) :
    (setUpsT temp var val).upsname = temp.upsname ∧
      (setUpsT temp var val).driver = (if var = "driver".toList then some val else temp.driver) ∧
      (setUpsT temp var val).port = (if var = "port".toList then some val else temp.port) ∧
      (setUpsT temp var val).desc = if var = "desc".toList then some val else temp.desc := by
  have hdriver : "driver".toList ≠ "port".toList ∧ "driver".toList ≠ "desc".toList := by decide
  have hport : "port".toList ≠ "desc".toList := by decide
  unfold setUpsT
  generalize "driver".toList = w₁ at *
  generalize "port".toList = w₂ at *
  generalize "desc".toList = w₃ at *
  split
  · rename_i h
    rw [h, if_neg hdriver.1, if_neg hdriver.2]
    exact ⟨rfl, rfl, rfl, rfl⟩
  · split
    · rename_i h
      rw [h, if_neg hport]
      exact ⟨rfl, rfl, rfl, rfl⟩
    · split <;> exact ⟨rfl, rfl, rfl, rfl⟩

/-- The table with an entry for the section. -/
def withEntry (upstable : List UpsT) (m : CStr) : List UpsT :=
  if upstable.any fun temp => temp.upsname = m then upstable else ⟨m, none, none, none⟩ :: upstable

theorem upsdArgs_flag (upstable : List UpsT) (m var : CStr) :
    upsdArgs upstable ⟨some m, var, none⟩ =
      if var = "driver".toList ∨ var = "port".toList ∨ var = "desc".toList then none else some (withEntry upstable m) := rfl

theorem upsdArgs_val (upstable : List UpsT) (m var val : CStr) :
    upsdArgs upstable ⟨some m, var, some val⟩ =
      some ((withEntry upstable m).map fun temp => if temp.upsname = m then setUpsT temp var val else temp) := rfl

theorem withEntry_spec (upstable : List UpsT) (m : CStr) :
    upsdOf (withEntry upstable m) = upsdOf upstable ∧
      ((withEntry upstable m).find? fun temp => temp.upsname = m).isSome := by
  unfold withEntry
  cases hany : upstable.any fun temp => temp.upsname = m with
  | true =>
    rw [if_pos rfl, List.find?_isSome]
    exact ⟨rfl, by simpa using hany⟩
  | false =>
    rw [if_neg Bool.false_ne_true]
    refine ⟨funext fun n => ?_, by simp⟩
    unfold upsdOf
    by_cases hm : m = n
    · have hfind : (upstable.find? fun temp => temp.upsname = n) = none :=
        List.find?_eq_none.2 fun temp htemp => List.any_eq_false.1 (hm ▸ hany) temp htemp
      rw [List.find?_cons_of_pos (by simpa using hm), hfind]
    · rw [List.find?_cons_of_neg (by simpa using hm)]

/-- What the server has of a section after one more setting. -/
theorem upsdOf_step {upstable upstable' : List UpsT} {c : Upsconf.Setting} (h : upsdArgs upstable c = some upstable')
    (n : CStr) :
    upsdOf upstable' n =
      (if c.upsname = some n ∧ c.var = "driver".toList then (c.val.map some).getD (upsdOf upstable n).1
        else (upsdOf upstable n).1,
        if c.upsname = some n ∧ c.var = "port".toList then (c.val.map some).getD (upsdOf upstable n).2.1
        else (upsdOf upstable n).2.1,
        if c.upsname = some n ∧ c.var = "desc".toList then (c.val.map some).getD (upsdOf upstable n).2.2
        else (upsdOf upstable n).2.2) := by
  obtain ⟨upsname, var, val⟩ := c
  rcases upsname with _ | m
  · obtain rfl := Option.some.inj h
    simp only [reduceCtorEq, false_and, if_false]
  · obtain ⟨hsame, hfound⟩ := withEntry_spec upstable m
    rw [← hsame]
    rcases val with _ | val
    · rw [upsdArgs_flag] at h
      split at h
      · cases h
      · obtain rfl := Option.some.inj h
        simp only [Option.map_none, Option.getD_none, ite_self]
    · rw [upsdArgs_val] at h
      generalize withEntry upstable m = entries at *
      obtain rfl := Option.some.inj h
      obtain ⟨temp, htemp⟩ := Option.isSome_iff_exists.1 hfound
      by_cases hn : n = m
      · subst hn
        obtain ⟨-, hdriver, hport, hdesc⟩ := setUpsT_spec temp var val
        unfold upsdOf
        rw [find?_map_if (fun t => (setUpsT_spec t var val).1), htemp]
        simp only [Option.map_some, if_true, true_and, Option.getD_some, hdriver, hport, hdesc]
      · have hne : ¬ some m = some n := fun h => hn (Option.some.inj h).symm
        unfold upsdOf
        rw [find?_map_if (fun t => (setUpsT_spec t var val).1)]
        simp only [hn, hne, if_false, false_and, Option.map_id']

/-- What the server has of a section are the last values of its settings. -/
theorem upsdOf_eq {cs : List Upsconf.Setting} {upstable : List UpsT} (h : cs.foldlM upsdArgs [] = some upstable) (n : CStr) :
    upsdOf upstable n =
      ((Upsdrvctl.valuesOf "driver".toList (Upsdrvctl.ofSection n cs)).getLast?,
        (Upsdrvctl.valuesOf "port".toList (Upsdrvctl.ofSection n cs)).getLast?,
        (Upsdrvctl.valuesOf "desc".toList (Upsdrvctl.ofSection n cs)).getLast?) := by
  have hlast : ∀ l : List CStr, (l.getLast?.map some).getD none = l.getLast? := fun l => by cases l.getLast? <;> rfl
  have hdriver := view_foldlM (fun t => (upsdOf t n).1) some
    (fun cs => Upsdrvctl.valuesOf "driver".toList (Upsdrvctl.ofSection n cs)) rfl
    (fun cs c => Upsdrvctl.valuesOf_concat "driver".toList cs c n) (fun _ _ _ _ _ hcall => by rw [upsdOf_step hcall]) h
  have hport := view_foldlM (fun t => (upsdOf t n).2.1) some
    (fun cs => Upsdrvctl.valuesOf "port".toList (Upsdrvctl.ofSection n cs)) rfl
    (fun cs c => Upsdrvctl.valuesOf_concat "port".toList cs c n) (fun _ _ _ _ _ hcall => by rw [upsdOf_step hcall]) h
  have hdesc := view_foldlM (fun t => (upsdOf t n).2.2) some
    (fun cs => Upsdrvctl.valuesOf "desc".toList (Upsdrvctl.ofSection n cs)) rfl
    (fun cs c => Upsdrvctl.valuesOf_concat "desc".toList cs c n) (fun _ _ _ _ _ hcall => by rw [upsdOf_step hcall]) h
  exact Prod.ext (hdriver.trans (hlast _)) (Prod.ext (hport.trans (hlast _)) (hdesc.trans (hlast _)))

end Upsd

section Upsdrvctl

/-- A value of a known section goes into the field with its name, and of a new one only a driver or a port does. -/
theorem setKnown_fields (tmp : Upsdrvctl.UpsT) (var val : CStr) :
    (Upsdrvctl.setKnown tmp var val).driver = (if var = "driver".toList then some val else tmp.driver) ∧
      (Upsdrvctl.setKnown tmp var val).port = (if var = "port".toList then some val else tmp.port) ∧
      (Upsdrvctl.setKnown tmp var val).sdorder = (if var = "sdorder".toList then atoi val else tmp.sdorder) ∧
      (Upsdrvctl.setKnown tmp var val).maxstartdelay =
        (if var = "maxstartdelay".toList then atoi val else tmp.maxstartdelay) ∧
      (Upsdrvctl.setNew tmp var val).driver = (if var = "driver".toList then some val else tmp.driver) ∧
      (Upsdrvctl.setNew tmp var val).port = (if var = "port".toList then some val else tmp.port) ∧
      (Upsdrvctl.setNew tmp var val).maxstartdelay = tmp.maxstartdelay := by
  have hdriver : "driver".toList ≠ "port".toList ∧ "driver".toList ≠ "sdorder".toList ∧
      "driver".toList ≠ "maxstartdelay".toList := by decide
  have hport : "port".toList ≠ "sdorder".toList ∧ "port".toList ≠ "maxstartdelay".toList := by decide
  have hdelay : "maxstartdelay".toList ≠ "sdorder".toList := by decide
  unfold Upsdrvctl.setKnown Upsdrvctl.setNew
  generalize "driver".toList = w₁ at *
  generalize "port".toList = w₂ at *
  generalize "sdorder".toList = w₃ at *
  generalize "maxstartdelay".toList = w₄ at *
  split
  · rename_i h
    rw [h, if_neg hdriver.1, if_neg hdriver.2.1, if_neg hdriver.2.2]
    exact ⟨rfl, rfl, rfl, rfl, rfl, rfl, rfl⟩
  · split
    · rename_i h
      rw [h, if_neg hport.1, if_neg hport.2]
      exact ⟨rfl, rfl, rfl, rfl, rfl, rfl, rfl⟩
    · split
      · rename_i h
        rw [h, if_neg hdelay]
        exact ⟨rfl, rfl, rfl, rfl, rfl, rfl, rfl⟩
      · split <;> exact ⟨rfl, rfl, rfl, rfl, rfl, rfl, rfl⟩

theorem upsdrvctlOf_of_absent {st : Upsdrvctl.Ctl} {m : CStr} (hany : (st.upstable.any fun tmp => tmp.upsname = m) = false) :
    upsdrvctlOf st m = (none, none, 0, -1) := by
  have hfind : (st.upstable.find? fun tmp => tmp.upsname = m) = none :=
    List.find?_eq_none.2 fun tmp htmp => List.any_eq_false.1 hany tmp htmp
  rw [upsdrvctlOf, hfind]

/-- A new entry. -/
theorem upsdrvctlOf_append {st : Upsdrvctl.Ctl} {m : CStr} (hany : (st.upstable.any fun tmp => tmp.upsname = m) = false)
    {ups : Upsdrvctl.UpsT} (hups : ups.upsname = m) (n : CStr) :
    upsdrvctlOf { st with upstable := st.upstable ++ [ups] } n =
      if n = m then (ups.driver, ups.port, ups.sdorder, ups.maxstartdelay) else upsdrvctlOf st n := by
  unfold upsdrvctlOf
  dsimp only
  rw [List.find?_append]
  by_cases hn : n = m
  · have hfind : (st.upstable.find? fun tmp => tmp.upsname = n) = none :=
      List.find?_eq_none.2 fun tmp htmp => List.any_eq_false.1 (hn ▸ hany) tmp htmp
    rw [hfind, if_pos hn, Option.none_or, List.find?_cons_of_pos (by simpa using hups.trans hn.symm)]
  · rw [if_neg hn, List.find?_cons_of_neg (by simpa [hups] using Ne.symm hn)]
    simp

/-- A setting of an entry. -/
theorem upsdrvctlOf_setKnown {st : Upsdrvctl.Ctl} {m : CStr} (hany : (st.upstable.any fun tmp => tmp.upsname = m) = true)
    (var val n : CStr) (maxsdorder : Int32) :
    upsdrvctlOf { st with
        upstable := st.upstable.map fun tmp => if tmp.upsname = m then Upsdrvctl.setKnown tmp var val else tmp
        maxsdorder := maxsdorder } n =
      if n = m then
        (if var = "driver".toList then some val else (upsdrvctlOf st n).1,
          if var = "port".toList then some val else (upsdrvctlOf st n).2.1,
          if var = "sdorder".toList then atoi val else (upsdrvctlOf st n).2.2.1,
          if var = "maxstartdelay".toList then atoi val else (upsdrvctlOf st n).2.2.2)
      else upsdrvctlOf st n := by
  unfold upsdrvctlOf
  dsimp only
  rw [find?_map_if fun t => (Upsdrvctl.setKnown_spec t var val).1]
  by_cases hn : n = m
  · subst hn
    have hfound : (st.upstable.find? fun tmp => tmp.upsname = n).isSome := by
      rw [List.find?_isSome]
      simpa using hany
    obtain ⟨tmp, htmp⟩ := Option.isSome_iff_exists.1 hfound
    obtain ⟨hdriver, hport, hsdorder, hdelay, -⟩ := setKnown_fields tmp var val
    rw [htmp]
    simp only [Option.map_some, if_pos, hdriver, hport, hsdorder, hdelay]
  · simp only [if_neg hn, Option.map_id']

/-- What `upsdrvctl` has of a section after one more setting. -/
theorem upsdrvctlOf_step {cs : List Upsconf.Setting} {st st' : Upsdrvctl.Ctl} {c : Upsconf.Setting}
    (hnames : st.upstable.map Upsdrvctl.UpsT.upsname = Upsdrvctl.sections cs) (h : Upsdrvctl.doUpsconfArgs st c = some st')
    (n : CStr) :
    upsdrvctlOf st' n =
      (if c.upsname = some n ∧ c.var = "driver".toList then (c.val.map some).getD (upsdrvctlOf st n).1
        else (upsdrvctlOf st n).1,
        if c.upsname = some n ∧ c.var = "port".toList then (c.val.map some).getD (upsdrvctlOf st n).2.1
        else (upsdrvctlOf st n).2.1,
        if c.upsname = some n ∧ n ∈ Upsdrvctl.sections cs ∧ c.var = "sdorder".toList then
          (c.val.map atoi).getD (upsdrvctlOf st n).2.2.1
        else (upsdrvctlOf st n).2.2.1,
        if c.upsname = some n ∧ n ∈ Upsdrvctl.sections cs ∧ c.var = "maxstartdelay".toList then
          (c.val.map atoi).getD (upsdrvctlOf st n).2.2.2
        else (upsdrvctlOf st n).2.2.2) := by
  obtain ⟨upsname, var, val⟩ := c
  rcases upsname with _ | m
  · have htable := ((Upsdrvctl.doUpsconfArgs_global st var val).2 st' h).1
    unfold upsdrvctlOf
    rw [htable]
    simp only [reduceCtorEq, false_and, if_false]
  have hsome : n ≠ m → ¬ some m = some n := fun hn h => hn (Option.some.inj h).symm
  -- the section has an entry, or gets one
  cases hany : st.upstable.any fun tmp => tmp.upsname = m with
  | true =>
    have hm := (Upsdrvctl.any_upsname hnames m).1 hany
    rcases val with _ | val
    · rw [Upsdrvctl.doUpsconfArgs_known hany] at h
      split at h
      · cases h
      · obtain rfl := Option.some.inj h
        simp only [Option.map_none, Option.getD_none, ite_self]
    · rw [Upsdrvctl.doUpsconfArgs_known_val hany] at h
      obtain rfl := Option.some.inj h
      rw [upsdrvctlOf_setKnown hany]
      by_cases hn : n = m
      · subst hn
        simp only [if_true, true_and, hm, Option.map_some, Option.getD_some]
      · simp only [hn, hsome hn, if_false, false_and]
  | false =>
    have hm : m ∉ Upsdrvctl.sections cs := fun hm =>
      Bool.false_ne_true (hany.symm.trans ((Upsdrvctl.any_upsname hnames m).2 hm))
    rcases val with _ | val
    · rw [Upsdrvctl.doUpsconfArgs_new hany] at h
      split at h
      · cases h
      · obtain rfl := Option.some.inj h
        have hsame : upsdrvctlOf { st with upstable := st.upstable ++ [Upsdrvctl.newUps m] } n = upsdrvctlOf st n := by
          rw [upsdrvctlOf_append hany rfl]
          split
          · rename_i hn
            rw [hn, upsdrvctlOf_of_absent hany]
            rfl
          · rfl
        rw [hsame]
        simp only [Option.map_none, Option.getD_none, ite_self]
    · rw [Upsdrvctl.doUpsconfArgs_new_val hany] at h
      obtain rfl := Option.some.inj h
      obtain ⟨-, -, -, -, hdriver, hport, hdelay⟩ := setKnown_fields (Upsdrvctl.newUps m) var val
      rw [upsdrvctlOf_append hany (Upsdrvctl.setNew_spec _ var val).1, (Upsdrvctl.setNew_spec _ var val).2, hdriver, hport, hdelay]
      by_cases hn : n = m
      · subst hn
        rw [if_pos rfl, upsdrvctlOf_of_absent hany]
        simp only [true_and, hm, false_and, and_false, if_false, Option.map_some, Option.getD_some]
        rfl
      · simp only [hn, hsome hn, false_and, if_false]

/-- What `upsdrvctl` has of a section are the last values of its settings, for some names those behind the first setting. -/
theorem upsdrvctlOf_eq {drvpath : CStr} {cs : List Upsconf.Setting} {st : Upsdrvctl.Ctl}
    (h : cs.foldlM Upsdrvctl.doUpsconfArgs ⟨[], 0, 45, drvpath⟩ = some st) (n : CStr) :
    upsdrvctlOf st n =
      ((Upsdrvctl.valuesOf "driver".toList (Upsdrvctl.ofSection n cs)).getLast?,
        (Upsdrvctl.valuesOf "port".toList (Upsdrvctl.ofSection n cs)).getLast?,
        ((Upsdrvctl.valuesOf "sdorder".toList (Upsdrvctl.ofSection n cs).tail).getLast?.map atoi).getD 0,
        ((Upsdrvctl.valuesOf "maxstartdelay".toList (Upsdrvctl.ofSection n cs).tail).getLast?.map atoi).getD (-1)) := by
  have hnames := fun cs st => (Upsdrvctl.foldlM_names drvpath cs).2 st
  have hlast : ∀ l : List CStr, (l.getLast?.map some).getD none = l.getLast? := fun l => by cases l.getLast? <;> rfl
  have hdriver := view_foldlM (fun t => (upsdrvctlOf t n).1) some
    (fun cs => Upsdrvctl.valuesOf "driver".toList (Upsdrvctl.ofSection n cs)) rfl
    (fun cs c => Upsdrvctl.valuesOf_concat "driver".toList cs c n)
    (fun cs t _ _ hfold hcall => by rw [upsdrvctlOf_step (hnames cs t hfold) hcall]) h
  have hport := view_foldlM (fun t => (upsdrvctlOf t n).2.1) some
    (fun cs => Upsdrvctl.valuesOf "port".toList (Upsdrvctl.ofSection n cs)) rfl
    (fun cs c => Upsdrvctl.valuesOf_concat "port".toList cs c n)
    (fun cs t _ _ hfold hcall => by rw [upsdrvctlOf_step (hnames cs t hfold) hcall]) h
  have hsdorder := view_foldlM (fun t => (upsdrvctlOf t n).2.2.1) atoi
    (fun cs => Upsdrvctl.valuesOf "sdorder".toList (Upsdrvctl.ofSection n cs).tail) rfl
    (fun cs c => Upsdrvctl.valuesOf_tail_concat "sdorder".toList cs c n)
    (fun cs t _ _ hfold hcall => by rw [upsdrvctlOf_step (hnames cs t hfold) hcall]) h
  have hdelay := view_foldlM (fun t => (upsdrvctlOf t n).2.2.2) atoi
    (fun cs => Upsdrvctl.valuesOf "maxstartdelay".toList (Upsdrvctl.ofSection n cs).tail) rfl
    (fun cs c => Upsdrvctl.valuesOf_tail_concat "maxstartdelay".toList cs c n)
    (fun cs t _ _ hfold hcall => by rw [upsdrvctlOf_step (hnames cs t hfold) hcall]) h
  exact Prod.ext (hdriver.trans (hlast _)) (Prod.ext (hport.trans (hlast _)) (Prod.ext hsdorder hdelay))

/-- The settings before the first section. -/
def beforeSections (cs : List Upsconf.Setting) : List Upsconf.Setting := cs.filter fun c => c.upsname = none

theorem beforeSections_concat (var : CStr) (cs : List Upsconf.Setting) (c : Upsconf.Setting) :
    Upsdrvctl.valuesOf var (beforeSections (cs ++ [c])) =
      Upsdrvctl.valuesOf var (beforeSections cs) ++ if c.upsname = none ∧ c.var = var then c.val.toList else [] := by
  have hall : beforeSections (cs ++ [c]) = beforeSections cs ++ if c.upsname = none then [c] else [] := by
    rw [beforeSections, beforeSections, List.filter_append]
    by_cases hc : c.upsname = none <;> simp [hc]
  rw [hall, Upsdrvctl.valuesOf_append]
  by_cases hc : c.upsname = none
  · rw [if_pos hc, Upsdrvctl.valuesOf_singleton]
    simp only [hc, true_and]
  · rw [if_neg hc, if_neg fun h => hc h.1]
    rfl

/-- What one more setting does outside the table. -/
theorem globals_step {st st' : Upsdrvctl.Ctl} {c : Upsconf.Setting} (h : Upsdrvctl.doUpsconfArgs st c = some st') :
    (st'.maxstartdelay = if c.upsname = none ∧ c.var = "maxstartdelay".toList then
        (c.val.map atoi).getD st.maxstartdelay else st.maxstartdelay) ∧
      st'.driverpath = if c.upsname = none ∧ c.var = "driverpath".toList then
        (c.val.map id).getD st.driverpath else st.driverpath := by
  have hother : "maxstartdelay".toList ≠ "driverpath".toList := by decide
  obtain ⟨upsname, var, val⟩ := c
  rcases upsname with _ | m
  · unfold Upsdrvctl.doUpsconfArgs at h
    generalize "maxstartdelay".toList = w₁ at *
    generalize "driverpath".toList = w₂ at *
    rcases val with _ | val
    · dsimp only at h
      split at h
      · cases h
      · rename_i hvar
        rw [not_or] at hvar
        obtain rfl := Option.some.inj h
        rw [if_neg fun h => hvar.1 h.2, if_neg fun h => hvar.2 h.2]
        exact ⟨rfl, rfl⟩
    · dsimp only at h
      split at h
      · rename_i hvar
        obtain rfl := Option.some.inj h
        rw [if_pos ⟨rfl, hvar⟩, if_neg fun h => hother (hvar.symm.trans h.2)]
        exact ⟨rfl, rfl⟩
      · rename_i hdelay
        rw [if_neg fun h => hdelay h.2]
        split at h
        · rename_i hvar
          obtain rfl := Option.some.inj h
          rw [if_pos ⟨rfl, hvar⟩]
          exact ⟨rfl, rfl⟩
        · rename_i hvar
          obtain rfl := Option.some.inj h
          rw [if_neg fun h => hvar h.2]
          exact ⟨rfl, rfl⟩
  -- a setting of a section touches the table only
  · have hnone : ∀ var' : CStr, ¬ (some m = none ∧ var = var') := fun var' h => Option.some_ne_none m h.1
    rw [if_neg (hnone _), if_neg (hnone _)]
    cases hany : st.upstable.any fun tmp => tmp.upsname = m with
    | true =>
      rcases val with _ | val
      · rw [Upsdrvctl.doUpsconfArgs_known hany] at h
        split at h
        · cases h
        · obtain rfl := Option.some.inj h
          exact ⟨rfl, rfl⟩
      · rw [Upsdrvctl.doUpsconfArgs_known_val hany] at h
        obtain rfl := Option.some.inj h
        exact ⟨rfl, rfl⟩
    | false =>
      rcases val with _ | val
      · rw [Upsdrvctl.doUpsconfArgs_new hany] at h
        split at h
        · cases h
        · obtain rfl := Option.some.inj h
          exact ⟨rfl, rfl⟩
      · rw [Upsdrvctl.doUpsconfArgs_new_val hany] at h
        obtain rfl := Option.some.inj h
        exact ⟨rfl, rfl⟩

theorem globals_eq {drvpath : CStr} {cs : List Upsconf.Setting} {st : Upsdrvctl.Ctl}
    (h : cs.foldlM Upsdrvctl.doUpsconfArgs ⟨[], 0, 45, drvpath⟩ = some st) :
    st.maxstartdelay = ((Upsdrvctl.valuesOf "maxstartdelay".toList (beforeSections cs)).getLast?.map atoi).getD 45 ∧
      st.driverpath = ((Upsdrvctl.valuesOf "driverpath".toList (beforeSections cs)).getLast?.map id).getD drvpath :=
  ⟨view_foldlM Upsdrvctl.Ctl.maxstartdelay atoi (fun cs => Upsdrvctl.valuesOf "maxstartdelay".toList (beforeSections cs)) rfl
    (beforeSections_concat "maxstartdelay".toList) (fun _ _ _ _ _ hcall => (globals_step hcall).1) h,
    view_foldlM Upsdrvctl.Ctl.driverpath id (fun cs => Upsdrvctl.valuesOf "driverpath".toList (beforeSections cs)) rfl
      (beforeSections_concat "driverpath".toList) (fun _ _ _ _ _ hcall => (globals_step hcall).2) h⟩

/-- Without some of its flags a file is read too. -/
theorem Fewer.flagsIgnored {cs cs' : List Upsconf.Setting} (h : Fewer cs cs') (hflags : Upsdrvctl.FlagsIgnored cs) :
    Upsdrvctl.FlagsIgnored cs' where
  unnamed c hc := hflags.unnamed c (h.sublist.subset hc)
  named c hc := hflags.named c (h.sublist.subset hc)
  later n c hc := hflags.later n c ((h.filter _).sublist.tail.subset hc)

end Upsdrvctl

section Files

variable {drvpath : CStr} {lines lines' : List (List CStr)}

/-- The lines without their flags. -/
def withoutFlags (lines : List (List CStr)) : List (List CStr) :=
  lines.filter fun args => match lineOf args with
    | .setting _ none => false
    | _ => true

theorem unflagged_withoutFlags (lines : List (List CStr)) : Unflagged lines (withoutFlags lines) := by
  unfold withoutFlags
  induction lines with
  | nil => exact .nil
  | cons args lines ih =>
    rw [List.filter_cons]
    rcases h : lineOf args with n | ⟨var, _ | val⟩ | _
    · exact .keep args ih
    · exact .drop h ih
    · exact .keep args ih
    · exact .keep args ih

theorem settings_withoutFlags (lines : List (List CStr)) :
    Upsconf.settings (withoutFlags lines) = (Upsconf.settings lines).filter fun c => c.val.isSome := by
  have hall : ∀ upsname, settingsFrom upsname ((withoutFlags lines).map lineOf) =
      (settingsFrom upsname (lines.map lineOf)).filter fun c => c.val.isSome := by
    unfold withoutFlags
    induction lines with
    | nil => exact fun _ => rfl
    | cons args lines ih =>
      intro upsname
      rw [List.filter_cons, List.map_cons]
      rcases h : lineOf args with n | ⟨var, _ | val⟩ | _
      · rw [if_pos rfl, List.map_cons, h]
        exact ih (some n)
      · rw [if_neg Bool.false_ne_true, settingsFrom, List.filter_cons_of_neg Bool.false_ne_true]
        exact ih upsname
      · rw [if_pos rfl, List.map_cons, h, settingsFrom, settingsFrom, List.filter_cons_of_pos rfl, ih upsname]
      · rw [if_pos rfl, List.map_cons, h]
        exact ih upsname
  exact hall none

/-- The server reads a file without its flags as with them. -/
theorem upsd_harmless (hfails : ∀ c ∈ Upsconf.settings lines, ¬ UpsdFails c) (h : Unflagged lines lines') :
    ∃ upstable, Nut.readUpsconf lines' = some upstable ∧ upsdOf upstable = fun n =>
      ((Upsdrvctl.valuesOf "driver".toList (Upsdrvctl.ofSection n (Upsconf.settings lines))).getLast?,
        (Upsdrvctl.valuesOf "port".toList (Upsdrvctl.ofSection n (Upsconf.settings lines))).getLast?,
        (Upsdrvctl.valuesOf "desc".toList (Upsdrvctl.ofSection n (Upsconf.settings lines))).getLast?) := by
  have hfewer : Fewer (Upsconf.settings lines) (Upsconf.settings lines') := fewer_settings h none
  have hsome : (Upsconf.settings lines').foldlM upsdArgs [] ≠ none := fun hnone => by
    obtain ⟨c, hc, hfail⟩ := (foldlM_eq_none_iff upsdArgs_eq_none [] _).1 hnone
    exact hfails c (hfewer.sublist.subset hc) hfail
  obtain ⟨upstable, hread⟩ := Option.ne_none_iff_exists'.1 hsome
  refine ⟨upstable, (readUpsconf_upsd lines').trans hread, funext fun n => ?_⟩
  rw [upsdOf_eq hread n]
  simp only [Upsdrvctl.ofSection, (hfewer.filter _).valuesOf]

/-- `upsdrvctl` reads a file without some of its flags as with them, if the flags at the heads of the sections are idle. -/
theorem upsdrvctl_harmless {st : Upsdrvctl.Ctl}
    (hread : (Upsconf.settings lines).foldlM Upsdrvctl.doUpsconfArgs ⟨[], 0, 45, drvpath⟩ = some st)
    (hflags : Upsdrvctl.FlagsIgnored (Upsconf.settings lines)) (hidle : FlagsIdle (Upsconf.settings lines)) (h : Unflagged lines lines') :
    ∃ st', Upsconf.readUpsconf Upsdrvctl.doUpsconfArgs ⟨[], 0, 45, drvpath⟩ lines' = some st' ∧
      upsdrvctlOf st' = upsdrvctlOf st ∧ st'.maxstartdelay = st.maxstartdelay ∧ st'.driverpath = st.driverpath := by
  have hfewer : Fewer (Upsconf.settings lines) (Upsconf.settings lines') := fewer_settings h none
  have hsome : (Upsconf.settings lines').foldlM Upsdrvctl.doUpsconfArgs ⟨[], 0, 45, drvpath⟩ ≠ none := fun hnone =>
    (Upsdrvctl.foldlM_names drvpath (Upsconf.settings lines')).1.1 hnone (hfewer.flagsIgnored hflags)
  obtain ⟨st', hread'⟩ := Option.ne_none_iff_exists'.1 hsome
  refine ⟨st', (readUpsconf_eq _ lines').trans hread', funext fun n => ?_, ?_⟩
  · have hsection : Fewer (Upsdrvctl.ofSection n (Upsconf.settings lines)) (Upsdrvctl.ofSection n (Upsconf.settings lines')) :=
      hfewer.filter _
    have hsdorder := hsection.last_tail "sdorder".toList fun flag hhead hflag c rest hrest val hval hvar hnone =>
      (hidle n flag hhead hflag c rest hrest val hval (hvar ▸ hnone)).1 hvar
    have hdelay := hsection.last_tail "maxstartdelay".toList fun flag hhead hflag c rest hrest val hval hvar hnone =>
      (hidle n flag hhead hflag c rest hrest val hval (hvar ▸ hnone)).2 hvar
    rw [upsdrvctlOf_eq hread' n, upsdrvctlOf_eq hread n, hsection.valuesOf, hsection.valuesOf, hsdorder, hdelay]
  · obtain ⟨hdelay, hpath⟩ := globals_eq hread
    obtain ⟨hdelay', hpath'⟩ := globals_eq hread'
    have hglobal : Fewer (beforeSections (Upsconf.settings lines)) (beforeSections (Upsconf.settings lines')) := hfewer.filter _
    rw [hdelay, hpath, hdelay', hpath', hglobal.valuesOf, hglobal.valuesOf]
    exact ⟨rfl, rfl⟩

/-- Where the flag at the head of a section goes, the first value counts no more. -/
theorem idle_of_last {cs rest : List Upsconf.Setting} {flag c : Upsconf.Setting} {val : CStr} {dflt : Int32}
    (hhead : cs.head? = some flag) (hflag : flag.val = none) (hrest : cs.filter (fun c => c.val.isSome) = c :: rest)
    (hval : c.val = some val) (hnone : Upsdrvctl.valuesOf c.var rest = [])
    (hlast : ((Upsdrvctl.valuesOf c.var (cs.filter fun c => c.val.isSome).tail).getLast?.map atoi).getD dflt =
      ((Upsdrvctl.valuesOf c.var cs.tail).getLast?.map atoi).getD dflt) : atoi val = dflt := by
  obtain ⟨tl, rfl⟩ := List.head?_eq_some_iff.1 hhead
  have hvalues : Upsdrvctl.valuesOf c.var tl = [val] := by
    have hall := valuesOf_valued c.var tl
    rw [List.filter_cons_of_neg (by rw [hflag]; exact Bool.false_ne_true)] at hrest
    rw [hrest, ← List.singleton_append, Upsdrvctl.valuesOf_append, Upsdrvctl.valuesOf_singleton, if_pos rfl, hval, hnone] at hall
    exact hall.symm
  rw [hrest, List.tail_cons, List.tail_cons, hnone, hvalues] at hlast
  exact hlast.symm

theorem Unflagged.refl (lines : List (List CStr)) : Unflagged lines lines := by
  induction lines with
  | nil => exact .nil
  | cons args lines ih => exact .keep args ih

end Files

/-- The readers of `ups.conf` survive a file, and have the same of it without any of its flags, exactly if no flag has a name
whose value they take and the flags at the heads of the sections are idle. -/
theorem ups_conf_harmless_iff (drvpath : CStr) (lines : List (List CStr)) :
    Harmless drvpath lines ↔ Upsdrvctl.FlagsIgnored (Upsconf.settings lines) ∧ (∀ c ∈ Upsconf.settings lines, ¬ UpsdFails c) ∧
      FlagsIdle (Upsconf.settings lines) := by
  constructor
  · intro h
    obtain ⟨upstable, hupsd, -⟩ := h.upsd
    obtain ⟨st, hst, hsame⟩ := h.upsdrvctl
    rw [readUpsconf_upsd] at hupsd
    rw [readUpsconf_eq] at hst
    refine ⟨?_, fun c hc hfail => ?_, fun n flag hhead hflag c rest hrest val hval hnone => ?_⟩
    · by_contra hflags
      exact Option.some_ne_none st (hst.symm.trans ((Upsdrvctl.foldlM_names drvpath _).1.2 hflags))
    · exact Option.some_ne_none upstable (hupsd.symm.trans ((foldlM_eq_none_iff upsdArgs_eq_none [] _).2 ⟨c, hc, hfail⟩))
    -- without any flag of the file it shows what one at the head of a section does
    · obtain ⟨st', hst', hview, -⟩ := hsame (withoutFlags lines) (unflagged_withoutFlags lines)
      rw [readUpsconf_eq] at hst'
      have hview := congrFun hview n
      have hsection : Upsdrvctl.ofSection n (Upsconf.settings (withoutFlags lines)) =
          (Upsdrvctl.ofSection n (Upsconf.settings lines)).filter fun c => c.val.isSome := by
        rw [settings_withoutFlags, Upsdrvctl.ofSection, Upsdrvctl.ofSection, List.filter_filter, List.filter_filter]
        exact List.filter_congr fun c _ => Bool.and_comm _ _
      rw [upsdrvctlOf_eq hst' n, upsdrvctlOf_eq hst n, hsection] at hview
      have hfields := Prod.ext_iff.1 (Prod.ext_iff.1 (Prod.ext_iff.1 hview).2).2
      exact ⟨fun hvar => idle_of_last hhead hflag hrest hval hnone (hvar ▸ hfields.1),
        fun hvar => idle_of_last hhead hflag hrest hval hnone (hvar ▸ hfields.2)⟩
  · rintro ⟨hflags, hfails, hidle⟩
    obtain ⟨upstable, hupsd, hview⟩ := upsd_harmless hfails (Unflagged.refl lines)
    have hsome : (Upsconf.settings lines).foldlM Upsdrvctl.doUpsconfArgs ⟨[], 0, 45, drvpath⟩ ≠ none := fun hnone =>
      (Upsdrvctl.foldlM_names drvpath (Upsconf.settings lines)).1.1 hnone hflags
    obtain ⟨st, hread⟩ := Option.ne_none_iff_exists'.1 hsome
    refine ⟨⟨upstable, hupsd, fun lines' hlines' => ?_⟩, st, (readUpsconf_eq _ lines).trans hread,
      fun lines' hlines' => upsdrvctl_harmless hread hflags hidle hlines'⟩
    obtain ⟨upstable', hupsd', hview'⟩ := upsd_harmless hfails hlines'
    exact ⟨upstable', hupsd', hview'.trans hview.symm⟩

/-- A flag with the name of the driver ends both programs. -/
theorem bare_driver_fails : ¬ Harmless "/bin".toList [["[ups]".toList], ["driver".toList]] := by
  intro h
  obtain ⟨upstable, hread, -⟩ := h.upsd
  have hnone : Nut.readUpsconf [["[ups]".toList], ["driver".toList]] = none := by decide +kernel
  cases hnone.symm.trans hread

end Flags

end Nut
