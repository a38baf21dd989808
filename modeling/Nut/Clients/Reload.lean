import Mathlib.Data.List.Nodup
import Mathlib.Data.List.Perm.Basic
import Nut.Clients.Upsmon

/-!
# Reloading `upsmon.conf`

Of the `MONITOR` lines that name one UPS, `addups` keeps the first at the start and the last at a reload, which adds
the power value of each of them to `totalpv`; a role that is neither `master` nor `slave` means a slave at the start and
no change at a reload.  Where none of this shows, a reload leaves what a restart would (`reload_restart_iff`).
-/

namespace Nut.Upsmon

/-- The words of a `MONITOR` line. -/
structure Monitor where
  sys : CStr
  pv : Int32
  un : CStr
  pw : CStr
  master : CStr
  deriving DecidableEq

/-- A `MONITOR` line that is not ignored. -/
def monitorOf : List CStr → Option Monitor
  | arg0 :: sys :: pvs :: un :: pw :: master :: _ =>
    if arg0 = "MONITOR".toList ∧ ¬atoi pvs < 0 then some ⟨sys, atoi pvs, un, pw, master⟩ else none
  | _ => none

def monitors (lines : List (List CStr)) : List Monitor := lines.filterMap monitorOf

/-- The lines about one UPS. -/
def linesOf (sys : CStr) (lines : List (List CStr)) : List Monitor := (monitors lines).filter fun m => m.sys = sys

/-- What a line makes of a UPS in that role. -/
def roleStep (isMaster : Bool) (m : Monitor) : Bool :=
  if strcasecmp m.master "master".toList = .eq then true
  else if strcasecmp m.master "slave".toList = .eq then false
  else isMaster

/-- The lines that name a UPS of an earlier line or of `seen`. -/
def repeated (seen : List CStr) : List Monitor → List Monitor
  | [] => []
  | m :: ms => if m.sys ∈ seen then m :: repeated seen ms else repeated (m.sys :: seen) ms

/-- What a UPS is monitored with. -/
structure Config where
  sys : CStr
  pv : Int32
  un : CStr
  pw : CStr
  isMaster : Bool
  deriving DecidableEq

def Utype.config (ups : Utype) : Config := ⟨ups.sys, ups.pv, ups.un, ups.pw, flagIsset ups.status stMaster⟩

/-- No name is in the list twice. -/
def Unique (upses : List Utype) : Prop := (upses.map Utype.sys).Nodup

/-- The same UPSes with the same settings, and `totalpv` is the sum of their power values. -/
structure SameMonitored (s s' : State) : Prop where
  config : ∀ c, c ∈ s.firstups.map Utype.config ↔ c ∈ s'.firstups.map Utype.config
  totalpv : s.totalpv = s'.totalpv
  sum : s.totalpv = (s.firstups.map Utype.pv).sum

/-- The UPS is in the list as a master. -/
def wasMaster (upses : List Utype) (sys : CStr) : Bool :=
  upses.any fun ups => ups.sys = sys ∧ flagIsset ups.status stMaster = true

/-- For each UPS, the last line says what the first one does, the role of the first one is in force after all of them, and
the power values of the repeated lines add up to nothing. -/
structure LikeFirst (s : State) (lines : List (List CStr)) : Prop where
  last : ∀ sys first last, (linesOf sys lines).head? = some first → (linesOf sys lines).getLast? = some last →
    last.pv = first.pv ∧ last.un = first.un ∧ last.pw = first.pw
  role : ∀ sys first, (linesOf sys lines).head? = some first →
    (linesOf sys lines).foldl roleStep (wasMaster s.firstups sys) = roleStep false first
  total : ((repeated [] (monitors lines)).map Monitor.pv).sum = 0

/-! ### One line -/

@[simp] theorem dropConnection_master (ups : Utype) :
    flagIsset (dropConnection ups).status stMaster = flagIsset ups.status stMaster := by
  unfold dropConnection stLogin stConnected stMaster
  rw [flagIsset_clearflag _ (by omega), flagIsset_clearflag _ (by omega)]
  simp

private theorem retryConnection_config (ups : Utype) :
    (retryConnection ups).config = ups.config ∧ (retryConnection ups).retain = ups.retain := by
  unfold retryConnection
  split
  · exact ⟨rfl, rfl⟩
  · rw [Utype.config, dropConnection_master]
    exact ⟨rfl, rfl⟩

private theorem redefineUn_config (ups : Utype) (un : CStr) :
    (redefineUn ups un).config = { ups.config with un := un } ∧ (redefineUn ups un).retain = ups.retain := by
  unfold redefineUn
  split
  · exact retryConnection_config _
  · rename_i h
    rw [← not_not.1 h]
    exact ⟨rfl, rfl⟩

private theorem redefinePw_config (ups : Utype) (pw : CStr) :
    (redefinePw ups pw).config = { ups.config with pw := pw } ∧ (redefinePw ups pw).retain = ups.retain := by
  unfold redefinePw
  split
  · exact retryConnection_config _
  · rename_i h
    rw [← not_not.1 h]
    exact ⟨rfl, rfl⟩

private theorem redefineMaster_config (ups : Utype) (m : Monitor) :
    (redefineMaster ups m.master).config = { ups.config with isMaster := roleStep ups.config.isMaster m } ∧
      (redefineMaster ups m.master).retain = ups.retain := by
  have hset : flagIsset (setflag ups.status stMaster) stMaster = true := by
    rw [stMaster, flagIsset_setflag _ (by omega)]
    simp
  have hclear : flagIsset (clearflag ups.status stMaster) stMaster = false := by
    rw [stMaster, flagIsset_clearflag _ (by omega)]
    simp
  have hboth : strcasecmp m.master "master".toList = .eq → strcasecmp m.master "slave".toList ≠ .eq := by
    intro h1 h2
    rw [strcasecmp_eq] at h1 h2
    exact absurd (h1.symm.trans h2) (by decide)
  unfold redefineMaster roleStep Utype.config
  cases hrole : flagIsset ups.status stMaster with
  | false =>
    by_cases h1 : strcasecmp m.master "master".toList = .eq
    · rw [if_pos ⟨h1, rfl⟩, if_pos h1, dropConnection_master, hset]
      exact ⟨rfl, rfl⟩
    · rw [if_neg fun h => h1 h.1, if_neg fun h => Bool.false_ne_true h.2, if_neg h1, ite_self, hrole]
      exact ⟨rfl, rfl⟩
  | true =>
    rw [if_neg fun h => Bool.false_ne_true h.2.symm]
    by_cases h2 : strcasecmp m.master "slave".toList = .eq
    · rw [if_pos ⟨h2, rfl⟩, if_neg fun h1 => hboth h1 h2, if_pos h2, hclear]
      exact ⟨rfl, rfl⟩
    · rw [if_neg fun h => h2 h.1, if_neg h2, ite_self, hrole]
      exact ⟨rfl, rfl⟩

/-- The settings of the line are in force, and its role if it has one. -/
theorem redefineUps_config (ups : Utype) (m : Monitor) :
    (redefineUps ups m.pv m.un m.pw m.master).config = ⟨ups.sys, m.pv, m.un, m.pw, roleStep ups.config.isMaster m⟩ ∧
      (redefineUps ups m.pv m.un m.pw m.master).retain = true := by
  obtain ⟨hun, hun'⟩ := redefineUn_config { ups with retain := true, pv := m.pv } m.un
  obtain ⟨hpw, hpw'⟩ := redefinePw_config (redefineUn { ups with retain := true, pv := m.pv } m.un) m.pw
  obtain ⟨hm, hm'⟩ := redefineMaster_config (redefinePw (redefineUn { ups with retain := true, pv := m.pv } m.un) m.pw) m
  refine ⟨?_, hm'.trans (hpw'.trans hun')⟩
  rw [redefineUps, hm, hpw, hun]
  rfl

private theorem newUps_config (upsname : Option CStr) (m : Monitor) :
    (newUps m.sys upsname m.pv m.un m.pw m.master).config = ⟨m.sys, m.pv, m.un, m.pw, roleStep false m⟩ := by
  have hset : flagIsset (setflag 0 stMaster) stMaster = true := by decide
  have hzero : flagIsset 0 stMaster = false := by decide
  unfold newUps Utype.config roleStep
  by_cases h1 : strcasecmp m.master "master".toList = .eq
  · rw [if_pos h1, if_pos h1, hset]
  · rw [if_neg h1, if_neg h1, ite_self, hzero]

/-! ### The entry of a UPS -/

/-- The settings of a UPS, and whether a line of the file kept it. -/
def look (upses : List Utype) (sys : CStr) : Option (Config × Bool) :=
  (upses.find? fun ups => ups.sys = sys).map fun ups => (ups.config, ups.retain)

/-- What a line makes of the entry of its UPS. -/
def lineStep (reloading : Bool) (m : Monitor) : Option (Config × Bool) → Option (Config × Bool)
  | none => some (⟨m.sys, m.pv, m.un, m.pw, roleStep false m⟩, true)
  | some (c, kept) =>
    if reloading then some (⟨m.sys, m.pv, m.un, m.pw, roleStep c.isMaster m⟩, true) else some (c, kept)

private theorem look_eq_none {upses : List Utype} {sys : CStr} : look upses sys = none ↔ sys ∉ upses.map Utype.sys := by
  simp [look]

private theorem look_append (upses : List Utype) (ups : Utype) (sys : CStr) : look (upses ++ [ups]) sys =
    (look upses sys).or (if ups.sys = sys then some (ups.config, ups.retain) else none) := by
  simp only [look, List.find?_append]
  cases upses.find? fun ups => ups.sys = sys with
  | some u => rfl
  | none => by_cases h : ups.sys = sys <;> simp [h]

private theorem look_map (upses : List Utype) (f : Utype → Utype) (hf : ∀ ups, (f ups).sys = ups.sys) (sys : CStr) :
    look (upses.map f) sys = (upses.find? fun ups => ups.sys = sys).map fun ups => ((f ups).config, (f ups).retain) := by
  have hcomp : ((fun ups : Utype => decide (ups.sys = sys)) ∘ f) = fun ups => decide (ups.sys = sys) := by
    funext ups
    simp [hf]
  rw [look, List.find?_map, hcomp, Option.map_map]
  rfl

/-- What a `MONITOR` line does: only the entry of its UPS changes. -/
theorem addups_spec {reloading : Bool} {s s' : State} {m : Monitor} {pvs : CStr} (hpv : atoi pvs = m.pv) (hneg : ¬m.pv < 0)
    (hs : Unique s.firstups) (h : addups reloading s m.sys pvs m.un m.pw m.master = some s') :
    Unique s'.firstups ∧ (∀ sys, sys ∈ s'.firstups.map Utype.sys ↔ sys = m.sys ∨ sys ∈ s.firstups.map Utype.sys) ∧
      (∀ sys, look s'.firstups sys =
        if m.sys = sys then lineStep reloading m (look s.firstups sys) else look s.firstups sys) ∧
      s'.totalpv = if reloading = false ∧ m.sys ∈ s.firstups.map Utype.sys then s.totalpv else s.totalpv + m.pv := by
  have hany : (s.firstups.any fun tmp => tmp.sys = m.sys) = true ↔ m.sys ∈ s.firstups.map Utype.sys := by
    simp only [List.any_eq_true, decide_eq_true_eq, List.mem_map]
  unfold addups at h
  rw [hpv, if_neg hneg] at h
  by_cases hmem : m.sys ∈ s.firstups.map Utype.sys
  · rw [if_pos (hany.2 hmem)] at h
    have hnames : ∀ sys, sys = m.sys ∨ sys ∈ s.firstups.map Utype.sys ↔ sys ∈ s.firstups.map Utype.sys :=
      fun sys => ⟨Or.rec (fun he => he ▸ hmem) id, .inr⟩
    cases reloading with
    | false =>
      obtain rfl : s = s' := by simpa using h
      refine ⟨hs, fun sys => (hnames sys).symm, fun sys => ?_, by simp [hmem]⟩
      split
      · rename_i hsys
        cases hlook : look s.firstups sys with
        | none => exact absurd (hsys ▸ hmem) (look_eq_none.1 hlook)
        | some c => rfl
      · rfl
    | true =>
      obtain rfl := Option.some.inj h
      have hsys : ∀ ups : Utype, (if ups.sys = m.sys then redefineUps ups m.pv m.un m.pw m.master else ups).sys = ups.sys := by
        intro ups
        split
        · exact congrArg Config.sys (redefineUps_config ups m).1
        · rfl
      have hmap : (s.firstups.map fun tmp => if tmp.sys = m.sys then redefineUps tmp m.pv m.un m.pw m.master else tmp).map
          Utype.sys = s.firstups.map Utype.sys := by
        rw [List.map_map]
        exact List.map_congr_left fun ups _ => hsys ups
      refine ⟨?_, fun sys => ?_, fun sys => ?_, by simp⟩
      · rw [Unique, hmap]
        exact hs
      · rw [hmap]
        exact (hnames sys).symm
      · rw [look_map _ _ hsys, look]
        cases hfind : s.firstups.find? fun ups => ups.sys = sys with
        | none =>
          split
          · rename_i he
            exact absurd (he ▸ hmem) (look_eq_none.1 (by rw [look, hfind]; rfl))
          · rfl
        | some ups =>
          obtain rfl : ups.sys = sys := by simpa using List.find?_some hfind
          rw [Option.map_some, Option.map_some]
          by_cases he : m.sys = ups.sys
          · obtain ⟨hc, hr⟩ := redefineUps_config ups m
            rw [if_pos he, if_pos he.symm, hc, hr, lineStep, if_pos rfl, he]
          · rw [if_neg he, if_neg (Ne.symm he)]
  · rw [if_neg fun hc => hmem (hany.1 hc)] at h
    obtain ⟨upsname, -, rfl⟩ := Option.map_eq_some_iff.1 h
    have hnew : (newUps m.sys upsname m.pv m.un m.pw m.master).sys = m.sys := rfl
    refine ⟨?_, fun sys => ?_, fun sys => ?_, by simp [hmem]⟩
    · rw [Unique, List.map_append, List.map_singleton, hnew]
      exact List.Nodup.append hs (List.nodup_singleton _) (by simpa using hmem)
    · rw [List.map_append, List.mem_append, or_comm]
      simp only [List.map_singleton, List.mem_singleton, hnew]
    · rw [look_append, hnew, newUps_config]
      split
      · rename_i he
        rw [look_eq_none.2 (he ▸ hmem)]
        rfl
      · rw [Option.or_none]

/-! ### The whole file -/

private theorem parseConfArg_of_none {reloading : Bool} {s s' : State} {line : List CStr} (hline : monitorOf line = none)
    (h : parseConfArg reloading s line = some s') : s'.firstups = s.firstups ∧ s'.totalpv = s.totalpv := by
  rcases parseConfArg_cases h with hsame | ⟨sys, pvs, un, pw, master, rest, rfl, hadd⟩
  · exact hsame
  · have hneg : atoi pvs < 0 := by
      by_contra hneg
      rw [monitorOf, if_pos ⟨rfl, hneg⟩] at hline
      exact absurd hline (Option.some_ne_none _)
    simp only [addups, if_pos hneg] at hadd
    obtain rfl := Option.some.inj hadd
    exact ⟨rfl, rfl⟩

private theorem parseConfArg_of_some {reloading : Bool} {s s' : State} {line : List CStr} {m : Monitor}
    (hline : monitorOf line = some m) (h : parseConfArg reloading s line = some s') :
    ∃ pvs, atoi pvs = m.pv ∧ ¬m.pv < 0 ∧ addups reloading s m.sys pvs m.un m.pw m.master = some s' := by
  unfold monitorOf at hline
  split at hline
  · rename_i arg0 sys pvs un pw master rest
    split_ifs at hline with hm
    obtain rfl := Option.some.inj hline
    obtain ⟨rfl, hneg⟩ := hm
    exact ⟨pvs, rfl, hneg, h⟩
  · simp at hline

private theorem repeated_congr {seen seen' : List CStr} (h : ∀ sys, sys ∈ seen ↔ sys ∈ seen') (ms : List Monitor) :
    repeated seen ms = repeated seen' ms := by
  induction ms generalizing seen seen' with
  | nil => rfl
  | cons m ms ih =>
    have hcons : ∀ sys, sys ∈ m.sys :: seen ↔ sys ∈ m.sys :: seen' := fun sys => by simp [h]
    simp only [repeated, h, ih h, ih hcons]

/-- The entries after some lines are those that the lines make of them one after the other. -/
theorem loadconfig_spec {reloading : Bool} {s s' : State} {lines : List (List CStr)} (hs : Unique s.firstups)
    (h : loadconfig reloading s lines = some s') : Unique s'.firstups ∧
      (∀ sys, look s'.firstups sys = (linesOf sys lines).foldl (fun o m => lineStep reloading m o) (look s.firstups sys)) ∧
      s'.totalpv + (if reloading then 0 else ((repeated (s.firstups.map Utype.sys) (monitors lines)).map Monitor.pv).sum) =
        s.totalpv + ((monitors lines).map Monitor.pv).sum := by
  induction lines generalizing s with
  | nil =>
    obtain rfl : s = s' := by simpa [loadconfig] using h
    refine ⟨hs, fun sys => rfl, ?_⟩
    cases reloading <;> rfl
  | cons line lines ih =>
    rw [loadconfig, List.foldlM_cons] at h
    obtain ⟨s1, h1, h2⟩ := Option.bind_eq_some_iff.1 h
    cases hline : monitorOf line with
    | none =>
      obtain ⟨hups, htotal⟩ := parseConfArg_of_none hline h1
      have hmon : monitors (line :: lines) = monitors lines := by simp [monitors, hline]
      have hlines : ∀ sys, linesOf sys (line :: lines) = linesOf sys lines := fun sys => by rw [linesOf, linesOf, hmon]
      obtain ⟨hu, hl, ht⟩ := ih (hups ▸ hs) h2
      rw [hmon]
      rw [hups] at hl ht
      rw [htotal] at ht
      exact ⟨hu, fun sys => by rw [hlines, hl], ht⟩
    | some m =>
      obtain ⟨pvs, hpv, hneg, hadd⟩ := parseConfArg_of_some hline h1
      obtain ⟨hu1, hnames, hlook, htotal⟩ := addups_spec hpv hneg hs hadd
      obtain ⟨hu, hl, ht⟩ := ih hu1 h2
      have hmon : monitors (line :: lines) = m :: monitors lines := by simp [monitors, hline]
      refine ⟨hu, fun sys => ?_, ?_⟩
      · rw [hl, hlook, linesOf, linesOf, hmon, List.filter_cons]
        by_cases he : m.sys = sys <;> simp [he]
      · rw [hmon, List.map_cons, List.sum_cons]
        cases reloading with
        | true =>
          simp only [Bool.true_eq_false, false_and, if_false, if_true] at ht htotal ⊢
          rw [ht, htotal, Int32.add_assoc]
        | false =>
          simp only [Bool.false_eq_true, if_false, true_and] at ht htotal ⊢
          by_cases hmem : m.sys ∈ s.firstups.map Utype.sys
          · have hsame : ∀ sys, sys ∈ s1.firstups.map Utype.sys ↔ sys ∈ s.firstups.map Utype.sys := fun sys =>
              (hnames sys).trans ⟨Or.rec (fun he => he ▸ hmem) id, .inr⟩
            rw [repeated_congr hsame, htotal, if_pos hmem] at ht
            simp only [repeated, if_pos hmem, List.map_cons, List.sum_cons]
            grind
          · have hsame : ∀ sys, sys ∈ s1.firstups.map Utype.sys ↔ sys ∈ m.sys :: s.firstups.map Utype.sys := fun sys =>
              (hnames sys).trans (by simp)
            rw [repeated_congr hsame, htotal, if_neg hmem] at ht
            simp only [repeated, if_neg hmem]
            grind

/-! ### The entries after a start and after a reload -/

private theorem sys_of_linesOf {sys : CStr} {lines : List (List CStr)} {m : Monitor} (h : m ∈ linesOf sys lines) : m.sys = sys := by
  simpa using (List.mem_filter.1 h).2

/-- At the start the first line stays. -/
private theorem foldl_start (ms : List Monitor) (c : Config) (kept : Bool) :
    ms.foldl (fun o m => lineStep false m o) (some (c, kept)) = some (c, kept) := by
  induction ms with
  | nil => rfl
  | cons m ms ih => exact ih

/-- At a reload the last line stays, but for the role. -/
private theorem foldl_reload {ms : List Monitor} {last : Monitor} (hlast : ms.getLast? = some last)
    (o : Option (Config × Bool)) : ms.foldl (fun o m => lineStep true m o) o =
      some (⟨last.sys, last.pv, last.un, last.pw, ms.foldl roleStep (o.elim false fun c => c.1.isMaster)⟩, true) := by
  induction ms generalizing o with
  | nil => simp at hlast
  | cons m ms ih =>
    have hstep : lineStep true m o =
        some (⟨m.sys, m.pv, m.un, m.pw, roleStep (o.elim false fun c => c.1.isMaster) m⟩, true) := by
      rcases o with _ | ⟨c, kept⟩ <;> rfl
    rw [List.foldl_cons, List.foldl_cons, hstep]
    rcases ms with _ | ⟨m', ms⟩
    · obtain rfl : m = last := by simpa using hlast
      rfl
    · exact ih (by simpa using hlast) _

private theorem find_eq_some {upses : List Utype} (hu : Unique upses) {ups : Utype} (h : ups ∈ upses) :
    upses.find? (fun u => u.sys = ups.sys) = some ups := by
  cases hfind : upses.find? fun u => u.sys = ups.sys with
  | none => exact absurd (List.find?_eq_none.1 hfind ups h) (by simp)
  | some u =>
    have hsys : u.sys = ups.sys := by simpa using List.find?_some hfind
    exact congrArg some (List.inj_on_of_nodup_map hu (List.mem_of_find?_eq_some hfind) h hsys)

private theorem look_of_mem {upses : List Utype} (hu : Unique upses) {ups : Utype} (h : ups ∈ upses) :
    look upses ups.sys = some (ups.config, ups.retain) := by
  rw [look, find_eq_some hu h, Option.map_some]

private theorem mem_of_look {upses : List Utype} {sys : CStr} {c : Config × Bool} (h : look upses sys = some c) :
    ∃ ups ∈ upses, ups.sys = sys ∧ c = (ups.config, ups.retain) := by
  obtain ⟨ups, hfind, rfl⟩ := Option.map_eq_some_iff.1 h
  exact ⟨ups, List.mem_of_find?_eq_some hfind, by simpa using List.find?_some hfind, rfl⟩

private theorem sys_of_look {upses : List Utype} {sys : CStr} {c : Config} (h : (look upses sys).map Prod.fst = some c) :
    c.sys = sys := by
  obtain ⟨d, hlook, rfl⟩ := Option.map_eq_some_iff.1 h
  obtain ⟨ups, -, rfl, rfl⟩ := mem_of_look hlook
  rfl

private theorem wasMaster_eq {upses : List Utype} (hu : Unique upses) (sys : CStr) :
    wasMaster upses sys = (look upses sys).elim false fun c => c.1.isMaster := by
  rw [Bool.eq_iff_iff]
  simp only [wasMaster, List.any_eq_true, decide_eq_true_eq]
  constructor
  · rintro ⟨ups, hmem, rfl, hmaster⟩
    rw [look_of_mem hu hmem]
    exact hmaster
  · cases hlook : look upses sys with
    | none => simp
    | some c =>
      obtain ⟨ups, hmem, rfl, rfl⟩ := mem_of_look hlook
      exact fun hmaster => ⟨ups, hmem, rfl, hmaster⟩

private theorem unique_filter {upses : List Utype} (hu : Unique upses) (p : Utype → Bool) : Unique (upses.filter p) :=
  List.Nodup.sublist (List.filter_sublist.map Utype.sys) hu

private theorem look_filter {upses : List Utype} (hu : Unique upses) (sys : CStr) :
    look (upses.filter fun tmp => tmp.retain) sys = (look upses sys).filter fun c => c.2 := by
  cases hlook : look upses sys with
  | none =>
    rw [look_eq_none] at hlook
    refine look_eq_none.2 fun hmem => hlook ?_
    exact (List.filter_sublist.map Utype.sys).subset hmem
  | some c =>
    obtain ⟨ups, hmem, rfl, rfl⟩ := mem_of_look hlook
    cases hretain : ups.retain with
    | true =>
      rw [look_of_mem (unique_filter hu _) (List.mem_filter.2 ⟨hmem, hretain⟩), hretain]
      rfl
    | false =>
      refine look_eq_none.2 fun hsys => ?_
      obtain ⟨u, hu', he⟩ := List.mem_map.1 hsys
      obtain ⟨hu', hkept⟩ := List.mem_filter.1 hu'
      obtain rfl := List.inj_on_of_nodup_map hu hu' hmem he
      simp [hretain] at hkept

private theorem mem_config {upses : List Utype} (hu : Unique upses) (c : Config) :
    c ∈ upses.map Utype.config ↔ (look upses c.sys).map Prod.fst = some c := by
  rw [List.mem_map]
  constructor
  · rintro ⟨ups, hmem, rfl⟩
    rw [show ups.config.sys = ups.sys from rfl, look_of_mem hu hmem]
    rfl
  · intro h
    obtain ⟨d, hlook, rfl⟩ := Option.map_eq_some_iff.1 h
    obtain ⟨ups, hmem, -, rfl⟩ := mem_of_look hlook
    exact ⟨ups, hmem, rfl⟩

/-- The settings after a start. -/
theorem start_look {s : State} {lines : List (List CStr)} (h : start lines = some s) : Unique s.firstups ∧
    (∀ sys, (look s.firstups sys).map Prod.fst =
      (linesOf sys lines).head?.map fun first => ⟨sys, first.pv, first.un, first.pw, roleStep false first⟩) ∧
    s.totalpv + ((repeated [] (monitors lines)).map Monitor.pv).sum = ((monitors lines).map Monitor.pv).sum := by
  obtain ⟨s1, hload, h⟩ := Option.bind_eq_some_iff.1 h
  split_ifs at h
  obtain rfl := Option.some.inj h
  have hinit : Unique State.initial.firstups := List.nodup_nil
  obtain ⟨hu, hlook, htotal⟩ := loadconfig_spec hinit hload
  refine ⟨hu, fun sys => ?_, htotal.trans (Int32.zero_add _)⟩
  rw [hlook, show look State.initial.firstups sys = none from rfl]
  cases hlines : linesOf sys lines with
  | nil => rfl
  | cons first ms =>
    rw [List.foldl_cons, lineStep, foldl_start, sys_of_linesOf (hlines ▸ List.mem_cons_self ..)]
    rfl

/-- The settings after a reload. -/
theorem reload_look {s s' : State} {lines : List (List CStr)} (hs : Unique s.firstups)
    (h : reloadConf s (some lines) = some s') : Unique s'.firstups ∧
    (∀ sys, (look s'.firstups sys).map Prod.fst = (linesOf sys lines).getLast?.map fun last =>
      ⟨sys, last.pv, last.un, last.pw, (linesOf sys lines).foldl roleStep (wasMaster s.firstups sys)⟩) ∧
    s'.totalpv = ((monitors lines).map Monitor.pv).sum := by
  obtain ⟨s1, hload, h⟩ := Option.bind_eq_some_iff.1 h
  simp only at h
  split_ifs at h
  obtain rfl := Option.some.inj h
  have hclear : Unique (s.firstups.map fun tmp => { tmp with retain := false }) := by
    rw [Unique, List.map_map]
    exact hs
  obtain ⟨hu, hlook, htotal⟩ := loadconfig_spec hclear hload
  refine ⟨unique_filter hu _, fun sys => ?_, ?_⟩
  · have hold : look (s.firstups.map fun tmp => { tmp with retain := false }) sys =
        (look s.firstups sys).map fun c => (c.1, false) := by
      rw [look_map s.firstups (fun tmp => { tmp with retain := false }) fun _ => rfl, look, Option.map_map]
      rfl
    rw [look_filter hu, hlook, hold]
    cases hlast : (linesOf sys lines).getLast? with
    | none =>
      rw [List.getLast?_eq_none_iff.1 hlast]
      cases look s.firstups sys <;> rfl
    | some last =>
      have hrole : ((look s.firstups sys).map fun c => (c.1, false)).elim false (fun c => c.1.isMaster) =
          wasMaster s.firstups sys := by
        rw [wasMaster_eq hs]
        cases look s.firstups sys <;> rfl
      rw [foldl_reload hlast, hrole, sys_of_linesOf (List.mem_of_getLast? hlast)]
      rfl
  · have hzero : ∀ n : Int32, n + 0 = n := Int32.add_zero
    simpa only [if_true, hzero, Int32.zero_add] using htotal

private theorem sum_perm {l l' : List Int32} (h : l.Perm l') : l.sum = l'.sum := by
  induction h with
  | nil => rfl
  | cons x h ih => rw [List.sum_cons, List.sum_cons, ih]
  | swap x y l =>
    simp only [List.sum_cons]
    grind
  | trans h1 h2 ih1 ih2 => exact ih1.trans ih2

private theorem sum_snoc (l : List Int32) (x : Int32) : (l ++ [x]).sum = l.sum + x := by
  induction l with
  | nil =>
    simp only [List.nil_append, List.sum_cons, List.sum_nil]
    grind
  | cons y l ih =>
    simp only [List.cons_append, List.sum_cons, ih]
    grind

/-- Until a reload `totalpv` follows the list. -/
theorem loadconfig_sum {s s' : State} {lines : List (List CStr)} (hs : s.totalpv = (s.firstups.map Utype.pv).sum)
    (h : loadconfig false s lines = some s') : s'.totalpv = (s'.firstups.map Utype.pv).sum := by
  induction lines generalizing s with
  | nil =>
    obtain rfl : s = s' := by simpa [loadconfig] using h
    exact hs
  | cons line lines ih =>
    rw [loadconfig, List.foldlM_cons] at h
    obtain ⟨s1, h1, h2⟩ := Option.bind_eq_some_iff.1 h
    refine ih ?_ h2
    cases hline : monitorOf line with
    | none =>
      obtain ⟨hups, htotal⟩ := parseConfArg_of_none hline h1
      rw [hups, htotal, hs]
    | some m =>
      obtain ⟨pvs, hpv, hneg, hadd⟩ := parseConfArg_of_some hline h1
      simp only [addups, hpv, if_neg hneg, Bool.false_eq_true, if_false] at hadd
      split_ifs at hadd
      · obtain rfl := Option.some.inj hadd
        exact hs
      · obtain ⟨upsname, -, rfl⟩ := Option.map_eq_some_iff.1 hadd
        rw [List.map_append, List.map_singleton, sum_snoc, ← hs]
        rfl

private theorem start_sum {s : State} {lines : List (List CStr)} (h : start lines = some s) :
    s.totalpv = (s.firstups.map Utype.pv).sum := by
  obtain ⟨s1, hload, h⟩ := Option.bind_eq_some_iff.1 h
  split_ifs at h
  obtain rfl := Option.some.inj h
  exact loadconfig_sum rfl hload

private theorem config_perm {upses upses' : List Utype} (hu : Unique upses) (hu' : Unique upses')
    (h : ∀ c, c ∈ upses.map Utype.config ↔ c ∈ upses'.map Utype.config) :
    (upses.map Utype.config).Perm (upses'.map Utype.config) := by
  have hnodup : ∀ {l : List Utype}, Unique l → (l.map Utype.config).Nodup := by
    intro l hl
    refine List.Nodup.of_map Config.sys ?_
    rw [List.map_map]
    exact hl
  exact (List.perm_ext_iff_of_nodup (hnodup hu) (hnodup hu')).2 h

/-- The states of a running `upsmon`: polling the UPSes does not change what they are monitored with. -/
inductive Running : State → Prop
  | start {lines : List (List CStr)} {s : State} (h : start lines = some s) : Running s
  | poll {s s' : State} (h : Running s) (hconfig : s'.firstups.map Utype.config = s.firstups.map Utype.config)
      (htotalpv : s'.totalpv = s.totalpv) : Running s'
  | reload {s s' : State} {file : Option (List (List CStr))} (h : Running s) (hr : reloadConf s file = some s') : Running s'

/-- The list has no name twice. -/
theorem Running.unique {s : State} (h : Running s) : Unique s.firstups := by
  induction h with
  | start h => exact (start_look h).1
  | @poll s s' _ hconfig _ ih =>
    have hsys : ∀ l : List Utype, l.map Utype.sys = (l.map Utype.config).map Config.sys := fun l => by
      rw [List.map_map]
      rfl
    rwa [Unique, hsys, hconfig, ← hsys]
  | @reload s s' file _ hr ih =>
    cases file with
    | none =>
      obtain rfl := Option.some.inj hr
      exact ih
    | some lines => exact (reload_look ih hr).1

/-- A reload leaves what a restart would exactly when the repeated lines only say what the first ones do. -/
theorem reload_restart_iff {s r f : State} {lines : List (List CStr)} (hs : Running s)
    (hr : reloadConf s (some lines) = some r) (hf : start lines = some f) : SameMonitored r f ↔ LikeFirst s lines := by
  obtain ⟨hur, hlr, htr⟩ := reload_look hs.unique hr
  obtain ⟨huf, hlf, htf⟩ := start_look hf
  have htotal : r.totalpv = f.totalpv ↔ ((repeated [] (monitors lines)).map Monitor.pv).sum = 0 := by
    rw [htr, ← htf]
    constructor <;> intro h <;> grind
  have hconfig : (∀ c, c ∈ r.firstups.map Utype.config ↔ c ∈ f.firstups.map Utype.config) ↔
      ∀ sys, (look r.firstups sys).map Prod.fst = (look f.firstups sys).map Prod.fst := by
    simp only [mem_config hur, mem_config huf]
    constructor
    · intro h sys
      refine Option.ext fun c => ⟨fun hc => ?_, fun hc => ?_⟩
      · obtain rfl := sys_of_look hc
        exact (h c).1 hc
      · obtain rfl := sys_of_look hc
        exact (h c).2 hc
    · exact fun h c => by rw [h]
  have hsys : ∀ sys, (look r.firstups sys).map Prod.fst = (look f.firstups sys).map Prod.fst ↔
      ∀ first last, (linesOf sys lines).head? = some first → (linesOf sys lines).getLast? = some last →
        (last.pv = first.pv ∧ last.un = first.un ∧ last.pw = first.pw) ∧
          (linesOf sys lines).foldl roleStep (wasMaster s.firstups sys) = roleStep false first := by
    intro sys
    rw [hlr, hlf]
    cases hhead : (linesOf sys lines).head? with
    | none => simp [List.head?_eq_none_iff.1 hhead]
    | some first =>
      obtain ⟨last, hlast⟩ := Option.isSome_iff_exists.1 (List.getLast?_isSome.2 (List.ne_nil_of_mem (List.mem_of_head? hhead)))
      simp only [hlast, Option.map_some, Option.some.injEq, Config.mk.injEq, true_and]
      constructor
      · rintro ⟨h1, h2, h3, h4⟩ first last rfl rfl
        exact ⟨⟨h1, h2, h3⟩, h4⟩
      · intro h
        obtain ⟨⟨h1, h2, h3⟩, h4⟩ := h first last rfl rfl
        exact ⟨h1, h2, h3, h4⟩
  constructor
  · intro h
    have hall := hconfig.1 h.config
    refine ⟨fun sys first last hhead hlast => ((hsys sys).1 (hall sys) first last hhead hlast).1, fun sys first hhead => ?_,
      htotal.1 h.totalpv⟩
    obtain ⟨last, hlast⟩ := Option.isSome_iff_exists.1 (List.getLast?_isSome.2 (List.ne_nil_of_mem (List.mem_of_head? hhead)))
    exact ((hsys sys).1 (hall sys) first last hhead hlast).2
  · intro h
    have hc := hconfig.2 fun sys => (hsys sys).2 fun first last hhead hlast => ⟨h.last sys first last hhead hlast, h.role sys first hhead⟩
    have hpv := (config_perm hur huf hc).map Config.pv
    rw [List.map_map, List.map_map] at hpv
    refine ⟨hc, htotal.2 h.total, ?_⟩
    rw [htotal.2 h.total, start_sum hf]
    exact (sum_perm hpv).symm

private def su (pv : CStr) : List CStr :=
  ["MONITOR".toList, "su@localhost".toList, pv, "upsmon".toList, "pass".toList, "master".toList]

private theorem linesOf_su (sys : CStr) : linesOf sys [su "2".toList] = [] ∨
    linesOf sys [su "2".toList] = [⟨"su@localhost".toList, 2, "upsmon".toList, "pass".toList, "master".toList⟩] := by
  have hmon : monitors [su "2".toList] =
      [⟨"su@localhost".toList, 2, "upsmon".toList, "pass".toList, "master".toList⟩] := by decide
  rw [linesOf, hmon, List.filter_cons]
  split
  · exact .inr rfl
  · exact .inl rfl

/-- A file with another power value. -/
theorem reload_new_value : ∃ s r f, start [su "1".toList] = some s ∧ reloadConf s (some [su "2".toList]) = some r ∧
    start [su "2".toList] = some f ∧ SameMonitored r f := by
  have hrun : Running ((start [su "1".toList]).get rfl) := .start (Option.some_get rfl).symm
  have hlike : LikeFirst ((start [su "1".toList]).get rfl) [su "2".toList] := by
    refine ⟨fun sys first last hfirst hlast => ?_, fun sys first hfirst => ?_, by decide⟩
    · rcases linesOf_su sys with h | h
      · rw [h] at hfirst
        simp at hfirst
      · simp only [h, List.head?_cons, List.getLast?_singleton, Option.some.injEq] at hfirst hlast
        rw [← hfirst, ← hlast]
        exact ⟨rfl, rfl, rfl⟩
    · rcases linesOf_su sys with h | h
      · rw [h] at hfirst
        simp at hfirst
      · simp only [h, List.head?_cons, Option.some.injEq] at hfirst
        rw [h, ← hfirst]
        rfl
  exact ⟨_, _, _, rfl, rfl, rfl, (reload_restart_iff hrun rfl rfl).2 hlike⟩

/-- A line that is there twice counts twice. -/
theorem reload_counts_twice : ∃ s r f, start [su "1".toList] = some s ∧
    reloadConf s (some [su "1".toList, su "1".toList]) = some r ∧ start [su "1".toList, su "1".toList] = some f ∧
    ¬SameMonitored r f :=
  ⟨_, _, _, rfl, rfl, rfl, fun h => absurd h.totalpv (by decide)⟩

end Nut.Upsmon
