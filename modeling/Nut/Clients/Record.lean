import Nut.Clients.Linestate

/-!
# The record of one UPS

What a run of the monitor means for one UPS: it is added, redefined in reloads, polled, and looked at in `recalc`.  A
recorder keeps account of this, anew each time the UPS is added; what the lines of the configuration and the polls keep of
a UPS and its record holds all along (`Kept.run`).
-/

namespace Nut.Upsmon

variable {H : Type*}

/-- What is recorded of a UPS when it is added, with a poll, and with the look at it in `recalc`. -/
structure Recorder (H : Type*) where
  fresh : H
  polled : H → State → Polled → Utype → H
  checked : H → State → Int → Utype → H

/-- The UPS of that name. -/
def entry (sys : CStr) (upses : List Utype) : Option Utype := upses.find? fun ups => ups.sys = sys

/-- A pass after the reload.  `recalc` is not reached when the program ends in a poll. -/
def Recorder.pass (r : Recorder H) (sys : CStr) (t : State) (p : Pass) (h : H) : H :=
  match entry sys t.firstups with
  | none => h
  | some ups =>
    let h := r.polled h t (p.poll ups.sys) ups
    match pollAll t p.poll with
    | none => h
    | some u =>
      match entry sys u.firstups with
      | none => h
      | some ups => r.checked h u p.now ups

/-- The record as a reload leaves it: it begins anew when the UPS was not there. -/
def Recorder.kept (r : Recorder H) (sys : CStr) (s : State) (h : H) : H := if sys ∈ names s.firstups then h else r.fresh

/-- The record after the passes. -/
def Recorder.run (r : Recorder H) (sys : CStr) : State → List Pass → H → H
  | _, [], h => h
  | s, p :: passes, h =>
    match reloaded s p with
    | none => h
    | some t =>
      let h := r.pass sys t p (r.kept sys s h)
      match mainPass s p with
      | none => h
      | some s' => r.run sys s' passes h

/-- Conditions on what happens to a UPS: on a line of the configuration that redefines it, with the user name, the password
and the word `master` or `slave`, on a poll and on the look at it in `recalc`. -/
structure Conditions (H : Type*) where
  line : Utype → CStr → CStr → CStr → Prop
  polled : H → State → Polled → Utype → Prop
  checked : H → State → Int → Utype → Prop

/-- A line that redefines the UPS meets the condition. -/
def Conditions.redefines (c : Conditions H) (sys : CStr) (s : State) : List CStr → Prop
  | arg0 :: arg1 :: _ :: un :: pw :: master :: _ =>
    arg0 = "MONITOR".toList → arg1 = sys → ∀ ups ∈ entry sys s.firstups, c.line ups un pw master
  | _ => True

/-- The lines of a reload meet the condition as they are read. -/
def Conditions.load (c : Conditions H) (sys : CStr) : State → List (List CStr) → Prop
  | _, [] => True
  | s, line :: lines => c.redefines sys s line ∧ ∀ s' ∈ parseConfArg true s line, c.load sys s' lines

def Conditions.reload (c : Conditions H) (sys : CStr) (s : State) (p : Pass) : Prop :=
  ∀ file ∈ p.reload, ∀ lines ∈ file,
    c.load sys { s with firstups := s.firstups.map fun tmp => { tmp with retain := false }, totalpv := 0 } lines

/-- A pass after the reload meets the conditions. -/
def Conditions.pass (c : Conditions H) (r : Recorder H) (sys : CStr) (t : State) (p : Pass) (h : H) : Prop :=
  ∀ ups ∈ entry sys t.firstups, c.polled h t (p.poll ups.sys) ups ∧
    ∀ u ∈ pollAll t p.poll, ∀ mid ∈ entry sys u.firstups, c.checked (r.polled h t (p.poll ups.sys) ups) u p.now mid

def Conditions.run (c : Conditions H) (r : Recorder H) (sys : CStr) : State → List Pass → H → Prop
  | _, [], _ => True
  | s, p :: passes, h =>
    c.reload sys s p ∧ ∀ t ∈ reloaded s p, c.pass r sys t p (r.kept sys s h) ∧
      ∀ s' ∈ mainPass s p, c.run r sys s' passes (r.pass sys t p (r.kept sys s h))

section

variable (c : Conditions H) (r : Recorder H) (sys : CStr) [∀ ups un pw master, Decidable (c.line ups un pw master)]
  [∀ h s p ups, Decidable (c.polled h s p ups)] [∀ h s now ups, Decidable (c.checked h s now ups)]

instance (s : State) : ∀ line, Decidable (c.redefines sys s line)
  | arg0 :: arg1 :: _ :: un :: pw :: master :: _ =>
    inferInstanceAs (Decidable (arg0 = "MONITOR".toList → arg1 = sys → ∀ ups ∈ entry sys s.firstups, c.line ups un pw master))
  | [] | [_] | [_, _] | [_, _, _] | [_, _, _, _] | [_, _, _, _, _] => inferInstanceAs (Decidable True)

instance decidableLoad : ∀ s lines, Decidable (c.load sys s lines)
  | _, [] => inferInstanceAs (Decidable True)
  | s, line :: lines =>
    have (s' : State) : Decidable (c.load sys s' lines) := decidableLoad s' lines
    inferInstanceAs (Decidable (c.redefines sys s line ∧ ∀ s' ∈ parseConfArg true s line, c.load sys s' lines))

instance (s : State) (p : Pass) : Decidable (c.reload sys s p) := inferInstanceAs (Decidable (∀ _ ∈ _, ∀ _ ∈ _, _))

instance (t : State) (p : Pass) (h : H) : Decidable (c.pass r sys t p h) := inferInstanceAs (Decidable (∀ _ ∈ _, _ ∧ _))

instance decidableRun : ∀ s passes h, Decidable (c.run r sys s passes h)
  | _, [], _ => inferInstanceAs (Decidable True)
  | s, p :: passes, h =>
    have (s' : State) (h : H) : Decidable (c.run r sys s' passes h) := decidableRun s' passes h
    inferInstanceAs (Decidable (c.reload sys s p ∧ ∀ t ∈ reloaded s p, c.pass r sys t p (r.kept sys s h) ∧
      ∀ s' ∈ mainPass s p, c.run r sys s' passes (r.pass sys t p (r.kept sys s h))))

end

/-- What a UPS and its record keep where the conditions are met. -/
structure Kept (r : Recorder H) (c : Conditions H) (inv : Utype → H → Prop) : Prop where
  added : ∀ sys upsname pv un pw master, inv (newUps sys upsname pv un pw master) r.fresh
  marked : ∀ {ups : Utype} {h : H}, inv ups h → inv { ups with retain := false } h
  redefined : ∀ {ups : Utype} {h : H} {un pw master : CStr} (pv : Int32), inv ups h → c.line ups un pw master →
    inv (redefineUps ups pv un pw master) h
  polled : ∀ {ups : Utype} {h : H} {t : State} {p : Polled}, inv ups h → c.polled h t p ups →
    ∃ ups', inv ups' (r.polled h t p ups) ∧ ∀ mid, pollups t p ups = some mid → mid = ups'
  checked : ∀ {ups : Utype} {h : H} {u : State} {now : Int}, inv ups h → c.checked h u now ups →
    inv (promoteDead u now ups) (r.checked h u now ups)

/-! ### The UPS of a name -/

section

variable {sys : CStr} {upses : List Utype}

theorem sys_of_entry {ups : Utype} (h : ups ∈ entry sys upses) : ups.sys = sys := by
  simpa using List.find?_some h

theorem entry_eq_none : entry sys upses = none ↔ sys ∉ names upses := by
  rw [entry, List.find?_eq_none, names, List.mem_map]
  constructor
  · rintro hall ⟨ups, hups, hsys⟩
    exact hall ups hups (decide_eq_true hsys)
  · intro hnone ups hups hsys
    exact hnone ⟨ups, hups, by simpa using hsys⟩

theorem entry_map {f : Utype → Utype} (hf : ∀ ups, (f ups).sys = ups.sys) :
    entry sys (upses.map f) = (entry sys upses).map f := by
  rw [entry, List.find?_map]
  have hsame : ((fun ups : Utype => decide (ups.sys = sys)) ∘ f) = fun ups => decide (ups.sys = sys) := by
    funext ups
    simp [hf]
  rw [hsame]
  rfl

theorem entry_append (upses' : List Utype) : entry sys (upses ++ upses') = (entry sys upses).or (entry sys upses') := by
  rw [entry, List.find?_append]
  rfl

theorem entry_filter (hu : Unique upses) {p : Utype → Bool} {ups : Utype} (h : ups ∈ entry sys (upses.filter p)) :
    ups ∈ entry sys upses := by
  have hmem : ups ∈ upses := (List.mem_filter.1 (List.mem_of_find?_eq_some h)).1
  have hsys := sys_of_entry h
  rcases hfind : entry sys upses with _ | other
  · exact absurd (List.mem_map.2 ⟨ups, hmem, hsys⟩) (entry_eq_none.1 hfind)
  · have hother := List.mem_of_find?_eq_some hfind
    exact congrArg some (List.inj_on_of_nodup_map hu hother hmem ((sys_of_entry hfind).trans hsys.symm))

/-- The UPS of a name is polled at its place. -/
theorem entry_mapM {f : Utype → Option Utype} (hf : ∀ ups ups', f ups = some ups' → ups'.sys = ups.sys)
    {upses' : List Utype} (h : upses.mapM f = some upses') {ups' : Utype} (hmem : ups' ∈ entry sys upses') :
    ∃ ups ∈ entry sys upses, f ups = some ups' := by
  induction upses generalizing upses' with
  | nil =>
    rw [List.mapM_nil] at h
    obtain rfl := Option.some.inj h
    exact absurd hmem (by simp [entry])
  | cons ups upses ih =>
    rw [List.mapM_cons] at h
    obtain ⟨x, hx, h⟩ := Option.bind_eq_some_iff.1 h
    obtain ⟨xs, hxs, h⟩ := Option.bind_eq_some_iff.1 h
    obtain rfl := Option.some.inj h
    have hsys := hf ups x hx
    unfold entry at hmem ⊢
    by_cases hname : ups.sys = sys
    · rw [List.find?_cons_of_pos (by simpa using hname)]
      rw [List.find?_cons_of_pos (by simpa using hsys.trans hname)] at hmem
      exact ⟨ups, rfl, hx.trans (congrArg some (Option.some.inj hmem))⟩
    · rw [List.find?_cons_of_neg (by simpa using hname)]
      rw [List.find?_cons_of_neg (by rw [hsys]; simpa using hname)] at hmem
      exact ih hxs hmem

end

theorem redefineUps_sys (ups : Utype) (pv : Int32) (un pw master : CStr) : (redefineUps ups pv un pw master).sys = ups.sys :=
  (sameLine_redefineUps ups pv un pw master).sys

/-! ### The rule -/

section

variable {r : Recorder H} {c : Conditions H} {inv : Utype → H → Prop} {sys : CStr} {s s' t : State} {h : H}

/-- The UPS, if it is there, with its record. -/
def Holds (inv : Utype → H → Prop) (sys : CStr) (upses : List Utype) (h : H) : Prop := ∀ ups ∈ entry sys upses, inv ups h

theorem addups_names {reloading : Bool} {name pvs un pw master : CStr}
    (hadd : addups reloading s name pvs un pw master = some s') (hmem : sys ∈ names s.firstups) : sys ∈ names s'.firstups := by
  unfold addups at hadd
  dsimp only at hadd
  split_ifs at hadd
  · exact Option.some.inj hadd ▸ hmem
  · obtain rfl := Option.some.inj hadd
    obtain ⟨ups, hups, hsys⟩ := List.mem_map.1 hmem
    refine List.mem_map.2 ⟨_, List.mem_map_of_mem hups, ?_⟩
    split_ifs
    · exact (redefineUps_sys ups _ un pw master).trans hsys
    · exact hsys
  · exact Option.some.inj hadd ▸ hmem
  · obtain ⟨upsname, -, rfl⟩ := Option.map_eq_some_iff.1 hadd
    rw [names, List.map_append]
    exact List.mem_append_left _ hmem

/-- A `MONITOR` line redefines the UPS in a reload, or adds it, or leaves it as it is. -/
theorem Kept.addups (hk : Kept r c inv) {reloading : Bool} {name pvs un pw master : CStr} (hs : Holds inv sys s.firstups h)
    (hc : reloading = true → name = sys → ∀ ups ∈ entry sys s.firstups, c.line ups un pw master)
    (hfresh : sys ∉ names s.firstups → h = r.fresh) (hadd : addups reloading s name pvs un pw master = some s') :
    Holds inv sys s'.firstups h := by
  unfold Upsmon.addups at hadd
  dsimp only at hadd
  split_ifs at hadd with hpv hused hreloading
  · exact Option.some.inj hadd ▸ hs
  · obtain rfl := Option.some.inj hadd
    intro ups' hups'
    rw [entry_map fun ups => by split_ifs; exacts [redefineUps_sys ups _ un pw master, rfl]] at hups'
    obtain ⟨ups, hups, rfl⟩ := Option.map_eq_some_iff.1 hups'
    have hsys := sys_of_entry hups
    by_cases hname : ups.sys = name
    · rw [if_pos hname]
      exact hk.redefined _ (hs ups hups) (hc hreloading (hname.symm.trans hsys) ups hups)
    · rw [if_neg hname]
      exact hs ups hups
  · exact Option.some.inj hadd ▸ hs
  · obtain ⟨upsname, -, rfl⟩ := Option.map_eq_some_iff.1 hadd
    intro ups' hups'
    rw [entry_append] at hups'
    rcases hfind : entry sys s.firstups with _ | ups
    · rw [hfind, Option.none_or] at hups'
      rw [hfresh (entry_eq_none.1 hfind)]
      obtain rfl := List.mem_singleton.1 (List.mem_of_find?_eq_some hups')
      exact hk.added ..
    · rw [hfind, Option.some_or] at hups'
      exact hs ups' (hfind.trans hups')

/-- The UPS is as the lines so far leave it: it was there before them, or one of them has added it. -/
theorem Kept.load (hk : Kept r c inv) {reloading : Bool} {lines : List (List CStr)}
    (hs : Holds inv sys s.firstups h) (hc : reloading = true → c.load sys s lines)
    (hfresh : sys ∉ names s.firstups → h = r.fresh) (hload : loadconfig reloading s lines = some s') :
    Holds inv sys s'.firstups h := by
  unfold loadconfig at hload
  induction lines generalizing s with
  | nil => exact Option.some.inj hload ▸ hs
  | cons line lines ih =>
    rw [List.foldlM_cons] at hload
    obtain ⟨mid, hmid, hlines⟩ := Option.bind_eq_some_iff.1 hload
    have hrest : reloading = true → c.load sys mid lines := by
      rintro rfl
      exact (hc rfl).2 mid hmid
    rcases parseConfArg_cases hmid with ⟨hsame, -⟩ | ⟨name, pvs, un, pw, master, rest, rfl, hadd⟩
    · refine ih ?_ hrest ?_ hlines
      · rwa [hsame]
      · rwa [hsame]
    · have hnext : Holds inv sys mid.firstups h := by
        refine hk.addups hs ?_ hfresh hadd
        rintro hr rfl ups hups
        exact (hc hr).1 rfl rfl ups hups
      exact ih hnext hrest (fun hnone => hfresh fun hmem => hnone (addups_names hadd hmem)) hlines

theorem Kept.reloaded (hk : Kept r c inv) {p : Pass} (hu : Unique s.firstups) (hs : Holds inv sys s.firstups h)
    (hc : c.reload sys s p) (ht : reloaded s p = some t) :
    Holds inv sys t.firstups (r.kept sys s h) ∧ Unique t.firstups := by
  have hkept : Holds inv sys s.firstups (r.kept sys s h) := by
    intro ups hups
    have hmem : sys ∈ names s.firstups := by
      by_contra hnone
      rw [entry_eq_none.2 hnone] at hups
      contradiction
    rw [Recorder.kept, if_pos hmem]
    exact hs ups hups
  unfold Upsmon.reloaded at ht
  rcases hp : p.reload with _ | _ | lines
  · rw [hp] at ht
    exact Option.some.inj ht ▸ ⟨hkept, hu⟩
  · rw [hp] at ht
    exact Option.some.inj ht ▸ ⟨hkept, hu⟩
  · rw [hp] at ht
    refine ⟨?_, (reload_look hu ht).1⟩
    obtain ⟨mid, hmid, ht⟩ := Option.bind_eq_some_iff.1 ht
    dsimp only at ht
    split_ifs at ht
    obtain rfl := Option.some.inj ht
    have hmarked : Holds inv sys (s.firstups.map fun tmp => { tmp with retain := false }) (r.kept sys s h) := by
      intro ups' hups'
      have hmap := @entry_map sys s.firstups (fun tmp => { tmp with retain := false }) fun _ => rfl
      obtain ⟨ups, hups, rfl⟩ := Option.map_eq_some_iff.1 (hmap ▸ hups')
      exact hk.marked (hkept ups hups)
    have hnames : names (s.firstups.map fun tmp => { tmp with retain := false }) = names s.firstups := by
      rw [names, List.map_map]
      rfl
    have hunique : Unique (s.firstups.map fun tmp => { tmp with retain := false }) := by
      show (names _).Nodup
      rw [hnames]
      exact hu
    have hload := hk.load hmarked (fun _ => hc _ hp lines rfl) (fun hnone => if_neg (hnames ▸ hnone)) hmid
    exact fun ups hups => hload ups (entry_filter (loadconfig_spec hunique hmid).1 hups)

/-- A pass after the reload. -/
theorem Kept.pass (hk : Kept r c inv) {p : Pass} (hs : Holds inv sys t.firstups h) (hc : c.pass r sys t p h) :
    ((∃ ups, inv ups (r.pass sys t p h)) ∨ r.pass sys t p h = h) ∧
    ∀ u s', pollAll t p.poll = some u → recalc u p.now = some s' → Holds inv sys s'.firstups (r.pass sys t p h) := by
  have hsys (ups ups' : Utype) (hpoll : pollups t (p.poll ups.sys) ups = some ups') : ups'.sys = ups.sys := by
    obtain ⟨mid, hkeeps, hmid⟩ := keeps_pollups t (p.poll ups.sys) ups
    rw [hmid ups' hpoll]
    exact hkeeps.sys
  have hpolled {u : State} (hall : pollAll t p.poll = some u) {mid : Utype} (hmid : mid ∈ entry sys u.firstups) :
      ∃ ups ∈ entry sys t.firstups, pollups t (p.poll ups.sys) ups = some mid := by
    obtain ⟨upses, hupses, rfl⟩ := Option.map_eq_some_iff.1 hall
    exact entry_mapM hsys hupses hmid
  have hlooked {u s' : State} (hrecalc : recalc u p.now = some s') {ups' : Utype} (hups' : ups' ∈ entry sys s'.firstups) :
      ∃ mid ∈ entry sys u.firstups, ups' = promoteDead u p.now mid := by
    unfold recalc at hrecalc
    dsimp only at hrecalc
    split_ifs at hrecalc
    obtain rfl := Option.some.inj hrecalc
    dsimp only at hups'
    rw [entry_map fun ups => (sameLine_promoteDead u p.now ups).sys] at hups'
    obtain ⟨mid, hmid, rfl⟩ := Option.map_eq_some_iff.1 hups'
    exact ⟨mid, hmid, rfl⟩
  rw [Recorder.pass]
  rcases hups : entry sys t.firstups with _ | ups
  · refine ⟨.inr rfl, fun u s' hall hrecalc ups' hups' => ?_⟩
    obtain ⟨mid, hmid, -⟩ := hlooked hrecalc hups'
    obtain ⟨ups, hmem, -⟩ := hpolled hall hmid
    rw [hups] at hmem
    contradiction
  · obtain ⟨hpoll, hcheck⟩ := hc ups hups
    obtain ⟨ups', hinv, hres⟩ := hk.polled (hs ups hups) hpoll
    dsimp only
    rcases hall : pollAll t p.poll with _ | u
    · exact ⟨.inl ⟨ups', hinv⟩, by simp⟩
    · dsimp only
      rcases hmid : entry sys u.firstups with _ | mid
      · refine ⟨.inl ⟨ups', hinv⟩, fun u' s' hu hrecalc ups'' hups'' => ?_⟩
        obtain rfl := Option.some.inj hu
        obtain ⟨mid, hmem, -⟩ := hlooked hrecalc hups''
        rw [hmid] at hmem
        contradiction
      · -- the UPS that was polled is looked at
        obtain ⟨other, hother, hres'⟩ := hpolled hall hmid
        obtain rfl : ups = other := Option.some.inj (hups.symm.trans hother)
        obtain rfl := hres mid hres'
        have hlast := hk.checked hinv (hcheck u hall mid hmid)
        refine ⟨.inl ⟨_, hlast⟩, fun u' s' hu hrecalc ups'' hups'' => ?_⟩
        obtain rfl := Option.some.inj hu
        obtain ⟨mid', hmid', rfl⟩ := hlooked hrecalc hups''
        obtain rfl : mid = mid' := Option.some.inj (hmid.symm.trans hmid')
        exact hlast

/-- In every run that meets the conditions, the record is that of a UPS that keeps the invariant with it, or nothing was
recorded yet. -/
theorem Kept.run (hk : Kept r c inv) {passes : List Pass} (hu : Unique s.firstups) (hs : Holds inv sys s.firstups h)
    (hrec : (∃ ups, inv ups h) ∨ h = r.fresh) (hc : c.run r sys s passes h) :
    (∃ ups, inv ups (r.run sys s passes h)) ∨ r.run sys s passes h = r.fresh := by
  induction passes generalizing s h with
  | nil => exact hrec
  | cons p passes ih =>
    rw [Recorder.run]
    rcases ht : Upsmon.reloaded s p with _ | t
    · exact hrec
    · obtain ⟨hpass, hrest⟩ := hc.2 t ht
      obtain ⟨hload, hu'⟩ := hk.reloaded hu hs hc.1 ht
      obtain ⟨hnow, hnext⟩ := hk.pass hload hpass
      have hrec' : (∃ ups, inv ups (r.pass sys t p (r.kept sys s h))) ∨ r.pass sys t p (r.kept sys s h) = r.fresh := by
        rcases hnow with hsome | hsame
        · exact .inl hsome
        · rw [hsame, Recorder.kept]
          split_ifs
          · exact hrec
          · exact .inr rfl
      dsimp only
      rcases hmain : mainPass s p with _ | s'
      · exact hrec'
      · dsimp only
        obtain ⟨t', ht', hafter⟩ := Option.bind_eq_some_iff.1 hmain
        obtain rfl : t = t' := Option.some.inj (ht.symm.trans ht')
        obtain ⟨u, hall, hrecalc⟩ := Option.bind_eq_some_iff.1 hafter
        have hunique : Unique s'.firstups := by
          show (names s'.firstups).Nodup
          rw [names_of_mainPass ht hmain]
          exact hu'
        exact ih hunique (hnext u s' hall hrecalc) hrec' (hrest s' hmain)

/-- The rule of a run from the start. -/
theorem Kept.start (hk : Kept r c inv) {lines : List (List CStr)} (hstart : start lines = some s) {passes : List Pass}
    (hc : c.run r sys s passes r.fresh) :
    (∃ ups, inv ups (r.run sys s passes r.fresh)) ∨ r.run sys s passes r.fresh = r.fresh := by
  refine hk.run (start_look hstart).1 ?_ (.inr rfl) hc
  obtain ⟨s', hload, h⟩ := Option.bind_eq_some_iff.1 hstart
  split_ifs at h
  obtain rfl := Option.some.inj h
  exact hk.load (fun ups hups => absurd hups (by simp [entry, State.initial])) (fun hno => absurd hno (by decide))
    (fun _ => rfl) hload

end

end Nut.Upsmon
