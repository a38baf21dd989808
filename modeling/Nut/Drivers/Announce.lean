import Nut.Lib.Transition
import Nut.Sync.Override
import Nut.Drivers.Clone

/-!
# The status that the clone publishes

`ups.status` is published from four places.  While the countdown of a shutdown runs it begins with `FSD`, and afterwards, with
the outlet on, it is the status of the upstream driver (`Announces`): in every run without the steps that break it
(`clone_announces`).

`upsdrv_updateinfo` is taken apart into what it does one after the other (`updateinfo_moments`), so that the states between two
lines count as well.
-/

namespace Nut

open SearchTree Transition

namespace Clone

variable {F : Type}

/-- A step of the driver: a line from upstream or the end of a chunk, what `upsdrv_updateinfo` does around them, and the commands
and settings that come from a client. -/
inductive Event
  | line (now : Int) (numargs : Nat) (arg : List CStr)
  | received (ctx : PconfCtx)
  | dead (now : Int)
  | connect (now : Int) (conn : ConnectResult)
  | disconnect
  | tick (now : Int)
  | instcmd (cmdname : CStr)
  | setvar (varname val : CStr)
  | remap

def Event.run (D : Doubles F) (w : Nat → Bool) (c : Clone F) : Event → Option (Clone F)
  | .line now numargs arg => some (sstateLine D w now c numargs arg)
  | .received ctx => some { c with sockCtx := ctx }
  | .dead now => some (sstateDead now c 15).1
  | .connect now conn => some (sstateConnect w now c conn)
  | .disconnect => some (sstateDisconnect c)
  | .tick now => (runTimers D w now c).map fun c => { setTimers w c with lastPoll := now }
  | .instcmd cmdname => c.instcmd w cmdname
  | .setvar varname val => some (c.setvar D w varname val)
  | .remap => some (c.remap w)

/-- The value of `ups.status` in a line that sets it. -/
def statusLine (numargs : Nat) (arg : List CStr) : Option CStr :=
  if 3 ≤ numargs ∧ strcasecmp (arg.getD 0 []) "SETINFO".toList = .eq ∧ strcasecmp (arg.getD 1 []) "ups.status".toList = .eq then
    some (arg.getD 2 [])
  else none

/-- A line that deletes `ups.status`. -/
def DeletesStatus (numargs : Nat) (arg : List CStr) : Prop :=
  2 ≤ numargs ∧ strcasecmp (arg.getD 0 []) "DELINFO".toList = .eq ∧ strcasecmp (arg.getD 1 []) "ups.status".toList = .eq

/-- The driver with the last status from upstream: from the present connection, or from any if `ever`. -/
structure Watched (F : Type) where
  clone : Clone F
  heard : Option CStr

def Event.heard (ever : Bool) (heard : Option CStr) : Event → Option CStr
  | .line _ numargs arg => (statusLine numargs arg).or heard
  | .connect _ (.ok _) => if ever then heard else none
  | _ => heard

def Watched.step (D : Doubles F) (w : Nat → Bool) (ever : Bool) (x : Watched F) (e : Event) : Option (Watched F) :=
  (e.run D w x.clone).map fun c => ⟨c, e.heard ever x.heard⟩

/-- The published status. -/
def published (c : Clone F) : Option CStr := (stateTreeFind c.dstate.dtreeRoot "ups.status".toList).map StNode.raw

/-- What is published, where `status` is the status of the upstream driver. -/
structure Announces (c : Clone F) (status : CStr) : Prop where
  armed : 0 ≤ c.timerShutdown → ∃ rest, published c = some ("FSD ".toList ++ rest)
  unarmed : c.timerShutdown < 0 → c.outlet = true → published c = some status

/-! ### The steps that break it -/

/-- The text that `FSD` and a status give, in the buffer of `dstate_setinfo`. -/
def fsdText (status : CStr) : CStr := snprintf stMaxValueLen (fsd status)

/-- `dstate_setinfo` takes a value for `ups.status`. -/
def Takes (c : Clone F) (value : CStr) : Prop :=
  ∀ n, stateTreeFind c.dstate.dtreeRoot "ups.status".toList = some n →
    n.raw = value ∨ strcasecmp n.raw value ≠ .eq ∧ n.flags &&& stFlagImmutable = 0

/-- The countdown runs, or the outlet is on. -/
def Watching (c : Clone F) : Prop := 0 ≤ c.timerShutdown ∨ c.outlet = true

def IsShutdown (cmdname : CStr) : Prop :=
  strcasecmp cmdname "shutdown.return".toList = .eq ∨ strcasecmp cmdname "shutdown.stayoff".toList = .eq

/-- A command that finds the outlet on and no countdown starts one, of a length that is not negative, or finds the outlet as it
was. -/
def CommandGood (c : Clone F) (cmdname : CStr) : Prop :=
  ∀ loadStatus, c.loadStatus = some loadStatus → (readOutlet c loadStatus).outlet = true → c.timerShutdown < 0 →
    (IsShutdown cmdname → 0 ≤ c.offdelay ∧ Takes c (fsdText c.status)) ∧ (¬ IsShutdown cmdname → c.outlet = true)

def TickGood (D : Doubles F) (now : Int) (c : Clone F) : Prop :=
  c.timerShutdown < 0 → (0 ≤ c.timerStart → nextStart now c < 0 → Takes c c.status) ∧
    (c.timerStart < 0 → c.online = false → c.outlet = true → batteryLow D c = true → CommandGood c "shutdown.return".toList)

/-- A status finds the countdown not at zero, and is not longer than its buffer. -/
def StatusGood (c : Clone F) (status : CStr) : Prop :=
  c.timerShutdown ≠ 0 ∧ status.length < stMaxValueLen ∧ Takes c (if 0 < c.timerShutdown then fsdText status else status)

/-- The step leaves the announcement as it should be, in the state before it. -/
def Good (D : Doubles F) (ever : Bool) (x : Watched F) : Event → Prop
  | .line _ numargs arg => (∀ status, statusLine numargs arg = some status → StatusGood x.clone status) ∧
      (DeletesStatus numargs arg → x.heard = none ∨ ¬ Watching x.clone)
  | .connect _ conn => ever = true → (∃ fd, conn = .ok fd) → x.heard = none ∨ ¬ Watching x.clone
  | .tick now => x.heard ≠ none → TickGood D now x.clone
  | .instcmd cmdname => x.heard ≠ none → CommandGood x.clone cmdname
  | _ => True

/-! ### What a step leaves as it is -/

section Same

variable {D : Doubles F} {w : Nat → Bool} {c c' c'' : Clone F}

/-- The announcement and what it depends on are the same. -/
structure Same (c c' : Clone F) : Prop where
  ordered : Ordered nodeKey c.dstate.dtreeRoot → Ordered nodeKey c'.dstate.dtreeRoot
  status : c'.status = c.status
  timer : c'.timerShutdown = c.timerShutdown
  outlet : c'.outlet = c.outlet
  published : published c' = published c

theorem Same.trans (h : Same c c') (h' : Same c' c'') : Same c c'' :=
  ⟨fun hord => h'.ordered (h.ordered hord), h'.status.trans h.status, h'.timer.trans h.timer, h'.outlet.trans h.outlet, h'.published.trans h.published⟩

theorem Same.refl (c : Clone F) : Same c c := ⟨id, rfl, rfl, rfl, rfl⟩

theorem Same.announces {status : CStr} (h : Same c c') (ha : Announces c status) : Announces c' status where
  armed ht := by
    rw [h.published]
    exact ha.armed (h.timer ▸ ht)
  unarmed ht ho := by
    rw [h.published]
    exact ha.unarmed (h.timer ▸ ht) (h.outlet ▸ ho)

theorem Same.setinfo {var : CStr} (h : Same c c') (hvar : Nut.tolower var ≠ Nut.tolower "ups.status".toList) (text : CStr) :
    Same c (setinfo w c' var text) :=
  h.trans ⟨fun hord => ordered_setinfo hord var text, rfl, rfl, rfl, congrArg (Option.map StNode.raw) (find_setinfo_of_ne hvar.symm)⟩

/-- A change of a variable that keeps names and values. -/
theorem same_of_modify {d : Dstate} {k : CStr} {f : StNode → StNode} (hf : KeepsReading f)
    (h : d.dtreeRoot = SearchTree.modify nodeKey k f c.dstate.dtreeRoot) : Same c { c with dstate := d } := by
  refine ⟨fun hord => ?_, rfl, rfl, rfl, ?_⟩
  · dsimp only
    rw [h]
    exact ordered_modify hf.key hord
  unfold published
  dsimp only
  rw [h, stateTreeFind_eq, stateTreeFind_eq, find_modify hf.key]
  split
  · rename_i hk
    rw [hk, Option.map_map]
    exact Option.map_congr fun n _ => hf.raw n
  · rfl

theorem Same.battery {var : CStr} (h : Same c c') (hvar : Nut.tolower var ≠ Nut.tolower "ups.status".toList) (low : F)
    (aux : Int32) : Same c (battery D w c' var low aux) := by
  have hset := @Same.setinfo F w c c' var h hvar (D.text low)
  have hflags := @same_of_modify F (Clone.setinfo w c' var (D.text low)) _ _ _
    (keepsImmutable_setFlagsUnless (stFlagRw ||| stFlagString)).toKeepsReading (dtreeRoot_setflags w _ var _)
  have haux := @same_of_modify F (setflags w (Clone.setinfo w c' var (D.text low)) var (stFlagRw ||| stFlagString)) _ _ _
    (keeps_setAuxOf aux) (dtreeRoot_setaux w _ var aux)
  exact (hset.trans hflags).trans haux

theorem same_sendline (c : Clone F) (buf : CStr) : Same c (sstateSendline c buf) := by
  unfold sstateSendline
  split <;> exact ⟨id, rfl, rfl, rfl, rfl⟩

theorem same_sendLoad (c : Clone F) (val : Option CStr) : Same c (sendLoad c val) := by
  unfold sendLoad
  split
  · exact same_sendline c _
  · exact ⟨id, rfl, rfl, rfl, rfl⟩

theorem same_setTimers (c : Clone F) : Same c (setTimers w c) :=
  ((Same.refl c).setinfo (by decide) _).setinfo (by decide) _

theorem same_lastPoll (c : Clone F) (now : Int) : Same c { c with lastPoll := now } := ⟨id, rfl, rfl, rfl, rfl⟩

theorem same_setvar (c : Clone F) (varname val : CStr) : Same c (setvar D w c varname val) := by
  unfold setvar
  split
  · have h : Same c { c with chargeLow := D.strtod val } := ⟨id, rfl, rfl, rfl, rfl⟩
    exact h.setinfo (by decide) _
  · split
    · have h : Same c { c with runtimeLow := D.strtod val } := ⟨id, rfl, rfl, rfl, rfl⟩
      exact h.setinfo (by decide) _
    · exact ⟨id, rfl, rfl, rfl, rfl⟩

theorem same_dead (now : Int) (c : Clone F) (maxage : Int) : Same c (sstateDead now c maxage).1 := by
  unfold sstateDead
  split
  · exact ⟨id, rfl, rfl, rfl, rfl⟩
  · split
    · exact ⟨id, rfl, rfl, rfl, rfl⟩
    · dsimp only
      split
      · exact (same_sendline c _).trans ⟨id, rfl, rfl, rfl, rfl⟩
      · exact ⟨id, rfl, rfl, rfl, rfl⟩

/-- The outlet is read into its field only. -/
theorem readOutlet_eq (c : Clone F) (loadStatus : CStr) : ∃ outlet, readOutlet c loadStatus = { c with outlet := outlet } := by
  unfold readOutlet
  split
  · exact ⟨c.outlet, rfl⟩
  · split
    · exact ⟨true, rfl⟩
    · split
      · exact ⟨false, rfl⟩
      · exact ⟨c.outlet, rfl⟩

private theorem same_copy {src dst : CStr} (c : Clone F) (h : Nut.tolower dst ≠ Nut.tolower "ups.status".toList) :
    Same c (match dstateGetinfo c.dstate src with
      | some val => Clone.setinfo w c dst val
      | none => c) := by
  split
  · exact (Same.refl c).setinfo h _
  · exact .refl c

theorem same_remap (c : Clone F) : Same c (remap w c) :=
  ((same_copy c (by decide)).trans (same_copy _ (by decide))).trans (same_copy _ (by decide))

/-- A line that does not set or delete the status. -/
theorem same_parseSetinfo {arg1 arg2 : CStr} (h : strcasecmp arg1 "ups.status".toList ≠ .eq) :
    Same c (parseSetinfo D w c arg1 arg2) := by
  have hvar : Nut.tolower arg1 ≠ Nut.tolower "ups.status".toList := fun h' => h (strcasecmp_eq.2 h')
  unfold parseSetinfo
  split
  · exact .refl c
  · dsimp only
    rw [decide_eq_false h, Bool.false_and, if_neg Bool.false_ne_true, if_neg Bool.false_ne_true]
    have hcharge : Same c (if strcasecmp arg1 "battery.charge".toList = .eq then
        battery D w { c with chargeAct := D.strtod arg2 } "battery.charge.low".toList c.chargeLow 3 else c) := by
      split
      · have h : Same c { c with chargeAct := D.strtod arg2 } := ⟨id, rfl, rfl, rfl, rfl⟩
        exact h.battery (by decide) _ _
      · exact .refl c
    refine Same.setinfo ?_ hvar _
    split
    · have hact : Same c { (if strcasecmp arg1 "battery.charge".toList = .eq then
          battery D w { c with chargeAct := D.strtod arg2 } "battery.charge.low".toList c.chargeLow 3 else c) with
          runtimeAct := D.strtod arg2 } := hcharge.trans ⟨id, rfl, rfl, rfl, rfl⟩
      exact hact.battery (by decide) _ _
    · exact hcharge

/-- A change outside the tree of variables. -/
theorem same_of_tree {d : Dstate} (h : d.dtreeRoot = c.dstate.dtreeRoot) : Same c { c with dstate := d } :=
  ⟨fun hord => h ▸ hord, rfl, rfl, rfl, by unfold published; rw [h]⟩

theorem same_delinfo (hord : Ordered nodeKey c.dstate.dtreeRoot) {var : CStr}
    (h : Nut.tolower var ≠ Nut.tolower "ups.status".toList) : Same c (delinfo w c var) := by
  refine ⟨fun _ => ?_, rfl, rfl, rfl, ?_⟩
  · unfold delinfo
    dsimp only
    rw [dtreeRoot_delinfo]
    exact ordered_erase hord
  · unfold published delinfo
    dsimp only
    rw [find_delinfo hord, if_neg h.symm]

theorem same_parseArgs (hord : Ordered nodeKey c.dstate.dtreeRoot) {numargs : Nat} {arg : List CStr}
    (hset : statusLine numargs arg = none) (hdel : ¬ DeletesStatus numargs arg) : Same c (parseArgs D w c numargs arg).1 := by
  unfold parseArgs
  dsimp only
  split
  · exact .refl c
  split
  · exact .refl c
  split
  · exact ⟨id, rfl, rfl, rfl, rfl⟩
  split
  · refine same_of_tree ?_
    unfold dstateDatastale
    split
    · rfl
    · rw [sendToAll_dtreeRoot]
  split
  · refine same_of_tree ?_
    unfold dstateDataok
    split
    · rw [sendToAll_dtreeRoot]
    · rfl
  split
  · exact .refl c
  rename_i hnum2
  split
  · rename_i hdelinfo
    refine same_delinfo hord fun h => hdel ⟨by omega, hdelinfo, strcasecmp_eq.2 h⟩
  split
  · exact .refl c
  rename_i hnum3
  split
  · rename_i hsetinfo
    refine same_parseSetinfo fun h => ?_
    rw [statusLine, if_pos ⟨by omega, hsetinfo, h⟩] at hset
    cases hset
  · exact .refl c

end Same

/-! ### The status is written -/

section Written

variable {D : Doubles F} {w : Nat → Bool} {c c' : Clone F} {status : CStr}

/-- The order of the tree and the last status are kept. -/
structure Keeps (c c' : Clone F) : Prop where
  ordered : Ordered nodeKey c.dstate.dtreeRoot → Ordered nodeKey c'.dstate.dtreeRoot
  status : c'.status = c.status

theorem keeps_setinfo (c : Clone F) (var text : CStr) : Keeps c (setinfo w c var text) :=
  ⟨fun hord => ordered_setinfo hord var text, rfl⟩

theorem published_setinfo {var text : CStr} (hvar : Nut.tolower var = Nut.tolower "ups.status".toList)
    (h : Takes c (snprintf stMaxValueLen text)) : published (setinfo w c var text) = some (snprintf stMaxValueLen text) := by
  have hlen : (snprintf stMaxValueLen text).length < stMaxValueLen := length_snprintf_lt (by decide) text
  have hfree : ∀ n, stateTreeFind c.dstate.dtreeRoot var = some n →
      n.raw = snprintf stMaxValueLen text ∨ strcasecmp n.raw (snprintf stMaxValueLen text) ≠ .eq ∧ n.flags &&& stFlagImmutable = 0 := by
    intro n hn
    rw [stateTreeFind_eq, hvar, ← stateTreeFind_eq] at hn
    exact h n hn
  obtain ⟨n, hn, hraw⟩ := (varSet_setinfo (w := w) hlen hfree).value
  have htree : (dstateSetinfo w c.dstate var (snprintf stMaxValueLen text)).1.dtreeRoot =
      (dstateSetinfo w c.dstate var text).1.dtreeRoot := by
    rw [dtreeRoot_setinfo, dtreeRoot_setinfo, snprintf_of_lt hlen]
  rw [htree, stateTreeFind_eq, hvar, ← stateTreeFind_eq] at hn
  unfold published setinfo
  dsimp only
  rw [hn, ← hraw]
  rfl

theorem fsdText_eq (status : CStr) : ∃ rest, fsdText status = "FSD ".toList ++ rest :=
  ⟨status.take 251, by rw [fsdText, fsd, snprintf, List.take_append]; rfl⟩

/-- With `FSD` in front of it the status announces a countdown. -/
theorem announces_fsd (h : Takes c (fsdText c.status)) (hdelay : 0 ≤ c.timerShutdown) (status : CStr) :
    Announces (setinfo w c "ups.status".toList (fsd c.status)) status where
  armed _ := by
    obtain ⟨rest, hrest⟩ := fsdText_eq c.status
    exact ⟨rest, (published_setinfo rfl h).trans (congrArg some hrest)⟩
  unarmed ht := absurd ht (not_lt.2 hdelay)

/-! ### The commands -/

theorem keeps_startShutdown (c : Clone F) : Keeps c (startShutdown w c) := by
  unfold startShutdown
  split
  · exact ⟨(keeps_setinfo { c with timerShutdown := c.offdelay } _ _).ordered, rfl⟩
  · exact ⟨id, rfl⟩

theorem keeps_instcmd {cmdname : CStr} (h : instcmd w c cmdname = some c') : Keeps c c' := by
  unfold instcmd at h
  split at h
  · cases h
  · rename_i loadStatus _
    obtain ⟨outlet, houtlet⟩ := readOutlet_eq c loadStatus
    rw [houtlet] at h
    have hkeeps := @keeps_startShutdown F w { c with outlet := outlet }
    dsimp only at h
    split at h
    · cases h
      exact ⟨hkeeps.ordered, hkeeps.status⟩
    · split at h
      · cases h
        exact ⟨hkeeps.ordered, hkeeps.status⟩
      · cases h
        exact ⟨id, rfl⟩

/-- A command that starts a countdown, or finds one, or the outlet off. -/
theorem announces_startShutdown {outlet : Bool} (ha : Announces c status)
    (hgood : outlet = true → c.timerShutdown < 0 → 0 ≤ c.offdelay ∧ Takes c (fsdText c.status)) :
    Announces (startShutdown w { c with outlet := outlet }) status := by
  unfold startShutdown
  by_cases hstart : outlet = true ∧ c.timerShutdown < 0
  · obtain ⟨hdelay, htakes⟩ := hgood hstart.1 hstart.2
    have hannounces := @announces_fsd F w { c with outlet := outlet, timerShutdown := c.offdelay } htakes hdelay status
    rw [if_pos hstart]
    exact hannounces
  · rw [if_neg hstart]
    exact ⟨ha.armed, fun ht ho => absurd ⟨ho, ht⟩ hstart⟩

theorem announces_timerStart {t : Int} (h : Announces c status) : Announces { c with timerStart := t } status :=
  ⟨h.armed, h.unarmed⟩

theorem announces_instcmd {cmdname : CStr} (ha : Announces c status) (hgood : CommandGood c cmdname)
    (h : instcmd w c cmdname = some c') : Announces c' status := by
  unfold instcmd at h
  split at h
  · cases h
  · rename_i loadStatus hload
    have hgood := hgood loadStatus hload
    obtain ⟨outlet, houtlet⟩ := readOutlet_eq c loadStatus
    rw [houtlet] at h hgood
    dsimp only at h
    split at h
    · rename_i hreturn
      cases h
      exact announces_timerStart (announces_startShutdown ha fun ho ht => (hgood ho ht).1 (Or.inl hreturn))
    · rename_i hreturn
      split at h
      · rename_i hstayoff
        cases h
        exact announces_timerStart (announces_startShutdown ha fun ho ht => (hgood ho ht).1 (Or.inr hstayoff))
      · rename_i hstayoff
        cases h
        refine ⟨ha.armed, fun ht ho => ha.unarmed ht ((hgood ho ht).2 ?_)⟩
        rintro (h | h)
        · exact hreturn h
        · exact hstayoff h

/-! ### The timers -/

theorem keeps_runTimers {now : Int} (h : runTimers D w now c = some c') : Keeps c c' := by
  unfold runTimers at h
  split at h
  · dsimp only at h
    split at h
    · cases h
      exact ⟨(same_sendLoad { c with timerShutdown := -1, outlet := false } c.loadOff).ordered,
        (same_sendLoad { c with timerShutdown := -1, outlet := false } c.loadOff).status⟩
    · cases h
      exact ⟨id, rfl⟩
  · split at h
    · dsimp only at h
      split at h
      · cases h
        have hload := same_sendLoad { c with timerStart := -1, outlet := true } c.loadOn
        exact ⟨fun hord => ordered_setinfo (hload.ordered hord) _ _, hload.status⟩
      · cases h
        exact ⟨id, rfl⟩
    · split at h
      · split at h
        · exact keeps_instcmd h
        · cases h
          exact ⟨id, rfl⟩
      · cases h
        exact ⟨id, rfl⟩

theorem announces_runTimers {now : Int} (ha : Announces c c.status) (hlen : c.status.length < stMaxValueLen)
    (hgood : TickGood D now c) (h : runTimers D w now c = some c') : Announces c' c.status := by
  unfold runTimers at h
  split at h
  · rename_i harmed
    dsimp only at h
    split at h
    · cases h
      -- the countdown is over, and the outlet is off
      have hload := same_sendLoad { c with timerShutdown := -1, outlet := false } c.loadOff
      refine hload.announces ⟨fun ht => ?_, fun _ ho => Bool.noConfusion ho⟩
      exact absurd (show (0 : Int) ≤ -1 from ht) (by decide)
    · rename_i hrest
      cases h
      exact ⟨fun _ => ha.armed harmed, fun ht => absurd ht hrest⟩
  · rename_i harmed
    have hgood := hgood (not_le.1 harmed)
    split at h
    · rename_i hstart
      dsimp only at h
      split at h
      · rename_i hexpired
        cases h
        have htakes := hgood.1 hstart hexpired
        have hload := same_sendLoad { c with timerStart := -1, outlet := true } c.loadOn
        have htakes' : Takes (sendLoad { c with timerStart := -1, outlet := true } c.loadOn) (snprintf stMaxValueLen c.status) := by
          have htree : (sendLoad { c with timerStart := -1, outlet := true } c.loadOn).dstate = c.dstate := by
            unfold sendLoad sstateSendline
            split
            · split <;> rfl
            · rfl
          unfold Takes
          rw [htree, snprintf_of_lt hlen]
          exact htakes
        refine ⟨fun ht => absurd ?_ harmed, fun _ _ => ?_⟩
        · exact le_of_le_of_eq ht hload.timer
        · rw [published_setinfo rfl htakes', snprintf_of_lt hlen]
      · cases h
        exact ⟨ha.armed, ha.unarmed⟩
    · rename_i hstart
      split at h
      · rename_i hon
        split at h
        · rename_i hlow
          exact announces_instcmd ha (hgood.2 (not_le.1 hstart) hon.1 hon.2 hlow) h
        · cases h
          exact ha
      · cases h
        exact ha

end Written

/-! ### The lines -/

section Lines

variable {D : Doubles F} {w : Nat → Bool} {c : Clone F} {numargs : Nat} {arg : List CStr} {status : CStr}

theorem strncaseeq_of_eq {s t u : CStr} (h : Nut.tolower s = Nut.tolower t) (n : Nat) : strncaseeq s u n = strncaseeq t u n := by
  unfold strncaseeq
  have htake : Nut.tolower (s.take n) = Nut.tolower (t.take n) := by
    unfold Nut.tolower at h ⊢
    rw [List.map_take, List.map_take, h]
  rw [htake]

/-- The status is passed on. -/
theorem filtered_status {arg1 : CStr} (h : strcasecmp arg1 "ups.status".toList = .eq) : filtered arg1 = false := by
  have hlow := strcasecmp_eq.1 h
  have hcharge := strcasecmp_ne h (show strcasecmp "ups.status".toList "battery.charge.low".toList ≠ .eq by decide)
  have hruntime := strcasecmp_ne h (show strcasecmp "ups.status".toList "battery.runtime.low".toList ≠ .eq by decide)
  unfold filtered
  rw [strncaseeq_of_eq hlow, strncaseeq_of_eq hlow, strncaseeq_of_eq hlow, decide_eq_false hcharge, decide_eq_false hruntime]
  decide

theorem parseArgs_delinfo (h : DeletesStatus numargs arg) :
    (parseArgs D w c numargs arg).1 = delinfo w c (arg.getD 1 []) := by
  obtain ⟨hnum, hdelinfo, -⟩ := h
  have hpong := strcasecmp_ne hdelinfo (show strcasecmp "DELINFO".toList "PONG".toList ≠ .eq by decide)
  have hdone := strcasecmp_ne hdelinfo (show strcasecmp "DELINFO".toList "DUMPDONE".toList ≠ .eq by decide)
  have hstale := strcasecmp_ne hdelinfo (show strcasecmp "DELINFO".toList "DATASTALE".toList ≠ .eq by decide)
  have hok := strcasecmp_ne hdelinfo (show strcasecmp "DELINFO".toList "DATAOK".toList ≠ .eq by decide)
  unfold parseArgs
  dsimp only
  rw [if_neg (by omega), if_neg hpong, if_neg hdone, if_neg hstale, if_neg hok, if_neg (by omega), if_pos hdelinfo]

theorem parseArgs_setinfo (h : statusLine numargs arg = some status) :
    (parseArgs D w c numargs arg).1 = parseSetinfo D w c (arg.getD 1 []) status ∧
      strcasecmp (arg.getD 1 []) "ups.status".toList = .eq := by
  unfold statusLine at h
  split at h
  · rename_i hline
    obtain ⟨hnum, hsetinfo, hstatus⟩ := hline
    have hpong := strcasecmp_ne hsetinfo (show strcasecmp "SETINFO".toList "PONG".toList ≠ .eq by decide)
    have hdone := strcasecmp_ne hsetinfo (show strcasecmp "SETINFO".toList "DUMPDONE".toList ≠ .eq by decide)
    have hstale := strcasecmp_ne hsetinfo (show strcasecmp "SETINFO".toList "DATASTALE".toList ≠ .eq by decide)
    have hok := strcasecmp_ne hsetinfo (show strcasecmp "SETINFO".toList "DATAOK".toList ≠ .eq by decide)
    have hdel := strcasecmp_ne hsetinfo (show strcasecmp "SETINFO".toList "DELINFO".toList ≠ .eq by decide)
    refine ⟨?_, hstatus⟩
    unfold parseArgs
    dsimp only
    rw [if_neg (by omega), if_neg hpong, if_neg hdone, if_neg hstale, if_neg hok, if_neg (by omega), if_neg hdel,
      if_neg (by omega), if_pos hsetinfo, Option.some.inj h]
  · cases h

/-- A status is published with `FSD` if the countdown is above zero, and as it is otherwise. -/
theorem parseSetinfo_status {arg1 : CStr} (h : strcasecmp arg1 "ups.status".toList = .eq) (hlen : status.length < stMaxValueLen) :
    ∃ online, parseSetinfo D w c arg1 status =
      if 0 < c.timerShutdown then setinfo w { c with status := status, online := online } "ups.status".toList (fsd status)
      else setinfo w { c with status := status, online := online } arg1 status := by
  have hcharge := strcasecmp_ne h (show strcasecmp "ups.status".toList "battery.charge".toList ≠ .eq by decide)
  have hruntime := strcasecmp_ne h (show strcasecmp "ups.status".toList "battery.runtime".toList ≠ .eq by decide)
  have hsnprintf := snprintf_of_lt hlen
  refine ⟨isOnline status, ?_⟩
  unfold parseSetinfo
  rw [filtered_status h, if_neg Bool.false_ne_true]
  dsimp only
  rw [decide_eq_true h, if_pos rfl, Bool.true_and]
  dsimp only
  rw [hsnprintf]
  by_cases ht : 0 < c.timerShutdown
  · rw [if_pos ht, decide_eq_true ht, if_pos rfl]
  · rw [if_neg ht, decide_eq_false ht, if_neg Bool.false_ne_true, if_neg hcharge, if_neg hruntime]

/-- After a status the announcement is as it should be. -/
theorem parseSetinfo_announces {arg1 : CStr} (h : strcasecmp arg1 "ups.status".toList = .eq) (hgood : StatusGood c status) :
    (parseSetinfo D w c arg1 status).status = status ∧ Announces (parseSetinfo D w c arg1 status) status := by
  obtain ⟨hzero, hlen, htakes⟩ := hgood
  obtain ⟨online, hparse⟩ := @parseSetinfo_status F D w c status arg1 h hlen
  rw [hparse]
  split
  · rename_i ht
    rw [if_pos ht] at htakes
    exact ⟨rfl, announces_fsd (c := { c with status := status, online := online }) htakes ht.le status⟩
  · rename_i ht
    rw [if_neg ht] at htakes
    refine ⟨rfl, fun ht' => absurd (lt_of_le_of_ne ht' (Ne.symm hzero)) ht, fun _ _ => ?_⟩
    have htakes' : Takes { c with status := status, online := online } (snprintf stMaxValueLen status) := by
      rw [snprintf_of_lt hlen]
      exact htakes
    rw [published_setinfo (strcasecmp_eq.1 h) htakes', snprintf_of_lt hlen]

theorem ordered_parseSetinfo {arg1 : CStr} (h : strcasecmp arg1 "ups.status".toList = .eq) (hlen : status.length < stMaxValueLen)
    (hord : Ordered nodeKey c.dstate.dtreeRoot) : Ordered nodeKey (parseSetinfo D w c arg1 status).dstate.dtreeRoot := by
  obtain ⟨online, hparse⟩ := @parseSetinfo_status F D w c status arg1 h hlen
  rw [hparse]
  split
  · exact ordered_setinfo hord _ _
  · exact ordered_setinfo hord _ _

theorem sstateLine_same (now : Int) : Same (parseArgs D w c numargs arg).1 (sstateLine D w now c numargs arg) := by
  unfold sstateLine
  dsimp only
  split
  · exact ⟨id, rfl, rfl, rfl, rfl⟩
  · exact .refl _

end Lines

/-! ### The runs -/

section Runs

variable {D : Doubles F} {w : Nat → Bool} {ever : Bool} {x x' : Watched F}

/-- The invariant of the runs. -/
structure Inv (x : Watched F) : Prop where
  ordered : Ordered nodeKey x.clone.dstate.dtreeRoot
  heard : ∀ status, x.heard = some status →
    x.clone.status = status ∧ status.length < stMaxValueLen ∧ Announces x.clone status

theorem Inv.same (h : Inv x) {c : Clone F} (hsame : Same x.clone c) : Inv ⟨c, x.heard⟩ where
  ordered := hsame.ordered h.ordered
  heard status hstatus := by
    obtain ⟨hlast, hlen, ha⟩ := h.heard status hstatus
    exact ⟨hsame.status.trans hlast, hlen, hsame.announces ha⟩

/-- Where nothing is watched nothing is announced. -/
theorem announces_of_not_watching {c c' : Clone F} {status : CStr} (h : ¬ Watching c) (ht : c'.timerShutdown = c.timerShutdown)
    (ho : c'.outlet = c.outlet) : Announces c' status where
  armed h' := absurd (Or.inl (ht ▸ h')) h
  unarmed _ h' := absurd (Or.inr (ho ▸ h')) h

theorem Inv.line (h : Inv x) {now : Int} {numargs : Nat} {arg : List CStr} (hgood : Good D ever x (.line now numargs arg)) :
    Inv ⟨sstateLine D w now x.clone numargs arg, (statusLine numargs arg).or x.heard⟩ := by
  obtain ⟨hset, hdel⟩ := hgood
  have hlast := @sstateLine_same F D w x.clone numargs arg now
  cases hstatus : statusLine numargs arg with
  | some status =>
    obtain ⟨hparse, hname⟩ := @parseArgs_setinfo F D w x.clone numargs arg status hstatus
    rw [hparse] at hlast
    obtain ⟨hsame, ha⟩ := @parseSetinfo_announces F D w x.clone status _ hname (hset status hstatus)
    have hlen := (hset status hstatus).2.1
    refine ⟨hlast.ordered (ordered_parseSetinfo hname hlen h.ordered), fun status' hstatus' => ?_⟩
    obtain rfl : status = status' := Option.some.inj hstatus'
    exact ⟨hlast.status.trans hsame, hlen, hlast.announces ha⟩
  | none =>
    by_cases hdelete : DeletesStatus numargs arg
    · rw [parseArgs_delinfo hdelete] at hlast
      have hord : Ordered nodeKey (delinfo w x.clone (arg.getD 1 [])).dstate.dtreeRoot := by
        unfold delinfo
        dsimp only
        rw [dtreeRoot_delinfo]
        exact ordered_erase h.ordered
      refine ⟨hlast.ordered hord, fun status hheard => ?_⟩
      rw [Option.none_or] at hheard
      obtain ⟨hsame, hlen, -⟩ := h.heard status hheard
      rcases hdel hdelete with hnone | hwatch
      · cases hnone.symm.trans hheard
      · exact ⟨hlast.status.trans hsame, hlen, hlast.announces (announces_of_not_watching hwatch rfl rfl)⟩
    · have hsame := (@same_parseArgs F D w x.clone h.ordered numargs arg hstatus hdelete).trans hlast
      rw [Option.none_or]
      exact h.same hsame

theorem Inv.connect (h : Inv x) {now : Int} {conn : ConnectResult} (hgood : Good D ever x (.connect now conn)) :
    Inv ⟨sstateConnect w now x.clone conn, (Event.connect now conn).heard ever x.heard⟩ := by
  cases conn with
  | ok fd =>
    refine ⟨ordered_setinfo h.ordered _ _, fun status hheard => ?_⟩
    cases ever with
    | false => cases hheard
    | true =>
      obtain ⟨hsame, hlen, -⟩ := h.heard status hheard
      rcases hgood rfl ⟨fd, rfl⟩ with hnone | hwatch
      · cases hnone.symm.trans hheard
      · exact ⟨hsame, hlen, announces_of_not_watching hwatch rfl rfl⟩
  | refused =>
    refine @Inv.same F x h _ ?_
    unfold sstateConnect
    dsimp only
    split <;> exact ⟨id, rfl, rfl, rfl, rfl⟩
  | _ => exact h.same ⟨id, rfl, rfl, rfl, rfl⟩

/-- A good step keeps the invariant. -/
theorem Inv.step (h : Inv x) {e : Event} (hgood : Good D ever x e) (hstep : x.step D w ever e = some x') : Inv x' := by
  obtain ⟨c, hrun, rfl⟩ := Option.map_eq_some_iff.1 hstep
  cases e with
  | line now numargs arg =>
    obtain rfl := Option.some.inj hrun
    exact h.line hgood
  | connect now conn =>
    obtain rfl := Option.some.inj hrun
    exact h.connect hgood
  | received ctx =>
    obtain rfl := Option.some.inj hrun
    exact h.same ⟨id, rfl, rfl, rfl, rfl⟩
  | dead now =>
    obtain rfl := Option.some.inj hrun
    exact h.same (same_dead now x.clone 15)
  | disconnect =>
    obtain rfl := Option.some.inj hrun
    exact h.same ⟨id, rfl, rfl, rfl, rfl⟩
  | setvar varname val =>
    obtain rfl := Option.some.inj hrun
    exact h.same (same_setvar x.clone varname val)
  | remap =>
    obtain rfl := Option.some.inj hrun
    exact h.same (same_remap x.clone)
  | instcmd cmdname =>
    have hkeeps := keeps_instcmd hrun
    refine ⟨hkeeps.ordered h.ordered, fun status hheard => ?_⟩
    obtain ⟨hlast, hlen, ha⟩ := h.heard status hheard
    have hsome : x.heard ≠ none := fun hnone => Option.some_ne_none status (hheard.symm.trans hnone)
    exact ⟨hkeeps.status.trans hlast, hlen, announces_instcmd ha (hgood hsome) hrun⟩
  | tick now =>
    obtain ⟨c', htimers, rfl⟩ := Option.map_eq_some_iff.1 hrun
    have hkeeps := keeps_runTimers htimers
    have hpublish := (@same_setTimers F w c').trans (same_lastPoll _ now)
    refine ⟨hpublish.ordered (hkeeps.ordered h.ordered), fun status hheard => ?_⟩
    obtain ⟨rfl, hlen, ha⟩ := h.heard status hheard
    have hsome : x.heard ≠ none := fun hnone => Option.some_ne_none _ (hheard.symm.trans hnone)
    exact ⟨hpublish.status.trans hkeeps.status, hlen, hpublish.announces (announces_runTimers ha hlen (hgood hsome) htimers)⟩

end Runs

/-- The start of a run: no status yet, and the variables in their order. -/
def Starts (x : Watched F) : Prop := x.heard = none ∧ Ordered nodeKey x.clone.dstate.dtreeRoot

/-- A step that does not break the announcement. -/
def GoodStep (D : Doubles F) (w : Nat → Bool) (ever : Bool) (x x' : Watched F) : Prop :=
  ∃ e, Good D ever x e ∧ x.step D w ever e = some x'

/-- In every run of good steps the clone announces its shutdown whenever it has heard a status. -/
theorem clone_announces (D : Doubles F) (w : Nat → Bool) (ever : Bool) {x : Watched F} (h : Reach Starts (GoodStep D w ever) x)
    {status : CStr} (hheard : x.heard = some status) : Announces x.clone status := by
  have hinv : Inv x := by
    refine h.invariant (fun x hx => ?_) fun x x' hx hstep => ?_
    · exact ⟨hx.2, fun status hstatus => by cases hx.1.symm.trans hstatus⟩
    · obtain ⟨e, hgood, hrun⟩ := hstep
      exact hx.step hgood hrun
  exact (hinv.heard status hheard).2.2

/-- Numbers as integers, where only their signs and their order matter. -/
def wholeNumbers : Doubles Int := ⟨strtol, formatD, fun a b => decide (a < b)⟩

/-- Nothing keeps the value from being taken. -/
def takes (c : Clone Int) (value : CStr) : Bool :=
  (stateTreeFind c.dstate.dtreeRoot "ups.status".toList).all fun n =>
    n.raw = value ∨ strcasecmp n.raw value ≠ .eq ∧ n.flags &&& stFlagImmutable = 0

theorem takes_iff {c : Clone Int} {value : CStr} : takes c value = true ↔ Takes c value := by
  rw [takes, Option.all_eq_true]
  exact forall₂_congr fun n _ => decide_eq_true_iff

/-- The line that sets the status. -/
def statusEvent (now : Int) (status : CStr) : Event := .line now 3 ["SETINFO".toList, "ups.status".toList, status]

/-- A status is good where the countdown is not at zero, it fits, and it is taken. -/
theorem good_statusEvent {x : Watched Int} {now : Int} {status : CStr}
    (h : x.clone.timerShutdown ≠ 0 ∧ status.length < stMaxValueLen ∧
      takes x.clone (if 0 < x.clone.timerShutdown then fsdText status else status) = true) :
    Good wholeNumbers false x (statusEvent now status) := by
  have hset : strcasecmp "SETINFO".toList "DELINFO".toList ≠ .eq := by decide
  refine ⟨fun status' hstatus => ?_, fun hdel => absurd hdel.2.1 hset⟩
  have hsame : statusLine 3 ["SETINFO".toList, "ups.status".toList, status] = some status := rfl
  obtain rfl := Option.some.inj (hsame.symm.trans hstatus)
  exact ⟨h.1, h.2.1, takes_iff.1 h.2.2⟩

/-- A shutdown that is ordered on a connection to the upstream driver, a pass of its countdown, and another status. -/
theorem clone_announces_shutdown : ∃ x : Watched Int,
    Reach Starts (GoodStep wholeNumbers (fun _ => true) false) x ∧ x.heard = some "OB LB".toList ∧
      x.clone.timerShutdown = 110 ∧ Announces x.clone "OB LB".toList := by
  have hrun : ∃ x : Watched Int, Reach Starts (GoodStep wholeNumbers (fun _ => true) false) x ∧
      x.heard = some "OB LB".toList ∧ x.clone.timerShutdown = 110 := by
    have hstart : Reach Starts (GoodStep wholeNumbers (fun _ => true) false)
        ⟨.init 0 none none (some "outlet".toList), none⟩ := .init ⟨rfl, ordered_nil⟩
    have hconnected := hstart.step ⟨.connect 0 (.ok 4), ⟨fun h => absurd h (by decide), rfl⟩⟩
    have honline := hconnected.step ⟨statusEvent 1 "OL".toList, good_statusEvent (by decide +kernel), rfl⟩
    have hordered := honline.step ⟨.instcmd "shutdown.return".toList, fun _ loadStatus _ _ _ =>
      ⟨fun _ => ⟨by decide +kernel, takes_iff.1 (by decide +kernel)⟩, fun hno => absurd (.inl (by decide)) hno⟩, rfl⟩
    have hcounting := hordered.step ⟨.tick 10, fun _ hidle => absurd hidle (by decide +kernel), rfl⟩
    have hlow := hcounting.step ⟨statusEvent 11 "OB LB".toList, good_statusEvent (by decide +kernel), rfl⟩
    exact ⟨_, hlow, by decide +kernel, by decide +kernel⟩
  obtain ⟨x, hreach, hheard, htimer⟩ := hrun
  exact ⟨x, hreach, hheard, htimer, clone_announces wholeNumbers (fun _ => true) false hreach hheard⟩

/-- With a delay of zero, a status that arrives before the next poll hides the shutdown. -/
theorem announcement_hidden :
    ¬ ∀ x : Watched Int, Reach Starts (fun x x' => ∃ e, x.step wholeNumbers (fun _ => true) true e = some x') x →
      ∀ status, x.heard = some status → Announces x.clone status := by
  intro h
  have hrun : ∃ x : Watched Int,
      Reach Starts (fun x x' => ∃ e, x.step wholeNumbers (fun _ => true) true e = some x') x ∧
        x.heard = some "OB LB".toList ∧ x.clone.timerShutdown = 0 ∧ published x.clone = some "OB LB".toList := by
    refine ⟨_, .step (.step (.step (.init (s := ⟨{ Clone.init 0 none none (some "outlet".toList) with offdelay := 0 }, none⟩)
      ⟨rfl, ordered_nil⟩) ⟨.line 0 3 ["SETINFO".toList, "ups.status".toList, "OB".toList], rfl⟩)
      ⟨.instcmd "shutdown.return".toList, rfl⟩) ⟨.line 0 3 ["SETINFO".toList, "ups.status".toList, "OB LB".toList], rfl⟩, ?_, ?_, ?_⟩
    · decide +kernel
    · decide +kernel
    · decide +kernel
  obtain ⟨x, hreach, hheard, htimer, hpublished⟩ := hrun
  obtain ⟨rest, hrest⟩ := (h x hreach _ hheard).armed (by omega)
  exact absurd (List.cons.inj (Option.some.inj (hpublished.symm.trans hrest))).1 (by decide)

/-! ### The driver as these steps -/

section Moments

variable {D : Doubles F} {w : Nat → Bool} {c c' : Clone F}

/-- What `sstate_readline` does, line by line. -/
theorem readline_moments (now : Int) (c : Clone F) (ret : ReadResult) :
    ∃ events : List Event, events.foldlM (Event.run D w) c = some (sstateReadline D w now c ret).1 := by
  unfold sstateReadline
  split
  · exact ⟨[], rfl⟩
  · exact ⟨[], rfl⟩
  · exact ⟨[], rfl⟩
  · rename_i buf _
    have hlines : ∀ (lines : List (Nat × List CStr)) (c : Clone F),
        (lines.map fun l => Event.line now l.1 l.2).foldlM (Event.run D w) c =
          some (lines.foldl (fun c l => sstateLine D w now c l.1 l.2) c) := by
      intro lines
      induction lines with
      | nil => exact fun _ => rfl
      | cons l lines ih => exact fun c => ih (sstateLine D w now c l.1 l.2)
    have hloop := readLoop_eq (sstateLine D w now) c.sockCtx c buf
    refine ⟨((ChunkReader.readChunk pconfStep c.sockCtx buf).2.map fun l => Event.line now l.1 l.2) ++
      [.received (ChunkReader.readChunk pconfStep c.sockCtx buf).1], ?_⟩
    rw [List.foldlM_append, hlines, hloop]
    rfl

/-- A call of `upsdrv_updateinfo` is a sequence of steps. -/
theorem updateinfo_moments {now : Int} {conn : ConnectResult} {ret : ReadResult}
    (h : upsdrvUpdateinfo D w now conn ret c = some c') : ∃ events : List Event, events.foldlM (Event.run D w) c = some c' := by
  unfold upsdrvUpdateinfo at h
  dsimp only at h
  split at h
  · cases h
    exact ⟨[.dead now, .disconnect, .connect now conn], rfl⟩
  · obtain ⟨events, hevents⟩ := @readline_moments F D w now (sstateDead now c 15).1 ret
    split at h
    · cases h
      refine ⟨.dead now :: events ++ [.disconnect], ?_⟩
      change (events ++ [Event.disconnect]).foldlM (Event.run D w) (sstateDead now c 15).1 = _
      rw [List.foldlM_append, hevents]
      rfl
    · refine ⟨.dead now :: events ++ [.tick now], ?_⟩
      change (events ++ [Event.tick now]).foldlM (Event.run D w) (sstateDead now c 15).1 = _
      rw [List.foldlM_append, hevents]
      change (Event.run D w (sstateReadline D w now (sstateDead now c 15).1 ret).1 (.tick now)).bind _ = _
      rw [Event.run, h]
      rfl

end Moments

end Clone

end Nut
