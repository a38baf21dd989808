import Nut.Clients.Lists
import Nut.Clients.Notify
import Nut.Drivers.Reply

/-!
# The status of a HID UPS

`usbhid-ups.c` remembers what the reports of the device say about a number of conditions (`process_boolean_info`), and
makes the words of `ups.status` and the texts of `ups.alarm` of them when it is time to publish (`ups_status_set`,
`ups_alarm_set`).  A condition is what the last report that named it said, and the monitors that read the status find
the UPS on line or on battery, with a low battery or not, as these conditions are (`hid_status_heard`).
-/

namespace Nut.Hid

open SearchTree

/-- `status_bit_t` -/
inductive StatusBit
  | online
  | dischrg
  | chrg
  | lowbatt
  | overload
  | replacebatt
  | shutdownimm
  | trim
  | boost
  | bypassauto
  | bypassman
  | off
  | cal
  | overheat
  | commfault
  | depleted
  | timelimitexp
  | fullycharged
  | awaitingpower
  | fanfail
  | nobattery
  | battvoltlo
  | battvolthi
  | chargerfail
  | vrange
  | frange
  deriving DecidableEq

/-- `STATUS(x)` -/
def StatusBit.mask (x : StatusBit) : BitVec 32 := BitVec.twoPow 32 x.ctorIdx

/-- `status_info` -/
def statusInfo : List (CStr × StatusBit) :=
  [("online".toList, .online), ("dischrg".toList, .dischrg), ("chrg".toList, .chrg), ("lowbatt".toList, .lowbatt),
    ("overload".toList, .overload), ("replacebatt".toList, .replacebatt), ("shutdownimm".toList, .shutdownimm),
    ("trim".toList, .trim), ("boost".toList, .boost), ("bypassauto".toList, .bypassauto),
    ("bypassman".toList, .bypassman),
    ("off".toList, .off), ("cal".toList, .cal), ("overheat".toList, .overheat), ("commfault".toList, .commfault),
    ("depleted".toList, .depleted), ("timelimitexp".toList, .timelimitexp), ("fullycharged".toList, .fullycharged),
    ("awaitingpower".toList, .awaitingpower), ("fanfail".toList, .fanfail), ("nobattery".toList, .nobattery),
    ("battvoltlo".toList, .battvoltlo), ("battvolthi".toList, .battvolthi), ("chargerfail".toList, .chargerfail),
    ("vrange".toList, .vrange), ("frange".toList, .frange)]

def isset (upsStatus : BitVec 32) (x : StatusBit) : Bool := upsStatus &&& x.mask ≠ 0

def processBooleanInfo (upsStatus : BitVec 32) (nutvalue : CStr) : BitVec 32 :=
  let clear := nutvalue.head? = some '!'
  let name := if clear then nutvalue.tail else nutvalue
  match statusInfo.find? fun item => strcasecmp item.1 name = .eq with
  | none => upsStatus
  | some item => if clear then upsStatus &&& ~~~item.2.mask else upsStatus ||| item.2.mask

/-- The texts of `ups_alarm_set`, in its order. -/
def alarmTexts : List (StatusBit × CStr) :=
  [(.replacebatt, "Replace battery!".toList), (.shutdownimm, "Shutdown imminent!".toList),
    (.fanfail, "Fan failure!".toList),
    (.nobattery, "No battery installed!".toList), (.battvoltlo, "Battery voltage too low!".toList),
    (.battvolthi, "Battery voltage too high!".toList), (.chargerfail, "Battery charger fail!".toList),
    (.overheat, "Temperature too high!".toList), (.commfault, "Internal UPS fault!".toList),
    (.awaitingpower, "Awaiting power!".toList), (.bypassauto, "Automatic bypass mode!".toList),
    (.bypassman, "Manual bypass mode!".toList)]

def upsAlarmSet (upsStatus : BitVec 32) (s : StatusState) : StatusState :=
  alarmTexts.foldl (fun s item => if isset upsStatus item.1 then alarmSet s item.2 else s) s

/-- The words that `ups_status_set` adds behind the first one, each with its condition. -/
def furtherWords (upsStatus : BitVec 32) : List (Bool × CStr) :=
  [(isset upsStatus .dischrg && !isset upsStatus .depleted, "DISCHRG".toList),
    (isset upsStatus .chrg && !isset upsStatus .fullycharged, "CHRG".toList),
    (isset upsStatus .lowbatt || isset upsStatus .timelimitexp || isset upsStatus .shutdownimm, "LB".toList),
    (isset upsStatus .overload, "OVER".toList), (isset upsStatus .replacebatt, "RB".toList),
    (isset upsStatus .trim, "TRIM".toList), (isset upsStatus .boost, "BOOST".toList),
    (isset upsStatus .bypassauto || isset upsStatus .bypassman, "BYPASS".toList), (isset upsStatus .off, "OFF".toList),
    (isset upsStatus .cal, "CAL".toList)]

/-- The arguments of the calls of `status_set` in `ups_status_set`. -/
def statusWords (upsStatus : BitVec 32) : List CStr :=
  (if isset upsStatus .online then "OL".toList else "OB".toList) ::
    ((furtherWords upsStatus).filter Prod.fst).map Prod.snd

def setTransferReason (w : Nat → Bool) (upsStatus : BitVec 32) (d : Dstate) : Dstate :=
  if isset upsStatus .vrange then
    (dstateSetinfo w d "input.transfer.reason".toList "input voltage out of range".toList).1
  else if isset upsStatus .frange then
    (dstateSetinfo w d "input.transfer.reason".toList "input frequency out of range".toList).1
  else (dstateDelinfo w d "input.transfer.reason".toList).1

def upsStatusSet (w : Nat → Bool) (upsStatus : BitVec 32) (s : StatusState) : StatusState :=
  (statusWords upsStatus).foldl statusSet { s with dstate := setTransferReason w upsStatus s.dstate }

/-- `ups_status` and the state of `dstate.c`. -/
structure HidUps where
  upsStatus : BitVec 32
  status : StatusState

/-- What `ups_infoval_set` makes of a value from the device: a condition, a text of `ups.alarm`, or the value of another
variable. -/
inductive Infoval
  | bool (nutvalue : CStr)
  | alarm (nutvalue : CStr)
  | value (infoType text : CStr)

def upsInfovalSet (w : Nat → Bool) (s : HidUps) : Infoval → HidUps
  | .bool nutvalue => { s with upsStatus := processBooleanInfo s.upsStatus nutvalue }
  | .alarm nutvalue => { s with status := alarmSet s.status nutvalue }
  | .value infoType text =>
    { s with status := { s.status with dstate := (dstateSetinfo w s.status.dstate infoType text).1 } }

/-- What `upsdrv_updateinfo` gets: the values that come with the events of the device, whether it is time for a full
update, and the values that the walk of the items finds until it ends or fails. -/
structure Update where
  events : List Infoval
  full : Bool
  walk : List Infoval
  complete : Bool

/-- The part of `upsdrv_updateinfo` that deals with the values, from the events on. -/
def upsdrvUpdateinfo (w : Nat → Bool) (s : HidUps) (u : Update) : HidUps :=
  let s := u.events.foldl (upsInfovalSet w) s
  let s := { s with status := statusInit s.status }
  let s := if u.full then { s with status := alarmInit s.status } else s
  let s := u.walk.foldl (upsInfovalSet w) s
  if u.complete = false then s
  else
    let s := if u.full then { s with status := alarmCommit w (upsAlarmSet s.upsStatus s.status) } else s
    let s := { s with status := statusCommit w (upsStatusSet w s.upsStatus s.status) }
    { s with status := { s.status with dstate := dstateDataok w s.status.dstate } }

/-! ### The conditions -/

section

variable {x y : StatusBit} {upsStatus : BitVec 32} {nutvalue : CStr}

theorem ctorIdx_lt (x : StatusBit) : x.ctorIdx < 32 := by
  cases x <;> decide

theorem ctorIdx_inj (h : x.ctorIdx = y.ctorIdx) : x = y := by
  rw [← StatusBit.ofNat_ctorIdx x, h, StatusBit.ofNat_ctorIdx]

theorem isset_eq (upsStatus : BitVec 32) (x : StatusBit) : isset upsStatus x = upsStatus.getLsbD x.ctorIdx := by
  have hne : (0 : BitVec 32) ≠ x.mask := by
    intro h
    have hbit := congrArg (fun b => b.getLsbD x.ctorIdx) h
    simp [StatusBit.mask, ctorIdx_lt] at hbit
  rw [isset, StatusBit.mask, BitVec.and_twoPow, ← StatusBit.mask]
  cases upsStatus.getLsbD x.ctorIdx with
  | false => simp
  | true => simpa using hne.symm

theorem mask_getLsbD (x y : StatusBit) : y.mask.getLsbD x.ctorIdx = decide (x = y) := by
  rw [StatusBit.mask, BitVec.getLsbD_twoPow, decide_eq_true (ctorIdx_lt y), Bool.true_and]
  by_cases h : x = y
  · simp [h]
  · have hne : y.ctorIdx ≠ x.ctorIdx := fun heq => h (ctorIdx_inj heq.symm)
    simp [h, hne]

theorem isset_set (upsStatus : BitVec 32) (x y : StatusBit) :
    isset (upsStatus ||| y.mask) x = (isset upsStatus x || decide (x = y)) := by
  rw [isset_eq, isset_eq, BitVec.getLsbD_or, mask_getLsbD]

theorem isset_clear (upsStatus : BitVec 32) (x y : StatusBit) :
    isset (upsStatus &&& ~~~y.mask) x = (isset upsStatus x && !decide (x = y)) := by
  rw [isset_eq, isset_eq, BitVec.getLsbD_and, BitVec.getLsbD_not, mask_getLsbD, decide_eq_true (ctorIdx_lt x),
    Bool.true_and]

/-- What the value tells of a condition, if it is about that one. -/
def tells (nutvalue : CStr) (x : StatusBit) : Option Bool :=
  let clear := nutvalue.head? = some '!'
  let name := if clear then nutvalue.tail else nutvalue
  match statusInfo.find? fun item => strcasecmp item.1 name = .eq with
  | none => none
  | some item => if x = item.2 then some !clear else none

theorem isset_processBooleanInfo (upsStatus : BitVec 32) (nutvalue : CStr) (x : StatusBit) :
    isset (processBooleanInfo upsStatus nutvalue) x = (tells nutvalue x).getD (isset upsStatus x) := by
  unfold processBooleanInfo tells
  dsimp only
  split
  · rfl
  · rename_i item _
    split_ifs with hclear hx hx
    · simp [isset_clear, hx, hclear]
    · simp [isset_clear, hx]
    · simp [isset_set, hx, hclear]
    · simp [isset_set, hx]

/-- What the last value that is about a condition tells of it. -/
def lastTold (nutvalues : List CStr) (x : StatusBit) : Option Bool := (nutvalues.filterMap (tells · x)).getLast?

/-- A condition is what the last value that was about it told. -/
theorem isset_foldl (nutvalues : List CStr) (upsStatus : BitVec 32) (x : StatusBit) :
    isset (nutvalues.foldl processBooleanInfo upsStatus) x = (lastTold nutvalues x).getD (isset upsStatus x) := by
  induction nutvalues using List.reverseRecOn with
  | nil => rfl
  | append_singleton nutvalues nutvalue ih =>
    rw [List.foldl_concat, isset_processBooleanInfo, ih, lastTold, lastTold, List.filterMap_append]
    cases h : tells nutvalue x <;> simp [h]

end

/-! ### The words -/

/-- The words behind the first one in any status. -/
def vocabulary : List CStr :=
  ["DISCHRG".toList, "CHRG".toList, "LB".toList, "OVER".toList, "RB".toList, "TRIM".toList, "BOOST".toList,
    "BYPASS".toList,
    "OFF".toList, "CAL".toList]

/-- The words of a status: an alarm, the line, and others. -/
def published (alarm online : Bool) (words : List CStr) : List CStr :=
  (if alarm then ["ALARM".toList] else []) ++ (if online then "OL".toList else "OB".toList) :: words

section

variable {upsStatus : BitVec 32} {ws words : List CStr} {w v text : CStr} {alarm online : Bool}

theorem furtherWords_sublist (upsStatus : BitVec 32) :
    (((furtherWords upsStatus).filter Prod.fst).map Prod.snd).Sublist vocabulary := by
  have hmap : (furtherWords upsStatus).map Prod.snd = vocabulary := rfl
  rw [← hmap]
  exact (List.filter_sublist).map _

theorem mem_furtherWords :
    v ∈ ((furtherWords upsStatus).filter Prod.fst).map Prod.snd ↔ (true, v) ∈ furtherWords upsStatus := by
  simp only [List.mem_map, List.mem_filter, Prod.exists, and_comm, exists_eq_left]

theorem mem_low : "LB".toList ∈ ((furtherWords upsStatus).filter Prod.fst).map Prod.snd ↔
    (isset upsStatus .lowbatt || isset upsStatus .timelimitexp || isset upsStatus .shutdownimm) = true := by
  rw [mem_furtherWords]
  constructor
  · intro h
    simp only [furtherWords, List.mem_cons, List.not_mem_nil, or_false, Prod.mk.injEq] at h
    rcases h with ⟨-, h⟩ | ⟨-, h⟩ | ⟨h, -⟩ | ⟨-, h⟩ | ⟨-, h⟩ | ⟨-, h⟩ | ⟨-, h⟩ | ⟨-, h⟩ | ⟨-, h⟩ | ⟨-, h⟩
    case inr.inr.inl => exact h.symm
    all_goals exact absurd h (by decide)
  · intro h
    rw [furtherWords, h]
    exact List.mem_cons_of_mem _ (List.mem_cons_of_mem _ List.mem_cons_self)

theorem unwords_concat_ne (hne : ws ≠ []) (w : CStr) : unwords (ws ++ [w]) = unwords ws ++ ' ' :: w := by
  obtain ⟨before, v, rfl⟩ := (List.eq_nil_or_concat ws).resolve_left hne
  rw [List.concat_eq_append, unwords_concat, unwords_concat, spaced, List.flatMap_append]
  simp [spaced]

theorem joinedStatus_eq (h : ∀ w ∈ ws, w ≠ []) : joinedStatus ws = unwords ws := by
  induction ws using List.reverseRecOn with
  | nil => rfl
  | append_singleton ws w ih =>
    have hjoined : joinedStatus (ws ++ [w]) =
        joinedStatus ws ++ if 0 < (joinedStatus ws).length then ' ' :: w else w := by
      rw [joinedStatus, List.foldl_concat]
      rfl
    have hws : ∀ w ∈ ws, w ≠ [] := fun w hw => h w (List.mem_append_left _ hw)
    rw [hjoined, ih hws]
    rcases List.eq_nil_or_concat ws with rfl | ⟨before, v, rfl⟩
    · simp [unwords]
    · rw [List.concat_eq_append] at hws ⊢
      have hv : v ≠ [] := hws v (by simp)
      have hpos : 0 < (unwords (before ++ [v])).length := by
        rw [unwords_concat, List.length_append]
        have := List.length_pos_iff.2 hv
        omega
      rw [if_pos hpos, @unwords_concat_ne (before ++ [v]) (by simp) w]

/-- A part of words with blanks between them that has no blank is a part of one of them. -/
theorem infix_append_blank (hw : ' ' ∉ w) {a b : CStr} (h : w <:+: a ++ ' ' :: b) : w <:+: a ∨ w <:+: b := by
  obtain ⟨s, t, h⟩ := h
  rcases List.append_eq_append_iff.1 h with ⟨r, ha, -⟩ | ⟨r, hsw, hb⟩
  · exact .inl ⟨s, r, ha.symm⟩
  · cases r with
    | nil => exact .inl ⟨s, [], by simpa using hsw⟩
    | cons c r =>
      obtain ⟨rfl, rfl⟩ := List.cons.inj hb
      rcases List.append_eq_append_iff.1 hsw with ⟨q, -, hq⟩ | ⟨q, hs, hq⟩
      · exact absurd (hq ▸ List.mem_append_right q List.mem_cons_self) hw
      · cases q with
        | nil => exact absurd ((List.nil_append w).symm.trans hq.symm ▸ List.mem_cons_self) hw
        | cons d q =>
          obtain ⟨-, rfl⟩ := List.cons.inj hq
          exact .inr ⟨q, t, by simp⟩

theorem infix_of_mem (h : v ∈ ws) : v <:+: unwords ws := by
  induction ws using List.reverseRecOn with
  | nil => exact absurd h List.not_mem_nil
  | append_singleton ws u ih =>
    by_cases hnil : ws = []
    · subst hnil
      obtain rfl := List.mem_singleton.1 h
      exact ⟨[], [], by simp [unwords]⟩
    · rw [unwords_concat_ne hnil]
      rcases List.mem_append.1 h with h | h
      · exact (ih h).trans (List.prefix_append _ _).isInfix
      · obtain rfl := List.mem_singleton.1 h
        exact (List.suffix_cons ' ' v).isInfix.trans (List.suffix_append _ _).isInfix

theorem infix_unwords (hw : ' ' ∉ w) (hne : w ≠ []) (h : w <:+: unwords ws) : ∃ v ∈ ws, w <:+: v := by
  induction ws using List.reverseRecOn with
  | nil => exact absurd (List.infix_nil.1 h) hne
  | append_singleton ws v ih =>
    by_cases hnil : ws = []
    · subst hnil
      exact ⟨v, by simp, by simpa [unwords] using h⟩
    · rw [unwords_concat_ne hnil] at h
      rcases infix_append_blank hw h with h | h
      · obtain ⟨u, hu, hin⟩ := ih h
        exact ⟨u, List.mem_append_left _ hu, hin⟩
      · exact ⟨v, by simp, h⟩

/-! ### What a monitor makes of the words -/

/-- The words are not empty and have no blanks. -/
theorem words_published (hwords : words ⊆ vocabulary) : ∀ v ∈ published alarm online words, v ≠ [] ∧ ' ' ∉ v := by
  intro v hv
  rw [published, List.mem_append, List.mem_cons] at hv
  have hvocabulary : ∀ v ∈ vocabulary, v ≠ [] ∧ ' ' ∉ v := by decide
  rcases hv with hv | rfl | hv
  · cases alarm
    · simp at hv
    · obtain rfl := List.mem_singleton.1 hv
      decide
  · cases online <;> decide
  · exact hvocabulary v (hwords hv)

theorem splitOn_published (hwords : words ⊆ vocabulary) :
    (unwords (published alarm online words)).splitOn ' ' = published alarm online words :=
  List.splitOn_intercalate ' ' (fun v hv => (words_published hwords v hv).2)
    (List.append_ne_nil_of_right_ne_nil _ (List.cons_ne_nil _ _))

theorem mem_published (hw : w ∉ ["ALARM".toList, "OL".toList, "OB".toList]) :
    w ∈ published alarm online words ↔ w ∈ words := by
  simp only [List.mem_cons, List.not_mem_nil, or_false, not_or] at hw
  rw [published, List.mem_append, List.mem_cons]
  constructor
  · rintro (h | h | h)
    · cases alarm
      · simp at h
      · exact absurd (List.mem_singleton.1 h) hw.1
    · cases online
      · exact absurd h hw.2.2
      · exact absurd h hw.2.1
    · exact h
  · exact fun h => .inr (.inr h)

theorem published_subset (hwords : words ⊆ vocabulary) :
    published alarm online words ⊆ "ALARM".toList :: "OL".toList :: "OB".toList :: vocabulary := by
  intro v hv
  rw [published, List.mem_append, List.mem_cons] at hv
  rcases hv with hv | rfl | hv
  · cases alarm
    · simp at hv
    · obtain rfl := List.mem_singleton.1 hv
      decide
  · cases online <;> decide
  · exact List.mem_cons_of_mem _ (List.mem_cons_of_mem _ (List.mem_cons_of_mem _ (hwords hv)))

/-- The texts that `upsmon` looks for are parts of the status when they are among its words. -/
theorem part_iff (hwords : words ⊆ vocabulary) (hw : w ∈ ["LB".toList, "FSD".toList]) :
    (w <:+: unwords (published alarm online words) ↔ w ∈ words) ∧
      (Upsmon.HasWord (unwords (published alarm online words)) w ↔ w ∈ words) := by
  have hdecided : ∀ w ∈ ["LB".toList, "FSD".toList], w ≠ [] ∧ ' ' ∉ w ∧ w ∉ ["ALARM".toList, "OL".toList, "OB".toList] ∧
      ∀ v ∈ "ALARM".toList :: "OL".toList :: "OB".toList :: vocabulary,
        (w <:+: v → w = v) ∧ (strcasecmp v w = .eq → w = v) := by
    decide
  obtain ⟨hne, hblank, hother, hall⟩ := hdecided w hw
  rw [← @mem_published words w alarm online hother]
  constructor
  · constructor
    · intro h
      obtain ⟨v, hv, hin⟩ := infix_unwords hblank hne h
      exact (hall v (published_subset hwords hv)).1 hin ▸ hv
    · exact infix_of_mem
  · rw [Upsmon.HasWord, splitOn_published hwords]
    constructor
    · rintro ⟨v, hv, hsame⟩
      exact (hall v (published_subset hwords hv)).2 hsame ▸ hv
    · exact fun h => ⟨w, h, strcasecmp_self w⟩

/-- One word tells of the line. -/
theorem lastLineWord_published (hwords : words ⊆ vocabulary) :
    Upsmon.lastLineWord (unwords (published alarm online words)) = some online := by
  have hnone : ∀ v ∈ vocabulary, Upsmon.lineWord v = none := by decide
  have hrest : words.filterMap Upsmon.lineWord = [] :=
    List.filterMap_eq_nil_iff.2 fun v hv => hnone v (hwords hv)
  rw [Upsmon.lastLineWord, splitOn_published hwords, published, List.filterMap_append, List.filterMap_cons, hrest]
  cases alarm <;> cases online <;> decide

/-- The words decide what a monitor takes the UPS for. -/
theorem parseStatus_published (hwords : words ⊆ vocabulary) (c : Upsmon.State) (now : Int) {ups : Upsmon.Utype}
    (hline : ups.line ≠ (true, true)) :
    (Upsmon.flagIsset (Upsmon.parseStatus c now ups (unwords (published alarm online words))).status
        Upsmon.stLowbatt = true ↔
      "LB".toList ∈ words) ∧
    Upsmon.flagIsset (Upsmon.parseStatus c now ups (unwords (published alarm online words))).status
        Upsmon.stFsd = false ∧
    (Upsmon.parseStatus c now ups (unwords (published alarm online words))).line = (online, !online) := by
  have hlow := @part_iff words "LB".toList alarm online hwords (by decide)
  have hfsd := @part_iff words "FSD".toList alarm online hwords (by decide)
  have hno : "FSD".toList ∉ words := fun h => absurd (hwords h) (by decide)
  have hne : unwords (published alarm online words) ≠ [] := by
    intro h
    have hsplit := @splitOn_published words alarm online hwords
    rw [h] at hsplit
    have hempty := (@words_published words alarm online hwords [] (hsplit ▸ by decide)).1
    exact hempty rfl
  obtain ⟨hlowbatt, hforced, hmoved, -⟩ := (Upsmon.status_words_iff hne).2 ⟨fun _ => hlow.1.trans hlow.2.symm,
    fun _ => hfsd.1.trans hfsd.2.symm, fun h => absurd h hline⟩
  refine ⟨hlowbatt.trans hlow.2, ?_, ?_⟩
  · rw [Bool.eq_false_iff]
    exact fun h => hno (hfsd.2.1 (hforced.1 h))
  · rw [hmoved, lastLineWord_published hwords]

end

/-! ### What is published -/

section

variable {w : Nat → Bool} {s : StatusState} {upsStatus : BitVec 32} {ws : List CStr} {d : Dstate}

theorem length_unwords {n : Nat} (h : ∀ v ∈ ws, v.length ≤ n) : (unwords ws).length ≤ (n + 1) * ws.length := by
  induction ws using List.reverseRecOn with
  | nil => simp [unwords]
  | append_singleton ws v ih =>
    have hws : ∀ v ∈ ws, v.length ≤ n := fun v hv => h v (List.mem_append_left _ hv)
    have hv : v.length ≤ n := h v (by simp)
    by_cases hnil : ws = []
    · subst hnil
      have hone : unwords ([] ++ [v]) = v := by simp [unwords]
      rw [hone]
      simp
      omega
    · rw [unwords_concat_ne hnil, List.length_append, List.length_cons, List.length_append, List.length_singleton,
        Nat.mul_add]
      have := ih hws
      omega

theorem unwords_cons_ne (v : CStr) (hne : ws ≠ []) : unwords (v :: ws) = v ++ ' ' :: unwords ws := by
  obtain ⟨u, us, rfl⟩ := List.exists_cons_of_ne_nil hne
  simp [unwords, List.intercalate_cons_cons]

/-- The charge or the runtime is below its limit. -/
def low (d : Dstate) : Bool :=
  below d "battery.charge".toList "battery.charge.low".toList ||
    below d "battery.runtime".toList "battery.runtime.low".toList

/-- The words behind the first one that are published: with `ignorelb`, `LB` is decided by the charge and the
runtime. -/
def keptWords (s : StatusState) (upsStatus : BitVec 32) : List CStr :=
  taken s.ignorelb (((furtherWords upsStatus).filter Prod.fst).map Prod.snd) ++
    if s.ignorelb && low s.dstate then ["LB".toList] else []

theorem keptWords_subset : keptWords s upsStatus ⊆ vocabulary := by
  intro v hv
  rcases List.mem_append.1 hv with hv | hv
  · exact (furtherWords_sublist upsStatus).subset (List.mem_filter.1 hv).1
  · split_ifs at hv
    · obtain rfl := List.mem_singleton.1 hv
      decide
    · exact absurd hv List.not_mem_nil

theorem mem_keptWords : "LB".toList ∈ keptWords s upsStatus ↔ if s.ignorelb then low s.dstate = true
    else (isset upsStatus .lowbatt || isset upsStatus .timelimitexp || isset upsStatus .shutdownimm) = true := by
  rw [keptWords, List.mem_append, taken, List.mem_filter, mem_low]
  cases s.ignorelb <;> cases low s.dstate <;> simp

/-- The status that `ups_status_set` and `status_commit` publish after `status_init`. -/
def statusText (s : StatusState) (upsStatus : BitVec 32) : CStr :=
  unwords (published s.alarmActive (isset upsStatus .online) (keptWords s upsStatus))

theorem taken_statusWords (ignorelb : Bool) : taken ignorelb (statusWords upsStatus) =
    published false (isset upsStatus .online)
      (taken ignorelb (((furtherWords upsStatus).filter Prod.fst).map Prod.snd)) := by
  have hfirst : ¬(ignorelb = true ∧
    strcasecmp (if isset upsStatus .online then "OL".toList else "OB".toList) "LB".toList = .eq) := by
    rintro ⟨-, h⟩
    split_ifs at h
    · exact absurd h (by decide)
    · exact absurd h (by decide)
  rw [statusWords, taken, List.filter_cons_of_pos (by exact decide_eq_true hfirst)]
  rfl

theorem length_published {alarm online : Bool} {words : List CStr} (hwords : words ⊆ vocabulary) :
    (unwords (published alarm online words)).length ≤ 8 * (2 + words.length) := by
  have hshort : ∀ v ∈ "ALARM".toList :: "OL".toList :: "OB".toList :: vocabulary, v.length ≤ 7 := by decide
  have hlen : (published alarm online words).length ≤ 2 + words.length := by
    rw [published, List.length_append, List.length_cons]
    cases alarm
    · simp only [Bool.false_eq_true, if_false, List.length_nil]
      omega
    · simp only [if_true, List.length_singleton]
      omega
  have hall := @length_unwords (published alarm online words) 7 fun v hv => hshort v (published_subset hwords hv)
  omega

theorem length_keptWords (s : StatusState) (upsStatus : BitVec 32) : (keptWords s upsStatus).length ≤ 11 := by
  have hfurther := (furtherWords_sublist upsStatus).length_le
  have hvocabulary : vocabulary.length = 10 := rfl
  rw [keptWords, List.length_append, taken]
  have hkept := List.length_filter_le (fun buf => decide ¬(s.ignorelb = true ∧ strcasecmp buf "LB".toList = .eq))
    (((furtherWords upsStatus).filter Prod.fst).map Prod.snd)
  split_ifs
  · rw [List.length_singleton]
    omega
  · rw [List.length_nil]
    omega

theorem taken_subset (ignorelb : Bool) :
    taken ignorelb (((furtherWords upsStatus).filter Prod.fst).map Prod.snd) ⊆ vocabulary :=
  fun _ hv => (furtherWords_sublist upsStatus).subset (List.mem_filter.1 hv).1

theorem length_taken (ignorelb online : Bool) : (unwords (published false online
    (taken ignorelb (((furtherWords upsStatus).filter Prod.fst).map Prod.snd)))).length ≤ 96 := by
  have hlen := @length_published false online _ (@taken_subset upsStatus ignorelb)
  have htaken := List.length_filter_le (fun buf => decide ¬(ignorelb = true ∧ strcasecmp buf "LB".toList = .eq))
    (((furtherWords upsStatus).filter Prod.fst).map Prod.snd)
  have hfurther := (furtherWords_sublist upsStatus).length_le
  have hvocabulary : vocabulary.length = 10 := rfl
  rw [taken] at hlen ⊢
  omega

/-- The buffer after `ups_status_set`. -/
theorem statusBuf_upsStatusSet (hempty : s.statusBuf = []) : (upsStatusSet w upsStatus s).statusBuf =
    unwords (published false (isset upsStatus .online)
      (taken s.ignorelb (((furtherWords upsStatus).filter Prod.fst).map Prod.snd))) := by
  have hlimit : stMaxValueLen = 256 := rfl
  have hlen := @length_taken upsStatus s.ignorelb (isset upsStatus .online)
  rw [upsStatusSet, statusBuf_foldl_statusSet]
  dsimp only
  rw [hempty, foldl_addElement, taken_statusWords,
    joinedStatus_eq fun v hv => (words_published (taken_subset _) v hv).1]
  exact List.take_of_length_le (by omega)

/-- There is room for another word. -/
theorem snprintfcat_low (ignorelb online : Bool) : snprintfcat (unwords (published false online
      (taken ignorelb (((furtherWords upsStatus).filter Prod.fst).map Prod.snd)))) stMaxValueLen " LB".toList =
    unwords (published false online
      (taken ignorelb (((furtherWords upsStatus).filter Prod.fst).map Prod.snd) ++ ["LB".toList])) := by
  have hlen := @length_taken upsStatus ignorelb online
  have hlimit : stMaxValueLen = 256 := rfl
  have hword : " LB".toList.length = 3 := rfl
  have hconcat := @unwords_concat_ne (published false online
    (taken ignorelb (((furtherWords upsStatus).filter Prod.fst).map Prod.snd))) (List.cons_ne_nil _ _) "LB".toList
  rw [snprintfcat, snprintf_of_lt (by omega)]
  exact hconcat.symm

theorem foldl_statusSet_eq (s : StatusState) (words : List CStr) :
    words.foldl statusSet s = { s with statusBuf := (words.foldl statusSet s).statusBuf } := by
  induction words generalizing s with
  | nil => rfl
  | cons buf words ih =>
    have hset : statusSet s buf = { s with statusBuf := (statusSet s buf).statusBuf } := by
      unfold statusSet
      split_ifs <;> rfl
    rw [List.foldl_cons, ih, hset]

theorem upsStatusSet_eq (hempty : s.statusBuf = []) : upsStatusSet w upsStatus s =
    { s with
      dstate := setTransferReason w upsStatus s.dstate
      statusBuf := unwords (published false (isset upsStatus .online)
        (taken s.ignorelb (((furtherWords upsStatus).filter Prod.fst).map Prod.snd))) } := by
  rw [← statusBuf_upsStatusSet hempty, upsStatusSet, foldl_statusSet_eq]

/-- What `status_commit` publishes after `ups_status_set`. -/
theorem statusCommit_upsStatusSet (hempty : s.statusBuf = []) :
    (statusCommit w (upsStatusSet w upsStatus s)).dstate =
        (dstateSetinfo w (setTransferReason w upsStatus s.dstate) "ups.status".toList
          (statusText { s with dstate := setTransferReason w upsStatus s.dstate } upsStatus)).1 ∧
      (statusCommit w (upsStatusSet w upsStatus s)).ignorelb = s.ignorelb ∧
      (statusCommit w (upsStatusSet w upsStatus s)).alarmActive = s.alarmActive := by
  rw [upsStatusSet_eq hempty]
  generalize setTransferReason w upsStatus s.dstate = d
  have hbuf : (if s.ignorelb = true ∧ (below d "battery.charge".toList "battery.charge.low".toList = true ∨
        below d "battery.runtime".toList "battery.runtime.low".toList = true) then
      snprintfcat (unwords (published false (isset upsStatus .online)
        (taken s.ignorelb (((furtherWords upsStatus).filter Prod.fst).map Prod.snd)))) stMaxValueLen " LB".toList
      else unwords (published false (isset upsStatus .online)
        (taken s.ignorelb (((furtherWords upsStatus).filter Prod.fst).map Prod.snd)))) =
      unwords (published false (isset upsStatus .online) (keptWords { s with dstate := d } upsStatus)) := by
    have hiff : (s.ignorelb && low d) = true ↔ s.ignorelb = true ∧ (below d "battery.charge".toList
        "battery.charge.low".toList = true ∨ below d "battery.runtime".toList "battery.runtime.low".toList = true) := by
      rw [low, Bool.and_eq_true, Bool.or_eq_true]
    rw [keptWords]
    dsimp only
    by_cases hlow : (s.ignorelb && low d) = true
    · rw [if_pos hlow, if_pos (hiff.1 hlow), snprintfcat_low]
    · rw [if_neg hlow, if_neg (mt hiff.2 hlow), List.append_nil]
  have htext : statusText { s with dstate := d } upsStatus = if s.alarmActive then "ALARM ".toList ++
      unwords (published false (isset upsStatus .online) (keptWords { s with dstate := d } upsStatus))
      else unwords (published false (isset upsStatus .online) (keptWords { s with dstate := d } upsStatus)) := by
    rw [statusText]
    cases s.alarmActive
    · rfl
    · exact unwords_cons_ne _ (List.cons_ne_nil _ _)
  rw [htext, ← hbuf]
  unfold statusCommit
  dsimp only
  split_ifs <;> exact ⟨rfl, rfl, rfl⟩

/-- Letters that stand for themselves only, whatever the case. -/
def Capital (text : CStr) : Prop := ∀ c ∈ text, c ∈ " ABCDEFGHIJKLMNOPQRSTUVWXYZ".toList

theorem eq_of_capital {a b : CStr} (ha : Capital a) (hb : Capital b) (h : strcasecmp a b = .eq) : a = b := by
  have hinj : ∀ c ∈ " ABCDEFGHIJKLMNOPQRSTUVWXYZ".toList, ∀ d ∈ " ABCDEFGHIJKLMNOPQRSTUVWXYZ".toList,
      c.toLower = d.toLower → c = d := by decide
  have hmap : a.map Char.toLower = b.map Char.toLower := strcasecmp_eq.1 h
  clear h
  induction a generalizing b with
  | nil => simpa using hmap.symm
  | cons c a ih =>
    cases b with
    | nil => simp at hmap
    | cons d b =>
      obtain ⟨hcd, hrest⟩ := List.cons.inj hmap
      rw [hinj c (ha c List.mem_cons_self) d (hb d List.mem_cons_self) hcd,
        ih (fun e he => ha e (List.mem_cons_of_mem _ he)) (fun e he => hb e (List.mem_cons_of_mem _ he)) hrest]

theorem capital_unwords (h : ∀ v ∈ ws, Capital v) : Capital (unwords ws) := by
  induction ws using List.reverseRecOn with
  | nil => exact fun c hc => absurd hc (by simp [unwords])
  | append_singleton ws v ih =>
    have hv : Capital v := h v (by simp)
    by_cases hnil : ws = []
    · subst hnil
      simpa [unwords] using hv
    · rw [unwords_concat_ne hnil]
      intro c hc
      rcases List.mem_append.1 hc with hc | hc
      · exact ih (fun v hv => h v (List.mem_append_left _ hv)) c hc
      · rcases List.mem_cons.1 hc with rfl | hc
        · decide
        · exact hv c hc

theorem capital_statusText (s : StatusState) (upsStatus : BitVec 32) : Capital (statusText s upsStatus) := by
  have hcapital : ∀ v ∈ "ALARM".toList :: "OL".toList :: "OB".toList :: vocabulary, ∀ c ∈ v,
      c ∈ " ABCDEFGHIJKLMNOPQRSTUVWXYZ".toList := by decide
  exact capital_unwords fun v hv => hcapital v (published_subset keptWords_subset hv)

end

/-! ### Runs -/

/-- The variables are in order, and the status is one that another one replaces. -/
structure Clean (d : Dstate) : Prop where
  ordered : Ordered nodeKey d.dtreeRoot
  status : ∀ n, stateTreeFind d.dtreeRoot "ups.status".toList = some n → Capital n.raw ∧ n.flags &&& stFlagImmutable = 0

/-- The value is not one of `ups.status`. -/
def Infoval.Keeps : Infoval → Prop
  | .value infoType _ => tolower infoType ≠ tolower "ups.status".toList
  | _ => True

/-- The values are none of `ups.status`. -/
def Update.Keeps (u : Update) : Prop := (∀ v ∈ u.events, v.Keeps) ∧ ∀ v ∈ u.walk, v.Keeps

def Infoval.nutvalue : Infoval → Option CStr
  | .bool nutvalue => some nutvalue
  | _ => none

/-- The values of conditions. -/
def Update.nutvalues (u : Update) : List CStr := (u.events ++ u.walk).filterMap Infoval.nutvalue

section

variable {w : Nat → Bool} {d : Dstate} {s : HidUps} {u : Update} {vals : List Infoval}

theorem Clean.setinfo (h : Clean d) {var : CStr} (hvar : tolower var ≠ tolower "ups.status".toList) (text : CStr) :
    Clean (dstateSetinfo w d var text).1 where
  ordered := ordered_setinfo h.ordered var text
  status n hn := by
    rw [find_setinfo_of_ne hvar.symm] at hn
    exact h.status n hn

theorem Clean.delinfo (h : Clean d) {var : CStr} (hvar : tolower var ≠ tolower "ups.status".toList) :
    Clean (dstateDelinfo w d var).1 where
  ordered := by
    rw [dtreeRoot_delinfo]
    exact ordered_erase h.ordered
  status n hn := by
    rw [find_delinfo h.ordered, if_neg hvar.symm] at hn
    exact h.status n hn

theorem Clean.of_tree {d' : Dstate} (h : Clean d) (htree : d'.dtreeRoot = d.dtreeRoot) : Clean d' := by
  obtain ⟨hordered, hstatus⟩ := h
  exact ⟨htree ▸ hordered, htree ▸ hstatus⟩

/-- A status replaces the one before. -/
theorem Clean.publish (h : Clean d) {text : CStr} (hcapital : Capital text) (hlen : text.length < stMaxValueLen) :
    Clean (dstateSetinfo w d "ups.status".toList text).1 ∧
      ∃ n, stateTreeFind (dstateSetinfo w d "ups.status".toList text).1.dtreeRoot "ups.status".toList = some n ∧
        n.raw = text := by
  have hset := @varSet_setinfo w d "ups.status".toList text hlen fun n hn => by
    obtain ⟨hold, himm⟩ := h.status n hn
    by_cases hsame : strcasecmp n.raw text = .eq
    · exact .inl (eq_of_capital hold hcapital hsame)
    · exact .inr ⟨hsame, himm⟩
  obtain ⟨n, hn, hraw⟩ := hset.value
  refine ⟨⟨ordered_setinfo h.ordered _ _, fun n' hn' => ?_⟩, n, hn, hraw⟩
  obtain rfl := Option.some.inj (hn.symm.trans hn')
  refine ⟨hraw ▸ hcapital, ?_⟩
  rw [dtreeRoot_setinfo, stateTreeFind_eq, find_upsert_self (nodeKey_setRaw _) (nodeKey_newNode _ _)] at hn
  obtain rfl := Option.some.inj hn
  cases hfind : find nodeKey (tolower "ups.status".toList) d.dtreeRoot with
  | none => simp
  | some m =>
    rw [← stateTreeFind_eq] at hfind
    rw [Option.elim_some, setRaw_flags]
    exact (h.status m hfind).2

theorem Clean.transferReason (h : Clean d) (upsStatus : BitVec 32) : Clean (setTransferReason w upsStatus d) := by
  have hvar : tolower "input.transfer.reason".toList ≠ tolower "ups.status".toList := by decide
  unfold setTransferReason
  split_ifs
  · exact h.setinfo hvar _
  · exact h.setinfo hvar _
  · exact h.delinfo hvar

theorem Clean.alarmCommit {t : StatusState} (h : Clean t.dstate) : Clean (Nut.alarmCommit w t).dstate := by
  have hvar : tolower "ups.alarm".toList ≠ tolower "ups.status".toList := by decide
  unfold Nut.alarmCommit
  split_ifs
  · exact h.setinfo hvar _
  · exact h.delinfo hvar

/-- What the values of a walk leave: the conditions, and the status as it was. -/
theorem foldl_upsInfovalSet (hvals : ∀ v ∈ vals, v.Keeps) (h : Clean s.status.dstate) :
    (vals.foldl (upsInfovalSet w) s).upsStatus =
      (vals.filterMap Infoval.nutvalue).foldl processBooleanInfo s.upsStatus ∧
      (vals.foldl (upsInfovalSet w) s).status.statusBuf = s.status.statusBuf ∧
      Clean (vals.foldl (upsInfovalSet w) s).status.dstate := by
  induction vals generalizing s with
  | nil => exact ⟨rfl, rfl, h⟩
  | cons v vals ih =>
    rw [List.forall_mem_cons] at hvals
    rw [List.foldl_cons]
    cases v with
    | bool nutvalue => exact @ih (upsInfovalSet w s (.bool nutvalue)) hvals.2 h
    | alarm nutvalue => exact @ih (upsInfovalSet w s (.alarm nutvalue)) hvals.2 h
    | value infoType text => exact @ih (upsInfovalSet w s (.value infoType text)) hvals.2 (h.setinfo hvals.1 text)

/-- The status that is published is the one of the conditions. -/
def Published (s : HidUps) : Prop :=
  ∃ n, stateTreeFind s.status.dstate.dtreeRoot "ups.status".toList = some n ∧ n.raw = statusText s.status s.upsStatus

theorem low_of_getinfo {d' : Dstate}
    (h : ∀ var ∈ ["battery.charge".toList, "battery.charge.low".toList, "battery.runtime".toList,
    "battery.runtime.low".toList], dstateGetinfo d' var = dstateGetinfo d var) : low d' = low d := by
  simp only [List.forall_mem_cons] at h
  obtain ⟨hcharge, hchargeLow, hruntime, hruntimeLow, -⟩ := h
  rw [low, low, below, below, below, below, hcharge, hchargeLow, hruntime, hruntimeLow]

theorem dataok_dtreeRoot (d : Dstate) : (dstateDataok w d).dtreeRoot = d.dtreeRoot := by
  unfold dstateDataok
  split_ifs
  · exact sendToAll_dtreeRoot w _ _
  · rfl

theorem low_publish (d : Dstate) (text : CStr) :
    low (dstateDataok w (dstateSetinfo w d "ups.status".toList text).1) = low d := by
  refine low_of_getinfo fun var hvar => ?_
  have hother : ∀ var ∈ ["battery.charge".toList, "battery.charge.low".toList, "battery.runtime".toList,
      "battery.runtime.low".toList], tolower var ≠ tolower "ups.status".toList := by decide
  rw [dstateGetinfo, dstateGetinfo, stateGetinfo, stateGetinfo, dataok_dtreeRoot, find_setinfo_of_ne (hother var hvar)]

theorem length_statusText (s : StatusState) (upsStatus : BitVec 32) :
    (statusText s upsStatus).length < stMaxValueLen := by
  have hlen := @length_published s.alarmActive (isset upsStatus .online) _ (@keptWords_subset s upsStatus)
  have hwords := length_keptWords s upsStatus
  rw [statusText, stMaxValueLen]
  omega

/-- The end of an update publishes the status. -/
theorem published_commit (h : Clean s.status.dstate) (hempty : s.status.statusBuf = []) :
    Clean (dstateDataok w (statusCommit w (upsStatusSet w s.upsStatus s.status)).dstate) ∧
      Published { s with status := { statusCommit w (upsStatusSet w s.upsStatus s.status) with
        dstate := dstateDataok w (statusCommit w (upsStatusSet w s.upsStatus s.status)).dstate } } := by
  obtain ⟨hcommit, hignore, halarm⟩ := @statusCommit_upsStatusSet w s.status s.upsStatus hempty
  obtain ⟨hclean, n, hn, hraw⟩ := @Clean.publish w _ (h.transferReason s.upsStatus) _
    (capital_statusText { s.status with dstate := setTransferReason w s.upsStatus s.status.dstate } s.upsStatus)
    (length_statusText _ _)
  rw [hcommit]
  refine ⟨hclean.of_tree (dataok_dtreeRoot _), n, (dataok_dtreeRoot _).symm ▸ hn, ?_⟩
  rw [hraw, statusText, statusText, keptWords, keptWords]
  dsimp only
  rw [low_publish, hignore, halarm]

theorem upsAlarmSet_keeps (upsStatus : BitVec 32) (t : StatusState) :
    (upsAlarmSet upsStatus t).dstate = t.dstate ∧ (upsAlarmSet upsStatus t).statusBuf = t.statusBuf := by
  rw [upsAlarmSet]
  induction alarmTexts generalizing t with
  | nil => exact ⟨rfl, rfl⟩
  | cons item items ih =>
    rw [List.foldl_cons, (ih _).1, (ih _).2]
    split_ifs <;> exact ⟨rfl, rfl⟩

/-- An update remembers what the values told, and publishes the status if it is complete. -/
theorem upsdrvUpdateinfo_spec (hkeeps : u.Keeps) (h : Clean s.status.dstate) :
    (upsdrvUpdateinfo w s u).upsStatus = u.nutvalues.foldl processBooleanInfo s.upsStatus ∧
      Clean (upsdrvUpdateinfo w s u).status.dstate ∧ (u.complete = true → Published (upsdrvUpdateinfo w s u)) := by
  obtain ⟨hevents, -, hclean⟩ := @foldl_upsInfovalSet w s u.events hkeeps.1 h
  unfold upsdrvUpdateinfo
  dsimp only
  generalize hs₁ : u.events.foldl (upsInfovalSet w) s = s₁ at hevents hclean ⊢
  -- the buffers are emptied before the walk
  generalize hs₂ : (if u.full = true then { s₁ with status := alarmInit (statusInit s₁.status) }
    else { s₁ with status := statusInit s₁.status } : HidUps) = s₂
  have hinit : s₂.upsStatus = s₁.upsStatus ∧ s₂.status.statusBuf = [] ∧ s₂.status.dstate = s₁.status.dstate := by
    rw [← hs₂]
    split_ifs <;> exact ⟨rfl, rfl, rfl⟩
  obtain ⟨hwalk, hbuf, hclean⟩ := @foldl_upsInfovalSet w s₂ u.walk hkeeps.2 (hinit.2.2.symm ▸ hclean)
  generalize hs₃ : u.walk.foldl (upsInfovalSet w) s₂ = s₃ at hwalk hbuf hclean ⊢
  have hbits : s₃.upsStatus = u.nutvalues.foldl processBooleanInfo s.upsStatus := by
    rw [hwalk, hinit.1, hevents, Update.nutvalues, List.filterMap_append, List.foldl_append]
  by_cases hcomplete : u.complete = false
  · rw [if_pos hcomplete]
    exact ⟨hbits, hclean, fun h => absurd (hcomplete.symm.trans h) (by decide)⟩
  · rw [if_neg hcomplete]
    -- the alarms leave the status alone
    generalize hs₄ : (if u.full = true then
      { s₃ with status := alarmCommit w (upsAlarmSet s₃.upsStatus s₃.status) } else s₃ : HidUps) = s₄
    have halarm : s₄.upsStatus = s₃.upsStatus ∧ s₄.status.statusBuf = [] ∧ Clean s₄.status.dstate := by
      rw [← hs₄]
      split_ifs
      · obtain ⟨hd, hb⟩ := upsAlarmSet_keeps s₃.upsStatus s₃.status
        have hcommitBuf : (alarmCommit w (upsAlarmSet s₃.upsStatus s₃.status)).statusBuf = [] := by
          unfold alarmCommit
          split_ifs
          · exact hb.trans (hbuf.trans hinit.2.1)
          · exact hb.trans (hbuf.trans hinit.2.1)
        exact ⟨rfl, hcommitBuf, Clean.alarmCommit (hd.symm ▸ hclean)⟩
      · exact ⟨rfl, hbuf.trans hinit.2.1, hclean⟩
    obtain ⟨hpublish, hpublished⟩ := @published_commit w s₄ halarm.2.2 halarm.2.1
    exact ⟨halarm.1.trans hbits, hpublish, fun _ => hpublished⟩

/-- What the driver takes a condition for after some updates: what the last value that is about it told. -/
def known (upsStatus : BitVec 32) (us : List Update) (x : StatusBit) : Bool :=
  (lastTold (us.flatMap Update.nutvalues) x).getD (isset upsStatus x)

theorem updates_spec {us : List Update} (hkeeps : ∀ u ∈ us, u.Keeps) (h : Clean s.status.dstate) :
    (∀ x, isset (us.foldl (upsdrvUpdateinfo w) s).upsStatus x = known s.upsStatus us x) ∧
      Clean (us.foldl (upsdrvUpdateinfo w) s).status.dstate := by
  have hrun : (us.foldl (upsdrvUpdateinfo w) s).upsStatus =
      (us.flatMap Update.nutvalues).foldl processBooleanInfo s.upsStatus ∧
      Clean (us.foldl (upsdrvUpdateinfo w) s).status.dstate := by
    induction us generalizing s with
    | nil => exact ⟨rfl, h⟩
    | cons u us ih =>
      rw [List.forall_mem_cons] at hkeeps
      obtain ⟨hbits, hclean, -⟩ := @upsdrvUpdateinfo_spec w s u hkeeps.1 h
      obtain ⟨hrest, hend⟩ := ih hkeeps.2 hclean
      rw [List.foldl_cons, hrest, hbits, List.flatMap_cons, List.foldl_append]
      exact ⟨rfl, hend⟩
  exact ⟨fun x => by rw [hrun.1, isset_foldl, known], hrun.2⟩

/-- After any updates of which the last one is complete, whatever the ones before told and wherever they failed, a
monitor that gets `ups.status` takes the UPS for on line or on battery as the last value about it told, for low on
battery exactly if one of three conditions or, with `ignorelb`, the charge or the runtime says so, and never for one
that is shut down by force. -/
theorem hid_status_heard (w : Nat → Bool) (s : HidUps) (us : List Update) (u : Update)
    (hclean : Clean s.status.dstate) (hkeeps : ∀ v ∈ us ++ [u], v.Keeps) (hcomplete : u.complete = true) :
    ∃ n, stateTreeFind ((us ++ [u]).foldl (upsdrvUpdateinfo w) s).status.dstate.dtreeRoot "ups.status".toList = some n ∧
      ∀ (c : Upsmon.State) (now : Int) (ups : Upsmon.Utype), ups.line ≠ (true, true) →
        (Upsmon.flagIsset (Upsmon.parseStatus c now ups n.raw).status Upsmon.stLowbatt = true ↔
          if ((us ++ [u]).foldl (upsdrvUpdateinfo w) s).status.ignorelb then
            low ((us ++ [u]).foldl (upsdrvUpdateinfo w) s).status.dstate = true
          else ∃ x ∈ [StatusBit.lowbatt, .timelimitexp, .shutdownimm], known s.upsStatus (us ++ [u]) x = true) ∧
        Upsmon.flagIsset (Upsmon.parseStatus c now ups n.raw).status Upsmon.stFsd = false ∧
        (Upsmon.parseStatus c now ups n.raw).line =
          (known s.upsStatus (us ++ [u]) .online, !known s.upsStatus (us ++ [u]) .online) := by
  obtain ⟨hknown, -⟩ := @updates_spec w s _ hkeeps hclean
  rw [List.forall_mem_append] at hkeeps
  obtain ⟨-, hbefore⟩ := @updates_spec w s us hkeeps.1 hclean
  obtain ⟨-, -, hpublished⟩ := @upsdrvUpdateinfo_spec w _ u (hkeeps.2 u (by simp)) hbefore
  rw [← @List.foldl_concat _ _ (upsdrvUpdateinfo w)] at hpublished
  generalize (us ++ [u]).foldl (upsdrvUpdateinfo w) s = last at hknown hpublished ⊢
  obtain ⟨n, hn, hraw⟩ := hpublished hcomplete
  refine ⟨n, hn, fun c now ups hline => ?_⟩
  have hheard := @parseStatus_published _ last.status.alarmActive (isset last.upsStatus .online)
    (@keptWords_subset last.status last.upsStatus) c now ups hline
  rw [← statusText, ← hraw, mem_keptWords, hknown, hknown, hknown, hknown] at hheard
  refine ⟨hheard.1.trans ?_, hheard.2⟩
  simp only [List.exists_mem_cons_iff, List.not_mem_nil, false_and, exists_false, or_false, Bool.or_eq_true, or_assoc]

/-- A driver that has just begun, and knows nothing of its UPS. -/
def freshHid : HidUps where
  upsStatus := 0
  status :=
    { dstate := Dstate.init
      ignorelb := false
      statusBuf := []
      alarmBuf := []
      alarmActive := false }

/-- A walk that fails after the line is lost. -/
def lostLine : Update where
  events := [.bool "online".toList, .value "battery.charge".toList "40".toList]
  full := true
  walk := [.bool "!ONLINE".toList, .alarm "Replace battery!".toList]
  complete := false

/-- The next walk, that finds the battery low. -/
def lowBattery : Update where
  events := []
  full := false
  walk := [.bool "lowbatt".toList, .bool "dischrg".toList]
  complete := true

theorem clean_freshHid : Clean freshHid.status.dstate :=
  ⟨ordered_nil, fun _ hn => by simp [freshHid, Dstate.init, stateTreeFind] at hn⟩

/-- The line that a failed walk told of is not forgotten. -/
theorem hid_status_heard_failed : ∃ n, stateTreeFind
      ([lostLine, lowBattery].foldl (upsdrvUpdateinfo fun _ => true) freshHid).status.dstate.dtreeRoot
      "ups.status".toList = some n ∧
    ∀ (c : Upsmon.State) (now : Int) (ups : Upsmon.Utype), ups.line ≠ (true, true) →
      Upsmon.flagIsset (Upsmon.parseStatus c now ups n.raw).status Upsmon.stLowbatt = true ∧
      (Upsmon.parseStatus c now ups n.raw).line = (false, true) := by
  have hsteps : ([lostLine, lowBattery].foldl (upsdrvUpdateinfo fun _ => true) freshHid).status.ignorelb = false ∧
      known freshHid.upsStatus [lostLine, lowBattery] .lowbatt = true ∧
      known freshHid.upsStatus [lostLine, lowBattery] .online = false := by decide +kernel
  have hkeeps : ∀ v ∈ [lostLine] ++ [lowBattery], v.Keeps := by
    intro v hv
    simp only [List.cons_append, List.nil_append, List.mem_cons, List.not_mem_nil, or_false] at hv
    rcases hv with rfl | rfl
    · have hvar : tolower "battery.charge".toList ≠ tolower "ups.status".toList := by decide
      exact ⟨List.forall_mem_cons.2 ⟨trivial, List.forall_mem_singleton.2 hvar⟩,
        List.forall_mem_cons.2 ⟨trivial, List.forall_mem_singleton.2 trivial⟩⟩
    · exact ⟨List.forall_mem_nil _, List.forall_mem_cons.2 ⟨trivial, List.forall_mem_singleton.2 trivial⟩⟩
  obtain ⟨n, hn, hheard⟩ := hid_status_heard (fun _ => true) freshHid [lostLine] lowBattery clean_freshHid hkeeps rfl
  refine ⟨n, hn, fun c now ups hline => ?_⟩
  obtain ⟨hlow, -, hmoved⟩ := hheard c now ups hline
  rw [List.cons_append, List.nil_append, hsteps.1] at hlow
  rw [List.cons_append, List.nil_append, hsteps.2.2] at hmoved
  exact ⟨hlow.2 ⟨.lowbatt, List.mem_cons_self, hsteps.2.1⟩, hmoved⟩

end

end Nut.Hid
