import Nut.Clients.Pollups
import Mathlib.Data.List.Infix

/-!
# The notifications of a poll

What the functions of a poll send to `do_notify`, beside what they do to the UPS, and the flags at the end of each status
word.

The words of the status set the flags, and a flag is cleared first when its word is not a part of the text: the two agree
but for other words that contain it, and for the case of its letters (`status_words_iff`).
-/

namespace Nut.Upsmon

inductive Notice where
  | online
  | onbatt
  | lowbatt
  | fsd
  | commok
  | commbad
  | nocomm
  | replbatt
  deriving DecidableEq, Repr

/-- A notification that is sent, or the end of a status word with the flags as they are then. -/
inductive Event where
  | sent (notice : Notice)
  | word (status : BitVec 32)
  deriving DecidableEq

/-! ### What each function sends -/

def aliveNotices (ups : Utype) : List Notice :=
  if ups.commstate = 1 then [] else if ups.commstate = 0 then [.commok] else []

def goneNotices (nocommwarntime : Int32) (now : Int) (ups : Utype) : List Notice :=
  if ups.commstate ≠ 0 then [.commbad]
  else if now - ups.lastpoll < nocommwarntime.toInt then []
  else if nocommwarntime.toInt < now - ups.lastncwarn then [.nocomm]
  else []

def onBattNotices (ups : Utype) : List Notice := if flagIsset ups.status stOnbatt then [] else [.onbatt]

/-- The first `OL` at startup is ignored. -/
def onLineNotices (ups : Utype) : List Notice :=
  if flagIsset ups.status stOnline then [] else if ups.linestate ≠ -1 then [.online] else []

def lowBattNotices (ups : Utype) : List Notice := if flagIsset ups.status stLowbatt then [] else [.lowbatt]

def replbattNotices (rbwarntime : Int32) (now : Int) (ups : Utype) : List Notice :=
  if rbwarntime.toInt < now - ups.lastrbwarn then [.replbatt] else []

def fsdNotices (ups : Utype) : List Notice := if flagIsset ups.status stFsd then [] else [.fsd]

/-- The steps of `parseStatword`. -/
def statwordNotices (s : State) (now : Int) (ups : Utype) (statword : CStr) : List Notice :=
  let ol := if strcasecmp statword "OL".toList = .eq then onLineNotices ups else []
  let ups := if strcasecmp statword "OL".toList = .eq then upsOnLine ups else ups
  let ob := if strcasecmp statword "OB".toList = .eq then onBattNotices ups else []
  let ups := if strcasecmp statword "OB".toList = .eq then upsOnBatt ups else ups
  let lb := if strcasecmp statword "LB".toList = .eq then lowBattNotices ups else []
  let ups := if strcasecmp statword "LB".toList = .eq then upsLowBatt ups else ups
  let rb := if strcasecmp statword "RB".toList = .eq then replbattNotices s.rbwarntime now ups else []
  let ups := if strcasecmp statword "RB".toList = .eq then upsreplbatt s.rbwarntime now ups else ups
  let fsd := if strcasecmp statword "FSD".toList = .eq then fsdNotices ups else []
  ol ++ (ob ++ (lb ++ (rb ++ fsd)))

def wordsEvents (s : State) (now : Int) : Utype → List CStr → List Event
  | _, [] => []
  | ups, statword :: words =>
    (statwordNotices s now ups statword).map .sent ++
      .word (parseStatword s now ups statword).status :: wordsEvents s now (parseStatword s now ups statword) words

/-- A flag is cleared when its word is not a part of the status. -/
def clearEarly (w : CStr) (flag : BitVec 32) (status : CStr) (ups : Utype) : Utype :=
  if ¬w <:+: status then { ups with status := clearflag ups.status flag } else ups

/-- The UPS when the words of the status are parsed. -/
def statusCleared (now : Int) (ups : Utype) (status : CStr) : Utype :=
  clearEarly "FSD".toList stFsd status (clearEarly "LB".toList stLowbatt status (upsIsAlive now ups))

theorem parseStatus_eq (s : State) (now : Int) (ups : Utype) (status : CStr) : parseStatus s now ups status =
    if status = [] then upsIsGone s.nocommwarntime now ups
    else (status.splitOn ' ').foldl (parseStatword s now) (statusCleared now ups status) := rfl

def parseStatusEvents (s : State) (now : Int) (ups : Utype) (status : CStr) : List Event :=
  if status = [] then (goneNotices s.nocommwarntime now ups).map .sent
  else (aliveNotices ups).map .sent ++ wordsEvents s now (statusCleared now ups status) (status.splitOn ' ')

/-- What `try_connect` sends; it asks nothing else of the UPS. -/
def tryConnectNotices (s : State) (p : Polled) (ups : Utype) : List Notice :=
  if p.nocert = true ∨ p.connect.ok = false then goneNotices s.nocommwarntime p.now ups else []

def pollConnectedEvents (s : State) (p : Polled) (ups : Utype) : List Event :=
  match getVar ups p.get "status".toList with
  | none => []
  | some (ups, some status) => parseStatusEvents s p.now ups status
  | some (ups, none) => (goneNotices s.nocommwarntime p.now ups).map .sent

def pollEvents (s : State) (p : Polled) (ups : Utype) : List Event :=
  if flagIsset ups.status stConnected = false then
    (tryConnectNotices s p ups).map .sent ++
      match tryConnect s p ups with
      | (_, false) => []
      | (ups, true) => pollConnectedEvents s p ups
  else pollConnectedEvents s p ups

/-! ### The flags after each function -/

section

variable (s : State) (now : Int) (ups : Utype)

theorem upsIsAlive_status : (upsIsAlive now ups).status = ups.status := by
  unfold upsIsAlive
  dsimp only
  split_ifs <;> rfl

theorem upsreplbatt_status (rbwarntime : Int32) : (upsreplbatt rbwarntime now ups).status = ups.status := by
  unfold upsreplbatt
  split_ifs <;> rfl

theorem updateCrittimer_status : (updateCrittimer now ups).status = ups.status := by
  unfold updateCrittimer
  split_ifs <;> rfl

/-- `OL` sets one flag of the line and clears the other, unless it is set already. -/
theorem upsOnLine_flag {i : Nat} (hi : i < 32) : flagIsset (upsOnLine ups).status (BitVec.twoPow 32 i) =
    if flagIsset ups.status stOnline then flagIsset ups.status (BitVec.twoPow 32 i)
    else i = 0 || flagIsset ups.status (BitVec.twoPow 32 i) && i ≠ 1 := by
  unfold upsOnLine
  split_ifs with hset
  · rfl
  · dsimp only [stOnline, stOnbatt]
    rw [flagIsset_clearflag _ hi, flagIsset_setflag _ hi]
    by_cases h0 : i = 0
    · simp [h0]
    · simp [h0]

theorem upsOnBatt_flag {i : Nat} (hi : i < 32) : flagIsset (upsOnBatt ups).status (BitVec.twoPow 32 i) =
    if flagIsset ups.status stOnbatt then flagIsset ups.status (BitVec.twoPow 32 i)
    else i = 1 || flagIsset ups.status (BitVec.twoPow 32 i) && i ≠ 0 := by
  unfold upsOnBatt
  split_ifs with hset
  · rfl
  · dsimp only [stOnline, stOnbatt]
    rw [flagIsset_clearflag _ hi, flagIsset_setflag _ hi]
    by_cases h1 : i = 1
    · simp [h1]
    · simp [h1]

theorem upsLowBatt_flag {i : Nat} (hi : i < 32) : flagIsset (upsLowBatt ups).status (BitVec.twoPow 32 i) =
    (flagIsset ups.status (BitVec.twoPow 32 i) || i = 2) := by
  unfold upsLowBatt
  split_ifs with hset
  · by_cases h2 : i = 2
    · subst h2
      simpa [stLowbatt] using hset
    · simp [h2]
  · exact flagIsset_setflag _ hi

theorem upsFsd_flag {i : Nat} (hi : i < 32) : flagIsset (upsFsd ups).status (BitVec.twoPow 32 i) =
    (flagIsset ups.status (BitVec.twoPow 32 i) || i = 3) := by
  unfold upsFsd
  split_ifs with hset
  · by_cases h3 : i = 3
    · subst h3
      simpa [stFsd] using hset
    · simp [h3]
  · exact flagIsset_setflag _ hi

theorem flag_ite {c : Prop} [Decidable c] {f : Utype → Utype} {ups : Utype} {flag : BitVec 32} {b : Bool}
    (h : flagIsset (f ups).status flag = (flagIsset ups.status flag || b)) :
    flagIsset (if c then f ups else ups).status flag = (flagIsset ups.status flag || decide c && b) := by
  split_ifs with hc
  · simp [h, hc]
  · simp [hc]

theorem flag_ite_kept {c : Prop} [Decidable c] {f : Utype → Utype} {ups : Utype} {flag : BitVec 32}
    (h : flagIsset (f ups).status flag = flagIsset ups.status flag) :
    flagIsset (if c then f ups else ups).status flag = flagIsset ups.status flag := by
  split_ifs
  · exact h
  · rfl

theorem flag_status {ups ups' : Utype} (h : ups'.status = ups.status) (flag : BitVec 32) :
    flagIsset ups'.status flag = flagIsset ups.status flag := by rw [h]

theorem upsOnLine_kept {i : Nat} (h2 : 2 ≤ i) (hi : i < 32) :
    flagIsset (upsOnLine ups).status (BitVec.twoPow 32 i) = flagIsset ups.status (BitVec.twoPow 32 i) := by
  have h0 : i ≠ 0 := by omega
  have h1 : i ≠ 1 := by omega
  rw [upsOnLine_flag ups hi]
  simp [h0, h1]

theorem upsOnBatt_kept {i : Nat} (h2 : 2 ≤ i) (hi : i < 32) :
    flagIsset (upsOnBatt ups).status (BitVec.twoPow 32 i) = flagIsset ups.status (BitVec.twoPow 32 i) := by
  have h0 : i ≠ 0 := by omega
  have h1 : i ≠ 1 := by omega
  rw [upsOnBatt_flag ups hi]
  simp [h0, h1]

/-- The other flags after a word. -/
theorem statword_flag {i : Nat} (h2 : 2 ≤ i) (hi : i < 32) (statword : CStr) :
    flagIsset (parseStatword s now ups statword).status (BitVec.twoPow 32 i) =
      ((flagIsset ups.status (BitVec.twoPow 32 i) || decide (strcasecmp statword "LB".toList = .eq) && decide (i = 2)) ||
        decide (strcasecmp statword "FSD".toList = .eq) && decide (i = 3)) := by
  unfold parseStatword
  dsimp only
  rw [flag_status (updateCrittimer_status now _), flag_ite (upsFsd_flag _ hi),
    flag_ite_kept (flag_status (upsreplbatt_status now _ _) _), flag_ite (upsLowBatt_flag _ hi),
    flag_ite_kept (upsOnBatt_kept _ h2 hi), flag_ite_kept (upsOnLine_kept ups h2 hi)]

/-- What a word says of the line. -/
def lineWord (statword : CStr) : Option Bool :=
  if strcasecmp statword "OL".toList = .eq then some true
  else if strcasecmp statword "OB".toList = .eq then some false
  else none

/-- The flags of the line: on line, and on battery. -/
def Utype.line (ups : Utype) : Bool × Bool := (flagIsset ups.status stOnline, flagIsset ups.status stOnbatt)

/-- The flags of the line after a word that says something of it. -/
def lineAfter (line : Bool × Bool) : Option Bool → Bool × Bool
  | none => line
  | some true => if line.1 then line else (true, false)
  | some false => if line.2 then line else (false, true)

theorem line_status {ups ups' : Utype} (h : ups'.status = ups.status) : ups'.line = ups.line := by
  rw [Utype.line, Utype.line, h]

theorem line_ite_kept {c : Prop} [Decidable c] {a ups : Utype} (h : a.line = ups.line) :
    (if c then a else ups).line = ups.line := by
  split_ifs
  · exact h
  · rfl

theorem upsLowBatt_line (ups : Utype) : (upsLowBatt ups).line = ups.line := by
  rw [Utype.line, Utype.line, stOnline, stOnbatt, upsLowBatt_flag _ (by omega), upsLowBatt_flag _ (by omega)]
  simp

theorem upsFsd_line (ups : Utype) : (upsFsd ups).line = ups.line := by
  rw [Utype.line, Utype.line, stOnline, stOnbatt, upsFsd_flag _ (by omega), upsFsd_flag _ (by omega)]
  simp

theorem upsOnLine_line (ups : Utype) : (upsOnLine ups).line = lineAfter ups.line (some true) := by
  have h0 := upsOnLine_flag ups (by omega : 0 < 32)
  have h1 := upsOnLine_flag ups (by omega : 1 < 32)
  rw [lineAfter, Utype.line, Utype.line, stOnline, stOnbatt, h0, h1, ← stOnline]
  cases flagIsset ups.status stOnline <;> simp

theorem upsOnBatt_line (ups : Utype) : (upsOnBatt ups).line = lineAfter ups.line (some false) := by
  have h0 := upsOnBatt_flag ups (by omega : 0 < 32)
  have h1 := upsOnBatt_flag ups (by omega : 1 < 32)
  rw [lineAfter, Utype.line, Utype.line, stOnline, stOnbatt, h0, h1, ← stOnbatt]
  cases flagIsset ups.status stOnbatt <;> simp

/-- The flags of the line after a word. -/
theorem statword_line (statword : CStr) :
    (parseStatword s now ups statword).line = lineAfter ups.line (lineWord statword) := by
  have hother : strcasecmp statword "OL".toList = .eq → strcasecmp statword "OB".toList ≠ .eq := by
    intro hol hob
    rw [strcasecmp_eq] at hol hob
    exact absurd (hol.symm.trans hob) (by decide)
  unfold parseStatword
  dsimp only
  rw [line_status (updateCrittimer_status now _), line_ite_kept (upsFsd_line _),
    line_ite_kept (line_status (upsreplbatt_status now _ _)), line_ite_kept (upsLowBatt_line _), lineWord]
  by_cases hol : strcasecmp statword "OL".toList = .eq
  · rw [if_pos hol, if_pos hol, if_neg (hother hol), upsOnLine_line]
  · rw [if_neg hol, if_neg hol]
    by_cases hob : strcasecmp statword "OB".toList = .eq
    · rw [if_pos hob, if_pos hob, upsOnBatt_line]
    · rw [if_neg hob, if_neg hob]
      rfl

end

/-! ### The words of a status -/

/-- Some word of the status is this one, as the loop compares them. -/
def HasWord (status w : CStr) : Prop := ∃ statword ∈ status.splitOn ' ', strcasecmp statword w = .eq

instance (status w : CStr) : Decidable (HasWord status w) := inferInstanceAs (Decidable (∃ _ ∈ _, _))

/-- What the last word that says something of the line says of it. -/
def lastLineWord (status : CStr) : Option Bool := ((status.splitOn ' ').filterMap lineWord).getLast?

section

variable {s : State} {now : Int} {ups : Utype} {status : CStr}

/-- A flag that is set by some words is set after the words when one of them is there. -/
theorem words_flag {flag : BitVec 32} {sets : CStr → Bool}
    (h : ∀ ups w, flagIsset (parseStatword s now ups w).status flag = (flagIsset ups.status flag || sets w))
    (words : List CStr) :
    flagIsset (words.foldl (parseStatword s now) ups).status flag = (flagIsset ups.status flag || words.any sets) := by
  induction words generalizing ups with
  | nil => simp
  | cons w words ih => rw [List.foldl_cons, ih, h, List.any_cons, Bool.or_assoc]

/-- A notification that is sent by those words while the flag is clear is sent once, when the flag is set. -/
theorem count_wordsEvents {flag : BitVec 32} {sets : CStr → Bool} {notice : Notice}
    (h : ∀ ups w, flagIsset (parseStatword s now ups w).status flag = (flagIsset ups.status flag || sets w))
    (hsent : ∀ ups w, (statwordNotices s now ups w).count notice = if flagIsset ups.status flag = false ∧ sets w then 1 else 0)
    (words : List CStr) :
    (wordsEvents s now ups words).count (.sent notice) = if flagIsset ups.status flag = false ∧ words.any sets then 1 else 0 := by
  have hmap : ∀ l : List Notice, (l.map Event.sent).count (.sent notice) = l.count notice := by
    intro l
    induction l with
    | nil => rfl
    | cons a l ih => simp [List.count_cons, ih]
  induction words generalizing ups with
  | nil => simp [wordsEvents]
  | cons w words ih =>
    rw [wordsEvents, List.count_append, hmap, hsent, List.count_cons, ih, h, List.any_cons]
    cases flagIsset ups.status flag <;> cases sets w <;> simp

theorem words_line (words : List CStr) :
    (words.foldl (parseStatword s now) ups).line = (words.map lineWord).foldl lineAfter ups.line := by
  induction words generalizing ups with
  | nil => rfl
  | cons w words ih => rw [List.foldl_cons, ih, statword_line, List.map_cons, List.foldl_cons]

/-- The last word decides, unless both flags were set: then none does. -/
theorem foldl_lineAfter (line : Bool × Bool) (ws : List (Option Bool)) : ws.foldl lineAfter line =
    if line = (true, true) then line
    else match (ws.filterMap id).getLast? with
      | none => line
      | some online => (online, !online) := by
  induction ws using List.reverseRecOn with
  | nil => simp
  | append_singleton ws w ih =>
    rw [List.foldl_append, ih, List.foldl_cons, List.foldl_nil, List.filterMap_append]
    by_cases hboth : line = (true, true)
    · subst hboth
      rcases w with _ | _ | _ <;> rfl
    · rw [if_neg hboth, if_neg hboth]
      rcases w with _ | online
      · simp [lineAfter]
      · have hlast : ((ws.filterMap id) ++ [some online].filterMap id).getLast? = some online := by simp
        rw [hlast]
        rcases (ws.filterMap id).getLast? with _ | before
        · obtain ⟨a, b⟩ := line
          cases a <;> cases b <;> cases online <;> simp_all [lineAfter]
        · cases before <;> cases online <;> rfl

theorem filterMap_lineWord (words : List CStr) : (words.map lineWord).filterMap id = words.filterMap lineWord := by
  rw [List.filterMap_map]
  rfl

/-! ### The flags before the words -/

theorem clearEarly_flag (w : CStr) (ups : Utype) {i : Nat} (hi : i < 32) (j : Nat) :
    flagIsset (clearEarly w (BitVec.twoPow 32 j) status ups).status (BitVec.twoPow 32 i) =
      (flagIsset ups.status (BitVec.twoPow 32 i) && (i ≠ j || decide (w <:+: status))) := by
  unfold clearEarly
  by_cases hw : w <:+: status
  · rw [if_neg (not_not.2 hw)]
    simp [hw]
  · rw [if_pos hw, flagIsset_clearflag _ hi]
    simp [hw]

theorem statusCleared_flag {i : Nat} (hi : i < 32) : flagIsset (statusCleared now ups status).status (BitVec.twoPow 32 i) =
    (flagIsset ups.status (BitVec.twoPow 32 i) && (i ≠ 2 || decide ("LB".toList <:+: status)) &&
      (i ≠ 3 || decide ("FSD".toList <:+: status))) := by
  rw [statusCleared, stFsd, clearEarly_flag _ _ hi, stLowbatt, clearEarly_flag _ _ hi, upsIsAlive_status]

theorem statusCleared_line : (statusCleared now ups status).line = ups.line := by
  rw [Utype.line, Utype.line, stOnline, stOnbatt, statusCleared_flag (by omega), statusCleared_flag (by omega)]
  simp

theorem count_aliveNotices {notice : Notice} (h : notice ≠ .commok) (ups : Utype) :
    ((aliveNotices ups).map Event.sent).count (.sent notice) = 0 := by
  rw [List.count_eq_zero]
  unfold aliveNotices
  split_ifs <;> simp [h]

theorem count_other {c : Prop} [Decidable c] {notice : Notice} {l : List Notice} (h : notice ∉ l) :
    (if c then l else []).count notice = 0 := by
  rw [List.count_eq_zero]
  split_ifs
  · exact h
  · exact List.not_mem_nil

theorem notMem_notices (s : State) (now : Int) (ups : Utype) :
    (Notice.lowbatt ∉ onLineNotices ups ∧ Notice.fsd ∉ onLineNotices ups) ∧
    (Notice.lowbatt ∉ onBattNotices ups ∧ Notice.fsd ∉ onBattNotices ups) ∧ Notice.fsd ∉ lowBattNotices ups ∧
    (Notice.lowbatt ∉ replbattNotices s.rbwarntime now ups ∧ Notice.fsd ∉ replbattNotices s.rbwarntime now ups) ∧
    Notice.lowbatt ∉ fsdNotices ups := by
  unfold onLineNotices onBattNotices lowBattNotices replbattNotices fsdNotices
  refine ⟨⟨?_, ?_⟩, ⟨?_, ?_⟩, ?_, ⟨?_, ?_⟩, ?_⟩ <;> split_ifs <;> decide

theorem count_statwordNotices_lowbatt (s : State) (now : Int) (ups : Utype) (w : CStr) :
    (statwordNotices s now ups w).count .lowbatt =
      if flagIsset ups.status stLowbatt = false ∧ decide (strcasecmp w "LB".toList = .eq) then 1 else 0 := by
  have hnot := notMem_notices s now
  unfold statwordNotices
  dsimp only
  rw [List.count_append, List.count_append, List.count_append, List.count_append, count_other (hnot _).1.1,
    count_other (hnot _).2.1.1, count_other (hnot _).2.2.2.1.1, count_other (hnot _).2.2.2.2]
  by_cases hlb : strcasecmp w "LB".toList = .eq
  · rw [if_pos hlb, lowBattNotices, stLowbatt, flag_ite_kept (upsOnBatt_kept _ (by omega) (by omega)),
      flag_ite_kept (upsOnLine_kept ups (by omega) (by omega)), decide_eq_true hlb]
    cases flagIsset ups.status (BitVec.twoPow 32 2) <;> rfl
  · rw [if_neg hlb, decide_eq_false hlb]
    simp

theorem count_statwordNotices_fsd (s : State) (now : Int) (ups : Utype) (w : CStr) :
    (statwordNotices s now ups w).count .fsd =
      if flagIsset ups.status stFsd = false ∧ decide (strcasecmp w "FSD".toList = .eq) then 1 else 0 := by
  have hnot := notMem_notices s now
  unfold statwordNotices
  dsimp only
  rw [List.count_append, List.count_append, List.count_append, List.count_append, count_other (hnot _).1.2,
    count_other (hnot _).2.1.2, count_other (hnot _).2.2.1, count_other (hnot _).2.2.2.1.2]
  by_cases hfsd : strcasecmp w "FSD".toList = .eq
  · have hkept : ∀ ups, flagIsset (upsLowBatt ups).status stFsd = flagIsset ups.status stFsd := by
      intro ups
      rw [stFsd, upsLowBatt_flag ups (by omega)]
      simp
    rw [if_pos hfsd, fsdNotices, flag_ite_kept (flag_status (upsreplbatt_status now _ _) _), flag_ite_kept (hkept _), stFsd,
      flag_ite_kept (upsOnBatt_kept _ (by omega) (by omega)), flag_ite_kept (upsOnLine_kept ups (by omega) (by omega)),
      decide_eq_true hfsd]
    cases flagIsset ups.status (BitVec.twoPow 32 3) <;> rfl
  · rw [if_neg hfsd, decide_eq_false hfsd]
    simp

end

/-- The words of the status decide the flags, the last of the line those of the line, and a flag is notified when it goes
from clear to set. -/
structure DecidedByWords (s : State) (now : Int) (ups : Utype) (status : CStr) : Prop where
  lowbatt : flagIsset (parseStatus s now ups status).status stLowbatt = true ↔ HasWord status "LB".toList
  fsd : flagIsset (parseStatus s now ups status).status stFsd = true ↔ HasWord status "FSD".toList
  line : (parseStatus s now ups status).line =
    match lastLineWord status with
    | none => ups.line
    | some online => (online, !online)
  lowbatt_sent : (parseStatusEvents s now ups status).count (.sent .lowbatt) =
    if flagIsset ups.status stLowbatt = false ∧ flagIsset (parseStatus s now ups status).status stLowbatt = true then 1 else 0
  fsd_sent : (parseStatusEvents s now ups status).count (.sent .fsd) =
    if flagIsset ups.status stFsd = false ∧ flagIsset (parseStatus s now ups status).status stFsd = true then 1 else 0

section

variable {s : State} {now : Int} {ups : Utype} {status : CStr}

theorem hasWord_iff {w : CStr} :
    (status.splitOn ' ').any (fun statword => decide (strcasecmp statword w = .eq)) = true ↔ HasWord status w := by
  simp only [List.any_eq_true, decide_eq_true_eq, HasWord]

/-- A flag that is cleared early and set by a word, and its notification. -/
theorem flag_decided {flag : BitVec 32} {w : CStr} {notice : Notice} (hne : status ≠ []) (hnotice : notice ≠ .commok)
    (hset : ∀ ups statword, flagIsset (parseStatword s now ups statword).status flag =
      (flagIsset ups.status flag || decide (strcasecmp statword w = .eq)))
    (hsent : ∀ ups statword, (statwordNotices s now ups statword).count notice =
      if flagIsset ups.status flag = false ∧ decide (strcasecmp statword w = .eq) then 1 else 0)
    (hcleared : flagIsset (statusCleared now ups status).status flag = (flagIsset ups.status flag && decide (w <:+: status))) :
    ((flagIsset (parseStatus s now ups status).status flag = true ↔ HasWord status w) ∧
      (parseStatusEvents s now ups status).count (.sent notice) =
        if flagIsset ups.status flag = false ∧ flagIsset (parseStatus s now ups status).status flag = true then 1 else 0) ↔
    (flagIsset ups.status flag = true → (w <:+: status ↔ HasWord status w)) := by
  rw [parseStatus_eq, if_neg hne, parseStatusEvents, if_neg hne, List.count_append, count_aliveNotices hnotice,
    words_flag hset, count_wordsEvents hset hsent, hcleared, ← hasWord_iff]
  cases flagIsset ups.status flag <;>
    cases (status.splitOn ' ').any (fun statword => decide (strcasecmp statword w = .eq)) <;>
    by_cases hpart : w <:+: status <;> simp [hpart]

/-- The words of a status decide the flags exactly if a flag that was set has its word in the status when that is a part of
the text, and only then, and not both flags of the line were set when a word says something of it. -/
theorem status_words_iff (hne : status ≠ []) : DecidedByWords s now ups status ↔
    (flagIsset ups.status stLowbatt = true → ("LB".toList <:+: status ↔ HasWord status "LB".toList)) ∧
    (flagIsset ups.status stFsd = true → ("FSD".toList <:+: status ↔ HasWord status "FSD".toList)) ∧
    (ups.line = (true, true) → lastLineWord status = none) := by
  have hlowbatt := @flag_decided s now ups status stLowbatt "LB".toList .lowbatt hne (by decide)
    (fun ups w => by rw [stLowbatt, statword_flag s now ups (by omega) (by omega)]; simp)
    (count_statwordNotices_lowbatt s now) (by rw [stLowbatt, statusCleared_flag (by omega)]; simp)
  have hfsd := @flag_decided s now ups status stFsd "FSD".toList .fsd hne (by decide)
    (fun ups w => by rw [stFsd, statword_flag s now ups (by omega) (by omega)]; simp)
    (count_statwordNotices_fsd s now) (by rw [stFsd, statusCleared_flag (by omega)]; simp)
  have hline : (parseStatus s now ups status).line = (match lastLineWord status with
      | none => ups.line
      | some online => (online, !online)) ↔ (ups.line = (true, true) → lastLineWord status = none) := by
    rw [parseStatus_eq, if_neg hne, words_line, statusCleared_line, foldl_lineAfter, filterMap_lineWord, ← lastLineWord]
    by_cases hboth : ups.line = (true, true)
    · rw [if_pos hboth, hboth]
      rcases lastLineWord status with _ | _ | _ <;> simp
    · rw [if_neg hboth]
      simp [hboth]
  rw [← hlowbatt, ← hfsd, ← hline]
  constructor
  · exact fun h => ⟨⟨h.lowbatt, h.lowbatt_sent⟩, ⟨h.fsd, h.fsd_sent⟩, h.line⟩
  · rintro ⟨⟨hlow, hlow'⟩, ⟨hforced, hforced'⟩, hlast⟩
    exact ⟨hlow, hforced, hlast, hlow', hforced'⟩

end

/-- A UPS that was on battery with a low battery when it was polled last. -/
private def batteryLow : Utype :=
  { newUps "su@host".toList (some "su".toList) 1 "upsmon".toList "pass".toList "slave".toList with
    status := stOnbatt ||| stLowbatt
    commstate := 1
    linestate := 0 }

theorem status_words_low : DecidedByWords State.initial 5 batteryLow "OB LB".toList :=
  (status_words_iff (by decide)).2 (by decide +kernel)

/-- The battery stays low after a word that only contains `LB`. -/
theorem status_part_low : ¬DecidedByWords State.initial 5 batteryLow "OB CALBAT".toList := by
  intro h
  have hflag : flagIsset (parseStatus State.initial 5 batteryLow "OB CALBAT".toList).status stLowbatt = true := by
    decide +kernel
  have hword : ¬HasWord "OB CALBAT".toList "LB".toList := by decide +kernel
  exact hword (h.lowbatt.1 hflag)

end Nut.Upsmon
