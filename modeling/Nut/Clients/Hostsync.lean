import Nut.Clients.Record

/-!
# The time that a slave gives the master

A slave with a UPS that is on battery with a low battery waits for the master to force the shutdown, until `HOSTSYNC` seconds
have passed since `lastnoncrit`.  That is when a status word last left the UPS without both flags, so no status without them
was processed since.  It is not when the UPS became critical: a dead UPS is promoted without a status, and the first word of
a status can complete the flags (`slave_waits`).
-/

namespace Nut.Upsmon

/-- On battery with a low battery. -/
def bothSet (status : BitVec 32) : Bool := flagIsset status stOnbatt && flagIsset status stLowbatt

/-- A look at the UPS in `recalc`, after it may have been promoted, with the polls before it and the time since when the
flags `OB` and `LB` are both set. -/
structure Look where
  conf : State
  now : Int
  ups : Utype
  polls : List (Int × List (BitVec 32))
  since : Option Int

/-- What is known of a UPS since it was added: the flags after each word of each status, with its time; since when the flags
`OB` and `LB` are both set; and the clock. -/
structure Watch where
  polls : List (Int × List (BitVec 32))
  since : Option Int
  clock : Option Int
  looks : List Look

/-- The flags after each word of the status that is processed. -/
def wordFlags (events : List Event) : List (BitVec 32) :=
  events.filterMap fun event =>
    match event with
    | .sent _ => none
    | .word status => some status

/-- Since when both flags are set, after the words: `before` says whether they were. -/
def sinceWords (now : Int) : Bool → Option Int → List (BitVec 32) → Option Int
  | _, since, [] => since
  | before, since, status :: words =>
    sinceWords now (bothSet status) (if bothSet status = true ∧ before = false then some now else since) words

def watch : Recorder Watch where
  fresh := ⟨[], none, none, []⟩
  polled w t p ups :=
    { w with
      polls := w.polls ++ [(p.now, wordFlags (pollEvents t p ups))]
      since := sinceWords p.now (bothSet ups.status) w.since (wordFlags (pollEvents t p ups))
      clock := some p.now }
  checked w u now ups :=
    let since := sinceWords now (bothSet ups.status) w.since [(promoteDead u now ups).status]
    { w with since := since, clock := some now, looks := w.looks ++ [⟨u, now, promoteDead u now ups, w.polls, since⟩] }

/-- The clock does not go back. -/
def steadyClock : Conditions Watch where
  line _ _ _ _ := True
  polled w _ p _ := ∀ clock ∈ w.clock, clock ≤ p.now
  checked w _ now _ := ∀ clock ∈ w.clock, clock ≤ now

/-- The status that a poll gets. -/
def polledStatus (s : State) (p : Polled) (ups : Utype) : Option CStr :=
  let connected := if flagIsset ups.status stConnected = false then tryConnect s p ups else (ups, true)
  if connected.2 = true then
    match getVar connected.1 p.get "status".toList with
    | some (_, some status) => some status
    | _ => none
  else none

/-- The first word of the status sets the flag of `OB` and `LB` that is missing. -/
def Completes (ups : Utype) (status : CStr) : Prop :=
  bothSet ups.status = false ∧ ∃ w ∈ (status.splitOn ' ').head?,
    strcasecmp w "LB".toList = .eq ∧ flagIsset ups.status stOnbatt = true ∨
      strcasecmp w "OB".toList = .eq ∧ flagIsset ups.status stLowbatt = true ∧ "LB".toList <:+: status

/-- A UPS with the flag `OB` alone is not dead, and the flags are not completed by the first word of a status. -/
def timely : Conditions Watch where
  line _ _ _ _ := True
  polled w t p ups := (∀ clock ∈ w.clock, clock ≤ p.now) ∧ ∀ status ∈ polledStatus t p ups, ¬Completes ups status
  checked w u now ups := (∀ clock ∈ w.clock, clock ≤ now) ∧
    (flagIsset ups.status stOnbatt = true → flagIsset ups.status stLowbatt = false → now - ups.lastpoll ≤ u.deadtime.toInt)

/-- A slave for which the UPS is critical, without a shutdown that is forced. -/
def Look.GivesUp (look : Look) : Prop :=
  isUpsCritical look.conf look.now look.ups = true ∧ flagIsset look.ups.status stMaster = false ∧
    flagIsset look.ups.status stFsd = false

/-- Both flags are set, and every status processed in the last `HOSTSYNC` seconds has ended with both. -/
structure Look.Confirmed (look : Look) : Prop where
  flags : bothSet look.ups.status = true
  statuses : ∀ poll ∈ look.polls, look.now - look.conf.hostsync.toInt ≤ poll.1 →
    ∀ status ∈ poll.2.getLast?, bothSet status = true

/-- More than `HOSTSYNC` seconds have passed since the UPS became critical. -/
def Look.Late (look : Look) : Prop := ∃ since, look.since = some since ∧ look.conf.hostsync.toInt < look.now - since

/-! ### What the words of a poll do -/

section

variable {now : Int} {before : Bool} {since : Option Int} {words : List (BitVec 32)}

theorem sinceWords_mem {t : Int} (h : t ∈ sinceWords now before since words) : t ∈ since ∨ t = now := by
  induction words generalizing before since with
  | nil => exact .inl h
  | cons status words ih =>
    rw [sinceWords] at h
    rcases ih h with hmem | hnow
    · split_ifs at hmem
      · exact .inr (Option.some.inj hmem).symm
      · exact .inl hmem
    · exact .inr hnow

/-- When both flags are set it is known since when. -/
theorem sinceWords_isSome (hbefore : before = true → since.isSome = true)
    (hlast : (words.getLast?.map bothSet).getD before = true) : (sinceWords now before since words).isSome = true := by
  induction words generalizing before since with
  | nil => exact hbefore hlast
  | cons status words ih =>
    rw [sinceWords]
    refine ih (fun hboth => ?_) ?_
    · split_ifs with hnew
      · rfl
      · exact hbefore (by simpa [hboth] using hnew)
    · rw [List.getLast?_cons] at hlast
      rcases hwords : words.getLast? with _ | last
      · simpa [hwords] using hlast
      · simpa [hwords] using hlast

/-- The words leave both flags set, and do not complete them. -/
theorem sinceWords_all (hfirst : before = false → ∀ status ∈ words.head?, bothSet status = false)
    (hall : words.all bothSet = true) : sinceWords now before since words = since := by
  induction words generalizing before since with
  | nil => rfl
  | cons status words ih =>
    rw [List.all_cons, Bool.and_eq_true] at hall
    have hset : before = true := by
      by_contra hnot
      have hclear := hfirst (by simpa using hnot) status rfl
      rw [hall.1] at hclear
      contradiction
    rw [sinceWords, if_neg (by simp [hset])]
    exact ih (fun hclear => absurd hall.1 (by simp [hclear])) hall.2

end

/-- What becomes of the timer and of the flags with the words of a poll. -/
structure Aged (now : Int) (ups : Utype) (words : List (BitVec 32)) (ups' : Utype) : Prop where
  timer : ups'.lastnoncrit = if words.all bothSet = true then ups.lastnoncrit else now
  flags : bothSet ups'.status = (words.getLast?.map bothSet).getD (bothSet ups.status)

namespace Aged

variable {now : Int} {ups ups' ups'' : Utype} {words words' : List (BitVec 32)}

theorem append (h : Aged now ups words ups') (h' : Aged now ups' words' ups'') : Aged now ups (words ++ words') ups'' := by
  refine ⟨?_, ?_⟩
  · rw [h'.timer, h.timer, List.all_append]
    cases words'.all bothSet <;> simp
  · rw [h'.flags, h.flags, List.getLast?_append]
    cases words'.getLast? <;> simp

end Aged

/-- The same timer and the same two flags. -/
structure SameCrit (ups ups' : Utype) : Prop where
  timer : ups'.lastnoncrit = ups.lastnoncrit
  onbatt : flagIsset ups'.status stOnbatt = flagIsset ups.status stOnbatt
  lowbatt : flagIsset ups'.status stLowbatt = flagIsset ups.status stLowbatt

namespace SameCrit

variable {now : Int} {ups ups' ups'' : Utype} {words : List (BitVec 32)}

theorem refl (ups : Utype) : SameCrit ups ups := ⟨rfl, rfl, rfl⟩

theorem trans (h : SameCrit ups ups') (h' : SameCrit ups' ups'') : SameCrit ups ups'' :=
  ⟨h'.timer.trans h.timer, h'.onbatt.trans h.onbatt, h'.lowbatt.trans h.lowbatt⟩

theorem bothSet_eq (h : SameCrit ups ups') : bothSet ups'.status = bothSet ups.status := by
  rw [bothSet, h.onbatt, h.lowbatt, bothSet]

theorem completes (h : SameCrit ups ups') {status : CStr} : Completes ups' status ↔ Completes ups status := by
  rw [Completes, Completes, h.bothSet_eq, h.onbatt, h.lowbatt]

theorem aged (h : SameCrit ups ups') (now : Int) : Aged now ups [] ups' := ⟨h.timer, h.bothSet_eq⟩

theorem of_status (htimer : ups'.lastnoncrit = ups.lastnoncrit) (hstatus : ups'.status = ups.status) :
    SameCrit ups ups' := ⟨htimer, by rw [hstatus], by rw [hstatus]⟩

/-- Setting or clearing another flag. -/
theorem setflag {j : Nat} (hj : 3 ≤ j) (htimer : ups'.lastnoncrit = ups.lastnoncrit)
    (hstatus : ups'.status = Upsmon.setflag ups.status (BitVec.twoPow 32 j)) : SameCrit ups ups' := by
  have h1 : 1 ≠ j := by omega
  have h2 : 2 ≠ j := by omega
  refine ⟨htimer, ?_, ?_⟩
  · rw [hstatus, stOnbatt, flagIsset_setflag _ (by omega)]
    simp [h1]
  · rw [hstatus, stLowbatt, flagIsset_setflag _ (by omega)]
    simp [h2]

theorem clearflag {j : Nat} (hj : 3 ≤ j) (htimer : ups'.lastnoncrit = ups.lastnoncrit)
    (hstatus : ups'.status = Upsmon.clearflag ups.status (BitVec.twoPow 32 j)) : SameCrit ups ups' := by
  have h1 : 1 ≠ j := by omega
  have h2 : 2 ≠ j := by omega
  refine ⟨htimer, ?_, ?_⟩
  · rw [hstatus, stOnbatt, flagIsset_clearflag _ (by omega)]
    simp [h1]
  · rw [hstatus, stLowbatt, flagIsset_clearflag _ (by omega)]
    simp [h2]

theorem drop (ups : Utype) : SameCrit ups (dropConnection ups) := by
  have hlogin : SameCrit ups { ups with status := Upsmon.clearflag ups.status stLogin } :=
    .clearflag (by omega : 3 ≤ 5) rfl rfl
  have hconnected : SameCrit { ups with status := Upsmon.clearflag ups.status stLogin } (dropConnection ups) :=
    .clearflag (by omega : 3 ≤ 6) rfl rfl
  exact hlogin.trans hconnected

theorem ite {c : Prop} [Decidable c] {a b : Utype} (ha : SameCrit ups a) (hb : SameCrit ups b) :
    SameCrit ups (if c then a else b) := by
  split_ifs
  · exact ha
  · exact hb

end SameCrit

/-! ### A poll -/

theorem wordFlags_append (events events' : List Event) :
    wordFlags (events ++ events') = wordFlags events ++ wordFlags events' := List.filterMap_append

theorem wordFlags_sent (notices : List Notice) : wordFlags (notices.map .sent) = [] := by
  simp [wordFlags]

section

variable (s : State) (now : Int) (ups : Utype)

theorem lastnoncrit_ite {c : Prop} [Decidable c] {a ups : Utype} (h : a.lastnoncrit = ups.lastnoncrit) :
    (if c then a else ups).lastnoncrit = ups.lastnoncrit := by
  split_ifs
  · exact h
  · rfl

/-- The timer after a word. -/
theorem parseStatword_lastnoncrit (statword : CStr) : (parseStatword s now ups statword).lastnoncrit =
    if bothSet (parseStatword s now ups statword).status = true then ups.lastnoncrit else now := by
  have hline (ups : Utype) : (upsOnLine ups).lastnoncrit = ups.lastnoncrit := by
    unfold upsOnLine
    split_ifs <;> rfl
  have hbatt (ups : Utype) : (upsOnBatt ups).lastnoncrit = ups.lastnoncrit := by
    unfold upsOnBatt
    split_ifs <;> rfl
  have hlow (ups : Utype) : (upsLowBatt ups).lastnoncrit = ups.lastnoncrit := by
    unfold upsLowBatt
    split_ifs <;> rfl
  have hrepl (ups : Utype) : (upsreplbatt s.rbwarntime now ups).lastnoncrit = ups.lastnoncrit := lastnoncrit_ite rfl
  have hfsd (ups : Utype) : (upsFsd ups).lastnoncrit = ups.lastnoncrit := by
    unfold upsFsd
    split_ifs <;> rfl
  have htimer (ups : Utype) : (updateCrittimer now ups).lastnoncrit =
      if bothSet ups.status = true then ups.lastnoncrit else now := by
    unfold updateCrittimer bothSet
    cases flagIsset ups.status stOnbatt <;> cases flagIsset ups.status stLowbatt <;> rfl
  unfold parseStatword
  dsimp only
  rw [htimer, updateCrittimer_status, lastnoncrit_ite (hfsd _), lastnoncrit_ite (hrepl _), lastnoncrit_ite (hlow _),
    lastnoncrit_ite (hbatt _), lastnoncrit_ite (hline _)]

theorem aged_statword (statword : CStr) :
    Aged now ups [(parseStatword s now ups statword).status] (parseStatword s now ups statword) := by
  refine ⟨?_, rfl⟩
  rw [parseStatword_lastnoncrit, List.all_cons, List.all_nil, Bool.and_true]

theorem aged_words (words : List CStr) :
    Aged now ups (wordFlags (wordsEvents s now ups words)) (words.foldl (parseStatword s now) ups) := by
  induction words generalizing ups with
  | nil => exact (SameCrit.refl ups).aged now
  | cons statword words ih =>
    rw [wordsEvents, wordFlags_append, wordFlags_sent, List.nil_append]
    exact (aged_statword s now ups statword).append (ih _)

theorem statusCleared_lastnoncrit (status : CStr) : (statusCleared now ups status).lastnoncrit = ups.lastnoncrit := by
  have halive : (upsIsAlive now ups).lastnoncrit = ups.lastnoncrit := by
    unfold upsIsAlive
    dsimp only
    split_ifs <;> rfl
  unfold statusCleared clearEarly
  rw [lastnoncrit_ite, lastnoncrit_ite]
  · exact halive
  · rfl
  · rfl

/-- The first word completes the flags only if it is the word of the flag that is missing. -/
theorem completes_of_first {status w : CStr} (hw : w ∈ (status.splitOn ' ').head?) (hbefore : bothSet ups.status = false)
    (hafter : bothSet (parseStatword s now (statusCleared now ups status) w).status = true) : Completes ups status := by
  refine ⟨hbefore, w, hw, ?_⟩
  rw [bothSet, Bool.and_eq_true] at hafter
  obtain ⟨hob, hlb⟩ := hafter
  have hline := statword_line s now (statusCleared now ups status) w
  rw [statusCleared_line] at hline
  have hob' : (lineAfter ups.line (lineWord w)).2 = true := hline ▸ hob
  rw [stLowbatt, statword_flag s now _ (by omega) (by omega), statusCleared_flag (by omega)] at hlb
  by_cases hlow : strcasecmp w "LB".toList = .eq
  · have hnone : lineWord w = none := by
      rw [strcasecmp_eq] at hlow
      unfold lineWord
      simp only [strcasecmp_eq, hlow]
      decide
    rw [hnone] at hob'
    exact .inl ⟨hlow, hob'⟩
  · simp only [hlow, decide_false, Bool.or_false, ne_eq, not_true, Bool.false_or, Nat.reduceEqDiff,
      Bool.and_false, not_false_eq_true, decide_true, Bool.true_or, Bool.and_true, Bool.and_eq_true, decide_eq_true_eq] at hlb
    have hset : flagIsset ups.status stLowbatt = true := hlb.1
    have hclear : flagIsset ups.status stOnbatt = false := by
      simpa [bothSet, hset] using hbefore
    refine .inr ⟨?_, hset, hlb.2⟩
    by_contra hno
    have hnone : lineWord w ≠ some false := by
      unfold lineWord
      rw [if_neg hno]
      split_ifs <;> simp
    rcases hlw : lineWord w with _ | _ | _
    · rw [hlw, lineAfter, Utype.line, hclear] at hob'
      contradiction
    · exact hnone hlw
    · rw [hlw, lineAfter, Utype.line, hclear] at hob'
      split_ifs at hob'

theorem sameCrit_upsIsGone (nocommwarntime : Int32) : SameCrit ups (upsIsGone nocommwarntime now ups) :=
  .ite (.of_status rfl rfl) (.ite (.refl ups) (.ite (.of_status rfl rfl) (.refl ups)))

theorem aged_parseStatus (status : CStr) :
    Aged now ups (wordFlags (parseStatusEvents s now ups status)) (parseStatus s now ups status) ∧
    ∀ flags ∈ (wordFlags (parseStatusEvents s now ups status)).head?,
      bothSet ups.status = false → bothSet flags = true → Completes ups status := by
  rw [parseStatusEvents, parseStatus_eq]
  by_cases hempty : status = []
  · rw [if_pos hempty, if_pos hempty, wordFlags_sent]
    exact ⟨(sameCrit_upsIsGone now ups s.nocommwarntime).aged now, by simp⟩
  · rw [if_neg hempty, if_neg hempty, wordFlags_append, wordFlags_sent, List.nil_append]
    have haged := aged_words s now (statusCleared now ups status) (status.splitOn ' ')
    have hfirst : ∀ w ws, status.splitOn ' ' = w :: ws → wordFlags (wordsEvents s now (statusCleared now ups status) (w :: ws)) =
        (parseStatword s now (statusCleared now ups status) w).status ::
          wordFlags (wordsEvents s now (parseStatword s now (statusCleared now ups status) w) ws) := by
      intro w ws _
      rw [wordsEvents, wordFlags_append, wordFlags_sent, List.nil_append]
      rfl
    obtain ⟨w, ws, hwords⟩ := List.exists_cons_of_ne_nil (List.splitOn_ne_nil ' ' status)
    rw [hwords] at haged ⊢
    refine ⟨⟨?_, ?_⟩, fun flags hflags hbefore hboth => ?_⟩
    · rw [haged.timer, statusCleared_lastnoncrit]
    · rw [haged.flags, hfirst w ws hwords, List.getLast?_cons]
      rfl
    · rw [hfirst w ws hwords] at hflags
      obtain rfl := Option.some.inj hflags
      exact completes_of_first s now ups (by rw [hwords]; rfl) hbefore hboth

theorem sameCrit_checkmaster (net : Net) : SameCrit ups (checkmaster net ups).1 := by
  unfold checkmaster
  split_ifs
  · exact .refl ups
  · split
    · exact .refl ups
    · split_ifs
      · exact .refl ups
      · split
        · exact .of_status rfl rfl
        · exact .of_status rfl rfl

theorem sameCrit_doUpsdAuth (net : AuthNet) : SameCrit ups (doUpsdAuth net ups).1 := by
  rcases doUpsdAuth_cases net ups with ⟨-, conn, hauth⟩ | ⟨-, conn, hauth⟩
  · rw [hauth]
    exact .of_status rfl rfl
  · rw [hauth]
    have hlogin : SameCrit ups { ups with conn := conn, status := setflag ups.status stLogin } :=
      .setflag (by omega : 3 ≤ 5) rfl rfl
    exact hlogin.trans (sameCrit_checkmaster _ net.master)

theorem sameCrit_tryConnect (p : Polled) : SameCrit ups (tryConnect s p ups).1 := by
  have hclear : SameCrit ups { ups with status := clearflag ups.status stConnected } :=
    .clearflag (by omega : 3 ≤ 6) rfl rfl
  unfold tryConnect
  dsimp only
  split_ifs
  · exact (hclear.trans (sameCrit_upsIsGone p.now _ s.nocommwarntime)).trans (.drop _)
  · have hconn : SameCrit ups { ups with conn := p.connect.conn, status := clearflag ups.status stConnected } :=
      hclear.trans (.of_status rfl rfl)
    exact hconn.trans (sameCrit_upsIsGone p.now _ s.nocommwarntime)
  · have hup : SameCrit { ups with status := clearflag ups.status stConnected }
        { ups with conn := p.connect.conn, status := setflag (clearflag ups.status stConnected) stConnected } :=
      .setflag (by omega : 3 ≤ 6) rfl rfl
    exact (hclear.trans hup).trans (sameCrit_doUpsdAuth _ p.auth)

theorem sameCrit_redefineUps (pv : Int32) (un pw master : CStr) : SameCrit ups (redefineUps ups pv un pw master) := by
  have hretry (ups : Utype) : SameCrit ups (retryConnection ups) := .ite (.refl ups) (.drop ups)
  have hun (ups : Utype) : SameCrit ups (redefineUn ups un) := by
    have hset : SameCrit ups { ups with un := un } := .of_status rfl rfl
    exact .ite (hset.trans (hretry _)) (.refl ups)
  have hpw (ups : Utype) : SameCrit ups (redefinePw ups pw) := by
    have hset : SameCrit ups { ups with pw := pw } := .of_status rfl rfl
    exact .ite (hset.trans (hretry _)) (.refl ups)
  have hmaster (ups : Utype) : SameCrit ups (redefineMaster ups master) := by
    have hset : SameCrit ups { ups with status := setflag ups.status stMaster } :=
      .setflag (by omega : 3 ≤ 4) rfl rfl
    exact .ite (hset.trans (.drop _)) (.ite (.clearflag (by omega : 3 ≤ 4) rfl rfl) (.refl ups))
  have hretain : SameCrit ups { ups with retain := true, pv := pv } := .of_status rfl rfl
  exact hretain.trans (((hun _).trans (hpw _)).trans (hmaster _))

/-- The poll of a UPS that is connected. -/
theorem aged_pollConnected (p : Polled) : ∃ ups', Aged p.now ups (wordFlags (pollConnectedEvents s p ups)) ups' ∧
    (∀ mid, pollConnected s p ups = some mid → mid = ups') ∧
    ∀ flags ∈ (wordFlags (pollConnectedEvents s p ups)).head?, bothSet ups.status = false → bothSet flags = true →
      ∃ status, (∃ u, getVar ups p.get "status".toList = some (u, some status)) ∧ Completes ups status := by
  unfold pollConnectedEvents pollConnected
  rcases hget : getVar ups p.get "status".toList with _ | ⟨ups', _ | status⟩
  · exact ⟨ups, (SameCrit.refl ups).aged p.now, by simp, by simp [wordFlags]⟩
  · obtain ⟨conn, rfl⟩ := getVar_conn hget
    have hconn : SameCrit ups { ups with conn := conn } := .of_status rfl rfl
    have hgone := hconn.trans (sameCrit_upsIsGone p.now { ups with conn := conn } s.nocommwarntime)
    dsimp only
    rw [wordFlags_sent]
    refine ⟨_, SameCrit.aged ?_ p.now, fun mid hmid => (Option.some.inj hmid).symm, by simp⟩
    exact .ite (hgone.trans (.drop _)) hgone
  · obtain ⟨conn, rfl⟩ := getVar_conn hget
    have hconn : SameCrit ups { ups with conn := conn } := .of_status rfl rfl
    obtain ⟨haged, hfirst⟩ := aged_parseStatus s p.now { ups with conn := conn } status
    refine ⟨_, (hconn.aged p.now).append haged, fun mid hmid => (Option.some.inj hmid).symm, fun flags hflags hbefore hboth => ?_⟩
    exact ⟨status, ⟨_, rfl⟩, hfirst flags hflags hbefore hboth⟩

/-- A poll: what becomes of the timer and the flags, and what completes them with the first word. -/
theorem aged_pollups (p : Polled) : ∃ ups', Aged p.now ups (wordFlags (pollEvents s p ups)) ups' ∧
    (∀ mid, pollups s p ups = some mid → mid = ups') ∧
    ∀ flags ∈ (wordFlags (pollEvents s p ups)).head?, bothSet ups.status = false → bothSet flags = true →
      ∃ status ∈ polledStatus s p ups, Completes ups status := by
  unfold pollEvents pollups polledStatus
  by_cases hnew : flagIsset ups.status stConnected = false
  · have htry := sameCrit_tryConnect s ups p
    rw [if_pos hnew, if_pos hnew, if_pos hnew]
    rcases hres : tryConnect s p ups with ⟨ups', _ | _⟩
    · rw [hres] at htry
      dsimp only
      rw [List.append_nil, wordFlags_sent]
      exact ⟨ups', htry.aged p.now, fun mid hmid => (Option.some.inj hmid).symm, by simp⟩
    · rw [hres] at htry
      obtain ⟨ups'', hpoll, hmid, hfirst⟩ := aged_pollConnected s ups' p
      dsimp only
      rw [wordFlags_append, wordFlags_sent, List.nil_append]
      refine ⟨ups'', (htry.aged p.now).append hpoll, hmid, fun flags hflags hbefore hboth => ?_⟩
      obtain ⟨status, ⟨u, hget⟩, hcompletes⟩ := hfirst flags hflags (htry.bothSet_eq.trans hbefore) hboth
      exact ⟨status, by rw [if_pos rfl, hget]; rfl, htry.completes.1 hcompletes⟩
  · rw [if_neg hnew, if_neg hnew, if_neg hnew]
    obtain ⟨ups', hpoll, hmid, hfirst⟩ := aged_pollConnected s ups p
    refine ⟨ups', hpoll, hmid, fun flags hflags hbefore hboth => ?_⟩
    obtain ⟨status, ⟨u, hget⟩, hcompletes⟩ := hfirst flags hflags hbefore hboth
    exact ⟨status, by rw [if_pos rfl, hget]; rfl, hcompletes⟩

end

/-! ### Runs -/

/-- The timer is not before a status that left the UPS without both flags. -/
structure Timed (ups : Utype) (w : Watch) : Prop where
  clock : ∀ poll ∈ w.polls, ∃ clock ∈ w.clock, poll.1 ≤ clock
  timer : ∀ poll ∈ w.polls, ∀ status ∈ poll.2.getLast?, bothSet status = false → poll.1 ≤ ups.lastnoncrit
  looks : ∀ look ∈ w.looks, look.GivesUp → look.Confirmed

/-- The timer is not before the time since when both flags are set. -/
structure Dated (ups : Utype) (w : Watch) : Prop where
  known : bothSet ups.status = true → w.since.isSome = true
  since : ∀ t ∈ w.since, t ≤ ups.lastnoncrit ∧ ∃ clock ∈ w.clock, t ≤ clock
  looks : ∀ look ∈ w.looks, look.GivesUp → look.Late

section

variable {ups ups' : Utype} {w : Watch} {t u : State} {p : Polled} {now : Int}

theorem Timed.same (h : Timed ups w) (hsame : SameCrit ups ups') : Timed ups' w :=
  ⟨h.clock, by rw [hsame.timer]; exact h.timer, h.looks⟩

theorem Dated.same (h : Dated ups w) (hsame : SameCrit ups ups') : Dated ups' w :=
  ⟨by rw [hsame.bothSet_eq]; exact h.known, by rw [hsame.timer]; exact h.since, h.looks⟩

theorem Timed.polled (h : Timed ups w) (hclock : ∀ clock ∈ w.clock, clock ≤ p.now)
    (haged : Aged p.now ups (wordFlags (pollEvents t p ups)) ups') : Timed ups' (watch.polled w t p ups) := by
  refine ⟨fun poll hpoll => ⟨p.now, rfl, ?_⟩, fun poll hpoll status hlast hclear => ?_, h.looks⟩
  · rcases List.mem_append.1 hpoll with hold | hnew
    · obtain ⟨clock, hmem, hle⟩ := h.clock poll hold
      exact hle.trans (hclock clock hmem)
    · rw [List.mem_singleton.1 hnew]
  · rw [haged.timer]
    rcases List.mem_append.1 hpoll with hold | hnew
    · split_ifs
      · exact h.timer poll hold status hlast hclear
      · obtain ⟨clock, hmem, hle⟩ := h.clock poll hold
        exact hle.trans (hclock clock hmem)
    · obtain rfl := List.mem_singleton.1 hnew
      have hall : ¬(wordFlags (pollEvents t p ups)).all bothSet = true := by
        intro hall
        rw [List.all_eq_true.1 hall status (List.mem_of_getLast? hlast)] at hclear
        contradiction
      rw [if_neg hall]

theorem Dated.polled (h : Dated ups w) (hclock : ∀ clock ∈ w.clock, clock ≤ p.now)
    (haged : Aged p.now ups (wordFlags (pollEvents t p ups)) ups')
    (hfirst : bothSet ups.status = false → ∀ flags ∈ (wordFlags (pollEvents t p ups)).head?, bothSet flags = false) :
    Dated ups' (watch.polled w t p ups) := by
  refine ⟨fun hboth => ?_, fun time hmem => ?_, h.looks⟩
  · exact sinceWords_isSome h.known (haged.flags ▸ hboth)
  · have hle : time ≤ p.now := by
      rcases sinceWords_mem hmem with hold | rfl
      · obtain ⟨-, clock, hmem, hle⟩ := h.since time hold
        exact hle.trans (hclock clock hmem)
      · rfl
    refine ⟨?_, p.now, rfl, hle⟩
    rw [haged.timer]
    split_ifs with hall
    · have hsame : (watch.polled w t p ups).since = w.since := sinceWords_all hfirst hall
      exact (h.since time (hsame ▸ hmem)).1
    · exact hle

/-- The timer decides for a slave. -/
theorem timer_of_givesUp {look : Look} (h : look.GivesUp) :
    bothSet look.ups.status = true ∧ look.conf.hostsync.toInt < look.now - look.ups.lastnoncrit := by
  obtain ⟨hcritical, hslave, hunforced⟩ := h
  unfold isUpsCritical at hcritical
  rw [if_neg (by simp [hunforced])] at hcritical
  split_ifs at hcritical with hclear hmaster
  · rw [hslave] at hmaster
    contradiction
  · refine ⟨?_, by simpa using hcritical⟩
    simpa [bothSet, not_or] using hclear

theorem promoteDead_lastnoncrit (u : State) (now : Int) (ups : Utype) :
    (promoteDead u now ups).lastnoncrit = ups.lastnoncrit := lastnoncrit_ite rfl

theorem Timed.checked (h : Timed ups w) (hclock : ∀ clock ∈ w.clock, clock ≤ now) :
    Timed (promoteDead u now ups) (watch.checked w u now ups) := by
  refine ⟨fun poll hpoll => ⟨now, rfl, ?_⟩, ?_, fun look hlook hgives => ?_⟩
  · obtain ⟨clock, hmem, hle⟩ := h.clock poll hpoll
    exact hle.trans (hclock clock hmem)
  · rw [promoteDead_lastnoncrit]
    exact h.timer
  · rcases List.mem_append.1 hlook with hold | hnew
    · exact h.looks look hold hgives
    · obtain rfl := List.mem_singleton.1 hnew
      obtain ⟨hboth, hexpired⟩ := timer_of_givesUp hgives
      rw [promoteDead_lastnoncrit] at hexpired
      refine ⟨hboth, fun poll hpoll hrecent status hlast => ?_⟩
      by_contra hclear
      have hle := h.timer poll hpoll status hlast (by simpa using hclear)
      dsimp only at hexpired hrecent
      omega

/-- A UPS that is not promoted keeps its flags. -/
theorem sameCrit_promoteDead (halive : flagIsset ups.status stOnbatt = true → flagIsset ups.status stLowbatt = false →
    now - ups.lastpoll ≤ u.deadtime.toInt) : SameCrit ups (promoteDead u now ups) := by
  unfold promoteDead
  split_ifs with hdead
  · refine ⟨rfl, ?_, ?_⟩
    · rw [stOnbatt, stLowbatt, flagIsset_setflag _ (by omega)]
      simp
    · have hlow : flagIsset ups.status stLowbatt = true := by
        by_contra hclear
        have hle := halive hdead.2 (by simpa using hclear)
        omega
      rw [hlow, stLowbatt, flagIsset_setflag _ (by omega)]
      simp
  · exact .refl ups

theorem Dated.checked (h : Dated ups w) (hclock : ∀ clock ∈ w.clock, clock ≤ now)
    (hsame : SameCrit ups (promoteDead u now ups)) : Dated (promoteDead u now ups) (watch.checked w u now ups) := by
  have hsince : (watch.checked w u now ups).since = w.since := by
    show (if bothSet (promoteDead u now ups).status = true ∧ bothSet ups.status = false then some now else w.since) = w.since
    rw [hsame.bothSet_eq]
    simp
  have htimes : ∀ t ∈ w.since, t ≤ (promoteDead u now ups).lastnoncrit ∧ t ≤ now := by
    intro t hmem
    obtain ⟨hle, clock, hclockmem, hle'⟩ := h.since t hmem
    exact ⟨hsame.timer ▸ hle, hle'.trans (hclock clock hclockmem)⟩
  refine ⟨fun hboth => ?_, fun t hmem => ?_, fun look hlook hgives => ?_⟩
  · rw [hsince]
    exact h.known (hsame.bothSet_eq ▸ hboth)
  · obtain ⟨hle, hle'⟩ := htimes t (hsince ▸ hmem)
    exact ⟨hle, now, rfl, hle'⟩
  · rcases List.mem_append.1 hlook with hold | hnew
    · exact h.looks look hold hgives
    · obtain rfl := List.mem_singleton.1 hnew
      obtain ⟨hboth, hexpired⟩ := timer_of_givesUp hgives
      obtain ⟨since, hsome⟩ := Option.isSome_iff_exists.1 (h.known (hsame.bothSet_eq ▸ hboth))
      have hle := (htimes since hsome).1
      refine ⟨since, hsince.trans hsome, ?_⟩
      dsimp only at hexpired ⊢
      omega

end

theorem timed_kept : Kept watch steadyClock Timed where
  added _ _ _ _ _ _ := ⟨by simp [watch], by simp [watch], by simp [watch]⟩
  marked h := h.same (.of_status rfl rfl)
  redefined {ups _ un pw master} pv h _ := h.same (sameCrit_redefineUps ups pv un pw master)
  polled {ups w t p} h hclock := by
    obtain ⟨ups', haged, hmid, -⟩ := aged_pollups t ups p
    exact ⟨ups', h.polled hclock haged, hmid⟩
  checked h hclock := h.checked hclock

theorem dated_kept : Kept watch timely Dated where
  added _ _ _ _ _ master := by
    refine ⟨fun hboth => absurd hboth ?_, by simp [watch], by simp [watch]⟩
    unfold newUps
    dsimp only
    split_ifs <;> decide
  marked h := h.same (.of_status rfl rfl)
  redefined {ups _ un pw master} pv h _ := h.same (sameCrit_redefineUps ups pv un pw master)
  polled {ups w t p} h hc := by
    obtain ⟨ups', haged, hmid, hfirst⟩ := aged_pollups t ups p
    refine ⟨ups', h.polled hc.1 haged fun hbefore flags hflags => ?_, hmid⟩
    by_contra hboth
    obtain ⟨status, hstatus, hcompletes⟩ := hfirst flags hflags hbefore (by simpa using hboth)
    exact hc.2 status hstatus hcompletes
  checked h hc := h.checked hc.1 (sameCrit_promoteDead hc.2)

/-- In every run with a clock that does not go back, a slave gives up on the master only if both flags are set and every
status processed in the last `HOSTSYNC` seconds has ended with both; and more than `HOSTSYNC` seconds have passed since the
UPS became critical, if it was not promoted for being dead and no status completed the flags with its first word. -/
theorem slave_waits {lines : List (List CStr)} {s0 : State} (hstart : start lines = some s0) {sys : CStr}
    {passes : List Pass} (hclock : steadyClock.run watch sys s0 passes watch.fresh) :
    (∀ look ∈ (watch.run sys s0 passes watch.fresh).looks, look.GivesUp → look.Confirmed) ∧
    (timely.run watch sys s0 passes watch.fresh →
      ∀ look ∈ (watch.run sys s0 passes watch.fresh).looks, look.GivesUp → look.Late) := by
  refine ⟨?_, fun htimely => ?_⟩
  · rcases timed_kept.start hstart hclock with ⟨ups, hinv⟩ | hnone
    · exact hinv.looks
    · rw [hnone]
      simp [watch]
  · rcases dated_kept.start hstart htimely with ⟨ups, hinv⟩ | hnone
    · exact hinv.looks
    · rw [hnone]
      simp [watch]

instance (ups : Utype) (status : CStr) : Decidable (Completes ups status) :=
  inferInstanceAs (Decidable (_ ∧ ∃ _ ∈ _, _))

instance (ups : Utype) (un pw master : CStr) : Decidable (timely.line ups un pw master) := inferInstanceAs (Decidable True)

instance (w : Watch) (s : State) (p : Polled) (ups : Utype) : Decidable (timely.polled w s p ups) :=
  inferInstanceAs (Decidable ((∀ _ ∈ _, _) ∧ ∀ _ ∈ _, _))

instance (w : Watch) (s : State) (now : Int) (ups : Utype) : Decidable (timely.checked w s now ups) :=
  inferInstanceAs (Decidable ((∀ _ ∈ _, _) ∧ (_ → _ → _)))

instance (ups : Utype) (un pw master : CStr) : Decidable (steadyClock.line ups un pw master) :=
  inferInstanceAs (Decidable True)

instance (w : Watch) (s : State) (p : Polled) (ups : Utype) : Decidable (steadyClock.polled w s p ups) :=
  inferInstanceAs (Decidable (∀ _ ∈ _, _))

instance (w : Watch) (s : State) (now : Int) (ups : Utype) : Decidable (steadyClock.checked w s now ups) :=
  inferInstanceAs (Decidable (∀ _ ∈ _, _))

instance (look : Look) : Decidable look.GivesUp := inferInstanceAs (Decidable (_ ∧ _ ∧ _))

/-- A pass at that time, in which the server answers so to the query for the status. -/
private def passAt (now : Int) (answer : CStr) : Pass where
  reload := none
  poll sys := { (statusPass []).poll sys with get := answers answer, now := now }
  now := now

/-- The battery is low, and the master does nothing about it. -/
private def lowBattery : List Pass :=
  [passAt 5 "VAR su ups.status \"OL\"".toList, passAt 10 "VAR su ups.status \"OB LB\"".toList,
    passAt 30 "VAR su ups.status \"OB LB\"".toList]

/-- The UPS is on battery when the server loses it. -/
private def deadOnBattery : List Pass := [passAt 5 "VAR su ups.status \"OB\"".toList, passAt 25 "ERR DATA-STALE".toList]

/-- The slave gives up after twenty seconds. -/
theorem slave_waits_low : ∃ s0 ∈ start [monitorLine],
    ∃ look ∈ (watch.run "su@localhost".toList s0 lowBattery watch.fresh).looks, look.Confirmed ∧ look.Late := by
  have hrun : ∃ s0 ∈ start [monitorLine], steadyClock.run watch "su@localhost".toList s0 lowBattery watch.fresh ∧
      timely.run watch "su@localhost".toList s0 lowBattery watch.fresh ∧
      ∃ look ∈ (watch.run "su@localhost".toList s0 lowBattery watch.fresh).looks, look.GivesUp := by decide +kernel
  obtain ⟨s0, hstart, hclock, htimely, look, hlook, hgives⟩ := hrun
  obtain ⟨hconfirmed, hlate⟩ := slave_waits hstart hclock
  exact ⟨s0, hstart, look, hlook, hconfirmed look hlook hgives, hlate htimely look hlook hgives⟩

/-- A dead UPS becomes critical, and the slave gives up at once. -/
theorem slave_waits_dead : ¬∀ lines s0 sys passes, start lines = some s0 →
    steadyClock.run watch sys s0 passes watch.fresh → ∀ look ∈ (watch.run sys s0 passes watch.fresh).looks,
    look.GivesUp → look.Confirmed ∧ look.Late := by
  intro h
  have hrun : ∃ s0 ∈ start [monitorLine], steadyClock.run watch "su@localhost".toList s0 deadOnBattery watch.fresh ∧
      ∃ look ∈ (watch.run "su@localhost".toList s0 deadOnBattery watch.fresh).looks, look.GivesUp ∧
        look.since = some look.now ∧ look.conf.hostsync.toInt = 15 := by decide +kernel
  obtain ⟨s0, hstart, hclock, look, hlook, hgives, hsince, hhostsync⟩ := hrun
  obtain ⟨t, ht, hlate⟩ := (h _ s0 _ _ hstart hclock look hlook hgives).2
  obtain rfl := Option.some.inj (hsince.symm.trans ht)
  omega

end Nut.Upsmon
