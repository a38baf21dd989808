import Mathlib.Data.List.Chain
import Nut.Clients.Notify
import Nut.Clients.Reload

/-!
# On line and on battery

The notifications `ONLINE` and `ONBATT` of one UPS in a run of the monitor.  Each is sent with the flag of the line that it
sets, and only where that flag was clear, but for the first `OL` at startup, which is ignored.  A dropped connection resets
`linestate` and leaves the flags alone, so the two alternate as long as no reload drops the UPS
(`line_notices_alternate`).
-/

namespace Nut.Upsmon

/-- The same UPS with the same flags of the line. -/
structure SameLine (ups ups' : Utype) : Prop where
  sys : ups'.sys = ups.sys
  line : ups'.line = ups.line
  linestate : ups'.linestate = ups.linestate ∨ ups'.linestate = 0

namespace SameLine

variable {ups ups' ups'' : Utype}

theorem refl (ups : Utype) : SameLine ups ups := ⟨rfl, rfl, .inl rfl⟩

theorem trans (h : SameLine ups ups') (h' : SameLine ups' ups'') : SameLine ups ups'' := by
  refine ⟨h'.sys.trans h.sys, h'.line.trans h.line, ?_⟩
  rcases h'.linestate with hsame | hzero
  · rw [hsame]
    exact h.linestate
  · exact .inr hzero

theorem of_status (hsys : ups'.sys = ups.sys) (hstatus : ups'.status = ups.status) (hline : ups'.linestate = ups.linestate) :
    SameLine ups ups' := ⟨hsys, line_status hstatus, .inl hline⟩

/-- Setting another flag. -/
theorem setflag {j : Nat} (hj : 2 ≤ j) (hsys : ups'.sys = ups.sys)
    (hstatus : ups'.status = Upsmon.setflag ups.status (BitVec.twoPow 32 j)) (hline : ups'.linestate = ups.linestate) :
    SameLine ups ups' := by
  have h0 : 0 ≠ j := by omega
  have h1 : 1 ≠ j := by omega
  refine ⟨hsys, ?_, .inl hline⟩
  rw [Utype.line, Utype.line, hstatus, stOnline, stOnbatt, flagIsset_setflag _ (by omega), flagIsset_setflag _ (by omega)]
  simp [h0, h1]

theorem clearflag {j : Nat} (hj : 2 ≤ j) (hsys : ups'.sys = ups.sys)
    (hstatus : ups'.status = Upsmon.clearflag ups.status (BitVec.twoPow 32 j)) (hline : ups'.linestate = ups.linestate) :
    SameLine ups ups' := by
  have h0 : 0 ≠ j := by omega
  have h1 : 1 ≠ j := by omega
  refine ⟨hsys, ?_, .inl hline⟩
  rw [Utype.line, Utype.line, hstatus, stOnline, stOnbatt, flagIsset_clearflag _ (by omega),
    flagIsset_clearflag _ (by omega)]
  simp [h0, h1]

theorem ite {c : Prop} [Decidable c] {a b : Utype} (ha : SameLine ups a) (hb : SameLine ups b) :
    SameLine ups (if c then a else b) := by
  split_ifs
  · exact ha
  · exact hb

/-- A dropped connection resets `linestate`. -/
theorem drop (ups : Utype) : SameLine ups (dropConnection ups) := by
  have hlogin : SameLine ups { ups with status := Upsmon.clearflag ups.status stLogin } :=
    .clearflag (by omega : 2 ≤ 5) rfl rfl rfl
  have hconnected : SameLine { ups with status := Upsmon.clearflag ups.status stLogin }
      { ups with status := Upsmon.clearflag (Upsmon.clearflag ups.status stLogin) stConnected } :=
    .clearflag (by omega : 2 ≤ 6) rfl rfl rfl
  have hflags := hlogin.trans hconnected
  exact ⟨rfl, hflags.line, .inr rfl⟩

end SameLine

section

variable (s : State) (now : Int) (ups : Utype)

theorem sameLine_upsIsAlive : SameLine ups (upsIsAlive now ups) :=
  .ite (.of_status rfl rfl rfl) (.of_status rfl rfl rfl)

theorem sameLine_upsIsGone (nocommwarntime : Int32) : SameLine ups (upsIsGone nocommwarntime now ups) :=
  .ite (.of_status rfl rfl rfl) (.ite (.refl ups) (.ite (.of_status rfl rfl rfl) (.refl ups)))

theorem sameLine_upsLowBatt : SameLine ups (upsLowBatt ups) :=
  .ite (.refl ups) (.setflag (by omega : 2 ≤ 2) rfl rfl rfl)

theorem sameLine_upsreplbatt (rbwarntime : Int32) : SameLine ups (upsreplbatt rbwarntime now ups) :=
  .ite (.of_status rfl rfl rfl) (.refl ups)

theorem sameLine_upsFsd : SameLine ups (upsFsd ups) := .ite (.refl ups) (.setflag (by omega : 2 ≤ 3) rfl rfl rfl)

theorem sameLine_updateCrittimer : SameLine ups (updateCrittimer now ups) :=
  .ite (.of_status rfl rfl rfl) (.refl ups)

theorem sameLine_clearEarly (w status : CStr) {j : Nat} (hj : 2 ≤ j) :
    SameLine ups (clearEarly w (BitVec.twoPow 32 j) status ups) := .ite (.clearflag hj rfl rfl rfl) (.refl ups)

theorem sameLine_statusCleared (status : CStr) : SameLine ups (statusCleared now ups status) :=
  ((sameLine_upsIsAlive now ups).trans (sameLine_clearEarly _ _ _ (by omega : 2 ≤ 2))).trans
    (sameLine_clearEarly _ _ _ (by omega : 2 ≤ 3))

theorem sameLine_promoteDead : SameLine ups (promoteDead s now ups) :=
  .ite (.setflag (by omega : 2 ≤ 2) rfl rfl rfl) (.refl ups)

theorem sameLine_checkmaster (net : Net) : SameLine ups (checkmaster net ups).1 := by
  unfold checkmaster
  split_ifs
  · exact .refl ups
  · split
    · exact .refl ups
    · split_ifs
      · exact .refl ups
      · split
        · exact .of_status rfl rfl rfl
        · exact .of_status rfl rfl rfl

theorem sameLine_doUpsdAuth (net : AuthNet) : SameLine ups (doUpsdAuth net ups).1 := by
  rcases doUpsdAuth_cases net ups with ⟨-, conn, hauth⟩ | ⟨-, conn, hauth⟩
  · rw [hauth]
    exact .of_status rfl rfl rfl
  · rw [hauth]
    have hlogin : SameLine ups { ups with conn := conn, status := setflag ups.status stLogin } :=
      .setflag (by omega : 2 ≤ 5) rfl rfl rfl
    exact hlogin.trans (sameLine_checkmaster _ net.master)

theorem sameLine_tryConnect (p : Polled) : SameLine ups (tryConnect s p ups).1 := by
  have hclear : SameLine ups { ups with status := clearflag ups.status stConnected } :=
    .clearflag (by omega : 2 ≤ 6) rfl rfl rfl
  unfold tryConnect
  dsimp only
  split_ifs
  · exact (hclear.trans (sameLine_upsIsGone p.now _ s.nocommwarntime)).trans (.drop _)
  · have hconn : SameLine ups { ups with conn := p.connect.conn, status := clearflag ups.status stConnected } :=
      hclear.trans (.of_status rfl rfl rfl)
    exact hconn.trans (sameLine_upsIsGone p.now _ s.nocommwarntime)
  · have hup : SameLine { ups with status := clearflag ups.status stConnected }
        { ups with conn := p.connect.conn, status := setflag (clearflag ups.status stConnected) stConnected } :=
      .setflag (by omega : 2 ≤ 6) rfl rfl rfl
    exact (hclear.trans hup).trans (sameLine_doUpsdAuth _ p.auth)

theorem sameLine_retryConnection : SameLine ups (retryConnection ups) := .ite (.refl ups) (.drop ups)

theorem sameLine_redefineUps (pv : Int32) (un pw master : CStr) : SameLine ups (redefineUps ups pv un pw master) := by
  have hun (ups : Utype) : SameLine ups (redefineUn ups un) := by
    have hset : SameLine ups { ups with un := un } := .of_status rfl rfl rfl
    exact .ite (hset.trans (sameLine_retryConnection _)) (.refl ups)
  have hpw (ups : Utype) : SameLine ups (redefinePw ups pw) := by
    have hset : SameLine ups { ups with pw := pw } := .of_status rfl rfl rfl
    exact .ite (hset.trans (sameLine_retryConnection _)) (.refl ups)
  have hmaster (ups : Utype) : SameLine ups (redefineMaster ups master) := by
    have hset : SameLine ups { ups with status := setflag ups.status stMaster } :=
      .setflag (by omega : 2 ≤ 4) rfl rfl rfl
    exact .ite (hset.trans (.drop _)) (.ite (.clearflag (by omega : 2 ≤ 4) rfl rfl rfl) (.refl ups))
  have hretain : SameLine ups { ups with retain := true, pv := pv } := .of_status rfl rfl rfl
  exact hretain.trans (((hun _).trans (hpw _)).trans (hmaster _))

end

/-! ### The notifications of the line -/

/-- A notification of the line. -/
def Notice.ofLine (notice : Notice) : Bool := notice = .online || notice = .onbatt

/-- The notifications of the line among the events. -/
def lineNotices (events : List Event) : List Notice :=
  events.filterMap fun event =>
    match event with
    | .sent notice => if notice.ofLine then some notice else none
    | .word _ => none

/-- What the UPS tells of the notifications of the line that were sent for it. -/
structure LineInv (ups : Utype) (sent : List Notice) : Prop where
  one : ups.line ≠ (true, true)
  began : ups.line.2 = true → ups.linestate ≠ -1
  last : ∀ notice ∈ sent.getLast?, notice = .onbatt ∧ ups.line.2 = true ∨ notice = .online ∧ ups.line.1 = true
  alternates : sent.IsChain (· ≠ ·)

/-- The events keep the invariant, and no status word ends with both flags. -/
structure Keeps (ups : Utype) (events : List Event) (ups' : Utype) : Prop where
  sys : ups'.sys = ups.sys
  inv : ∀ {sent : List Notice}, LineInv ups sent → LineInv ups' (sent ++ lineNotices events)
  words : ∀ {sent : List Notice}, LineInv ups sent → ∀ status, .word status ∈ events →
    ¬(flagIsset status stOnline = true ∧ flagIsset status stOnbatt = true)

theorem lineNotices_append (events events' : List Event) :
    lineNotices (events ++ events') = lineNotices events ++ lineNotices events' := List.filterMap_append

theorem lineNotices_sent (notices : List Notice) : lineNotices (notices.map .sent) = notices.filter Notice.ofLine := by
  induction notices with
  | nil => rfl
  | cons notice notices ih =>
    by_cases h : notice.ofLine = true
    · rw [List.filter_cons_of_pos h, ← ih]
      simp [lineNotices, h]
    · rw [List.filter_cons_of_neg h, ← ih]
      simp [lineNotices, h]

/-- Other notifications, and no word. -/
theorem Keeps.other {ups ups' : Utype} (h : SameLine ups ups') {notices : List Notice}
    (hnotices : ∀ notice ∈ notices, notice.ofLine = false) : Keeps ups (notices.map .sent) ups' := by
  have hnone : lineNotices (notices.map .sent) = [] := by
    rw [lineNotices_sent, List.filter_eq_nil_iff]
    exact fun notice hmem => by simp [hnotices notice hmem]
  refine ⟨h.sys, fun {sent} hinv => ?_, fun _ status hmem => ?_⟩
  · rw [hnone, List.append_nil]
    refine ⟨by rw [h.line]; exact hinv.one, fun hbatt => ?_, by rw [h.line]; exact hinv.last, hinv.alternates⟩
    rw [h.line] at hbatt
    rcases h.linestate with hsame | hzero
    · rw [hsame]
      exact hinv.began hbatt
    · rw [hzero]
      decide
  · simp at hmem

namespace Keeps

variable {ups ups' ups'' : Utype} {events events' : List Event}

theorem append (h : Keeps ups events ups') (h' : Keeps ups' events' ups'') : Keeps ups (events ++ events') ups'' := by
  refine ⟨h'.sys.trans h.sys, fun {sent} hinv => ?_, fun {sent} hinv status hmem => ?_⟩
  · rw [lineNotices_append, ← List.append_assoc]
    exact h'.inv (h.inv hinv)
  · rcases List.mem_append.1 hmem with hmem | hmem
    · exact h.words hinv status hmem
    · exact h'.words (h.inv hinv) status hmem

theorem same (h : SameLine ups ups') : Keeps ups [] ups' := @Keeps.other ups ups' h [] (by simp)

theorem ite {c : Prop} [Decidable c] {f : Utype → Utype} {notices : List Notice}
    (h : Keeps ups (notices.map .sent) (f ups)) :
    Keeps ups ((if c then notices else []).map .sent) (if c then f ups else ups) := by
  split_ifs
  · exact h
  · exact .same (.refl ups)

end Keeps

/-- A notification that is not the last one sent keeps them alternating. -/
theorem LineInv.alternates_snoc {ups : Utype} {sent : List Notice} (h : LineInv ups sent) {notice : Notice}
    (hlast : sent.getLast? ≠ some notice) : (sent ++ [notice]).IsChain (· ≠ ·) := by
  rw [List.isChain_append]
  refine ⟨h.alternates, List.isChain_singleton notice, fun x hx y hy => ?_⟩
  obtain rfl : notice = y := Option.some.inj hy
  rintro rfl
  exact hlast hx

theorem keeps_upsOnBatt (ups : Utype) : Keeps ups ((onBattNotices ups).map .sent) (upsOnBatt ups) := by
  have hsys : (upsOnBatt ups).sys = ups.sys := by
    unfold upsOnBatt
    split_ifs <;> rfl
  refine ⟨hsys, fun {sent} hinv => ?_, fun _ status hmem => by simp at hmem⟩
  rw [lineNotices_sent]
  unfold onBattNotices
  by_cases hset : flagIsset ups.status stOnbatt = true
  · rw [if_pos hset, List.filter_nil, List.append_nil, upsOnBatt, if_pos hset]
    exact hinv
  · have hline : (upsOnBatt ups).line = (false, true) := by
      rw [upsOnBatt_line, lineAfter, Utype.line, if_neg hset]
    have hlast : sent.getLast? ≠ some .onbatt := by
      intro hsent
      rcases hinv.last _ hsent with ⟨-, hbatt⟩ | ⟨hne, -⟩
      · exact hset hbatt
      · exact absurd hne (by decide)
    have hfilter : [Notice.onbatt].filter Notice.ofLine = [.onbatt] := rfl
    rw [if_neg hset, hfilter]
    refine ⟨by rw [hline]; decide, fun _ => ?_, fun notice hmem => ?_, hinv.alternates_snoc hlast⟩
    · rw [upsOnBatt, if_neg hset]
      exact (by decide : (0 : Int32) ≠ -1)
    · rw [List.getLast?_concat] at hmem
      exact .inl ⟨(Option.some.inj hmem).symm, by rw [hline]⟩

theorem keeps_upsOnLine (ups : Utype) : Keeps ups ((onLineNotices ups).map .sent) (upsOnLine ups) := by
  have hsys : (upsOnLine ups).sys = ups.sys := by
    unfold upsOnLine
    split_ifs <;> rfl
  refine ⟨hsys, fun {sent} hinv => ?_, fun _ status hmem => by simp at hmem⟩
  rw [lineNotices_sent]
  unfold onLineNotices
  by_cases hset : flagIsset ups.status stOnline = true
  · rw [if_pos hset, List.filter_nil, List.append_nil, upsOnLine, if_pos hset]
    exact hinv
  · have hline : (upsOnLine ups).line = (true, false) := by
      rw [upsOnLine_line, lineAfter, Utype.line, if_neg hset]
    have hnot : (upsOnLine ups).line.2 ≠ true := by rw [hline]; decide
    rw [if_neg hset]
    by_cases hfirst : ups.linestate ≠ -1
    · have hlast : sent.getLast? ≠ some .online := by
        intro hsent
        rcases hinv.last _ hsent with ⟨hne, -⟩ | ⟨-, hon⟩
        · exact absurd hne (by decide)
        · exact hset hon
      have hfilter : [Notice.online].filter Notice.ofLine = [.online] := rfl
      rw [if_pos hfirst, hfilter]
      refine ⟨by rw [hline]; decide, fun hbatt => absurd hbatt hnot, fun notice hmem => ?_, hinv.alternates_snoc hlast⟩
      rw [List.getLast?_concat] at hmem
      exact .inr ⟨(Option.some.inj hmem).symm, by rw [hline]⟩
    · -- the first `OL` at startup: nothing was sent before
      have hnone : sent.getLast? = none := by
        rcases hsent : sent.getLast? with _ | notice
        · rfl
        · rcases hinv.last notice hsent with ⟨-, hbatt⟩ | ⟨-, hon⟩
          · exact absurd (hinv.began hbatt) hfirst
          · exact absurd hon hset
      rw [if_neg hfirst, List.filter_nil, List.append_nil]
      exact ⟨by rw [hline]; decide, fun hbatt => absurd hbatt hnot, by rw [hnone]; simp, hinv.alternates⟩

/-- The five tests of a word, one after the other. -/
private theorem keeps_tests (s : State) (now : Int) {ol ob lb rb fsd : Prop} [Decidable ol] [Decidable ob] [Decidable lb]
    [Decidable rb] [Decidable fsd] {ups u1 u2 u3 u4 u5 : Utype} (h1 : u1 = if ol then upsOnLine ups else ups)
    (h2 : u2 = if ob then upsOnBatt u1 else u1) (h3 : u3 = if lb then upsLowBatt u2 else u2)
    (h4 : u4 = if rb then upsreplbatt s.rbwarntime now u3 else u3) (h5 : u5 = if fsd then upsFsd u4 else u4) :
    Keeps ups (((if ol then onLineNotices ups else []) ++ ((if ob then onBattNotices u1 else []) ++
      ((if lb then lowBattNotices u2 else []) ++ ((if rb then replbattNotices s.rbwarntime now u3 else []) ++
        (if fsd then fsdNotices u4 else []))))).map .sent) (updateCrittimer now u5) := by
  have hlb : ∀ notice ∈ lowBattNotices u2, notice.ofLine = false := by
    intro notice hmem
    unfold lowBattNotices at hmem
    split_ifs at hmem <;> simp_all [Notice.ofLine]
  have hrb : ∀ notice ∈ replbattNotices s.rbwarntime now u3, notice.ofLine = false := by
    intro notice hmem
    unfold replbattNotices at hmem
    split_ifs at hmem <;> simp_all [Notice.ofLine]
  have hfsd : ∀ notice ∈ fsdNotices u4, notice.ofLine = false := by
    intro notice hmem
    unfold fsdNotices at hmem
    split_ifs at hmem <;> simp_all [Notice.ofLine]
  have k1 : Keeps ups ((if ol then onLineNotices ups else []).map .sent) u1 := h1 ▸ .ite (keeps_upsOnLine ups)
  have k2 : Keeps u1 ((if ob then onBattNotices u1 else []).map .sent) u2 := h2 ▸ .ite (keeps_upsOnBatt u1)
  have k3 : Keeps u2 ((if lb then lowBattNotices u2 else []).map .sent) u3 :=
    h3 ▸ .ite (.other (sameLine_upsLowBatt u2) hlb)
  have k4 : Keeps u3 ((if rb then replbattNotices s.rbwarntime now u3 else []).map .sent) u4 :=
    h4 ▸ .ite (.other (sameLine_upsreplbatt now u3 s.rbwarntime) hrb)
  have k5 : Keeps u4 ((if fsd then fsdNotices u4 else []).map .sent) u5 := h5 ▸ .ite (.other (sameLine_upsFsd u4) hfsd)
  have hlast := k5.append (.same (sameLine_updateCrittimer now u5))
  rw [List.append_nil] at hlast
  rw [List.map_append, List.map_append, List.map_append, List.map_append]
  exact k1.append (k2.append (k3.append (k4.append hlast)))

theorem keeps_parseStatword (s : State) (now : Int) (ups : Utype) (statword : CStr) :
    Keeps ups ((statwordNotices s now ups statword).map .sent) (parseStatword s now ups statword) :=
  keeps_tests s now rfl rfl rfl rfl rfl

/-- The end of a status word, with the flags of the UPS. -/
theorem keeps_word (ups : Utype) : Keeps ups [.word ups.status] ups := by
  refine ⟨rfl, fun {sent} hinv => by rwa [lineNotices, List.filterMap_cons, List.filterMap_nil, List.append_nil], ?_⟩
  rintro sent hinv status hmem ⟨hon, hbatt⟩
  obtain rfl : status = ups.status := Event.word.inj (List.mem_singleton.1 hmem)
  exact hinv.one (by rw [Utype.line, hon, hbatt])

theorem keeps_wordsEvents (s : State) (now : Int) (ups : Utype) (words : List CStr) :
    Keeps ups (wordsEvents s now ups words) (words.foldl (parseStatword s now) ups) := by
  induction words generalizing ups with
  | nil => exact .same (.refl ups)
  | cons statword words ih =>
    have hword := (keeps_parseStatword s now ups statword).append (keeps_word _)
    have hrest := hword.append (ih (parseStatword s now ups statword))
    rwa [List.append_assoc] at hrest

theorem goneNotices_ofLine (nocommwarntime : Int32) (now : Int) (ups : Utype) :
    ∀ notice ∈ goneNotices nocommwarntime now ups, notice.ofLine = false := by
  intro notice hmem
  unfold goneNotices at hmem
  split_ifs at hmem <;> simp_all [Notice.ofLine]

theorem keeps_upsIsGone (nocommwarntime : Int32) (now : Int) (ups : Utype) :
    Keeps ups ((goneNotices nocommwarntime now ups).map .sent) (upsIsGone nocommwarntime now ups) :=
  .other (sameLine_upsIsGone now ups nocommwarntime) (goneNotices_ofLine nocommwarntime now ups)

theorem keeps_parseStatus (s : State) (now : Int) (ups : Utype) (status : CStr) :
    Keeps ups (parseStatusEvents s now ups status) (parseStatus s now ups status) := by
  rw [parseStatusEvents, parseStatus_eq]
  by_cases hempty : status = []
  · rw [if_pos hempty, if_pos hempty]
    exact keeps_upsIsGone ..
  · rw [if_neg hempty, if_neg hempty]
    have halive : ∀ notice ∈ aliveNotices ups, notice.ofLine = false := by
      intro notice hmem
      unfold aliveNotices at hmem
      split_ifs at hmem <;> simp_all [Notice.ofLine]
    exact (Keeps.other (sameLine_statusCleared now ups status) halive).append (keeps_wordsEvents ..)

/-! ### A poll -/

theorem keeps_pollConnected (s : State) (p : Polled) (ups : Utype) :
    ∃ ups', Keeps ups (pollConnectedEvents s p ups) ups' ∧ ∀ mid, pollConnected s p ups = some mid → mid = ups' := by
  unfold pollConnectedEvents pollConnected
  rcases hget : getVar ups p.get "status".toList with _ | ⟨ups', _ | status⟩
  · exact ⟨ups, .same (.refl ups), by simp⟩
  · obtain ⟨conn, rfl⟩ := getVar_conn hget
    have hconn : Keeps ups [] { ups with conn := conn } := .same (.of_status rfl rfl rfl)
    have hgone := hconn.append (keeps_upsIsGone s.nocommwarntime p.now { ups with conn := conn })
    rw [List.nil_append] at hgone
    refine ⟨_, ?_, fun mid hmid => (Option.some.inj hmid).symm⟩
    have hdrop (ups : Utype) : SameLine ups (if ups.conn.fd = false then dropConnection ups else ups) :=
      .ite (.drop ups) (.refl ups)
    have hend := hgone.append (.same (hdrop _))
    rwa [List.append_nil] at hend
  · obtain ⟨conn, rfl⟩ := getVar_conn hget
    have hconn : Keeps ups [] { ups with conn := conn } := .same (.of_status rfl rfl rfl)
    have hstatus := hconn.append (keeps_parseStatus s p.now { ups with conn := conn } status)
    rw [List.nil_append] at hstatus
    exact ⟨_, hstatus, fun mid hmid => (Option.some.inj hmid).symm⟩

theorem keeps_pollups (s : State) (p : Polled) (ups : Utype) :
    ∃ ups', Keeps ups (pollEvents s p ups) ups' ∧ ∀ mid, pollups s p ups = some mid → mid = ups' := by
  unfold pollEvents pollups
  by_cases hnew : flagIsset ups.status stConnected = false
  · have htry : Keeps ups ((tryConnectNotices s p ups).map .sent) (tryConnect s p ups).1 := by
      refine .other (sameLine_tryConnect s ups p) fun notice hmem => ?_
      unfold tryConnectNotices at hmem
      split_ifs at hmem
      · exact goneNotices_ofLine _ _ _ notice hmem
      · exact absurd hmem List.not_mem_nil
    rw [if_pos hnew, if_pos hnew]
    rcases hres : tryConnect s p ups with ⟨ups', _ | _⟩
    · rw [hres] at htry
      dsimp only
      rw [List.append_nil]
      exact ⟨ups', htry, fun mid hmid => (Option.some.inj hmid).symm⟩
    · rw [hres] at htry
      obtain ⟨ups'', hpoll, hmid⟩ := keeps_pollConnected s p ups'
      exact ⟨ups'', htry.append hpoll, hmid⟩
  · rw [if_neg hnew, if_neg hnew]
    exact keeps_pollConnected s p ups

/-! ### The list of UPSes -/

/-- The names in the list. -/
def names (upses : List Utype) : List CStr := upses.map Utype.sys

/-- A UPS of that name comes from one that was in the list, or it is new and there was none. -/
def Carried (sys : CStr) (upses upses' : List Utype) : Prop :=
  ∀ ups' ∈ upses', ups'.sys = sys →
    (∃ ups ∈ upses, SameLine ups ups') ∨ sys ∉ names upses ∧ ups'.line = (false, false)

section

variable {sys : CStr}

private theorem carried_refl (upses : List Utype) : Carried sys upses upses :=
  fun ups hups _ => .inl ⟨ups, hups, .refl ups⟩

private theorem Carried.trans {upses mid upses' : List Utype} (h : Carried sys upses mid) (h' : Carried sys mid upses')
    (hgrow : sys ∈ names upses → sys ∈ names mid) : Carried sys upses upses' := by
  intro ups'' hups'' hsys
  rcases h' ups'' hups'' hsys with ⟨ups', hups', hsame⟩ | ⟨hnone, hline⟩
  · rcases h ups' hups' (hsame.sys.symm.trans hsys) with ⟨ups, hups, hsame'⟩ | ⟨hnone, hline⟩
    · exact .inl ⟨ups, hups, hsame'.trans hsame⟩
    · exact .inr ⟨hnone, hsame.line.trans hline⟩
  · exact .inr ⟨fun hmem => hnone (hgrow hmem), hline⟩

private theorem names_map {upses : List Utype} {f : Utype → Utype} (hf : ∀ ups, (f ups).sys = ups.sys) :
    names (upses.map f) = names upses := by
  rw [names, names, List.map_map]
  exact List.map_congr_left fun ups _ => hf ups

private theorem carried_map {upses : List Utype} {f : Utype → Utype} (hf : ∀ ups, SameLine ups (f ups)) :
    Carried sys upses (upses.map f) := by
  intro ups' hups' _
  obtain ⟨ups, hups, rfl⟩ := List.mem_map.1 hups'
  exact .inl ⟨ups, hups, hf ups⟩

private theorem carried_addups {reloading : Bool} {s s' : State} {name pvs un pw master : CStr}
    (h : addups reloading s name pvs un pw master = some s') :
    Carried sys s.firstups s'.firstups ∧ (sys ∈ names s.firstups → sys ∈ names s'.firstups) := by
  unfold addups at h
  dsimp only at h
  split_ifs at h with hpv hused hreloading
  · obtain rfl := Option.some.inj h
    exact ⟨carried_refl _, id⟩
  · obtain rfl := Option.some.inj h
    have hsame : ∀ ups, SameLine ups (if ups.sys = name then redefineUps ups (atoi pvs) un pw master else ups) :=
      fun ups => .ite (sameLine_redefineUps ups _ un pw master) (.refl ups)
    refine ⟨carried_map hsame, fun hmem => ?_⟩
    rwa [names_map fun ups => (hsame ups).sys]
  · obtain rfl := Option.some.inj h
    exact ⟨carried_refl _, id⟩
  · obtain ⟨upsname, -, rfl⟩ := Option.map_eq_some_iff.1 h
    refine ⟨fun ups' hups' hsys => ?_, fun hmem => ?_⟩
    · rcases List.mem_append.1 hups' with hups | hnew
      · exact carried_refl _ ups' hups hsys
      · obtain rfl := List.mem_singleton.1 hnew
        refine .inr ⟨fun hmem => hused ?_, ?_⟩
        · obtain ⟨ups, hups, hname⟩ := List.mem_map.1 hmem
          exact List.any_eq_true.2 ⟨ups, hups, decide_eq_true (hname.trans hsys.symm)⟩
        · unfold Utype.line newUps
          dsimp only
          split_ifs <;> decide
    · rw [names, List.map_append]
      exact List.mem_append_left _ hmem

private theorem carried_loadconfig {reloading : Bool} {s s' : State} (lines : List (List CStr))
    (h : loadconfig reloading s lines = some s') :
    Carried sys s.firstups s'.firstups ∧ (sys ∈ names s.firstups → sys ∈ names s'.firstups) := by
  unfold loadconfig at h
  induction lines generalizing s with
  | nil =>
    obtain rfl := Option.some.inj h
    exact ⟨carried_refl _, id⟩
  | cons line lines ih =>
    rw [List.foldlM_cons] at h
    obtain ⟨mid, hmid, h⟩ := Option.bind_eq_some_iff.1 h
    have hline : Carried sys s.firstups mid.firstups ∧ (sys ∈ names s.firstups → sys ∈ names mid.firstups) := by
      rcases parseConfArg_cases hmid with ⟨hfirst, -⟩ | ⟨name, pvs, un, pw, master, rest, -, hadd⟩
      · rw [hfirst]
        exact ⟨carried_refl _, id⟩
      · exact carried_addups hadd
    obtain ⟨hrest, hgrow⟩ := ih h
    exact ⟨hline.1.trans hrest hline.2, fun hmem => hgrow (hline.2 hmem)⟩

/-- A reload redefines the UPSes that it keeps, and adds others. -/
private theorem carried_reloaded {s t : State} {p : Pass} (hu : Unique s.firstups) (h : reloaded s p = some t) :
    Carried sys s.firstups t.firstups ∧ Unique t.firstups := by
  unfold reloaded at h
  rcases hp : p.reload with _ | _ | lines
  · rw [hp] at h
    obtain rfl := Option.some.inj h
    exact ⟨carried_refl _, hu⟩
  · rw [hp] at h
    obtain rfl := Option.some.inj h
    exact ⟨carried_refl _, hu⟩
  · rw [hp] at h
    refine ⟨?_, (reload_look hu h).1⟩
    obtain ⟨mid, hmid, h⟩ := Option.bind_eq_some_iff.1 h
    dsimp only at h
    split_ifs at h
    obtain rfl := Option.some.inj h
    have hclear : Carried sys s.firstups (s.firstups.map fun tmp => { tmp with retain := false }) :=
      carried_map fun ups => .of_status rfl rfl rfl
    obtain ⟨hload, -⟩ := @carried_loadconfig sys _ _ _ lines hmid
    have hnames : names (s.firstups.map fun tmp => { tmp with retain := false }) = names s.firstups :=
      names_map fun _ => rfl
    have hboth := hclear.trans hload fun hmem => by rwa [hnames]
    exact fun ups hups hsys => hboth ups (List.mem_filter.1 hups).1 hsys

private theorem names_of_mapM {f : Utype → Option Utype} (hf : ∀ ups ups', f ups = some ups' → ups'.sys = ups.sys)
    {upses upses' : List Utype} (h : upses.mapM f = some upses') : names upses' = names upses := by
  induction upses generalizing upses' with
  | nil =>
    rw [List.mapM_nil] at h
    obtain rfl := Option.some.inj h
    rfl
  | cons ups upses ih =>
    rw [List.mapM_cons] at h
    obtain ⟨x, hx, h⟩ := Option.bind_eq_some_iff.1 h
    obtain ⟨xs, hxs, h⟩ := Option.bind_eq_some_iff.1 h
    obtain rfl := Option.some.inj h
    exact congrArg₂ List.cons (hf ups x hx) (ih hxs)

end

/-! ### Runs -/

/-- What is sent for the UPS of that name when the UPSes are polled. -/
def passEvents (sys : CStr) (t : State) (poll : CStr → Polled) : List Event :=
  match t.firstups.find? fun ups => ups.sys = sys with
  | none => []
  | some ups => pollEvents t (poll ups.sys) ups

/-- What is sent for it in the passes. -/
def runEvents (sys : CStr) : State → List Pass → List Event
  | _, [] => []
  | s, p :: passes =>
    match reloaded s p with
    | none => []
    | some t =>
      passEvents sys t p.poll ++
        match mainPass s p with
        | none => []
        | some s' => runEvents sys s' passes

/-- No reload drops the UPS of that name. -/
def NeverDropped (sys : CStr) : State → List Pass → Prop
  | _, [] => True
  | s, p :: passes =>
    (∀ t, reloaded s p = some t → sys ∈ names s.firstups → sys ∈ names t.firstups) ∧
      ∀ s', mainPass s p = some s' → NeverDropped sys s' passes

/-- What the list tells of the notifications sent so far for the UPS of that name. -/
structure RunInv (sys : CStr) (upses : List Utype) (sent : List Notice) : Prop where
  unique : Unique upses
  inv : ∀ ups ∈ upses, ups.sys = sys → LineInv ups sent
  absent : sys ∉ names upses → sent = []

section

variable {sys : CStr} {s s' t : State} {p : Pass} {sent : List Notice}

theorem lineInv_new {ups : Utype} (h : ups.line = (false, false)) : LineInv ups [] :=
  ⟨by rw [h]; decide, by rw [h]; simp, by simp, .nil⟩

private theorem LineInv.same {ups ups' : Utype} (h : LineInv ups sent) (hsame : SameLine ups ups') : LineInv ups' sent := by
  have hkept := (Keeps.same hsame).inv h
  rwa [lineNotices, List.filterMap_nil, List.append_nil] at hkept

theorem RunInv.reloaded (h : RunInv sys s.firstups sent) (ht : reloaded s p = some t)
    (hkeep : sys ∈ names s.firstups → sys ∈ names t.firstups) : RunInv sys t.firstups sent := by
  obtain ⟨hcarried, hu⟩ := @carried_reloaded sys s t p h.unique ht
  refine ⟨hu, fun ups hups hsys => ?_, fun hnone => h.absent fun hmem => hnone (hkeep hmem)⟩
  rcases hcarried ups hups hsys with ⟨old, hold, hsame⟩ | ⟨hnone, hline⟩
  · exact (h.inv old hold (hsame.sys.symm.trans hsys)).same hsame
  · rw [h.absent hnone]
    exact lineInv_new hline

theorem RunInv.alternates (h : RunInv sys s.firstups sent) : sent.IsChain (· ≠ ·) := by
  by_cases hmem : sys ∈ names s.firstups
  · obtain ⟨ups, hups, hsys⟩ := List.mem_map.1 hmem
    exact (h.inv ups hups hsys).alternates
  · rw [h.absent hmem]
    exact .nil

/-- What is sent for the UPS in one pass. -/
theorem RunInv.polled (h : RunInv sys t.firstups sent) (poll : CStr → Polled) :
    (sent ++ lineNotices (passEvents sys t poll)).IsChain (· ≠ ·) ∧
    (∀ status, .word status ∈ passEvents sys t poll →
      ¬(flagIsset status stOnline = true ∧ flagIsset status stOnbatt = true)) ∧
    (sys ∉ names t.firstups → sent ++ lineNotices (passEvents sys t poll) = []) ∧
    ∀ ups ∈ t.firstups, ups.sys = sys → ∀ mid, pollups t (poll ups.sys) ups = some mid →
      LineInv mid (sent ++ lineNotices (passEvents sys t poll)) := by
  rcases hfind : t.firstups.find? (fun ups => ups.sys = sys) with _ | ups
  · have hevents : passEvents sys t poll = [] := by rw [passEvents, hfind]
    have hother : ∀ ups ∈ t.firstups, ups.sys ≠ sys := by simpa using List.find?_eq_none.1 hfind
    have hnames : sys ∉ names t.firstups := by
      intro hmem
      obtain ⟨ups, hups, hsys⟩ := List.mem_map.1 hmem
      exact hother ups hups hsys
    rw [hevents, h.absent hnames]
    exact ⟨.nil, by simp, fun _ => rfl, fun ups hups hsys => absurd hsys (hother ups hups)⟩
  · have hups := List.mem_of_find?_eq_some hfind
    have hsys : ups.sys = sys := by simpa using List.find?_some hfind
    obtain ⟨ups', hkeeps, hmid⟩ := keeps_pollups t (poll ups.sys) ups
    have hevents : passEvents sys t poll = pollEvents t (poll ups.sys) ups := by rw [passEvents, hfind]
    have hinv := hkeeps.inv (h.inv ups hups hsys)
    rw [hevents]
    refine ⟨hinv.alternates, hkeeps.words (h.inv ups hups hsys), fun hnone => ?_, ?_⟩
    · exact absurd (List.mem_map.2 ⟨ups, hups, hsys⟩) hnone
    · intro other hother hname mid hpoll
      obtain rfl : other = ups := List.inj_on_of_nodup_map h.unique hother hups (hname.trans hsys.symm)
      exact hmid mid hpoll ▸ hinv

theorem names_of_mainPass (ht : Upsmon.reloaded s p = some t) (h : mainPass s p = some s') :
    names s'.firstups = names t.firstups := by
  obtain ⟨t', ht', h⟩ := Option.bind_eq_some_iff.1 h
  obtain rfl : t = t' := Option.some.inj (ht.symm.trans ht')
  obtain ⟨u, hu, h⟩ := Option.bind_eq_some_iff.1 h
  obtain ⟨upses, hall, rfl⟩ := Option.map_eq_some_iff.1 hu
  unfold recalc at h
  dsimp only at h
  split_ifs at h
  obtain rfl := Option.some.inj h
  have hdead : names (upses.map (promoteDead { t with firstups := upses } p.now)) = names upses :=
    names_map fun ups => (sameLine_promoteDead _ p.now ups).sys
  refine hdead.trans (names_of_mapM (fun ups ups' hpoll => ?_) hall)
  obtain ⟨mid, hkeeps, hmid⟩ := keeps_pollups t (p.poll ups.sys) ups
  rw [hmid ups' hpoll]
  exact hkeeps.sys

/-- The invariant of the list carries through a pass. -/
theorem RunInv.mainPass (h : RunInv sys t.firstups sent) (ht : Upsmon.reloaded s p = some t) (hpass : mainPass s p = some s') :
    RunInv sys s'.firstups (sent ++ lineNotices (passEvents sys t p.poll)) := by
  obtain ⟨-, -, habsent, hinv⟩ := h.polled p.poll
  have hnames := names_of_mainPass ht hpass
  refine ⟨?_, fun ups' hups' hsys => ?_, fun hnone => habsent (hnames ▸ hnone)⟩
  · show (names s'.firstups).Nodup
    rw [hnames]
    exact h.unique
  · obtain ⟨t', u, ht', hall⟩ := polled_of_mainPass hpass
    obtain rfl : t = t' := Option.some.inj (ht.symm.trans ht')
    obtain ⟨ups, hups, mid, hpoll, rfl⟩ := hall ups' hups'
    have hdead := sameLine_promoteDead u p.now mid
    obtain ⟨mid', hkeeps, hmid⟩ := keeps_pollups t (p.poll ups.sys) ups
    have hname : ups.sys = sys := by
      rw [← hsys, hdead.sys, hmid mid hpoll]
      exact hkeeps.sys.symm
    exact (hinv ups hups hname mid hpoll).same hdead

/-- What is sent in a run goes on from what was sent before. -/
theorem RunInv.run (h : RunInv sys s.firstups sent) (passes : List Pass) (hkeep : NeverDropped sys s passes) :
    (sent ++ lineNotices (runEvents sys s passes)).IsChain (· ≠ ·) ∧
      ∀ status, .word status ∈ runEvents sys s passes →
        ¬(flagIsset status stOnline = true ∧ flagIsset status stOnbatt = true) := by
  induction passes generalizing s sent with
  | nil =>
    refine ⟨?_, by simp [runEvents]⟩
    rw [runEvents, lineNotices, List.filterMap_nil, List.append_nil]
    exact h.alternates
  | cons p passes ih =>
    rw [runEvents]
    rcases ht : Upsmon.reloaded s p with _ | t
    · dsimp only
      rw [lineNotices, List.filterMap_nil, List.append_nil]
      exact ⟨h.alternates, by simp⟩
    · have hload := h.reloaded ht (hkeep.1 t ht)
      obtain ⟨hchain, hwords, -⟩ := hload.polled p.poll
      rcases hpass : Upsmon.mainPass s p with _ | s'
      · dsimp only
        rw [List.append_nil]
        exact ⟨hchain, hwords⟩
      · obtain ⟨hrest, hrestwords⟩ := ih (hload.mainPass ht hpass) (hkeep.2 s' hpass)
        dsimp only
        rw [lineNotices_append, ← List.append_assoc]
        refine ⟨hrest, fun status hmem => ?_⟩
        rcases List.mem_append.1 hmem with hmem | hmem
        · exact hwords status hmem
        · exact hrestwords status hmem

end

/-- In every run in which no reload drops the UPS, no status word ends with both flags of the line set, and of the
notifications `ONLINE` and `ONBATT` that are sent for it no two that follow each other are the same. -/
theorem line_notices_alternate {lines : List (List CStr)} {s0 : State} (hstart : start lines = some s0) {sys : CStr}
    {passes : List Pass} (hkeep : NeverDropped sys s0 passes) :
    (∀ status, .word status ∈ runEvents sys s0 passes →
      ¬(flagIsset status stOnline = true ∧ flagIsset status stOnbatt = true)) ∧
    (lineNotices (runEvents sys s0 passes)).IsChain (· ≠ ·) := by
  have hu := (start_look hstart).1
  have hnew : ∀ ups ∈ s0.firstups, ups.sys = sys → ups.line = (false, false) := by
    obtain ⟨s, hload, h⟩ := Option.bind_eq_some_iff.1 hstart
    split_ifs at h
    obtain rfl := Option.some.inj h
    intro ups hups hsys
    rcases (@carried_loadconfig sys _ _ _ lines hload).1 ups hups hsys with ⟨old, hold, -⟩ | ⟨-, hline⟩
    · exact absurd hold List.not_mem_nil
    · exact hline
  have hinv : RunInv sys s0.firstups [] := ⟨hu, fun ups hups hsys => lineInv_new (hnew ups hups hsys), fun _ => rfl⟩
  obtain ⟨hchain, hwords⟩ := hinv.run passes hkeep
  exact ⟨hwords, hchain⟩

theorem neverDropped_of_noReload {sys : CStr} {passes : List Pass} (h : ∀ p ∈ passes, p.reload = none) (s : State) :
    NeverDropped sys s passes := by
  induction passes generalizing s with
  | nil => trivial
  | cons p passes ih =>
    refine ⟨fun t ht hmem => ?_, fun s' _ => ih (fun q hq => h q (List.mem_cons_of_mem p hq)) s'⟩
    rw [reloaded, h p List.mem_cons_self] at ht
    exact Option.some.inj ht ▸ hmem

def monitorLine : List CStr :=
  ["MONITOR".toList, "su@localhost".toList, "1".toList, "upsmon".toList, "pass".toList, "slave".toList]

def answers (line : CStr) : Net where
  wrote := 64
  reads := [.bytes (line ++ "\n".toList)]

/-- A pass in which the UPS has that status. -/
def statusPass (status : CStr) : Pass where
  reload := none
  poll _ :=
    { nocert := false
      connect := { ok := true, upserror := .unknown, readbuf := [] }
      auth :=
        { username := answers "OK".toList
          password := answers "OK".toList
          login := answers "OK".toList
          master := answers "OK".toList }
      get := answers ("VAR su ups.status \"".toList ++ status ++ "\"".toList)
      now := 5 }
  now := 5

/-- A power failure in four passes. -/
theorem line_notices_failure : ∃ s0, start [monitorLine] = some s0 ∧
    lineNotices (runEvents "su@localhost".toList s0
      [statusPass "OL".toList, statusPass "OB".toList, statusPass "OB LB".toList, statusPass "OL".toList]) =
        [.onbatt, .online] ∧
    (lineNotices (runEvents "su@localhost".toList s0
      [statusPass "OL".toList, statusPass "OB".toList, statusPass "OB LB".toList, statusPass "OL".toList])).IsChain
        (· ≠ ·) := by
  have hrun : ((start [monitorLine]).map fun s0 => lineNotices (runEvents "su@localhost".toList s0
      [statusPass "OL".toList, statusPass "OB".toList, statusPass "OB LB".toList, statusPass "OL".toList])) =
        some [.onbatt, .online] := by decide +kernel
  obtain ⟨s0, hstart, hsent⟩ := Option.map_eq_some_iff.1 hrun
  have hkeep : NeverDropped "su@localhost".toList s0
      [statusPass "OL".toList, statusPass "OB".toList, statusPass "OB LB".toList, statusPass "OL".toList] :=
    neverDropped_of_noReload (by simp [statusPass]) s0
  exact ⟨s0, hstart, hsent, (line_notices_alternate hstart hkeep).2⟩

end Nut.Upsmon
