import Nut.Clients.Record

/-!
# The notifications of the communication

`COMMBAD` is sent when the communication with a UPS is lost, `COMMOK` when it is there again, and `NOCOMM` when that takes
long.  The functions of a poll announce what they make of `commstate`.  A reload that drops the connection does not, so the
notifications alternate as long as none drops it while the communication is not lost (`comm_notices_alternate`).
-/

namespace Nut.Upsmon

/-- A notification that says whether there is communication. -/
def Notice.ofComm (notice : Notice) : Bool := notice = .commok || notice = .commbad

def commNotices (events : List Event) : List Notice :=
  events.filterMap fun event =>
    match event with
    | .sent notice => if notice.ofComm then some notice else none
    | .word _ => none

/-- `COMMOK` and `COMMBAD` alternate, `COMMBAD` first, and `NOCOMM` is sent after `COMMBAD`, or before either. -/
structure CommOk (events : List Event) : Prop where
  alternates : (commNotices events).IsChain (· ≠ ·)
  first : ∀ notice ∈ (commNotices events).head?, notice = .commbad
  nocomm : ∀ before, before ++ [.sent .nocomm] <+: events → ∀ notice ∈ (commNotices before).getLast?, notice = .commbad

/-- All that is sent for a UPS since it was added. -/
def sentSince : Recorder (List Event) where
  fresh := []
  polled h t p ups := h ++ pollEvents t p ups
  checked h _ _ _ := h

/-- A redefinition drops the connection. -/
def DropsConnection (ups : Utype) (un pw master : CStr) : Prop :=
  ups.loggedIn = false ∧ (ups.un ≠ un ∨ ups.pw ≠ pw) ∨
    strcasecmp master "master".toList = .eq ∧ flagIsset ups.status stMaster = false

/-- No line of a reload drops the connection while the communication is not lost. -/
def keepsConnection : Conditions (List Event) where
  line ups un pw master := ups.commstate ≠ 0 → ¬DropsConnection ups un pw master
  polled _ _ _ _ := True
  checked _ _ _ _ := True

/-! ### What is sent next -/

theorem commNotices_append (events events' : List Event) :
    commNotices (events ++ events') = commNotices events ++ commNotices events' := List.filterMap_append

/-- The events that say nothing of the communication. -/
def Event.silent : Event → Bool
  | .sent notice => !notice.ofComm && notice ≠ .nocomm
  | .word _ => true

theorem commNotices_silent {event : Event} (h : event.silent = true) : commNotices [event] = [] := by
  rcases event with notice | status
  · have hcomm : notice.ofComm = false := by
      rw [Event.silent, Bool.and_eq_true, Bool.not_eq_true'] at h
      exact h.1
    simp [commNotices, hcomm]
  · rfl

/-- An event that is no notification of the communication, or the notification that it is. -/
theorem commNotices_single (event : Event) : commNotices [event] = [] ∨
    ∃ notice, event = .sent notice ∧ (notice = .commok ∨ notice = .commbad) ∧ commNotices [event] = [notice] := by
  rcases event with notice | status
  · by_cases hcomm : notice.ofComm = true
    · have hof : notice = .commok ∨ notice = .commbad := by
        rwa [Notice.ofComm, Bool.or_eq_true, decide_eq_true_eq, decide_eq_true_eq] at hcomm
      exact .inr ⟨notice, rfl, hof, by simp [commNotices, hcomm]⟩
    · exact .inl (by simp [commNotices, hcomm])
  · exact .inl rfl

/-- One event more. -/
theorem CommOk.snoc {events : List Event} (h : CommOk events) {event : Event} (hbad : event = .sent .commbad →
      (commNotices events).getLast? ≠ some .commbad) (hok : event = .sent .commok → (commNotices events).getLast? = some .commbad)
    (hno : event = .sent .nocomm → (commNotices events).getLast? = some .commbad) : CommOk (events ++ [event]) := by
  have hnocomm : ∀ before, before ++ [.sent .nocomm] <+: events ++ [event] →
      ∀ notice ∈ (commNotices before).getLast?, notice = .commbad := by
    intro before hpre notice hlast
    rcases List.prefix_concat_iff.1 hpre with heq | hpre
    · obtain ⟨rfl, hevent⟩ := List.append_inj' heq rfl
      rw [hno (List.singleton_inj.1 hevent).symm] at hlast
      exact (Option.some.inj hlast).symm
    · exact h.nocomm before hpre notice hlast
  rcases commNotices_single event with hcomm | ⟨notice, rfl, hof, hnotice⟩
  · refine ⟨?_, ?_, hnocomm⟩
    · rw [commNotices_append, hcomm, List.append_nil]
      exact h.alternates
    · rw [commNotices_append, hcomm, List.append_nil]
      exact h.first
  · refine ⟨?_, ?_, hnocomm⟩
    · rw [commNotices_append, hnotice, List.isChain_append]
      refine ⟨h.alternates, List.isChain_singleton notice, fun x hx y hy => ?_⟩
      obtain rfl : notice = y := Option.some.inj hy
      rintro rfl
      rcases hof with rfl | rfl
      · rw [hok rfl] at hx
        cases hx
      · exact hbad rfl hx
    · rw [commNotices_append, hnotice]
      intro first hfirst
      rcases hnone : commNotices events with _ | ⟨a, l⟩
      · rw [hnone] at hfirst
        obtain rfl : notice = first := Option.some.inj hfirst
        rcases hof with rfl | rfl
        · have hlast := hok rfl
          rw [hnone] at hlast
          cases hlast
        · rfl
      · rw [hnone] at hfirst
        exact h.first first (by rw [hnone]; exact hfirst)

/-! ### The state of the communication -/

/-- What `commstate` tells of the notifications that were sent. -/
structure CommInv (ups : Utype) (sent : List Event) : Prop where
  state : ups.commstate = -1 ∧ commNotices sent = [] ∨
    ups.commstate = 0 ∧ (commNotices sent).getLast? = some .commbad ∨
    ups.commstate = 1 ∧ (commNotices sent).getLast? ≠ some .commbad
  ok : CommOk sent

theorem CommInv.lost {ups : Utype} {sent : List Event} (h : CommInv ups sent) :
    ups.commstate = 0 ↔ (commNotices sent).getLast? = some .commbad := by
  rcases h.state with ⟨hstate, hnone⟩ | ⟨hstate, hlast⟩ | ⟨hstate, hlast⟩
  · rw [hstate, hnone]
    decide
  · rw [hstate, hlast]
    simp
  · rw [hstate]
    exact iff_of_false (by decide) hlast

/-- The events go with what becomes of the UPS. -/
structure Announced (ups : Utype) (events : List Event) (ups' : Utype) : Prop where
  inv : ∀ {sent : List Event}, CommInv ups sent → CommInv ups' (sent ++ events)

namespace Announced

variable {ups ups' ups'' : Utype} {events events' : List Event}

theorem append (h : Announced ups events ups') (h' : Announced ups' events' ups'') :
    Announced ups (events ++ events') ups'' := by
  refine ⟨fun {sent} hinv => ?_⟩
  rw [← List.append_assoc]
  exact h'.inv (h.inv hinv)

/-- Other events, and the same state. -/
theorem other (h : ups'.commstate = ups.commstate) (hsilent : ∀ event ∈ events, event.silent = true) :
    Announced ups events ups' := by
  refine ⟨fun {sent} hinv => ?_⟩
  induction events generalizing sent with
  | nil =>
    rw [List.append_nil]
    exact ⟨by rw [h]; exact hinv.state, hinv.ok⟩
  | cons event events ih =>
    have hevent := hsilent event List.mem_cons_self
    have hsame : commNotices (sent ++ [event]) = commNotices sent := by
      rw [commNotices_append, commNotices_silent hevent, List.append_nil]
    have hnext : CommInv ups (sent ++ [event]) := by
      refine ⟨by rw [hsame]; exact hinv.state, hinv.ok.snoc ?_ ?_ ?_⟩
      all_goals
        rintro rfl
        exact absurd hevent (by decide)
    have hrest := ih (fun event' hmem => hsilent event' (List.mem_cons_of_mem event hmem)) hnext
    rwa [List.append_assoc] at hrest

theorem same (h : ups'.commstate = ups.commstate) : Announced ups [] ups' := other h (by simp)

end Announced

theorem announced_upsIsAlive (now : Int) (ups : Utype) : Announced ups ((aliveNotices ups).map .sent) (upsIsAlive now ups) := by
  refine ⟨fun {sent} hinv => ?_⟩
  have hstate : (upsIsAlive now ups).commstate = 1 := by
    unfold upsIsAlive
    dsimp only
    split_ifs with h
    · exact h
    · rfl
  unfold aliveNotices
  by_cases halive : ups.commstate = 1
  · rw [if_pos halive]
    exact (Announced.same (hstate.trans halive.symm)).inv hinv
  · rw [if_neg halive]
    by_cases hlost : ups.commstate = 0
    · rw [if_pos hlost]
      have hlast := hinv.lost.1 hlost
      refine ⟨.inr (.inr ⟨hstate, ?_⟩), hinv.ok.snoc (by simp) (fun _ => hlast) (by simp)⟩
      simp [commNotices, Notice.ofComm]
    · -- the first connection
      rw [if_neg hlost, List.map_nil, List.append_nil]
      refine ⟨.inr (.inr ⟨hstate, fun hlast => hlost (hinv.lost.2 hlast)⟩), hinv.ok⟩

theorem announced_upsIsGone (nocommwarntime : Int32) (now : Int) (ups : Utype) :
    Announced ups ((goneNotices nocommwarntime now ups).map .sent) (upsIsGone nocommwarntime now ups) := by
  refine ⟨fun {sent} hinv => ?_⟩
  unfold goneNotices upsIsGone
  by_cases hlost : ups.commstate = 0
  · have hlast := hinv.lost.1 hlost
    rw [if_neg (not_not.2 hlost), if_neg (not_not.2 hlost)]
    split_ifs
    · exact (Announced.same rfl).inv hinv
    · refine ⟨.inr (.inl ⟨hlost, ?_⟩), hinv.ok.snoc (by simp) (by simp) fun _ => hlast⟩
      rw [commNotices_append]
      simpa [commNotices, Notice.ofComm] using hlast
    · exact (Announced.same rfl).inv hinv
  · rw [if_pos hlost, if_pos hlost]
    have hlast : (commNotices sent).getLast? ≠ some .commbad := fun h => hlost (hinv.lost.2 h)
    refine ⟨.inr (.inl ⟨rfl, ?_⟩), hinv.ok.snoc (fun _ => hlast) (by simp) (by simp)⟩
    simp [commNotices, Notice.ofComm]

/-! ### A poll -/

section

variable (s : State) (now : Int) (ups : Utype)

theorem commstate_ite {c : Prop} [Decidable c] {a ups : Utype} (h : a.commstate = ups.commstate) :
    (if c then a else ups).commstate = ups.commstate := by
  split_ifs
  · exact h
  · rfl

theorem parseStatword_commstate (statword : CStr) : (parseStatword s now ups statword).commstate = ups.commstate := by
  have hline (ups : Utype) : (upsOnLine ups).commstate = ups.commstate := by
    unfold upsOnLine
    split_ifs <;> rfl
  have hbatt (ups : Utype) : (upsOnBatt ups).commstate = ups.commstate := by
    unfold upsOnBatt
    split_ifs <;> rfl
  have hlow (ups : Utype) : (upsLowBatt ups).commstate = ups.commstate := by
    unfold upsLowBatt
    split_ifs <;> rfl
  have hrepl (ups : Utype) : (upsreplbatt s.rbwarntime now ups).commstate = ups.commstate := commstate_ite rfl
  have hfsd (ups : Utype) : (upsFsd ups).commstate = ups.commstate := by
    unfold upsFsd
    split_ifs <;> rfl
  have htimer (ups : Utype) : (updateCrittimer now ups).commstate = ups.commstate := commstate_ite rfl
  unfold parseStatword
  dsimp only
  rw [htimer, commstate_ite (hfsd _), commstate_ite (hrepl _), commstate_ite (hlow _), commstate_ite (hbatt _),
    commstate_ite (hline _)]

theorem silent_statwordNotices (statword : CStr) :
    ∀ event ∈ (statwordNotices s now ups statword).map Event.sent, event.silent = true := by
  have hkinds : ∀ notice ∈ statwordNotices s now ups statword,
      notice ∈ [Notice.online, .onbatt, .lowbatt, .replbatt, .fsd] := by
    have hite {c : Prop} [Decidable c] {l : List Notice} {n : Notice} (hl : ∀ notice ∈ l, notice = n) :
        ∀ notice ∈ (if c then l else []), notice = n := by
      split_ifs
      · exact hl
      · simp
    have hline (ups : Utype) : ∀ notice ∈ onLineNotices ups, notice = .online := by
      unfold onLineNotices
      split_ifs <;> simp
    have hbatt (ups : Utype) : ∀ notice ∈ onBattNotices ups, notice = .onbatt := by
      unfold onBattNotices
      split_ifs <;> simp
    have hlow (ups : Utype) : ∀ notice ∈ lowBattNotices ups, notice = .lowbatt := by
      unfold lowBattNotices
      split_ifs <;> simp
    have hrepl (ups : Utype) : ∀ notice ∈ replbattNotices s.rbwarntime now ups, notice = .replbatt := by
      unfold replbattNotices
      split_ifs <;> simp
    have hfsd (ups : Utype) : ∀ notice ∈ fsdNotices ups, notice = .fsd := by
      unfold fsdNotices
      split_ifs <;> simp
    intro notice hmem
    unfold statwordNotices at hmem
    dsimp only at hmem
    simp only [List.mem_append] at hmem
    rcases hmem with hmem | hmem | hmem | hmem | hmem
    · simp [hite (hline _) notice hmem]
    · simp [hite (hbatt _) notice hmem]
    · simp [hite (hlow _) notice hmem]
    · simp [hite (hrepl _) notice hmem]
    · simp [hite (hfsd _) notice hmem]
  intro event hmem
  obtain ⟨notice, hnotice, rfl⟩ := List.mem_map.1 hmem
  have hkind := hkinds notice hnotice
  simp only [List.mem_cons, List.not_mem_nil, or_false] at hkind
  rcases hkind with rfl | rfl | rfl | rfl | rfl <;> rfl

theorem announced_words (words : List CStr) :
    Announced ups (wordsEvents s now ups words) (words.foldl (parseStatword s now) ups) := by
  have hstate (words : List CStr) (ups : Utype) :
      (words.foldl (parseStatword s now) ups).commstate = ups.commstate := by
    induction words generalizing ups with
    | nil => rfl
    | cons statword words ih => exact (ih _).trans (parseStatword_commstate s now ups statword)
  refine Announced.other (hstate words ups) ?_
  induction words generalizing ups with
  | nil => simp [wordsEvents]
  | cons statword words ih =>
    intro event hmem
    rw [wordsEvents] at hmem
    rcases List.mem_append.1 hmem with hmem | hmem
    · exact silent_statwordNotices s now ups statword event hmem
    · rcases List.mem_cons.1 hmem with rfl | hmem
      · rfl
      · exact ih _ event hmem

theorem announced_parseStatus (status : CStr) :
    Announced ups (parseStatusEvents s now ups status) (parseStatus s now ups status) := by
  rw [parseStatusEvents, parseStatus_eq]
  by_cases hempty : status = []
  · rw [if_pos hempty, if_pos hempty]
    exact announced_upsIsGone ..
  · rw [if_neg hempty, if_neg hempty]
    have hcleared : Announced (upsIsAlive now ups) [] (statusCleared now ups status) := by
      refine .same ?_
      unfold statusCleared clearEarly
      rw [commstate_ite, commstate_ite]
      all_goals rfl
    have halive := (announced_upsIsAlive now ups).append hcleared
    rw [List.append_nil] at halive
    exact halive.append (announced_words ..)

/-- A connection that is dropped with the communication lost. -/
theorem announced_drop {ups : Utype} (h : ups.commstate = 0) : Announced ups [] (dropConnection ups) := .same h.symm

theorem upsIsGone_commstate (nocommwarntime : Int32) : (upsIsGone nocommwarntime now ups).commstate = 0 := by
  unfold upsIsGone
  split_ifs with h
  · rfl
  all_goals exact not_not.1 h

theorem announced_pollConnected (p : Polled) : ∃ ups', Announced ups (pollConnectedEvents s p ups) ups' ∧
    ∀ mid, pollConnected s p ups = some mid → mid = ups' := by
  unfold pollConnectedEvents pollConnected
  rcases hget : getVar ups p.get "status".toList with _ | ⟨ups', _ | status⟩
  · exact ⟨ups, .same rfl, by simp⟩
  · obtain ⟨conn, rfl⟩ := getVar_conn hget
    have hconn : Announced ups [] { ups with conn := conn } := .same rfl
    have hgone := hconn.append (announced_upsIsGone s.nocommwarntime p.now { ups with conn := conn })
    refine ⟨_, ?_, fun mid hmid => (Option.some.inj hmid).symm⟩
    split_ifs
    · have hdrop := hgone.append (announced_drop (upsIsGone_commstate p.now _ s.nocommwarntime))
      rwa [List.append_nil] at hdrop
    · exact hgone
  · obtain ⟨conn, rfl⟩ := getVar_conn hget
    have hconn : Announced ups [] { ups with conn := conn } := .same rfl
    exact ⟨_, hconn.append (announced_parseStatus s p.now _ status), fun mid hmid => (Option.some.inj hmid).symm⟩

theorem doUpsdAuth_commstate (net : AuthNet) : (doUpsdAuth net ups).1.commstate = ups.commstate := by
  have hmaster (net : Net) (ups : Utype) : (checkmaster net ups).1.commstate = ups.commstate := by
    unfold checkmaster
    split_ifs
    · rfl
    · split
      · rfl
      · split_ifs
        · rfl
        · split <;> rfl
  rcases doUpsdAuth_cases net ups with ⟨-, conn, hauth⟩ | ⟨-, conn, hauth⟩
  · rw [hauth]
  · rw [hauth, hmaster]

theorem announced_tryConnect (p : Polled) :
    Announced ups ((tryConnectNotices s p ups).map .sent) (tryConnect s p ups).1 := by
  have hgone (ups' : Utype) (hsame : ups'.commstate = ups.commstate ∧ ups'.lastpoll = ups.lastpoll ∧
      ups'.lastncwarn = ups.lastncwarn) :
      Announced ups ((goneNotices s.nocommwarntime p.now ups).map .sent) (upsIsGone s.nocommwarntime p.now ups') := by
    have hnotices : goneNotices s.nocommwarntime p.now ups = goneNotices s.nocommwarntime p.now ups' := by
      rw [goneNotices, goneNotices, hsame.1, hsame.2.1, hsame.2.2]
    have hstart : Announced ups [] ups' := .same hsame.1
    rw [hnotices]
    exact hstart.append (announced_upsIsGone ..)
  unfold tryConnect tryConnectNotices
  dsimp only
  by_cases hcert : p.nocert = true
  · rw [if_pos hcert, if_pos (.inl hcert)]
    have hdrop := (hgone { ups with status := clearflag ups.status stConnected } ⟨rfl, rfl, rfl⟩).append
      (announced_drop (upsIsGone_commstate p.now _ s.nocommwarntime))
    rwa [List.append_nil] at hdrop
  · rw [if_neg hcert]
    by_cases hok : p.connect.ok = false
    · rw [if_pos hok, if_pos (.inr hok)]
      exact hgone _ ⟨rfl, rfl, rfl⟩
    · rw [if_neg hok, if_neg (not_or.2 ⟨hcert, hok⟩)]
      exact .same (doUpsdAuth_commstate _ p.auth)

theorem announced_pollups (p : Polled) : ∃ ups', Announced ups (pollEvents s p ups) ups' ∧
    ∀ mid, pollups s p ups = some mid → mid = ups' := by
  unfold pollEvents pollups
  by_cases hnew : flagIsset ups.status stConnected = false
  · have htry := announced_tryConnect s ups p
    rw [if_pos hnew, if_pos hnew]
    rcases hres : tryConnect s p ups with ⟨ups', _ | _⟩
    · rw [hres] at htry
      dsimp only
      rw [List.append_nil]
      exact ⟨ups', htry, fun mid hmid => (Option.some.inj hmid).symm⟩
    · rw [hres] at htry
      obtain ⟨ups'', hpoll, hmid⟩ := announced_pollConnected s ups' p
      exact ⟨ups'', htry.append hpoll, hmid⟩
  · rw [if_neg hnew, if_neg hnew]
    exact announced_pollConnected s ups p

end

/-! ### Runs -/

/-- A redefinition that does not drop the connection leaves the state of the communication. -/
theorem redefineUps_commstate {ups : Utype} {un pw master : CStr} (pv : Int32)
    (h : ups.commstate ≠ 0 → ¬DropsConnection ups un pw master) :
    (redefineUps ups pv un pw master).commstate = ups.commstate := by
  by_cases hlost : ups.commstate = 0
  · -- a connection that is dropped stays lost
    have hretry (ups : Utype) (hz : ups.commstate = 0) : (retryConnection ups).commstate = 0 := by
      unfold retryConnection
      split_ifs
      · exact hz
      · rfl
    have hun (ups : Utype) (hz : ups.commstate = 0) : (redefineUn ups un).commstate = 0 := by
      unfold redefineUn
      split_ifs
      · exact hretry _ hz
      · exact hz
    have hpw (ups : Utype) (hz : ups.commstate = 0) : (redefinePw ups pw).commstate = 0 := by
      unfold redefinePw
      split_ifs
      · exact hretry _ hz
      · exact hz
    have hmaster (ups : Utype) (hz : ups.commstate = 0) : (redefineMaster ups master).commstate = 0 := by
      unfold redefineMaster
      split_ifs
      · rfl
      · exact hz
      · exact hz
    rw [hlost]
    exact hmaster _ (hpw _ (hun _ hlost))
  · obtain ⟨hcredentials, hrole⟩ := not_or.1 (h hlost)
    have hkeep (ups' : Utype) (hin : ups'.loggedIn = ups.loggedIn) (hchange : ups.un ≠ un ∨ ups.pw ≠ pw) :
        retryConnection ups' = ups' := by
      have hlogin : ups'.loggedIn = true := by
        rw [hin]
        by_contra hout
        exact hcredentials ⟨by simpa using hout, hchange⟩
      exact if_pos hlogin
    have hun : redefineUn { ups with retain := true, pv := pv } un = { ups with retain := true, pv := pv, un := un } := by
      unfold redefineUn
      split_ifs with hne
      · exact hkeep _ rfl (.inl hne)
      · rw [← not_not.1 hne]
    have hpw : redefinePw { ups with retain := true, pv := pv, un := un } pw =
        { ups with retain := true, pv := pv, un := un, pw := pw } := by
      unfold redefinePw
      split_ifs with hne
      · exact hkeep _ rfl (.inr hne)
      · rw [← not_not.1 hne]
    rw [redefineUps, hun, hpw, redefineMaster, if_neg hrole]
    split_ifs
    · rfl
    · rfl

theorem commInv_kept : Kept sentSince keepsConnection CommInv where
  added _ _ _ _ _ _ := ⟨.inl ⟨rfl, rfl⟩, ⟨.nil, by simp [sentSince, commNotices], by simp [sentSince]⟩⟩
  marked h := ⟨h.state, h.ok⟩
  redefined pv h hline := ⟨by rw [redefineUps_commstate pv hline]; exact h.state, h.ok⟩
  polled {ups h t p} hinv _ := by
    obtain ⟨ups', hannounced, hmid⟩ := announced_pollups t ups p
    exact ⟨ups', hannounced.inv hinv, hmid⟩
  checked {ups h u now} hinv _ := by
    have hsame : (promoteDead u now ups).commstate = ups.commstate := commstate_ite rfl
    exact ⟨by rw [hsame]; exact hinv.state, hinv.ok⟩

/-- In every run in which no reload drops the connection of the UPS while the communication is not lost, `COMMBAD` and
`COMMOK` alternate among what is sent for it since it was added, `COMMBAD` first, and `NOCOMM` is sent only when `COMMBAD`
was the last of the two or none was sent. -/
theorem comm_notices_alternate {lines : List (List CStr)} {s0 : State} (hstart : start lines = some s0) {sys : CStr}
    {passes : List Pass} (hkeep : keepsConnection.run sentSince sys s0 passes []) :
    CommOk (sentSince.run sys s0 passes []) := by
  rcases commInv_kept.start hstart hkeep with ⟨ups, hinv⟩ | hnone
  · exact hinv.ok
  · exact hnone ▸ ⟨.nil, by simp [sentSince, commNotices], by simp [sentSince]⟩

instance (ups : Utype) (un pw master : CStr) : Decidable (DropsConnection ups un pw master) :=
  inferInstanceAs (Decidable (_ ∧ _ ∨ _ ∧ _))

instance (ups : Utype) (un pw master : CStr) : Decidable (keepsConnection.line ups un pw master) :=
  inferInstanceAs (Decidable (_ → ¬_))

instance (sent : List Event) (s : State) (p : Polled) (ups : Utype) : Decidable (keepsConnection.polled sent s p ups) :=
  inferInstanceAs (Decidable True)

instance (sent : List Event) (s : State) (now : Int) (ups : Utype) : Decidable (keepsConnection.checked sent s now ups) :=
  inferInstanceAs (Decidable True)

/-- A pass in which the server has no data from the UPS. -/
private def stalePass : Pass where
  reload := none
  poll sys := { (statusPass "OL".toList).poll sys with get := answers "ERR DATA-STALE".toList }
  now := 5

/-- A pass with a reload that makes the UPS one that the host is the master of. -/
private def masterPass : Pass :=
  { statusPass "OL".toList with
    reload := some (some [["MONITOR".toList, "su@localhost".toList, "1".toList, "upsmon".toList, "pass".toList,
      "master".toList]]) }

/-- The server loses the driver for a pass. -/
theorem comm_notices_stale : ∃ s0, start [monitorLine] = some s0 ∧
    commNotices (sentSince.run "su@localhost".toList s0
      [statusPass "OL".toList, stalePass, statusPass "OL".toList] []) = [.commbad, .commok] ∧
    CommOk (sentSince.run "su@localhost".toList s0 [statusPass "OL".toList, stalePass, statusPass "OL".toList] []) := by
  have hrun : ∃ s0 ∈ start [monitorLine], commNotices (sentSince.run "su@localhost".toList s0
      [statusPass "OL".toList, stalePass, statusPass "OL".toList] []) = [.commbad, .commok] ∧
      keepsConnection.run sentSince "su@localhost".toList s0
        [statusPass "OL".toList, stalePass, statusPass "OL".toList] [] := by decide +kernel
  obtain ⟨s0, hstart, hsent, hkeep⟩ := hrun
  exact ⟨s0, hstart, hsent, comm_notices_alternate hstart hkeep⟩

/-- The reload drops the connection, and `COMMOK` follows without `COMMBAD`. -/
theorem comm_notices_reloaded : ¬∀ lines s0 sys passes, start lines = some s0 → CommOk (sentSince.run sys s0 passes []) := by
  intro h
  have hrun : ((start [monitorLine]).map fun s0 => commNotices (sentSince.run "su@localhost".toList s0
      [statusPass "OL".toList, masterPass] [])) = some [.commok] := by decide +kernel
  obtain ⟨s0, hstart, hsent⟩ := Option.map_eq_some_iff.1 hrun
  have hok := h [monitorLine] s0 "su@localhost".toList [statusPass "OL".toList, masterPass] hstart
  have hfirst := hok.first
  rw [hsent] at hfirst
  exact absurd (hfirst .commok rfl) (by decide)

end Nut.Upsmon
