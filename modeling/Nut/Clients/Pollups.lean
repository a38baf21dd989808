import Nut.Clients.Upsmon
import Nut.Common.State
import Mathlib.Data.List.Induction
import Mathlib.Data.List.Infix

/-!
# Polling and logging in

A pass of the main loop of `upsmon` polls every UPS, after it has connected to the server and logged in there if it was not
connected.  `try_connect` keeps a connection on which that fails, so the UPS is polled from then on without being counted
as a login: this is what a connected UPS that is not logged in comes from, and nothing else (`connected_login`).

The clock stands still while one UPS is polled.  There is no result where the program ends, in a forced shutdown or when
the configuration is refused.
-/

namespace Nut.Upsmon

/-! ### Logging in -/

/-- What the network does with the four commands. -/
structure AuthNet where
  username : Net
  password : Net
  login : Net
  master : Net

/-- Send a command and read the line that answers it. -/
def exchange (conn : Upsconn) (net : Net) (buf : CStr) : Upsconn × Option CStr :=
  match upscliSendline conn net.wrote (snprintf smallbuf buf) with
  | (conn, none) => (conn, none)
  | (conn, some _) =>
    match upscliReadline conn net.reads smallbuf with
    | (conn, _, buf) => (conn, buf)

def checkmaster (net : Net) (ups : Utype) : Utype × Bool :=
  if flagIsset ups.status stMaster = false then (ups, true)
  else
    match ups.upsname with
    | none => (ups, false)
    | some upsname =>
      if upsname = [] then (ups, false)
      else
        match exchange ups.conn net ("MASTER ".toList ++ upsname ++ "\n".toList) with
        | (conn, none) => ({ ups with conn := conn }, false)
        | (conn, some buf) => ({ ups with conn := conn }, "OK".toList <+: buf)

/-- The result says whether everything went well, `MASTER` included. -/
def doUpsdAuth (net : AuthNet) (ups : Utype) : Utype × Bool :=
  match exchange ups.conn net.username ("USERNAME ".toList ++ ups.un ++ "\n".toList) with
  | (conn, none) => ({ ups with conn := conn }, false)
  | (conn, some _) =>
    match exchange conn net.password ("PASSWORD ".toList ++ ups.pw ++ "\n".toList) with
    | (conn, none) => ({ ups with conn := conn }, false)
    | (conn, some buf) =>
      if ¬"OK".toList <+: buf then ({ ups with conn := conn }, false)
      else
        match ups.upsname with
        | none => ({ ups with conn := conn }, false)
        | some upsname =>
          if upsname = [] then ({ ups with conn := conn }, false)
          else
            match exchange conn net.login ("LOGIN ".toList ++ upsname ++ "\n".toList) with
            | (conn, none) => ({ ups with conn := conn }, false)
            | (conn, some buf) =>
              if ¬"OK".toList <+: buf then ({ ups with conn := conn }, false)
              else checkmaster net.master { ups with conn := conn, status := setflag ups.status stLogin }

/-! ### The state of a UPS -/

def upsIsAlive (now : Int) (ups : Utype) : Utype :=
  let ups := { ups with lastpoll := now }
  if ups.commstate = 1 then ups else { ups with commstate := 1 }

def upsIsGone (nocommwarntime : Int32) (now : Int) (ups : Utype) : Utype :=
  if ups.commstate ≠ 0 then { ups with commstate := 0 }
  else if now - ups.lastpoll < nocommwarntime.toInt then ups
  else if nocommwarntime.toInt < now - ups.lastncwarn then { ups with lastncwarn := now }
  else ups

def upsOnBatt (ups : Utype) : Utype :=
  if flagIsset ups.status stOnbatt then ups
  else { ups with linestate := 0, status := clearflag (setflag ups.status stOnbatt) stOnline }

def upsOnLine (ups : Utype) : Utype :=
  if flagIsset ups.status stOnline then ups
  else { ups with linestate := 1, status := clearflag (setflag ups.status stOnline) stOnbatt }

def upsLowBatt (ups : Utype) : Utype :=
  if flagIsset ups.status stLowbatt then ups else { ups with status := setflag ups.status stLowbatt }

def upsreplbatt (rbwarntime : Int32) (now : Int) (ups : Utype) : Utype :=
  if rbwarntime.toInt < now - ups.lastrbwarn then { ups with lastrbwarn := now } else ups

def upsFsd (ups : Utype) : Utype :=
  if flagIsset ups.status stFsd then ups else { ups with status := setflag ups.status stFsd }

def updateCrittimer (now : Int) (ups : Utype) : Utype :=
  if flagIsset ups.status stOnbatt = false ∨ flagIsset ups.status stLowbatt = false then { ups with lastnoncrit := now }
  else ups

/-- One word of the status. -/
def parseStatword (s : State) (now : Int) (ups : Utype) (statword : CStr) : Utype :=
  let ups := if strcasecmp statword "OL".toList = .eq then upsOnLine ups else ups
  let ups := if strcasecmp statword "OB".toList = .eq then upsOnBatt ups else ups
  let ups := if strcasecmp statword "LB".toList = .eq then upsLowBatt ups else ups
  let ups := if strcasecmp statword "RB".toList = .eq then upsreplbatt s.rbwarntime now ups else ups
  let ups := if strcasecmp statword "FSD".toList = .eq then upsFsd ups else ups
  updateCrittimer now ups

def parseStatus (s : State) (now : Int) (ups : Utype) (status : CStr) : Utype :=
  if status = [] then upsIsGone s.nocommwarntime now ups
  else
    let ups := upsIsAlive now ups
    let ups := if ¬"LB".toList <:+: status then { ups with status := clearflag ups.status stLowbatt } else ups
    let ups := if ¬"FSD".toList <:+: status then { ups with status := clearflag ups.status stFsd } else ups
    (status.splitOn ' ').foldl (parseStatword s now) ups

/-! ### A pass -/

/-- What `upscli_connect` leaves: a connection, or none. -/
structure Connected where
  ok : Bool
  upserror : UpscliErr
  readbuf : CStr

/-- What a poll of one UPS meets: whether `CERTVERIFY` is set without `CERTPATH`, the network, and the clock. -/
structure Polled where
  nocert : Bool
  connect : Connected
  auth : AuthNet
  get : Net
  now : Int

def Connected.conn (c : Connected) : Upsconn where
  fd := c.ok
  upserror := c.upserror
  pcCtx := pconfInit
  readbuf := c.readbuf

def tryConnect (s : State) (p : Polled) (ups : Utype) : Utype × Bool :=
  let ups := { ups with status := clearflag ups.status stConnected }
  if p.nocert then (dropConnection (upsIsGone s.nocommwarntime p.now ups), false)
  else
    let ups := { ups with conn := p.connect.conn }
    if p.connect.ok = false then (upsIsGone s.nocommwarntime p.now ups, false)
    else doUpsdAuth p.auth { ups with status := setflag ups.status stConnected }

/-- The poll of a UPS that is connected. -/
def pollConnected (s : State) (p : Polled) (ups : Utype) : Option Utype :=
  match getVar ups p.get "status".toList with
  | none => none
  | some (ups, some status) => some (parseStatus s p.now ups status)
  | some (ups, none) =>
    let ups := upsIsGone s.nocommwarntime p.now ups
    some (if ups.conn.fd = false then dropConnection ups else ups)

def pollups (s : State) (p : Polled) (ups : Utype) : Option Utype :=
  if flagIsset ups.status stConnected = false then
    match tryConnect s p ups with
    | (ups, false) => some ups
    | (ups, true) => pollConnected s p ups
  else pollConnected s p ups

def isUpsCritical (s : State) (now : Int) (ups : Utype) : Bool :=
  if flagIsset ups.status stFsd then true
  else if flagIsset ups.status stOnbatt = false ∨ flagIsset ups.status stLowbatt = false then false
  else if flagIsset ups.status stMaster then true
  else s.hostsync.toInt < now - ups.lastnoncrit

/-- A UPS that is dead counts as one with a low battery when it was on battery. -/
def promoteDead (s : State) (now : Int) (ups : Utype) : Utype :=
  if s.deadtime.toInt < now - ups.lastpoll ∧ flagIsset ups.status stOnbatt = true then
    { ups with status := setflag ups.status stLowbatt }
  else ups

/-- Without a result when a shutdown is forced. -/
def recalc (s : State) (now : Int) : Option State :=
  let upses := s.firstups.map (promoteDead s now)
  let valOl := upses.foldl (fun valOl ups => if isUpsCritical s now ups then valOl else valOl + ups.pv) 0
  if valOl < s.minsupplies then none else some { s with firstups := upses }

/-- What a pass meets: the file of a reload that was asked for, each poll, and the clock in `recalc`. -/
structure Pass where
  reload : Option (Option (List (List CStr)))
  poll : CStr → Polled
  now : Int

/-- The configuration with which the UPSes are polled in the pass. -/
def reloaded (s : State) (p : Pass) : Option State :=
  match p.reload with
  | none => some s
  | some file => reloadConf s file

def pollAll (s : State) (poll : CStr → Polled) : Option State :=
  (s.firstups.mapM fun ups => pollups s (poll ups.sys) ups).map fun upses => { s with firstups := upses }

def mainPass (s : State) (p : Pass) : Option State := do
  let s ← reloaded s p
  let s ← pollAll s p.poll
  recalc s p.now

def State.run (s : State) (passes : List Pass) : Option State := passes.foldlM mainPass s

/-! ### Connected and logged in -/

def Utype.connected (ups : Utype) : Bool := flagIsset ups.status stConnected

def Utype.loggedIn (ups : Utype) : Bool := flagIsset ups.status stLogin

/-- The server answers `USERNAME` with any line, and `PASSWORD` and `LOGIN` with `OK`. -/
def LoginAccepted (net : AuthNet) (ups : Utype) : Prop :=
  ∃ conn line conn' line' upsname conn'' line'',
    exchange ups.conn net.username ("USERNAME ".toList ++ ups.un ++ "\n".toList) = (conn, some line) ∧
    exchange conn net.password ("PASSWORD ".toList ++ ups.pw ++ "\n".toList) = (conn', some line') ∧
    "OK".toList <+: line' ∧ ups.upsname = some upsname ∧ upsname ≠ [] ∧
    exchange conn' net.login ("LOGIN ".toList ++ upsname ++ "\n".toList) = (conn'', some line'') ∧ "OK".toList <+: line''

/-- In the last of the passes the UPS was connected and its login was not accepted, or that was so earlier and it has
been connected since without a login. -/
inductive NotAccepted (s0 : State) (sys : CStr) : List Pass → Prop
  | now {passes : List Pass} {p : Pass} {s t : State} {ups : Utype} (hrun : s0.run passes = some s)
      (hreload : reloaded s p = some t) (hups : ups ∈ t.firstups) (hsys : ups.sys = sys) (hnew : ups.connected = false)
      (hconnect : (p.poll sys).connect.ok = true)
      (hrefused : ¬LoginAccepted (p.poll sys).auth { ups with conn := (p.poll sys).connect.conn }) :
      NotAccepted s0 sys (passes ++ [p])
  | since {passes : List Pass} {p : Pass} {s : State} {ups : Utype} (h : NotAccepted s0 sys passes)
      (hrun : s0.run (passes ++ [p]) = some s) (hups : ups ∈ s.firstups) (hsys : ups.sys = sys)
      (hconnected : ups.connected = true) (hlogin : ups.loggedIn = false) : NotAccepted s0 sys (passes ++ [p])

/-- The same UPS, with the same connection and login. -/
structure SameLink (ups ups' : Utype) : Prop where
  sys : ups'.sys = ups.sys
  connected : ups'.connected = ups.connected
  loggedIn : ups'.loggedIn = ups.loggedIn

namespace SameLink

variable {ups ups' ups'' : Utype}

theorem refl (ups : Utype) : SameLink ups ups := ⟨rfl, rfl, rfl⟩

theorem trans (h : SameLink ups ups') (h' : SameLink ups' ups'') : SameLink ups ups'' :=
  ⟨h'.sys.trans h.sys, h'.connected.trans h.connected, h'.loggedIn.trans h.loggedIn⟩

theorem of_status (hsys : ups'.sys = ups.sys) (hstatus : ups'.status = ups.status) : SameLink ups ups' :=
  ⟨hsys, by rw [Utype.connected, hstatus, Utype.connected], by rw [Utype.loggedIn, hstatus, Utype.loggedIn]⟩

/-- Setting another flag. -/
theorem setflag {j : Nat} (hj : j < 5) (hsys : ups'.sys = ups.sys)
    (hstatus : ups'.status = Upsmon.setflag ups.status (BitVec.twoPow 32 j)) : SameLink ups ups' := by
  refine ⟨hsys, ?_, ?_⟩
  · have hne : ¬6 = j := by omega
    rw [Utype.connected, hstatus, stConnected, flagIsset_setflag _ (by omega)]
    simp [hne, Utype.connected, stConnected]
  · have hne : ¬5 = j := by omega
    rw [Utype.loggedIn, hstatus, stLogin, flagIsset_setflag _ (by omega)]
    simp [hne, Utype.loggedIn, stLogin]

theorem clearflag {j : Nat} (hj : j < 5) (hsys : ups'.sys = ups.sys)
    (hstatus : ups'.status = Upsmon.clearflag ups.status (BitVec.twoPow 32 j)) : SameLink ups ups' := by
  refine ⟨hsys, ?_, ?_⟩
  · have hne : 6 ≠ j := by omega
    rw [Utype.connected, hstatus, stConnected, flagIsset_clearflag _ (by omega)]
    simp [hne, Utype.connected, stConnected]
  · have hne : 5 ≠ j := by omega
    rw [Utype.loggedIn, hstatus, stLogin, flagIsset_clearflag _ (by omega)]
    simp [hne, Utype.loggedIn, stLogin]

theorem ite {c : Prop} [Decidable c] {a b : Utype} (ha : SameLink ups a) (hb : SameLink ups b) :
    SameLink ups (if c then a else b) := by
  split
  · exact ha
  · exact hb

end SameLink

section

variable (s : State) (now : Int) (ups : Utype)

private theorem sameLink_upsIsAlive : SameLink ups (upsIsAlive now ups) :=
  .ite (.of_status rfl rfl) (.of_status rfl rfl)

private theorem sameLink_upsIsGone (nocommwarntime : Int32) : SameLink ups (upsIsGone nocommwarntime now ups) :=
  .ite (.of_status rfl rfl) (.ite (.refl ups) (.ite (.of_status rfl rfl) (.refl ups)))

private theorem sameLink_upsOnBatt : SameLink ups (upsOnBatt ups) := by
  have hset : SameLink ups { ups with status := setflag ups.status stOnbatt } := .setflag (by omega : 1 < 5) rfl rfl
  exact .ite (.refl ups) (hset.trans (.clearflag (by omega : 0 < 5) rfl rfl))

private theorem sameLink_upsOnLine : SameLink ups (upsOnLine ups) := by
  have hset : SameLink ups { ups with status := setflag ups.status stOnline } := .setflag (by omega : 0 < 5) rfl rfl
  exact .ite (.refl ups) (hset.trans (.clearflag (by omega : 1 < 5) rfl rfl))

private theorem sameLink_upsLowBatt : SameLink ups (upsLowBatt ups) :=
  .ite (.refl ups) (.setflag (by omega : 2 < 5) rfl rfl)

private theorem sameLink_upsreplbatt (rbwarntime : Int32) : SameLink ups (upsreplbatt rbwarntime now ups) :=
  .ite (.of_status rfl rfl) (.refl ups)

private theorem sameLink_upsFsd : SameLink ups (upsFsd ups) := .ite (.refl ups) (.setflag (by omega : 3 < 5) rfl rfl)

private theorem sameLink_updateCrittimer : SameLink ups (updateCrittimer now ups) :=
  .ite (.of_status rfl rfl) (.refl ups)

private theorem sameLink_parseStatword (statword : CStr) : SameLink ups (parseStatword s now ups statword) := by
  unfold parseStatword
  refine SameLink.trans ?_ (sameLink_updateCrittimer now _)
  refine SameLink.trans ?_ (.ite (sameLink_upsFsd _) (.refl _))
  refine SameLink.trans ?_ (.ite (sameLink_upsreplbatt now _ s.rbwarntime) (.refl _))
  refine SameLink.trans ?_ (.ite (sameLink_upsLowBatt _) (.refl _))
  refine SameLink.trans ?_ (.ite (sameLink_upsOnBatt _) (.refl _))
  exact .ite (sameLink_upsOnLine ups) (.refl ups)

private theorem sameLink_parseStatus (status : CStr) : SameLink ups (parseStatus s now ups status) := by
  have hwords (words : List CStr) (ups : Utype) : SameLink ups (words.foldl (parseStatword s now) ups) := by
    induction words generalizing ups with
    | nil => exact .refl ups
    | cons word words ih => exact (sameLink_parseStatword s now ups word).trans (ih _)
  have hgone (u : Utype) (word : CStr) {j : Nat} (hj : j < 5) : SameLink u
      (if ¬word <:+: status then { u with status := clearflag u.status (BitVec.twoPow 32 j) } else u) :=
    .ite (.clearflag hj rfl rfl) (.refl u)
  unfold parseStatus
  refine .ite (sameLink_upsIsGone now ups s.nocommwarntime) ?_
  have halive := sameLink_upsIsAlive now ups
  exact ((halive.trans (hgone _ _ (by omega : 2 < 5))).trans (hgone _ _ (by omega : 3 < 5))).trans (hwords _ _)

private theorem sameLink_promoteDead : SameLink ups (promoteDead s now ups) :=
  .ite (.setflag (by omega : 2 < 5) rfl rfl) (.refl ups)

end

/-! ### One poll -/

private theorem dropConnection_link (ups : Utype) : (dropConnection ups).sys = ups.sys ∧
    (dropConnection ups).connected = false ∧ (dropConnection ups).loggedIn = false := by
  refine ⟨rfl, ?_, ?_⟩
  · simp [Utype.connected, dropConnection, stConnected, flagIsset_clearflag]
  · simp [Utype.loggedIn, dropConnection, stLogin, stConnected, flagIsset_clearflag]

/-- What became of a UPS: its link is as it was, or it is connected and logged in no more. -/
def KeptOrDropped (ups ups' : Utype) : Prop :=
  SameLink ups ups' ∨ ups'.sys = ups.sys ∧ ups'.connected = false ∧ ups'.loggedIn = false

/-- A query changes the connection only. -/
theorem getVar_conn {ups ups' : Utype} {net : Net} {var : CStr} {answer : Option CStr}
    (h : getVar ups net var = some (ups', answer)) : ∃ conn, ups' = { ups with conn := conn } := by
  unfold getVar at h
  split at h
  · exact ⟨ups.conn, (Prod.mk.inj (Option.some.inj h)).1.symm⟩
  · dsimp only at h
    generalize (if var = "numlogins".toList then _ else _ : List CStr) = query at h
    split at h
    · exact ⟨ups.conn, (Prod.mk.inj (Option.some.inj h)).1.symm⟩
    · split at h
      · simp at h
      · exact ⟨_, (Prod.mk.inj (Option.some.inj h)).1.symm⟩
      · split at h
        · exact ⟨_, (Prod.mk.inj (Option.some.inj h)).1.symm⟩
        · obtain ⟨word, -, hword⟩ := Option.map_eq_some_iff.1 h
          exact ⟨_, (Prod.mk.inj hword).1.symm⟩

private theorem sameLink_getVar {ups ups' : Utype} {net : Net} {var : CStr} {answer : Option CStr}
    (h : getVar ups net var = some (ups', answer)) : SameLink ups ups' := by
  obtain ⟨conn, rfl⟩ := getVar_conn h
  exact .of_status rfl rfl

private theorem keptOrDropped_pollConnected {s : State} {p : Polled} {ups ups' : Utype}
    (h : pollConnected s p ups = some ups') : KeptOrDropped ups ups' := by
  unfold pollConnected at h
  split at h
  · simp at h
  · rename_i mid status hget
    obtain rfl := Option.some.inj h
    exact .inl ((sameLink_getVar hget).trans (sameLink_parseStatus ..))
  · rename_i mid hget
    obtain rfl := Option.some.inj h
    have hlink := (sameLink_getVar hget).trans (sameLink_upsIsGone p.now mid s.nocommwarntime)
    split_ifs
    · obtain ⟨hsys, hconnected, hlogin⟩ := dropConnection_link (upsIsGone s.nocommwarntime p.now mid)
      exact .inr ⟨hsys.trans hlink.sys, hconnected, hlogin⟩
    · exact .inl hlink

private theorem sameLink_checkmaster (net : Net) (ups : Utype) : SameLink ups (checkmaster net ups).1 := by
  unfold checkmaster
  split_ifs
  · exact .refl ups
  · split
    · exact .refl ups
    · split_ifs
      · exact .refl ups
      · split
        · exact .of_status rfl rfl
        · exact .of_status rfl rfl

/-- The UPS is logged in when the server has accepted that, and otherwise nothing becomes of it. -/
theorem doUpsdAuth_cases (net : AuthNet) (ups : Utype) :
    (¬LoginAccepted net ups ∧ ∃ conn, doUpsdAuth net ups = ({ ups with conn := conn }, false)) ∨
      (LoginAccepted net ups ∧ ∃ conn,
        doUpsdAuth net ups = checkmaster net.master { ups with conn := conn, status := setflag ups.status stLogin }) := by
  unfold doUpsdAuth
  rcases h1 : exchange ups.conn net.username ("USERNAME ".toList ++ ups.un ++ "\n".toList) with ⟨conn, _ | line⟩
  · refine .inl ⟨?_, conn, rfl⟩
    rintro ⟨_, _, _, _, _, _, _, h, -⟩
    rw [h1] at h
    simp at h
  rcases h2 : exchange conn net.password ("PASSWORD ".toList ++ ups.pw ++ "\n".toList) with ⟨conn', _ | line'⟩
  · refine .inl ⟨?_, conn', by simp only [h2]⟩
    rintro ⟨_, _, _, _, _, _, _, h, h', -⟩
    rw [h1] at h
    obtain ⟨rfl, -⟩ := Prod.mk.inj h
    rw [h2] at h'
    simp at h'
  have haccepted : LoginAccepted net ups → "OK".toList <+: line' ∧ ∃ upsname, ups.upsname = some upsname ∧ upsname ≠ [] ∧
      ∃ conn'' line'', exchange conn' net.login ("LOGIN ".toList ++ upsname ++ "\n".toList) = (conn'', some line'') ∧
        "OK".toList <+: line'' := by
    rintro ⟨_, _, _, _, upsname, conn'', line'', h, h', hok, hname, hne, hlogin, hok'⟩
    rw [h1] at h
    obtain ⟨rfl, -⟩ := Prod.mk.inj h
    rw [h2] at h'
    obtain ⟨rfl, hline⟩ := Prod.mk.inj h'
    obtain rfl := Option.some.inj hline
    exact ⟨hok, upsname, hname, hne, conn'', line'', hlogin, hok'⟩
  by_cases hok : "OK".toList <+: line'
  · rcases hname : ups.upsname with _ | upsname
    · refine .inl ⟨fun h => ?_, conn', by simp only [h2, hok, not_true, if_false]⟩
      obtain ⟨-, upsname, hname', -⟩ := haccepted h
      rw [hname] at hname'
      contradiction
    by_cases hempty : upsname = []
    · refine .inl ⟨fun h => ?_, conn', by simp only [h2, hok, hempty, not_true, if_false, if_true]⟩
      obtain ⟨-, upsname', hname', hne, -⟩ := haccepted h
      rw [hname] at hname'
      exact hne (Option.some.inj hname' ▸ hempty)
    rcases h3 : exchange conn' net.login ("LOGIN ".toList ++ upsname ++ "\n".toList) with ⟨conn'', _ | line''⟩
    · refine .inl ⟨fun h => ?_, conn'', by simp only [h2, hok, hempty, h3, not_true, if_false]⟩
      obtain ⟨-, upsname', hname', -, _, _, hlogin, -⟩ := haccepted h
      rw [hname] at hname'
      obtain rfl := Option.some.inj hname'
      rw [h3] at hlogin
      simp at hlogin
    by_cases hok' : "OK".toList <+: line''
    · exact .inr ⟨⟨conn, line, conn', line', upsname, conn'', line'', h1, h2, hok, hname, hempty, h3, hok'⟩, conn'',
        by simp only [h2, hok, hempty, h3, hok', not_true, if_false]⟩
    · refine .inl ⟨fun h => ?_, conn'', by simp only [h2, hok, hempty, h3, hok', not_true, not_false_eq_true, if_false, if_true]⟩
      obtain ⟨-, upsname', hname', -, _, _, hlogin, hok''⟩ := haccepted h
      rw [hname] at hname'
      obtain rfl := Option.some.inj hname'
      rw [h3] at hlogin
      obtain ⟨-, hline⟩ := Prod.mk.inj hlogin
      exact hok' (Option.some.inj hline ▸ hok'')
  · exact .inl ⟨fun h => hok (haccepted h).1, conn', by simp only [h2, hok, not_false_eq_true, if_true]⟩

/-- After a poll a UPS is what it was, or not connected, or it was connected in the poll, and logged in if that was
accepted. -/
theorem pollups_link {s : State} {p : Polled} {ups ups' : Utype} (hlogin : ups.loggedIn = true → ups.connected = true)
    (h : pollups s p ups = some ups') : KeptOrDropped ups ups' ∨
      ups.connected = false ∧ p.connect.ok = true ∧ ups'.sys = ups.sys ∧ ups'.connected = true ∧
        (ups'.loggedIn = true ∨ ¬LoginAccepted p.auth { ups with conn := p.connect.conn }) := by
  unfold pollups at h
  split_ifs at h with hnew
  · have hfalse : ups.connected = false := hnew
    have hout : ups.loggedIn = false := by
      by_contra hin
      rw [hlogin (by simpa using hin)] at hfalse
      contradiction
    have hclear : SameLink ups { ups with status := clearflag ups.status stConnected } := by
      refine ⟨rfl, ?_, ?_⟩
      · rw [hfalse]
        simp [Utype.connected, stConnected, flagIsset_clearflag]
      · simp [Utype.loggedIn, stLogin, stConnected, flagIsset_clearflag]
    unfold tryConnect at h
    dsimp only at h
    split_ifs at h with hcert hfail
    · obtain rfl := Option.some.inj h
      obtain ⟨hsys, hconnected, hlogin'⟩ := dropConnection_link
        (upsIsGone s.nocommwarntime p.now { ups with status := clearflag ups.status stConnected })
      have hgone := sameLink_upsIsGone p.now { ups with status := clearflag ups.status stConnected } s.nocommwarntime
      exact .inl (.inr ⟨hsys.trans hgone.sys, hconnected, hlogin'⟩)
    · obtain rfl := Option.some.inj h
      refine .inl (.inl (hclear.trans (SameLink.trans ?_ (sameLink_upsIsGone p.now _ s.nocommwarntime))))
      exact .of_status rfl rfl
    · have hok : p.connect.ok = true := by simpa using hfail
      have hstay {mid : Utype} (hsys : mid.sys = ups.sys) (hmid : mid.connected = true)
          (hin : mid.loggedIn = true ∨ ¬LoginAccepted p.auth { ups with conn := p.connect.conn })
          (hpoll : pollConnected s p mid = some ups') : KeptOrDropped ups ups' ∨
            ups.connected = false ∧ p.connect.ok = true ∧ ups'.sys = ups.sys ∧ ups'.connected = true ∧
              (ups'.loggedIn = true ∨ ¬LoginAccepted p.auth { ups with conn := p.connect.conn }) := by
        rcases keptOrDropped_pollConnected hpoll with hsame | ⟨hsys', hdown, hout'⟩
        · refine .inr ⟨hfalse, hok, hsame.sys.trans hsys, hsame.connected.trans hmid, hin.imp_left fun hin => ?_⟩
          exact hsame.loggedIn.trans hin
        · exact .inl (.inr ⟨hsys'.trans hsys, hdown, hout'⟩)
      have hup (status : BitVec 32) : flagIsset (setflag status stConnected) stConnected = true := by
        simp [stConnected, flagIsset_setflag]
      generalize hauth : doUpsdAuth p.auth _ = r at h
      have hcases := doUpsdAuth_cases p.auth
        { ups with conn := p.connect.conn, status := setflag (clearflag ups.status stConnected) stConnected }
      rcases hcases with ⟨hno, conn, hres⟩ | ⟨-, conn, hres⟩
      · rw [hres] at hauth
        subst hauth
        obtain rfl := Option.some.inj h
        exact .inr ⟨hfalse, hok, rfl, hup _, .inr hno⟩
      · rw [hres] at hauth
        have hmaster := sameLink_checkmaster p.auth.master
          { ups with conn := conn, status := setflag (setflag (clearflag ups.status stConnected) stConnected) stLogin }
        rw [hauth] at hmaster
        have hmid : r.1.connected = true := hmaster.connected.trans (by
          simp [Utype.connected, stConnected, stLogin, flagIsset_setflag])
        have hin : r.1.loggedIn = true := hmaster.loggedIn.trans (by simp [Utype.loggedIn, stLogin, flagIsset_setflag])
        obtain ⟨mid, ok⟩ := r
        cases ok with
        | false =>
          obtain rfl := Option.some.inj h
          exact .inr ⟨hfalse, hok, hmaster.sys, hmid, .inl hin⟩
        | true => exact hstay hmaster.sys hmid (.inl hin) h
  · exact .inl (keptOrDropped_pollConnected h)

/-! ### A reload -/

namespace KeptOrDropped

variable {ups ups' ups'' : Utype}

theorem refl (ups : Utype) : KeptOrDropped ups ups := .inl (.refl ups)

theorem trans (h : KeptOrDropped ups ups') (h' : KeptOrDropped ups' ups'') : KeptOrDropped ups ups'' := by
  rcases h' with h' | ⟨hsys', hdown, hout⟩
  · rcases h with h | ⟨hsys, hdown, hout⟩
    · exact .inl (h.trans h')
    · exact .inr ⟨h'.sys.trans hsys, h'.connected.trans hdown, h'.loggedIn.trans hout⟩
  · refine .inr ⟨hsys'.trans ?_, hdown, hout⟩
    rcases h with h | ⟨hsys, -⟩
    · exact h.sys
    · exact hsys

theorem drop (ups : Utype) : KeptOrDropped ups (dropConnection ups) := .inr (dropConnection_link ups)

end KeptOrDropped

private theorem keptOrDropped_retryConnection (ups : Utype) : KeptOrDropped ups (retryConnection ups) := by
  unfold retryConnection
  split
  · exact .refl ups
  · exact .drop ups

private theorem keptOrDropped_redefineUps (ups : Utype) (pv : Int32) (un pw master : CStr) :
    KeptOrDropped ups (redefineUps ups pv un pw master) := by
  have hun (ups : Utype) : KeptOrDropped ups (redefineUn ups un) := by
    unfold redefineUn
    split
    · have hset : KeptOrDropped ups { ups with un := un } := .inl (.of_status rfl rfl)
      exact hset.trans (keptOrDropped_retryConnection _)
    · exact .refl ups
  have hpw (ups : Utype) : KeptOrDropped ups (redefinePw ups pw) := by
    unfold redefinePw
    split
    · have hset : KeptOrDropped ups { ups with pw := pw } := .inl (.of_status rfl rfl)
      exact hset.trans (keptOrDropped_retryConnection _)
    · exact .refl ups
  have hmaster (ups : Utype) : KeptOrDropped ups (redefineMaster ups master) := by
    unfold redefineMaster
    split
    · have hset : KeptOrDropped ups { ups with status := setflag ups.status stMaster } :=
        .inl (.setflag (by omega : 4 < 5) rfl rfl)
      exact hset.trans (.drop _)
    · split
      · exact .inl (.clearflag (by omega : 4 < 5) rfl rfl)
      · exact .refl ups
  have hretain : KeptOrDropped ups { ups with retain := true, pv := pv } := .inl (.of_status rfl rfl)
  exact hretain.trans (((hun _).trans (hpw _)).trans (hmaster _))

/-- Where a UPS comes from: it was there, or it is new and not connected. -/
def ComesFrom (upses : List Utype) (ups' : Utype) : Prop :=
  (∃ ups ∈ upses, KeptOrDropped ups ups') ∨ ups'.connected = false ∧ ups'.loggedIn = false

private theorem ComesFrom.trans {upses mid : List Utype} {ups' : Utype} (hmid : ∀ ups ∈ mid, ComesFrom upses ups)
    (h : ComesFrom mid ups') : ComesFrom upses ups' := by
  rcases h with ⟨ups, hups, hkept⟩ | hnew
  · rcases hmid ups hups with ⟨old, hold, hkept'⟩ | ⟨hdown, hout⟩
    · exact .inl ⟨old, hold, hkept'.trans hkept⟩
    · rcases hkept with hsame | ⟨-, hdown', hout'⟩
      · exact .inr ⟨hsame.connected.trans hdown, hsame.loggedIn.trans hout⟩
      · exact .inr ⟨hdown', hout'⟩
  · exact .inr hnew

private theorem comesFrom_refl (upses : List Utype) : ∀ ups ∈ upses, ComesFrom upses ups :=
  fun ups hups => .inl ⟨ups, hups, .refl ups⟩

private theorem comesFrom_addups {reloading : Bool} {s s' : State} {sys pvs un pw master : CStr}
    (h : addups reloading s sys pvs un pw master = some s') : ∀ ups ∈ s'.firstups, ComesFrom s.firstups ups := by
  unfold addups at h
  dsimp only at h
  split_ifs at h with hpv hused hreloading
  · exact Option.some.inj h ▸ comesFrom_refl _
  · obtain rfl := Option.some.inj h
    intro ups' hups'
    obtain ⟨ups, hups, rfl⟩ := List.mem_map.1 hups'
    refine .inl ⟨ups, hups, ?_⟩
    split_ifs
    · exact keptOrDropped_redefineUps ..
    · exact .refl ups
  · exact Option.some.inj h ▸ comesFrom_refl _
  · obtain ⟨upsname, -, rfl⟩ := Option.map_eq_some_iff.1 h
    intro ups' hups'
    rcases List.mem_append.1 hups' with hups | hnew
    · exact comesFrom_refl _ ups' hups
    · obtain rfl := List.mem_singleton.1 hnew
      refine .inr ⟨?_, ?_⟩
      · unfold Utype.connected newUps
        dsimp only
        split_ifs <;> decide
      · unfold Utype.loggedIn newUps
        dsimp only
        split_ifs <;> decide

private theorem comesFrom_parseConfArg {reloading : Bool} {s s' : State} (arg : List CStr)
    (h : parseConfArg reloading s arg = some s') : ∀ ups ∈ s'.firstups, ComesFrom s.firstups ups := by
  rcases parseConfArg_cases h with ⟨hfirst, -⟩ | ⟨sys, pvs, un, pw, master, rest, -, hadd⟩
  · rw [hfirst]
    exact comesFrom_refl _
  · exact comesFrom_addups hadd

private theorem comesFrom_loadconfig {reloading : Bool} {s s' : State} (lines : List (List CStr))
    (h : loadconfig reloading s lines = some s') : ∀ ups ∈ s'.firstups, ComesFrom s.firstups ups := by
  unfold loadconfig at h
  induction lines generalizing s with
  | nil => exact Option.some.inj h ▸ comesFrom_refl _
  | cons line lines ih =>
    rw [List.foldlM_cons] at h
    obtain ⟨mid, hmid, h⟩ := Option.bind_eq_some_iff.1 h
    exact fun ups hups => .trans (comesFrom_parseConfArg line hmid) (ih h ups hups)

private theorem comesFrom_reloaded {s t : State} {p : Pass} (h : reloaded s p = some t) :
    ∀ ups ∈ t.firstups, ComesFrom s.firstups ups := by
  unfold reloaded at h
  split at h
  · exact Option.some.inj h ▸ comesFrom_refl _
  · unfold reloadConf at h
    split at h
    · exact Option.some.inj h ▸ comesFrom_refl _
    · obtain ⟨mid, hmid, h⟩ := Option.bind_eq_some_iff.1 h
      dsimp only at h
      split_ifs at h
      obtain rfl := Option.some.inj h
      intro ups hups
      refine .trans (fun ups hups => ?_) (comesFrom_loadconfig _ hmid ups (List.mem_filter.1 hups).1)
      obtain ⟨old, hold, rfl⟩ := List.mem_map.1 hups
      exact .inl ⟨old, hold, .inl (.of_status rfl rfl)⟩

/-! ### Runs -/

theorem mem_of_mapM {α β : Type*} {f : α → Option β} {l : List α} {l' : List β} (h : l.mapM f = some l') {b : β}
    (hb : b ∈ l') : ∃ a ∈ l, f a = some b := by
  induction l generalizing l' with
  | nil =>
    rw [List.mapM_nil] at h
    obtain rfl := Option.some.inj h
    simp at hb
  | cons a l ih =>
    rw [List.mapM_cons] at h
    obtain ⟨x, hx, h⟩ := Option.bind_eq_some_iff.1 h
    obtain ⟨xs, hxs, h⟩ := Option.bind_eq_some_iff.1 h
    obtain rfl := Option.some.inj h
    rcases List.mem_cons.1 hb with rfl | hb
    · exact ⟨a, by simp, hx⟩
    · obtain ⟨a', ha', hf⟩ := ih hxs hb
      exact ⟨a', List.mem_cons_of_mem _ ha', hf⟩

/-- A UPS after a pass is one that was polled in it. -/
theorem polled_of_mainPass {s s' : State} {p : Pass} (h : mainPass s p = some s') :
    ∃ t u, reloaded s p = some t ∧ ∀ ups' ∈ s'.firstups, ∃ ups ∈ t.firstups, ∃ mid,
      pollups t (p.poll ups.sys) ups = some mid ∧ ups' = promoteDead u p.now mid := by
  obtain ⟨t, ht, h⟩ := Option.bind_eq_some_iff.1 h
  obtain ⟨u, hu, h⟩ := Option.bind_eq_some_iff.1 h
  refine ⟨t, u, ht, fun ups' hups' => ?_⟩
  obtain ⟨upses, hall, rfl⟩ := Option.map_eq_some_iff.1 hu
  unfold recalc at h
  dsimp only at h
  split_ifs at h
  obtain rfl := Option.some.inj h
  obtain ⟨mid, hmid, rfl⟩ := List.mem_map.1 hups'
  obtain ⟨ups, hups, hpoll⟩ := mem_of_mapM hall hmid
  exact ⟨ups, hups, mid, hpoll, rfl⟩

private theorem run_snoc {s0 s : State} {passes : List Pass} {p : Pass} (h : s0.run (passes ++ [p]) = some s) :
    ∃ t, s0.run passes = some t ∧ mainPass t p = some s := by
  rw [State.run, List.foldlM_append] at h
  obtain ⟨t, ht, h⟩ := Option.bind_eq_some_iff.1 h
  rw [List.foldlM_cons] at h
  obtain ⟨t', ht', h⟩ := Option.bind_eq_some_iff.1 h
  exact ⟨t, ht, Option.some.inj h ▸ ht'⟩

private theorem link_start {lines : List (List CStr)} {s0 : State} (h : start lines = some s0) :
    ∀ ups ∈ s0.firstups, ups.connected = false ∧ ups.loggedIn = false := by
  unfold start at h
  obtain ⟨s, hs, h⟩ := Option.bind_eq_some_iff.1 h
  split_ifs at h
  obtain rfl := Option.some.inj h
  intro ups hups
  rcases comesFrom_loadconfig lines hs ups hups with ⟨old, hold, -⟩ | hnew
  · exact absurd hold (by simp [State.initial])
  · exact hnew

private theorem links_run {lines : List (List CStr)} {s0 : State} (hstart : start lines = some s0) (passes : List Pass) :
    ∀ s, s0.run passes = some s → ∀ ups ∈ s.firstups, (ups.loggedIn = true → ups.connected = true) ∧
      (ups.connected = true → ups.loggedIn = true ∨ NotAccepted s0 ups.sys passes) := by
  induction passes using List.reverseRecOn with
  | nil =>
    intro s hrun ups hups
    obtain rfl := Option.some.inj hrun
    obtain ⟨hdown, hout⟩ := link_start hstart ups hups
    rw [hdown, hout]
    simp
  | append_singleton passes p ih =>
    intro s' hrun ups' hups'
    obtain ⟨s, hs, hpass⟩ := run_snoc hrun
    obtain ⟨t, u, ht, hall⟩ := polled_of_mainPass hpass
    obtain ⟨ups, hups, mid, hpoll, hdead⟩ := hall ups' hups'
    have hmid : SameLink mid ups' := hdead ▸ sameLink_promoteDead u p.now mid
    -- before the poll
    have hbefore : (ups.loggedIn = true → ups.connected = true) ∧
        (ups.connected = true → ups.loggedIn = true ∨ NotAccepted s0 ups.sys passes) := by
      rcases comesFrom_reloaded ht ups hups with ⟨old, hold, hsame | ⟨-, hdown, hout⟩⟩ | ⟨hdown, hout⟩
      · rw [hsame.loggedIn, hsame.connected, hsame.sys]
        exact ih s hs old hold
      · rw [hdown, hout]
        simp
      · rw [hdown, hout]
        simp
    rcases pollups_link hbefore.1 hpoll with (hsame | ⟨-, hdown, hout⟩) | ⟨hnew, hok, hsys, hup, hin⟩
    · -- the poll left the connection as it was
      have hlink := hsame.trans hmid
      rw [hlink.loggedIn, hlink.connected]
      refine ⟨hbefore.1, fun hconnected => ?_⟩
      rcases hbefore.2 hconnected with hin | hno
      · exact .inl hin
      · by_cases hin : ups.loggedIn = true
        · exact .inl hin
        · refine .inr (@NotAccepted.since _ _ _ _ _ ups' (hlink.sys ▸ hno) hrun hups' rfl (hlink.connected.trans hconnected) ?_)
          exact hlink.loggedIn.trans (by simpa using hin)
    · rw [hmid.loggedIn, hmid.connected, hdown, hout]
      simp
    · -- the UPS was connected in this poll
      rw [hmid.loggedIn, hmid.connected]
      refine ⟨fun _ => hup, fun _ => ?_⟩
      rcases hin with hin | hrefused
      · exact .inl hin
      · have hname : ups'.sys = ups.sys := hmid.sys.trans hsys
        rw [hname]
        exact .inr (.now hs ht hups rfl hnew hok hrefused)

/-- At the end of every pass a UPS that is logged in is connected, and one that is connected is logged in unless the server
did not accept that when it was connected, and it has been connected since. -/
theorem connected_login {lines : List (List CStr)} {s0 s : State} (hstart : start lines = some s0) {passes : List Pass}
    (hrun : s0.run passes = some s) : ∀ ups ∈ s.firstups, (ups.loggedIn = true → ups.connected = true) ∧
      (ups.connected = true → ups.loggedIn = true ∨ NotAccepted s0 ups.sys passes) :=
  links_run hstart passes s hrun

private def myups : List CStr :=
  ["MONITOR".toList, "su@localhost".toList, "1".toList, "upsmon".toList, "pass".toList, "slave".toList]

private def sends (line : CStr) : Net where
  wrote := 64
  reads := [.bytes (line ++ "\n".toList)]

/-- A pass in which the server answers `PASSWORD` with that line. -/
private def passwordPass (line : CStr) : Pass where
  reload := none
  poll _ :=
    { nocert := false
      connect := { ok := true, upserror := .unknown, readbuf := [] }
      auth :=
        { username := sends "OK".toList
          password := sends line
          login := sends "OK".toList
          master := sends "OK".toList }
      get := sends "VAR su ups.status \"OL\"".toList
      now := 5 }
  now := 5

/-- Two passes with a server that takes the password. -/
theorem connected_login_ok : ∃ s0 s, start [myups] = some s0 ∧
    s0.run [passwordPass "OK".toList, passwordPass "OK".toList] = some s ∧
    ∀ ups ∈ s.firstups, (ups.loggedIn = true → ups.connected = true) ∧ (ups.connected = true →
      ups.loggedIn = true ∨ NotAccepted s0 ups.sys [passwordPass "OK".toList, passwordPass "OK".toList]) := by
  have hstart : (start [myups]).isSome = true := by decide +kernel
  obtain ⟨s0, hs0⟩ := Option.isSome_iff_exists.1 hstart
  have hrun : (((start [myups]).bind fun s => s.run [passwordPass "OK".toList, passwordPass "OK".toList])).isSome = true := by
    decide +kernel
  rw [hs0] at hrun
  obtain ⟨s, hs⟩ := Option.isSome_iff_exists.1 hrun
  exact ⟨s0, s, hs0, hs, connected_login hs0 hs⟩

/-- A password that is refused leaves the UPS connected, and it is polled in the next pass without a login. -/
theorem connected_not_loggedIn : ¬∀ lines s0 s passes, start lines = some s0 → s0.run passes = some s →
    ∀ ups ∈ s.firstups, ups.connected = true → ups.loggedIn = true := by
  intro h
  have hrun : (((start [myups]).bind fun s => s.run [passwordPass "ERR ACCESS-DENIED".toList, passwordPass "OK".toList]).map
      fun s => s.firstups.map Utype.status) = some [stConnected ||| stOnline] := by decide +kernel
  obtain ⟨s, hs, hstatus⟩ := Option.map_eq_some_iff.1 hrun
  obtain ⟨ups, hups, hflags⟩ : ∃ ups ∈ s.firstups, ups.status = stConnected ||| stOnline := by
    have hmem : stConnected ||| stOnline ∈ s.firstups.map Utype.status := by
      rw [hstatus]
      exact List.mem_singleton_self _
    exact List.mem_map.1 hmem
  obtain ⟨s0, hs0, hs⟩ := Option.bind_eq_some_iff.1 hs
  have hconnected : ups.connected = true := by
    rw [Utype.connected, hflags]
    decide
  have hlogin := h _ _ _ _ hs0 hs ups hups hconnected
  rw [Utype.loggedIn, hflags] at hlogin
  exact absurd hlogin (by decide)

end Nut.Upsmon
