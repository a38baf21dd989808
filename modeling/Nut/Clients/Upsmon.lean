import Nut.Clients.Upsclient

/-!
# `upsmon.c`: the list of monitored UPSes

How `upsmon.conf` fills that list at the start and changes it at a reload, and how the master waits for its slaves
before a shutdown.

A line of the file is given as the list of its arguments.  There is no result where the program gives up (`fatalx`).
The names in the list are not repeated, so an entry is found by its name.
-/

namespace Nut.Upsmon

def stOnline : BitVec 32 := BitVec.twoPow 32 0
def stOnbatt : BitVec 32 := BitVec.twoPow 32 1
def stLowbatt : BitVec 32 := BitVec.twoPow 32 2
def stFsd : BitVec 32 := BitVec.twoPow 32 3
def stMaster : BitVec 32 := BitVec.twoPow 32 4
def stLogin : BitVec 32 := BitVec.twoPow 32 5
def stConnected : BitVec 32 := BitVec.twoPow 32 6

def setflag (val flag : BitVec 32) : BitVec 32 := val ||| flag

def clearflag (val flag : BitVec 32) : BitVec 32 := val ^^^ (val &&& flag)

def flagIsset (num flag : BitVec 32) : Bool := num &&& flag = flag

theorem flagIsset_twoPow {i : Nat} (hi : i < 32) (num : BitVec 32) : flagIsset num (BitVec.twoPow 32 i) = num.getLsbD i := by
  have hne : (0 : BitVec 32) ≠ BitVec.twoPow 32 i := by
    intro h
    have hbit := congrArg (fun b => b.getLsbD i) h
    simp [hi] at hbit
  rw [flagIsset, BitVec.and_twoPow]
  cases num.getLsbD i
  · simpa using hne
  · simp

theorem flagIsset_setflag (num : BitVec 32) {i j : Nat} (hi : i < 32) :
    flagIsset (setflag num (BitVec.twoPow 32 j)) (BitVec.twoPow 32 i) = (flagIsset num (BitVec.twoPow 32 i) || i = j) := by
  simp [flagIsset_twoPow hi, setflag, hi]

theorem flagIsset_clearflag (num : BitVec 32) {i j : Nat} (hi : i < 32) :
    flagIsset (clearflag num (BitVec.twoPow 32 j)) (BitVec.twoPow 32 i) = (flagIsset num (BitVec.twoPow 32 i) && i ≠ j) := by
  rcases eq_or_ne i j with rfl | h
  · simp [flagIsset_twoPow hi, clearflag, hi]
  · simp [flagIsset_twoPow hi, clearflag, hi, h]

/-- `addups` refuses a line without a user name or a password, so `un` and `pw` are there. -/
structure Utype where
  conn : Upsconn
  sys : CStr
  upsname : Option CStr
  pv : Int32
  un : CStr
  pw : CStr
  status : BitVec 32
  retain : Bool
  commstate : Int32
  linestate : Int32
  lastpoll : Int
  lastnoncrit : Int
  lastrbwarn : Int
  lastncwarn : Int
  deriving DecidableEq

/-- The variables of the program that the directives of `upsmon.conf` modelled here set. -/
structure State where
  firstups : List Utype
  totalpv : Int32
  minsupplies : Int32
  deadtime : Int32
  pollfreq : Int32
  pollfreqalert : Int32
  hostsync : Int32
  rbwarntime : Int32
  nocommwarntime : Int32
  finaldelay : Int32
  deriving DecidableEq

def State.initial : State where
  firstups := []
  totalpv := 0
  minsupplies := 1
  deadtime := 15
  pollfreq := 5
  pollfreqalert := 5
  hostsync := 15
  rbwarntime := 43200
  nocommwarntime := 300
  finaldelay := 5

def dropConnection (ups : Utype) : Utype :=
  { ups with
    commstate := 0
    linestate := 0
    status := clearflag (clearflag ups.status stLogin) stConnected
    conn := upscliDisconnect ups.conn }

/-! ### The configuration -/

/-- Only a UPS that is not logged in is connected again. -/
def retryConnection (ups : Utype) : Utype := if flagIsset ups.status stLogin then ups else dropConnection ups

def redefineUn (ups : Utype) (un : CStr) : Utype :=
  if ups.un ≠ un then retryConnection { ups with un := un } else ups

def redefinePw (ups : Utype) (pw : CStr) : Utype :=
  if ups.pw ≠ pw then retryConnection { ups with pw := pw } else ups

def redefineMaster (ups : Utype) (master : CStr) : Utype :=
  if strcasecmp master "master".toList = .eq ∧ flagIsset ups.status stMaster = false then
    dropConnection { ups with status := setflag ups.status stMaster }
  else if strcasecmp master "slave".toList = .eq ∧ flagIsset ups.status stMaster = true then
    { ups with status := clearflag ups.status stMaster }
  else ups

/-- The caller adds the power value to `totalpv`. -/
def redefineUps (ups : Utype) (pv : Int32) (un pw master : CStr) : Utype :=
  redefineMaster (redefinePw (redefineUn { ups with retain := true, pv := pv } un) pw) master

/-- `upsname` after `upscli_splitname`: the first word between the `@`s, or NULL for an empty name; `strdup` has no
result when there is no such word. -/
def splitUpsname (sys : CStr) : Option (Option CStr) :=
  let tmp := snprintf 512 sys
  if tmp = [] then some none
  else
    match (tmp.dropWhile (· = '@')).takeWhile (· ≠ '@') with
    | [] => none
    | upsname => some (some upsname)

/-- A new connection is all zero. -/
def newUps (sys : CStr) (upsname : Option CStr) (pv : Int32) (un pw master : CStr) : Utype where
  conn := { Upsconn.connected with fd := false }
  sys := sys
  upsname := upsname
  pv := pv
  un := un
  pw := pw
  status := if strcasecmp master "master".toList = .eq then setflag 0 stMaster else 0
  retain := true
  commstate := -1
  linestate := -1
  lastpoll := 0
  lastnoncrit := 0
  lastrbwarn := 0
  lastncwarn := 0

def addups (reloading : Bool) (s : State) (sys pvs un pw master : CStr) : Option State :=
  let pv := atoi pvs
  if pv < 0 then some s
  else if s.firstups.any fun tmp => tmp.sys = sys then
    if reloading then
      some { s with
        firstups := s.firstups.map fun tmp => if tmp.sys = sys then redefineUps tmp pv un pw master else tmp
        totalpv := s.totalpv + pv }
    else some s
  else
    (splitUpsname sys).map fun upsname =>
      { s with firstups := s.firstups ++ [newUps sys upsname pv un pw master], totalpv := s.totalpv + pv }

/-- The directives that set texts, certificates or notifications do not touch this state. -/
def parseConfArg (reloadFlag : Bool) (s : State) : List CStr → Option State
  | arg0 :: arg1 :: rest =>
    if arg0 = "POLLFREQ".toList then some { s with pollfreq := atoi arg1 }
    else if arg0 = "POLLFREQALERT".toList then some { s with pollfreqalert := atoi arg1 }
    else if arg0 = "HOSTSYNC".toList then some { s with hostsync := atoi arg1 }
    else if arg0 = "DEADTIME".toList then some { s with deadtime := atoi arg1 }
    else if arg0 = "MINSUPPLIES".toList then some { s with minsupplies := atoi arg1 }
    else if arg0 = "RBWARNTIME".toList then some { s with rbwarntime := atoi arg1 }
    else if arg0 = "NOCOMMWARNTIME".toList then some { s with nocommwarntime := atoi arg1 }
    else if arg0 = "FINALDELAY".toList then some { s with finaldelay := atoi arg1 }
    else if arg0 = "MONITOR".toList then
      match rest with
      | arg2 :: arg3 :: arg4 :: arg5 :: _ => addups reloadFlag s arg1 arg2 arg3 arg4 arg5
      | [_, _, _] => none
      | _ => some s
    else some s
  | _ => some s

/-- A line sets a number, or it is a `MONITOR` line. -/
theorem parseConfArg_cases {reloadFlag : Bool} {s s' : State} {arg : List CStr}
    (h : parseConfArg reloadFlag s arg = some s') :
    (s'.firstups = s.firstups ∧ s'.totalpv = s.totalpv) ∨
      ∃ sys pvs un pw master rest, arg = "MONITOR".toList :: sys :: pvs :: un :: pw :: master :: rest ∧
        addups reloadFlag s sys pvs un pw master = some s' := by
  have hsame {s'' : State} (hres : some s'' = some s') (hkeep : s''.firstups = s.firstups ∧ s''.totalpv = s.totalpv) :
      s'.firstups = s.firstups ∧ s'.totalpv = s.totalpv := Option.some.inj hres ▸ hkeep
  rcases arg with _ | ⟨arg0, _ | ⟨arg1, rest⟩⟩
  · exact .inl (hsame h ⟨rfl, rfl⟩)
  · exact .inl (hsame h ⟨rfl, rfl⟩)
  by_cases hmonitor : arg0 = "MONITOR".toList
  · subst hmonitor
    rcases rest with _ | ⟨arg2, _ | ⟨arg3, _ | ⟨arg4, _ | ⟨arg5, rest⟩⟩⟩⟩
    · exact .inl (hsame h ⟨rfl, rfl⟩)
    · exact .inl (hsame h ⟨rfl, rfl⟩)
    · exact .inl (hsame h ⟨rfl, rfl⟩)
    · exact absurd h (Option.some_ne_none s').symm
    · exact .inr ⟨arg1, arg2, arg3, arg4, arg5, rest, rfl, h⟩
  · refine .inl ?_
    have hset {c : Prop} [Decidable c] {s'' : State} {o : Option State}
        (hkeep : s''.firstups = s.firstups ∧ s''.totalpv = s.totalpv)
        (ho : o = some s' → s'.firstups = s.firstups ∧ s'.totalpv = s.totalpv) :
        (if c then some s'' else o) = some s' → s'.firstups = s.firstups ∧ s'.totalpv = s.totalpv := fun h => by
      split at h
      · exact hsame h hkeep
      · exact ho h
    revert h
    unfold parseConfArg
    iterate 8 refine hset ⟨rfl, rfl⟩ ?_
    rw [if_neg hmonitor]
    exact fun h => hsame h ⟨rfl, rfl⟩

/-- The lines that `loadconfig` reads without a parse error. -/
def loadconfig (reloadFlag : Bool) (s : State) (lines : List (List CStr)) : Option State :=
  lines.foldlM (parseConfArg reloadFlag) s

/-- `main`, up to the check of the power values. -/
def start (lines : List (List CStr)) : Option State := do
  let s ← loadconfig false .initial lines
  if s.totalpv < s.minsupplies then none else some s

/-- `file` is the text of `upsmon.conf` as lines, if it can be opened. -/
def reloadConf (s : State) (file : Option (List (List CStr))) : Option State :=
  match file with
  | none => some s
  | some lines => do
    let s ← loadconfig true { s with firstups := s.firstups.map fun tmp => { tmp with retain := false }, totalpv := 0 } lines
    let s := { s with firstups := s.firstups.filter fun tmp => tmp.retain }
    if s.totalpv < s.minsupplies then none else some s

/-! ### Queries -/

/-- The answer to a query about the UPS, if there is one.  Where the answer has no value the word read in its place is
of an earlier answer; there is no result when there never was one. -/
def getVar (ups : Utype) (net : Net) (var : CStr) : Option (Utype × Option CStr) :=
  match ups.upsname with
  | none => some (ups, none)
  | some upsname =>
    let query :=
      if var = "numlogins".toList then ["NUMLOGINS".toList, upsname]
      else if var = "status".toList then ["VAR".toList, upsname, "ups.status".toList]
      else []
    if query = [] then some (ups, none)
    else
      match upscliGet ups.conn net query with
      | none => none
      | some (conn, _, false) => some ({ ups with conn := conn }, none)
      | some (conn, _, true) =>
        if conn.pcCtx.numargs < query.length then some ({ ups with conn := conn }, none)
        else conn.pcCtx.arglist[query.length]?.map fun answer => ({ ups with conn := conn }, some (snprintf 512 answer))

/-- One round of queries: the largest login count from `maxlogins` on. -/
def queryLogins (net : CStr → Net) : List Utype → Int32 → Option (List Utype × Int32)
  | [], maxlogins => some ([], maxlogins)
  | ups :: rest, maxlogins =>
    if flagIsset ups.status stMaster = false then
      (queryLogins net rest maxlogins).map fun r => (ups :: r.1, r.2)
    else
      match getVar ups (net ups.sys) "numlogins".toList with
      | none => none
      | some (ups, none) => (queryLogins net rest maxlogins).map fun r => (ups :: r.1, r.2)
      | some (ups, some temp) =>
        let logins := atoi temp
        (queryLogins net rest (if maxlogins < logins then logins else maxlogins)).map fun r => (ups :: r.1, r.2)

/-- One turn of the loop of `slavesync`: what the network does with the query about each UPS, and the clock when it is
read after the queries. -/
structure Round where
  net : CStr → Net
  now : Int

/-- The two ways `slavesync` returns, and that it is still in its loop. -/
inductive Sync where
  | slavesGone
  | expired
  | waiting
  deriving DecidableEq

def slavesync (hostsync : Int32) (start : Int) : List Round → List Utype → Option (List Utype × Sync)
  | [], upses => some (upses, .waiting)
  | round :: rounds, upses =>
    match queryLogins round.net upses 0 with
    | none => none
    | some (upses, maxlogins) =>
      if maxlogins ≤ 1 then some (upses, .slavesGone)
      else if hostsync.toInt < round.now - start then some (upses, .expired)
      else slavesync hostsync start rounds upses

end Nut.Upsmon
