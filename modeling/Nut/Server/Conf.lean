import Nut.Server.Upsd

/-!
# `conf.c`: reloading the configuration of the server

`ups.conf` goes through `upsconf.c` into a table of definitions (`readUpsconf`), and the table into the list of UPSes
(`upsconfAdd`); a reload removes the UPSes that are not in it any more (`confReload`).

The files are given as the arguments of their lines, where they can be opened.  What `connect` does for each UPS is an
argument.  There is no result where the program ends, or hands a missing value to `xstrdup`.
-/

namespace Nut

/-- A definition in `ups.conf`. -/
structure UpsT where
  upsname : CStr
  driver : Option CStr
  port : Option CStr
  desc : Option CStr
  deriving DecidableEq

/-- What `sstate_connect` meets, for each UPS by its name, and the limit of the system on open files. -/
structure Connects where
  now : Int
  result : CStr → ConnectResult
  openMax : Int

/-! ### Reading `ups.conf` -/

def setUpsT (temp : UpsT) (var val : CStr) : UpsT :=
  if var = "driver".toList then { temp with driver := some val }
  else if var = "port".toList then { temp with port := some val }
  else if var = "desc".toList then { temp with desc := some val }
  else temp

def doUpsconfArgs (upstable : List UpsT) (upsname : Option CStr) (var : CStr) (val : Option CStr) : Option (List UpsT) :=
  match upsname with
  | none => some upstable
  | some upsname =>
    let upstable := if upstable.any fun temp => temp.upsname = upsname then upstable
      else ⟨upsname, none, none, none⟩ :: upstable
    match val with
    | some val => some (upstable.map fun temp => if temp.upsname = upsname then setUpsT temp var val else temp)
    | none =>
      if var = "driver".toList ∨ var = "port".toList ∨ var = "desc".toList then none else some upstable

/-- The section and the table after one more line. -/
def confArgs (st : Option CStr × List UpsT) : List CStr → Option (Option CStr × List UpsT)
  | [] => some st
  | arg0 :: rest =>
    match sectionName arg0, rest with
    | some upsname, _ => some (some upsname, st.2)
    | none, [] => (doUpsconfArgs st.2 st.1 arg0 none).map fun upstable => (st.1, upstable)
    | none, [_] => some st
    | none, arg1 :: arg2 :: _ =>
      if arg1 = "=".toList then (doUpsconfArgs st.2 st.1 arg0 (some arg2)).map fun upstable => (st.1, upstable)
      else some st

def readUpsconf (lines : List (List CStr)) : Option (List UpsT) := (lines.foldlM confArgs (none, [])).map Prod.snd

/-! ### The list of UPSes -/

def upsCreate (c : Connects) (s : Upsd) (fn name : CStr) (desc : Option CStr) : Upsd :=
  if s.firstups.any fun temp => strcasecmp temp.name name = .eq then s
  else
    match sstateConnect c.now (newUps fn name desc) (c.result name) with
    | (temp, fd) => { s with firstups := { temp with sockFd := fd, lastHeard := c.now } :: s.firstups }

def upsUpdate (s : Upsd) (fn name : CStr) (desc : Option CStr) : Upsd :=
  match getUpsPtr s name with
  | none => s
  | some temp =>
    s.modifyUps temp.name fun temp =>
      let temp := if temp.fn ≠ fn then
          { sstateCmdfree (sstateInfofree temp) with sockFd := none, dumpdone := false, fn := fn }
        else temp
      { temp with desc := desc, retain := true }

/-- One entry of the table; an incomplete one is ignored. -/
def upsconfAddOne (c : Connects) (reloading : Bool) (s : Upsd) (tmp : UpsT) : Upsd :=
  match tmp.driver, tmp.port with
  | some driver, some _ =>
    let statefn := snprintf smallbuf (driver ++ "-".toList ++ tmp.upsname)
    if reloading ∧ getUpsPtr s tmp.upsname ≠ none then upsUpdate s statefn tmp.upsname tmp.desc
    else upsCreate c s statefn tmp.upsname tmp.desc
  | _, _ => s

def upsconfAdd (c : Connects) (reloading : Bool) (s : Upsd) (upstable : List UpsT) : Upsd :=
  upstable.foldl (upsconfAddOne c reloading) s

/-- The directives with other settings do not touch this state. -/
def parseUpsdConfArgs (s : Upsd) : List CStr → Upsd
  | arg0 :: arg1 :: _ =>
    if arg0 = "MAXAGE".toList then { s with maxage := (atoi arg1).toInt }
    else if arg0 = "MAXCONN".toList then { s with maxconn := (atoi arg1).toInt }
    else s
  | _ => s

def loadUpsdconf (s : Upsd) (lines : List (List CStr)) : Upsd := lines.foldl parseUpsdConfArgs s

theorem loadUpsdconf_firstups (t : Upsd) (lines : List (List CStr)) : (loadUpsdconf t lines).firstups = t.firstups := by
  unfold loadUpsdconf
  induction lines generalizing t with
  | nil => rfl
  | cons line lines ih =>
    rw [List.foldl_cons, ih]
    unfold parseUpsdConfArgs
    split
    · split_ifs <;> rfl
    · rfl

def deleteUps (s : Upsd) (target : Upstype) : Upsd :=
  let s := kickLoginClients s target.name
  { s with firstups := s.firstups.filter fun ups => ups.name ≠ target.name }

/-- The files that a reload opens. -/
structure Files where
  upsdConf : Option (List (List CStr))
  upsConf : Option (List (List CStr))
  upsdUsers : Option (List (List CStr))

def deleteUnretained (s : Upsd) : Upsd :=
  s.firstups.foldl (fun s ups => if ups.retain then s else deleteUps s ups) s

def confReload (c : Connects) (s : Upsd) (files : Files) : Option Upsd :=
  match files.upsdConf, files.upsConf with
  | none, _ => some s
  | some _, none => none
  | some upsdConf, some upsConf => do
    let upstable ← readUpsconf upsConf
    let s := { s with firstups := s.firstups.map fun ups => { ups with retain := false } }
    let s := upsconfAdd c true s upstable
    let s := loadUpsdconf s upsdConf
    let s := deleteUnretained s
    match files.upsdUsers with
    | none => some s
    | some lines => some { s with users := (userLoad lines).users }

/-- The state after the files are read at the start, before any client; there must be a UPS. -/
def upsdStart (c : Connects) (files : Files) (maxconn : Int) (cmdList varList : List (CStr × CStr)) (upsVersion : CStr) :
    Option Upsd :=
  match files.upsdConf, files.upsConf with
  | some upsdConf, some upsConf => do
    let upstable ← readUpsconf upsConf
    let s : Upsd :=
      { firstups := [], firstclient := [], users := (userLoad (files.upsdUsers.getD [])).users, maxage := 15,
        maxconn := maxconn, cmdList := cmdList, varList := varList, upsVersion := upsVersion }
    let s := upsconfAdd c false (loadUpsdconf s upsdConf) upstable
    if s.firstups = [] then none else some s
  | _, _ => none

end Nut
