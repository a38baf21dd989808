import Nut.Drivers.Dstate

/-!
# `sstate.c`: what the server keeps of a driver

The record of a UPS, which mirrors the state of its driver, and the lines from the driver's socket that change it
(`parseArgs`).  `sent` collects the buffers handed to `write` on that socket, in whole or not; the outcome `ok` of such
a call is an argument, and so is the clock `now`.
-/

namespace Nut

def ssConnfailInt : Int := 300

structure Upstype where
  name : CStr
  fn : CStr
  desc : Option CStr
  sockFd : Option Nat
  stale : Bool
  dumpdone : Bool
  dataOk : Bool
  lastHeard : Int
  lastPing : Int
  lastConnfail : Int
  sockCtx : PconfCtx
  inforoot : StTree
  cmdlist : List CStr
  numlogins : Int
  fsd : Bool
  retain : Bool
  sent : List CStr
  deriving DecidableEq

/-- The record of a new UPS, before its driver is contacted. -/
def newUps (fn name : CStr) (desc : Option CStr) : Upstype where
  name := name
  fn := fn
  desc := desc
  sockFd := none
  stale := true
  dumpdone := false
  dataOk := false
  lastHeard := 0
  lastPing := 0
  lastConnfail := 0
  sockCtx := pconfInit
  inforoot := .nil
  cmdlist := []
  numlogins := 0
  fsd := false
  retain := true
  sent := []

/-- `arg` are the slots of `arglist`, of which the first `numargs` are the words of the line.  The fourth slot is read
without looking at `numargs`: it may hold a word of an earlier line, and there is no result when it was never
allocated. -/
def parseArgs (ups : Upstype) (numargs : Nat) (arg : List CStr) : Option (Upstype × Bool) :=
  let arg0 := arg.getD 0 []
  let arg1 := arg.getD 1 []
  let arg2 := arg.getD 2 []
  if numargs < 1 then some (ups, false)
  else if strcasecmp arg0 "PONG".toList = .eq then some (ups, true)
  else if strcasecmp arg0 "DUMPDONE".toList = .eq then some ({ ups with dumpdone := true }, true)
  else if strcasecmp arg0 "DATASTALE".toList = .eq then some ({ ups with dataOk := false }, true)
  else if strcasecmp arg0 "DATAOK".toList = .eq then some ({ ups with dataOk := true }, true)
  else if numargs < 2 then some (ups, false)
  else if strcasecmp arg0 "ADDCMD".toList = .eq then
    some ({ ups with cmdlist := (stateAddcmd ups.cmdlist arg1).1 }, true)
  else if strcasecmp arg0 "DELCMD".toList = .eq then
    some ({ ups with cmdlist := (stateDelcmd ups.cmdlist arg1).1 }, true)
  else if strcasecmp arg0 "DELINFO".toList = .eq then
    some ({ ups with inforoot := (stateDelinfo ups.inforoot arg1).1 }, true)
  else if numargs < 3 then some (ups, false)
  else if strcasecmp arg0 "SETFLAGS".toList = .eq then
    some ({ ups with inforoot := stateSetflags ups.inforoot arg1 ((arg.take numargs).drop 2) }, true)
  else if strcasecmp arg0 "SETINFO".toList = .eq then
    some ({ ups with inforoot := (stateSetinfo ups.inforoot arg1 arg2).1 }, true)
  else if strcasecmp arg0 "ADDENUM".toList = .eq then
    some ({ ups with inforoot := (stateAddenum ups.inforoot arg1 arg2).1 }, true)
  else if strcasecmp arg0 "ADDRANGE".toList = .eq then
    arg[3]?.map fun arg3 =>
      ({ ups with inforoot := (stateAddrange ups.inforoot arg1 (atoi arg2) (atoi arg3)).1 }, true)
  else if strcasecmp arg0 "DELENUM".toList = .eq then
    some ({ ups with inforoot := (stateDelenum ups.inforoot arg1 arg2).1 }, true)
  else if strcasecmp arg0 "DELRANGE".toList = .eq then
    arg[3]?.map fun arg3 =>
      ({ ups with inforoot := (stateDelrange ups.inforoot arg1 (atoi arg2) (atoi arg3)).1 }, true)
  else if strcasecmp arg0 "SETAUX".toList = .eq then
    some ({ ups with inforoot := (stateSetaux ups.inforoot arg1 arg2).1 }, true)
  else some (ups, false)

def sstateInfofree (ups : Upstype) : Upstype := { ups with inforoot := .nil }

def sstateCmdfree (ups : Upstype) : Upstype := { ups with cmdlist := [] }

def sstateDisconnect (ups : Upstype) : Upstype :=
  match ups.sockFd with
  | none => ups
  | some _ => { sstateCmdfree (sstateInfofree ups) with sockFd := none }

def sendping (now : Int) (ok : Bool) (ups : Upstype) : Upstype :=
  match ups.sockFd with
  | none => ups
  | some _ =>
    let ups := { ups with sent := ups.sent ++ ["PING\n".toList] }
    if ok then { ups with lastPing := now } else sstateDisconnect ups

/-- How far `sstate_connect` gets: to `connect`, to the calls of `fcntl`, to the `write`, or to a new descriptor. -/
inductive ConnectResult where
  | noSocket
  | refused
  | fcntlFailed
  | writeFailed
  | ok (fd : Nat)
  deriving DecidableEq

def sstateConnect (now : Int) (ups : Upstype) : ConnectResult → Upstype × Option Nat
  | .noSocket => (ups, none)
  | .refused => (if now - ups.lastConnfail < ssConnfailInt then ups else { ups with lastConnfail := now }, none)
  | .fcntlFailed => (ups, none)
  | .writeFailed => ({ ups with sent := ups.sent ++ ["DUMPALL\n".toList] }, none)
  | .ok fd =>
    ({ ups with
        sent := ups.sent ++ ["DUMPALL\n".toList]
        sockCtx := pconfInit
        dumpdone := false
        stale := false
        lastHeard := now
        inforoot := (stateSetinfo ups.inforoot "ups.status".toList "WAIT".toList).1 }, some fd)

/-- What the loop of `sstate_readline` does with a line. -/
def sstateLine (now : Int) (ups : Option Upstype) (numargs : Nat) (arglist : List CStr) : Option Upstype :=
  ups.bind fun ups => (parseArgs ups numargs arglist).map fun r => if r.2 then { r.1 with lastHeard := now } else r.1

def sstateReadline (now : Int) (ups : Upstype) (ret : ReadResult) : Option Upstype :=
  match ups.sockFd with
  | none => some ups
  | some _ =>
    match ret with
    | .again => some ups
    | .fail => some (sstateDisconnect ups)
    | .data buf =>
      let r := readLoop (sstateLine now) ups.sockCtx (some ups) buf
      r.2.map fun ups => { ups with sockCtx := r.1 }

def sstateGetinfo (ups : Upstype) (var : CStr) : Option CStr := stateGetinfo ups.inforoot var
def sstateGetflags (ups : Upstype) (var : CStr) : BitVec 32 := stateGetflags ups.inforoot var
def sstateGetaux (ups : Upstype) (var : CStr) : Int32 := stateGetaux ups.inforoot var
def sstateGetenumlist (ups : Upstype) (var : CStr) : List CStr := stateGetenumlist ups.inforoot var
def sstateGetrangelist (ups : Upstype) (var : CStr) : List Range := stateGetrangelist ups.inforoot var
def sstateGetcmdlist (ups : Upstype) : List CStr := ups.cmdlist
def sstateGetnode (ups : Upstype) (varname : CStr) : Option StNode := stateTreeFind ups.inforoot varname

/-- `ok` is the outcome of the write if the driver is pinged. -/
def sstateDead (now : Int) (ok : Bool) (ups : Upstype) (maxage : Int) : Upstype × Bool :=
  match ups.sockFd with
  | none => (ups, true)
  | some _ =>
    if ups.dumpdone ∧ ¬ups.dataOk then (ups, true)
    else
      let elapsed := now - ups.lastHeard
      let ups := if maxage.tdiv 3 < elapsed ∧ maxage.tdiv 3 < now - ups.lastPing then sendping now ok ups else ups
      (ups, decide (maxage < elapsed))

def sstateSendline (ok : Bool) (ups : Upstype) (buf : CStr) : Upstype × Bool :=
  match ups.sockFd with
  | none => (ups, false)
  | some _ =>
    let ups := { ups with sent := ups.sent ++ [buf] }
    if ok then (ups, true) else (sstateDisconnect ups, false)

end Nut
