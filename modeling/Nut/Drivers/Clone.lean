import Nut.Server.Sstate
import Mathlib.Data.List.Infix

/-!
# `clone.c`: a driver that repeats another one

The clone reads the state of an upstream driver from that driver's socket, as `upsd` does, and publishes it as its own,
but for the variables that it filters or owns.  It shuts its outlet down on a command or when the battery is low: while
`timer.shutdown` runs the status is published with `FSD` in front of it, and `timer.start` switches the outlet on again.

The floating point numbers of the source are a parameter, as is their printing.  The lines that the clone hands to `write`
are collected in `sent`.
-/

namespace Nut

/-- The operations on `double` that the driver uses: `strtod`, the text under `%g`, and `<`. -/
structure Clone.Doubles (F : Type) where
  strtod : CStr → F
  text : F → CStr
  less : F → F → Bool

/-- The static variables of the driver, its settings from `getval`, and its published state. -/
structure Clone (F : Type) where
  dstate : Dstate
  timerStart : Int
  timerShutdown : Int
  status : CStr
  chargeAct : F
  chargeLow : F
  runtimeAct : F
  runtimeLow : F
  dumpdone : Bool
  online : Bool
  outlet : Bool
  offdelay : Int
  ondelay : Int
  sockCtx : PconfCtx
  upsfd : Option Nat
  sent : List CStr
  lastPoll : Int
  lastHeard : Int
  lastPing : Int
  lastConnfail : Int
  loadOff : Option CStr
  loadOn : Option CStr
  loadStatus : Option CStr

namespace Clone

/-- The static variables at the start of the program, with the settings for the outlet. -/
def init {F : Type} (zero : F) (loadOff loadOn loadStatus : Option CStr) : Clone F where
  dstate := .init
  timerStart := -1
  timerShutdown := -1
  status := "WAIT".toList
  chargeAct := zero
  chargeLow := zero
  runtimeAct := zero
  runtimeLow := zero
  dumpdone := false
  online := true
  outlet := true
  offdelay := 120
  ondelay := 30
  sockCtx := pconfInit
  upsfd := none
  sent := []
  lastPoll := 0
  lastHeard := 0
  lastPing := 0
  lastConnfail := 0
  loadOff := loadOff
  loadOn := loadOn
  loadStatus := loadStatus

/-- An `int` under `%d`. -/
def formatD (i : Int) : CStr := formatInt (Int32.ofInt i)

/-- `strncasecmp` finds no difference in the first `n` characters. -/
def strncaseeq (s t : CStr) (n : Nat) : Bool := tolower (s.take n) = tolower (t.take n)

/-- The settings of the upstream driver that are not passed on. -/
def filtered (var : CStr) : Bool :=
  strncaseeq var "driver.".toList 7 || strcasecmp var "battery.charge.low".toList = .eq ||
    strcasecmp var "battery.runtime.low".toList = .eq || strncaseeq var "ups.delay.".toList 10 ||
    strncaseeq var "ups.timer.".toList 10

variable {F : Type} (D : Doubles F) (w : Nat → Bool)

def setinfo (c : Clone F) (var text : CStr) : Clone F := { c with dstate := (dstateSetinfo w c.dstate var text).1 }

def delinfo (c : Clone F) (var : CStr) : Clone F := { c with dstate := (dstateDelinfo w c.dstate var).1 }

def setflags (c : Clone F) (var : CStr) (flags : BitVec 32) : Clone F :=
  { c with dstate := dstateSetflags w c.dstate var flags }

def setaux (c : Clone F) (var : CStr) (aux : Int32) : Clone F := { c with dstate := dstateSetaux w c.dstate var aux }

/-- The status with the text in front of it that tells a forced shutdown. -/
def fsd (status : CStr) : CStr := "FSD ".toList ++ status

/-- `SETINFO` for a battery charge: the low limit is published again. -/
def battery (c : Clone F) (var : CStr) (low : F) (aux : Int32) : Clone F :=
  setaux w (setflags w (setinfo w c var (D.text low)) var (stFlagRw ||| stFlagString)) var aux

def isOnline (status : CStr) : Bool := "OL".toList <:+: status

/-- The part of `parse_args` for `SETINFO`. -/
def parseSetinfo (c : Clone F) (arg1 arg2 : CStr) : Clone F :=
  if filtered arg1 then c
  else
    let isStatus := decide (strcasecmp arg1 "ups.status".toList = .eq)
    let c :=
      if isStatus then
        { c with
          status := snprintf stMaxValueLen arg2
          online := isOnline (snprintf stMaxValueLen arg2) }
      else c
    if isStatus && decide (0 < c.timerShutdown) then setinfo w c "ups.status".toList (fsd c.status)
    else
      let c :=
        if strcasecmp arg1 "battery.charge".toList = .eq then
          battery D w { c with chargeAct := D.strtod arg2 } "battery.charge.low".toList c.chargeLow 3
        else c
      let c :=
        if strcasecmp arg1 "battery.runtime".toList = .eq then
          battery D w { c with runtimeAct := D.strtod arg2 } "battery.runtime.low".toList c.runtimeLow 4
        else c
      setinfo w c arg1 arg2

/-- `arg` are the slots of `arglist`, of which the first `numargs` are the words of the line. -/
def parseArgs (c : Clone F) (numargs : Nat) (arg : List CStr) : Clone F × Bool :=
  let arg0 := arg.getD 0 []
  if numargs < 1 then (c, false)
  else if strcasecmp arg0 "PONG".toList = .eq then (c, true)
  else if strcasecmp arg0 "DUMPDONE".toList = .eq then ({ c with dumpdone := true }, true)
  else if strcasecmp arg0 "DATASTALE".toList = .eq then ({ c with dstate := dstateDatastale w c.dstate }, true)
  else if strcasecmp arg0 "DATAOK".toList = .eq then ({ c with dstate := dstateDataok w c.dstate }, true)
  else if numargs < 2 then (c, false)
  else if strcasecmp arg0 "DELINFO".toList = .eq then (delinfo w c (arg.getD 1 []), true)
  else if numargs < 3 then (c, false)
  else if strcasecmp arg0 "SETINFO".toList = .eq then (parseSetinfo D w c (arg.getD 1 []) (arg.getD 2 []), true)
  else (c, false)

/-- The connection, if there is one, takes the place of `upsfd`. -/
def sstateConnect (now : Int) (c : Clone F) : ConnectResult → Clone F
  | .noSocket | .fcntlFailed => { c with upsfd := none }
  | .refused =>
    if now - c.lastConnfail < 60 then { c with upsfd := none } else { c with upsfd := none, lastConnfail := now }
  | .writeFailed => { c with upsfd := none, sent := c.sent ++ ["DUMPALL\n".toList] }
  | .ok fd =>
    setinfo w
      { c with
        sent := c.sent ++ ["DUMPALL\n".toList]
        sockCtx := pconfInit
        lastHeard := now
        dumpdone := false
        upsfd := some fd } "ups.status".toList "WAIT".toList

def sstateDisconnect (c : Clone F) : Clone F := { c with upsfd := none }

/-- `sstate_sendline`, whose result is looked at by no caller. -/
def sstateSendline (c : Clone F) (buf : CStr) : Clone F :=
  match c.upsfd with
  | none => c
  | some _ => { c with sent := c.sent ++ [buf] }

/-- What the loop of `sstate_readline` does with a line. -/
def sstateLine (now : Int) (c : Clone F) (numargs : Nat) (arglist : List CStr) : Clone F :=
  let r := parseArgs D w c numargs arglist
  if r.2 then { r.1 with lastHeard := now } else r.1

/-- A parse error leaves the loop before the end of what was read. -/
def parseError (ctx : PconfCtx) (buf : CStr) : Bool := (ChunkReader.afterReject pconfStep ctx buf).isSome

/-- The second component tells that the result is -1. -/
def sstateReadline (now : Int) (c : Clone F) (ret : ReadResult) : Clone F × Bool :=
  match c.upsfd, ret with
  | none, _ => (c, true)
  | some _, .again => (c, false)
  | some _, .fail => (c, true)
  | some _, .data buf =>
    let r := readLoop (sstateLine D w now) c.sockCtx c buf
    ({ r.2 with sockCtx := r.1 }, parseError c.sockCtx buf)

/-- The second component tells that the connection is dead. -/
def sstateDead (now : Int) (c : Clone F) (maxage : Int) : Clone F × Bool :=
  match c.upsfd with
  | none => (c, true)
  | some _ =>
    if c.dumpdone && c.dstate.stale then (c, true)
    else
      let elapsed := now - c.lastHeard
      let c :=
        if maxage.tdiv 3 < elapsed ∧ maxage.tdiv 3 < now - c.lastPing then
          { sstateSendline c "PING\n".toList with lastPing := now }
        else c
      (c, decide (maxage < elapsed))

/-- The outlet as the variable `load.status` tells it. -/
def readOutlet (c : Clone F) (loadStatus : CStr) : Clone F :=
  match dstateGetinfo c.dstate loadStatus with
  | none => c
  | some val =>
    if strcasecmp val "on".toList = .eq ∨ strcasecmp val "yes".toList = .eq then { c with outlet := true }
    else if strcasecmp val "off".toList = .eq ∨ strcasecmp val "no".toList = .eq then { c with outlet := false }
    else c

/-- The countdown starts, if the outlet is on and it does not run. -/
def startShutdown (c : Clone F) : Clone F :=
  if c.outlet = true ∧ c.timerShutdown < 0 then
    setinfo w { c with timerShutdown := c.offdelay } "ups.status".toList (fsd c.status)
  else c

/-- `instcmd`.  There is no result when `load.status` is not set, because the name is then a null pointer. -/
def instcmd (c : Clone F) (cmdname : CStr) : Option (Clone F) :=
  match c.loadStatus with
  | none => none
  | some loadStatus =>
    let c := readOutlet c loadStatus
    if strcasecmp cmdname "shutdown.return".toList = .eq then some { startShutdown w c with timerStart := c.ondelay }
    else if strcasecmp cmdname "shutdown.stayoff".toList = .eq then some { startShutdown w c with timerStart := -1 }
    else some c

def setvar (c : Clone F) (varname val : CStr) : Clone F :=
  if strcasecmp varname "battery.charge.low".toList = .eq then
    setinfo w { c with chargeLow := D.strtod val } "battery.charge.low".toList (D.text (D.strtod val))
  else if strcasecmp varname "battery.runtime.low".toList = .eq then
    setinfo w { c with runtimeLow := D.strtod val } "battery.runtime.low".toList (D.text (D.strtod val))
  else c

/-- The timers are published at the end of each pass and at the start. -/
def setTimers (c : Clone F) : Clone F :=
  setinfo w (setinfo w c "ups.timer.shutdown".toList (formatD c.timerShutdown)) "ups.timer.start".toList
    (formatD c.timerStart)

/-- `upsdrv_initinfo`, with the settings that are given. -/
def upsdrvInitinfo (now : Int) (c : Clone F) (offdelay ondelay mincharge minruntime : Option CStr) : Clone F :=
  let c := { c with
    lastPoll := now
    dstate := dstateAddcmd w (dstateAddcmd w c.dstate "shutdown.return".toList) "shutdown.stayoff".toList
    offdelay := offdelay.elim c.offdelay fun val => (atoi val).toInt
    ondelay := ondelay.elim c.ondelay fun val => (atoi val).toInt
    chargeLow := mincharge.elim c.chargeLow D.strtod
    runtimeLow := minruntime.elim c.runtimeLow D.strtod }
  setTimers w (setinfo w (setinfo w c "ups.delay.shutdown".toList (formatD c.offdelay)) "ups.delay.start".toList
    (formatD c.ondelay))

/-- The command to switch the load is sent upstream if it is set. -/
def sendLoad (c : Clone F) (val : Option CStr) : Clone F :=
  match val with
  | some val => sstateSendline c (snprintf smallbuf ("INSTCMD ".toList ++ val ++ "\n".toList))
  | none => c

/-- The battery is below one of its limits. -/
def batteryLow (c : Clone F) : Bool := D.less c.chargeAct c.chargeLow || D.less c.runtimeAct c.runtimeLow

/-- `timer.start` after a poll. -/
def nextStart (now : Int) (c : Clone F) : Int := if c.online then c.timerStart - (now - c.lastPoll) else c.ondelay

/-- The timers of `upsdrv_updateinfo`. -/
def runTimers (now : Int) (c : Clone F) : Option (Clone F) :=
  if 0 ≤ c.timerShutdown then
    let c := { c with timerShutdown := c.timerShutdown - (now - c.lastPoll) }
    if c.timerShutdown < 0 then some (sendLoad { c with timerShutdown := -1, outlet := false } c.loadOff) else some c
  else if 0 ≤ c.timerStart then
    let c := { c with timerStart := nextStart now c }
    if c.timerStart < 0 then
      some (setinfo w (sendLoad { c with timerStart := -1, outlet := true } c.loadOn) "ups.status".toList c.status)
    else some c
  else if c.online = false ∧ c.outlet = true then
    if batteryLow D c then instcmd w c "shutdown.return".toList else some c
  else some c

/-- `upsdrv_updateinfo`: `conn` is what comes of a new connection and `ret` what `read` returns, if it gets there. -/
def upsdrvUpdateinfo (now : Int) (conn : ConnectResult) (ret : ReadResult) (c : Clone F) : Option (Clone F) :=
  let dead := sstateDead now c 15
  if dead.2 then some (sstateConnect w now (sstateDisconnect dead.1) conn)
  else
    let line := sstateReadline D w now dead.1 ret
    if line.2 then some (sstateDisconnect line.1)
    else (runTimers D w now line.1).map fun c => { setTimers w c with lastPoll := now }

/-- `main` publishes the manufacturer, the model and the serial number under their new names once it has them. -/
def remap (c : Clone F) : Clone F :=
  let copy (c : Clone F) (src dst : CStr) : Clone F :=
    match dstateGetinfo c.dstate src with
    | some val => setinfo w c dst val
    | none => c
  copy (copy (copy c "ups.mfr".toList "device.mfr".toList) "ups.model".toList "device.model".toList)
    "ups.serial".toList "device.serial".toList

end Clone

end Nut
