import Nut.Common.Tokens
import Nut.Drivers.Status

/-!
# `blazer.c`: the status reply

`blazer_status` takes the fields of the reply to a status command apart and publishes them.  The arithmetic of `double`, the
reading and the formatting of its numbers are parameters; the reply is what `blazer_command` returns and the string that it
leaves in the buffer.
-/

namespace Nut

namespace Blazer

/-- The functions on `double` that are used; `lit n k` is the literal of the value `n / 10 ^ k`. -/
structure Doubles (F : Type) where
  strtod : CStr → F
  format : Nat → F → CStr
  lit : Int → Nat → F
  mul : F → F → F
  sub : F → F → F
  div : F → F → F
  pow : F → F → F
  lt : F → F → Bool

/-- The fields of `batt` that are used here. -/
structure Batt (F : Type) where
  packs : F
  runtExp : F
  voltAct : F
  voltHigh : F
  voltLow : F
  chrgAct : F

structure Load (F : Type) where
  act : F
  low : F
  eff : F

structure State (F : Type) where
  status : StatusState
  online : Bool
  batt : Batt F
  load : Load F

section

variable {F : Type}

def setinfo (w : Nat → Bool) (s : State F) (var text : CStr) : State F :=
  { s with status := { s.status with dstate := (dstateSetinfo w s.status.dstate var text).1 } }

def getinfo (s : State F) (var : CStr) : Option CStr := dstateGetinfo s.status.dstate var

/-- `runtimecal` says whether the option of this name is set. -/
def blazerBattery (m : Doubles F) (w : Nat → Bool) (runtimecal : Bool) (s : State F) (ptr : CStr) : State F × F :=
  let act := m.mul s.batt.packs (m.strtod ptr)
  let s := { s with batt := { s.batt with voltAct := act } }
  if (runtimecal = false ∨ getinfo s "battery.charge".toList = none) ∧ m.lt (m.lit 0 0) s.batt.voltLow ∧
      m.lt s.batt.voltLow s.batt.voltHigh then
    let chrg := m.div (m.mul (m.lit 100 0) (m.sub act s.batt.voltLow)) (m.sub s.batt.voltHigh s.batt.voltLow)
    let chrg := if m.lt chrg (m.lit 0 0) then m.lit 0 0 else chrg
    let chrg := if m.lt (m.lit 100 0) chrg then m.lit 100 0 else chrg
    (setinfo w { s with batt := { s.batt with chrgAct := chrg } } "battery.charge".toList (m.format 0 chrg), act)
  else (s, act)

def blazerLoad (m : Doubles F) (s : State F) (ptr : CStr) : State F × F :=
  let act := m.strtod ptr
  let eff := m.pow (m.div act (m.lit 100 0)) s.batt.runtExp
  ({ s with load := { s.load with act := act, eff := if m.lt eff s.load.low then s.load.low else eff } }, act)

/-- The column `conv` of the table. -/
inductive Conv where
  | strtod
  | load
  | battery
  deriving DecidableEq

def Conv.run (m : Doubles F) (w : Nat → Bool) (runtimecal : Bool) (s : State F) (ptr : CStr) : Conv → State F × F
  | .strtod => (s, m.strtod ptr)
  | .load => blazerLoad m s ptr
  | .battery => blazerBattery m w runtimecal s ptr

/-- A line of the table `status`; `fmt` are the digits that are shown. -/
structure Field where
  var : CStr
  fmt : Nat
  conv : Conv
  deriving DecidableEq

def statusTable : List Field :=
  [⟨"input.voltage".toList, 1, .strtod⟩, ⟨"input.voltage.fault".toList, 1, .strtod⟩, ⟨"output.voltage".toList, 1, .strtod⟩,
    ⟨"ups.load".toList, 0, .load⟩, ⟨"input.frequency".toList, 1, .strtod⟩, ⟨"battery.voltage".toList, 2, .battery⟩,
    ⟨"ups.temperature".toList, 1, .strtod⟩]

/-- The characters of a number. -/
def numeric (val : CStr) : Bool := strspn val "0123456789.".toList = val.length

def publish (m : Doubles F) (w : Nat → Bool) (runtimecal : Bool) (s : State F) (f : Field) (val : CStr) : State F :=
  if numeric val then
    let r := f.conv.run m w runtimecal s val
    setinfo w r.1 f.var (m.format f.fmt r.2)
  else s

/-- The loop over the table: the state and the field after the last one of the table, or none where the reply is too short. -/
def statusLoop (m : Doubles F) (w : Nat → Bool) (runtimecal : Bool) :
    List Field → State F → Option CStr × CStr → State F × Option CStr
  | [], s, (val, _) => (s, val)
  | _ :: _, s, (none, _) => (s, none)
  | f :: fields, s, (some val, last) =>
    statusLoop m w runtimecal fields (publish m w runtimecal s f val) (strtok " \r\n".toList last)

/-- The character at the place `i` is a one. -/
def bit (val : CStr) (i : Nat) : Bool := val[i]? = some '1'

def set (s : State F) (word : CStr) : State F := { s with status := statusSet s.status word }

/-- The element for bypass, boost or buck, if there is one. -/
def regulation (m : Doubles F) (vi vo : F) : Option CStr :=
  if m.lt vo (m.mul (m.lit 5 1) vi) then none
  else if m.lt vo (m.mul (m.lit 95 2) vi) then some "TRIM".toList
  else if m.lt vo (m.mul (m.lit 105 2) vi) then some "BYPASS".toList
  else if m.lt vo (m.mul (m.lit 15 1) vi) then some "BOOST".toList
  else none

/-- There is no state after `strtod` of a variable that does not exist. -/
def setRegulation (m : Doubles F) (s : State F) : Option (State F) :=
  match getinfo s "input.voltage".toList, getinfo s "output.voltage".toList with
  | some vi, some vo =>
    match regulation m (m.strtod vi) (m.strtod vo) with
    | none => some s
    | some word => some (set s word)
  | _, _ => none

/-- What follows from the status bits, as far as the one for bypass, boost or buck. -/
def startStatus (w : Nat → Bool) (s : State F) (val : CStr) : State F :=
  let s := setinfo w s "ups.beeper.status".toList (if bit val 7 then "enabled".toList else "disabled".toList)
  let s := setinfo w s "ups.type".toList (if bit val 4 then "offline / line interactive".toList else "online".toList)
  let s := { s with status := statusInit s.status }
  let s := if bit val 0 then { set s "OB".toList with online := false } else { set s "OL".toList with online := true }
  if bit val 1 then set s "LB".toList else s

/-- What follows from the status bits after it. -/
def endStatus (w : Nat → Bool) (s : State F) (val : CStr) : State F :=
  let s := if bit val 5 then set s "CAL".toList else s
  let s := { s with status := alarmInit s.status }
  let s := if bit val 3 then { s with status := alarmSet s.status "UPS selftest failed!".toList } else s
  let s := if bit val 6 then set { s with status := alarmSet s.status "Shutdown imminent!".toList } "FSD".toList else s
  { s with status := statusCommit w (alarmCommit w s.status) }

def setStatus (m : Doubles F) (w : Nat → Bool) (s : State F) (val : CStr) : Option (State F) :=
  let s := startStatus w s val
  match if bit val 2 then setRegulation m s else some s with
  | none => none
  | some s => some (endStatus w s val)

/-- `ret` is what `blazer_command` returns. -/
def blazerStatus (m : Doubles F) (w : Nat → Bool) (runtimecal : Bool) (s : State F) (ret : Int) (buf : CStr) :
    Option (State F × Int) :=
  if ret < 46 then some (s, -1)
  else if buf.head? ≠ some '(' then some (s, -1)
  else
    match statusLoop m w runtimecal statusTable s (strtok " ".toList buf.tail) with
    | (s, none) => some (s, -1)
    | (s, some val) =>
      if strspn val "01".toList ≠ 8 then some (s, -1)
      else (setStatus m w s val).map fun s => (s, 0)

end

end Blazer

end Nut
