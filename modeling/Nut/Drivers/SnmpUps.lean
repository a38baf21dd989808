import Nut.Common.Numbers
import Nut.Drivers.Status

/-!
# `snmp-ups.c`: the table of a MIB

The walks over the table, which read the entries from the device and publish them, and the writing of variables and commands.
The device is a parameter: what it answers to each request; so are the arithmetic and the conversions of `float`.

The texts of `sprintf` go into buffers of `SU_INFOSIZE` bytes.  There is no result where a text does not fit, a NULL pointer or
the memory behind a lookup table is read, or a format asks for more arguments than it gets.
-/

namespace Nut

namespace SnmpUps

abbrev Flags := BitVec 64

def suFlagOk : Flags := 0x1
def suFlagStatic : Flags := 0x2
def suFlagAbsent : Flags := 0x4
def suFlagStale : Flags := 0x8
def suFlagNeginvalid : Flags := 0x10
def suFlagUnique : Flags := 0x20
def suFlagSetint : Flags := 0x40
def suOutlet : Flags := 0x80
def suCmdOffset : Flags := 0x100
def suInphases : Flags := 0x3000
def suInput1 : Flags := 0x1000
def suInput3 : Flags := 0x2000
def suOutphases : Flags := 0xc000
def suOutput1 : Flags := 0x4000
def suOutput3 : Flags := 0x8000
def suBypphases : Flags := 0x30000
def suBypass1 : Flags := 0x10000
def suBypass3 : Flags := 0x20000
def suTypeMask : Flags := 0x1c0000
def suTypeCmd : Flags := 0xc0000

def suInfosize : Nat := 128
def suStaleRetry : UInt64 := 10

/-- Some of the bits are set. -/
def has (flags bits : Flags) : Bool := flags &&& bits ≠ 0

def clear (flags bits : Flags) : Flags := flags &&& ~~~bits

/-- An entry of a lookup table; a name may be NULL. -/
structure InfoLkp where
  oidValue : Int32
  infoValue : Option CStr
  deriving DecidableEq

/-- What `setvar` may point to. -/
inductive PhaseVar where
  | input
  | output
  | bypass
  deriving DecidableEq

structure SnmpInfo (F : Type) where
  infoType : CStr
  infoFlags : BitVec 32
  infoLen : F
  oid : Option CStr
  dfl : Option CStr
  flags : Flags
  oid2info : Option (List InfoLkp)
  setvar : Option PhaseVar

/-- What comes with the answer to a get request, as far as the driver tells the types apart. -/
inductive Pdu where
  | text (string : CStr)
  | number (integer : Int)
  | timeticks (integer : Int)
  | objid (shown : CStr)
  | other
  deriving DecidableEq

/-- A set request. -/
structure SetRequest where
  oid : CStr
  type : Char
  value : CStr
  deriving DecidableEq

/-- What is outside the driver.  `get n` is the answer to the `n`-th get request, and `set n` says whether the device does
what the `n`-th set request asks for; `exitFlag k i` is the flag before the entry `i` of the walk of iteration `k`. -/
structure Env (F : Type) where
  w : Nat → Bool
  get : Nat → CStr → Option Pdu
  set : Nat → SetRequest → Bool
  exitFlag : UInt64 → Nat → Bool
  scaled : Int → F → CStr
  temperature : Int → F → CStr
  celsius : Bool → Int → CStr
  ofInt : Int → F
  toLong : F → Int

/-- The variables of the driver, and the requests that it has sent. -/
structure Snmp (F : Type) where
  info : List (SnmpInfo F)
  inputPhases : Int32
  outputPhases : Int32
  bypassPhases : Int32
  outletIndexBase : Int
  iterations : UInt64
  status : StatusState
  gets : List CStr
  sets : List SetRequest

section

variable {F : Type}

def getinfo (s : Snmp F) (var : CStr) : Option CStr := dstateGetinfo s.status.dstate var

def onDstate (s : Snmp F) (f : Dstate → Dstate) : Snmp F :=
  { s with status := { s.status with dstate := f s.status.dstate } }

/-- The text of a `long` under `%ld`. -/
def formatLong (i : Int) : CStr := if i < 0 then '-' :: Nat.toDigits 10 i.natAbs else Nat.toDigits 10 i.natAbs

/-- `sprintf` of a template with one number into a buffer. -/
def sprintfI (format : CStr) (number : Int) : Option CStr :=
  let text := match format.idxOf? '%' with
    | none => some format
    | some i =>
      if format[i + 1]? = some 'i' ∧ '%' ∉ format.drop (i + 2) then
        some (format.take i ++ formatLong number ++ format.drop (i + 2))
      else none
  text.filter fun text => text.length < suInfosize

/-! ### Requests -/

def nutSnmpGet (env : Env F) (s : Snmp F) (oid : CStr) : Snmp F × Option Pdu :=
  ({ s with gets := s.gets ++ [oid] }, env.get s.gets.length oid)

/-- The name of a value; there is none if it is not in the table. -/
def suFindInfoval : List InfoLkp → Int → Option (Option CStr)
  | [], _ => none
  | e :: oid2info, value =>
    match e.infoValue with
    | none => none
    | some name =>
      if name = "NULL".toList then some none
      else if e.oidValue.toInt = value then some (some name)
      else suFindInfoval oid2info value

/-- The value of a name, or -1. -/
def suFindValinfo : List InfoLkp → CStr → Option Int32
  | [], _ => none
  | e :: oid2info, value =>
    match e.infoValue with
    | none => none
    | some name =>
      if name = "NULL".toList then some (-1)
      else if name = value then some e.oidValue
      else suFindValinfo oid2info value

/-- The bytes of a string in the buffer. -/
def inBuffer (string : CStr) : CStr := (string.take (suInfosize - 1)).takeWhile (· ≠ '\x00')

/-- The text that is left in the buffer, if there is one. -/
def nutSnmpGetStr (env : Env F) (s : Snmp F) (oid : Option CStr) (oid2info : Option (List InfoLkp)) :
    Option (Snmp F × Option CStr) :=
  match oid with
  | none => none
  | some oid =>
    match nutSnmpGet env s oid with
    | (s, none) => some (s, none)
    | (s, some (.text string)) => some (s, some (inBuffer string))
    | (s, some (.number integer)) =>
      match oid2info with
      | none => some (s, some (formatLong integer))
      | some oid2info => (suFindInfoval oid2info integer).map fun name => (s, some (inBuffer (name.getD "UNKNOWN".toList)))
    | (s, some (.timeticks integer)) => some (s, some (formatLong (integer.tdiv 100)))
    | (s, some (.objid shown)) => some (s, some (inBuffer shown))
    | (s, some .other) => some (s, none)

def nutSnmpGetInt (env : Env F) (s : Snmp F) (oid : Option CStr) : Option (Snmp F × Option Int) :=
  match oid with
  | none => none
  | some oid =>
    match nutSnmpGet env s oid with
    | (s, none) => some (s, none)
    | (s, some (.text string)) => some (s, some (strtolBase 0 (string.takeWhile (· ≠ '\x00'))))
    | (s, some (.number integer)) => some (s, some integer)
    | (s, some (.timeticks integer)) => some (s, some (integer.tdiv 100))
    | (s, some (.objid _)) => some (s, none)
    | (s, some .other) => some (s, none)

def nutSnmpSet (env : Env F) (s : Snmp F) (r : SetRequest) : Snmp F × Bool :=
  ({ s with sets := s.sets ++ [r] }, env.set s.sets.length r)

/-! ### Values -/

/-- `value` is NULL for the default. -/
def suSetinfo (env : Env F) (s : Snmp F) (info : SnmpInfo F) (value : Option CStr) : Option (Snmp F) :=
  if info.flags &&& suTypeMask = suTypeCmd then some s
  else if strcasecmp info.infoType "ups.status".toList = .eq then some s
  else
    match value.or info.dfl with
    | none => none
    | some text =>
      some (onDstate s fun d =>
        let d := (dstateSetinfo env.w d info.infoType text).1
        let d := dstateSetflags env.w d info.infoType info.infoFlags
        let d := dstateSetaux env.w d info.infoType (Int32.ofInt (env.toLong info.infoLen))
        dstateDataok env.w d)

def suStatusSet (s : Snmp F) (info : SnmpInfo F) (value : Int) : Option (Snmp F) :=
  match info.oid2info with
  | none => some s
  | some oid2info =>
    match suFindInfoval oid2info value with
    | none => none
    | some none => some s
    | some (some name) => some (if name = [] then s else { s with status := statusSet s.status name })

/-- Other entries with the same name are not shown any more; `self` is the entry itself, if it is in the table. -/
def disableCompetition (s : Snmp F) (self : Option Nat) (infoType : CStr) : Snmp F :=
  { s with
    info := s.info.mapIdx fun j p =>
      if self ≠ some j ∧ p.infoType = infoType then { p with flags := clear p.flags suFlagOk } else p }

/-- A value is stored in the variable that `setvar` points to. -/
def storePhases (s : Snmp F) (value : Int) : PhaseVar → Snmp F
  | .input => { s with inputPhases := Int32.ofInt value }
  | .output => { s with outputPhases := Int32.ofInt value }
  | .bypass => { s with bypassPhases := Int32.ofInt value }

def apccOidIemTemp : CStr := ".1.3.6.1.4.1.318.1.1.10.2.3.2.1.4.1".toList
def apccOidIemTempUnit : CStr := ".1.3.6.1.4.1.318.1.1.10.2.3.2.1.5.1".toList

/-- The entry, which may change, and whether it was read. -/
def suUpsGet (env : Env F) (s : Snmp F) (self : Option Nat) (info : SnmpInfo F) : Option (SnmpInfo F × Snmp F × Bool) :=
  if strcasecmp info.infoType "ups.status".toList = .eq then
    match nutSnmpGetInt env s info.oid with
    | none => none
    | some (s, none) => some (info, s, false)
    | some (s, some value) => (suStatusSet s info value).map fun s => (info, s, true)
  else if strcasecmp info.infoType "ambient.temperature".toList = .eq then
    match nutSnmpGetInt env s info.oid with
    | none => none
    | some (s, none) => some (info, s, false)
    | some (s, some value) =>
      if info.oid = some apccOidIemTemp then
        match nutSnmpGetInt env s (some apccOidIemTempUnit) with
        | none => none
        | some (s, units) =>
          (suSetinfo env s info (some (env.celsius (units.getD 2 = 2) value))).map fun s => (info, s, true)
      else (suSetinfo env s info (some (env.temperature value info.infoLen))).map fun s => (info, s, true)
  else if info.infoFlags = 0 then
    match nutSnmpGetInt env s info.oid with
    | none => none
    | some (s, none) => some (info, s, false)
    | some (s, some value) =>
      if has info.flags suFlagNeginvalid ∧ value < 0 then
        let info := { info with flags := clear info.flags suFlagOk }
        if has info.flags suFlagUnique then
          some ({ info with flags := clear info.flags suFlagUnique }, disableCompetition s self info.infoType, false)
        else some (info, s, false)
      else
        let text := some (env.scaled value info.infoLen)
        if has info.flags suFlagSetint then
          match info.setvar with
          | none => none
          | some var => (suSetinfo env (storePhases s value var) info text).map fun s => (info, s, true)
        else (suSetinfo env s info text).map fun s => (info, s, true)
  else
    match nutSnmpGetStr env s info.oid info.oid2info with
    | none => none
    | some (s, none) => some (info, s, false)
    | some (s, some text) => (suSetinfo env s info (some text)).map fun s => (info, s, true)

/-! ### The walk -/

inductive WalkMode where
  | init
  | update
  deriving DecidableEq

def getAndProcessData (env : Env F) (mode : WalkMode) (s : Snmp F) (self : Option Nat) (info : SnmpInfo F) :
    Option (SnmpInfo F × Snmp F × Bool) :=
  match suUpsGet env s self info with
  | none => none
  | some (info, s, true) =>
    let info := { info with flags := clear info.flags suFlagStale }
    let r :=
      if has info.flags suFlagUnique then
        ({ info with flags := clear info.flags suFlagUnique }, disableCompetition s self info.infoType)
      else (info, s)
    some (r.1, onDstate r.2 (dstateDataok env.w), true)
  | some (info, s, false) =>
    match mode with
    | .init => some ({ info with flags := clear info.flags suFlagOk }, s, false)
    | .update => some ({ info with flags := info.flags ||| suFlagStale }, onDstate s (dstateDatastale env.w), false)

/-- A check of the number of phases: the flags, and whether the entry is still used. -/
def checkPhases (phases one three : Flags) (count countOfThree : Int32) (flags : Flags) : Flags × Bool :=
  if ¬ has flags phases then (flags, true)
  else if count = 0 then (flags, false)
  else if has flags one then
    if count = 1 then (clear flags phases, true) else (clear flags suFlagOk, false)
  else if has flags three then
    if countOfThree = 3 then (clear flags phases, true) else (clear flags suFlagOk, false)
  else (flags, true)

def checkInput (s : Snmp F) : Flags → Flags × Bool := checkPhases suInphases suInput1 suInput3 s.inputPhases s.inputPhases

def checkOutput (s : Snmp F) : Flags → Flags × Bool := checkPhases suOutphases suOutput1 suOutput3 s.outputPhases s.outputPhases

/-- Where three bypass phases are asked for, it is the number of input phases that is compared. -/
def checkBypass (s : Snmp F) : Flags → Flags × Bool := checkPhases suBypphases suBypass1 suBypass3 s.bypassPhases s.inputPhases

/-- What the walk does with an entry. -/
inductive Selection where
  | skip
  | default
  | poll
  deriving DecidableEq

def isCmd (flags : Flags) : Bool := flags &&& suTypeMask = suTypeCmd

/-- The tests at the start of the loop of `snmp_ups_walk`: the flags after them, and what follows. -/
def select (mode : WalkMode) (s : Snmp F) (flags : Flags) : Flags × Selection :=
  if isCmd flags ∧ ¬ has flags suOutlet then (flags, .skip)
  else if ¬ has flags suFlagOk then (flags, .skip)
  else if mode = .update ∧ has flags suFlagStatic then (flags, .skip)
  else if has flags suFlagAbsent ∧ ¬ has flags suOutlet then
    (if mode = .init then flags ||| suFlagStatic else flags, .default)
  else if has flags suFlagStale ∧ s.iterations % suStaleRetry ≠ 0 then (flags, .skip)
  else
    match checkInput s flags with
    | (flags, false) => (flags, .skip)
    | (flags, true) =>
      match checkOutput s flags with
      | (flags, false) => (flags, .skip)
      | (flags, true) =>
        match checkBypass s flags with
        | (flags, false) => (flags, .skip)
        | (flags, true) => (flags, .poll)

/-- The first index, 0 or 1, that the device knows. -/
def baseSnmpOutletIndex (env : Env F) (s : Snmp F) (oid : Option CStr) : Option (Snmp F × Int) :=
  if s.outletIndexBase ≠ -1 then some (s, s.outletIndexBase)
  else
    match oid with
    | none => none
    | some oid =>
      match sprintfI oid 0, sprintfI oid 1 with
      | none, _ => none
      | some oid0, oid1 =>
        match nutSnmpGet env s oid0 with
        | (s, some _) => some ({ s with outletIndexBase := 0 }, 0)
        | (s, none) =>
          match oid1 with
          | none => none
          | some oid1 =>
            match nutSnmpGet env s oid1 with
            | (s, some _) => some ({ s with outletIndexBase := 1 }, 1)
            | (s, none) => some ({ s with outletIndexBase := 2 }, 2)

def baseNutOutletOffset (s : Snmp F) : Int := if s.outletIndexBase = 0 then 1 else 0

/-- The iteration of `guestimate_outlet_count`; the count is an `int`. -/
def guestimateLoop (env : Env F) (oid : CStr) (base : Int) : Nat → Nat → Snmp F → Option (Snmp F × Nat)
  | 0, _, _ => none
  | fuel + 1, count, s =>
    match sprintfI oid (base + count) with
    | none => none
    | some test =>
      match nutSnmpGet env s test with
      | (s, none) => some (s, count)
      | (s, some _) => guestimateLoop env oid base fuel (count + 1) s

def guestimateOutletCount (env : Env F) (s : Snmp F) (oid : Option CStr) : Option (Snmp F × Nat) :=
  match oid with
  | none => none
  | some oid =>
    match sprintfI oid 0 with
    | none => none
    | some test =>
      match nutSnmpGet env s test with
      | (s, none) => guestimateLoop env oid 1 2147483647 0 s
      | (s, some _) => guestimateLoop env oid 0 2147483647 0 s

def setFlagsAt (s : Snmp F) (i : Nat) (flags : Flags) : Snmp F :=
  { s with info := s.info.modify i fun p => { p with flags := flags } }

/-- `strstr` -/
def contains (text part : CStr) : Bool := text.tails.any fun t => part.isPrefixOf t

/-- The default value of an outlet, where it is a template. -/
def outletDefault (template : SnmpInfo F) (number : Int) : Option (Option CStr) :=
  match template.dfl with
  | none => some none
  | some dfl => if contains dfl "%i".toList then (sprintfI dfl number).map some else some (some dfl)

/-- The `OID` of an outlet, if the template has one. -/
def outletOid (template : SnmpInfo F) (number : Int) : Option (Option CStr) :=
  match template.oid with
  | none => some none
  | some oid => (sprintfI oid number).map some

/-- The entry of an outlet, made from its template and from what the last one has left. -/
def outletInfo (s : Snmp F) (template cur : SnmpInfo F) (number : Int) : Option (SnmpInfo F) := do
  let infoType ← sprintfI template.infoType (number + baseNutOutletOffset s)
  let dfl ← outletDefault template (number + baseNutOutletOffset s)
  let oid ← outletOid template number
  some { cur with infoType := infoType, dfl := dfl, oid := oid }

/-- What is done for the entry of an outlet: the entry after it, and the status of the get, if there was one. -/
def processOutlet (env : Env F) (mode : WalkMode) (cmd : Bool) (s : Snmp F) (cur : SnmpInfo F) :
    Option (SnmpInfo F × Snmp F × Option Bool) :=
  if cur.oid = none then (suSetinfo env s cur none).map fun s => (cur, s, none)
  else if cmd then
    some (cur, if mode = .init then onDstate s fun d => dstateAddcmd env.w d cur.infoType else s, none)
  else (getAndProcessData env mode s none cur).map fun r => (r.1, r.2.1, some r.2.2)

/-- The rounds of the loop over the outlets, from the outlet `number` on.  The template is entry `i`, which gets the flags of
`cur` after each round. -/
def outletLoop (env : Env F) (mode : WalkMode) (i : Nat) (template : SnmpInfo F) :
    Nat → Int → SnmpInfo F → Snmp F → Option Bool → Option (Snmp F × Option Bool)
  | 0, _, _, s, status => some (s, status)
  | rest + 1, number, cur, s, status => do
    let cur ← outletInfo s template cur number
    let (cur, s, got) ← processOutlet env mode (isCmd template.flags) s cur
    outletLoop env mode i template rest (number + 1) cur (setFlagsAt s i cur.flags) (got.or status)

/-- The number of outlets, which is published if it was not known. -/
def outletCount (env : Env F) (s : Snmp F) (oid : Option CStr) : Option (Snmp F × Int) :=
  match getinfo s "outlet.count".toList with
  | some count => some (s, (atoi count).toInt)
  | none =>
    match guestimateOutletCount env s oid with
    | none => none
    | some (s, count) =>
      some (onDstate s fun d => (dstateSetinfo env.w d "outlet.count".toList (formatLong count)).1, count)

/-- The outlets of the template at `i`. -/
def walkOutlets (env : Env F) (mode : WalkMode) (s : Snmp F) (i : Nat) (template : SnmpInfo F) :
    Option (Snmp F × Option Bool) :=
  match outletCount env s template.oid with
  | none => none
  | some (s, count) =>
    if 0 < count then
      match baseSnmpOutletIndex env s template.oid with
      | none => none
      | some (s, base) => outletLoop env mode i template count.toNat base template s none
    else some (s, none)

/-- The body of the loop of `snmp_ups_walk`; the second result is the status of the last get in it, if there was one. -/
def walkEntry (env : Env F) (mode : WalkMode) (s : Snmp F) (i : Nat) : Option (Snmp F × Option Bool) :=
  match s.info[i]? with
  | none => some (s, none)
  | some info =>
    let flags := (select mode s info.flags).1
    let s' := setFlagsAt s i flags
    match (select mode s info.flags).2 with
    | .skip => some (s', none)
    | .default =>
      if mode = .init ∧ info.dfl ≠ none then (suSetinfo env s' { info with flags := flags } none).map fun s => (s, none)
      else some (s', none)
    | .poll =>
      if has flags suOutlet then walkOutlets env mode s' i { info with flags := flags }
      else
        match getAndProcessData env mode s' (some i) { info with flags := flags } with
        | none => none
        | some (info, s, status) => some (setFlagsAt s i info.flags, some status)

/-- The loop over `rest` entries from the one at `i` on. -/
def walkLoop (env : Env F) (mode : WalkMode) : Nat → Nat → Snmp F → Bool → Option (Snmp F × Bool)
  | 0, _, s, status => some ({ s with iterations := s.iterations + 1 }, status)
  | rest + 1, i, s, status =>
    if env.exitFlag s.iterations i then some (s, true)
    else
      match walkEntry env mode s i with
      | none => none
      | some (s, got) => walkLoop env mode rest (i + 1) s (got.getD status)

def snmpUpsWalk (env : Env F) (mode : WalkMode) (s : Snmp F) : Option (Snmp F × Bool) :=
  walkLoop env mode s.info.length 0 s false

/-- `upsdrv_updateinfo`, when an update is due. -/
def upsdrvUpdateinfo (env : Env F) (s : Snmp F) : Option (Snmp F) :=
  match snmpUpsWalk env .update { s with status := statusInit s.status } with
  | none => none
  | some (s, ok) =>
    let s := onDstate s (if ok then dstateDataok env.w else dstateDatastale env.w)
    some { s with status := statusCommit env.w s.status }

/-- The loop of `upsdrv_initinfo` over `rest` entries from the one at `i` on. -/
def addCommands (env : Env F) : Nat → Nat → Snmp F → Option (Snmp F)
  | 0, _, s => some s
  | rest + 1, i, s =>
    match s.info[i]? with
    | none => some s
    | some info =>
      let s := setFlagsAt s i (info.flags ||| suFlagOk)
      if isCmd info.flags ∧ ¬ has info.flags suOutlet then
        match info.oid with
        | none => none
        | some oid =>
          match nutSnmpGet env s oid with
          | (s, none) => addCommands env rest (i + 1) s
          | (s, some _) => addCommands env rest (i + 1) (onDstate s fun d => dstateAddcmd env.w d info.infoType)
      else addCommands env rest (i + 1) s

def disableTransferOids (s : Snmp F) : Snmp F :=
  { s with
    info := s.info.map fun p =>
      if strcasecmp p.infoType "input.transfer.low".toList = .eq ∨ strcasecmp p.infoType "input.transfer.high".toList = .eq then
        { p with flags := clear p.flags suFlagOk }
      else p }

/-- `notransferoids` is an option of the driver. -/
def upsdrvInitinfo (env : Env F) (notransferoids : Bool) (s : Snmp F) : Option (Snmp F) :=
  match addCommands env s.info.length 0 s with
  | none => none
  | some s =>
    match snmpUpsWalk env .init (if notransferoids then disableTransferOids s else s) with
    | none => none
    | some (s, ok) => some (onDstate s (if ok then dstateDataok env.w else dstateDatastale env.w))

/-! ### Writing -/

/-- The results of `su_setvar` and of `su_instcmd`. -/
inductive Stat where
  | handled
  | unknown
  | invalid
  | failed
  deriving DecidableEq

def suFindInfo (s : Snmp F) (type : CStr) : Option (SnmpInfo F) :=
  s.info.find? fun p => strcasecmp p.infoType type = .eq

def isOutletName (name : CStr) : Bool := "outlet".toList.isPrefixOf name

/-- `strchr` with a dot: the text from it on. -/
def strchrDot (s : CStr) : Option CStr :=
  match s.dropWhile (· ≠ '.') with
  | [] => none
  | t => some t

/-- The template for the name of a variable or of a command, and the number for its `OID`. -/
def findTemplate (s : Snmp F) (name : CStr) (noCount : Stat) : Option (Except Stat (SnmpInfo F × Int)) :=
  match strchrDot name with
  | none => none
  | some dot =>
    let outletNumber := (atoi dot.tail).toInt
    match getinfo s "outlet.count".toList with
    | none => some (.error noCount)
    | some count =>
      if (atoi count).toInt < outletNumber then some (.error .invalid)
      else
        match strchrDot dot.tail with
        | none => none
        | some rest =>
          if suInfosize ≤ ("outlet.%i".toList ++ rest).length then none
          else (suFindInfo s ("outlet.%i".toList ++ rest)).map fun p => .ok (p, outletNumber - baseNutOutletOffset s)

/-- The end of `su_setvar`, where the entry is known. -/
def setEntry (env : Env F) (s : Snmp F) (info : SnmpInfo F) (val : CStr) : Option (Snmp F × Stat) :=
  if ¬ has info.flags suFlagOk then some (s, .unknown)
  else if info.infoFlags &&& stFlagRw = 0 then some (s, .invalid)
  else
    match info.oid with
    | none => some (s, .invalid)
    | some oid => do
      let r : SetRequest ←
        if info.infoFlags &&& stFlagString ≠ 0 then some ⟨oid, 's', val⟩
        else
          match info.oid2info with
          | some oid2info => (suFindValinfo oid2info val).map fun value => ⟨oid, 'i', formatLong value.toInt⟩
          | none => some ⟨oid, 'i', formatLong (Int32.ofInt (strtolBase 0 val)).toInt⟩
      match nutSnmpSet env s r with
      | (s, false) => some (s, .failed)
      | (s, true) => (suSetinfo env s info (some val)).map fun s => (s, .handled)

def suSetvar (env : Env F) (s : Snmp F) (varname val : CStr) : Option (Snmp F × Stat) :=
  if isOutletName varname then
    match findTemplate s varname .invalid with
    | none => none
    | some (.error stat) => some (s, stat)
    | some (.ok (template, number)) => do
      let dfl ← outletDefault template number
      let oid ← outletOid template number
      if suInfosize ≤ varname.length then none
      else setEntry env s { template with infoType := varname, oid := oid, dfl := dfl } val
  else
    match suFindInfo s varname with
    | none => some (s, .unknown)
    | some info => setEntry env s info val

/-- The end of `su_instcmd`: the command is sent. -/
def sendEntry (env : Env F) (s : Snmp F) (info : SnmpInfo F) (extradata : Option CStr) : Option (Snmp F × Stat) := do
  let oid ← info.oid
  let r : SetRequest ←
    if info.infoFlags &&& stFlagString ≠ 0 then (extradata.or info.dfl).map fun value => ⟨oid, 's', value⟩
    else
      let value := match extradata with
        | some data => env.ofInt (atoi data).toInt
        | none => info.infoLen
      some ⟨oid, 'i', formatLong (env.toLong value)⟩
  match nutSnmpSet env s r with
  | (s, false) => some (s, .failed)
  | (s, true) => some (s, .handled)

/-- A command that is sent as it is, if it is available. -/
def suInstcmdPlain (env : Env F) (s : Snmp F) (cmdname : CStr) (extradata : Option CStr) : Option (Snmp F × Stat) :=
  match suFindInfo s cmdname with
  | none => some (s, .unknown)
  | some info => if has info.flags suFlagOk then sendEntry env s info extradata else some (s, .unknown)

/-- Two commands, of which the second is sent if the first was handled. -/
def suInstcmdBoth (env : Env F) (s : Snmp F) (on : Option CStr) : Option (Snmp F × Stat) :=
  match suInstcmdPlain env s "load.on.delay".toList on with
  | some (s, .handled) => suInstcmdPlain env s "load.off.delay".toList (getinfo s "ups.delay.shutdown".toList)
  | r => r

/-- The variable `ups.start.auto` is set if it is known; what comes of it does not matter. -/
def setStartAuto (env : Env F) (s : Snmp F) (val : CStr) : Option (Snmp F) :=
  match getinfo s "ups.start.auto".toList with
  | none => some s
  | some _ => (suSetvar env s "ups.start.auto".toList val).map Prod.fst

/-- The commands that others are made of, where the device does not have them. -/
def suInstcmdComposite (env : Env F) (s : Snmp F) (cmdname : CStr) : Option (Snmp F × Stat) :=
  if strcasecmp cmdname "load.on".toList = .eq then suInstcmdPlain env s "load.on.delay".toList (some "0".toList)
  else if strcasecmp cmdname "load.off".toList = .eq then suInstcmdPlain env s "load.off.delay".toList (some "0".toList)
  else if strcasecmp cmdname "shutdown.return".toList = .eq then do
    let s ← setStartAuto env s "yes".toList
    suInstcmdBoth env s (getinfo s "ups.delay.start".toList)
  else if strcasecmp cmdname "shutdown.stayoff".toList = .eq then do
    let s ← setStartAuto env s "no".toList
    suInstcmdBoth env s (some "-1".toList)
  else some (s, .unknown)

def suInstcmd (env : Env F) (s : Snmp F) (cmdname : CStr) (extradata : Option CStr) : Option (Snmp F × Stat) :=
  if isOutletName cmdname then
    match findTemplate s cmdname .unknown with
    | none => none
    | some (.error stat) => some (s, stat)
    | some (.ok (template, number)) => do
      let dfl ← outletDefault template number
      let oid ← outletOid template (if has template.flags suCmdOffset then number + 1 else number)
      if oid = none ∨ ¬ has template.flags suFlagOk then some (s, .unknown)
      else sendEntry env s { template with oid := oid, dfl := dfl } extradata
  else
    match suFindInfo s cmdname with
    | none => suInstcmdComposite env s cmdname
    | some info => if has info.flags suFlagOk then sendEntry env s info extradata else suInstcmdComposite env s cmdname

end

end SnmpUps

end Nut
