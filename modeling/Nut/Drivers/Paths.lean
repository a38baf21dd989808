import Nut.Common.Buffers
import Nut.Common.Numbers
import Nut.Common.State
import Nut.Common.Tokens
import Nut.Drivers.Lookup

/-!
# The names of paths

`libhid.c` writes a node of a path by its name in the usage tables, by the index of a collection in brackets, or by its
eight hexadecimal digits, and reads these three in the same order.  A node has 32 bits.

Two names stand twice in the table, once on each page.  The second of each is never found by its name, and what is read
for it is the usage of the first page (`readBack`).  A text that fills its buffer loses its last character, as `snprintfcat`
keeps two bytes free, which changes the last node unless it is an index or 0.  Every other path is read back as it was
(`string_to_path_iff`).
-/

namespace Nut

namespace Hid

structure UsageLkp where
  usageName : String
  usageCode : Nat

/-- The usages of the Power Device page and of the Battery System page. -/
def hidUsageLkp : List UsageLkp :=
  [⟨"Undefined", 0x00840000⟩, ⟨"iName", 0x00840001⟩, ⟨"PresentStatus", 0x00840002⟩, ⟨"ChangedStatus", 0x00840003⟩,
   ⟨"UPS", 0x00840004⟩, ⟨"PowerSupply", 0x00840005⟩, ⟨"BatterySystem", 0x00840010⟩, ⟨"BatterySystemID", 0x00840011⟩,
   ⟨"Battery", 0x00840012⟩, ⟨"BatteryID", 0x00840013⟩, ⟨"Charger", 0x00840014⟩, ⟨"ChargerID", 0x00840015⟩,
   ⟨"PowerConverter", 0x00840016⟩, ⟨"PowerConverterID", 0x00840017⟩, ⟨"OutletSystem", 0x00840018⟩,
   ⟨"OutletSystemID", 0x00840019⟩, ⟨"Input", 0x0084001a⟩, ⟨"InputID", 0x0084001b⟩, ⟨"Output", 0x0084001c⟩,
   ⟨"OutputID", 0x0084001d⟩, ⟨"Flow", 0x0084001e⟩, ⟨"FlowID", 0x0084001f⟩, ⟨"Outlet", 0x00840020⟩,
   ⟨"OutletID", 0x00840021⟩, ⟨"Gang", 0x00840022⟩, ⟨"GangID", 0x00840023⟩, ⟨"PowerSummary", 0x00840024⟩,
   ⟨"PowerSummaryID", 0x00840025⟩, ⟨"Voltage", 0x00840030⟩, ⟨"Current", 0x00840031⟩, ⟨"Frequency", 0x00840032⟩,
   ⟨"ApparentPower", 0x00840033⟩, ⟨"ActivePower", 0x00840034⟩, ⟨"PercentLoad", 0x00840035⟩, ⟨"Temperature", 0x00840036⟩,
   ⟨"Humidity", 0x00840037⟩, ⟨"BadCount", 0x00840038⟩, ⟨"ConfigVoltage", 0x00840040⟩, ⟨"ConfigCurrent", 0x00840041⟩,
   ⟨"ConfigFrequency", 0x00840042⟩, ⟨"ConfigApparentPower", 0x00840043⟩, ⟨"ConfigActivePower", 0x00840044⟩,
   ⟨"ConfigPercentLoad", 0x00840045⟩, ⟨"ConfigTemperature", 0x00840046⟩, ⟨"ConfigHumidity", 0x00840047⟩,
   ⟨"SwitchOnControl", 0x00840050⟩, ⟨"SwitchOffControl", 0x00840051⟩, ⟨"ToggleControl", 0x00840052⟩,
   ⟨"LowVoltageTransfer", 0x00840053⟩, ⟨"HighVoltageTransfer", 0x00840054⟩, ⟨"DelayBeforeReboot", 0x00840055⟩,
   ⟨"DelayBeforeStartup", 0x00840056⟩, ⟨"DelayBeforeShutdown", 0x00840057⟩, ⟨"Test", 0x00840058⟩,
   ⟨"ModuleReset", 0x00840059⟩, ⟨"AudibleAlarmControl", 0x0084005a⟩, ⟨"Present", 0x00840060⟩, ⟨"Good", 0x00840061⟩,
   ⟨"InternalFailure", 0x00840062⟩, ⟨"VoltageOutOfRange", 0x00840063⟩, ⟨"FrequencyOutOfRange", 0x00840064⟩,
   ⟨"Overload", 0x00840065⟩, ⟨"OverCharged", 0x00840066⟩, ⟨"OverTemperature", 0x00840067⟩,
   ⟨"ShutdownRequested", 0x00840068⟩, ⟨"ShutdownImminent", 0x00840069⟩, ⟨"SwitchOn/Off", 0x0084006b⟩,
   ⟨"Switchable", 0x0084006c⟩, ⟨"Used", 0x0084006d⟩, ⟨"Boost", 0x0084006e⟩, ⟨"Buck", 0x0084006f⟩,
   ⟨"Initialized", 0x00840070⟩, ⟨"Tested", 0x00840071⟩, ⟨"AwaitingPower", 0x00840072⟩,
   ⟨"CommunicationLost", 0x00840073⟩, ⟨"iManufacturer", 0x008400fd⟩, ⟨"iProduct", 0x008400fe⟩,
   ⟨"iSerialNumber", 0x008400ff⟩, ⟨"Undefined", 0x00850000⟩, ⟨"SMBBatteryMode", 0x00850001⟩,
   ⟨"SMBBatteryStatus", 0x00850002⟩, ⟨"SMBAlarmWarning", 0x00850003⟩, ⟨"SMBChargerMode", 0x00850004⟩,
   ⟨"SMBChargerStatus", 0x00850005⟩, ⟨"SMBChargerSpecInfo", 0x00850006⟩, ⟨"SMBSelectorState", 0x00850007⟩,
   ⟨"SMBSelectorPresets", 0x00850008⟩, ⟨"SMBSelectorInfo", 0x00850009⟩, ⟨"OptionalMfgFunction1", 0x00850010⟩,
   ⟨"OptionalMfgFunction2", 0x00850011⟩, ⟨"OptionalMfgFunction3", 0x00850012⟩, ⟨"OptionalMfgFunction4", 0x00850013⟩,
   ⟨"OptionalMfgFunction5", 0x00850014⟩, ⟨"ConnectionToSMBus", 0x00850015⟩, ⟨"OutputConnection", 0x00850016⟩,
   ⟨"ChargerConnection", 0x00850017⟩, ⟨"BatteryInsertion", 0x00850018⟩, ⟨"Usenext", 0x00850019⟩,
   ⟨"OKToUse", 0x0085001a⟩, ⟨"BatterySupported", 0x0085001b⟩, ⟨"SelectorRevision", 0x0085001c⟩,
   ⟨"ChargingIndicator", 0x0085001d⟩, ⟨"ManufacturerAccess", 0x00850028⟩, ⟨"RemainingCapacityLimit", 0x00850029⟩,
   ⟨"RemainingTimeLimit", 0x0085002a⟩, ⟨"AtRate", 0x0085002b⟩, ⟨"CapacityMode", 0x0085002c⟩,
   ⟨"BroadcastToCharger", 0x0085002d⟩, ⟨"PrimaryBattery", 0x0085002e⟩, ⟨"ChargeController", 0x0085002f⟩,
   ⟨"TerminateCharge", 0x00850040⟩, ⟨"TerminateDischarge", 0x00850041⟩, ⟨"BelowRemainingCapacityLimit", 0x00850042⟩,
   ⟨"RemainingTimeLimitExpired", 0x00850043⟩, ⟨"Charging", 0x00850044⟩, ⟨"Discharging", 0x00850045⟩,
   ⟨"FullyCharged", 0x00850046⟩, ⟨"FullyDischarged", 0x00850047⟩, ⟨"ConditioningFlag", 0x00850048⟩,
   ⟨"AtRateOK", 0x00850049⟩, ⟨"SMBErrorCode", 0x0085004a⟩, ⟨"NeedReplacement", 0x0085004b⟩,
   ⟨"AtRateTimeToFull", 0x00850060⟩, ⟨"AtRateTimeToEmpty", 0x00850061⟩, ⟨"AverageCurrent", 0x00850062⟩,
   ⟨"Maxerror", 0x00850063⟩, ⟨"RelativeStateOfCharge", 0x00850064⟩, ⟨"AbsoluteStateOfCharge", 0x00850065⟩,
   ⟨"RemainingCapacity", 0x00850066⟩, ⟨"FullChargeCapacity", 0x00850067⟩, ⟨"RunTimeToEmpty", 0x00850068⟩,
   ⟨"AverageTimeToEmpty", 0x00850069⟩, ⟨"AverageTimeToFull", 0x0085006a⟩, ⟨"CycleCount", 0x0085006b⟩,
   ⟨"BattPackModelLevel", 0x00850080⟩, ⟨"InternalChargeController", 0x00850081⟩, ⟨"PrimaryBatterySupport", 0x00850082⟩,
   ⟨"DesignCapacity", 0x00850083⟩, ⟨"SpecificationInfo", 0x00850084⟩, ⟨"ManufacturerDate", 0x00850085⟩,
   ⟨"SerialNumber", 0x00850086⟩, ⟨"iManufacturerName", 0x00850087⟩, ⟨"iDevicename", 0x00850088⟩,
   ⟨"iDeviceChemistry", 0x00850089⟩, ⟨"ManufacturerData", 0x0085008a⟩, ⟨"Rechargeable", 0x0085008b⟩,
   ⟨"WarningCapacityLimit", 0x0085008c⟩, ⟨"CapacityGranularity1", 0x0085008d⟩, ⟨"CapacityGranularity2", 0x0085008e⟩,
   ⟨"iOEMInformation", 0x0085008f⟩, ⟨"InhibitCharge", 0x008500c0⟩, ⟨"EnablePolling", 0x008500c1⟩,
   ⟨"ResetToZero", 0x008500c2⟩, ⟨"ACPresent", 0x008500d0⟩, ⟨"BatteryPresent", 0x008500d1⟩, ⟨"PowerFail", 0x008500d2⟩,
   ⟨"AlarmInhibited", 0x008500d3⟩, ⟨"ThermistorUnderRange", 0x008500d4⟩, ⟨"ThermistorHot", 0x008500d5⟩,
   ⟨"ThermistorCold", 0x008500d6⟩, ⟨"ThermistorOverRange", 0x008500d7⟩, ⟨"VoltageOutOfRange", 0x008500d8⟩,
   ⟨"CurrentOutOfRange", 0x008500d9⟩, ⟨"CurrentNotRegulated", 0x008500da⟩, ⟨"VoltageNotRegulated", 0x008500db⟩,
   ⟨"MasterMode", 0x008500dc⟩, ⟨"ChargerSelectorSupport", 0x008500f0⟩, ⟨"ChargerSpec", 0x008500f1⟩,
   ⟨"Level2", 0x008500f2⟩, ⟨"Level3", 0x008500f3⟩]

def hidLookupUsage (name : CStr) (utab : List (List UsageLkp)) : Option Nat :=
  (utab.flatten.find? fun e => strcasecmp e.usageName.toList name = .eq).map UsageLkp.usageCode

def hidLookupPath (usage : Nat) (utab : List (List UsageLkp)) : Option CStr :=
  (utab.flatten.find? fun e => e.usageCode = usage).map fun e => e.usageName.toList

/-- The text of an `unsigned int` under `%08x`. -/
def format08x (n : Nat) : CStr := (Nat.toDigits 16 n).leftpad 8 '0'

/-- What a node of a path is written as. -/
def nodeToString (utab : List (List UsageLkp)) (node : Nat) : CStr :=
  match hidLookupPath node utab with
  | some p => p
  | none =>
    if node &&& 0xffff0000 = 0x00ff0000 then '[' :: (Nat.toDigits 10 (node &&& 0xffff) ++ "]".toList) else format08x node

/-- The rounds of `path_to_string`, of which the first one has no dot. -/
def pathToStringLoop (size : Nat) (utab : List (List UsageLkp)) : Nat → List Nat → CStr → CStr
  | _, [], string => string
  | i, node :: nodes, string =>
    let string := if 0 < i then snprintfcat string size ".".toList else string
    pathToStringLoop size utab (i + 1) nodes (snprintfcat string size (nodeToString utab node))

def pathToString (size : Nat) (path : HIDPath) (utab : List (List UsageLkp)) : CStr :=
  pathToStringLoop size utab 0 path.nodes []

/-- What a part of a text is read as, if it is read. -/
def tokenToNode (utab : List (List UsageLkp)) (token : CStr) : Option Nat :=
  match hidLookupUsage token utab with
  | some usage => some usage
  | none =>
    if token.length = strspn token "1234567890abcdefABCDEF".toList then some (strtolBase 16 token % 2 ^ 32).toNat
    else if token.length = strspn token "[1234567890]".toList then some ((0x00ff0000 + (atoi token.tail).toInt) % 2 ^ 32).toNat
    else none

/-- The rounds of `string_to_path`, one for each token. -/
def stringToPathLoop (utab : List (List UsageLkp)) : Nat → CStr → HIDPath → Option HIDPath
  | 0, _, path => some path
  | fuel + 1, buf, path =>
    match strtok ".".toList buf with
    | (none, _) => some path
    | (some token, last) =>
      match tokenToNode utab token with
      | none => stringToPathLoop utab fuel last path
      | some node => (path.push node).bind (stringToPathLoop utab fuel last)

/-- There is no result where the path has no room for a node. -/
def stringToPath (string : CStr) (path : HIDPath) (utab : List (List UsageLkp)) : Option HIDPath :=
  let buf := snprintf smallbuf string
  stringToPathLoop utab buf.length buf { path with size := 0 }

/-- The whole text of a path, whatever room there is for it. -/
def pathText (utab : List (List UsageLkp)) (path : HIDPath) : CStr :=
  ".".toList.intercalate (path.nodes.map (nodeToString utab))

/-! ### The table -/

/-- The entry with a name and a code. -/
def spell (p : CStr × Nat) : UsageLkp := ⟨String.ofList p.1, p.2⟩

theorem spell_cons {es : List UsageLkp} {t : List (CStr × Nat)} (s : CStr) (code : Nat) (h : es = t.map spell) :
    ⟨String.ofList s, code⟩ :: es = ((s, code) :: t).map spell := by
  rw [h]
  rfl

/-- What a node is read as after it was written. -/
def readBack (node : Nat) : Nat := if node = 0x00850000 then 0x00840000 else if node = 0x008500d8 then 0x00840063 else node

/-- A number that is the same for names that differ in the case of letters. -/
def nameKey (name : CStr) : Nat := name.foldl (fun n c => n * 256 + c.toLower.toNat) 0

theorem nameKey_eq {s t : CStr} (h : tolower s = tolower t) : nameKey s = nameKey t := by
  have hmap : ∀ s : CStr, nameKey s = (tolower s).foldl (fun n c => n * 256 + c.toNat) 0 := fun s => by
    rw [nameKey, tolower, List.foldl_map]
  rw [hmap, hmap, h]

/-- The characters of numbers, in lower case. -/
def numeric : CStr := "[0123456789abcdef]".toList

/-- A name is no token of another kind, and does not become one when its end is lost. -/
def IsName (name : CStr) : Prop :=
  '.' ∉ name ∧ 1 < name.length ∧ name.length ≤ 27 ∧ ¬ ∀ c ∈ tolower name.dropLast, c ∈ numeric

instance (name : CStr) : Decidable (IsName name) := inferInstanceAs (Decidable (_ ∧ _))

/-- The entry that is found for the name of `e`. -/
def FoundByName (t : List (CStr × Nat)) (e : CStr × Nat) : Bool :=
  (t.find? fun x => nameKey x.1 == nameKey e.1).any fun x => tolower x.1 = tolower e.1 ∧ x.2 = readBack e.2

/-- The table, letter by letter: the search by number needs no comparison of texts. -/
theorem hidUsageLkp_spelled :
    ∃ t : List (CStr × Nat),
      hidUsageLkp = t.map spell ∧ (t.all fun e => decide (IsName e.1)) = true ∧ t.all (FoundByName t) = true := by
  simp only [hidUsageLkp]
  constructor
  constructor
  · repeat apply spell_cons
    exact List.map_nil.symm
  · decide +kernel

theorem hidUsageLkp_codes : (hidUsageLkp.map UsageLkp.usageCode).IsChain (· < ·) := by decide +kernel

/-- A search with a narrower test ends at the same element if that passes it. -/
theorem find_narrower {α : Type*} {p q : α → Bool} {l : List α} {a : α} (h : l.find? p = some a) (ha : q a = true)
    (hqp : ∀ b, q b = true → p b = true) : l.find? q = some a := by
  obtain ⟨-, before, after, rfl, hbefore⟩ := List.find?_eq_some_iff_append.1 h
  refine List.find?_eq_some_iff_append.2 ⟨ha, before, after, rfl, fun b hb => ?_⟩
  have hp := hbefore b hb
  cases hq : q b with
  | false => rfl
  | true => rw [hqp b hq] at hp; cases hp

/-- The name of an entry, and what is found for it. -/
theorem mem_hidUsageLkp {e : UsageLkp} (he : e ∈ hidUsageLkp) :
    IsName e.usageName.toList ∧ hidLookupUsage e.usageName.toList [hidUsageLkp] = some (readBack e.usageCode) := by
  obtain ⟨t, htable, hnames, hfound⟩ := hidUsageLkp_spelled
  rw [htable] at he ⊢
  obtain ⟨⟨name, code⟩, hmem, rfl⟩ := List.mem_map.1 he
  have hname := of_decide_eq_true (List.all_eq_true.1 hnames _ hmem)
  have hentry := List.all_eq_true.1 hfound _ hmem
  obtain ⟨x, hx, hsame⟩ := (Option.any_eq_true ..).1 hentry
  obtain ⟨hlower, hcode⟩ := of_decide_eq_true hsame
  have hfind : t.find? (fun x => decide (strcasecmp x.1 name = .eq)) = some x := by
    refine find_narrower hx (by simpa [strcasecmp_eq] using hlower) fun b hb => ?_
    rw [beq_iff_eq]
    exact nameKey_eq (strcasecmp_eq.1 (of_decide_eq_true hb))
  have hspell : ((fun e : UsageLkp => decide (strcasecmp e.usageName.toList name = .eq)) ∘ spell) =
      fun x => decide (strcasecmp x.1 name = .eq) := by
    funext x
    rw [Function.comp_apply, spell, String.toList_ofList]
  refine ⟨by rwa [spell, String.toList_ofList], ?_⟩
  rw [hidLookupUsage, List.flatten_singleton, spell, String.toList_ofList, List.find?_map, hspell, hfind]
  exact congrArg some hcode

/-- A text of the characters of numbers is no name. -/
theorem hidLookupUsage_of_numeric {token : CStr} (h : ∀ c ∈ tolower token, c ∈ numeric) :
    hidLookupUsage token [hidUsageLkp] = none := by
  rw [hidLookupUsage, Option.map_eq_none_iff, List.find?_eq_none, List.flatten_singleton]
  intro e he hsame
  have hlower : tolower e.usageName.toList = tolower token := strcasecmp_eq.1 (of_decide_eq_true hsame)
  obtain ⟨-, -, -, hnumeric⟩ := (mem_hidUsageLkp he).1
  refine hnumeric fun c hc => h c (hlower ▸ ?_)
  rw [tolower, List.map_dropLast] at hc
  exact List.dropLast_subset _ hc

theorem length_eq_strspn {s accept : CStr} : s.length = strspn s accept ↔ ∀ c ∈ s, c ∈ accept := by
  constructor
  · intro h c hc
    have hall : s.takeWhile (· ∈ accept) = s := (List.takeWhile_prefix _).eq_of_length h.symm
    exact of_decide_eq_true (List.takeWhile_eq_self_iff.1 hall c hc)
  · intro h
    rw [strspn, List.takeWhile_eq_self_iff.2 fun c hc => decide_eq_true (h c hc)]

/-! ### A node -/

/-- How a text is read that is no name: as a number, or as an index. -/
theorem tokenToNode_of_numeric {token : CStr} (h : ∀ c ∈ tolower token, c ∈ numeric) :
    tokenToNode [hidUsageLkp] token =
      if ∀ c ∈ token, c ∈ "1234567890abcdefABCDEF".toList then some (strtolBase 16 token % 2 ^ 32).toNat
      else if ∀ c ∈ token, c ∈ "[1234567890]".toList then some ((0x00ff0000 + (atoi token.tail).toInt) % 2 ^ 32).toNat
      else none := by
  rw [tokenToNode, hidLookupUsage_of_numeric h]
  simp only [length_eq_strspn]

def hexDigits : CStr := "0123456789abcdef".toList

theorem mem_hexDigits_of_toDigits {n : Nat} {c : Char} (h : c ∈ Nat.toDigits 16 n) : c ∈ hexDigits := by
  induction n using Nat.strongRecOn with
  | ind n ih =>
    rw [Nat.toDigits_eq_if (by omega)] at h
    split at h
    · rename_i hlt
      rw [List.mem_singleton.1 h]
      clear ih h
      interval_cases n <;> decide
    · rcases List.mem_append.1 h with h | h
      · exact ih (n / 16) (by omega) h
      · have hlt : n % 16 < 16 := Nat.mod_lt _ (by omega)
        rw [List.mem_singleton.1 h]
        generalize n % 16 = d at hlt
        interval_cases d <;> decide

/-- Hexadecimal digits with zeros before them. -/
theorem tokenToNode_hex {n : Nat} (hn : n < 2 ^ 32) (k : Nat) :
    tokenToNode [hidUsageLkp] (List.replicate k '0' ++ Nat.toDigits 16 n) = some n := by
  have hhex : ∀ c ∈ List.replicate k '0' ++ Nat.toDigits 16 n, c ∈ hexDigits := by
    intro c hc
    rcases List.mem_append.1 hc with hc | hc
    · rw [List.eq_of_mem_replicate hc]
      decide
    · exact mem_hexDigits_of_toDigits hc
  have hnumeric : ∀ c ∈ tolower (List.replicate k '0' ++ Nat.toDigits 16 n), c ∈ numeric := by
    intro c hc
    obtain ⟨d, hd, rfl⟩ := List.mem_map.1 hc
    have hfix : ∀ d ∈ hexDigits, d.toLower ∈ numeric := by decide
    exact hfix d (hhex d hd)
  have hdigit : ∀ d ∈ hexDigits, d ∈ "1234567890abcdefABCDEF".toList := by decide
  rw [tokenToNode_of_numeric hnumeric, if_pos fun c hc => hdigit c (hhex c hc), strtolBase_toDigits (by omega)]
  congr 1
  omega

theorem mem_digits {c : Char} (h : c.isDigit = true) : c ∈ "[1234567890]".toList := by
  obtain ⟨hlow, hhigh⟩ := isDigit_bounds h
  obtain ⟨n, hn⟩ : ∃ n, c.toNat = n := ⟨_, rfl⟩
  rw [← Char.ofNat_toNat c, hn]
  rw [hn] at hlow hhigh
  interval_cases n <;> decide

/-- The two halves of a node. -/
theorem node_halves {n : Nat} (hn : n < 2 ^ 32) (h : n &&& 0xffff0000 = 0x00ff0000) : 0x00ff0000 + (n &&& 0xffff) = n := by
  have hlow : n &&& 0xffff < 2 ^ 16 := Nat.and_lt_two_pow n (by decide)
  have hor : 0x00ff0000 + (n &&& 0xffff) = 0x00ff0000 ||| (n &&& 0xffff) :=
    Nat.two_pow_add_eq_or_of_lt hlow 0xff
  have hmask : n &&& (0xffff0000 ||| 0xffff) = n % 2 ^ 32 := Nat.and_two_pow_sub_one_eq_mod n 32
  rw [hor, ← h, ← Nat.and_or_distrib_left, hmask, Nat.mod_eq_of_lt hn]

/-- An index, where the closing bracket may be lost. -/
theorem tokenToNode_index {n : Nat} (hn : n < 2 ^ 32) (h : n &&& 0xffff0000 = 0x00ff0000) {rest : CStr}
    (hrest : rest = [] ∨ rest = "]".toList) :
    tokenToNode [hidUsageLkp] ('[' :: (Nat.toDigits 10 (n &&& 0xffff) ++ rest)) = some n := by
  have hlow : n &&& 0xffff < 2 ^ 16 := Nat.and_lt_two_pow n (by decide)
  have hhalves := node_halves hn h
  generalize n &&& 0xffff = k at hlow hhalves ⊢
  have hdigit : ∀ c ∈ Nat.toDigits 10 k, c.isDigit = true := fun c => Nat.isDigit_of_mem_toDigits (by omega) (by omega)
  have hspan : ∀ c ∈ '[' :: (Nat.toDigits 10 k ++ rest), c ∈ "[1234567890]".toList := by
    intro c hc
    rcases List.mem_cons.1 hc with rfl | hc
    · decide
    · rcases List.mem_append.1 hc with hc | hc
      · exact mem_digits (hdigit c hc)
      · have hall : ∀ c ∈ rest, c ∈ "[1234567890]".toList := by rcases hrest with rfl | rfl <;> decide
        exact hall c hc
  have hnumeric : ∀ c ∈ tolower ('[' :: (Nat.toDigits 10 k ++ rest)), c ∈ numeric := by
    intro c hc
    obtain ⟨d, hd, rfl⟩ := List.mem_map.1 hc
    have hfix : ∀ d ∈ "[1234567890]".toList, d.toLower ∈ numeric := by decide
    exact hfix d (hspan d hd)
  have hatoi : (atoi (Nat.toDigits 10 k ++ rest)).toInt = k := by
    have hmin : min (k : Int) (2 ^ 63 - 1) = k := by omega
    have hend : ∀ c ∈ rest.head?, c.isDigit = false := by
      rcases hrest with rfl | rfl
      · exact fun c hc => absurd hc (by simp)
      · exact fun c hc => Option.some.inj hc ▸ rfl
    rw [atoi, strtol_digits Nat.toDigits_ne_nil hdigit hend, Nat.ofDigitChars_ten_toDigits, hmin,
      Int32.toInt_ofInt_of_le (by omega) (by omega)]
  have hnohex : ¬ ∀ c ∈ '[' :: (Nat.toDigits 10 k ++ rest), c ∈ "1234567890abcdefABCDEF".toList := fun hall =>
    absurd (hall _ List.mem_cons_self) (by decide)
  rw [tokenToNode_of_numeric hnumeric, if_neg hnohex, if_pos hspan, List.tail_cons, hatoi]
  congr 1
  omega

/-- A node without a name. -/
theorem nodeToString_of_unnamed {n : Nat} (h : hidLookupPath n [hidUsageLkp] = none) :
    nodeToString [hidUsageLkp] n =
      if n &&& 0xffff0000 = 0x00ff0000 then '[' :: (Nat.toDigits 10 (n &&& 0xffff) ++ "]".toList) else format08x n := by
  rw [nodeToString, h]

/-- The name of a node, which is an entry, or that it is none of the entries. -/
theorem hidLookupPath_cases (n : Nat) :
    (∃ e ∈ hidUsageLkp, e.usageCode = n ∧ hidLookupPath n [hidUsageLkp] = some e.usageName.toList) ∨
      hidLookupPath n [hidUsageLkp] = none ∧ ∀ e ∈ hidUsageLkp, e.usageCode ≠ n := by
  unfold hidLookupPath
  rw [List.flatten_singleton]
  cases hfind : hidUsageLkp.find? (fun e => decide (e.usageCode = n)) with
  | some e =>
    have hcode := List.find?_some hfind
    exact .inl ⟨e, List.mem_of_find?_eq_some hfind, of_decide_eq_true hcode, rfl⟩
  | none => exact .inr ⟨rfl, fun e he h => List.find?_eq_none.1 hfind e he (decide_eq_true h)⟩

theorem readBack_of_unnamed {n : Nat} (h : ∀ e ∈ hidUsageLkp, e.usageCode ≠ n) : readBack n = n := by
  have habsent : ∀ code ∈ hidUsageLkp.map UsageLkp.usageCode, n ≠ code := by
    intro code hcode
    obtain ⟨e, he, rfl⟩ := List.mem_map.1 hcode
    exact (h e he).symm
  rw [readBack, if_neg (habsent 0x00850000 (by decide +kernel)), if_neg (habsent 0x008500d8 (by decide +kernel))]

theorem length_format08x {n : Nat} (hn : n < 2 ^ 32) : (format08x n).length = 8 := by
  have hle : (Nat.toDigits 16 n).length ≤ 8 := (Nat.length_toDigits_le_iff (by omega) (by omega)).2 (by omega)
  rw [format08x, List.leftpad, List.length_append, List.length_replicate]
  omega

theorem length_index {n : Nat} : (Nat.toDigits 10 (n &&& 0xffff)).length ≤ 5 := by
  have hlow : n &&& 0xffff < 2 ^ 16 := Nat.and_lt_two_pow n (by decide)
  exact (Nat.length_toDigits_le_iff (by omega) (by omega)).2 (by omega)

/-- A text of one token. -/
structure IsWord (text : CStr) : Prop where
  ne_nil : text ≠ []
  length_le : text.length ≤ 27
  word : ∀ c ∈ text, c ∉ ".".toList

theorem IsName.isWord {name : CStr} (h : IsName name) : IsWord name := by
  obtain ⟨hdot, hgt, hle, -⟩ := h
  refine ⟨List.ne_nil_of_length_pos (by omega), hle, fun c hc hmem => hdot ?_⟩
  rwa [List.mem_singleton.1 hmem] at hc

theorem isWord_index (n : Nat) : IsWord ('[' :: (Nat.toDigits 10 (n &&& 0xffff) ++ "]".toList)) := by
  have hlen := @length_index n
  have hbracket : "]".toList.length = 1 := rfl
  refine ⟨List.cons_ne_nil _ _, ?_, ?_⟩
  · rw [List.length_cons, List.length_append]
    omega
  · intro c hc
    have hdot : ∀ d ∈ "[1234567890]".toList, d ∉ ".".toList := by decide
    rcases List.mem_cons.1 hc with rfl | hc
    · decide
    · rcases List.mem_append.1 hc with hc | hc
      · exact hdot c (mem_digits (Nat.isDigit_of_mem_toDigits (by omega) (by omega) hc))
      · rw [List.mem_singleton.1 hc]
        decide

theorem isWord_format08x {n : Nat} (hn : n < 2 ^ 32) : IsWord (format08x n) := by
  have hlen := length_format08x hn
  refine ⟨List.ne_nil_of_length_pos (by omega), by omega, ?_⟩
  intro c hc
  have hdot : ∀ d ∈ hexDigits, d ∉ ".".toList := by decide
  rcases List.mem_append.1 hc with hc | hc
  · rw [List.eq_of_mem_replicate hc]
    decide
  · exact hdot c (mem_hexDigits_of_toDigits hc)

theorem nodeToString_isWord {n : Nat} (hn : n < 2 ^ 32) : IsWord (nodeToString [hidUsageLkp] n) := by
  rcases hidLookupPath_cases n with ⟨e, he, -, hname⟩ | ⟨hnone, -⟩
  · rw [nodeToString, hname]
    exact (mem_hidUsageLkp he).1.isWord
  · rw [nodeToString_of_unnamed hnone]
    split
    · exact isWord_index n
    · exact isWord_format08x hn

/-- There is something left of a node when the last character is lost. -/
theorem one_lt_length_nodeToString {n : Nat} (hn : n < 2 ^ 32) : 1 < (nodeToString [hidUsageLkp] n).length := by
  rcases hidLookupPath_cases n with ⟨e, he, -, hname⟩ | ⟨hnone, -⟩
  · rw [nodeToString, hname]
    exact (mem_hidUsageLkp he).1.2.1
  · rw [nodeToString_of_unnamed hnone]
    split
    · have hpos : 0 < (Nat.toDigits 10 (n &&& 0xffff)).length := Nat.length_toDigits_pos
      rw [List.length_cons, List.length_append]
      omega
    · rw [length_format08x hn]
      omega

theorem IsWord.cut {text : CStr} (h : IsWord text) (hlen : 1 < text.length) : IsWord text.dropLast := by
  have hle := h.length_le
  refine ⟨List.ne_nil_of_length_pos ?_, ?_, fun c hc => h.word c (List.dropLast_subset _ hc)⟩
  · rw [List.length_dropLast]
    omega
  · rw [List.length_dropLast]
    omega

/-- What is read for a node that was written. -/
theorem tokenToNode_nodeToString {n : Nat} (hn : n < 2 ^ 32) :
    tokenToNode [hidUsageLkp] (nodeToString [hidUsageLkp] n) = some (readBack n) := by
  rcases hidLookupPath_cases n with ⟨e, he, rfl, hname⟩ | ⟨hnone, habsent⟩
  · rw [nodeToString, hname]
    simp only
    rw [tokenToNode, (mem_hidUsageLkp he).2]
  · rw [nodeToString_of_unnamed hnone, readBack_of_unnamed habsent]
    split
    · rename_i h
      exact tokenToNode_index hn h (.inr rfl)
    · exact tokenToNode_hex hn _

/-- A name that lost its end is not read as what it was the name of. -/
theorem tokenToNode_cut_name {e : UsageLkp} (he : e ∈ hidUsageLkp) :
    tokenToNode [hidUsageLkp] e.usageName.toList.dropLast ≠ some e.usageCode := by
  intro h
  obtain ⟨-, hgt, -, hnumeric⟩ := (mem_hidUsageLkp he).1
  unfold tokenToNode at h
  cases hlookup : hidLookupUsage e.usageName.toList.dropLast [hidUsageLkp] with
  | some usage =>
    rw [hlookup] at h
    obtain ⟨x, hx, hcode⟩ := Option.map_eq_some_iff.1 hlookup
    rw [List.flatten_singleton] at hx
    have hfound := List.find?_some hx
    have hlower : tolower x.usageName.toList = tolower e.usageName.toList.dropLast :=
      strcasecmp_eq.1 (of_decide_eq_true hfound)
    have hsame : x = e := by
      have hnodup : (hidUsageLkp.map UsageLkp.usageCode).Nodup := hidUsageLkp_codes.pairwise.imp Nat.ne_of_lt
      refine List.inj_on_of_nodup_map hnodup (List.mem_of_find?_eq_some hx) he ?_
      rw [hcode]
      exact Option.some.inj h
    have hlen := congrArg List.length hlower
    rw [hsame, length_tolower, length_tolower, List.length_dropLast] at hlen
    omega
  | none =>
    rw [hlookup] at h
    simp only [length_eq_strspn] at h
    have hhex : ¬ ∀ c ∈ e.usageName.toList.dropLast, c ∈ "1234567890abcdefABCDEF".toList := by
      refine fun hall => hnumeric fun c hc => ?_
      obtain ⟨d, hd, rfl⟩ := List.mem_map.1 hc
      have hfix : ∀ d ∈ "1234567890abcdefABCDEF".toList, d.toLower ∈ numeric := by decide
      exact hfix d (hall d hd)
    have hindex : ¬ ∀ c ∈ e.usageName.toList.dropLast, c ∈ "[1234567890]".toList := by
      refine fun hall => hnumeric fun c hc => ?_
      obtain ⟨d, hd, rfl⟩ := List.mem_map.1 hc
      have hfix : ∀ d ∈ "[1234567890]".toList, d.toLower ∈ numeric := by decide
      exact hfix d (hall d hd)
    rw [if_neg hhex, if_neg hindex] at h
    cases h

/-- Seven of the eight digits are the number without its last digit. -/
theorem dropLast_format08x (n : Nat) : ∃ k, (format08x n).dropLast = List.replicate k '0' ++ Nat.toDigits 16 (n / 16) := by
  rw [format08x, List.leftpad, Nat.toDigits_eq_if (by omega)]
  split
  · rename_i hlt
    refine ⟨6, ?_⟩
    rw [List.dropLast_append_of_ne_nil (List.cons_ne_nil _ _), Nat.div_eq_of_lt hlt]
    rfl
  · refine ⟨8 - (Nat.toDigits 16 (n / 16) ++ [(n % 16).digitChar]).length, ?_⟩
    rw [← List.append_assoc, List.dropLast_concat]

/-- Which nodes are read back where the text lost its last character. -/
theorem tokenToNode_cut {n : Nat} (hn : n < 2 ^ 32) :
    tokenToNode [hidUsageLkp] (nodeToString [hidUsageLkp] n).dropLast = some n ↔ n = 0 ∨ n &&& 0xffff0000 = 0x00ff0000 := by
  rcases hidLookupPath_cases n with ⟨e, he, rfl, hname⟩ | ⟨hnone, habsent⟩
  · have hno : ∀ code ∈ hidUsageLkp.map UsageLkp.usageCode, ¬ (code = 0 ∨ code &&& 0xffff0000 = 0x00ff0000) := by decide +kernel
    rw [nodeToString, hname]
    exact iff_of_false (tokenToNode_cut_name he) (hno _ (List.mem_map_of_mem he))
  · rw [nodeToString_of_unnamed hnone]
    split
    · rename_i h
      have hcut : ('[' :: (Nat.toDigits 10 (n &&& 0xffff) ++ "]".toList)).dropLast = '[' :: (Nat.toDigits 10 (n &&& 0xffff) ++ []) := by
        rw [← List.cons_append, List.append_nil]
        exact List.dropLast_concat
      rw [hcut]
      exact iff_of_true (tokenToNode_index hn h (.inl rfl)) (.inr h)
    · rename_i h
      obtain ⟨k, hcut⟩ := dropLast_format08x n
      rw [hcut, tokenToNode_hex (by omega), Option.some_inj]
      constructor
      · intro hsame
        exact .inl (by omega)
      · rintro (rfl | hindex)
        · rfl
        · exact absurd hindex h

/-! ### A path -/

theorem pathToStringLoop_eq {size : Nat} {utab : List (List UsageLkp)} (nodes : List Nat) :
    ∀ {i : Nat} {string : CStr}, 0 < i → string.length ≤ size - 2 →
      pathToStringLoop size utab i nodes string =
        (string ++ nodes.flatMap fun node => '.' :: nodeToString utab node).take (size - 2) := by
  induction nodes with
  | nil =>
    intro i string _ hlen
    rw [pathToStringLoop, List.flatMap_nil, List.append_nil, List.take_of_length_le hlen]
  | cons node nodes ih =>
    intro i string hi hlen
    have hdot : ".".toList = ['.'] := rfl
    have hstep : snprintfcat (snprintfcat string size ".".toList) size (nodeToString utab node) =
        (string ++ '.' :: nodeToString utab node).take (size - 2) := by
      rw [snprintfcat_eq_take hlen, snprintfcat_eq_take (List.length_take_le _ _), take_take_append, List.append_assoc, hdot]
      rfl
    rw [pathToStringLoop, if_pos hi, hstep, ih (by omega) (List.length_take_le _ _), take_take_append, List.flatMap_cons,
      List.append_assoc]

theorem intercalate_eq_flatMap (words : List CStr) (w : CStr) :
    ".".toList.intercalate (w :: words) = w ++ words.flatMap fun w => '.' :: w := by
  induction words generalizing w with
  | nil => rw [List.intercalate_singleton, List.flatMap_nil, List.append_nil]
  | cons w' words ih =>
    rw [List.intercalate_cons_cons, ih, List.flatMap_cons, List.append_assoc]
    rfl

/-- The text in the buffer, of which `snprintfcat` keeps two bytes free. -/
theorem pathToString_eq (size : Nat) (path : HIDPath) (utab : List (List UsageLkp)) :
    pathToString size path utab = (pathText utab path).take (size - 2) := by
  unfold pathToString pathText
  cases path.nodes with
  | nil => rw [pathToStringLoop, List.map_nil, List.intercalate_nil, List.take_nil]
  | cons node nodes =>
    rw [pathToStringLoop, if_neg (by omega), snprintfcat_eq_take (Nat.zero_le _), List.nil_append,
      pathToStringLoop_eq nodes (by omega) (List.length_take_le _ _), take_take_append, List.map_cons, intercalate_eq_flatMap,
      List.flatMap_map]

/-- The nodes of tokens are put on the path one after the other. -/
theorem stringToPathLoop_eq {utab : List (List UsageLkp)} (words : List CStr) (hwords : ∀ w ∈ words, IsWord w) :
    ∀ (fuel : Nat) (path : HIDPath), (".".toList.intercalate words).length ≤ fuel →
      stringToPathLoop utab fuel (".".toList.intercalate words) path =
        (words.filterMap (tokenToNode utab)).foldlM HIDPath.push path := by
  have hempty : ∀ (fuel : Nat) (path : HIDPath), stringToPathLoop utab fuel [] path = some path := by
    intro fuel path
    cases fuel with
    | zero => rfl
    | succ fuel => rfl
  induction words with
  | nil =>
    intro fuel path _
    exact hempty fuel path
  | cons w words ih =>
    intro fuel path hfuel
    obtain ⟨hne, -, hword⟩ := hwords w List.mem_cons_self
    have hpos : 0 < w.length := List.length_pos_of_ne_nil hne
    have hlen : w.length ≤ (".".toList.intercalate (w :: words)).length := by
      rw [intercalate_eq_flatMap, List.length_append]
      omega
    obtain ⟨fuel, rfl⟩ : ∃ m, fuel = m + 1 := ⟨fuel - 1, by omega⟩
    have hrest : strtok ".".toList (".".toList.intercalate (w :: words)) = (some w, ".".toList.intercalate words) := by
      cases words with
      | nil =>
        rw [List.intercalate_singleton, strtok_last hne hword]
        rfl
      | cons w' words =>
        rw [List.intercalate_cons_cons, List.append_assoc]
        exact strtok_append hne hword List.mem_cons_self
    have hfuel' : (".".toList.intercalate words).length ≤ fuel := by
      cases words with
      | nil =>
        rw [List.intercalate_nil]
        exact Nat.zero_le _
      | cons w' words =>
        rw [List.intercalate_cons_cons, List.length_append, List.length_append] at hfuel
        omega
    have ih := fun path => ih (fun w hw => hwords w (List.mem_cons_of_mem _ hw)) fuel path hfuel'
    rw [stringToPathLoop, hrest]
    simp only
    cases htoken : tokenToNode utab w with
    | none =>
      simp only
      rw [ih, List.filterMap_cons_none htoken]
    | some node =>
      simp only
      rw [List.filterMap_cons_some htoken, List.foldlM_cons]
      congr 1
      funext path
      exact ih path

theorem length_intercalate_le (words : List CStr) (hwords : ∀ w ∈ words, IsWord w) :
    (".".toList.intercalate words).length ≤ 28 * words.length := by
  cases words with
  | nil =>
    rw [List.intercalate_nil]
    exact Nat.zero_le _
  | cons w words =>
    have hrest : ∀ words : List CStr, (∀ w ∈ words, IsWord w) → (words.flatMap fun w => '.' :: w).length ≤ 28 * words.length := by
      intro words hwords
      induction words with
      | nil => exact Nat.zero_le _
      | cons w words ih =>
        have hw := (hwords w List.mem_cons_self).length_le
        have ih := ih fun w hw => hwords w (List.mem_cons_of_mem _ hw)
        simp only [List.flatMap_cons, List.length_append, List.length_cons]
        omega
    have hw := (hwords w List.mem_cons_self).length_le
    have hall := hrest words fun w hw => hwords w (List.mem_cons_of_mem _ hw)
    rw [intercalate_eq_flatMap, List.length_append, List.length_cons]
    omega

/-- What a path looks like when nodes were put on it, which have room. -/
theorem foldlM_push (nodes : List Nat) :
    ∀ {path : HIDPath}, path.node.length = pathSize → path.size + nodes.length ≤ pathSize →
      ∃ q, nodes.foldlM HIDPath.push path = some q ∧ q.size = path.size + nodes.length ∧ q.nodes = path.nodes ++ nodes := by
  induction nodes with
  | nil =>
    intro path _ _
    exact ⟨path, rfl, rfl, (List.append_nil _).symm⟩
  | cons node nodes ih =>
    intro path hnode hroom
    rw [List.length_cons] at hroom
    have hpush : path.push node = some ⟨path.size + 1, path.node.set path.size node⟩ := if_pos (by omega)
    obtain ⟨q, hq, hsize, hnodes⟩ := @ih ⟨path.size + 1, path.node.set path.size node⟩
      (by rw [List.length_set, hnode]) (by dsimp only; omega)
    refine ⟨q, by rw [List.foldlM_cons, hpush]; exact hq, by rw [hsize, List.length_cons]; dsimp only; omega, ?_⟩
    rw [hnodes, HIDPath.nodes, HIDPath.nodes, List.take_add_one, List.take_set_of_le le_rfl,
      List.getElem?_set_self (by omega), Option.toList_some, List.append_assoc, List.singleton_append]

/-- The words of a text are read one after the other. -/
theorem stringToPath_words {words : List CStr} (hwords : ∀ w ∈ words, IsWord w) (hlen : words.length ≤ pathSize) {r : HIDPath}
    (hr : r.node.length = pathSize) :
    ∃ q, stringToPath (".".toList.intercalate words) r [hidUsageLkp] = some q ∧
      q.size = (words.filterMap (tokenToNode [hidUsageLkp])).length ∧ q.nodes = words.filterMap (tokenToNode [hidUsageLkp]) := by
  have hshort := length_intercalate_le words hwords
  have hbuf : snprintf smallbuf (".".toList.intercalate words) = ".".toList.intercalate words :=
    snprintf_of_lt (by unfold smallbuf; unfold pathSize at hlen; omega)
  have hcount := List.length_filterMap_le (tokenToNode [hidUsageLkp]) words
  obtain ⟨q, hq, hsize, hnodes⟩ := @foldlM_push (words.filterMap (tokenToNode [hidUsageLkp])) ⟨0, r.node⟩ hr
    (by dsimp only; omega)
  refine ⟨q, ?_, by rw [hsize]; exact Nat.zero_add _, by rw [hnodes]; rfl⟩
  rw [stringToPath, hbuf, stringToPathLoop_eq words hwords _ _ le_rfl]
  exact hq

theorem readBack_eq_self {n : Nat} : readBack n = n ↔ n ≠ 0x00850000 ∧ n ≠ 0x008500d8 := by
  unfold readBack
  split
  · omega
  · split
    · omega
    · exact iff_of_true rfl ⟨‹_›, ‹_›⟩

theorem intercalate_concat (words : List CStr) (w : CStr) :
    ".".toList.intercalate (words ++ [w]) = (words.flatMap fun w => w ++ ".".toList) ++ w := by
  induction words with
  | nil => exact List.intercalate_singleton
  | cons w' words ih =>
    rw [List.cons_append, List.intercalate_cons_of_ne_nil (by simp), ih, List.flatMap_cons, List.append_assoc, List.append_assoc,
      List.append_assoc]

/-- The nodes that are read for those that were written. -/
theorem filterMap_nodeToString {nodes : List Nat} (hnodes : ∀ n ∈ nodes, n < 2 ^ 32) :
    (nodes.map (nodeToString [hidUsageLkp])).filterMap (tokenToNode [hidUsageLkp]) = nodes.map readBack := by
  rw [List.filterMap_map]
  induction nodes with
  | nil => rfl
  | cons n nodes ih =>
    have hn : (tokenToNode [hidUsageLkp] ∘ nodeToString [hidUsageLkp]) n = some (readBack n) :=
      tokenToNode_nodeToString (hnodes n List.mem_cons_self)
    rw [List.filterMap_cons_some hn, ih fun n hn => hnodes n (List.mem_cons_of_mem _ hn), List.map_cons]

theorem map_readBack_eq_self {nodes : List Nat} :
    nodes.map readBack = nodes ↔ ∀ n ∈ nodes, n ≠ 0x00850000 ∧ n ≠ 0x008500d8 := by
  have hid : nodes.map readBack = nodes ↔ nodes.map readBack = nodes.map id := by rw [List.map_id]
  rw [hid, List.map_inj_left]
  exact forall₂_congr fun n _ => readBack_eq_self

/-- What is read for a text that lost its last character. -/
theorem filterMap_cut {nodes : List Nat} {last : Nat} (hnodes : ∀ n ∈ nodes, n < 2 ^ 32) (hlast : last < 2 ^ 32) :
    (nodes.map (nodeToString [hidUsageLkp]) ++ [(nodeToString [hidUsageLkp] last).dropLast]).filterMap
        (tokenToNode [hidUsageLkp]) = nodes ++ [last] ↔
      (∀ n ∈ nodes ++ [last], n ≠ 0x00850000 ∧ n ≠ 0x008500d8) ∧ (last = 0 ∨ last &&& 0xffff0000 = 0x00ff0000) := by
  have hcut := tokenToNode_cut hlast
  rw [List.filterMap_append, filterMap_nodeToString hnodes]
  constructor
  · intro h
    obtain ⟨hinit, hend⟩ := List.append_inj h (List.length_map _)
    have hread : tokenToNode [hidUsageLkp] (nodeToString [hidUsageLkp] last).dropLast = some last := by
      cases htoken : tokenToNode [hidUsageLkp] (nodeToString [hidUsageLkp] last).dropLast with
      | none =>
        rw [List.filterMap_cons_none htoken] at hend
        cases hend
      | some n =>
        rw [List.filterMap_cons_some htoken] at hend
        rw [(List.cons.inj hend).1]
    have hkind := hcut.1 hread
    refine ⟨fun n hn => ?_, hkind⟩
    rcases List.mem_append.1 hn with hn | hn
    · exact map_readBack_eq_self.1 hinit n hn
    · rw [List.mem_singleton.1 hn]
      constructor
      · rintro rfl
        revert hkind
        decide
      · rintro rfl
        revert hkind
        decide
  · rintro ⟨hplain, hkind⟩
    rw [map_readBack_eq_self.2 fun n hn => hplain n (List.mem_append_left _ hn), List.filterMap_cons_some (hcut.2 hkind),
      List.filterMap_nil]

/-- The words of a text are the nodes of a path. -/
theorem reads_words_iff {words : List CStr} (hwords : ∀ w ∈ words, IsWord w) {p r : HIDPath} (hcount : p.nodes.length = p.size)
    (hsize : p.size ≤ pathSize) (hlen : words.length = p.size) (hr : r.node.length = pathSize) :
    (∃ q, stringToPath (".".toList.intercalate words) r [hidUsageLkp] = some q ∧ q.size = p.size ∧ q.nodes = p.nodes) ↔
      words.filterMap (tokenToNode [hidUsageLkp]) = p.nodes := by
  obtain ⟨q, hq, hqsize, hqnodes⟩ := stringToPath_words hwords (by omega) hr
  rw [hq]
  constructor
  · rintro ⟨q', hq', -, hsame⟩
    rw [← hqnodes, ← hsame, Option.some.inj hq']
  · intro h
    exact ⟨q, rfl, by rw [hqsize, h, hcount], by rw [hqnodes, h]⟩

theorem isWord_of_mem_map {nodes : List Nat} (hnodes : ∀ n ∈ nodes, n < 2 ^ 32) :
    ∀ w ∈ nodes.map (nodeToString [hidUsageLkp]), IsWord w := by
  intro w hw
  obtain ⟨n, hn, rfl⟩ := List.mem_map.1 hw
  exact nodeToString_isWord (hnodes n hn)

/-- A path is read back as it was written where none of its nodes is the second one of its name, and where the last
character is not lost, or is none that the last node needs. -/
theorem string_to_path_iff (size : Nat) (p r : HIDPath) (hsize : p.size ≤ pathSize) (hp : p.node.length = pathSize)
    (hr : r.node.length = pathSize) (hnodes : ∀ n ∈ p.nodes, n < 2 ^ 32) (hfits : (pathText [hidUsageLkp] p).length < size) :
    (∃ q, stringToPath (pathToString size p [hidUsageLkp]) r [hidUsageLkp] = some q ∧ q.size = p.size ∧ q.nodes = p.nodes) ↔
      (∀ n ∈ p.nodes, n ≠ 0x00850000 ∧ n ≠ 0x008500d8) ∧
        ((pathText [hidUsageLkp] p).length + 1 < size ∨
          ∀ n ∈ p.nodes.getLast?, n = 0 ∨ n &&& 0xffff0000 = 0x00ff0000) := by
  have hcount : p.nodes.length = p.size := by rw [HIDPath.nodes, List.length_take]; omega
  rw [pathToString_eq]
  rcases Nat.lt_or_ge ((pathText [hidUsageLkp] p).length + 1) size with hroom | hfull
  · -- the whole text is there
    have hlen : (p.nodes.map (nodeToString [hidUsageLkp])).length = p.size := by rw [List.length_map, hcount]
    rw [List.take_of_length_le (by omega), pathText, reads_words_iff (isWord_of_mem_map hnodes) hcount hsize hlen hr,
      filterMap_nodeToString hnodes, map_readBack_eq_self]
    exact ⟨fun h => ⟨h, .inl hroom⟩, And.left⟩
  · have hcut : (pathText [hidUsageLkp] p).take (size - 2) = (pathText [hidUsageLkp] p).dropLast := by
      rw [List.dropLast_eq_take]
      congr 1
      omega
    rw [hcut, or_iff_right (by omega)]
    rcases List.eq_nil_or_concat p.nodes with hnil | ⟨nodes, last, hlast⟩
    · have htext : (pathText [hidUsageLkp] p).dropLast = ".".toList.intercalate [] := by rw [pathText, hnil]; rfl
      have hzero : ([] : List CStr).length = p.size := by rw [← hcount, hnil]; rfl
      rw [htext, reads_words_iff (by simp) hcount hsize hzero hr, hnil]
      simp
    · -- the last word loses its last character
      rw [List.concat_eq_append] at hlast
      rw [hlast] at hnodes hcount ⊢
      have hl : last < 2 ^ 32 := hnodes last (List.mem_append_right _ List.mem_cons_self)
      have hinit : ∀ n ∈ nodes, n < 2 ^ 32 := fun n hn => hnodes n (List.mem_append_left _ hn)
      have hgt := one_lt_length_nodeToString hl
      have htext : (pathText [hidUsageLkp] p).dropLast =
          ".".toList.intercalate
            (nodes.map (nodeToString [hidUsageLkp]) ++ [(nodeToString [hidUsageLkp] last).dropLast]) := by
        rw [pathText, hlast, List.map_append, List.map_singleton, intercalate_concat, intercalate_concat,
          List.dropLast_append_of_ne_nil (List.ne_nil_of_length_pos (by omega))]
      have hwords : ∀ w ∈ nodes.map (nodeToString [hidUsageLkp]) ++ [(nodeToString [hidUsageLkp] last).dropLast], IsWord w := by
        intro w hw
        rcases List.mem_append.1 hw with hw | hw
        · exact isWord_of_mem_map hinit w hw
        · rw [List.mem_singleton.1 hw]
          exact (nodeToString_isWord hl).cut hgt
      rw [List.length_append, List.length_singleton] at hcount
      have hreads := reads_words_iff hwords (p := p) (r := r) (by rw [hlast, List.length_append, List.length_singleton]; exact hcount)
        hsize (by rw [List.length_append, List.length_map, List.length_singleton]; exact hcount) hr
      rw [hlast] at hreads
      rw [htext, hreads, filterMap_cut hinit hl, List.getLast?_concat]
      simp only [Option.mem_some_iff, forall_eq']

theorem string_to_path_flow :
    ∃ q, stringToPath (pathToString 128 ⟨3, 0x00840004 :: 0x00ff0002 :: 0xff860024 :: List.replicate 7 0⟩ [hidUsageLkp])
          ⟨0, List.replicate 10 0⟩ [hidUsageLkp] = some q ∧ q.size = 3 ∧
      q.nodes = [0x00840004, 0x00ff0002, 0xff860024] :=
  (string_to_path_iff 128 ⟨3, 0x00840004 :: 0x00ff0002 :: 0xff860024 :: List.replicate 7 0⟩ ⟨0, List.replicate 10 0⟩ (by decide)
    rfl rfl (by decide) (by decide +kernel)).2 ⟨by decide, .inl (by decide +kernel)⟩

/-- The usage `Undefined` of the Battery System page is read back as that of the Power Device page. -/
theorem string_to_path_undefined :
    ¬ ∃ q, stringToPath (pathToString 128 ⟨1, 0x00850000 :: List.replicate 9 0⟩ [hidUsageLkp]) ⟨0, List.replicate 10 0⟩
          [hidUsageLkp] = some q ∧ q.size = 1 ∧ q.nodes = [0x00850000] := by
  have hread : stringToPath (pathToString 128 ⟨1, 0x00850000 :: List.replicate 9 0⟩ [hidUsageLkp]) ⟨0, List.replicate 10 0⟩
      [hidUsageLkp] = some ⟨1, 0x00840000 :: List.replicate 9 0⟩ := by decide +kernel
  rintro ⟨q, hq, -, hnodes⟩
  rw [hread] at hq
  rw [← Option.some.inj hq] at hnodes
  revert hnodes
  decide

end Hid

end Nut
