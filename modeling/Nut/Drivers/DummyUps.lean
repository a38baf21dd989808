import Nut.Common.Tokens
import Nut.Drivers.Status
import Nut.Sync.Override

/-!
# `dummy-ups.c`: the definition file

`parse_data_file` goes through the lines of the file up to the next `TIMER`, goes on behind it when the time has come, and
starts again at the end.  Between two calls the clients may set variables.

The lines are given as their arguments, a line that cannot be parsed without any.  There is no result where an argument is
read that the line does not have, or the value of a line before it.
-/

namespace Nut

open SearchTree

namespace DummyUps

def maxStringSize : Nat := 128

/-- `dummy_info_t` -/
structure DummyInfo where
  infoType : CStr
  infoFlags : BitVec 32
  infoLen : Int32

def nutData : List DummyInfo :=
  [⟨"ups.mfr".toList, stFlagString ||| stFlagRw, 32⟩, ⟨"ups.model".toList, stFlagString ||| stFlagRw, 32⟩,
    ⟨"ups.status".toList, stFlagString ||| stFlagRw, 32⟩, ⟨"ups.serial".toList, stFlagString ||| stFlagRw, 32⟩,
    ⟨"ups.load".toList, stFlagRw, 32⟩, ⟨"ups.alarm".toList, stFlagString ||| stFlagRw, 32⟩,
    ⟨"ups.time".toList, stFlagString ||| stFlagRw, 16⟩, ⟨"ups.date".toList, stFlagString ||| stFlagRw, 16⟩,
    ⟨"ups.mfr.date".toList, stFlagString ||| stFlagRw, 16⟩, ⟨"ups.serial".toList, stFlagString ||| stFlagRw, 16⟩,
    ⟨"ups.firmware".toList, stFlagString ||| stFlagRw, 16⟩, ⟨"ups.firmware.aux".toList, stFlagString ||| stFlagRw, 16⟩,
    ⟨"ups.temperature".toList, stFlagRw, 1⟩, ⟨"ups.id".toList, stFlagString ||| stFlagRw, 16⟩,
    ⟨"ups.delay.start".toList, stFlagRw, 1⟩, ⟨"ups.delay.reboot".toList, stFlagRw, 1⟩,
    ⟨"ups.delay.shutdown".toList, stFlagRw, 1⟩, ⟨"ups.test.interval".toList, stFlagRw, 1⟩,
    ⟨"ups.test.result".toList, stFlagString ||| stFlagRw, 16⟩, ⟨"input.voltage".toList, stFlagRw, 1⟩,
    ⟨"input.voltage.maximum".toList, stFlagRw, 1⟩, ⟨"input.voltage.minimum".toList, stFlagRw, 1⟩,
    ⟨"input.voltage.nominal".toList, stFlagRw, 1⟩, ⟨"input.transfer.reason".toList, stFlagString ||| stFlagRw, 1⟩,
    ⟨"input.transfer.low".toList, stFlagRw, 1⟩, ⟨"input.transfer.high".toList, stFlagRw, 1⟩,
    ⟨"input.sensitivity".toList, stFlagString ||| stFlagRw, 1⟩, ⟨"input.quality".toList, stFlagString ||| stFlagRw, 6⟩,
    ⟨"input.frequency".toList, stFlagRw, 1⟩, ⟨"input.transfer.boost.low".toList, stFlagRw, 1⟩,
    ⟨"input.transfer.boost.high".toList, stFlagRw, 1⟩, ⟨"input.transfer.trim.low".toList, stFlagRw, 1⟩,
    ⟨"input.transfer.trim.high".toList, stFlagRw, 1⟩, ⟨"output.voltage".toList, stFlagRw, 1⟩,
    ⟨"output.frequency".toList, stFlagRw, 1⟩, ⟨"output.current".toList, stFlagRw, 1⟩,
    ⟨"battery.charge".toList, stFlagRw, 1⟩, ⟨"battery.charge.low".toList, stFlagRw, 1⟩,
    ⟨"battery.voltage".toList, stFlagRw, 1⟩, ⟨"battery.current".toList, stFlagRw, 1⟩,
    ⟨"battery.runtime".toList, stFlagRw, 1⟩, ⟨"battery.runtime.low".toList, stFlagRw, 1⟩,
    ⟨"battery.charge.restart".toList, stFlagRw, 1⟩, ⟨"battery.temperature".toList, stFlagRw, 1⟩,
    ⟨"battery.voltage.nominal".toList, stFlagRw, 1⟩, ⟨"ambient.temperature".toList, stFlagRw, 1⟩,
    ⟨"ambient.temperature.alarm".toList, stFlagRw, 1⟩, ⟨"ambient.temperature.high".toList, stFlagRw, 1⟩,
    ⟨"ambient.temperature.low".toList, stFlagRw, 1⟩, ⟨"ambient.humidity".toList, stFlagRw, 1⟩,
    ⟨"ambient.humidity.alarm".toList, stFlagRw, 1⟩, ⟨"ambient.humidity.high".toList, stFlagRw, 1⟩,
    ⟨"ambient.humidity.low".toList, stFlagRw, 1⟩]

structure Dummy where
  status : StatusState
  nextUpdate : Int
  /-- The lines that are left, while the file is open. -/
  ctx : Option (List (List CStr))

def findInfo (varname : CStr) : Option DummyInfo := nutData.find? fun item => strcasecmp item.infoType varname = .eq

/-- Unknown data are taken as well. -/
def isValidData (varname : CStr) : Bool :=
  match findInfo varname with
  | some _ => true
  | none => true

def isValidValue (varname _value : CStr) : Bool :=
  match findInfo varname with
  | some _ => true
  | none => true

/-- The new state, and whether the variable is handled. -/
def setvar (w : Nat → Bool) (s : StatusState) (varname val : CStr) : StatusState × Bool :=
  if varname.take 10 = "ups.status".toList then (statusCommit w (statusSet (statusInit s) val), true)
  else if isValidData varname = false then (s, false)
  else if isValidValue varname val = false then (s, false)
  else if val.length = 0 then ({ s with dstate := (dstateDelinfo w s.dstate varname).1 }, true)
  else
    let d := (dstateSetinfo w s.dstate varname val).1
    match findInfo varname with
    | none => ({ s with dstate := d }, true)
    | some item =>
      let d := dstateSetflags w d item.infoType item.infoFlags
      let d := if item.infoFlags &&& stFlagString ≠ 0 then dstateSetaux w d item.infoType item.infoLen else d
      ({ s with dstate := d }, true)

/-- What is in `var_value` behind the loop over the words. -/
def varValue : List CStr → CStr
  | [] => []
  | arg :: args => args.foldl (fun v arg => snprintfcat v maxStringSize (' ' :: arg)) (snprintf maxStringSize arg)

/-- A line, with the delay of a `TIMER`. -/
def parseLine (w : Nat → Bool) (s : StatusState) : List CStr → Option (StatusState × Option Int32)
  | [] => some (s, none)
  | arg0 :: args =>
    if arg0.take 5 = "TIMER".toList then
      match args with
      | [] => none
      | seconds :: _ => some (s, some (atoi seconds))
    else
      let varname := arg0.takeWhile (· ≠ ':')
      if varname.take 7 = "driver.".toList then some (s, none)
      else if varname.take 10 = "ups.status".toList then some (statusCommit w (args.foldl statusSet (statusInit s)), none)
      else
        match args with
        | [] => none
        | _ => some ((setvar w s varname (varValue args)).1, none)

/-- The loop over the lines; `later` is the time at a `TIMER`. -/
def parseLines (w : Nat → Bool) (later : Nat) (s : StatusState) : List (List CStr) → Option Dummy
  | [] => some ⟨s, -1, none⟩
  | line :: lines =>
    match parseLine w s line with
    | none => none
    | some (s, none) => parseLines w later s lines
    | some (s, some delay) =>
      let nextUpdate := later + delay.toInt
      some ⟨s, nextUpdate, if nextUpdate = -1 then none else some lines⟩

def parseDataFile (w : Nat → Bool) (file : List (List CStr)) (now later : Nat) (s : Dummy) : Option Dummy :=
  if now < s.nextUpdate then some s else parseLines w later s.status (s.ctx.getD file)

/-! ### The runs -/

/-- A call of `parse_data_file`, or a variable that a client sets. -/
inductive Event
  | update (now later : Nat)
  | set (varname val : CStr)

def Event.run (w : Nat → Bool) (file : List (List CStr)) (s : Dummy) : Event → Option Dummy
  | .update now later => parseDataFile w file now later s
  | .set varname val => some { s with status := (setvar w s.status varname val).1 }

def run (w : Nat → Bool) (file : List (List CStr)) (s : Dummy) (events : List Event) : Option Dummy :=
  events.foldlM (Event.run w file) s

/-- The lines that a call comes to, with the states before them. -/
def seenLines (w : Nat → Bool) (s : StatusState) : List (List CStr) → List (List CStr × StatusState)
  | [] => []
  | line :: lines =>
    (line, s) :: match parseLine w s line with
      | some (s, none) => seenLines w s lines
      | _ => []

def Event.seen (w : Nat → Bool) (file : List (List CStr)) (s : Dummy) : Event → List (List CStr × StatusState)
  | .update now _ => if now < s.nextUpdate then [] else seenLines w s.status (s.ctx.getD file)
  | .set _ _ => []

/-- The lines that a run comes to. -/
def seen (w : Nat → Bool) (file : List (List CStr)) (s : Dummy) : List Event → List (List CStr × StatusState)
  | [] => []
  | event :: events =>
    event.seen w file s ++ match event.run w file s with
      | some s => seen w file s events
      | none => []

/-! ### What the lines mean -/

/-- The words with single blanks between them. -/
def joined (words : List CStr) : CStr := [' '].intercalate words

def IsNumber (s : CStr) : Prop := s ≠ [] ∧ ∀ c ∈ s, c.isDigit = true

/-- `line` sets or removes the variable, which is not one of the driver's own. -/
def Named (line : List CStr) (varname : CStr) (words : List CStr) : Prop :=
  line = (varname ++ [':']) :: words ∧ ':' ∉ varname ∧ varname.take 7 ≠ "driver.".toList

def Timer (line : List CStr) (seconds : CStr) : Prop :=
  (∃ rest, line = "TIMER".toList :: seconds :: rest) ∧ IsNumber seconds

/-- The variable has the value. -/
def HasValue (s : StatusState) (varname value : CStr) : Prop :=
  ∃ n, stateTreeFind s.dstate.dtreeRoot varname = some n ∧ n.raw = value

/-- What a line does. -/
structure Law (line : List CStr) (s s' : StatusState) (wait : Option Int32) : Prop where
  sets : ∀ varname words, Named line varname words → words ≠ [] → varname ≠ "ups.status".toList →
    (joined words).length < maxStringSize → wait = none ∧ HasValue s' varname (joined words) ∧
      ∀ v, tolower v ≠ tolower varname → stateTreeFind s'.dstate.dtreeRoot v = stateTreeFind s.dstate.dtreeRoot v
  removes : ∀ varname, Named line varname [] → wait = none ∧ stateTreeFind s'.dstate.dtreeRoot varname = none
  timer : ∀ seconds, Timer line seconds → s' = s ∧ wait = some (atoi seconds)
  other : (∀ varname words, ¬ Named line varname words) → (∀ seconds, ¬ Timer line seconds) → s' = s ∧ wait = none

/-- Every line that the run comes to is read and does what it should, and the lines are those of the file, again and again. -/
structure Replays (w : Nat → Bool) (file : List (List CStr)) (s : Dummy) (events : List Event) : Prop where
  succeeds : (run w file s events).isSome
  lines : ∀ p ∈ seen w file s events, ∃ s' wait, parseLine w p.2 p.1 = some (s', wait) ∧ Law p.1 p.2 s' wait
  order : ∃ n, (seen w file s events).map Prod.fst <+: (List.replicate n file).flatten

/-- The value can be set: the buffer takes it whole, it is not empty, and nothing keeps an old value. -/
structure Settable (s : StatusState) (varname : CStr) (words : List CStr) : Prop where
  whole : words.length = 1 ∨ (joined words).length ≠ maxStringSize - 1
  nonempty : joined words ≠ []
  free : ∀ n, stateTreeFind s.dstate.dtreeRoot varname = some n →
    n.raw = joined words ∨ strcasecmp n.raw (joined words) ≠ .eq ∧ n.flags &&& stFlagImmutable = 0

/-- The lines that are handled as they should be. -/
inductive Good (s : StatusState) : List CStr → Prop
  | empty : Good s []
  | timer {seconds : CStr} (rest : List CStr) : IsNumber seconds → 0 ≤ (atoi seconds).toInt →
      Good s ("TIMER".toList :: seconds :: rest)
  | driver {arg0 : CStr} (args : List CStr) : (arg0.takeWhile (· ≠ ':')).take 7 = "driver.".toList → Good s (arg0 :: args)
  | status {words : List CStr} : words ≠ [] → Good s ("ups.status:".toList :: words)
  | set {varname : CStr} {words : List CStr} : ':' ∉ varname → (varname ++ [':']).take 5 ≠ "TIMER".toList →
      varname.take 10 ≠ "ups.status".toList → words ≠ [] →
      ((joined words).length < maxStringSize → Settable s varname words) → Good s ((varname ++ [':']) :: words)

section Value

/-- The loop appends the words while they fit. -/
theorem foldl_snprintfcat (args : List CStr) (v : CStr) (h : (v ++ args.flatMap (' ' :: ·)).length < maxStringSize - 1) :
    args.foldl (fun v arg => snprintfcat v maxStringSize (' ' :: arg)) v = v ++ args.flatMap (' ' :: ·) := by
  induction args generalizing v with
  | nil => exact (List.append_nil v).symm
  | cons arg args ih =>
    rw [List.flatMap_cons, ← List.append_assoc] at h
    have hlen : (v ++ ' ' :: arg).length < maxStringSize - 1 := by
      rw [List.length_append] at h
      omega
    have hcat : snprintfcat v maxStringSize (' ' :: arg) = v ++ ' ' :: arg := by
      rw [List.length_append] at hlen
      rw [snprintfcat, snprintf_of_lt (by omega)]
    rw [List.foldl_cons, hcat, ih _ h, List.flatMap_cons, List.append_assoc]

theorem joined_cons (arg : CStr) (args : List CStr) : joined (arg :: args) = arg ++ args.flatMap (' ' :: ·) := by
  unfold joined
  induction args generalizing arg with
  | nil => simp
  | cons arg' args ih => rw [List.intercalate_cons_cons, ih, List.flatMap_cons, List.append_assoc, List.singleton_append]; rfl

/-- The words with blanks, where the buffer takes them. -/
theorem varValue_eq {words : List CStr} (hne : words ≠ []) (hfits : (joined words).length < maxStringSize)
    (hwhole : words.length = 1 ∨ (joined words).length ≠ maxStringSize - 1) : varValue words = joined words := by
  obtain ⟨arg, args, rfl⟩ := List.exists_cons_of_ne_nil hne
  rw [joined_cons] at hfits hwhole ⊢
  have harg : arg.length < maxStringSize := by
    rw [List.length_append] at hfits
    omega
  rw [varValue, snprintf_of_lt harg]
  rcases hwhole with hone | hwhole
  · obtain rfl : args = [] := List.length_eq_zero_iff.1 (Nat.succ.inj hone)
    exact (List.append_nil arg).symm
  · exact foldl_snprintfcat args arg (by omega)

end Value

/-! ### Setting a variable -/

section Setvar

variable {w : Nat → Bool} {s : StatusState} {varname value : CStr}

/-- `setvar` sets a variable other than the status. -/
theorem sets_setvar (hname : varname.take 10 ≠ "ups.status".toList) (hne : value ≠ []) (hlen : value.length < stMaxValueLen)
    (hfree : ∀ n, stateTreeFind s.dstate.dtreeRoot varname = some n →
      n.raw = value ∨ strcasecmp n.raw value ≠ .eq ∧ n.flags &&& stFlagImmutable = 0) :
    VarSet s.dstate.dtreeRoot (setvar w s varname value).1.dstate.dtreeRoot varname value := by
  have hset := @varSet_setinfo w s.dstate varname value hlen hfree
  have hvalid : isValidData varname = true ∧ isValidValue varname value = true := by
    unfold isValidData isValidValue
    cases findInfo varname <;> exact ⟨rfl, rfl⟩
  have hpos : value.length ≠ 0 := fun h => hne (List.length_eq_zero_iff.1 h)
  unfold setvar
  rw [if_neg hname, hvalid.1, hvalid.2, if_neg Bool.noConfusion, if_neg Bool.noConfusion, if_neg hpos]
  dsimp only
  cases hfind : findInfo varname with
  | none => exact hset
  | some item =>
    have hitem : tolower item.infoType = tolower varname :=
      strcasecmp_eq.1 (by simpa using List.find?_some hfind)
    have hflags := hset.modify (keepsImmutable_setFlagsUnless item.infoFlags).toKeepsReading
    rw [← hitem, ← dtreeRoot_setflags] at hflags
    dsimp only
    split
    · have haux := hflags.modify (keeps_setAuxOf item.infoLen)
      rw [← hitem, ← dtreeRoot_setaux] at haux
      exact haux
    · exact hflags

end Setvar

/-! ### The lines -/

section Lines

variable {w : Nat → Bool} {s : StatusState}

theorem Named.unique {varname varname' : CStr} {words words' : List CStr}
    (h : Named ((varname ++ [':']) :: words) varname' words') : varname' = varname ∧ words' = words :=
  ⟨(List.append_cancel_right (List.cons.inj h.1).1).symm, (List.cons.inj h.1).2.symm⟩

theorem not_named_timer {seconds varname : CStr} {rest words : List CStr} :
    ¬ Named ("TIMER".toList :: seconds :: rest) varname words := by
  intro h
  have hlast := congrArg List.getLast? (List.cons.inj h.1).1
  rw [List.getLast?_concat] at hlast
  exact absurd hlast (by decide)

theorem not_timer_named {varname seconds : CStr} {words : List CStr} : ¬ Timer ((varname ++ [':']) :: words) seconds := by
  rintro ⟨⟨rest, h⟩, -⟩
  have hlast := congrArg List.getLast? (List.cons.inj h).1
  rw [List.getLast?_concat] at hlast
  exact absurd hlast (by decide)

/-- What stands before the first colon. -/
theorem varname_eq {varname : CStr} (h : ':' ∉ varname) : (varname ++ [':']).takeWhile (· ≠ ':') = varname :=
  (takeWhile_append_cons h []).1

theorem take_of_driver {arg0 : CStr} (h : (arg0.takeWhile (· ≠ ':')).take 7 = "driver.".toList) :
    arg0.take 5 ≠ "TIMER".toList := by
  rcases arg0 with _ | ⟨c, arg0⟩
  · cases h
  · intro htimer
    by_cases hc : c = ':'
    · subst hc
      cases h
    · rw [List.takeWhile_cons_of_pos (by simpa using hc)] at h
      have hd := (List.cons.inj h).1
      have ht := (List.cons.inj htimer).1
      exact absurd (hd.symm.trans ht) (by decide)

theorem parseLine_driver {arg0 : CStr} (args : List CStr) (h : (arg0.takeWhile (· ≠ ':')).take 7 = "driver.".toList) :
    parseLine w s (arg0 :: args) = some (s, none) := by
  unfold parseLine
  exact (if_neg (take_of_driver h)).trans (if_pos h)

/-- A driver line changes nothing. -/
theorem law_driver {arg0 : CStr} (args : List CStr) (h : (arg0.takeWhile (· ≠ ':')).take 7 = "driver.".toList) :
    Law (arg0 :: args) s s none := by
  have hnamed : ∀ varname words, ¬ Named (arg0 :: args) varname words := by
    rintro varname words ⟨hline, hcolon, hdriver⟩
    rw [(List.cons.inj hline).1, varname_eq hcolon] at h
    exact hdriver h
  refine ⟨fun varname words hn => absurd hn (hnamed varname words), fun varname hn => absurd hn (hnamed varname []), ?_,
    fun _ _ => ⟨rfl, rfl⟩⟩
  rintro seconds ⟨⟨rest, hline⟩, -⟩
  exact absurd (by rw [(List.cons.inj hline).1]; rfl) (take_of_driver h)

/-- A good line is read, and does what it should. -/
theorem Good.law {line : List CStr} (h : Good s line) : ∃ s' wait, parseLine w s line = some (s', wait) ∧ Law line s s' wait := by
  cases h with
  | empty =>
    refine ⟨s, none, rfl, ?_⟩
    have hnamed : ∀ varname words, ¬ Named [] varname words := fun _ _ h => by cases h.1
    refine ⟨fun varname words hn => absurd hn (hnamed varname words), fun varname hn => absurd hn (hnamed varname []), ?_,
      fun _ _ => ⟨rfl, rfl⟩⟩
    rintro seconds ⟨⟨rest, hline⟩, -⟩
    cases hline
  | @timer seconds rest hnumber _ =>
    refine ⟨s, some (atoi seconds), rfl, ?_⟩
    refine ⟨fun _ _ hn => absurd hn not_named_timer, fun _ hn => absurd hn not_named_timer, ?_, ?_⟩
    · rintro seconds' ⟨⟨rest', hline⟩, -⟩
      rw [(List.cons.inj (List.cons.inj hline).2).1]
      exact ⟨rfl, rfl⟩
    · intro _ hother
      exact absurd ⟨⟨rest, rfl⟩, hnumber⟩ (hother seconds)
  | @driver arg0 args hdriver => exact ⟨s, none, parseLine_driver args hdriver, law_driver args hdriver⟩
  | @status words hne =>
    refine ⟨_, none, rfl, ?_⟩
    have hname : ∀ {varname words'}, Named ("ups.status:".toList :: words) varname words' →
        varname = "ups.status".toList ∧ words' = words := fun {varname words'} hn =>
      @Named.unique "ups.status".toList varname words words' hn
    refine ⟨fun varname words' hn _ hstatus => absurd (hname hn).1 hstatus, fun varname hn => absurd (hname hn).2.symm hne, ?_, ?_⟩
    · intro seconds htimer
      exact absurd htimer (@not_timer_named "ups.status".toList seconds words)
    · intro hother _
      exact absurd ⟨rfl, by decide, by decide⟩ (hother "ups.status".toList words)
  | @set varname words hcolon htimer hstatus hne hset =>
    have hword := varname_eq hcolon
    by_cases hdriver : varname.take 7 = "driver.".toList
    · have hdriver' : ((varname ++ [':']).takeWhile (· ≠ ':')).take 7 = "driver.".toList := by rw [hword, hdriver]
      exact ⟨s, none, parseLine_driver words hdriver', law_driver words hdriver'⟩
    · have hline : parseLine w s ((varname ++ [':']) :: words) = some ((setvar w s varname (varValue words)).1, none) := by
        obtain ⟨arg, args, rfl⟩ := List.exists_cons_of_ne_nil hne
        rw [parseLine, if_neg htimer]
        dsimp only
        rw [hword, if_neg hdriver, if_neg hstatus]
      refine ⟨_, none, hline, ?_, ?_, ?_, ?_⟩
      · intro varname' words' hn _ _ hfits
        obtain ⟨rfl, rfl⟩ := hn.unique
        obtain ⟨hwhole, hnonempty, hfree⟩ := hset hfits
        have hlen : (joined words').length < stMaxValueLen := lt_trans hfits (by decide)
        rw [varValue_eq hne hfits hwhole]
        have hsets := @sets_setvar w s varname' (joined words') hstatus hnonempty hlen hfree
        exact ⟨rfl, hsets.value, hsets.others⟩
      · intro varname' hn
        exact absurd hn.unique.2.symm hne
      · intro seconds htimer
        exact absurd htimer not_timer_named
      · intro hother _
        exact absurd ⟨rfl, hcolon, hdriver⟩ (hother varname words)

/-- A `TIMER` of a good line never waits to the time before the epoch that stands for none. -/
theorem Good.wait_nonneg {line : List CStr} (h : Good s line) {s' : StatusState} {delay : Int32}
    (hline : parseLine w s line = some (s', some delay)) : 0 ≤ delay.toInt := by
  cases h with
  | empty => cases hline
  | timer rest _ hpos =>
    cases hline
    exact hpos
  | driver args hdriver =>
    rw [parseLine_driver args hdriver] at hline
    cases hline
  | status _ => cases hline
  | @set varname words hcolon htimer hstatus hne _ =>
    obtain ⟨arg, args, rfl⟩ := List.exists_cons_of_ne_nil hne
    rw [parseLine, if_neg htimer] at hline
    dsimp only at hline
    split at hline
    · cases hline
    · split at hline <;> cases hline

end Lines

/-! ### The runs -/

section Runs

variable {w : Nat → Bool} {file : List (List CStr)}

/-- A call goes through the lines up to a `TIMER` or the end, and leaves the others. -/
theorem parseLines_good (later : Nat) {lines : List (List CStr)} {s : StatusState}
    (hgood : ∀ p ∈ seenLines w s lines, Good p.2 p.1) :
    ∃ s', parseLines w later s lines = some s' ∧ (seenLines w s lines).map Prod.fst ++ s'.ctx.getD [] = lines := by
  induction lines generalizing s with
  | nil => exact ⟨_, rfl, rfl⟩
  | cons line lines ih =>
    have hline : Good s line := hgood (line, s) List.mem_cons_self
    obtain ⟨s', wait, hparse, -⟩ := @Good.law w s line hline
    cases wait with
    | none =>
      have hseen : seenLines w s (line :: lines) = (line, s) :: seenLines w s' lines := by rw [seenLines, hparse]
      rw [hseen] at hgood ⊢
      obtain ⟨t, ht, hlines⟩ := @ih s' fun p hp => hgood p (List.mem_cons_of_mem _ hp)
      refine ⟨t, ?_, ?_⟩
      · rw [parseLines, hparse]
        exact ht
      · rw [List.map_cons, List.cons_append, hlines]
    | some delay =>
      have hpos := hline.wait_nonneg hparse
      have hnext : (later : Int) + delay.toInt ≠ -1 := by omega
      refine ⟨⟨s', later + delay.toInt, some lines⟩, ?_, ?_⟩
      · rw [parseLines, hparse]
        dsimp only
        rw [if_neg hnext]
      · rw [seenLines, hparse]
        rfl

/-- The lines that are left, and then the file again and again. -/
theorem seen_good (events : List Event) {s : Dummy} (hgood : ∀ p ∈ seen w file s events, Good p.2 p.1) :
    (run w file s events).isSome ∧
      ∃ n, (seen w file s events).map Prod.fst <+: s.ctx.getD [] ++ (List.replicate n file).flatten := by
  induction events generalizing s with
  | nil => exact ⟨rfl, 0, List.nil_prefix⟩
  | cons event events ih =>
    rw [seen] at hgood
    have hevent : ∃ s', event.run w file s = some s' ∧
        ∃ n, (event.seen w file s).map Prod.fst ++ s'.ctx.getD [] = s.ctx.getD [] ++ (List.replicate n file).flatten := by
      cases event with
      | set varname val => exact ⟨_, rfl, 0, by simp [Event.seen]⟩
      | update now later =>
        have hseen : ∀ p ∈ Event.seen w file s (.update now later), Good p.2 p.1 :=
          fun p hp => hgood p (List.mem_append_left _ hp)
        rw [Event.run, parseDataFile]
        rw [Event.seen] at hseen ⊢
        by_cases hnow : now < s.nextUpdate
        · rw [if_pos hnow, if_pos hnow]
          exact ⟨s, rfl, 0, by simp⟩
        · rw [if_neg hnow] at hseen
          rw [if_neg hnow, if_neg hnow]
          obtain ⟨s', hs', hlines⟩ := parseLines_good later hseen
          refine ⟨s', hs', ?_⟩
          rw [hlines]
          cases s.ctx with
          | none => exact ⟨1, by simp⟩
          | some lines => exact ⟨0, by simp⟩
    obtain ⟨s', hrun, n, hlines⟩ := hevent
    rw [hrun] at hgood
    obtain ⟨hsome, m, hprefix⟩ := @ih s' fun p hp => hgood p (List.mem_append_right _ hp)
    constructor
    · rw [run, List.foldlM_cons, hrun]
      exact hsome
    · refine ⟨n + m, ?_⟩
      have hall := (List.prefix_append_right_inj ((event.seen w file s).map Prod.fst)).2 hprefix
      rw [← List.append_assoc, hlines, List.append_assoc, ← List.flatten_append, List.replicate_append_replicate] at hall
      rw [seen, hrun, List.map_append]
      exact hall

end Runs

/-- In a run from the start of the file that only comes to good lines, every line does what it should. -/
theorem dummy_replays (w : Nat → Bool) (file : List (List CStr)) (status : StatusState) (events : List Event)
    (hgood : ∀ p ∈ seen w file ⟨status, -1, none⟩ events, Good p.2 p.1) : Replays w file ⟨status, -1, none⟩ events := by
  obtain ⟨hsome, n, hprefix⟩ := seen_good events hgood
  exact ⟨hsome, fun p hp => (hgood p hp).law, n, hprefix⟩

/-- A value of two words, a pause, a status and an empty line. -/
def replayFile : List (List CStr) :=
  [["ups.mfr:".toList, "Acme".toList, "Ltd".toList], ["TIMER".toList, "5".toList],
    ["ups.status:".toList, "OB".toList, "LB".toList], []]

/-- A call within the pause and one after it, a change by a client, and a call that starts the file again. -/
def replayEvents : List Event := [.update 0 0, .update 3 3, .set "ups.mfr".toList "Other".toList, .update 6 6, .update 9 9]

def replayStart : StatusState := ⟨.init, false, [], [], false⟩

/-- The variable can be set to the value of the file. -/
def replayFree (s : StatusState) : Bool :=
  (stateTreeFind s.dstate.dtreeRoot "ups.mfr".toList).all fun n =>
    n.raw = "Acme Ltd".toList ∨ strcasecmp n.raw "Acme Ltd".toList ≠ .eq ∧ n.flags &&& stFlagImmutable = 0

/-- All of the file is replayed, and its beginning again. -/
theorem dummy_replays_twice :
    Replays (fun _ => true) replayFile ⟨replayStart, -1, none⟩ replayEvents ∧
      (seen (fun _ => true) replayFile ⟨replayStart, -1, none⟩ replayEvents).map Prod.fst =
        replayFile ++ replayFile.take 2 := by
  have hseen : ∀ p ∈ seen (fun _ => true) replayFile ⟨replayStart, -1, none⟩ replayEvents,
      p.1 ∈ replayFile ∧ replayFree p.2 = true := by decide +kernel
  refine ⟨dummy_replays _ _ _ _ fun p hp => ?_, by decide +kernel⟩
  obtain ⟨line, s⟩ := p
  obtain ⟨hline, hfree⟩ := hseen _ hp
  simp only [replayFile, List.mem_cons, List.not_mem_nil, or_false] at hline
  rcases hline with rfl | rfl | rfl | rfl
  · refine @Good.set _ "ups.mfr".toList ["Acme".toList, "Ltd".toList] (by decide) (by decide) (by decide) (by decide)
      fun _ => ⟨.inr (by decide), by decide, fun n hn => ?_⟩
    rw [replayFree, hn] at hfree
    exact of_decide_eq_true hfree
  · exact .timer [] ⟨by decide, by decide⟩ (by decide)
  · exact .status (List.cons_ne_nil _ _)
  · exact .empty

/-- A line without words does not remove the variable. -/
theorem no_words_fails :
    ¬ Replays (fun _ => true) [["ups.mfr:".toList]] ⟨⟨.init, false, [], [], false⟩, -1, none⟩ [.update 0 0] := by
  intro h
  exact absurd h.succeeds (by decide)

end DummyUps

end Nut
