import Nut.Drivers.Dstate

/-!
# `main.c`: the settings of a driver

What a driver makes of the settings of its section in `ups.conf`.  The search of `storeval` in the table of the driver,
which may end the driver, is the parameter `vartab`; the variables of `main.c` itself are left out.
-/

namespace Nut

/-- The sign of the result of `strncasecmp`. -/
def strncasecmp (s t : CStr) (n : Nat) : Ordering := strcasecmp (s.take n) (t.take n)

/-- The text that `%s` makes of a null pointer. -/
def nullText : CStr := "(null)".toList

def storeval (w : Nat → Bool) (vartab : Dstate → CStr → Option CStr → Option Dstate) (d : Dstate) (var : CStr)
    (val : Option CStr) : Option Dstate :=
  if strncasecmp var "override.".toList 9 = .eq then
    let d := (dstateSetinfo w d (var.drop 9) (val.getD nullText)).1
    some (dstateSetflags w d (var.drop 9) stFlagImmutable)
  else if strncasecmp var "default.".toList 8 = .eq then
    some (dstateSetinfo w d (var.drop 8) (val.getD nullText)).1
  else vartab d var val

/-- The settings for `main.c` itself, and whether this was one. -/
def mainArg (w : Nat → Bool) (d : Dstate) (var : CStr) (val : Option CStr) : Dstate × Bool :=
  if var = "nolock".toList then ((dstateSetinfo w d "driver.flag.nolock".toList "enabled".toList).1, true)
  else if var = "ignorelb".toList then ((dstateSetinfo w d "driver.flag.ignorelb".toList "enabled".toList).1, true)
  else
    match val with
    | none => (d, false)
    | some val =>
      if var = "port".toList then ((dstateSetinfo w d "driver.parameter.port".toList val).1, true)
      else if var = "sddelay".toList then (d, true)
      else if var = "sdorder".toList then (d, true)
      else if var = "desc".toList then (d, true)
      else (d, false)

/-- One setting of `ups.conf`, for the driver `progname` of the UPS `upsname`; there is no result when the driver
ends. -/
def Main.doUpsconfArgs (w : Nat → Bool) (vartab : Dstate → CStr → Option CStr → Option Dstate) (upsname progname : CStr)
    (d : Dstate) (confupsname : Option CStr) (var : CStr) (val : Option CStr) : Option Dstate :=
  match confupsname with
  | none => some d
  | some confupsname =>
    if confupsname ≠ upsname then some d
    else
      match mainArg w d var val with
      | (d, true) => some d
      | (d, false) =>
        match val with
        | none =>
          let tmp := snprintf smallbuf ("driver.flag.".toList ++ var)
          storeval w vartab (dstateSetinfo w d tmp "enabled".toList).1 var none
        | some val =>
          if var = "driver".toList then if val ≠ progname then none else some d
          else if var = "pollinterval".toList then some d
          else storeval w vartab d var (some val)

end Nut
