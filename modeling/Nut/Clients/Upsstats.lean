import Nut.Clients.Splitname
import Nut.Clients.Template

/-!
# `upsstats.c`: a page from a template

`display_template` reads a template line by line, passes text through and runs the commands between `@`s.  A loop over the
UPSes is made by seeking: `FOREACHUPS` notes the position behind its line, and `ENDFOR` goes back there while there is
another UPS.  The parts of a conditional are skipped by the flags `skip_clause` and `skip_block`.

What the servers answer, and what the C library makes of the time and of floating-point numbers, is in `Env`.  The copies
made by `strdup` are taken to succeed.
-/

namespace Nut.Upsstats

open Template

/-- An entry of the list of UPSes. -/
structure Ulist where
  sys : CStr
  desc : CStr
  deriving DecidableEq

/-- What `upscli_fd`, `upscli_upserror` and `upscli_strerror` say about a connection. -/
structure Upsconn where
  fd : Bool
  varNotSupp : Bool
  strerror : CStr

/-- What the `n`-th call of each function gives: `connect` the connection to a host and port, `get` what is left of the
connection and the value of a variable of a UPS.  `upscli_get` takes no answer with fewer words than the query. -/
structure Env where
  connect : Nat → CStr → Int32 → Upsconn
  get : Nat → CStr → CStr → Upsconn × Option CStr
  strftime : Nat → CStr → CStr
  fahrenheit : CStr → CStr
  refreshdelay : Int32
  upsVersion : CStr

/-- What has been printed, and the variables of the program; `currups` is the list from the current UPS on. -/
structure Page where
  out : CStr
  currups : List Ulist
  skipClause : Bool
  skipBlock : Bool
  useCelsius : Bool
  upsstatpath : CStr
  upsimgpath : CStr
  lastups : Option Ulist
  upsname : Option CStr
  hostname : CStr
  port : Int32
  ups : Upsconn
  calls : Nat

/-- How a page ends early: with a use of `currups` that is NULL, or by `exit` after a message. -/
inductive Halt
  | nullCurrups
  | exit (out : CStr)

def Page.print (p : Page) (text : CStr) : Page := { p with out := p.out ++ text }

def reportError (p : Page) : Page :=
  if p.ups.varNotSupp then p.print "Not supported\n".toList
  else p.print ("[error: ".toList ++ p.ups.strerror ++ "]\n".toList)

def checkUpsFd (doReport : Bool) (p : Page) : Bool × Page :=
  if p.ups.fd = false then (false, if doReport then reportError p else p)
  else if p.currups = [] then (false, if doReport then p.print "No UPS specified for monitoring\n".toList else p)
  else (true, p)

def getVar (e : Env) (var : CStr) (verbose : Bool) (p : Page) : Option CStr × Page :=
  match checkUpsFd true p with
  | (false, p) => (none, p)
  | (true, p) =>
    match p.upsname with
    | none => (none, if verbose then p.print "[No UPS name specified]\n".toList else p)
    | some upsname =>
      let (ups, answer) := e.get p.calls upsname var
      let p := { p with ups := ups, calls := p.calls + 1 }
      match answer with
      | none => (none, if verbose then reportError p else p)
      | some answer => (some (snprintf smallbuf answer), p)

/-! ### The commands that print -/

/-- A command that prints something about a variable, or why there is no value. -/
def onVar (e : Env) (var : CStr) (f : CStr → Page → CStr) (p : Page) : Page :=
  match getVar e var true p with
  | (some answer, p) => p.print (f answer p)
  | (none, p) => p

def parseVar (e : Env) (var : CStr) : Page → Page := onVar e var fun answer _ => answer

structure Stat where
  name : CStr
  desc : CStr
  severity : Nat

def stattab : List Stat :=
  [⟨"OFF".toList, "OFF".toList, 1⟩, ⟨"OL".toList, "ONLINE".toList, 0⟩, ⟨"OB".toList, "ON BATTERY".toList, 2⟩,
    ⟨"LB".toList, "LOW BATTERY".toList, 2⟩, ⟨"RB".toList, "REPLACE BATTERY".toList, 2⟩, ⟨"OVER".toList, "OVERLOAD".toList, 2⟩,
    ⟨"TRIM".toList, "VOLTAGE TRIM".toList, 1⟩, ⟨"BOOST".toList, "VOLTAGE BOOST".toList, 1⟩,
    ⟨"CAL".toList, "CALIBRATION".toList, 1⟩, ⟨"BYPASS".toList, "BYPASS".toList, 2⟩]

/-- The words of a status, as `strtok_r` gives them. -/
def statusWords (status : CStr) : List CStr := (status.splitOnP fun c => c = ' ' || c = '\n').filter (· ≠ [])

def doStatus (e : Env) : Page → Page :=
  onVar e "ups.status".toList fun status _ =>
    (statusWords status).flatMap fun ptr =>
      (stattab.filter fun s => strcasecmp ptr s.name = .eq).flatMap fun s => s.desc ++ "<br>".toList

/-- A number under `%02d`. -/
def pad02 (i : Int) : CStr :=
  if i < 0 then '-' :: Nat.toDigits 10 i.natAbs
  else if i < 10 then '0' :: Nat.toDigits 10 i.natAbs
  else Nat.toDigits 10 i.natAbs

def doRuntime (e : Env) : Page → Page :=
  onVar e "battery.runtime".toList fun runtime _ =>
    let total := (atoi runtime).toInt
    let hours := total.tdiv 3600
    let minutes := (total - hours * 3600).tdiv 60
    let seconds := total.tmod 60
    pad02 hours ++ ":".toList ++ pad02 minutes ++ ":".toList ++ pad02 seconds

def doDate (e : Env) (buf : CStr) (p : Page) : Page :=
  let datebuf := e.strftime p.calls buf
  let p := { p with calls := p.calls + 1 }
  if datebuf.length < smallbuf then p.print datebuf else p

def getImgVal (e : Env) (var desc imgargs : CStr) : Page → Page :=
  onVar e var fun answer p =>
    match p.currups with
    | [] => []
    | currups :: _ =>
      "<IMG SRC=\"".toList ++ p.upsimgpath ++ "?host=".toList ++ currups.sys ++ "&amp;display=".toList ++ var ++
        (if imgargs = [] then [] else "&amp;".toList ++ imgargs) ++ "\" ALT=\"".toList ++ desc ++ ": ".toList ++ answer ++
        "\">".toList

/-- The names that may become part of the URL. -/
def imgarg : List CStr :=
  ["width".toList, "height".toList, "scale_height".toList, "back_col".toList, "scale_num_col".toList, "summary_col".toList,
    "ok_zone_maj_col".toList, "ok_zone_min_col".toList, "neutral_zone_maj_col".toList, "neutral_zone_min_col".toList,
    "warn_zone_maj_col".toList, "warn_zone_min_col".toList, "bar_col".toList, "tempmin".toList, "tempmax".toList,
    "nom_in_freq".toList, "nom_out_freq".toList]

def checkImgarg (out arg : CStr) : CStr :=
  if '=' ∉ arg then out
  else
    let name := arg.takeWhile (· ≠ '=')
    let ep := (arg.dropWhile (· ≠ '=')).tail
    if name ∉ imgarg then out
    else if out = [] then snprintf smallbuf (name ++ '=' :: ep)
    else snprintfcat out smallbuf ("&amp;".toList ++ name ++ '=' :: ep)

def splitImgarg (buf : CStr) : CStr := if buf.length < 3 then [] else (buf.splitOn ' ').foldl checkImgarg []

/-- The known types, with their descriptions. -/
def imgTypes : List (List CStr × CStr) :=
  [(["input.voltage".toList, "input.L1-N.voltage".toList, "input.L2-N.voltage".toList, "input.L3-N.voltage".toList,
      "input.L1-L2.voltage".toList, "input.L2-L3.voltage".toList, "input.L3-L1.voltage".toList], "Input voltage".toList),
    (["battery.voltage".toList], "Battery voltage".toList),
    (["battery.charge".toList], "Battery charge".toList),
    (["output.voltage".toList, "output.L1-N.voltage".toList, "output.L2-N.voltage".toList, "output.L3-N.voltage".toList,
      "output.L1-L2.voltage".toList, "output.L2-L3.voltage".toList, "output.L3-L1.voltage".toList], "Output voltage".toList),
    (["ups.load".toList, "output.L1.power.percent".toList, "output.L2.power.percent".toList,
      "output.L3.power.percent".toList, "output.L1.realpower.percent".toList, "output.L2.realpower.percent".toList,
      "output.L3.realpower.percent".toList], "UPS load".toList),
    (["input.frequency".toList], "Input frequency".toList),
    (["output.frequency".toList], "Output frequency".toList),
    (["ups.temperature".toList], "UPS temperature".toList),
    (["ambient.temperature".toList], "Ambient temperature".toList),
    (["ambient.humidity".toList], "Ambient humidity".toList)]

def doImg (e : Env) (buf : CStr) (p : Page) : Page :=
  let type := buf.takeWhile (· ≠ ' ')
  let imgargs := splitImgarg (buf.dropWhile (· ≠ ' ')).tail
  match imgTypes.find? fun t => type ∈ t.1 with
  | some t => getImgVal e type t.2 imgargs p
  | none => p

def doTemp (e : Env) (var : CStr) : Page → Page :=
  onVar e var fun tempc p => if p.useCelsius then tempc else e.fahrenheit tempc

def doDegrees (p : Page) : Page := (p.print "&deg;".toList).print (if p.useCelsius then "C".toList else "F".toList)

def severityOf (stat : CStr) : Nat :=
  (stat.splitOn ' ').foldl (fun severity sp =>
    stattab.foldl (fun severity s => if s.name = sp ∧ s.severity > severity then s.severity else severity) severity) 0

def doStatuscolor (e : Env) (p : Page) : Page :=
  match checkUpsFd false p with
  | (false, p) => p.print "#FF0000".toList
  | (true, p) =>
    match getVar e "ups.status".toList false p with
    | (none, p) => p.print "#FFFF00".toList
    | (some stat, p) =>
      match severityOf stat with
      | 0 => p.print "#00FF00".toList
      | 1 => p.print "#FFFF00".toList
      | _ => p.print "#FF0000".toList

def doHostlink (e : Env) (p : Page) : Page :=
  match p.currups with
  | [] => p
  | currups :: _ =>
    p.print ("<a href=\"".toList ++ p.upsstatpath ++ "?host=".toList ++ currups.sys ++
      (if 0 < e.refreshdelay then "&amp;refresh=".toList ++ formatInt e.refreshdelay else []) ++ "\">".toList ++
      currups.desc ++ "</a>".toList)

def doTreelink (p : Page) : Page :=
  match p.currups with
  | [] => p
  | currups :: _ =>
    p.print ("<a href=\"".toList ++ p.upsstatpath ++ "?host=".toList ++ currups.sys ++
      "&amp;treemode\">All data</a>".toList)

def doRefresh (e : Env) (p : Page) : Page :=
  if 0 < e.refreshdelay then
    p.print ("<META HTTP-EQUIV=\"Refresh\" CONTENT=\"".toList ++ formatInt e.refreshdelay ++ "\">".toList)
  else p

/-! ### The conditionals -/

/-- Whether a UPS has a variable, with the value `val` where that is given. -/
def ifsupp (e : Env) (var : CStr) (val : Option CStr) (p : Page) : Bool × Page :=
  match checkUpsFd false p with
  | (false, p) => (false, p)
  | (true, p) =>
    match getVar e var false p with
    | (none, p) => (false, p)
    | (some dummy, p) => (val = none || val = some dummy, p)

def maxParseArgs : Nat := 16

/-- The words of an argument, each up to one blank. -/
def breakargs (s : CStr) : List CStr :=
  let aargs := s.splitOn ' '
  (if aargs.getLast? = some [] then aargs.dropLast else aargs).take (maxParseArgs - 1)

def ifeq (e : Env) (s : CStr) (p : Page) : Bool × Page :=
  match breakargs s with
  | [var, val] => ifsupp e var (some val) p
  | _ => (true, p.print "upsstats: IFEQ: Argument error!\n".toList)

/-- The number that a text begins with, if there is one. -/
def leadingLong (tmp : CStr) : Option Int :=
  let digits := match tmp.dropWhile isspace with
    | '-' :: t => t
    | '+' :: t => t
    | t => t
  if (digits.head?.map Char.isDigit) = some true then some (strtol tmp) else none

def getLong (e : Env) (var : CStr) (p : Page) : Option Int × Page :=
  match getVar e var false p with
  | (none, p) => (none, p)
  | (some tmp, p) => (leadingLong tmp, p)

def ifbetween (e : Env) (s : CStr) (p : Page) : Bool × Page :=
  match breakargs s with
  | [var1, var2, var3] =>
    match checkUpsFd false p with
    | (false, p) => (true, p)
    | (true, p) =>
      match getLong e var1 p with
      | (none, p) => (true, p)
      | (some v1, p) =>
        match getLong e var2 p with
        | (none, p) => (true, p)
        | (some v2, p) =>
          match getLong e var3 p with
          | (none, p) => (true, p)
          | (some v3, p) => (!(v1 > v3 || v2 < v3), p)
  | _ => (true, p.print "upsstats: IFBETWEEN: Argument error!\n".toList)

/-- The argument of a command that begins with `name`. -/
def argOf (name cmd : CStr) : Option CStr := if name.isPrefixOf cmd then some (cmd.drop name.length) else none

/-- The condition of a conditional, and the page that asking for it leaves. -/
def condition (e : Env) (cmd : CStr) (p : Page) : Option (Bool × Page) :=
  match argOf "IFSUPP ".toList cmd with
  | some var => some (ifsupp e var none p)
  | none =>
    match argOf "IFEQ ".toList cmd with
    | some s => some (ifeq e s p)
    | none => (argOf "IFBETWEEN ".toList cmd).map fun s => ifbetween e s p

/-! ### The commands -/

def endif : CStr := "ENDIF".toList
def els : CStr := "ELSE".toList
def host : CStr := "HOST".toList
def hostdesc : CStr := "HOSTDESC".toList
def foreachups : CStr := "FOREACHUPS".toList
def endfor : CStr := "ENDFOR".toList

/-- A command that prints a text of the current UPS, which it does not test. -/
def ofCurrups (text : Ulist → CStr) (p : Page) : Except Halt Page :=
  match p.currups with
  | [] => .error .nullCurrups
  | currups :: _ => .ok (p.print (text currups))

def doUpsstatpath (s : CStr) (p : Page) : Page := if s = [] then p else { p with upsstatpath := s }

def doUpsimgpath (s : CStr) (p : Page) : Page := if s = [] then p else { p with upsimgpath := s }

/-- The commands without an argument that neither move in the file nor skip nor rely on a current UPS. -/
def exactCommands (e : Env) : List (CStr × (Page → Page)) :=
  [("RUNTIME".toList, doRuntime e), ("STATUS".toList, doStatus e), ("STATUSCOLOR".toList, doStatuscolor e),
    ("TEMPF".toList, fun p => { p with useCelsius := false }), ("TEMPC".toList, fun p => { p with useCelsius := true }),
    ("VERSION".toList, fun p => p.print e.upsVersion), ("REFRESH".toList, doRefresh e), ("HOSTLINK".toList, doHostlink e),
    ("TREELINK".toList, doTreelink), ("UPSTEMP".toList, doTemp e "ups.temperature".toList),
    ("BATTTEMP".toList, doTemp e "battery.temperature".toList), ("AMBTEMP".toList, doTemp e "ambient.temperature".toList),
    ("DEGREES".toList, doDegrees)]

/-- Those with an argument. -/
def argCommands (e : Env) : List (CStr × (CStr → Page → Page)) :=
  [("VAR ".toList, parseVar e), ("DATE ".toList, doDate e), ("IMG ".toList, doImg e),
    ("UPSSTATSPATH ".toList, doUpsstatpath), ("UPSIMAGEPATH ".toList, doUpsimgpath)]

/-- The commands that neither move in the file nor skip; an unknown one does nothing. -/
def doPlain (e : Env) (cmd : CStr) (p : Page) : Except Halt Page :=
  if cmd = host then ofCurrups Ulist.sys p
  else if cmd = hostdesc then ofCurrups Ulist.desc p
  else
    match (exactCommands e).find? fun c => c.1 = cmd with
    | some c => .ok (c.2 p)
    | none =>
      match (argCommands e).find? fun c => c.1.isPrefixOf cmd with
      | some c => .ok (c.2 (cmd.drop c.1.length) p)
      | none => .ok p

/-- The commands that end or change a part of a conditional, and every other one in a part that is skipped. -/
def skipped (cmd : CStr) (p : Page) : Option Page :=
  if cmd = endif then some { p with skipClause := false, skipBlock := false }
  else if p.skipBlock then some p
  else if cmd = els then some (if p.skipClause then { p with skipClause := false } else { p with skipBlock := true })
  else if p.skipClause then some p
  else none

def unusable (sys : CStr) (p : Page) : Halt :=
  .exit (p.print ("Unusable UPS definition [".toList ++ sys ++ "]\n".toList)).out

/-- The end of `ups_connect`: a new connection. -/
def reconnect (e : Env) (currups : Ulist) (p : Page) : Except Halt Page :=
  match Splitname.upscliSplitname currups.sys with
  | .error _ => .error (unusable currups.sys p)
  | .ok parts =>
    .ok { p with
      upsname := some parts.upsname
      hostname := parts.hostname
      port := parts.port
      ups := e.connect p.calls parts.hostname parts.port
      calls := p.calls + 1
      lastups := some currups }

/-- `ups_connect` to the UPS `currups`. -/
def upsConnect (e : Env) (currups : Ulist) (p : Page) : Except Halt Page :=
  match p.lastups with
  | none => reconnect e currups p
  | some lastups =>
    if lastups.sys = currups.sys then .ok { p with lastups := some currups }
    else
      match Splitname.upscliSplitname currups.sys with
      | .error _ => .error (unusable currups.sys p)
      | .ok parts =>
        if parts.hostname = p.hostname ∧ p.port = parts.port then
          .ok { p with upsname := some parts.upsname, lastups := some currups }
        else reconnect e currups p

/-- The list from the next UPS on becomes current, and its UPS is connected to. -/
def setCurrups (e : Env) (next : List Ulist) (p : Page) : Except Halt Page :=
  match next with
  | [] => .ok { p with currups := [] }
  | currups :: _ => upsConnect e currups { p with currups := next }

/-- The page, the rest of the file, and the position of the loop; `none` is the position 0. -/
structure Stats where
  page : Page
  tf : CStr
  forofs : Option CStr

def doForeachups (e : Env) (ulhead : List Ulist) (s : Stats) : Except Halt Stats :=
  if ulhead = [] then .error .nullCurrups else (setCurrups e ulhead s.page).map fun page => ⟨page, s.tf, some s.tf⟩

def doEndfor (e : Env) (s : Stats) : Except Halt Stats :=
  match s.forofs, s.page.currups with
  | none, _ => .ok s
  | some _, [] => .error .nullCurrups
  | some forofs, _ :: next =>
    (setCurrups e next s.page).map fun page => ⟨page, if next = [] then s.tf else forofs, some forofs⟩

def doCommand (e : Env) (ulhead : List Ulist) (cmd : CStr) (s : Stats) : Except Halt Stats :=
  match skipped cmd s.page with
  | some page => .ok { s with page := page }
  | none =>
    if cmd = foreachups then doForeachups e ulhead s
    else if cmd = endfor then doEndfor e s
    else
      match condition e cmd s.page with
      | some (shown, page) => .ok { s with page := if shown then page else { page with skipClause := true } }
      | none => (doPlain e cmd s.page).map fun page => { s with page := page }

/-- A character is passed through, where no part is skipped. -/
def passThrough (c : Char) (p : Page) : Page := if p.skipClause || p.skipBlock then p else p.print [c]

def doItem (e : Env) (ulhead : List Ulist) (s : Stats) : Item → Except Halt Stats
  | .char c => .ok { s with page := passThrough c s.page }
  | .command cmd => doCommand e ulhead cmd s

def parseLine (e : Env) (ulhead : List Ulist) (buf : CStr) (s : Stats) : Except Halt Stats :=
  (items buf).foldlM (doItem e ulhead) s

/-- The loop of `display_template`, for as many lines as `fuel`. -/
def displayTemplate (e : Env) (ulhead : List Ulist) : Nat → Stats → Option (Except Halt Stats)
  | 0, _ => none
  | fuel + 1, s =>
    match fgets s.tf with
    | none => some (.ok s)
    | some (buf, tf) =>
      match parseLine e ulhead buf { s with tf := tf } with
      | .error halt => some (.error halt)
      | .ok s => displayTemplate e ulhead fuel s

/-! ### What a command leaves as it is -/

/-- The current UPS and the flags stay. -/
structure Keeps (p q : Page) : Prop where
  currups : q.currups = p.currups
  skipClause : q.skipClause = p.skipClause
  skipBlock : q.skipBlock = p.skipBlock

theorem Keeps.refl (p : Page) : Keeps p p := ⟨rfl, rfl, rfl⟩

theorem Keeps.trans {p q r : Page} (h : Keeps p q) (h' : Keeps q r) : Keeps p r :=
  ⟨h'.currups.trans h.currups, h'.skipClause.trans h.skipClause, h'.skipBlock.trans h.skipBlock⟩

section Keeps

variable (e : Env) (var : CStr) (p : Page)

theorem keeps_print (text : CStr) : Keeps p (p.print text) := ⟨rfl, rfl, rfl⟩

theorem keeps_reportError : Keeps p (reportError p) := by
  unfold reportError
  split
  · exact keeps_print p _
  · exact keeps_print p _

theorem keeps_checkUpsFd (doReport : Bool) : Keeps p (checkUpsFd doReport p).2 := by
  unfold checkUpsFd
  split
  · cases doReport
    · exact .refl p
    · exact keeps_reportError p
  · split
    · cases doReport
      · exact .refl p
      · exact keeps_print p _
    · exact .refl p

theorem keeps_getVar (verbose : Bool) : Keeps p (getVar e var verbose p).2 := by
  have hcheck : Keeps p (checkUpsFd true p).2 := keeps_checkUpsFd p true
  unfold getVar
  generalize checkUpsFd true p = answered at hcheck ⊢
  rcases answered with ⟨_ | _, q⟩
  · exact hcheck
  · refine hcheck.trans ?_
    dsimp only
    split
    · cases verbose
      · exact .refl q
      · exact keeps_print q _
    · rename_i upsname _
      have hasked : Keeps q { q with ups := (e.get q.calls upsname var).1, calls := q.calls + 1 } := ⟨rfl, rfl, rfl⟩
      refine hasked.trans ?_
      split
      · cases verbose
        · exact .refl _
        · exact keeps_reportError _
      · exact .refl _

theorem keeps_onVar (f : CStr → Page → CStr) : Keeps p (onVar e var f p) := by
  have hget : Keeps p (getVar e var true p).2 := keeps_getVar e var p true
  unfold onVar
  generalize getVar e var true p = answered at hget ⊢
  rcases answered with ⟨_ | answer, q⟩
  · exact hget
  · exact hget.trans (keeps_print q _)

theorem keeps_doDate (buf : CStr) : Keeps p (doDate e buf p) := by
  simp only [doDate]
  split
  · exact ⟨rfl, rfl, rfl⟩
  · exact ⟨rfl, rfl, rfl⟩

theorem keeps_doImg (buf : CStr) : Keeps p (doImg e buf p) := by
  simp only [doImg]
  split
  · exact keeps_onVar e _ p _
  · exact .refl p

theorem keeps_doStatuscolor : Keeps p (doStatuscolor e p) := by
  have hcheck : Keeps p (checkUpsFd false p).2 := keeps_checkUpsFd p false
  unfold doStatuscolor
  generalize checkUpsFd false p = answered at hcheck ⊢
  rcases answered with ⟨_ | _, q⟩
  · exact hcheck.trans (keeps_print q _)
  · have hget : Keeps q (getVar e "ups.status".toList false q).2 := keeps_getVar e _ q false
    dsimp only
    generalize getVar e "ups.status".toList false q = answered at hget ⊢
    rcases answered with ⟨_ | stat, r⟩
    · exact hcheck.trans (hget.trans (keeps_print r _))
    · dsimp only
      split <;> exact hcheck.trans (hget.trans (keeps_print r _))

theorem keeps_doHostlink : Keeps p (doHostlink e p) := by
  unfold doHostlink
  split
  · exact .refl p
  · exact keeps_print p _

theorem keeps_doTreelink : Keeps p (doTreelink p) := by
  unfold doTreelink
  split
  · exact .refl p
  · exact keeps_print p _

theorem keeps_doRefresh : Keeps p (doRefresh e p) := by
  unfold doRefresh
  split
  · exact keeps_print p _
  · exact .refl p

theorem keeps_ifsupp (val : Option CStr) : Keeps p (ifsupp e var val p).2 := by
  have hcheck : Keeps p (checkUpsFd false p).2 := keeps_checkUpsFd p false
  unfold ifsupp
  generalize checkUpsFd false p = answered at hcheck ⊢
  rcases answered with ⟨_ | _, q⟩
  · exact hcheck
  · have hget : Keeps q (getVar e var false q).2 := keeps_getVar e var q false
    dsimp only
    generalize getVar e var false q = answered at hget ⊢
    rcases answered with ⟨_ | dummy, r⟩
    · exact hcheck.trans hget
    · exact hcheck.trans hget

theorem keeps_ifeq (s : CStr) : Keeps p (ifeq e s p).2 := by
  unfold ifeq
  split
  · exact keeps_ifsupp e _ p _
  · exact keeps_print p _

theorem keeps_getLong : Keeps p (getLong e var p).2 := by
  have hget : Keeps p (getVar e var false p).2 := keeps_getVar e var p false
  unfold getLong
  generalize getVar e var false p = answered at hget ⊢
  rcases answered with ⟨_ | tmp, q⟩
  · exact hget
  · exact hget

theorem keeps_ifbetween (s : CStr) : Keeps p (ifbetween e s p).2 := by
  unfold ifbetween
  split
  · rename_i var1 var2 var3 _
    have hcheck : Keeps p (checkUpsFd false p).2 := keeps_checkUpsFd p false
    generalize checkUpsFd false p = answered at hcheck ⊢
    rcases answered with ⟨_ | _, p0⟩
    · exact hcheck
    · have h1 : Keeps p0 (getLong e var1 p0).2 := keeps_getLong e var1 p0
      dsimp only
      generalize getLong e var1 p0 = answered at h1 ⊢
      rcases answered with ⟨_ | v1, p1⟩
      · exact hcheck.trans h1
      · have h2 : Keeps p1 (getLong e var2 p1).2 := keeps_getLong e var2 p1
        dsimp only
        generalize getLong e var2 p1 = answered at h2 ⊢
        rcases answered with ⟨_ | v2, p2⟩
        · exact hcheck.trans (h1.trans h2)
        · have h3 : Keeps p2 (getLong e var3 p2).2 := keeps_getLong e var3 p2
          dsimp only
          generalize getLong e var3 p2 = answered at h3 ⊢
          rcases answered with ⟨_ | v3, p3⟩
          · exact hcheck.trans (h1.trans (h2.trans h3))
          · exact hcheck.trans (h1.trans (h2.trans h3))
  · exact keeps_print p _

end Keeps

variable {e : Env} {cmd : CStr} {p q : Page}

/-- The flags stay until the condition is known. -/
theorem keeps_condition {shown : Bool} (h : condition e cmd p = some (shown, q)) : Keeps p q := by
  unfold condition at h
  cases hsupp : argOf "IFSUPP ".toList cmd with
  | some var =>
    rw [hsupp] at h
    have hq : (ifsupp e var none p).2 = q := congrArg Prod.snd (Option.some.inj h)
    exact hq ▸ keeps_ifsupp e var p none
  | none =>
    rw [hsupp] at h
    cases heq : argOf "IFEQ ".toList cmd with
    | some s =>
      rw [heq] at h
      have hq : (ifeq e s p).2 = q := congrArg Prod.snd (Option.some.inj h)
      exact hq ▸ keeps_ifeq e p s
    | none =>
      rw [heq] at h
      obtain ⟨s, -, hs⟩ := Option.map_eq_some_iff.1 h
      have hq : (ifbetween e s p).2 = q := congrArg Prod.snd hs
      exact hq ▸ keeps_ifbetween e p s

theorem keeps_ofCurrups {text : Ulist → CStr} (h : ofCurrups text p = .ok q) : Keeps p q := by
  unfold ofCurrups at h
  split at h
  · cases h
  · cases h
    exact keeps_print p _

theorem keeps_exactCommands : ∀ c ∈ exactCommands e, ∀ p, Keeps p (c.2 p) := by
  have hflag : ∀ (b : Bool) (p : Page), Keeps p { p with useCelsius := b } := fun _ _ => ⟨rfl, rfl, rfl⟩
  have hdegrees : ∀ p : Page, Keeps p (doDegrees p) := fun p => (keeps_print p _).trans (keeps_print _ _)
  simp only [exactCommands, List.forall_mem_cons]
  exact ⟨fun p => keeps_onVar e _ p _, fun p => keeps_onVar e _ p _, keeps_doStatuscolor e, hflag false, hflag true,
    fun p => keeps_print p _, keeps_doRefresh e, keeps_doHostlink e, keeps_doTreelink, fun p => keeps_onVar e _ p _,
    fun p => keeps_onVar e _ p _, fun p => keeps_onVar e _ p _, hdegrees, fun _ h => absurd h List.not_mem_nil⟩

theorem keeps_argCommands : ∀ c ∈ argCommands e, ∀ s p, Keeps p (c.2 s p) := by
  have hstat : ∀ s p, Keeps p (doUpsstatpath s p) := by
    intro s p
    unfold doUpsstatpath
    split <;> exact ⟨rfl, rfl, rfl⟩
  have himg : ∀ s p, Keeps p (doUpsimgpath s p) := by
    intro s p
    unfold doUpsimgpath
    split <;> exact ⟨rfl, rfl, rfl⟩
  simp only [argCommands, List.forall_mem_cons]
  exact ⟨fun s p => keeps_onVar e s p _, fun s p => keeps_doDate e p s, fun s p => keeps_doImg e p s, hstat, himg,
    fun _ h => absurd h List.not_mem_nil⟩

theorem keeps_doPlain (h : doPlain e cmd p = .ok q) : Keeps p q := by
  unfold doPlain at h
  split_ifs at h
  · exact keeps_ofCurrups h
  · exact keeps_ofCurrups h
  · cases hexact : (exactCommands e).find? fun c => c.1 = cmd with
    | some c =>
      rw [hexact] at h
      exact Except.ok.inj h ▸ keeps_exactCommands c (List.mem_of_find?_eq_some hexact) p
    | none =>
      rw [hexact] at h
      cases harg : (argCommands e).find? fun c => c.1.isPrefixOf cmd with
      | some c =>
        rw [harg] at h
        exact Except.ok.inj h ▸ keeps_argCommands c (List.mem_of_find?_eq_some harg) _ p
      | none =>
        rw [harg] at h
        exact Except.ok.inj h ▸ .refl p

/-- The only commands that need a current UPS. -/
theorem doPlain_ok (h : cmd = host ∨ cmd = hostdesc → p.currups ≠ []) : ∃ q, doPlain e cmd p = .ok q := by
  have hcurrups : ∀ text, p.currups ≠ [] → ∃ q, ofCurrups text p = .ok q := by
    intro text hne
    obtain ⟨u, us, hcons⟩ := List.exists_cons_of_ne_nil hne
    exact ⟨_, by rw [ofCurrups, hcons]⟩
  unfold doPlain
  split_ifs with hhost hdesc
  · exact hcurrups _ (h (.inl hhost))
  · exact hcurrups _ (h (.inr hdesc))
  · cases (exactCommands e).find? fun c => c.1 = cmd with
    | some c => exact ⟨_, rfl⟩
    | none =>
      cases (argCommands e).find? fun c => c.1.isPrefixOf cmd with
      | some c => exact ⟨_, rfl⟩
      | none => exact ⟨_, rfl⟩

end Nut.Upsstats
