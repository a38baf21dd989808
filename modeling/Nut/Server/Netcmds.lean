import Nut.Server.Upsd

/-!
# The commands of the network protocol

The handlers of `netmisc.c`, `netuser.c`, `netget.c`, `netlist.c`, `netset.c` and `netinstcmd.c`, their table
`netcmds`, and the way of a command from the socket to its handler (`clientReadline`, `parseNet`).

A handler is given the record of its client as it is when the command comes, and the words after the command.
-/

namespace Nut

/-- A handler of a command. -/
abbrev NetHandler := Writes → Upsd → NutCtype → List CStr → Upsd

def quoted (text : CStr) : CStr := "\"".toList ++ text ++ "\"".toList

/-! ### `netmisc.c` -/

def netVer : NetHandler := fun w s client arg =>
  if arg.length ≠ 0 then sendErr w s client.sockFd "INVALID-ARGUMENT".toList
  else (sendback w s client.sockFd
    ("Network UPS Tools upsd ".toList ++ s.upsVersion ++ " - http://www.networkupstools.org/\n".toList)).1

def netNetver : NetHandler := fun w s client arg =>
  if arg.length ≠ 0 then sendErr w s client.sockFd "INVALID-ARGUMENT".toList
  else (sendback w s client.sockFd "1.2\n".toList).1

def netHelp : NetHandler := fun w s client arg =>
  if arg.length ≠ 0 then sendErr w s client.sockFd "INVALID-ARGUMENT".toList
  else (sendback w s client.sockFd
    "Commands: HELP VER GET LIST SET INSTCMD LOGIN LOGOUT USERNAME PASSWORD STARTTLS\n".toList).1

def netStarttls : NetHandler := fun w s client _ => sendErr w s client.sockFd "FEATURE-NOT-SUPPORTED".toList

def netFsd : NetHandler := fun w s client arg =>
  match arg with
  | [upsname] =>
    match getUpsPtr s upsname with
    | none => sendErr w s client.sockFd "UNKNOWN-UPS".toList
    | some ups =>
      if userCheckaction s.users client.username client.password "FSD".toList = false then
        sendErr w s client.sockFd "ACCESS-DENIED".toList
      else (sendback w (s.modifyUps ups.name fun ups => { ups with fsd := true }) client.sockFd "OK FSD-SET\n".toList).1
  | _ => sendErr w s client.sockFd "INVALID-ARGUMENT".toList

/-! ### `netuser.c` -/

def netLogin : NetHandler := fun w s client arg =>
  match arg with
  | [upsname] =>
    if client.loginups ≠ none then sendErr w s client.sockFd "ALREADY-LOGGED-IN".toList
    else
      match getUpsPtr s upsname with
      | none => sendErr w s client.sockFd "UNKNOWN-UPS".toList
      | some ups =>
        if userCheckaction s.users client.username client.password "LOGIN".toList = false then
          sendErr w s client.sockFd "ACCESS-DENIED".toList
        else
          let s := s.modifyUps ups.name fun ups => { ups with numlogins := ups.numlogins + 1 }
          let s := s.modifyClient client.sockFd fun client => { client with loginups := some ups.name }
          (sendback w s client.sockFd "OK\n".toList).1
  | _ => sendErr w s client.sockFd "INVALID-ARGUMENT".toList

def netLogout : NetHandler := fun w s client arg =>
  if arg.length ≠ 0 then sendErr w s client.sockFd "INVALID-ARGUMENT".toList
  else ((sendback w s client.sockFd "OK Goodbye\n".toList).1).modifyClient client.sockFd
    fun client => { client with lastHeard := 0 }

def netMaster : NetHandler := fun w s client arg =>
  match arg with
  | [upsname] =>
    match getUpsPtr s upsname with
    | none => sendErr w s client.sockFd "UNKNOWN-UPS".toList
    | some _ =>
      if userCheckaction s.users client.username client.password "MASTER".toList = false then
        sendErr w s client.sockFd "ACCESS-DENIED".toList
      else (sendback w s client.sockFd "OK MASTER-GRANTED\n".toList).1
  | _ => sendErr w s client.sockFd "INVALID-ARGUMENT".toList

def netUsername : NetHandler := fun w s client arg =>
  match arg with
  | [un] =>
    if client.username ≠ none then sendErr w s client.sockFd "ALREADY-SET-USERNAME".toList
    else (sendback w (s.modifyClient client.sockFd fun client => { client with username := some un }) client.sockFd
      "OK\n".toList).1
  | _ => sendErr w s client.sockFd "INVALID-ARGUMENT".toList

def netPassword : NetHandler := fun w s client arg =>
  match arg with
  | [pw] =>
    if client.password ≠ none then sendErr w s client.sockFd "ALREADY-SET-PASSWORD".toList
    else (sendback w (s.modifyClient client.sockFd fun client => { client with password := some pw }) client.sockFd
      "OK\n".toList).1
  | _ => sendErr w s client.sockFd "INVALID-ARGUMENT".toList

/-! ### `netget.c` -/

/-- The UPS of a query: it is there, and its data is connected and fresh. -/
def withUps (w : Writes) (s : Upsd) (fd : Nat) (upsname : CStr) (f : Upsd → Upstype → Upsd) : Upsd :=
  match getUpsPtr s upsname with
  | none => sendErr w s fd "UNKNOWN-UPS".toList
  | some ups =>
    match upsAvailable w s ups fd with
    | (s, false) => s
    | (s, true) => f s ups

def getNumlogins (w : Writes) (s : Upsd) (fd : Nat) (upsname : CStr) : Upsd :=
  withUps w s fd upsname fun s ups => (sendback w s fd
    ("NUMLOGINS ".toList ++ upsname ++ " ".toList ++ formatInt (Int32.ofInt ups.numlogins) ++ "\n".toList)).1

def getUpsdesc (w : Writes) (s : Upsd) (fd : Nat) (upsname : CStr) : Upsd :=
  match getUpsPtr s upsname with
  | none => sendErr w s fd "UNKNOWN-UPS".toList
  | some ups =>
    match ups.desc with
    | some desc => (sendback w s fd
        ("UPSDESC ".toList ++ upsname ++ " ".toList ++ quoted (pconfEncode desc smallbuf) ++ "\n".toList)).1
    | none => (sendback w s fd ("UPSDESC ".toList ++ upsname ++ " \"Unavailable\"\n".toList)).1

/-- `list_get` of `desc.c` -/
def listGet (list : List (CStr × CStr)) (name : CStr) : Option CStr :=
  (list.find? fun temp => strcasecmp temp.1 name = .eq).map Prod.snd

def getDesc (w : Writes) (s : Upsd) (fd : Nat) (upsname var : CStr) : Upsd :=
  withUps w s fd upsname fun s _ => (sendback w s fd
    ("DESC ".toList ++ upsname ++ " ".toList ++ var ++ " ".toList ++
      quoted ((listGet s.varList var).getD "Description unavailable".toList) ++ "\n".toList)).1

def getCmddesc (w : Writes) (s : Upsd) (fd : Nat) (upsname cmd : CStr) : Upsd :=
  withUps w s fd upsname fun s _ => (sendback w s fd
    ("CMDDESC ".toList ++ upsname ++ " ".toList ++ cmd ++ " ".toList ++
      quoted ((listGet s.cmdList cmd).getD "Description unavailable".toList) ++ "\n".toList)).1

def getType (w : Writes) (s : Upsd) (fd : Nat) (upsname var : CStr) : Upsd :=
  withUps w s fd upsname fun s ups =>
    match sstateGetnode ups var with
    | none => sendErr w s fd "VAR-NOT-SUPPORTED".toList
    | some node =>
      let buf := snprintf smallbuf ("TYPE ".toList ++ upsname ++ " ".toList ++ var)
      let buf := if node.flags &&& stFlagRw ≠ 0 then snprintfcat buf smallbuf " RW".toList else buf
      if node.enumList ≠ [] then (sendback w s fd (buf ++ " ENUM\n".toList)).1
      else if node.rangeList ≠ [] then (sendback w s fd (buf ++ " RANGE\n".toList)).1
      else if node.flags &&& stFlagString ≠ 0 then
        (sendback w s fd (buf ++ " STRING:".toList ++ formatInt node.aux ++ "\n".toList)).1
      else (sendback w s fd ("TYPE ".toList ++ upsname ++ " ".toList ++ var ++ " UNKNOWN\n".toList)).1

def getVarServer (w : Writes) (s : Upsd) (fd : Nat) (upsname var : CStr) : Upsd :=
  if strcasecmp var "server.info".toList = .eq then
    (sendback w s fd ("VAR ".toList ++ upsname ++ " server.info \"Network UPS Tools upsd ".toList ++ s.upsVersion ++
      " - http://www.networkupstools.org/\"\n".toList)).1
  else if strcasecmp var "server.version".toList = .eq then
    (sendback w s fd ("VAR ".toList ++ upsname ++ " server.version ".toList ++ quoted s.upsVersion ++ "\n".toList)).1
  else sendErr w s fd "VAR-NOT-SUPPORTED".toList

/-- The answer line for one variable, for `VAR` and `RW`. -/
def varLine (type upsname var val : CStr) : CStr :=
  type ++ " ".toList ++ upsname ++ " ".toList ++ var ++ " ".toList ++ quoted val ++ "\n".toList

def getVar (w : Writes) (s : Upsd) (fd : Nat) (upsname var : CStr) : Upsd :=
  if strcasecmp (var.take 7) "server.".toList = .eq then getVarServer w s fd upsname var
  else withUps w s fd upsname fun s ups =>
    match sstateGetinfo ups var with
    | none => sendErr w s fd "VAR-NOT-SUPPORTED".toList
    | some val =>
      if strcasecmp var "ups.status".toList = .eq ∧ ups.fsd then
        (sendback w s fd (varLine "VAR".toList upsname var ("FSD ".toList ++ val))).1
      else (sendback w s fd (varLine "VAR".toList upsname var val)).1

def netGet : NetHandler := fun w s client arg =>
  let fd := client.sockFd
  match arg with
  | type :: upsname :: rest =>
    if strcasecmp type "NUMLOGINS".toList = .eq then getNumlogins w s fd upsname
    else if strcasecmp type "UPSDESC".toList = .eq then getUpsdesc w s fd upsname
    else
      match rest with
      | [] => sendErr w s fd "INVALID-ARGUMENT".toList
      | var :: _ =>
        if strcasecmp type "VAR".toList = .eq then getVar w s fd upsname var
        else if strcasecmp type "TYPE".toList = .eq then getType w s fd upsname var
        else if strcasecmp type "DESC".toList = .eq then getDesc w s fd upsname var
        else if strcasecmp type "CMDDESC".toList = .eq then getCmddesc w s fd upsname var
        else sendErr w s fd "INVALID-ARGUMENT".toList
  | _ => sendErr w s fd "INVALID-ARGUMENT".toList

/-! ### `netlist.c` -/

def treeDump (w : Writes) (s : Upsd) (fd : Nat) (ups : CStr) (rw fsd : Bool) : StTree → Upsd × Bool
  | .nil => (s, true)
  | .node left node right =>
    match treeDump w s fd ups rw fsd left with
    | (s, false) => (s, false)
    | (s, true) =>
      let r :=
        if rw then
          if node.flags &&& stFlagRw ≠ 0 then sendback w s fd (varLine "RW".toList ups node.var node.val) else (s, true)
        else if fsd ∧ strcasecmp node.var "ups.status".toList = .eq then
          sendback w s fd (varLine "VAR".toList ups node.var ("FSD ".toList ++ node.val))
        else sendback w s fd (varLine "VAR".toList ups node.var node.val)
      match r with
      | (s, false) => (s, false)
      | (s, true) => treeDump w s fd ups rw fsd right

/-- The loops of the lists: one line for each item, until a write fails. -/
def sendEach (w : Writes) (s : Upsd) (fd : Nat) : List CStr → Upsd × Bool
  | [] => (s, true)
  | text :: texts =>
    match sendback w s fd text with
    | (s, false) => (s, false)
    | (s, true) => sendEach w s fd texts

/-- The frame of the lists: `items` between the lines that begin and end the list. -/
def sendList (w : Writes) (s : Upsd) (fd : Nat) (start : CStr) (items : Upsd → Upsd × Bool) (stop : CStr) : Upsd :=
  match sendback w s fd ("BEGIN LIST ".toList ++ start ++ "\n".toList) with
  | (s, false) => s
  | (s, true) =>
    match items s with
    | (s, false) => s
    | (s, true) => (sendback w s fd ("END LIST ".toList ++ stop ++ "\n".toList)).1

def listRw (w : Writes) (s : Upsd) (fd : Nat) (upsname : CStr) : Upsd :=
  withUps w s fd upsname fun s ups =>
    sendList w s fd ("RW ".toList ++ upsname) (fun s => treeDump w s fd upsname true ups.fsd ups.inforoot)
      ("RW ".toList ++ upsname)

def listVar (w : Writes) (s : Upsd) (fd : Nat) (upsname : CStr) : Upsd :=
  withUps w s fd upsname fun s ups =>
    sendList w s fd ("VAR ".toList ++ upsname) (fun s => treeDump w s fd upsname false ups.fsd ups.inforoot)
      ("VAR ".toList ++ upsname)

def listCmd (w : Writes) (s : Upsd) (fd : Nat) (upsname : CStr) : Upsd :=
  withUps w s fd upsname fun s ups =>
    sendList w s fd ("CMD ".toList ++ upsname)
      (fun s => sendEach w s fd (ups.cmdlist.map fun name => "CMD ".toList ++ upsname ++ " ".toList ++ name ++ "\n".toList))
      ("CMD ".toList ++ upsname)

def listEnum (w : Writes) (s : Upsd) (fd : Nat) (upsname var : CStr) : Upsd :=
  withUps w s fd upsname fun s ups =>
    match sstateGetnode ups var with
    | none => sendErr w s fd "VAR-NOT-SUPPORTED".toList
    | some node =>
      sendList w s fd ("ENUM ".toList ++ upsname ++ " ".toList ++ var)
        (fun s => sendEach w s fd (node.enumList.map fun val => varLine "ENUM".toList upsname var val))
        ("ENUM ".toList ++ upsname ++ " ".toList ++ var)

/-- The list ends as one of values. -/
def listRange (w : Writes) (s : Upsd) (fd : Nat) (upsname var : CStr) : Upsd :=
  withUps w s fd upsname fun s ups =>
    match sstateGetnode ups var with
    | none => sendErr w s fd "VAR-NOT-SUPPORTED".toList
    | some node =>
      sendList w s fd ("RANGE ".toList ++ upsname ++ " ".toList ++ var)
        (fun s => sendEach w s fd (node.rangeList.map fun r =>
          "RANGE ".toList ++ upsname ++ " ".toList ++ var ++ " ".toList ++ quoted (formatInt r.min) ++ " ".toList ++
            quoted (formatInt r.max) ++ "\n".toList))
        ("ENUM ".toList ++ upsname ++ " ".toList ++ var)

def listUps (w : Writes) (s : Upsd) (fd : Nat) : Upsd :=
  sendList w s fd "UPS".toList
    (fun s => sendEach w s fd (s.firstups.map fun utmp =>
      match utmp.desc with
      | some desc => "UPS ".toList ++ utmp.name ++ " ".toList ++ quoted (pconfEncode desc smallbuf) ++ "\n".toList
      | none => "UPS ".toList ++ utmp.name ++ " \"Description unavailable\"\n".toList))
    "UPS".toList

/-- The line of a client that is logged into the UPS. -/
def clientLine (ups : Upstype) (c : NutCtype) : Option CStr :=
  match c.loginups with
  | none => none
  | some loginups =>
    if strcasecmp loginups ups.name = .eq then
      some ("CLIENT ".toList ++ loginups ++ " ".toList ++ c.addr ++ "\n".toList)
    else none

def listClients (w : Writes) (s : Upsd) (fd : Nat) (upsname : CStr) : Upsd :=
  match getUpsPtr s upsname with
  | none => sendErr w s fd "UNKNOWN-UPS".toList
  | some ups =>
    sendList w s fd ("CLIENT ".toList ++ upsname)
      (fun s => sendEach w s fd (s.firstclient.filterMap (clientLine ups))) ("CLIENT ".toList ++ upsname)

def netList : NetHandler := fun w s client arg =>
  let fd := client.sockFd
  match arg with
  | [] => sendErr w s fd "INVALID-ARGUMENT".toList
  | type :: rest =>
    if strcasecmp type "UPS".toList = .eq then listUps w s fd
    else
      match rest with
      | [] => sendErr w s fd "INVALID-ARGUMENT".toList
      | upsname :: rest =>
        if strcasecmp type "VAR".toList = .eq then listVar w s fd upsname
        else if strcasecmp type "RW".toList = .eq then listRw w s fd upsname
        else if strcasecmp type "CMD".toList = .eq then listCmd w s fd upsname
        else if strcasecmp type "CLIENT".toList = .eq then listClients w s fd upsname
        else
          match rest with
          | [] => sendErr w s fd "INVALID-ARGUMENT".toList
          | var :: _ =>
            if strcasecmp type "ENUM".toList = .eq then listEnum w s fd upsname var
            else if strcasecmp type "RANGE".toList = .eq then listRange w s fd upsname var
            else sendErr w s fd "INVALID-ARGUMENT".toList

/-! ### `netset.c` and `netinstcmd.c` -/

/-- `sstate_sendline` on the socket of the UPS. -/
def sendToDriver (w : Writes) (s : Upsd) (ups : Upstype) (buf : CStr) : Upsd × Bool :=
  let ok := w.driver ups.name ups.sent.length
  (s.modifyUps ups.name fun ups => (sstateSendline ok ups buf).1, (sstateSendline ok ups buf).2)

/-- The error for a new value, if the variable does not allow it. -/
def badValue (ups : Upstype) (var newval : CStr) : Option CStr :=
  let aux := sstateGetaux ups var
  let string := sstateGetflags ups var &&& stFlagString ≠ 0
  let enumList := sstateGetenumlist ups var
  let rangeList := sstateGetrangelist ups var
  if string ∧ aux < 1 then some "SET-FAILED".toList
  else if string ∧ aux < Int32.ofNat newval.length then some "TOO-LONG".toList
  else if enumList ≠ [] ∧ newval ∉ enumList then some "INVALID-VALUE".toList
  else if rangeList ≠ [] ∧ ¬∃ r ∈ rangeList, r.min ≤ atoi newval ∧ atoi newval ≤ r.max then some "INVALID-VALUE".toList
  else none

/-- The line for the driver. -/
def setLine (var newval : CStr) : CStr :=
  snprintf smallbuf ("SET ".toList ++ var ++ " ".toList ++ quoted (pconfEncode newval smallbuf) ++ "\n".toList)

def setVar (w : Writes) (s : Upsd) (client : NutCtype) (upsname var newval : CStr) : Upsd :=
  let fd := client.sockFd
  withUps w s fd upsname fun s ups =>
    if userCheckaction s.users client.username client.password "SET".toList = false then
      sendErr w s fd "ACCESS-DENIED".toList
    else if sstateGetinfo ups var = none then sendErr w s fd "VAR-NOT-SUPPORTED".toList
    else if sstateGetflags ups var &&& stFlagRw = 0 then sendErr w s fd "READONLY".toList
    else
      match badValue ups var newval with
      | some err => sendErr w s fd err
      | none =>
        match sendToDriver w s ups (setLine var newval) with
        | (s, false) => sendErr w s fd "SET-FAILED".toList
        | (s, true) => (sendback w s fd "OK\n".toList).1

def netSet : NetHandler := fun w s client arg =>
  match arg with
  | type :: upsname :: var :: newval :: _ =>
    if strcasecmp type "VAR".toList = .eq then setVar w s client upsname var newval
    else sendErr w s client.sockFd "INVALID-ARGUMENT".toList
  | _ => sendErr w s client.sockFd "INVALID-ARGUMENT".toList

/-- The line for the driver. -/
def instcmdLine (cmdname : CStr) : Option CStr → CStr
  | some value =>
    snprintf smallbuf ("INSTCMD ".toList ++ cmdname ++ " ".toList ++ pconfEncode value smallbuf ++ "\n".toList)
  | none => snprintf smallbuf ("INSTCMD ".toList ++ cmdname ++ "\n".toList)

def sendInstcmd (w : Writes) (s : Upsd) (client : NutCtype) (upsname cmdname : CStr) (value : Option CStr) : Upsd :=
  let fd := client.sockFd
  withUps w s fd upsname fun s ups =>
    if ¬∃ name ∈ sstateGetcmdlist ups, strcasecmp name cmdname = .eq then sendErr w s fd "CMD-NOT-SUPPORTED".toList
    else if userCheckinstcmd s.users client.username client.password cmdname = false then
      sendErr w s fd "ACCESS-DENIED".toList
    else
      match sendToDriver w s ups (instcmdLine cmdname value) with
      | (s, false) => sendErr w s fd "INSTCMD-FAILED".toList
      | (s, true) => (sendback w s fd "OK\n".toList).1

def netInstcmd : NetHandler := fun w s client arg =>
  match arg with
  | [upsname, cmdname, value] => sendInstcmd w s client upsname cmdname (some value)
  | upsname :: cmdname :: _ => sendInstcmd w s client upsname cmdname none
  | _ => sendErr w s client.sockFd "INVALID-ARGUMENT".toList

/-! ### From the socket to the handler -/

/-- The table of the commands: name, handler, and whether the user name and the password must be set. -/
def netcmds : List (CStr × NetHandler × Bool) :=
  [("VER".toList, netVer, false), ("NETVER".toList, netNetver, false), ("HELP".toList, netHelp, false),
    ("STARTTLS".toList, netStarttls, false), ("GET".toList, netGet, false), ("LIST".toList, netList, false),
    ("USERNAME".toList, netUsername, false), ("PASSWORD".toList, netPassword, false), ("LOGIN".toList, netLogin, true),
    ("LOGOUT".toList, netLogout, false), ("MASTER".toList, netMaster, true), ("FSD".toList, netFsd, true),
    ("SET".toList, netSet, true), ("INSTCMD".toList, netInstcmd, true)]

def checkCommand (func : NetHandler) (flagUser : Bool) : NetHandler := fun w s client arg =>
  if flagUser then
    if client.username = none then sendErr w s client.sockFd "USERNAME-REQUIRED".toList
    else if client.password = none then sendErr w s client.sockFd "PASSWORD-REQUIRED".toList
    else if w.hostsAccess client = false then sendErr w s client.sockFd "ACCESS-DENIED".toList
    else func w s client arg
  else func w s client arg

/-- `args` are the words of the line. -/
def parseNet (w : Writes) (s : Upsd) (client : NutCtype) (args : List CStr) : Upsd :=
  match args with
  | [] => sendErr w s client.sockFd "UNKNOWN-COMMAND".toList
  | arg0 :: arg =>
    match netcmds.find? fun cmd => strcasecmp cmd.1 arg0 = .eq with
    | none => sendErr w s client.sockFd "UNKNOWN-COMMAND".toList
    | some (_, func, flagUser) => checkCommand func flagUser w s client arg

/-- What the loop of `client_readline` does with a line. -/
def netLine (now : Int) (w : Writes) (fd : Nat) (s : Upsd) (numargs : Nat) (arglist : List CStr) : Upsd :=
  let s := s.modifyClient fd fun client => { client with lastHeard := now }
  match s.client fd with
  | none => s
  | some client => parseNet w s client (arglist.take numargs)

/-- `buf` is what `read` returns, if it does not fail. -/
def clientReadline (now : Int) (w : Writes) (s : Upsd) (fd : Nat) (buf : Option CStr) : Upsd :=
  match buf, s.client fd with
  | none, _ => clientDisconnect s fd
  | some [], _ => clientDisconnect s fd
  | some _, none => s
  | some buf, some client =>
    let r := readLoop (netLine now w fd) client.ctx s buf
    r.2.modifyClient fd fun client => { client with ctx := r.1 }

end Nut
