import Nut.Common.Lines

/-!
# `upsclient.c`: the client's side of a connection

The record of a connection to `upsd`, and the exchange of one command for its answer (`upscliGet`, `upscliListStart`,
`upscliListNext`).  What the network does is an argument: the result of each `net_write`, and those of the calls of
`net_read` that follow, in order; where none is left, nothing arrives in time.

The programs hand over a connection and a buffer that exist, so `upsclient_magic` is right.
-/

namespace Nut

def upscliNetbufLen : Nat := 512

/-- The errors that these functions record. -/
inductive UpscliErr where
  | unknown
  | varnotsupp
  | unknownups
  | accessdenied
  | pwdrequired
  | pwdincorrect
  | missingarg
  | datastale
  | varunknown
  | logintwice
  | pwdsettwice
  | unknowntype
  | unknownvar
  | varreadonly
  | toolong
  | invalidvalue
  | setfailed
  | unkinstcmd
  | cmdfailed
  | cmdnotsupp
  | invusername
  | usersettwice
  | unkcommand
  | invalidarg
  | write
  | read
  | invpassword
  | userrequired
  | srvdisc
  | drvnotconn
  | parse
  | protocol
  deriving DecidableEq, Repr

/-- The fields of `UPSCONN_t` that these functions use: whether `fd` is a socket, and the part of `readbuf` from `readidx`
on. -/
structure Upsconn where
  fd : Bool
  upserror : UpscliErr
  pcCtx : PconfCtx
  readbuf : CStr
  deriving DecidableEq

/-- The connection when `upscli_connect` has succeeded. -/
def Upsconn.connected : Upsconn where
  fd := true
  upserror := .unknown
  pcCtx := pconfInit
  readbuf := []

/-- A call of `net_read`; it returns 0 for no bytes. -/
inductive NetRead where
  | bytes (buf : CStr)
  | failed
  deriving DecidableEq

/-- What the network does with one command: the result of `net_write`, and those of the calls of `net_read`. -/
structure Net where
  wrote : Int
  reads : List NetRead

def upscliDisconnect (ups : Upsconn) : Upsconn := { ups with fd := false, pcCtx := pconfInit }

/-- The second result is `buf`, or what was written of it. -/
def upscliSendline (ups : Upsconn) (wrote : Int) (buf : CStr) : Upsconn × Option CStr :=
  if ups.fd = false then ({ ups with upserror := .drvnotconn }, none)
  else if wrote < 0 then (upscliDisconnect { ups with upserror := .write }, none)
  else if wrote = 0 then (upscliDisconnect { ups with upserror := .srvdisc }, none)
  else (ups, some (buf.take wrote.toNat))

/-- The loop of `upscli_readline` from the text `buf` on, with room for `n` more characters. -/
def readlineLoop (ups : Upsconn) (reads : List NetRead) (buf : CStr) : Nat → Upsconn × List NetRead × Option CStr
  | 0 => (ups, reads, some buf)
  | n + 1 =>
    match ups.readbuf, reads with
    | ch :: rest, reads =>
      if ch = '\n' then ({ ups with readbuf := rest }, reads, some buf)
      else readlineLoop { ups with readbuf := rest } reads (buf ++ [ch]) n
    | [], .bytes (ch :: rest) :: reads =>
      if ch = '\n' then ({ ups with readbuf := rest }, reads, some buf)
      else readlineLoop { ups with readbuf := rest } reads (buf ++ [ch]) n
    | [], .failed :: reads => (upscliDisconnect { ups with upserror := .read }, reads, none)
    | [], .bytes [] :: reads => (upscliDisconnect { ups with upserror := .srvdisc }, reads, none)
    | [], [] => (upscliDisconnect { ups with upserror := .srvdisc }, [], none)

/-- The line is the text in the buffer, which ends at its first NUL. -/
def upscliReadline (ups : Upsconn) (reads : List NetRead) (buflen : Nat) : Upsconn × List NetRead × Option CStr :=
  if ups.fd = false then ({ ups with upserror := .drvnotconn }, reads, none)
  else
    match readlineLoop ups reads [] (buflen - 1) with
    | (ups, reads, buf) => (ups, reads, buf.map (List.takeWhile (· ≠ '\x00')))

/-- The table `upsd_errlist`. -/
def upsdErrlist : List (UpscliErr × CStr) :=
  [(.varnotsupp, "VAR-NOT-SUPPORTED".toList), (.unknownups, "UNKNOWN-UPS".toList),
    (.accessdenied, "ACCESS-DENIED".toList), (.pwdrequired, "PASSWORD-REQUIRED".toList),
    (.pwdincorrect, "PASSWORD-INCORRECT".toList), (.missingarg, "MISSING-ARGUMENT".toList),
    (.datastale, "DATA-STALE".toList), (.varunknown, "VAR-UNKNOWN".toList),
    (.logintwice, "ALREADY-LOGGED-IN".toList), (.pwdsettwice, "ALREADY-SET-PASSWORD".toList),
    (.unknowntype, "UNKNOWN-TYPE".toList), (.unknownvar, "UNKNOWN-VAR".toList), (.varreadonly, "READONLY".toList),
    (.toolong, "TOO-LONG".toList), (.invalidvalue, "INVALID-VALUE".toList), (.setfailed, "SET-FAILED".toList),
    (.unkinstcmd, "UNKNOWN-INSTCMD".toList), (.cmdfailed, "INSTCMD-FAILED".toList),
    (.cmdnotsupp, "CMD-NOT-SUPPORTED".toList), (.invusername, "INVALID-USERNAME".toList),
    (.usersettwice, "ALREADY-SET-USERNAME".toList), (.unkcommand, "UNKNOWN-COMMAND".toList),
    (.invpassword, "INVALID-PASSWORD".toList), (.userrequired, "USERNAME-REQUIRED".toList),
    (.drvnotconn, "DRIVER-NOT-CONNECTED".toList)]

/-- The error in an answer, if it is one. -/
def upscliErrcheck (buf : CStr) : Option UpscliErr :=
  if "ERR".toList <+: buf then
    some (((upsdErrlist.find? fun e => e.2 <+: buf.drop 4).map Prod.fst).getD .unknown)
  else none

/-- One more argument of a command, in what is left of the buffer. -/
def buildArg (bufsize : Nat) (buf arg : CStr) : CStr :=
  let enc := pconfEncode arg upscliNetbufLen
  buf ++ snprintf (bufsize - buf.length) (if ' ' ∈ arg then ' ' :: '"' :: enc ++ ['"'] else ' ' :: enc)

def buildCmd (bufsize : Nat) (cmdname : CStr) (arg : List CStr) : CStr :=
  let buf := arg.foldl (buildArg bufsize) (snprintf bufsize cmdname)
  buf ++ snprintf (bufsize - buf.length) ['\n']

/-- `a` are the slots of `arglist` from some place on; there is no result where one is read that was never allocated. -/
def verifyResp : List CStr → List CStr → Option Bool
  | [], _ => some true
  | _ :: _, [] => none
  | q :: qs, a :: as => if strcasecmp q a ≠ .eq then some false else verifyResp qs as

/-- Send a command and read the line that answers it; the last result is that line, unless it is an error. -/
def upscliAsk (ups : Upsconn) (net : Net) (cmd : CStr) : Upsconn × List NetRead × Option CStr :=
  match upscliSendline ups net.wrote cmd with
  | (ups, none) => (ups, net.reads, none)
  | (ups, some _) =>
    match upscliReadline ups net.reads upscliNetbufLen with
    | (ups, reads, none) => (ups, reads, none)
    | (ups, reads, some tmp) =>
      match upscliErrcheck tmp with
      | some err => ({ ups with upserror := err }, reads, none)
      | none => (ups, reads, some tmp)

/-- The answer is in `pcCtx`; no program asks an empty query. -/
def upscliGet (ups : Upsconn) (net : Net) (query : List CStr) : Option (Upsconn × List NetRead × Bool) :=
  if query.length < 1 then some ({ ups with upserror := .invalidarg }, net.reads, false)
  else
    match upscliAsk ups net (buildCmd upscliNetbufLen "GET".toList query) with
    | (ups, reads, none) => some (ups, reads, false)
    | (ups, reads, some tmp) =>
      let ups := { ups with pcCtx := pconfLine ups.pcCtx tmp }
      if ups.pcCtx.numargs < query.length then some ({ ups with upserror := .protocol }, reads, false)
      else (verifyResp query ups.pcCtx.arglist).map fun same =>
        if same then (ups, reads, true) else ({ ups with upserror := .protocol }, reads, false)

def upscliListStart (ups : Upsconn) (net : Net) (query : List CStr) : Option (Upsconn × List NetRead × Bool) :=
  if query.length < 1 then some ({ ups with upserror := .invalidarg }, net.reads, false)
  else
    match upscliAsk ups net (buildCmd upscliNetbufLen "LIST".toList query) with
    | (ups, reads, none) => some (ups, reads, false)
    | (ups, reads, some tmp) =>
      let ups := { ups with pcCtx := pconfLine ups.pcCtx tmp }
      if ups.pcCtx.numargs < 2 then some ({ ups with upserror := .protocol }, reads, false)
      else if strcasecmp (ups.pcCtx.arglist.getD 0 []) "BEGIN".toList ≠ .eq ∨
          strcasecmp (ups.pcCtx.arglist.getD 1 []) "LIST".toList ≠ .eq then
        some ({ ups with upserror := .protocol }, reads, false)
      else (verifyResp query (ups.pcCtx.arglist.drop 2)).map fun same =>
        if same then (ups, reads, true) else ({ ups with upserror := .protocol }, reads, false)

/-- The results -1, 0 and 1 of `upscli_list_next`. -/
inductive ListNext where
  | error
  | done
  | item
  deriving DecidableEq

def upscliListNext (ups : Upsconn) (reads : List NetRead) (query : List CStr) :
    Option (Upsconn × List NetRead × ListNext) :=
  match upscliReadline ups reads upscliNetbufLen with
  | (ups, reads, none) => some (ups, reads, .error)
  | (ups, reads, some tmp) =>
    match upscliErrcheck tmp with
    | some err => some ({ ups with upserror := err }, reads, .error)
    | none =>
      let ups := { ups with pcCtx := pconfLine ups.pcCtx tmp }
      if ups.pcCtx.numargs < 1 then some ({ ups with upserror := .protocol }, reads, .error)
      else if 2 ≤ ups.pcCtx.numargs ∧ ups.pcCtx.arglist.getD 0 [] = "END".toList ∧
          ups.pcCtx.arglist.getD 1 [] = "LIST".toList then some (ups, reads, .done)
      else (verifyResp query ups.pcCtx.arglist).map fun same =>
        if same then (ups, reads, .item) else ({ ups with upserror := .protocol }, reads, .error)

end Nut
