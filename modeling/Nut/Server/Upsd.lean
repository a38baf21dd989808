import Nut.Server.Sstate
import Nut.Server.User

/-!
# `upsd.c`: the clients of the server

The state of `upsd`, and what its commands share: finding a UPS, answering a client, counting logins and closing a
connection.

A client is the record with its socket, which no other client has; `sent` collects the buffers handed to `write` on it,
in whole or not.  The outcome of such a call is an argument: `Writes` says it for each socket and the number of buffers
written to it before.  The server is built without SSL.
-/

namespace Nut

def nutNetAnswerMax : Nat := smallbuf

structure NutCtype where
  addr : CStr
  sockFd : Nat
  lastHeard : Int
  loginups : Option CStr
  password : Option CStr
  username : Option CStr
  ctx : PconfCtx
  sent : List CStr
  deriving DecidableEq

/-- `cmdList` and `varList` are the descriptions of `desc.c`; the text of `UPS_VERSION` comes from the build. -/
structure Upsd where
  firstups : List Upstype
  firstclient : List NutCtype
  users : List Ulist
  maxage : Int
  maxconn : Int
  cmdList : List (CStr × CStr)
  varList : List (CStr × CStr)
  upsVersion : CStr
  deriving DecidableEq

/-- The outcomes of the calls of `write`, and the answer of the tcp-wrappers. -/
structure Writes where
  client : Nat → Nat → Bool
  driver : CStr → Nat → Bool
  hostsAccess : NutCtype → Bool

def getUpsPtr (s : Upsd) (name : CStr) : Option Upstype := s.firstups.find? fun tmp => strcasecmp tmp.name name = .eq

/-- The record of the client. -/
def Upsd.client (s : Upsd) (fd : Nat) : Option NutCtype := s.firstclient.find? fun client => client.sockFd = fd

def Upsd.modifyClient (s : Upsd) (fd : Nat) (f : NutCtype → NutCtype) : Upsd :=
  { s with firstclient := s.firstclient.map fun client => if client.sockFd = fd then f client else client }

def Upsd.modifyUps (s : Upsd) (name : CStr) (f : Upstype → Upstype) : Upsd :=
  { s with firstups := s.firstups.map fun ups => if ups.name = name then f ups else ups }

/-- How many buffers were written to the client. -/
def Upsd.written (s : Upsd) (fd : Nat) : Nat := ((s.client fd).map fun client => client.sent.length).getD 0

def sendback (w : Writes) (s : Upsd) (fd : Nat) (text : CStr) : Upsd × Bool :=
  let ans := snprintf (nutNetAnswerMax + 1) text
  if w.client fd (s.written fd) then
    (s.modifyClient fd fun client => { client with sent := client.sent ++ [ans] }, true)
  else (s.modifyClient fd fun client => { client with sent := client.sent ++ [ans], lastHeard := 0 }, false)

def sendErr (w : Writes) (s : Upsd) (fd : Nat) (errtype : CStr) : Upsd :=
  (sendback w s fd ("ERR ".toList ++ errtype ++ "\n".toList)).1

def upsAvailable (w : Writes) (s : Upsd) (ups : Upstype) (fd : Nat) : Upsd × Bool :=
  match ups.sockFd with
  | none => (sendErr w s fd "DRIVER-NOT-CONNECTED".toList, false)
  | some _ => if ups.stale then (sendErr w s fd "DATA-STALE".toList, false) else (s, true)

/-! ### Connections -/

def declogins (s : Upsd) (upsname : CStr) : Upsd :=
  match getUpsPtr s upsname with
  | none => s
  | some ups => s.modifyUps ups.name fun ups => { ups with numlogins := ups.numlogins - 1 }

def clientDisconnect (s : Upsd) (fd : Nat) : Upsd :=
  match s.client fd with
  | none => s
  | some client =>
    let s := match client.loginups with
      | none => s
      | some loginups => declogins s loginups
    { s with firstclient := s.firstclient.filter fun client => client.sockFd ≠ fd }

def kickLoginClients (s : Upsd) (upsname : CStr) : Upsd :=
  s.firstclient.foldl (fun s client => if client.loginups = some upsname then clientDisconnect s client.sockFd else s) s

/-- A successful `accept`. -/
def clientConnect (now : Int) (s : Upsd) (fd : Nat) (addr : CStr) : Upsd :=
  let client :=
    { addr := addr, sockFd := fd, lastHeard := now, loginups := none, password := none, username := none,
      ctx := pconfInit, sent := [] }
  { s with firstclient := client :: s.firstclient }

end Nut
