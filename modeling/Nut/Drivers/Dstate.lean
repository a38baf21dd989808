import Nut.Common.State

/-!
# `dstate.c`: the state of a driver

The variables and commands of a driver and the connections on its socket.  Every change is broadcast to the
connections as one line (`sendToAll`), and `DUMPALL` is answered with the whole state (`sockArg`).

A connection is named by its descriptor and collects in `out` the bytes written to it.  The parameter `w` of the
operations tells which calls of `write` take the whole buffer: `w n` for the `n`-th call.  The handlers `upsh`, which
belong to the drivers, are parameters.
-/

namespace Nut

structure Conn where
  fd : Nat
  ctx : PconfCtx
  out : CStr
  deriving DecidableEq

structure Dstate where
  stale : Bool
  dtreeRoot : StTree
  connhead : List Conn
  cmdhead : List CStr
  nwrites : Nat
  deriving DecidableEq

def Dstate.init : Dstate where
  stale := true
  dtreeRoot := .nil
  connhead := []
  cmdhead := []
  nwrites := 0

structure UpsHandler where
  instcmd : Option (Dstate → CStr → Option CStr → Dstate)
  setvar : Option (Dstate → CStr → CStr → Dstate)

/-- The results of `read`: the bytes, an error that passes (`EINTR`, `EAGAIN`), or another error. -/
inductive ReadResult where
  | data (buf : CStr)
  | again
  | fail
  deriving DecidableEq

def sockDisconnect (d : Dstate) (fd : Nat) : Dstate :=
  { d with connhead := d.connhead.filter fun conn => conn.fd ≠ fd }

/-- The loop of `send_to_all`, from the `n`-th call of `write` on. -/
def sendToAllLoop (w : Nat → Bool) (buf : CStr) : Nat → List Conn → Nat × List Conn
  | n, [] => (n, [])
  | n, conn :: rest =>
    let r := sendToAllLoop w buf (n + 1) rest
    if w n then (r.1, { conn with out := conn.out ++ buf } :: r.2) else r

def sendToAll (w : Nat → Bool) (d : Dstate) (text : CStr) : Dstate :=
  if text.length < 1 then d
  else
    let r := sendToAllLoop w (snprintf stSockBufLen text) d.nwrites d.connhead
    { d with nwrites := r.1, connhead := r.2 }

def sendToOne (w : Nat → Bool) (fd : Nat) (d : Dstate) (text : CStr) : Dstate × Bool :=
  if text.length < 1 then (d, true)
  else
    let buf := snprintf stSockBufLen text
    let d' := { d with nwrites := d.nwrites + 1 }
    if w d.nwrites then
      ({ d' with connhead := d.connhead.map fun conn =>
          if conn.fd = fd then { conn with out := conn.out ++ buf } else conn }, true)
    else (sockDisconnect d' fd, false)

/-- A successful `accept`. -/
def sockConnect (d : Dstate) (fd : Nat) : Dstate :=
  { d with connhead := { fd := fd, ctx := pconfInit, out := [] } :: d.connhead }

/-! ### `DUMPALL` -/

/-- The names of the flags that `SETFLAGS` lists after the variable. -/
def flist (var : CStr) (flags : BitVec 32) : CStr :=
  let f := snprintf smallbuf var
  let f := if flags &&& stFlagRw ≠ 0 then snprintfcat f smallbuf " RW".toList else f
  if flags &&& stFlagString ≠ 0 then snprintfcat f smallbuf " STRING".toList else f

/-- The lines that `st_tree_dump_conn` sends for one node. -/
def nodeDump (node : StNode) : List CStr :=
  ["SETINFO ".toList ++ node.var ++ " \"".toList ++ node.val ++ "\"\n".toList] ++
  node.enumList.map (fun val => "ADDENUM ".toList ++ node.var ++ " \"".toList ++ val ++ "\"\n".toList) ++
  node.rangeList.map (fun r =>
    "ADDRANGE ".toList ++ node.var ++ " ".toList ++ formatInt r.min ++ " ".toList ++ formatInt r.max ++ "\n".toList) ++
  (if node.aux ≠ 0 then ["SETAUX ".toList ++ node.var ++ " ".toList ++ formatInt node.aux ++ "\n".toList] else []) ++
  (if node.flags ≠ 0 then ["SETFLAGS ".toList ++ flist node.var node.flags ++ "\n".toList] else [])

/-- Send lines until a write fails. -/
def sendLines (w : Nat → Bool) (fd : Nat) : Dstate → List CStr → Dstate × Bool
  | d, [] => (d, true)
  | d, text :: lines =>
    match sendToOne w fd d text with
    | (d, true) => sendLines w fd d lines
    | (d, false) => (d, false)

def stTreeDumpConn (w : Nat → Bool) (fd : Nat) : Dstate → StTree → Dstate × Bool
  | d, .nil => (d, true)
  | d, .node left node right =>
    match stTreeDumpConn w fd d left with
    | (d, false) => (d, false)
    | (d, true) =>
      match sendLines w fd d (nodeDump node) with
      | (d, false) => (d, false)
      | (d, true) => stTreeDumpConn w fd d right

def cmdDumpConn (w : Nat → Bool) (fd : Nat) (d : Dstate) : Dstate × Bool :=
  sendLines w fd d (d.cmdhead.map fun name => "ADDCMD ".toList ++ name ++ "\n".toList)

/-- The answer to `DUMPALL`. -/
def dumpAll (w : Nat → Bool) (fd : Nat) (d : Dstate) : Dstate :=
  match (if d.stale then sendToOne w fd d "DATASTALE\n".toList else (d, true)) with
  | (d, false) => d
  | (d, true) =>
    match stTreeDumpConn w fd d d.dtreeRoot with
    | (d, false) => d
    | (d, true) =>
      match cmdDumpConn w fd d with
      | (d, false) => d
      | (d, true) =>
        match (if d.stale then (d, true) else sendToOne w fd d "DATAOK\n".toList) with
        | (d, false) => d
        | (d, true) => (sendToOne w fd d "DUMPDONE\n".toList).1

/-- `arg` are the slots of `arglist`, of which the first `numarg` are the words of the line. -/
def sockArg (w : Nat → Bool) (upsh : UpsHandler) (fd : Nat) (d : Dstate) (numarg : Nat) (arg : List CStr) :
    Dstate × Bool :=
  let arg0 := arg.getD 0 []
  if numarg < 1 then (d, false)
  else if strcasecmp arg0 "DUMPALL".toList = .eq then (dumpAll w fd d, true)
  else if strcasecmp arg0 "PING".toList = .eq then ((sendToOne w fd d "PONG\n".toList).1, true)
  else if numarg < 2 then (d, false)
  else if strcasecmp arg0 "INSTCMD".toList = .eq then
    match upsh.instcmd with
    | some instcmd => (instcmd d (arg.getD 1 []) (if 2 < numarg then some (arg.getD 2 []) else none), true)
    | none => (d, true)
  else if numarg < 3 then (d, false)
  else if strcasecmp arg0 "SET".toList = .eq then
    match upsh.setvar with
    | some setvar => (setvar d (arg.getD 1 []) (arg.getD 2 []), true)
    | none => (d, true)
  else (d, false)

def setConnCtx (d : Dstate) (fd : Nat) (ctx : PconfCtx) : Dstate :=
  { d with connhead := d.connhead.map fun conn => if conn.fd = fd then { conn with ctx := ctx } else conn }

/-- The loop of `sock_read` over the bytes; there is no result when it goes on with a connection that is freed. -/
def sockReadLoop (w : Nat → Bool) (upsh : UpsHandler) (fd : Nat) : Dstate → CStr → Option Dstate
  | d, [] => some d
  | d, ch :: buf =>
    match d.connhead.find? fun conn => conn.fd = fd with
    | none => none
    | some conn =>
      match pconfChar conn.ctx ch with
      | (ctx, .more) => sockReadLoop w upsh fd (setConnCtx d fd ctx) buf
      | (ctx, .line) =>
        sockReadLoop w upsh fd (sockArg w upsh fd (setConnCtx d fd ctx) ctx.numargs ctx.arglist).1 buf
      | (ctx, .error) => some (setConnCtx d fd ctx)

def sockRead (w : Nat → Bool) (upsh : UpsHandler) (fd : Nat) (d : Dstate) : ReadResult → Option Dstate
  | .again => some d
  | .fail => some (sockDisconnect d fd)
  | .data buf => sockReadLoop w upsh fd d buf

/-! ### The interface -/

def dstateSetinfo (w : Nat → Bool) (d : Dstate) (var text : CStr) : Dstate × Bool :=
  let value := snprintf stMaxValueLen text
  let r := stateSetinfo d.dtreeRoot var value
  let d' := { d with dtreeRoot := r.1 }
  (if r.2 then sendToAll w d' ("SETINFO ".toList ++ var ++ " \"".toList ++ value ++ "\"\n".toList) else d', r.2)

def dstateAddenum (w : Nat → Bool) (d : Dstate) (var text : CStr) : Dstate × Bool :=
  let value := snprintf stMaxValueLen text
  let r := stateAddenum d.dtreeRoot var value
  let d' := { d with dtreeRoot := r.1 }
  (if r.2 then sendToAll w d' ("ADDENUM ".toList ++ var ++ " \"".toList ++ value ++ "\"\n".toList) else d', r.2)

def dstateAddrange (w : Nat → Bool) (d : Dstate) (var : CStr) (min max : Int32) : Dstate × Bool :=
  let r := stateAddrange d.dtreeRoot var min max
  let d' := { d with dtreeRoot := r.1 }
  (if r.2 then
    sendToAll w d' ("ADDRANGE ".toList ++ var ++ "  ".toList ++ formatInt min ++ " ".toList ++ formatInt max ++
      "\n".toList)
    else d', r.2)

def dstateSetflags (w : Nat → Bool) (d : Dstate) (var : CStr) (flags : BitVec 32) : Dstate :=
  match stateTreeFind d.dtreeRoot var with
  | none => d
  | some sttmp =>
    if sttmp.flags &&& stFlagImmutable ≠ 0 then d
    else if sttmp.flags = flags then d
    else
      sendToAll w { d with dtreeRoot := stateTreeStore d.dtreeRoot var { sttmp with flags := flags } }
        ("SETFLAGS ".toList ++ flist var flags ++ "\n".toList)

def dstateSetaux (w : Nat → Bool) (d : Dstate) (var : CStr) (aux : Int32) : Dstate :=
  match stateTreeFind d.dtreeRoot var with
  | none => d
  | some sttmp =>
    if sttmp.aux = aux then d
    else
      sendToAll w { d with dtreeRoot := stateTreeStore d.dtreeRoot var { sttmp with aux := aux } }
        ("SETAUX ".toList ++ var ++ " ".toList ++ formatInt aux ++ "\n".toList)

def dstateGetinfo (d : Dstate) (var : CStr) : Option CStr := stateGetinfo d.dtreeRoot var

def dstateAddcmd (w : Nat → Bool) (d : Dstate) (cmdname : CStr) : Dstate :=
  let r := stateAddcmd d.cmdhead cmdname
  let d' := { d with cmdhead := r.1 }
  if r.2 then sendToAll w d' ("ADDCMD ".toList ++ cmdname ++ "\n".toList) else d'

def dstateDelinfo (w : Nat → Bool) (d : Dstate) (var : CStr) : Dstate × Bool :=
  let r := stateDelinfo d.dtreeRoot var
  let d' := { d with dtreeRoot := r.1 }
  (if r.2 then sendToAll w d' ("DELINFO ".toList ++ var ++ "\n".toList) else d', r.2)

def dstateDelenum (w : Nat → Bool) (d : Dstate) (var val : CStr) : Dstate × Bool :=
  let r := stateDelenum d.dtreeRoot var val
  let d' := { d with dtreeRoot := r.1 }
  (if r.2 then sendToAll w d' ("DELENUM ".toList ++ var ++ " \"".toList ++ val ++ "\"\n".toList) else d', r.2)

def dstateDelrange (w : Nat → Bool) (d : Dstate) (var : CStr) (min max : Int32) : Dstate × Bool :=
  let r := stateDelrange d.dtreeRoot var min max
  let d' := { d with dtreeRoot := r.1 }
  (if r.2 then
    sendToAll w d' ("DELRANGE ".toList ++ var ++ " \"".toList ++ formatInt min ++ " ".toList ++ formatInt max ++
      "\"\n".toList)
    else d', r.2)

def dstateDelcmd (w : Nat → Bool) (d : Dstate) (cmd : CStr) : Dstate × Bool :=
  let r := stateDelcmd d.cmdhead cmd
  let d' := { d with cmdhead := r.1 }
  (if r.2 then sendToAll w d' ("DELCMD ".toList ++ cmd ++ "\n".toList) else d', r.2)

def dstateDataok (w : Nat → Bool) (d : Dstate) : Dstate :=
  if d.stale then sendToAll w { d with stale := false } "DATAOK\n".toList else d

def dstateDatastale (w : Nat → Bool) (d : Dstate) : Dstate :=
  if d.stale then d else sendToAll w { d with stale := true } "DATASTALE\n".toList

/-! ### What is written -/

/-- The bytes written to a connection so far, if it is open. -/
def connOut (d : Dstate) (fd : Nat) : Option CStr := (d.connhead.find? fun conn => conn.fd = fd).map Conn.out

@[simp] theorem sendToAll_dtreeRoot (w : Nat → Bool) (d : Dstate) (text : CStr) :
    (sendToAll w d text).dtreeRoot = d.dtreeRoot := by
  unfold sendToAll; split <;> rfl

@[simp] theorem sendToAll_cmdhead (w : Nat → Bool) (d : Dstate) (text : CStr) :
    (sendToAll w d text).cmdhead = d.cmdhead := by
  unfold sendToAll; split <;> rfl

@[simp] theorem sendToAll_stale (w : Nat → Bool) (d : Dstate) (text : CStr) :
    (sendToAll w d text).stale = d.stale := by
  unfold sendToAll; split <;> rfl

private theorem find_map_conn {f : Conn → Conn} (hf : ∀ conn, (f conn).fd = conn.fd) (conns : List Conn) (fd : Nat) :
    (conns.map f).find? (fun conn => conn.fd = fd) = (conns.find? fun conn => conn.fd = fd).map f := by
  rw [List.find?_map]
  congr 2
  funext conn
  simp [hf]

/-- The parser of a connection, if it is open. -/
def connCtx (d : Dstate) (fd : Nat) : Option PconfCtx := (d.connhead.find? fun conn => conn.fd = fd).map Conn.ctx

theorem find_setConnCtx (d : Dstate) (fd : Nat) (ctx : PconfCtx) :
    ((setConnCtx d fd ctx).connhead.find? fun conn => conn.fd = fd) =
      (d.connhead.find? fun conn => conn.fd = fd).map fun conn => { conn with ctx := ctx } := by
  have hfd (conn : Conn) : (if conn.fd = fd then { conn with ctx := ctx } else conn).fd = conn.fd := by
    split_ifs <;> rfl
  refine (find_map_conn hfd d.connhead fd).trans (Option.map_congr fun conn hc => ?_)
  have hconn : conn.fd = fd := by simpa using List.find?_some hc
  rw [if_pos hconn]

theorem connCtx_setConnCtx {d : Dstate} {fd : Nat} {conn : Conn}
    (hc : (d.connhead.find? fun conn => conn.fd = fd) = some conn) (ctx : PconfCtx) :
    connCtx (setConnCtx d fd ctx) fd = some ctx := by
  rw [connCtx, find_setConnCtx, hc, Option.map_some, Option.map_some]

section Delivered

variable {w : Nat → Bool} (hw : ∀ n, w n = true)
include hw

private theorem sendToAllLoop_snd (buf : CStr) (n : Nat) (conns : List Conn) :
    (sendToAllLoop w buf n conns).2 = conns.map fun conn => { conn with out := conn.out ++ buf } := by
  induction conns generalizing n with
  | nil => rfl
  | cons conn rest ih => simp [sendToAllLoop, hw, ih]

/-- A broadcast reaches every connection. -/
theorem find_sendToAll (d : Dstate) (text : CStr) (fd : Nat) :
    ((sendToAll w d text).connhead.find? fun conn => conn.fd = fd) =
      (d.connhead.find? fun conn => conn.fd = fd).map fun conn =>
        { conn with out := conn.out ++ snprintf stSockBufLen text } := by
  unfold sendToAll
  split
  · rename_i h
    have hnil : text = [] := List.eq_nil_of_length_eq_zero (by omega)
    have hid : (fun conn : Conn => { conn with out := conn.out ++ snprintf stSockBufLen text }) = id := by
      funext conn; simp [hnil, snprintf]
    rw [hid, Option.map_id_fun, id]
  · simp only [sendToAllLoop_snd hw]
    exact @find_map_conn (fun conn => { conn with out := conn.out ++ snprintf stSockBufLen text }) (fun _ => rfl)
      d.connhead fd

theorem connOut_sendToAll (d : Dstate) (text : CStr) (fd : Nat) :
    connOut (sendToAll w d text) fd = (connOut d fd).map (· ++ snprintf stSockBufLen text) := by
  rw [connOut, connOut, find_sendToAll hw, Option.map_map, Option.map_map]
  rfl

end Delivered

end Nut
