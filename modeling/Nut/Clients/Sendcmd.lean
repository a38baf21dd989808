import Nut.Clients.Upssched
import Nut.Common.Words

/-!
# `upssched.c`: a request to the timer daemon

`sendcmd` with its retries, the daemon that reads the request, and the sockets between them, as a step relation.  The
client waits for the answer in `read`, which the alarm may end at any point; the daemon may take any time between two of
its steps, which come in any order here.  There is one daemon at a time, and other processes may start it and send it
requests of their own.

A connection is read to the end of the request at most once, and each one read so is carried out.  The client returns
after an answer on its last connection, and what the daemon did for the ones before, on which the client gave up, comes on
top (`sendcmd_carried_out`).
-/

namespace Nut.Upssched

open ChunkReader Lexer

def maxTries : Nat := 30
def usMaxRead : Nat := 128
def smallbuf : Nat := 512

/-! ### The daemon's side of a connection -/

/-- Where a connection is: in the backlog of the listener, in the list of the daemon, or closed by the daemon. -/
inductive Stage where
  | backlog
  | added
  | deleted
  deriving DecidableEq

/-- A `conn_t` and its socket: the parser, the bytes on the way to the daemon and to the client, and whether the client has
closed its end. -/
structure Conn where
  ctx : PconfCtx
  input : CStr
  output : CStr
  shut : Bool
  stage : Stage
  deriving DecidableEq

def Conn.init : Conn where
  ctx := pconfInit
  input := []
  output := []
  shut := false
  stage := .backlog

/-- What `sock_read` found: nothing to parse yet, a line, or that the connection is gone. -/
inductive SockRead where
  | nothing
  | line
  | error
  deriving DecidableEq

/-- The loop of `sock_read` for `n` more characters: the parser, the characters left, and the result. -/
def sockReadLoop (shut : Bool) : Nat → PconfCtx → CStr → PconfCtx × CStr × SockRead
  | 0, ctx, input => (ctx, input, .nothing)
  | _ + 1, ctx, [] => (ctx, [], if shut then .error else .nothing)
  | n + 1, ctx, ch :: input =>
    match pconfChar ctx ch with
    | (ctx, .more) => sockReadLoop shut n ctx input
    | (ctx, .error) => (ctx, input, .nothing)
    | (ctx, .line) => (ctx, input, .line)

/-- `sock_arg`, without a result for a line it does not know.  A slot of `arglist` that was never filled is not read. -/
def sockArg (now : Int) (numargs : Nat) (arglist : List CStr) (d : Sched) : Option Sched :=
  if numargs < 1 then none
  else if arglist[0]? = some "CANCEL".toList then
    (arglist[1]?).map fun name =>
      Sched.cancelTimer now name (if numargs < 3 then none else arglist[2]?) d
  else if numargs < 3 then none
  else if arglist[0]? = some "START".toList then
    (arglist[1]?).bind fun name => (arglist[2]?).map fun ofsstr => Sched.startTimer now name ofsstr d
  else none

/-! ### The client -/

/-- The requests that `upssched` makes for a name with its length, and for a name with the command to run instead. -/
inductive Request where
  | start (name length : CStr)
  | cancel (name : CStr) (cmd : Option CStr)
  deriving DecidableEq

/-- The text `enc` of `sendcmd`. -/
def sendcmdText (cmd arg1 : CStr) (arg2 : Option CStr) : CStr :=
  let buf := snprintf smallbuf (cmd ++ " \"".toList ++ pconfEncode arg1 smallbuf ++ "\"".toList)
  let buf := match arg2 with
    | none => buf
    | some arg2 => snprintfcat buf smallbuf (" \"".toList ++ pconfEncode arg2 smallbuf ++ "\"".toList)
  snprintf smallbuf (buf ++ "\n".toList)

namespace Request

def text : Request → CStr
  | start name length => sendcmdText "START".toList name (some length)
  | cancel name cmd => sendcmdText "CANCEL".toList name cmd

/-- The words of the request. -/
def words : Request → List CStr
  | start name length => ["START".toList, name, length]
  | cancel name none => ["CANCEL".toList, name]
  | cancel name (some cmd) => ["CANCEL".toList, name, cmd]

/-- The arguments are made of characters that the parser of the configuration keeps. -/
def Kept : Request → Prop
  | start name length => Nut.Kept name ∧ Nut.Kept length
  | cancel name cmd => Nut.Kept name ∧ ∀ c ∈ cmd, Nut.Kept c

end Request

/-- Where `sendcmd` is: in `check_parent` with the tries of both loops, connected, in `read`, with what `read` returned, or
out of it.  It returns after an answer on a connection, or without one because no daemon is needed. -/
inductive Phase where
  | checkParent (i tries : Nat)
  | connected (i fd : Nat)
  | reading (i fd : Nat)
  | read (i fd : Nat) (ret : Option CStr)
  | returned (fd : Option Nat)
  | failed
  deriving DecidableEq

/-- The next pass of the loop of `sendcmd`. -/
def tryAgain (i : Nat) : Phase := if i + 1 < maxTries then .checkParent (i + 1) 0 else .failed

/-- After `close`: the answer is looked at. -/
def answered (i fd : Nat) (ret : Option CStr) : Phase :=
  match ret with
  | some buf => if buf.length < 2 then tryAgain i else if buf.take 2 = "OK".toList then .returned (some fd) else tryAgain i
  | none => tryAgain i

/-! ### The system -/

/-- The client, its connections in the order of their making, the daemon, and the connections whose requests the daemon
has carried out, with what each left in the daemon's record. -/
structure Sys where
  phase : Phase
  conns : List Conn
  daemon : Option Sched
  calls : List (Nat × List Sched.Happening)
  deriving DecidableEq

def Sys.init (daemon : Option Sched) : Sys where
  phase := .checkParent 0 0
  conns := []
  daemon := daemon
  calls := []

inductive Event where
  /-- `connect` succeeds. -/
  | connect
  /-- `connect` fails; `lock` says whether the client then gets the lock. -/
  | noDaemon (lock : Bool)
  /-- `write` takes `n` characters. -/
  | write (n : Nat)
  /-- `read` returns an answer. -/
  | readAnswer
  /-- `read` fails, because of the alarm or otherwise. -/
  | readFails
  /-- The client closes the connection. -/
  | close
  | accept (fd : Nat)
  /-- A connection is readable; `ok` says whether the answer can be written. -/
  | sockRead (fd : Nat) (now : Int) (ok : Bool)
  | checktimers (now : Int)
  /-- Another process makes a request, or starts the daemon. -/
  | otherStart (now : Int) (name ofsstr : CStr)
  | otherCancel (now : Int) (name : CStr) (cname : Option CStr)
  | otherDaemon
  deriving DecidableEq

namespace Sys

def setConn (s : Sys) (fd : Nat) (conn : Conn) : Sys := { s with conns := s.conns.set fd conn }

/-- The daemon is gone, and its ends of the connections are closed. -/
def exit (s : Sys) : Sys := { s with daemon := none, conns := s.conns.map fun conn => { conn with stage := .deleted } }

/-- `send_to_one`.  Writing to a connection that the client has closed is an error if the signal that comes with it is
ignored, and otherwise ends the daemon. -/
def sendToOne (ignored ok : Bool) (s : Sys) (fd : Nat) (conn : Conn) (msg : CStr) : Sys :=
  if conn.shut && !ignored then (s.setConn fd conn).exit
  else if conn.shut || !ok then s.setConn fd { conn with stage := .deleted }
  else s.setConn fd { conn with output := conn.output ++ msg }

/-- `sock_read` on a connection of the daemon's list. -/
def sockRead (ignored : Bool) (s : Sys) (d : Sched) (fd : Nat) (conn : Conn) (now : Int) (ok : Bool) : Sys :=
  match sockReadLoop conn.shut usMaxRead conn.ctx conn.input with
  | (ctx, input, .nothing) => s.setConn fd { conn with ctx := ctx, input := input }
  | (ctx, input, .error) => s.setConn fd { conn with ctx := ctx, input := input, stage := .deleted }
  | (ctx, input, .line) =>
    match sockArg now ctx.numargs ctx.arglist d with
    | some d' =>
      sendToOne ignored ok { s with daemon := some d', calls := s.calls ++ [(fd, d'.log.drop d.log.length)] } fd
        { conn with ctx := ctx, input := input } "OK\n".toList
    | none => sendToOne ignored ok s fd { conn with ctx := ctx, input := input } "ERR UNKNOWN\n".toList

/-- `check_parent` when `connect` has failed. -/
def noDaemon (req : Request) (s : Sys) (i tries : Nat) (lock : Bool) : Sys :=
  match req, lock with
  | .cancel _ none, _ => { s with phase := .returned none }
  | _, true => { s with daemon := some .init, phase := tryAgain i }
  | _, false => { s with phase := if tries + 1 < maxTries then .checkParent i (tries + 1) else .failed }

/-- `write`, which like the daemon's meets a connection that the other side has closed. -/
def write (ignored : Bool) (text : CStr) (s : Sys) (i fd : Nat) (conn : Conn) (n : Nat) : Sys :=
  if conn.stage = .deleted then
    if ignored then { s.setConn fd { conn with shut := true } with phase := tryAgain i }
    else { s.setConn fd { conn with shut := true } with phase := .failed }
  else if text.length ≤ n then
    { s.setConn fd { conn with input := conn.input ++ text } with phase := .reading i fd }
  else { s.setConn fd { conn with input := conn.input ++ text.take n, shut := true } with phase := tryAgain i }

/-- A step; an event that cannot happen changes nothing. -/
def step (ignored : Bool) (req : Request) (s : Sys) (e : Event) : Sys :=
  match e with
  | .connect =>
    match s.phase, s.daemon with
    | .checkParent i _, some _ => { s with conns := s.conns ++ [.init], phase := .connected i s.conns.length }
    | _, _ => s
  | .noDaemon lock =>
    match s.phase, s.daemon with
    | .checkParent i tries, none => noDaemon req s i tries lock
    | _, _ => s
  | .write n =>
    match s.phase with
    | .connected i fd =>
      match s.conns[fd]? with
      | some conn => write ignored req.text s i fd conn n
      | none => s
    | _ => s
  | .readAnswer =>
    match s.phase with
    | .reading i fd =>
      match s.conns[fd]? with
      | some conn =>
        if conn.output = [] then s
        else { s.setConn fd { conn with output := [] } with phase := .read i fd (some conn.output) }
      | none => s
    | _ => s
  | .readFails =>
    match s.phase with
    | .reading i fd => { s with phase := .read i fd none }
    | _ => s
  | .close =>
    match s.phase with
    | .read i fd ret =>
      match s.conns[fd]? with
      | some conn => { s.setConn fd { conn with shut := true } with phase := answered i fd ret }
      | none => s
    | _ => s
  | .accept fd =>
    match s.daemon, s.conns[fd]? with
    | some _, some conn => if conn.stage = .backlog then s.setConn fd { conn with stage := .added } else s
    | _, _ => s
  | .sockRead fd now ok =>
    match s.daemon, s.conns[fd]? with
    | some d, some conn => if conn.stage = .added then sockRead ignored s d fd conn now ok else s
    | _, _ => s
  | .checktimers now =>
    match s.daemon with
    | some d =>
      let d := Sched.checktimers now d
      if d.running then { s with daemon := some d } else s.exit
    | none => s
  | .otherStart now name ofsstr => { s with daemon := s.daemon.map (Sched.startTimer now name ofsstr) }
  | .otherCancel now name cname => { s with daemon := s.daemon.map (Sched.cancelTimer now name cname) }
  | .otherDaemon =>
    match s.daemon with
    | some _ => s
    | none => { s with daemon := some .init }

def run (ignored : Bool) (req : Request) (s : Sys) (es : List Event) : Sys := es.foldl (step ignored req) s

/-- What the daemon did for the request. -/
def did (s : Sys) : List Sched.Happening := s.calls.flatMap Prod.snd

/-- The number of timers of a name that were added for the request. -/
def timersAdded (s : Sys) (name : CStr) : Nat :=
  s.did.countP fun h => match h with
    | .start tmp => tmp.name = name
    | _ => false

/-- The number of calls of `cancel_timer` that were made for the request. -/
def cancelCalls (s : Sys) (name : CStr) : Nat :=
  s.did.countP fun h => match h with
    | .cancel name' _ _ => name' = name
    | _ => false

end Sys

/-! ### What the daemon reads -/

/-- The words that the daemon may read: the request's, or without the last argument where the text was cut before it. -/
def Request.Line (req : Request) (ws : List CStr) : Prop := ws = req.words ∨ ws = req.words.take 2

/-- The rest of a text on a connection is one of the request's lines, or completes no line. -/
def Request.Arriving (req : Request) (l : Lexer) (input : CStr) : Prop :=
  (∃ t, silent Lexer.step l input = some t) ∨ ∃ ws, req.Line ws ∧ ReadsAs Lexer.step l input Lexer.start ws

/-- In quotes, a part of an escaped text completes no line, and neither does the newline after it. -/
private theorem silent_cut (ws : List CStr) (w : CStr) {s : CStr} (hs : Kept s) (n : Nat) :
    ∃ w' m, silent Lexer.step ⟨ws, w, .quoted⟩ ((escape s).take n) = some ⟨ws, w', m⟩ ∧
      (m = .quoted ∨ m = .quotedEsc) := by
  induction s generalizing w n with
  | nil => exact ⟨w, .quoted, by simp [silent], .inl rfl⟩
  | cons c s ih =>
    have hc := hs c (by simp)
    have hnl : c ≠ '\n' := by rintro rfl; exact absurd hc (by decide)
    have hrest : Kept s := fun d hd => hs d (by simp [hd])
    have hkeep (m : Mode) : (keep ⟨ws, w, m⟩ c).into .quoted = ⟨ws, (keep ⟨ws, w, .quoted⟩ c).word, .quoted⟩ := by
      unfold keep into
      split_ifs <;> rfl
    rw [escape_cons]
    rcases n with _ | n
    · exact ⟨w, .quoted, by simp [silent], .inl rfl⟩
    · by_cases hp : pconfEscape c
      · have h1 : Lexer.step ⟨ws, w, .quoted⟩ '\\' = (⟨ws, w, .quotedEsc⟩, .more) := rfl
        have h2 : Lexer.step ⟨ws, w, .quotedEsc⟩ c = (⟨ws, (keep ⟨ws, w, .quoted⟩ c).word, .quoted⟩, .more) := by
          rw [← hkeep .quotedEsc]
          simp [Lexer.step, hnl]
        rcases n with _ | n
        · exact ⟨w, .quotedEsc, by simp [hp, silent, h1], .inr rfl⟩
        · obtain ⟨w', m, hrun, hm⟩ := ih (keep ⟨ws, w, .quoted⟩ c).word hrest n
          refine ⟨w', m, ?_, hm⟩
          simp only [hp, if_true, List.cons_append, List.nil_append, List.take_succ_cons, silent, h1, h2, hrun]
      · simp only [pconfEscape, Bool.or_eq_true, decide_eq_true_eq, not_or] at hp
        have h1 : Lexer.step ⟨ws, w, .quoted⟩ c = (⟨ws, (keep ⟨ws, w, .quoted⟩ c).word, .quoted⟩, .more) := by
          rw [← hkeep .quoted]
          simp [Lexer.step, hp]
        have hpe : pconfEscape c = false := by simp [pconfEscape, hp]
        obtain ⟨w', m, hrun, hm⟩ := ih (keep ⟨ws, w, .quoted⟩ c).word hrest n
        refine ⟨w', m, ?_, hm⟩
        simp only [hpe, Bool.false_eq_true, if_false, List.cons_append, List.nil_append, List.take_succ_cons, silent, h1,
          hrun]

/-- A quoted argument as the encoder and `snprintf` leave it in a buffer: whole, or cut before its end. -/
private theorem take_quoted (head arg : CStr) {size : Nat} (hsize : size < smallbuf) :
    ((head ++ '"' :: pconfEncode arg smallbuf ++ ['"']).length ≤ size ∧
        head ++ '"' :: pconfEncode arg smallbuf ++ ['"'] = head ++ '"' :: escape arg ++ ['"']) ∨
      (size ≤ head.length ∧ (head ++ '"' :: pconfEncode arg smallbuf ++ ['"']).take size = head.take size) ∨
      (size < (head ++ '"' :: pconfEncode arg smallbuf ++ ['"']).length ∧
        ∃ n, (head ++ '"' :: pconfEncode arg smallbuf ++ ['"']).take size = head ++ '"' :: (escape arg).take n) := by
  obtain ⟨k, hk, -, -⟩ := pconfEncode_take arg (show 2 ≤ smallbuf by decide)
  have hprefix : escape arg = pconfEncode arg smallbuf ++ escape (arg.drop k) := by
    rw [hk, ← escape_append, List.take_append_drop]
  have hlen : (head ++ '"' :: pconfEncode arg smallbuf ++ ['"']).length =
      head.length + 1 + (pconfEncode arg smallbuf).length + 1 := by
    simp only [List.length_append, List.length_cons, List.length_nil]
    omega
  rw [hlen]
  by_cases hwhole : head.length + 1 + (pconfEncode arg smallbuf).length + 1 ≤ size
  · refine .inl ⟨hwhole, ?_⟩
    have hfits : (escape arg).length < smallbuf := by
      by_contra hlong
      have hfull := @le_length_pconfEncode arg smallbuf (by omega)
      omega
    rw [pconfEncode_fits hfits]
  · by_cases hhead : size ≤ head.length
    · refine .inr (.inl ⟨hhead, ?_⟩)
      rw [List.append_assoc, List.take_append_of_le_length hhead]
    · refine .inr (.inr ⟨by omega, size - head.length - 1, ?_⟩)
      obtain ⟨m, hm⟩ : ∃ m, size = head.length + (m + 1) := ⟨size - head.length - 1, by omega⟩
      have hroom : m ≤ (pconfEncode arg smallbuf).length := by omega
      have hsub : size - head.length - 1 = m := by omega
      rw [hsub, hm, List.append_assoc, List.take_length_add_append, List.cons_append, List.take_succ_cons,
        List.take_append_of_le_length hroom, hprefix, List.take_append_of_le_length hroom]

private theorem arriving_take {req : Request} {l : Lexer} {input : CStr} (h : req.Arriving l input) (n : Nat) :
    req.Arriving l (input.take n) := by
  rcases h with ⟨t, ht⟩ | ⟨ws, hws, hreads⟩
  · rw [← List.take_append_drop n input] at ht
    obtain ⟨u, hu, -⟩ := silent_of_append ht
    exact .inl ⟨u, hu⟩
  · by_cases hrest : input.drop n = []
    · have hall : input.take n = input := List.take_of_length_le (List.drop_eq_nil_iff.1 hrest)
      exact .inr ⟨ws, hws, hall.symm ▸ hreads⟩
    · rw [← List.take_append_drop n input] at hreads
      obtain ⟨t, ht, -⟩ := hreads.split hrest
      exact .inl ⟨t, ht⟩

section Text

variable {req : Request} {head arg1 : CStr} {ws : List CStr}

/-- A text that is cut in quotes, with the newline or not. -/
private theorem arriving_cut (req : Request) (hhead : silent Lexer.step Lexer.start head = some ⟨ws, [], .between⟩)
    {arg : CStr} (harg : Kept arg) (n : Nat) : req.Arriving Lexer.start (head ++ '"' :: (escape arg).take n ++ ['\n']) := by
  have hopen : silent Lexer.step Lexer.start (head ++ ['"']) = some ⟨ws, [], .quoted⟩ := by
    rw [silent_append hhead]
    rfl
  obtain ⟨w, m, hrun, hm⟩ := silent_cut ws [] harg n
  have hsplit : head ++ '"' :: (escape arg).take n ++ ['\n'] = (head ++ ['"']) ++ ((escape arg).take n ++ ['\n']) := by simp
  refine .inl ?_
  rw [hsplit, silent_append hopen, silent_append hrun]
  rcases hm with rfl | rfl
  · exact ⟨_, rfl⟩
  · exact ⟨_, rfl⟩

/-- A quoted argument that fits is read as it is. -/
private theorem silent_whole (hhead : silent Lexer.step Lexer.start head = some ⟨ws, [], .between⟩)
    (hws : ws.length < pconfDefaultArgLimit) {arg : CStr} (harg : Kept arg) (hlen : arg.length ≤ pconfDefaultWordlenLimit) :
    silent Lexer.step Lexer.start (head ++ '"' :: escape arg ++ ['"']) = some ⟨ws ++ [arg], [], .between⟩ := by
  rw [List.append_assoc, silent_append hhead]
  exact silent_quoted ws harg hlen hws

private theorem length_le_of_quoted {head arg : CStr} {size : Nat} (hsize : size < smallbuf)
    (h : (head ++ '"' :: escape arg ++ ['"']).length ≤ size) : arg.length ≤ pconfDefaultWordlenLimit := by
  have hescape := length_le_escape arg
  have hlimit : pconfDefaultWordlenLimit = smallbuf := rfl
  simp only [List.length_append, List.length_cons, List.length_nil] at h
  omega

/-- What `sendcmd` sends is a line of the request, or completes no line. -/
private theorem arriving_sendcmdText {cmd : CStr} (hcmd : PlainWord cmd) (hcmdlen : cmd.length ≤ 8) {arg2 : Option CStr}
    (harg1 : Kept arg1) (harg2 : ∀ arg ∈ arg2, Kept arg)
    (hwhole : arg2 = none → req.Line [cmd, arg1])
    (hcut : ∀ arg, arg2 = some arg → req.Line [cmd, arg1] ∧ req.Line [cmd, arg1, arg]) :
    req.Arriving Lexer.start (sendcmdText cmd arg1 arg2) := by
  have hhead : silent Lexer.step Lexer.start (cmd ++ [' ']) = some ⟨[cmd], [], .between⟩ :=
    silent_word [] hcmd (by simp only [pconfDefaultWordlenLimit]; omega) (by decide)
  have hline : req.Line [cmd, arg1] := by
    cases arg2 with
    | none => exact hwhole rfl
    | some arg => exact (hcut arg rfl).1
  have hfirst : cmd ++ " \"".toList ++ pconfEncode arg1 smallbuf ++ "\"".toList =
      (cmd ++ [' ']) ++ '"' :: pconfEncode arg1 smallbuf ++ ['"'] := by simp
  unfold sendcmdText
  dsimp only
  rw [hfirst]
  refine arriving_take ?_ _
  have hsmall : smallbuf - 1 < smallbuf := by decide
  rcases take_quoted (cmd ++ [' ']) arg1 hsmall with ⟨hlen, hall⟩ | ⟨hlen, -⟩ | ⟨hlong, n, hn⟩
  · rw [hall] at hlen ⊢
    have hread := silent_whole hhead (by simp [pconfDefaultArgLimit]) harg1 (length_le_of_quoted hsmall hlen)
    have hfull : snprintf smallbuf ((cmd ++ [' ']) ++ '"' :: escape arg1 ++ ['"']) =
        (cmd ++ [' ']) ++ '"' :: escape arg1 ++ ['"'] := List.take_of_length_le hlen
    rw [hfull]
    generalize (cmd ++ [' ']) ++ '"' :: escape arg1 ++ ['"'] = first at hlen hread ⊢
    cases arg2 with
    | none => exact .inr ⟨[cmd, arg1], hwhole rfl, .of_silent hread (readsAs_newline _)⟩
    | some arg =>
      have hsecond : " \"".toList ++ pconfEncode arg smallbuf ++ "\"".toList =
          [' '] ++ '"' :: pconfEncode arg smallbuf ++ ['"'] := by simp
      have hspace : silent Lexer.step Lexer.start (first ++ [' ']) = some ⟨[cmd, arg1], [], .between⟩ := by
        rw [silent_append hread]
        rfl
      dsimp only
      rw [hsecond, snprintfcat, snprintf]
      have hroom : smallbuf - 1 - first.length - 1 < smallbuf := by
        have hpos : 0 < smallbuf := by decide
        omega
      rcases take_quoted [' '] arg hroom with ⟨hlen2, hall2⟩ | ⟨-, hspace2⟩ | ⟨-, n, hn⟩
      · rw [List.take_of_length_le hlen2, hall2]
        rw [hall2] at hlen2
        have hread2 := silent_whole hspace (by simp [pconfDefaultArgLimit]) (harg2 arg rfl)
          (length_le_of_quoted hroom hlen2)
        refine .inr ⟨[cmd, arg1, arg], (hcut arg rfl).2, ?_⟩
        refine .of_silent ?_ (readsAs_newline _)
        simpa using hread2
      · -- cut before the quote of the second argument
        rw [hspace2]
        refine .inr ⟨[cmd, arg1], hline, ?_⟩
        rw [List.append_assoc]
        refine .of_silent hread ?_
        generalize smallbuf - 1 - first.length - 1 = room
        rcases room with _ | room
        · exact readsAs_newline _
        · have hblank : [' '].take (room + 1) = [' '] := by simp
          rw [hblank]
          have hstill : silent Lexer.step ⟨[cmd, arg1], [], .between⟩ [' '] = some ⟨[cmd, arg1], [], .between⟩ := rfl
          exact .of_silent hstill (readsAs_newline _)
      · rw [hn]
        have h := arriving_cut req hspace (harg2 arg rfl) n
        simpa using h
  · simp only [List.length_append, List.length_singleton, smallbuf] at hlen
    omega
  · -- nothing of a second argument fits
    have hcutlen : ((cmd ++ [' ']) ++ '"' :: (escape arg1).take n).length = smallbuf - 1 := by
      rw [← hn, List.length_take]
      omega
    have hcutread := arriving_cut req hhead harg1 n
    rw [snprintf, hn]
    cases arg2 with
    | none => exact hcutread
    | some arg =>
      dsimp only
      rw [snprintfcat, hcutlen, Nat.sub_self, snprintf]
      simpa using hcutread

theorem Request.Kept.arriving_text (h : req.Kept) : req.Arriving Lexer.start req.text := by
  cases req with
  | start name length =>
    have hplain : PlainWord "START".toList := by decide
    show (Request.start name length).Arriving Lexer.start (sendcmdText "START".toList name (some length))
    refine arriving_sendcmdText hplain (by decide) h.1 (fun arg harg => ?_) (fun hnone => ?_) (fun arg harg => ?_)
    · obtain rfl := Option.mem_some.1 harg
      exact h.2
    · exact absurd hnone (Option.some_ne_none length)
    · obtain rfl := Option.some.inj harg
      exact ⟨.inr rfl, .inl rfl⟩
  | cancel name cmd =>
    have hplain : PlainWord "CANCEL".toList := by decide
    show (Request.cancel name cmd).Arriving Lexer.start (sendcmdText "CANCEL".toList name cmd)
    refine arriving_sendcmdText hplain (by decide) h.1 h.2 (fun hnone => ?_) (fun arg harg => ?_)
    · subst hnone
      exact .inl rfl
    · subst harg
      exact ⟨.inr rfl, .inl rfl⟩

end Text

/-! ### What carrying out a request does -/

/-- What the request leaves in the daemon's record: a timer that starts, if its length is not negative, or a call of
`cancel_timer`. -/
def Request.Did (req : Request) (hs : List Sched.Happening) : Prop :=
  match req with
  | start name length => if atoi length < 0 then hs = [] else ∃ tmp : Ttype, tmp.name = name ∧ hs = [.start tmp]
  | cancel name _ => ∃ now removed, hs = [.cancel name now removed]

private theorem did_start (now : Int) (name length : CStr) (d : Sched) :
    (Request.start name length).Did ((Sched.startTimer now name length d).log.drop d.log.length) := by
  unfold Request.Did Sched.startTimer
  dsimp only
  split_ifs with hlength
  · exact List.drop_length
  · exact ⟨_, rfl, List.drop_left⟩

private theorem did_cancel (now : Int) (name : CStr) (cmd cname : Option CStr) (d : Sched) :
    (Request.cancel name cmd).Did ((Sched.cancelTimer now name cname d).log.drop d.log.length) := by
  unfold Request.Did Sched.cancelTimer
  dsimp only
  cases d.thead.find? fun tmp => tmp.name = name with
  | some tmp => exact ⟨now, _, List.drop_left⟩
  | none => rcases cname with _ | _ | ⟨c, cs⟩ <;> exact ⟨now, _, List.drop_left⟩

/-- A line of the request is carried out, unless its last argument is missing. -/
theorem sockArg_line {req : Request} {ws : List CStr} (h : req.Line ws) (now : Int) (rest : List CStr) (d : Sched) :
    sockArg now ws.length (ws ++ rest) d = none ∨
      ∃ d', sockArg now ws.length (ws ++ rest) d = some d' ∧ req.Did (d'.log.drop d.log.length) := by
  have hne : "START".toList ≠ "CANCEL".toList := by decide
  cases req with
  | start name length =>
    rcases h with rfl | rfl
    · refine .inr ⟨_, ?_, did_start now name length d⟩
      simp [sockArg, Request.words]
    · exact .inl (by simp [sockArg, Request.words])
  | cancel name cmd =>
    rcases cmd with _ | cmd
    · have hws : ws = ["CANCEL".toList, name] := by
        rcases h with rfl | rfl <;> rfl
      subst hws
      exact .inr ⟨_, by simp [sockArg], did_cancel now name none none d⟩
    · rcases h with rfl | rfl
      · exact .inr ⟨_, by simp [sockArg, Request.words], did_cancel now name (some cmd) (some cmd) d⟩
      · exact .inr ⟨_, by simp [sockArg, Request.words], did_cancel now name (some cmd) none d⟩

/-- Reading from a connection goes on with the request, or completes one of its lines with the last character. -/
theorem sockReadLoop_cases {req : Request} {A : List CStr} {l : Lexer} {ctx : PconfCtx} {input : CStr}
    (hl : Loaded A l ctx) (hin : req.Arriving l input) (shut : Bool) (n : Nat) :
    ((sockReadLoop shut n ctx input).2.2 ≠ .line ∧ ∃ A' l', Loaded A' l' (sockReadLoop shut n ctx input).1 ∧
        req.Arriving l' (sockReadLoop shut n ctx input).2.1) ∨
      ((sockReadLoop shut n ctx input).2.2 = .line ∧ (sockReadLoop shut n ctx input).2.1 = [] ∧ ∃ ws rest, req.Line ws ∧
        (sockReadLoop shut n ctx input).1.numargs = ws.length ∧
        (sockReadLoop shut n ctx input).1.arglist = ws ++ rest) := by
  induction n generalizing ctx l input with
  | zero => exact .inl ⟨SockRead.noConfusion, A, l, hl, hin⟩
  | succ n ih =>
    cases input with
    | nil => exact .inl ⟨by cases shut <;> exact SockRead.noConfusion, A, l, hl, hin⟩
    | cons ch input =>
      have hsim := pconfStep_simulates hl ch
      rcases hstep : l.step ch with ⟨l', _ | ws | _⟩
      · rw [hstep] at hsim
        obtain ⟨hmore, hl'⟩ := hsim
        have hin' : req.Arriving l' input := by
          rcases hin with ⟨t, ht⟩ | ⟨ws, hws, hreads⟩
          · simp only [silent, hstep] at ht
            exact .inl ⟨t, ht⟩
          · exact .inr ⟨ws, hws, hreads.tail hstep⟩
        rcases hp : pconfChar ctx ch with ⟨ctx', _ | _ | _⟩
        · simp only [pconfStep, hp] at hl'
          simp only [sockReadLoop, hp]
          exact ih hl' hin'
        · simp [pconfStep, hp] at hmore
        · simp [pconfStep, hp] at hmore
      · rw [hstep] at hsim
        obtain ⟨hitem, -⟩ := hsim
        have hws : input = [] ∧ req.Line ws := by
          rcases hin with ⟨t, ht⟩ | ⟨ws', hws', hreads⟩
          · simp [silent, hstep] at ht
          · rcases hreads.cons with ⟨hnil, hc⟩ | ⟨t, ht, -⟩
            · rw [hstep] at hc
              have hsame : l' = Lexer.start ∧ ws = ws' := by simpa using hc
              obtain rfl := hsame.2
              exact ⟨hnil, hws'⟩
            · simp [hstep] at ht
        obtain ⟨rfl, hline⟩ := hws
        rcases hp : pconfChar ctx ch with ⟨ctx', _ | _ | _⟩
        · simp [pconfStep, hp] at hitem
        · simp only [pconfStep, hp, Outcome.item.injEq, Prod.mk.injEq] at hitem
          simp only [sockReadLoop, hp]
          exact .inr ⟨trivial, trivial, ws, _, hline, hitem.1, hitem.2⟩
        · simp [pconfStep, hp] at hitem
      · exfalso
        rcases hin with ⟨t, ht⟩ | ⟨ws, -, hreads⟩
        · simp [silent, hstep] at ht
        · rcases hreads.cons with ⟨-, hc⟩ | ⟨t, ht, -⟩
          · simp [hstep] at hc
          · simp [hstep] at ht

/-! ### The connections -/

/-- The connections whose requests were carried out. -/
def served (calls : List (Nat × List Sched.Happening)) (fd : Nat) : Prop := fd ∈ calls.map Prod.fst

/-- A connection and the request on it: not read to the end yet, carried out, or answered without that. -/
inductive Stand (req : Request) (done : Prop) (conn : Conn) : Prop
  | unread {A : List CStr} {l : Lexer} (h : ¬done) (hl : Loaded A l conn.ctx) (hin : req.Arriving l conn.input)
      (hout : conn.output = []) : Stand req done conn
  | carriedOut (h : done) (hin : conn.input = []) (hout : conn.output = [] ∨ conn.output = "OK\n".toList) :
      Stand req done conn
  | refused (h : ¬done) (hin : conn.input = []) (hout : conn.output = [] ∨ conn.output = "ERR UNKNOWN\n".toList) :
      Stand req done conn

/-- The connections and the calls fit together. -/
structure Accounted (req : Request) (conns : List Conn) (calls : List (Nat × List Sched.Happening)) : Prop where
  nodup : (calls.map Prod.fst).Nodup
  did : ∀ call ∈ calls, call.1 < conns.length ∧ req.Did call.2
  stand : ∀ fd conn, conns[fd]? = some conn → Stand req (served calls fd) conn

/-- A connection on which nothing was sent. -/
def Conn.Untouched (conn : Conn) : Prop := conn.ctx = pconfInit ∧ conn.input = [] ∧ conn.output = []

/-- What the client knows of its connection. -/
def Phase.Fits (req : Request) (conns : List Conn) (calls : List (Nat × List Sched.Happening)) : Phase → Prop
  | .connected _ fd => ¬served calls fd ∧ ∃ conn, conns[fd]? = some conn ∧ conn.Untouched
  | .read _ fd (some buf) => buf.take 2 = "OK".toList → served calls fd
  | .returned (some fd) => served calls fd
  | .returned none => ∃ name, req = .cancel name none
  | _ => True

/-- The invariant of the system. -/
structure Sys.Inv (req : Request) (s : Sys) : Prop where
  accounted : Accounted req s.conns s.calls
  phase : s.phase.Fits req s.conns s.calls

section Invariant

variable {ignored ok : Bool} {req : Request} {s : Sys} {conns : List Conn} {calls : List (Nat × List Sched.Happening)}
  {fd : Nat} {conn conn' : Conn}

theorem Stand.congr {done done' : Prop} (h : Stand req done conn) (hdone : done ↔ done') : Stand req done' conn :=
  propext hdone ▸ h

/-- The stage of a connection and whether the client has closed it do not matter. -/
theorem Stand.same {done : Prop} (h : Stand req done conn) (hctx : conn'.ctx = conn.ctx) (hin : conn'.input = conn.input)
    (hout : conn'.output = conn.output) : Stand req done conn' := by
  cases h with
  | unread hdone hl hin' hout' => exact .unread hdone (hctx ▸ hl) (hin ▸ hin') (hout.trans hout')
  | carriedOut hdone hin' hout' => exact .carriedOut hdone (hin.trans hin') (by rwa [hout])
  | refused hdone hin' hout' => exact .refused hdone (hin.trans hin') (by rwa [hout])

theorem Accounted.lt (h : Accounted req conns calls) (hfd : served calls fd) : fd < conns.length := by
  obtain ⟨call, hcall, rfl⟩ := List.mem_map.1 hfd
  exact (h.did call hcall).1

theorem Accounted.set (h : Accounted req conns calls) (hstand : Stand req (served calls fd) conn) :
    Accounted req (conns.set fd conn) calls where
  nodup := h.nodup
  did call hcall := by
    rw [List.length_set]
    exact h.did call hcall
  stand fd' conn' hconn' := by
    rw [List.getElem?_set] at hconn'
    split_ifs at hconn' with hfd hlt
    · subst hfd
      exact Option.some.inj hconn' ▸ hstand
    · exact h.stand fd' conn' hconn'

theorem Accounted.map (h : Accounted req conns calls) :
    Accounted req (conns.map fun conn => { conn with stage := .deleted }) calls where
  nodup := h.nodup
  did call hcall := by
    rw [List.length_map]
    exact h.did call hcall
  stand fd' conn' hconn' := by
    rw [List.getElem?_map, Option.map_eq_some_iff] at hconn'
    obtain ⟨conn, hconn, rfl⟩ := hconn'
    exact (h.stand fd' conn hconn).same rfl rfl rfl

theorem Accounted.connect (h : Accounted req conns calls) : Accounted req (conns ++ [.init]) calls where
  nodup := h.nodup
  did call hcall := by
    have hlt := (h.did call hcall).1
    rw [List.length_append]
    exact ⟨by omega, (h.did call hcall).2⟩
  stand fd' conn' hconn' := by
    rcases Nat.lt_trichotomy fd' conns.length with hlt | rfl | hlt
    · rw [List.getElem?_append_left hlt] at hconn'
      exact h.stand fd' conn' hconn'
    · rw [List.getElem?_concat_length] at hconn'
      obtain rfl := Option.some.inj hconn'
      refine .unread (fun hserved => ?_) atLineStart_pconfInit (.inl ⟨_, rfl⟩) rfl
      exact absurd (h.lt hserved) (Nat.lt_irrefl _)
    · rw [List.getElem?_eq_none (by simp; omega)] at hconn'
      cases hconn'

theorem served_append {call : Nat × List Sched.Happening} :
    served (calls ++ [call]) fd ↔ served calls fd ∨ fd = call.1 := by
  simp [served]

/-- One more request is carried out. -/
theorem Accounted.call (h : Accounted req conns calls) (hnew : ¬served calls fd) (hlt : fd < conns.length)
    {hs : List Sched.Happening} (hdid : req.Did hs) (hstand : Stand req True conn) :
    Accounted req (conns.set fd conn) (calls ++ [(fd, hs)]) where
  nodup := by
    rw [List.map_append, List.map_singleton]
    refine List.nodup_append.2 ⟨h.nodup, by simp, fun a ha b hb heq => ?_⟩
    have hfd : a = fd := heq.trans (List.mem_singleton.1 hb)
    subst hfd
    exact hnew ha
  did call hcall := by
    rw [List.length_set]
    rcases List.mem_append.1 hcall with hcall | hcall
    · exact h.did call hcall
    · rw [List.mem_singleton.1 hcall]
      exact ⟨hlt, hdid⟩
  stand fd' conn' hconn' := by
    rw [List.getElem?_set] at hconn'
    split_ifs at hconn' with hfd
    · subst hfd
      obtain rfl := Option.some.inj hconn'
      exact hstand.congr (by simp [served_append])
    · exact (h.stand fd' conn' hconn').congr (by rw [served_append]; exact (or_iff_left (Ne.symm hfd)).symm)

/-! ### What the client knows -/

/-- What the client knows stays true while its connection is untouched if it was, and calls are only added. -/
theorem Phase.Fits.mono {p : Phase} (h : p.Fits req conns calls) {conns' : List Conn}
    {calls' : List (Nat × List Sched.Happening)}
    (hconns : ∀ fd conn, ¬served calls fd → conns[fd]? = some conn → conn.Untouched →
      ¬served calls' fd ∧ ∃ conn', conns'[fd]? = some conn' ∧ conn'.Untouched)
    (hcalls : ∀ fd, served calls fd → served calls' fd) : p.Fits req conns' calls' := by
  cases p with
  | checkParent i tries => trivial
  | connected i fd =>
    obtain ⟨hnew, conn, hconn, huntouched⟩ := h
    exact hconns fd conn hnew hconn huntouched
  | reading i fd => trivial
  | read i fd ret =>
    cases ret with
    | none => trivial
    | some buf => exact fun hok => hcalls fd (h hok)
  | returned fd =>
    cases fd with
    | none => exact h
    | some fd => exact hcalls fd h
  | failed => trivial

theorem Phase.Fits.set {p : Phase} (h : p.Fits req conns calls) (hconn : conns[fd]? = some conn)
    (huntouched : conn.Untouched → conn'.Untouched) : p.Fits req (conns.set fd conn') calls := by
  refine h.mono (fun fd' c hnew hc hu => ⟨hnew, ?_⟩) (fun _ => id)
  by_cases hfd : fd = fd'
  · subst hfd
    rw [hconn] at hc
    obtain rfl := Option.some.inj hc
    have hlt : fd < conns.length := (List.getElem?_eq_some_iff.1 hconn).1
    exact ⟨conn', by rw [List.getElem?_set_self hlt], huntouched hu⟩
  · exact ⟨c, by rw [List.getElem?_set_ne hfd, hc], hu⟩

theorem Phase.Fits.map {p : Phase} (h : p.Fits req conns calls) :
    p.Fits req (conns.map fun conn => { conn with stage := .deleted }) calls := by
  refine h.mono (fun fd' c hnew hc hu => ⟨hnew, { c with stage := .deleted }, ?_, hu⟩) (fun _ => id)
  rw [List.getElem?_map, hc, Option.map_some]

theorem Sys.Inv.exit (h : s.Inv req) : s.exit.Inv req := ⟨h.accounted.map, h.phase.map⟩

end Invariant

/-! ### The steps -/

section Steps

variable {ignored ok : Bool} {req : Request} {s : Sys} {d : Sched} {fd : Nat} {conn : Conn} {msg : CStr}

theorem Sys.Inv.setConn (h : s.Inv req) (hconn : s.conns[fd]? = some conn) {conn' : Conn}
    (hstand : Stand req (served s.calls fd) conn') (huntouched : conn.Untouched → conn'.Untouched) :
    (s.setConn fd conn').Inv req := ⟨h.accounted.set hstand, h.phase.set hconn huntouched⟩

/-- An answer is written, or the connection is closed, or the daemon ends. -/
private theorem inv_sendToOne (h : ∀ conn', conn'.input = conn.input →
    conn'.output = conn.output ∨ conn'.output = conn.output ++ msg → (s.setConn fd conn').Inv req) :
    (Sys.sendToOne ignored ok s fd conn msg).Inv req := by
  unfold Sys.sendToOne
  split_ifs
  · exact (h conn rfl (.inl rfl)).exit
  · exact h _ rfl (.inl rfl)
  · exact h _ rfl (.inr rfl)

/-- Nothing is read from an empty connection. -/
private theorem sockReadLoop_nil (shut : Bool) (ctx : PconfCtx) :
    sockReadLoop shut usMaxRead ctx [] = (ctx, [], if shut then .error else .nothing) := rfl

/-- Reading leaves a connection where it stands, unless it completes a line. -/
private theorem Stand.read {done : Prop} (h : Stand req done conn) {ctx : PconfCtx} {input : CStr} {r : SockRead}
    (hr : sockReadLoop conn.shut usMaxRead conn.ctx conn.input = (ctx, input, r)) :
    (r ≠ .line ∧ ∀ stage, Stand req done { conn with ctx := ctx, input := input, stage := stage }) ∨
      (r = .line ∧ ¬done ∧ ¬conn.Untouched ∧ conn.output = [] ∧ input = [] ∧
        ∃ ws rest, req.Line ws ∧ ctx.numargs = ws.length ∧ ctx.arglist = ws ++ rest) := by
  have hempty : conn.input = [] → ctx = conn.ctx ∧ input = [] ∧ r ≠ .line := by
    intro hin
    rw [hin, sockReadLoop_nil, Prod.mk.injEq, Prod.mk.injEq] at hr
    obtain ⟨rfl, rfl, rfl⟩ := hr
    exact ⟨rfl, rfl, by cases conn.shut <;> exact SockRead.noConfusion⟩
  have hanswered (hin : conn.input = []) :
      r ≠ .line ∧ ∀ stage, Stand req done { conn with ctx := ctx, input := input, stage := stage } := by
    obtain ⟨hctx, hinput, hne⟩ := hempty hin
    exact ⟨hne, fun stage => h.same hctx (hinput.trans hin.symm) rfl⟩
  cases h with
  | @unread A l hdone hl hin hout =>
    have hcases := sockReadLoop_cases hl hin conn.shut usMaxRead
    rw [hr] at hcases
    rcases hcases with ⟨hne, A', l', hl', hin'⟩ | ⟨hline, hinput, ws, rest, hws, hnum, harg⟩
    · exact .inl ⟨hne, fun stage => .unread hdone hl' hin' hout⟩
    · refine .inr ⟨hline, hdone, fun hu => ?_, hout, hinput, ws, rest, hws, hnum, harg⟩
      exact (hempty hu.2.1).2.2 hline
  | carriedOut hdone hin hout => exact .inl (hanswered hin)
  | refused hdone hin hout => exact .inl (hanswered hin)

theorem Sys.Inv.sockRead (h : s.Inv req) (hconn : s.conns[fd]? = some conn) (d : Sched) (now : Int) (ok : Bool) :
    (Sys.sockRead ignored s d fd conn now ok).Inv req := by
  have hlt : fd < s.conns.length := (List.getElem?_eq_some_iff.1 hconn).1
  unfold Sys.sockRead
  rcases hr : sockReadLoop conn.shut usMaxRead conn.ctx conn.input with ⟨ctx, input, r⟩
  have huntouched (stage : Stage) :
      conn.Untouched → Conn.Untouched { conn with ctx := ctx, input := input, stage := stage } := by
    rintro ⟨hctx, hin, hout⟩
    rw [hin, sockReadLoop_nil, Prod.mk.injEq, Prod.mk.injEq] at hr
    exact ⟨hr.1 ▸ hctx, hr.2.1.symm, hout⟩
  rcases (h.accounted.stand fd conn hconn).read hr with
    ⟨hne, hstand⟩ | ⟨rfl, hnew, htouched, hout, hinput, ws, rest, hws, hnum, harg⟩
  · cases r with
    | nothing => exact h.setConn hconn (hstand conn.stage) (huntouched conn.stage)
    | line => exact absurd rfl hne
    | error => exact h.setConn hconn (hstand .deleted) (huntouched .deleted)
  · dsimp only
    rw [hnum, harg]
    rcases sockArg_line hws now rest d with hnone | ⟨d', hsome, hdid⟩
    · rw [hnone]
      refine inv_sendToOne fun conn' hin' hout' => ?_
      refine h.setConn hconn (.refused hnew (hin'.trans hinput) ?_) fun hu => absurd hu htouched
      rwa [hout, List.nil_append] at hout'
    · rw [hsome]
      refine inv_sendToOne fun conn' hin' hout' => ⟨?_, ?_⟩
      · refine h.accounted.call hnew hlt hdid (.carriedOut trivial (hin'.trans hinput) ?_)
        rwa [hout, List.nil_append] at hout'
      · refine h.phase.mono (fun fd' c hnew' hc hu => ?_) (fun fd' hfd => served_append.2 (.inl hfd))
        have hne : fd ≠ fd' := by
          rintro rfl
          rw [hconn] at hc
          exact htouched (Option.some.inj hc ▸ hu)
        refine ⟨fun hserved => ?_, c, ?_, hu⟩
        · rcases served_append.1 hserved with hold | heq
          · exact hnew' hold
          · exact hne heq.symm
        · exact (List.getElem?_set_ne hne).trans hc

private theorem fits_tryAgain (req : Request) (conns : List Conn) (calls : List (Nat × List Sched.Happening)) (i : Nat) :
    (tryAgain i).Fits req conns calls := by
  unfold tryAgain
  split_ifs <;> trivial

theorem Sys.Inv.write (h : s.Inv req) (hreq : req.Kept) {i : Nat} (hphase : s.phase = .connected i fd)
    (hconn : s.conns[fd]? = some conn) (n : Nat) : (Sys.write ignored req.text s i fd conn n).Inv req := by
  have hfits := h.phase
  rw [hphase] at hfits
  obtain ⟨hnew, conn', hconn', hctx, hin, hout⟩ := hfits
  rw [hconn] at hconn'
  obtain rfl := Option.some.inj hconn'
  have hloaded : Loaded pconfInit.arglist .start conn.ctx := hctx ▸ atLineStart_pconfInit
  unfold Sys.write
  split_ifs
  · exact ⟨h.accounted.set ((h.accounted.stand fd conn hconn).same rfl rfl rfl), fits_tryAgain _ _ _ _⟩
  · exact ⟨h.accounted.set ((h.accounted.stand fd conn hconn).same rfl rfl rfl), trivial⟩
  · refine ⟨h.accounted.set (.unread hnew hloaded ?_ hout), trivial⟩
    show req.Arriving .start (conn.input ++ req.text)
    rw [hin]
    exact hreq.arriving_text
  · refine ⟨h.accounted.set (.unread hnew hloaded ?_ hout), fits_tryAgain _ _ _ _⟩
    show req.Arriving .start (conn.input ++ req.text.take n)
    rw [hin]
    exact arriving_take hreq.arriving_text n

/-- An answer that begins with OK says that the request was carried out. -/
private theorem Stand.answer {done : Prop} (h : Stand req done conn) (hout : conn.output ≠ [])
    (hok : conn.output.take 2 = "OK".toList) : done := by
  cases h with
  | unread hdone hl hin hnone => exact absurd hnone hout
  | carriedOut hdone hin hanswer => exact hdone
  | refused hdone hin hanswer =>
    rcases hanswer with hnone | herr
    · exact absurd hnone hout
    · rw [herr] at hok
      exact absurd hok (by decide)

private theorem fits_answered {conns : List Conn} {calls : List (Nat × List Sched.Happening)} {i : Nat} {ret : Option CStr}
    (h : (Phase.read i fd ret).Fits req conns calls) (conns' : List Conn) : (answered i fd ret).Fits req conns' calls := by
  unfold answered
  cases ret with
  | none => exact fits_tryAgain _ _ _ _
  | some buf =>
    dsimp only
    split_ifs with hshort hok
    · exact fits_tryAgain _ _ _ _
    · exact h hok
    · exact fits_tryAgain _ _ _ _

theorem Sys.Inv.step (h : s.Inv req) (hreq : req.Kept) (e : Event) : (Sys.step ignored req s e).Inv req := by
  unfold Sys.step
  cases e with
  | connect =>
    dsimp only
    split
    · rename_i i tries d hphase hdaemon
      refine ⟨h.accounted.connect, fun hserved => ?_, .init, List.getElem?_concat_length, rfl, rfl, rfl⟩
      exact absurd (h.accounted.lt hserved) (Nat.lt_irrefl _)
    · exact h
  | noDaemon lock =>
    dsimp only
    split
    · unfold Sys.noDaemon
      split
      · exact ⟨h.accounted, _, rfl⟩
      · exact ⟨h.accounted, fits_tryAgain _ _ _ _⟩
      · refine ⟨h.accounted, ?_⟩
        dsimp only
        split_ifs <;> trivial
    · exact h
  | write n =>
    dsimp only
    split
    · rename_i i fd hphase
      split
      · rename_i conn hconn
        exact h.write hreq hphase hconn n
      · exact h
    · exact h
  | readAnswer =>
    dsimp only
    split
    · rename_i i fd hphase
      split
      · rename_i conn hconn
        have hstand := h.accounted.stand fd conn hconn
        split_ifs with hnone
        · exact h
        · refine ⟨h.accounted.set ?_, fun hok => hstand.answer hnone hok⟩
          cases hstand with
          | unread hdone hl hin hout => exact .unread hdone hl hin rfl
          | carriedOut hdone hin hout => exact .carriedOut hdone hin (.inl rfl)
          | refused hdone hin hout => exact .refused hdone hin (.inl rfl)
      · exact h
    · exact h
  | readFails =>
    dsimp only
    split
    · exact ⟨h.accounted, trivial⟩
    · exact h
  | close =>
    dsimp only
    split
    · rename_i i fd ret hphase
      split
      · rename_i conn hconn
        have hfits := h.phase
        rw [hphase] at hfits
        exact ⟨h.accounted.set ((h.accounted.stand fd conn hconn).same rfl rfl rfl), fits_answered hfits _⟩
      · exact h
    · exact h
  | accept fd =>
    dsimp only
    split
    · rename_i d conn hdaemon hconn
      split_ifs
      · exact h.setConn hconn ((h.accounted.stand fd conn hconn).same rfl rfl rfl) id
      · exact h
    · exact h
  | sockRead fd now ok =>
    dsimp only
    split
    · rename_i d conn hdaemon hconn
      split_ifs
      · exact h.sockRead hconn d now ok
      · exact h
    · exact h
  | checktimers now =>
    dsimp only
    split
    · split_ifs
      · exact ⟨h.accounted, h.phase⟩
      · exact h.exit
    · exact h
  | otherStart now name ofsstr => exact ⟨h.accounted, h.phase⟩
  | otherCancel now name cname => exact ⟨h.accounted, h.phase⟩
  | otherDaemon =>
    dsimp only
    split
    · exact h
    · exact ⟨h.accounted, h.phase⟩

theorem Sys.inv_init (req : Request) (daemon : Option Sched) : (Sys.init daemon).Inv req where
  accounted := ⟨List.nodup_nil, fun call hcall => absurd hcall List.not_mem_nil,
    fun fd conn hconn => by simp [Sys.init] at hconn⟩
  phase := trivial

theorem Sys.Inv.run (h : s.Inv req) (hreq : req.Kept) (es : List Event) : (Sys.run ignored req s es).Inv req := by
  induction es generalizing s with
  | nil => exact h
  | cons e es ih => exact ih (h.step hreq e)

end Steps

/-! ### The number of times -/

/-- The daemon carried out the request on no connection but this one. -/
def Sys.Only (s : Sys) (fd : Nat) : Prop := ∀ call ∈ s.calls, call.1 = fd

instance (s : Sys) (fd : Nat) : Decidable (s.Only fd) := inferInstanceAs (Decidable (∀ _ ∈ _, _))

private theorem countP_calls {calls : List (Nat × List Sched.Happening)} {p : Sched.Happening → Bool} {n : Nat}
    (h : ∀ call ∈ calls, call.2.countP p = n) : (calls.flatMap Prod.snd).countP p = calls.length * n := by
  induction calls with
  | nil => simp
  | cons call calls ih =>
    have hrest := ih fun c hc => h c (List.mem_cons_of_mem call hc)
    rw [List.flatMap_cons, List.countP_append, h call List.mem_cons_self, hrest, List.length_cons, Nat.succ_mul,
      Nat.add_comm]

private theorem length_eq_one_iff {fds : List Nat} {fd : Nat} (h : fds.Nodup) (hfd : fd ∈ fds) :
    fds.length = 1 ↔ ∀ a ∈ fds, a = fd := by
  constructor
  · intro hone a ha
    obtain ⟨b, rfl⟩ := List.length_eq_one_iff.1 hone
    rw [List.mem_singleton.1 ha, List.mem_singleton.1 hfd]
  · intro hall
    cases fds with
    | nil => cases hfd
    | cons a rest =>
      cases rest with
      | nil => rfl
      | cons b rest =>
        have ha := hall a (by simp)
        have hb := hall b (by simp)
        exact absurd (ha.trans hb.symm) (by simp at h; tauto)

private theorem only_iff {s : Sys} {fd : Nat} (h : Accounted req s.conns s.calls) (hfd : served s.calls fd) :
    1 ≤ s.calls.length ∧ (s.calls.length = 1 ↔ s.Only fd) := by
  have hlen : (s.calls.map Prod.fst).length = s.calls.length := List.length_map _
  have hone := length_eq_one_iff h.nodup hfd
  rw [hlen] at hone
  refine ⟨?_, hone.trans ⟨fun hall call hcall => hall _ (List.mem_map_of_mem hcall), fun honly a ha => ?_⟩⟩
  · have hpos := List.length_pos_of_mem hfd
    omega
  · obtain ⟨call, hcall, rfl⟩ := List.mem_map.1 ha
    exact honly call hcall

private theorem timersAdded_eq {s : Sys} {name length : CStr} (h : Accounted (.start name length) s.conns s.calls) :
    s.timersAdded name = if atoi length < 0 then 0 else s.calls.length := by
  have hcall (call : Nat × List Sched.Happening) (hcall : call ∈ s.calls) := (h.did call hcall).2
  unfold Sys.timersAdded Sys.did
  split_ifs with hlength
  · rw [@countP_calls s.calls _ 0, Nat.mul_zero]
    intro call hmem
    have hdid := hcall call hmem
    simp only [Request.Did, if_pos hlength] at hdid
    rw [hdid, List.countP_nil]
  · rw [@countP_calls s.calls _ 1, Nat.mul_one]
    intro call hmem
    have hdid := hcall call hmem
    simp only [Request.Did, if_neg hlength] at hdid
    obtain ⟨tmp, hname, heq⟩ := hdid
    rw [heq]
    simp [hname]

private theorem cancelCalls_eq {s : Sys} {name : CStr} {cmd : Option CStr}
    (h : Accounted (.cancel name cmd) s.conns s.calls) : s.cancelCalls name = s.calls.length := by
  unfold Sys.cancelCalls Sys.did
  rw [@countP_calls s.calls _ 1, Nat.mul_one]
  intro call hmem
  obtain ⟨now, removed, heq⟩ := (h.did call hmem).2
  rw [heq]
  simp

/-- A request that returns was carried out at most once on each connection.  A START has added at least one timer, or
none if its length is negative; a CANCEL has made at least one call, unless it returned because there was no daemon and
no command to run.  It was exactly once when the daemon carried out the request on no connection on which the client had
given up. -/
theorem sendcmd_carried_out (ignored : Bool) {req : Request} (hreq : req.Kept) (daemon : Option Sched) (es : List Event)
    {last : Option Nat} (hreturned : (Sys.run ignored req (.init daemon) es).phase = .returned last) :
    ((Sys.run ignored req (.init daemon) es).calls.map Prod.fst).Nodup ∧
    (∀ name length, req = .start name length →
      (atoi length < 0 → (Sys.run ignored req (.init daemon) es).timersAdded name = 0) ∧
      (¬atoi length < 0 → ∃ fd, last = some fd ∧ 1 ≤ (Sys.run ignored req (.init daemon) es).timersAdded name ∧
        ((Sys.run ignored req (.init daemon) es).timersAdded name = 1 ↔ (Sys.run ignored req (.init daemon) es).Only fd))) ∧
    (∀ name cmd, req = .cancel name cmd →
      (last = none → cmd = none) ∧
      ∀ fd, last = some fd → 1 ≤ (Sys.run ignored req (.init daemon) es).cancelCalls name ∧
        ((Sys.run ignored req (.init daemon) es).cancelCalls name = 1 ↔ (Sys.run ignored req (.init daemon) es).Only fd)) := by
  have hinv : (Sys.run ignored req (.init daemon) es).Inv req := (Sys.inv_init req daemon).run hreq es
  obtain ⟨hacc, hfits⟩ := hinv
  rw [hreturned] at hfits
  generalize Sys.run ignored req (.init daemon) es = s at hacc hfits ⊢
  refine ⟨hacc.nodup, ?_, ?_⟩
  · rintro name length rfl
    rw [timersAdded_eq hacc]
    refine ⟨fun hlength => by rw [if_pos hlength], fun hlength => ?_⟩
    rw [if_neg hlength]
    cases last with
    | none =>
      obtain ⟨name', hcancel⟩ := hfits
      cases hcancel
    | some fd => exact ⟨fd, rfl, only_iff hacc hfits⟩
  · rintro name cmd rfl
    rw [cancelCalls_eq hacc]
    refine ⟨?_, ?_⟩
    · rintro rfl
      obtain ⟨name', hcancel⟩ := hfits
      exact (Request.cancel.inj hcancel).2
    · rintro fd rfl
      exact only_iff hacc hfits

/-- The client starts the daemon and is answered at the first try. -/
def prompt : List Event :=
  [.noDaemon true, .connect, .write 100, .accept 0, .sockRead 0 7 true, .readAnswer, .close]

theorem sendcmd_prompt : (Sys.run false (.start "a".toList "5".toList) (.init none) prompt).phase = .returned (some 0) ∧
    (Sys.run false (.start "a".toList "5".toList) (.init none) prompt).timersAdded "a".toList = 1 := by
  have hkept : Request.Kept (.start "a".toList "5".toList) := ⟨by decide, by decide⟩
  have hreturned : (Sys.run false (.start "a".toList "5".toList) (.init none) prompt).phase = .returned (some 0) := by
    decide +kernel
  refine ⟨hreturned, ?_⟩
  obtain ⟨fd, hfd, -, honce⟩ := ((sendcmd_carried_out false hkept none prompt hreturned).2.1 _ _ rfl).2 (by decide)
  obtain rfl := Option.some.inj hfd
  exact honce.2 (by decide +kernel)

/-- The alarm ends the first `read` while the daemon is busy, and the daemon reads both connections afterwards. -/
def delayed : List Event :=
  [.noDaemon true, .connect, .write 100, .accept 0, .readFails, .sockRead 0 7 true, .close, .connect, .write 100, .accept 1,
    .sockRead 1 8 true, .readAnswer, .close]

/-- A START that returned after two timers of its name were added, which are both in the queue; and a CANCEL that
returned without a call. -/
theorem sendcmd_delayed :
    (Sys.run false (.start "a".toList "5".toList) (.init none) delayed).phase = .returned (some 1) ∧
      (Sys.run false (.start "a".toList "5".toList) (.init none) delayed).timersAdded "a".toList = 2 ∧
      (Sys.run false (.start "a".toList "5".toList) (.init none) delayed).daemon.map (fun d => d.thead.map Ttype.name) =
        some ["a".toList, "a".toList] ∧
      (Sys.run false (.cancel "a".toList none) (.init none) [.noDaemon true]).phase = .returned none ∧
      (Sys.run false (.cancel "a".toList none) (.init none) [.noDaemon true]).cancelCalls "a".toList = 0 := by
  decide +kernel

end Nut.Upssched
