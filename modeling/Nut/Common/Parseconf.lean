import Nut.Common.CString
import Nut.Lib.ChunkReader

/-!
# `parseconf.c`: the parser and the encoder

The state machine that splits a line into words, one character at a time (`pconfChar`), and `pconfEncode`, which
escapes the characters the machine treats specially inside quotes.

The context keeps in `arglist` every slot ever allocated, so the slots from `numargs` on still hold words of earlier
lines; `wordbuf` is the text from `wordbuf` to `wordptr`.  No caller changes `arg_limit` and `wordlen_limit`, so they
are the defaults.
-/

namespace Nut

open ChunkReader

def pconfDefaultArgLimit : Nat := 32
def pconfDefaultWordlenLimit : Nat := 512
def pconfErrLen : Nat := 256

inductive PState where
  | findwordstart
  | findeol
  | quotecollect
  | qcLiteral
  | collect
  | collectliteral
  | endofline
  | parseerr
  deriving DecidableEq, Repr

structure PconfCtx where
  state : PState
  arglist : List CStr
  numargs : Nat
  wordbuf : CStr
  linenum : Nat
  error : Bool
  errmsg : CStr
  deriving DecidableEq, Repr

def pconfInit : PconfCtx where
  state := .findwordstart
  arglist := []
  numargs := 0
  wordbuf := []
  linenum := 0
  error := false
  errmsg := []

def addArgWord (ctx : PconfCtx) : PconfCtx :=
  { ctx with
    numargs := ctx.numargs + 1
    arglist := if ctx.numargs < ctx.arglist.length then ctx.arglist.set ctx.numargs ctx.wordbuf
      else ctx.arglist ++ [ctx.wordbuf] }

def addchar (ctx : PconfCtx) (ch : Char) : PconfCtx :=
  if ch.toNat < 0x20 || 0x7f < ch.toNat then ctx
  else if pconfDefaultWordlenLimit ≤ ctx.wordbuf.length then ctx
  else { ctx with wordbuf := ctx.wordbuf ++ [ch] }

def endofword (ctx : PconfCtx) : PconfCtx :=
  if pconfDefaultArgLimit ≤ ctx.numargs then { ctx with wordbuf := [] }
  else { addArgWord ctx with wordbuf := [] }

def findwordstart (ctx : PconfCtx) (ch : Char) : PconfCtx × PState :=
  if ch = '\n' then (ctx, .endofline)
  else if ch = '#' then (ctx, .findeol)
  else if isspace ch then (ctx, .findwordstart)
  else if ch = '\\' then (ctx, .collectliteral)
  else if ch = '"' then (ctx, .quotecollect)
  else if ch = '=' then (endofword (addchar ctx ch), .findwordstart)
  else (addchar ctx ch, .collect)

def findeol (ctx : PconfCtx) (ch : Char) : PconfCtx × PState :=
  if ch = '\n' then (ctx, .endofline) else (ctx, .findeol)

def pconfSeterr (ctx : PconfCtx) (errmsg : CStr) : PconfCtx :=
  { ctx with errmsg := snprintf pconfErrLen errmsg, error := true }

def errUnbalanced : CStr := "Unbalanced word due to unescaped # in quotes".toList

def quotecollect (ctx : PconfCtx) (ch : Char) : PconfCtx × PState :=
  if ch = '#' then (endofword (pconfSeterr ctx errUnbalanced), .parseerr)
  else if ch = '"' then (endofword ctx, .findwordstart)
  else if ch = '\\' then (ctx, .qcLiteral)
  else (addchar ctx ch, .quotecollect)

def qcLiteral (ctx : PconfCtx) (ch : Char) : PconfCtx × PState :=
  if ch = '\n' then (ctx, .quotecollect) else (addchar ctx ch, .quotecollect)

def collect (ctx : PconfCtx) (ch : Char) : PconfCtx × PState :=
  if ch = '#' then (endofword ctx, .findeol)
  else if ch = '\n' then (endofword ctx, .endofline)
  else if isspace ch then (endofword ctx, .findwordstart)
  else if ch = '=' then ((findwordstart (endofword ctx) ch).1, .findwordstart)
  else if ch = '\\' then (ctx, .collectliteral)
  else (addchar ctx ch, .collect)

def collectliteral (ctx : PconfCtx) (ch : Char) : PconfCtx × PState :=
  if ch = '\n' then (ctx, .collect) else (addchar ctx ch, .collect)

def parseChar (ctx : PconfCtx) (ch : Char) : PconfCtx :=
  match ctx.state with
  | .findwordstart => { (findwordstart ctx ch).1 with state := (findwordstart ctx ch).2 }
  | .findeol => { (findeol ctx ch).1 with state := (findeol ctx ch).2 }
  | .quotecollect => { (quotecollect ctx ch).1 with state := (quotecollect ctx ch).2 }
  | .qcLiteral => { (qcLiteral ctx ch).1 with state := (qcLiteral ctx ch).2 }
  | .collect => { (collect ctx ch).1 with state := (collect ctx ch).2 }
  | .collectliteral => { (collectliteral ctx ch).1 with state := (collectliteral ctx ch).2 }
  | .endofline => ctx
  | .parseerr => ctx

/-- The results 0, 1 and -1 of `pconf_char`. -/
inductive CharResult where
  | more
  | line
  | error
  deriving DecidableEq, Repr

def pconfChar (ctx : PconfCtx) (ch : Char) : PconfCtx × CharResult :=
  let ctx := if ctx.state = .endofline ∨ ctx.state = .parseerr
    then { ctx with numargs := 0, state := .findwordstart } else ctx
  let ctx := parseChar ctx ch
  if ctx.state = .endofline then (ctx, .line)
  else if ctx.state = .parseerr then (ctx, .error)
  else (ctx, .more)

/-! ### The readers of a socket

`client_readline`, `sstate_readline` and `sock_read` have the same loop over the bytes of one `read`; they differ in
what they do with a completed line. -/

/-- The loop over the bytes of one `read`: `handler` gets `numargs` and `arglist` of each line, and a parse error
leaves the loop. -/
def readLoop {S : Type*} (handler : S → Nat → List CStr → S) (ctx : PconfCtx) (s : S) : CStr → PconfCtx × S
  | [] => (ctx, s)
  | ch :: buf =>
    match pconfChar ctx ch with
    | (ctx, .line) => readLoop handler ctx (handler s ctx.numargs ctx.arglist) buf
    | (ctx, .more) => readLoop handler ctx s buf
    | (ctx, .error) => (ctx, s)

/-- `pconf_char` as the step of a reader, whose items are the arguments it hands over. -/
def pconfStep (ctx : PconfCtx) (ch : Char) : PconfCtx × Outcome (Nat × List CStr) :=
  match pconfChar ctx ch with
  | (ctx, .line) => (ctx, .item (ctx.numargs, ctx.arglist))
  | (ctx, .more) => (ctx, .more)
  | (ctx, .error) => (ctx, .reject)

/-- The loop hands the lines of the chunk to the handler, in order. -/
theorem readLoop_eq {S : Type*} (handler : S → Nat → List CStr → S) (ctx : PconfCtx) (s : S) (buf : CStr) :
    readLoop handler ctx s buf = ((readChunk pconfStep ctx buf).1,
      (readChunk pconfStep ctx buf).2.foldl (fun s l => handler s l.1 l.2) s) := by
  induction buf generalizing ctx s with
  | nil => rfl
  | cons ch buf ih =>
    rcases h : pconfChar ctx ch with ⟨ctx', _ | _ | _⟩
    · simp only [readLoop, readChunk, pconfStep, h, ih]
    · simp only [readLoop, readChunk, pconfStep, h, ih, List.foldl_cons]
    · simp only [readLoop, readChunk, pconfStep, h, List.foldl_nil]

/-! ### The encoder -/

/-- The characters of `PCONF_ESCAPE`. -/
def pconfEscape (c : Char) : Bool := c = '#' || c = '\\' || c = '"'

/-- The loop of `pconf_encode` from the text `dest` on; for a destination of one byte `maxlen - 1` wraps around. -/
def pconfEncodeLoop (maxlen : Nat) (dest : CStr) : CStr → CStr
  | [] => dest
  | c :: src =>
    if pconfEscape c then
      if maxlen ≠ 0 ∧ maxlen - 1 ≤ dest.length then dest
      else if maxlen ≤ (dest ++ ['\\']).length then dest ++ ['\\']
      else pconfEncodeLoop maxlen (dest ++ ['\\', c]) src
    else if maxlen ≤ dest.length then dest
    else pconfEncodeLoop maxlen (dest ++ [c]) src

/-- The text `pconf_encode` leaves in a destination of `destsize ≥ 1` bytes. -/
def pconfEncode (src : CStr) (destsize : Nat) : CStr := pconfEncodeLoop (destsize - 1) [] src

example : pconfEncode "a \"b\"".toList 7 = "a \\\"b".toList := by decide

end Nut
