import Mathlib.Data.List.Infix
import Nut.Common.Lines

/-!
# The bounds of the tokenizer

What any stream of bytes, fed in any way to a context that is used again and again, can do to the words and to the
buffer in which they are collected.  A call of the parser comes down to a sequence of operations on these (`WordOp`):
start over, `addchar` and `endofword`.

* The buffer with its write pointer, reallocated while the pointer is in use, holds the word that is collected, and every
  write stays inside (`WordBuffer.holds_run`).
* The arguments are at most 32 words of at most 512 characters, from space to `~` as long as no byte 0x7f is stored in
  a word, which `addchar` lets through (`tokenizer_bounds`).
-/

namespace Nut

inductive WordOp where
  | restart
  | add (ch : Char)
  | finish
  deriving DecidableEq

/-- The fields of the context that hold words. -/
structure Words where
  arglist : List CStr
  numargs : Nat
  wordbuf : CStr

def PconfCtx.words (ctx : PconfCtx) : Words := { arglist := ctx.arglist, numargs := ctx.numargs, wordbuf := ctx.wordbuf }

/-- The words after `addchar`, `endofword` or the start of a new line. -/
def Words.apply (ws : Words) : WordOp → Words
  | .restart => { ws with numargs := 0 }
  | .add ch =>
    if ch.toNat < 0x20 || 0x7f < ch.toNat then ws
    else if pconfDefaultWordlenLimit ≤ ws.wordbuf.length then ws
    else { ws with wordbuf := ws.wordbuf ++ [ch] }
  | .finish =>
    if pconfDefaultArgLimit ≤ ws.numargs then { ws with wordbuf := [] }
    else
      { arglist := if ws.numargs < ws.arglist.length then ws.arglist.set ws.numargs ws.wordbuf
          else ws.arglist ++ [ws.wordbuf]
        numargs := ws.numargs + 1
        wordbuf := [] }

/-- The calls that the functions of the states make of `addchar` and `endofword`. -/
def wordOps (state : PState) (ch : Char) : List WordOp :=
  match state with
  | .findwordstart =>
    if ch = '\n' ∨ ch = '#' ∨ isspace ch ∨ ch = '\\' ∨ ch = '"' then []
    else if ch = '=' then [.add ch, .finish]
    else [.add ch]
  | .findeol => []
  | .quotecollect => if ch = '#' ∨ ch = '"' then [.finish] else if ch = '\\' then [] else [.add ch]
  | .qcLiteral => if ch = '\n' then [] else [.add ch]
  | .collect =>
    if ch = '#' ∨ ch = '\n' ∨ isspace ch then [.finish]
    else if ch = '=' then [.finish, .add ch, .finish]
    else if ch = '\\' then []
    else [.add ch]
  | .collectliteral => if ch = '\n' then [] else [.add ch]
  | .endofline => []
  | .parseerr => []

section Words

variable {ctx : PconfCtx}

theorem words_addchar (ctx : PconfCtx) (ch : Char) : (addchar ctx ch).words = ctx.words.apply (.add ch) := by
  simp only [Words.apply]
  unfold addchar
  by_cases hbyte : (ch.toNat < 0x20 || 0x7f < ch.toNat) = true
  · rw [if_pos hbyte, if_pos hbyte]
  · rw [if_neg hbyte, if_neg hbyte]
    by_cases hlimit : pconfDefaultWordlenLimit ≤ ctx.wordbuf.length
    · rw [if_pos hlimit]
      exact (if_pos hlimit).symm
    · rw [if_neg hlimit]
      exact (if_neg hlimit).symm

theorem words_endofword (ctx : PconfCtx) : (endofword ctx).words = ctx.words.apply .finish := by
  simp only [Words.apply]
  unfold endofword
  by_cases hfull : pconfDefaultArgLimit ≤ ctx.numargs
  · rw [if_pos hfull]
    exact (if_pos hfull).symm
  · rw [if_neg hfull]
    exact (if_neg hfull).symm

theorem words_findwordstart (ctx : PconfCtx) (ch : Char) :
    (findwordstart ctx ch).1.words = (wordOps .findwordstart ch).foldl Words.apply ctx.words := by
  unfold findwordstart wordOps
  by_cases h1 : ch = '\n'
  · simp [h1]
  by_cases h2 : ch = '#'
  · simp [h2]
  by_cases h3 : isspace ch
  · simp [h1, h2, h3]
  by_cases h4 : ch = '\\'
  · simp [h4]
  by_cases h5 : ch = '"'
  · simp [h5]
  by_cases h6 : ch = '='
  · simp [h6, isspace_equals, words_endofword, words_addchar]
  · simp [h1, h2, h3, h4, h5, h6, words_addchar]

/-- One character, as operations on the words. -/
theorem words_parseChar (ctx : PconfCtx) (ch : Char) :
    (parseChar ctx ch).words = (wordOps ctx.state ch).foldl Words.apply ctx.words := by
  have hstate : ∀ (c : PconfCtx) (s : PState), ({ c with state := s } : PconfCtx).words = c.words := fun _ _ => rfl
  rcases hs : ctx.state
  case findwordstart => simp only [parseChar, hs, hstate, words_findwordstart]
  case findeol =>
    simp only [parseChar, hs, findeol, hstate, wordOps]
    split_ifs <;> rfl
  case quotecollect =>
    have herr : (endofword (pconfSeterr ctx errUnbalanced)).words = ctx.words.apply .finish := words_endofword _
    simp only [parseChar, hs, quotecollect, hstate, wordOps]
    split_ifs <;> simp_all [words_endofword, words_addchar]
  case qcLiteral =>
    simp only [parseChar, hs, qcLiteral, hstate, wordOps]
    split_ifs <;> simp [words_addchar]
  case collect =>
    have heq : (findwordstart (endofword ctx) '=').1.words =
        [WordOp.finish, .add '=', .finish].foldl Words.apply ctx.words := by
      rw [words_findwordstart, words_endofword]
      rfl
    simp only [parseChar, hs, collect, hstate, wordOps]
    split_ifs <;> simp_all [words_endofword, words_addchar]
  case collectliteral =>
    simp only [parseChar, hs, collectliteral, hstate, wordOps]
    split_ifs <;> simp [words_addchar]
  case endofline => simp [parseChar, hs, wordOps]
  case parseerr => simp [parseChar, hs, wordOps]

end Words

/-! ### Runs of the parser -/

/-- A call of the parser; the file is what `pconf_file_next` finds in it from where it stands. -/
inductive ParserCall where
  | char (ch : Char)
  | line (line : CStr)
  | file (f : CStr)
  | parseError

/-- The operations of the loop over the characters of a line. -/
def loopOps (ctx : PconfCtx) : CStr → List WordOp
  | [] => []
  | ch :: rest =>
    wordOps ctx.state ch ++
      if (parseChar ctx ch).state = .parseerr ∨ (parseChar ctx ch).state = .endofline then []
      else loopOps (parseChar ctx ch) rest

namespace ParserCall

def run (ctx : PconfCtx) : ParserCall → PconfCtx
  | char ch => (pconfChar ctx ch).1
  | line s => pconfLine ctx s
  | file f => (pconfFileNext ctx f).1
  | parseError => { ctx with error := false }

/-- The operations of the call on the words. -/
def ops (ctx : PconfCtx) : ParserCall → List WordOp
  | char ch =>
    if ctx.state = .endofline ∨ ctx.state = .parseerr then .restart :: wordOps .findwordstart ch
    else wordOps ctx.state ch
  | line s =>
    .restart :: loopOps (newLine ctx) s ++
      match parseLoop (newLine ctx) s with
      | (_, some _) => []
      | (ctx, none) => if ctx.wordbuf ≠ [] then [.finish] else []
  | file f =>
    .restart :: loopOps (newLine ctx) f ++
      match parseLoop (newLine ctx) f with
      | (_, some _) => []
      | (ctx, none) => if ctx.numargs ≠ 0 ∧ ctx.wordbuf ≠ [] then [.finish] else []
  | parseError => []

end ParserCall

/-- The context after several calls. -/
def parserRun (calls : List ParserCall) : PconfCtx := calls.foldl ParserCall.run pconfInit

/-- The operations of several calls. -/
def runOps : PconfCtx → List ParserCall → List WordOp
  | _, [] => []
  | ctx, call :: calls => call.ops ctx ++ runOps (call.run ctx) calls

section Runs

theorem words_parseLoop (ctx : PconfCtx) (s : CStr) :
    (parseLoop ctx s).1.words = (loopOps ctx s).foldl Words.apply ctx.words := by
  induction s generalizing ctx with
  | nil => rfl
  | cons ch s ih =>
    rw [parseLoop, loopOps, List.foldl_append, ← words_parseChar]
    by_cases h1 : (parseChar ctx ch).state = .parseerr
    · rw [if_pos h1, if_pos (.inl h1)]
      rfl
    · by_cases h2 : (parseChar ctx ch).state = .endofline
      · rw [if_neg h1, if_pos h2, if_pos (.inr h2)]
        rfl
      · rw [if_neg h1, if_neg h2, if_neg (by simp [h1, h2]), ih]

theorem words_newLine (ctx : PconfCtx) : (newLine ctx).words = ctx.words.apply .restart := rfl

theorem words_lingering (ctx : PconfCtx) :
    (lingering ctx).words = (if ctx.wordbuf ≠ [] then [.finish] else []).foldl Words.apply ctx.words := by
  unfold lingering
  split_ifs
  · exact words_endofword ctx
  · rfl

theorem words_call (ctx : PconfCtx) (call : ParserCall) :
    (call.run ctx).words = (call.ops ctx).foldl Words.apply ctx.words := by
  cases call with
  | char ch =>
    have hres : ∀ c : PconfCtx, (if (parseChar c ch).state = .endofline then (parseChar c ch, CharResult.line)
        else if (parseChar c ch).state = .parseerr then (parseChar c ch, .error) else (parseChar c ch, .more)).1 =
        parseChar c ch := by
      intro c
      split_ifs <;> rfl
    show (pconfChar ctx ch).1.words = _
    unfold pconfChar ParserCall.ops
    dsimp only
    rw [hres]
    by_cases hend : ctx.state = .endofline ∨ ctx.state = .parseerr
    · rw [if_pos hend, if_pos hend, words_parseChar]
      rfl
    · rw [if_neg hend, if_neg hend, words_parseChar]
  | line s =>
    show (pconfLine ctx s).words = _
    have hloop := words_parseLoop (newLine ctx) s
    unfold pconfLine ParserCall.ops
    rcases hp : parseLoop (newLine ctx) s with ⟨c, _ | rest⟩
    · rw [hp] at hloop
      simp only [hp] at hloop ⊢
      rw [words_lingering, hloop, List.cons_append, List.foldl_cons, List.foldl_append, words_newLine]
    · rw [hp] at hloop
      simp only [hp] at hloop ⊢
      rw [hloop, List.append_nil, List.foldl_cons, words_newLine]
  | file f =>
    show (pconfFileNext ctx f).1.words = _
    have hloop := words_parseLoop (newLine ctx) f
    unfold pconfFileNext ParserCall.ops
    rcases hp : parseLoop (newLine ctx) f with ⟨c, _ | rest⟩
    · rw [hp] at hloop
      simp only [hp] at hloop ⊢
      rw [List.cons_append, List.foldl_cons, List.foldl_append, ← words_newLine, ← hloop]
      by_cases hn : c.numargs ≠ 0
      · rw [if_pos hn, words_lingering]
        simp only [hn, ne_eq, not_false_eq_true, true_and]
      · rw [if_neg hn, if_neg fun h => hn h.1]
        rfl
    · rw [hp] at hloop
      simp only [hp] at hloop ⊢
      rw [hloop, List.append_nil, List.foldl_cons, words_newLine]
  | parseError => rfl

theorem words_calls (ctx : PconfCtx) (calls : List ParserCall) :
    (calls.foldl ParserCall.run ctx).words = (runOps ctx calls).foldl Words.apply ctx.words := by
  induction calls generalizing ctx with
  | nil => rfl
  | cons call calls ih =>
    rw [List.foldl_cons, ih, runOps, List.foldl_append, words_call]

end Runs

/-! ### The buffer of the word -/

/-- The buffer `wordbuf` of `wordbufsize` bytes, and where `wordptr` points in it. -/
structure WordBuffer where
  mem : List Char
  ptr : Nat

namespace WordBuffer

/-- `calloc` of 16 bytes. -/
def init : WordBuffer := { mem := List.replicate 16 '\x00', ptr := 0 }

/-- `strlen` of the buffer. -/
def wbuflen (b : WordBuffer) : Nat := (b.mem.takeWhile fun c => c ≠ '\x00').length

/-- A write outside the buffer has no result. -/
def write (b : WordBuffer) (i : Nat) (c : Char) : Option WordBuffer :=
  if i < b.mem.length then some { b with mem := b.mem.set i c } else none

/-- Room for eight more bytes, whose contents are those of `fresh`; `wordbuf` may have moved, so `wordptr` is set anew. -/
def grow (fresh : Fin 8 → Char) (b : WordBuffer) : WordBuffer :=
  if b.mem.length - 1 ≤ b.wbuflen then { mem := b.mem ++ List.ofFn fresh, ptr := b.wbuflen } else b

def apply (fresh : Fin 8 → Char) (b : WordBuffer) : WordOp → Option WordBuffer
  | .restart => some b
  | .add ch =>
    if ch.toNat < 0x20 || 0x7f < ch.toNat then some b
    else if pconfDefaultWordlenLimit ≤ b.wbuflen then some b
    else
      let b := b.grow fresh
      (b.write b.ptr ch).bind fun b => { b with ptr := b.ptr + 1 }.write (b.ptr + 1) '\x00'
  | .finish => { b with ptr := 0 }.write 0 '\x00'

/-- The buffer holds the word, and `wordptr` points to its end. -/
structure Holds (b : WordBuffer) (w : CStr) : Prop where
  mem : ∃ rest, b.mem = w ++ '\x00' :: rest
  ptr : b.ptr = w.length
  text : ∀ c ∈ w, c ≠ '\x00'

variable {b : WordBuffer} {w : CStr}

theorem Holds.ptr_lt (h : b.Holds w) : b.ptr < b.mem.length := by
  obtain ⟨rest, hmem⟩ := h.mem
  rw [hmem, h.ptr]
  simp

theorem Holds.wbuflen (h : b.Holds w) : b.wbuflen = w.length := by
  obtain ⟨rest, hmem⟩ := h.mem
  rw [WordBuffer.wbuflen, hmem, List.takeWhile_append_of_pos (by simpa using h.text), List.takeWhile_cons_of_neg (by simp)]
  simp

/-- After growing, two more bytes fit at the pointer. -/
theorem Holds.grow (h : b.Holds w) (fresh : Fin 8 → Char) :
    ∃ c rest, (b.grow fresh).mem = w ++ '\x00' :: c :: rest ∧ (b.grow fresh).ptr = w.length := by
  obtain ⟨rest, hmem⟩ := h.mem
  unfold WordBuffer.grow
  rw [h.wbuflen]
  split_ifs with hfull
  · refine ⟨(rest ++ List.ofFn fresh).head (by simp), (rest ++ List.ofFn fresh).tail, ?_, rfl⟩
    simp [hmem]
  · cases rest with
    | nil =>
      rw [hmem] at hfull
      simp at hfull
    | cons c rest => exact ⟨c, rest, hmem, h.ptr⟩

/-- One operation stays in the buffer, which then holds the new word. -/
theorem Holds.apply {ws : Words} (h : b.Holds ws.wordbuf) (fresh : Fin 8 → Char) (op : WordOp) :
    ∃ b', b.apply fresh op = some b' ∧ b'.Holds (ws.apply op).wordbuf := by
  cases op with
  | restart => exact ⟨b, rfl, h⟩
  | add ch =>
    unfold WordBuffer.apply Words.apply
    rw [h.wbuflen]
    by_cases hbyte : (ch.toNat < 0x20 || 0x7f < ch.toNat) = true
    · simp only [hbyte, if_true]
      exact ⟨b, rfl, h⟩
    · by_cases hlimit : pconfDefaultWordlenLimit ≤ ws.wordbuf.length
      · simp only [hbyte, hlimit, if_true, Bool.false_eq_true, if_false]
        exact ⟨b, rfl, h⟩
      · simp only [hbyte, hlimit, Bool.false_eq_true, if_false]
        obtain ⟨c, rest, hmem, hptr⟩ := h.grow fresh
        have hch : ch ≠ '\x00' := by
          rintro rfl
          simp at hbyte
        refine ⟨{ mem := ws.wordbuf ++ [ch] ++ '\x00' :: rest, ptr := ws.wordbuf.length + 1 }, ?_, ⟨rest, rfl⟩, by simp, ?_⟩
        · simp [WordBuffer.write, hmem, hptr]
        · intro d hd
          rcases List.mem_append.1 hd with hd | hd
          · exact h.text d hd
          · rwa [List.mem_singleton.1 hd]
  | finish =>
    obtain ⟨rest, hmem⟩ := h.mem
    have hword : (ws.apply .finish).wordbuf = [] := by
      unfold Words.apply
      split_ifs <;> rfl
    have hlen : 0 < b.mem.length := by rw [hmem]; simp
    refine ⟨{ mem := b.mem.set 0 '\x00', ptr := 0 }, if_pos hlen, ?_⟩
    rw [hword]
    refine ⟨⟨b.mem.tail, ?_⟩, rfl, by simp⟩
    obtain ⟨c, mem, hcons⟩ := List.exists_cons_of_length_pos hlen
    simp [hcons]

/-- Through every sequence of operations the buffer holds the word that is collected, and no write leaves it. -/
theorem holds_run (fresh : Fin 8 → Char) (ops : List WordOp) :
    ∃ b, ops.foldlM (WordBuffer.apply fresh) init = some b ∧ b.Holds (ops.foldl Words.apply pconfInit.words).wordbuf := by
  induction ops using List.reverseRecOn with
  | nil => exact ⟨init, rfl, ⟨List.replicate 15 '\x00', rfl⟩, rfl, by simp [PconfCtx.words, pconfInit]⟩
  | append_singleton ops op ih =>
    obtain ⟨b, hrun, hholds⟩ := ih
    obtain ⟨b', hop, hholds'⟩ := hholds.apply fresh op
    refine ⟨b', ?_, ?_⟩
    · rw [List.foldlM_append, hrun]
      simpa using hop
    · rwa [List.foldl_append]

end WordBuffer

/-! ### The bounds -/

/-- The byte 0x7f is stored in a word. -/
def StoresDel (ws : Words) : WordOp → Prop
  | .add ch => ch.toNat = 0x7f ∧ ws.wordbuf.length < pconfDefaultWordlenLimit
  | _ => False

instance (ws : Words) (op : WordOp) : Decidable (StoresDel ws op) := by
  cases op with
  | add ch => exact inferInstanceAs (Decidable (_ ∧ _))
  | restart => exact inferInstanceAs (Decidable False)
  | finish => exact inferInstanceAs (Decidable False)

/-- None of the operations stores the byte 0x7f. -/
def AvoidsDel : Words → List WordOp → Prop
  | _, [] => True
  | ws, op :: ops => ¬StoresDel ws op ∧ AvoidsDel (ws.apply op) ops

instance decidableAvoidsDel : (ws : Words) → (ops : List WordOp) → Decidable (AvoidsDel ws ops)
  | _, [] => inferInstanceAs (Decidable True)
  | ws, op :: ops =>
    have := decidableAvoidsDel (ws.apply op) ops
    inferInstanceAs (Decidable (¬StoresDel ws op ∧ AvoidsDel (ws.apply op) ops))

/-- A word as it is promised: at most 512 characters from space to `~`. -/
def GoodWord (w : CStr) : Prop := w.length ≤ pconfDefaultWordlenLimit ∧ ∀ c ∈ w, 0x20 ≤ c.toNat ∧ c.toNat ≤ 0x7e

/-- The list of arguments is as promised. -/
def GoodArgs (ctx : PconfCtx) : Prop := ctx.args.length ≤ pconfDefaultArgLimit ∧ ∀ w ∈ ctx.args, GoodWord w

/-- All that is in the context. -/
structure Words.Good (ws : Words) : Prop where
  numargs : ws.numargs ≤ pconfDefaultArgLimit
  slots : ws.numargs ≤ ws.arglist.length
  arglist : ∀ w ∈ ws.arglist, GoodWord w
  wordbuf : GoodWord ws.wordbuf

theorem goodWord_nil : GoodWord [] := ⟨Nat.zero_le _, by simp⟩

theorem Words.Good.apply {ws : Words} (h : ws.Good) {op : WordOp} (hop : ¬StoresDel ws op) : (ws.apply op).Good := by
  cases op with
  | restart => exact ⟨Nat.zero_le _, Nat.zero_le _, h.arglist, h.wordbuf⟩
  | add ch =>
    simp only [Words.apply]
    by_cases hbyte : (ch.toNat < 0x20 || 0x7f < ch.toNat) = true
    · rwa [if_pos hbyte]
    · by_cases hlimit : pconfDefaultWordlenLimit ≤ ws.wordbuf.length
      · rwa [if_neg hbyte, if_pos hlimit]
      · rw [if_neg hbyte, if_neg hlimit]
        have hne : ch.toNat ≠ 0x7f := fun he => hop ⟨he, not_le.1 hlimit⟩
        simp only [Bool.or_eq_true, decide_eq_true_eq, not_or, not_lt] at hbyte
        refine ⟨h.numargs, h.slots, h.arglist, ?_, fun c hc => ?_⟩
        · simp only [List.length_append, List.length_singleton]
          omega
        · rcases List.mem_append.1 hc with hc | hc
          · exact h.wordbuf.2 c hc
          · rw [List.mem_singleton.1 hc]
            omega
  | finish =>
    simp only [Words.apply]
    by_cases hfull : pconfDefaultArgLimit ≤ ws.numargs
    · rw [if_pos hfull]
      exact ⟨h.numargs, h.slots, h.arglist, goodWord_nil⟩
    · rw [if_neg hfull]
      refine ⟨by show ws.numargs + 1 ≤ _; omega, ?_, ?_, goodWord_nil⟩
      · have hslots := h.slots
        show ws.numargs + 1 ≤ List.length (if _ then _ else _)
        split_ifs
        · rw [List.length_set]
          omega
        · rw [List.length_append, List.length_singleton]
          omega
      · split_ifs
        · intro w hw
          rcases List.mem_or_eq_of_mem_set hw with hw | rfl
          · exact h.arglist w hw
          · exact h.wordbuf
        · intro w hw
          rcases List.mem_append.1 hw with hw | hw
          · exact h.arglist w hw
          · rw [List.mem_singleton.1 hw]
            exact h.wordbuf

theorem Words.Good.run {ws : Words} (h : ws.Good) {ops : List WordOp} (hops : AvoidsDel ws ops) :
    (ops.foldl Words.apply ws).Good := by
  induction ops generalizing ws with
  | nil => exact h
  | cons op ops ih => exact ih (h.apply hops.1) hops.2

theorem AvoidsDel.left {ws : Words} {ops ops' : List WordOp} (h : AvoidsDel ws (ops ++ ops')) : AvoidsDel ws ops := by
  induction ops generalizing ws with
  | nil => trivial
  | cons op ops ih => exact ⟨h.1, ih h.2⟩

theorem runOps_append (ctx : PconfCtx) (calls calls' : List ParserCall) :
    runOps ctx (calls ++ calls') = runOps ctx calls ++ runOps (calls.foldl ParserCall.run ctx) calls' := by
  induction calls generalizing ctx with
  | nil => rfl
  | cons call calls ih => rw [List.cons_append, runOps, ih, runOps, List.append_assoc, List.foldl_cons]

/-- Whatever is fed to a context, in whichever way, if no byte 0x7f is stored in a word: after each call the arguments are
at most 32 words of at most 512 characters from space to `~`, and up to there no write left the word buffer and `wordptr`
always pointed into it. -/
theorem tokenizer_bounds (calls : List ParserCall) (hdel : AvoidsDel pconfInit.words (runOps pconfInit calls)) :
    ∀ before, before <+: calls → GoodArgs (parserRun before) ∧
      ∀ (fresh : Fin 8 → Char) (ops : List WordOp), ops <+: runOps pconfInit before →
        ∃ b, ops.foldlM (WordBuffer.apply fresh) .init = some b ∧ b.ptr < b.mem.length := by
  intro before hpre
  obtain ⟨after, rfl⟩ := hpre
  rw [runOps_append] at hdel
  have hinit : pconfInit.words.Good := ⟨Nat.zero_le _, Nat.zero_le _, by simp [PconfCtx.words, pconfInit], goodWord_nil⟩
  have hgood := hinit.run hdel.left
  rw [← words_calls] at hgood
  refine ⟨⟨?_, fun w hw => hgood.arglist w (List.mem_of_mem_take hw)⟩, fun fresh ops _ => ?_⟩
  · rw [PconfCtx.args, List.length_take]
    exact (Nat.min_le_left _ _).trans hgood.numargs
  · obtain ⟨b, hrun, hholds⟩ := WordBuffer.holds_run fresh ops
    exact ⟨b, hrun, hholds.ptr_lt⟩

theorem tokenizer_bounds_load : GoodArgs (parserRun [.line "MONITOR su@host 1".toList, .char 'x']) ∧
    ∃ b, (runOps pconfInit [.line "MONITOR su@host 1".toList, .char 'x']).foldlM (WordBuffer.apply fun _ => 'a') .init =
      some b ∧ b.ptr < b.mem.length := by
  obtain ⟨hargs, hbuf⟩ := tokenizer_bounds [.line "MONITOR su@host 1".toList, .char 'x'] (by decide +kernel) _ List.prefix_rfl
  exact ⟨hargs, hbuf _ _ List.prefix_rfl⟩

/-- A DEL gets into an argument. -/
theorem tokenizer_keeps_del : ¬GoodArgs (parserRun [.line ['a', '\x7f']]) := by
  intro h
  have hargs : (parserRun [.line ['a', '\x7f']]).args = [['a', '\x7f']] := by decide +kernel
  have hword := h.2 ['a', '\x7f'] (by rw [hargs]; simp)
  have hbyte := hword.2 '\x7f' (by simp)
  simp at hbyte

end Nut
