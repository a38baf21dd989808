import Nut.Common.Parseconf

/-!
# The words of a line

What `parseconf` computes, without its buffers: a lexer whose state is the words completed so far, the unfinished
word and a mode.  `pconfChar` simulates it (`pconfStep_simulates`), and the slots of `arglist` beyond the words keep
their old contents (`readChunk_overlays`).  The rest of the file computes the words of a line written as a keyword,
plain words, and quoted words: plain words and encoded words are read back as they were.
-/

namespace Nut

open ChunkReader

/-- The states of the parser between the first and the last character of a line. -/
inductive Mode where
  | between
  | comment
  | quoted
  | quotedEsc
  | bare
  | bareEsc
  deriving DecidableEq, Repr

structure Lexer where
  words : List CStr
  word : CStr
  mode : Mode
  deriving DecidableEq, Repr

namespace Lexer

/-- The start of a line. -/
def start : Lexer := ⟨[], [], .between⟩

/-- Add a character to the unfinished word: characters outside 0x20..0x7f are dropped, and so is what exceeds the
word limit. -/
def keep (l : Lexer) (ch : Char) : Lexer :=
  if ch.toNat < 0x20 || 0x7f < ch.toNat then l
  else if pconfDefaultWordlenLimit ≤ l.word.length then l
  else { l with word := l.word ++ [ch] }

/-- Complete the unfinished word; words beyond the limit are dropped. -/
def close (l : Lexer) : Lexer :=
  if pconfDefaultArgLimit ≤ l.words.length then { l with word := [] }
  else { l with words := l.words ++ [l.word], word := [] }

/-- The mode in which the lexer goes on. -/
def into (l : Lexer) (m : Mode) : Lexer := { l with mode := m }

def step (l : Lexer) (ch : Char) : Lexer × Outcome (List CStr) :=
  match l.mode with
  | .between =>
    if ch = '\n' then (start, .item l.words)
    else if ch = '#' then (l.into .comment, .more)
    else if isspace ch then (l.into .between, .more)
    else if ch = '\\' then (l.into .bareEsc, .more)
    else if ch = '"' then (l.into .quoted, .more)
    else if ch = '=' then ((l.keep ch).close.into .between, .more)
    else ((l.keep ch).into .bare, .more)
  | .comment => if ch = '\n' then (start, .item l.words) else (l.into .comment, .more)
  | .quoted =>
    if ch = '#' then (start, .reject)
    else if ch = '"' then (l.close.into .between, .more)
    else if ch = '\\' then (l.into .quotedEsc, .more)
    else ((l.keep ch).into .quoted, .more)
  | .quotedEsc =>
    if ch = '\n' then (l.into .quoted, .more) else ((l.keep ch).into .quoted, .more)
  | .bare =>
    if ch = '#' then (l.close.into .comment, .more)
    else if ch = '\n' then (start, .item l.close.words)
    else if isspace ch then (l.close.into .between, .more)
    else if ch = '=' then ((l.close.keep ch).close.into .between, .more)
    else if ch = '\\' then (l.into .bareEsc, .more)
    else ((l.keep ch).into .bare, .more)
  | .bareEsc =>
    if ch = '\n' then (l.into .bare, .more) else ((l.keep ch).into .bare, .more)

@[simp] theorem into_mode (l : Lexer) (m : Mode) : (l.into m).mode = m := rfl
@[simp] theorem into_words (l : Lexer) (m : Mode) : (l.into m).words = l.words := rfl
@[simp] theorem into_word (l : Lexer) (m : Mode) : (l.into m).word = l.word := rfl

@[simp] theorem keep_mode (l : Lexer) (ch : Char) : (l.keep ch).mode = l.mode := by
  unfold keep; split <;> [rfl; (split <;> rfl)]

@[simp] theorem keep_words (l : Lexer) (ch : Char) : (l.keep ch).words = l.words := by
  unfold keep; split <;> [rfl; (split <;> rfl)]

@[simp] theorem close_mode (l : Lexer) : l.close.mode = l.mode := by
  unfold close; split <;> rfl

@[simp] theorem close_word (l : Lexer) : l.close.word = [] := by
  unfold close; split <;> rfl

/-- Lines end at newlines, and the lexer starts afresh after a line and after a rejected one. -/
theorem delimited : Delimited step start '\n' [] where
  item := by
    intro l ch l' x h
    obtain ⟨ws, w, m⟩ := l
    cases m <;> simp only [step] at h <;> (repeat' split at h) <;> simp_all
  reject := by
    intro l ch l' h
    obtain ⟨ws, w, m⟩ := l
    cases m <;> simp only [step] at h <;> (repeat' split at h) <;> simp_all
  nl := rfl

end Lexer

/-! ### The parser simulates the lexer -/

/-- The state of the parser in each mode. -/
def Mode.pstate : Mode → PState
  | .between => .findwordstart
  | .comment => .findeol
  | .quoted => .quotecollect
  | .quotedEsc => .qcLiteral
  | .bare => .collect
  | .bareEsc => .collectliteral

/-- The buffers of a context that has read the words of `l`; the slots beyond them are those of `A`. -/
structure Loading (A : List CStr) (l : Lexer) (ctx : PconfCtx) : Prop where
  wordbuf : ctx.wordbuf = l.word
  numargs : ctx.numargs = l.words.length
  arglist : ctx.arglist = l.words ++ A.drop l.words.length

/-- Between words there is no unfinished word. -/
def Lexer.Tidy (l : Lexer) : Prop := l.mode = .between ∨ l.mode = .comment → l.word = []

/-- The context has finished a line, or is reading one whose words so far are those of `l`. -/
def Loaded (A : List CStr) (l : Lexer) (ctx : PconfCtx) : Prop :=
  ((ctx.state = .endofline ∨ ctx.state = .parseerr) ∧ l = .start ∧ ctx.wordbuf = [] ∧ ctx.arglist = A) ∨
    (ctx.state = l.mode.pstate ∧ l.Tidy ∧ Loading A l ctx)

/-- A context between two lines. -/
def AtLineStart (ctx : PconfCtx) : Prop := Loaded ctx.arglist .start ctx

theorem atLineStart_pconfInit : AtLineStart pconfInit := .inr ⟨rfl, fun _ => rfl, rfl, rfl, rfl⟩

namespace Loading

variable {A : List CStr} {l : Lexer} {ctx : PconfCtx}

theorem addchar (h : Loading A l ctx) (ch : Char) : Loading A (l.keep ch) (Nut.addchar ctx ch) := by
  unfold Nut.addchar Lexer.keep
  rw [h.wordbuf]
  split
  · exact h
  · split
    · exact h
    · exact ⟨rfl, h.numargs, h.arglist⟩

theorem endofword (h : Loading A l ctx) : Loading A l.close (Nut.endofword ctx) := by
  unfold Nut.endofword Lexer.close
  rw [h.numargs]
  split
  · exact ⟨rfl, rfl, h.arglist⟩
  · refine ⟨rfl, ?_, ?_⟩
    · simp [addArgWord, h.numargs]
    · have hlen : ctx.arglist.length = l.words.length + (A.length - l.words.length) := by
        rw [h.arglist, List.length_append, List.length_drop]
      simp only [addArgWord, h.numargs, h.wordbuf, hlen]
      by_cases hA : l.words.length < A.length
      · -- the slot exists and is overwritten
        rw [ite_eq_left_iff.2 fun hn => absurd (by omega) hn, h.arglist,
          List.set_append_right _ _ (Nat.le_refl _), Nat.sub_self,
          List.drop_eq_getElem_cons hA, List.set_cons_zero]
        simp
      · -- all slots are in use and the list grows
        have h0 : A.drop l.words.length = [] := List.drop_eq_nil_of_le (by omega)
        have h1 : A.drop (l.words ++ [l.word]).length = [] := List.drop_eq_nil_of_le (by simp; omega)
        rw [ite_eq_right_iff.2 fun hn => absurd hn (by omega), h.arglist, h0, h1]
        simp

end Loading

private theorem pconfStep_more {ctx : PconfCtx} {ch : Char} (h : ctx.state ≠ .endofline) (h' : ctx.state ≠ .parseerr)
    (hp : (parseChar ctx ch).state ≠ .endofline) (hp' : (parseChar ctx ch).state ≠ .parseerr) :
    pconfStep ctx ch = (parseChar ctx ch, .more) := by
  simp [pconfStep, pconfChar, h, h', hp, hp']

private theorem pconfStep_item {ctx : PconfCtx} {ch : Char} (h : ctx.state ≠ .endofline) (h' : ctx.state ≠ .parseerr)
    (hp : (parseChar ctx ch).state = .endofline) :
    pconfStep ctx ch =
      (parseChar ctx ch, .item ((parseChar ctx ch).numargs, (parseChar ctx ch).arglist)) := by
  simp [pconfStep, pconfChar, h, h', hp]

private theorem pconfStep_reject {ctx : PconfCtx} {ch : Char} (h : ctx.state ≠ .endofline)
    (h' : ctx.state ≠ .parseerr) (hp : (parseChar ctx ch).state = .parseerr) :
    pconfStep ctx ch = (parseChar ctx ch, .reject) := by
  simp [pconfStep, pconfChar, h, h', hp]

/-- What a step of the parser has to do when the lexer takes the step `r`. -/
def Simulates (A : List CStr) (r : Lexer × Outcome (List CStr)) (p : PconfCtx × Outcome (Nat × List CStr)) : Prop :=
  match r with
  | (l', .more) => p.2 = .more ∧ Loaded A l' p.1
  | (_, .item ws) => p.2 = .item (ws.length, ws ++ A.drop ws.length) ∧ Loaded (ws ++ A.drop ws.length) .start p.1
  | (_, .reject) => p.2 = .reject ∧ AtLineStart p.1

section Simulation

variable {A : List CStr} {l : Lexer} {ctx : PconfCtx} {ch : Char} {m : Mode}

private theorem pstate_ne (m : Mode) : m.pstate ≠ .endofline ∧ m.pstate ≠ .parseerr := by
  cases m <;> exact ⟨by decide, by decide⟩

private theorem simulates_more (hs : ctx.state = m.pstate) {l' : Lexer} {ctx' : PconfCtx} {m' : Mode}
    (hl : Loading A l' ctx') (ht : (l'.into m').Tidy)
    (hp : parseChar ctx ch = { ctx' with state := m'.pstate }) :
    Simulates A (l'.into m', .more) (pconfStep ctx ch) := by
  have hm := pstate_ne m
  have hm' := pstate_ne m'
  have hst : (parseChar ctx ch).state = m'.pstate := by rw [hp]
  rw [pconfStep_more (hs ▸ hm.1) (hs ▸ hm.2) (hst ▸ hm'.1) (hst ▸ hm'.2), hp]
  exact ⟨rfl, .inr ⟨rfl, ht, hl.wordbuf, hl.numargs, hl.arglist⟩⟩

private theorem simulates_item (hs : ctx.state = m.pstate) {l' : Lexer} {ctx' : PconfCtx}
    (hl : Loading A l' ctx') (hw : l'.word = []) (hp : parseChar ctx ch = { ctx' with state := .endofline }) :
    Simulates A (.start, .item l'.words) (pconfStep ctx ch) := by
  have hm := pstate_ne m
  have hst : (parseChar ctx ch).state = .endofline := by rw [hp]
  rw [pconfStep_item (hs ▸ hm.1) (hs ▸ hm.2) hst, hp]
  refine ⟨?_, .inl ⟨.inl rfl, rfl, hl.wordbuf.trans hw, hl.arglist⟩⟩
  show Outcome.item (ctx'.numargs, ctx'.arglist) = _
  rw [hl.numargs, hl.arglist]

private theorem simulates_reject (hs : ctx.state = m.pstate) {ctx' : PconfCtx} (hw : ctx'.wordbuf = [])
    (hp : parseChar ctx ch = { ctx' with state := .parseerr }) :
    Simulates A (.start, .reject) (pconfStep ctx ch) := by
  have hm := pstate_ne m
  have hst : (parseChar ctx ch).state = .parseerr := by rw [hp]
  rw [pconfStep_reject (hs ▸ hm.1) (hs ▸ hm.2) hst, hp]
  exact ⟨rfl, .inl ⟨.inr rfl, rfl, hw, rfl⟩⟩

private theorem wordbuf_endofword (ctx : PconfCtx) : (endofword ctx).wordbuf = [] := by
  unfold endofword; split <;> rfl

private theorem tidy_of_mode (l : Lexer) (h : m ≠ .between ∧ m ≠ .comment) : (l.into m).Tidy := by
  rintro (hb | hc)
  · exact absurd hb h.1
  · exact absurd hc h.2

private theorem simulates_loading (hs : ctx.state = l.mode.pstate) (ht : l.Tidy) (h : Loading A l ctx) :
    Simulates A (l.step ch) (pconfStep ctx ch) := by
  obtain ⟨ws, w, m⟩ := l
  cases m <;> simp only [Lexer.step]
  case between =>
    have hs' : ctx.state = .findwordstart := hs
    have hw : w = [] := ht (.inl rfl)
    split_ifs with h1 h2 h3 h4 h5 h6
    · exact simulates_item hs h hw (by simp [parseChar, hs', findwordstart, h1])
    · exact simulates_more hs h (fun _ => hw) (by simp [parseChar, hs', findwordstart, h2, Mode.pstate])
    · exact simulates_more hs h (fun _ => hw) (by simp [parseChar, hs', findwordstart, h1, h2, h3, Mode.pstate])
    · exact simulates_more hs h (tidy_of_mode _ (by decide))
        (by simp [parseChar, hs', findwordstart, h4, Mode.pstate])
    · exact simulates_more hs h (tidy_of_mode _ (by decide))
        (by simp [parseChar, hs', findwordstart, h5, Mode.pstate])
    · exact simulates_more hs (h.addchar ch).endofword (fun _ => Lexer.close_word _)
        (by simp [parseChar, hs', findwordstart, h6, Mode.pstate])
    · exact simulates_more hs (h.addchar ch) (tidy_of_mode _ (by decide))
        (by simp [parseChar, hs', findwordstart, h1, h2, h3, h4, h5, h6, Mode.pstate])
  case comment =>
    have hs' : ctx.state = .findeol := hs
    have hw : w = [] := ht (.inr rfl)
    split_ifs with h1
    · exact simulates_item hs h hw (by simp [parseChar, hs', findeol, h1])
    · exact simulates_more hs h (fun _ => hw) (by simp [parseChar, hs', findeol, h1, Mode.pstate])
  case quoted =>
    have hs' : ctx.state = .quotecollect := hs
    split_ifs with h1 h2 h3
    · exact simulates_reject hs (wordbuf_endofword (pconfSeterr ctx errUnbalanced)) (by simp [parseChar, hs', quotecollect, h1])
    · exact simulates_more hs h.endofword (fun _ => Lexer.close_word _)
        (by simp [parseChar, hs', quotecollect, h2, Mode.pstate])
    · exact simulates_more hs h (tidy_of_mode _ (by decide))
        (by simp [parseChar, hs', quotecollect, h3, Mode.pstate])
    · exact simulates_more hs (h.addchar ch) (tidy_of_mode _ (by decide))
        (by simp [parseChar, hs', quotecollect, h1, h2, h3, Mode.pstate])
  case quotedEsc =>
    have hs' : ctx.state = .qcLiteral := hs
    split_ifs with h1
    · exact simulates_more hs h (tidy_of_mode _ (by decide)) (by simp [parseChar, hs', qcLiteral, h1, Mode.pstate])
    · exact simulates_more hs (h.addchar ch) (tidy_of_mode _ (by decide))
        (by simp [parseChar, hs', qcLiteral, h1, Mode.pstate])
  case bare =>
    have hs' : ctx.state = .collect := hs
    split_ifs with h1 h2 h3 h4 h5
    · exact simulates_more hs h.endofword (fun _ => Lexer.close_word _)
        (by simp [parseChar, hs', collect, h1, Mode.pstate])
    · exact simulates_item hs h.endofword (Lexer.close_word _) (by simp [parseChar, hs', collect, h2])
    · exact simulates_more hs h.endofword (fun _ => Lexer.close_word _)
        (by simp [parseChar, hs', collect, h1, h2, h3, Mode.pstate])
    · exact simulates_more hs (h.endofword.addchar ch).endofword (fun _ => Lexer.close_word _)
        (by simp [parseChar, hs', collect, findwordstart, h4, Mode.pstate])
    · exact simulates_more hs h (tidy_of_mode _ (by decide))
        (by simp [parseChar, hs', collect, h5, Mode.pstate])
    · exact simulates_more hs (h.addchar ch) (tidy_of_mode _ (by decide))
        (by simp [parseChar, hs', collect, h1, h2, h3, h4, h5, Mode.pstate])
  case bareEsc =>
    have hs' : ctx.state = .collectliteral := hs
    split_ifs with h1
    · exact simulates_more hs h (tidy_of_mode _ (by decide))
        (by simp [parseChar, hs', collectliteral, h1, Mode.pstate])
    · exact simulates_more hs (h.addchar ch) (tidy_of_mode _ (by decide))
        (by simp [parseChar, hs', collectliteral, h1, Mode.pstate])

/-- A step of the parser is a step of the lexer. -/
theorem pconfStep_simulates (h : Loaded A l ctx) (ch : Char) : Simulates A (l.step ch) (pconfStep ctx ch) := by
  rcases h with ⟨hs, rfl, hw, rfl⟩ | ⟨hs, ht, hl⟩
  · -- a finished line is cleared first
    have hreset : pconfStep ctx ch = pconfStep { ctx with numargs := 0, state := .findwordstart } ch := by
      simp [pconfStep, pconfChar, hs]
    rw [hreset]
    exact simulates_loading rfl (fun _ => rfl) ⟨hw, rfl, rfl⟩
  · exact simulates_loading hs ht hl

/-- The arguments handed over for the lines `wss`, when the slots held `A` before. -/
def overlays (A : List CStr) : List (List CStr) → List (Nat × List CStr)
  | [] => []
  | ws :: wss => (ws.length, ws ++ A.drop ws.length) :: overlays (ws ++ A.drop ws.length) wss

theorem overlays_args (A : List CStr) (wss : List (List CStr)) :
    (overlays A wss).map (fun p => p.2.take p.1) = wss := by
  induction wss generalizing A with
  | nil => rfl
  | cons ws wss ih => simp [overlays, ih]

theorem Loaded.atLineStart (h : Loaded A .start ctx) : AtLineStart ctx := by
  rcases h with ⟨hs, hl, hw, rfl⟩ | ⟨hs, ht, hl⟩
  · exact .inl ⟨hs, hl, hw, rfl⟩
  · exact .inr ⟨hs, ht, hl.wordbuf, hl.numargs, by simp [Lexer.start]⟩

/-- The parser completes the lines of the lexer. -/
theorem readChunk_overlays (h : Loaded A l ctx) (buf : CStr) :
    (readChunk pconfStep ctx buf).2 = overlays A (readChunk Lexer.step l buf).2 ∧
      (∃ A', Loaded A' (readChunk Lexer.step l buf).1 (readChunk pconfStep ctx buf).1) ∧
      afterReject pconfStep ctx buf = afterReject Lexer.step l buf := by
  induction buf generalizing A l ctx with
  | nil => exact ⟨rfl, ⟨A, h⟩, rfl⟩
  | cons ch buf ih =>
    have hsim := pconfStep_simulates h ch
    rcases hp : pconfStep ctx ch with ⟨ctx', o⟩
    rcases hl : l.step ch with ⟨l', _ | ws | _⟩
    · rw [hp, hl] at hsim
      obtain ⟨rfl, hl'⟩ := hsim
      simpa only [readChunk, afterReject, hp, hl] using ih hl'
    · rw [hp, hl] at hsim
      obtain ⟨rfl, hl'⟩ := hsim
      obtain rfl := (Lexer.delimited.item l ch l' ws hl).2
      obtain ⟨h1, h2, h3⟩ := ih hl'
      simp only [readChunk, afterReject, hp, hl, overlays]
      exact ⟨congrArg _ h1, h2, h3⟩
    · rw [hp, hl] at hsim
      obtain ⟨rfl, hl'⟩ := hsim
      obtain rfl := Lexer.delimited.reject l ch l' hl
      simp only [readChunk, afterReject, hp, hl, overlays]
      exact ⟨trivial, ⟨_, hl'⟩, trivial⟩

/-- Characters that complete no line leave the other slots as they are. -/
theorem Loaded.silent {t : Lexer} {buf : CStr} (h : Loaded A l ctx) (hs : ChunkReader.silent Lexer.step l buf = some t) :
    Loaded A t (readChunk pconfStep ctx buf).1 ∧ (readChunk pconfStep ctx buf).2 = [] := by
  induction buf generalizing l ctx with
  | nil =>
    obtain rfl := Option.some.inj hs
    exact ⟨h, rfl⟩
  | cons ch buf ih =>
    have hsim := pconfStep_simulates h ch
    rcases hp : pconfStep ctx ch with ⟨ctx', o⟩
    rcases hl : l.step ch with ⟨l', _ | ws | _⟩
    · rw [hp, hl] at hsim
      obtain ⟨rfl, hl'⟩ := hsim
      simp only [ChunkReader.silent, hl] at hs
      simpa only [readChunk, hp] using ih hl' hs
    · simp [ChunkReader.silent, hl] at hs
    · simp [ChunkReader.silent, hl] at hs

/-- Over successive chunks the parser hands over the words of the lexer. -/
theorem readChunks_args (h : Loaded A l ctx) (chunks : List CStr) :
    (readChunks pconfStep ctx chunks).2.map (fun p => p.2.take p.1) = (readChunks Lexer.step l chunks).2 := by
  induction chunks generalizing A l ctx with
  | nil => rfl
  | cons buf chunks ih =>
    obtain ⟨h1, ⟨A', h2⟩, -⟩ := readChunk_overlays h buf
    simp only [readChunks, List.map_append, h1, overlays_args, ih h2]

end Simulation

end Nut
