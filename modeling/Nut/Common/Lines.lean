import Nut.Common.Words

/-!
# The three ways to feed the parser

A line comes to the parser as a whole (`pconfLine`), from a file (`pconfFileNext`) or one character at a time
(`pconfChar`).  Two things tell them apart: `pconfChar` starts over only after a line that it ended itself with a
newline (`Ready`), and a bare word whose characters were all dropped is a word for a newline but not for the end of
the string (`Dangling`).  `feeding_agrees_iff` says that nothing else does, and `quoted_roundtrip_iff` that quoted
words come back through each of them.
-/

namespace Nut

open ChunkReader Lexer

/-- The loop of `pconf_file_next` and `pconf_line`: the characters that are left when a line or an error ends it. -/
def parseLoop (ctx : PconfCtx) : CStr → PconfCtx × Option CStr
  | [] => (ctx, none)
  | ch :: rest =>
    if (parseChar ctx ch).state = .parseerr then (parseChar ctx ch, some rest)
    else if (parseChar ctx ch).state = .endofline then (parseChar ctx ch, some rest)
    else parseLoop (parseChar ctx ch) rest

/-- How the parser starts over for a new line. -/
def startOver (ctx : PconfCtx) : PconfCtx := { ctx with numargs := 0, state := .findwordstart }

/-- The context at another line number. -/
def PconfCtx.onLine (ctx : PconfCtx) (n : Nat) : PconfCtx := { ctx with linenum := n }

def newLine (ctx : PconfCtx) : PconfCtx := (startOver ctx).onLine (ctx.linenum + 1)

/-- Tie off a word that is still being built. -/
def lingering (ctx : PconfCtx) : PconfCtx := if ctx.wordbuf ≠ [] then endofword ctx else ctx

/-- `f` is what is left of the file; the result of the call comes last. -/
def pconfFileNext (ctx : PconfCtx) (f : CStr) : PconfCtx × CStr × Bool :=
  match parseLoop (newLine ctx) f with
  | (ctx, some rest) => (ctx, rest, true)
  | (ctx, none) => if ctx.numargs ≠ 0 then (lingering ctx, [], true) else (ctx, [], false)

def pconfLine (ctx : PconfCtx) (line : CStr) : PconfCtx :=
  match parseLoop (newLine ctx) line with
  | (ctx, some _) => ctx
  | (ctx, none) => lingering ctx

/-- Calls of `pconf_char` until one of them does not return 0. -/
def charLine (ctx : PconfCtx) : CStr → PconfCtx × Option CStr
  | [] => (ctx, none)
  | ch :: rest =>
    match pconfChar ctx ch with
    | (ctx, .more) => charLine ctx rest
    | (ctx, .line) => (ctx, some rest)
    | (ctx, .error) => (ctx, some rest)

/-- The arguments of the line. -/
def PconfCtx.args (ctx : PconfCtx) : List CStr := ctx.arglist.take ctx.numargs

/-! ### Contexts between two lines -/

/-- The contexts after any number of lines, each fed in any of the three ways; `pconf_parse_error` clears `error`. -/
inductive BetweenLines : PconfCtx → Prop
  | init : BetweenLines pconfInit
  | line {ctx : PconfCtx} (h : BetweenLines ctx) (line : CStr) : BetweenLines (pconfLine ctx line)
  | file {ctx ctx' : PconfCtx} {f rest : CStr} (h : BetweenLines ctx) (hf : pconfFileNext ctx f = (ctx', rest, true)) :
      BetweenLines ctx'
  | char {ctx ctx' : PconfCtx} {s rest : CStr} (h : BetweenLines ctx) (hs : charLine ctx s = (ctx', some rest)) :
      BetweenLines ctx'
  | parseError {ctx : PconfCtx} (h : BetweenLines ctx) : BetweenLines { ctx with error := false }

/-- A context that is new, or whose last line ended with a newline or an error. -/
def Ready (ctx : PconfCtx) : Prop :=
  ctx.state = .endofline ∨ ctx.state = .parseerr ∨ ctx.state = .findwordstart ∧ ctx.numargs = 0

/-- Outside a word nothing is left of one, and the slots of the arguments exist. -/
structure Tidy (ctx : PconfCtx) : Prop where
  wordbuf : ctx.state = .findwordstart ∨ ctx.state = .findeol ∨ ctx.state = .endofline ∨ ctx.state = .parseerr →
    ctx.wordbuf = []
  numargs : ctx.numargs ≤ ctx.arglist.length

section Contexts

variable {ctx : PconfCtx}

@[simp] theorem addchar_state (ctx : PconfCtx) (ch : Char) : (addchar ctx ch).state = ctx.state := by
  unfold addchar; split <;> [rfl; (split <;> rfl)]

@[simp] theorem addchar_arglist (ctx : PconfCtx) (ch : Char) : (addchar ctx ch).arglist = ctx.arglist := by
  unfold addchar; split <;> [rfl; (split <;> rfl)]

@[simp] theorem addchar_numargs (ctx : PconfCtx) (ch : Char) : (addchar ctx ch).numargs = ctx.numargs := by
  unfold addchar; split <;> [rfl; (split <;> rfl)]

@[simp] theorem addchar_error (ctx : PconfCtx) (ch : Char) : (addchar ctx ch).error = ctx.error := by
  unfold addchar; split <;> [rfl; (split <;> rfl)]

@[simp] theorem endofword_wordbuf (ctx : PconfCtx) : (endofword ctx).wordbuf = [] := by
  unfold endofword; split <;> rfl

@[simp] theorem endofword_error (ctx : PconfCtx) : (endofword ctx).error = ctx.error := by
  unfold endofword; split <;> rfl

theorem endofword_numargs_le (h : ctx.numargs ≤ ctx.arglist.length) :
    (endofword ctx).numargs ≤ (endofword ctx).arglist.length := by
  unfold endofword
  split
  · exact h
  · simp only [addArgWord]
    split
    · simp only [List.length_set]
      omega
    · simp only [List.length_append, List.length_singleton]
      omega

theorem parseChar_tidy (h : Tidy ctx) (ch : Char) : Tidy (parseChar ctx ch) := by
  have hn := h.numargs
  have hend : (endofword ctx).numargs ≤ (endofword ctx).arglist.length := endofword_numargs_le hn
  rcases hs : ctx.state
  case findwordstart =>
    have hw := h.wordbuf (.inl hs)
    have heq : (endofword (addchar ctx ch)).numargs ≤ (endofword (addchar ctx ch)).arglist.length :=
      endofword_numargs_le (by simpa using hn)
    simp only [parseChar, hs, findwordstart]
    split_ifs <;> exact ⟨by simp [hw], by simpa⟩
  case findeol =>
    have hw := h.wordbuf (.inr (.inl hs))
    simp only [parseChar, hs, findeol]
    split_ifs <;> exact ⟨by simp [hw], by simpa⟩
  case quotecollect =>
    have herr : (endofword (pconfSeterr ctx errUnbalanced)).numargs ≤ (endofword (pconfSeterr ctx errUnbalanced)).arglist.length :=
      endofword_numargs_le hn
    simp only [parseChar, hs, quotecollect]
    split_ifs <;> exact ⟨by simp, by simpa⟩
  case qcLiteral =>
    simp only [parseChar, hs, qcLiteral]
    split_ifs <;> exact ⟨by simp, by simpa⟩
  case collect =>
    have heq : (findwordstart (endofword ctx) '=').1.numargs ≤ (findwordstart (endofword ctx) '=').1.arglist.length :=
      endofword_numargs_le (by simpa using hend)
    have heqw : (findwordstart (endofword ctx) '=').1.wordbuf = [] := endofword_wordbuf _
    simp only [parseChar, hs, collect]
    split_ifs with h1 h2 h3 h4
    · exact ⟨by simp, by simpa⟩
    · exact ⟨by simp, by simpa⟩
    · exact ⟨by simp, by simpa⟩
    · rw [h4]
      exact ⟨fun _ => heqw, heq⟩
    · exact ⟨by simp, by simpa⟩
    · exact ⟨by simp, by simpa⟩
  case collectliteral =>
    simp only [parseChar, hs, collectliteral]
    split_ifs <;> exact ⟨by simp, by simpa⟩
  case endofline => simpa [parseChar, hs] using h
  case parseerr => simpa [parseChar, hs] using h

theorem parseChar_error {ch : Char} (h : (parseChar ctx ch).state ≠ .parseerr) : (parseChar ctx ch).error = ctx.error := by
  have hfind : ∀ c : PconfCtx, (findwordstart c ch).1.error = c.error := by
    intro c
    unfold findwordstart
    split_ifs <;> simp
  rcases hs : ctx.state
  case findwordstart => simp only [parseChar, hs, hfind]
  case findeol =>
    simp only [parseChar, hs, findeol]
    split_ifs <;> rfl
  case quotecollect =>
    simp only [parseChar, hs, quotecollect] at h ⊢
    split_ifs at h ⊢ <;> simp_all
  case qcLiteral =>
    simp only [parseChar, hs, qcLiteral]
    split_ifs <;> simp
  case collect =>
    simp only [parseChar, hs, collect]
    split_ifs <;> simp [hfind]
  case collectliteral =>
    simp only [parseChar, hs, collectliteral]
    split_ifs <;> simp
  case endofline => simp only [parseChar, hs]
  case parseerr => simp only [parseChar, hs]

theorem parseLoop_tidy (h : Tidy ctx) (s : CStr) : Tidy (parseLoop ctx s).1 := by
  induction s generalizing ctx with
  | nil => exact h
  | cons ch s ih =>
    have hc := parseChar_tidy h ch
    simp only [parseLoop]
    split_ifs
    · exact hc
    · exact hc
    · exact ih hc

/-- A line that was ended leaves the parser at rest. -/
theorem parseLoop_state {s rest : CStr} {ctx' : PconfCtx} (h : parseLoop ctx s = (ctx', some rest)) :
    ctx'.state = .endofline ∨ ctx'.state = .parseerr := by
  induction s generalizing ctx with
  | nil => simp [parseLoop] at h
  | cons ch s ih =>
    simp only [parseLoop] at h
    split_ifs at h with h1 h2
    · obtain ⟨rfl, -⟩ := Prod.mk.inj h
      exact .inr h1
    · obtain ⟨rfl, -⟩ := Prod.mk.inj h
      exact .inl h2
    · exact ih h

/-- A line that is not at its end yet is fed to `pconf_char` as to the loop. -/
theorem charLine_eq_parseLoop (h : ctx.state ≠ .endofline) (h' : ctx.state ≠ .parseerr) (s : CStr) :
    charLine ctx s = parseLoop ctx s := by
  induction s generalizing ctx with
  | nil => rfl
  | cons ch s ih =>
    by_cases h1 : (parseChar ctx ch).state = .parseerr
    · simp [charLine, parseLoop, pconfChar, h, h', h1]
    · by_cases h2 : (parseChar ctx ch).state = .endofline
      · simp [charLine, parseLoop, pconfChar, h, h', h2]
      · simp [charLine, parseLoop, pconfChar, h, h', h1, h2, ih h2 h1]

/-- After the end of a line `pconf_char` starts over. -/
theorem charLine_startOver (h : ctx.state = .endofline ∨ ctx.state = .parseerr) {s : CStr} (hs : s ≠ []) :
    charLine ctx s = parseLoop (startOver ctx) s := by
  obtain ⟨ch, s, rfl⟩ := List.exists_cons_of_ne_nil hs
  have hfirst : pconfChar ctx ch = pconfChar (startOver ctx) ch := by
    simp [pconfChar, startOver, h]
  have hcons : charLine ctx (ch :: s) = charLine (startOver ctx) (ch :: s) := by
    rw [charLine, charLine, hfirst]
  rw [hcons, charLine_eq_parseLoop (by simp [startOver]) (by simp [startOver])]

theorem Ready.charLine_eq (h : Ready ctx) {s : CStr} (hs : s ≠ []) :
    charLine ctx s = parseLoop (startOver ctx) s := by
  rcases h with h | h | ⟨h, hn⟩
  · exact charLine_startOver (.inl h) hs
  · exact charLine_startOver (.inr h) hs
  · have hsame : startOver ctx = ctx := by
      cases ctx
      simp_all [startOver]
    rw [hsame, charLine_eq_parseLoop (by simp [h]) (by simp [h])]

theorem parseChar_onLine (ctx : PconfCtx) (n : Nat) (ch : Char) :
    parseChar (ctx.onLine n) ch = (parseChar ctx ch).onLine n := by
  have hadd : ∀ c : PconfCtx, addchar (c.onLine n) ch = (addchar c ch).onLine n := by
    intro c
    unfold addchar PconfCtx.onLine
    split_ifs <;> rfl
  have hend : ∀ c : PconfCtx, endofword (c.onLine n) = (endofword c).onLine n := by
    intro c
    unfold endofword PconfCtx.onLine
    split_ifs <;> rfl
  have hfind : ∀ c : PconfCtx, findwordstart (c.onLine n) ch =
      ((findwordstart c ch).1.onLine n, (findwordstart c ch).2) := by
    intro c
    unfold findwordstart
    rw [hadd, hend]
    split_ifs <;> rfl
  have hstate : (ctx.onLine n).state = ctx.state := rfl
  rcases hs : ctx.state
  case findwordstart =>
    simp only [parseChar, hstate, hs, hfind]
    rfl
  case findeol =>
    simp only [parseChar, hstate, hs, findeol]
    split_ifs <;> rfl
  case quotecollect =>
    have herr : pconfSeterr (ctx.onLine n) errUnbalanced = (pconfSeterr ctx errUnbalanced).onLine n := rfl
    simp only [parseChar, hstate, hs, quotecollect, hadd, herr, hend]
    split_ifs <;> rfl
  case qcLiteral =>
    simp only [parseChar, hstate, hs, qcLiteral, hadd]
    split_ifs <;> rfl
  case collect =>
    simp only [parseChar, hstate, hs, collect, hadd, hend, hfind]
    split_ifs <;> rfl
  case collectliteral =>
    simp only [parseChar, hstate, hs, collectliteral, hadd]
    split_ifs <;> rfl
  case endofline => simp only [parseChar, hstate, hs]
  case parseerr => simp only [parseChar, hstate, hs]

/-- The number of the line does not matter to the parser. -/
theorem parseLoop_onLine (ctx : PconfCtx) (n : Nat) (s : CStr) :
    parseLoop (ctx.onLine n) s = ((parseLoop ctx s).1.onLine n, (parseLoop ctx s).2) := by
  induction s generalizing ctx with
  | nil => rfl
  | cons ch s ih =>
    have hstate : ∀ c : PconfCtx, (c.onLine n).state = c.state := fun _ => rfl
    simp only [parseLoop, parseChar_onLine, hstate, ih]
    split_ifs <;> rfl

private theorem wordbuf_of_end (h : Tidy ctx) (hs : ctx.state = .endofline ∨ ctx.state = .parseerr) : ctx.wordbuf = [] := by
  rcases hs with hs | hs
  · exact h.wordbuf (.inr (.inr (.inl hs)))
  · exact h.wordbuf (.inr (.inr (.inr hs)))

theorem tidy_startOver (hw : ctx.wordbuf = []) : Tidy (startOver ctx) := ⟨fun _ => hw, Nat.zero_le _⟩

theorem tidy_newLine (hw : ctx.wordbuf = []) : Tidy (newLine ctx) := ⟨fun _ => hw, Nat.zero_le _⟩

theorem charLine_tidy (h : Tidy ctx) (s : CStr) : Tidy (charLine ctx s).1 := by
  by_cases hend : ctx.state = .endofline ∨ ctx.state = .parseerr
  · by_cases hs : s = []
    · rwa [hs]
    · rw [charLine_startOver hend hs]
      exact parseLoop_tidy (tidy_startOver (wordbuf_of_end h hend)) s
  · rw [not_or] at hend
    rw [charLine_eq_parseLoop hend.1 hend.2]
    exact parseLoop_tidy h s

theorem charLine_state {s rest : CStr} {ctx' : PconfCtx} (h : charLine ctx s = (ctx', some rest)) :
    ctx'.state = .endofline ∨ ctx'.state = .parseerr := by
  by_cases hend : ctx.state = .endofline ∨ ctx.state = .parseerr
  · by_cases hs : s = []
    · simp [hs, charLine] at h
    · rw [charLine_startOver hend hs] at h
      exact parseLoop_state h
  · rw [not_or] at hend
    rw [charLine_eq_parseLoop hend.1 hend.2] at h
    exact parseLoop_state h

private theorem tidy_lingering (h : Tidy ctx) : Tidy (lingering ctx) ∧ (lingering ctx).wordbuf = [] := by
  unfold lingering
  split_ifs with hw
  · exact ⟨⟨fun _ => endofword_wordbuf ctx, endofword_numargs_le h.numargs⟩, endofword_wordbuf ctx⟩
  · exact ⟨h, not_not.1 hw⟩

/-- Between two lines nothing is left of a word. -/
theorem BetweenLines.tidy (h : BetweenLines ctx) : Tidy ctx ∧ ctx.wordbuf = [] := by
  induction h with
  | init => exact ⟨⟨fun _ => rfl, Nat.le_refl 0⟩, rfl⟩
  | @line ctx h line ih =>
    have hloop := parseLoop_tidy (tidy_newLine ih.2) line
    unfold pconfLine
    rcases hp : parseLoop (newLine ctx) line with ⟨c, _ | rest⟩
    · rw [hp] at hloop
      exact tidy_lingering hloop
    · rw [hp] at hloop
      exact ⟨hloop, wordbuf_of_end hloop (parseLoop_state hp)⟩
  | @file ctx ctx' f rest h hf ih =>
    have hloop := parseLoop_tidy (tidy_newLine ih.2) f
    unfold pconfFileNext at hf
    rcases hp : parseLoop (newLine ctx) f with ⟨c, _ | rest'⟩
    · rw [hp] at hloop hf
      simp only at hf
      split_ifs at hf
      · obtain ⟨rfl, -⟩ := Prod.mk.inj hf
        exact tidy_lingering hloop
      · simp at hf
    · rw [hp] at hloop hf
      obtain ⟨rfl, -⟩ := Prod.mk.inj hf
      exact ⟨hloop, wordbuf_of_end hloop (parseLoop_state hp)⟩
  | @char ctx ctx' s rest h hs ih =>
    have hloop := charLine_tidy ih.1 s
    rw [hs] at hloop
    exact ⟨hloop, wordbuf_of_end hloop (charLine_state hs)⟩
  | parseError h ih => exact ⟨⟨ih.1.wordbuf, ih.1.numargs⟩, ih.2⟩

end Contexts

/-! ### The words of a line -/

/-- The context reads a line of which the lexer has read `l`. -/
def Reading (A : List CStr) (l : Lexer) (ctx : PconfCtx) : Prop := ctx.state = l.mode.pstate ∧ l.Tidy ∧ Loading A l ctx

namespace Reading

variable {A : List CStr} {l : Lexer} {ctx : PconfCtx}

theorem state_ne (h : Reading A l ctx) : ctx.state ≠ .endofline ∧ ctx.state ≠ .parseerr := by
  obtain ⟨ws, w, m⟩ := l
  rw [h.1]
  cases m <;> simp [Mode.pstate]

theorem args (h : Reading A l ctx) : ctx.args = l.words := by
  rw [PconfCtx.args, h.2.2.numargs, h.2.2.arglist, List.take_left]

theorem startOver (h : ctx.wordbuf = []) : Reading ctx.arglist .start (Nut.startOver ctx) :=
  ⟨rfl, fun _ => rfl, h, rfl, rfl⟩

/-- One character, as the parser and as the lexer read it. -/
theorem step (h : Reading A l ctx) (ch : Char) :
    (∃ t, l.step ch = (t, .more) ∧ (parseChar ctx ch).state ≠ .endofline ∧ (parseChar ctx ch).state ≠ .parseerr ∧
      Reading A t (parseChar ctx ch)) ∨
    (∃ ws, l.step ch = (Lexer.start, .item ws) ∧ (parseChar ctx ch).state = .endofline ∧ (parseChar ctx ch).args = ws) ∨
    (l.step ch).2 = .reject ∧ (parseChar ctx ch).state = .parseerr := by
  have hne := h.state_ne
  have hchar : pconfStep ctx ch = (parseChar ctx ch, if (parseChar ctx ch).state = .endofline then
      .item ((parseChar ctx ch).numargs, (parseChar ctx ch).arglist) else
      if (parseChar ctx ch).state = .parseerr then .reject else .more) := by
    simp only [pconfStep, pconfChar, hne, or_self, if_false]
    split_ifs <;> simp_all
  have hsim := pconfStep_simulates (.inr h) ch
  rw [hchar] at hsim
  rcases hl : l.step ch with ⟨t, _ | ws | _⟩
  · rw [hl] at hsim
    obtain ⟨hmore, hload⟩ := hsim
    simp only at hmore hload
    split_ifs at hmore with h1 h2
    rcases hload with ⟨hend, -⟩ | hload
    · exact absurd hend (by simp [h1, h2])
    · exact .inl ⟨t, rfl, h1, h2, hload⟩
  · rw [hl] at hsim
    obtain ⟨hitem, -⟩ := hsim
    simp only at hitem
    split_ifs at hitem with h1 h2
    simp only [Outcome.item.injEq, Prod.mk.injEq] at hitem
    obtain rfl := (Lexer.delimited.item l ch t ws hl).2
    refine .inr (.inl ⟨ws, rfl, h1, ?_⟩)
    rw [PconfCtx.args, hitem.1, hitem.2, List.take_left]
  · rw [hl] at hsim
    obtain ⟨hrej, -⟩ := hsim
    simp only at hrej
    split_ifs at hrej with h1 h2
    exact .inr (.inr ⟨rfl, h2⟩)

/-- Characters that end no line. -/
theorem silent {t : Lexer} (h : Reading A l ctx) {s : CStr} (hs : ChunkReader.silent Lexer.step l s = some t) :
    ∃ c, Reading A t c ∧ c.error = ctx.error ∧ ∀ rest, parseLoop ctx (s ++ rest) = parseLoop c rest := by
  induction s generalizing l ctx with
  | nil =>
    obtain rfl := Option.some.inj hs
    exact ⟨ctx, h, rfl, fun _ => rfl⟩
  | cons ch s ih =>
    rcases h.step ch with ⟨t', hl, h1, h2, h'⟩ | ⟨ws, hl, -⟩ | ⟨hl, -⟩
    · simp only [ChunkReader.silent, hl] at hs
      obtain ⟨c, hc, herr, hloop⟩ := ih h' hs
      refine ⟨c, hc, herr.trans (parseChar_error h2), fun rest => ?_⟩
      rw [List.cons_append, parseLoop, if_neg h2, if_neg h1, hloop]
    · simp [ChunkReader.silent, hl] at hs
    · rcases hstep : l.step ch with ⟨t', _ | ws | _⟩ <;> simp_all [ChunkReader.silent]

/-- Characters of which one ends the line. -/
theorem ended (h : Reading A l ctx) {s : CStr} (hs : ChunkReader.silent Lexer.step l s = none) (rest : CStr) :
    ∃ c r, parseLoop ctx s = (c, some r) ∧ parseLoop ctx (s ++ rest) = (c, some (r ++ rest)) := by
  induction s generalizing l ctx with
  | nil => simp [ChunkReader.silent] at hs
  | cons ch s ih =>
    rcases h.step ch with ⟨t, hl, h1, h2, h'⟩ | ⟨ws, hl, h1, -⟩ | ⟨-, h2⟩
    · simp only [ChunkReader.silent, hl] at hs
      obtain ⟨c, r, hloop, hloop'⟩ := ih h' hs
      refine ⟨c, r, ?_, ?_⟩
      · rw [parseLoop, if_neg h2, if_neg h1, hloop]
      · rw [List.cons_append, parseLoop, if_neg h2, if_neg h1, hloop']
    · have h2 : (parseChar ctx ch).state ≠ .parseerr := by rw [h1]; decide
      refine ⟨parseChar ctx ch, s, ?_, ?_⟩
      · rw [parseLoop, if_neg h2, if_pos h1]
      · rw [List.cons_append, parseLoop, if_neg h2, if_pos h1]
    · refine ⟨parseChar ctx ch, s, ?_, ?_⟩
      · rw [parseLoop, if_pos h2]
      · rw [List.cons_append, parseLoop, if_pos h2]

/-- The characters of a line give its words. -/
theorem readsAs (h : Reading A l ctx) {s : CStr} {ws : List CStr} (hs : ReadsAs Lexer.step l s Lexer.start ws) :
    ∃ c, parseLoop ctx s = (c, some []) ∧ c.args = ws ∧ c.error = ctx.error := by
  obtain ⟨body, b, t, rfl, hbody, hb⟩ := hs
  obtain ⟨c, hc, herr, hloop⟩ := h.silent hbody
  rcases hc.step b with ⟨t', hl, -⟩ | ⟨ws', hl, h1, hargs⟩ | ⟨hl, -⟩
  · simp [hl] at hb
  · rw [hl] at hb
    obtain rfl : ws' = ws := Outcome.item.inj (congrArg Prod.snd hb)
    have h2 : (parseChar c b).state ≠ .parseerr := by rw [h1]; decide
    refine ⟨parseChar c b, ?_, hargs, (parseChar_error h2).trans herr⟩
    rw [hloop, parseLoop, if_neg h2, if_pos h1]
  · rw [hb] at hl
    simp at hl

end Reading

/-! ### The three ways agree -/

/-- A newline after the string ends the line, or an error did before. -/
def Complete (line : CStr) : Prop := silent Lexer.step start (line ++ ['\n']) = none

instance (line : CStr) : Decidable (Complete line) := inferInstanceAs (Decidable (_ = _))

/-- The string ends in a bare word, not one beyond the limit, of which every character was dropped. -/
def Dangling (line : CStr) : Prop :=
  ∃ ws, ws.length < pconfDefaultArgLimit ∧ silent Lexer.step start line = some ⟨ws, [], .bare⟩

/-- The line has the same arguments and the same error status, whichever way it is fed. -/
def FeedsAgree (ctx : PconfCtx) (line : CStr) : Prop :=
  ∃ c rest, charLine ctx (line ++ ['\n']) = (c, some rest) ∧
    (c.args = (pconfLine ctx line).args ∧ c.error = (pconfLine ctx line).error) ∧
    (pconfFileNext ctx (line ++ ['\n'])).2.2 = true ∧
    c.args = (pconfFileNext ctx (line ++ ['\n'])).1.args ∧ c.error = (pconfFileNext ctx (line ++ ['\n'])).1.error

section

variable {ctx : PconfCtx}

@[simp] theorem onLine_args (ctx : PconfCtx) (n : Nat) : (ctx.onLine n).args = ctx.args := rfl
@[simp] theorem onLine_error (ctx : PconfCtx) (n : Nat) : (ctx.onLine n).error = ctx.error := rfl

theorem pconfFileNext_of_some {f rest : CStr} {c : PconfCtx} (h : parseLoop (startOver ctx) f = (c, some rest)) :
    pconfFileNext ctx f = (c.onLine (ctx.linenum + 1), rest, true) := by
  simp only [pconfFileNext, newLine, parseLoop_onLine, h]

theorem pconfLine_of_some {line rest : CStr} {c : PconfCtx} (h : parseLoop (startOver ctx) line = (c, some rest)) :
    pconfLine ctx line = c.onLine (ctx.linenum + 1) := by
  simp only [pconfLine, newLine, parseLoop_onLine, h]

theorem pconfLine_of_none {line : CStr} {c : PconfCtx} (h : parseLoop (startOver ctx) line = (c, none)) :
    pconfLine ctx line = lingering (c.onLine (ctx.linenum + 1)) := by
  simp only [pconfLine, newLine, parseLoop_onLine, h]

/-- With the file and the characters alike, the agreement is about the string. -/
private theorem agree_iff (hr : Ready ctx) {line rest : CStr} {c : PconfCtx}
    (h : parseLoop (startOver ctx) (line ++ ['\n']) = (c, some rest)) :
    FeedsAgree ctx line ↔ c.args = (pconfLine ctx line).args ∧ c.error = (pconfLine ctx line).error := by
  have hchar : charLine ctx (line ++ ['\n']) = (c, some rest) := by rw [hr.charLine_eq (by simp), h]
  unfold FeedsAgree
  rw [hchar, pconfFileNext_of_some h]
  constructor
  · rintro ⟨c', rest', hc, hline, -⟩
    obtain ⟨rfl, -⟩ := Prod.mk.inj hc
    exact hline
  · intro hline
    exact ⟨c, rest, rfl, hline, rfl, rfl, rfl⟩

private theorem lingering_of_nil (h : ctx.wordbuf = []) : lingering ctx = ctx := by
  simp [lingering, h]

private theorem agree_iff_not_dangling (h : BetweenLines ctx) (hr : Ready ctx) {line : CStr} (hc : Complete line) :
    FeedsAgree ctx line ↔ ¬Dangling line := by
  have hread := Reading.startOver h.tidy.2
  rcases hs : silent Lexer.step start line with _ | t
  · -- an error, before the end of the string
    have hnot : ¬Dangling line := by
      rintro ⟨ws, -, hd⟩
      rw [hd] at hs
      simp at hs
    obtain ⟨c, r, hloop, hloop'⟩ := hread.ended hs ['\n']
    rw [agree_iff hr hloop', pconfLine_of_some hloop]
    simp [hnot]
  obtain ⟨c, hread', herr, hloop⟩ := hread.silent hs
  have hline : parseLoop (startOver ctx) line = (c, none) := by
    have hnil := hloop []
    rwa [List.append_nil] at hnil
  have hargs := hread'.args
  obtain ⟨ws, w, m⟩ := t
  have hstep : (Lexer.step ⟨ws, w, m⟩ '\n').2 ≠ .more := by
    unfold Complete at hc
    rw [silent_append hs] at hc
    intro hmore
    rcases hl : Lexer.step ⟨ws, w, m⟩ '\n' with ⟨t', o⟩
    rw [hl] at hmore
    obtain rfl : o = .more := hmore
    simp [silent, hl] at hc
  have hstate : c.state = m.pstate := hread'.1
  -- without an unfinished word the newline only ends the line
  have rest : c.wordbuf = [] → parseChar c '\n' = { c with state := .endofline } → m ≠ .bare →
      (FeedsAgree ctx line ↔ ¬Dangling line) := by
    intro hw hchar hm
    have hend : parseLoop (startOver ctx) (line ++ ['\n']) = ({ c with state := .endofline }, some []) := by
      rw [hloop, parseLoop, hchar]
      rfl
    have hnot : ¬Dangling line := by
      rintro ⟨ws', -, hd⟩
      rw [hd] at hs
      obtain ⟨-, -, rfl⟩ := Lexer.mk.inj (Option.some.inj hs)
      exact hm rfl
    rw [agree_iff hr hend, pconfLine_of_none hline, lingering_of_nil (by exact hw)]
    simp only [hnot, not_false_eq_true, iff_true]
    exact ⟨rfl, rfl⟩
  have htidy : m = .between ∨ m = .comment → c.wordbuf = [] := fun hm => hread'.2.2.wordbuf.trans (hread'.2.1 hm)
  cases m
  case between => exact rest (htidy (.inl rfl)) (by simp [parseChar, hstate, Mode.pstate, findwordstart]) (by decide)
  case comment => exact rest (htidy (.inr rfl)) (by simp [parseChar, hstate, Mode.pstate, findeol]) (by decide)
  case quoted => exact absurd rfl hstep
  case quotedEsc => exact absurd rfl hstep
  case bareEsc => exact absurd rfl hstep
  case bare =>
    have hchar : parseChar c '\n' = { endofword c with state := .endofline } := by
      simp [parseChar, hstate, Mode.pstate, collect]
    have hend : parseLoop (startOver ctx) (line ++ ['\n']) = ({ endofword c with state := .endofline }, some []) := by
      rw [hloop, parseLoop, hchar]
      rfl
    have hword : c.wordbuf = w := hread'.2.2.wordbuf
    rw [agree_iff hr hend, pconfLine_of_none hline]
    by_cases hw : w = []
    · -- the newline adds an empty word, unless there are too many
      have hclose := hread'.2.2.endofword
      have hwords : (endofword c).args = (Lexer.close ⟨ws, w, .bare⟩).words := by
        rw [PconfCtx.args, hclose.numargs, hclose.arglist, List.take_left]
      rw [lingering_of_nil (show (c.onLine (ctx.linenum + 1)).wordbuf = [] from hword.trans hw)]
      show (endofword c).args = c.args ∧ (endofword c).error = c.error ↔ _
      rw [hwords, hargs, hw]
      by_cases hlen : ws.length < pconfDefaultArgLimit
      · have hd : Dangling line := ⟨ws, hlen, by rw [hs, hw]⟩
        simp [Lexer.close_eq hlen, hd]
      · have hnot : ¬Dangling line := by
          rintro ⟨ws', hlen', hd⟩
          rw [hd] at hs
          obtain ⟨rfl, -, -⟩ := Lexer.mk.inj (Option.some.inj hs)
          exact hlen hlen'
        have hsame : (Lexer.close ⟨ws, [], .bare⟩).words = ws := by
          unfold Lexer.close
          rw [if_pos (by simpa using Nat.not_lt.1 hlen)]
        simp [hsame, hnot]
    · have hnot : ¬Dangling line := by
        rintro ⟨ws', -, hd⟩
        rw [hd] at hs
        obtain ⟨-, rfl, -⟩ := Lexer.mk.inj (Option.some.inj hs)
        exact hw rfl
      have hne : (c.onLine (ctx.linenum + 1)).wordbuf ≠ [] := fun h => hw (hword.symm.trans h)
      have htie : lingering (c.onLine (ctx.linenum + 1)) = (endofword c).onLine (ctx.linenum + 1) := by
        rw [lingering, if_pos hne]
        unfold endofword PconfCtx.onLine
        split_ifs <;> rfl
      rw [htie]
      simp only [hnot, not_false_eq_true, iff_true]
      exact ⟨rfl, rfl⟩

private theorem args_ne_nil (h : ctx.numargs ≠ 0) (hle : ctx.numargs ≤ ctx.arglist.length) : ctx.args ≠ [] := by
  intro hnil
  have hlen := congrArg List.length hnil
  rw [PconfCtx.args, List.length_take, List.length_nil] at hlen
  omega

/-- A blank line has no arguments when it comes from a file. -/
private theorem args_of_agree_nil (h : FeedsAgree ctx []) :
    ∃ c rest, charLine ctx ['\n'] = (c, some rest) ∧ c.args = [] := by
  obtain ⟨c, rest, hc, -, -, hargs, -⟩ := h
  have hblank : parseLoop (startOver ctx) ['\n'] = ({ startOver ctx with state := .endofline }, some []) := rfl
  refine ⟨c, rest, hc, ?_⟩
  rw [hargs, List.nil_append, pconfFileNext_of_some hblank]
  rfl

/-- `pconf_char` goes on with the line of an unready context. -/
private theorem exists_disagree (h : BetweenLines ctx) (hr : ¬Ready ctx) :
    ∃ line, '\n' ∉ line ∧ Complete line ∧ ¬Dangling line ∧ ¬FeedsAgree ctx line := by
  obtain ⟨htidy, hw⟩ := h.tidy
  have hstate : ctx.state ≠ .endofline ∧ ctx.state ≠ .parseerr ∧ ¬(ctx.state = .findwordstart ∧ ctx.numargs = 0) := by
    simpa only [Ready, not_or] using hr
  have hchar := @charLine_eq_parseLoop ctx hstate.1 hstate.2.1
  have blank : ¬FeedsAgree ctx [] → ∃ line, '\n' ∉ line ∧ Complete line ∧ ¬Dangling line ∧ ¬FeedsAgree ctx line := by
    intro hnot
    refine ⟨[], by simp, rfl, ?_, hnot⟩
    rintro ⟨ws, -, hd⟩
    simp [silent, start] at hd
  rcases hs : ctx.state
  case findwordstart =>
    have hn : ctx.numargs ≠ 0 := fun hn => hstate.2.2 ⟨hs, hn⟩
    refine blank fun hagree => ?_
    obtain ⟨c, rest, hc, hargs⟩ := args_of_agree_nil hagree
    rw [hchar] at hc
    simp only [parseLoop, parseChar, hs, findwordstart, if_true] at hc
    obtain ⟨rfl, -⟩ := Prod.mk.inj hc
    exact args_ne_nil hn htidy.numargs hargs
  case findeol =>
    by_cases hn : ctx.numargs = 0
    · -- a word is part of the comment
      refine ⟨['a'], by decide, rfl, ?_, ?_⟩
      · rintro ⟨ws, -, hd⟩
        have ha : silent Lexer.step start ['a'] = some ⟨[], ['a'], .bare⟩ := rfl
        rw [ha] at hd
        simp at hd
      · rintro ⟨c, rest, hc, -, -, hargs, -⟩
        rw [hchar] at hc
        simp [parseLoop, parseChar, hs, findeol] at hc
        obtain ⟨rfl, -⟩ := hc
        have ha : ReadsAs Lexer.step start (['a'] ++ ['\n']) start [['a']] := ⟨['a'], '\n', _, rfl, rfl, rfl⟩
        obtain ⟨c, hloop, hc, -⟩ := (Reading.startOver hw).readsAs ha
        rw [pconfFileNext_of_some hloop, onLine_args, hc] at hargs
        simp [PconfCtx.args, hn] at hargs
    · refine blank fun hagree => ?_
      obtain ⟨c, rest, hc, hargs⟩ := args_of_agree_nil hagree
      rw [hchar] at hc
      simp only [parseLoop, parseChar, hs, findeol, if_true] at hc
      obtain ⟨rfl, -⟩ := Prod.mk.inj hc
      exact args_ne_nil hn htidy.numargs hargs
  case collect =>
    refine blank fun hagree => ?_
    obtain ⟨c, rest, hc, hargs⟩ := args_of_agree_nil hagree
    rw [hchar] at hc
    simp [parseLoop, parseChar, hs, collect] at hc
    obtain ⟨rfl, -⟩ := hc
    refine args_ne_nil ?_ (endofword_numargs_le htidy.numargs) hargs
    show (endofword ctx).numargs ≠ 0
    unfold endofword pconfDefaultArgLimit
    split_ifs with hlim
    · show ctx.numargs ≠ 0
      omega
    · exact Nat.succ_ne_zero _
  case quotecollect | qcLiteral | collectliteral =>
    refine blank fun hagree => ?_
    obtain ⟨c, rest, hc, -⟩ := args_of_agree_nil hagree
    rw [hchar] at hc
    simp [parseLoop, parseChar, hs, quotecollect, qcLiteral, collectliteral] at hc
  case endofline => exact absurd hs hstate.1
  case parseerr => exact absurd hs hstate.2.1

/-- For a ready context the three ways agree on every complete line that does not end in a dropped word, and on no
other; on the lines of any other context they do not agree. -/
theorem feeding_agrees_iff (h : BetweenLines ctx) :
    (Ready ctx → ∀ line, '\n' ∉ line → Complete line → (FeedsAgree ctx line ↔ ¬Dangling line)) ∧
      (¬Ready ctx → ∃ line, '\n' ∉ line ∧ Complete line ∧ ¬Dangling line ∧ ¬FeedsAgree ctx line) :=
  ⟨fun hr _ _ hc => agree_iff_not_dangling h hr hc, exists_disagree h⟩

end

/-- A control character alone is no argument of `pconf_line` and an empty one of `pconf_char`. -/
theorem feeding_dropped : ¬(∀ ctx, BetweenLines ctx → ∀ line, '\n' ∉ line → Complete line → FeedsAgree ctx line) := by
  intro hall
  obtain ⟨c, rest, hc, ⟨hargs, -⟩, -⟩ := hall pconfInit .init ['\x01'] (by decide) (by decide)
  have hchar : charLine pconfInit ['\x01', '\n'] =
      ({ pconfInit with state := .endofline, arglist := [[]], numargs := 1 }, some []) := by decide
  rw [List.singleton_append, hchar] at hc
  obtain ⟨rfl, -⟩ := Prod.mk.inj hc
  exact absurd hargs (by decide)

theorem feeding_agrees_init : FeedsAgree pconfInit "battery.charge = \"5 %\"".toList ∧ ¬FeedsAgree pconfInit ['\x01'] := by
  have hinit := (feeding_agrees_iff .init).1 (.inr (.inr ⟨rfl, rfl⟩))
  refine ⟨(hinit _ (by decide) (by decide)).2 ?_, fun h => (hinit _ (by decide) (by decide)).1 h ⟨[], by decide, rfl⟩⟩
  rintro ⟨ws, -, hd⟩
  have hline : silent Lexer.step start "battery.charge = \"5 %\"".toList =
      some ⟨["battery.charge".toList, "=".toList, "5 %".toList], [], .between⟩ := by decide
  rw [hline] at hd
  simp at hd

/-! ### Quoted words come back -/

/-- Words in quotes, each encoded into a destination of `size` bytes, with a blank between any two. -/
def quotedLine (size : Nat) : List CStr → CStr
  | [] => []
  | [s] => '"' :: pconfEncode s size ++ ['"']
  | s :: l => ('"' :: pconfEncode s size ++ ['"']) ++ ' ' :: quotedLine size l

/-- Between 1 and 32 strings of at most 512 characters, all printable, whose encodings fit the destination. -/
structure Quotable (size : Nat) (l : List CStr) : Prop where
  ne_nil : l ≠ []
  length : l.length ≤ 32
  printable : ∀ s ∈ l, ∀ c ∈ s, 0x20 ≤ c.toNat ∧ c.toNat ≤ 0x7e
  short : ∀ s ∈ l, s.length ≤ 512
  room : ∀ s ∈ l, (escape s).length < size

/-- `pconf_line` reads the words `l` without a parse error. -/
def LineGives (ctx : PconfCtx) (line : CStr) (l : List CStr) : Prop :=
  (pconfLine ctx line).args = l ∧ (pconfLine ctx line).error = ctx.error

/-- `pconf_char` reads them at the newline after the line. -/
def CharsGive (ctx : PconfCtx) (line : CStr) (l : List CStr) : Prop :=
  ∃ c, charLine ctx (line ++ ['\n']) = (c, some []) ∧ c.args = l ∧ c.error = ctx.error

private theorem silent_quotedLine {size : Nat} {l : List CStr} (hl : ∀ s ∈ l, Kept s ∧ s.length ≤ pconfDefaultWordlenLimit)
    (hroom : ∀ s ∈ l, (escape s).length < size) (hne : l ≠ []) (ws : List CStr)
    (hlen : ws.length + l.length ≤ pconfDefaultArgLimit) :
    silent Lexer.step ⟨ws, [], .between⟩ (quotedLine size l) = some ⟨ws ++ l, [], .between⟩ := by
  induction l generalizing ws with
  | nil => exact absurd rfl hne
  | cons s l ih =>
    rw [List.length_cons] at hlen
    obtain ⟨hkept, hshort⟩ := hl s (by simp)
    have hword := silent_quoted ws hkept hshort (by omega)
    rw [← pconfEncode_fits (hroom s (by simp))] at hword
    rcases l with _ | ⟨s', l⟩
    · exact hword
    · have hblank : silent Lexer.step ⟨ws ++ [s], [], .between⟩ [' '] = some ⟨ws ++ [s], [], .between⟩ := rfl
      have hrest := ih (fun t ht => hl t (by simp [ht])) (fun t ht => hroom t (by simp [ht])) (by simp) (ws ++ [s])
        (by simp at hlen ⊢; omega)
      show silent _ _ (('"' :: pconfEncode s size ++ ['"']) ++ ([' '] ++ quotedLine size (s' :: l))) = _
      rw [silent_append hword, silent_append hblank, hrest]
      simp

private theorem Quotable.silent {size : Nat} {l : List CStr} (h : Quotable size l) :
    silent Lexer.step start (quotedLine size l) = some ⟨l, [], .between⟩ := by
  have hkept : ∀ s ∈ l, Kept s ∧ s.length ≤ pconfDefaultWordlenLimit := by
    intro s hs
    refine ⟨fun c hc => ?_, h.short s hs⟩
    have hc' := h.printable s hs c hc
    simp only [isKept, Bool.and_eq_true, decide_eq_true_eq]
    omega
  have hlen : ([] : List CStr).length + l.length ≤ pconfDefaultArgLimit := by
    rw [List.length_nil, Nat.zero_add]
    exact h.length
  exact silent_quotedLine hkept h.room h.ne_nil [] hlen

section

variable {ctx : PconfCtx}

private theorem args_endofword (hle : ctx.numargs ≤ ctx.arglist.length) :
    (endofword ctx).args = if ctx.numargs < pconfDefaultArgLimit then ctx.args ++ [ctx.wordbuf] else ctx.args := by
  unfold endofword
  by_cases hlim : ctx.numargs < pconfDefaultArgLimit
  · rw [if_neg (by omega), if_pos hlim]
    show (addArgWord ctx).arglist.take (ctx.numargs + 1) = _
    unfold addArgWord PconfCtx.args
    by_cases hnew : ctx.numargs < ctx.arglist.length
    · simp only [if_pos hnew]
      rw [List.take_succ_eq_append_getElem (by simpa using hnew), List.take_set, List.getElem_set_self,
        List.set_eq_of_length_le (by simp)]
    · have hall : ctx.numargs = ctx.arglist.length := by omega
      simp only [if_neg hnew]
      rw [hall, List.take_of_length_le (by simp), List.take_length]
  · rw [if_pos (by omega), if_neg hlim]
    rfl

private theorem args_endofword_ne {ctx : PconfCtx} (hle : ctx.numargs ≤ ctx.arglist.length)
    (hnew : ctx.wordbuf ≠ [] ∨ ctx.numargs ≠ 0) : (endofword ctx).args ≠ [[]] := by
  rw [args_endofword hle]
  have hlen : ctx.args.length = ctx.numargs := by rw [PconfCtx.args, List.length_take]; omega
  intro he
  split_ifs at he with hlim
  · rcases hnew with hw | hn
    · have hlast := congrArg List.getLast? he
      simp only [List.getLast?_append, List.getLast?_singleton, Option.some_or] at hlast
      exact hw (Option.some.inj hlast)
    · have hsize := congrArg List.length he
      simp only [List.length_append, List.length_singleton] at hsize
      omega
  · have hsize := congrArg List.length he
    unfold pconfDefaultArgLimit at hlim
    simp only [List.length_singleton] at hsize
    omega

/-- Quoted words come back from `pconf_line`. -/
private theorem Quotable.line (h : BetweenLines ctx) {size : Nat} {l : List CStr} (hl : Quotable size l) :
    LineGives ctx (quotedLine size l) l := by
  obtain ⟨c, hc, herr, hloop⟩ := (Reading.startOver h.tidy.2).silent hl.silent
  have hnone : parseLoop (startOver ctx) (quotedLine size l) = (c, none) := by
    have hnil := hloop []
    rwa [List.append_nil] at hnil
  have hword : (c.onLine (ctx.linenum + 1)).wordbuf = [] := hc.2.2.wordbuf
  unfold LineGives
  rw [pconfLine_of_none hnone, lingering_of_nil hword]
  exact ⟨hc.args, herr⟩

/-- Quoted words come back from `pconf_char` when the context is ready. -/
private theorem Quotable.chars (h : BetweenLines ctx) (hr : Ready ctx) {size : Nat} {l : List CStr} (hl : Quotable size l) :
    CharsGive ctx (quotedLine size l) l := by
  have hreads : ReadsAs Lexer.step start (quotedLine size l ++ ['\n']) start l :=
    .of_silent hl.silent (readsAs_newline l)
  obtain ⟨c, hloop, hargs, herr⟩ := (Reading.startOver h.tidy.2).readsAs hreads
  exact ⟨c, by rw [hr.charLine_eq (by simp), hloop], hargs, herr⟩

private theorem addchar_quote (hw : ctx.wordbuf = []) : addchar ctx '"' = { ctx with wordbuf := ['"'] } := by
  simp [addchar, hw, pconfDefaultWordlenLimit]

/-- In a context that is not ready, the empty word or the word `a` does not come back. -/
private theorem ready_of_chars (h : BetweenLines ctx) (hall : ∀ size l, Quotable size l → CharsGive ctx (quotedLine size l) l) :
    Ready ctx := by
  by_contra hr
  obtain ⟨htidy, hw⟩ := h.tidy
  have hstate : ctx.state ≠ .endofline ∧ ctx.state ≠ .parseerr ∧ ¬(ctx.state = .findwordstart ∧ ctx.numargs = 0) := by
    simpa only [Ready, not_or] using hr
  have hempty := hall 1 [[]] ⟨by decide, by decide, by decide, by decide, by decide⟩
  have ha := hall 2 [['a']] ⟨by decide, by decide, by decide, by decide, by decide⟩
  obtain ⟨c, hc, hargs, -⟩ := hempty
  have hline : quotedLine 1 [[]] ++ ['\n'] = ['"', '"', '\n'] := rfl
  rw [charLine_eq_parseLoop hstate.1 hstate.2.1, hline] at hc
  have hn := htidy.numargs
  rcases hs : ctx.state
  case findwordstart =>
    -- the words of the old line come first
    simp [parseLoop, parseChar, hs, findwordstart, quotecollect, isspace] at hc
    obtain ⟨rfl, -⟩ := hc
    refine @args_endofword_ne { ctx with state := .quotecollect } hn (.inr ?_) hargs
    exact fun hzero => hstate.2.2 ⟨hs, hzero⟩
  case findeol =>
    -- both lines are a comment
    obtain ⟨c', hc', hargs', -⟩ := ha
    have hline' : quotedLine 2 [['a']] ++ ['\n'] = ['"', 'a', '"', '\n'] := rfl
    rw [charLine_eq_parseLoop hstate.1 hstate.2.1, hline'] at hc'
    simp [parseLoop, parseChar, hs, findeol] at hc hc'
    rw [← hc'] at hargs'
    rw [← hc, show PconfCtx.args _ = [['a']] from hargs'] at hargs
    exact absurd hargs (by decide)
  case collect =>
    simp [parseLoop, parseChar, hs, collect, isspace, addchar, hw, pconfDefaultWordlenLimit] at hc
    obtain ⟨rfl, -⟩ := hc
    exact @args_endofword_ne { ctx with state := .collect, wordbuf := ['"', '"'] } hn (.inl (by simp)) hargs
  case quotecollect =>
    simp [parseLoop, parseChar, hs, quotecollect, findwordstart, isspace] at hc
  case qcLiteral =>
    simp [parseLoop, parseChar, hs, qcLiteral, quotecollect, findwordstart, addchar_quote hw] at hc
    obtain ⟨rfl, -⟩ := hc
    exact @args_endofword_ne { ctx with state := .quotecollect, wordbuf := ['"'] } hn (.inl (by simp)) hargs
  case collectliteral =>
    simp [parseLoop, parseChar, hs, collectliteral, collect, isspace, addchar, hw, pconfDefaultWordlenLimit] at hc
    obtain ⟨rfl, -⟩ := hc
    exact @args_endofword_ne { ctx with state := .collect, wordbuf := ['"', '"'] } hn (.inl (by simp)) hargs
  case endofline => exact hstate.1 hs
  case parseerr => exact hstate.2.1 hs

/-- Quoted words come back from `pconf_line` on every context between two lines, and from `pconf_char` on the ready
ones. -/
theorem quoted_roundtrip_iff (h : BetweenLines ctx) :
    (∀ size l, Quotable size l → LineGives ctx (quotedLine size l) l) ∧
      ((∀ size l, Quotable size l → CharsGive ctx (quotedLine size l) l) ↔ Ready ctx) :=
  ⟨fun _ _ hl => hl.line h, ready_of_chars h, fun hr _ _ hl => hl.chars h hr⟩

end

/-- After the line `a` of `pconf_line`, the characters of a quoted word are added to that line. -/
theorem quoted_after_line :
    ¬(∀ ctx, BetweenLines ctx → ∀ size l, Quotable size l → LineGives ctx (quotedLine size l) l ∧
      CharsGive ctx (quotedLine size l) l) := by
  intro hall
  obtain ⟨-, c, hc, hargs, -⟩ := hall (pconfLine pconfInit ['a']) (.line .init ['a']) 2 [['b']]
    ⟨by decide, by decide, by decide, by decide, by decide⟩
  have hchar : (charLine (pconfLine pconfInit ['a']) (quotedLine 2 [['b']] ++ ['\n'])).1.args =
      [['a'], ['"', 'b', '"']] := by decide
  rw [hc, hargs] at hchar
  exact absurd hchar (by decide)

theorem quoted_roundtrip_init : CharsGive pconfInit (quotedLine 9 ["a#b".toList, [], "\"=\" ".toList]) ["a#b".toList, [], "\"=\" ".toList] :=
  (quoted_roundtrip_iff .init).2.2 (.inr (.inr ⟨rfl, rfl⟩)) 9 _ ⟨by decide, by decide, by decide, by decide, by decide⟩

end Nut
