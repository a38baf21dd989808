import Nut.Common.Eof
import Nut.Sync.Unescaped

/-!
# The words of a line and the lists of a file

What the lexer makes of a line that has no newline (`Lexer.finish`), and of a file (`Lexer.lists`): the words of
`pconf_line` are those of the one (`pconfLine_args`), and the lists of the calls of `pconf_file_next` those of the other
(`fileArgs_eq`).  The beginning of a file gives the same lists whatever comes after it (`lists_append`).
-/

namespace Nut

open ChunkReader Lexer

namespace Lexer

/-- The words of the rest of a line, given what was read of it. -/
def finish (l : Lexer) : CStr → List CStr
  | [] => if l.word = [] then l.words else l.close.words
  | c :: s =>
    match l.step c with
    | (t, .more) => t.finish s
    | (_, .item ws) => ws
    | (_, .reject) => l.close.words

/-- The lists of the rest of a file, given what was read of its line. -/
def lists (l : Lexer) : CStr → List (List CStr)
  | [] => if l.words = [] then [] else [l.finish []]
  | c :: f =>
    match l.step c with
    | (t, .more) => t.lists f
    | (t, .item ws) => ws :: t.lists f
    | (t, .reject) => l.close.words :: t.lists f

end Lexer

variable {l : Lexer} {ctx : PconfCtx} {c : Char} {f s : CStr}

theorem finish_append {t : Lexer} (h : silent step l s = some t) (r : CStr) : l.finish (s ++ r) = t.finish r := by
  induction s generalizing l with
  | nil => rw [List.nil_append, Option.some.inj h]
  | cons c s ih =>
    rw [List.cons_append, finish]
    rcases hc : step l c with ⟨t', _ | x | _⟩
    · simp only [silent, hc] at h
      exact ih h
    · simp [silent, hc] at h
    · simp [silent, hc] at h

theorem words_finish (l : Lexer) (s : CStr) : l.words <+: l.finish s := by
  induction s generalizing l with
  | nil =>
    rw [finish]
    split_ifs
    · exact List.prefix_rfl
    · exact words_close l
  | cons c s ih =>
    rw [finish]
    rcases hc : step l c with ⟨t, _ | xs | _⟩
    · exact (words_of_moves (moves_of_step hc)).trans (ih t)
    · rcases item_of_step hc with ⟨-, rfl⟩ | ⟨-, rfl⟩
      · exact List.prefix_rfl
      · exact words_close l
    · exact words_close l

theorem lists_nil : start.lists [] = [] := rfl

/-- The beginning of a file gives the same lists whatever comes after it. -/
theorem lists_append (p : CStr) : ∃ pre, ∀ f, start.lists (p ++ f) = pre ++ (lastLine p).lists f := by
  have after : ∀ (p : CStr) (l : Lexer),
      ∃ pre, ∀ f, l.lists (p ++ f) = pre ++ (p.foldl (fun l ch => (l.step ch).1) l).lists f := by
    intro p
    induction p with
    | nil => exact fun l => ⟨[], fun f => rfl⟩
    | cons c p ih =>
      intro l
      obtain ⟨pre, hpre⟩ := ih (l.step c).1
      rcases hc : l.step c with ⟨t, _ | ws | _⟩
      · exact ⟨pre, fun f => by rw [List.cons_append, lists, hc, List.foldl_cons, ← hpre, hc]⟩
      · exact ⟨ws :: pre, fun f => by
          rw [List.cons_append, lists, hc, List.foldl_cons, List.cons_append, ← hpre, hc]⟩
      · exact ⟨l.close.words :: pre, fun f => by
          rw [List.cons_append, lists, hc, List.foldl_cons, List.cons_append, ← hpre, hc]⟩
  exact after p start

/-! ### The parser -/

/-- The parser gives up at a `#` in quotes, after tying off the word. -/
theorem Reading.args_of_reject {A : List CStr} (h : Reading A l ctx) (hc : (l.step c).2 = .reject) :
    (parseChar ctx c).args = l.close.words := by
  obtain ⟨hstate, -, hload⟩ := h
  obtain ⟨ws, w, m⟩ := l
  have hquoted : m = .quoted ∧ c = '#' := by
    cases m <;> simp only [Lexer.step] at hc
    case quoted =>
      split_ifs at hc with h1
      exact ⟨rfl, h1⟩
    all_goals split_ifs at hc
  obtain ⟨rfl, rfl⟩ := hquoted
  have herr : Loading A ⟨ws, w, .quoted⟩ (pconfSeterr ctx errUnbalanced) := ⟨hload.wordbuf, hload.numargs, hload.arglist⟩
  have hend := herr.endofword
  have hchar : (parseChar ctx '#').args = (endofword (pconfSeterr ctx errUnbalanced)).args := by
    unfold parseChar
    rw [hstate]
    rfl
  rw [hchar, PconfCtx.args, hend.numargs, hend.arglist, List.take_left]

theorem Reading.args_lingering {A : List CStr} (h : Reading A l ctx) : (lingering ctx).args = l.finish [] := by
  rw [Nut.args_lingering h, finish]
  by_cases hw : l.word = []
  · rw [if_neg (not_not.2 hw), if_pos hw]
  · rw [if_pos hw, if_neg hw]

private theorem Reading.args_parseLoop {A : List CStr} (line : CStr) (h : Reading A l ctx) :
    (match parseLoop ctx line with
      | (ctx, some _) => ctx
      | (ctx, none) => lingering ctx).args = l.finish line := by
  induction line generalizing l ctx with
  | nil => exact h.args_lingering
  | cons c line ih =>
    rw [parseLoop, finish]
    rcases h.step c with ⟨t, hl, h1, h2, h'⟩ | ⟨xs, hl, h1, hargs⟩ | ⟨hl, h2⟩
    · rw [if_neg h2, if_neg h1, hl]
      exact ih h'
    · have h2 : (parseChar ctx c).state ≠ .parseerr := by rw [h1]; decide
      rw [if_neg h2, if_pos h1, hl]
      exact hargs
    · rw [if_pos h2]
      rcases hstep : l.step c with ⟨t, _ | xs | _⟩
      · simp [hstep] at hl
      · simp [hstep] at hl
      · exact h.args_of_reject (by rw [hstep])

/-- `pconf_line` reads the words of the line. -/
theorem pconfLine_args (h : BetweenLines ctx) (line : CStr) : (pconfLine ctx line).args = start.finish line :=
  (reading_newLine h.tidy.2).args_parseLoop line

/-- A line that was ended gives its words, and the rest of the file is read from its start. -/
theorem lists_of_some {A : List CStr} {ctx' : PconfCtx} {rest : CStr} (h : Reading A l ctx)
    (hp : parseLoop ctx f = (ctx', some rest)) : l.lists f = ctx'.args :: start.lists rest := by
  induction f generalizing l ctx with
  | nil => simp [parseLoop] at hp
  | cons c f ih =>
    rw [parseLoop] at hp
    rw [lists]
    rcases h.step c with ⟨t, hl, h1, h2, h'⟩ | ⟨ws, hl, h1, hargs⟩ | ⟨hl, h2⟩
    · rw [if_neg h2, if_neg h1] at hp
      rw [hl]
      exact ih h' hp
    · have h2 : (parseChar ctx c).state ≠ .parseerr := by rw [h1]; decide
      rw [if_neg h2, if_pos h1] at hp
      obtain ⟨rfl, hr⟩ := Prod.mk.inj hp
      rw [hl, ← Option.some.inj hr, ← hargs]
    · rw [if_pos h2] at hp
      obtain ⟨rfl, hr⟩ := Prod.mk.inj hp
      have hargs := h.args_of_reject hl
      rcases hstep : step l c with ⟨t, _ | xs | _⟩
      · simp [hstep] at hl
      · simp [hstep] at hl
      · rw [← Option.some.inj hr, hargs, Lexer.delimited.reject l c t hstep]

/-- The end of the file looks at the number of words before it ties off the one that is still being built. -/
theorem lists_of_none {A : List CStr} {ctx' : PconfCtx} (h : Reading A l ctx) (hp : parseLoop ctx f = (ctx', none)) :
    l.lists f = if ctx'.numargs ≠ 0 then [(lingering ctx').args] else [] := by
  induction f generalizing l ctx with
  | nil =>
    obtain ⟨rfl, -⟩ := Prod.mk.inj hp
    rw [lists, h.args_lingering, h.2.2.numargs]
    by_cases hw : l.words = []
    · rw [if_pos hw, if_neg (by simp [hw])]
    · rw [if_neg hw, if_pos (length_pos_iff.2 hw)]
  | cons c f ih =>
    rw [parseLoop] at hp
    split_ifs at hp with h2 h1
    · simp at hp
    · simp at hp
    · rcases h.step c with ⟨t, hl, -, -, h'⟩ | ⟨ws, hl, h1', -⟩ | ⟨hl, h2'⟩
      · rw [lists, hl]
        exact ih h' hp
      · exact absurd h1' h1
      · exact absurd h2' h2

/-- The calls of `pconf_file_next` give the lists of the lexer. -/
theorem fileArgs_eq (h : BetweenLines ctx) (f : CStr) : fileArgs ctx f = start.lists f := by
  have calls : ∀ n (ctx : PconfCtx) f, BetweenLines ctx → List.length f < n → fileLists n ctx f = start.lists f := by
    intro n
    induction n with
    | zero => intro ctx f _ hn; omega
    | succ n ih =>
      intro ctx f hctx hn
      have hread := reading_newLine hctx.tidy.2
      rcases hp : parseLoop (newLine ctx) f with ⟨c, _ | rest⟩
      · rw [fileLists, pconfFileNext, hp, lists_of_none hread hp]
        dsimp only
        by_cases hn : c.numargs ≠ 0
        · rw [if_pos hn, if_pos hn]
          dsimp only
          rw [fileLists_nil]
        · rw [if_neg hn, if_neg hn]
      · have hnext : pconfFileNext ctx f = (c, rest, true) := by rw [pconfFileNext, hp]
        have hlt := length_rest hp
        rw [fileLists, hnext, lists_of_some hread hp]
        exact congrArg _ (ih c rest (hctx.file hnext) (by omega))
  exact calls _ ctx f h (Nat.lt_succ_self _)

end Nut
