import Nut.Common.Lines

/-!
# The end of a file

What `pconf_file_next` returns, call after call, for a file that does not end in a newline, compared with the same file
and a newline.  The last line is lost if it is a single bare word, since the end of the file looks at the number of
arguments before it looks for a word that is still being built; nothing else is, but for a bare word of which every
character was dropped (`eof_ends_line_iff`).
-/

namespace Nut

open ChunkReader Lexer

/-- The argument lists of the first calls of `pconf_file_next`, until one of them returns 0. -/
def fileLists : Nat → PconfCtx → CStr → List (List CStr)
  | 0, _, _ => []
  | n + 1, ctx, f =>
    match pconfFileNext ctx f with
    | (ctx, rest, true) => ctx.args :: fileLists n ctx rest
    | (_, _, false) => []

/-- The argument lists of a file: every call but the last takes a character. -/
def fileArgs (ctx : PconfCtx) (f : CStr) : List (List CStr) := fileLists (f.length + 1) ctx f

/-- What the lexer has read of the last line of the file. -/
def lastLine (f : CStr) : Lexer := f.foldl (fun l ch => (l.step ch).1) .start

/-- The file ends inside a quoted word or after a backslash. -/
def EndsOpen (f : CStr) : Prop :=
  (lastLine f).mode = .quoted ∨ (lastLine f).mode = .quotedEsc ∨ (lastLine f).mode = .bareEsc

instance (f : CStr) : Decidable (EndsOpen f) := inferInstanceAs (Decidable (_ ∨ _))

/-- The file ends in a bare word that is the only one of its line, or of which every character was dropped. -/
def EndsInLostWord (f : CStr) : Prop :=
  (lastLine f).mode = .bare ∧ ((lastLine f).words = [] ∨
    (lastLine f).word = [] ∧ (lastLine f).words.length < pconfDefaultArgLimit)

/-- The lists are the same apart from a final empty list. -/
def SameLists (lists lists' : List (List CStr)) : Prop := lists' = lists ∨ lists' = lists ++ [[]]

section

variable {ctx c : PconfCtx} {f rest : CStr}

theorem parseLoop_append_some (h : parseLoop ctx f = (c, some rest)) (more : CStr) :
    parseLoop ctx (f ++ more) = (c, some (rest ++ more)) := by
  induction f generalizing ctx with
  | nil => simp [parseLoop] at h
  | cons ch f ih =>
    rw [parseLoop] at h
    rw [List.cons_append, parseLoop]
    split_ifs at h ⊢ with h1 h2
    · obtain ⟨rfl, hr⟩ := Prod.mk.inj h
      rw [Option.some.inj hr]
    · obtain ⟨rfl, hr⟩ := Prod.mk.inj h
      rw [Option.some.inj hr]
    · exact ih h

theorem parseLoop_append_none (h : parseLoop ctx f = (c, none)) (more : CStr) :
    parseLoop ctx (f ++ more) = parseLoop c more := by
  induction f generalizing ctx with
  | nil =>
    obtain ⟨rfl, -⟩ := Prod.mk.inj h
    rfl
  | cons ch f ih =>
    rw [parseLoop] at h
    rw [List.cons_append, parseLoop]
    split_ifs at h ⊢ with h1 h2
    · simp at h
    · simp at h
    · exact ih h

theorem length_rest (h : parseLoop ctx f = (c, some rest)) : rest.length < f.length := by
  induction f generalizing ctx with
  | nil => simp [parseLoop] at h
  | cons ch f ih =>
    rw [parseLoop] at h
    rw [List.length_cons]
    split_ifs at h with h1 h2
    · rw [← Option.some.inj (Prod.mk.inj h).2]
      omega
    · rw [← Option.some.inj (Prod.mk.inj h).2]
      omega
    · have hlt := ih h
      omega

theorem fileLists_nil (n : Nat) (ctx : PconfCtx) : fileLists n ctx [] = [] := by
  cases n <;> rfl

/-- A call that finds something takes a character of the file. -/
theorem length_of_fileNext (h : pconfFileNext ctx f = (c, rest, true)) : rest.length < f.length := by
  unfold pconfFileNext at h
  rcases hp : parseLoop (newLine ctx) f with ⟨c', _ | rest'⟩
  · rw [hp] at h
    cases f with
    | nil =>
      obtain ⟨rfl, -⟩ := Prod.mk.inj hp
      simp [newLine, startOver, PconfCtx.onLine] at h
    | cons ch f =>
      dsimp only at h
      split_ifs at h
      · obtain ⟨-, hr⟩ := Prod.mk.inj h
        rw [← (Prod.mk.inj hr).1]
        simp
      · simp at h
  · rw [hp] at h
    obtain ⟨-, hr⟩ := Prod.mk.inj h
    rw [← (Prod.mk.inj hr).1]
    exact length_rest hp

/-- More calls than the file has characters return nothing more. -/
theorem fileLists_eq {n : Nat} (hn : f.length < n) : fileLists n ctx f = fileArgs ctx f := by
  have more : ∀ n m ctx f, List.length f < n → List.length f < m → fileLists n ctx f = fileLists m ctx f := by
    intro n
    induction n with
    | zero => intro m ctx f hn; omega
    | succ n ih =>
      intro m ctx f hn hm
      obtain ⟨m, rfl⟩ : ∃ k, m = k + 1 := ⟨m - 1, by omega⟩
      rw [fileLists, fileLists]
      rcases h : pconfFileNext ctx f with ⟨c, rest, _ | _⟩
      · rfl
      · have hlt := length_of_fileNext h
        exact congrArg _ (ih m c rest (by omega) (by omega))
  exact more n _ ctx f hn (Nat.lt_succ_self _)

/-- The lexer goes along with the loop of `pconf_file_next` to the end of the file. -/
theorem reading_of_none {A : List CStr} {l : Lexer} (h : Reading A l ctx) (hp : parseLoop ctx f = (c, none)) :
    Reading A (f.foldl (fun l ch => (l.step ch).1) l) c := by
  induction f generalizing l ctx with
  | nil =>
    obtain ⟨rfl, -⟩ := Prod.mk.inj hp
    exact h
  | cons ch f ih =>
    rw [parseLoop] at hp
    split_ifs at hp with h2 h1
    · simp at hp
    · simp at hp
    · rcases h.step ch with ⟨t, hl, -, -, h'⟩ | ⟨ws, hl, h1', -⟩ | ⟨hl, h2'⟩
      · rw [List.foldl_cons, hl]
        exact ih h' hp
      · exact absurd h1' h1
      · exact absurd h2' h2

/-- At the end of a line the lexer starts afresh with the rest of the file. -/
theorem lastLine_of_some {A : List CStr} {l : Lexer} (h : Reading A l ctx) (hp : parseLoop ctx f = (c, some rest)) :
    f.foldl (fun l ch => (l.step ch).1) l = lastLine rest := by
  induction f generalizing l ctx with
  | nil => simp [parseLoop] at hp
  | cons ch f ih =>
    rw [List.foldl_cons]
    rw [parseLoop] at hp
    rcases h.step ch with ⟨t, hl, h1, h2, h'⟩ | ⟨ws, hl, h1, -⟩ | ⟨hl, h2⟩
    · rw [if_neg h2, if_neg h1] at hp
      rw [hl]
      exact ih h' hp
    · have h2 : (parseChar ctx ch).state ≠ .parseerr := by rw [h1]; decide
      rw [if_neg h2, if_pos h1] at hp
      rw [hl, ← Option.some.inj (Prod.mk.inj hp).2]
      rfl
    · rw [if_pos h2] at hp
      have hstart : (l.step ch).1 = .start := by
        rcases hs : l.step ch with ⟨t, o⟩
        rw [hs] at hl
        obtain rfl : o = .reject := hl
        exact Lexer.delimited.reject l ch t hs
      rw [hstart, ← Option.some.inj (Prod.mk.inj hp).2]
      rfl

theorem reading_newLine (h : ctx.wordbuf = []) : Reading ctx.arglist .start (newLine ctx) :=
  ⟨rfl, fun _ => rfl, h, rfl, rfl⟩

/-- A word that is still being built is tied off. -/
theorem args_lingering {A : List CStr} {l : Lexer} (h : Reading A l c) :
    (lingering c).args = if l.word ≠ [] then l.close.words else l.words := by
  unfold lingering
  rw [h.2.2.wordbuf]
  split_ifs
  · have hload := h.2.2.endofword
    rw [PconfCtx.args, hload.numargs, hload.arglist, List.take_left]
  · exact h.args

theorem sameLists_cons (ws : List CStr) (lists lists' : List (List CStr)) :
    SameLists (ws :: lists) (ws :: lists') ↔ SameLists lists lists' := by
  simp only [SameLists, List.cons_append, List.cons.injEq, true_and]

theorem length_pos_iff {α : Type*} {l : List α} : l.length ≠ 0 ↔ l ≠ [] := by
  rw [ne_eq, List.length_eq_zero_iff]

/-- A line without an unfinished word is the same for the end of the file and for a newline, but for an empty one. -/
theorem sameLists_ended {A : List CStr} {l : Lexer} (h : Reading A l c) (hw : l.word = []) :
    SameLists (if c.numargs ≠ 0 then [(lingering c).args] else []) [l.words] := by
  rw [args_lingering h, h.2.2.numargs]
  by_cases hn : l.words = []
  · rw [hn]
    exact .inr rfl
  · rw [if_pos (length_pos_iff.2 hn), if_neg fun hne => hne hw]
    exact .inl rfl

/-- A bare word at the end of the file is lost if it is the only one of its line, or if nothing of it is left. -/
theorem sameLists_bare {A : List CStr} {l : Lexer} (h : Reading A l c) :
    SameLists (if c.numargs ≠ 0 then [(lingering c).args] else []) [l.close.words] ↔
      ¬(l.words = [] ∨ l.word = [] ∧ l.words.length < pconfDefaultArgLimit) := by
  rw [args_lingering h, h.2.2.numargs]
  by_cases hn : l.words = []
  · -- the only word is not looked for
    rw [hn]
    have hone : l.close.words = [l.word] := by
      simp [Lexer.close, hn, pconfDefaultArgLimit]
    simp [hone, SameLists]
  · rw [if_pos (length_pos_iff.2 hn)]
    by_cases hw : l.word = []
    · rw [if_neg fun hne => hne hw]
      by_cases hlimit : l.words.length < pconfDefaultArgLimit
      · have hmore : l.close.words = l.words ++ [[]] := by
          simp [Lexer.close, hw, not_le.2 hlimit]
        simp [hmore, hn, hw, hlimit, SameLists]
      · have hfull : l.close.words = l.words := by
          simp [Lexer.close, not_lt.1 hlimit]
        simp [hfull, hn, hlimit, SameLists]
    · rw [if_pos hw]
      simp [hn, hw, SameLists]

/-- What the end of the file and a newline make of the last line. -/
theorem sameLists_last {A : List CStr} {l : Lexer} (h : Reading A l c)
    (hopen : ¬(l.mode = .quoted ∨ l.mode = .quotedEsc ∨ l.mode = .bareEsc)) :
    ∃ c', parseLoop c ['\n'] = (c', some []) ∧
      (SameLists (if c.numargs ≠ 0 then [(lingering c).args] else []) [c'.args] ↔
        ¬(l.mode = .bare ∧ (l.words = [] ∨ l.word = [] ∧ l.words.length < pconfDefaultArgLimit))) := by
  obtain ⟨ws, hstep, hws⟩ : ∃ ws, l.step '\n' = (.start, .item ws) ∧
      ws = if l.mode = .bare then l.close.words else l.words := by
    obtain ⟨ws, w, m⟩ := l
    cases m <;> simp_all [Lexer.step]
  rcases h.step '\n' with ⟨t, hl, -⟩ | ⟨ws', hl, h1, hargs⟩ | ⟨hl, -⟩
  · simp [hl] at hstep
  · rw [hstep] at hl
    obtain rfl : ws = ws' := Outcome.item.inj (Prod.mk.inj hl).2
    have h2 : (parseChar c '\n').state ≠ .parseerr := by rw [h1]; decide
    refine ⟨parseChar c '\n', by rw [parseLoop, if_neg h2, if_pos h1], ?_⟩
    rw [hargs, hws]
    by_cases hbare : l.mode = .bare
    · rw [if_pos hbare, sameLists_bare h]
      simp only [hbare, true_and]
    · have hended : l.mode = .between ∨ l.mode = .comment := by
        rcases hm : l.mode <;> simp_all
      rw [if_neg hbare]
      exact iff_of_true (sameLists_ended h (h.2.1 hended)) fun hlost => hbare hlost.1
  · simp [hstep] at hl

/-- The last calls, for a file whose last line begins here. -/
theorem sameLists_of_none {n : Nat} {A : List CStr} {l : Lexer} (hp : parseLoop (newLine ctx) f = (c, none))
    (h : Reading A l c) (hopen : ¬(l.mode = .quoted ∨ l.mode = .quotedEsc ∨ l.mode = .bareEsc)) :
    SameLists (fileLists (n + 1) ctx f) (fileLists (n + 2) ctx (f ++ ['\n'])) ↔
      ¬(l.mode = .bare ∧ (l.words = [] ∨ l.word = [] ∧ l.words.length < pconfDefaultArgLimit)) := by
  obtain ⟨c', hnewline, hiff⟩ := sameLists_last h hopen
  have hend : parseLoop (newLine ctx) (f ++ ['\n']) = (c', some []) := (parseLoop_append_none hp _).trans hnewline
  have hwith : fileLists (n + 2) ctx (f ++ ['\n']) = [c'.args] := by
    rw [fileLists, pconfFileNext, hend]
    dsimp only
    rw [fileLists_nil]
  have hwithout : fileLists (n + 1) ctx f = if c.numargs ≠ 0 then [(lingering c).args] else [] := by
    rw [fileLists, pconfFileNext, hp]
    dsimp only
    by_cases hn : c.numargs ≠ 0
    · rw [if_pos hn, if_pos hn]
      dsimp only
      rw [fileLists_nil]
    · rw [if_neg hn, if_neg hn]
  rw [hwith, hwithout, hiff]

end

/-- What `pconf_file_next` returns until it returns 0 is the same for a file and for the file followed by a newline, apart
from a final empty list, exactly if the file does not end in a word that is lost; the file may end anywhere but inside a
quoted word or after a backslash. -/
theorem eof_ends_line_iff {ctx : PconfCtx} (hctx : BetweenLines ctx) (f : CStr) (hopen : ¬EndsOpen f) :
    SameLists (fileArgs ctx f) (fileArgs ctx (f ++ ['\n'])) ↔ ¬EndsInLostWord f := by
  have lists : ∀ n (ctx : PconfCtx) f, ctx.wordbuf = [] → List.length f < n → ¬EndsOpen f →
      (SameLists (fileLists n ctx f) (fileLists (n + 1) ctx (f ++ ['\n'])) ↔ ¬EndsInLostWord f) := by
    intro n
    induction n with
    | zero => intro ctx f _ hn; omega
    | succ n ih =>
      intro ctx f hw hn hopen
      have hread := reading_newLine hw
      rcases hp : parseLoop (newLine ctx) f with ⟨c, _ | rest⟩
      · exact sameLists_of_none hp (reading_of_none hread hp) hopen
      · -- a whole line, after which the rest of the file is read
        have hlast : lastLine f = lastLine rest := lastLine_of_some hread hp
        have hlt := length_rest hp
        have hend : c.wordbuf = [] := by
          have htidy := parseLoop_tidy (tidy_newLine hw) f
          rw [hp] at htidy
          rcases parseLoop_state hp with hs | hs
          · exact htidy.wordbuf (.inr (.inr (.inl hs)))
          · exact htidy.wordbuf (.inr (.inr (.inr hs)))
        have hwithout : fileLists (n + 1) ctx f = c.args :: fileLists n c rest := by
          rw [fileLists, pconfFileNext, hp]
        have hwith : fileLists (n + 2) ctx (f ++ ['\n']) = c.args :: fileLists (n + 1) c (rest ++ ['\n']) := by
          rw [fileLists, pconfFileNext, parseLoop_append_some hp]
        rw [hwithout, hwith, sameLists_cons, ih c rest hend (by omega) (by rwa [EndsOpen, ← hlast])]
        rw [EndsInLostWord, EndsInLostWord, hlast]
  have hsame := lists (f.length + 1) ctx f hctx.tidy.2 (Nat.lt_succ_self _) hopen
  rwa [fileLists_eq (by simp : (f ++ ['\n']).length < f.length + 1 + 1)] at hsame

theorem eof_ends_line_monitor :
    SameLists (fileArgs pconfInit "MONITOR su@host 1".toList) (fileArgs pconfInit ("MONITOR su@host 1".toList ++ ['\n'])) ↔
      ¬EndsInLostWord "MONITOR su@host 1".toList :=
  eof_ends_line_iff .init _ (by decide +kernel)

/-- A word on a line of its own is lost at the end of the file. -/
theorem eof_word_lost : ¬SameLists (fileArgs pconfInit "FSD".toList) (fileArgs pconfInit ("FSD".toList ++ ['\n'])) := by
  have hwithout : fileArgs pconfInit "FSD".toList = [] := by decide +kernel
  have hwith : fileArgs pconfInit ("FSD".toList ++ ['\n']) = [["FSD".toList]] := by decide +kernel
  rw [hwithout, hwith, SameLists]
  decide +kernel

end Nut
