import Nut.Common.Endings

/-!
# Lines that go on, and lines that are given up

A backslash before a newline joins two lines.  Between two words it also begins a word, which is empty as long as nothing
comes: a blank, a comment, `=` or the end of the line then completes it, and a quote after it is a character of it
(`continued_iff`).

After a parse error the next call goes on behind the `#`, in the middle of the line (`rejected_line_iff`).
-/

namespace Nut

open ChunkReader Lexer

namespace Lexer

variable {l : Lexer} {ws : List CStr} {c : Char} {f : CStr}

/-- The next character does something else in an empty word than between words. -/
def SplitsWord (l : Lexer) (c : Char) : Prop :=
  l.mode = .between ∧
    (c = '"' ∨ l.words.length < pconfDefaultArgLimit ∧ (isspace c = true ∨ c = '#' ∨ c = '='))

/-! ### What a joined line does -/

/-- Between words there is no unfinished word, wherever the file is cut. -/
theorem tidy_lastLine (p : CStr) : (lastLine p).Tidy := by
  have after : ∀ (p : CStr) (l : Lexer), l.Tidy → (p.foldl (fun l ch => (l.step ch).1) l).Tidy := by
    intro p
    induction p with
    | nil => exact fun l h => h
    | cons c p ih =>
      intro l h
      rw [List.foldl_cons]
      refine ih _ ?_
      rcases hc : l.step c with ⟨t, _ | ws | _⟩
      · obtain ⟨ws, w, m⟩ := l
        have hmoves := moves_of_step hc
        cases hmoves <;> simp_all [Lexer.Tidy]
      · rw [(delimited.item l c t ws hc).2]
        exact fun _ => rfl
      · rw [delimited.reject l c t hc]
        exact fun _ => rfl
  exact after p start fun _ => rfl

/-- In a word the parser goes on as if nothing had been there. -/
theorem lists_continued (h : l.mode = .quoted ∨ l.mode = .bare) (f : CStr) : l.lists ('\\' :: '\n' :: f) = l.lists f := by
  obtain ⟨ws, w, m⟩ := l
  rcases h with h | h
  · obtain rfl : m = .quoted := h
    rfl
  · obtain rfl : m = .bare := h
    rfl

/-- Between words a word has begun. -/
theorem lists_continued_between (h : l.mode = .between) (f : CStr) :
    l.lists ('\\' :: '\n' :: f) = (l.into .bare).lists f := by
  obtain ⟨ws, w, m⟩ := l
  obtain rfl : m = .between := h
  rfl

/-- What is kept of a character does not depend on the mode. -/
theorem keep_word_mode (ws : List CStr) (w : CStr) (m m' : Mode) (c : Char) :
    (keep ⟨ws, w, m⟩ c).word = (keep ⟨ws, w, m'⟩ c).word := by
  unfold keep
  split_ifs <;> rfl

theorem step_empty_word (h : ¬SplitsWord ⟨ws, [], .between⟩ c) : step ⟨ws, [], .bare⟩ c = step ⟨ws, [], .between⟩ c := by
  simp only [SplitsWord, true_and, not_or, not_and] at h
  obtain ⟨hquote, hrest⟩ := h
  have hkeep := keep_word_mode ws [] .bare .between c
  by_cases hlimit : ws.length < pconfDefaultArgLimit
  · have hc := hrest hlimit
    have hnl : c ≠ '\n' := by
      rintro rfl
      exact hc.1 rfl
    simp [step, hc, hquote, hnl, hkeep, into]
  · -- there is no room for another word
    have hclose : ∀ w m, close ⟨ws, w, m⟩ = ⟨ws, [], m⟩ := by
      intro w m
      unfold close
      rw [if_pos (not_lt.1 hlimit)]
    have hequals : ∀ m, close (keep ⟨ws, [], m⟩ c) = ⟨ws, [], m⟩ := by
      intro m
      unfold keep
      split_ifs <;> rw [hclose]
    simp only [step, hclose, hequals, hquote, into, if_false]
    split_ifs <;> simp_all

/-- With one word more on its line. -/
structure Ahead (l l' : Lexer) : Prop where
  mode : l'.mode = l.mode
  word : l'.word = l.word
  words : l'.words.length = l.words.length + 1

namespace Ahead

variable {l' : Lexer}

theorem into (h : Ahead l l') (m : Mode) : Ahead (l.into m) (l'.into m) := ⟨rfl, h.word, h.words⟩

theorem keep (h : Ahead l l') (c : Char) : Ahead (l.keep c) (l'.keep c) := by
  refine ⟨by rw [keep_mode, keep_mode, h.mode], ?_, by rw [keep_words, keep_words, h.words]⟩
  unfold Lexer.keep
  rw [h.word]
  split_ifs
  · exact h.word
  · exact h.word
  · rfl

theorem close (h : Ahead l l') (hlimit : l.close.words.length < pconfDefaultArgLimit) : Ahead l.close l'.close := by
  have hroom : l.words.length + 1 < pconfDefaultArgLimit := by
    unfold Lexer.close at hlimit
    split_ifs at hlimit with hfull
    · exact absurd hlimit (not_lt.2 hfull)
    · simpa using hlimit
  refine ⟨by rw [close_mode, close_mode, h.mode], by rw [close_word, close_word], ?_⟩
  have hwords := h.words
  unfold Lexer.close
  rw [if_neg (by omega), if_neg (by omega)]
  simp [hwords]

theorem length_of_closed (l : Lexer) (c : Char) : l.close.words.length ≤ (l.close.keep c).close.words.length := by
  have hpre := (words_close (l.close.keep c)).length_le
  rwa [keep_words] at hpre

/-- What a step does to both, as long as there is room for the words. -/
inductive Step : Lexer × Outcome (List CStr) → Lexer × Outcome (List CStr) → Prop
  | more {t t' : Lexer} (h : t.words.length < pconfDefaultArgLimit → Ahead t t') : Step (t, .more) (t', .more)
  | item {ws ws' : List CStr} (h : ws.length < pconfDefaultArgLimit → ws'.length = ws.length + 1) :
      Step (start, .item ws) (start, .item ws')
  | reject : Step (start, .reject) (start, .reject)

theorem Step.ite {p : Prop} [Decidable p] {r₁ r₂ r₁' r₂' : Lexer × Outcome (List CStr)} (h₁ : p → Step r₁ r₁')
    (h₂ : ¬p → Step r₂ r₂') : Step (if p then r₁ else r₂) (if p then r₁' else r₂') := by
  split_ifs with hp
  · exact h₁ hp
  · exact h₂ hp

theorem step (h : Ahead l l') (c : Char) : Step (l.step c) (l'.step c) := by
  obtain ⟨ws, w, m⟩ := l
  obtain ⟨ws', w', m'⟩ := l'
  obtain rfl : m' = m := h.mode
  have stays (m : Mode) := Step.more fun _ => h.into m
  have keeps (m : Mode) := Step.more fun _ => (h.keep c).into m
  have closes (m : Mode) : Step ((Lexer.close ⟨ws, w, m'⟩).into m, .more) ((Lexer.close ⟨ws', w', m'⟩).into m, .more) :=
    .more fun hlt => (h.close hlt).into m
  cases m'
  case between =>
    refine .ite (fun _ => .item fun _ => h.words) fun _ => .ite (fun _ => stays _) fun _ => .ite (fun _ => stays _) fun _ => ?_
    refine .ite (fun _ => stays _) fun _ => .ite (fun _ => stays _) fun _ => ?_
    exact .ite (fun _ => .more fun hlt => ((h.keep c).close hlt).into _) fun _ => keeps _
  case comment => exact .ite (fun _ => .item fun _ => h.words) fun _ => stays _
  case quoted =>
    exact .ite (fun _ => .reject) fun _ => .ite (fun _ => closes _) fun _ => .ite (fun _ => stays _) fun _ => keeps _
  case quotedEsc => exact .ite (fun _ => stays _) fun _ => keeps _
  case bare =>
    refine .ite (fun _ => closes _) fun _ => .ite (fun _ => .item fun hlt => (h.close hlt).words) fun _ => ?_
    refine .ite (fun _ => closes _) fun _ => .ite (fun _ => .more fun hlt => ?_) fun _ => ?_
    · have hfirst : (Lexer.close ⟨ws, w, .bare⟩).words.length < pconfDefaultArgLimit :=
        (length_of_closed _ c).trans_lt hlt
      exact (((h.close hfirst).keep c).close hlt).into _
    · exact .ite (fun _ => stays _) fun _ => keeps _
  case bareEsc => exact .ite (fun _ => stays _) fun _ => keeps _

end Ahead

/-- The words of the line are among those of the first list. -/
theorem length_of_lists (h : ∀ args ∈ l.lists f, args.length < pconfDefaultArgLimit) :
    l.words.length < pconfDefaultArgLimit := by
  induction f generalizing l with
  | nil =>
    rw [lists] at h
    by_cases hw : l.words = []
    · rw [hw]
      decide
    · rw [if_neg hw] at h
      exact (words_finish l []).length_le.trans_lt (h _ (List.mem_singleton.2 rfl))
  | cons c f ih =>
    rw [lists] at h
    rcases hc : l.step c with ⟨t, _ | ws | _⟩
    · rw [hc] at h
      exact (words_of_moves (moves_of_step hc)).length_le.trans_lt (ih h)
    · rw [hc] at h
      have hws := h ws List.mem_cons_self
      rcases item_of_step hc with ⟨-, rfl⟩ | ⟨-, rfl⟩
      · exact hws
      · exact (words_close l).length_le.trans_lt hws
    · rw [hc] at h
      exact (words_close l).length_le.trans_lt (h _ List.mem_cons_self)

/-- One word more on its line makes a list with one word more. -/
theorem Ahead.lists_ne {l' : Lexer} (h : Ahead l l') (hlimit : ∀ args ∈ l.lists f, args.length < pconfDefaultArgLimit) :
    l'.lists f ≠ l.lists f := by
  induction f generalizing l l' with
  | nil =>
    have hne : l'.words ≠ [] := by
      intro hn
      have hwords := h.words
      rw [hn] at hwords
      simp at hwords
    rw [lists, lists, if_neg hne]
    rw [lists] at hlimit
    by_cases hw : l.words = []
    · simp [hw]
    · rw [if_neg hw] at hlimit ⊢
      have hlast := hlimit _ (List.mem_singleton.2 rfl)
      have hwords := h.words
      intro heq
      have hlen := congrArg List.length (List.cons.inj heq).1
      rw [finish, finish, h.word] at hlen
      rw [finish] at hlast
      split_ifs at hlen hlast with hword
      · omega
      · have hclose := (h.close hlast).words
        omega
  | cons c f ih =>
    rw [lists, lists]
    rw [lists] at hlimit
    have hstep := h.step c
    generalize l.step c = r at hlimit hstep ⊢
    generalize l'.step c = r' at hstep ⊢
    cases hstep with
    | more ht => exact ih (ht (length_of_lists hlimit)) hlimit
    | @item ws ws' hws =>
      have hlen := hws (hlimit ws List.mem_cons_self)
      intro heq
      have heads := congrArg List.length (List.cons.inj heq).1
      omega
    | reject =>
      have hclose := (h.close (hlimit _ List.mem_cons_self)).words
      intro heq
      have heads := congrArg List.length (List.cons.inj heq).1
      omega

/-! ### Where lines are joined -/

/-- A position outside a comment and not after the backslash of an escape. -/
def Joinable (p : CStr) : Prop := (lastLine p).mode = .between ∨ (lastLine p).mode = .quoted ∨ (lastLine p).mode = .bare

instance (p : CStr) : Decidable (Joinable p) := inferInstanceAs (Decidable (_ ∨ _ ∨ _))

/-- The words before a word that splits are the same, and the list has one more. -/
theorem lists_split (ws : List CStr) (hsplit : SplitsWord ⟨ws, [], .between⟩ c) (hquote : c ≠ '"') :
    (∀ f, (∀ args ∈ lists ⟨ws, [], .between⟩ (c :: f), args.length < pconfDefaultArgLimit) →
      lists ⟨ws, [], .bare⟩ (c :: f) ≠ lists ⟨ws, [], .between⟩ (c :: f)) ∧
    ∃ f, lists ⟨ws, [], .bare⟩ (c :: f) ≠ lists ⟨ws, [], .between⟩ (c :: f) := by
  obtain ⟨-, hc | ⟨hlimit, hc⟩⟩ := hsplit
  · exact absurd hc hquote
  have hclose : ∀ w m, close ⟨ws, w, m⟩ = ⟨ws ++ [w], [], m⟩ := fun w m => close_eq hlimit
  have hlen : (ws ++ [[]] : List CStr).length = ws.length + 1 := by simp
  by_cases hnl : c = '\n'
  · -- the list ends here
    subst hnl
    have hbare : ∀ f, lists ⟨ws, [], .bare⟩ ('\n' :: f) = (ws ++ [[]]) :: start.lists f := by
      intro f
      simp [lists, step, hclose]
    have hbetween : ∀ f, lists ⟨ws, [], .between⟩ ('\n' :: f) = ws :: start.lists f := fun f => rfl
    have hne : ∀ f, (ws ++ [[]]) :: start.lists f ≠ ws :: start.lists f := by simp
    exact ⟨fun f _ => by rw [hbare, hbetween]; exact hne f, [], by rw [hbare, hbetween]; exact hne []⟩
  by_cases hhash : c = '#'
  · subst hhash
    have hbare : ∀ f, lists ⟨ws, [], .bare⟩ ('#' :: f) = lists ⟨ws ++ [[]], [], .comment⟩ f := by
      intro f
      simp [lists, step, hclose, into]
    have hbetween : ∀ f, lists ⟨ws, [], .between⟩ ('#' :: f) = lists ⟨ws, [], .comment⟩ f := fun f => rfl
    refine ⟨fun f hf => ?_, ['\n'], ?_⟩
    · rw [hbetween] at hf
      rw [hbare, hbetween]
      exact Ahead.lists_ne ⟨rfl, rfl, hlen⟩ hf
    · rw [hbare, hbetween]
      simp [lists, step]
  by_cases hequals : c = '='
  · subst hequals
    have hkeep : ∀ ws m, keep ⟨ws, [], m⟩ '=' = ⟨ws, ['='], m⟩ := fun ws m =>
      keep_eq (by decide) (by decide) (by decide)
    have hbare : ∀ f, lists ⟨ws, [], .bare⟩ ('=' :: f) =
        lists ((close ⟨ws ++ [[]], ['='], .bare⟩).into .between) f := by
      intro f
      simp [lists, step, hclose, hkeep, isspace]
    have hbetween : ∀ f, lists ⟨ws, [], .between⟩ ('=' :: f) = lists ⟨ws ++ [['=']], [], .between⟩ f := by
      intro f
      simp [lists, step, hclose, hkeep, into, isspace]
    refine ⟨fun f hf => ?_, ['\n'], ?_⟩
    · rw [hbetween] at hf
      rw [hbare, hbetween]
      have hroom := length_of_lists hf
      simp only [List.length_append, List.length_singleton] at hroom
      rw [close_eq (by simpa using hroom)]
      exact Ahead.lists_ne ⟨rfl, rfl, by simp [into]⟩ hf
    · rw [hbare, hbetween]
      intro heq
      have hpre := words_close ⟨ws ++ [[]], ['='], .bare⟩
      have heads : (close ⟨ws ++ [[]], ['='], .bare⟩).words = ws ++ [['=']] := (List.cons.inj heq).1
      rw [heads] at hpre
      exact absurd (next_word hpre List.prefix_rfl) (by decide)
  · have hspace : isspace c = true := by simpa [hhash, hequals] using hc
    have hbare : ∀ f, lists ⟨ws, [], .bare⟩ (c :: f) = lists ⟨ws ++ [[]], [], .between⟩ f := by
      intro f
      simp [lists, step, hclose, hnl, hhash, hspace, into]
    have hbetween : ∀ f, lists ⟨ws, [], .between⟩ (c :: f) = lists ⟨ws, [], .between⟩ f := by
      intro f
      simp [lists, step, hnl, hhash, hspace, into]
    refine ⟨fun f hf => ?_, ['\n'], ?_⟩
    · rw [hbetween] at hf
      rw [hbare, hbetween]
      exact Ahead.lists_ne ⟨rfl, rfl, hlen⟩ hf
    · rw [hbare, hbetween]
      simp [lists, step]

/-- In quotes two newlines are dropped; after the quote of an empty word they are two ends of a line. -/
theorem lists_quote (ws : List CStr) :
    lists ⟨ws, [], .bare⟩ ['"', '\n', '\n'] ≠ lists ⟨ws, [], .between⟩ ['"', '\n', '\n'] := by
  have hkeep : ∀ m, keep ⟨ws, [], m⟩ '\n' = ⟨ws, [], m⟩ := fun m => rfl
  have hbare : (lists ⟨ws, [], .bare⟩ ['"', '\n', '\n']).length = 2 := by
    simp [lists, step, isspace, start]
  have hbetween : lists ⟨ws, [], .between⟩ ['"', '\n', '\n'] = if ws = [] then [] else [finish ⟨ws, [], .quoted⟩ []] := by
    simp [lists, step, isspace, hkeep, into]
  intro heq
  rw [heq, hbetween] at hbare
  split_ifs at hbare
  simp at hbare

end Lexer

/-- A backslash and a newline at the end of a file change nothing, and within a file they change nothing whatever comes
after the next character exactly if that does not split a word; where it does, but for a quote, they change every file with
room for another word on each line. -/
theorem continued_iff {ctx : PconfCtx} (hctx : BetweenLines ctx) (p : CStr) (hp : Joinable p) :
    fileArgs ctx (p ++ ['\\', '\n']) = fileArgs ctx p ∧
    (∀ c, (∀ r, fileArgs ctx (p ++ '\\' :: '\n' :: c :: r) = fileArgs ctx (p ++ c :: r)) ↔ ¬SplitsWord (lastLine p) c) ∧
    ∀ c r, SplitsWord (lastLine p) c → c ≠ '"' →
      (∀ args ∈ fileArgs ctx (p ++ c :: r), args.length < pconfDefaultArgLimit) →
      fileArgs ctx (p ++ '\\' :: '\n' :: c :: r) ≠ fileArgs ctx (p ++ c :: r) := by
  obtain ⟨pre, hpre⟩ := lists_append p
  have htidy := tidy_lastLine p
  have hend : fileArgs ctx p = pre ++ (lastLine p).lists [] := by
    rw [fileArgs_eq hctx, ← hpre, List.append_nil]
  simp only [fileArgs_eq hctx, hpre, List.append_cancel_left_eq, ne_eq]
  rw [fileArgs_eq hctx] at hend
  rw [hend, List.append_cancel_left_eq]
  by_cases hword : (lastLine p).mode = .quoted ∨ (lastLine p).mode = .bare
  · -- in a word nothing splits
    have hnot : ∀ c, ¬SplitsWord (lastLine p) c := by
      rintro c ⟨hm, -⟩
      rcases hword with h | h <;> simp [h] at hm
    refine ⟨lists_continued hword [], fun c => iff_of_true (fun r => lists_continued hword _) (hnot c), ?_⟩
    exact fun c r hsplit => absurd hsplit (hnot c)
  · have hbetween : (lastLine p).mode = .between := by
      rcases hp with h | h | h
      · exact h
      · exact absurd (.inl h) hword
      · exact absurd (.inr h) hword
    rcases hl : lastLine p with ⟨ws, w, m⟩
    rw [hl] at hbetween htidy
    obtain rfl : m = .between := hbetween
    obtain rfl : w = [] := htidy (.inl rfl)
    have hjoin : ∀ f, lists ⟨ws, [], .between⟩ ('\\' :: '\n' :: f) = lists ⟨ws, [], .bare⟩ f :=
      fun f => lists_continued_between rfl f
    simp only [hjoin]
    refine ⟨rfl, fun c => ?_, fun c r hsplit hquote hlimit => ?_⟩
    · by_cases hsplit : SplitsWord ⟨ws, [], .between⟩ c
      · refine iff_of_false (fun hall => ?_) (not_not.2 hsplit)
        by_cases hquote : c = '"'
        · rw [hquote] at hall
          exact lists_quote ws (hall ['\n', '\n'])
        · obtain ⟨f, hf⟩ := (lists_split ws hsplit hquote).2
          exact hf (hall f)
      · refine iff_of_true (fun r => ?_) hsplit
        have hclose : (close ⟨ws, [], .bare⟩).words = (close ⟨ws, [], .between⟩).words := by
          unfold close
          split_ifs <;> rfl
        rw [lists, lists, step_empty_word hsplit, hclose]
    · refine (lists_split ws hsplit hquote).1 r fun args hargs => ?_
      exact hlimit args (List.mem_append_right _ hargs)

theorem continued_between : fileArgs pconfInit ("a ".toList ++ '\\' :: '\n' :: 'b' :: ['\n']) =
    fileArgs pconfInit ("a ".toList ++ 'b' :: ['\n']) := by
  have hnot : ¬SplitsWord (lastLine "a ".toList) 'b' := by
    rintro ⟨-, h⟩
    revert h
    decide +kernel
  exact ((continued_iff .init "a ".toList (by decide +kernel)).2.1 'b').2 hnot ['\n']

/-- A line that is joined with an indented one has an empty word. -/
theorem continued_indented : Joinable "a ".toList ∧
    fileArgs pconfInit ("a ".toList ++ '\\' :: '\n' :: " b\n".toList) = [["a".toList, [], "b".toList]] ∧
    fileArgs pconfInit ("a ".toList ++ " b\n".toList) = [["a".toList, "b".toList]] := by
  decide +kernel

/-! ### After a parse error -/

/-- Blanks, or blanks and a comment. -/
def Skipped (frag : CStr) : Prop :=
  (frag.dropWhile isspace).head? = none ∨ (frag.dropWhile isspace).head? = some '#'

instance (frag : CStr) : Decidable (Skipped frag) := inferInstanceAs (Decidable (_ ∨ _))

/-- The lists with a word: no reader of a file does anything with an empty one. -/
def filled (lists : List (List CStr)) : List (List CStr) := lists.filter (· ≠ [])

theorem filled_cons_nil (lists : List (List CStr)) : filled ([] :: lists) = filled lists := rfl

theorem filled_cons {ws : List CStr} (h : ws ≠ []) (lists : List (List CStr)) :
    filled (ws :: lists) = ws :: filled lists := by
  simp [filled, h]

theorem ctx_error_of_none {ctx c : PconfCtx} {f : CStr} (h : parseLoop ctx f = (c, none)) : c.error = ctx.error := by
  induction f generalizing ctx with
  | nil =>
    obtain ⟨rfl, -⟩ := Prod.mk.inj h
    rfl
  | cons ch f ih =>
    rw [parseLoop] at h
    split_ifs at h with h2 h1
    · simp at h
    · simp at h
    · exact (ih h).trans (parseChar_error h2)

/-- A call that ends in an error leaves what comes after it. -/
theorem pconfFileNext_append {ctx c : PconfCtx} {line : CStr} (hline : pconfFileNext ctx line = (c, [], true))
    (herr : c.error ≠ ctx.error) (rest : CStr) : pconfFileNext ctx (line ++ rest) = (c, rest, true) := by
  unfold pconfFileNext at hline
  rcases hp : parseLoop (newLine ctx) line with ⟨c', _ | rest'⟩
  · rw [hp] at hline
    dsimp only at hline
    split_ifs at hline
    · obtain ⟨rfl, -⟩ := Prod.mk.inj hline
      have hsame : (lingering c').error = c'.error := by
        unfold lingering
        split_ifs
        · exact endofword_error c'
        · rfl
      exact absurd (hsame.trans (ctx_error_of_none hp)) herr
    · simp at hline
  · rw [hp] at hline
    obtain ⟨rfl, hr⟩ := Prod.mk.inj hline
    obtain rfl : rest' = [] := (Prod.mk.inj hr).1
    rw [pconfFileNext, parseLoop_append_some hp, List.nil_append]

namespace Lexer

/-- A file gives no list if it ends in its first line and before its first word does. -/
theorem lists_eq_nil_iff : l.lists f = [] ↔ ∃ t, silent step l f = some t ∧ t.words = [] := by
  induction f generalizing l with
  | nil =>
    rw [lists]
    by_cases hw : l.words = []
    · rw [if_pos hw]
      exact iff_of_true rfl ⟨l, rfl, hw⟩
    · rw [if_neg hw]
      refine iff_of_false (by simp) ?_
      rintro ⟨t, ht, hwords⟩
      obtain rfl := Option.some.inj ht
      exact hw hwords
  | cons c f ih =>
    rw [lists, silent]
    rcases l.step c with ⟨t, _ | ws | _⟩
    · exact ih
    · simp
    · simp

/-- A word has begun. -/
def Begun (l : Lexer) : Prop := l.words ≠ [] ∨ l.mode.inWord = true

theorem close_ne_nil (l : Lexer) : l.close.words ≠ [] := by
  unfold close
  split_ifs with hfull
  · intro hn
    have hwords : l.words = [] := hn
    rw [hwords] at hfull
    exact absurd hfull (by decide)
  · simp

theorem Begun.more {t : Lexer} (h : Begun l) (hc : l.step c = (t, .more)) : Begun t := by
  obtain ⟨ws, w, m⟩ := l
  have hmoves := moves_of_step hc
  rcases h with h | h
  · exact .inl fun hn => h (List.prefix_nil.1 (hn ▸ words_of_moves hmoves))
  · have hm : m.inWord = true := h
    cases hmoves <;> simp only [Mode.inWord, Bool.false_eq_true] at hm
    case closes | bareComment | ends => exact .inl (close_ne_nil _)
    case bareEquals => exact .inl (close_ne_nil _)
    all_goals exact .inr rfl

/-- Once a word has begun, the next line is read as a part of it, or the line gives a list of its own. -/
theorem Begun.filled_lists (h : Begun l) {frag : CStr} (hfrag : '\n' ∉ frag) :
    ∃ tail, filled (start.lists tail) = [] ∧ filled (l.lists (frag ++ '\n' :: tail)) ≠ [] := by
  induction frag generalizing l with
  | nil =>
    obtain ⟨ws, w, m⟩ := l
    have ended : ∀ {ws : List CStr}, ws ≠ [] → filled (ws :: start.lists []) ≠ [] := by
      intro ws hws
      rw [filled_cons hws]
      simp
    have item : ∀ (ws : List CStr) w, lists ⟨ws, w, .bare⟩ ['\n'] = (close ⟨ws, w, .bare⟩).words :: start.lists [] := by
      intro ws w
      simp [lists, step]
    have quote : ∀ (ws : List CStr) w,
        filled (lists ⟨ws, w, .quoted⟩ ['"', '\n']) = filled ((close ⟨ws, w, .quoted⟩).words :: start.lists []) := by
      intro ws w
      simp [lists, step, into]
    have hdrop : ∀ (ws : List CStr) w f, lists ⟨ws, w, .quoted⟩ ('\n' :: f) = lists ⟨ws, w, .quoted⟩ f := fun ws w f => rfl
    rcases m
    case between | comment =>
      have hws : ws ≠ [] := h.resolve_right (by simp [Mode.inWord])
      exact ⟨[], rfl, ended hws⟩
    case quoted =>
      refine ⟨['"', '\n'], rfl, ?_⟩
      rw [List.nil_append, hdrop, quote]
      exact ended (close_ne_nil _)
    case quotedEsc =>
      refine ⟨['"', '\n'], rfl, ?_⟩
      show filled (lists ⟨ws, w, .quoted⟩ ['"', '\n']) ≠ []
      rw [quote]
      exact ended (close_ne_nil _)
    case bare =>
      refine ⟨[], rfl, ?_⟩
      rw [List.nil_append, item]
      exact ended (close_ne_nil _)
    case bareEsc =>
      refine ⟨['\n'], rfl, ?_⟩
      show filled (lists ⟨ws, w, .bare⟩ ['\n']) ≠ []
      rw [item]
      exact ended (close_ne_nil _)
  | cons c frag ih =>
    simp only [List.mem_cons, not_or] at hfrag
    simp only [List.cons_append, lists]
    rcases hc : l.step c with ⟨t, _ | ws | _⟩
    · exact ih (h.more hc) hfrag.2
    · -- no line ends before the newline
      obtain ⟨ws', w, m⟩ := l
      cases m <;> simp only [step] at hc <;> split_ifs at hc <;> simp_all
    · refine ⟨[], rfl, ?_⟩
      rw [filled_cons (close_ne_nil l)]
      simp

/-- The rest of a line is skipped if it is blank or a comment, and otherwise a word begins in it. -/
theorem lists_skipped {frag : CStr} (hfrag : '\n' ∉ frag) :
    (Skipped frag → ∀ tail, start.lists (frag ++ '\n' :: tail) = [] :: start.lists tail) ∧
    (¬Skipped frag → ∃ tail, filled (start.lists tail) = [] ∧ filled (start.lists (frag ++ '\n' :: tail)) ≠ []) := by
  have comment : ∀ (frag : CStr), '\n' ∉ frag → ∀ tail,
      lists ⟨[], [], .comment⟩ (frag ++ '\n' :: tail) = [] :: start.lists tail := by
    intro frag
    induction frag with
    | nil => exact fun _ tail => rfl
    | cons c frag ih =>
      intro hfrag tail
      simp only [List.mem_cons, not_or] at hfrag
      have hstep : step ⟨[], [], .comment⟩ c = (⟨[], [], .comment⟩, .more) := by
        simp [step, Ne.symm hfrag.1, into]
      rw [List.cons_append, lists, hstep]
      exact ih hfrag.2 tail
  induction frag with
  | nil => exact ⟨fun _ tail => rfl, fun h => absurd (.inl rfl) h⟩
  | cons c frag ih =>
    simp only [List.mem_cons, not_or] at hfrag
    have hnl : c ≠ '\n' := Ne.symm hfrag.1
    by_cases hspace : isspace c = true
    · -- a blank
      have hhash : c ≠ '#' := by
        rintro rfl
        exact absurd hspace (by decide)
      have hskip : Skipped (c :: frag) ↔ Skipped frag := by
        rw [Skipped, List.dropWhile_cons_of_pos hspace, Skipped]
      have hstep : ∀ tail, start.lists (c :: frag ++ '\n' :: tail) = start.lists (frag ++ '\n' :: tail) := by
        intro tail
        rw [List.cons_append, lists]
        simp [step, start, hnl, hhash, hspace, into]
      simp only [hskip, hstep]
      exact ih hfrag.2
    · have hdrop : (c :: frag).dropWhile isspace = c :: frag := List.dropWhile_cons_of_neg hspace
      by_cases hhash : c = '#'
      · subst hhash
        refine ⟨fun _ tail => comment frag hfrag.2 tail, fun h => absurd (.inr ?_) h⟩
        rw [hdrop]
        rfl
      · refine ⟨fun h => ?_, fun _ => ?_⟩
        · rw [Skipped, hdrop] at h
          simp [hhash] at h
        · -- a word begins
          have hbegun : ∃ t, start.step c = (t, .more) ∧ Begun t := by
            simp only [step, start, hnl, hhash, hspace, if_false, Bool.false_eq_true]
            split_ifs
            · exact ⟨_, rfl, .inr rfl⟩
            · exact ⟨_, rfl, .inr rfl⟩
            · exact ⟨_, rfl, .inl (close_ne_nil _)⟩
            · exact ⟨_, rfl, .inr rfl⟩
          obtain ⟨t, hstep, ht⟩ := hbegun
          obtain ⟨tail, hnone, hsome⟩ := ht.filled_lists hfrag.2
          refine ⟨tail, hnone, ?_⟩
          rw [List.cons_append, lists, hstep]
          exact hsome

end Lexer

/-- After a parse error the following calls give the lists of the next line on for every file exactly if the rest of the
line is blank or a comment, empty lists not counted (with them it never is so), and nothing at the end of the file exactly
if the rest of the line completes no word. -/
theorem rejected_line_iff {ctx c : PconfCtx} (hctx : BetweenLines ctx) {line : CStr}
    (hline : pconfFileNext ctx line = (c, [], true)) (hok : ctx.error = false) (herr : c.error = true) {frag : CStr}
    (hfrag : '\n' ∉ frag) :
    (∀ rest, pconfFileNext ctx (line ++ rest) = (c, rest, true)) ∧
    ((∀ tail, filled (fileArgs c (frag ++ '\n' :: tail)) = filled (fileArgs c tail)) ↔ Skipped frag) ∧
    (¬∀ tail, fileArgs c (frag ++ '\n' :: tail) = fileArgs c tail) ∧
    (fileArgs c frag = [] ↔ ∃ l, silent Lexer.step .start frag = some l ∧ l.words = []) := by
  have hc : BetweenLines c := hctx.file hline
  simp only [fileArgs_eq hc]
  obtain ⟨hskipped, hbegun⟩ := lists_skipped hfrag
  refine ⟨pconfFileNext_append hline (by rw [hok, herr]; decide), ⟨fun h => ?_, fun h tail => ?_⟩, fun h => ?_,
    lists_eq_nil_iff⟩
  · by_contra hnot
    obtain ⟨tail, hnone, hsome⟩ := hbegun hnot
    exact hsome ((h tail).trans hnone)
  · rw [hskipped h, filled_cons_nil]
  · by_cases hskip : Skipped frag
    · have hempty := h []
      rw [hskipped hskip, lists_nil] at hempty
      simp at hempty
    · obtain ⟨tail, hnone, hsome⟩ := hbegun hskip
      exact hsome ((congrArg filled (h tail)).trans hnone)

theorem rejected_line_comment :
    filled (fileArgs (pconfFileNext pconfInit "a \"b#".toList).1 (" # c".toList ++ '\n' :: "d\n".toList)) =
      filled (fileArgs (pconfFileNext pconfInit "a \"b#".toList).1 "d\n".toList) := by
  have hline : pconfFileNext pconfInit "a \"b#".toList = ((pconfFileNext pconfInit "a \"b#".toList).1, [], true) := by
    decide +kernel
  exact (rejected_line_iff .init hline rfl (by decide +kernel)
    (by decide +kernel : '\n' ∉ " # c".toList)).2.1.2 (by decide +kernel) "d\n".toList

/-- The end of the rejected line is returned as a line. -/
theorem rejected_line_returned :
    pconfFileNext pconfInit "a \"b#c d\ne f\n".toList =
      ((pconfFileNext pconfInit "a \"b#".toList).1, "c d\ne f\n".toList, true) ∧
    (pconfFileNext pconfInit "a \"b#".toList).1.error = true ∧
    fileArgs (pconfFileNext pconfInit "a \"b#".toList).1 "c d\ne f\n".toList =
      [["c".toList, "d".toList], ["e".toList, "f".toList]] ∧
    fileArgs (pconfFileNext pconfInit "a \"b#".toList).1 "e f\n".toList = [["e".toList, "f".toList]] := by
  decide +kernel

end Nut
