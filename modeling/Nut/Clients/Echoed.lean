import Nut.Clients.Lists

/-!
# The lists that a client can read

What `list_read` asks of the lines of a list is needed.  If a client has read as many lines as were sent, and nothing of
them is left, then no line holds a newline, and each fits the buffer of the client (`LinesTaken.fits`).  If it finds its query
in the first of them, then the words of the query are plain (`isWord_of_echoed`).

The latter is by counting characters.  A backslash, a quote that opens a word and a character that is not printable are
spent by the parser (`clean_step`), and no other part of the line can make up for them (`flatten_finish`).
-/

namespace Nut

open ChunkReader Lexer
open scoped List

/-! ### The characters of a line -/

section Words

variable {l t : Lexer} {ws us vs : List CStr} {s r : CStr} {c : Char}

/-- The characters that were kept so far. -/
def Lexer.text (l : Lexer) : CStr := l.words.flatten ++ l.word

theorem text_keep (l : Lexer) (c : Char) : (l.keep c).text <+ l.text ++ [c] := by
  unfold Lexer.text
  rw [keep_words, List.append_assoc]
  refine List.Sublist.append_left ?_ _
  rcases keep_word l c with h | h
  · rw [h]
    exact List.sublist_append_left _ _
  · rw [h]

theorem text_close (l : Lexer) : l.close.text <+ l.text := by
  unfold Lexer.close Lexer.text
  split_ifs
  · exact List.Sublist.append_left (List.nil_sublist _) _
  · simp

theorem text_into (l : Lexer) (m : Mode) : (l.into m).text = l.text := rfl

theorem text_close_keep (l : Lexer) (c : Char) : (l.keep c).close.text <+ l.text ++ [c] :=
  (text_close _).trans (text_keep l c)

/-- A step keeps its character, or not. -/
theorem text_step (h : step l c = (t, .more)) : t.text <+ l.text ++ [c] := by
  have hstay : l.text <+ l.text ++ [c] := List.sublist_append_left _ _
  have hclose : l.close.text <+ l.text ++ [c] := (text_close l).trans hstay
  obtain ⟨ws, w, m⟩ := l
  have hmoves := moves_of_step h
  cases hmoves with
  | comment | blank | escape | opens | ignored | quotedEscape | quotedNewline | bareEscape | bareNewline => exact hstay
  | equals => exact text_close_keep _ '='
  | closes | bareComment | ends => exact hclose
  | starts | quoted | quotedLiteral | bare | bareLiteral => exact text_keep _ c
  | bareEquals => exact (text_close_keep _ '=').trans ((text_close _).append_right _)

theorem flatten_of_item (h : step l c = (t, .item ws)) : ws.flatten <+ l.text := by
  have hwords : l.words.flatten <+ l.text := List.sublist_append_left _ _
  rcases item_of_step h with ⟨-, rfl⟩ | ⟨-, rfl⟩
  · exact hwords
  · exact (List.sublist_append_left _ _).trans (text_close l)

/-- The words of a line are made of its characters, in order. -/
theorem flatten_finish (l : Lexer) (s : CStr) : (l.finish s).flatten <+ l.text ++ s := by
  have hclose (l : Lexer) : l.close.words.flatten <+ l.text := (List.sublist_append_left _ _).trans (text_close l)
  induction s generalizing l with
  | nil =>
    rw [finish, List.append_nil]
    split_ifs
    · exact List.sublist_append_left _ _
    · exact hclose l
  | cons c s ih =>
    have hmore : l.text <+ l.text ++ c :: s := List.sublist_append_left _ _
    rw [finish]
    rcases hc : step l c with ⟨t, _ | ws | _⟩
    · have hstep := (text_step hc).append_right s
      rw [List.append_assoc, List.singleton_append] at hstep
      exact (ih t).trans hstep
    · exact (flatten_of_item hc).trans hmore
    · exact (hclose l).trans hmore

/-! ### Characters that are spent -/

/-- A character other than the blank is missing from the words, up to case. -/
def Spent (ws : List CStr) (text : CStr) : Prop :=
  ∃ x, x ≠ ' ' ∧ (tolower ws.flatten).count x < (tolower text).count x

theorem Spent.mono (h : Spent ws s) (hsub : s <+ r) : Spent ws r := by
  obtain ⟨x, hx, hlt⟩ := h
  exact ⟨x, hx, lt_of_lt_of_le hlt ((hsub.map Char.toLower).count_le x)⟩

theorem spent_of_lost (hsub : ws.flatten <+ s ++ r) (hc : c.toLower ≠ ' ') : Spent ws (s ++ c :: r) := by
  have hle := (hsub.map Char.toLower).count_le c.toLower
  refine ⟨c.toLower, hc, ?_⟩
  unfold tolower
  rw [List.map_append, List.count_append] at hle ⊢
  rw [List.map_cons, List.count_cons_self]
  omega

/-- Every word so far is plain. -/
structure Clean (l : Lexer) : Prop where
  words : ∀ w ∈ l.words, IsWord w
  word : l.word = [] ∧ (l.mode = .between ∨ l.mode = .comment) ∨ IsWord l.word ∧ l.word ≠ ['='] ∧ l.mode = .bare

theorem clean_start : Clean start := ⟨by simp [start], .inl ⟨rfl, .inl rfl⟩⟩

theorem isWord_equals : IsWord ['='] := by decide

theorem words_close_of {w : CStr} {m : Mode} (hws : ∀ v ∈ ws, IsWord v) (hw : IsWord w) :
    ∀ v ∈ (close ⟨ws, w, m⟩).words, IsWord v := by
  unfold Lexer.close
  split_ifs
  · exact hws
  · intro v hv
    rcases List.mem_append.1 hv with hv | hv
    · exact hws v hv
    · rw [List.mem_singleton.1 hv]
      exact hw

/-- A plain word goes on with a character that does not end it. -/
theorem isWord_keep {w : CStr} {m : Mode} (hw : IsWord w) (hne : w ≠ ['='])
    (hc : c ≠ '#' ∧ isspace c = false ∧ c ≠ '=' ∧ c ≠ '\\') :
    IsWord (keep ⟨ws, w, m⟩ c).word ∧ (keep ⟨ws, w, m⟩ c).word ≠ ['='] := by
  unfold Lexer.keep
  split_ifs with hrange hfull
  · exact ⟨hw, hne⟩
  · exact ⟨hw, hne⟩
  · rcases hw.1 with heq | ⟨hnil, hquote, hplain⟩
    · exact absurd heq hne
    have hkept : isKept c := by
      simp only [Bool.or_eq_true, decide_eq_true_eq, not_or] at hrange
      simp only [isKept, Bool.and_eq_true, decide_eq_true_eq]
      omega
    refine ⟨⟨.inr ⟨by simp, ?_, ?_⟩, ?_⟩, ?_⟩
    · show (w ++ [c]).head? ≠ _
      rwa [List.head?_append_of_ne_nil _ hnil]
    · intro d hd
      rcases List.mem_append.1 hd with hd | hd
      · exact hplain d hd
      · rw [List.mem_singleton.1 hd]
        exact plainChar_of_isKept hkept hc
    · show (w ++ [c]).length ≤ _
      rw [List.length_append, List.length_singleton]
      exact Nat.lt_of_not_le hfull
    · intro heq
      have hlen := congrArg List.length heq
      exact hnil (by simpa using hlen)

/-- The first character of a word that is not in quotes. -/
theorem isWord_starts {m : Mode} (hc : c ≠ '#' ∧ isspace c = false ∧ c ≠ '\\' ∧ c ≠ '"' ∧ c ≠ '=') :
    IsWord (keep ⟨ws, [], m⟩ c).word ∧ (keep ⟨ws, [], m⟩ c).word ≠ ['='] ∨
      (keep ⟨ws, [], m⟩ c).word = [] ∧ c.toLower ≠ ' ' := by
  by_cases hkept : isKept c
  · have hplain := plainChar_of_isKept hkept ⟨hc.1, hc.2.1, hc.2.2.2.2, hc.2.2.1⟩
    rw [keep_isKept hkept (by decide)]
    refine .inl ⟨⟨.inr ⟨by simp, ?_, by simpa using hplain⟩, by simp [pconfDefaultWordlenLimit]⟩, ?_⟩
    · simpa using hc.2.2.2.1
    · simpa using hc.2.2.2.2
  · have hrange : c.toNat < 0x20 ∨ 0x7f < c.toNat := by
      simp only [isKept, Bool.and_eq_true, decide_eq_true_eq] at hkept
      omega
    have hk : keep ⟨ws, [], m⟩ c = ⟨ws, [], m⟩ := if_pos (by simpa using hrange)
    refine .inr ⟨by rw [hk], fun hblank => ?_⟩
    rw [toLower_eq hblank (.inl (by decide))] at hkept
    exact hkept rfl

theorem mode_of_reject (h : step l c = (t, .reject)) : l.mode = .quoted := by
  obtain ⟨ws, w, m⟩ := l
  cases m with
  | quoted => rfl
  | between | comment | quotedEsc | bare | bareEsc =>
    simp only [step] at h
    split_ifs at h <;> exact absurd (Prod.mk.inj h).2 (by simp)

/-- The words stay plain, or a character is spent. -/
theorem clean_step (hl : Clean l) (h : step l c = (t, .more)) : Clean t ∨ t.text = l.text ∧ c.toLower ≠ ' ' := by
  obtain ⟨ws, w, m⟩ := l
  obtain ⟨hws, hword⟩ := hl
  have hmoves := moves_of_step h
  rcases hword with ⟨hnil, hm⟩ | ⟨hw, hne, hm⟩
  · simp only at hnil hm hws
    subst hnil
    cases hmoves with
    | comment | ignored => exact .inl ⟨hws, .inl ⟨rfl, .inr rfl⟩⟩
    | blank => exact .inl ⟨hws, .inl ⟨rfl, .inl rfl⟩⟩
    | escape => exact .inr ⟨rfl, by decide⟩
    | opens => exact .inr ⟨rfl, by decide⟩
    | equals =>
      rw [keep_isKept (by decide) (by decide)]
      exact .inl ⟨words_close_of hws isWord_equals, .inl ⟨close_word _, .inl rfl⟩⟩
    | starts hc =>
      -- a character that the parser drops begins no word
      rcases @isWord_starts ws c .between hc with ⟨hw, hne⟩ | ⟨hnil, hblank⟩
      · exact .inl ⟨by rwa [into_words, keep_words], .inr ⟨hw, hne, rfl⟩⟩
      · exact .inr ⟨by rw [text_into, Lexer.text, keep_words, hnil]; rfl, hblank⟩
    | closes | quotedEscape | quoted | quotedNewline | quotedLiteral => simp at hm
    | bareComment | ends | bareEquals | bareEscape | bare | bareNewline | bareLiteral => simp at hm
  · simp only at hm hws hw hne
    subst hm
    have hclosed := @words_close_of ws w .bare hws hw
    cases hmoves with
    | bareComment => exact .inl ⟨hclosed, .inl ⟨close_word _, .inr rfl⟩⟩
    | ends => exact .inl ⟨hclosed, .inl ⟨close_word _, .inl rfl⟩⟩
    | bareEquals =>
      -- `=` ends the word and is one itself
      have hkeep : (close ⟨ws, w, .bare⟩).keep '=' = ⟨(close ⟨ws, w, .bare⟩).words, ['='], .bare⟩ := by
        have hshape : close ⟨ws, w, .bare⟩ = ⟨(close ⟨ws, w, .bare⟩).words, [], .bare⟩ := by
          unfold Lexer.close
          split_ifs <;> rfl
        rw [hshape, keep_isKept (by decide) (by decide)]
        rfl
      rw [hkeep]
      exact .inl ⟨words_close_of hclosed isWord_equals, .inl ⟨close_word _, .inl rfl⟩⟩
    | bareEscape => exact .inr ⟨rfl, by decide⟩
    | bare hc =>
      obtain ⟨hword, hneq⟩ := @isWord_keep ws c w .bare hw hne hc
      exact .inl ⟨by rwa [into_words, keep_words], .inr ⟨hword, hneq, rfl⟩⟩

/-- A line that begins with plain words has no others, or a character of it is spent. -/
theorem words_of_finish (hl : Clean l) (s : CStr) : (∀ w ∈ l.finish s, IsWord w) ∨ Spent (l.finish s) (l.text ++ s) := by
  induction s generalizing l with
  | nil =>
    refine .inl ?_
    rw [finish]
    rcases hl.word with ⟨hnil, -⟩ | ⟨hw, -⟩
    · rw [if_pos hnil]
      exact hl.words
    · split_ifs
      · exact hl.words
      · exact words_close_of hl.words hw
  | cons c s ih =>
    rw [finish]
    rcases hc : step l c with ⟨t, _ | ws | _⟩
    · dsimp only
      rcases clean_step hl hc with ht | ⟨htext, hblank⟩
      · refine (ih ht).imp_right fun hspent => hspent.mono ?_
        have hstep := (text_step hc).append_right s
        rwa [List.append_assoc, List.singleton_append] at hstep
      · have hsub := flatten_finish t s
        rw [htext] at hsub
        exact .inr (spent_of_lost hsub hblank)
    · refine .inl ?_
      rcases item_of_step hc with ⟨-, rfl⟩ | ⟨hm, rfl⟩
      · exact hl.words
      · rcases hl.word with ⟨-, hm' | hm'⟩ | ⟨hw, -⟩
        · rw [hm] at hm'
          cases hm'
        · rw [hm] at hm'
          cases hm'
        · exact words_close_of hl.words hw
    · -- only in quotes is a line given up
      have hquoted := mode_of_reject hc
      rcases hl.word with ⟨-, hm | hm⟩ | ⟨-, -, hm⟩
      · exact absurd (hm.symm.trans hquoted) (by decide)
      · exact absurd (hm.symm.trans hquoted) (by decide)
      · exact absurd (hm.symm.trans hquoted) (by decide)

/-! ### A query that is found in a line -/

theorem count_unwords {x : Char} (hx : x ≠ ' ') (ws : List CStr) :
    (tolower (unwords ws)).count x = (tolower ws.flatten).count x := by
  induction ws with
  | nil => rfl
  | cons w ws ih =>
    rcases ws with _ | ⟨v, ws⟩
    · simp [unwords]
    · have hcons : unwords (w :: v :: ws) = w ++ ' ' :: unwords (v :: ws) := unwords_cons w (List.cons_ne_nil _ _)
      have hblank : (' ').toLower ≠ x := fun h => hx (h ▸ by decide)
      unfold tolower at ih ⊢
      rw [hcons, List.map_append, List.map_cons, List.count_append, List.count_cons_of_ne hblank, ih,
        @List.flatten_cons _ w, List.map_append, List.count_append]

theorem Repeated.tolower_flatten (h : Repeated us vs) : tolower us.flatten = tolower vs.flatten := by
  induction h with
  | nil => rfl
  | cons hone _ ih =>
    unfold tolower at ih ⊢
    rw [List.flatten_cons, List.flatten_cons, List.map_append, List.map_append, ih]
    exact congrArg (· ++ _) (strcasecmp_eq.1 hone)

/-- A line of words is read as these words, up to case, only if they are plain. -/
theorem isWord_of_echoed (hsame : Repeated us vs) (h : vs <+: start.finish (unwords us)) : ∀ w ∈ us, IsWord w := by
  obtain ⟨more, hmore⟩ := h
  rcases words_of_finish clean_start (unwords us) with hall | ⟨x, hx, hlt⟩
  · intro u hu
    obtain ⟨i, hi, rfl⟩ := List.getElem_of_mem hu
    have hi' : i < vs.length := hsame.length_eq ▸ hi
    have hcase := strcasecmp_eq.1 (hsame.get hi hi')
    refine isWord_of_strcasecmp (strcasecmp_eq.2 hcase.symm) (hall _ ?_)
    rw [← hmore]
    exact List.mem_append_left _ (List.getElem_mem hi')
  · have htext : start.text ++ unwords us = unwords us := rfl
    rw [htext, count_unwords hx, hsame.tolower_flatten, ← hmore, List.flatten_append] at hlt
    unfold tolower at hlt
    rw [List.map_append, List.count_append] at hlt
    omega

end Words

/-! ### As many lines as were sent -/

/-- Lines that the client takes from the stream, one after the other. -/
inductive LinesTaken : Nat → CStr → CStr → Prop
  | none (s : CStr) : LinesTaken 0 s s
  | line {n : Nat} {s line mid rest : CStr} (hline : UpsconnT.takeLine s (upscliNetbufLen - 1) = some (line, mid))
      (hrest : LinesTaken n mid rest) : LinesTaken (n + 1) s rest

section Taking

variable {s line rest : CStr} {n : Nat}

/-- A line is taken with its newline, or is as long as there is room for. -/
theorem takeLine_cases (h : UpsconnT.takeLine s n = some (line, rest)) :
    '\n' ∉ line ∧ (s = line ++ '\n' :: rest ∧ line.length < n ∨ s = line ++ rest) := by
  induction n generalizing s line with
  | zero =>
    simp only [UpsconnT.takeLine, Option.some.injEq, Prod.mk.injEq] at h
    obtain ⟨rfl, rfl⟩ := h
    exact ⟨List.not_mem_nil, .inr rfl⟩
  | succ n ih =>
    rcases s with _ | ⟨c, s⟩
    · simp [UpsconnT.takeLine] at h
    · rcases UpsconnT.takeLine_cons h with ⟨rfl, rfl, rfl⟩ | ⟨hc, line', rfl, htake⟩
      · exact ⟨List.not_mem_nil, .inl ⟨rfl, Nat.succ_pos n⟩⟩
      · obtain ⟨hline, hcases⟩ := ih htake
        refine ⟨List.not_mem_cons_of_ne_of_not_mem (Ne.symm hc) hline, ?_⟩
        rcases hcases with ⟨rfl, hlen⟩ | rfl
        · exact .inl ⟨rfl, Nat.succ_lt_succ hlen⟩
        · exact .inr rfl

/-- Each line takes a newline at most. -/
theorem LinesTaken.count (h : LinesTaken n s rest) : s.count '\n' ≤ rest.count '\n' + n := by
  induction h with
  | none s => exact Nat.le_refl _
  | @line n s line mid rest hline _ ih =>
    obtain ⟨hnewline, ⟨rfl, -⟩ | rfl⟩ := takeLine_cases hline
    · rw [List.count_append, List.count_cons_self, List.count_eq_zero.2 hnewline]
      omega
    · rw [List.count_append, List.count_eq_zero.2 hnewline]
      omega

theorem count_wire (lines : List CStr) : lines.length ≤ (wire lines).count '\n' := by
  induction lines with
  | nil => exact Nat.zero_le _
  | cons line lines ih =>
    rw [wire_cons, List.count_append, List.count_cons_self, List.length_cons]
    omega

/-- As many lines as were sent are all that was sent only if each of them fits. -/
theorem LinesTaken.fits {lines : List CStr} (h : LinesTaken lines.length (wire lines) []) :
    ∀ line ∈ lines, '\n' ∉ line ∧ line.length + 2 ≤ upscliNetbufLen := by
  induction lines with
  | nil => simp
  | cons line lines ih =>
    rw [wire_cons, List.length_cons] at h
    cases h with
    | @line _ _ line' mid _ hline hrest =>
      have hcount := hrest.count
      have hmany := count_wire lines
      rw [List.count_nil, Nat.zero_add] at hcount
      obtain ⟨hnewline, hcases⟩ := takeLine_cases hline
      have htotal : (line ++ '\n' :: wire lines).count '\n' = line.count '\n' + (wire lines).count '\n' + 1 := by
        rw [List.count_append, List.count_cons_self]
        omega
      rcases hcases with ⟨heq, hlen⟩ | heq
      · -- one newline was taken, so none is in the line
        rw [heq, List.count_append, List.count_cons_self, List.count_eq_zero.2 hnewline] at htotal
        have hnone : '\n' ∉ line := List.count_eq_zero.1 (by omega)
        have hsame : line = line' ∧ wire lines = mid := by
          have htake := congrArg (fun s => (s.takeWhile (· ≠ '\n'), s.dropWhile (· ≠ '\n'))) heq
          have hall {s : CStr} (hs : '\n' ∉ s) : ∀ c ∈ s, decide (c ≠ '\n') = true := by
            intro c hc
            exact decide_eq_true fun h => hs (h ▸ hc)
          simp only [List.takeWhile_append_of_pos (hall hnone), List.takeWhile_append_of_pos (hall hnewline),
            List.dropWhile_append_of_pos (hall hnone), List.dropWhile_append_of_pos (hall hnewline)] at htake
          simpa using htake
        obtain ⟨rfl, rfl⟩ := hsame
        intro v hv
        rcases List.mem_cons.1 hv with rfl | hv
        · exact ⟨hnone, by omega⟩
        · exact ih hrest v hv
      · rw [heq, List.count_append, List.count_eq_zero.2 hnewline] at htotal
        omega

end Taking

/-! ### What a client reads -/

section

variable {ups mid ups' : Upsconn} {left left' : List NetRead} {query : List CStr} {answers : List (List CStr)} {tmp : CStr} {ctx : PconfCtx}

/-- Every slot of the arguments is in use. -/
def Full (ctx : PconfCtx) : Prop := ctx.arglist.length = ctx.numargs

theorem full_endofword (h : Full ctx) : Full (endofword ctx) := by
  unfold Full at h ⊢
  unfold endofword
  split_ifs
  · exact h
  · simp [addArgWord, h]

theorem full_addchar (h : Full ctx) (ch : Char) : Full (addchar ctx ch) := by
  rwa [Full, addchar_arglist, addchar_numargs]

theorem full_findwordstart (h : Full ctx) (ch : Char) : Full (findwordstart ctx ch).1 := by
  have hadd := full_addchar h ch
  unfold findwordstart
  split_ifs
  · exact h
  · exact h
  · exact h
  · exact h
  · exact h
  · exact full_endofword hadd
  · exact hadd

theorem full_parseChar (h : Full ctx) (ch : Char) : Full (parseChar ctx ch) := by
  have hadd := full_addchar h ch
  have hend := full_endofword h
  have herr : Full (pconfSeterr ctx errUnbalanced) := h
  rcases hs : ctx.state
  case findwordstart =>
    rw [parseChar, hs]
    exact full_findwordstart h ch
  case findeol =>
    simp only [parseChar, hs, findeol]
    split_ifs <;> exact h
  case quotecollect =>
    simp only [parseChar, hs, quotecollect]
    split_ifs
    · exact full_endofword herr
    · exact hend
    · exact h
    · exact hadd
  case qcLiteral =>
    simp only [parseChar, hs, qcLiteral]
    split_ifs
    · exact h
    · exact hadd
  case collect =>
    simp only [parseChar, hs, collect]
    split_ifs
    · exact hend
    · exact hend
    · exact hend
    · exact full_findwordstart hend ch
    · exact h
    · exact hadd
  case collectliteral =>
    simp only [parseChar, hs, collectliteral]
    split_ifs
    · exact h
    · exact hadd
  case endofline =>
    rw [parseChar, hs]
    exact h
  case parseerr =>
    rw [parseChar, hs]
    exact h

theorem full_parseLoop (h : Full ctx) (s : CStr) : Full (parseLoop ctx s).1 := by
  induction s generalizing ctx with
  | nil => exact h
  | cons c s ih =>
    have hc := full_parseChar h c
    rw [parseLoop]
    split_ifs
    · exact hc
    · exact hc
    · exact ih hc

/-- A line of a new context leaves no slot behind its words. -/
theorem arglist_pconfLine (s : CStr) : (pconfLine pconfInit s).arglist = start.finish s := by
  have hloop := full_parseLoop (show Full (newLine pconfInit) from rfl) s
  have hfull : Full (pconfLine pconfInit s) := by
    unfold pconfLine
    rcases hp : parseLoop (newLine pconfInit) s with ⟨c, _ | rest⟩
    · rw [hp] at hloop
      unfold lingering
      dsimp only
      split_ifs
      · exact full_endofword hloop
      · exact hloop
    · rw [hp] at hloop
      exact hloop
  rw [← pconfLine_args .init s, PconfCtx.args, ← hfull, List.take_length]

theorem upscliReadline_taken (hfd : ups.fd = true) (h : upscliReadline ups [] upscliNetbufLen = (mid, left, some tmp)) :
    ∃ line, UpsconnT.takeLine ups.readbuf (upscliNetbufLen - 1) = some (line, mid.readbuf) ∧ left = [] ∧ mid.fd = true ∧
      mid.pcCtx = ups.pcCtx ∧ tmp = line.takeWhile (· ≠ '\x00') := by
  have hnone : ∀ c ∈ ([] : List CStr), c ≠ [] := fun c hc => absurd hc List.not_mem_nil
  have hstream : ups.readbuf ++ ([] : List CStr).flatten = ups.readbuf := List.append_nil _
  rw [upscliReadline, if_neg (by rw [hfd]; decide)] at h
  rcases htake : UpsconnT.takeLine ups.readbuf (upscliNetbufLen - 1) with _ | ⟨line, rest⟩
  · have hloop := @UpsconnT.readlineLoop_ended ups [] [] _ hnone (by rw [hstream, htake])
    rw [List.map_nil] at hloop
    rw [hloop] at h
    simp at h
  · obtain ⟨unread, later, hloop, hrest, hlater⟩ := @UpsconnT.readlineLoop_eq ups [] line rest [] _ hnone (by rw [hstream, htake])
    obtain rfl := List.suffix_nil.1 hlater
    rw [List.map_nil, List.nil_append] at hloop
    rw [hloop] at h
    simp only [Option.map_some, Prod.mk.injEq, Option.some.injEq] at h
    obtain ⟨rfl, rfl, rfl⟩ := h
    rw [List.flatten_nil, List.append_nil] at hrest
    exact ⟨line, by rw [hrest], rfl, hfd, rfl, rfl⟩

/-- A call that goes on or ends the list has taken a line. -/
theorem upscliListNext_taken (hfd : ups.fd = true) {r : ListNext} (h : upscliListNext ups [] query = some (mid, left, r))
    (hr : r ≠ .error) : ∃ line, UpsconnT.takeLine ups.readbuf (upscliNetbufLen - 1) = some (line, mid.readbuf) ∧ left = [] ∧
      mid.fd = true := by
  unfold upscliListNext at h
  rcases hread : upscliReadline ups [] upscliNetbufLen with ⟨u, later, _ | tmp⟩
  · rw [hread] at h
    simp only [Option.some.injEq, Prod.mk.injEq] at h
    exact absurd h.2.2.symm hr
  · obtain ⟨line, hline, rfl, hu, -⟩ := upscliReadline_taken hfd hread
    rw [hread] at h
    dsimp only at h
    rcases herr : upscliErrcheck tmp with _ | err
    · rw [herr] at h
      dsimp only at h
      split_ifs at h
      · simp only [Option.some.injEq, Prod.mk.injEq] at h
        exact absurd h.2.2.symm hr
      · simp only [Option.some.injEq, Prod.mk.injEq] at h
        obtain ⟨rfl, rfl, -⟩ := h
        exact ⟨line, hline, rfl, hu⟩
      · obtain ⟨same, -, heq⟩ := Option.map_eq_some_iff.1 h
        cases same with
        | false =>
          obtain ⟨-, -, hres⟩ : _ ∧ _ ∧ _ := by simpa using heq
          exact absurd hres.symm hr
        | true =>
          obtain ⟨rfl, rfl, -⟩ : _ ∧ _ ∧ _ := by simpa using heq
          exact ⟨line, hline, rfl, hu⟩
    · rw [herr] at h
      simp only [Option.some.injEq, Prod.mk.injEq] at h
      exact absurd h.2.2.symm hr

/-- The loop over a list takes a line for each item, and one more. -/
theorem Iterates.taken (h : Iterates query ups left answers ups' left') (hfd : ups.fd = true) (hleft : left = []) :
    LinesTaken (answers.length + 1) ups.readbuf ups'.readbuf ∧ left' = [] := by
  induction h with
  | done hnext =>
    rw [hleft] at hnext
    obtain ⟨line, hline, hnil, -⟩ := upscliListNext_taken hfd hnext (by decide)
    exact ⟨.line hline (.none _), hnil⟩
  | item hnext _ ih =>
    rw [hleft] at hnext
    obtain ⟨line, hline, hnil, hmid⟩ := upscliListNext_taken hfd hnext (by decide)
    obtain ⟨htaken, hend⟩ := ih hmid hnil
    exact ⟨.line hline htaken, hend⟩

theorem repeated_of_verifyResp {slots : List CStr} (h : verifyResp query slots = some true) :
    ∃ words, Repeated query words ∧ words <+: slots := by
  induction query generalizing slots with
  | nil => exact ⟨[], .nil, List.nil_prefix⟩
  | cons q query ih =>
    rcases slots with _ | ⟨w, slots⟩
    · simp [verifyResp] at h
    · rw [verifyResp] at h
      split_ifs at h with hq
      · simp at h
      · obtain ⟨words, hwords, hpre⟩ := ih h
        exact ⟨w :: words, .cons (not_not.1 hq) hwords, List.cons_prefix_cons.2 ⟨rfl, hpre⟩⟩

/-- A command that is answered has taken a line. -/
theorem upscliAsk_taken (hfd : ups.fd = true) {wrote : Int} {cmd : CStr}
    (h : upscliAsk ups ⟨wrote, []⟩ cmd = (mid, left, some tmp)) :
    ∃ line, UpsconnT.takeLine ups.readbuf (upscliNetbufLen - 1) = some (line, mid.readbuf) ∧ left = [] ∧ mid.fd = true ∧
      mid.pcCtx = ups.pcCtx ∧ tmp = line.takeWhile (· ≠ '\x00') := by
  have hlast {u v : Upsconn} {reads reads' : List NetRead} {a b : Option CStr} (h : (u, reads, a) = (v, reads', b)) :
      a = b := congrArg (fun r => r.2.2) h
  unfold upscliAsk at h
  rcases hsend : upscliSendline ups wrote cmd with ⟨u, _ | n⟩
  · rw [hsend] at h
    exact absurd (hlast h) (by simp)
  -- writing the query leaves the connection as it is
  have hu : u = ups := by
    unfold upscliSendline at hsend
    rw [if_neg (by rw [hfd]; decide)] at hsend
    split_ifs at hsend
    · exact absurd (Prod.mk.inj hsend).2 (by simp)
    · exact absurd (Prod.mk.inj hsend).2 (by simp)
    · exact (Prod.mk.inj hsend).1.symm
  subst hu
  rw [hsend] at h
  dsimp only at h
  rcases hread : upscliReadline u [] upscliNetbufLen with ⟨v, later, _ | tmp'⟩
  · rw [hread] at h
    exact absurd (hlast h) (by simp)
  rw [hread] at h
  dsimp only at h
  rcases herr : upscliErrcheck tmp' with _ | err
  · rw [herr] at h
    obtain ⟨rfl, hreads⟩ := Prod.mk.inj h
    obtain ⟨rfl, htmp⟩ := Prod.mk.inj hreads
    obtain rfl := Option.some.inj htmp
    exact upscliReadline_taken hfd hread
  · rw [herr] at h
    exact absurd (hlast h) (by simp)

/-- A list that has started has taken a line with the query in it. -/
theorem upscliListStart_taken (hfd : ups.fd = true) (hctx : ups.pcCtx = pconfInit) {wrote : Int}
    (h : upscliListStart ups ⟨wrote, []⟩ query = some (mid, left, true)) : ∃ line words,
      UpsconnT.takeLine ups.readbuf (upscliNetbufLen - 1) = some (line, mid.readbuf) ∧ left = [] ∧ mid.fd = true ∧
        Repeated ("BEGIN".toList :: "LIST".toList :: query) words ∧ words <+: start.finish (line.takeWhile (· ≠ '\x00')) := by
  have hlast {u v : Upsconn} {reads reads' : List NetRead} {a b : Bool} (h : some (u, reads, a) = some (v, reads', b)) :
      a = b := congrArg (fun r => r.2.2) (Option.some.inj h)
  unfold upscliListStart at h
  split_ifs at h with hempty
  · exact absurd (hlast h) (by decide)
  rcases hask : upscliAsk ups ⟨wrote, []⟩ (buildCmd upscliNetbufLen "LIST".toList query) with ⟨u, later, _ | tmp⟩
  · rw [hask] at h
    exact absurd (hlast h) (by decide)
  obtain ⟨line, hline, rfl, hu, hsame, rfl⟩ := upscliAsk_taken hfd hask
  rw [hask] at h
  have hslots : (pconfLine u.pcCtx (line.takeWhile (· ≠ '\x00'))).arglist = start.finish (line.takeWhile (· ≠ '\x00')) := by
    rw [hsame, hctx]
    exact arglist_pconfLine _
  dsimp only at h
  rw [hslots] at h
  split_ifs at h with hfew hfirst
  · exact absurd (hlast h) (by decide)
  · exact absurd (hlast h) (by decide)
  obtain ⟨same, hverify, heq⟩ := Option.map_eq_some_iff.1 h
  cases same with
  | false => exact absurd (hlast (congrArg some heq)) (by decide)
  | true =>
    obtain ⟨rfl, hreads⟩ := Prod.mk.inj heq
    obtain ⟨rfl, -⟩ := Prod.mk.inj hreads
    obtain ⟨words, hwords, hpre⟩ := repeated_of_verifyResp hverify
    obtain ⟨hbegin, hlist⟩ := not_or.1 hfirst
    -- the first two words are there, or they would be read as empty
    rcases hargs : start.finish (line.takeWhile (· ≠ '\x00')) with _ | ⟨a, _ | ⟨b, rest⟩⟩
    · rw [hargs] at hbegin
      exact absurd (not_not.1 hbegin) (by decide)
    · rw [hargs] at hlist
      have hmissing : strcasecmp [] "LIST".toList = .eq := not_not.1 hlist
      exact absurd hmissing (by decide)
    · rw [hargs] at hbegin hlist hpre
      refine ⟨line, a :: b :: words, hline, rfl, hu, .cons ?_ (.cons ?_ hwords), ?_⟩
      · exact strcasecmp_eq.2 (strcasecmp_eq.1 (not_not.1 hbegin)).symm
      · exact strcasecmp_eq.2 (strcasecmp_eq.1 (not_not.1 hlist)).symm
      · rw [hargs]
        exact List.cons_prefix_cons.2 ⟨rfl, List.cons_prefix_cons.2 ⟨rfl, hpre⟩⟩

/-- A list that a client reads to its end can be read: its query consists of plain words, and every line fits. -/
theorem readable_of_read {wrote : Int} {items : List CStr} {stop : CStr} (hne : query ≠ []) (hfd : ups.fd = true)
    (hctx : ups.pcCtx = pconfInit) (hbuf : ups.readbuf = wire (listLines (unwords query) items stop))
    (hnul : ∀ line ∈ listLines (unwords query) items stop, '\x00' ∉ line)
    (hstart : upscliListStart ups ⟨wrote, []⟩ query = some (mid, left, true))
    (hiter : Iterates query mid left answers ups' left') (hlen : answers.length = items.length) (hrest : Ahead ups' left' []) :
    (∀ w ∈ query, IsWord w) ∧
      ∀ line ∈ listLines (unwords query) items stop, '\n' ∉ line ∧ line.length + 2 ≤ upscliNetbufLen := by
  obtain ⟨line, words, hline, rfl, hmid, hwords, hpre⟩ := upscliListStart_taken hfd hctx hstart
  obtain ⟨htaken, rfl⟩ := hiter.taken hmid rfl
  have hend : ups'.readbuf = [] := by
    obtain ⟨chunks, -, -, hnil⟩ := hrest
    exact (List.append_eq_nil_iff.1 hnil).1
  have hall : LinesTaken (listLines (unwords query) items stop).length (wire (listLines (unwords query) items stop)) [] := by
    have hmany : (listLines (unwords query) items stop).length = answers.length + 1 + 1 := by simp [listLines, hlen]
    rw [hmany, ← hbuf, ← hend]
    exact .line hline htaken
  have hfits := hall.fits
  refine ⟨?_, hfits⟩
  -- the line with the query is the first of the list
  have hfirst : "BEGIN LIST ".toList ++ unwords query ∈ listLines (unwords query) items stop := by simp [listLines]
  obtain ⟨hnewline, hlong⟩ := hfits _ hfirst
  rw [hbuf, listLines, List.cons_append, wire_cons, UpsconnT.takeLine_line hnewline (by omega)] at hline
  obtain ⟨rfl, -⟩ := Prod.mk.inj (Option.some.inj hline)
  have htext : ("BEGIN LIST ".toList ++ unwords query).takeWhile (· ≠ '\x00') =
      unwords ("BEGIN".toList :: "LIST".toList :: query) := by
    rw [← unwords_begin hne, List.takeWhile_eq_self_iff]
    intro c hc
    exact decide_eq_true fun h => hnul _ hfirst (h ▸ hc)
  rw [htext] at hpre
  intro w hw
  exact isWord_of_echoed hwords hpre w (by simp [hw])

end

end Nut
