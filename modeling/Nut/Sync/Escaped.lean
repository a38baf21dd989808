import Nut.Sync.Unescaped

/-!
# Lines with a value that was escaped

What can be read back from `name "value"` and from `name value` when the value was escaped and the name was not: the name
if it is a plain word, and outside quotes the value only if it is one word (`plain_of_quoted_escape`,
`plain_of_bare_escape`).
-/

namespace Nut

open ChunkReader Lexer

variable {kw name value a : CStr} {l l' : Lexer} {xs : List CStr}

/-! ### Quotes in a word -/

/-- Outside quotes no quote is lost from the word after the keyword. -/
structure QuotesKept (kw n : CStr) (l : Lexer) : Prop where
  words : [kw] <+: l.words
  length : l.word.length ≤ n.length
  quotes : l.words = [kw] →
    match l.mode with
    | .between => l.word = [] ∧ '"' ∉ n
    | .bare => l.word.count '"' = n.count '"'
    | .bareEsc => l.word.count '"' = n.count '"'
    | _ => True

private theorem quotesKept_snoc {n : CStr} {c : Char} (h : QuotesKept kw n l) (hc : isKept c)
    (hlen : n.length < pconfDefaultWordlenLimit) (hstep : step l c = (l', .more)) : QuotesKept kw (n ++ [c]) l' := by
  obtain ⟨ws, w, m⟩ := l
  obtain ⟨hpre, hw, hquotes⟩ := h
  simp only at hpre hw hquotes
  have hmoves := moves_of_step hstep
  have hkeep (m : Mode) : keep ⟨ws, w, m⟩ c = ⟨ws, w ++ [c], m⟩ := keep_isKept hc (by omega)
  refine ⟨hpre.trans (words_of_moves hmoves), ?_, fun hws => ?_⟩
  · rw [List.length_append, List.length_singleton]
    cases hmoves with
    | equals => simp
    | closes | bareComment | ends | bareEquals => simp
    | starts | quoted | quotedLiteral | bare | bareLiteral => simpa [hkeep] using hw
    | comment | blank | escape | opens | ignored | quotedEscape | quotedNewline | bareEscape | bareNewline =>
      exact Nat.le_succ_of_le hw
  · obtain rfl : ws = [kw] := by
      have hle := words_of_moves hmoves
      rw [hws] at hle
      exact (hle.eq_of_length_le hpre.length_le)
    have hquotes := hquotes rfl
    have hshort : [kw].length < pconfDefaultArgLimit := by simp [pconfDefaultArgLimit]
    cases hmoves with
    | comment | opens | ignored | quotedEscape | quoted | quotedNewline | quotedLiteral | bareComment => trivial
    | blank hb =>
      refine ⟨hquotes.1, ?_⟩
      have hne : c ≠ '"' := by rintro rfl; exact absurd hb (by decide)
      simpa [Ne.symm hne] using hquotes.2
    | escape =>
      obtain ⟨rfl, hn⟩ := hquotes
      have hzero : n.count '"' = 0 := List.count_eq_zero.2 hn
      simp [hzero]
    | starts =>
      obtain ⟨rfl, hn⟩ := hquotes
      rw [hkeep]
      have hzero : n.count '"' = 0 := List.count_eq_zero.2 hn
      simp [into, hzero]
    | equals =>
      rw [into_words, hkeep, close_eq hshort] at hws
      simp at hws
    | closes | ends =>
      rw [into_words, close_eq hshort] at hws
      simp at hws
    | bareEquals =>
      have hlong := words_close ((close ⟨[kw], w, .bare⟩).keep '=')
      rw [into_words] at hws
      rw [hws, keep_words, close_eq hshort] at hlong
      exact absurd hlong.length_le (by simp)
    | bareEscape => simpa using hquotes
    | bare =>
      rw [hkeep]
      simpa [into] using hquotes
    | bareLiteral =>
      rw [hkeep]
      simpa [into] using hquotes
    | bareNewline => exact absurd hc (by decide)

private theorem quotesKept_append {n s : CStr} (h : QuotesKept kw n l) (hs : Kept s)
    (hlen : n.length + s.length ≤ pconfDefaultWordlenLimit) (hl : silent step l s = some l') : QuotesKept kw (n ++ s) l' := by
  induction s generalizing n l with
  | nil => rwa [← Option.some.inj hl, List.append_nil]
  | cons c s ih =>
    rw [List.length_cons] at hlen
    rcases hc : step l c with ⟨t, _ | x | _⟩
    · simp only [silent, hc] at hl
      have hsnoc := quotesKept_snoc h (hs c (by simp)) (by omega) hc
      have hrest := ih hsnoc (fun d hd => hs d (by simp [hd])) (by simp; omega) hl
      rwa [List.append_assoc] at hrest
    · simp [silent, hc] at hl
    · simp [silent, hc] at hl

/-- A name that ends in an escape keeps its quotes. -/
private theorem count_of_silent {w : CStr} (hname : Kept name) (hlen : name.length ≤ pconfDefaultWordlenLimit)
    (h : silent step ⟨[kw], [], .between⟩ name = some ⟨[kw], w, .bareEsc⟩) : w.count '"' = name.count '"' := by
  have hstart : QuotesKept kw [] ⟨[kw], [], .between⟩ := ⟨List.prefix_rfl, Nat.le_refl 0, fun _ => ⟨rfl, by simp⟩⟩
  exact (quotesKept_append hstart hname (by simpa using hlen) h).quotes rfl

/-! ### In quotes -/

/-- When a name is read back before an escaped value in quotes, and there is a third word, the name is a plain word. -/
theorem plain_of_quoted_escape (hname : Kept name) (hvalue : Kept value)
    (hlen : name.length + value.length < pconfDefaultWordlenLimit)
    (h : ReadsAs step ⟨[kw], [], .between⟩ (name ++ (' ' :: '"' :: (escape value ++ ['"', '\n']))) l' xs)
    (ha : [kw] ++ [name] <+: xs) (hthird : 2 < xs.length) : PlainWord name := by
  rcases after_quote hname (by omega) h ha rfl with ⟨hplain, -⟩ | ⟨-, hs⟩ | ⟨w, -, hw, hs⟩
  · exact hplain
  · -- the value is the word after the keyword
    obtain ⟨t, ht, hs⟩ := hs.split (by simp)
    rw [silent_escape [kw] [] hvalue (by simp; omega), Option.some.injEq] at ht
    subst ht
    have hclose : step ⟨[kw], value, .quoted⟩ '"' = (⟨[kw, value], [], .between⟩, .more) := by
      simp [step, close_eq (by simp [pconfDefaultArgLimit] : [kw].length < pconfDefaultArgLimit), into]
    rcases (hs.tail hclose).cons with ⟨-, hc⟩ | ⟨t, ht, -⟩
    · rcases item_of_step hc with ⟨-, rfl⟩ | ⟨hm, -⟩
      · simp at hthird
      · simp at hm
    · simp [step] at ht
  · -- the quote is one more in the word
    obtain ⟨u, -, hpre⟩ := word_kept hs (by simp [pconfDefaultArgLimit]) rfl
    have hcount := congrArg (List.count '"') (next_word ha hpre)
    simp only [List.count_append, List.count_cons, List.count_nil, count_of_silent hname (by omega) hw] at hcount
    simp only [beq_self_eq_true, if_true] at hcount
    omega

/-! ### Without quotes -/

/-- Outside quotes the words from the `n`-th on are words that an escaped text can have. -/
structure Spread (n : Nat) (l : Lexer) : Prop where
  words : ∀ x ∈ l.words.drop n, Bare x
  word : l.mode = .between ∧ l.word = [] ∨
    l.mode = .bare ∧ (l.words.length < n ∨ l.word ≠ [] ∧ ' ' ∉ l.word ∧ '=' ∉ l.word)

namespace Spread

variable {n : Nat} {l : Lexer} {c : Char}

private theorem close (h : Spread n l) (hm : l.mode = .bare) (x : CStr) (hx : x ∈ l.close.words.drop n) : Bare x := by
  rcases h.word with ⟨hb, -⟩ | ⟨-, hword⟩
  · rw [hb] at hm; contradiction
  · unfold Lexer.close at hx
    split at hx
    · exact h.words x hx
    · simp only at hx
      by_cases hn : l.words.length < n
      · rw [List.drop_eq_nil_of_le (by simp; omega)] at hx
        simp at hx
      · rw [List.drop_append_of_le_length (by omega)] at hx
        rcases List.mem_append.1 hx with hx | hx
        · exact h.words x hx
        · obtain rfl := List.mem_singleton.1 hx
          exact .inr (hword.resolve_left hn)

/-- `=` is a word of its own. -/
private theorem equals (hl : ∀ x ∈ l.words.drop n, Bare x) (hw : l.word = []) :
    Spread n ((l.keep '=').close.into .between) := by
  refine ⟨fun x hx => ?_, .inl ⟨rfl, by simp⟩⟩
  have hk : l.keep '=' = { l with word := ['='] } := by
    obtain ⟨ws, w, m⟩ := l
    obtain rfl : w = [] := hw
    rfl
  rw [into_words, hk] at hx
  unfold Lexer.close at hx
  split at hx
  · exact hl x hx
  · simp only [List.drop_append, List.mem_append] at hx
    rcases hx with hx | hx
    · exact hl x hx
    · obtain rfl := List.mem_singleton.1 (List.mem_of_mem_drop hx)
      exact .inl rfl

private theorem keep (h : Spread n l) (hb : c ≠ ' ') (he : c ≠ '=') (hc : isKept c) : Spread n ((l.keep c).into .bare) := by
  refine ⟨by simpa using h.words, .inr ⟨rfl, ?_⟩⟩
  rw [into_words, keep_words, into_word]
  rcases h.word with ⟨-, hw⟩ | ⟨-, hlt | ⟨hne, hblank, hequals⟩⟩
  · obtain ⟨ws, w, m⟩ := l
    obtain rfl : w = [] := hw
    rw [keep_isKept hc (by decide)]
    exact .inr ⟨by simp, by simpa using Ne.symm hb, by simpa using Ne.symm he⟩
  · exact .inl hlt
  · rcases keep_word l c with hk | hk
    · rw [hk]; exact .inr ⟨hne, hblank, hequals⟩
    · rw [hk]; exact .inr ⟨by simp, by simp [hblank, Ne.symm hb], by simp [hequals, Ne.symm he]⟩

private theorem snoc (h : Spread n l) (hc : isKept c) :
    ∃ l', silent step l (if pconfEscape c then ['\\', c] else [c]) = some l' ∧ Spread n l' := by
  obtain ⟨ws, w, m⟩ := l
  have hnl : c ≠ '\n' := by rintro rfl; exact absurd hc (by decide)
  by_cases hp : pconfEscape c
  · have hb : c ≠ ' ' := by rintro rfl; exact absurd hp (by decide)
    have he : c ≠ '=' := by rintro rfl; exact absurd hp (by decide)
    have hopen : step ⟨ws, w, m⟩ '\\' = (⟨ws, w, .bareEsc⟩, .more) := by
      rcases h.word with ⟨hm, -⟩ | ⟨hm, -⟩ <;> simp only at hm <;> subst hm <;> rfl
    have hesc : step ⟨ws, w, .bareEsc⟩ c = ((Lexer.keep ⟨ws, w, m⟩ c).into .bare, .more) := by
      have hk (m' : Mode) : (Lexer.keep ⟨ws, w, m'⟩ c).into .bare = (Lexer.keep ⟨ws, w, m⟩ c).into .bare := by
        unfold Lexer.keep into
        split_ifs <;> rfl
      simp [step, hnl, hk]
    rw [if_pos hp]
    exact ⟨_, by simp only [silent, hopen, hesc], h.keep hb he hc⟩
  · rw [if_neg hp]
    simp only [pconfEscape, Bool.or_eq_true, decide_eq_true_eq, not_or] at hp
    obtain ⟨⟨hhash, hback⟩, hquote⟩ := hp
    by_cases hb : c = ' '
    · subst hb
      rcases h.word with ⟨hm, hw⟩ | ⟨hm, -⟩
      · simp only at hm
        subst hm
        exact ⟨⟨ws, w, .between⟩, rfl, h.words, .inl ⟨rfl, hw⟩⟩
      · simp only at hm
        subst hm
        exact ⟨(Lexer.close ⟨ws, w, .bare⟩).into .between, rfl, h.close rfl, .inl ⟨rfl, by simp⟩⟩
    · have hspace := not_isspace_of_lt (lt_of_isKept hc hb)
      by_cases he : c = '='
      · subst he
        rcases h.word with ⟨hm, hw⟩ | ⟨hm, -⟩
        · simp only at hm
          subst hm
          exact ⟨_, rfl, equals h.words hw⟩
        · simp only at hm
          subst hm
          exact ⟨_, rfl, equals (h.close rfl) (close_word _)⟩
      · refine ⟨(Lexer.keep ⟨ws, w, m⟩ c).into .bare, ?_, h.keep hb he hc⟩
        rcases h.word with ⟨hm, -⟩ | ⟨hm, -⟩ <;> simp only at hm <;> subst hm <;>
          simp [silent, step, hnl, hhash, hback, hquote, hspace, he]

private theorem escape (h : Spread n l) {s : CStr} (hs : Kept s) :
    ∃ l', silent step l (Nut.escape s) = some l' ∧ Spread n l' := by
  induction s generalizing l with
  | nil => exact ⟨l, rfl, h⟩
  | cons c s ih =>
    obtain ⟨l₁, h₁, hspread⟩ := h.snoc (hs c (by simp))
    obtain ⟨l₂, h₂, hspread⟩ := ih hspread fun d hd => hs d (by simp [hd])
    exact ⟨l₂, by rw [escape_cons, silent_append h₁, h₂], hspread⟩

/-- The words of a line that ends with an escaped text are spread. -/
theorem readsAs (h : Spread n l) {s : CStr} (hs : Kept s) (hreads : ReadsAs step l (Nut.escape s ++ ['\n']) l' xs) :
    ∀ x ∈ xs.drop n, Bare x := by
  obtain ⟨t, ht, hspread⟩ := h.escape hs
  obtain ⟨u, hu, hrest⟩ := hreads.split (by simp)
  rw [ht, Option.some.injEq] at hu
  subst hu
  rcases hrest.cons with ⟨-, hc⟩ | ⟨u, -, hu⟩
  · rcases item_of_step hc with ⟨-, rfl⟩ | ⟨hm, rfl⟩
    · exact hspread.words
    · exact hspread.close hm
  · obtain ⟨body, b, v, hsplit, -⟩ := hu
    simp at hsplit

end Spread

/-- A word in quotes does not end in an escaped text. -/
private theorem not_quoted {w : CStr} (hvalue : Kept value) (hlen : w.length + value.length ≤ pconfDefaultWordlenLimit)
    (h : ReadsAs step ⟨[kw], w, .quoted⟩ (escape value ++ ['\n']) l' xs) : False := by
  obtain ⟨t, ht, hs⟩ := h.split (by simp)
  rw [silent_escape [kw] w hvalue hlen, Option.some.injEq] at ht
  subst ht
  rcases hs.cons with ⟨-, hc⟩ | ⟨u, -, hu⟩
  · rcases item_of_step hc with ⟨hm | hm, -⟩ | ⟨hm, -⟩ <;> simp at hm
  · obtain ⟨body, b, v, hsplit, -⟩ := hu
    simp at hsplit

private theorem mem_drop_of_append {ws xs : List CStr} {x : CStr} (h : ws ++ [x] <+: xs) : x ∈ xs.drop ws.length := by
  obtain ⟨t, rfl⟩ := h
  rw [List.append_assoc, List.drop_left]
  simp

/-- When a name and an escaped value without quotes are read back, the name is a plain word and the value is read as
one word. -/
theorem plain_of_bare_escape (hname : Kept name) (hvalue : Kept value)
    (hlen : name.length + value.length < pconfDefaultWordlenLimit)
    (h : ReadsAs step ⟨[kw], [], .between⟩ (name ++ (' ' :: (escape value ++ ['\n']))) l' xs)
    (ha : [kw, name, value] <+: xs) : PlainWord name ∧ Bare value := by
  obtain ⟨⟨ws, w, m⟩, hl, hs⟩ := h.split (by simp)
  have ha₁ : [kw] ++ [name] <+: xs := (List.prefix_append [kw, name] [value]).trans ha
  have short : ∀ {v : CStr}, [kw] ++ [v] <+: xs → v.length < name.length → False := by
    intro v hv hlt
    rw [next_word ha₁ hv] at hlt
    omega
  -- after the name, the value is the next word
  have hnext : ReadsAs step ⟨[kw, name], [], .between⟩ (escape value ++ ['\n']) l' xs → Bare value := fun hs =>
    (⟨by simp, .inl ⟨rfl, rfl⟩⟩ : Spread 2 ⟨[kw, name], [], .between⟩).readsAs hvalue hs value
      (@mem_drop_of_append [kw, name] xs value ha)
  rcases nameRead_of_silent hname hl with ⟨v, hv, hlt⟩ | ⟨rfl, hstate⟩ | ⟨hws, hm⟩
  · exact (short (hv.trans (words_kept hs)) hlt).elim
  · rw [hstate] at hs
    exact ⟨.inl rfl, hnext (hs.tail rfl)⟩
  · simp only at hws
    subst hws
    have hkeep : ∀ m, w.length < name.length → keep ⟨[kw], w, m⟩ ' ' = ⟨[kw], w ++ [' '], m⟩ :=
      fun m hw => keep_isKept rfl (by omega)
    cases m <;> simp only at hm
    case between =>
      -- the name is a word of the value
      obtain rfl := hm.1
      have hs : ReadsAs step ⟨[kw], [], .between⟩ (escape value ++ ['\n']) l' xs := hs.tail rfl
      have hbare := (⟨by simp, .inl ⟨rfl, rfl⟩⟩ : Spread 1 ⟨[kw], [], .between⟩).readsAs hvalue hs name
        (@mem_drop_of_append [kw] xs name ha₁)
      rcases hbare with rfl | ⟨hne, hb, -⟩
      · exact absurd (hm.2 '=' (by simp)) (by decide)
      · obtain ⟨c, s, rfl⟩ := List.exists_cons_of_ne_nil hne
        exact absurd (hm.2 c (by simp)) fun hc => hb (by simp [hc])
    case comment =>
      rw [comment_items hs] at ha
      exact absurd ha.length_le (by simp)
    case quoted =>
      have hstep : step ⟨[kw], w, .quoted⟩ ' ' = (⟨[kw], w ++ [' '], .quoted⟩, .more) := by
        simp [step, hkeep _ hm.1, into]
      exact (not_quoted hvalue (by simp; omega) (hs.tail hstep)).elim
    case quotedEsc =>
      have hstep : step ⟨[kw], w, .quotedEsc⟩ ' ' = (⟨[kw], w ++ [' '], .quoted⟩, .more) := by
        simp [step, hkeep _ (by omega : w.length < name.length), into]
      exact (not_quoted hvalue (by simp; omega) (hs.tail hstep)).elim
    case bare =>
      have hs : ReadsAs step ⟨[kw, w], [], .between⟩ (escape value ++ ['\n']) l' xs := hs.tail rfl
      have hw : name = w := next_word ha₁ (words_kept hs)
      rcases hm with hlt | ⟨-, -, hplain⟩
      · exact (short (words_kept hs) hlt).elim
      · exact ⟨hplain, hnext (by rwa [hw])⟩
    case bareEsc =>
      have hstep : step ⟨[kw], w, .bareEsc⟩ ' ' = (⟨[kw], w ++ [' '], .bare⟩, .more) := by
        simp [step, hkeep _ hm.1, into]
      have hs := hs.tail hstep
      have hbare := (⟨by simp, .inr ⟨rfl, .inl (by simp)⟩⟩ : Spread 2 ⟨[kw], w ++ [' '], .bare⟩).readsAs hvalue hs value
        (@mem_drop_of_append [kw, name] xs value ha)
      rcases hbare with rfl | ⟨-, hb, he⟩
      · -- the first word ends with the blank
        have hs : ReadsAs step ⟨[kw, w ++ [' '], ['=']], [], .between⟩ ['\n'] l' xs := hs.tail rfl
        have hw : name = w ++ [' '] := next_word ha₁ ((List.prefix_append [kw, w ++ [' ']] [['=']]).trans (words_kept hs))
        have hlast := hm.2
        rw [hw, List.getLast?_concat] at hlast
        exact absurd (Option.some.inj hlast) (by decide)
      · -- there are only two words
        obtain ⟨w', hrun, -⟩ := silent_escape_bare [kw] (w ++ [' ']) hvalue hb he
        obtain ⟨t, ht, hs⟩ := hs.split (by simp)
        rw [hrun, Option.some.injEq] at ht
        subst ht
        rcases hs.cons with ⟨-, hc⟩ | ⟨u, -, hu⟩
        · rcases item_of_step hc with ⟨hm | hm, -⟩ | ⟨-, rfl⟩
          · simp at hm
          · simp at hm
          · rw [close_eq (by simp [pconfDefaultArgLimit])] at ha
            exact absurd ha.length_le (by simp)
        · obtain ⟨body, b, v, hsplit, -⟩ := hu
          simp at hsplit

end Nut
