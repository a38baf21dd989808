import Nut.Common.Words

/-!
# Lines with a value that was not escaped

What can be read back from `name "value"` when neither the name nor the value was prepared for the parser: if the
first two words are the name and, as far as it goes, the value, up to case, then the name was a plain word and the
value had no special character (`plain_of_readsAs`).

The argument counts characters.  A line of the lexer completes at most as many characters as it is given, less those
that are spent on quotes and on the newline (`length_of_readsAs`), and the state after the name tells how many of its
characters were spent already (`nameRead_of_silent`).
-/

namespace Nut

open ChunkReader Lexer

/-- The steps of the lexer within a line, one constructor for each. -/
inductive Moves (ws : List CStr) (w : CStr) : Mode → Char → Lexer → Prop
  | comment : Moves ws w .between '#' ⟨ws, w, .comment⟩
  | blank {c : Char} (h : isspace c) : Moves ws w .between c ⟨ws, w, .between⟩
  | escape : Moves ws w .between '\\' ⟨ws, w, .bareEsc⟩
  | opens : Moves ws w .between '"' ⟨ws, w, .quoted⟩
  | equals : Moves ws w .between '=' ((keep ⟨ws, w, .between⟩ '=').close.into .between)
  | starts {c : Char} (h : c ≠ '#' ∧ isspace c = false ∧ c ≠ '\\' ∧ c ≠ '"' ∧ c ≠ '=') :
      Moves ws w .between c ((keep ⟨ws, w, .between⟩ c).into .bare)
  | ignored {c : Char} : Moves ws w .comment c ⟨ws, w, .comment⟩
  | closes : Moves ws w .quoted '"' ((close ⟨ws, w, .quoted⟩).into .between)
  | quotedEscape : Moves ws w .quoted '\\' ⟨ws, w, .quotedEsc⟩
  | quoted {c : Char} (h : c ≠ '#' ∧ c ≠ '"' ∧ c ≠ '\\') :
      Moves ws w .quoted c ((keep ⟨ws, w, .quoted⟩ c).into .quoted)
  | quotedNewline : Moves ws w .quotedEsc '\n' ⟨ws, w, .quoted⟩
  | quotedLiteral {c : Char} : Moves ws w .quotedEsc c ((keep ⟨ws, w, .quotedEsc⟩ c).into .quoted)
  | bareComment : Moves ws w .bare '#' ((close ⟨ws, w, .bare⟩).into .comment)
  | ends {c : Char} (h : isspace c) : Moves ws w .bare c ((close ⟨ws, w, .bare⟩).into .between)
  | bareEquals : Moves ws w .bare '=' (((close ⟨ws, w, .bare⟩).keep '=').close.into .between)
  | bareEscape : Moves ws w .bare '\\' ⟨ws, w, .bareEsc⟩
  | bare {c : Char} (h : c ≠ '#' ∧ isspace c = false ∧ c ≠ '=' ∧ c ≠ '\\') :
      Moves ws w .bare c ((keep ⟨ws, w, .bare⟩ c).into .bare)
  | bareNewline : Moves ws w .bareEsc '\n' ⟨ws, w, .bare⟩
  | bareLiteral {c : Char} : Moves ws w .bareEsc c ((keep ⟨ws, w, .bareEsc⟩ c).into .bare)

theorem moves_of_step {ws : List CStr} {w : CStr} {m : Mode} {c : Char} {l' : Lexer}
    (h : step ⟨ws, w, m⟩ c = (l', .more)) : Moves ws w m c l' := by
  have key : ∀ {o : Outcome (List CStr)} {l : Lexer}, (l, o) = (l', Outcome.more) → l = l' :=
    fun e => (Prod.mk.inj e).1
  cases m <;> simp only [step] at h
  case between =>
    split_ifs at h with h1 h2 h3 h4 h5 h6
    · exact absurd (Prod.mk.inj h).2 (by simp)
    · subst h2; exact key h ▸ .comment
    · exact key h ▸ .blank h3
    · subst h4; exact key h ▸ .escape
    · subst h5; exact key h ▸ .opens
    · subst h6; exact key h ▸ .equals
    · exact key h ▸ .starts ⟨h2, by simpa using h3, h4, h5, h6⟩
  case comment =>
    split_ifs at h with h1
    · exact absurd (Prod.mk.inj h).2 (by simp)
    · exact key h ▸ .ignored
  case quoted =>
    split_ifs at h with h1 h2 h3
    · exact absurd (Prod.mk.inj h).2 (by simp)
    · subst h2; exact key h ▸ .closes
    · subst h3; exact key h ▸ .quotedEscape
    · exact key h ▸ .quoted ⟨h1, h2, h3⟩
  case quotedEsc =>
    split_ifs at h with h1
    · subst h1; exact key h ▸ .quotedNewline
    · exact key h ▸ .quotedLiteral
  case bare =>
    split_ifs at h with h1 h2 h3 h4 h5
    · subst h1; exact key h ▸ .bareComment
    · exact absurd (Prod.mk.inj h).2 (by simp)
    · exact key h ▸ .ends h3
    · subst h4; exact key h ▸ .bareEquals
    · subst h5; exact key h ▸ .bareEscape
    · exact key h ▸ .bare ⟨h1, by simpa using h3, h4, h5⟩
  case bareEsc =>
    split_ifs at h with h1
    · subst h1; exact key h ▸ .bareNewline
    · exact key h ▸ .bareLiteral

/-! ### Counting characters -/

/-- The characters that the lexer holds. -/
def held (l : Lexer) : Nat := (l.words.map List.length).sum + l.word.length

/-- The characters that the lexer still has to spend before the line ends. -/
def owed : Mode → Nat
  | .quoted => 2
  | .quotedEsc => 2
  | _ => 1

theorem held_keep (l : Lexer) (c : Char) : held (l.keep c) ≤ held l + 1 := by
  unfold Lexer.keep held
  split
  · omega
  · split
    · omega
    · simp only [List.length_append, List.length_singleton]; omega

theorem held_close (l : Lexer) : held l.close ≤ held l := by
  unfold Lexer.close held
  split <;> simp

theorem held_into (l : Lexer) (m : Mode) : held (l.into m) = held l := rfl

/-- A character adds at most one to what is held, and a quote that closes a word adds nothing. -/
private theorem held_of_moves {ws : List CStr} {w : CStr} {m : Mode} {c : Char} {l' : Lexer}
    (h : Moves ws w m c l') : held l' + owed m ≤ held ⟨ws, w, m⟩ + 1 + owed l'.mode := by
  have hk := fun m => held_keep ⟨ws, w, m⟩ c
  have hc := fun m => held_close ⟨ws, w, m⟩
  cases h <;> simp only [held_into, into_mode, owed]
  case comment | blank | escape | opens | ignored | quotedEscape | quotedNewline | bareEscape | bareNewline =>
    simp only [held]; omega
  case equals => have := held_close (keep ⟨ws, w, .between⟩ '='); have := hk .between; omega
  case bareEquals =>
    have := held_close ((close ⟨ws, w, .bare⟩).keep '=')
    have := held_keep (close ⟨ws, w, .bare⟩) '='
    have := hc .bare
    omega
  case starts => have := hk .between; omega
  case closes => have := hc .quoted; omega
  case quoted => have := hk .quoted; omega
  case quotedLiteral => have := hk .quotedEsc; omega
  case bareComment | ends => have := hc .bare; omega
  case bare => have := hk .bare; omega
  case bareLiteral => have := hk .bareEsc; omega

theorem item_of_step {l l' : Lexer} {c : Char} {xs : List CStr} (h : step l c = (l', .item xs)) :
    (l.mode = .between ∨ l.mode = .comment) ∧ xs = l.words ∨ l.mode = .bare ∧ xs = l.close.words := by
  obtain ⟨ws, w, m⟩ := l
  have key : ∀ {l₁ : Lexer} {ys : List CStr}, (l₁, Outcome.item ys) = (l', Outcome.item xs) → xs = ys := by
    intro l₁ ys e
    have := (Prod.mk.inj e).2
    injection this with e'
    exact e'.symm
  cases m <;> simp only [step] at h <;> split_ifs at h <;>
    first
    | exact .inl ⟨.inl rfl, key h⟩
    | exact .inl ⟨.inr rfl, key h⟩
    | exact .inr ⟨rfl, key h⟩
    | exact absurd (Prod.mk.inj h).2 (by simp)

/-- A line completes at most the characters that it holds and is given, less those it spends on quotes and on the
newline. -/
theorem length_of_readsAs {l l' : Lexer} {s : CStr} {xs : List CStr} (h : ReadsAs step l s l' xs) :
    (xs.map List.length).sum + owed l.mode ≤ held l + s.length := by
  induction s generalizing l with
  | nil => obtain ⟨body, b, t, hsplit, -⟩ := h; simp at hsplit
  | cons c s ih =>
    rcases h.cons with ⟨rfl, hc⟩ | ⟨t, ht, hs⟩
    · have hclose := held_close l
      have hsum : (l.close.words.map List.length).sum ≤ held l.close := Nat.le_add_right _ _
      have hsum' : (l.words.map List.length).sum ≤ held l := Nat.le_add_right _ _
      rcases item_of_step hc with ⟨hm | hm, rfl⟩ | ⟨hm, rfl⟩ <;>
        simp only [hm, owed, List.length_singleton] <;> omega
    · have hstep := held_of_moves (moves_of_step ht)
      have hrest := ih hs
      simp only [List.length_cons]
      show _ + owed l.mode ≤ held ⟨l.words, l.word, l.mode⟩ + _
      omega

/-! ### The words so far -/

theorem words_close (l : Lexer) : l.words <+: l.close.words := by
  unfold Lexer.close
  split
  · exact List.prefix_rfl
  · exact List.prefix_append _ _

theorem words_of_moves {ws : List CStr} {w : CStr} {m : Mode} {c : Char} {l' : Lexer}
    (h : Moves ws w m c l') : ws <+: l'.words := by
  cases h <;> simp only [into_words, keep_words, List.prefix_rfl]
  case equals => have h := words_close (keep ⟨ws, w, .between⟩ '='); rwa [keep_words] at h
  case closes => exact words_close ⟨ws, w, .quoted⟩
  case bareComment | ends => exact words_close ⟨ws, w, .bare⟩
  case bareEquals =>
    have h := words_close ((close ⟨ws, w, .bare⟩).keep '=')
    rw [keep_words] at h
    exact (words_close ⟨ws, w, .bare⟩).trans h

/-- The words that are complete stay. -/
theorem words_kept {l l' : Lexer} {s : CStr} {xs : List CStr} (h : ReadsAs step l s l' xs) : l.words <+: xs := by
  induction s generalizing l with
  | nil => obtain ⟨body, b, t, hsplit, -⟩ := h; simp at hsplit
  | cons c s ih =>
    rcases h.cons with ⟨-, hc⟩ | ⟨t, ht, hs⟩
    · rcases item_of_step hc with ⟨-, rfl⟩ | ⟨-, rfl⟩
      · exact List.prefix_rfl
      · exact words_close l
    · exact (words_of_moves (moves_of_step ht)).trans (ih hs)

theorem keep_word (l : Lexer) (c : Char) : (l.keep c).word = l.word ∨ (l.keep c).word = l.word ++ [c] := by
  unfold Lexer.keep
  split
  · exact .inl rfl
  · split
    · exact .inl rfl
    · exact .inr rfl

/-- Within a word. -/
def Mode.inWord : Mode → Bool
  | .between => false
  | .comment => false
  | _ => true

/-- The unfinished word is the beginning of the next one, and the line supplies the rest. -/
theorem word_kept {l l' : Lexer} {s : CStr} {xs : List CStr} (h : ReadsAs step l s l' xs)
    (hlen : l.words.length < pconfDefaultArgLimit) (hm : l.mode.inWord) :
    ∃ u, (∀ c ∈ u, c ∈ s) ∧ l.words ++ [l.word ++ u] <+: xs := by
  induction s generalizing l with
  | nil => obtain ⟨body, b, t, hsplit, -⟩ := h; simp at hsplit
  | cons c s ih =>
    obtain ⟨ws, w, m⟩ := l
    have hclose : ∀ m, (close ⟨ws, w, m⟩).words = ws ++ [w] := fun m => by rw [close_eq hlen]
    have hclosed : ∀ m m', ws ++ [w] <+: ((close ⟨ws, w, m⟩).into m').words := fun m m' => by
      simp [hclose]
    have done : ∀ {ys : List CStr}, ws ++ [w] <+: ys → ys <+: xs → ∃ u, (∀ d ∈ u, d ∈ c :: s) ∧ ws ++ [w ++ u] <+: xs :=
      fun hw hys => ⟨[], by simp, by rw [List.append_nil]; exact hw.trans hys⟩
    have more : ∀ {l₁ : Lexer}, ReadsAs step l₁ s l' xs → l₁.words = ws → l₁.mode.inWord →
        (l₁.word = w ∨ l₁.word = w ++ [c]) → ∃ u, (∀ d ∈ u, d ∈ c :: s) ∧ ws ++ [w ++ u] <+: xs := by
      intro l₁ hs hws hm₁ hw
      obtain ⟨u, hu, hpre⟩ := ih hs (hws ▸ hlen) hm₁
      rw [hws] at hpre
      rcases hw with hw | hw
      · rw [hw] at hpre
        exact ⟨u, fun d hd => List.mem_cons_of_mem c (hu d hd), hpre⟩
      · rw [hw, List.append_assoc] at hpre
        refine ⟨c :: u, fun d hd => ?_, hpre⟩
        rcases List.mem_cons.1 hd with rfl | hd
        · exact List.mem_cons_self ..
        · exact List.mem_cons_of_mem c (hu d hd)
    rcases h.cons with ⟨-, hc⟩ | ⟨t, ht, hs⟩
    · rcases item_of_step hc with ⟨hb | hb, -⟩ | ⟨-, rfl⟩
      · simp only at hb; subst hb; simp [Mode.inWord] at hm
      · simp only at hb; subst hb; simp [Mode.inWord] at hm
      · exact done (hclosed m m) List.prefix_rfl
    · have hmoves := moves_of_step ht
      cases hmoves <;> simp only [Mode.inWord, Bool.false_eq_true] at hm
      case closes => exact done (hclosed _ _) (words_kept hs)
      case quotedEscape | quotedNewline | bareEscape | bareNewline => exact more hs rfl rfl (.inl rfl)
      case quoted => exact more hs (keep_words _ _) rfl (keep_word ⟨ws, w, .quoted⟩ c)
      case quotedLiteral => exact more hs (keep_words _ _) rfl (keep_word ⟨ws, w, .quotedEsc⟩ c)
      case bareComment | ends => exact done (hclosed _ _) (words_kept hs)
      case bareEquals =>
        refine done ?_ (words_kept hs)
        have hk := words_close ((close ⟨ws, w, .bare⟩).keep '=')
        rwa [keep_words, hclose] at hk
      case bare => exact more hs (keep_words _ _) rfl (keep_word ⟨ws, w, .bare⟩ c)
      case bareLiteral => exact more hs (keep_words _ _) rfl (keep_word ⟨ws, w, .bareEsc⟩ c)

/-! ### After the name -/

/-- What the lexer may hold after the name `n`, which follows the keyword `kw`: a word that is shorter than the name,
or the name, which is then plain, or a word in which some of the name was spent. -/
def NameRead (kw n : CStr) (l : Lexer) : Prop :=
  (∃ v, [kw, v] <+: l.words ∧ v.length < n.length) ∨ n = ['='] ∧ l = ⟨[kw, ['=']], [], .between⟩ ∨
  l.words = [kw] ∧
    match l.mode with
    | .between => l.word = [] ∧ ∀ c ∈ n, c = ' '
    | .comment => True
    | .bare => l.word.length < n.length ∨ l.word = n ∧ n ≠ ['='] ∧ PlainWord n
    | .bareEsc => l.word.length < n.length ∧ n.getLast? = some '\\'
    | .quoted => l.word.length < n.length ∧ (l.word.length + 1 = n.length → n = '"' :: l.word ∧ '"' ∉ l.word)
    | .quotedEsc => l.word.length + 2 ≤ n.length

theorem length_keep_word (l : Lexer) (c : Char) : (l.keep c).word.length ≤ l.word.length + 1 := by
  rcases keep_word l c with h | h <;> rw [h] <;> simp

private theorem plainWord_snoc {w : CStr} {c : Char} (hw : w ≠ ['=']) (h : PlainWord w) (hc : plainChar c) :
    PlainWord (w ++ [c]) := by
  rcases h with h | ⟨hne, hq, hs⟩
  · exact absurd h hw
  · refine .inr ⟨by simp, by rwa [List.head?_append_of_ne_nil _ hne], fun d hd => ?_⟩
    rcases List.mem_append.1 hd with hd | hd
    · exact hs d hd
    · rw [List.mem_singleton.1 hd]; exact hc

theorem plainChar_of_isKept {c : Char} (h : isKept c) (hc : c ≠ '#' ∧ isspace c = false ∧ c ≠ '=' ∧ c ≠ '\\') :
    plainChar c := by
  simp only [isKept, Bool.and_eq_true, decide_eq_true_eq] at h
  have hs : c ≠ ' ' := by rintro rfl; simp at hc
  have h20 : c.toNat ≠ 0x20 := fun e => hs (Char.ext (UInt32.toNat_inj.1 e))
  simp only [plainChar, hc.1, hc.2.2.1, hc.2.2.2, ne_eq, not_false_eq_true, decide_true, Bool.and_true,
    Bool.and_eq_true, decide_eq_true_eq]
  omega

theorem eq_blank {c : Char} (h : isKept c) (hs : isspace c) : c = ' ' := by
  simp only [isspace, Bool.or_eq_true, decide_eq_true_eq, Bool.and_eq_true] at hs
  simp only [isKept, Bool.and_eq_true, decide_eq_true_eq] at h
  rcases hs with hs | hs
  · exact hs
  · omega

private theorem nameRead_snoc {kw n : CStr} {l l' : Lexer} {c : Char} (h : NameRead kw n l) (hc : isKept c)
    (hstep : step l c = (l', .more)) : NameRead kw (n ++ [c]) l' := by
  obtain ⟨ws, w, m⟩ := l
  have hmoves := moves_of_step hstep
  rcases h with ⟨v, hv, hlen⟩ | ⟨rfl, hl⟩ | ⟨hws, hm⟩
  · exact .inl ⟨v, hv.trans (words_of_moves hmoves), by simp; omega⟩
  · obtain ⟨rfl, rfl, rfl⟩ := Lexer.mk.inj hl
    exact .inl ⟨['='], words_of_moves hmoves, by simp⟩
  · simp only at hws
    subst hws
    have hclose : ∀ m m', ((close ⟨[kw], w, m⟩).into m').words = [kw, w] := fun m m' => by
      rw [into_words, close_eq (by simp [pconfDefaultArgLimit])]; rfl
    have hbare : (w.length < n.length ∨ w = n ∧ n ≠ ['='] ∧ PlainWord n) → w.length ≤ n.length := by
      rintro (h | ⟨rfl, -⟩)
      · omega
      · exact Nat.le_refl _
    cases hmoves
    case comment | ignored => exact .inr (.inr ⟨rfl, trivial⟩)
    case blank hb =>
      refine .inr (.inr ⟨rfl, hm.1, fun d hd => ?_⟩)
      rcases List.mem_append.1 hd with hd | hd
      · exact hm.2 d hd
      · rw [List.mem_singleton.1 hd]; exact eq_blank hc hb
    case escape => exact .inr (.inr ⟨rfl, by simp only at hm; simp [hm], by simp⟩)
    case opens =>
      obtain rfl : w = [] := hm.1
      refine .inr (.inr ⟨rfl, by simp, fun hlen => ?_⟩)
      obtain rfl : n = [] := by simpa using hlen.symm
      simp
    case equals =>
      obtain rfl : w = [] := hm.1
      have hk : (keep ⟨[kw], [], .between⟩ '=').close.into .between = ⟨[kw, ['=']], [], .between⟩ := rfl
      rw [hk]
      by_cases hn : n = []
      · exact .inr (.inl ⟨by simp [hn], rfl⟩)
      · exact .inl ⟨['='], List.prefix_rfl, by have := List.length_pos_iff.2 hn; simp; omega⟩
    case starts hc' =>
      obtain rfl : w = [] := hm.1
      have hplain := plainChar_of_isKept hc ⟨hc'.1, hc'.2.1, hc'.2.2.2.2, hc'.2.2.1⟩
      refine .inr (.inr ⟨keep_words _ _, ?_⟩)
      by_cases hn : n = []
      · subst hn
        rcases keep_word ⟨[kw], [], .between⟩ c with hk | hk
        · exact .inl (by simp [hk])
        · exact .inr ⟨hk, by simpa using hc'.2.2.2.2, .inr ⟨by simp, by simp [hc'.2.2.2.1], by simpa using hplain⟩⟩
      · have hlen := length_keep_word ⟨[kw], [], .between⟩ c
        have hpos := List.length_pos_iff.2 hn
        exact .inl (by simp at hlen ⊢; omega)
    case closes =>
      simp only at hm
      exact .inl ⟨w, (hclose _ _).symm ▸ List.prefix_rfl, by simp; omega⟩
    case quotedEscape => exact .inr (.inr ⟨rfl, by simp only at hm; simp; omega⟩)
    case quoted hc' =>
      simp only at hm
      refine .inr (.inr ⟨keep_words _ _, ?_⟩)
      simp only [into_mode, into_word, List.length_append, List.length_singleton]
      rcases keep_word ⟨[kw], w, .quoted⟩ c with hk | hk
      · rw [hk]; exact ⟨by simp; omega, fun hlen => absurd hlen (by simp; omega)⟩
      · rw [hk]
        refine ⟨by simp; omega, fun hlen => ?_⟩
        obtain ⟨hn, hq⟩ := hm.2 (by simp at hlen; omega)
        exact ⟨by rw [hn]; simp, by simp [hq, Ne.symm hc'.2.1]⟩
    case quotedNewline => exact absurd hc (by decide)
    case quotedLiteral =>
      simp only at hm
      have hlen := length_keep_word ⟨[kw], w, .quotedEsc⟩ c
      refine .inr (.inr ⟨keep_words _ _, ?_⟩)
      simp only [into_mode, into_word, List.length_append, List.length_singleton]
      exact ⟨by simp at hlen ⊢; omega, fun h => absurd h (by simp at hlen ⊢; omega)⟩
    case bareComment | ends =>
      exact .inl ⟨w, (hclose _ _).symm ▸ List.prefix_rfl, by have := hbare hm; simp; omega⟩
    case bareEquals =>
      refine .inl ⟨w, ?_, by have := hbare hm; simp; omega⟩
      have hk := words_close ((close ⟨[kw], w, .bare⟩).keep '=')
      rw [keep_words] at hk
      exact (hclose .bare .bare ▸ List.prefix_rfl : [kw, w] <+: ((close ⟨[kw], w, .bare⟩).into .bare).words).trans hk
    case bareEscape => exact .inr (.inr ⟨rfl, by have := hbare hm; simp; omega, by simp⟩)
    case bare hc' =>
      have hle := hbare hm
      have hplain := plainChar_of_isKept hc hc'
      refine .inr (.inr ⟨keep_words _ _, ?_⟩)
      simp only [into_mode, into_word, List.length_append, List.length_singleton]
      rcases keep_word ⟨[kw], w, .bare⟩ c with hk | hk
      · rw [hk]; exact .inl (by simp; omega)
      · rw [hk]
        rcases hm with hm | ⟨hw, hne, hn⟩
        · exact .inl (by simp only at hm; simp; omega)
        · simp only at hw
          subst hw
          refine .inr ⟨rfl, ?_, plainWord_snoc hne hn hplain⟩
          intro he
          rcases hn with hn | ⟨hn, -⟩
          · exact hne hn
          · have hlen := congrArg List.length he
            exact hn (by simpa using hlen)
    case bareNewline => exact absurd hc (by decide)
    case bareLiteral =>
      simp only at hm
      have hlen := length_keep_word ⟨[kw], w, .bareEsc⟩ c
      exact .inr (.inr ⟨keep_words _ _, .inl (by simp at hlen ⊢; omega)⟩)

private theorem nameRead_append {kw n s : CStr} {l l' : Lexer} (h : NameRead kw n l) (hs : Kept s)
    (hl : silent step l s = some l') : NameRead kw (n ++ s) l' := by
  induction s generalizing n l with
  | nil => rwa [← Option.some.inj hl, List.append_nil]
  | cons c s ih =>
    rcases hc : step l c with ⟨t, _ | x | _⟩
    · simp only [silent, hc] at hl
      have hsnoc := nameRead_snoc h (hs c (by simp)) hc
      have hrest := ih hsnoc (fun d hd => hs d (by simp [hd])) hl
      rwa [List.append_assoc] at hrest
    · simp [silent, hc] at hl
    · simp [silent, hc] at hl

theorem nameRead_of_silent {kw n : CStr} (hn : Kept n) {l : Lexer}
    (h : silent step ⟨[kw], [], .between⟩ n = some l) : NameRead kw n l :=
  nameRead_append (.inr (.inr ⟨rfl, rfl, by simp⟩) : NameRead kw [] ⟨[kw], [], .between⟩) hn h

/-! ### The words of the line -/

private theorem length_le_of_words {ws xs : List CStr} {a : CStr} (h : ws ++ [a] <+: xs) :
    (ws.map List.length).sum + a.length ≤ (xs.map List.length).sum := by
  obtain ⟨t, rfl⟩ := h
  simp

theorem next_word {ws xs : List CStr} {a b : CStr} (ha : ws ++ [a] <+: xs) (hb : ws ++ [b] <+: xs) : a = b := by
  obtain ⟨t, rfl⟩ := ha
  obtain ⟨u, hu⟩ := hb
  rw [List.append_assoc, List.append_assoc, List.append_cancel_left_eq] at hu
  exact (List.cons.inj hu).1.symm

theorem keep_into (ws : List CStr) (w : CStr) (m m' : Mode) (c : Char) :
    (keep ⟨ws, w, m⟩ c).into m' = ⟨ws, (keep ⟨ws, w, m⟩ c).word, m'⟩ := by
  show Lexer.mk _ _ _ = _
  rw [keep_words]

/-- In quotes, all of the value is read only when no character of it is special. -/
private theorem specials_of_quoted {ws : List CStr} {p value a : CStr} {l' : Lexer} {xs : List CStr}
    (h : ReadsAs step ⟨ws, p, .quoted⟩ (value ++ ['"', '\n']) l' xs) (hws : ws.length < pconfDefaultArgLimit)
    (ha : ws ++ [a] <+: xs) (hlen : p.length + value.length ≤ a.length) : ∀ c ∈ value, pconfEscape c = false := by
  induction value generalizing p with
  | nil => simp
  | cons c value ih =>
    have hsum := length_le_of_words ha
    rw [List.cons_append] at h
    rw [List.length_cons] at hlen
    rcases h.cons with ⟨hnil, -⟩ | ⟨t, ht, hs⟩
    · simp at hnil
    · have hmoves := moves_of_step ht
      have hrest := length_of_readsAs hs
      cases hmoves
      case closes =>
        -- the word ends here, before the end of the value
        have hw := words_kept hs
        rw [into_words, close_eq hws] at hw
        have hap := next_word ha hw
        subst hap
        omega
      case quotedEscape =>
        simp only [held, owed, List.length_append, List.length_cons, List.length_nil] at hrest
        omega
      case quoted hc =>
        rw [keep_into] at hs
        have hkeep := length_keep_word ⟨ws, p, .quoted⟩ c
        have hv := ih hs (by simp only at hkeep; omega)
        intro d hd
        rcases List.mem_cons.1 hd with rfl | hd
        · simp [pconfEscape, hc.1, hc.2.1, hc.2.2]
        · exact hv d hd

theorem keep_isKept {ws : List CStr} {w : CStr} {m : Mode} {c : Char} (h : isKept c)
    (hw : w.length < pconfDefaultWordlenLimit) : keep ⟨ws, w, m⟩ c = ⟨ws, w ++ [c], m⟩ := by
  simp only [isKept, Bool.and_eq_true, decide_eq_true_eq] at h
  exact keep_eq h.1 (by omega) hw

/-- The value, its closing quote and the newline, character by character. -/
private theorem exists_value_cons {v : CStr} (hv : Kept v) :
    ∃ x s, v ++ ['"', '\n'] = x :: s ∧ s.length = v.length + 1 ∧ isKept x := by
  cases v with
  | nil => exact ⟨'"', ['\n'], rfl, rfl, by decide⟩
  | cons x v => exact ⟨x, v ++ ['"', '\n'], rfl, by simp, hv x (by simp)⟩

theorem comment_items {ws : List CStr} {w s : CStr} {l' : Lexer} {xs : List CStr}
    (h : ReadsAs step ⟨ws, w, .comment⟩ s l' xs) : xs = ws := by
  induction s with
  | nil => obtain ⟨body, b, t, hsplit, -⟩ := h; simp at hsplit
  | cons c s ih =>
    rcases h.cons with ⟨-, hc⟩ | ⟨t, ht, hs⟩
    · rcases item_of_step hc with ⟨-, rfl⟩ | ⟨hm, -⟩
      · rfl
      · simp at hm
    · cases moves_of_step ht
      exact ih hs

/-- After an empty name the value cannot be what follows an empty word. -/
private theorem false_of_empty_name {kw value a₂ : CStr} {l' : Lexer} {xs : List CStr} (hvalue : Kept value)
    (h : ReadsAs step ⟨[kw], [], .quoted⟩ (value ++ ['"', '\n']) l' xs) (ha : [kw, [], a₂] <+: xs)
    (h₂ : tolower value <+: tolower a₂) : False := by
  have ha₁ : [kw] ++ [[]] <+: xs := (List.prefix_append [kw, []] [a₂]).trans ha
  have hsum := @length_le_of_words [kw, []] xs a₂ ha
  have hlen := h₂.length_le
  simp only [length_tolower, List.map_cons, List.map_nil, List.sum_cons, List.sum_nil, List.length_nil] at hsum hlen
  cases value with
  | nil =>
    have hs : ReadsAs step ⟨[kw, []], [], .between⟩ ['\n'] l' xs := h.tail rfl
    rcases hs.cons with ⟨-, hc⟩ | ⟨t, ht, hs'⟩
    · rcases item_of_step hc with ⟨-, rfl⟩ | ⟨hm, -⟩
      · exact absurd ha.length_le (by simp)
      · simp at hm
    · obtain ⟨body, b, u, hsplit, -⟩ := hs'
      simp at hsplit
  | cons y v =>
    have hv : Kept v := fun c hc => hvalue c (by simp [hc])
    have started : ∀ {c : Char} {s : CStr}, isKept c → ReadsAs step ⟨[kw], [] ++ [c], .quoted⟩ s l' xs → False := by
      intro c s hc hs
      obtain ⟨u, -, hw⟩ := word_kept hs (by simp [pconfDefaultArgLimit]) rfl
      exact absurd (next_word ha₁ hw) (by simp)
    rw [List.length_cons] at hlen
    rw [List.cons_append] at h
    rcases h.cons with ⟨hnil, -⟩ | ⟨t, ht, hs⟩
    · simp at hnil
    · have hmoves := moves_of_step ht
      cases hmoves
      case closes =>
        have hstate : (close ⟨[kw], [], .quoted⟩).into .between = ⟨[kw, []], [], .between⟩ := rfl
        rw [hstate] at hs
        -- the word after the empty one begins with a quote
        obtain ⟨z, a, rfl⟩ : ∃ z a, a₂ = z :: a := List.exists_cons_of_length_pos (by omega)
        obtain rfl : z = '"' := toLower_eq ((List.cons_prefix_cons.1 h₂).1.symm) (.inl (by decide))
        obtain ⟨x, s, hxs, hslen, -⟩ := exists_value_cons hv
        rw [hxs] at hs
        rcases hs.cons with ⟨-, hc⟩ | ⟨t, ht, hs⟩
        · rcases item_of_step hc with ⟨-, rfl⟩ | ⟨hm, -⟩
          · exact absurd ha.length_le (by simp)
          · simp at hm
        · have hrest := length_of_readsAs hs
          have hmoves := moves_of_step ht
          cases hmoves
          case comment | blank | escape | opens =>
            simp only [held, owed, List.map_cons, List.map_nil, List.sum_cons, List.sum_nil, List.length_nil] at hrest
            omega
          case equals =>
            have hw : [kw, []] ++ [['=']] <+: xs := words_kept hs
            exact absurd (next_word hw ha) (by simp)
          case starts hx =>
            rw [keep_into] at hs
            rcases keep_word ⟨[kw, []], [], .between⟩ x with hk | hk
            · rw [keep_into, hk] at hrest
              simp only [held, owed, List.map_cons, List.map_nil, List.sum_cons, List.sum_nil, List.length_nil] at hrest
              omega
            · rw [hk] at hs
              obtain ⟨u, -, hw⟩ := word_kept hs (by simp [pconfDefaultArgLimit]) rfl
              exact hx.2.2.2.1 (List.cons.inj (next_word ha hw)).1.symm
      case quotedEscape =>
        obtain ⟨x, s, hxs, -, hx⟩ := exists_value_cons hv
        have hne : x ≠ '\n' := by rintro rfl; exact absurd hx (by decide)
        have hstep : step ⟨[kw], [], .quotedEsc⟩ x = (⟨[kw], [] ++ [x], .quoted⟩, .more) := by
          have hk : keep ⟨[kw], [], .quotedEsc⟩ x = ⟨[kw], [] ++ [x], .quotedEsc⟩ := keep_isKept hx (by decide)
          simp [step, hne, hk, into]
        exact started hx ((hxs ▸ hs).tail hstep)
      case quoted =>
        have hk : keep ⟨[kw], [], .quoted⟩ y = ⟨[kw], [] ++ [y], .quoted⟩ := keep_isKept (hvalue y (by simp)) (by decide)
        rw [hk] at hs
        exact started (hvalue y (by simp)) hs

/-- A name that ends in an escape takes up the blank and the quote, which are not at its end. -/
private theorem false_of_escaped_end {kw name value w a₁ a₂ : CStr} {l' : Lexer} {xs : List CStr}
    (hlast : name.getLast? = some '\\')
    (h : ReadsAs step ⟨[kw], w ++ [' ', '"'], .bare⟩ (value ++ ['"', '\n']) l' xs) (ha : [kw, a₁, a₂] <+: xs)
    (h₁ : tolower a₁ = tolower name) (h₂ : value.length ≤ a₂.length) : False := by
  have hN : a₁.length = name.length := by simpa using congrArg List.length h₁
  have ha₁ : [kw] ++ [a₁] <+: xs := (List.prefix_append [kw, a₁] [a₂]).trans ha
  have hsum := @length_le_of_words [kw, a₁] xs a₂ ha
  simp only [List.map_cons, List.map_nil, List.sum_cons, List.sum_nil] at hsum
  have hlast₁ : ∀ u x, a₁ = u ++ [x] → x = '\\' := by
    intro u x hu
    have hget := congrArg List.getLast? h₁
    rw [hu, tolower, tolower, List.getLast?_map, List.getLast?_map, hlast, List.getLast?_concat] at hget
    exact toLower_eq (Option.some.inj hget) (.inl (by decide))
  have hrest := length_of_readsAs h
  obtain ⟨u, -, hw₁⟩ := word_kept h (by simp [pconfDefaultArgLimit]) rfl
  have hu : w ++ [' ', '"'] ++ u = a₁ := (next_word ha₁ hw₁).symm
  have hulen : (w ++ [' ', '"'] ++ u).length = name.length := by rw [hu, hN]
  simp only [held, owed, List.map_cons, List.map_nil, List.sum_cons, List.sum_nil, List.length_append,
    List.length_cons, List.length_nil] at hrest hulen
  have hw₂ : (w ++ [' ', '"']).length = w.length + 2 := by simp
  rcases u with _ | ⟨x, _ | ⟨x', u⟩⟩
  · exact absurd (hlast₁ (w ++ [' ']) '"' (by rw [← hu]; simp)) (by decide)
  · -- one more character, which would have to be the escape
    obtain rfl := hlast₁ (w ++ [' ', '"']) x hu.symm
    simp only [List.length_singleton] at hulen
    obtain ⟨y, s, hys, hslen⟩ : ∃ y s, value ++ ['"', '\n'] = y :: s ∧ s.length = value.length + 1 := by
      cases value with
      | nil => exact ⟨'"', ['\n'], rfl, rfl⟩
      | cons y v => exact ⟨y, v ++ ['"', '\n'], rfl, by simp⟩
    rw [hys] at h
    have hclose : ∀ m, ((close ⟨[kw], w ++ [' ', '"'], .bare⟩).into m).words = [kw] ++ [w ++ [' ', '"']] := fun m => by
      rw [into_words, close_eq (by simp [pconfDefaultArgLimit])]
    have ends : [kw] ++ [w ++ [' ', '"']] <+: xs → False := by
      intro hpre
      have hlen₁ := congrArg List.length (next_word ha₁ hpre)
      omega
    rcases h.cons with ⟨-, hc⟩ | ⟨t, ht, hs⟩
    · rcases item_of_step hc with ⟨hm | hm, -⟩ | ⟨-, rfl⟩
      · simp at hm
      · simp at hm
      · exact ends (by rw [← hclose .bare]; exact List.prefix_rfl)
    · have hrest := length_of_readsAs hs
      have hmoves := moves_of_step ht
      cases hmoves
      case bareComment | ends => exact ends (hclose _ ▸ words_kept hs)
      case bareEquals =>
        have hk := words_close ((close ⟨[kw], w ++ [' ', '"'], .bare⟩).keep '=')
        have hp := words_kept hs
        rw [keep_words] at hk
        rw [into_words] at hp
        exact ends (hclose .bare ▸ hk.trans hp)
      case bareEscape =>
        simp only [held, owed, List.map_cons, List.map_nil, List.sum_cons, List.sum_nil] at hrest
        omega
      case bare hy =>
        rw [keep_into] at hs hrest
        rcases keep_word ⟨[kw], w ++ [' ', '"'], .bare⟩ y with hk | hk
        · simp only [hk, held, owed, List.map_cons, List.map_nil, List.sum_cons, List.sum_nil] at hrest
          omega
        · rw [hk] at hs
          obtain ⟨u, -, hpre⟩ := word_kept hs (by simp [pconfDefaultArgLimit]) rfl
          have hv := next_word ha₁ hpre
          rw [← hu, List.append_assoc (w ++ [' ', '"']), List.append_cancel_left_eq] at hv
          exact hy.2.2.2 (List.cons.inj hv).1.symm
  · simp only [List.length_cons] at hulen
    omega

/-- A name that is read back, up to case, before a quote: it is plain, or it is blank, or it ends in an escape. -/
theorem after_quote {kw name a tail : CStr} {l' : Lexer} {xs : List CStr} (hname : Kept name)
    (hlen : name.length < pconfDefaultWordlenLimit)
    (h : ReadsAs step ⟨[kw], [], .between⟩ (name ++ (' ' :: '"' :: tail)) l' xs) (ha : [kw] ++ [a] <+: xs)
    (heq : tolower a = tolower name) :
    PlainWord name ∧ ReadsAs step ⟨[kw, a], [], .quoted⟩ tail l' xs ∨
      (∀ c ∈ name, c = ' ') ∧ ReadsAs step ⟨[kw], [], .quoted⟩ tail l' xs ∨
      ∃ w, name.getLast? = some '\\' ∧ silent step ⟨[kw], [], .between⟩ name = some ⟨[kw], w, .bareEsc⟩ ∧
        ReadsAs step ⟨[kw], w ++ [' ', '"'], .bare⟩ tail l' xs := by
  obtain ⟨l, hl, hs⟩ := h.split (by simp)
  have hN : a.length = name.length := by simpa using congrArg List.length heq
  -- a first word that is shorter than the name
  have short : ∀ {v : CStr}, [kw] ++ [v] <+: xs → v.length < name.length → False := by
    intro v hv hlt
    rw [next_word ha hv] at hN
    omega
  rcases nameRead_of_silent hname hl with ⟨v, hv, hlt⟩ | ⟨rfl, rfl⟩ | ⟨hws, hm⟩
  · exact (short (hv.trans (words_kept hs)) hlt).elim
  · have hs : ReadsAs step ⟨[kw, ['=']], [], .between⟩ ('"' :: tail) l' xs := hs.tail rfl
    obtain rfl : a = ['='] := next_word ha (words_kept hs)
    exact .inl ⟨.inl rfl, hs.tail rfl⟩
  · obtain ⟨ws, w, m⟩ := l
    simp only at hws
    subst hws
    have hkeep : ∀ m, w.length < name.length → keep ⟨[kw], w, m⟩ ' ' = ⟨[kw], w ++ [' '], m⟩ :=
      fun m hw => keep_isKept rfl (by omega)
    cases m <;> simp only at hm
    case between =>
      obtain rfl := hm.1
      have hs : ReadsAs step ⟨[kw], [], .between⟩ ('"' :: tail) l' xs := hs.tail rfl
      exact .inr (.inl ⟨hm.2, hs.tail rfl⟩)
    case comment =>
      rw [comment_items hs] at ha
      exact absurd ha.length_le (by simp)
    case quoted =>
      -- the blank is kept and the quote ends the word
      have hstep : step ⟨[kw], w, .quoted⟩ ' ' = (⟨[kw], w ++ [' '], .quoted⟩, .more) := by
        simp [step, hkeep _ hm.1, into]
      have hs : ReadsAs step ⟨[kw, w ++ [' ']], [], .between⟩ tail l' xs := (hs.tail hstep).tail rfl
      have ha : a = w ++ [' '] := next_word ha (words_kept hs)
      rw [ha, List.length_append, List.length_singleton] at hN
      obtain ⟨hn, hq⟩ := hm.2 hN
      rw [ha, hn] at heq
      cases w with
      | nil => exact absurd heq (by decide)
      | cons y w =>
        have hy := (List.cons.inj heq).1
        exact absurd (toLower_eq hy (.inl (by decide))) fun he => hq (by rw [he]; simp)
    case quotedEsc =>
      have hstep : step ⟨[kw], w, .quotedEsc⟩ ' ' = (⟨[kw], w ++ [' '], .quoted⟩, .more) := by
        simp [step, hkeep _ (by omega : w.length < name.length), into]
      have hs : ReadsAs step ⟨[kw, w ++ [' ']], [], .between⟩ tail l' xs := (hs.tail hstep).tail rfl
      exact (short (words_kept hs) (by simp; omega)).elim
    case bare =>
      have hs : ReadsAs step ⟨[kw, w], [], .between⟩ ('"' :: tail) l' xs := hs.tail rfl
      have ha : a = w := next_word ha (words_kept hs)
      rcases hm with hlt | ⟨rfl, -, hplain⟩
      · exact (short (words_kept hs) hlt).elim
      · exact .inl ⟨hplain, ha ▸ hs.tail rfl⟩
    case bareEsc =>
      have hk : keep ⟨[kw], w ++ [' '], .bare⟩ '"' = ⟨[kw], w ++ [' ', '"'], .bare⟩ := by
        rw [keep_isKept rfl (by simp; omega), List.append_assoc, List.singleton_append]
      have hstep₁ : step ⟨[kw], w, .bareEsc⟩ ' ' = (⟨[kw], w ++ [' '], .bare⟩, .more) := by
        simp [step, hkeep _ hm.1, into]
      have hstep₂ : step ⟨[kw], w ++ [' '], .bare⟩ '"' = (⟨[kw], w ++ [' ', '"'], .bare⟩, .more) := by
        simp [step, hk, into, isspace]
      exact .inr (.inr ⟨w, hm.2, hl, (hs.tail hstep₁).tail hstep₂⟩)

/-- When a name and a value that was not escaped are read back, up to case, the name is a plain word and the value has
no special character. -/
theorem plain_of_readsAs {kw name value a₁ a₂ : CStr} {l' : Lexer} {xs : List CStr} (hname : Kept name)
    (hvalue : Kept value) (hlen : name.length < pconfDefaultWordlenLimit)
    (h : ReadsAs step ⟨[kw], [], .between⟩ (name ++ (' ' :: '"' :: (value ++ ['"', '\n']))) l' xs)
    (ha : [kw, a₁, a₂] <+: xs) (h₁ : tolower a₁ = tolower name) (h₂ : tolower value <+: tolower a₂) :
    PlainWord name ∧ ∀ c ∈ value, pconfEscape c = false := by
  have hN : a₁.length = name.length := by simpa using congrArg List.length h₁
  have hV : value.length ≤ a₂.length := by simpa using h₂.length_le
  have ha₁ : [kw] ++ [a₁] <+: xs := (List.prefix_append [kw, a₁] [a₂]).trans ha
  rcases after_quote hname hlen h ha₁ h₁ with ⟨hplain, hs⟩ | ⟨-, hs⟩ | ⟨w, hlast, -, hs⟩
  · exact ⟨hplain, specials_of_quoted hs (by simp [pconfDefaultArgLimit]) ha (by simpa using hV)⟩
  · have hsum := @length_le_of_words [kw, a₁] xs a₂ ha
    have hrest := length_of_readsAs hs
    simp only [held, owed, List.map_cons, List.map_nil, List.sum_cons, List.sum_nil, List.length_append,
      List.length_cons, List.length_nil] at hsum hrest
    obtain rfl : a₁ = [] := List.eq_nil_of_length_eq_zero (by omega)
    exact (false_of_empty_name hvalue hs ha h₂).elim
  · exact (false_of_escaped_end hlast hs ha h₁ hV).elim

/-- When a name is read back, up to case, before a quoted text that has no character to escape and does not start with
a blank, the name is a plain word. -/
theorem plain_of_quoted {kw name a tail : CStr} {c : Char} {l' : Lexer} {xs : List CStr} (hname : Kept name)
    (hlen : name.length < pconfDefaultWordlenLimit)
    (h : ReadsAs step ⟨[kw], [], .between⟩ (name ++ (' ' :: '"' :: c :: tail)) l' xs)
    (hc : isKept c ∧ c ≠ ' ' ∧ c ≠ '#' ∧ c ≠ '"') (he : '\\' ∉ c :: tail) (ha : [kw] ++ [a] <+: xs)
    (heq : tolower a = tolower name) : PlainWord name := by
  obtain ⟨hkept, hblank, hhash, hquote⟩ := hc
  simp only [List.mem_cons, not_or] at he
  rcases after_quote hname hlen h ha heq with ⟨hplain, -⟩ | ⟨hspaces, hs⟩ | ⟨w, hlast, -, hs⟩
  · exact hplain
  · -- the first word starts with the text
    have hk : keep ⟨[kw], [], .quoted⟩ c = ⟨[kw], [c], .quoted⟩ := keep_isKept hkept (by decide)
    have hstep : step ⟨[kw], [], .quoted⟩ c = (⟨[kw], [c], .quoted⟩, .more) := by
      simp [step, hhash, hquote, Ne.symm he.1, hk, into]
    obtain ⟨u, -, hpre⟩ := word_kept (hs.tail hstep) (by simp [pconfDefaultArgLimit]) rfl
    have hau : a = [c] ++ u := next_word ha hpre
    obtain ⟨b, s, rfl⟩ : ∃ b s, name = b :: s := by
      cases name with
      | nil => rw [hau] at heq; simp [tolower] at heq
      | cons b s => exact ⟨b, s, rfl⟩
    have hb : b = ' ' := hspaces b (by simp)
    rw [hau, hb] at heq
    have hlow : c.toLower = ' ' := (List.cons.inj heq).1
    exact absurd (toLower_eq hlow (.inl (by decide))) hblank
  · -- the last character of the first word is not an escape
    obtain ⟨u, hu, hpre⟩ := word_kept hs (by simp [pconfDefaultArgLimit]) rfl
    have hau : a = w ++ [' ', '"'] ++ u := next_word ha hpre
    obtain ⟨v, x, hvx, hx⟩ : ∃ v x, a = v ++ [x] ∧ x ≠ '\\' := by
      rcases List.eq_nil_or_concat u with rfl | ⟨v, x, rfl⟩
      · exact ⟨w ++ [' '], '"', by rw [hau]; simp, by decide⟩
      · refine ⟨w ++ [' ', '"'] ++ v, x, by rw [hau]; simp, ?_⟩
        rintro rfl
        have hmem := hu '\\' (by simp)
        simp only [List.mem_cons] at hmem
        exact hmem.elim he.1 he.2
    have hget := congrArg List.getLast? heq
    rw [hvx, tolower, tolower, List.getLast?_map, List.getLast?_map, hlast, List.getLast?_concat] at hget
    exact absurd (toLower_eq (Option.some.inj hget) (.inl (by decide))) hx

/-! ### Names without a value -/

/-- A word in quotes ends at a quote. -/
theorem quote_mem {l l' : Lexer} {s : CStr} {xs : List CStr} (h : ReadsAs step l s l' xs)
    (hm : l.mode = .quoted ∨ l.mode = .quotedEsc) : '"' ∈ s := by
  induction s generalizing l with
  | nil => obtain ⟨body, b, t, hsplit, -⟩ := h; simp at hsplit
  | cons c s ih =>
    obtain ⟨ws, w, m⟩ := l
    rcases h.cons with ⟨-, hc⟩ | ⟨t, ht, hs⟩
    · rcases item_of_step hc with ⟨hb | hb, -⟩ | ⟨hb, -⟩ <;> simp only at hb <;> subst hb <;> simp at hm
    · have hmoves := moves_of_step ht
      cases hmoves <;> simp only [reduceCtorEq, or_self] at hm
      case closes => exact List.mem_cons_self ..
      case quotedEscape => exact List.mem_cons_of_mem _ (ih hs (.inr rfl))
      case quoted | quotedNewline | quotedLiteral => exact List.mem_cons_of_mem _ (ih hs (.inl rfl))

/-- Between words, the next word does not begin with a blank when nothing is quoted or escaped. -/
private theorem next_not_blank {ws xs : List CStr} {a s : CStr} {l' : Lexer} (h : ReadsAs step ⟨ws, [], .between⟩ s l' xs)
    (hws : ws.length < pconfDefaultArgLimit) (hs : ∀ c ∈ s, isKept c ∨ c = '\n') (hq : '"' ∉ s) (he : '\\' ∉ s)
    (ha : ws ++ [a] <+: xs) : ∃ c u, a = c :: u ∧ isspace c = false := by
  induction s with
  | nil => obtain ⟨body, b, t, hsplit, -⟩ := h; simp at hsplit
  | cons c s ih =>
    simp only [List.mem_cons, not_or] at hq he
    rcases h.cons with ⟨-, hc⟩ | ⟨t, ht, hrest⟩
    · rcases item_of_step hc with ⟨-, rfl⟩ | ⟨hm, -⟩
      · exact absurd ha.length_le (by simp)
      · simp at hm
    · have hmoves := moves_of_step ht
      cases hmoves
      case comment =>
        rw [comment_items hrest] at ha
        exact absurd ha.length_le (by simp)
      case blank => exact ih hrest (fun d hd => hs d (by simp [hd])) hq.2 he.2
      case escape => exact absurd rfl he.1
      case opens => exact absurd rfl hq.1
      case equals =>
        have hk : keep ⟨ws, [], .between⟩ '=' = ⟨ws, [] ++ ['='], .between⟩ := keep_isKept rfl (by decide)
        have hw := words_kept hrest
        rw [hk, into_words, close_eq hws] at hw
        exact ⟨'=', [], next_word ha hw, rfl⟩
      case starts hc =>
        have hprint : isKept c := by
          rcases hs c (by simp) with hp | rfl
          · exact hp
          · exact absurd hc.2.1 (by decide)
        have hk : keep ⟨ws, [], .between⟩ c = ⟨ws, [] ++ [c], .between⟩ := keep_isKept hprint (by decide)
        rw [hk] at hrest
        obtain ⟨u, -, hpre⟩ := word_kept hrest hws rfl
        exact ⟨c, u, next_word ha hpre, hc.2.1⟩

/-- When a name is read back, up to case, before numbers and plain words, it is a plain word. -/
theorem plain_of_first {kw name a s : CStr} {l' : Lexer} {xs : List CStr} (hname : Kept name)
    (hlen : name.length < pconfDefaultWordlenLimit) (h : ReadsAs step ⟨[kw], [], .between⟩ (name ++ s) l' xs)
    (hs : ∀ c ∈ s, isKept c ∨ c = '\n') (hsep : s.head? = some ' ' ∨ s = ['\n']) (hq : '"' ∉ s) (he : '\\' ∉ s)
    (ha : [kw] ++ [a] <+: xs) (heq : tolower a = tolower name) : PlainWord name := by
  have hne : s ≠ [] := by rintro rfl; simp at hsep
  obtain ⟨l, hl, hrest⟩ := h.split hne
  have hN : a.length = name.length := by simpa using congrArg List.length heq
  have short : ∀ {v : CStr}, [kw] ++ [v] <+: xs → v.length < name.length → False := by
    intro v hv hlt
    rw [next_word ha hv] at hN
    omega
  have hclose : ∀ w m m', ((close ⟨[kw], w, m⟩).into m').words = [kw] ++ [w] := fun w m m' => by
    rw [into_words, close_eq (by simp [pconfDefaultArgLimit])]
  rcases nameRead_of_silent hname hl with ⟨v, hv, hlt⟩ | ⟨rfl, -⟩ | ⟨hws, hm⟩
  · exact (short (hv.trans (words_kept hrest)) hlt).elim
  · exact .inl rfl
  · obtain ⟨ws, w, m⟩ := l
    simp only at hws
    subst hws
    cases m <;> simp only at hm
    case between =>
      obtain ⟨rfl, hblank⟩ := hm
      obtain ⟨c, u, rfl, hc⟩ := next_not_blank hrest (by simp [pconfDefaultArgLimit]) hs hq he ha
      cases name with
      | nil => simp at hN
      | cons d name =>
        obtain rfl := hblank d (by simp)
        have hcd := toLower_eq (List.cons.inj heq).1 (.inl (by decide))
        rw [hcd] at hc
        exact absurd hc (by decide)
    case comment =>
      rw [comment_items hrest] at ha
      exact absurd ha.length_le (by simp)
    case quoted => exact absurd (quote_mem hrest (.inl rfl)) hq
    case quotedEsc => exact absurd (quote_mem hrest (.inr rfl)) hq
    case bare =>
      rcases hm with hlt | ⟨rfl, -, hplain⟩
      · -- the word ends at the blank or the newline
        refine (short ?_ hlt).elim
        obtain ⟨c, s', rfl⟩ := List.exists_cons_of_ne_nil hne
        rcases hrest.cons with ⟨-, hc⟩ | ⟨t, ht, hs'⟩
        · rcases item_of_step hc with ⟨hm | hm, -⟩ | ⟨-, rfl⟩
          · simp at hm
          · simp at hm
          · rw [← hclose w .bare .bare]; exact List.prefix_rfl
        · have hmoves := moves_of_step ht
          rcases hsep with hsep | hsep
          · obtain rfl : c = ' ' := by simpa using hsep
            cases hmoves
            case ends => rw [← hclose w .bare .between]; exact words_kept hs'
            case bare hc => exact absurd hc.2.1 (by decide)
          · obtain ⟨rfl, rfl⟩ := List.cons.inj hsep
            obtain ⟨body, b, u, hsplit, -⟩ := hs'
            simp at hsplit
      · exact hplain
    case bareEsc =>
      rcases hsep with hsep | rfl
      · obtain ⟨s', rfl⟩ : ∃ s', s = ' ' :: s' := by
          cases s with
          | nil => simp at hsep
          | cons c s' => exact ⟨s', by simpa using hsep⟩
        have hk : keep ⟨[kw], w, .bareEsc⟩ ' ' = ⟨[kw], w ++ [' '], .bareEsc⟩ := keep_isKept rfl (by omega)
        have hs' := hrest.tail (by simp [step, hk, into] :
          step ⟨[kw], w, .bareEsc⟩ ' ' = (⟨[kw], w ++ [' '], .bare⟩, .more))
        obtain ⟨u, hu, hpre⟩ := word_kept hs' (by simp [pconfDefaultArgLimit]) rfl
        have hword : a = w ++ (' ' :: u) := by rw [next_word ha hpre]; simp
        -- its last character is the blank or comes after it
        have hlast : (a.getLast?).map Char.toLower = some '\\' := by
          rw [← List.getLast?_map]
          show (tolower a).getLast? = _
          rw [heq, tolower, List.getLast?_map, hm.2]
          rfl
        obtain ⟨x, hx, hxe⟩ := Option.map_eq_some_iff.1 hlast
        rw [hword, List.getLast?_append_of_ne_nil _ (by simp)] at hx
        have hxb : x = '\\' := toLower_eq hxe (.inl (by decide))
        rcases List.mem_cons.1 (List.mem_of_getLast? hx) with rfl | hxu
        · exact absurd hxb (by decide)
        · exact absurd (List.mem_cons_of_mem ' ' (hu x hxu)) (hxb ▸ he)
      · rcases hrest.cons with ⟨-, hc⟩ | ⟨t, ht, hs'⟩
        · rcases item_of_step hc with ⟨hb | hb, -⟩ | ⟨hb, -⟩ <;> simp at hb
        · obtain ⟨body, b, u, hsplit, -⟩ := hs'
          simp at hsplit

end Nut
