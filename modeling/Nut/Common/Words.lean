import Nut.Common.Lexer

/-!
# Words that are read back

A plain word, and a text that is escaped and put in quotes, are read back by the lexer as they were
(`silent_word`, `silent_quoted`).  `pconfEncode` is `escape` as long as the destination has room
(`pconfEncode_fits`), and otherwise `escape` of a prefix, so encoding twice is encoding what was read back
(`pconfEncode_take`).
-/

namespace Nut

open ChunkReader Lexer

/-- A character that does not end a word and is kept in it. -/
def plainChar (c : Char) : Bool := 0x20 < c.toNat && c.toNat ≤ 0x7f && c ≠ '#' && c ≠ '\\' && c ≠ '='

/-- A text that the parser reads as one word. -/
def PlainWord (w : CStr) : Prop := w = ['='] ∨ w ≠ [] ∧ w.head? ≠ some '"' ∧ ∀ c ∈ w, plainChar c

instance (w : CStr) : Decidable (PlainWord w) := inferInstanceAs (Decidable (_ ∨ _ ∧ _ ∧ _))

/-- The parser drops no character: the printable ones and DEL. -/
def Kept (s : CStr) : Prop := ∀ c ∈ s, isKept c

instance (s : CStr) : Decidable (Kept s) := inferInstanceAs (Decidable (∀ _ ∈ _, _))

/-- A text of the characters 0x20..0x7e. -/
def Printable (s : CStr) : Prop := ∀ c ∈ s, 0x20 ≤ c.toNat ∧ c.toNat ≤ 0x7e

instance (s : CStr) : Decidable (Printable s) := inferInstanceAs (Decidable (∀ _ ∈ _, _))

theorem Printable.kept {s : CStr} (h : Printable s) : Kept s := by
  intro c hc
  have hb := h c hc
  simp only [isKept, Bool.and_eq_true, decide_eq_true_eq]
  omega

theorem kept_append {s t : CStr} (hs : Kept s) (ht : Kept t) : Kept (s ++ t) := by
  intro c hc
  rcases List.mem_append.1 hc with hc | hc
  · exact hs c hc
  · exact ht c hc

theorem kept_snprintf {size : Nat} {s : CStr} (hs : Kept s) : Kept (snprintf size s) :=
  fun c hc => hs c (List.mem_of_mem_take hc)

theorem kept_tolower_iff {s : CStr} : Kept (tolower s) ↔ Kept s := by
  simp only [Kept, tolower, List.forall_mem_map, isKept_toLower]

theorem newline_notMem_of_kept {s : CStr} (h : Kept s) : '\n' ∉ s := fun hmem => absurd (h _ hmem) (by decide)

/-- The text with the characters of `PCONF_ESCAPE` escaped. -/
def escape (s : CStr) : CStr := s.flatMap fun c => if pconfEscape c then ['\\', c] else [c]

/-- The text with the escapes taken back. -/
def unescape : CStr → CStr
  | [] => []
  | ['\\'] => []
  | '\\' :: c :: s => c :: unescape s
  | c :: s => c :: unescape s

@[simp] theorem escape_nil : escape [] = [] := rfl

theorem escape_cons (c : Char) (s : CStr) :
    escape (c :: s) = (if pconfEscape c then ['\\', c] else [c]) ++ escape s := by
  simp [escape]

theorem escape_append (s t : CStr) : escape (s ++ t) = escape s ++ escape t := by
  simp [escape]

theorem unescape_escape (s : CStr) : unescape (escape s) = s := by
  induction s with
  | nil => rfl
  | cons c s ih =>
    rw [escape_cons]
    by_cases h : pconfEscape c
    · simp only [h, if_true, List.cons_append, List.nil_append, unescape, ih]
    · have hc : c ≠ '\\' := by rintro rfl; exact h rfl
      simp only [h, Bool.false_eq_true, if_false, List.cons_append, List.nil_append]
      rw [unescape.eq_4 _ _ (fun h' => absurd h' hc) (fun _ _ h' => absurd h' hc), ih]

theorem escape_injective : Function.Injective escape :=
  Function.LeftInverse.injective unescape_escape

/-- A text without special characters is its own escape. -/
theorem escape_of_forall {s : CStr} (h : ∀ c ∈ s, pconfEscape c = false) : escape s = s := by
  induction s with
  | nil => rfl
  | cons c s ih =>
    rw [escape_cons, h c (by simp), ih fun d hd => h d (by simp [hd])]; rfl

theorem length_le_escape (s : CStr) : s.length ≤ (escape s).length := by
  induction s with
  | nil => simp
  | cons c s ih =>
    rw [escape_cons, List.length_append]
    split <;> simp <;> omega

/-! ### The encoder -/

private theorem pconfEncodeLoop_fits {maxlen : Nat} {dest src : CStr} (h : (dest ++ escape src).length ≤ maxlen) :
    pconfEncodeLoop maxlen dest src = dest ++ escape src := by
  induction src generalizing dest with
  | nil => simp [pconfEncodeLoop]
  | cons c src ih =>
    rw [escape_cons] at h ⊢
    rw [pconfEncodeLoop]
    by_cases hc : pconfEscape c
    · simp only [hc, if_true] at h ⊢
      have hlen : dest.length + 2 ≤ maxlen := by simp at h; omega
      rw [if_neg (by omega), if_neg (by simp; omega), ih (by simpa using h)]
      simp
    · simp only [hc, Bool.false_eq_true, if_false] at h ⊢
      have hlen : dest.length + 1 ≤ maxlen := by simp at h; omega
      rw [if_neg (by omega), ih (by simpa using h)]
      simp

private theorem pconfEncodeLoop_eq_take {maxlen : Nat} (h0 : maxlen ≠ 0) {dest : CStr} (hd : dest.length ≤ maxlen)
    (src : CStr) : ∃ k, pconfEncodeLoop maxlen dest src = dest ++ escape (src.take k) ∧
      (dest ++ escape (src.take k)).length ≤ maxlen := by
  induction src generalizing dest with
  | nil => exact ⟨0, by simp [pconfEncodeLoop], by simpa using hd⟩
  | cons c src ih =>
    have stop : ∃ k, dest = dest ++ escape ((c :: src).take k) ∧
        (dest ++ escape ((c :: src).take k)).length ≤ maxlen := ⟨0, by simp, by simpa using hd⟩
    rw [pconfEncodeLoop]
    by_cases hc : pconfEscape c
    · rw [if_pos hc]
      by_cases hfull : maxlen - 1 ≤ dest.length
      · rwa [if_pos ⟨h0, hfull⟩]
      · rw [if_neg (by omega), if_neg (by simp; omega)]
        obtain ⟨k, hk, hlen⟩ := @ih (dest ++ ['\\', c]) (by simp; omega)
        exact ⟨k + 1, by rw [hk, List.take_succ_cons, escape_cons, if_pos hc, List.append_assoc],
          by rw [List.take_succ_cons, escape_cons, if_pos hc, ← List.append_assoc]; exact hlen⟩
    · rw [if_neg hc]
      by_cases hfull : maxlen ≤ dest.length
      · rwa [if_pos hfull]
      · rw [if_neg hfull]
        obtain ⟨k, hk, hlen⟩ := @ih (dest ++ [c]) (by simp; omega)
        exact ⟨k + 1, by rw [hk, List.take_succ_cons, escape_cons, if_neg hc, List.append_assoc],
          by rw [List.take_succ_cons, escape_cons, if_neg hc, ← List.append_assoc]; exact hlen⟩

/-- With room for it, the encoder writes the whole escaped text. -/
theorem pconfEncode_fits {src : CStr} {destsize : Nat} (h : (escape src).length < destsize) :
    pconfEncode src destsize = escape src := by
  have hfit := @pconfEncodeLoop_fits (destsize - 1) [] src (by simp; omega)
  simpa [pconfEncode] using hfit

private theorem pconfEncodeLoop_length {maxlen : Nat} {dest src : CStr} (hd : dest.length ≤ maxlen)
    (h : maxlen < (dest ++ escape src).length) : maxlen ≤ (pconfEncodeLoop maxlen dest src).length + 1 := by
  induction src generalizing dest with
  | nil => simp at h; omega
  | cons c src ih =>
    rw [escape_cons] at h
    rw [pconfEncodeLoop]
    by_cases hc : pconfEscape c
    · simp only [hc, if_true] at h ⊢
      split_ifs with hfull hone
      · omega
      · simp at hone ⊢; omega
      · simp only [List.length_append, List.length_singleton, not_le] at hone
        exact ih (by simp; omega) (by simpa using h)
    · simp only [hc, Bool.false_eq_true, if_false] at h ⊢
      split_ifs with hfull
      · omega
      · exact ih (by simp; omega) (by simpa using h)

/-- Without room for the whole escaped text, the encoder fills the destination but for one character. -/
theorem le_length_pconfEncode {src : CStr} {destsize : Nat} (h : destsize ≤ (escape src).length) :
    destsize ≤ (pconfEncode src destsize).length + 2 := by
  rcases Nat.eq_zero_or_pos destsize with rfl | hpos
  · omega
  · have hlen := @pconfEncodeLoop_length (destsize - 1) [] src (by simp) (by simp; omega)
    simp only [pconfEncode]
    omega

private theorem pconfEncodeLoop_full {maxlen : Nat} (h0 : maxlen ≠ 0) {dest src : CStr}
    (h : maxlen ≤ (dest ++ escape src).length + 1) {c : Char} (hc : pconfEscape c = true) (more : CStr) :
    pconfEncodeLoop maxlen dest (src ++ c :: more) = pconfEncodeLoop maxlen dest src := by
  induction src generalizing dest with
  | nil =>
    rw [escape_nil, List.append_nil] at h
    rw [List.nil_append, pconfEncodeLoop, pconfEncodeLoop, if_pos hc, if_pos ⟨h0, by omega⟩]
  | cons d src ih =>
    rw [List.cons_append, pconfEncodeLoop, pconfEncodeLoop]
    rw [escape_cons, ← List.append_assoc] at h
    by_cases hd : pconfEscape d = true
    · rw [if_pos hd] at h
      rw [if_pos hd, if_pos hd, ih h]
    · rw [if_neg hd] at h
      rw [if_neg hd, if_neg hd, ih h]

/-- What would need an escape is not written once the destination is full but for one character. -/
theorem pconfEncode_full {src : CStr} {destsize : Nat} (h2 : 2 ≤ destsize) (h : destsize ≤ (escape src).length + 2)
    {c : Char} (hc : pconfEscape c = true) (more : CStr) :
    pconfEncode (src ++ c :: more) destsize = pconfEncode src destsize :=
  @pconfEncodeLoop_full (destsize - 1) (by omega) [] src (by simp; omega) c hc more

/-- A text that leaves room for two more characters is encoded like no other one. -/
theorem pconfEncode_eq_iff {src : CStr} {destsize : Nat} (h : (escape src).length + 2 < destsize) (other : CStr) :
    pconfEncode other destsize = pconfEncode src destsize ↔ other = src := by
  constructor
  · intro he
    rw [pconfEncode_fits (by omega : (escape src).length < destsize)] at he
    by_cases hfit : (escape other).length < destsize
    · rw [pconfEncode_fits hfit] at he
      exact escape_injective he
    · have hlen := le_length_pconfEncode (not_lt.1 hfit)
      rw [he] at hlen
      omega
  · rintro rfl
    rfl

/-- The encoder writes the escape of a prefix, which it writes again when given that prefix. -/
theorem pconfEncode_take (src : CStr) {destsize : Nat} (h : 2 ≤ destsize) :
    ∃ k, pconfEncode src destsize = escape (src.take k) ∧ (escape (src.take k)).length < destsize ∧
      pconfEncode (src.take k) destsize = escape (src.take k) := by
  obtain ⟨k, hk, hlen⟩ := @pconfEncodeLoop_eq_take (destsize - 1) (by omega) [] (by simp) src
  rw [List.nil_append] at hk hlen
  exact ⟨k, hk, by omega, pconfEncode_fits (by omega)⟩

theorem kept_escape {s : CStr} (h : Kept s) : Kept (escape s) := by
  intro c hc
  obtain ⟨d, hd, hmem⟩ := List.mem_flatMap.1 hc
  split_ifs at hmem
  · rcases List.mem_cons.1 hmem with rfl | hmem
    · rfl
    · rw [List.mem_singleton.1 hmem]
      exact h d hd
  · rw [List.mem_singleton.1 hmem]
    exact h d hd

/-! ### Reading a word -/

theorem plainChar_bounds {c : Char} (h : plainChar c = true) :
    (0x20 < c.toNat ∧ c.toNat ≤ 0x7f) ∧ c ≠ '#' ∧ c ≠ '\\' ∧ c ≠ '=' := by
  simp only [plainChar, Bool.and_eq_true, decide_eq_true_eq] at h
  exact ⟨h.1.1.1, h.1.1.2, h.1.2, h.2⟩

theorem plainChar_toLower (c : Char) : plainChar c.toLower = plainChar c := by
  rcases toLower_cases c with h | ⟨⟨h1, h2⟩, h⟩
  · rw [h]
  · -- both letters are plain
    have hplain {d : Char} (h1 : 65 ≤ d.toNat) (h2 : d.toNat ≤ 122) (h3 : d.toNat ≠ 92) : plainChar d = true := by
      have hne (e : Char) (he : e.toNat < 65 ∨ e.toNat = 92) : d ≠ e := by
        rintro rfl
        omega
      have hhash := hne '#' (.inl (by decide))
      have hslash := hne '\\' (.inr (by decide))
      have hequals := hne '=' (.inl (by decide))
      simp only [plainChar, Bool.and_eq_true, decide_eq_true_eq]
      exact ⟨⟨⟨⟨by omega, by omega⟩, hhash⟩, hslash⟩, hequals⟩
    rw [hplain h1 (by omega) (by omega), hplain (by omega) (by omega) (by omega)]

theorem not_isspace_of_lt {c : Char} (h : 0x20 < c.toNat) : isspace c = false := by
  have hs : c ≠ ' ' := by rintro rfl; simp at h
  simp only [isspace, hs, decide_false, Bool.false_or, Bool.and_eq_false_iff, decide_eq_false_iff_not]
  omega

theorem ne_newline_of_le {c : Char} (h : 0x20 ≤ c.toNat) : c ≠ '\n' := by
  rintro rfl; simp at h

namespace Lexer

theorem keep_eq {ws : List CStr} {w : CStr} {m : Mode} {c : Char} (h : 0x20 ≤ c.toNat) (h' : c.toNat ≤ 0x7f)
    (hw : w.length < pconfDefaultWordlenLimit) : keep ⟨ws, w, m⟩ c = ⟨ws, w ++ [c], m⟩ := by
  unfold keep
  rw [if_neg (by simp; omega), if_neg (by simp; omega)]

theorem close_eq {ws : List CStr} {w : CStr} {m : Mode} (h : ws.length < pconfDefaultArgLimit) :
    close ⟨ws, w, m⟩ = ⟨ws ++ [w], [], m⟩ := by
  unfold close
  rw [if_neg (by simp; omega)]

private theorem silent_bare (ws : List CStr) (w : CStr) {s : CStr} (hs : ∀ c ∈ s, plainChar c)
    (hlen : w.length + s.length ≤ pconfDefaultWordlenLimit) :
    silent step ⟨ws, w, .bare⟩ s = some ⟨ws, w ++ s, .bare⟩ := by
  induction s generalizing w with
  | nil => simp [silent]
  | cons c s ih =>
    obtain ⟨⟨h1, h2⟩, h3, h4, h5⟩ := plainChar_bounds (hs c (by simp))
    have hk : keep ⟨ws, w, .bare⟩ c = ⟨ws, w ++ [c], .bare⟩ :=
      keep_eq (by omega) (by omega) (by simp at hlen; omega)
    have hstep : step ⟨ws, w, .bare⟩ c = (⟨ws, w ++ [c], .bare⟩, .more) := by
      simp [step, h3, h4, h5, not_isspace_of_lt h1, ne_newline_of_le (Nat.le_of_lt h1), hk, into]
    have hlen' : (w ++ [c]).length + s.length ≤ pconfDefaultWordlenLimit := by simp at hlen ⊢; omega
    simp only [silent, hstep, ih (w ++ [c]) (fun d hd => hs d (by simp [hd])) hlen', List.append_assoc,
      List.singleton_append]

/-- A plain word starts at its first character. -/
theorem silent_start (ws : List CStr) {w : CStr} (hne : w ≠ []) (hq : w.head? ≠ some '"')
    (hs : ∀ c ∈ w, plainChar c) (hlen : w.length ≤ pconfDefaultWordlenLimit) :
    silent step ⟨ws, [], .between⟩ w = some ⟨ws, w, .bare⟩ := by
  obtain ⟨c, s, rfl⟩ := List.exists_cons_of_ne_nil hne
  obtain ⟨⟨h1, h2⟩, h3, h4, h5⟩ := plainChar_bounds (hs c (by simp))
  have h6 : c ≠ '"' := by rintro rfl; simp at hq
  have hk : keep ⟨ws, [], .between⟩ c = ⟨ws, [c], .between⟩ :=
    keep_eq (by omega) (by omega) (by decide)
  have hstep : step ⟨ws, [], .between⟩ c = (⟨ws, [c], .bare⟩, .more) := by
    simp [step, h3, h4, h5, h6, not_isspace_of_lt h1, ne_newline_of_le (Nat.le_of_lt h1), hk, into]
  have hrest := silent_bare ws [c] (fun d hd => hs d (List.mem_cons_of_mem c hd)) (by simp at hlen ⊢; omega)
  rw [List.singleton_append] at hrest
  simpa only [silent, hstep] using hrest

/-- A plain word is read as it is; the character after it completes it. -/
theorem silent_plain (ws : List CStr) {w : CStr} (hw : PlainWord w) (hlen : w.length ≤ pconfDefaultWordlenLimit)
    (hws : ws.length < pconfDefaultArgLimit) :
    ∃ l, silent step ⟨ws, [], .between⟩ w = some l ∧ step l ' ' = (⟨ws ++ [w], [], .between⟩, .more) ∧
      step l '\n' = (start, .item (ws ++ [w])) := by
  rcases hw with rfl | ⟨hne, hq, hs⟩
  · refine ⟨⟨ws ++ [['=']], [], .between⟩, ?_, rfl, rfl⟩
    have hk : keep ⟨ws, [], .between⟩ '=' = ⟨ws, ['='], .between⟩ := keep_eq (by decide) (by decide) (by decide)
    simp [silent, step, hk, close_eq hws, into]
  · refine ⟨⟨ws, w, .bare⟩, silent_start ws hne hq hs hlen, ?_, ?_⟩
    · simp [step, close_eq hws, into]
    · simp [step, close_eq hws]

theorem silent_word (ws : List CStr) {w : CStr} (hw : PlainWord w) (hlen : w.length ≤ pconfDefaultWordlenLimit)
    (hws : ws.length < pconfDefaultArgLimit) :
    silent step ⟨ws, [], .between⟩ (w ++ [' ']) = some ⟨ws ++ [w], [], .between⟩ := by
  obtain ⟨l, hl, hsp, -⟩ := silent_plain ws hw hlen hws
  rw [silent_append hl]
  simp [silent, hsp]

theorem readsAs_word (ws : List CStr) {w : CStr} (hw : PlainWord w) (hlen : w.length ≤ pconfDefaultWordlenLimit)
    (hws : ws.length < pconfDefaultArgLimit) :
    ReadsAs step ⟨ws, [], .between⟩ (w ++ ['\n']) start (ws ++ [w]) := by
  obtain ⟨l, hl, -, hnl⟩ := silent_plain ws hw hlen hws
  exact ⟨w, '\n', l, rfl, hl, hnl⟩

theorem silent_escape (ws : List CStr) (w : CStr) {s : CStr} (hs : Kept s)
    (hlen : w.length + s.length ≤ pconfDefaultWordlenLimit) :
    silent step ⟨ws, w, .quoted⟩ (escape s) = some ⟨ws, w ++ s, .quoted⟩ := by
  induction s generalizing w with
  | nil => simp [silent]
  | cons c s ih =>
    have hc := hs c (by simp)
    simp only [isKept, Bool.and_eq_true, decide_eq_true_eq] at hc
    have hk : ∀ m, keep ⟨ws, w, m⟩ c = ⟨ws, w ++ [c], m⟩ := fun m =>
      keep_eq (by omega) (by omega) (by simp at hlen; omega)
    have hlen' : (w ++ [c]).length + s.length ≤ pconfDefaultWordlenLimit := by simp at hlen ⊢; omega
    have hrest := ih (w ++ [c]) (fun d hd => hs d (by simp [hd])) hlen'
    rw [escape_cons]
    by_cases he : pconfEscape c
    · have h1 : step ⟨ws, w, .quoted⟩ '\\' = (⟨ws, w, .quotedEsc⟩, .more) := rfl
      have h2 : step ⟨ws, w, .quotedEsc⟩ c = (⟨ws, w ++ [c], .quoted⟩, .more) := by
        simp [step, ne_newline_of_le hc.1, hk, into]
      simp only [he, if_true, List.cons_append, List.nil_append, silent, h1, h2, hrest, List.append_assoc]
    · simp only [pconfEscape, Bool.or_eq_true, decide_eq_true_eq, not_or] at he
      have h1 : step ⟨ws, w, .quoted⟩ c = (⟨ws, w ++ [c], .quoted⟩, .more) := by
        simp [step, he, hk, into]
      simp [pconfEscape, he, silent, h1, hrest]

/-- An escaped text in quotes is read as one word, with the escapes taken back. -/
theorem silent_quoted (ws : List CStr) {s : CStr} (hs : Kept s) (hlen : s.length ≤ pconfDefaultWordlenLimit)
    (hws : ws.length < pconfDefaultArgLimit) :
    silent step ⟨ws, [], .between⟩ ('"' :: escape s ++ ['"']) = some ⟨ws ++ [s], [], .between⟩ := by
  have hopen : step ⟨ws, [], .between⟩ '"' = (⟨ws, [], .quoted⟩, .more) := rfl
  have hbody := silent_escape ws [] hs (by simpa using hlen)
  have hclose : step ⟨ws, s, .quoted⟩ '"' = (⟨ws ++ [s], [], .between⟩, .more) := by
    simp [step, close_eq hws, into]
  rw [List.nil_append] at hbody
  rw [List.cons_append, silent, hopen]
  simp only
  rw [silent_append hbody]
  simp [silent, hclose]

theorem readsAs_newline (ws : List CStr) : ReadsAs step ⟨ws, [], .between⟩ ['\n'] start ws :=
  ⟨[], '\n', _, rfl, rfl, rfl⟩

theorem lt_of_isKept {c : Char} (h : isKept c) (hs : c ≠ ' ') : 0x20 < c.toNat := by
  simp only [isKept, Bool.and_eq_true, decide_eq_true_eq] at h
  have h20 : c.toNat ≠ 0x20 := fun hc => hs (Char.ext (UInt32.toNat_inj.1 hc))
  omega

/-- A character that does not end a word outside quotes, once it is escaped. -/
private theorem step_bare {c : Char} (h : isKept c) (hs : c ≠ ' ') (he : c ≠ '=') (hp : pconfEscape c = false)
    (l : Lexer) (hm : l.mode = .bare) : step l c = ((l.keep c).into .bare, .more) := by
  have hlt := lt_of_isKept h hs
  simp only [pconfEscape, Bool.or_eq_false_iff, decide_eq_false_iff_not] at hp
  simp [step, hm, hp.1.1, hp.1.2, he, not_isspace_of_lt hlt, ne_newline_of_le (Nat.le_of_lt hlt)]

/-- Outside quotes an escaped text without blanks and `=` goes on with the word, which grows as far as it may. -/
theorem silent_escape_bare (ws : List CStr) (w : CStr) {s : CStr} (hs : Kept s) (hb : ' ' ∉ s) (he : '=' ∉ s) :
    ∃ w', silent step ⟨ws, w, .bare⟩ (escape s) = some ⟨ws, w', .bare⟩ ∧
      (w.length + s.length ≤ pconfDefaultWordlenLimit → w' = w ++ s) := by
  induction s generalizing w with
  | nil => exact ⟨w, rfl, fun _ => (List.append_nil w).symm⟩
  | cons c s ih =>
    simp only [List.mem_cons, not_or] at hb he
    have hc := hs c (by simp)
    obtain ⟨w', hrun, hw'⟩ := ih (keep ⟨ws, w, .bare⟩ c).word (fun d hd => hs d (by simp [hd])) hb.2 he.2
    have hkeep (m : Mode) : (keep ⟨ws, w, m⟩ c).into .bare = ⟨ws, (keep ⟨ws, w, .bare⟩ c).word, .bare⟩ := by
      unfold keep into
      split_ifs <;> rfl
    refine ⟨w', ?_, fun hlen => ?_⟩
    · rw [escape_cons]
      by_cases hp : pconfEscape c
      · have h1 : step ⟨ws, w, .bare⟩ '\\' = (⟨ws, w, .bareEsc⟩, .more) := rfl
        have h2 : step ⟨ws, w, .bareEsc⟩ c = (⟨ws, (keep ⟨ws, w, .bare⟩ c).word, .bare⟩, .more) := by
          have hnl : c ≠ '\n' := by rintro rfl; exact absurd hc (by decide)
          rw [← hkeep .bareEsc]
          simp [step, hnl]
        simp only [hp, if_true, List.cons_append, List.nil_append, silent, h1, h2, hrun]
      · have h1 := step_bare hc (Ne.symm hb.1) (Ne.symm he.1) (by simpa using hp) ⟨ws, w, .bare⟩ rfl
        rw [hkeep .bare] at h1
        simp only [hp, Bool.false_eq_true, if_false, List.cons_append, List.nil_append, silent, h1, hrun]
    · rw [List.length_cons] at hlen
      have hk : (keep ⟨ws, w, .bare⟩ c).word = w ++ [c] := by
        simp only [isKept, Bool.and_eq_true, decide_eq_true_eq] at hc
        rw [keep_eq hc.1 (by omega) (by omega)]
      rw [hk] at hw'
      rw [hw' (by simp; omega), List.append_assoc, List.singleton_append]

end Lexer

/-- A text that is read as one word when its special characters are escaped. -/
def Bare (s : CStr) : Prop := s = ['='] ∨ s ≠ [] ∧ ' ' ∉ s ∧ '=' ∉ s

instance (s : CStr) : Decidable (Bare s) := inferInstanceAs (Decidable (_ ∨ _ ∧ _ ∧ _))

namespace Lexer

/-- An escaped text without blanks and `=` is a word, which goes on. -/
theorem silent_escaped_bare (ws : List CStr) {s : CStr} (hs : Kept s) (hne : s ≠ []) (hb : ' ' ∉ s) (he : '=' ∉ s)
    (hlen : s.length ≤ pconfDefaultWordlenLimit) :
    silent step ⟨ws, [], .between⟩ (escape s) = some ⟨ws, s, .bare⟩ := by
  obtain ⟨c, s, rfl⟩ := List.exists_cons_of_ne_nil hne
  simp only [List.mem_cons, not_or] at hb he
  rw [List.length_cons] at hlen
  obtain ⟨w', hrun, hw'⟩ := silent_escape_bare ws [c] (fun d hd => hs d (by simp [hd])) hb.2 he.2
  rw [hw' (by simp; omega), List.singleton_append] at hrun
  have hc := hs c (by simp)
  have hnl : c ≠ '\n' := by rintro rfl; exact absurd hc (by decide)
  have hkept := hc
  simp only [isKept, Bool.and_eq_true, decide_eq_true_eq] at hkept
  have hk (m : Mode) : keep ⟨ws, [], m⟩ c = ⟨ws, [c], m⟩ := keep_eq hkept.1 (by omega) (by decide)
  rw [escape_cons]
  by_cases hp : pconfEscape c
  · have h1 : step ⟨ws, [], .between⟩ '\\' = (⟨ws, [], .bareEsc⟩, .more) := rfl
    have h2 : step ⟨ws, [], .bareEsc⟩ c = (⟨ws, [c], .bare⟩, .more) := by simp [step, hnl, hk, into]
    simp only [hp, if_true, List.cons_append, List.nil_append, silent, h1, h2, hrun]
  · simp only [pconfEscape, Bool.or_eq_true, decide_eq_true_eq, not_or] at hp
    have h1 : step ⟨ws, [], .between⟩ c = (⟨ws, [c], .bare⟩, .more) := by
      simp [step, hnl, hp, Ne.symm he.1, not_isspace_of_lt (lt_of_isKept hc (Ne.symm hb.1)), hk, into]
    have hpe : pconfEscape c = false := by simp [pconfEscape, hp]
    simp only [hpe, Bool.false_eq_true, if_false, List.cons_append, List.nil_append, silent, h1, hrun]

/-- An escaped word is read with the escapes taken back; the character after it completes it. -/
theorem silent_escaped (ws : List CStr) {s : CStr} (hs : Kept s) (hbare : Bare s) (hlen : s.length ≤ pconfDefaultWordlenLimit)
    (hws : ws.length < pconfDefaultArgLimit) :
    ∃ l, silent step ⟨ws, [], .between⟩ (escape s) = some l ∧ step l ' ' = (⟨ws ++ [s], [], .between⟩, .more) ∧
      step l '\n' = (start, .item (ws ++ [s])) := by
  rcases hbare with rfl | ⟨hne, hb, he⟩
  · exact silent_plain ws (.inl rfl) hlen hws
  · refine ⟨⟨ws, s, .bare⟩, silent_escaped_bare ws hs hne hb he hlen, ?_, ?_⟩
    · simp [step, close_eq hws, into]
    · simp [step, close_eq hws]

end Lexer

/-- A plain word is one of these. -/
theorem PlainWord.bare {w : CStr} (h : PlainWord w) : Bare w := by
  rcases h with h | ⟨hne, -, hs⟩
  · exact .inl h
  · refine .inr ⟨hne, fun hb => ?_, fun he => ?_⟩
    · exact absurd (hs ' ' hb) (by decide)
    · exact absurd (hs '=' he) (by decide)

end Nut
