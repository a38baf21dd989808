import Nut.Clients.Nutclient

/-!
# What the clients read of an answer

A line of words, each plain or in quotes and encoded, as the three clients split it: `pconf_line` reads the words that
were written up to the limits of the parser, `explode` reads DEL for every `#` in quotes, and the Java client keeps the
backslash before it (`clients_read_iff`).
-/

namespace Nut

open ChunkReader Lexer

/-- A word of an answer. -/
inductive Written where
  | plain (w : CStr)
  | quoted (s : CStr)
  deriving DecidableEq

namespace Written

def raw : Written → CStr
  | plain w => w
  | quoted s => s

/-- What is sent for the word, encoded in a buffer of `size` bytes. -/
def text (size : Nat) : Written → CStr
  | plain w => w
  | quoted s => '"' :: pconfEncode s size ++ ['"']

/-- The words of a line with single blanks between them. -/
def line (size : Nat) : List Written → CStr
  | [] => []
  | [w] => w.text size
  | w :: ws => w.text size ++ ' ' :: line size ws

/-- A plain name is not empty and has none of the characters that the parser treats specially. -/
def Name (w : CStr) : Prop :=
  w ≠ [] ∧ ∀ c ∈ w, 0x20 < c.toNat ∧ c.toNat ≤ 0x7e ∧ c ≠ '#' ∧ c ≠ '\\' ∧ c ≠ '"' ∧ c ≠ '='

instance (w : CStr) : Decidable (Name w) := inferInstanceAs (Decidable (_ ∧ ∀ _ ∈ _, _))

/-- A plain word is a name, and the encoding of a quoted one fits the buffer. -/
def Ok (size : Nat) : Written → Prop
  | plain w => Name w
  | quoted s => Printable s ∧ (Nut.escape s).length < size

instance (size : Nat) (w : Written) : Decidable (w.Ok size) := by
  cases w <;> unfold Ok <;> infer_instance

/-- No `#` has to be escaped in the word. -/
def NoHash : Written → Prop
  | plain _ => True
  | quoted s => '#' ∉ s

/-- The word is at most as long as the parser reads it. -/
def Short (w : Written) : Prop := w.raw.length ≤ 512

end Written

open Written

variable {size : Nat} {ctx : PconfCtx}

private theorem line_cons_cons (w v : Written) (l : List Written) :
    line size (w :: v :: l) = w.text size ++ ' ' :: line size (v :: l) := rfl

/-! ### The C client -/

/-- A line that does not end the parser's work gives the words so far and the one that is still being built. -/
theorem pconfLine_args_of_silent (h : BetweenLines ctx) {s : CStr} {t : Lexer} (hs : silent step start s = some t) :
    (pconfLine ctx s).args = if t.word = [] then t.words else t.close.words := by
  obtain ⟨c, hc, -, hloop⟩ := (Reading.startOver h.tidy.2).silent hs
  have hnone : parseLoop (startOver ctx) s = (c, none) := by
    have hnil := hloop []
    rwa [List.append_nil] at hnil
  rw [pconfLine_of_none hnone, lingering]
  have hword : (c.onLine (ctx.linenum + 1)).wordbuf = t.word := hc.2.2.wordbuf
  have hload : Loading ctx.arglist t (c.onLine (ctx.linenum + 1)) := ⟨hc.2.2.wordbuf, hc.2.2.numargs, hc.2.2.arglist⟩
  rw [hword]
  by_cases hw : t.word = []
  · rw [if_neg (by simp [hw]), if_pos hw, PconfCtx.args, hload.numargs, hload.arglist, List.take_left]
  · have hend := hload.endofword
    rw [if_pos hw, if_neg hw, PconfCtx.args, hend.numargs, hend.arglist, List.take_left]

private theorem take_append_take {α : Type*} (n : Nat) (a b : List α) : (a.take n ++ b).take n = (a ++ b).take n := by
  rw [List.take_append, List.take_append, List.take_take, Nat.min_self, List.length_take]
  congr 2
  omega

/-- The word as far as the parser reads it. -/
def Written.cut (w : Written) : CStr := w.raw.take pconfDefaultWordlenLimit

private theorem keep_cut {ws : List CStr} {w : CStr} {m : Mode} {c : Char} (hc : isKept c)
    (hw : w.length ≤ pconfDefaultWordlenLimit) : keep ⟨ws, w, m⟩ c = ⟨ws, (w ++ [c]).take pconfDefaultWordlenLimit, m⟩ := by
  simp only [isKept, Bool.and_eq_true, decide_eq_true_eq] at hc
  by_cases hfull : w.length < pconfDefaultWordlenLimit
  · rw [keep_eq hc.1 hc.2 hfull, List.take_of_length_le (by rw [List.length_append, List.length_singleton]; omega)]
  · unfold keep
    rw [if_neg (by simp; omega), if_pos (by simp; omega), List.take_append_of_le_length (by omega),
      List.take_of_length_le (by omega)]

private theorem close_cut {ws : List CStr} {w : CStr} {m : Mode} (hws : ws.length ≤ pconfDefaultArgLimit) :
    close ⟨ws, w, m⟩ = ⟨(ws ++ [w]).take pconfDefaultArgLimit, [], m⟩ := by
  by_cases hfull : ws.length < pconfDefaultArgLimit
  · rw [close_eq hfull, List.take_of_length_le (by rw [List.length_append, List.length_singleton]; omega)]
  · unfold close
    rw [if_pos (by simp; omega), List.take_append_of_le_length (by omega), List.take_of_length_le (by omega)]

private theorem length_cut_le {α : Type*} (n : Nat) (s : List α) : (s.take n).length ≤ n := by simp

private theorem silent_name_cut (ws : List CStr) {w s : CStr} (hw : w.length ≤ pconfDefaultWordlenLimit)
    (hs : ∀ c ∈ s, 0x20 < c.toNat ∧ c.toNat ≤ 0x7e ∧ c ≠ '#' ∧ c ≠ '\\' ∧ c ≠ '"' ∧ c ≠ '=') :
    silent step ⟨ws, w, .bare⟩ s = some ⟨ws, (w ++ s).take pconfDefaultWordlenLimit, .bare⟩ := by
  induction s generalizing w with
  | nil => rw [List.append_nil, List.take_of_length_le hw]; rfl
  | cons c s ih =>
    obtain ⟨h1, h2, h3, h4, -, h6⟩ := hs c (by simp)
    have hc : isKept c := by simp only [isKept, Bool.and_eq_true, decide_eq_true_eq]; omega
    have hstep : step ⟨ws, w, .bare⟩ c = (⟨ws, (w ++ [c]).take pconfDefaultWordlenLimit, .bare⟩, .more) := by
      simp [step, h3, h4, h6, not_isspace_of_lt h1, ne_newline_of_le (Nat.le_of_lt h1), keep_cut hc hw, into]
    simp only [silent, hstep, ih (length_cut_le _ _) fun d hd => hs d (by simp [hd]), take_append_take,
      List.append_assoc, List.singleton_append]

private theorem silent_escape_cut (ws : List CStr) {w s : CStr} (hw : w.length ≤ pconfDefaultWordlenLimit) (hs : Kept s) :
    silent step ⟨ws, w, .quoted⟩ (Nut.escape s) = some ⟨ws, (w ++ s).take pconfDefaultWordlenLimit, .quoted⟩ := by
  induction s generalizing w with
  | nil => rw [List.append_nil, List.take_of_length_le hw]; rfl
  | cons c s ih =>
    have hc := hs c (by simp)
    have hnl : c ≠ '\n' := by rintro rfl; exact absurd hc (by decide)
    have hrest := ih (length_cut_le pconfDefaultWordlenLimit (w ++ [c])) fun d hd => hs d (by simp [hd])
    rw [take_append_take, List.append_assoc, List.singleton_append] at hrest
    rw [escape_cons]
    by_cases he : pconfEscape c
    · have h1 : step ⟨ws, w, .quoted⟩ '\\' = (⟨ws, w, .quotedEsc⟩, .more) := rfl
      have h2 : step ⟨ws, w, .quotedEsc⟩ c = (⟨ws, (w ++ [c]).take pconfDefaultWordlenLimit, .quoted⟩, .more) := by
        simp [step, hnl, keep_cut hc hw, into]
      simp only [he, if_true, List.cons_append, List.nil_append, silent, h1, h2, hrest]
    · have he' := he
      simp only [pconfEscape, Bool.or_eq_true, decide_eq_true_eq, not_or] at he'
      have h1 : step ⟨ws, w, .quoted⟩ c = (⟨ws, (w ++ [c]).take pconfDefaultWordlenLimit, .quoted⟩, .more) := by
        simp [step, he', keep_cut hc hw, into]
      simp only [he, Bool.false_eq_true, if_false, List.cons_append, List.nil_append, silent, h1, hrest]

/-- A word is read up to the limits; at its end it is complete, or it is the word that is still being built. -/
private theorem silent_text {w : Written} (hw : w.Ok size) {ws : List CStr} (hws : ws.length ≤ pconfDefaultArgLimit) :
    ∃ t, silent step ⟨ws, [], .between⟩ (w.text size) = some t ∧
      step t ' ' = (⟨(ws ++ [w.cut]).take pconfDefaultArgLimit, [], .between⟩, .more) ∧
      (if t.word = [] then t.words else t.close.words) = (ws ++ [w.cut]).take pconfDefaultArgLimit := by
  cases w with
  | plain w =>
    obtain ⟨hne, hs⟩ := hw
    obtain ⟨c, s, rfl⟩ := List.exists_cons_of_ne_nil hne
    obtain ⟨h1, h2, h3, h4, h5, h6⟩ := hs c (by simp)
    have hc : isKept c := by simp only [isKept, Bool.and_eq_true, decide_eq_true_eq]; omega
    have hone : [c].length ≤ pconfDefaultWordlenLimit := by simp [pconfDefaultWordlenLimit]
    have hkeep : keep ⟨ws, [], .between⟩ c = ⟨ws, [c], .between⟩ := by
      rw [keep_cut hc (by simp), List.nil_append, List.take_of_length_le hone]
    have hstep : step ⟨ws, [], .between⟩ c = (⟨ws, [c], .bare⟩, .more) := by
      simp [step, h3, h4, h5, h6, not_isspace_of_lt h1, ne_newline_of_le (Nat.le_of_lt h1), hkeep, into]
    have hrest := silent_name_cut ws hone fun d hd => hs d (List.mem_cons_of_mem c hd)
    rw [List.singleton_append] at hrest
    have hcut : cut (plain (c :: s)) ≠ [] := by simp [cut, raw, pconfDefaultWordlenLimit]
    refine ⟨⟨ws, cut (plain (c :: s)), .bare⟩, ?_, ?_, ?_⟩
    · rw [text, silent, hstep]
      exact hrest
    · simp [step, close_cut hws, into]
    · rw [if_neg hcut, close_cut hws]
  | quoted s =>
    obtain ⟨hs, hroom⟩ := hw
    have hopen : step ⟨ws, [], .between⟩ '"' = (⟨ws, [], .quoted⟩, .more) := rfl
    have hbody := silent_escape_cut ws (by simp : ([] : CStr).length ≤ _) hs.kept
    have hclose : step ⟨ws, s.take pconfDefaultWordlenLimit, .quoted⟩ '"' =
        (⟨(ws ++ [s.take pconfDefaultWordlenLimit]).take pconfDefaultArgLimit, [], .between⟩, .more) := by
      simp [step, close_cut hws, into]
    refine ⟨⟨(ws ++ [cut (quoted s)]).take pconfDefaultArgLimit, [], .between⟩, ?_, rfl, if_pos rfl⟩
    rw [text, pconfEncode_fits hroom, List.cons_append, silent, hopen]
    dsimp only
    rw [silent_append hbody, List.nil_append, silent, hclose]
    rfl

private theorem silent_line {l : List Written} (hl : ∀ w ∈ l, w.Ok size) {ws : List CStr}
    (hws : ws.length ≤ pconfDefaultArgLimit) :
    ∃ t, silent step ⟨ws, [], .between⟩ (line size l) = some t ∧
      (if t.word = [] then t.words else t.close.words) = (ws ++ l.map Written.cut).take pconfDefaultArgLimit := by
  induction l generalizing ws with
  | nil => exact ⟨_, rfl, by simp [List.take_of_length_le hws]⟩
  | cons w l ih =>
    obtain ⟨t, ht, hblank, hend⟩ := silent_text (hl w (by simp)) hws
    rcases l with _ | ⟨v, l⟩
    · exact ⟨t, ht, hend⟩
    · obtain ⟨u, hu, hwords⟩ := ih (fun w hw => hl w (by simp [hw])) (length_cut_le pconfDefaultArgLimit (ws ++ [w.cut]))
      refine ⟨u, ?_, ?_⟩
      · rw [line_cons_cons, silent_append ht, silent, hblank]
        exact hu
      · rw [hwords, take_append_take, List.append_assoc, List.singleton_append]
        rfl

/-- `pconf_line` reads the words up to the limits of the parser. -/
theorem pconfLine_line (h : BetweenLines ctx) {l : List Written} (hl : ∀ w ∈ l, w.Ok size) :
    (pconfLine ctx (line size l)).args = (l.map Written.cut).take pconfDefaultArgLimit := by
  obtain ⟨t, ht, hwords⟩ := silent_line hl (by simp : ([] : List CStr).length ≤ _)
  rw [pconfLine_args_of_silent h ht, hwords, List.nil_append]

/-! ### The C++ client -/

/-- What `explode` makes of a character in quotes. -/
def hashToDel (c : Char) : Char := if c = '#' then '\x7f' else c

/-- The word as `explode` reads it. -/
def Written.exploded : Written → CStr
  | plain w => w
  | quoted s => s.map hashToDel

private theorem foldl_name (res : List CStr) (temp : CStr) {s : CStr}
    (hs : ∀ c ∈ s, 0x20 < c.toNat ∧ c.toNat ≤ 0x7e ∧ c ≠ '#' ∧ c ≠ '\\' ∧ c ≠ '"' ∧ c ≠ '=') :
    s.foldl TcpClient.explodeStep (res, temp, .simpleString) = (res, temp ++ s, .simpleString) := by
  induction s generalizing temp with
  | nil => simp
  | cons c s ih =>
    obtain ⟨h1, -, -, h4, h5, -⟩ := hs c (by simp)
    have hb : c ≠ ' ' := by rintro rfl; exact absurd h1 (by decide)
    rw [List.foldl_cons, TcpClient.explodeStep, if_neg hb, if_neg h4, if_neg h5, ih _ fun d hd => hs d (by simp [hd])]
    simp

private theorem foldl_escape_quoted (res : List CStr) (temp s : CStr) :
    (Nut.escape s).foldl TcpClient.explodeStep (res, temp, .quotedString) =
      (res, temp ++ s.map hashToDel, .quotedString) := by
  induction s generalizing temp with
  | nil => simp
  | cons c s ih =>
    rw [escape_cons, List.foldl_append]
    by_cases he : pconfEscape c
    · have hstep : [('\\' : Char), c].foldl TcpClient.explodeStep (res, temp, .quotedString) =
          (res, temp ++ [hashToDel c], .quotedString) := by
        simp only [pconfEscape, Bool.or_eq_true, decide_eq_true_eq] at he
        rcases he with (rfl | rfl) | rfl <;> rfl
      rw [if_pos he, hstep, ih, List.map_cons, List.append_assoc, List.singleton_append]
    · have he' := he
      simp only [pconfEscape, Bool.or_eq_true, decide_eq_true_eq, not_or] at he'
      have hstep : [c].foldl TcpClient.explodeStep (res, temp, .quotedString) =
          (res, temp ++ [hashToDel c], .quotedString) := by
        simp [TcpClient.explodeStep, he', hashToDel]
      rw [if_neg he, hstep, ih, List.map_cons, List.append_assoc, List.singleton_append]

/-- The end of `explode`. -/
private def exploded (r : List CStr × CStr × TcpClient.Explode) : List CStr := if r.2.1 ≠ [] then r.1 ++ [r.2.1] else r.1

private theorem foldl_text {w : Written} (hw : w.Ok size) (res : List CStr) :
    TcpClient.explodeStep ((w.text size).foldl TcpClient.explodeStep (res, [], .init)) ' ' =
        (res ++ [w.exploded], [], .init) ∧
      exploded ((w.text size).foldl TcpClient.explodeStep (res, [], .init)) = res ++ [w.exploded] := by
  cases w with
  | plain w =>
    obtain ⟨hne, hs⟩ := hw
    obtain ⟨c, s, rfl⟩ := List.exists_cons_of_ne_nil hne
    obtain ⟨h1, -, -, h4, h5, -⟩ := hs c (by simp)
    have hb : c ≠ ' ' := by rintro rfl; exact absurd h1 (by decide)
    have hrun : (text size (plain (c :: s))).foldl TcpClient.explodeStep (res, [], .init) =
        (res, c :: s, .simpleString) := by
      rw [text, List.foldl_cons, TcpClient.explodeStep, if_neg hb, if_neg h5, if_neg h4,
        foldl_name _ _ fun d hd => hs d (by simp [hd])]
      rfl
    rw [hrun]
    exact ⟨rfl, rfl⟩
  | quoted s =>
    have hrun : (text size (quoted s)).foldl TcpClient.explodeStep (res, [], .init) =
        (res ++ [s.map hashToDel], [], .init) := by
      have hopen : TcpClient.explodeStep (res, [], .init) '"' = (res, [], .quotedString) := rfl
      rw [text, pconfEncode_fits hw.2, List.cons_append, List.foldl_cons, hopen, List.foldl_append, foldl_escape_quoted]
      rfl
    rw [hrun]
    exact ⟨rfl, rfl⟩

private theorem foldl_line {l : List Written} (hl : ∀ w ∈ l, w.Ok size) (res : List CStr) :
    exploded ((line size l).foldl TcpClient.explodeStep (res, [], .init)) = res ++ l.map Written.exploded := by
  induction l generalizing res with
  | nil => simp [line, exploded]
  | cons w l ih =>
    obtain ⟨hblank, hend⟩ := foldl_text (hl w (by simp)) res
    rcases l with _ | ⟨v, l⟩
    · exact hend
    · rw [line_cons_cons, List.foldl_append, List.foldl_cons, hblank, ih fun w hw => hl w (by simp [hw])]
      simp

/-- `explode` reads all words, with a DEL for every `#` in quotes. -/
theorem explode_line {l : List Written} (hl : ∀ w ∈ l, w.Ok size) (before : CStr) :
    TcpClient.explode (before ++ line size l) before.length = l.map Written.exploded := by
  have hrun := foldl_line hl []
  rw [TcpClient.explode, List.drop_left]
  exact hrun

private theorem map_hashToDel_iff {s : CStr} : s.map hashToDel = s ↔ '#' ∉ s := by
  constructor
  · intro h hmem
    rw [← h, List.mem_map] at hmem
    obtain ⟨c, -, hc⟩ := hmem
    unfold hashToDel at hc
    split at hc
    · exact absurd hc (by decide)
    · contradiction
  · intro h
    refine (List.map_congr_left fun c hc => if_neg ?_).trans (List.map_id s)
    rintro rfl
    exact h hc

theorem exploded_iff (w : Written) : w.exploded = w.cut ↔ w.Short ∧ w.NoHash := by
  have hlen : w.exploded.length = w.raw.length := by cases w <;> simp [Written.exploded, raw]
  have hraw : w.exploded = w.raw ↔ w.NoHash := by
    cases w with
    | plain w => simp [Written.exploded, raw, NoHash]
    | quoted s => exact map_hashToDel_iff
  constructor
  · intro h
    have hshort : w.Short := by
      have hcut := congrArg List.length h
      rw [hlen, cut, List.length_take] at hcut
      simp only [pconfDefaultWordlenLimit] at hcut
      unfold Short
      omega
    have hcut : w.cut = w.raw := List.take_of_length_le hshort
    rw [hcut] at h
    exact ⟨hshort, hraw.1 h⟩
  · rintro ⟨hshort, hhash⟩
    have hcut : w.cut = w.raw := List.take_of_length_le hshort
    rw [hcut]
    exact hraw.2 hhash

private theorem explode_agrees_iff {l : List Written} :
    l.map Written.exploded = (l.map Written.cut).take pconfDefaultArgLimit ↔
      l.length ≤ 32 ∧ ∀ w ∈ l, w.Short ∧ w.NoHash := by
  constructor
  · intro h
    have hfew : l.length ≤ 32 := by
      have hlen := congrArg List.length h
      simp only [List.length_map, List.length_take, pconfDefaultArgLimit] at hlen
      omega
    rw [List.take_of_length_le (by simpa [pconfDefaultArgLimit] using hfew)] at h
    exact ⟨hfew, fun w hw => (exploded_iff w).1 (List.map_inj_left.1 h w hw)⟩
  · rintro ⟨hfew, hall⟩
    rw [List.take_of_length_le (by simpa [pconfDefaultArgLimit] using hfew)]
    exact List.map_inj_left.2 fun w hw => (exploded_iff w).2 (hall w hw)

/-! ### The Java client -/

/-- What is left of the escapes of a text: those of `#`. -/
def hashSlashed (s : CStr) : CStr := s.flatMap fun c => if c = '#' then ['\\', c] else [c]

/-- The escapes other than those of quotes. -/
private def halfEscaped (s : CStr) : CStr := s.flatMap fun c => if c = '#' ∨ c = '\\' then ['\\', c] else [c]

private theorem replaceFrom_match {pat rep s : CStr} (c : Char) :
    JNut.replaceFrom (c :: pat) rep 0 ((c :: pat) ++ s) = rep ++ JNut.replaceFrom (c :: pat) rep 0 s := by
  have hskip (n : Nat) (u v : CStr) (p : CStr) (h : u.length = n) :
      JNut.replaceFrom p rep n (u ++ v) = JNut.replaceFrom p rep 0 v := by
    induction u generalizing n with
    | nil => subst h; rfl
    | cons d u ih =>
      subst h
      exact ih _ rfl
  rw [List.cons_append, JNut.replaceFrom, if_pos (by simp [List.cons_prefix_cons]), List.length_cons, Nat.add_sub_cancel,
    hskip _ _ _ _ rfl]

private theorem replaceFrom_mismatch {pat rep s : CStr} {c : Char} (h : ¬pat <+: c :: s) :
    JNut.replaceFrom pat rep 0 (c :: s) = c :: JNut.replaceFrom pat rep 0 s := by
  rw [JNut.replaceFrom, if_neg h]

/-- An escaped text does not start with a quote. -/
private theorem escape_ne_quote (s t : CStr) : Nut.escape s ≠ '"' :: t := by
  cases s with
  | nil => simp
  | cons c s =>
    rw [escape_cons]
    by_cases he : pconfEscape c
    · rw [if_pos he]
      simp
    · rw [if_neg he]
      intro h
      have hc : c = '"' := (List.cons.inj h).1
      subst hc
      exact he rfl

private theorem replace_quotes (s : CStr) : JNut.replaceAll (Nut.escape s) ['\\', '"'] ['"'] = halfEscaped s := by
  unfold JNut.replaceAll
  induction s with
  | nil => rfl
  | cons c s ih =>
    have hcons : halfEscaped (c :: s) = (if c = '#' ∨ c = '\\' then ['\\', c] else [c]) ++ halfEscaped s := by
      simp [halfEscaped]
    rw [escape_cons, hcons]
    by_cases he : pconfEscape c
    · simp only [pconfEscape, Bool.or_eq_true, decide_eq_true_eq] at he
      have hsecond (d : Char) (hd : d = '#' ∨ d = '\\') :
          JNut.replaceFrom ['\\', '"'] ['"'] 0 ('\\' :: d :: Nut.escape s) = '\\' :: d :: halfEscaped s := by
        have h1 : ¬['\\', '"'] <+: '\\' :: d :: Nut.escape s := by
          rcases hd with rfl | rfl <;> simp [List.cons_prefix_cons]
        have h2 : ¬['\\', '"'] <+: d :: Nut.escape s := by
          rintro ⟨t, ht⟩
          exact escape_ne_quote s t (List.cons.inj ht).2.symm
        rw [replaceFrom_mismatch h1, replaceFrom_mismatch h2, ih]
      rcases he with (rfl | rfl) | rfl
      · exact hsecond '#' (.inl rfl)
      · exact hsecond '\\' (.inr rfl)
      · have hmatch := @replaceFrom_match ['"'] ['"'] (Nut.escape s) '\\'
        rw [ih] at hmatch
        exact hmatch
    · have hpe := he
      simp only [pconfEscape, Bool.or_eq_true, decide_eq_true_eq, not_or] at he
      have hno : ¬['\\', '"'] <+: c :: Nut.escape s := by
        rintro ⟨t, ht⟩
        exact he.1.2 (List.cons.inj ht).1.symm
      rw [if_neg hpe, if_neg (not_or.2 he.1), List.singleton_append, List.singleton_append, replaceFrom_mismatch hno, ih]

private theorem replace_slashes (s : CStr) : JNut.replaceAll (halfEscaped s) ['\\', '\\'] ['\\'] = hashSlashed s := by
  unfold JNut.replaceAll
  induction s with
  | nil => rfl
  | cons c s ih =>
    have hcons : halfEscaped (c :: s) = (if c = '#' ∨ c = '\\' then ['\\', c] else [c]) ++ halfEscaped s := by
      simp [halfEscaped]
    have hcons' : hashSlashed (c :: s) = (if c = '#' then ['\\', c] else [c]) ++ hashSlashed s := by simp [hashSlashed]
    rw [hcons, hcons']
    by_cases hh : c = '#'
    · subst hh
      have h1 : ¬['\\', '\\'] <+: '\\' :: '#' :: halfEscaped s := by simp [List.cons_prefix_cons]
      have h2 : ¬['\\', '\\'] <+: '#' :: halfEscaped s := by simp [List.cons_prefix_cons]
      show JNut.replaceFrom _ _ 0 ('\\' :: '#' :: halfEscaped s) = '\\' :: '#' :: hashSlashed s
      rw [replaceFrom_mismatch h1, replaceFrom_mismatch h2, ih]
    · by_cases hb : c = '\\'
      · subst hb
        have hmatch := @replaceFrom_match ['\\'] ['\\'] (halfEscaped s) '\\'
        rw [ih] at hmatch
        exact hmatch
      · have hno : ¬['\\', '\\'] <+: c :: halfEscaped s := by
          rintro ⟨t, ht⟩
          exact hb (List.cons.inj ht).1.symm
        rw [if_neg (not_or.2 ⟨hh, hb⟩), if_neg hh, List.singleton_append, List.singleton_append,
          replaceFrom_mismatch hno, ih]

/-- `unescape` leaves the backslash before every `#`. -/
theorem unescape_escaped (s : CStr) : JNut.unescape (Nut.escape s) = hashSlashed s := by
  rw [JNut.unescape, replace_quotes, replace_slashes]

private theorem hashSlashed_cons (c : Char) (s : CStr) :
    hashSlashed (c :: s) = (if c = '#' then ['\\', c] else [c]) ++ hashSlashed s := by
  simp [hashSlashed]

private theorem length_hashSlashed (s : CStr) : (hashSlashed s).length = s.length + s.count '#' := by
  induction s with
  | nil => rfl
  | cons c s ih =>
    rw [hashSlashed_cons, List.length_append, ih, List.count_cons]
    by_cases hc : c = '#'
    · simp [hc]; omega
    · simp [hc]; omega

private theorem hashSlashed_of_not_mem {s : CStr} (h : '#' ∉ s) : hashSlashed s = s := by
  induction s with
  | nil => rfl
  | cons c s ih =>
    rw [List.mem_cons, not_or] at h
    rw [hashSlashed_cons, if_neg (Ne.symm h.1), ih h.2, List.singleton_append]

/-- The value in quotes is as long as the parser reads it only if nothing was left in it. -/
private theorem hashSlashed_iff {s : CStr} :
    hashSlashed s = s.take pconfDefaultWordlenLimit ↔ (quoted s).Short ∧ (quoted s).NoHash := by
  constructor
  · intro h
    have hlen := congrArg List.length h
    rw [length_hashSlashed, List.length_take] at hlen
    simp only [pconfDefaultWordlenLimit] at hlen
    have hcount : s.count '#' = 0 := by omega
    have hshort : s.length ≤ 512 := by omega
    exact ⟨hshort, List.count_eq_zero.1 hcount⟩
  · rintro ⟨hshort, hhash⟩
    rw [hashSlashed_of_not_mem hhash]
    exact (List.take_of_length_le hshort).symm

private theorem extract_quoted {s : CStr} (hroom : (Nut.escape s).length < size) :
    JNut.extractDoublequotedValue ((quoted s).text size) = some (hashSlashed s) := by
  rw [text, pconfEncode_fits hroom, JNut.extractDoublequotedValue]
  have hpre : ['"'] <+: '"' :: Nut.escape s ++ ['"'] := ⟨Nut.escape s ++ ['"'], rfl⟩
  have hsuf : ['"'] <:+ '"' :: Nut.escape s ++ ['"'] := ⟨'"' :: Nut.escape s, rfl⟩
  rw [if_neg (not_not.2 ⟨hpre, hsuf⟩), if_neg (by simp), List.length_append, List.length_singleton, Nat.add_sub_cancel,
    List.take_left]
  simp only [List.drop_one, List.tail_cons]
  rw [unescape_escaped]

/-- Without a quote in front there is no value. -/
private theorem extract_none {source : CStr} (h : source.head? ≠ some '"') : JNut.extractDoublequotedValue source = none := by
  rw [JNut.extractDoublequotedValue, if_pos]
  rintro ⟨⟨t, rfl⟩, -⟩
  exact h rfl

private theorem head_name {w : CStr} (hw : Name w) (rest : CStr) : (w ++ rest).head? ≠ some '"' := by
  obtain ⟨c, s, rfl⟩ := List.exists_cons_of_ne_nil hw.1
  have hc := (hw.2 c (by simp)).2.2.2.2.1
  simpa using hc

/-- The value of a line that is one quoted word. -/
private theorem extract_agrees_iff {l : List Written} (hl : ∀ w ∈ l, w.Ok size) :
    (JNut.extractDoublequotedValue (line size l)).map (fun value => [value]) =
        some ((l.map Written.cut).take pconfDefaultArgLimit) ↔
      ∃ s, l = [quoted s] ∧ (quoted s).Short ∧ (quoted s).NoHash := by
  constructor
  · intro h
    obtain ⟨value, hvalue, hargs⟩ := Option.map_eq_some_iff.1 h
    have hone : l.length = 1 := by
      have hlen := congrArg List.length hargs
      simp only [List.length_singleton, List.length_take, List.length_map, pconfDefaultArgLimit] at hlen
      omega
    obtain ⟨w, rfl⟩ := List.length_eq_one_iff.1 hone
    cases w with
    | plain n =>
      have hname : Name n := hl (plain n) (by simp)
      have hnone := extract_none (head_name hname [])
      rw [List.append_nil] at hnone
      rw [line, text, hnone] at hvalue
      contradiction
    | quoted s =>
      have hroom : (Nut.escape s).length < size := (hl (quoted s) (by simp)).2
      rw [line, extract_quoted hroom, Option.some.injEq] at hvalue
      subst hvalue
      exact ⟨s, rfl, hashSlashed_iff.1 (List.cons.inj hargs).1⟩
  · rintro ⟨s, rfl, hs⟩
    have hroom : (Nut.escape s).length < size := (hl (quoted s) (by simp)).2
    rw [line, extract_quoted hroom, Option.map_some, hashSlashed_iff.2 hs]
    rfl

private theorem split_name {n rest : CStr} (hn : Name n) :
    JNut.splitNameValueString (n ++ ' ' :: rest) = (JNut.extractDoublequotedValue rest).map fun value => [n, value] := by
  have hblank : ' ' ∉ n := fun h => absurd (hn.2 ' ' h).1 (by decide)
  have hpos : (n ++ ' ' :: rest).idxOf ' ' = n.length := by
    rw [List.idxOf_append_of_notMem hblank, List.idxOf_cons_self, Nat.add_zero]
  have hne : 0 < n.length := List.length_pos_iff.2 hn.1
  have hdrop : (n ++ ' ' :: rest).drop (n.length + 1) = rest := by
    rw [List.drop_append]
    simp
  simp only [JNut.splitNameValueString, hpos]
  rw [if_neg (by rw [List.length_append, List.length_cons]; omega), hdrop, List.take_left]

private theorem notMem_take_idxOf (c : Char) (s : CStr) : c ∉ s.take (s.idxOf c) := by
  induction s with
  | nil => simp
  | cons d s ih =>
    by_cases hd : d = c
    · simp [hd]
    · rw [List.idxOf_cons_ne s hd, List.take_succ_cons, List.mem_cons, not_or]
      exact ⟨Ne.symm hd, ih⟩

/-- The splitter leaves the quote in front of a first word that is in quotes. -/
private theorem split_quoted {s : CStr} {rest value : CStr} :
    JNut.splitNameValueString ('"' :: Nut.escape s ++ rest) ≠ some [s.take pconfDefaultWordlenLimit, value] := by
  intro h
  have hescape : Nut.escape s = Nut.escape (s.take pconfDefaultWordlenLimit) ++ Nut.escape (s.drop pconfDefaultWordlenLimit) := by
    rw [← escape_append, List.take_append_drop]
  generalize s.take pconfDefaultWordlenLimit = u at h hescape
  simp only [JNut.splitNameValueString] at h
  split_ifs at h with hpos
  obtain ⟨v, -, hargs⟩ := Option.map_eq_some_iff.1 h
  have hu : ('"' :: Nut.escape s ++ rest).take (('"' :: Nut.escape s ++ rest).idxOf ' ') = u := (List.cons.inj hargs).1
  have hlen := congrArg List.length hu
  rw [List.length_take] at hlen
  -- no blank is in the name, so none is in the quote and the name before it
  have hnotMem : ' ' ∉ u := by
    rw [← hu]
    exact notMem_take_idxOf _ _
  have hquote : ' ' ∉ '"' :: Nut.escape u := by
    rw [List.mem_cons, not_or]
    refine ⟨by decide, fun hmem => hnotMem ?_⟩
    obtain ⟨c, hc, hmem⟩ := List.mem_flatMap.1 hmem
    split at hmem
    · rcases List.mem_cons.1 hmem with hb | hmem
      · exact absurd hb (by decide)
      · rwa [List.mem_singleton.1 hmem]
    · rwa [List.mem_singleton.1 hmem]
  have hidx : ('"' :: Nut.escape s ++ rest).idxOf ' ' =
      ('"' :: Nut.escape u).length + (Nut.escape (s.drop pconfDefaultWordlenLimit) ++ rest).idxOf ' ' := by
    rw [hescape, ← List.idxOf_append_of_notMem hquote]
    simp
  have hle := length_le_escape u
  rw [List.length_cons] at hidx
  simp only [not_or, not_lt, not_le] at hpos
  omega

/-- The words of a line that is a name and a quoted word. -/
private theorem split_agrees_iff {l : List Written} (hl : ∀ w ∈ l, w.Ok size) :
    JNut.splitNameValueString (line size l) = some ((l.map Written.cut).take pconfDefaultArgLimit) ↔
      ∃ n s, l = [plain n, quoted s] ∧ (plain n).Short ∧ (quoted s).Short ∧ (quoted s).NoHash := by
  constructor
  · intro h
    have htwo : l.length = 2 := by
      have hsplit := h
      simp only [JNut.splitNameValueString] at hsplit
      split_ifs at hsplit with hpos
      obtain ⟨value, -, hargs⟩ := Option.map_eq_some_iff.1 hsplit
      have hlen := congrArg List.length hargs
      simp only [List.length_cons, List.length_nil, List.length_take, List.length_map, pconfDefaultArgLimit] at hlen
      omega
    obtain ⟨v, w, rfl⟩ := List.length_eq_two.1 htwo
    have hcut : ([v, w].map Written.cut).take pconfDefaultArgLimit = [v.cut, w.cut] := rfl
    rw [hcut, line_cons_cons, line] at h
    cases v with
    | plain n =>
      have hname : Name n := hl (plain n) (by simp)
      rw [text, split_name hname] at h
      obtain ⟨value, hvalue, hargs⟩ := Option.map_eq_some_iff.1 h
      obtain ⟨hn, hrest⟩ := List.cons.inj hargs
      have hshort : (plain n).Short := by
        have hlen := congrArg List.length hn
        simp only [cut, raw, List.length_take, pconfDefaultWordlenLimit] at hlen
        show n.length ≤ 512
        omega
      cases w with
      | plain m =>
        have hnone := extract_none (head_name (hl (plain m) (by simp)) [])
        rw [List.append_nil] at hnone
        rw [text, hnone] at hvalue
        contradiction
      | quoted s =>
        have hroom : (Nut.escape s).length < size := (hl (quoted s) (by simp)).2
        rw [extract_quoted hroom, Option.some.injEq] at hvalue
        subst hvalue
        exact ⟨n, s, rfl, hshort, hashSlashed_iff.1 (List.cons.inj hrest).1⟩
    | quoted s =>
      have hroom : (Nut.escape s).length < size := (hl (quoted s) (by simp)).2
      rw [text, pconfEncode_fits hroom, List.append_assoc] at h
      exact absurd h split_quoted
  · rintro ⟨n, s, rfl, hn, hs⟩
    have hname : Name n := hl (plain n) (by simp)
    have hroom : (Nut.escape s).length < size := (hl (quoted s) (by simp)).2
    have hcut : ([plain n, quoted s].map Written.cut).take pconfDefaultArgLimit = [n, s.take pconfDefaultWordlenLimit] := by
      have hn' : (plain n).cut = n := List.take_of_length_le hn
      show [(plain n).cut, (quoted s).cut] = _
      rw [hn']
      rfl
    rw [hcut, line_cons_cons, line, text, split_name hname, extract_quoted hroom, Option.map_some, hashSlashed_iff.2 hs]

/-! ### The three clients -/

/-- The C++ client reads the words that the C client reads exactly when no `#` is in quotes and the line keeps to the limits
of the parser.  The Java client does when, besides, the line is a name and a quoted word for the splitter, and one quoted
word for the value alone. -/
theorem clients_read_iff (h : BetweenLines ctx) {l : List Written} (hl : ∀ w ∈ l, w.Ok size) (before : CStr) :
    (TcpClient.explode (before ++ line size l) before.length = (pconfLine ctx (line size l)).args ↔
        l.length ≤ 32 ∧ ∀ w ∈ l, w.Short ∧ w.NoHash) ∧
      (JNut.splitNameValueString (line size l) = some (pconfLine ctx (line size l)).args ↔
        ∃ n s, l = [plain n, quoted s] ∧ (plain n).Short ∧ (quoted s).Short ∧ (quoted s).NoHash) ∧
      ((JNut.extractDoublequotedValue (line size l)).map (fun value => [value]) =
          some (pconfLine ctx (line size l)).args ↔
        ∃ s, l = [quoted s] ∧ (quoted s).Short ∧ (quoted s).NoHash) := by
  rw [pconfLine_line h hl, explode_line hl]
  exact ⟨explode_agrees_iff, split_agrees_iff hl, extract_agrees_iff hl⟩

/-- The value `a#b`, as `upsd` sends it, is read with a DEL by the C++ client and with a backslash by the Java client. -/
theorem clients_read_hash :
    ¬(∀ l, (∀ w ∈ l, w.Ok 8) → TcpClient.explode (line 8 l) 0 = (pconfLine pconfInit (line 8 l)).args) ∧
      ¬(∀ n s, (plain n).Ok 8 → (quoted s).Ok 8 →
        JNut.splitNameValueString (line 8 [plain n, quoted s]) = some (pconfLine pconfInit (line 8 [plain n, quoted s])).args) := by
  have hread : (pconfLine pconfInit (line 8 [plain ['x'], quoted "a#b".toList])).args = [['x'], "a#b".toList] ∧
      TcpClient.explode (line 8 [plain ['x'], quoted "a#b".toList]) 0 = [['x'], "a\x7fb".toList] ∧
      JNut.splitNameValueString (line 8 [plain ['x'], quoted "a#b".toList]) = some [['x'], "a\\#b".toList] := by
    decide
  obtain ⟨hargs, hcpp, hjava⟩ := hread
  constructor
  · intro h
    have hsame := h [plain ['x'], quoted "a#b".toList] (by decide)
    rw [hargs, hcpp] at hsame
    exact absurd hsame (by decide)
  · intro h
    have hsame := h ['x'] "a#b".toList (by decide) (by decide)
    rw [hargs, hjava] at hsame
    exact absurd hsame (by decide)

theorem clients_read_quote :
    (TcpClient.explode ("VAR u ".toList ++ line 8 [plain ['x'], quoted "a\"b".toList]) 6 =
        (pconfLine pconfInit (line 8 [plain ['x'], quoted "a\"b".toList])).args ↔
      [plain ['x'], quoted "a\"b".toList].length ≤ 32 ∧ ∀ w ∈ [plain ['x'], quoted "a\"b".toList], w.Short ∧ w.NoHash) ∧
      JNut.splitNameValueString (line 8 [plain ['x'], quoted "a\"b".toList]) = some [['x'], "a\"b".toList] :=
  ⟨(@clients_read_iff 8 pconfInit .init [plain ['x'], quoted "a\"b".toList] (by decide) "VAR u ".toList).1, by decide⟩

end Nut
