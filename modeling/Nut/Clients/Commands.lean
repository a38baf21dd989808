import Nut.Clients.Finish
import Nut.Clients.Upsclient

/-!
# The commands of a client

`build_cmd` escapes the arguments of a command, and puts those in quotes that have a blank.  The parser of `upsd` reads
the line as one command; it reads the arguments as they were if each of them is in quotes or can do without: an empty
argument is no word outside quotes, and an `=` ends the word before it (`command_arrives_iff`).
-/

namespace Nut

open ChunkReader Lexer

/-- An argument as it stands in a command. -/
def argText (a : CStr) : CStr := ' ' :: if ' ' ∈ a then '"' :: escape a ++ ['"'] else escape a

/-- The text of a command. -/
def cmdText (cmd : CStr) (args : List CStr) : CStr := cmd ++ args.flatMap argText ++ ['\n']

section

variable {cmd a : CStr} {args ws : List CStr} {l : Lexer}

theorem length_le_argText (a : CStr) : (escape a).length < (argText a).length := by
  rw [argText]
  split_ifs
  · simp only [List.length_cons, List.length_append, List.length_nil]
    omega
  · rw [List.length_cons]
    omega

theorem length_le_flatMap (h : a ∈ args) : (argText a).length ≤ (args.flatMap argText).length := by
  obtain ⟨before, after, rfl⟩ := List.append_of_mem h
  simp only [List.flatMap_append, List.flatMap_cons, List.length_append]
  omega

/-- With room for them, `build_cmd` writes all the arguments. -/
theorem buildCmd_args (hfits : (cmd ++ args.flatMap argText).length < upscliNetbufLen) :
    buildCmd upscliNetbufLen cmd args = (cmd ++ args.flatMap argText) ++
      snprintf (upscliNetbufLen - (cmd ++ args.flatMap argText).length) ['\n'] := by
  have hfold {args : List CStr} {buf : CStr} (h : (buf ++ args.flatMap argText).length < upscliNetbufLen) :
      args.foldl (buildArg upscliNetbufLen) buf = buf ++ args.flatMap argText := by
    induction args generalizing buf with
    | nil => rw [List.foldl_nil, List.flatMap_nil, List.append_nil]
    | cons a args ih =>
      rw [List.flatMap_cons, ← List.append_assoc] at h ⊢
      have hlen := length_le_argText a
      have harg : buildArg upscliNetbufLen buf a = buf ++ argText a := by
        simp only [List.length_append] at h
        have htext : (if ' ' ∈ a then ' ' :: '"' :: escape a ++ ['"'] else ' ' :: escape a) = argText a := by
          rw [argText]
          split_ifs <;> rfl
        rw [buildArg, pconfEncode_fits (by omega), htext, snprintf_of_lt (by omega)]
      rw [List.foldl_cons, harg]
      exact ih h
  have hcmd : snprintf upscliNetbufLen cmd = cmd := by
    rw [List.length_append] at hfits
    exact snprintf_of_lt (by omega)
  rw [buildCmd, hcmd, hfold hfits]

/-- With room for it, `build_cmd` writes the whole command. -/
theorem buildCmd_eq (hfits : (cmdText cmd args).length < upscliNetbufLen) :
    buildCmd upscliNetbufLen cmd args = cmdText cmd args := by
  rw [cmdText, List.length_append, List.length_singleton] at hfits
  have hnl : snprintf (upscliNetbufLen - (cmd ++ args.flatMap argText).length) ['\n'] = ['\n'] := by
    refine snprintf_of_lt ?_
    rw [List.length_singleton]
    omega
  rw [buildCmd_args (by omega), cmdText, hnl]

/-! ### The line ends where it should -/

/-- Between words or in one, not in quotes and not after a backslash. -/
def Lexer.Open (l : Lexer) : Prop := l.mode = .between ∨ l.mode = .bare

theorem step_escaped {c : Char} (hc : isKept c) (hb : c ≠ ' ') (hl : l.Open) :
    ∃ t, silent step l (if pconfEscape c then ['\\', c] else [c]) = some t ∧ t.Open := by
  have hnl : c ≠ '\n' := by rintro rfl; exact absurd hc (by decide)
  have hspace := not_isspace_of_lt (lt_of_isKept hc hb)
  obtain ⟨ws, w, m⟩ := l
  by_cases hp : pconfEscape c
  · have hesc : step ⟨ws, w, m⟩ '\\' = (⟨ws, w, .bareEsc⟩, .more) := by
      rcases hl with hm | hm <;> simp only at hm <;> subst hm <;> rfl
    have hlit : step ⟨ws, w, .bareEsc⟩ c = ((keep ⟨ws, w, .bareEsc⟩ c).into .bare, .more) := by simp [step, hnl]
    refine ⟨(keep ⟨ws, w, .bareEsc⟩ c).into .bare, ?_, .inr rfl⟩
    simp only [hp, if_true, silent, hesc, hlit]
  · simp only [pconfEscape, Bool.or_eq_true, decide_eq_true_eq, not_or] at hp
    have hchar : ∃ t, step ⟨ws, w, m⟩ c = (t, .more) ∧ t.Open := by
      by_cases he : c = '='
      · rcases hl with hm | hm <;> simp only at hm <;> subst hm <;> subst he
        · exact ⟨_, rfl, .inl rfl⟩
        · exact ⟨_, rfl, .inl rfl⟩
      · rcases hl with hm | hm <;> simp only at hm <;> subst hm
        · exact ⟨(keep ⟨ws, w, .between⟩ c).into .bare, by simp [step, hnl, hspace, hp, he], .inr rfl⟩
        · exact ⟨(keep ⟨ws, w, .bare⟩ c).into .bare, by simp [step, hnl, hspace, hp, he], .inr rfl⟩
    obtain ⟨t, ht, hopen⟩ := hchar
    have hpe : pconfEscape c = false := by simp [pconfEscape, hp]
    exact ⟨t, by simp only [hpe, Bool.false_eq_true, if_false, silent, ht], hopen⟩

theorem silent_escape_open (ha : Kept a) (hb : ' ' ∉ a) (hl : l.Open) : ∃ t, silent step l (escape a) = some t ∧ t.Open := by
  induction a generalizing l with
  | nil => exact ⟨l, rfl, hl⟩
  | cons c a ih =>
    obtain ⟨hc, hb⟩ := not_or.1 (List.mem_cons.not.1 hb)
    obtain ⟨mid, hmid, hopen⟩ := step_escaped (ha c List.mem_cons_self) (Ne.symm hc) hl
    obtain ⟨t, ht, hopen'⟩ := ih (fun d hd => ha d (List.mem_cons_of_mem c hd)) hb hopen
    exact ⟨t, by rw [escape_cons, silent_append hmid, ht], hopen'⟩

theorem silent_escape_quoted (ha : Kept a) (hl : l.mode = .quoted) :
    ∃ t, silent step l (escape a) = some t ∧ t.mode = .quoted := by
  induction a generalizing l with
  | nil => exact ⟨l, rfl, hl⟩
  | cons c a ih =>
    have hc := ha c List.mem_cons_self
    have hnl : c ≠ '\n' := by rintro rfl; exact absurd hc (by decide)
    have hchar : ∃ t, silent step l (if pconfEscape c then ['\\', c] else [c]) = some t ∧ t.mode = .quoted := by
      obtain ⟨ws, w, m⟩ := l
      simp only at hl
      subst hl
      by_cases hp : pconfEscape c
      · have hesc : step ⟨ws, w, .quoted⟩ '\\' = (⟨ws, w, .quotedEsc⟩, .more) := rfl
        have hlit : step ⟨ws, w, .quotedEsc⟩ c = ((keep ⟨ws, w, .quotedEsc⟩ c).into .quoted, .more) := by simp [step, hnl]
        refine ⟨(keep ⟨ws, w, .quotedEsc⟩ c).into .quoted, ?_, rfl⟩
        simp only [hp, if_true, silent, hesc, hlit]
      · simp only [pconfEscape, Bool.or_eq_true, decide_eq_true_eq, not_or] at hp
        have hkeep : step ⟨ws, w, .quoted⟩ c = ((keep ⟨ws, w, .quoted⟩ c).into .quoted, .more) := by simp [step, hp]
        have hpe : pconfEscape c = false := by simp [pconfEscape, hp]
        refine ⟨(keep ⟨ws, w, .quoted⟩ c).into .quoted, ?_, rfl⟩
        simp only [hpe, Bool.false_eq_true, if_false, silent, hkeep]
    obtain ⟨mid, hmid, hmode⟩ := hchar
    obtain ⟨t, ht, hmode'⟩ := ih (fun d hd => ha d (List.mem_cons_of_mem c hd)) hmode
    exact ⟨t, by rw [escape_cons, silent_append hmid, ht], hmode'⟩

theorem silent_argText (ha : Kept a) (hl : l.Open) : ∃ t, silent step l (argText a) = some t ∧ t.Open := by
  have hblank : ∃ t, step l ' ' = (t, .more) ∧ t.mode = .between := by
    obtain ⟨ws, w, m⟩ := l
    rcases hl with hm | hm <;> simp only at hm <;> subst hm
    · exact ⟨_, rfl, rfl⟩
    · exact ⟨_, rfl, rfl⟩
  obtain ⟨mid, hmid, hmode⟩ := hblank
  rw [argText, silent, hmid]
  simp only
  split_ifs with hb
  · have hopen : step mid '"' = (mid.into .quoted, .more) := by
      obtain ⟨ws, w, m⟩ := mid
      simp only at hmode
      subst hmode
      rfl
    obtain ⟨t, ht, hquoted⟩ := silent_escape_quoted ha (into_mode mid .quoted)
    have hclose : step t '"' = (t.close.into .between, .more) := by
      obtain ⟨ws, w, m⟩ := t
      simp only at hquoted
      subst hquoted
      rfl
    refine ⟨t.close.into .between, ?_, .inl rfl⟩
    rw [List.cons_append, silent, hopen]
    simp only
    rw [silent_append ht]
    simp only [silent, hclose]
  · exact silent_escape_open ha hb (.inl hmode)

theorem silent_args (hargs : ∀ a ∈ args, Kept a) (hl : l.Open) :
    ∃ t, silent step l (args.flatMap argText) = some t ∧ t.Open := by
  induction args generalizing l with
  | nil => exact ⟨l, rfl, hl⟩
  | cons a args ih =>
    obtain ⟨mid, hmid, hopen⟩ := silent_argText (hargs a List.mem_cons_self) hl
    obtain ⟨t, ht, hopen'⟩ := ih (fun b hb => hargs b (List.mem_cons_of_mem a hb)) hopen
    exact ⟨t, by rw [List.flatMap_cons, silent_append hmid, ht], hopen'⟩

/-! ### The words of the line -/

/-- The words of the line are `ws` if it goes on with a blank or ends. -/
def Lexer.Ended (ws : List CStr) (l : Lexer) : Prop :=
  step l ' ' = (⟨ws, [], .between⟩, .more) ∧ step l '\n' = (start, .item ws)

theorem Lexer.Ended.open (h : l.Ended ws) : l.Open := by
  obtain ⟨hblank, hnl⟩ := h
  obtain ⟨ws', w, m⟩ := l
  cases m
  case between => exact .inl rfl
  case bare => exact .inr rfl
  all_goals simp [step, into] at hblank hnl

/-- An argument in quotes, or one that can do without, is a word. -/
theorem ended_argText (hl : l.Ended ws) (ha : Kept a) (hlen : a.length ≤ pconfDefaultWordlenLimit)
    (hws : ws.length < pconfDefaultArgLimit) (hgood : ' ' ∈ a ∨ Bare a) :
    ∃ t, silent step l (argText a) = some t ∧ t.Ended (ws ++ [a]) := by
  rw [argText, silent, hl.1]
  simp only
  split_ifs with hb
  · exact ⟨_, silent_quoted ws ha hlen hws, rfl, rfl⟩
  · obtain ⟨t, ht, hblank, hnl⟩ := silent_escaped ws ha (hgood.resolve_left hb) hlen hws
    exact ⟨t, ht, hblank, hnl⟩

theorem ended_between (ws : List CStr) : Lexer.Ended ws ⟨ws, [], .between⟩ := ⟨rfl, rfl⟩

theorem Lexer.Ended.finish_blank (hl : l.Ended ws) (s : CStr) : l.finish (' ' :: s) = finish ⟨ws, [], .between⟩ s := by
  rw [finish, hl.1]

theorem Lexer.Ended.finish_newline (hl : l.Ended ws) : l.finish ['\n'] = ws := by
  rw [finish, hl.2]

theorem Lexer.Ended.starts (hl : l.Ended ws) (args : List CStr) : ws <+: l.finish (args.flatMap argText ++ ['\n']) := by
  cases args with
  | nil => exact ⟨[], by rw [List.append_nil]; exact hl.finish_newline.symm⟩
  | cons a args =>
    rw [List.flatMap_cons, argText, List.cons_append, List.cons_append, hl.finish_blank]
    exact words_finish ⟨ws, [], .between⟩ _

/-- An `=` between two words is a word. -/
theorem prefix_equals (hws : ws.length < pconfDefaultArgLimit) (s : CStr) :
    ws ++ [['=']] <+: finish ⟨ws, [], .between⟩ ('=' :: s) := by
  have hkeep : keep ⟨ws, [], .between⟩ '=' = ⟨ws, ['='], .between⟩ := keep_eq (by decide) (by decide) (by decide)
  have hstep : step ⟨ws, [], .between⟩ '=' = (⟨ws ++ [['=']], [], .between⟩, .more) := by
    simp [step, hkeep, close_eq hws, into]
  rw [finish, hstep]
  exact words_finish ⟨ws ++ [['=']], [], .between⟩ s

/-- An `=` within a word ends it. -/
theorem prefix_bare (hws : ws.length < pconfDefaultArgLimit) (w s : CStr) :
    ws ++ [w] <+: finish ⟨ws, w, .bare⟩ ('=' :: s) := by
  have hstep : step ⟨ws, w, .bare⟩ '=' = (((close ⟨ws, w, .bare⟩).keep '=').close.into .between, .more) := rfl
  have hwords : (close ⟨ws, w, .bare⟩).words = ws ++ [w] := by rw [close_eq hws]
  have hclose := words_close ((close ⟨ws, w, .bare⟩).keep '=')
  rw [keep_words, hwords] at hclose
  rw [finish, hstep]
  exact hclose.trans (words_finish (((close ⟨ws, w, .bare⟩).keep '=').close.into .between) s)

/-- No word of the arguments is empty. -/
theorem not_empty_word (hargs : ∀ a ∈ args, Kept a ∧ a.length ≤ pconfDefaultWordlenLimit)
    (hws : ws.length < pconfDefaultArgLimit) :
    ¬ws ++ [[]] <+: finish ⟨ws, [], .between⟩ (args.flatMap argText ++ ['\n']) := by
  intro h
  induction args with
  | nil =>
    have hle := h.length_le
    rw [List.flatMap_nil, List.nil_append, (ended_between ws).finish_newline, List.length_append,
      List.length_singleton] at hle
    omega
  | cons a args ih =>
    obtain ⟨⟨ha, hlen⟩, hrest⟩ := List.forall_mem_cons.1 hargs
    rw [List.flatMap_cons, List.append_assoc] at h
    by_cases hb : ' ' ∈ a
    · -- the next word is the argument in quotes
      obtain ⟨t, ht, hended⟩ := ended_argText (ended_between ws) ha hlen hws (.inl hb)
      rw [finish_append ht] at h
      rw [← next_word h (hended.starts args)] at hb
      exact List.not_mem_nil hb
    · rw [argText, if_neg hb, List.cons_append, (ended_between ws).finish_blank] at h
      rcases a with _ | ⟨c, a⟩
      · exact ih hrest h
      · obtain ⟨hc, -⟩ := not_or.1 (List.mem_cons.not.1 hb)
        by_cases he : c = '='
        · subst he
          exact absurd (next_word h (prefix_equals hws _)) (List.cons_ne_nil _ _).symm
        · -- the next word begins with a character
          have hone : Kept [c] := fun d hd => ha d (by rw [List.mem_singleton.1 hd]; exact List.mem_cons_self)
          have hrun := silent_escaped_bare ws hone (List.cons_ne_nil _ _) (by simpa using hc) (by simpa using Ne.symm he)
            (Nat.le_of_ble_eq_true rfl)
          have hsplit : escape (c :: a) = escape [c] ++ escape a := by rw [← escape_append, List.singleton_append]
          rw [hsplit, List.append_assoc, finish_append hrun] at h
          exact List.cons_ne_nil _ _ (List.prefix_nil.1 (word_finish hws rfl h))

/-- An argument that is neither in quotes nor can do without is not read. -/
theorem not_argument (ha : Kept a) (hlen : a.length ≤ pconfDefaultWordlenLimit) (hbad : ¬(' ' ∈ a ∨ Bare a))
    (hargs : ∀ a ∈ args, Kept a ∧ a.length ≤ pconfDefaultWordlenLimit) (hws : ws.length < pconfDefaultArgLimit) :
    ¬ws ++ [a] <+: finish ⟨ws, [], .between⟩ (escape a ++ (args.flatMap argText ++ ['\n'])) := by
  intro h
  obtain ⟨hb, hbare⟩ := not_or.1 hbad
  obtain ⟨hone, hbare⟩ := not_or.1 hbare
  by_cases hnil : a = []
  · rw [hnil] at h
    exact not_empty_word hargs hws h
  · have he : '=' ∈ a := by
      by_contra he
      exact hbare ⟨hnil, hb, he⟩
    obtain ⟨before, after, rfl, hbefore⟩ := List.eq_append_cons_of_mem he
    have hequals : escape ('=' :: after) = '=' :: escape after := escape_cons '=' after
    rw [escape_append, hequals, List.append_assoc, List.cons_append] at h
    by_cases hword : before = []
    · subst hword
      exact hone (next_word h (prefix_equals hws _))
    · have hkept : Kept before := fun c hc => ha c (List.mem_append_left _ hc)
      rw [List.length_append] at hlen
      have hrun := silent_escaped_bare ws hkept hword (fun hc => hb (List.mem_append_left _ hc)) hbefore (by omega)
      rw [finish_append hrun] at h
      have heq := congrArg List.length (next_word h (prefix_bare hws before _))
      rw [List.length_append, List.length_cons] at heq
      omega

theorem finish_args (hl : l.Ended ws) (hlen : ws.length + args.length ≤ pconfDefaultArgLimit)
    (hargs : ∀ a ∈ args, Kept a ∧ a.length ≤ pconfDefaultWordlenLimit) :
    l.finish (args.flatMap argText ++ ['\n']) = ws ++ args ↔ ∀ a ∈ args, ' ' ∈ a ∨ Bare a := by
  induction args generalizing l ws with
  | nil =>
    rw [List.flatMap_nil, List.nil_append, hl.finish_newline, List.append_nil]
    exact iff_of_true rfl fun a ha => absurd ha List.not_mem_nil
  | cons a args ih =>
    obtain ⟨⟨ha, hword⟩, hrest⟩ := List.forall_mem_cons.1 hargs
    rw [List.length_cons] at hlen
    rw [List.flatMap_cons, List.append_assoc, List.forall_mem_cons]
    by_cases hgood : ' ' ∈ a ∨ Bare a
    · obtain ⟨t, ht, hended⟩ := ended_argText hl ha hword (by omega) hgood
      have hws : (ws ++ [a]).length + args.length ≤ pconfDefaultArgLimit := by
        rw [List.length_append, List.length_singleton]
        omega
      have hsplit : ws ++ a :: args = ws ++ [a] ++ args := by rw [List.append_assoc, List.singleton_append]
      rw [finish_append ht, hsplit, ih hended hws hrest]
      exact ⟨fun h => ⟨hgood, h⟩, fun h => h.2⟩
    · refine iff_of_false (fun h => ?_) fun h => hgood h.1
      obtain ⟨hb, -⟩ := not_or.1 hgood
      rw [argText, if_neg hb, List.cons_append, hl.finish_blank] at h
      have hws : ws.length < pconfDefaultArgLimit := by omega
      refine not_argument ha hword hgood hrest hws ⟨args, ?_⟩
      rw [h, List.append_assoc, List.singleton_append]

/-! ### The command -/

theorem ended_command (hcmd : PlainWord cmd) (hlen : cmd.length ≤ pconfDefaultWordlenLimit) :
    ∃ l, silent step start cmd = some l ∧ l.Ended [cmd] := by
  obtain ⟨l, hl, hblank, hnl⟩ := silent_plain [] hcmd hlen (by decide)
  exact ⟨l, hl, hblank, hnl⟩

/-- The line is one command, whatever its arguments are. -/
theorem readsAs_cmdText (hcmd : PlainWord cmd) (hlen : cmd.length ≤ pconfDefaultWordlenLimit)
    (hargs : ∀ a ∈ args, Kept a) : ReadsAs step start (cmdText cmd args) start (start.finish (cmdText cmd args)) := by
  obtain ⟨l, hl, hended⟩ := ended_command hcmd hlen
  obtain ⟨t, ht, hopen⟩ := silent_args hargs hended.open
  have hbody : silent step start (cmd ++ args.flatMap argText) = some t := by rw [silent_append hl, ht]
  have hnl : ∃ xs, step t '\n' = (start, .item xs) := by
    obtain ⟨ws, w, m⟩ := t
    rcases hopen with hm | hm <;> simp only at hm <;> subst hm
    · exact ⟨_, rfl⟩
    · exact ⟨_, rfl⟩
  obtain ⟨xs, hxs⟩ := hnl
  have hfinish : start.finish (cmdText cmd args) = xs := by
    rw [cmdText, finish_append hbody, finish, hxs]
  rw [hfinish]
  exact ⟨cmd ++ args.flatMap argText, '\n', t, rfl, hbody, hxs⟩

/-- The words of the line are the command and its arguments, if each of these has a blank or can do without quotes. -/
theorem finish_cmdText_iff (hcmd : PlainWord cmd) (hword : cmd.length ≤ pconfDefaultWordlenLimit)
    (hcount : args.length < pconfDefaultArgLimit) (hargs : ∀ a ∈ args, Kept a ∧ a.length ≤ pconfDefaultWordlenLimit) :
    start.finish (cmdText cmd args) = cmd :: args ↔ ∀ a ∈ args, ' ' ∈ a ∨ Bare a := by
  obtain ⟨l, hl, hended⟩ := ended_command hcmd hword
  have hall : [cmd].length + args.length ≤ pconfDefaultArgLimit := by
    rw [List.length_singleton]
    omega
  rw [cmdText, List.append_assoc, finish_append hl]
  exact finish_args hended hall hargs

/-- What fits the buffer of the command fits that of a word. -/
theorem length_le_of_fits (hfits : (cmdText cmd args).length < upscliNetbufLen) :
    cmd.length ≤ pconfDefaultWordlenLimit ∧ ∀ a ∈ args, a.length ≤ pconfDefaultWordlenLimit := by
  have hlimit : upscliNetbufLen = pconfDefaultWordlenLimit := rfl
  rw [cmdText, List.length_append, List.length_append] at hfits
  refine ⟨by omega, ?_⟩
  intro a ha
  have h1 := length_le_escape a
  have h2 := length_le_argText a
  have h3 := length_le_flatMap ha
  omega

/-- `upsd` reads the line of a command to its end, and reads its arguments as they were if each of them has a blank or
can do without quotes. -/
theorem command_arrives_iff {ctx : PconfCtx} (h : BetweenLines ctx) (hready : Ready ctx) (hcmd : PlainWord cmd)
    (hargs : ∀ a ∈ args, Printable a) (hlen : args.length ≤ 31) (hfits : (cmdText cmd args).length < upscliNetbufLen) :
    ∃ ctx', charLine ctx (buildCmd upscliNetbufLen cmd args) = (ctx', some []) ∧
      (ctx'.args = cmd :: args ↔ ∀ a ∈ args, ' ' ∈ a ∨ Bare a) := by
  obtain ⟨hword, hwords⟩ := length_le_of_fits hfits
  have hkept : ∀ a ∈ args, Kept a ∧ a.length ≤ pconfDefaultWordlenLimit :=
    fun a ha => ⟨(hargs a ha).kept, hwords a ha⟩
  have hne : cmdText cmd args ≠ [] := by simp [cmdText]
  have hcount : args.length < pconfDefaultArgLimit := by
    rw [pconfDefaultArgLimit]
    omega
  obtain ⟨ctx', hloop, hread, -⟩ :=
    (Reading.startOver h.tidy.2).readsAs (readsAs_cmdText hcmd hword fun a ha => (hkept a ha).1)
  refine ⟨ctx', ?_, ?_⟩
  · rw [buildCmd_eq hfits, hready.charLine_eq hne, hloop]
  · rw [hread]
    exact finish_cmdText_iff hcmd hword hcount hkept

end

/-- Arguments with a blank, a quote and a backslash. -/
theorem command_arrives_quotes : ∃ ctx',
    charLine pconfInit (buildCmd upscliNetbufLen "GET".toList ["a b".toList, "\"".toList, "\\#".toList]) = (ctx', some []) ∧
      (ctx'.args = ["GET".toList, "a b".toList, "\"".toList, "\\#".toList] ↔
        ∀ a ∈ ["a b".toList, "\"".toList, "\\#".toList], ' ' ∈ a ∨ Bare a) :=
  command_arrives_iff .init (.inr (.inr ⟨rfl, rfl⟩)) (by decide) (by decide) (by decide) (by decide)

/-- An empty argument is lost, and an `=` divides one. -/
theorem command_divided :
    (charLine pconfInit (buildCmd upscliNetbufLen "GET".toList ["VAR".toList, [], "ups.status".toList])).1.args ≠
        ["GET".toList, "VAR".toList, [], "ups.status".toList] ∧
      (charLine pconfInit (buildCmd upscliNetbufLen "LIST".toList ["VAR".toList, "a=b".toList])).1.args ≠
        ["LIST".toList, "VAR".toList, "a=b".toList] := by
  decide +kernel

end Nut
