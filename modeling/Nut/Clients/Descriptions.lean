import Nut.Clients.Finish
import Nut.Server.Answers
import Nut.Server.Desc

/-!
# The descriptions that a client reads

The answers to `GET UPSDESC`, `GET DESC` and `GET CMDDESC` and the items of `LIST UPS`, as `pconf_line` reads them.
The descriptions of `ups.conf` are encoded for the line, and those of `cmdvartab` are not: a client reads one of these
as it was loaded exactly if nothing in it had to be encoded (`descriptions_decode_iff`).
-/

namespace Nut

open ChunkReader Lexer

variable {ws : List CStr} {w v s : CStr} {m : Mode}

/-! ### A value that was not encoded -/

/-- A word of which only backslashes come next. -/
theorem next_of_behind {n : Nat} (hn : 0 < n) (hv : v = w ++ List.replicate n '\\' ++ s) :
    w.length < v.length ∧ ∀ c, w ++ [c] <+: v → c = '\\' := by
  obtain ⟨k, rfl⟩ : ∃ k, n = k + 1 := ⟨n - 1, by omega⟩
  refine ⟨?_, fun c hc => ?_⟩
  · rw [hv, List.length_append, List.length_append, List.length_replicate]
    omega
  · rw [hv, List.append_assoc, List.prefix_append_right_inj, List.replicate_succ, List.cons_append] at hc
    exact (List.cons_prefix_cons.1 hc).1

/-- The lexer is behind in a word, by escapes, and only backslashes come next: it never makes it up. -/
theorem not_read_behind (hws : ws.length < pconfDefaultArgLimit) (hm : m = .quoted ∨ m = .quotedEsc) {n : Nat}
    (hn : 0 < n) (hv : v = w ++ List.replicate n '\\' ++ s) (hlen : v.length ≤ pconfDefaultWordlenLimit) (hs : Kept s) :
    ¬ws ++ [v] <+: finish ⟨ws, w, m⟩ (s ++ ['"']) := by
  intro h
  induction s generalizing w m n with
  | nil =>
    obtain ⟨hshort, hnext⟩ := next_of_behind hn hv
    rcases hm with rfl | rfl
    case inl =>
      have hfin : finish ⟨ws, w, .quoted⟩ ['"'] = ws ++ [w] := by
        simp [finish, step, into, close_eq hws]
      rw [List.nil_append, hfin] at h
      rw [next_word h List.prefix_rfl] at hshort
      omega
    case inr =>
      have hk : keep ⟨ws, w, .quotedEsc⟩ '"' = ⟨ws, w ++ ['"'], .quotedEsc⟩ := keep_isKept rfl (by omega)
      have hfin : finish ⟨ws, w, .quotedEsc⟩ ['"'] = ws ++ [w ++ ['"']] := by
        simp [finish, step, into, hk, close_eq hws]
      rw [List.nil_append, hfin] at h
      exact absurd (hnext '"' (next_word h List.prefix_rfl ▸ List.prefix_rfl)) (by decide)
  | cons c s ih =>
    obtain ⟨hshort, hnext⟩ := next_of_behind hn hv
    have hc : isKept c := hs c (by simp)
    have hs' : Kept s := fun d hd => hs d (by simp [hd])
    have hk : ∀ m, keep ⟨ws, w, m⟩ c = ⟨ws, w ++ [c], m⟩ := fun m => keep_isKept hc (by omega)
    rw [List.cons_append, finish] at h
    rcases hm with rfl | rfl
    case inl =>
      simp only [step] at h
      split_ifs at h with h1 h2 h3
      · rw [close_eq hws] at h
        rw [next_word h List.prefix_rfl] at hshort
        omega
      · rw [close_eq hws] at h
        rw [next_word h (words_finish ⟨ws ++ [w], [], .between⟩ (s ++ ['"']))] at hshort
        omega
      · subst h3
        -- one more backslash is spent
        have hv' : v = w ++ List.replicate (n + 1) '\\' ++ s := by rw [hv, List.replicate_succ']; simp
        exact ih (.inr rfl) (by omega) hv' hs' h
      · rw [hk] at h
        exact h3 (hnext c (word_finish hws rfl h))
    case inr =>
      have hnl : c ≠ '\n' := by rintro rfl; exact absurd hc (by decide)
      simp only [step, if_neg hnl, hk] at h
      obtain rfl := hnext c (word_finish hws rfl h)
      -- one backslash is kept, and one more comes after the others
      have hv' : v = w ++ ['\\'] ++ List.replicate n '\\' ++ s := by
        rw [hv, List.append_assoc, List.append_assoc, List.append_assoc, List.append_cancel_left_eq,
          List.singleton_append, ← List.cons_append, ← List.replicate_succ, List.replicate_succ']
        simp
      exact ih (.inl rfl) hn hv' hs' h

/-- A value in quotes that is read as it is has nothing to escape. -/
theorem plain_of_finish {p : CStr} (hws : ws.length < pconfDefaultArgLimit) (hv : v = p ++ s)
    (hlen : v.length ≤ pconfDefaultWordlenLimit) (hs : Kept s)
    (h : ws ++ [v] <+: finish ⟨ws, p, .quoted⟩ (s ++ ['"'])) : ∀ c ∈ s, pconfEscape c = false := by
  induction s generalizing p with
  | nil => simp
  | cons c s ih =>
    have hshort : p.length < v.length := by rw [hv]; simp
    have hc : isKept c := hs c (by simp)
    have hs' : Kept s := fun d hd => hs d (by simp [hd])
    rw [List.cons_append, finish] at h
    simp only [step] at h
    split_ifs at h with h1 h2 h3
    · rw [close_eq hws] at h
      rw [next_word h List.prefix_rfl] at hshort
      omega
    · rw [close_eq hws] at h
      rw [next_word h (words_finish ⟨ws ++ [p], [], .between⟩ (s ++ ['"']))] at hshort
      omega
    · subst h3
      exact absurd h (not_read_behind hws (.inr rfl) Nat.one_pos (by simpa using hv) hlen hs')
    · rw [keep_isKept hc (by omega)] at h
      have hrest := ih (by simpa using hv) hs' h
      intro d hd
      rcases List.mem_cons.1 hd with rfl | hd
      · simp [pconfEscape, h1, h2, h3]
      · exact hrest d hd

/-! ### The line of an answer -/

variable {ctx : PconfCtx} {desc : CStr}

/-- The lexer reads plain words and an encoded text to the end of its quotes. -/
theorem silent_encoded (hws : ∀ w ∈ ws, IsWord w) (hlen : ws.length < pconfDefaultArgLimit) (hdesc : Kept desc)
    (hshort : desc.length ≤ pconfDefaultWordlenLimit) :
    silent step start (spaced ws ++ quoted (escape desc)) = some ⟨ws ++ [desc], [], .between⟩ := by
  have hwords := silent_spaced [] hws (by rw [List.length_nil, Nat.zero_add]; exact Nat.le_of_lt hlen)
  rw [List.nil_append] at hwords
  rw [start, silent_append hwords]
  exact silent_quoted ws hdesc hshort hlen

/-- Plain words and an encoded text are read back. -/
theorem lineGives_encoded (hws : ∀ w ∈ ws, IsWord w) (hlen : ws.length < pconfDefaultArgLimit) (hdesc : Kept desc)
    (hshort : desc.length ≤ pconfDefaultWordlenLimit) (h : BetweenLines ctx) :
    LineGives ctx (spaced ws ++ quoted (escape desc)) (ws ++ [desc]) := by
  have hsilent := silent_encoded hws hlen hdesc hshort
  obtain ⟨c, hc, herr, hloop⟩ := (Reading.startOver h.tidy.2).silent hsilent
  have hnone : parseLoop (startOver ctx) (spaced ws ++ quoted (escape desc)) = (c, none) := by
    have hnil := hloop []
    rwa [List.append_nil] at hnil
  have hword : lingering (c.onLine (ctx.linenum + 1)) = c.onLine (ctx.linenum + 1) := by
    have hbuf : (c.onLine (ctx.linenum + 1)).wordbuf = [] := hc.2.2.wordbuf
    simp [lingering, hbuf]
  unfold LineGives
  rw [pconfLine_of_none hnone, hword]
  exact ⟨hc.args, herr⟩

/-- Plain words and a text that was not encoded are read back exactly if the text has nothing to escape. -/
theorem lineGives_raw_iff (hws : ∀ w ∈ ws, IsWord w) (hlen : ws.length < pconfDefaultArgLimit) (hdesc : Kept desc)
    (hshort : desc.length ≤ pconfDefaultWordlenLimit) (h : BetweenLines ctx) :
    LineGives ctx (spaced ws ++ quoted desc) (ws ++ [desc]) ↔ ∀ c ∈ desc, pconfEscape c = false := by
  constructor
  · rintro ⟨hargs, -⟩
    rw [spaced_read hws (Nat.le_of_lt hlen) h] at hargs
    have hquoted : quoted desc = '"' :: (desc ++ ['"']) := by simp [quoted]
    rw [hquoted, finish] at hargs
    exact plain_of_finish hlen (List.nil_append desc).symm hshort hdesc (hargs ▸ List.prefix_rfl)
  · intro hplain
    have hgives := lineGives_encoded hws hlen hdesc hshort h
    rwa [escape_of_forall hplain] at hgives

/-! ### The queries -/

/-- The queries for a description, and the item of `LIST UPS` for a UPS. -/
inductive DescQuery where
  | upsdesc (upsname : CStr)
  | desc (upsname var : CStr)
  | cmddesc (upsname cmd : CStr)
  | ups (name : CStr)

namespace DescQuery

/-- The names of the query. -/
def names : DescQuery → List CStr
  | .upsdesc upsname => [upsname]
  | .desc upsname var => [upsname, var]
  | .cmddesc upsname cmd => [upsname, cmd]
  | .ups name => [name]

def keyword : DescQuery → CStr
  | .upsdesc _ => "UPSDESC".toList
  | .desc _ _ => "DESC".toList
  | .cmddesc _ _ => "CMDDESC".toList
  | .ups _ => "UPS".toList

theorem keyword_plain (q : DescQuery) : PlainWord q.keyword ∧ 3 ≤ q.keyword.length := by
  cases q
  case upsdesc => exact (by decide : PlainWord "UPSDESC".toList ∧ 3 ≤ "UPSDESC".toList.length)
  case desc => exact (by decide : PlainWord "DESC".toList ∧ 3 ≤ "DESC".toList.length)
  case cmddesc => exact (by decide : PlainWord "CMDDESC".toList ∧ 3 ≤ "CMDDESC".toList.length)
  case ups => exact (by decide : PlainWord "UPS".toList ∧ 3 ≤ "UPS".toList.length)

/-- The words of the query, with which the line of the answer begins. -/
def words (q : DescQuery) : List CStr := q.keyword :: q.names

/-- The description comes from `ups.conf`, and is encoded for the line. -/
def FromUpsconf : DescQuery → Prop
  | .upsdesc _ => True
  | .ups _ => True
  | .desc _ _ => False
  | .cmddesc _ _ => False

instance (q : DescQuery) : Decidable q.FromUpsconf := by
  cases q <;> unfold FromUpsconf <;> infer_instance

/-- The words of a command that asks for it. -/
inductive Asked (args : List CStr) : DescQuery → Prop
  | upsdesc {type upsname : CStr} {rest : List CStr} (hasks : Asks args "GET".toList (type :: upsname :: rest))
      (htype : strcasecmp type "UPSDESC".toList = .eq) : Asked args (.upsdesc upsname)
  | desc {type upsname var : CStr} {rest : List CStr} (hasks : Asks args "GET".toList (type :: upsname :: var :: rest))
      (htype : strcasecmp type "DESC".toList = .eq) : Asked args (.desc upsname var)
  | cmddesc {type upsname cmd : CStr} {rest : List CStr}
      (hasks : Asks args "GET".toList (type :: upsname :: cmd :: rest))
      (htype : strcasecmp type "CMDDESC".toList = .eq) : Asked args (.cmddesc upsname cmd)
  | ups {type : CStr} {rest : List CStr} (hasks : Asks args "LIST".toList (type :: rest))
      (htype : strcasecmp type "UPS".toList = .eq) (name : CStr) : Asked args (.ups name)

/-- The description that was loaded: that of the UPS, or the one on the last line of `cmdvartab` for the name. -/
inductive Loaded (f : Option CStr) (s : Upsd) : DescQuery → CStr → Prop
  | upsdesc {upsname text : CStr} {ups : Upstype} (hups : getUpsPtr s upsname = some ups) (hdesc : ups.desc = some text) :
      Loaded f s (.upsdesc upsname) text
  | desc {upsname var text : CStr} {ups : Upstype} (hups : getUpsPtr s upsname = some ups) (havail : ups.Available)
      (hdesc : lastDesc "VARDESC".toList (vartabLines f) var = some text) : Loaded f s (.desc upsname var) text
  | cmddesc {upsname cmd text : CStr} {ups : Upstype} (hups : getUpsPtr s upsname = some ups) (havail : ups.Available)
      (hdesc : lastDesc "CMDDESC".toList (vartabLines f) cmd = some text) : Loaded f s (.cmddesc upsname cmd) text
  | ups {ups : Upstype} {text : CStr} (hups : ups ∈ s.firstups) (hdesc : ups.desc = some text) :
      Loaded f s (.ups ups.name) text

/-- The line that `upsd` sends. -/
def line (q : DescQuery) (text : CStr) : CStr :=
  spaced q.words ++ quoted (if q.FromUpsconf then pconfEncode text smallbuf else text)

theorem line_encoded {q : DescQuery} (h : q.FromUpsconf) (text : CStr) :
    q.line text = spaced q.words ++ quoted (pconfEncode text smallbuf) := by
  rw [line, if_pos h]

theorem line_raw {q : DescQuery} (h : ¬q.FromUpsconf) (text : CStr) : q.line text = spaced q.words ++ quoted text := by
  rw [line, if_neg h]

end DescQuery

theorem netGet_type {w : Writes} {s : Upsd} {client : NutCtype} {type : CStr} (upsname var : CStr) (rest : List CStr) :
    (strcasecmp type "UPSDESC".toList = .eq →
      netGet w s client (type :: upsname :: rest) = getUpsdesc w s client.sockFd upsname) ∧
    (strcasecmp type "DESC".toList = .eq →
      netGet w s client (type :: upsname :: var :: rest) = getDesc w s client.sockFd upsname var) ∧
    (strcasecmp type "CMDDESC".toList = .eq →
      netGet w s client (type :: upsname :: var :: rest) = getCmddesc w s client.sockFd upsname var) := by
  unfold netGet
  refine ⟨fun htype => ?_, fun htype => ?_, fun htype => ?_⟩ <;> dsimp only
  · rw [if_neg (strcasecmp_ne htype (by decide)), if_pos htype]
  · rw [if_neg (strcasecmp_ne htype (by decide)), if_neg (strcasecmp_ne htype (by decide)), if_neg (strcasecmp_ne htype (by decide)),
      if_neg (strcasecmp_ne htype (by decide)), if_pos htype]
  · rw [if_neg (strcasecmp_ne htype (by decide)), if_neg (strcasecmp_ne htype (by decide)), if_neg (strcasecmp_ne htype (by decide)),
      if_neg (strcasecmp_ne htype (by decide)), if_neg (strcasecmp_ne htype (by decide)), if_pos htype]

/-- The item of `LIST UPS` for a UPS. -/
def upsLine (utmp : Upstype) : CStr :=
  match utmp.desc with
  | some desc => "UPS ".toList ++ utmp.name ++ " ".toList ++ quoted (pconfEncode desc smallbuf) ++ "\n".toList
  | none => "UPS ".toList ++ utmp.name ++ " \"Description unavailable\"\n".toList

theorem listUps_eq (w : Writes) (s : Upsd) (fd : Nat) :
    listUps w s fd = (sendEach w s fd (listTexts "UPS".toList (s.firstups.map upsLine) "UPS".toList)).1 := by
  rw [← sendList_eq]
  show sendList w s fd "UPS".toList (fun s => sendEach w s fd (s.firstups.map upsLine)) "UPS".toList = _
  unfold sendList
  -- the list is read after its first line is sent, which does not change it
  rw [sendback_eq]
  rcases w.client fd (s.written fd) with _ | _
  · rfl
  · rfl

/-- The line is among the texts that are sent, in order, to the client. -/
theorem DescQuery.sent {f : Option CStr} {s : Upsd} (hs : RunsWith f s) (w : Writes) {client : NutCtype} {args : List CStr}
    {q : DescQuery} (hasked : q.Asked args) (hdesc : q.Loaded f s desc) :
    ∃ texts, parseNet w s client args = (sendEach w s client.sockFd texts).1 ∧ q.line desc ++ ['\n'] ∈ texts := by
  obtain ⟨hcmds, hvars⟩ := hs.lists
  -- the text of the source, with the blank after each word
  have hone (kw n text : CStr) : kw ++ " ".toList ++ n ++ " ".toList ++ quoted text ++ "\n".toList =
      spaced [kw, n] ++ quoted text ++ ['\n'] := by simp [spaced]
  have htwo (kw n n' text : CStr) : kw ++ " ".toList ++ n ++ " ".toList ++ n' ++ " ".toList ++ quoted text ++ "\n".toList =
      spaced [kw, n, n'] ++ quoted text ++ ['\n'] := by simp [spaced]
  cases hasked with
  | upsdesc hasks htype =>
    cases hdesc with | upsdesc hups hdesc =>
    refine ⟨[_], ?_, List.mem_singleton_self _⟩
    rw [parseNet_get hasks, (netGet_type _ [] _).1 htype, getUpsdesc, hups,
      DescQuery.line_encoded (by exact trivial)]
    dsimp only
    rw [hdesc, sendEach_singleton]
    exact congrArg (fun text => (sendback w s client.sockFd text).1) (hone "UPSDESC".toList _ _)
  | desc hasks htype =>
    cases hdesc with | desc hups havail hdesc =>
    refine ⟨[_], ?_, List.mem_singleton_self _⟩
    rw [parseNet_get hasks, (netGet_type _ _ _).2.1 htype, getDesc, withUps_of_available hups havail, hvars,
      (listGet_descLoad f _).2, hdesc, Option.getD_some, sendEach_singleton, DescQuery.line_raw id]
    exact congrArg (fun text => (sendback w s client.sockFd text).1) (htwo "DESC".toList _ _ _)
  | cmddesc hasks htype =>
    cases hdesc with | cmddesc hups havail hdesc =>
    refine ⟨[_], ?_, List.mem_singleton_self _⟩
    rw [parseNet_get hasks, (netGet_type _ _ _).2.2 htype, getCmddesc, withUps_of_available hups havail, hcmds,
      (listGet_descLoad f _).1, hdesc, Option.getD_some, sendEach_singleton, DescQuery.line_raw id]
    exact congrArg (fun text => (sendback w s client.sockFd text).1) (htwo "CMDDESC".toList _ _ _)
  | @ups type rest hasks htype name =>
    cases hdesc with | @ups ups _ hups hdesc =>
    refine ⟨listTexts "UPS".toList (s.firstups.map upsLine) "UPS".toList, ?_,
      List.mem_append_left _ (List.mem_cons_of_mem _ (List.mem_map.2 ⟨ups, hups, ?_⟩))⟩
    · rw [parseNet_list hasks]
      unfold netList
      dsimp only
      rw [if_pos htype, listUps_eq]
    · rw [upsLine, hdesc, DescQuery.line_encoded (by exact trivial)]
      exact hone "UPS".toList _ _

/-- A description of printable characters, in a line that fits the buffers, is read by the client as it was loaded
exactly if it comes from `ups.conf` or has nothing to escape, where the names of the query are plain words. -/
theorem descriptions_decode_iff {f : Option CStr} {s : Upsd} (hs : RunsWith f s) (w : Writes) {client : NutCtype}
    {args : List CStr} {q : DescQuery} (hasked : q.Asked args) (hdesc : q.Loaded f s desc) (hprint : Printable desc)
    (hfit : (q.line desc ++ ['\n']).length ≤ nutNetAnswerMax) :
    (∃ texts, parseNet w s client args = (sendEach w s client.sockFd texts).1 ∧ q.line desc ++ ['\n'] ∈ texts) ∧
      answer (q.line desc ++ ['\n']) = q.line desc ++ ['\n'] ∧
      ((∀ name ∈ q.names, PlainWord name) → ∀ ctx, BetweenLines ctx →
        (LineGives ctx (q.line desc) (q.words ++ [desc]) ↔ q.FromUpsconf ∨ ∀ c ∈ desc, pconfEscape c = false)) := by
  refine ⟨q.sent hs w hasked hdesc, snprintf_of_lt (by omega), fun hnames ctx hctx => ?_⟩
  have hline : (q.line desc).length < smallbuf := by
    rw [List.length_append, List.length_singleton] at hfit
    exact hfit
  have hlen : q.words.length < pconfDefaultArgLimit := by
    cases q <;> simp [DescQuery.words, DescQuery.names, pconfDefaultArgLimit]
  have hwords : ∀ w ∈ q.words, IsWord w := by
    intro w hw
    refine ⟨?_, ?_⟩
    · rcases List.mem_cons.1 hw with rfl | hw
      · exact q.keyword_plain.1
      · exact hnames w hw
    · have hle := length_le_spaced hw
      rw [DescQuery.line, List.length_append] at hline
      unfold pconfDefaultWordlenLimit
      unfold smallbuf at hline
      omega
  have hkept : Kept desc := hprint.kept
  have hkeyword : 3 ≤ q.keyword.length := q.keyword_plain.2
  have hspaced : q.keyword.length ≤ (spaced q.words).length := length_le_spaced (List.mem_cons_self ..)
  by_cases hconf : q.FromUpsconf
  · have hroom : (escape desc).length < smallbuf := by
      by_contra hlong
      have hfull := le_length_pconfEncode (Nat.not_lt.1 hlong)
      simp only [DescQuery.line, if_pos hconf, quoted, List.length_append] at hline
      omega
    have hshort := length_le_escape desc
    rw [DescQuery.line, if_pos hconf, pconfEncode_fits hroom]
    refine iff_of_true ?_ (.inl hconf)
    exact lineGives_encoded hwords hlen hkept (by unfold smallbuf at hroom; unfold pconfDefaultWordlenLimit; omega) hctx
  · have hshort : desc.length ≤ pconfDefaultWordlenLimit := by
      simp only [DescQuery.line, if_neg hconf, quoted, List.length_append] at hline
      unfold smallbuf at hline
      unfold pconfDefaultWordlenLimit
      omega
    rw [DescQuery.line, if_neg hconf, or_iff_right hconf]
    exact lineGives_raw_iff hwords hlen hkept hshort hctx

/-! ### A description with quotes -/

/-- Two lines of `cmdvartab`. -/
def quotedVartab : Option CStr := some "VARDESC ups.load \"Load\"\nVARDESC ups.id \"The \\\"id\\\"\"\n".toList

def describedStart : Upsd :=
  (upsdStart oneDriver oneUps 256 (descLoad quotedVartab).1 (descLoad quotedVartab).2 "2.6".toList).getD
    ⟨[], [], [], 0, 0, [], [], []⟩

/-- The driver completes its dump. -/
def describedServer : Upsd :=
  (describedStart.step (.driver "u".toList 100 (.data "DATAOK\nDUMPDONE\n".toList))).getD describedStart

/-- The daemon starts and reads the driver's lines, and the UPS and its descriptions are there. -/
private theorem describedServer_knows :
    upsdStart oneDriver oneUps 256 (descLoad quotedVartab).1 (descLoad quotedVartab).2 "2.6".toList = some describedStart ∧
    describedStart.step (.driver "u".toList 100 (.data "DATAOK\nDUMPDONE\n".toList)) = some describedServer ∧
    getUpsPtr describedServer "u".toList = some (describedServer.firstups.headD (newUps [] [] none)) ∧
    (describedServer.firstups.headD (newUps [] [] none)).Available ∧
    lastDesc "VARDESC".toList (vartabLines quotedVartab) "ups.load".toList = some "Load".toList ∧
    lastDesc "VARDESC".toList (vartabLines quotedVartab) "ups.id".toList = some "The \"id\"".toList := by
  decide +kernel

theorem runsWith_describedServer : RunsWith quotedVartab describedServer := by
  obtain ⟨hstart, hstep, -⟩ := describedServer_knows
  have hstarted : StartedWith quotedVartab describedStart := ⟨oneDriver, oneUps, 256, "2.6".toList, hstart⟩
  exact (Transition.Reach.init hstarted).step (.event _ hstep)

theorem asked_desc (upsname var : CStr) : DescQuery.Asked ["GET".toList, "DESC".toList, upsname, var] (.desc upsname var) :=
  .desc ⟨_, rfl, by decide⟩ (by decide)

theorem loaded_describedServer :
    DescQuery.Loaded quotedVartab describedServer (.desc "u".toList "ups.load".toList) "Load".toList ∧
      DescQuery.Loaded quotedVartab describedServer (.desc "u".toList "ups.id".toList) "The \"id\"".toList := by
  obtain ⟨-, -, hups, havail, hload, hid⟩ := describedServer_knows
  exact ⟨.desc hups havail hload, .desc hups havail hid⟩

def describedClient : NutCtype := ⟨"127.0.0.1".toList, 7, 100, none, none, none, pconfInit, []⟩

theorem description_decodes_load :
    LineGives pconfInit ((DescQuery.desc "u".toList "ups.load".toList).line "Load".toList)
      ["DESC".toList, "u".toList, "ups.load".toList, "Load".toList] :=
  ((@descriptions_decode_iff _ _ _ runsWith_describedServer allWritten describedClient _ _ (asked_desc _ _)
    loaded_describedServer.1 (by decide) (by decide +kernel)).2.2 (by decide) pconfInit .init).2 (.inr (by decide))

/-- A description with quotes is sent as it is in the file, and the client reads something else. -/
theorem description_lost : RunsWith quotedVartab describedServer ∧
    DescQuery.Loaded quotedVartab describedServer (.desc "u".toList "ups.id".toList) "The \"id\"".toList ∧
    (((clientConnect 100 describedServer 7 "127.0.0.1".toList).step
      (.client 7 100 allWritten (some "GET DESC u ups.id\n".toList))).bind fun s => (s.client 7).map NutCtype.sent) =
        some ["DESC u ups.id \"The \"id\"\"\n".toList] ∧
    (pconfLine pconfInit "DESC u ups.id \"The \"id\"\"".toList).args =
      ["DESC".toList, "u".toList, "ups.id".toList, "The ".toList, "id\"\"".toList] :=
  ⟨runsWith_describedServer, loaded_describedServer.2, by decide +kernel, by decide +kernel⟩

end Nut
