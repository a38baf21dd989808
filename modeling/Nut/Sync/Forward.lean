import Nut.Drivers.Sock
import Nut.Server.Setvar
import Nut.Sync.Escaped

/-!
# Forwarded commands

What a driver makes of the line that the server writes for an accepted `SET` or `INSTCMD`.  `set_var` puts the encoded
value in quotes, so the line is understood as long as it fits the buffer and the name is a plain word
(`set_intact_iff`).  `send_instcmd` leaves out the quotes, so it is understood only where the value is one word without
them (`instcmd_intact_iff`).
-/

namespace Nut

open ChunkReader Lexer

/-- The bytes written to the driver of the UPS between two states of the server. -/
def forwarded (s s' : Upsd) (upsname : CStr) : CStr :=
  match getUpsPtr s upsname, getUpsPtr s' upsname with
  | some ups, some ups' => (ups'.sent.drop ups.sent.length).flatten
  | _, _ => []

/-- However the bytes arrive on a connection between two lines, `sock_arg` does `f` once and nothing else, and the next
line starts afresh. -/
def DriverDoes (upsh : UpsHandler) (bytes : CStr) (f : Dstate → Dstate) : Prop :=
  ∀ w fd d ctx chunks, connCtx d fd = some ctx → AtLineStart ctx → chunks.flatten = bytes →
    ∃ ctx', AtLineStart ctx' ∧ sockReads w upsh fd d chunks = some (f (setConnCtx d fd ctx'))

/-- The bytes are one line. -/
def OneLine (bytes : CStr) : Prop := ∃ body, '\n' ∉ body ∧ bytes = body ++ ['\n']

/-- The bytes are one line, for which the driver calls `upsh.setvar` once, with the variable and the value. -/
def SetIntact (bytes var newval : CStr) : Prop :=
  OneLine bytes ∧ ∀ upsh setvar, upsh.setvar = some setvar → DriverDoes upsh bytes fun d => setvar d var newval

/-- The bytes are one line, for which the driver calls `upsh.instcmd` once, with the command and the value. -/
def InstcmdIntact (bytes cmdname : CStr) (value : Option CStr) : Prop :=
  OneLine bytes ∧ ∀ upsh instcmd, upsh.instcmd = some instcmd → DriverDoes upsh bytes fun d => instcmd d cmdname value

/-- The `SET` passes the checks and the write to the driver takes the line. -/
def SetAccepted (w : Writes) (s : Upsd) (client : NutCtype) (upsname var newval : CStr) : Prop :=
  ∃ ups, getUpsPtr s upsname = some ups ∧ ups.Available ∧ CodeChecks s client ups var newval ∧
    w.driver ups.name ups.sent.length = true

/-- The `INSTCMD` passes the checks and the write to the driver takes the line. -/
def InstcmdAccepted (w : Writes) (s : Upsd) (client : NutCtype) (upsname cmdname : CStr) : Prop :=
  ∃ ups, getUpsPtr s upsname = some ups ∧ ups.Available ∧ (∃ name ∈ sstateGetcmdlist ups, strcasecmp name cmdname = .eq) ∧
    userCheckinstcmd s.users client.username client.password cmdname = true ∧ w.driver ups.name ups.sent.length = true

/-! ### What is written -/

private theorem getUpsPtr_modifyUps {s : Upsd} {upsname : CStr} {ups : Upstype} (hups : getUpsPtr s upsname = some ups)
    {f : Upstype → Upstype} (hf : ∀ ups, (f ups).name = ups.name) :
    getUpsPtr (s.modifyUps ups.name f) upsname = some (f ups) := by
  unfold getUpsPtr Upsd.modifyUps at *
  dsimp only
  rw [List.find?_map]
  have hname : ((fun tmp : Upstype => decide (strcasecmp tmp.name upsname = .eq)) ∘
      fun ups' => if ups'.name = ups.name then f ups' else ups') =
        fun tmp => decide (strcasecmp tmp.name upsname = .eq) := by
    funext ups'
    rw [Function.comp_apply]
    split_ifs
    · rw [hf]
    · rfl
  rw [hname, hups, Option.map_some, if_pos rfl]

private theorem sstateSendline_name (ok : Bool) (ups : Upstype) (buf : CStr) :
    (sstateSendline ok ups buf).1.name = ups.name := by
  unfold sstateSendline
  split
  · rfl
  · dsimp only
    split_ifs
    · rfl
    · unfold sstateDisconnect
      split <;> rfl

/-- A line that was written shows in the record of the UPS. -/
theorem forwarded_of_sent {w : Writes} {s : Upsd} {upsname line text : CStr} {ups : Upstype} {fd : Nat}
    (hups : getUpsPtr s upsname = some ups) (hfd : ups.sockFd ≠ none) :
    forwarded s (sendback w (sendToDriver w s ups line).1 fd text).1 upsname = line := by
  have hups' : getUpsPtr (sendback w (sendToDriver w s ups line).1 fd text).1 upsname =
      some (sstateSendline (w.driver ups.name ups.sent.length) ups line).1 := by
    rw [sendback_eq]
    exact getUpsPtr_modifyUps hups fun ups' => sstateSendline_name _ ups' line
  unfold forwarded
  rw [hups, hups']
  dsimp only
  rw [sent_of_connected hfd, List.drop_left]
  simp

theorem setVar_forwarded {w : Writes} {s : Upsd} {client : NutCtype} {upsname var newval : CStr}
    (h : SetAccepted w s client upsname var newval) :
    forwarded s (setVar w s client upsname var newval) upsname = setLine var newval := by
  obtain ⟨ups, hups, havail, hchecks, -⟩ := h
  obtain ⟨ups', text, hups', hfd, heq⟩ := (setVar_cases hups havail).1 hchecks
  rw [heq]
  exact forwarded_of_sent hups' hfd

theorem sendInstcmd_forwarded {w : Writes} {s : Upsd} {client : NutCtype} {upsname cmdname : CStr}
    (h : InstcmdAccepted w s client upsname cmdname) (value : Option CStr) :
    forwarded s (sendInstcmd w s client upsname cmdname value) upsname = instcmdLine cmdname value := by
  obtain ⟨ups, hups, havail, hcmd, hright, hok⟩ := h
  have heq : sendInstcmd w s client upsname cmdname value =
      (sendback w (sendToDriver w s ups (instcmdLine cmdname value)).1 client.sockFd "OK\n".toList).1 := by
    unfold sendInstcmd
    dsimp only
    rw [withUps_of_available hups havail, if_neg (by simpa using hcmd), if_neg (by simp [hright])]
    have hsend : (sendToDriver w s ups (instcmdLine cmdname value)).2 = true := by
      unfold sendToDriver sstateSendline
      cases hfd : ups.sockFd with
      | none => exact absurd hfd havail.1
      | some fd => simp [hok]
    rcases hdriver : sendToDriver w s ups (instcmdLine cmdname value) with ⟨s', ok⟩
    rw [hdriver] at hsend
    obtain rfl : ok = true := hsend
    rfl
  rw [heq]
  exact forwarded_of_sent hups havail.1

/-! ### What the driver makes of it -/

section Driver

variable {w : Nat → Bool} {upsh : UpsHandler} {fd : Nat} {d : Dstate} {bytes body : CStr} {xs : List CStr}

theorem sockArg_set {setvar : Dstate → CStr → CStr → Dstate} (h : upsh.setvar = some setvar) (rest B : List CStr) :
    sockArg w upsh fd d ("SET".toList :: rest).length ("SET".toList :: rest ++ B) =
      match rest with
      | var :: val :: _ => (setvar d var val, true)
      | _ => (d, false) := by
  rcases rest with _ | ⟨var, _ | ⟨val, rest⟩⟩
  · rfl
  · rfl
  · have hlong : ¬rest.length + 3 < 3 := by omega
    unfold sockArg
    simp only [List.length_cons, List.cons_append, List.getD_cons_zero, List.getD_cons_succ, h]
    rw [if_neg (by omega), if_neg (by decide), if_neg (by decide), if_neg (by omega), if_neg (by decide), if_neg hlong,
      if_pos (by decide)]

theorem sockArg_instcmd {instcmd : Dstate → CStr → Option CStr → Dstate} (h : upsh.instcmd = some instcmd)
    (rest B : List CStr) : sockArg w upsh fd d ("INSTCMD".toList :: rest).length ("INSTCMD".toList :: rest ++ B) =
      match rest with
      | [] => (d, false)
      | cmd :: rest => (instcmd d cmd rest.head?, true) := by
  rcases rest with _ | ⟨cmd, _ | ⟨val, rest⟩⟩
  · rfl
  · unfold sockArg
    simp only [List.length_cons, List.length_nil, List.cons_append, List.getD_cons_zero, List.getD_cons_succ, h]
    rfl
  · unfold sockArg
    simp only [List.length_cons, List.cons_append, List.getD_cons_zero, List.getD_cons_succ, h]
    rw [if_neg (by omega), if_neg (by decide), if_neg (by decide), if_neg (by omega), if_pos (by decide),
      if_pos (by omega)]
    rfl

/-- A line that the parser reads as a call of a handler. -/
theorem driverDoes_of_reads {f : Dstate → Dstate} {ws : List CStr} (h : ReadsAs Lexer.step Lexer.start bytes Lexer.start ws)
    (hf : ∀ w fd d B, (sockArg w upsh fd d ws.length (ws ++ B)).1 = f d) : DriverDoes upsh bytes f := by
  intro w fd d ctx chunks hctx hstart hchunks
  obtain ⟨conn, hc, rfl⟩ := Option.map_eq_some_iff.1 hctx
  rw [← hchunks] at h
  obtain ⟨ctx', hstart', hrun⟩ := @sockReads_line w upsh fd d conn _ _ hc hstart chunks ws h
  exact ⟨ctx', hstart', by rw [hrun, hf]⟩

/-- A driver with one connection. -/
private def probe : Dstate := { Dstate.init with connhead := [⟨0, pconfInit, []⟩] }

/-- The handlers that record their arguments. -/
def recorder : UpsHandler where
  instcmd := some fun d cmd value => { d with cmdhead := cmd :: value.toList }
  setvar := some fun d var val => { d with cmdhead := [var, val] }

private theorem run_of_does (h : DriverDoes recorder bytes fun d => { d with cmdhead := xs }) :
    ∃ d', sockReadLoop (fun _ => true) recorder 0 probe bytes = some d' ∧ d'.cmdhead = xs := by
  obtain ⟨ctx', -, hrun⟩ := h (fun _ => true) 0 probe pconfInit [bytes] rfl atLineStart_pconfInit (by simp)
  refine ⟨{ setConnCtx probe 0 ctx' with cmdhead := xs }, ?_, rfl⟩
  rw [← hrun, sockReads, List.foldlM_cons, sockRead]
  cases sockReadLoop (fun _ => true) recorder 0 probe bytes <;> rfl

/-- Bytes for which a handler is called have a newline. -/
private theorem newline_of_does (h : DriverDoes recorder bytes fun d => { d with cmdhead := xs }) (hxs : xs ≠ []) :
    '\n' ∈ bytes := by
  by_contra hnl
  obtain ⟨d', hrun, hhead⟩ := run_of_does h
  obtain ⟨d'', hrun', hsame⟩ := @sockReadLoop_no_newline (fun _ => true) recorder 0 probe ⟨0, pconfInit, []⟩ _ _ rfl
    atLineStart_pconfInit bytes hnl
  obtain rfl := Option.some.inj (hrun.symm.trans hrun')
  exact hxs (hhead.symm.trans hsame.cmdhead)

/-- The line for which a handler is called is read as its words. -/
private theorem reads_of_does (hbody : '\n' ∉ body)
    (h : DriverDoes recorder (body ++ ['\n']) fun d => { d with cmdhead := xs }) (hxs : xs ≠ []) :
    ∃ ws d, ReadsAs Lexer.step Lexer.start (body ++ ['\n']) Lexer.start ws ∧ d.cmdhead = [] ∧
      (sockArg (fun _ => true) recorder 0 d ws.length (ws ++ [])).1.cmdhead = xs := by
  obtain ⟨d', hrun, hhead⟩ := run_of_does h
  rcases @sockReadLoop_newline (fun _ => true) recorder 0 probe ⟨0, pconfInit, []⟩ _ _ rfl atLineStart_pconfInit body hbody
    with ⟨ws, hreads⟩ | ⟨d'', hrun', hsame⟩
  · obtain ⟨ctx', -, hline⟩ := @sockReadLoop_line (fun _ => true) recorder 0 probe ⟨0, pconfInit, []⟩ _ _ rfl
      atLineStart_pconfInit _ ws hreads []
    rw [List.append_nil] at hline
    have hdrop : pconfInit.arglist.drop ws.length = [] := List.drop_nil
    rw [hdrop] at hline
    refine ⟨ws, setConnCtx probe 0 ctx', hreads, rfl, ?_⟩
    rw [← hhead, ← Option.some.inj (hline.symm.trans hrun)]
  · obtain rfl := Option.some.inj (hrun.symm.trans hrun')
    exact absurd (hhead.symm.trans hsame.cmdhead) hxs

end Driver

/-! ### The line for `SET` -/

private theorem kept_encoded {s : CStr} (h : Kept s) : Kept (pconfEncode s smallbuf) := by
  obtain ⟨k, hk, -⟩ := @pconfEncode_take s smallbuf (by decide)
  rw [hk]
  exact kept_escape fun c hc => h c (List.mem_of_mem_take hc)

/-- A line that does not fit its buffer loses the newline. -/
private theorem newline_of_cut {body : CStr} (hbody : '\n' ∉ body) (h : '\n' ∈ snprintf smallbuf (body ++ ['\n'])) :
    body.length + 1 < smallbuf := by
  by_contra hlen
  rw [snprintf, List.take_append_of_le_length (by simp [smallbuf] at hlen ⊢; omega)] at h
  exact hbody (List.mem_of_mem_take h)

private theorem setLine_eq (var newval : CStr) : setLine var newval =
    snprintf smallbuf (("SET".toList ++ ' ' :: (var ++ ' ' :: '"' :: (pconfEncode newval smallbuf ++ ['"']))) ++ ['\n']) := by
  unfold setLine quoted
  congr 1
  simp only [List.append_assoc, List.cons_append]
  rfl

private theorem silent_keyword {kw : CStr} (hkw : PlainWord kw ∧ kw.length ≤ pconfDefaultWordlenLimit) :
    silent Lexer.step Lexer.start (kw ++ [' ']) = some ⟨[kw], [], .between⟩ :=
  silent_word [] hkw.1 hkw.2 (by decide)

/-- The text of the line, when it is not cut, after the keyword. -/
private theorem reads_after {kw rest : CStr} {ws : List CStr} (hkw : PlainWord kw ∧ kw.length ≤ pconfDefaultWordlenLimit)
    (h : ReadsAs Lexer.step Lexer.start ((kw ++ ' ' :: rest) ++ ['\n']) Lexer.start ws) :
    ReadsAs Lexer.step ⟨[kw], [], .between⟩ (rest ++ ['\n']) Lexer.start ws := by
  have hsplit : (kw ++ ' ' :: rest) ++ ['\n'] = (kw ++ [' ']) ++ (rest ++ ['\n']) := by simp
  rw [hsplit] at h
  obtain ⟨t, ht, hs⟩ := h.split (by simp)
  rw [silent_keyword hkw] at ht
  rwa [← Option.some.inj ht] at hs

private theorem plainWord_set : PlainWord "SET".toList ∧ "SET".toList.length ≤ pconfDefaultWordlenLimit := by decide

private theorem plainWord_instcmd : PlainWord "INSTCMD".toList ∧ "INSTCMD".toList.length ≤ pconfDefaultWordlenLimit := by
  decide

section

variable {var newval : CStr}

/-- The line, when it fits. -/
private theorem reads_setLine (hvar : PlainWord var) (hnewval : Kept newval)
    (hlen : var.length + (escape newval).length + 8 < smallbuf) :
    ∃ body, '\n' ∉ body ∧ setLine var newval = body ++ ['\n'] ∧
      ReadsAs Lexer.step Lexer.start (body ++ ['\n']) Lexer.start ["SET".toList, var, newval] := by
  have hlong := length_le_escape newval
  have hbuf : smallbuf = 512 := rfl
  have hword : pconfDefaultWordlenLimit = 512 := rfl
  refine ⟨"SET".toList ++ ' ' :: (var ++ ' ' :: '"' :: (escape newval ++ ['"'])), ?_, ?_, ?_⟩
  · have hplain : '\n' ∉ var := by
      rcases hvar with rfl | ⟨-, -, hchars⟩
      · decide
      · exact fun hmem => absurd (hchars _ hmem) (by decide)
    have hescape := newline_notMem_of_kept (kept_escape hnewval)
    simp [hplain, hescape]
  · rw [setLine_eq, pconfEncode_fits (by omega), snprintf_of_lt]
    simp
    omega
  · have hquoted := silent_quoted ["SET".toList, var] hnewval (by omega) (by simp [pconfDefaultArgLimit])
    have hline : ("SET".toList ++ ' ' :: (var ++ ' ' :: '"' :: (escape newval ++ ['"']))) ++ ['\n'] =
        ("SET".toList ++ [' ']) ++ ((var ++ [' ']) ++ (('"' :: escape newval ++ ['"']) ++ ['\n'])) := by simp
    rw [hline]
    exact .of_silent (silent_keyword plainWord_set) (.of_silent (silent_word _ hvar (by omega) (by simp [pconfDefaultArgLimit]))
      (.of_silent hquoted (readsAs_newline _)))

/-- An accepted `SET` reaches the driver intact exactly if the name of the variable is a plain word and the line, with the
value escaped, fits the buffer that it is written to. -/
theorem set_intact_iff {w : Writes} {s : Upsd} {client : NutCtype} {upsname : CStr}
    (haccepted : SetAccepted w s client upsname var newval) (hvar : Kept var) (hnewval : Kept newval) :
    SetIntact (forwarded s (setVar w s client upsname var newval) upsname) var newval ↔
      PlainWord var ∧ var.length + (escape newval).length + 8 < smallbuf := by
  rw [setVar_forwarded haccepted]
  constructor
  · rintro ⟨-, hsets⟩
    have hdoes := hsets recorder _ rfl
    have hnl := newline_of_does hdoes (by simp)
    have hbody : '\n' ∉ "SET".toList ++ ' ' :: (var ++ ' ' :: '"' :: (pconfEncode newval smallbuf ++ ['"'])) := by
      have h₁ := newline_notMem_of_kept hvar
      have h₂ := newline_notMem_of_kept (kept_encoded hnewval)
      simp [h₁, h₂]
    -- the line is complete, so the encoder had room for the value
    have hfits : var.length + (pconfEncode newval smallbuf).length + 8 < smallbuf := by
      rw [setLine_eq] at hnl
      have hlen := newline_of_cut hbody hnl
      simp at hlen
      omega
    have hroom : (escape newval).length < smallbuf := by
      by_contra h
      have hle := @le_length_pconfEncode newval smallbuf (by omega)
      omega
    rw [pconfEncode_fits hroom] at hfits hbody
    refine ⟨?_, hfits⟩
    have hline : setLine var newval =
        ("SET".toList ++ ' ' :: (var ++ ' ' :: '"' :: (escape newval ++ ['"']))) ++ ['\n'] := by
      rw [setLine_eq, pconfEncode_fits hroom, snprintf_of_lt]
      simp
      omega
    rw [hline] at hdoes
    obtain ⟨ws, d, hreads, hhead, harg⟩ := reads_of_does hbody hdoes (by simp)
    have hafter := reads_after plainWord_set hreads
    obtain ⟨rest, rfl⟩ : ["SET".toList] <+: ws := words_kept hafter
    rw [List.singleton_append, sockArg_set rfl] at harg
    have hlong := length_le_escape newval
    have hbuf : smallbuf = 512 := rfl
    have hword : pconfDefaultWordlenLimit = 512 := rfl
    rcases rest with _ | ⟨a, _ | ⟨b, rest⟩⟩
    · simp [hhead] at harg
    · simp [hhead] at harg
    · obtain ⟨rfl, rfl⟩ : a = var ∧ b = newval := by simpa using harg
      refine @plain_of_quoted_escape "SET".toList a b start _ hvar hnewval (by omega) ?_ ⟨b :: rest, rfl⟩ (by simp)
      have hquote : a ++ (' ' :: '"' :: (escape b ++ ['"', '\n'])) = (a ++ ' ' :: '"' :: (escape b ++ ['"'])) ++ ['\n'] := by
        simp
      rw [hquote]
      exact hafter
  · rintro ⟨hplain, hlen⟩
    obtain ⟨body, hbody, hline, hreads⟩ := reads_setLine hplain hnewval hlen
    rw [hline]
    refine ⟨⟨body, hbody, rfl⟩, fun upsh setvar hset => driverDoes_of_reads hreads fun w fd d B => ?_⟩
    rw [sockArg_set hset]

end

/-! ### The line for `INSTCMD` -/

section

variable {cmdname : CStr} {value : Option CStr}

private theorem instcmdLine_some (cmdname v : CStr) : instcmdLine cmdname (some v) =
    snprintf smallbuf (("INSTCMD".toList ++ ' ' :: (cmdname ++ ' ' :: pconfEncode v smallbuf)) ++ ['\n']) := by
  unfold instcmdLine
  dsimp only
  congr 1
  simp only [List.append_assoc, List.cons_append]
  rfl

private theorem instcmdLine_none (cmdname : CStr) : instcmdLine cmdname none =
    snprintf smallbuf (("INSTCMD".toList ++ ' ' :: cmdname) ++ ['\n']) := by
  unfold instcmdLine
  dsimp only
  congr 1

private theorem words_of_intact {rest : CStr} (hrest : '\n' ∉ rest)
    (h : InstcmdIntact (snprintf smallbuf (("INSTCMD".toList ++ ' ' :: rest) ++ ['\n'])) cmdname value) :
    rest.length + 9 < smallbuf ∧ ∃ ws, ReadsAs Lexer.step ⟨["INSTCMD".toList], [], .between⟩ (rest ++ ['\n']) Lexer.start
      ("INSTCMD".toList :: cmdname :: ws) ∧ ws.head? = value := by
  have hdoes := h.2 recorder _ rfl
  have hbody : '\n' ∉ "INSTCMD".toList ++ ' ' :: rest := by simp [hrest]
  have hlen := newline_of_cut hbody (newline_of_does hdoes (by simp))
  rw [snprintf_of_lt (by simp at hlen ⊢; omega)] at hdoes
  refine ⟨by simp at hlen; omega, ?_⟩
  obtain ⟨ws, d, hreads, hhead, harg⟩ := reads_of_does hbody hdoes (by simp)
  have hafter := reads_after plainWord_instcmd hreads
  obtain ⟨rest', rfl⟩ : ["INSTCMD".toList] <+: ws := words_kept hafter
  rw [List.singleton_append, sockArg_instcmd rfl] at harg
  rcases rest' with _ | ⟨a, ws⟩
  · simp [hhead] at harg
  · obtain ⟨rfl, hvalue⟩ := List.cons.inj harg
    refine ⟨ws, hafter, ?_⟩
    rcases hhead? : ws.head? with _ | v <;> rcases value with _ | v' <;> simp_all

private theorem intact_of_reads {rest : CStr} {ws : List CStr} (hrest : '\n' ∉ rest) (hlen : rest.length + 9 < smallbuf)
    (h : ReadsAs Lexer.step ⟨["INSTCMD".toList], [], .between⟩ (rest ++ ['\n']) Lexer.start
      ("INSTCMD".toList :: cmdname :: ws)) :
    InstcmdIntact (snprintf smallbuf (("INSTCMD".toList ++ ' ' :: rest) ++ ['\n'])) cmdname ws.head? := by
  rw [snprintf_of_lt (by simp; omega)]
  refine ⟨⟨_, by simp [hrest], rfl⟩, fun upsh instcmd hinstcmd => ?_⟩
  have hsplit : ("INSTCMD".toList ++ ' ' :: rest) ++ ['\n'] = ("INSTCMD".toList ++ [' ']) ++ (rest ++ ['\n']) := by simp
  have hreads := ReadsAs.of_silent (silent_keyword plainWord_instcmd) h
  rw [← hsplit] at hreads
  refine driverDoes_of_reads hreads fun w fd d B => ?_
  rw [sockArg_instcmd hinstcmd]

private theorem instcmd_intact_none (hcmd : Kept cmdname) :
    InstcmdIntact (instcmdLine cmdname none) cmdname none ↔ PlainWord cmdname ∧ cmdname.length + 9 < smallbuf := by
  rw [instcmdLine_none]
  have hbuf : smallbuf = 512 := rfl
  have hword : pconfDefaultWordlenLimit = 512 := rfl
  constructor
  · intro h
    obtain ⟨hfits, ws, hreads, -⟩ := words_of_intact (newline_notMem_of_kept hcmd) h
    exact ⟨plain_of_first hcmd (by omega) hreads (by simp) (.inr rfl) (by simp) (by simp) ⟨ws, rfl⟩ rfl, hfits⟩
  · rintro ⟨hplain, hfits⟩
    exact @intact_of_reads cmdname cmdname [] (newline_notMem_of_kept hcmd) hfits
      (readsAs_word ["INSTCMD".toList] hplain (by omega) (by simp [pconfDefaultArgLimit]))

private theorem instcmd_intact_some (hcmd : Kept cmdname) {v : CStr} (hv : Kept v) :
    InstcmdIntact (instcmdLine cmdname (some v)) cmdname (some v) ↔
      PlainWord cmdname ∧ Bare v ∧ cmdname.length + (escape v).length + 10 < smallbuf := by
  rw [instcmdLine_some]
  have hlong := length_le_escape v
  have hbuf : smallbuf = 512 := rfl
  have hword : pconfDefaultWordlenLimit = 512 := rfl
  have hnl : '\n' ∉ cmdname ++ ' ' :: pconfEncode v smallbuf := by
    have h₁ := newline_notMem_of_kept hcmd
    have h₂ := newline_notMem_of_kept (kept_encoded hv)
    simp [h₁, h₂]
  constructor
  · intro h
    obtain ⟨hfits, ws, hreads, hws⟩ := words_of_intact hnl h
    have hroom : (escape v).length < smallbuf := by
      by_contra hroom
      have hle := @le_length_pconfEncode v smallbuf (by omega)
      simp at hfits
      omega
    rw [pconfEncode_fits hroom] at hfits hreads
    have hlen : cmdname.length + (escape v).length + 10 < smallbuf := by simp at hfits; omega
    obtain ⟨ws', rfl⟩ : ∃ ws', ws = v :: ws' := by
      rcases ws with _ | ⟨a, ws'⟩
      · simp at hws
      · exact ⟨ws', by rw [Option.some.inj hws]⟩
    rw [List.append_assoc, List.cons_append] at hreads
    obtain ⟨hplain, hbare⟩ := plain_of_bare_escape hcmd hv (by omega) hreads ⟨ws', rfl⟩
    exact ⟨hplain, hbare, hlen⟩
  · rintro ⟨hplain, hbare, hlen⟩
    rw [pconfEncode_fits (by omega)] at hnl ⊢
    refine @intact_of_reads cmdname _ [v] hnl (by simp; omega) ?_
    obtain ⟨l, hl, -, hend⟩ := silent_escaped ["INSTCMD".toList, cmdname] hv hbare (by omega) (by simp [pconfDefaultArgLimit])
    have hsplit : (cmdname ++ ' ' :: escape v) ++ ['\n'] = (cmdname ++ [' ']) ++ (escape v ++ ['\n']) := by simp
    rw [hsplit]
    exact .of_silent (silent_word _ hplain (by omega) (by simp [pconfDefaultArgLimit])) ⟨_, _, l, rfl, hl, hend⟩

/-- An accepted `INSTCMD` reaches the driver intact exactly if the name of the command is a plain word, the line fits the
buffer that it is written to, and a value is one word when its special characters are escaped. -/
theorem instcmd_intact_iff {w : Writes} {s : Upsd} {client : NutCtype} {upsname : CStr}
    (haccepted : InstcmdAccepted w s client upsname cmdname) (hcmd : Kept cmdname)
    (hvalue : ∀ v, value = some v → Kept v) :
    InstcmdIntact (forwarded s (sendInstcmd w s client upsname cmdname value) upsname) cmdname value ↔
      PlainWord cmdname ∧ (value = none → cmdname.length + 9 < smallbuf) ∧
        ∀ v, value = some v → Bare v ∧ cmdname.length + (escape v).length + 10 < smallbuf := by
  rw [sendInstcmd_forwarded haccepted]
  cases value with
  | none => simp [instcmd_intact_none hcmd]
  | some v => simp [instcmd_intact_some hcmd (hvalue v rfl)]

end

/-! ### A variable and a command -/

/-- The user may set variables and issue commands. -/
def forwardUps : Files :=
  { oneUps with upsdUsers := some [["[a]".toList], ["password".toList, "=".toList, "b".toList],
      ["actions".toList, "=".toList, "SET".toList], ["instcmds".toList, "=".toList, "ALL".toList]] }

def forwardUpsServer : Upsd :=
  (upsdStart oneDriver forwardUps 256 [] [] "2.6".toList).getD ⟨[], [], [], 0, 0, [], [], []⟩

/-- The driver has a variable that can be set and a command, and the client is there. -/
def forwardEvents : List Event :=
  [.driver "u".toList 100 (.data ("SETINFO v \"1\"\nSETFLAGS v RW\nADDCMD c\nDATAOK\nDUMPDONE\n".toList)),
    .accept 7 100 "127.0.0.1".toList]

def forwardServer : Upsd :=
  (((forwardUpsServer.run forwardEvents).getD forwardUpsServer).enter ["USERNAME".toList, "a".toList]).enter
    ["PASSWORD".toList, "b".toList]

def forwardRecord : Upstype := forwardServer.firstups.headD (newUps [] [] none)

def forwardClient : NutCtype := (forwardServer.client 7).getD ⟨[], 7, 0, none, none, none, pconfInit, []⟩

/-- The daemon starts, and reads what the driver and the client send. -/
private theorem forwardServer_runs : upsdStart oneDriver forwardUps 256 [] [] "2.6".toList = some forwardUpsServer ∧
    (forwardUpsServer.run forwardEvents).isSome = true := by decide +kernel

theorem stage_forwardServer : forwardServer.Stage := by
  obtain ⟨hstart, hrun⟩ := forwardServer_runs
  obtain ⟨s, hs⟩ := Option.isSome_iff_exists.1 hrun
  have hread : forwardUpsServer.run forwardEvents = some ((forwardUpsServer.run forwardEvents).getD forwardUpsServer) := by
    rw [hs, Option.getD_some]
  exact ((Upsd.Stage.run (.init ⟨_, _, _, _, _, _, hstart⟩) hread).enter _).enter _

/-- What is known there of the UPS, of its variable and its command, and of the user. -/
private theorem forwardServer_knows : getUpsPtr forwardServer "u".toList = some forwardRecord ∧ forwardRecord.Available ∧
    userCheckaction forwardServer.users forwardClient.username forwardClient.password "SET".toList = true ∧
    sstateGetinfo forwardRecord "v".toList ≠ none ∧ sstateGetflags forwardRecord "v".toList &&& stFlagRw ≠ 0 ∧
    sstateGetflags forwardRecord "v".toList &&& stFlagString = 0 ∧ sstateGetenumlist forwardRecord "v".toList = [] ∧
    sstateGetrangelist forwardRecord "v".toList = [] ∧
    (∃ name ∈ sstateGetcmdlist forwardRecord, strcasecmp name "c".toList = .eq) ∧
    userCheckinstcmd forwardServer.users forwardClient.username forwardClient.password "c".toList = true := by
  decide +kernel

private theorem badValue_of_free {ups : Upstype} {var : CStr} (hflags : sstateGetflags ups var &&& stFlagString = 0)
    (henum : sstateGetenumlist ups var = []) (hrange : sstateGetrangelist ups var = []) (newval : CStr) :
    badValue ups var newval = none := by
  unfold badValue
  simp [hflags, henum, hrange]

/-- The variable takes every value. -/
theorem setAccepted_forward (newval : CStr) :
    SetAccepted allWritten forwardServer forwardClient "u".toList "v".toList newval := by
  obtain ⟨hfound, havail, hright, hknown, hwritable, hstring, henum, hrange, -⟩ := forwardServer_knows
  exact ⟨forwardRecord, hfound, havail, ⟨hright, hknown, hwritable, badValue_of_free hstring henum hrange newval⟩, rfl⟩

theorem instcmdAccepted_forward : InstcmdAccepted allWritten forwardServer forwardClient "u".toList "c".toList := by
  obtain ⟨hfound, havail, -, -, -, -, -, -, hcmd, hright⟩ := forwardServer_knows
  exact ⟨forwardRecord, hfound, havail, hcmd, hright, rfl⟩

theorem set_intact_plain : SetIntact (forwarded forwardServer
    (setVar allWritten forwardServer forwardClient "u".toList "v".toList "a#\"b".toList) "u".toList) "v".toList
      "a#\"b".toList :=
  (set_intact_iff (setAccepted_forward _) (by decide) (by decide)).2 (by decide)

/-- A long value leaves no room for the newline. -/
theorem set_long_cut : forwardServer.Stage ∧
    ¬(∀ newval, SetAccepted allWritten forwardServer forwardClient "u".toList "v".toList newval → Kept newval →
      newval.length ≤ pconfDefaultWordlenLimit → SetIntact (forwarded forwardServer
        (setVar allWritten forwardServer forwardClient "u".toList "v".toList newval) "u".toList) "v".toList newval) := by
  refine ⟨stage_forwardServer, fun hall => ?_⟩
  have hkept : Kept (List.replicate 503 'a') := fun c hc => by rw [List.eq_of_mem_replicate hc]; rfl
  have hescape : escape (List.replicate 503 'a') = List.replicate 503 'a' :=
    escape_of_forall fun c hc => by rw [List.eq_of_mem_replicate hc]; rfl
  have hword : (List.replicate 503 'a').length ≤ pconfDefaultWordlenLimit := by
    rw [List.length_replicate]
    decide
  have h := hall _ (setAccepted_forward _) hkept hword
  have hlen := ((set_intact_iff (setAccepted_forward _) (by decide) hkept).1 h).2
  rw [hescape, List.length_replicate] at hlen
  exact absurd hlen (by decide)

theorem instcmd_intact_plain : InstcmdIntact (forwarded forwardServer
    (sendInstcmd allWritten forwardServer forwardClient "u".toList "c".toList (some "a#\"b".toList)) "u".toList) "c".toList
      (some "a#\"b".toList) :=
  (instcmd_intact_iff instcmdAccepted_forward (by decide) (by rintro v ⟨⟩; decide)).2
    ⟨by decide, by rintro ⟨⟩, by rintro v ⟨⟩; decide⟩

/-- Of a value of two words the driver gets the first, and of an empty value it gets none. -/
theorem instcmd_blank_lost : forwardServer.Stage ∧
    InstcmdAccepted allWritten forwardServer forwardClient "u".toList "c".toList ∧
    ¬InstcmdIntact (forwarded forwardServer
      (sendInstcmd allWritten forwardServer forwardClient "u".toList "c".toList (some "a b".toList)) "u".toList) "c".toList
        (some "a b".toList) ∧
    ¬InstcmdIntact (forwarded forwardServer
      (sendInstcmd allWritten forwardServer forwardClient "u".toList "c".toList (some [])) "u".toList) "c".toList
        (some []) := by
  refine ⟨stage_forwardServer, instcmdAccepted_forward, fun h => ?_, fun h => ?_⟩
  · have hbare := ((instcmd_intact_iff instcmdAccepted_forward (by decide) (by rintro v ⟨⟩; decide)).1 h).2.2 _ rfl
    exact absurd hbare.1 (by decide)
  · have hbare := ((instcmd_intact_iff instcmdAccepted_forward (by decide) (by rintro v ⟨⟩; decide)).1 h).2.2 _ rfl
    exact absurd hbare.1 (by decide)

end Nut
