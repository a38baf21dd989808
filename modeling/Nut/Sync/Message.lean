import Nut.Common.StateTree
import Nut.Server.Sstate

/-!
# The messages between driver and server

The lines that a driver sends, as messages with their meaning for the mirror that the server keeps.

* `parseArgs_words`: `parseArgs` does to the record what the message says;
* `reads_setinfo`, ...: the texts that the driver writes are read as these messages, whatever precedes them;
* `Receives.read`: the server, reading any part of a stream of messages, executes those it has completed.
-/

namespace Nut

open ChunkReader Lexer

inductive Message where
  | pong
  | dumpdone
  | datastale
  | dataok
  | addcmd (cmd : CStr)
  | delcmd (cmd : CStr)
  | delinfo (var : CStr)
  | setflags (var flag : CStr) (flags : List CStr)
  | noflags (var : CStr)
  | setinfo (var val : CStr)
  | addenum (var val : CStr)
  | addrange (var min max : CStr)
  | delenum (var val : CStr)
  | setaux (var aux : CStr)
  deriving DecidableEq

/-- What the server knows of the state of a driver. -/
structure Mirror where
  inforoot : StTree
  cmdlist : List CStr
  dataOk : Bool
  dumpdone : Bool

namespace Message

def words : Message → List CStr
  | pong => ["PONG".toList]
  | dumpdone => ["DUMPDONE".toList]
  | datastale => ["DATASTALE".toList]
  | dataok => ["DATAOK".toList]
  | addcmd cmd => ["ADDCMD".toList, cmd]
  | delcmd cmd => ["DELCMD".toList, cmd]
  | delinfo var => ["DELINFO".toList, var]
  | setflags var flag flags => "SETFLAGS".toList :: var :: flag :: flags
  | noflags var => ["SETFLAGS".toList, var]
  | setinfo var val => ["SETINFO".toList, var, val]
  | addenum var val => ["ADDENUM".toList, var, val]
  | addrange var min max => ["ADDRANGE".toList, var, min, max]
  | delenum var val => ["DELENUM".toList, var, val]
  | setaux var aux => ["SETAUX".toList, var, aux]

/-- The change of the mirror that a message stands for. -/
def exec (m : Mirror) : Message → Mirror
  | pong => m
  | dumpdone => { m with dumpdone := true }
  | datastale => { m with dataOk := false }
  | dataok => { m with dataOk := true }
  | addcmd cmd => { m with cmdlist := (stateAddcmd m.cmdlist cmd).1 }
  | delcmd cmd => { m with cmdlist := (stateDelcmd m.cmdlist cmd).1 }
  | delinfo var => { m with inforoot := (stateDelinfo m.inforoot var).1 }
  | setflags var flag flags => { m with inforoot := stateSetflags m.inforoot var (flag :: flags) }
  | noflags _ => m
  | setinfo var val => { m with inforoot := (stateSetinfo m.inforoot var val).1 }
  | addenum var val => { m with inforoot := (stateAddenum m.inforoot var val).1 }
  | addrange var min max => { m with inforoot := (stateAddrange m.inforoot var (atoi min) (atoi max)).1 }
  | delenum var val => { m with inforoot := (stateDelenum m.inforoot var val).1 }
  | setaux var aux => { m with inforoot := (stateSetaux m.inforoot var aux).1 }

/-- The server rejects `SETFLAGS` without a flag. -/
def known : Message → Bool
  | noflags _ => false
  | _ => true

end Message

namespace Upstype

def mirror (ups : Upstype) : Mirror where
  inforoot := ups.inforoot
  cmdlist := ups.cmdlist
  dataOk := ups.dataOk
  dumpdone := ups.dumpdone

def setMirror (ups : Upstype) (m : Mirror) : Upstype :=
  { ups with inforoot := m.inforoot, cmdlist := m.cmdlist, dataOk := m.dataOk, dumpdone := m.dumpdone }

@[simp] theorem mirror_setMirror (ups : Upstype) (m : Mirror) : (ups.setMirror m).mirror = m := rfl

end Upstype

/-- The words of a message are executed as it says, whatever the other slots hold. -/
theorem parseArgs_words (ups : Upstype) (m : Message) (A : List CStr) :
    parseArgs ups m.words.length (m.words ++ A) = some (ups.setMirror (m.exec ups.mirror), m.known) := by
  cases m
  case setflags var flag flags =>
    have htake : ((("SETFLAGS".toList :: var :: flag :: flags) ++ A).take (flags.length + 3)).drop 2 =
        flag :: flags := by simp
    unfold parseArgs Message.words
    rw [List.length_cons, List.length_cons, List.length_cons, htake]
    simp only [List.cons_append, List.getD_cons_zero, List.getD_cons_succ]
    rw [if_neg (by omega), if_neg (by decide), if_neg (by decide), if_neg (by decide), if_neg (by decide),
      if_neg (by omega), if_neg (by decide), if_neg (by decide), if_neg (by decide), if_neg (by omega),
      if_pos (by decide)]
    rfl
  all_goals rfl

/-! ### Reading messages -/

/-- The server has yet to read `chan`, which holds the messages `ms`. -/
def Receives (ups : Upstype) (chan : CStr) (ms : List Message) : Prop :=
  ups.sockFd ≠ none ∧ ∃ A l, Loaded A l ups.sockCtx ∧
    Pending Lexer.step Lexer.start l chan (ms.map Message.words)

private theorem foldl_sstateLine (now : Int) (A : List CStr) (ups : Upstype) (ms : List Message) :
    ∃ ups', (overlays A (ms.map Message.words)).foldl (fun s l => sstateLine now s l.1 l.2) (some ups) = some ups' ∧
      ups'.mirror = ms.foldl Message.exec ups.mirror ∧ ups'.sockFd = ups.sockFd := by
  induction ms generalizing A ups with
  | nil => exact ⟨ups, rfl, rfl, rfl⟩
  | cons m ms ih =>
    obtain ⟨u, hline, hmirror, hfd⟩ : ∃ u,
        sstateLine now (some ups) m.words.length (m.words ++ A.drop m.words.length) = some u ∧
          u.mirror = m.exec ups.mirror ∧ u.sockFd = ups.sockFd := by
      simp only [sstateLine, parseArgs_words, Option.bind_some, Option.map_some]
      cases m.known
      · exact ⟨_, rfl, rfl, rfl⟩
      · exact ⟨_, rfl, rfl, rfl⟩
    rw [List.map_cons, overlays, List.foldl_cons, hline, List.foldl_cons, ← hmirror, ← hfd]
    exact ih _ u

theorem sstateReadline_data {ups : Upstype} (hfd : ups.sockFd ≠ none) (now : Int) (buf : CStr) :
    sstateReadline now ups (.data buf) =
      (((readChunk pconfStep ups.sockCtx buf).2.foldl (fun s l => sstateLine now s l.1 l.2) (some ups)).map fun u =>
        { u with sockCtx := (readChunk pconfStep ups.sockCtx buf).1 }) := by
  obtain ⟨fd, hsome⟩ := Option.ne_none_iff_exists'.1 hfd
  unfold sstateReadline
  rw [hsome]
  simp only [readLoop_eq]

/-- Reading a part of the channel executes the messages that it completes. -/
theorem Receives.read {ups : Upstype} {buf chan : CStr} {ms : List Message} (h : Receives ups (buf ++ chan) ms)
    (now : Int) :
    ∃ ups' ms₁ ms₂, sstateReadline now ups (.data buf) = some ups' ∧ ms = ms₁ ++ ms₂ ∧
      ups'.mirror = ms₁.foldl Message.exec ups.mirror ∧ ups'.sockFd = ups.sockFd ∧ Receives ups' chan ms₂ := by
  obtain ⟨hfd, A, l, hl, hp⟩ := h
  obtain ⟨ys, hms, -, hrest⟩ := hp.split
  obtain ⟨ms₁, ms₂, rfl, h₁, h₂⟩ := List.map_eq_append_iff.1 hms
  obtain ⟨hitems, ⟨A', hl'⟩, -⟩ := readChunk_overlays hl buf
  obtain ⟨ups', hfold, hmirror, hsock⟩ := foldl_sstateLine now A ups ms₁
  refine ⟨{ ups' with sockCtx := (readChunk pconfStep ups.sockCtx buf).1 }, ms₁, ms₂, ?_, rfl, hmirror, hsock, ?_⟩
  · rw [sstateReadline_data hfd, hitems, ← h₁, hfold, Option.map_some]
  · exact ⟨hsock ▸ hfd, A', _, hl', h₂ ▸ hrest⟩

theorem Receives.append {ups : Upstype} {chan text : CStr} {ms : List Message} {m : Message}
    (h : Receives ups chan ms) (hm : ReadsAs Lexer.step Lexer.start text Lexer.start m.words) :
    Receives ups (chan ++ text) (ms ++ [m]) := by
  obtain ⟨hfd, A, l, hl, hp⟩ := h
  refine ⟨hfd, A, l, hl, ?_⟩
  rw [List.map_append]
  exact hp.append hm

theorem Receives.start {ups : Upstype} (hfd : ups.sockFd ≠ none) (h : AtLineStart ups.sockCtx) :
    Receives ups [] [] := ⟨hfd, _, _, h, Pending.nil _ _⟩

theorem Receives.drained {ups : Upstype} {ms : List Message} (h : Receives ups [] ms) :
    ms = [] ∧ AtLineStart ups.sockCtx := by
  obtain ⟨-, A, l, hl, hp⟩ := h
  obtain ⟨rfl, hms⟩ := hp.eq_nil
  exact ⟨List.map_eq_nil_iff.1 hms, hl.atLineStart⟩

/-- Successive reads of the socket, each at its own time. -/
def sstateReads (ups : Upstype) : List (Int × CStr) → Option Upstype
  | [] => some ups
  | (now, buf) :: reads => (sstateReadline now ups (.data buf)).bind fun ups => sstateReads ups reads

theorem sstateReads_one (ups : Upstype) (now : Int) (buf : CStr) :
    sstateReads ups [(now, buf)] = sstateReadline now ups (.data buf) := by
  simp [sstateReads]

/-- However the messages are cut, the server executes them all. -/
theorem Receives.reads {ups : Upstype} {reads : List (Int × CStr)} {ms : List Message}
    (h : Receives ups (reads.map Prod.snd).flatten ms) :
    ∃ ups', sstateReads ups reads = some ups' ∧ ups'.mirror = ms.foldl Message.exec ups.mirror ∧
      ups'.sockFd = ups.sockFd ∧ AtLineStart ups'.sockCtx := by
  induction reads generalizing ups ms with
  | nil =>
    obtain ⟨rfl, hline⟩ := h.drained
    exact ⟨ups, rfl, rfl, rfl, hline⟩
  | cons r reads ih =>
    obtain ⟨ups₁, ms₁, ms₂, hread, rfl, hm₁, hfd₁, h₁⟩ := Receives.read h r.1
    obtain ⟨ups', hreads, hm, hfd, hline⟩ := ih h₁
    refine ⟨ups', ?_, ?_, hfd.trans hfd₁, hline⟩
    · show (sstateReadline r.1 ups (.data r.2)).bind _ = _
      rw [hread, Option.bind_some, hreads]
    · rw [hm, hm₁, List.foldl_append]

/-! ### The texts of the messages -/

/-- A text that is read as one word and fits the word limit. -/
def IsWord (w : CStr) : Prop := PlainWord w ∧ w.length ≤ pconfDefaultWordlenLimit

instance (w : CStr) : Decidable (IsWord w) := inferInstanceAs (Decidable (_ ∧ _))

/-- A name is a word if it is one in another case. -/
theorem isWord_of_strcasecmp {v w : CStr} (h : strcasecmp v w = .eq) (hv : IsWord v) : IsWord w := by
  rw [strcasecmp_eq] at h
  have hlen : w.length = v.length := by
    rw [← length_tolower, ← h, length_tolower]
  have hsame {c : Char} (hc : c ∈ w) : ∃ d ∈ v, d.toLower = c.toLower := by
    have hmem : c.toLower ∈ tolower v := h ▸ List.mem_map_of_mem hc
    exact List.mem_map.1 hmem
  refine ⟨?_, hlen ▸ hv.2⟩
  rcases hv.1 with rfl | ⟨hne, hquote, hplain⟩
  · obtain ⟨c, rfl⟩ := List.length_eq_one_iff.1 hlen
    obtain ⟨d, hd, hlow⟩ := hsame (List.mem_singleton_self c)
    rw [List.mem_singleton.1 hd] at hlow
    exact .inl (congrArg (fun c => [c]) (toLower_eq hlow.symm (.inl (by decide))))
  · refine .inr ⟨?_, ?_, ?_⟩
    · intro hnil
      exact hne (List.length_eq_zero_iff.1 (by rw [← hlen, hnil]; rfl))
    · intro hhead
      obtain ⟨c, v, rfl⟩ := List.exists_cons_of_ne_nil hne
      obtain ⟨w, rfl⟩ : ∃ w', w = '"' :: w' := by
        cases w with
        | nil => cases hhead
        | cons d w => exact ⟨w, by rw [Option.some.inj hhead]⟩
      have hfirst : c.toLower = '"' := (List.cons.inj h).1
      exact hquote (congrArg some (toLower_eq hfirst (.inl (by decide))))
    · intro c hc
      obtain ⟨d, hd, hlow⟩ := hsame hc
      rw [← plainChar_toLower, ← hlow, plainChar_toLower]
      exact hplain d hd

/-- Words with a space after each. -/
def spaced (ws : List CStr) : CStr := ws.flatMap fun w => w ++ [' ']

theorem silent_spaced (ws₀ : List CStr) {ws : List CStr} (h : ∀ w ∈ ws, IsWord w)
    (hlen : ws₀.length + ws.length ≤ pconfDefaultArgLimit) :
    silent Lexer.step ⟨ws₀, [], .between⟩ (spaced ws) = some ⟨ws₀ ++ ws, [], .between⟩ := by
  induction ws generalizing ws₀ with
  | nil => simp [spaced, silent]
  | cons w ws ih =>
    rw [List.length_cons] at hlen
    have hw := h w (by simp)
    have hrest := ih (ws₀ ++ [w]) (fun v hv => h v (by simp [hv])) (by simp; omega)
    rw [spaced, List.flatMap_cons, silent_append (silent_word ws₀ hw.1 hw.2 (by omega))]
    rw [List.append_assoc] at hrest
    exact hrest

/-- Words and a last word. -/
theorem reads_words {ws : List CStr} {w : CStr} (h : ∀ v ∈ ws, IsWord v) (hw : IsWord w)
    (hlen : ws.length < pconfDefaultArgLimit) :
    ReadsAs Lexer.step Lexer.start (spaced ws ++ (w ++ ['\n'])) Lexer.start (ws ++ [w]) :=
  .of_silent (silent_spaced [] h (by simp; omega)) (readsAs_word ws hw.1 hw.2 hlen)

/-- Words and a last word in quotes. -/
theorem reads_quoted {ws : List CStr} {val : CStr} (h : ∀ v ∈ ws, IsWord v) (hval : Kept val)
    (hl : val.length ≤ pconfDefaultWordlenLimit) (hlen : ws.length < pconfDefaultArgLimit) :
    ReadsAs Lexer.step Lexer.start (spaced ws ++ (('"' :: escape val ++ ['"']) ++ ['\n'])) Lexer.start
      (ws ++ [val]) := by
  refine .of_silent (silent_spaced [] h (by simp; omega)) (.of_silent ?_ (readsAs_newline _))
  exact silent_quoted ws hval hl hlen

private theorem plainWord_formatInt (i : Int32) : PlainWord (formatInt i) := by
  refine .inr ⟨formatInt_ne_nil i, ?_, ?_⟩
  · intro hq
    rcases mem_formatInt (List.mem_of_mem_head? hq) with h | h
    · simp at h
    · exact absurd h (by decide)
  · intro c hc
    rcases mem_formatInt hc with rfl | h
    · decide
    · obtain ⟨h1, h2⟩ := isDigit_bounds h
      have h3 : c ≠ '#' := by rintro rfl; simp at h1
      have h4 : c ≠ '\\' := by rintro rfl; simp at h2
      have h5 : c ≠ '=' := by rintro rfl; simp at h2
      simp only [plainChar, h3, h4, h5, ne_eq, not_false_eq_true, decide_true, Bool.and_true, Bool.and_eq_true,
        decide_eq_true_eq]
      omega

private theorem length_toDigits_le {n k : Nat} (h : n < 10 ^ (k + 1)) : (Nat.toDigits 10 n).length ≤ k + 1 := by
  rw [Nat.length_toDigits_le_iff (by omega) (by omega)]
  exact h

theorem length_formatInt (i : Int32) : (formatInt i).length ≤ 11 := by
  have hlt := i.toInt_lt
  have hle := i.le_toInt
  have hdigits : (Nat.toDigits 10 i.toInt.natAbs).length ≤ 9 + 1 := length_toDigits_le (by omega)
  unfold formatInt
  split
  · rw [List.length_cons]; omega
  · omega

theorem isWord_formatInt (i : Int32) : IsWord (formatInt i) := by
  refine ⟨plainWord_formatInt i, ?_⟩
  have hlen := length_formatInt i
  unfold pconfDefaultWordlenLimit
  omega

section Lines

variable {var val : CStr}

theorem reads_keyword {kw : CStr} (hkw : IsWord kw) :
    ReadsAs Lexer.step Lexer.start (kw ++ "\n".toList) Lexer.start [kw] :=
  readsAs_word [] hkw.1 hkw.2 (by decide)

theorem reads_line_word {kw w : CStr} (hkw : IsWord kw) (hw : IsWord w) :
    ReadsAs Lexer.step Lexer.start (kw ++ " ".toList ++ w ++ "\n".toList) Lexer.start [kw, w] := by
  have h := @reads_words [kw] w (by simp [hkw]) hw (by simp [pconfDefaultArgLimit])
  simpa [spaced] using h

theorem reads_line_quoted {kw : CStr} (hkw : IsWord kw) (hvar : IsWord var) (hval : Kept val)
    (hl : val.length ≤ pconfDefaultWordlenLimit) :
    ReadsAs Lexer.step Lexer.start (kw ++ " ".toList ++ var ++ " \"".toList ++ escape val ++ "\"\n".toList)
      Lexer.start [kw, var, val] := by
  have h := @reads_quoted [kw, var] val (by simp [hkw, hvar]) hval hl (by simp [pconfDefaultArgLimit])
  simpa [spaced] using h

theorem reads_setinfo (hvar : IsWord var) (hval : Kept val) (hl : val.length ≤ pconfDefaultWordlenLimit) :
    ReadsAs Lexer.step Lexer.start ("SETINFO ".toList ++ var ++ " \"".toList ++ escape val ++ "\"\n".toList)
      Lexer.start (Message.setinfo var val).words :=
  @reads_line_quoted var val "SETINFO".toList (by decide) hvar hval hl

theorem reads_addenum (hvar : IsWord var) (hval : Kept val) (hl : val.length ≤ pconfDefaultWordlenLimit) :
    ReadsAs Lexer.step Lexer.start ("ADDENUM ".toList ++ var ++ " \"".toList ++ escape val ++ "\"\n".toList)
      Lexer.start (Message.addenum var val).words :=
  @reads_line_quoted var val "ADDENUM".toList (by decide) hvar hval hl

theorem reads_delenum (hvar : IsWord var) (hval : Kept val) (hl : val.length ≤ pconfDefaultWordlenLimit) :
    ReadsAs Lexer.step Lexer.start ("DELENUM ".toList ++ var ++ " \"".toList ++ escape val ++ "\"\n".toList)
      Lexer.start (Message.delenum var val).words :=
  @reads_line_quoted var val "DELENUM".toList (by decide) hvar hval hl

theorem reads_addcmd {cmd : CStr} (hcmd : IsWord cmd) :
    ReadsAs Lexer.step Lexer.start ("ADDCMD ".toList ++ cmd ++ "\n".toList) Lexer.start (Message.addcmd cmd).words :=
  @reads_line_word "ADDCMD".toList cmd (by decide) hcmd

theorem reads_delcmd {cmd : CStr} (hcmd : IsWord cmd) :
    ReadsAs Lexer.step Lexer.start ("DELCMD ".toList ++ cmd ++ "\n".toList) Lexer.start (Message.delcmd cmd).words :=
  @reads_line_word "DELCMD".toList cmd (by decide) hcmd

theorem reads_delinfo (hvar : IsWord var) :
    ReadsAs Lexer.step Lexer.start ("DELINFO ".toList ++ var ++ "\n".toList) Lexer.start
      (Message.delinfo var).words :=
  @reads_line_word "DELINFO".toList var (by decide) hvar

theorem reads_noflags (hvar : IsWord var) :
    ReadsAs Lexer.step Lexer.start ("SETFLAGS ".toList ++ var ++ "\n".toList) Lexer.start
      (Message.noflags var).words :=
  @reads_line_word "SETFLAGS".toList var (by decide) hvar

theorem reads_setaux (hvar : IsWord var) (aux : Int32) :
    ReadsAs Lexer.step Lexer.start ("SETAUX ".toList ++ var ++ " ".toList ++ formatInt aux ++ "\n".toList)
      Lexer.start (Message.setaux var (formatInt aux)).words := by
  have h := @reads_words ["SETAUX".toList, var] (formatInt aux) (by simp [hvar]; decide) (isWord_formatInt aux)
    (by simp [pconfDefaultArgLimit])
  simpa [spaced, Message.words] using h

/-- The range of a dump. -/
theorem reads_addrange (hvar : IsWord var) (min max : Int32) :
    ReadsAs Lexer.step Lexer.start
      ("ADDRANGE ".toList ++ var ++ " ".toList ++ formatInt min ++ " ".toList ++ formatInt max ++ "\n".toList)
      Lexer.start (Message.addrange var (formatInt min) (formatInt max)).words := by
  have h := @reads_words ["ADDRANGE".toList, var, formatInt min] (formatInt max)
    (by simp [hvar, isWord_formatInt]; decide) (isWord_formatInt max) (by simp [pconfDefaultArgLimit])
  simpa [spaced, Message.words] using h

/-- The range of a broadcast, which has two blanks after the variable. -/
theorem reads_addrange_broadcast (hvar : IsWord var) (min max : Int32) :
    ReadsAs Lexer.step Lexer.start
      ("ADDRANGE ".toList ++ var ++ "  ".toList ++ formatInt min ++ " ".toList ++ formatInt max ++ "\n".toList)
      Lexer.start (Message.addrange var (formatInt min) (formatInt max)).words := by
  have hvars : silent Lexer.step Lexer.start (spaced ["ADDRANGE".toList, var]) =
      some ⟨["ADDRANGE".toList, var], [], .between⟩ :=
    @silent_spaced [] ["ADDRANGE".toList, var] (by simp [hvar]; decide) (by simp [pconfDefaultArgLimit])
  have hblank : silent Lexer.step ⟨["ADDRANGE".toList, var], [], .between⟩ [' '] =
      some ⟨["ADDRANGE".toList, var], [], .between⟩ := rfl
  have hmin := @silent_spaced ["ADDRANGE".toList, var] [formatInt min] (by simp [isWord_formatInt])
    (by simp [pconfDefaultArgLimit])
  have hmax := readsAs_word ["ADDRANGE".toList, var, formatInt min] (isWord_formatInt max).1 (isWord_formatInt max).2
    (by simp [pconfDefaultArgLimit])
  have h := ReadsAs.of_silent hvars (.of_silent hblank (.of_silent hmin hmax))
  simpa [spaced, Message.words] using h

/-- The words for flags. -/
def flagWords (flags : BitVec 32) : List CStr :=
  (if flags &&& stFlagRw ≠ 0 then ["RW".toList] else []) ++
    (if flags &&& stFlagString ≠ 0 then ["STRING".toList] else [])

/-- A text that is not as long as the buffer allows was appended whole. -/
theorem snprintfcat_fits {dst text : CStr} {size : Nat} (h : (snprintfcat dst size text).length < size - 2) :
    snprintfcat dst size text = dst ++ text ∧ dst.length < size - 2 := by
  unfold snprintfcat snprintf at h ⊢
  rw [List.length_append, List.length_take] at h
  exact ⟨by rw [List.take_of_length_le (by omega)], by omega⟩

theorem flist_eq {flags : BitVec 32} (h : (flist var flags).length < smallbuf - 2) :
    flist var flags = var ++ (flagWords flags).flatMap fun w => ' ' :: w := by
  have hname (h : (snprintf smallbuf var).length < smallbuf - 2) : snprintf smallbuf var = var := by
    rw [snprintf, List.length_take] at h
    exact snprintf_of_lt (by omega)
  unfold flist flagWords at *
  by_cases h1 : flags &&& stFlagRw ≠ 0 <;> by_cases h2 : flags &&& stFlagString ≠ 0
  · simp only [if_pos h1, if_pos h2] at h ⊢
    obtain ⟨heq, h⟩ := snprintfcat_fits h
    obtain ⟨heq', h⟩ := snprintfcat_fits h
    rw [heq, heq', hname h]
    simp
  · simp only [if_pos h1, if_neg h2] at h ⊢
    obtain ⟨heq, h⟩ := snprintfcat_fits h
    rw [heq, hname h]
    simp
  · simp only [if_neg h1, if_pos h2] at h ⊢
    obtain ⟨heq, h⟩ := snprintfcat_fits h
    rw [heq, hname h]
    simp
  · simp only [if_neg h1, if_neg h2] at h ⊢
    rw [hname h]
    simp

private theorem and_stFlagRw (flags : BitVec 32) :
    flags &&& stFlagRw = 0 ∨ flags &&& stFlagRw = stFlagRw := by
  have h : stFlagRw = BitVec.twoPow 32 0 := by decide
  rw [h, BitVec.and_twoPow]
  split <;> simp

private theorem and_stFlagString (flags : BitVec 32) :
    flags &&& stFlagString = 0 ∨ flags &&& stFlagString = stFlagString := by
  have h : stFlagString = BitVec.twoPow 32 1 := by decide
  rw [h, BitVec.and_twoPow]
  split <;> simp

/-- The flags that the server learns of. -/
def stFlagSent : BitVec 32 := stFlagRw ||| stFlagString

private theorem and_stFlagSent (flags : BitVec 32) :
    flags &&& stFlagSent = (flags &&& stFlagRw) ||| (flags &&& stFlagString) := BitVec.and_or_distrib_left

theorem flagWords_eq_nil {flags : BitVec 32} : flagWords flags = [] ↔ flags &&& stFlagSent = 0 := by
  rw [and_stFlagSent]
  rcases and_stFlagRw flags with h1 | h1 <;> rcases and_stFlagString flags with h2 | h2 <;>
    simp only [flagWords, h1, h2] <;> decide

/-- The server gives a variable the flags that the words tell. -/
theorem foldl_setflag_flagWords (flags : BitVec 32) :
    (flagWords flags).foldl setflag 0 = flags &&& stFlagSent := by
  rw [and_stFlagSent]
  rcases and_stFlagRw flags with h1 | h1 <;> rcases and_stFlagString flags with h2 | h2 <;>
    simp only [flagWords, h1, h2] <;> decide

theorem isWord_flagWords (flags : BitVec 32) : ∀ w ∈ flagWords flags, IsWord w := by
  intro w hw
  have hmem : w = "RW".toList ∨ w = "STRING".toList := by
    unfold flagWords at hw
    split at hw <;> split at hw <;> simp at hw <;> grind
  rcases hmem with rfl | rfl <;> decide

private theorem exists_spaced (w : CStr) (ws : List CStr) :
    ∃ init last, w :: ws = init ++ [last] ∧ (w ++ ws.flatMap fun v => ' ' :: v) = spaced init ++ last := by
  induction ws generalizing w with
  | nil => exact ⟨[], w, rfl, by simp [spaced]⟩
  | cons v ws ih =>
    obtain ⟨init, last, h1, h2⟩ := ih v
    refine ⟨w :: init, last, by rw [h1, List.cons_append], ?_⟩
    rw [List.flatMap_cons, List.cons_append, h2]
    simp [spaced]

/-- Flags that include one of those the server learns of. -/
theorem reads_setflags {flags : BitVec 32} {flag : CStr} {rest : List CStr} (hvar : IsWord var)
    (hflags : flagWords flags = flag :: rest) (hfit : (flist var flags).length < smallbuf - 2) :
    ReadsAs Lexer.step Lexer.start ("SETFLAGS ".toList ++ flist var flags ++ "\n".toList) Lexer.start
      (Message.setflags var flag rest).words := by
  have hlen : (flagWords flags).length ≤ 2 := by
    unfold flagWords
    split <;> split <;> simp
  have hall : ∀ w ∈ var :: flagWords flags, IsWord w := by
    intro w hw
    rcases List.mem_cons.1 hw with rfl | hw
    · exact hvar
    · exact isWord_flagWords flags w hw
  obtain ⟨init, last, hsplit, htext⟩ := exists_spaced var (flagWords flags)
  have hwords : ∀ w ∈ "SETFLAGS".toList :: init, IsWord w := by
    intro w hw
    rcases List.mem_cons.1 hw with rfl | hw
    · decide
    · exact hall w (by rw [hsplit]; simp [hw])
  have hinit : init.length ≤ 2 := by
    have := congrArg List.length hsplit
    simp at this
    omega
  have h := @reads_words ("SETFLAGS".toList :: init) last hwords (hall last (by rw [hsplit]; simp))
    (by simp [pconfDefaultArgLimit]; omega)
  have hmsg : (Message.setflags var flag rest).words = "SETFLAGS".toList :: init ++ [last] := by
    rw [List.cons_append, ← hsplit, hflags]; rfl
  rw [hmsg, flist_eq hfit, htext]
  simpa [spaced] using h

end Lines

end Nut
