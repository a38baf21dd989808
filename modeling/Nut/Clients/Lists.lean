import Nut.Clients.Commands
import Nut.Clients.Readline
import Nut.Clients.Response

/-!
# The lists that a client reads

A client starts a list with `upscli_list_start` and calls `upscli_list_next` for as long as it returns 1 (`Iterates`).
The lines of a list that begin with the words of the query are answers, whatever follows these words; the line that begins
with `END LIST` ends the list, and what comes after it is left for the next query (`list_read`).
-/

namespace Nut

open ChunkReader Lexer

/-- The loop over a list; `answers` are the arguments that it is given. -/
inductive Iterates (query : List CStr) : Upsconn → List NetRead → List (List CStr) → Upsconn → List NetRead → Prop
  | done {ups ups' : Upsconn} {reads left : List NetRead}
      (hnext : upscliListNext ups reads query = some (ups', left, .done)) : Iterates query ups reads [] ups' left
  | item {ups mid ups' : Upsconn} {reads rest left : List NetRead} {answers : List (List CStr)}
      (hnext : upscliListNext ups reads query = some (mid, rest, .item))
      (hrest : Iterates query mid rest answers ups' left) :
      Iterates query ups reads (mid.pcCtx.args :: answers) ups' left

/-- A connection between two calls. -/
structure Upsconn.Idle (ups : Upsconn) : Prop where
  fd : ups.fd = true
  between : BetweenLines ups.pcCtx

/-- What the client has yet to read, in any pieces. -/
def Ahead (ups : Upsconn) (reads : List NetRead) (stream : CStr) : Prop :=
  ∃ chunks : List CStr, reads = chunks.map .bytes ∧ (∀ c ∈ chunks, c ≠ []) ∧ ups.readbuf ++ chunks.flatten = stream

/-- A line that the client reads whole: with its newline and a NUL it fits the buffer. -/
structure WholeLine (line : CStr) : Prop where
  newline : '\n' ∉ line
  nul : '\x00' ∉ line
  fits : line.length + 2 ≤ upscliNetbufLen

/-- The lines of a list. -/
def listLines (query : CStr) (items : List CStr) (stop : CStr) : List CStr :=
  ("BEGIN LIST ".toList ++ query) :: items ++ ["END LIST ".toList ++ stop]

/-- What the lines are on the wire. -/
def wire (lines : List CStr) : CStr := lines.flatMap (· ++ ['\n'])

section

variable {ups : Upsconn} {reads : List NetRead} {query ws more : List CStr} {line rest : CStr}

@[simp] theorem wire_cons (line : CStr) (lines : List CStr) : wire (line :: lines) = line ++ '\n' :: wire lines := by
  simp [wire]

/-! ### One line -/

theorem upscliReadline_line (hfd : ups.fd = true) (hline : WholeLine line)
    (hahead : Ahead ups reads (line ++ '\n' :: rest)) : ∃ unread left,
      upscliReadline ups reads upscliNetbufLen = ({ ups with readbuf := unread }, left, some line) ∧
        Ahead { ups with readbuf := unread } left rest := by
  obtain ⟨chunks, rfl, hchunks, hstream⟩ := hahead
  have hroom : line.length < upscliNetbufLen - 1 := by
    have hfits := hline.fits
    omega
  have htake : UpsconnT.takeLine (ups.readbuf ++ chunks.flatten) (upscliNetbufLen - 1) = some (line, rest) := by
    rw [hstream]
    exact UpsconnT.takeLine_line hline.newline hroom
  obtain ⟨unread, left, hloop, hrest, hleft⟩ := @UpsconnT.readlineLoop_eq ups chunks line rest [] _ hchunks htake
  have htext : line.takeWhile (· ≠ '\x00') = line := by
    rw [List.takeWhile_eq_self_iff]
    intro c hc
    have hne : c ≠ '\x00' := fun h => hline.nul (h ▸ hc)
    simpa using hne
  refine ⟨unread, left.map .bytes, ?_, left, rfl, fun c hc => hchunks c (hleft.subset hc), hrest⟩
  rw [upscliReadline, if_neg (by rw [hfd]; decide), hloop, List.nil_append]
  simp only [Option.map_some, htext]

/-- The arguments after a line are its words, and the slots behind them are not touched. -/
theorem pconfLine_slots {ctx : PconfCtx} (h : BetweenLines ctx) {line : CStr} {ws : List CStr} (hws : start.finish line = ws) :
    (pconfLine ctx line).numargs = ws.length ∧ ∃ slots, (pconfLine ctx line).arglist = ws ++ slots := by
  have hle := (h.line line).tidy.1.numargs
  have hargs : (pconfLine ctx line).arglist.take (pconfLine ctx line).numargs = ws := by
    rw [← hws]
    exact pconfLine_args h line
  refine ⟨?_, (pconfLine ctx line).arglist.drop (pconfLine ctx line).numargs, ?_⟩
  · rw [← hargs, List.length_take]
    omega
  · rw [← hargs, List.take_append_drop]

theorem Repeated.trans {us vs ws : List CStr} (h : Repeated us vs) (h' : Repeated vs ws) : Repeated us ws := by
  induction h generalizing ws with
  | nil => exact h'
  | cons hone _ ih =>
    cases h' with
    | cons hone' hrest =>
      rw [strcasecmp_eq] at hone hone'
      exact .cons (strcasecmp_eq.2 (hone.trans hone')) (ih hrest)

/-- Words that begin with those of the query pass the comparison. -/
theorem verifyResp_append (h : Repeated query ws) (more : List CStr) : verifyResp query (ws ++ more) = some true := by
  induction h with
  | nil => rfl
  | cons hq _ ih => rw [List.cons_append, verifyResp, if_neg (not_not.2 hq), ih]

/-- What a call makes of a line that is not an error. -/
theorem upscliListNext_line (hidle : ups.Idle) (hline : WholeLine line) (hahead : Ahead ups reads (line ++ '\n' :: rest))
    (herr : upscliErrcheck line = none) (hws : start.finish line = ws) (hne : ws ≠ []) : ∃ mid left slots,
      mid.Idle ∧ Ahead mid left rest ∧ mid.pcCtx.args = ws ∧
        upscliListNext ups reads query =
          if ws.take 2 = ["END".toList, "LIST".toList] then some (mid, left, .done)
          else (verifyResp query (ws ++ slots)).map fun same =>
            if same then (mid, left, .item) else ({ mid with upserror := .protocol }, left, .error) := by
  obtain ⟨unread, left, hread, hleft⟩ := upscliReadline_line hidle.fd hline hahead
  obtain ⟨hnum, slots, hslots⟩ := pconfLine_slots hidle.between hws
  have hone : ¬ws.length < 1 := by
    have hpos := List.length_pos_iff.2 hne
    omega
  have hend : (2 ≤ ws.length ∧ (ws ++ slots).getD 0 [] = "END".toList ∧ (ws ++ slots).getD 1 [] = "LIST".toList) ↔
      ws.take 2 = ["END".toList, "LIST".toList] := by
    rcases ws with _ | ⟨a, _ | ⟨b, ws⟩⟩
    · exact absurd rfl hne
    · simp
    · simp
  refine ⟨{ ups with readbuf := unread, pcCtx := pconfLine ups.pcCtx line }, left, slots,
    ⟨hidle.fd, hidle.between.line line⟩, hleft, ?_, ?_⟩
  · rw [← hws]
    exact pconfLine_args hidle.between line
  · rw [upscliListNext, hread]
    simp only [herr, hnum, hslots, if_neg hone, hend]

/-! ### The three kinds of lines -/

/-- A word with which a line may begin: it begins no error, and ends no list. -/
structure Opening (type : CStr) : Prop where
  word : IsWord type
  notEnd : type ≠ "END".toList
  notErr : ∀ s, upscliErrcheck (type ++ ' ' :: s) = none

theorem spaced_cons (w : CStr) (ws : List CStr) : spaced (w :: ws) = w ++ ' ' :: spaced ws := by
  simp [spaced]

/-- The words of a line that begins with words. -/
theorem finish_spaced (hws : ∀ w ∈ ws, IsWord w) (hlen : ws.length ≤ pconfDefaultArgLimit) (r : CStr) :
    ∃ more, start.finish (spaced ws ++ r) = ws ++ more := by
  have hsilent := silent_spaced [] hws (by rw [List.length_nil]; omega)
  rw [start, finish_append hsilent]
  obtain ⟨more, hmore⟩ := words_finish ⟨[] ++ ws, [], .between⟩ r
  exact ⟨more, hmore.symm⟩

/-- A line that begins with the words of the query is an answer. -/
theorem upscliListNext_item (hidle : ups.Idle) (hline : WholeLine line) (hahead : Ahead ups reads (line ++ '\n' :: rest))
    {type : CStr} (htype : Opening type) (hws : ∀ w ∈ ws, IsWord w) (hlen : ws.length < pconfDefaultArgLimit)
    (hquery : Repeated query (type :: ws)) {more : CStr} (hitem : line = spaced (type :: ws) ++ more) :
    ∃ mid left, upscliListNext ups reads query = some (mid, left, .item) ∧ mid.Idle ∧ Ahead mid left rest ∧
      mid.pcCtx.args = start.finish line := by
  have herr : upscliErrcheck line = none := by
    rw [hitem, spaced_cons, List.append_assoc, List.cons_append]
    exact htype.notErr _
  have hall : ∀ w ∈ type :: ws, IsWord w := by
    intro w hw
    rcases List.mem_cons.1 hw with rfl | hw
    · exact htype.word
    · exact hws w hw
  obtain ⟨more', hwords⟩ := finish_spaced hall (by rw [List.length_cons]; omega) more
  rw [← hitem] at hwords
  obtain ⟨mid, left, slots, hmid, hleft, hargs, hnext⟩ :=
    @upscliListNext_line _ _ query _ _ _ hidle hline hahead herr hwords (by simp)
  refine ⟨mid, left, ?_, hmid, hleft, hargs.trans hwords.symm⟩
  have hend : (type :: ws ++ more').take 2 ≠ ["END".toList, "LIST".toList] := by
    intro h
    exact htype.notEnd (List.cons.inj h).1
  rw [hnext, if_neg hend, List.append_assoc, verifyResp_append hquery]
  rfl

/-- The line that ends the list, whatever it says after that. -/
theorem upscliListNext_done (hidle : ups.Idle) {stop : CStr} (hline : WholeLine ("END LIST ".toList ++ stop))
    (hahead : Ahead ups reads ("END LIST ".toList ++ stop ++ '\n' :: rest)) :
    ∃ mid left, upscliListNext ups reads query = some (mid, left, .done) ∧ mid.Idle ∧ Ahead mid left rest := by
  obtain ⟨more, hwords⟩ : ∃ more, start.finish ("END LIST ".toList ++ stop) = ["END".toList, "LIST".toList] ++ more :=
    @finish_spaced ["END".toList, "LIST".toList] (by decide) (by decide) stop
  have herr : upscliErrcheck ("END LIST ".toList ++ stop) = none := by
    rw [upscliErrcheck, if_neg]
    rintro ⟨t, ht⟩
    exact absurd (List.cons.inj (List.cons.inj ht).2).1 (by decide)
  obtain ⟨mid, left, slots, hmid, hleft, -, hnext⟩ :=
    @upscliListNext_line _ _ query _ _ _ hidle hline hahead herr hwords (by simp)
  exact ⟨mid, left, hnext.trans (if_pos rfl), hmid, hleft⟩

/-- Words with a blank between any two. -/
def unwords (ws : List CStr) : CStr := [' '].intercalate ws

theorem unwords_cons (w : CStr) {ws : List CStr} (hne : ws ≠ []) : unwords (w :: ws) = w ++ ' ' :: unwords ws := by
  obtain ⟨v, vs, rfl⟩ := List.exists_cons_of_ne_nil hne
  rw [unwords, unwords, List.intercalate_cons_cons, List.append_assoc, List.singleton_append]

/-- The text after `BEGIN LIST` goes on with its words. -/
theorem unwords_begin (hne : ws ≠ []) :
    "BEGIN LIST ".toList ++ unwords ws = unwords ("BEGIN".toList :: "LIST".toList :: ws) := by
  rw [unwords_cons _ (List.cons_ne_nil _ _), unwords_cons _ hne]
  rfl

theorem unwords_concat (ws : List CStr) (w : CStr) : unwords (ws ++ [w]) = spaced ws ++ w := by
  induction ws with
  | nil => simp [unwords, spaced]
  | cons v ws ih => rw [List.cons_append, unwords_cons v (by simp), ih, spaced_cons, List.append_assoc, List.cons_append]

/-- The words of a line that is made of words. -/
theorem finish_unwords (hws : ∀ w ∈ ws, IsWord w) (hlen : ws.length ≤ pconfDefaultArgLimit) (hne : ws ≠ []) :
    start.finish (unwords ws) = ws := by
  obtain ⟨before, w, rfl⟩ := (List.eq_nil_or_concat ws).resolve_left hne
  rw [List.concat_eq_append] at *
  have hw := hws w (by simp)
  have hbefore : ∀ v ∈ before, IsWord v := fun v hv => hws v (by simp [hv])
  rw [List.length_append, List.length_singleton] at hlen
  have hsilent := silent_spaced [] hbefore (by rw [List.length_nil]; omega)
  rw [unwords_concat, start, finish_append hsilent, List.nil_append]
  rcases hw.1 with rfl | ⟨hword, hquote, hplain⟩
  · have hkeep : keep ⟨before, [], .between⟩ '=' = ⟨before, ['='], .between⟩ := keep_eq (by decide) (by decide) (by decide)
    simp [finish, step, hkeep, @close_eq before ['='] .between (by omega), into]
  · have hrun := finish_append (silent_start before hword hquote hplain hw.2) []
    rw [List.append_nil] at hrun
    rw [hrun, finish, if_neg hword, close_eq (by omega)]

theorem upscliAsk_line {net : Net} (hidle : ups.Idle) (hwrote : 0 < net.wrote) (cmd : CStr) (hline : WholeLine line)
    (hahead : Ahead ups net.reads (line ++ '\n' :: rest)) (herr : upscliErrcheck line = none) : ∃ unread left,
      upscliAsk ups net cmd = ({ ups with readbuf := unread }, left, some line) ∧
        Ahead { ups with readbuf := unread } left rest := by
  obtain ⟨unread, left, hread, hleft⟩ := upscliReadline_line hidle.fd hline hahead
  refine ⟨unread, left, ?_, hleft⟩
  have hsent : upscliSendline ups net.wrote cmd = (ups, some (cmd.take net.wrote.toNat)) := by
    rw [upscliSendline, if_neg (by rw [hidle.fd]; decide), if_neg (by omega), if_neg (by omega)]
  rw [upscliAsk, hsent]
  simp only [hread, herr]

/-- The line that begins the list of the query. -/
theorem upscliListStart_line {net : Net} (hidle : ups.Idle) (hwrote : 0 < net.wrote)
    (hline : WholeLine ("BEGIN LIST ".toList ++ unwords ws))
    (hahead : Ahead ups net.reads ("BEGIN LIST ".toList ++ unwords ws ++ '\n' :: rest)) (hws : ∀ w ∈ ws, IsWord w)
    (hlen : ws.length + 2 ≤ pconfDefaultArgLimit) (hne : ws ≠ []) (hquery : Repeated query ws) :
    ∃ mid left, upscliListStart ups net query = some (mid, left, true) ∧ mid.Idle ∧ Ahead mid left rest := by
  have hall : ∀ w ∈ "BEGIN".toList :: "LIST".toList :: ws, IsWord w := by
    intro w hw
    rcases List.mem_cons.1 hw with rfl | hw
    · decide
    · rcases List.mem_cons.1 hw with rfl | hw
      · decide
      · exact hws w hw
  have hwords : start.finish ("BEGIN LIST ".toList ++ unwords ws) = "BEGIN".toList :: "LIST".toList :: ws := by
    rw [unwords_begin hne]
    exact finish_unwords hall (by rw [List.length_cons, List.length_cons]; omega) (List.cons_ne_nil _ _)
  have herr : upscliErrcheck ("BEGIN LIST ".toList ++ unwords ws) = none := by
    rw [upscliErrcheck, if_neg]
    rintro ⟨t, ht⟩
    exact absurd (List.cons.inj ht).1 (by decide)
  have hlong : ¬query.length < 1 := by
    have heq := hquery.length_eq
    have hpos := List.length_pos_iff.2 hne
    omega
  obtain ⟨unread, left, hask, hleft⟩ :=
    upscliAsk_line hidle hwrote (buildCmd upscliNetbufLen "LIST".toList query) hline hahead herr
  obtain ⟨hnum, slots, hslots⟩ := pconfLine_slots hidle.between hwords
  refine ⟨{ ups with readbuf := unread, pcCtx := pconfLine ups.pcCtx ("BEGIN LIST ".toList ++ unwords ws) }, left, ?_,
    ⟨hidle.fd, hidle.between.line _⟩, hleft⟩
  have hmany : ¬("BEGIN".toList :: "LIST".toList :: ws).length < 2 := by simp
  have hfirst : ¬(strcasecmp ("BEGIN".toList) "BEGIN".toList ≠ .eq ∨ strcasecmp ("LIST".toList) "LIST".toList ≠ .eq) := by
    decide
  rw [upscliListStart, if_neg hlong, hask]
  simp only [hnum, hslots, if_neg hmany, List.cons_append, List.getD_cons_zero, List.getD_cons_succ, if_neg hfirst,
    List.drop_succ_cons, List.drop_zero]
  rw [verifyResp_append hquery]
  rfl

/-! ### A whole list -/

/-- The line of an item: words that are those of the query, up to case, and more. -/
def ItemOf (query : List CStr) (type line : CStr) : Prop :=
  ∃ ws more, (∀ w ∈ ws, IsWord w) ∧ ws.length < pconfDefaultArgLimit ∧ Repeated query (type :: ws) ∧
    line = spaced (type :: ws) ++ more

/-- The client is given the items, one at a time, and stops at the end of the list. -/
theorem iterates_items {type : CStr} (htype : Opening type) {items : List CStr} {stop : CStr}
    (hitems : ∀ line ∈ items, ItemOf query type line) (hlines : ∀ line ∈ items, WholeLine line)
    (hstop : WholeLine ("END LIST ".toList ++ stop)) (hidle : ups.Idle)
    (hahead : Ahead ups reads (wire (items ++ ["END LIST ".toList ++ stop]) ++ rest)) : ∃ ups' left,
      Iterates query ups reads (items.map start.finish) ups' left ∧ ups'.Idle ∧ Ahead ups' left rest := by
  induction items generalizing ups reads with
  | nil =>
    have hlast : Ahead ups reads ("END LIST ".toList ++ stop ++ '\n' :: rest) := by simpa [wire] using hahead
    obtain ⟨mid, left, hnext, hmid, hleft⟩ := upscliListNext_done hidle hstop hlast
    exact ⟨mid, left, .done hnext, hmid, hleft⟩
  | cons line items ih =>
    obtain ⟨hitem, hrest⟩ := List.forall_mem_cons.1 hitems
    obtain ⟨hline, hwhole⟩ := List.forall_mem_cons.1 hlines
    obtain ⟨ws, more, hws, hlen, hquery, heq⟩ := hitem
    rw [List.cons_append, wire_cons, List.append_assoc, List.cons_append] at hahead
    obtain ⟨mid, left, hnext, hmid, hleft, hargs⟩ :=
      upscliListNext_item hidle hline hahead htype hws hlen hquery heq
    obtain ⟨ups', left', hiter, hidle', hahead'⟩ := ih hrest hwhole hmid hleft
    refine ⟨ups', left', ?_, hidle', hahead'⟩
    rw [List.map_cons, ← hargs]
    exact .item hnext hiter

/-- A list is read from its first line to its last. -/
theorem list_read {net : Net} (hidle : ups.Idle) (hwrote : 0 < net.wrote) {type stop : CStr} {names items : List CStr}
    (htype : Opening type) (hnames : ∀ n ∈ names, IsWord n) (hlen : names.length + 3 ≤ pconfDefaultArgLimit)
    (hquery : Repeated query (type :: names)) (hitems : ∀ line ∈ items, ItemOf query type line)
    (hlines : ∀ line ∈ listLines (unwords (type :: names)) items stop, WholeLine line)
    (hahead : Ahead ups net.reads (wire (listLines (unwords (type :: names)) items stop) ++ rest)) :
    ∃ mid left ups' left', upscliListStart ups net query = some (mid, left, true) ∧
      Iterates query mid left (items.map start.finish) ups' left' ∧ ups'.Idle ∧ Ahead ups' left' rest := by
  have hall : ∀ w ∈ type :: names, IsWord w := by
    intro w hw
    rcases List.mem_cons.1 hw with rfl | hw
    · exact htype.word
    · exact hnames w hw
  rw [listLines, List.cons_append] at hlines hahead
  obtain ⟨hfirst, hrest⟩ := List.forall_mem_cons.1 hlines
  rw [wire_cons, List.append_assoc, List.cons_append] at hahead
  obtain ⟨mid, left, hstart, hmid, hleft⟩ := upscliListStart_line hidle hwrote hfirst hahead hall
    (by rw [List.length_cons]; omega) (List.cons_ne_nil _ _) hquery
  obtain ⟨ups', left', hiter, hidle', hahead'⟩ := iterates_items htype hitems
    (fun line hline => hrest line (List.mem_append_left _ hline)) (hrest _ (List.mem_append_right _ (by simp))) hmid hleft
  exact ⟨mid, left, ups', left', hstart, hiter, hidle', hahead'⟩

end

end Nut
