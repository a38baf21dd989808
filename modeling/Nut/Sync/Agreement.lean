import Nut.Common.Variables
import Nut.Sync.Calls
import Nut.Sync.Fragments
import Nut.Sync.Lists

/-!
# `LIST VAR` and `GET VAR` agree

A client sends a command, `upsd` reads it in pieces of any size and sends its answer, which the client again reads in
pieces (`Exchange`).  The list of the variables of a UPS gives the variables of its tree, in their order, and a query for
one of them gives what the list says of it (`list_get_agree`), as long as the commands fit the buffer of `build_cmd`: one
that does not loses its newline, and is never answered (`long_query_unanswered`).
-/

namespace Nut

open ChunkReader Lexer

/-! ### A command and its answer -/

/-- The daemon after it has read what the client sent, each piece at its time. -/
def clientReads (w : Writes) (fd : Nat) (s : Upsd) (packets : List (Int × CStr)) : Upsd :=
  packets.foldl (fun s p => clientReadline p.1 w s fd (some p.2)) s

/-- The client writes the command, `upsd` reads all of it and is then in the state `t`, and the client can read all that it
is sent. -/
structure Exchange (w : Writes) (s : Upsd) (fd : Nat) (cmd : CStr) (net : Net) (t : Upsd) : Prop where
  wrote : net.wrote = cmd.length
  answered : ∃ (packets : List (Int × CStr)) (bufs chunks : List CStr), Cut cmd (packets.map Prod.snd) ∧
    clientReads w fd s packets = t ∧ Sends s t fd bufs ∧ Cut bufs.flatten chunks ∧ net.reads = chunks.map .bytes

/-- `upsd` has read all that the client sent so far, and no write to it fails. -/
structure Serves (w : Writes) (s : Upsd) (fd : Nat) : Prop where
  client : ∃ client, s.client fd = some client ∧ AtLineStart client.ctx
  writes : ∀ n, w.client fd n = true

/-- A connection on which all answers are read. -/
structure Upsconn.Settled (ups : Upsconn) : Prop extends ups.Idle where
  readbuf : ups.readbuf = []

section Exchange

variable {w : Writes} {s : Upsd} {fd : Nat} {client : NutCtype} {A : List CStr} {l : Lexer} {args : List CStr}

/-- One call of `client_readline`: the lines that end in the piece are executed. -/
theorem clientReadline_lexed (hclient : s.client fd = some client) (hl : Loaded A l client.ctx) {buf : CStr}
    (hbuf : buf ≠ []) (now : Int) : ∃ A' ctx, Loaded A' (readChunk Lexer.step l buf).1 ctx ∧
      clientReadline now w s fd (some buf) =
        ((readChunk Lexer.step l buf).2.foldl (fun s args => netLine now w fd s args.length args) s).modifyClient fd
          fun client => { client with ctx := ctx } := by
  obtain ⟨hlines, ⟨A', hloaded⟩, -⟩ := readChunk_overlays hl buf
  refine ⟨A', _, hloaded, ?_⟩
  rw [clientReadline_eq hclient hbuf, readLoop_record, hlines, overlays_args]

/-- The records of the UPSes and what was sent to the client are as in `s`. -/
def SameBut (s s' : Upsd) (fd : Nat) : Prop :=
  s'.firstups = s.firstups ∧ ∃ client client', s.client fd = some client ∧ s'.client fd = some client' ∧
    client'.sockFd = fd ∧ client'.sent = client.sent

theorem sockFd_of_client (hclient : s.client fd = some client) : client.sockFd = fd := by
  simpa using List.find?_some hclient

theorem SameBut.getUpsPtr {s' : Upsd} (h : SameBut s s' fd) (u : CStr) : getUpsPtr s' u = getUpsPtr s u := by
  rw [Nut.getUpsPtr, Nut.getUpsPtr, h.1]

/-- All that `upsd` has done is to hear of the client. -/
def OnlyHeard (fd : Nat) (s s' : Upsd) : Prop :=
  ∃ f : NutCtype → NutCtype, (∀ c, f c = { c with lastHeard := (f c).lastHeard, ctx := (f c).ctx }) ∧
    s' = s.modifyClient fd f

theorem OnlyHeard.refl (fd : Nat) (s : Upsd) : OnlyHeard fd s s :=
  ⟨id, fun _ => rfl, (modifyClient_of_eq s fd fun _ => rfl).symm⟩

theorem OnlyHeard.modify {s' : Upsd} (h : OnlyHeard fd s s') {g : NutCtype → NutCtype}
    (hg : ∀ c, g c = { c with lastHeard := (g c).lastHeard, ctx := (g c).ctx }) : OnlyHeard fd s (s'.modifyClient fd g) := by
  obtain ⟨f, hf, rfl⟩ := h
  have hfd (c : NutCtype) : (f c).sockFd = c.sockFd := by rw [hf c]
  refine ⟨fun c => g (f c), fun c => ?_, modifyClient_modifyClient s fd hfd g⟩
  have hrest (heard : Int) (ctx : PconfCtx) :
      { f c with lastHeard := heard, ctx := ctx } = { c with lastHeard := heard, ctx := ctx } := by rw [hf c]
  exact (hg (f c)).trans (hrest _ _)

theorem OnlyHeard.found {s' : Upsd} (h : OnlyHeard fd s s') (hclient : s.client fd = some client) :
    ∃ heard ctx, s'.client fd = some { client with lastHeard := heard, ctx := ctx } := by
  obtain ⟨f, hf, rfl⟩ := h
  refine ⟨(f client).lastHeard, (f client).ctx, ?_⟩
  rw [client_modifyClient s fd (by intro c; rw [hf c]), hclient, Option.map_some, ← hf client]

theorem OnlyHeard.firstups {s' : Upsd} (h : OnlyHeard fd s s') : s'.firstups = s.firstups := by
  obtain ⟨f, -, rfl⟩ := h
  rfl

theorem OnlyHeard.sameBut {s' : Upsd} (h : OnlyHeard fd s s') (hclient : s.client fd = some client) : SameBut s s' fd := by
  obtain ⟨heard, ctx, hclient'⟩ := h.found hclient
  exact ⟨h.firstups, client, _, hclient, hclient', sockFd_of_client hclient', rfl⟩

/-- A command that comes in pieces is executed once, when its last piece is there. -/
theorem clientReads_executes {s₀ : Upsd} (hsame : OnlyHeard fd s₀ s) (hclient : s.client fd = some client)
    (hl : Loaded A l client.ctx) {cmd : CStr} (hcmd : ReadsAs step l cmd start args) {packets : List (Int × CStr)}
    (hcut : Cut cmd (packets.map Prod.snd)) : ∃ s' client' ctx, OnlyHeard fd s₀ s' ∧ s'.client fd = some client' ∧
      AtLineStart ctx ∧ clientReads w fd s packets =
        (parseNet w s' client' args).modifyClient fd fun client => { client with ctx := ctx } := by
  induction packets generalizing s client A l cmd with
  | nil =>
    obtain ⟨body, b, t, rfl, -, -⟩ := hcmd
    exact absurd hcut.1.symm (by simp)
  | cons p packets ih =>
    obtain ⟨hflat, hne⟩ := hcut
    rw [List.map_cons, List.flatten_cons] at hflat
    rw [List.map_cons, List.forall_mem_cons] at hne
    obtain ⟨hp, hrest⟩ := hne
    obtain ⟨A', ctx, hloaded, hread⟩ := @clientReadline_lexed w s fd client A l hclient hl p.2 hp p.1
    have hcons : clientReads w fd s (p :: packets) = clientReads w fd (clientReadline p.1 w s fd (some p.2)) packets := rfl
    rw [← hflat] at hcmd
    by_cases hlast : (packets.map Prod.snd).flatten = []
    · -- the last piece: pieces are not empty
      have hnil : packets = [] := by
        cases packets with
        | nil => rfl
        | cons q packets => exact absurd (List.append_eq_nil_iff.1 hlast).1 (hrest q.2 (by simp))
      have hone := (@ReadsAs.readChunk _ _ _ step _ _ _ [] _ hcmd).1
      rw [hlast, List.append_nil, List.append_nil] at hone
      rw [hone] at hread hloaded
      obtain ⟨client', hclient'⟩ : ∃ client', (s.modifyClient fd fun client => { client with lastHeard := p.1 }).client fd =
          some client' := by
        rw [client_modifyClient s fd (by exact fun _ => rfl), hclient]
        exact ⟨_, rfl⟩
      refine ⟨s.modifyClient fd fun client => { client with lastHeard := p.1 }, client', ctx,
        hsame.modify (by exact fun _ => rfl), hclient', hloaded.atLineStart, ?_⟩
      rw [hcons, hnil, clientReads, List.foldl_nil, hread, readChunk, List.foldl_cons, List.foldl_nil, netLine]
      rw [hclient', List.take_length]
    · -- the lexer is within the command
      obtain ⟨t, ht, hreads⟩ := hcmd.split hlast
      have hone := (readChunk_silent ht []).1
      rw [List.append_nil, readChunk] at hone
      rw [hone] at hread hloaded
      rw [List.foldl_nil] at hread
      have hmid : (clientReadline p.1 w s fd (some p.2)).client fd = some { client with ctx := ctx } := by
        rw [hread, client_modifyClient s fd (by exact fun _ => rfl), hclient]
        rfl
      rw [hcons]
      refine ih ?_ hmid hloaded hreads ⟨rfl, hrest⟩
      rw [hread]
      exact hsame.modify (by exact fun _ => rfl)

theorem client_self (hclient : s.client fd = some client) :
    s.client client.sockFd = some client ∧ client.sockFd = fd := by
  have hfd := sockFd_of_client hclient
  exact ⟨hfd ▸ hclient, hfd⟩

/-- What becomes of `upsd` with a command that changes its state by `g` and is answered by texts. -/
def Answered (g : Upsd → Upsd) (texts : List CStr) (fd : Nat) (s t : Upsd) : Prop :=
  ∃ s' ctx, OnlyHeard fd s s' ∧ AtLineStart ctx ∧
    t = ((g s').told fd texts false).modifyClient fd fun client => { client with ctx := ctx }

theorem Answered.found {g : Upsd → Upsd} {texts : List CStr} {t : Upsd} (h : Answered g texts fd s t)
    (hg : ∀ s', OnlyHeard fd s s' → ∃ client, (g s').client fd = some client) :
    ∃ s' client ctx, OnlyHeard fd s s' ∧ (g s').client fd = some client ∧ AtLineStart ctx ∧
      t.client fd = some { client with sent := client.sent ++ texts, ctx := ctx } := by
  obtain ⟨s', ctx, hheard, hctx, rfl⟩ := h
  obtain ⟨client, hclient⟩ := hg s' hheard
  refine ⟨s', client, ctx, hheard, hclient, hctx, ?_⟩
  rw [client_modifyClient _ fd (by exact fun _ => rfl), client_told, hclient]
  rfl

theorem Answered.firstups {g : Upsd → Upsd} {texts : List CStr} {t : Upsd} (h : Answered g texts fd s t) :
    ∃ s', OnlyHeard fd s s' ∧ t.firstups = (g s').firstups := by
  obtain ⟨s', ctx, hheard, -, rfl⟩ := h
  exact ⟨s', hheard, by simp⟩

/-- A command that changes the state, but not what was sent to the client, and is answered by texts: there are exchanges,
and after each of them the client can read these texts. -/
theorem exchange_answered {cmd : CStr} {texts : List CStr} {g : Upsd → Upsd} (hserves : Serves w s fd)
    (hcmd : ReadsAs step start cmd start args)
    (hg : ∀ s' client', OnlyHeard fd s s' → s'.client fd = some client' →
      ∃ client, (g s').client fd = some client ∧ client.sent = client'.sent)
    (htold : ∀ s' client', OnlyHeard fd s s' → s'.client fd = some client' →
      parseNet w s' client' args = (g s').told fd texts false) :
    (∃ net t, Exchange w s fd cmd net t) ∧
    ∀ net t, Exchange w s fd cmd net t → 0 < net.wrote ∧ Answered g texts fd s t ∧ Serves w t fd ∧
      ∀ ups : Upsconn, ups.readbuf = [] → Ahead ups net.reads texts.flatten := by
  obtain ⟨client, hclient, hstart⟩ := hserves.client
  have hlen : 0 < cmd.length := by
    obtain ⟨body, b, t, rfl, -, -⟩ := hcmd
    rw [List.length_append, List.length_singleton]
    omega
  have hgclient (s' : Upsd) (hheard : OnlyHeard fd s s') : ∃ client', (g s').client fd = some client' := by
    obtain ⟨heard, ctx, hclient'⟩ := hheard.found hclient
    obtain ⟨client'', hclient'', -⟩ := hg s' _ hheard hclient'
    exact ⟨client'', hclient''⟩
  have hread {packets : List (Int × CStr)} (hcut : Cut cmd (packets.map Prod.snd)) :
      Answered g texts fd s (clientReads w fd s packets) ∧
        ∀ bufs, Sends s (clientReads w fd s packets) fd bufs ↔ bufs = texts := by
    obtain ⟨s', client', ctx, hheard, hclient', hctx, heq⟩ :=
      clientReads_executes (w := w) (OnlyHeard.refl fd s) hclient hstart hcmd hcut
    rw [htold s' client' hheard hclient'] at heq
    refine ⟨⟨s', ctx, hheard, hctx, heq⟩, fun bufs => ?_⟩
    obtain ⟨client'', hclient'', hsent⟩ := hg s' client' hheard hclient'
    obtain ⟨heard, ctx', hserved⟩ := hheard.found hclient
    have hnow : (clientReads w fd s packets).client fd =
        some { client'' with sent := client.sent ++ texts, ctx := ctx } := by
      rw [heq, client_modifyClient _ fd (by exact fun _ => rfl), client_told, hclient'']
      rw [hserved] at hclient'
      rw [← Option.some.inj hclient'] at hsent
      simp [hsent]
    unfold Sends
    rw [hnow, hclient]
    constructor
    · rintro ⟨c, c', hc, hc', hbufs⟩
      rw [← Option.some.inj hc, ← Option.some.inj hc'] at hbufs
      exact (List.append_cancel_left hbufs).symm
    · rintro rfl
      exact ⟨client, _, rfl, rfl, rfl⟩
  constructor
  · have hcut : Cut cmd ([((0 : Int), cmd)].map Prod.snd) := ⟨by simp, by simpa using List.ne_nil_of_length_pos hlen⟩
    refine ⟨⟨cmd.length, (texts.flatten.map fun c => [c]).map .bytes⟩, _, rfl, _, texts, texts.flatten.map fun c => [c], hcut,
      rfl, ((hread hcut).2 texts).2 rfl, ⟨?_, ?_⟩, rfl⟩
    · rw [← List.flatMap_def, List.flatMap_singleton']
    · intro c hc
      obtain ⟨d, -, rfl⟩ := List.mem_map.1 hc
      exact List.cons_ne_nil _ _
  · rintro net t ⟨hwrote, packets, bufs, chunks, hcut, rfl, hsends, hanswer, hreads⟩
    obtain ⟨hagain, hbufs⟩ := hread hcut
    obtain ⟨s', client', ctx, -, -, hctx, hnow⟩ := hagain.found hgclient
    refine ⟨by omega, hagain, ⟨⟨_, hnow, hctx⟩, hserves.writes⟩, fun ups hnil => ⟨chunks, hreads, hanswer.2, ?_⟩⟩
    rw [hnil, List.nil_append, hanswer.1, (hbufs bufs).1 hsends]

/-- A command that is answered by texts: there are exchanges, and after each of them the client can read these texts and
`upsd` can be asked again. -/
theorem exchange_told {cmd : CStr} {texts : List CStr} (hserves : Serves w s fd) (hcmd : ReadsAs step start cmd start args)
    (htold : ∀ s' client', SameBut s s' fd → s'.client fd = some client' →
      parseNet w s' client' args = s'.told fd texts false) :
    (∃ net t, Exchange w s fd cmd net t) ∧
    ∀ net t, Exchange w s fd cmd net t → 0 < net.wrote ∧ Serves w t fd ∧ (∀ u, getUpsPtr t u = getUpsPtr s u) ∧
      ∀ ups : Upsconn, ups.readbuf = [] → Ahead ups net.reads texts.flatten := by
  obtain ⟨client, hclient, -⟩ := hserves.client
  obtain ⟨hexists, hafter⟩ := @exchange_answered w s fd args cmd texts id hserves hcmd
    (fun s' client' _ hclient' => ⟨client', hclient', rfl⟩)
    fun s' client' hheard hclient' => htold s' client' (hheard.sameBut hclient) hclient'
  refine ⟨hexists, fun net t hnet => ?_⟩
  obtain ⟨hwrote, hanswered, hagain, hahead⟩ := hafter net t hnet
  obtain ⟨s', hheard, hfirstups⟩ := hanswered.firstups
  refine ⟨hwrote, hagain, fun u => ?_, hahead⟩
  rw [getUpsPtr, hfirstups, id_eq, hheard.firstups, getUpsPtr]

end Exchange

/-! ### What the client reads -/

section Client

variable {ups : Upsconn} {reads : List NetRead} {query ws more : List CStr} {line rest : CStr}

theorem Ahead.eq_nil (h : Ahead ups reads []) : reads = [] ∧ ups.readbuf = [] := by
  obtain ⟨chunks, rfl, hchunks, hstream⟩ := h
  obtain ⟨hbuf, hflat⟩ := List.append_eq_nil_iff.1 hstream
  refine ⟨?_, hbuf⟩
  cases chunks with
  | nil => rfl
  | cons c chunks => exact absurd (List.append_eq_nil_iff.1 hflat).1 (hchunks c List.mem_cons_self)

/-- An answer whose words begin with those of the query. -/
theorem upscliGet_line {net : Net} (hidle : ups.Idle) (hwrote : 0 < net.wrote) (hline : WholeLine line)
    (hahead : Ahead ups net.reads (line ++ '\n' :: rest)) (herr : upscliErrcheck line = none) (hquery : query ≠ [])
    (hwords : start.finish line = ws ++ more) (hsame : Repeated query ws) :
    ∃ mid left, upscliGet ups net query = some (mid, left, true) ∧ mid.Idle ∧ Ahead mid left rest ∧
      mid.pcCtx.args = ws ++ more := by
  obtain ⟨unread, left, hask, hleft⟩ :=
    upscliAsk_line hidle hwrote (buildCmd upscliNetbufLen "GET".toList query) hline hahead herr
  obtain ⟨hnum, slots, hslots⟩ := pconfLine_slots hidle.between hwords
  refine ⟨{ ups with readbuf := unread, pcCtx := pconfLine ups.pcCtx line }, left, ?_,
    ⟨hidle.fd, hidle.between.line line⟩, hleft, ?_⟩
  · have hone : ¬query.length < 1 := by
      have hpos := List.length_pos_iff.2 hquery
      omega
    have hlong : ¬(ws ++ more).length < query.length := by
      rw [hsame.length_eq, List.length_append]
      omega
    rw [upscliGet, if_neg hone, hask]
    simp only [hnum, hslots, if_neg hlong, List.append_assoc]
    rw [verifyResp_append hsame]
    rfl
  · rw [← hwords]
    exact pconfLine_args hidle.between line

end Client

/-! ### The variables of a UPS -/

/-- A name that is one word, with nothing to encode. -/
def PlainName (w : CStr) : Prop := PlainWord w ∧ ∀ c ∈ w, pconfEscape c = false

instance (w : CStr) : Decidable (PlainName w) := inferInstanceAs (Decidable (_ ∧ _))

/-- The line for a variable, in the list and as an answer. -/
def varItem (u : CStr) (fsd : Bool) (node : StNode) : CStr :=
  valueItem ["VAR".toList, u, node.var] (servedVal fsd node.var node.val)

/-- What the client is given for a variable: the words of the query, and the value. -/
def varAnswer (u : CStr) (fsd : Bool) (node : StNode) : List CStr :=
  ["VAR".toList, u, node.var, servedVal fsd node.var (unescape node.val)]

/-- The UPS is available under the name, its tree is the work of the functions of `state.c`, its names are plain and its
values printable, and every line of an answer fits the buffer of the client. -/
structure Servable (u : CStr) (ups : Upstype) : Prop where
  available : ups.Available
  reachable : ∃ calls : List StateCall, ups.inforoot = calls.foldl StateCall.run .nil
  upsname : PlainName u
  names : ∀ node ∈ ups.inforoot.walk, PlainName node.var
  printable : ∀ node ∈ ups.inforoot.walk, Printable node.raw
  begins : ("BEGIN LIST VAR ".toList ++ u).length + 2 ≤ upscliNetbufLen
  lines : ∀ node ∈ ups.inforoot.walk, (varItem u ups.fsd node).length + 2 ≤ upscliNetbufLen

/-- A client that asks for the variables is given these, and can ask again. -/
def ListGives (u : CStr) (ups : Upstype) (w : Writes) (s : Upsd) (fd : Nat) : Prop :=
  (∃ net t, Exchange w s fd (buildCmd upscliNetbufLen "LIST".toList ["VAR".toList, u]) net t) ∧
  ∀ conn net t, conn.Settled → Exchange w s fd (buildCmd upscliNetbufLen "LIST".toList ["VAR".toList, u]) net t →
    ∃ mid left conn', upscliListStart conn net ["VAR".toList, u] = some (mid, left, true) ∧
      Iterates ["VAR".toList, u] mid left (ups.inforoot.walk.map (varAnswer u ups.fsd)) conn' [] ∧
      conn'.Settled ∧ Serves w t fd ∧ getUpsPtr t u = some ups

/-- A client that asks for the variable is given it, and can ask again. -/
def GetGives (u : CStr) (ups : Upstype) (node : StNode) (w : Writes) (s : Upsd) (fd : Nat) : Prop :=
  (∃ net t, Exchange w s fd (buildCmd upscliNetbufLen "GET".toList ["VAR".toList, u, node.var]) net t) ∧
  ∀ conn net t, conn.Settled →
    Exchange w s fd (buildCmd upscliNetbufLen "GET".toList ["VAR".toList, u, node.var]) net t →
    ∃ conn', upscliGet conn net ["VAR".toList, u, node.var] = some (conn', [], true) ∧
      conn'.pcCtx.args = varAnswer u ups.fsd node ∧ conn'.Settled ∧ Serves w t fd ∧ getUpsPtr t u = some ups

/-- What a client reads of the variables by a list is what it reads of them one by one. -/
structure ListGetAgree (u : CStr) (ups : Upstype) : Prop where
  /-- The nodes of the walk are the variables, each once, in the order of their names. -/
  ascending : ups.inforoot.walk.Pairwise fun a b => strcasecmp a.var b.var = .lt
  nodes : ∀ node, node ∈ ups.inforoot.walk ↔ stateTreeFind ups.inforoot node.var = some node
  /-- The value is that of the variable, unless the buffer of its encoding cuts it. -/
  value : ∀ node ∈ ups.inforoot.walk, (escape node.raw).length < stMaxValueLen → unescape node.val = node.raw
  list : ∀ w s fd, Serves w s fd → getUpsPtr s u = some ups → ListGives u ups w s fd
  get : ∀ node ∈ ups.inforoot.walk, strcasecmp (node.var.take 7) "server.".toList ≠ .eq →
    ∀ w s fd, Serves w s fd → getUpsPtr s u = some ups → GetGives u ups node w s fd

section Name

variable {v : CStr}

theorem PlainName.kept (h : PlainName v) : Kept v := by
  rcases h.1 with rfl | ⟨-, -, hall⟩
  · decide
  · intro c hc
    have hbounds := (plainChar_bounds (hall c hc)).1
    simp only [isKept, Bool.and_eq_true, decide_eq_true_eq]
    exact ⟨by omega, hbounds.2⟩

theorem PlainName.no_blank (h : PlainName v) : ' ' ∉ v := by
  rcases h.1 with rfl | ⟨-, -, hall⟩
  · decide
  · intro hc
    exact absurd (plainChar_bounds (hall _ hc)).1.1 (by decide)

theorem PlainName.argText (h : PlainName v) : argText v = ' ' :: v := by
  rw [Nut.argText, if_neg h.no_blank, escape_of_forall h.2]

theorem PlainName.isWord (h : PlainName v) (hlen : v.length ≤ pconfDefaultWordlenLimit) : IsWord v := ⟨h.1, hlen⟩

/-- A command whose arguments are plain names is read as it is meant. -/
theorem readsAs_names {cmd : CStr} {names : List CStr} (hcmd : PlainWord cmd) (hnames : ∀ n ∈ names, PlainName n)
    (hcount : names.length < pconfDefaultArgLimit) (hfits : (cmdText cmd names).length < upscliNetbufLen) :
    ReadsAs step start (buildCmd upscliNetbufLen cmd names) start (cmd :: names) := by
  obtain ⟨hword, hwords⟩ := length_le_of_fits hfits
  have hread := readsAs_cmdText hcmd hword fun n hn => (hnames n hn).kept
  rw [(finish_cmdText_iff hcmd hword hcount fun n hn => ⟨(hnames n hn).kept, hwords n hn⟩).2
    fun n hn => .inr (hnames n hn).1.bare] at hread
  rw [buildCmd_eq hfits]
  exact hread

end Name

/-! ### The lines -/

theorem wholeLine_of_kept {line : CStr} (h : Kept line) (hfits : line.length + 2 ≤ upscliNetbufLen) : WholeLine line where
  newline := fun hc => absurd (h _ hc) (by decide)
  nul := fun hc => absurd (h _ hc) (by decide)
  fits := hfits

theorem kept_valueItem {ws : List CStr} {val : CStr} (hws : ∀ w ∈ ws, Kept w) (hval : Kept val) :
    Kept (valueItem ws val) := by
  have hspaced : Kept (spaced ws) := by
    intro c hc
    obtain ⟨w, hw, hc⟩ := List.mem_flatMap.1 hc
    exact kept_append (hws w hw) (by decide) c hc
  exact kept_append hspaced (kept_append (kept_append (by decide) hval) (by decide))

theorem kept_servedVal {fsd : Bool} {var val : CStr} (hval : Kept val) : Kept (servedVal fsd var val) := by
  rw [servedVal]
  split_ifs
  · exact kept_append (by decide) hval
  · exact hval

/-- The prefix has nothing to escape. -/
theorem escape_servedVal (fsd : Bool) (var val : CStr) : escape (servedVal fsd var val) = servedVal fsd var (escape val) := by
  rw [servedVal, servedVal]
  split_ifs
  · rw [escape_append]
    rfl
  · rfl

theorem upscliErrcheck_varItem (u : CStr) (fsd : Bool) (node : StNode) : upscliErrcheck (varItem u fsd node) = none := by
  have hopening : Opening "VAR".toList := opening_of (by decide) (by decide) (by decide) (by decide)
  rw [varItem, valueItem, spaced_cons, List.append_assoc, List.cons_append]
  exact hopening.notErr _

section Served

variable {u : CStr} {ups : Upstype} {node : StNode} (h : Servable u ups)
include h

theorem Servable.word : IsWord u := by
  have hbegins := h.begins
  rw [List.length_append] at hbegins
  refine h.upsname.isWord ?_
  unfold upscliNetbufLen at hbegins
  unfold pconfDefaultWordlenLimit
  omega

/-- The value of a variable is stored encoded. -/
theorem Servable.encoded (hnode : node ∈ ups.inforoot.walk) :
    node.val = pconfEncode node.raw stMaxValueLen ∧ Encoded node.val := by
  obtain ⟨calls, hcalls⟩ := h.reachable
  have hval : node.val = pconfEncode node.raw stMaxValueLen := encoded_run calls node (hcalls ▸ hnode)
  refine ⟨hval, ?_⟩
  rw [hval]
  exact encoded_pconfEncode (h.printable node hnode).kept

theorem Servable.wholeLine (hnode : node ∈ ups.inforoot.walk) : WholeLine (varItem u ups.fsd node) := by
  obtain ⟨v, hv, hval, -⟩ := (h.encoded hnode).2
  refine wholeLine_of_kept (kept_valueItem ?_ (kept_servedVal ?_)) (h.lines node hnode)
  · intro w hw
    simp only [List.mem_cons, List.not_mem_nil, or_false] at hw
    rcases hw with rfl | rfl | rfl
    · decide
    · exact h.upsname.kept
    · exact (h.names node hnode).kept
  · rw [hval]
    exact kept_escape hv

/-- The client reads the words of the query and the value. -/
theorem Servable.finish_varItem (hnode : node ∈ ups.inforoot.walk) :
    start.finish (varItem u ups.fsd node) = varAnswer u ups.fsd node := by
  have henc := (h.encoded hnode).2
  have hval : servedVal ups.fsd node.var node.val = escape (servedVal ups.fsd node.var (unescape node.val)) := by
    rw [escape_servedVal, henc.escape_unescape]
  have hlen := h.lines node hnode
  have hlong := length_le_escape (servedVal ups.fsd node.var (unescape node.val))
  simp only [varItem, valueItem, spaced, quoted, List.flatMap_cons, List.flatMap_nil, List.length_append, hval] at hlen
  have hlimit : upscliNetbufLen = pconfDefaultWordlenLimit := rfl
  have hwords : ∀ w ∈ ["VAR".toList, u, node.var], IsWord w := by
    intro w hw
    simp only [List.mem_cons, List.not_mem_nil, or_false] at hw
    rcases hw with rfl | rfl | rfl
    · decide
    · exact h.word
    · exact (h.names node hnode).isWord (by omega)
  have hkept : Kept (servedVal ups.fsd node.var (unescape node.val)) := kept_servedVal henc.kept_unescape
  have hsilent := silent_encoded hwords (show 3 < pconfDefaultArgLimit by decide) hkept (by omega)
  have hfinish := finish_append hsilent []
  rw [List.append_nil] at hfinish
  rw [varItem, valueItem, hval, hfinish]
  rfl

end Served

/-! ### The two commands -/

section Commands

variable {u : CStr} {ups : Upstype} {node : StNode} {w : Writes} {s s' : Upsd} {fd : Nat} {client : NutCtype}

/-- The list of the variables. -/
def varList (u : CStr) (ups : Upstype) : ListAnswer :=
  ⟨"VAR".toList, [u], ups.inforoot.walk.map (varItem u ups.fsd), ["VAR".toList, u]⟩

theorem Servable.lines_whole (h : Servable u ups) : ∀ line ∈ (varList u ups).lines, WholeLine line := by
  have hshort := h.begins
  have hkept (verb : CStr) (hverb : Kept verb) : Kept (verb ++ unwords ["VAR".toList, u]) := by
    rw [unwords_two]
    exact kept_append hverb (kept_append (by decide) (@kept_append [' '] _ (by decide) h.upsname.kept))
  intro line hline
  simp only [varList, ListAnswer.lines, ListAnswer.query, listLines, List.mem_append, List.mem_cons, List.mem_map,
    List.not_mem_nil, or_false] at hline
  rcases hline with (rfl | ⟨node, hnode, rfl⟩) | rfl
  · refine wholeLine_of_kept (hkept _ (by decide)) ?_
    rw [unwords_two]
    simpa using hshort
  · exact h.wholeLine hnode
  · refine wholeLine_of_kept (hkept _ (by decide)) ?_
    rw [unwords_two]
    simp only [List.length_append, List.length_cons, String.length_toList] at hshort ⊢
    have h1 : "BEGIN LIST VAR ".length = 15 := rfl
    have h2 : "END LIST ".length = 9 := rfl
    have h3 : "VAR".length = 3 := rfl
    omega

/-- `LIST VAR` is answered by the list. -/
theorem Servable.listed (h : Servable u ups) (hserves : Serves w s fd) (hups : getUpsPtr s u = some ups)
    (hsame : SameBut s s' fd) (hclient : s'.client fd = some client) :
    parseNet w s' client ["LIST".toList, "VAR".toList, u] =
      s'.told fd ((varList u ups).lines.map fun line => answer (line ++ ['\n'])) false := by
  have hlist : Lists s' ["VAR".toList, u] (varList u ups) :=
    Lists.var (by decide) ((hsame.getUpsPtr u).trans hups) h.available []
  obtain ⟨hself, hfd⟩ := client_self hclient
  rw [parseNet_list ⟨_, rfl, by decide⟩, hlist.told hself (by rw [hfd]; exact hserves.writes), hfd]

/-- `GET VAR` is answered by the line of the variable. -/
theorem Servable.got (h : Servable u ups) (hserves : Serves w s fd) (hups : getUpsPtr s u = some ups)
    (hfound : stateTreeFind ups.inforoot node.var = some node)
    (hserver : strcasecmp (node.var.take 7) "server.".toList ≠ .eq) (hsame : SameBut s s' fd)
    (hclient : s'.client fd = some client) : parseNet w s' client ["GET".toList, "VAR".toList, u, node.var] =
      s'.told fd [answer (varItem u ups.fsd node ++ ['\n'])] false := by
  have hups' : getUpsPtr s' u = some ups := (hsame.getUpsPtr u).trans hups
  obtain ⟨-, hfd⟩ := client_self hclient
  have hval : sstateGetinfo ups node.var = some node.val := by
    rw [sstateGetinfo, stateGetinfo, hfound, Option.map_some]
  have hitem : varItem u ups.fsd node ++ ['\n'] = varLine "VAR".toList u node.var (servedVal ups.fsd node.var node.val) :=
    (varLine_eq _ _ _ _).symm
  rw [parseNet_get ⟨_, rfl, by decide⟩, netGet_var (by decide), getVar, if_neg hserver,
    withUps_of_available hups' h.available, hval, hfd, hitem, servedVal]
  dsimp only
  split_ifs
  · rw [sendback_eq, hserves.writes]
    rfl
  · rw [sendback_eq, hserves.writes]
    rfl

end Commands

/-! ### Agreement -/

section Agree

variable {u : CStr} {ups : Upstype} {w : Writes} {s : Upsd} {fd : Nat}

theorem Servable.listGives (h : Servable u ups) (hserves : Serves w s fd) (hups : getUpsPtr s u = some ups) :
    ListGives u ups w s fd := by
  have hnames : ∀ n ∈ ["VAR".toList, u], PlainName n := by
    intro n hn
    rcases List.mem_cons.1 hn with rfl | hn
    · decide
    · rw [List.mem_singleton.1 hn]
      exact h.upsname
  have hfits : (cmdText "LIST".toList ["VAR".toList, u]).length < upscliNetbufLen := by
    have hbegins := h.begins
    have hvar : argText "VAR".toList = " VAR".toList := by decide
    rw [cmdText, List.flatMap_cons, List.flatMap_cons, List.flatMap_nil, hvar, h.upsname.argText]
    simp only [List.length_append, List.length_cons, List.length_nil, String.length_toList] at hbegins ⊢
    have h1 : "BEGIN LIST VAR ".length = 15 := rfl
    have h2 : "LIST".length = 4 := rfl
    have h3 : " VAR".length = 4 := rfl
    omega
  have hcmd := readsAs_names (by decide : PlainWord "LIST".toList) hnames (show 2 < pconfDefaultArgLimit by decide) hfits
  obtain ⟨hexists, hafter⟩ := exchange_told hserves hcmd fun s' client' hsame hclient' =>
    h.listed hserves hups hsame hclient'
  refine ⟨hexists, fun conn net t hsettled hexchange => ?_⟩
  obtain ⟨hwrote, hagain, hups', hahead⟩ := hafter net t hexchange
  have hstream := hahead conn hsettled.readbuf
  rw [flatten_answers h.lines_whole, ← List.append_nil (wire _)] at hstream
  have hlist : Lists s ["VAR".toList, u] (varList u ups) := Lists.var (by decide) hups h.available []
  have hquery : Repeated ["VAR".toList, u] (varList u ups).query :=
    .cons (strcasecmp_self _) (.cons (strcasecmp_self u) .nil)
  have hword : ∀ n ∈ (varList u ups).names, IsWord n := by
    intro n hn
    rw [List.mem_singleton.1 hn]
    exact h.word
  obtain ⟨mid, left, conn', left', hstart, hiter, hidle, hleft⟩ :=
    hlist.read hsettled.toIdle hwrote hquery hword h.lines_whole hstream
  obtain ⟨rfl, hbuf⟩ := hleft.eq_nil
  have hanswers : (varList u ups).items.map start.finish = ups.inforoot.walk.map (varAnswer u ups.fsd) := by
    rw [varList, List.map_map]
    exact List.map_congr_left fun node hnode => h.finish_varItem hnode
  rw [hanswers] at hiter
  exact ⟨mid, left, conn', hstart, hiter, ⟨hidle, hbuf⟩, hagain, (hups' u).trans hups⟩

theorem Servable.getGives (h : Servable u ups) {node : StNode} (hnode : node ∈ ups.inforoot.walk)
    (hfound : stateTreeFind ups.inforoot node.var = some node)
    (hfits : (cmdText "GET".toList ["VAR".toList, u, node.var]).length < upscliNetbufLen)
    (hserver : strcasecmp (node.var.take 7) "server.".toList ≠ .eq) (hserves : Serves w s fd)
    (hups : getUpsPtr s u = some ups) : GetGives u ups node w s fd := by
  have hnames : ∀ n ∈ ["VAR".toList, u, node.var], PlainName n := by
    intro n hn
    simp only [List.mem_cons, List.not_mem_nil, or_false] at hn
    rcases hn with rfl | rfl | rfl
    · decide
    · exact h.upsname
    · exact h.names node hnode
  have hcmd := readsAs_names (by decide : PlainWord "GET".toList) hnames (show 3 < pconfDefaultArgLimit by decide) hfits
  obtain ⟨hexists, hafter⟩ := exchange_told hserves hcmd fun s' client' hsame hclient' =>
    h.got hserves hups hfound hserver hsame hclient'
  refine ⟨hexists, fun conn net t hsettled hexchange => ?_⟩
  obtain ⟨hwrote, hagain, hups', hahead⟩ := hafter net t hexchange
  have hstream := hahead conn hsettled.readbuf
  have hline := h.wholeLine hnode
  have hone := @flatten_answers [varItem u ups.fsd node] (by simpa using hline)
  rw [List.map_singleton] at hone
  rw [hone, wire_cons] at hstream
  have hsame : Repeated ["VAR".toList, u, node.var] ["VAR".toList, u, node.var] :=
    .cons (strcasecmp_self _) (.cons (strcasecmp_self u) (.cons (strcasecmp_self node.var) .nil))
  obtain ⟨conn', left, hget, hidle, hleft, hargs⟩ := upscliGet_line hsettled.toIdle hwrote hline hstream
    (upscliErrcheck_varItem _ _ _) (List.cons_ne_nil _ _) (h.finish_varItem hnode) hsame
  obtain ⟨rfl, hbuf⟩ := hleft.eq_nil
  exact ⟨conn', hget, hargs, ⟨hidle, hbuf⟩, hagain, (hups' u).trans hups⟩

/-- A list of the variables and queries for each of them agree, if the queries fit the buffer of `build_cmd`. -/
theorem list_get_agree (h : Servable u ups)
    (hfits : ∀ node ∈ ups.inforoot.walk, strcasecmp (node.var.take 7) "server.".toList ≠ .eq →
      (cmdText "GET".toList ["VAR".toList, u, node.var]).length < upscliNetbufLen) : ListGetAgree u ups := by
  obtain ⟨calls, hcalls⟩ := h.reachable
  obtain ⟨hascending, hvariables, -⟩ := variables_search_tree calls
  rw [← hcalls] at hascending hvariables
  exact {
    ascending := hascending
    nodes := hvariables
    value := fun node hnode hshort => by
      rw [(h.encoded hnode).1, pconfEncode_fits hshort, unescape_escape]
    list := fun w s fd hserves hups => h.listGives hserves hups
    get := fun node hnode hserver w s fd hserves hups =>
      h.getGives hnode ((hvariables node).1 hnode) (hfits node hnode hserver) hserver hserves hups }

end Agree

/-! ### Values with escapes, and a query that does not fit -/

/-- A UPS on battery that is to shut down, with a name in quotes. -/
def quotedUps : Upstype :=
  { newUps "dummy-u".toList "u".toList none with
    sockFd := some 3, stale := false, fsd := true
    inforoot := [StateCall.setinfo "ups.status".toList "OB".toList, .setinfo "ups.id".toList "the \"#1\"".toList].foldl
      StateCall.run .nil }

theorem list_get_agree_quotes : ListGetAgree "u".toList quotedUps := by
  refine list_get_agree ⟨by decide, ⟨_, rfl⟩, by decide, ?_, ?_, by decide, ?_⟩ ?_
  · decide
  · decide
  · decide
  · decide

def longName : CStr := List.replicate 499 'a'

/-- A UPS with one variable, which has a long name and no value. -/
def longUps : Upstype :=
  { newUps "dummy-ups".toList "ups".toList none with
    sockFd := some 3, stale := false, inforoot := [StateCall.setinfo longName []].foldl StateCall.run .nil }

def longClient : NutCtype := ⟨"::1".toList, 7, 0, none, none, none, pconfInit, []⟩

def longServer : Upsd := { oneUpsServer with firstups := [longUps], firstclient := [longClient] }

/-- The command for the variable, which has no room for its newline. -/
def longQuery : CStr := "GET".toList ++ ["VAR".toList, "ups".toList, longName].flatMap argText

theorem plainName_longName : PlainName longName := by
  have hall {c : Char} (hc : c ∈ longName) : c = 'a' := List.eq_of_mem_replicate hc
  refine ⟨.inr ⟨by decide, by decide, fun c hc => ?_⟩, fun c hc => ?_⟩
  · rw [hall hc]
    decide
  · rw [hall hc]
    decide

theorem longQuery_length : longQuery.length = 511 := by
  have hname : argText longName = ' ' :: longName := plainName_longName.argText
  have hvar : argText "VAR".toList = " VAR".toList := by decide
  have hups : argText "ups".toList = " ups".toList := by decide
  have hlen : longName.length = 499 := List.length_replicate
  rw [longQuery, List.flatMap_cons, List.flatMap_cons, List.flatMap_cons, List.flatMap_nil, hname, hvar, hups]
  simp only [List.length_append, List.length_cons, List.length_nil, hlen]
  rfl

theorem buildCmd_longQuery : buildCmd upscliNetbufLen "GET".toList ["VAR".toList, "ups".toList, longName] = longQuery := by
  have hlen : (("GET".toList ++ ["VAR".toList, "ups".toList, longName].flatMap argText)).length = 511 := longQuery_length
  rw [buildCmd_args (by rw [hlen]; decide), hlen]
  exact List.append_nil _

/-- The lexer is still within the command. -/
theorem silent_longQuery : ∃ t, silent step start longQuery = some t := by
  obtain ⟨l, hl, hended⟩ := ended_command (by decide : PlainWord "GET".toList) (by decide)
  have hargs : ∀ a ∈ ["VAR".toList, "ups".toList, longName], Kept a := by
    intro a ha
    simp only [List.mem_cons, List.not_mem_nil, or_false] at ha
    rcases ha with rfl | rfl | rfl
    · decide
    · decide
    · exact plainName_longName.kept
  obtain ⟨t, ht, -⟩ := silent_args hargs hended.open
  exact ⟨t, by rw [longQuery, silent_append hl, ht]⟩

theorem servable_longUps : Servable "ups".toList longUps where
  available := by decide
  reachable := ⟨_, rfl⟩
  upsname := by decide
  names := by
    intro node hnode
    rw [List.mem_singleton.1 hnode]
    exact plainName_longName
  printable := by
    intro node hnode
    rw [List.mem_singleton.1 hnode]
    decide
  begins := by decide
  lines := by
    intro node hnode
    have hlen : longName.length = 499 := List.length_replicate
    have hval : servedVal longUps.fsd longName [] = [] := if_neg fun h => absurd h.2 (by decide)
    have hitem : varItem "ups".toList longUps.fsd (newNode longName []) =
        valueItem ["VAR".toList, "ups".toList, longName] (servedVal longUps.fsd longName []) := rfl
    rw [List.mem_singleton.1 hnode, hitem, hval, valueItem, spaced_cons, spaced_cons, spaced_cons]
    simp only [List.length_append, List.length_cons, hlen]
    decide

/-- `upsd` waits for the end of the command, and the client for its answer. -/
theorem exchange_longQuery : Exchange allWritten longServer 7 longQuery ⟨longQuery.length, []⟩
    (clientReads allWritten 7 longServer [(0, longQuery)]) where
  wrote := rfl
  answered := by
    refine ⟨[(0, longQuery)], [], [], ?_, rfl, ?_, ⟨rfl, by simp⟩, rfl⟩
    · refine ⟨by simp, ?_⟩
      intro c hc
      rw [List.mem_singleton.1 hc]
      exact List.ne_nil_of_length_pos (by rw [longQuery_length]; decide)
    · have hne : longQuery ≠ [] := List.ne_nil_of_length_pos (by rw [longQuery_length]; decide)
      obtain ⟨t, ht⟩ := silent_longQuery
      obtain ⟨A, ctx, -, hread⟩ := @clientReadline_lexed allWritten longServer 7 longClient _ start rfl atLineStart_pconfInit
        longQuery hne 0
      have hquiet := (readChunk_silent ht []).1
      rw [List.append_nil, readChunk] at hquiet
      rw [hquiet, List.foldl_nil] at hread
      refine ⟨longClient, { longClient with ctx := ctx }, rfl, ?_, (List.append_nil _).symm⟩
      rw [clientReads, List.foldl_cons, List.foldl_nil, hread, client_modifyClient longServer 7 (by exact fun _ => rfl)]
      rfl

/-- An answer that fits the buffer of the client, to a query that does not fit that of `build_cmd`. -/
theorem long_query_unanswered : ¬∀ u ups, Servable u ups → ListGetAgree u ups := by
  intro hall
  have hnode : newNode longName [] ∈ longUps.inforoot.walk := List.mem_singleton_self _
  have hserves : Serves allWritten longServer 7 := ⟨⟨longClient, rfl, atLineStart_pconfInit⟩, fun _ => rfl⟩
  have hexchange := exchange_longQuery
  rw [← buildCmd_longQuery] at hexchange
  obtain ⟨conn', hget, -⟩ := ((hall _ _ servable_longUps).get _ hnode (by decide) _ _ _ hserves rfl).2
    .connected _ _ ⟨⟨rfl, .init⟩, rfl⟩ hexchange
  -- there is nothing to read
  have hask : (upscliAsk .connected ⟨longQuery.length, []⟩ longQuery).2.2 = none := by
    rw [upscliAsk, longQuery_length]
    rfl
  rw [buildCmd_longQuery] at hget
  change upscliGet _ _ ["VAR".toList, "ups".toList, longName] = _ at hget
  rw [upscliGet, buildCmd_longQuery] at hget
  rcases hanswer : upscliAsk .connected ⟨longQuery.length, []⟩ longQuery with ⟨ups, reads, tmp⟩
  rw [hanswer] at hask hget
  simp only at hask
  subst hask
  simp at hget

end Nut
