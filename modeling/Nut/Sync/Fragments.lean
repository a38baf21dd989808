import Nut.Common.Lexer
import Nut.Drivers.Dstate
import Nut.Server.Netcmds

/-!
# Lines that arrive in pieces

`client_readline`, `sstate_readline` and `sock_read` hand the lines of what `read` returns to `parse_net`, `parse_args` and
`sock_arg`; each does so with the lists that `readLoop` hands to a handler that records them (`clientReadline_eq`,
`sstateReadline_eq`, `sockRead_calls`).  At a parse error they leave the rest of the buffer, so the lists depend on the
cut of a stream exactly if a newline comes after a rejected character (`fragments_agree_iff`).
-/

namespace Nut

open ChunkReader Lexer

/-- A handler that records the argument lists it is given. -/
def record (lines : List (List CStr)) (numargs : Nat) (arglist : List CStr) : List (List CStr) :=
  lines ++ [arglist.take numargs]

/-- The argument lists that a reader executes for the results of successive calls of `read`. -/
def executed (ctx : PconfCtx) : List CStr → List (List CStr)
  | [] => []
  | buf :: chunks =>
    match readLoop record ctx [] buf with
    | (ctx, lines) => lines ++ executed ctx chunks

/-! ### The three readers -/

private theorem foldl_record (lines : List (List CStr)) (calls : List (Nat × List CStr)) :
    calls.foldl (fun s l => record s l.1 l.2) lines = lines ++ calls.map fun l => l.2.take l.1 := by
  induction calls generalizing lines with
  | nil => simp
  | cons l calls ih => rw [List.foldl_cons, ih, record, List.append_assoc, List.map_cons, List.singleton_append]

theorem readLoop_record (ctx : PconfCtx) (buf : CStr) : readLoop record ctx [] buf =
    ((readChunk pconfStep ctx buf).1, (readChunk pconfStep ctx buf).2.map fun l => l.2.take l.1) := by
  rw [readLoop_eq, foldl_record, List.nil_append]

theorem executed_eq (ctx : PconfCtx) (chunks : List CStr) :
    executed ctx chunks = (readChunks pconfStep ctx chunks).2.map fun l => l.2.take l.1 := by
  induction chunks generalizing ctx with
  | nil => rfl
  | cons buf chunks ih =>
    rw [executed, readLoop_record]
    simp only [ih, readChunks, List.map_append]

/-- `client_readline` executes the recorded lists. -/
theorem clientReadline_eq {s : Upsd} {fd : Nat} {client : NutCtype} (hclient : s.client fd = some client) {buf : CStr}
    (hbuf : buf ≠ []) (now : Int) (w : Writes) : clientReadline now w s fd (some buf) =
      ((readLoop record client.ctx [] buf).2.foldl (fun s args => netLine now w fd s args.length args) s).modifyClient fd
        fun client' => { client' with ctx := (readLoop record client.ctx [] buf).1 } := by
  have hargs (s : Upsd) (l : Nat × List CStr) :
      netLine now w fd s l.1 l.2 = netLine now w fd s (l.2.take l.1).length (l.2.take l.1) := by
    rw [netLine, netLine, List.take_length]
  obtain ⟨ch, rest, rfl⟩ := List.exists_cons_of_ne_nil hbuf
  unfold clientReadline
  rw [hclient, readLoop_record]
  dsimp only
  rw [readLoop_eq, List.foldl_map]
  simp only [← hargs]

/-- `sstate_readline` executes them, with the slots that `parse_args` may look at. -/
theorem sstateReadline_eq {ups : Upstype} (hfd : ups.sockFd ≠ none) (now : Int) (buf : CStr) :
    ∃ calls : List (Nat × List CStr), calls.map (fun l => l.2.take l.1) = (readLoop record ups.sockCtx [] buf).2 ∧
      sstateReadline now ups (.data buf) = (calls.foldl (fun s l => sstateLine now s l.1 l.2) (some ups)).map
        fun ups' => { ups' with sockCtx := (readLoop record ups.sockCtx [] buf).1 } := by
  obtain ⟨fd, hsome⟩ := Option.ne_none_iff_exists'.1 hfd
  refine ⟨(readChunk pconfStep ups.sockCtx buf).2, by rw [readLoop_record], ?_⟩
  unfold sstateReadline
  rw [hsome, readLoop_record]
  simp only [readLoop_eq]

/-- The calls of `sock_arg` in a run of `sock_read`; in between only the parser of the connection goes on. -/
inductive Calls (w : Nat → Bool) (upsh : UpsHandler) (fd : Nat) : Dstate → List (List CStr) → Dstate → Prop
  | done (d : Dstate) : Calls w upsh fd d [] d
  | parse {d d' : Dstate} {lines : List (List CStr)} (ctx : PconfCtx) (h : Calls w upsh fd (setConnCtx d fd ctx) lines d') :
      Calls w upsh fd d lines d'
  | line {d d' : Dstate} {lines : List (List CStr)} (numarg : Nat) (arg : List CStr)
      (h : Calls w upsh fd (sockArg w upsh fd d numarg arg).1 lines d') : Calls w upsh fd d (arg.take numarg :: lines) d'

/-- `sock_read` executes them, where `sock_arg` leaves the parser of the connection alone. -/
theorem sockRead_calls {w : Nat → Bool} {upsh : UpsHandler} {fd : Nat}
    (hkeeps : ∀ d numarg arg, connCtx (sockArg w upsh fd d numarg arg).1 fd = connCtx d fd) {d : Dstate} {ctx : PconfCtx}
    (hctx : connCtx d fd = some ctx) (buf : CStr) :
    ∃ d', sockRead w upsh fd d (.data buf) = some d' ∧ Calls w upsh fd d (readLoop record ctx [] buf).2 d' ∧
      connCtx d' fd = some (readLoop record ctx [] buf).1 := by
  simp only [sockRead, readLoop_record]
  induction buf generalizing d ctx with
  | nil => exact ⟨d, rfl, .done d, hctx⟩
  | cons ch buf ih =>
    obtain ⟨conn, hc, rfl⟩ := Option.map_eq_some_iff.1 hctx
    have hparsed (ctx : PconfCtx) : connCtx (setConnCtx d fd ctx) fd = some ctx := connCtx_setConnCtx hc ctx
    simp only [sockReadLoop, hc, readChunk, pconfStep]
    rcases pconfChar conn.ctx ch with ⟨ctx, _ | _ | _⟩
    · obtain ⟨d', hrun, hcalls, hctx'⟩ := ih (hparsed ctx)
      exact ⟨d', hrun, .parse ctx hcalls, hctx'⟩
    · obtain ⟨d', hrun, hcalls, hctx'⟩ := ih ((hkeeps _ ctx.numargs ctx.arglist).trans (hparsed ctx))
      exact ⟨d', hrun, .parse ctx (.line ctx.numargs ctx.arglist hcalls), hctx'⟩
    · exact ⟨_, rfl, .parse ctx (.done _), hparsed ctx⟩

/-! ### The cuts of a stream -/

/-- The results of successive calls of `read` on the stream. -/
def Cut (stream : CStr) (chunks : List CStr) : Prop := chunks.flatten = stream ∧ ∀ c ∈ chunks, c ≠ []

instance (stream : CStr) (chunks : List CStr) : Decidable (Cut stream chunks) := inferInstanceAs (Decidable (_ ∧ _))

/-- The parser rejects what the lexer rejects. -/
private theorem afterReject_pconf (stream : CStr) :
    afterReject pconfStep pconfInit stream = afterReject Lexer.step start stream :=
  (readChunk_overlays atLineStart_pconfInit stream).2.2

private theorem executed_lexer (chunks : List CStr) : executed pconfInit chunks = (readChunks Lexer.step start chunks).2 := by
  rw [executed_eq, readChunks_args atLineStart_pconfInit]

/-- A line that is cut after the rejected character is executed in part, and is lost if it is not. -/
private theorem exists_cuts {stream u v : CStr} (h : afterReject pconfStep pconfInit stream = some (u ++ '\n' :: v)) {n : Nat}
    (hn : u.length + 2 ≤ n) : ∃ cs ds, Cut stream cs ∧ Cut stream ds ∧ (∀ c ∈ cs ++ ds, c.length ≤ n) ∧
      executed pconfInit cs ≠ executed pconfInit ds := by
  rw [afterReject_pconf] at h
  obtain ⟨cs, ds, hcs, hds, hall, hne⟩ := delimited.exists_cuts_differ h hn
  refine ⟨cs, ds, ⟨hcs, fun c hc => ?_⟩, ⟨hds, fun c hc => ?_⟩, fun c hc => (hall c hc).2, ?_⟩
  · exact (hall c (List.mem_append_left ds hc)).1
  · exact (hall c (List.mem_append_right cs hc)).1
  · rwa [executed_lexer, executed_lexer]

/-- What a reader executes does not depend on how the stream is cut exactly if no newline comes after the first
rejected character.  Where one comes soon, two cuts differ that fit the buffers. -/
theorem fragments_agree_iff (stream : CStr) :
    ((∀ cs ds, Cut stream cs → Cut stream ds → executed pconfInit cs = executed pconfInit ds) ↔
      ∀ rest, afterReject pconfStep pconfInit stream = some rest → '\n' ∉ rest) ∧
    ∀ u v, afterReject pconfStep pconfInit stream = some (u ++ '\n' :: v) → u.length + 2 ≤ smallbuf →
      ∃ cs ds, Cut stream cs ∧ Cut stream ds ∧ (∀ c ∈ cs ++ ds, c.length ≤ smallbuf) ∧
        executed pconfInit cs ≠ executed pconfInit ds := by
  refine ⟨⟨fun h rest hrest hnl => ?_, fun h cs ds hcs hds => ?_⟩, fun u v h hlen => exists_cuts h hlen⟩
  · obtain ⟨u, v, rfl⟩ := List.append_of_mem hnl
    obtain ⟨cs, ds, hcs, hds, -, hne⟩ := exists_cuts hrest (Nat.le_refl _)
    exact hne (h cs ds hcs hds)
  · rw [executed_lexer, executed_lexer]
    refine delimited.readChunks_independent (fun rest hrest => h rest ?_) hcs.1 hds.1
    rw [afterReject_pconf, hrest]

/-- After an unescaped `#` in quotes, the next line is executed only when it comes with another `read`. -/
theorem fragments_differ : ¬(∀ stream cs ds, Cut stream cs → Cut stream ds → executed pconfInit cs = executed pconfInit ds) := by
  intro hall
  have h := hall "SET VAR u v \"#1\"\nVER\n".toList ["SET VAR u v \"#1\"\nVER\n".toList]
    ["SET VAR u v \"#1\"".toList, "\nVER\n".toList] (by decide) (by decide)
  exact absurd h (by decide)

end Nut
