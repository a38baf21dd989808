import Nut.Common.Lexer
import Nut.Drivers.Dstate

/-!
# What a driver reads

A line that arrives on a connection, in whatever pieces, is one call of `sock_arg` with its words, after which the parser
of the connection is between two lines (`sockReads_line`).  Bytes without a newline make no call
(`sockReadLoop_no_newline`).
-/

namespace Nut

open ChunkReader Lexer

/-- The results of successive calls of `sock_read` on a connection. -/
def sockReads (w : Nat → Bool) (upsh : UpsHandler) (fd : Nat) (d : Dstate) (chunks : List CStr) : Option Dstate :=
  chunks.foldlM (fun d buf => sockRead w upsh fd d (.data buf)) d

/-- `d'` differs from `d` only in the parser of the connection. -/
def SameButCtx (fd : Nat) (d d' : Dstate) : Prop := ∀ ctx, setConnCtx d' fd ctx = setConnCtx d fd ctx

namespace SameButCtx

variable {fd : Nat} {d d' d'' : Dstate}

theorem refl (fd : Nat) (d : Dstate) : SameButCtx fd d d := fun _ => rfl

theorem trans (h : SameButCtx fd d d') (h' : SameButCtx fd d' d'') : SameButCtx fd d d'' :=
  fun ctx => (h' ctx).trans (h ctx)

theorem setConnCtx (fd : Nat) (d : Dstate) (ctx : PconfCtx) : SameButCtx fd d (setConnCtx d fd ctx) := by
  intro ctx'
  unfold Nut.setConnCtx
  dsimp only
  rw [List.map_map]
  congr 2
  funext conn
  rw [Function.comp_apply]
  split_ifs <;> simp_all

theorem cmdhead (h : SameButCtx fd d d') : d'.cmdhead = d.cmdhead :=
  (congrArg Dstate.cmdhead (h pconfInit) : (Nut.setConnCtx d' fd pconfInit).cmdhead = _)

theorem dtreeRoot (h : SameButCtx fd d d') : d'.dtreeRoot = d.dtreeRoot :=
  (congrArg Dstate.dtreeRoot (h pconfInit) : (Nut.setConnCtx d' fd pconfInit).dtreeRoot = _)

theorem stale (h : SameButCtx fd d d') : d'.stale = d.stale :=
  (congrArg Dstate.stale (h pconfInit) : (Nut.setConnCtx d' fd pconfInit).stale = _)

end SameButCtx

variable {w : Nat → Bool} {upsh : UpsHandler} {fd : Nat} {d : Dstate} {conn : Conn} {A : List CStr} {l t : Lexer}

private theorem find_setConnCtx_some (hc : (d.connhead.find? fun conn => conn.fd = fd) = some conn) (ctx : PconfCtx) :
    ((setConnCtx d fd ctx).connhead.find? fun conn => conn.fd = fd) = some { conn with ctx := ctx } := by
  rw [find_setConnCtx, hc, Option.map_some]

/-- Characters that complete no line change the parser of the connection. -/
theorem sockReadLoop_silent (hc : (d.connhead.find? fun conn => conn.fd = fd) = some conn) (hl : Loaded A l conn.ctx)
    {buf : CStr} (hs : silent Lexer.step l buf = some t) (rest : CStr) :
    ∃ d' ctx', sockReadLoop w upsh fd d (buf ++ rest) = sockReadLoop w upsh fd d' rest ∧ SameButCtx fd d d' ∧
      (d'.connhead.find? fun conn => conn.fd = fd) = some { conn with ctx := ctx' } ∧ Loaded A t ctx' := by
  induction buf generalizing d conn l with
  | nil =>
    obtain rfl := Option.some.inj hs
    exact ⟨d, conn.ctx, rfl, .refl fd d, hc, hl⟩
  | cons ch buf ih =>
    have hsim := pconfStep_simulates hl ch
    rcases hstep : l.step ch with ⟨l', _ | ws | _⟩
    · simp only [silent, hstep] at hs
      rw [hstep] at hsim
      obtain ⟨hmore, hl'⟩ := hsim
      rcases hp : pconfChar conn.ctx ch with ⟨ctx', _ | _ | _⟩
      · simp only [pconfStep, hp] at hl'
        obtain ⟨d', ctx'', hrun, hsame, hfind, ht⟩ := ih (find_setConnCtx_some hc ctx') hl' hs
        refine ⟨d', ctx'', ?_, (SameButCtx.setConnCtx fd d ctx').trans hsame, hfind, ht⟩
        rw [List.cons_append, sockReadLoop, hc]
        simp only [hp]
        exact hrun
      · simp [pconfStep, hp] at hmore
      · simp [pconfStep, hp] at hmore
    · simp [silent, hstep] at hs
    · simp [silent, hstep] at hs

/-- A line is one call of `sock_arg`, made with the parser between two lines. -/
theorem sockReadLoop_line (hc : (d.connhead.find? fun conn => conn.fd = fd) = some conn) (hl : Loaded A l conn.ctx)
    {chan : CStr} {ws : List CStr} (h : ReadsAs Lexer.step l chan Lexer.start ws) (rest : CStr) :
    ∃ ctx', AtLineStart ctx' ∧ sockReadLoop w upsh fd d (chan ++ rest) =
      sockReadLoop w upsh fd (sockArg w upsh fd (setConnCtx d fd ctx') ws.length (ws ++ A.drop ws.length)).1 rest := by
  obtain ⟨body, b, t, rfl, hs, hitem⟩ := h
  obtain ⟨d₁, ctx₁, hrun, hsame, hfind, ht⟩ := @sockReadLoop_silent w upsh fd d conn A l t hc hl body hs (b :: rest)
  have hsim := pconfStep_simulates ht b
  rw [hitem] at hsim
  obtain ⟨hline, hstart⟩ := hsim
  rcases hp : pconfChar ctx₁ b with ⟨ctx₂, _ | _ | _⟩
  · simp [pconfStep, hp] at hline
  · simp only [pconfStep, hp, Outcome.item.injEq, Prod.mk.injEq] at hline hstart
    refine ⟨ctx₂, hstart.atLineStart, ?_⟩
    rw [List.append_assoc, List.singleton_append, hrun, sockReadLoop, hfind]
    simp only [hp, hline.1, hline.2, hsame ctx₂]
  · simp [pconfStep, hp] at hline

/-- Without a newline, bytes are read to the end or up to a rejected one. -/
private theorem silent_or_rejected (hc : (d.connhead.find? fun conn => conn.fd = fd) = some conn)
    (hl : Loaded A l conn.ctx) {buf : CStr} (hbuf : '\n' ∉ buf) :
    (∃ t, silent Lexer.step l buf = some t) ∨
      ∀ rest, ∃ d', sockReadLoop w upsh fd d (buf ++ rest) = some d' ∧ SameButCtx fd d d' := by
  induction buf generalizing d conn l with
  | nil => exact .inl ⟨l, rfl⟩
  | cons ch buf ih =>
    simp only [List.mem_cons, not_or] at hbuf
    have hsim := pconfStep_simulates hl ch
    rcases hstep : l.step ch with ⟨l', _ | ws | _⟩
    · rw [hstep] at hsim
      obtain ⟨hmore, hl'⟩ := hsim
      rcases hp : pconfChar conn.ctx ch with ⟨ctx', _ | _ | _⟩
      · simp only [pconfStep, hp] at hl'
        rcases ih (find_setConnCtx_some hc ctx') hl' hbuf.2 with ⟨t, ht⟩ | hrun
        · exact .inl ⟨t, by simp only [silent, hstep, ht]⟩
        · refine .inr fun rest => ?_
          obtain ⟨d', hrest, hsame⟩ := hrun rest
          refine ⟨d', ?_, (SameButCtx.setConnCtx fd d ctx').trans hsame⟩
          rw [List.cons_append, sockReadLoop, hc]
          simp only [hp]
          exact hrest
      · simp [pconfStep, hp] at hmore
      · simp [pconfStep, hp] at hmore
    · exact absurd (delimited.item _ _ _ _ hstep).1.symm hbuf.1
    · rw [hstep] at hsim
      obtain ⟨hreject, -⟩ := hsim
      rcases hp : pconfChar conn.ctx ch with ⟨ctx', _ | _ | _⟩
      · simp [pconfStep, hp] at hreject
      · simp [pconfStep, hp] at hreject
      · refine .inr fun rest => ⟨setConnCtx d fd ctx', ?_, .setConnCtx fd d ctx'⟩
        rw [List.cons_append, sockReadLoop, hc]
        simp only [hp]

/-- Without a newline there is no call. -/
theorem sockReadLoop_no_newline (hc : (d.connhead.find? fun conn => conn.fd = fd) = some conn) (hl : Loaded A l conn.ctx)
    {buf : CStr} (hbuf : '\n' ∉ buf) : ∃ d', sockReadLoop w upsh fd d buf = some d' ∧ SameButCtx fd d d' := by
  rcases @silent_or_rejected w upsh fd d conn A l hc hl buf hbuf with ⟨t, ht⟩ | hrun
  · obtain ⟨d', ctx', hrun, hsame, -⟩ := @sockReadLoop_silent w upsh fd d conn A l t hc hl buf ht []
    rw [List.append_nil] at hrun
    exact ⟨d', hrun, hsame⟩
  · obtain ⟨d', hrest, hsame⟩ := hrun []
    rw [List.append_nil] at hrest
    exact ⟨d', hrest, hsame⟩

/-- The newline completes a line, or there is no call. -/
theorem sockReadLoop_newline (hc : (d.connhead.find? fun conn => conn.fd = fd) = some conn) (hl : Loaded A l conn.ctx)
    {body : CStr} (hbody : '\n' ∉ body) : (∃ ws, ReadsAs Lexer.step l (body ++ ['\n']) Lexer.start ws) ∨
      ∃ d', sockReadLoop w upsh fd d (body ++ ['\n']) = some d' ∧ SameButCtx fd d d' := by
  rcases @silent_or_rejected w upsh fd d conn A l hc hl body hbody with ⟨t, ht⟩ | hrun
  · obtain ⟨d', ctx', hrun, hsame, hfind, hl'⟩ := @sockReadLoop_silent w upsh fd d conn A l t hc hl body ht ['\n']
    have hsim := pconfStep_simulates hl' '\n'
    rcases hstep : t.step '\n' with ⟨t', _ | ws | _⟩
    · rw [hstep] at hsim
      obtain ⟨hmore, -⟩ := hsim
      rcases hp : pconfChar ctx' '\n' with ⟨ctx'', _ | _ | _⟩
      · refine .inr ⟨setConnCtx d' fd ctx'', ?_, hsame.trans (.setConnCtx fd d' ctx'')⟩
        rw [hrun, sockReadLoop, hfind]
        simp only [hp]
        rfl
      · simp [pconfStep, hp] at hmore
      · simp [pconfStep, hp] at hmore
    · obtain ⟨-, rfl⟩ := delimited.item _ _ _ _ hstep
      exact .inl ⟨ws, body, '\n', t, rfl, ht, hstep⟩
    · rw [hstep] at hsim
      obtain ⟨hreject, -⟩ := hsim
      rcases hp : pconfChar ctx' '\n' with ⟨ctx'', _ | _ | _⟩
      · simp [pconfStep, hp] at hreject
      · simp [pconfStep, hp] at hreject
      · refine .inr ⟨setConnCtx d' fd ctx'', ?_, hsame.trans (.setConnCtx fd d' ctx'')⟩
        rw [hrun, sockReadLoop, hfind]
        simp only [hp]
  · exact .inr (hrun ['\n'])

private theorem sockReads_nil {d : Dstate} {chunks : List CStr} (h : chunks.flatten = []) :
    sockReads w upsh fd d chunks = some d := by
  induction chunks with
  | nil => rfl
  | cons c chunks ih =>
    rw [List.flatten_cons, List.append_eq_nil_iff] at h
    obtain ⟨rfl, hrest⟩ := h
    exact ih hrest

/-- A line that arrives in pieces is one call of `sock_arg`. -/
theorem sockReads_line (hc : (d.connhead.find? fun conn => conn.fd = fd) = some conn) (hl : Loaded A l conn.ctx)
    {chunks : List CStr} {ws : List CStr} (h : ReadsAs Lexer.step l chunks.flatten Lexer.start ws) :
    ∃ ctx', AtLineStart ctx' ∧ sockReads w upsh fd d chunks =
      some (sockArg w upsh fd (setConnCtx d fd ctx') ws.length (ws ++ A.drop ws.length)).1 := by
  induction chunks generalizing d conn l with
  | nil => obtain ⟨body, b, t, hsplit, -⟩ := h; simp at hsplit
  | cons c chunks ih =>
    rw [List.flatten_cons] at h
    by_cases hrest : chunks.flatten = []
    · -- the newline is in the first piece
      rw [hrest, List.append_nil] at h
      obtain ⟨ctx', hstart, hrun⟩ := @sockReadLoop_line w upsh fd d conn A l hc hl c ws h []
      refine ⟨ctx', hstart, ?_⟩
      rw [List.append_nil] at hrun
      rw [sockReads, List.foldlM_cons, sockRead, hrun]
      exact sockReads_nil hrest
    · obtain ⟨t, ht, hs⟩ := h.split hrest
      obtain ⟨d₁, ctx₁, hrun, hsame, hfind, hl₁⟩ := @sockReadLoop_silent w upsh fd d conn A l t hc hl c ht []
      obtain ⟨ctx', hstart, hline⟩ := ih hfind hl₁ hs
      refine ⟨ctx', hstart, ?_⟩
      rw [List.append_nil] at hrun
      rw [sockReads, List.foldlM_cons, sockRead, hrun]
      rw [hsame ctx'] at hline
      exact hline

end Nut
