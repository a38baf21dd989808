import Nut.Common.Lines

/-!
# Blanks around `=`

An `=` that is not in quotes and not escaped is a word of its own: it completes the word before it, and the parser is
between two words after it.  Blanks on either side of it do the same, so that they make no difference
(`respaced_line`).
-/

namespace Nut

/-- A blank within a line. -/
def Blank (c : Char) : Prop := isspace c = true ∧ c ≠ '\n'

instance (c : Char) : Decidable (Blank c) := inferInstanceAs (Decidable (_ ∧ _))

/-- Not in quotes and not after a backslash. -/
def Unquoted (ctx : PconfCtx) : Prop := ctx.state ≠ .quotecollect ∧ ctx.state ≠ .qcLiteral ∧ ctx.state ≠ .collectliteral

instance (ctx : PconfCtx) : Decidable (Unquoted ctx) := inferInstanceAs (Decidable (_ ∧ _))

/-- The second text is the first with blanks around some of the `=` that are read neither in quotes nor escaped. -/
inductive Respaced : PconfCtx → CStr → CStr → Prop
  | nil (ctx : PconfCtx) : Respaced ctx [] []
  | equals {ctx : PconfCtx} {before after s s' : CStr} (hctx : Unquoted ctx) (hbefore : ∀ c ∈ before, Blank c)
      (hafter : ∀ c ∈ after, Blank c) (h : Respaced (parseChar ctx '=') s s') :
      Respaced ctx ('=' :: s) (before ++ '=' :: (after ++ s'))
  | char {ctx : PconfCtx} {s s' : CStr} (c : Char) (h : Respaced (parseChar ctx c) s s') : Respaced ctx (c :: s) (c :: s')

section

variable {ctx : PconfCtx} {c : Char} {before after s s' : CStr}

theorem Blank.ne (h : Blank c) : c ≠ '\n' ∧ c ≠ '#' := by
  refine ⟨h.2, ?_⟩
  rintro rfl
  exact absurd h.1 (by decide)

/-- Between words and in a comment a blank does nothing. -/
theorem parseChar_blank (hctx : ctx.state = .findwordstart ∨ ctx.state = .findeol) (hc : Blank c) :
    parseChar ctx c = ctx := by
  rcases hctx with hs | hs
  · have hfind : findwordstart ctx c = (ctx, .findwordstart) := by
      rw [findwordstart, if_neg hc.ne.1, if_neg hc.ne.2, if_pos hc.1]
    rw [parseChar, hs]
    simp only [hfind, ← hs]
  · have hfind : findeol ctx c = (ctx, .findeol) := by
      rw [findeol, if_neg hc.2]
    rw [parseChar, hs]
    simp only [hfind, ← hs]

theorem parseLoop_blanks (hctx : ctx.state = .findwordstart ∨ ctx.state = .findeol) (hblank : ∀ c ∈ after, Blank c)
    (r : CStr) : parseLoop ctx (after ++ r) = parseLoop ctx r := by
  have hne : ctx.state ≠ .parseerr ∧ ctx.state ≠ .endofline := by
    rcases hctx with hs | hs <;> rw [hs] <;> decide
  induction after with
  | nil => rfl
  | cons c after ih =>
    rw [List.cons_append, parseLoop, parseChar_blank hctx (hblank c List.mem_cons_self), if_neg hne.1, if_neg hne.2]
    exact ih fun d hd => hblank d (List.mem_cons_of_mem c hd)

/-- The context in another state. -/
theorem endofword_inState (ctx : PconfCtx) (st : PState) :
    endofword { ctx with state := st } = { endofword ctx with state := st } := by
  unfold endofword
  split_ifs <;> rfl

theorem addchar_inState (ctx : PconfCtx) (ch : Char) (st : PState) :
    addchar { ctx with state := st } ch = { addchar ctx ch with state := st } := by
  unfold addchar
  split_ifs <;> rfl

theorem findwordstart_equals (ctx : PconfCtx) : findwordstart ctx '=' = (endofword (addchar ctx '='), .findwordstart) := rfl

/-- A blank completes the word as `=` does. -/
theorem parseChar_ended (hctx : ctx.state = .collect) (hc : Blank c) :
    (parseChar ctx c).state = .findwordstart ∧ parseChar (parseChar ctx c) '=' = parseChar ctx '=' := by
  have hblank : parseChar ctx c = { endofword ctx with state := .findwordstart } := by
    have hcollect : collect ctx c = (endofword ctx, .findwordstart) := by
      rw [collect, if_neg hc.ne.2, if_neg hc.ne.1, if_pos hc.1]
    rw [parseChar, hctx]
    simp only [hcollect]
  have hequals : parseChar ctx '=' = { endofword (addchar (endofword ctx) '=') with state := .findwordstart } := by
    rw [parseChar, hctx]
    rfl
  refine ⟨by rw [hblank], ?_⟩
  rw [hblank, hequals, parseChar]
  simp only [findwordstart_equals, addchar_inState, endofword_inState]

/-- After an `=` the parser is between two words, or still in the comment. -/
theorem state_equals (hctx : ctx.state = .findwordstart ∨ ctx.state = .findeol ∨ ctx.state = .collect) :
    (parseChar ctx '=').state = .findwordstart ∨ (parseChar ctx '=').state = .findeol := by
  rcases hctx with hs | hs | hs
  · exact .inl (by rw [parseChar, hs]; rfl)
  · exact .inr (by rw [parseChar, hs]; rfl)
  · exact .inl (by rw [parseChar, hs]; rfl)

/-- Blanks before an `=` do what it does first. -/
theorem parseLoop_before (hctx : ctx.state = .findwordstart ∨ ctx.state = .findeol ∨ ctx.state = .collect)
    (hblank : ∀ c ∈ before, Blank c) (r : CStr) : parseLoop ctx (before ++ '=' :: r) = parseLoop ctx ('=' :: r) := by
  by_cases hcollect : ctx.state = .collect
  · cases before with
    | nil => rfl
    | cons c before =>
      obtain ⟨hstate, hequals⟩ := parseChar_ended hcollect (hblank c List.mem_cons_self)
      have hne : (parseChar ctx c).state ≠ .parseerr ∧ (parseChar ctx c).state ≠ .endofline := by
        rw [hstate]
        decide
      rw [List.cons_append, parseLoop, if_neg hne.1, if_neg hne.2,
        parseLoop_blanks (.inl hstate) (fun d hd => hblank d (List.mem_cons_of_mem c hd)), parseLoop, hequals, parseLoop]
  · exact parseLoop_blanks (by tauto) hblank _

end

/-- What the loop leaves in the context, and whether it left the text before its end. -/
def outcome (r : PconfCtx × Option CStr) : PconfCtx × Bool := (r.1, r.2.isSome)

theorem outcome_cons (ctx : PconfCtx) (ch : Char) (s : CStr) : outcome (parseLoop ctx (ch :: s)) =
    if (parseChar ctx ch).state = .parseerr ∨ (parseChar ctx ch).state = .endofline then (parseChar ctx ch, true)
    else outcome (parseLoop (parseChar ctx ch) s) := by
  rw [parseLoop]
  split_ifs <;> simp_all [outcome]

theorem Respaced.outcome {ctx : PconfCtx} {s s' : CStr} (h : Respaced ctx s s') :
    outcome (parseLoop ctx s') = outcome (parseLoop ctx s) := by
  induction h with
  | nil ctx => rfl
  | char c h ih => rw [outcome_cons, outcome_cons, ih]
  | @equals ctx before after s s' hctx hbefore hafter h ih =>
    by_cases hended : ctx.state = .parseerr ∨ ctx.state = .endofline
    · -- nothing is read any more
      have hsame : ∀ ch, parseChar ctx ch = ctx := by
        intro ch
        rcases hended with hs | hs <;> rw [parseChar, hs]
      cases before with
      | nil => rw [List.nil_append, outcome_cons, outcome_cons, hsame, if_pos hended, if_pos hended]
      | cons c before =>
        rw [List.cons_append, outcome_cons, outcome_cons, hsame, hsame, if_pos hended, if_pos hended]
    · have hreads : ctx.state = .findwordstart ∨ ctx.state = .findeol ∨ ctx.state = .collect := by
        obtain ⟨h1, h2, h3⟩ := hctx
        rcases hs : ctx.state <;> simp_all
      have hequals := state_equals hreads
      rw [parseLoop_before hreads hbefore, outcome_cons, outcome_cons, parseLoop_blanks hequals hafter, ih]

/-- Blanks around any number of `=` that are neither in quotes nor escaped make no difference to `pconf_line`. -/
theorem respaced_line {ctx : PconfCtx} {line line' : CStr} (h : Respaced (newLine ctx) line line') :
    pconfLine ctx line' = pconfLine ctx line := by
  have hsame := h.outcome
  rcases hp : parseLoop (newLine ctx) line with ⟨c, _ | rest⟩ <;>
    rcases hp' : parseLoop (newLine ctx) line' with ⟨c', _ | rest'⟩ <;>
    rw [hp, hp'] at hsame <;> obtain ⟨rfl, hsome⟩ := Prod.mk.inj hsame
  · rw [pconfLine, pconfLine, hp, hp']
  · simp at hsome
  · simp at hsome
  · rw [pconfLine, pconfLine, hp, hp']

theorem respaced_setting : pconfLine pconfInit "port = \"a=b\"".toList = pconfLine pconfInit "port=\"a=b\"".toList := by
  refine respaced_line ?_
  iterate 4 refine .char _ ?_
  refine @Respaced.equals _ [' '] [' '] _ _ (by decide) (by decide) (by decide) ?_
  -- the second `=` is in quotes
  iterate 5 refine .char _ ?_
  exact .nil _

end Nut
