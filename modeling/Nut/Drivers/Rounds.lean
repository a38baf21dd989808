import Mathlib.Data.Prod.Lex
import Nut.Drivers.Hidparser

/-!
# The rounds of the parser

A round of the loop of `HIDParse` takes an item from the descriptor or one of the fields that are left of a main item, so
the bytes left and the fields left get smaller in the lexicographic order (`Round.left_lt`).  The position is one of 16 bits
and an item, a long one too, has at most 260 bytes, so a descriptor that fits its buffer ends long before it wraps around.

The calls of `Parse_ReportDesc` go on where the last one stopped: its whole run is one sequence of rounds.
-/

namespace Nut.Hid

/-- After `k` rounds the parser stands there. -/
inductive Rounds (reportDesc : Nat → UInt8) (n : Nat) : Nat → HIDParser → Prop
  | start : Rounds reportDesc n 0 .init
  | round {k : Nat} {p p' : HIDParser} (hp : Rounds reportDesc n k p) (h : Round reportDesc n p p') :
      Rounds reportDesc n (k + 1) p'

/-- The bytes that are left, and the fields that are left of the item. -/
def left (n : Nat) (p : HIDParser) : Nat ×ₗ Nat := toLex (n - p.pos, p.count)

/-- A round goes outside of the tables. -/
def Stopped (reportDesc : Nat → UInt8) (n : Nat) : Prop :=
  ∃ k p, Rounds reportDesc n k p ∧ p.pos < n ∧ hidItem (if p.count = 0 then nextItem reportDesc p else p) = none

/-- The parser ends on a descriptor. -/
structure Terminates (reportDesc : Nat → UInt8) (n : Nat) : Prop where
  position : ∀ k p, Rounds reportDesc n k p → p.pos ≤ n + 260
  rounds : ∀ k p, Rounds reportDesc n k p → k + (256 * (n - p.pos) + p.count) ≤ 256 * n
  forward : ∀ k p p', Rounds reportDesc n k p → Round reportDesc n p p' →
    p'.pos = p.pos + consumed reportDesc p ∧ left n p' < left n p
  finite : ¬∃ f : Nat → HIDParser, f 0 = .init ∧ ∀ i, Round reportDesc n (f i) (f (i + 1))
  call : ∀ k p, Rounds reportDesc n k p → ∀ fuel, n < fuel → hidParse reportDesc n fuel p = hidParse reportDesc n (n + 1) p
  field : ∀ k p p' r, Rounds reportDesc n k p → hidParse reportDesc n (n + 1) p = some (p', some r) →
    (∃ k', Rounds reportDesc n k' p') ∧ left n p' < left n p
  loop : ∀ d fuel, 256 * (n + 1) ≤ fuel →
    parseLoop reportDesc n fuel .init d = parseLoop reportDesc n (256 * (n + 1)) .init d
  result : ¬Stopped reportDesc n → (∀ k p, Rounds reportDesc n k p → (hidParse reportDesc n (n + 1) p).isSome) ∧
    ∀ d, (parseLoop reportDesc n (256 * (n + 1)) .init d).isSome

section Descriptor

variable {reportDesc : Nat → UInt8} {n : Nat}

theorem Round.left_lt {p p' : HIDParser} (h : Round reportDesc n p p') (hn : n ≤ reportDscSize) (hb : Busy p) :
    left n p' < left n p := by
  have hmore := h.more
  unfold left
  rw [Prod.Lex.toLex_lt_toLex]
  rcases h.takes hn hb with ⟨-, hpos, -⟩ | ⟨hleft, hpos, hcount⟩
  · exact .inl (by dsimp only; omega)
  · exact .inr ⟨by rw [hpos], by dsimp only; omega⟩

theorem Rounds.busy {k : Nat} {p : HIDParser} (h : Rounds reportDesc n k p) : Busy p := by
  induction h with
  | start => exact fun hne => absurd rfl hne
  | round _ h ih => exact h.busy ih

theorem Rounds.pos_le {k : Nat} {p : HIDParser} (h : Rounds reportDesc n k p) (hn : n ≤ reportDscSize) : p.pos ≤ n + 260 := by
  cases h with
  | start => exact Nat.zero_le _
  | @round _ p _ hp h =>
    have hmore := h.more
    have hle := consumed_le reportDesc p
    rw [h.pos_eq hn hp.busy]
    omega

theorem Rounds.bound {k : Nat} {p : HIDParser} (h : Rounds reportDesc n k p) (hn : n ≤ reportDscSize) :
    k + (256 * (n - p.pos) + p.count) ≤ 256 * n := by
  induction h with
  | start => exact (Nat.zero_add _).le
  | round hp h ih =>
    have hmore := h.more
    rcases h.takes hn hp.busy with htakes | htakes
    · omega
    · omega

theorem Rounds.trans {k : Nat} {p p' : HIDParser} (h : Rounds reportDesc n k p)
    (hrounds : Relation.ReflTransGen (Round reportDesc n) p p') : ∃ k', Rounds reportDesc n k' p' := by
  induction hrounds with
  | refl => exact ⟨k, h⟩
  | tail _ hround ih =>
    obtain ⟨k', h'⟩ := ih
    exact ⟨k' + 1, h'.round hround⟩

/-- With enough fuel a call has a result unless a round goes outside of the tables. -/
theorem stopped_of_hidParse {k fuel : Nat} {p : HIDParser} (hn : n ≤ reportDscSize) (h : Rounds reportDesc n k p)
    (hfuel : n - p.pos < fuel) (hcall : hidParse reportDesc n fuel p = none) : Stopped reportDesc n := by
  induction fuel generalizing k p with
  | zero => omega
  | succ fuel ih =>
    rw [Hid.hidParse] at hcall
    by_cases hpos : p.pos < n
    · rw [if_pos hpos] at hcall
      cases hq : hidItem (if p.count = 0 then nextItem reportDesc p else p) with
      | none => exact ⟨k, p, h, hpos, hq⟩
      | some res =>
        obtain ⟨q, _ | r⟩ := res
        · have hround := Round.of_hidItem hpos hq
          simp only [hq] at hcall
          refine ih (h.round hround) ?_ hcall
          rcases hround.takes hn h.busy with htakes | ⟨hne, -⟩
          · omega
          · have hsome := (hidItem_moved hq).2
            rw [if_neg hne, h.busy hne] at hsome
            cases hsome
        · simp [hq] at hcall
    · simp [if_neg hpos] at hcall

theorem stopped_of_parseLoop {k fuel : Nat} {p : HIDParser} {d : HIDDesc} (hn : n ≤ reportDscSize)
    (h : Rounds reportDesc n k p) (hfuel : 256 * (n - p.pos) + p.count < fuel)
    (hloop : parseLoop reportDesc n fuel p d = none) : Stopped reportDesc n := by
  induction fuel generalizing k p d with
  | zero => omega
  | succ fuel ih =>
    rw [parseLoop] at hloop
    split_ifs at hloop
    cases hcall : hidParse reportDesc n (n + 1) p with
    | none => exact stopped_of_hidParse hn h (by omega) hcall
    | some res =>
      obtain ⟨p', _ | r⟩ := res
      · simp [hcall] at hloop
      · simp only [hcall] at hloop
        obtain ⟨k', h'⟩ := h.trans (hidParse_rounds hcall).1
        have hlt := (hidParse_moves hn h.busy hcall).2
        exact ih h' (by omega) hloop

theorem hidParse_eq {k fuel : Nat} {p : HIDParser} (hn : n ≤ reportDscSize) (h : Rounds reportDesc n k p) (hfuel : n < fuel) :
    hidParse reportDesc n fuel p = hidParse reportDesc n (n + 1) p := by
  induction fuel, hfuel using Nat.le_induction with
  | base => rfl
  | succ fuel hfuel ih => rw [hidParse_fuel hn h.busy (by omega), ih]

theorem parseLoop_eq {fuel : Nat} (hn : n ≤ reportDscSize) (d : HIDDesc) (hfuel : 256 * (n + 1) ≤ fuel) :
    parseLoop reportDesc n fuel .init d = parseLoop reportDesc n (256 * (n + 1)) .init d := by
  induction fuel, hfuel using Nat.le_induction with
  | base => rfl
  | succ fuel hfuel ih =>
    have hbound : 256 * (n - HIDParser.init.pos) + HIDParser.init.count < fuel := by
      simp only [HIDParser.init]
      omega
    rw [parseLoop_fuel hn d (show Rounds reportDesc n 0 .init from .start).busy hbound, ih]

/-- The run of rounds has an end. -/
theorem not_forever (hn : n ≤ reportDscSize) :
    ¬∃ f : Nat → HIDParser, f 0 = .init ∧ ∀ i, Round reportDesc n (f i) (f (i + 1)) := by
  rintro ⟨f, hstart, hround⟩
  have hrounds : ∀ k, Rounds reportDesc n k (f k) := by
    intro k
    induction k with
    | zero => exact hstart ▸ .start
    | succ k ih => exact ih.round (hround k)
  have hbound := (hrounds (256 * n + 1)).bound hn
  omega

/-- `HIDParse` ends, and so does the loop of `Parse_ReportDesc`. -/
theorem parseReportDesc_terminates (hn : n ≤ reportDscSize) : Terminates reportDesc n where
  position _ _ h := h.pos_le hn
  rounds _ _ h := h.bound hn
  forward _ _ _ h hround := ⟨hround.pos_eq hn h.busy, hround.left_lt hn h.busy⟩
  finite := not_forever hn
  call _ _ h _ hfuel := hidParse_eq hn h hfuel
  field _ _ _ _ h hcall := by
    obtain ⟨hrefl, htrans⟩ := hidParse_rounds hcall
    exact ⟨h.trans hrefl, (transGen_lt (fun _ _ hb hround => hround.left_lt hn hb) h.busy (htrans rfl)).2⟩
  loop d _ hfuel := parseLoop_eq hn d hfuel
  result hstopped := by
    refine ⟨fun k p h => ?_, fun d => ?_⟩
    · rw [Option.isSome_iff_ne_none]
      exact fun hcall => hstopped (stopped_of_hidParse hn h (by omega) hcall)
    · rw [Option.isSome_iff_ne_none]
      intro hloop
      refine hstopped (stopped_of_parseLoop hn .start ?_ hloop)
      simp only [HIDParser.init]
      omega

/-- A long item of 260 bytes in a descriptor of one byte. -/
theorem parseReportDesc_terminates_long : 1 ≤ reportDscSize ∧ Terminates (memory [0xFF, 0xFF]) 1 :=
  ⟨by decide, parseReportDesc_terminates (by decide)⟩

end Descriptor

end Nut.Hid
