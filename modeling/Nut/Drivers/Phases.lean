import Nut.Drivers.Walk

/-!
# The selection by phases

An entry of the table may be meant for one or for three phases of the input, of the output or of the bypass.  When its turn
comes the walk compares these with what is known: the bits that were tested go (`Selected`), so the test is made once, and
an entry that does not pass is out of use.

The test of three bypass phases looks at the input, and an entry with both bits of a kind is taken as one for a single phase.
Where neither matters, and no count changes once it is known, an entry is read only with the phases that it is meant for,
and out of use only where they are known not to be there (`phases_selected`).
-/

namespace Nut

namespace SnmpUps

variable {F : Type}

def mask : PhaseVar → Flags
  | .input => suInphases
  | .output => suOutphases
  | .bypass => suBypphases

def one : PhaseVar → Flags
  | .input => suInput1
  | .output => suOutput1
  | .bypass => suBypass1

def three : PhaseVar → Flags
  | .input => suInput3
  | .output => suOutput3
  | .bypass => suBypass3

/-- The number of phases that the device has, 0 if it is not known. -/
def count (s : Snmp F) : PhaseVar → Int32
  | .input => s.inputPhases
  | .output => s.outputPhases
  | .bypass => s.bypassPhases

/-- The number that is compared with 3. -/
def countOfThree (s : Snmp F) : PhaseVar → Int32
  | .input => s.inputPhases
  | .output => s.outputPhases
  | .bypass => s.inputPhases

/-- The check of a kind of phases. -/
def checkKind (s : Snmp F) (k : PhaseVar) : Flags → Flags × Bool :=
  checkPhases (mask k) (one k) (three k) (count s k) (countOfThree s k)

/-- The check goes on with the entry. -/
def Passes (s : Snmp F) (k : PhaseVar) (flags : Flags) : Prop :=
  if has flags (one k) then count s k = 1 else countOfThree s k = 3

/-- The entry is meant for some numbers of phases of this kind. -/
def Restricted (k : PhaseVar) (flags : Flags) : Prop := has flags (mask k) = true

/-- The entry is meant for the number of phases that the device has. -/
def Allowed (s : Snmp F) (k : PhaseVar) (flags : Flags) : Prop :=
  has flags (one k) ∧ count s k = 1 ∨ has flags (three k) ∧ count s k = 3

/-- The bits of the kinds are apart from each other, and from OK. -/
theorem mask_disjoint {k l : PhaseVar} (h : k ≠ l) : ~~~mask k &&& mask l = mask l := by
  cases k <;> cases l <;> first | exact absurd rfl h | decide

theorem restricted_iff {k : PhaseVar} {flags : Flags} :
    Restricted k flags ↔ has flags (one k) = true ∨ has flags (three k) = true := by
  have hmask : mask k = one k ||| three k := by cases k <;> decide
  rw [Restricted, has_iff, has_iff, has_iff, hmask, BitVec.and_or_distrib_left]
  constructor
  · intro h
    by_contra hno
    obtain ⟨h1, h3⟩ := not_or.1 hno
    rw [not_not.1 h1, not_not.1 h3] at h
    exact h BitVec.or_zero
  · intro h hzero
    obtain ⟨h1, h3⟩ := BitVec.or_eq_zero_iff.1 hzero
    exact h.elim (fun h => h h1) fun h => h h3

/-- What a check may find. -/
theorem checkKind_cases (s : Snmp F) (k : PhaseVar) (flags : Flags) :
    ¬ Restricted k flags ∧ checkKind s k flags = (flags, true) ∨
      Restricted k flags ∧ count s k = 0 ∧ checkKind s k flags = (flags, false) ∨
      Restricted k flags ∧ count s k ≠ 0 ∧ Passes s k flags ∧ checkKind s k flags = (clear flags (mask k), true) ∨
      Restricted k flags ∧ count s k ≠ 0 ∧ ¬ Passes s k flags ∧ checkKind s k flags = (clear flags suFlagOk, false) := by
  unfold checkKind checkPhases Passes
  by_cases hmask : has flags (mask k) = true
  · rw [if_neg (not_not.2 hmask)]
    by_cases hzero : count s k = 0
    · exact .inr (.inl ⟨hmask, hzero, if_pos hzero⟩)
    · refine .inr (.inr ?_)
      rw [if_neg hzero]
      by_cases hone : has flags (one k) = true
      · rw [if_pos hone, if_pos hone]
        by_cases hcount : count s k = 1
        · exact .inl ⟨hmask, hzero, hcount, if_pos hcount⟩
        · exact .inr ⟨hmask, hzero, hcount, if_neg hcount⟩
      · have hthree : has flags (three k) = true := (restricted_iff.1 hmask).resolve_left hone
        rw [if_neg hone, if_neg hone, if_pos hthree]
        by_cases hcount : countOfThree s k = 3
        · exact .inl ⟨hmask, hzero, hcount, if_pos hcount⟩
        · exact .inr ⟨hmask, hzero, hcount, if_neg hcount⟩
  · exact .inl ⟨hmask, if_pos hmask⟩

/-! ### The tests of the walk -/

/-- Flags with the same bits of a kind say the same about it. -/
theorem has_of_mask_eq {k : PhaseVar} {f f' : Flags} (h : f' &&& mask k = f &&& mask k) :
    has f' (one k) = has f (one k) ∧ has f' (three k) = has f (three k) := by
  have hone : mask k &&& one k = one k := by cases k <;> decide
  have hthree : mask k &&& three k = three k := by cases k <;> decide
  constructor
  · refine has_congr ?_
    rw [← hone, ← BitVec.and_assoc, ← BitVec.and_assoc, h]
  · refine has_congr ?_
    rw [← hthree, ← BitVec.and_assoc, ← BitVec.and_assoc, h]

theorem restricted_congr {k : PhaseVar} {f f' : Flags} (h : f' &&& mask k = f &&& mask k) :
    Restricted k f' ↔ Restricted k f := by rw [Restricted, Restricted, has_congr h]

theorem passes_congr {s : Snmp F} {k : PhaseVar} {f f' : Flags} (h : f' &&& mask k = f &&& mask k) :
    Passes s k f' ↔ Passes s k f := by rw [Passes, Passes, (has_of_mask_eq h).1]

theorem allowed_congr {s : Snmp F} {k : PhaseVar} {f f' : Flags} (h : f' &&& mask k = f &&& mask k) :
    Allowed s k f' ↔ Allowed s k f := by rw [Allowed, Allowed, (has_of_mask_eq h).1, (has_of_mask_eq h).2]

/-- An entry that is meant for a number of phases of this kind passed the check for it. -/
def Known (s : Snmp F) (k : PhaseVar) (flags : Flags) : Prop := Restricted k flags ∧ count s k ≠ 0 ∧ Passes s k flags

/-- The flags after the checks of some kinds, all of which were passed. -/
structure Checked (s : Snmp F) (kinds : List PhaseVar) (f f' : Flags) : Prop where
  passed : ∀ k ∈ kinds, Restricted k f → Known s k f
  kept : ∀ k ∉ kinds, f' &&& mask k = f &&& mask k
  bits : ∀ k ∈ kinds, f' &&& mask k = f &&& mask k ∨ f' &&& mask k = 0 ∧ Known s k f
  ok : f' &&& suFlagOk = f &&& suFlagOk

/-- What the tests do to the flags of an entry, and which entries they let through. -/
structure Selected (s : Snmp F) (f f' : Flags) (selection : Selection) : Prop where
  poll : selection = .poll → ∀ k, Restricted k f → Known s k f
  bits : ∀ k, f' &&& mask k = f &&& mask k ∨ f' &&& mask k = 0 ∧ Known s k f
  ok : f' &&& suFlagOk = f &&& suFlagOk ∨
    selection = .skip ∧ f' = clear f' suFlagOk ∧ ∃ k, Restricted k f ∧ count s k ≠ 0 ∧ ¬ Passes s k f

theorem Checked.refl (s : Snmp F) (f : Flags) : Checked s [] f f := ⟨nofun, fun _ _ => rfl, nofun, rfl⟩

theorem Checked.pass {s : Snmp F} {kinds : List PhaseVar} {f f' f'' : Flags} (h : Checked s kinds f f') {k : PhaseVar}
    (hk : k ∉ kinds) (hcheck : checkKind s k f' = (f'', true)) : Checked s (k :: kinds) f f'' := by
  have hsame := h.kept k hk
  rcases checkKind_cases s k f' with
    ⟨hfree, heq⟩ | ⟨-, -, heq⟩ | ⟨hrestricted, hcount, hpass, heq⟩ | ⟨-, -, -, heq⟩
  · obtain ⟨rfl, -⟩ := Prod.mk.inj (heq.symm.trans hcheck)
    refine ⟨fun l hl hrestricted => ?_, fun l hl => h.kept l fun hl' => hl (List.mem_cons_of_mem _ hl'), fun l hl => ?_, h.ok⟩
    · rcases List.mem_cons.1 hl with rfl | hl
      · exact absurd ((restricted_congr hsame).2 hrestricted) hfree
      · exact h.passed l hl hrestricted
    · rcases List.mem_cons.1 hl with rfl | hl
      · exact .inl hsame
      · exact h.bits l hl
  · cases (Prod.mk.inj (heq.symm.trans hcheck)).2
  · obtain ⟨rfl, -⟩ := Prod.mk.inj (heq.symm.trans hcheck)
    have hknown : Known s k f := ⟨(restricted_congr hsame).1 hrestricted, hcount, (passes_congr hsame).1 hpass⟩
    have hzero : clear f' (mask k) &&& mask k = 0 := clear_and_self (by cases k <;> decide)
    have hother : ∀ l, l ≠ k → clear f' (mask k) &&& mask l = f' &&& mask l := fun l hl => clear_and (mask_disjoint (Ne.symm hl))
    refine ⟨fun l hl hrestricted => ?_, fun l hl => ?_, fun l hl => ?_, ?_⟩
    · rcases List.mem_cons.1 hl with rfl | hl
      · exact hknown
      · exact h.passed l hl hrestricted
    · obtain ⟨hne, hl⟩ := not_or.1 (mt List.mem_cons.2 hl)
      rw [hother l hne, h.kept l hl]
    · rcases List.mem_cons.1 hl with rfl | hl
      · exact .inr ⟨hzero, hknown⟩
      · have hne : l ≠ k := fun heq => hk (heq ▸ hl)
        rw [hother l hne]
        exact h.bits l hl
    · rw [clear_and (by cases k <;> decide), h.ok]
  · cases (Prod.mk.inj (heq.symm.trans hcheck)).2

theorem Checked.all_bits {s : Snmp F} {kinds : List PhaseVar} {f f' : Flags} (h : Checked s kinds f f') (k : PhaseVar) :
    f' &&& mask k = f &&& mask k ∨ f' &&& mask k = 0 ∧ Known s k f := by
  by_cases hk : k ∈ kinds
  · exact h.bits k hk
  · exact .inl (h.kept k hk)

theorem Checked.fail {s : Snmp F} {kinds : List PhaseVar} {f f' f'' : Flags} (h : Checked s kinds f f') {k : PhaseVar}
    (hk : k ∉ kinds) (hcheck : checkKind s k f' = (f'', false)) : Selected s f f'' .skip := by
  have hsame := h.kept k hk
  rcases checkKind_cases s k f' with
    ⟨-, heq⟩ | ⟨-, -, heq⟩ | ⟨-, -, -, heq⟩ | ⟨hrestricted, hcount, hpass, heq⟩
  · cases (Prod.mk.inj (heq.symm.trans hcheck)).2
  · obtain ⟨rfl, -⟩ := Prod.mk.inj (heq.symm.trans hcheck)
    exact ⟨nofun, h.all_bits, .inl h.ok⟩
  · cases (Prod.mk.inj (heq.symm.trans hcheck)).2
  · obtain ⟨rfl, -⟩ := Prod.mk.inj (heq.symm.trans hcheck)
    refine ⟨nofun, fun l => ?_, .inr ⟨rfl, (clear_clear _ _).symm, k, ?_, hcount, ?_⟩⟩
    · rw [clear_and (by cases l <;> decide)]
      exact h.all_bits l
    · exact (restricted_congr hsame).1 hrestricted
    · exact fun hpasses => hpass ((passes_congr hsame).2 hpasses)

theorem Selected.refl (s : Snmp F) (f : Flags) {selection : Selection} (h : selection ≠ .poll) : Selected s f f selection :=
  ⟨fun heq => absurd heq h, fun _ => .inl rfl, .inl rfl⟩

/-- The tests are those of the three kinds, one after the other. -/
theorem select_spec (mode : WalkMode) (s : Snmp F) (f : Flags) : Selected s f (select mode s f).1 (select mode s f).2 := by
  unfold select
  split
  · exact .refl s f nofun
  split
  · exact .refl s f nofun
  split
  · exact .refl s f nofun
  split
  · split
    · refine ⟨nofun, fun k => .inl (or_and (by cases k <;> decide)), .inl (or_and (by decide))⟩
    · exact .refl s f nofun
  split
  · exact .refl s f nofun
  have hstart := Checked.refl s f
  split
  · rename_i f₁ hinput
    exact hstart.fail (k := .input) (by decide) hinput
  · rename_i f₁ hinput
    have hin := hstart.pass (k := .input) (by decide) hinput
    split
    · rename_i f₂ houtput
      exact hin.fail (k := .output) (by decide) houtput
    · rename_i f₂ houtput
      have hout := hin.pass (k := .output) (by decide) houtput
      split
      · rename_i f₃ hbypass
        exact hout.fail (k := .bypass) (by decide) hbypass
      · rename_i f₃ hbypass
        have hall := hout.pass (k := .bypass) (by decide) hbypass
        refine ⟨fun _ k => ?_, hall.all_bits, .inl hall.ok⟩
        exact hall.passed k (by cases k <;> decide)

/-- Readings do not change the bits of phases. -/
theorem afterReadings_mask (mode : WalkMode) (rs : List Reading) (k : PhaseVar) (f : Flags) :
    afterReadings mode f rs &&& mask k = f &&& mask k :=
  afterReadings_keeps (by cases k <;> decide) mode rs f

/-- Where the tests do not let an entry through, the walk sends nothing and changes no other entry. -/
theorem walkEntry_unpolled {env : Env F} {mode : WalkMode} {s s' : Snmp F} {i : Nat} {got : Option Bool}
    (h : walkEntry env mode s i = some (s', got)) {p : SnmpInfo F} (hp : s.info[i]? = some p)
    (hpoll : (select mode s p.flags).2 ≠ .poll) :
    s'.gets = s.gets ∧ s'.info = (setFlagsAt s i (select mode s p.flags).1).info := by
  unfold walkEntry at h
  rw [hp] at h
  simp only at h
  cases hsel : (select mode s p.flags).2 with
  | skip =>
    rw [hsel] at h
    rw [← (Prod.mk.inj (Option.some.inj h)).1]
    exact ⟨rfl, rfl⟩
  | default =>
    rw [hsel] at h
    simp only at h
    split at h
    · obtain ⟨s₁, hdfl, hresult⟩ := Option.map_eq_some_iff.1 h
      obtain ⟨st, rfl⟩ := suSetinfo_eq hdfl
      rw [← (Prod.mk.inj hresult).1]
      exact ⟨rfl, rfl⟩
    · rw [← (Prod.mk.inj (Option.some.inj h)).1]
      exact ⟨rfl, rfl⟩
  | poll => exact absurd hsel hpoll

/-! ### Runs -/

/-- The order of the tests and the number that is compared with 3 do not matter for an entry. -/
structure Agrees (s : Snmp F) (flags : Flags) : Prop where
  both : ∀ k, has flags (one k) = true → has flags (three k) = true → count s k ≠ 3
  bypass : has flags suBypass3 = true → has flags suBypass1 = false → s.bypassPhases ≠ 0 →
    (s.inputPhases = 3 ↔ s.bypassPhases = 3)

/-- The condition on a step: a count that an entry of the table is meant for does not change once it is known, and the tests
mean what they are for. -/
structure PhasesMet (table : List (SnmpInfo F)) (t t' : Turn F) : Prop where
  steady : ∀ k, (∃ p₀ ∈ table, Restricted k p₀.flags) → count t.s k ≠ 0 → count t'.s k = count t.s k
  agrees : ∀ p, t.s.info[t.index]? = some p → Agrees t.s p.flags

theorem passes_iff_allowed {s : Snmp F} {k : PhaseVar} {flags : Flags} (h : Agrees s flags) (hrestricted : Restricted k flags)
    (hcount : count s k ≠ 0) : Passes s k flags ↔ Allowed s k flags := by
  have hthree : has flags (one k) = false → has flags (three k) = true → (countOfThree s k = 3 ↔ count s k = 3) := by
    intro hone hthree
    cases k with
    | input => exact Iff.rfl
    | output => exact Iff.rfl
    | bypass => exact h.bypass hthree hone hcount
  unfold Passes Allowed
  cases hone : has flags (one k) with
  | true =>
    rw [if_pos rfl]
    constructor
    · exact fun heq => .inl ⟨rfl, heq⟩
    · rintro (⟨-, heq⟩ | ⟨h3, heq⟩)
      · exact heq
      · exact absurd heq (h.both k hone h3)
  | false =>
    have h3 : has flags (three k) = true := (restricted_iff.1 hrestricted).resolve_left (by rw [hone]; exact Bool.false_ne_true)
    rw [if_neg Bool.false_ne_true, hthree hone h3]
    constructor
    · exact fun heq => .inr ⟨h3, heq⟩
    · rintro (⟨h1, -⟩ | ⟨-, heq⟩)
      · cases h1
      · exact heq

theorem allowed_of_count_eq {s s' : Snmp F} {k : PhaseVar} {flags : Flags} (hcount : count s' k = count s k) :
    Allowed s' k flags ↔ Allowed s k flags := by rw [Allowed, Allowed, hcount]

/-- A kind of phases has not been tested for the entry, or it was and the device has what the entry is meant for. -/
def Tested (s : Snmp F) (k : PhaseVar) (f₀ f : Flags) : Prop :=
  f &&& mask k = f₀ &&& mask k ∨ f &&& mask k = 0 ∧ count s k ≠ 0 ∧ Allowed s k f₀

theorem Tested.steady {s s' : Snmp F} {k : PhaseVar} {f₀ f : Flags} (h : Tested s k f₀ f)
    (hsteady : count s k ≠ 0 → count s' k = count s k) : Tested s' k f₀ f := by
  rcases h with h | ⟨hzero, hcount, hallowed⟩
  · exact .inl h
  · have heq := hsteady hcount
    exact .inr ⟨hzero, heq ▸ hcount, (allowed_of_count_eq heq).2 hallowed⟩

/-- An entry that is not meant for a number of phases is not tested. -/
theorem Tested.free {s s' : Snmp F} {k : PhaseVar} {f₀ f : Flags} (h : Tested s k f₀ f) (hfree : ¬ Restricted k f₀) :
    Tested s' k f₀ f := by
  rcases h with h | ⟨hzero, -, -⟩
  · exact .inl h
  · exact .inl (hzero.trans (not_not.1 fun hne => hfree (has_iff.2 (Ne.symm hne))))

/-- The test of an entry is not undone by a step that keeps the counts that it is meant for. -/
theorem tested_after {s s' : Snmp F} {k : PhaseVar} {f₀ f : Flags}
    (hsteady : Restricted k f₀ → count s k ≠ 0 → count s' k = count s k) (h : Tested s k f₀ f) : Tested s' k f₀ f := by
  by_cases hrestricted : Restricted k f₀
  · exact h.steady (hsteady hrestricted)
  · exact h.free hrestricted

theorem Tested.congr {s : Snmp F} {k : PhaseVar} {f₀ f f' : Flags} (h : Tested s k f₀ f) (heq : f' &&& mask k = f &&& mask k) :
    Tested s k f₀ f' := by
  unfold Tested
  rw [heq]
  exact h

/-- What a turn of the entry does. -/
theorem Tested.select {s : Snmp F} {k : PhaseVar} {f₀ f : Flags} (h : Tested s k f₀ f) (hagrees : Agrees s f) (mode : WalkMode) :
    Tested s k f₀ (select mode s f).1 := by
  rcases (select_spec mode s f).bits k with hsame | ⟨hzero, hrestricted, hcount, hpass⟩
  · exact h.congr hsame
  · rcases h with hsame | ⟨hcleared, -, -⟩
    · exact .inr ⟨hzero, hcount, (allowed_congr hsame).1 ((passes_iff_allowed hagrees hrestricted hcount).1 hpass)⟩
    · exact absurd hcleared (has_iff.1 hrestricted)

/-- The entries are those of the table, and their tests have been what they are for. -/
structure Sound (table : List (SnmpInfo F)) (t : Turn F) : Prop where
  length_eq : t.s.info.length = table.length
  tested : ∀ {j : Nat} {p₀ p : SnmpInfo F}, table[j]? = some p₀ → t.s.info[j]? = some p → ∀ k, Tested t.s k p₀.flags p.flags

theorem sound_start {table : List (SnmpInfo F)} {t : Turn F} (h : Started table t) : Sound table t := by
  obtain ⟨-, -, hinfo⟩ := h
  refine ⟨by rw [hinfo], fun {j p₀ p} hp₀ hp k => .inl ?_⟩
  rw [hinfo, hp₀] at hp
  rw [Option.some.inj hp]

theorem sound_step {env : Env F} {table : List (SnmpInfo F)} {t t' : Turn F} (h : Sound table t) (hstep : WalkStep env t t')
    (hmet : PhasesMet table t t') : Sound table t' := by
  cases hstep with
  | @entry mode i s s' got hi hexit hentry =>
    obtain ⟨p, hp⟩ : ∃ p, s.info[i]? = some p := ⟨_, List.getElem?_eq_getElem hi⟩
    obtain ⟨-, hturned, -⟩ := walkEntry_spec hentry hp
    refine ⟨hturned.length_eq.trans h.length_eq, fun {j q₀ q'} hq₀ hq' k => ?_⟩
    refine tested_after (fun hrestricted => hmet.steady k ⟨q₀, List.mem_of_getElem? hq₀, hrestricted⟩) ?_
    obtain ⟨q, hq⟩ : ∃ q, s.info[j]? = some q := by
      refine ⟨_, List.getElem?_eq_getElem ?_⟩
      rw [h.length_eq]
      exact (List.getElem?_eq_some_iff.1 hq₀).1
    have hbefore := h.tested hq₀ hq k
    -- only the entry whose turn it is was tested
    by_cases hj : j = i
    · subst hj
      have hentry' := hturned.entry hq
      rw [hq'] at hentry'
      rw [Option.some.inj hentry']
      have hpq : p = q := Option.some.inj (hp.symm.trans hq)
      subst hpq
      exact (hbefore.select (hmet.agrees p hp) mode).congr (afterReadings_mask _ _ _ _)
    · rcases hturned.others hj hq hq' with rfl | ⟨-, rfl⟩
      · exact hbefore
      · exact hbefore.congr (clear_and (by cases k <;> decide))
  | @again mode s s' hbetween =>
    have hcount : ∀ k, count s' k = count s k := by
      intro k
      cases k with
      | input => exact hbetween.inputPhases
      | output => exact hbetween.outputPhases
      | bypass => exact hbetween.bypassPhases
    refine ⟨hbetween.info ▸ h.length_eq, fun {j p₀ p} hp₀ hp k => ?_⟩
    exact (h.tested hp₀ (hbetween.info ▸ hp) k).steady fun _ => hcount k

/-- In every run in which the counts that matter stay as they are once they are known and the tests mean what they are for: an entry is
read only if the device has the phases that it is meant for, and one that is not read is out of use after its turn only if
they are known to be different. -/
theorem phases_selected {env : Env F} {table : List (SnmpInfo F)} {t t' : Turn F}
    (hrun : Transition.Reach (Started table) (fun t t' => WalkStep env t t' ∧ PhasesMet table t t') t) (hstep : WalkStep env t t')
    (hmet : PhasesMet table t t') {p₀ p : SnmpInfo F} (hp₀ : table[t.index]? = some p₀) (hp : t.s.info[t.index]? = some p) :
    ((select t.mode t.s p.flags).2 = .poll → ∀ k, Restricted k p₀.flags → Allowed t.s k p₀.flags) ∧
      ∀ j q q', t.s.info[j]? = some q → t'.s.info[j]? = some q' → has q.flags suFlagOk = true → has q'.flags suFlagOk = false →
        (select t.mode t.s p.flags).2 = .poll ∨
          j = t.index ∧ ∃ k, Restricted k p₀.flags ∧ count t.s k ≠ 0 ∧ ¬ Allowed t.s k p₀.flags := by
  have hsound : Sound table t := hrun.invariant (fun _ => sound_start) fun _ _ h hs => sound_step h hs.1 hs.2
  have hselected := select_spec t.mode t.s p.flags
  have hagrees := hmet.agrees p hp
  constructor
  · intro hpoll k hrestricted
    rcases hsound.tested hp₀ hp k with hsame | ⟨-, -, hallowed⟩
    · obtain ⟨hnow, hcount, hpass⟩ := hselected.poll hpoll k ((restricted_congr hsame).2 hrestricted)
      exact (allowed_congr hsame).1 ((passes_iff_allowed hagrees hnow hcount).1 hpass)
    · exact hallowed
  · intro j q q' hq hq' hbefore hafter
    -- an entry that is not read can lose its mark by the tests alone
    refine or_iff_not_imp_left.2 fun hpoll => ?_
    cases hstep with
    | @entry mode i s s' got hi hexit hentry =>
      have hinfo := (walkEntry_unpolled hentry hp hpoll).2
      have hset : Turned (ShownAs p) i (select mode s p.flags).1 s.info (setFlagsAt s i (select mode s p.flags).1).info :=
        turned_setFlagsAt s i _
      rw [hinfo] at hq'
      by_cases hj : j = i
      · subst hj
        have hpq : p = q := Option.some.inj (hp.symm.trans hq)
        subst hpq
        rw [hset.entry hp] at hq'
        rw [← Option.some.inj hq'] at hafter
        rcases hselected.ok with hsame | ⟨-, -, k, hrestricted, hcount, hpass⟩
        · rw [has_congr hsame, hbefore] at hafter
          cases hafter
        · refine ⟨rfl, k, ?_⟩
          rcases hsound.tested hp₀ hp k with hsame | ⟨hzero, -, -⟩
          · refine ⟨(restricted_congr hsame).1 hrestricted, hcount, fun hallowed => hpass ?_⟩
            exact (passes_iff_allowed hagrees hrestricted hcount).2 ((allowed_congr hsame).2 hallowed)
          · exact absurd hzero (has_iff.1 hrestricted)
      · have hother : (setFlagsAt s i (select mode s p.flags).1).info[j]? = s.info[j]? :=
          List.getElem?_modify_ne _ _ (Ne.symm hj)
        rw [hother, hq] at hq'
        rw [← Option.some.inj hq', hbefore] at hafter
        cases hafter
    | again hbetween =>
      rw [hbetween.info, hq] at hq'
      rw [← Option.some.inj hq', hbefore] at hafter
      cases hafter

/-- A device that has numbers. -/
def numbers (get : CStr → Option Int) : Env Unit where
  w := fun _ => true
  get := fun _ oid => (get oid).map .number
  set := fun _ _ => true
  exitFlag := fun _ _ => false
  scaled := fun i _ => formatLong i
  temperature := fun i _ => formatLong i
  celsius := fun _ i => formatLong i
  ofInt := fun _ => ()
  toLong := fun _ => 0

/-- An entry that is a number. -/
def numberEntry (infoType oid : CStr) (flags : Flags) (setvar : Option PhaseVar) : SnmpInfo Unit where
  infoType := infoType
  infoFlags := 0
  infoLen := ()
  oid := some oid
  dfl := none
  flags := flags ||| suFlagOk
  oid2info := none
  setvar := setvar

/-- The driver before the first walk. -/
def firstWalk (table : List (SnmpInfo Unit)) : Snmp Unit where
  info := table
  inputPhases := 0
  outputPhases := 0
  bypassPhases := 0
  outletIndexBase := -1
  iterations := 0
  status := ⟨.init, false, [], [], false⟩
  gets := []
  sets := []

/-- A table with the numbers of phases and an entry for three input phases. -/
def phasesTable : List (SnmpInfo Unit) :=
  [numberEntry "output.phases".toList ".1".toList suFlagSetint (some .output),
    numberEntry "input.phases".toList ".2".toList suFlagSetint (some .input),
    numberEntry "input.L2-N.voltage".toList ".3".toList suInput3 none]

/-- Three input phases and one output phase. -/
def phasesDevice : Env Unit := numbers fun oid => if oid = ".1".toList then some 1 else some 3

def counts (s : Snmp Unit) : Int32 × Int32 × Int32 := (s.inputPhases, s.outputPhases, s.bypassPhases)

/-- A step that keeps the counts that were known, or finds them, at an entry whose tests mean what they are for. -/
theorem phasesMet_entry {table : List (SnmpInfo Unit)} {i : Nat} {s s' : Snmp Unit} {flags : Flags}
    (hflags : (s.info.map SnmpInfo.flags)[i]? = some flags) (hagrees : Agrees s flags)
    (hcounts : ∀ k, count s k = 0 ∨ count s' k = count s k) : PhasesMet table ⟨.init, i, s⟩ ⟨.init, i + 1, s'⟩ := by
  refine ⟨fun k _ hknown => (hcounts k).resolve_left hknown, fun p hp => ?_⟩
  rw [List.getElem?_map] at hflags
  obtain ⟨q, hq, rfl⟩ := Option.map_eq_some_iff.1 hflags
  rw [← Option.some.inj (hq.symm.trans hp)]
  exact hagrees

/-- After the numbers of phases were read, the entry for three input phases is read where the device has three. -/
theorem phases_selected_three : ∃ (t : Turn Unit) (p : SnmpInfo Unit),
    Transition.Reach (Started phasesTable) (fun t t' => WalkStep phasesDevice t t' ∧ PhasesMet phasesTable t t') t ∧
      t.index = 2 ∧ t.s.info[t.index]? = some p ∧ (select t.mode t.s p.flags).2 = .poll ∧
        Allowed t.s .input (suInput3 ||| suFlagOk) := by
  have hcheck : ((walkEntry phasesDevice .init (firstWalk phasesTable) 0).bind fun r₁ =>
      (walkEntry phasesDevice .init r₁.1 1).bind fun r₂ => (walkEntry phasesDevice .init r₂.1 2).map fun r₃ =>
        ([r₁.1, r₂.1, r₃.1].map counts, [r₁.1, r₂.1].map fun s => s.info.map SnmpInfo.flags,
          decide ((select .init r₂.1 0x2001).2 = .poll))) =
      some ([(0, 1, 0), (3, 1, 0), (3, 1, 0)], [[0x41, 0x41, 0x2001], [0x41, 0x41, 0x2001]], true) := by decide +kernel
  obtain ⟨⟨s₁, got₁⟩, hfirst, hcheck⟩ := Option.bind_eq_some_iff.1 hcheck
  obtain ⟨⟨s₂, got₂⟩, hsecond, hcheck⟩ := Option.bind_eq_some_iff.1 hcheck
  obtain ⟨⟨s₃, got₃⟩, hthird, hcheck⟩ := Option.map_eq_some_iff.1 hcheck
  simp only [List.map_cons, List.map_nil, counts, Prod.mk.injEq, List.cons.injEq, and_true, decide_eq_true_eq] at hcheck
  obtain ⟨⟨⟨hin₁, hout₁, hbyp₁⟩, ⟨hin₂, hout₂, hbyp₂⟩, hin₃, hout₃, hbyp₃⟩, ⟨hflags₁, hflags₂⟩, hselect⟩ := hcheck
  have hplain (s : Snmp Unit) : Agrees s 0x41 :=
    ⟨fun k h => absurd h (by cases k <;> decide), fun h => absurd h (by decide)⟩
  have hthree (s : Snmp Unit) : Agrees s 0x2001 :=
    ⟨fun k h => absurd h (by cases k <;> decide), fun h => absurd h (by decide)⟩
  -- the first two entries set the counts, and the third is selected by them
  have hmet₁ : PhasesMet phasesTable ⟨.init, 0, firstWalk phasesTable⟩ ⟨.init, 1, s₁⟩ :=
    phasesMet_entry (by decide) (hplain _) fun k => by cases k <;> exact .inl rfl
  have hmet₂ : PhasesMet phasesTable ⟨.init, 1, s₁⟩ ⟨.init, 2, s₂⟩ := by
    refine phasesMet_entry (by rw [hflags₁]; rfl) (hplain _) fun k => ?_
    cases k with
    | input => exact .inl hin₁
    | output => exact .inr (hout₂.trans hout₁.symm)
    | bypass => exact .inl hbyp₁
  have hmet₃ : PhasesMet phasesTable ⟨.init, 2, s₂⟩ ⟨.init, 3, s₃⟩ := by
    refine phasesMet_entry (by rw [hflags₂]; rfl) (hthree _) fun k => ?_
    cases k with
    | input => exact .inr (hin₃.trans hin₂.symm)
    | output => exact .inr (hout₃.trans hout₂.symm)
    | bypass => exact .inl hbyp₂
  have hlength : s₁.info.length = 3 ∧ s₂.info.length = 3 := by
    rw [← List.length_map SnmpInfo.flags, hflags₁, ← List.length_map SnmpInfo.flags, hflags₂]
    exact ⟨rfl, rfl⟩
  obtain ⟨p, hp, hpflags⟩ : ∃ p, s₂.info[2]? = some p ∧ p.flags = 0x2001 := by
    have h : (s₂.info.map SnmpInfo.flags)[2]? = some 0x2001 := by rw [hflags₂]; rfl
    rw [List.getElem?_map] at h
    exact Option.map_eq_some_iff.1 h
  have hrun : Transition.Reach (Started phasesTable) (fun t t' => WalkStep phasesDevice t t' ∧ PhasesMet phasesTable t t')
      ⟨.init, 2, s₂⟩ :=
    ((Transition.Reach.init ⟨rfl, rfl, rfl⟩).step ⟨.entry (by decide) rfl hfirst, hmet₁⟩).step
      ⟨.entry (by rw [hlength.1]; decide) rfl hsecond, hmet₂⟩
  have hpoll : (select .init s₂ p.flags).2 = .poll := by
    rw [hpflags]
    exact hselect
  refine ⟨⟨.init, 2, s₂⟩, p, hrun, rfl, hp, hpoll, ?_⟩
  exact (phases_selected hrun (.entry (by rw [hlength.2]; decide) rfl hthird) hmet₃ rfl hp).1 hpoll .input
    (by unfold Restricted; decide)

/-- A table with the numbers of phases and an entry for three bypass phases. -/
def bypassTable : List (SnmpInfo Unit) :=
  [numberEntry "input.phases".toList ".1".toList suFlagSetint (some .input),
    numberEntry "input.bypass.phases".toList ".2".toList suFlagSetint (some .bypass),
    numberEntry "input.bypass.L2-N.voltage".toList ".3".toList suBypass3 none]

/-- One input phase and three bypass phases. -/
def bypassDevice : Env Unit := numbers fun oid => if oid = ".1".toList then some 1 else some 3

/-- The entry for three bypass phases is out of use though the device has three of them. -/
theorem bypass_disabled :
    ∃ (t : Turn Unit) (p : SnmpInfo Unit), Transition.Reach (Started bypassTable) (WalkStep bypassDevice) t ∧
      t.s.info[t.index]? = some p ∧ Allowed t.s .bypass p.flags ∧ has p.flags suFlagOk = true ∧
        has (select t.mode t.s p.flags).1 suFlagOk = false := by
  have hcheck : ((walkEntry bypassDevice .init (firstWalk bypassTable) 0).bind fun r => walkEntry bypassDevice .init r.1 1).any
      (fun r => r.1.bypassPhases = 3 ∧ r.1.info.map SnmpInfo.flags = [0x41, 0x41, 0x20001] ∧
        has (select .init r.1 0x20001).1 suFlagOk = false) = true := by decide +kernel
  obtain ⟨⟨s₂, got₂⟩, hboth, hfacts⟩ := (Option.any_eq_true _ _).1 hcheck
  obtain ⟨⟨s₁, got₁⟩, hfirst, hsecond⟩ := Option.bind_eq_some_iff.1 hboth
  obtain ⟨hbypass, hflags, hselect⟩ := of_decide_eq_true hfacts
  obtain ⟨hlength, -⟩ := walkEntry_of_lt hfirst (by decide)
  obtain ⟨p, hp, hpflags⟩ : ∃ p, s₂.info[2]? = some p ∧ p.flags = 0x20001 := by
    have h : (s₂.info.map SnmpInfo.flags)[2]? = some 0x20001 := by rw [hflags]; rfl
    rw [List.getElem?_map] at h
    exact Option.map_eq_some_iff.1 h
  have hrun : Transition.Reach (Started bypassTable) (WalkStep bypassDevice) ⟨.init, 2, s₂⟩ :=
    ((Transition.Reach.init ⟨rfl, rfl, rfl⟩).step (.entry (by decide) rfl hfirst)).step
      (.entry (by rw [hlength]; decide) rfl hsecond)
  refine ⟨⟨.init, 2, s₂⟩, p, hrun, hp, ?_, by rw [hpflags]; decide, ?_⟩
  · rw [hpflags]
    exact .inr ⟨by decide, hbypass⟩
  · rw [hpflags]
    exact hselect

end SnmpUps

end Nut
