import Nut.Drivers.Phases

/-!
# Failures to read

The flags of a template are those of its last outlet: what is read for one outlet is left for the next, and for the next
walk.  So an outlet that does not answer in the first walk takes the template out of use, a negative value that is not valid
does so in any walk, and if it is the last one that does not answer in an update, the template is not read in the next walks.
Where that does not happen the outlets are read in every walk (`failures_local`).

The mark of stale data after an update is that of the entry that was read last.
-/

namespace Nut

namespace SnmpUps

variable {F : Type}

/-! ### Templates -/

/-- An entry that stands for the values of outlets. -/
structure Template (p : SnmpInfo F) : Prop where
  outlet : has p.flags suOutlet = true
  value : isCmd p.flags = false
  oid : p.oid ≠ none

/-- The entry is in use, and not left out for being stale. -/
def Open (flags : Flags) : Prop := has flags suFlagOk = true ∧ has flags suFlagStale = false

/-- Another entry is shown under the name of the entry `j`. -/
def Rival (table : List (SnmpInfo F)) (j : Nat) (p : SnmpInfo F) : Prop :=
  ∃ k q, k ≠ j ∧ table[k]? = some q ∧ ShownAs q p.infoType

/-- The readings of a template leave it open: in the first walk all of them are good, in an update the last one is, and
none is negative. -/
def LeavesOpen (rs : List Reading) : WalkMode → Prop
  | .init => ∀ r ∈ rs, r = .good
  | .update => (∀ r ∈ rs, r ≠ .negative) ∧ ∀ r ∈ rs.getLast?, r = .good

/-- The condition on the turn of a template. -/
def ReadsMet (env : Env F) (t : Turn F) : Prop :=
  ∀ p, t.s.info[t.index]? = some p → Template p → LeavesOpen (entryReadings env t.mode t.s t.index) t.mode

theorem open_good (mode : WalkMode) {f : Flags} (h : has f suFlagOk = true) : Open (afterReading mode f .good) := by
  have hok : ∀ b : Flags, ~~~b &&& suFlagOk = suFlagOk → ∀ f, has f suFlagOk = true → has (clear f b) suFlagOk = true :=
    fun b hb f hf => by rw [has_congr (clear_and hb), hf]
  have hstale : has (clear f suFlagStale) suFlagStale = false :=
    decide_eq_false (not_not.2 (clear_and_self (by decide)))
  rw [afterReading_good]
  have hclear := hok suFlagStale (by decide) f h
  split
  · refine ⟨hok suFlagUnique (by decide) _ hclear, ?_⟩
    rw [has_congr (clear_and (by decide)), hstale]
  · exact ⟨hclear, hstale⟩

theorem ok_afterReading {f : Flags} {r : Reading} (h : has f suFlagOk = true) (hr : r ≠ .negative) :
    has (afterReading .update f r) suFlagOk = true := by
  cases r with
  | good => exact (open_good .update h).1
  | bad =>
    have hor : (f ||| suFlagStale) &&& suFlagOk = f &&& suFlagOk := or_and (by decide)
    exact (has_congr hor).trans h
  | negative => exact absurd rfl hr

theorem ok_afterReadings (rs : List Reading) : ∀ {f : Flags}, has f suFlagOk = true → (∀ r ∈ rs, r ≠ .negative) →
    has (afterReadings .update f rs) suFlagOk = true := by
  induction rs with
  | nil => exact fun h _ => h
  | cons r rs ih =>
    intro f h hrs
    exact ih (ok_afterReading h (hrs r List.mem_cons_self)) fun r hr => hrs r (List.mem_cons_of_mem _ hr)

/-- In an update it is the last outlet that counts. -/
theorem open_update {rs : List Reading} {f : Flags} (h : Open f) (hnegative : ∀ r ∈ rs, r ≠ .negative)
    (hlast : ∀ r ∈ rs.getLast?, r = .good) : Open (afterReadings .update f rs) := by
  rcases List.eq_nil_or_concat rs with rfl | ⟨rs, r, rfl⟩
  · exact h
  · rw [List.concat_eq_append] at hnegative hlast ⊢
    have hr : r = .good := hlast r (by rw [List.getLast?_concat]; rfl)
    rw [hr, afterReadings, List.foldl_append, ← afterReadings]
    exact open_good .update (ok_afterReadings rs h.1 fun r hr => hnegative r (List.mem_append_left _ hr))

theorem open_init (rs : List Reading) : ∀ {f : Flags}, Open f → (∀ r ∈ rs, r = .good) → Open (afterReadings .init f rs) := by
  induction rs with
  | nil => exact fun h _ => h
  | cons r rs ih =>
    intro f h hrs
    have hopen := open_good .init h.1
    rw [← hrs r List.mem_cons_self] at hopen
    exact ih hopen fun r hr => hrs r (List.mem_cons_of_mem _ hr)

/-! ### The tests for a template -/

theorem select_of_not_ok (mode : WalkMode) (s : Snmp F) {f : Flags} (h : has f suFlagOk = false) :
    select mode s f = (f, .skip) := by
  unfold select
  split
  · rfl
  · rw [if_pos (by rw [h]; exact Bool.false_ne_true)]

/-- An open template whose phases were tested is let through. -/
theorem select_open {mode : WalkMode} {s : Snmp F} {f : Flags} (hopen : Open f) (houtlet : has f suOutlet = true)
    (hphases : ∀ k, ¬ Restricted k f) (hstatic : ¬ (mode = .update ∧ has f suFlagStatic = true)) :
    select mode s f = (f, .poll) := by
  have hfree : ∀ k, checkKind s k f = (f, true) := by
    intro k
    rcases checkKind_cases s k f with ⟨-, heq⟩ | ⟨hrestricted, -⟩ | ⟨hrestricted, -⟩ | ⟨hrestricted, -⟩
    · exact heq
    · exact absurd hrestricted (hphases k)
    · exact absurd hrestricted (hphases k)
    · exact absurd hrestricted (hphases k)
  have hin : checkInput s f = (f, true) := hfree .input
  have hout : checkOutput s f = (f, true) := hfree .output
  have hbyp : checkBypass s f = (f, true) := hfree .bypass
  rw [select, if_neg fun h => h.2 houtlet, if_neg (not_not.2 hopen.1), if_neg hstatic, if_neg fun h => h.2 houtlet,
    if_neg fun h => by rw [hopen.2] at h; exact Bool.false_ne_true h.1, hin]
  simp only
  rw [hout]
  simp only
  rw [hbyp]

/-- The tests of a template that is not stale: it stays so, and it stays in use unless its phases are not there. -/
theorem select_template {mode : WalkMode} {s : Snmp F} {f : Flags} (hok : has f suFlagOk = true)
    (hstale : has f suFlagStale = false) :
    has (select mode s f).1 suFlagStale = false ∧
      (has (select mode s f).1 suFlagOk = true ∨
        (select mode s f).2 = .skip ∧ ∃ k, Restricted k (select mode s f).1) := by
  have hselected := select_spec mode s f
  refine ⟨by rw [has_congr (select_keeps (by decide) mode s f), hstale], ?_⟩
  rcases hselected.ok with hsame | ⟨hskip, -, k, hrestricted, -, hpass⟩
  · exact .inl (by rw [has_congr hsame, hok])
  · refine .inr ⟨hskip, k, ?_⟩
    rcases hselected.bits k with hsame | ⟨-, -, -, hpasses⟩
    · exact (restricted_congr hsame).2 hrestricted
    · exact absurd hpasses hpass

/-! ### Runs -/

def keptFlags : Flags := suOutlet ||| suTypeMask

/-- The entry is that of the table, but for flags that a walk changes. -/
structure Same (p₀ p : SnmpInfo F) : Prop where
  infoType : p.infoType = p₀.infoType
  oid : p.oid = p₀.oid
  flags : p.flags &&& keptFlags = p₀.flags &&& keptFlags

theorem Same.outlet {p₀ p : SnmpInfo F} (h : Same p₀ p) : has p.flags suOutlet = has p₀.flags suOutlet := by
  have hsub : keptFlags &&& suOutlet = suOutlet := by decide
  refine has_congr ?_
  rw [← hsub, ← BitVec.and_assoc, ← BitVec.and_assoc, h.flags]

theorem Same.isCmd {p₀ p : SnmpInfo F} (h : Same p₀ p) : isCmd p.flags = isCmd p₀.flags := by
  have hsub : keptFlags &&& suTypeMask = suTypeMask := by decide
  have htype : p.flags &&& suTypeMask = p₀.flags &&& suTypeMask := by
    rw [← hsub, ← BitVec.and_assoc, ← BitVec.and_assoc, h.flags]
  rw [SnmpUps.isCmd, SnmpUps.isCmd, htype]

theorem Same.template {p₀ p : SnmpInfo F} (h : Same p₀ p) (ht : Template p₀) : Template p :=
  ⟨h.outlet.trans ht.outlet, h.isCmd.trans ht.value, by rw [h.oid]; exact ht.oid⟩

theorem Same.shownAs {p₀ p : SnmpInfo F} (h : Same p₀ p) {name : CStr} (hname : ShownAs p name) : ShownAs p₀ name := by
  unfold ShownAs OutletName at hname ⊢
  rwa [h.outlet, h.infoType] at hname

/-- The template has not been taken out of use by what was read. -/
structure Unstopped (flags : Flags) : Prop where
  stale : has flags suFlagStale = false
  ok : has flags suFlagOk = true ∨ ∃ k, Restricted k flags

/-- The entries are those of the table, and templates without a rival are not stopped. -/
structure Lively (table : List (SnmpInfo F)) (t : Turn F) : Prop where
  length_eq : t.s.info.length = table.length
  same : ∀ {j : Nat} {p₀ p : SnmpInfo F}, table[j]? = some p₀ → t.s.info[j]? = some p → Same p₀ p
  unstopped : ∀ {j : Nat} {p₀ p : SnmpInfo F}, table[j]? = some p₀ → t.s.info[j]? = some p → Template p₀ → Open p₀.flags →
    ¬ Rival table j p₀ → Unstopped p.flags

theorem lively_start {table : List (SnmpInfo F)} {t : Turn F} (h : Started table t) : Lively table t := by
  obtain ⟨-, -, hinfo⟩ := h
  have heq : ∀ {j : Nat} {p₀ p : SnmpInfo F}, table[j]? = some p₀ → t.s.info[j]? = some p → p = p₀ := by
    intro j p₀ p hp₀ hp
    rw [hinfo, hp₀] at hp
    exact (Option.some.inj hp).symm
  refine ⟨by rw [hinfo], fun {j p₀ p} hp₀ hp => ?_, fun {j p₀ p} hp₀ hp _ hopen _ => ?_⟩
  · rw [heq hp₀ hp]
    exact ⟨rfl, rfl, rfl⟩
  · rw [heq hp₀ hp]
    exact ⟨hopen.2, .inl hopen.1⟩

/-- The turn of a template that is not stopped. -/
theorem Unstopped.turn {mode : WalkMode} {s : Snmp F} {f : Flags} (h : Unstopped f) {rs : List Reading}
    (hskip : (select mode s f).2 ≠ .poll → rs = []) (hmet : LeavesOpen rs mode) :
    Unstopped (afterReadings mode (select mode s f).1 rs) := by
  cases hok : has f suFlagOk with
  | false =>
    have hselect := select_of_not_ok mode s hok
    rw [hskip (by rw [hselect]; exact nofun), hselect]
    exact h
  | true =>
    obtain ⟨hstale, hin | ⟨hout, hrestricted⟩⟩ := @select_template _ mode s _ hok h.stale
    · have hopen : Open (afterReadings mode (select mode s f).1 rs) := by
        cases mode with
        | init => exact open_init rs ⟨hin, hstale⟩ hmet
        | update => exact open_update ⟨hin, hstale⟩ hmet.1 hmet.2
      exact ⟨hopen.2, .inl hopen.1⟩
    · rw [hskip (by rw [hout]; exact nofun)]
      exact ⟨hstale, .inr hrestricted⟩

theorem entryReadings_unpolled {env : Env F} {mode : WalkMode} {s : Snmp F} {i : Nat} {p : SnmpInfo F} (hp : s.info[i]? = some p)
    (hpoll : (select mode s p.flags).2 ≠ .poll) : entryReadings env mode s i = [] := by
  unfold entryReadings
  rw [hp]
  simp only
  rw [if_neg hpoll]

theorem lively_step {env : Env F} {table : List (SnmpInfo F)} {t t' : Turn F} (h : Lively table t) (hstep : WalkStep env t t')
    (hmet : ReadsMet env t) : Lively table t' := by
  cases hstep with
  | @entry mode i s s' got hi hexit hentry =>
    obtain ⟨p, hp⟩ : ∃ p, s.info[i]? = some p := ⟨_, List.getElem?_eq_getElem hi⟩
    obtain ⟨-, hturned, -⟩ := walkEntry_spec hentry hp
    have hbefore : ∀ {j : Nat} {q₀ : SnmpInfo F}, table[j]? = some q₀ → ∃ q, s.info[j]? = some q := by
      intro j q₀ hq₀
      refine ⟨_, List.getElem?_eq_getElem ?_⟩
      rw [h.length_eq]
      exact (List.getElem?_eq_some_iff.1 hq₀).1
    refine ⟨hturned.length_eq.trans h.length_eq, fun {j q₀ q'} hq₀ hq' => ?_, fun {j q₀ q'} hq₀ hq' ht hopen hrival => ?_⟩
    · obtain ⟨q, hq⟩ := hbefore hq₀
      obtain ⟨htype, hoid, hflags⟩ := h.same hq₀ hq
      by_cases hj : j = i
      · subst hj
        have hpq : p = q := Option.some.inj (hp.symm.trans hq)
        subst hpq
        rw [hturned.entry hp] at hq'
        rw [← Option.some.inj hq']
        refine ⟨htype, hoid, ?_⟩
        dsimp only
        rw [afterReadings_keeps (by decide), select_keeps (by decide), hflags]
      · rcases hturned.others hj hq hq' with rfl | ⟨-, rfl⟩
        · exact ⟨htype, hoid, hflags⟩
        · exact ⟨htype, hoid, (clear_and (by decide)).trans hflags⟩
    · obtain ⟨q, hq⟩ := hbefore hq₀
      have hunstopped := h.unstopped hq₀ hq ht hopen hrival
      by_cases hj : j = i
      · subst hj
        have hpq : p = q := Option.some.inj (hp.symm.trans hq)
        subst hpq
        rw [hturned.entry hp] at hq'
        rw [← Option.some.inj hq']
        exact hunstopped.turn (entryReadings_unpolled hp) (hmet p hp ((h.same hq₀ hp).template ht))
      · rcases hturned.others hj hq hq' with rfl | ⟨hname, -⟩
        · exact hunstopped
        · -- another entry was shown under the name of the template
          obtain ⟨p₀, hp₀⟩ : ∃ p₀, table[i]? = some p₀ := by
            refine ⟨_, List.getElem?_eq_getElem ?_⟩
            rw [← h.length_eq]
            exact hi
          rw [(h.same hq₀ hq).infoType] at hname
          exact absurd ⟨i, p₀, Ne.symm hj, hp₀, (h.same hp₀ hp).shownAs hname⟩ hrival
  | again hbetween =>
    refine ⟨hbetween.info ▸ h.length_eq, fun {j p₀ p} hp₀ hp => h.same hp₀ (hbetween.info ▸ hp), ?_⟩
    exact fun {j p₀ p} hp₀ hp => h.unstopped hp₀ (hbetween.info ▸ hp)

/-- In every run in which the readings are such, a template is read in each walk once its phases were tested. -/
theorem template_read {env : Env F} {table : List (SnmpInfo F)} {t : Turn F}
    (hrun : Transition.Reach (Started table) (fun t t' => WalkStep env t t' ∧ ReadsMet env t) t) {p₀ p : SnmpInfo F}
    (hp₀ : table[t.index]? = some p₀) (hp : t.s.info[t.index]? = some p) (ht : Template p₀) (hopen : Open p₀.flags)
    (hrival : ¬ Rival table t.index p₀) (hphases : ∀ k, ¬ Restricted k p.flags)
    (hstatic : ¬ (t.mode = .update ∧ has p.flags suFlagStatic = true)) : (select t.mode t.s p.flags).2 = .poll := by
  have hlively : Lively table t := hrun.invariant (fun _ => lively_start) fun _ _ h hs => lively_step h hs.1 hs.2
  obtain ⟨hstale, hok⟩ := hlively.unstopped hp₀ hp ht hopen hrival
  have hok : has p.flags suFlagOk = true := hok.resolve_right fun ⟨k, hk⟩ => hphases k hk
  rw [select_open ⟨hok, hstale⟩ ((hlively.same hp₀ hp).template ht).outlet hphases hstatic]

/-! ### The mark after an update -/

/-- The readings of the walk over `rest` entries from the one at `i` on. -/
def walkReadings (env : Env F) (mode : WalkMode) : Nat → Nat → Snmp F → List Reading
  | 0, _, _ => []
  | rest + 1, i, s =>
    entryReadings env mode s i ++
      match walkEntry env mode s i with
      | none => []
      | some (s', _) => walkReadings env mode rest (i + 1) s'

/-- The readings of an update. -/
def updateReadings (env : Env F) (s : Snmp F) : List Reading :=
  walkReadings env .update s.info.length 0 { s with status := statusInit s.status }

/-- The driver is not told to stop. -/
def NotStopped (env : Env F) (s : Snmp F) : Prop := ∀ j, env.exitFlag s.iterations j = false

theorem getD_lastStatus_append (rs rs' : List Reading) (status : Bool) :
    (lastStatus (rs ++ rs')).getD status = (lastStatus rs').getD ((lastStatus rs).getD status) := by
  unfold lastStatus
  rw [List.getLast?_append]
  cases rs'.getLast? with
  | none => rfl
  | some r => rfl

theorem walkLoop_status {env : Env F} {mode : WalkMode} (rest : Nat) :
    ∀ {i : Nat} {s s' : Snmp F} {status ok : Bool}, walkLoop env mode rest i s status = some (s', ok) →
      i + rest = s.info.length → NotStopped env s → ok = (lastStatus (walkReadings env mode rest i s)).getD status := by
  induction rest with
  | zero =>
    intro i s s' status ok h _ _
    exact (Prod.mk.inj (Option.some.inj h)).2.symm
  | succ rest ih =>
    intro i s s' status ok h hlen hexit
    unfold walkLoop at h
    rw [hexit, if_neg Bool.false_ne_true] at h
    cases hentry : walkEntry env mode s i with
    | none =>
      rw [hentry] at h
      cases h
    | some r =>
      obtain ⟨s₂, got⟩ := r
      rw [hentry] at h
      have hi : i < s.info.length := by omega
      obtain ⟨hgot, -, -⟩ := walkEntry_spec hentry (List.getElem?_eq_getElem hi)
      obtain ⟨hlength, hiterations⟩ := walkEntry_of_lt hentry hi
      have hexit₂ : NotStopped env s₂ := fun j => by rw [hiterations]; exact hexit j
      have hnext := ih h (by omega) hexit₂
      rw [hnext, walkReadings, hentry, getD_lastStatus_append, hgot]

theorem stale_statusCommit (w : Nat → Bool) (st : StatusState) : (statusCommit w st).dstate.stale = st.dstate.stale := by
  have hset : ∀ (d : Dstate) (var text : CStr), (dstateSetinfo w d var text).1.stale = d.stale := by
    intro d var text
    unfold dstateSetinfo
    simp only
    split
    · exact sendToAll_stale _ _ _
    · rfl
  unfold statusCommit
  split <;> exact hset _ _ _

theorem stale_dataok (w : Nat → Bool) (d : Dstate) : (dstateDataok w d).stale = false := by
  unfold dstateDataok
  split
  · exact sendToAll_stale _ _ _
  · rename_i h
    exact Bool.eq_false_iff.2 h

theorem stale_datastale (w : Nat → Bool) (d : Dstate) : (dstateDatastale w d).stale = true := by
  unfold dstateDatastale
  split
  · rename_i h
    exact h
  · exact sendToAll_stale _ _ _

/-- The mark is that of the last reading. -/
theorem stale_upsdrvUpdateinfo {env : Env F} {s s' : Snmp F} (h : upsdrvUpdateinfo env s = some s') (hexit : NotStopped env s) :
    s'.status.dstate.stale = ! (lastStatus (updateReadings env s)).getD false := by
  unfold upsdrvUpdateinfo at h
  split at h
  · cases h
  · rename_i s₁ ok hwalk
    have hok := walkLoop_status _ hwalk (Nat.zero_add _) hexit
    rw [← Option.some.inj h]
    dsimp only
    rw [stale_statusCommit]
    unfold updateReadings
    rw [← hok]
    cases ok with
    | true => exact stale_dataok _ _
    | false => exact stale_datastale _ _

/-- All readings are good, or none is. -/
def Alike (rs : List Reading) : Prop := (∀ r ∈ rs, r = .good) ∨ ∀ r ∈ rs, r ≠ .good

theorem lastStatus_of_alike {rs : List Reading} (h : Alike rs) :
    (lastStatus rs).getD false = true ↔ ∃ r ∈ rs, r = .good := by
  unfold lastStatus
  cases hlast : rs.getLast? with
  | none =>
    rw [List.getLast?_eq_none_iff.1 hlast]
    exact ⟨nofun, fun ⟨r, hr, _⟩ => nomatch hr⟩
  | some r =>
    have hr : r ∈ rs := List.mem_of_getLast? hlast
    rw [Option.map_some, Option.getD_some, decide_eq_true_iff]
    constructor
    · exact fun hgood => ⟨r, hr, hgood⟩
    · rintro ⟨r', hr', hgood⟩
      rcases h with hall | hnone
      · exact hall r hr
      · exact absurd hgood (hnone r' hr')

/-- Readings that are alike give the same mark in every order. -/
theorem lastStatus_perm {rs rs' : List Reading} (hperm : rs.Perm rs') (h : Alike rs) :
    (lastStatus rs).getD false = (lastStatus rs').getD false := by
  have h' : Alike rs' := h.imp (fun h r hr => h r (hperm.mem_iff.2 hr)) fun h r hr => h r (hperm.mem_iff.2 hr)
  rw [Bool.eq_iff_iff, lastStatus_of_alike h, lastStatus_of_alike h']
  exact exists_congr fun r => and_congr_left fun _ => hperm.mem_iff

/-- In every run in which the readings of templates leave them open, a template without a rival is read in each walk once its
phases were tested; and two updates with the same readings, in whatever order, leave the same mark where these are alike. -/
theorem failures_local :
    (∀ {env : Env F} {table : List (SnmpInfo F)} {t : Turn F} {p₀ p : SnmpInfo F},
      Transition.Reach (Started table) (fun t t' => WalkStep env t t' ∧ ReadsMet env t) t → table[t.index]? = some p₀ →
      t.s.info[t.index]? = some p → Template p₀ → Open p₀.flags → ¬ Rival table t.index p₀ → (∀ k, ¬ Restricted k p.flags) →
      ¬ (t.mode = .update ∧ has p.flags suFlagStatic = true) → (select t.mode t.s p.flags).2 = .poll) ∧
    ∀ {env env' : Env F} {s s' s₁ s₁' : Snmp F}, upsdrvUpdateinfo env s = some s₁ → upsdrvUpdateinfo env' s' = some s₁' →
      NotStopped env s → NotStopped env' s' → (updateReadings env s).Perm (updateReadings env' s') →
      Alike (updateReadings env s) → s₁.status.dstate.stale = s₁'.status.dstate.stale := by
  refine ⟨fun hrun => template_read hrun, fun h h' hexit hexit' hperm halike => ?_⟩
  rw [stale_upsdrvUpdateinfo h hexit, stale_upsdrvUpdateinfo h' hexit', lastStatus_perm hperm halike]

/-- A template of a value of outlets. -/
def outletEntry : SnmpInfo Unit := numberEntry "outlet.%i.current".toList ".2.%i".toList suOutlet none

def outletTable : List (SnmpInfo Unit) := [numberEntry "outlet.count".toList ".1".toList 0 none, outletEntry]

/-- Two outlets, of which the first does not answer any more after the first walk. -/
def flakyDevice : Env Unit :=
  { numbers fun _ => none with
    get := fun n oid =>
      if oid = ".1".toList then some (.number 2)
      else if oid = ".2.1".toList then if n < 5 then some (.number 5) else none
      else if oid = ".2.2".toList then some (.number 6)
      else none }

/-- Between two walks, where nothing is done. -/
def nextWalk (s : Snmp Unit) : Snmp Unit := { s with iterations := s.iterations + 1 }

/-- The turn of an entry that is no template meets the condition. -/
theorem readsMet_plain {env : Env Unit} {mode : WalkMode} {i : Nat} {s : Snmp Unit} {flags : List Flags}
    (hflags : s.info.map SnmpInfo.flags = flags) (hplain : ∀ f ∈ flags[i]?, has f suOutlet = false) :
    ReadsMet env ⟨mode, i, s⟩ := by
  intro p hp ht
  have hmem : flags[i]? = some p.flags := by rw [← hflags, List.getElem?_map, hp, Option.map_some]
  exact absurd ht.outlet (by rw [hplain _ hmem]; exact Bool.false_ne_true)

/-- The first outlet fails in an update, and in the next one it is the template's turn again. -/
theorem flaky_run : ∃ s₃ s₅ p,
    Transition.Reach (Started outletTable) (fun t t' => WalkStep flakyDevice t t' ∧ ReadsMet flakyDevice t) ⟨.update, 1, s₃⟩ ∧
      entryReadings flakyDevice .update s₃ 1 = [.bad, .good] ∧
      Relation.ReflTransGen (WalkStep flakyDevice) ⟨.update, 1, s₃⟩ ⟨.update, 1, s₅⟩ ∧
      Transition.Reach (Started outletTable) (fun t t' => WalkStep flakyDevice t t' ∧ ReadsMet flakyDevice t)
        ⟨.update, 1, s₅⟩ ∧ s₅.info[1]? = some p ∧ p.flags = 0x81 := by
  have hcheck : ((walkEntry flakyDevice .init (firstWalk outletTable) 0).bind fun r₁ =>
      (walkEntry flakyDevice .init r₁.1 1).bind fun r₂ => (walkEntry flakyDevice .update (nextWalk r₂.1) 0).bind fun r₃ =>
        (walkEntry flakyDevice .update r₃.1 1).bind fun r₄ => (walkEntry flakyDevice .update (nextWalk r₄.1) 0).map fun r₅ =>
          ([r₁.1, r₂.1, r₃.1, r₄.1, r₅.1].map fun s => s.info.map SnmpInfo.flags,
            entryReadings flakyDevice .init r₁.1 1, entryReadings flakyDevice .update r₃.1 1)) =
      some (List.replicate 5 [0x1, 0x81], [.good, .good], [.bad, .good]) := by decide +kernel
  obtain ⟨⟨s₁, got₁⟩, h₁, hcheck⟩ := Option.bind_eq_some_iff.1 hcheck
  obtain ⟨⟨s₂, got₂⟩, h₂, hcheck⟩ := Option.bind_eq_some_iff.1 hcheck
  obtain ⟨⟨s₃, got₃⟩, h₃, hcheck⟩ := Option.bind_eq_some_iff.1 hcheck
  obtain ⟨⟨s₄, got₄⟩, h₄, hcheck⟩ := Option.bind_eq_some_iff.1 hcheck
  obtain ⟨⟨s₅, got₅⟩, h₅, hcheck⟩ := Option.map_eq_some_iff.1 hcheck
  simp only [List.map_cons, List.map_nil, List.replicate, Prod.mk.injEq, List.cons.injEq, and_true] at hcheck
  obtain ⟨⟨hf₁, hf₂, hf₃, hf₄, hf₅⟩, hinit, hupdate⟩ := hcheck
  have hlen {s : Snmp Unit} (h : s.info.map SnmpInfo.flags = [0x1, 0x81]) : s.info.length = 2 := by
    rw [← List.length_map SnmpInfo.flags, h]
    rfl
  -- only the template has a condition to meet
  have hcount {mode : WalkMode} {s : Snmp Unit} (h : s.info.map SnmpInfo.flags = [0x1, 0x81]) :
      ReadsMet flakyDevice ⟨mode, 0, s⟩ := readsMet_plain h fun f hf => Option.some.inj hf ▸ by decide
  have hend {mode : WalkMode} {s : Snmp Unit} (h : s.info.map SnmpInfo.flags = [0x1, 0x81]) :
      ReadsMet flakyDevice ⟨mode, s.info.length, s⟩ := by
    refine readsMet_plain h fun f hf => ?_
    rw [hlen h] at hf
    cases hf
  have hfirst : ReadsMet flakyDevice ⟨.init, 1, s₁⟩ := by
    intro p _ _
    show LeavesOpen (entryReadings flakyDevice .init s₁ 1) .init
    rw [hinit]
    exact (by decide : ∀ r ∈ [Reading.good, Reading.good], r = .good)
  have hfailed : ReadsMet flakyDevice ⟨.update, 1, s₃⟩ := by
    intro p _ _
    show LeavesOpen (entryReadings flakyDevice .update s₃ 1) .update
    rw [hupdate]
    exact ⟨by decide, by decide⟩
  have hagain {s : Snmp Unit} : Between s (nextWalk s) := ⟨rfl, rfl, rfl, rfl, rfl, rfl⟩
  -- the first walk, the update in which the outlet fails, and the next one up to the template
  have hrun₂ : Transition.Reach (Started outletTable) (fun t t' => WalkStep flakyDevice t t' ∧ ReadsMet flakyDevice t)
      ⟨.init, s₂.info.length, s₂⟩ := by
    rw [hlen hf₂]
    exact ((Transition.Reach.init ⟨rfl, rfl, rfl⟩).step ⟨.entry (by decide) rfl h₁, hcount (by decide)⟩).step
      ⟨.entry (by rw [hlen hf₁]; decide) rfl h₂, hfirst⟩
  have hstart₃ : (nextWalk s₂).info.map SnmpInfo.flags = [0x1, 0x81] := hf₂
  have hrun₃ := (hrun₂.step ⟨.again hagain, hend hf₂⟩).step
    ⟨.entry (by rw [hlen hstart₃]; decide) rfl h₃, hcount hstart₃⟩
  have hstep₄ : WalkStep flakyDevice ⟨.update, 1, s₃⟩ ⟨.update, s₄.info.length, s₄⟩ := by
    rw [hlen hf₄]
    exact .entry (by rw [hlen hf₃]; decide) rfl h₄
  have hstep₅ : WalkStep flakyDevice ⟨.update, 0, nextWalk s₄⟩ ⟨.update, 1, s₅⟩ := by
    have hstart₅ : (nextWalk s₄).info.map SnmpInfo.flags = [0x1, 0x81] := hf₄
    exact .entry (by rw [hlen hstart₅]; decide) rfl h₅
  have hrun₅ := ((hrun₃.step ⟨hstep₄, hfailed⟩).step ⟨.again hagain, hend hf₄⟩).step ⟨hstep₅, hcount hf₄⟩
  obtain ⟨p, hp, hpflags⟩ : ∃ p, s₅.info[1]? = some p ∧ p.flags = 0x81 := by
    have h : (s₅.info.map SnmpInfo.flags)[1]? = some 0x81 := by rw [hf₅]; rfl
    rw [List.getElem?_map] at h
    exact Option.map_eq_some_iff.1 h
  exact ⟨s₃, s₅, p, hrun₃, hupdate, .tail (.tail (.single hstep₄) (.again hagain)) hstep₅, hrun₅, hp, hpflags⟩

theorem outletEntry_no_rival : ¬ Rival outletTable 1 outletEntry := by
  rintro ⟨k, q, hk, hq, hshown⟩
  have hlt : k < 2 := (List.getElem?_eq_some_iff.1 hq).1
  obtain rfl : k = 0 := by omega
  obtain rfl := Option.some.inj hq
  rw [ShownAs, if_neg (by decide)] at hshown
  exact absurd hshown (by decide)

/-- The first outlet fails in an update, and in the next one the template is read again; and two entries are read in either
order. -/
theorem failures_local_two :
    (∃ t₀ t p, Transition.Reach (Started outletTable)
          (fun t t' => WalkStep flakyDevice t t' ∧ ReadsMet flakyDevice t) t₀ ∧
        entryReadings flakyDevice t₀.mode t₀.s t₀.index = [.bad, .good] ∧
        Relation.ReflTransGen (WalkStep flakyDevice) t₀ t ∧ t.mode = .update ∧ t.index = 1 ∧ t.s.info[t.index]? = some p ∧
        (select t.mode t.s p.flags).2 = .poll) ∧
      ∃ s₁ s₁', upsdrvUpdateinfo (numbers fun _ => some 7)
            (firstWalk [numberEntry "a".toList ".1".toList 0 none, numberEntry "b".toList ".2".toList 0 none]) = some s₁ ∧
        upsdrvUpdateinfo (numbers fun _ => some 7)
            (firstWalk [numberEntry "b".toList ".2".toList 0 none, numberEntry "a".toList ".1".toList 0 none]) = some s₁' ∧
          s₁.status.dstate.stale = s₁'.status.dstate.stale := by
  constructor
  · obtain ⟨s₃, s₅, p, hrun₃, hfailed, hsteps, hrun₅, hp, hpflags⟩ := flaky_run
    have hphases : ∀ k, ¬ Restricted k p.flags := by
      intro k
      rw [hpflags]
      unfold Restricted
      cases k <;> decide
    have hstatic : ¬ ((⟨.update, 1, s₅⟩ : Turn Unit).mode = .update ∧ has p.flags suFlagStatic = true) := by
      rw [hpflags]
      exact fun h => absurd h.2 (by decide)
    exact ⟨⟨.update, 1, s₃⟩, ⟨.update, 1, s₅⟩, p, hrun₃, hfailed, hsteps, rfl, rfl, hp,
      failures_local.1 hrun₅ rfl hp ⟨by decide, by decide, nofun⟩ ⟨by decide, by decide⟩ outletEntry_no_rival hphases hstatic⟩
  · let a := numberEntry "a".toList ".1".toList 0 none
    let b := numberEntry "b".toList ".2".toList 0 none
    have hsome : ∀ l, l = [a, b] ∨ l = [b, a] → ∃ s₁, upsdrvUpdateinfo (numbers fun _ => some 7) (firstWalk l) = some s₁ := by
      rintro l (rfl | rfl)
      · exact Option.isSome_iff_exists.1 (by decide +kernel)
      · exact Option.isSome_iff_exists.1 (by decide +kernel)
    obtain ⟨s₁, h₁⟩ := hsome [a, b] (.inl rfl)
    obtain ⟨s₁', h₁'⟩ := hsome [b, a] (.inr rfl)
    have hreadings : updateReadings (numbers fun _ => some 7) (firstWalk [a, b]) = [.good, .good] := by decide +kernel
    have hreadings' : updateReadings (numbers fun _ => some 7) (firstWalk [b, a]) = [.good, .good] := by decide +kernel
    exact ⟨s₁, s₁', h₁, h₁', failures_local.2 h₁ h₁' (fun _ => rfl) (fun _ => rfl) (by rw [hreadings, hreadings'])
      (by rw [hreadings]; exact .inl (by decide))⟩

/-- Two outlets, of which the second does not answer. -/
def outletDevice : Env Unit := numbers fun oid =>
  if oid = ".1".toList then some 2 else if oid = ".2.1".toList then some 5 else none

/-- The first outlet is not read any more though it answers, and the mark of an update is that of the last entry. -/
theorem outlet_not_read :
    (∃ (t : Turn Unit) (p : SnmpInfo Unit), Transition.Reach (Started outletTable) (WalkStep outletDevice) t ∧
        t.mode = .update ∧ t.index = 1 ∧ t.s.info[t.index]? = some p ∧ (select t.mode t.s p.flags).2 = .skip ∧
          ∀ n, outletDevice.get n ".2.1".toList ≠ none) ∧
      ((upsdrvUpdateinfo outletDevice
          (firstWalk [numberEntry "a".toList ".1".toList 0 none, numberEntry "b".toList ".3".toList 0 none])).map
            fun s => s.status.dstate.stale) = some true ∧
        ((upsdrvUpdateinfo outletDevice
          (firstWalk [numberEntry "b".toList ".3".toList 0 none, numberEntry "a".toList ".1".toList 0 none])).map
            fun s => s.status.dstate.stale) = some false := by
  refine ⟨?_, by decide +kernel, by decide +kernel⟩
  have hcheck : ((walkLoop outletDevice .init 2 0 (firstWalk outletTable) false).bind fun r =>
      walkEntry outletDevice .update r.1 0).any (fun r => (r.1.info.map SnmpInfo.flags)[1]? = some 0x80) = true := by
    decide +kernel
  obtain ⟨⟨s₃, got₃⟩, hall, hflags⟩ := (Option.any_eq_true _ _).1 hcheck
  obtain ⟨⟨s₂, ok₂⟩, hwalk, hentry⟩ := Option.bind_eq_some_iff.1 hall
  obtain ⟨p, hp, hpflags⟩ : ∃ p, s₃.info[1]? = some p ∧ p.flags = 0x80 := by
    have h := of_decide_eq_true hflags
    rw [List.getElem?_map] at h
    exact Option.map_eq_some_iff.1 h
  -- the first walk, and then the first entry of the next one
  obtain ⟨s₁, rfl, hlen, hfirst⟩ := walkLoop_run 2 hwalk rfl fun _ => rfl
  have hinit : Transition.Reach (Started outletTable) (WalkStep outletDevice) ⟨.init, s₁.info.length, s₁⟩ := by
    rw [hlen]
    exact (Transition.Reach.init ⟨rfl, rfl, rfl⟩).run hfirst
  have hagain : Transition.Reach (Started outletTable) (WalkStep outletDevice)
      ⟨.update, 0, { s₁ with iterations := s₁.iterations + 1 }⟩ := hinit.step (.again ⟨rfl, rfl, rfl, rfl, rfl, rfl⟩)
  have hrun : Transition.Reach (Started outletTable) (WalkStep outletDevice) ⟨.update, 1, s₃⟩ :=
    hagain.step (.entry (by dsimp only; rw [hlen]; decide) rfl hentry)
  have hskip : select .update s₃ p.flags = (p.flags, .skip) := select_of_not_ok _ _ (by rw [hpflags]; decide)
  refine ⟨_, p, hrun, rfl, rfl, hp, by rw [hskip], fun n => ?_⟩
  have hfive : outletDevice.get 0 ".2.1".toList = some (.number 5) := by decide +kernel
  have hget : outletDevice.get n ".2.1".toList = some (.number 5) := hfive
  rw [hget]
  exact nofun

end SnmpUps

end Nut
