import Mathlib.Logic.Relation
import Nut.Drivers.SnmpUps
import Nut.Lib.Transition

/-!
# What a walk leaves of the table

An entry of the table never changes but in its flags.  What the reading of an entry does to the flags of the others is
that `disable_competition` takes them out of use (`Dimmed`); what the tests before it do to the flags of the entry is
`Selected`.
-/

namespace Nut

namespace SnmpUps

/-! ### Flags -/

theorem has_iff {flags bits : Flags} : has flags bits = true ↔ flags &&& bits ≠ 0 := decide_eq_true_iff

theorem has_congr {f f' b : Flags} (h : f' &&& b = f &&& b) : has f' b = has f b := by rw [has, has, h]

/-- Other bits than those that are cleared. -/
theorem clear_and {f b c : Flags} (h : ~~~b &&& c = c) : clear f b &&& c = f &&& c := by rw [clear, BitVec.and_assoc, h]

theorem clear_and_self {f b c : Flags} (h : ~~~b &&& c = 0) : clear f b &&& c = 0 := by
  rw [clear, BitVec.and_assoc, h]
  exact BitVec.and_zero

theorem or_and {f b c : Flags} (h : b &&& c = 0) : (f ||| b) &&& c = f &&& c := by
  rw [BitVec.and_or_distrib_right, h]
  exact BitVec.or_zero

/-- Bits that are apart. -/
theorem not_and_of_and_eq_zero {b c : Flags} (h : c &&& b = 0) : ~~~b &&& c = c := by
  have hsplit : c = (c &&& b) ||| (c &&& ~~~b) := by
    rw [← BitVec.and_or_distrib_left, BitVec.or_not_self]
    exact BitVec.and_allOnes.symm
  rw [h] at hsplit
  rw [BitVec.and_comm]
  exact (hsplit.trans BitVec.zero_or).symm

section

variable {F : Type}

/-! ### The table -/

/-- The same entry, which may be out of use if it has one of the names. -/
def Dims (names : CStr → Prop) (p p' : SnmpInfo F) : Prop :=
  p' = p ∨ names p.infoType ∧ p' = { p with flags := clear p.flags suFlagOk }

/-- Entries with one of the names are out of use, and nothing else has changed in the table. -/
structure Dimmed (names : CStr → Prop) (l l' : List (SnmpInfo F)) : Prop where
  length_eq : l'.length = l.length
  entry : ∀ {j : Nat} {p p' : SnmpInfo F}, l[j]? = some p → l'[j]? = some p' → Dims names p p'

theorem clear_clear (f b : Flags) : clear (clear f b) b = clear f b := by
  rw [clear, clear, BitVec.and_assoc, BitVec.and_self]

section

variable {names : CStr → Prop}

theorem Dims.trans {p q r : SnmpInfo F} (h : Dims names p q) (h' : Dims names q r) : Dims names p r := by
  rcases h with rfl | ⟨hname, rfl⟩
  · exact h'
  · rcases h' with rfl | ⟨-, rfl⟩
    · exact .inr ⟨hname, rfl⟩
    · exact .inr ⟨hname, by rw [clear_clear]⟩

theorem Dimmed.refl (l : List (SnmpInfo F)) : Dimmed names l l := by
  refine ⟨rfl, fun {j p p'} hp hp' => .inl ?_⟩
  rw [hp] at hp'
  exact (Option.some.inj hp').symm

theorem Dimmed.trans {l l' l'' : List (SnmpInfo F)} (h : Dimmed names l l') (h' : Dimmed names l' l'') :
    Dimmed names l l'' := by
  refine ⟨h'.length_eq.trans h.length_eq, fun {j p r} hp hr => ?_⟩
  have hj : j < l'.length := by
    rw [h.length_eq]
    exact (List.getElem?_eq_some_iff.1 hp).1
  exact (h.entry hp (List.getElem?_eq_getElem hj)).trans (h'.entry (List.getElem?_eq_getElem hj) hr)

theorem Dimmed.mono {names' : CStr → Prop} {l l' : List (SnmpInfo F)} (h : Dimmed names l l')
    (hnames : ∀ name, names name → names' name) : Dimmed names' l l' := by
  refine ⟨h.length_eq, fun {j p p'} hp hp' => ?_⟩
  exact (h.entry hp hp').imp_right fun hdim => ⟨hnames _ hdim.1, hdim.2⟩

end

theorem disableCompetition_dimmed (s : Snmp F) (self : Option Nat) (infoType : CStr) :
    Dimmed (· = infoType) s.info (disableCompetition s self infoType).info := by
  refine ⟨List.length_mapIdx, fun {j p p'} hp hp' => ?_⟩
  rw [disableCompetition, List.getElem?_mapIdx, hp, Option.map_some] at hp'
  rw [← Option.some.inj hp']
  split
  · rename_i h
    exact .inr ⟨h.2, rfl⟩
  · exact .inl rfl

/-! ### A request -/

/-- The number in an answer. -/
def intValue : Option Pdu → Option Int
  | some (.text string) => some (strtolBase 0 (string.takeWhile (· ≠ '\x00')))
  | some (.number integer) => some integer
  | some (.timeticks integer) => some (integer.tdiv 100)
  | _ => none

/-- There is a text in an answer. -/
def hasText : Option Pdu → Bool
  | none | some .other => false
  | _ => true

def ask (s : Snmp F) (oid : CStr) : Snmp F := { s with gets := s.gets ++ [oid] }

theorem nutSnmpGetInt_eq (env : Env F) (s : Snmp F) {oid : CStr} {o : Option CStr} (ho : o = some oid) :
    nutSnmpGetInt env s o = some (ask s oid, intValue (env.get s.gets.length oid)) := by
  rw [ho]
  unfold nutSnmpGetInt
  simp only [nutSnmpGet]
  cases env.get s.gets.length oid with
  | none => rfl
  | some pdu => cases pdu <;> rfl

theorem nutSnmpGetStr_eq {env : Env F} {s s' : Snmp F} {oid : CStr} {o : Option CStr} {oid2info : Option (List InfoLkp)}
    {text : Option CStr} (ho : o = some oid) (h : nutSnmpGetStr env s o oid2info = some (s', text)) :
    s' = ask s oid ∧ text.isSome = hasText (env.get s.gets.length oid) := by
  rw [ho] at h
  unfold nutSnmpGetStr at h
  simp only [nutSnmpGet] at h
  cases hanswer : env.get s.gets.length oid with
  | none =>
    rw [hanswer] at h
    obtain ⟨rfl, rfl⟩ := Prod.mk.inj (Option.some.inj h)
    exact ⟨rfl, rfl⟩
  | some pdu =>
    rw [hanswer] at h
    cases pdu with
    | number integer =>
      cases oid2info with
      | none =>
        obtain ⟨rfl, rfl⟩ := Prod.mk.inj (Option.some.inj h)
        exact ⟨rfl, rfl⟩
      | some oid2info =>
        obtain ⟨name, -, hname⟩ := Option.map_eq_some_iff.1 h
        obtain ⟨rfl, rfl⟩ := Prod.mk.inj hname
        exact ⟨rfl, rfl⟩
    | _ =>
      obtain ⟨rfl, rfl⟩ := Prod.mk.inj (Option.some.inj h)
      exact ⟨rfl, rfl⟩

/-! ### The reading of an entry -/

/-- What comes of an answer to the request for an entry. -/
inductive Reading where
  | good
  | bad
  | negative
  deriving DecidableEq

/-- The entries whose numbers are not tested. -/
def isSpecial (info : SnmpInfo F) : Bool :=
  strcasecmp info.infoType "ups.status".toList = .eq ∨ strcasecmp info.infoType "ambient.temperature".toList = .eq

def reading (info : SnmpInfo F) (answer : Option Pdu) : Reading :=
  if isSpecial info then if (intValue answer).isSome then .good else .bad
  else if info.infoFlags = 0 then
    match intValue answer with
    | none => .bad
    | some value => if has info.flags suFlagNeginvalid ∧ value < 0 then .negative else .good
  else if hasText answer then .good else .bad

/-- The flags of an entry after `su_ups_get`. -/
def readFlags (flags : Flags) : Reading → Flags
  | .negative =>
    let flags := clear flags suFlagOk
    if has flags suFlagUnique then clear flags suFlagUnique else flags
  | _ => flags

/-- What no reading of an entry changes in the driver. -/
structure Untouched (s s' : Snmp F) : Prop where
  outletIndexBase : s'.outletIndexBase = s.outletIndexBase
  iterations : s'.iterations = s.iterations

theorem Untouched.refl (s : Snmp F) : Untouched s s := ⟨rfl, rfl⟩

theorem Untouched.trans {s s' s'' : Snmp F} (h : Untouched s s') (h' : Untouched s' s'') : Untouched s s'' :=
  ⟨h'.outletIndexBase.trans h.outletIndexBase, h'.iterations.trans h.iterations⟩

theorem suSetinfo_eq {env : Env F} {s s' : Snmp F} {info : SnmpInfo F} {value : Option CStr}
    (h : suSetinfo env s info value = some s') : ∃ status, s' = { s with status := status } := by
  unfold suSetinfo at h
  split at h
  · exact ⟨s.status, (Option.some.inj h).symm⟩
  · split at h
    · exact ⟨s.status, (Option.some.inj h).symm⟩
    · split at h
      · cases h
      · exact ⟨_, (Option.some.inj h).symm⟩

theorem suStatusSet_eq {s s' : Snmp F} {info : SnmpInfo F} {value : Int} (h : suStatusSet s info value = some s') :
    ∃ status, s' = { s with status := status } := by
  unfold suStatusSet at h
  split at h
  · exact ⟨s.status, (Option.some.inj h).symm⟩
  · split at h
    · cases h
    · exact ⟨s.status, (Option.some.inj h).symm⟩
    · split at h
      · exact ⟨s.status, (Option.some.inj h).symm⟩
      · exact ⟨_, (Option.some.inj h).symm⟩

/-- What `su_ups_get` makes of an entry and of the driver. -/
structure Got (env : Env F) (s : Snmp F) (self : Option Nat) (info info' : SnmpInfo F) (s' : Snmp F) (status : Bool) (oid : CStr) :
    Prop where
  oid_eq : info.oid = some oid
  status_eq : status = decide (reading info (env.get s.gets.length oid) = .good)
  info_eq : info' = { info with flags := readFlags info.flags (reading info (env.get s.gets.length oid)) }
  dimmed : Dimmed (· = info.infoType) s.info s'.info
  untouched : Untouched s s'

theorem Got.of_same {env : Env F} {s s' : Snmp F} {self : Option Nat} {info : SnmpInfo F} {oid : CStr} {r : Reading}
    (hoid : info.oid = some oid) (hr : reading info (env.get s.gets.length oid) = r) (hneg : r ≠ .negative)
    (hinfo : s'.info = s.info) (huntouched : Untouched s s') : Got env s self info info s' (decide (r = .good)) oid := by
  refine ⟨hoid, by rw [hr], ?_, hinfo ▸ Dimmed.refl _, huntouched⟩
  rw [hr]
  cases r with
  | good => rfl
  | bad => rfl
  | negative => exact absurd rfl hneg

/-- The entries whose value is a number that is not tested. -/
theorem reading_special {info : SnmpInfo F} (h : isSpecial info = true) (answer : Option Pdu) :
    reading info answer = if (intValue answer).isSome then .good else .bad := if_pos h

theorem untouched_ask (s : Snmp F) (oid : CStr) : Untouched s (ask s oid) := ⟨rfl, rfl⟩

theorem untouched_storePhases (s : Snmp F) (value : Int) (var : PhaseVar) : Untouched s (storePhases s value var) := by
  cases var <;> exact ⟨rfl, rfl⟩

theorem info_storePhases (s : Snmp F) (value : Int) (var : PhaseVar) : (storePhases s value var).info = s.info := by
  cases var <;> rfl

/-- An entry that is not special and has no flags for the variable: a number. -/
theorem suUpsGet_number {env : Env F} {s s' : Snmp F} {self : Option Nat} {info info' : SnmpInfo F} {status : Bool} {oid : CStr}
    (hoid : info.oid = some oid) (hspecial : isSpecial info = false) (hflags : info.infoFlags = 0)
    (h : suUpsGet env s self info = some (info', s', status)) : Got env s self info info' s' status oid := by
  obtain ⟨hstatus, htemp⟩ := not_or.1 (of_decide_eq_false hspecial)
  have hreading : ∀ answer, reading info answer =
      match intValue answer with
      | none => .bad
      | some value => if has info.flags suFlagNeginvalid ∧ value < 0 then .negative else .good := fun answer => by
    rw [reading, if_neg (by rw [hspecial]; exact Bool.false_ne_true), if_pos hflags]
  rw [suUpsGet, if_neg hstatus, if_neg htemp, if_pos hflags, nutSnmpGetInt_eq env s hoid] at h
  cases hvalue : intValue (env.get s.gets.length oid) with
  | none =>
    rw [hvalue] at h
    obtain ⟨rfl, hrest⟩ := Prod.mk.inj (Option.some.inj h)
    obtain ⟨rfl, rfl⟩ := Prod.mk.inj hrest
    exact Got.of_same (r := .bad) hoid (by rw [hreading, hvalue]) nofun rfl ⟨rfl, rfl⟩
  | some value =>
    rw [hvalue] at h
    simp only at h
    split at h
    · rename_i hneg
      have hr : reading info (env.get s.gets.length oid) = .negative := by rw [hreading, hvalue]; exact if_pos hneg
      split at h
      · rename_i hunique
        obtain ⟨rfl, hrest⟩ := Prod.mk.inj (Option.some.inj h)
        obtain ⟨rfl, rfl⟩ := Prod.mk.inj hrest
        refine ⟨hoid, by rw [hr]; rfl, ?_, disableCompetition_dimmed (ask s oid) self info.infoType, ⟨rfl, rfl⟩⟩
        rw [hr, readFlags, if_pos hunique]
      · rename_i hunique
        obtain ⟨rfl, hrest⟩ := Prod.mk.inj (Option.some.inj h)
        obtain ⟨rfl, rfl⟩ := Prod.mk.inj hrest
        refine ⟨hoid, by rw [hr]; rfl, ?_, Dimmed.refl _, untouched_ask s oid⟩
        rw [hr, readFlags, if_neg hunique]
    · rename_i hneg
      have hr : reading info (env.get s.gets.length oid) = .good := by rw [hreading, hvalue]; exact if_neg hneg
      split at h
      · cases hvar : info.setvar with
        | none =>
          rw [hvar] at h
          cases h
        | some var =>
          rw [hvar] at h
          obtain ⟨s₁, hset, hresult⟩ := Option.map_eq_some_iff.1 h
          obtain ⟨rfl, hrest⟩ := Prod.mk.inj hresult
          obtain ⟨rfl, rfl⟩ := Prod.mk.inj hrest
          obtain ⟨st, rfl⟩ := suSetinfo_eq hset
          exact Got.of_same (r := .good) hoid hr nofun (info_storePhases _ _ _)
            ((untouched_ask s oid).trans ((untouched_storePhases _ _ _).trans ⟨rfl, rfl⟩))
      · obtain ⟨s₁, hset, hresult⟩ := Option.map_eq_some_iff.1 h
        obtain ⟨rfl, hrest⟩ := Prod.mk.inj hresult
        obtain ⟨rfl, rfl⟩ := Prod.mk.inj hrest
        obtain ⟨st, rfl⟩ := suSetinfo_eq hset
        exact Got.of_same (r := .good) hoid hr nofun rfl ⟨rfl, rfl⟩

/-- An entry that is not special and has flags for the variable: a text. -/
theorem suUpsGet_text {env : Env F} {s s' : Snmp F} {self : Option Nat} {info info' : SnmpInfo F} {status : Bool} {oid : CStr}
    (hoid : info.oid = some oid) (hspecial : isSpecial info = false) (hflags : info.infoFlags ≠ 0)
    (h : suUpsGet env s self info = some (info', s', status)) : Got env s self info info' s' status oid := by
  obtain ⟨hstatus, htemp⟩ := not_or.1 (of_decide_eq_false hspecial)
  have hreading : ∀ answer, reading info answer = if hasText answer then .good else .bad := fun answer => by
    rw [reading, if_neg (by rw [hspecial]; exact Bool.false_ne_true), if_neg hflags]
  rw [suUpsGet, if_neg hstatus, if_neg htemp, if_neg hflags] at h
  split at h
  · cases h
  · rename_i s₁ hget
    obtain ⟨rfl, htext⟩ := nutSnmpGetStr_eq hoid hget
    obtain ⟨rfl, hrest⟩ := Prod.mk.inj (Option.some.inj h)
    obtain ⟨rfl, rfl⟩ := Prod.mk.inj hrest
    exact Got.of_same (r := .bad) hoid (by rw [hreading, ← htext]; rfl) nofun rfl ⟨rfl, rfl⟩
  · rename_i s₁ text hget
    obtain ⟨rfl, htext⟩ := nutSnmpGetStr_eq hoid hget
    obtain ⟨s₂, hset, hresult⟩ := Option.map_eq_some_iff.1 h
    obtain ⟨rfl, hrest⟩ := Prod.mk.inj hresult
    obtain ⟨rfl, rfl⟩ := Prod.mk.inj hrest
    obtain ⟨st, rfl⟩ := suSetinfo_eq hset
    exact Got.of_same (r := .good) hoid (by rw [hreading, ← htext]; rfl) nofun rfl ⟨rfl, rfl⟩

/-- The status, and the temperature of the environment. -/
theorem suUpsGet_special {env : Env F} {s s' : Snmp F} {self : Option Nat} {info info' : SnmpInfo F} {status : Bool} {oid : CStr}
    (hoid : info.oid = some oid) (hspecial : isSpecial info = true) (h : suUpsGet env s self info = some (info', s', status)) :
    Got env s self info info' s' status oid := by
  have hreading := reading_special hspecial (env.get s.gets.length oid)
  unfold suUpsGet at h
  rw [nutSnmpGetInt_eq env s hoid] at h
  cases hvalue : intValue (env.get s.gets.length oid) with
  | none =>
    rw [hvalue] at h hreading
    have hbad : Got env s self info info (ask s oid) false oid :=
      Got.of_same (r := .bad) hoid hreading nofun rfl ⟨rfl, rfl⟩
    split at h
    · obtain ⟨rfl, hrest⟩ := Prod.mk.inj (Option.some.inj h)
      obtain ⟨rfl, rfl⟩ := Prod.mk.inj hrest
      exact hbad
    · split at h
      · obtain ⟨rfl, hrest⟩ := Prod.mk.inj (Option.some.inj h)
        obtain ⟨rfl, rfl⟩ := Prod.mk.inj hrest
        exact hbad
      · rename_i hstatus htemp
        exact absurd (of_decide_eq_true hspecial) (not_or.2 ⟨hstatus, htemp⟩)
  | some value =>
    rw [hvalue] at h hreading
    split at h
    · obtain ⟨s₁, hset, hresult⟩ := Option.map_eq_some_iff.1 h
      obtain ⟨rfl, hrest⟩ := Prod.mk.inj hresult
      obtain ⟨rfl, rfl⟩ := Prod.mk.inj hrest
      obtain ⟨st, rfl⟩ := suStatusSet_eq hset
      exact Got.of_same (r := .good) hoid hreading nofun rfl ⟨rfl, rfl⟩
    · split at h
      · simp only at h
        split at h
        · rw [nutSnmpGetInt_eq env _ rfl] at h
          obtain ⟨s₁, hset, hresult⟩ := Option.map_eq_some_iff.1 h
          obtain ⟨rfl, hrest⟩ := Prod.mk.inj hresult
          obtain ⟨rfl, rfl⟩ := Prod.mk.inj hrest
          obtain ⟨st, rfl⟩ := suSetinfo_eq hset
          exact Got.of_same (r := .good) hoid hreading nofun rfl ⟨rfl, rfl⟩
        · obtain ⟨s₁, hset, hresult⟩ := Option.map_eq_some_iff.1 h
          obtain ⟨rfl, hrest⟩ := Prod.mk.inj hresult
          obtain ⟨rfl, rfl⟩ := Prod.mk.inj hrest
          obtain ⟨st, rfl⟩ := suSetinfo_eq hset
          exact Got.of_same (r := .good) hoid hreading nofun rfl ⟨rfl, rfl⟩
      · rename_i hstatus htemp
        exact absurd (of_decide_eq_true hspecial) (not_or.2 ⟨hstatus, htemp⟩)

theorem suUpsGet_spec {env : Env F} {s s' : Snmp F} {self : Option Nat} {info info' : SnmpInfo F} {status : Bool}
    (h : suUpsGet env s self info = some (info', s', status)) : ∃ oid, Got env s self info info' s' status oid := by
  cases hoid : info.oid with
  | none =>
    unfold suUpsGet at h
    rw [hoid] at h
    simp only [nutSnmpGetInt, nutSnmpGetStr] at h
    split at h
    · cases h
    · split at h
      · cases h
      · split at h
        · cases h
        · cases h
  | some oid =>
    refine ⟨oid, ?_⟩
    cases hspecial : isSpecial info with
    | true => exact suUpsGet_special hoid hspecial h
    | false =>
      by_cases hflags : info.infoFlags = 0
      · exact suUpsGet_number hoid hspecial hflags h
      · exact suUpsGet_text hoid hspecial hflags h

/-- The flags of an entry after `get_and_process_data`. -/
def afterReading (mode : WalkMode) (flags : Flags) (r : Reading) : Flags :=
  if r = .good then
    let flags := clear flags suFlagStale
    if has flags suFlagUnique then clear flags suFlagUnique else flags
  else
    match mode with
    | .init => clear (readFlags flags r) suFlagOk
    | .update => readFlags flags r ||| suFlagStale

theorem afterReading_good (mode : WalkMode) (flags : Flags) :
    afterReading mode flags .good =
      if has (clear flags suFlagStale) suFlagUnique then clear (clear flags suFlagStale) suFlagUnique
      else clear flags suFlagStale := rfl

/-- What `get_and_process_data` makes of an entry and of the driver. -/
structure Processed (env : Env F) (mode : WalkMode) (s : Snmp F) (info info' : SnmpInfo F) (s' : Snmp F) (status : Bool)
    (oid : CStr) : Prop where
  oid_eq : info.oid = some oid
  status_eq : status = decide (reading info (env.get s.gets.length oid) = .good)
  info_eq : info' = { info with flags := afterReading mode info.flags (reading info (env.get s.gets.length oid)) }
  dimmed : Dimmed (· = info.infoType) s.info s'.info
  untouched : Untouched s s'

theorem getAndProcessData_spec {env : Env F} {mode : WalkMode} {s s' : Snmp F} {self : Option Nat} {info info' : SnmpInfo F}
    {status : Bool} (h : getAndProcessData env mode s self info = some (info', s', status)) :
    ∃ oid, Processed env mode s info info' s' status oid := by
  unfold getAndProcessData at h
  split at h
  · cases h
  · rename_i info₁ s₁ hget
    obtain ⟨oid, hoid, hstatus, rfl, hdimmed, huntouched⟩ := suUpsGet_spec hget
    have hgood : reading info (env.get s.gets.length oid) = .good := of_decide_eq_true hstatus.symm
    obtain ⟨rfl, hresult⟩ := Prod.mk.inj (Option.some.inj h)
    obtain ⟨rfl, rfl⟩ := Prod.mk.inj hresult
    have hread : readFlags info.flags (reading info (env.get s.gets.length oid)) = info.flags := by rw [hgood]; rfl
    rw [hread]
    by_cases hunique : has (clear info.flags suFlagStale) suFlagUnique = true
    · rw [if_pos hunique]
      refine ⟨oid, hoid, hstatus, ?_, hdimmed.trans (disableCompetition_dimmed _ _ _), huntouched.trans ⟨rfl, rfl⟩⟩
      rw [hgood, afterReading_good, if_pos hunique]
    · rw [if_neg hunique]
      refine ⟨oid, hoid, hstatus, ?_, hdimmed, huntouched.trans ⟨rfl, rfl⟩⟩
      rw [hgood, afterReading_good, if_neg hunique]
  · rename_i info₁ s₁ hget
    obtain ⟨oid, hoid, hstatus, rfl, hdimmed, huntouched⟩ := suUpsGet_spec hget
    have hbad : reading info (env.get s.gets.length oid) ≠ .good := of_decide_eq_false hstatus.symm
    cases mode with
    | init =>
      obtain ⟨rfl, hresult⟩ := Prod.mk.inj (Option.some.inj h)
      obtain ⟨rfl, rfl⟩ := Prod.mk.inj hresult
      exact ⟨oid, hoid, hstatus, by rw [afterReading, if_neg hbad], hdimmed, huntouched⟩
    | update =>
      obtain ⟨rfl, hresult⟩ := Prod.mk.inj (Option.some.inj h)
      obtain ⟨rfl, rfl⟩ := Prod.mk.inj hresult
      exact ⟨oid, hoid, hstatus, by rw [afterReading, if_neg hbad], hdimmed, huntouched.trans ⟨rfl, rfl⟩⟩

/-! ### The flags of one entry -/

/-- Entry `i` has other flags, and other entries with one of the names may be out of use. -/
structure Turned (names : CStr → Prop) (i : Nat) (flags : Flags) (l l' : List (SnmpInfo F)) : Prop where
  length_eq : l'.length = l.length
  entry : ∀ {p : SnmpInfo F}, l[i]? = some p → l'[i]? = some { p with flags := flags }
  others : ∀ {j : Nat} {p p' : SnmpInfo F}, j ≠ i → l[j]? = some p → l'[j]? = some p' → Dims names p p'

section

variable {names : CStr → Prop}

theorem Turned.set {l l' : List (SnmpInfo F)} (h : Dimmed names l l') (i : Nat) (flags : Flags) :
    Turned names i flags l (l'.modify i fun p => { p with flags := flags }) := by
  refine ⟨(List.length_modify _ _ _).trans h.length_eq, fun {p} hp => ?_, fun {j p p'} hj hp hp' => ?_⟩
  · have hi : i < l'.length := by
      rw [h.length_eq]
      exact (List.getElem?_eq_some_iff.1 hp).1
    rw [List.getElem?_modify_eq, List.getElem?_eq_getElem hi, Option.map_eq_map, Option.map_some]
    rcases h.entry hp (List.getElem?_eq_getElem hi) with hsame | ⟨-, hsame⟩
    · rw [hsame]
    · rw [hsame]
  · rw [List.getElem?_modify_ne _ l' (Ne.symm hj)] at hp'
    exact h.entry hp hp'

/-- The flags are set again after others were taken out of use. -/
theorem Turned.again {i : Nat} {f f' : Flags} {l l' l'' : List (SnmpInfo F)} (h : Turned names i f l l')
    (h' : Turned names i f' l' l'') : Turned names i f' l l'' := by
  refine ⟨h'.length_eq.trans h.length_eq, fun {p} hp => ?_, fun {j p r} hj hp hr => ?_⟩
  · have hentry := h'.entry (h.entry hp)
    exact hentry
  have hlt : j < l'.length := by
    rw [h.length_eq]
    exact (List.getElem?_eq_some_iff.1 hp).1
  exact (h.others hj hp (List.getElem?_eq_getElem hlt)).trans (h'.others hj (List.getElem?_eq_getElem hlt) hr)

theorem Turned.mono {names' : CStr → Prop} {i : Nat} {f : Flags} {l l' : List (SnmpInfo F)} (h : Turned names i f l l')
    (hnames : ∀ name, names name → names' name) : Turned names' i f l l' := by
  refine ⟨h.length_eq, h.entry, fun {j p p'} hj hp hp' => ?_⟩
  exact (h.others hj hp hp').imp_right fun hdim => ⟨hnames _ hdim.1, hdim.2⟩

theorem turned_setFlagsAt (s : Snmp F) (i : Nat) (flags : Flags) : Turned names i flags s.info (setFlagsAt s i flags).info :=
  Turned.set (Dimmed.refl _) i flags

end

/-! ### The outlets -/

theorem outletInfo_eq {s : Snmp F} {template cur cur' : SnmpInfo F} {number : Int}
    (h : outletInfo s template cur number = some cur') :
    ∃ infoType dfl oid, sprintfI template.infoType (number + baseNutOutletOffset s) = some infoType ∧
      outletOid template number = some oid ∧ cur' = { cur with infoType := infoType, dfl := dfl, oid := oid } := by
  unfold outletInfo at h
  obtain ⟨infoType, htype, h⟩ := Option.bind_eq_some_iff.1 h
  obtain ⟨dfl, -, h⟩ := Option.bind_eq_some_iff.1 h
  obtain ⟨oid, hoid, h⟩ := Option.bind_eq_some_iff.1 h
  exact ⟨infoType, dfl, oid, htype, hoid, (Option.some.inj h).symm⟩

/-- The reading of an outlet, if there is one. -/
def outletReading (env : Env F) (cmd : Bool) (s : Snmp F) (cur : SnmpInfo F) : Option Reading :=
  if cmd then none else cur.oid.map fun oid => reading cur (env.get s.gets.length oid)

theorem processOutlet_spec {env : Env F} {mode : WalkMode} {cmd : Bool} {s s' : Snmp F} {cur cur' : SnmpInfo F}
    {got : Option Bool} (h : processOutlet env mode cmd s cur = some (cur', s', got)) :
    got = (outletReading env cmd s cur).map (fun r => decide (r = .good)) ∧
      cur' = { cur with flags := (outletReading env cmd s cur).elim cur.flags (afterReading mode cur.flags) } ∧
        Dimmed (· = cur.infoType) s.info s'.info ∧ Untouched s s' := by
  unfold processOutlet at h
  unfold outletReading
  by_cases hoid : cur.oid = none
  · rw [if_pos hoid] at h
    obtain ⟨s₁, hset, hresult⟩ := Option.map_eq_some_iff.1 h
    obtain ⟨rfl, hrest⟩ := Prod.mk.inj hresult
    obtain ⟨rfl, rfl⟩ := Prod.mk.inj hrest
    obtain ⟨st, rfl⟩ := suSetinfo_eq hset
    have hnone : (if cmd = true then none else cur.oid.map fun oid => reading cur (env.get s.gets.length oid)) = none := by
      rw [hoid]
      split <;> rfl
    rw [hnone]
    exact ⟨rfl, rfl, Dimmed.refl _, ⟨rfl, rfl⟩⟩
  · rw [if_neg hoid] at h
    cases cmd with
    | true =>
      rw [if_pos rfl] at h
      obtain ⟨rfl, hrest⟩ := Prod.mk.inj (Option.some.inj h)
      obtain ⟨rfl, rfl⟩ := Prod.mk.inj hrest
      refine ⟨rfl, rfl, ?_, ?_⟩
      · split
        · exact Dimmed.refl _
        · exact Dimmed.refl _
      · split
        · exact ⟨rfl, rfl⟩
        · exact Untouched.refl s
    | false =>
      rw [if_neg Bool.false_ne_true] at h ⊢
      obtain ⟨⟨info', s₁, status⟩, hget, hresult⟩ := Option.map_eq_some_iff.1 h
      obtain ⟨rfl, hrest⟩ := Prod.mk.inj hresult
      obtain ⟨rfl, rfl⟩ := Prod.mk.inj hrest
      obtain ⟨oid, hcur, hstatus, hinfo, hdimmed, huntouched⟩ := getAndProcessData_spec hget
      have hsome : (cur.oid.map fun oid => reading cur (env.get s.gets.length oid)) =
          some (reading cur (env.get s.gets.length oid)) := by rw [hcur]; rfl
      rw [hsome]
      exact ⟨congrArg some hstatus, hinfo, hdimmed, huntouched⟩

/-- The readings of the outlets, in order. -/
def outletReadings (env : Env F) (mode : WalkMode) (i : Nat) (template : SnmpInfo F) :
    Nat → Int → SnmpInfo F → Snmp F → List Reading
  | 0, _, _, _ => []
  | rest + 1, number, cur, s =>
    match outletInfo s template cur number with
    | none => []
    | some cur =>
      match processOutlet env mode (isCmd template.flags) s cur with
      | none => []
      | some (cur', s', _) =>
        (outletReading env (isCmd template.flags) s cur).toList ++
          outletReadings env mode i template rest (number + 1) cur' (setFlagsAt s' i cur'.flags)

/-- The flags after several readings. -/
def afterReadings (mode : WalkMode) (flags : Flags) (rs : List Reading) : Flags := rs.foldl (afterReading mode) flags

/-- Readings change no other bits than OK, STALE and UNIQUE. -/
theorem afterReadings_keeps {c : Flags} (h : c &&& (suFlagOk ||| suFlagStale ||| suFlagUnique) = 0) (mode : WalkMode)
    (rs : List Reading) : ∀ f, afterReadings mode f rs &&& c = f &&& c := by
  rw [BitVec.and_or_distrib_left, BitVec.and_or_distrib_left] at h
  obtain ⟨h, hcunique⟩ := BitVec.or_eq_zero_iff.1 h
  obtain ⟨hcok, hcstale⟩ := BitVec.or_eq_zero_iff.1 h
  have hok : ∀ f : Flags, clear f suFlagOk &&& c = f &&& c := fun f => clear_and (not_and_of_and_eq_zero hcok)
  have hunique : ∀ f : Flags, clear f suFlagUnique &&& c = f &&& c := fun f => clear_and (not_and_of_and_eq_zero hcunique)
  have hstale : ∀ f : Flags, clear f suFlagStale &&& c = f &&& c := fun f => clear_and (not_and_of_and_eq_zero hcstale)
  have hset : ∀ f : Flags, (f ||| suFlagStale) &&& c = f &&& c := fun f => or_and (by rw [BitVec.and_comm]; exact hcstale)
  have hread : ∀ f r, readFlags f r &&& c = f &&& c := by
    intro f r
    cases r with
    | negative =>
      simp only [readFlags]
      split
      · rw [hunique, hok]
      · rw [hok]
    | good => rfl
    | bad => rfl
  have hone : ∀ f r, afterReading mode f r &&& c = f &&& c := by
    intro f r
    unfold afterReading
    split
    · simp only
      split
      · rw [hunique, hstale]
      · rw [hstale]
    · cases mode with
      | init => simp only; rw [hok, hread]
      | update => simp only; rw [hset, hread]
  induction rs with
  | nil => exact fun f => rfl
  | cons r rs ih =>
    intro f
    rw [afterReadings, List.foldl_cons, ← afterReadings, ih, hone]

/-- The status of the last reading, if there was one. -/
def lastStatus (rs : List Reading) : Option Bool := rs.getLast?.map fun r => decide (r = .good)

theorem lastStatus_append (o : Option Reading) (rs : List Reading) (status : Option Bool) :
    (lastStatus rs).or ((o.map fun r => decide (r = .good)).or status) = (lastStatus (o.toList ++ rs)).or status := by
  cases o with
  | none => rfl
  | some r =>
    unfold lastStatus
    rw [Option.toList_some, List.singleton_append]
    cases hlast : rs.getLast? with
    | none =>
      rw [List.getLast?_eq_none_iff.1 hlast]
      rfl
    | some r' => rw [List.getLast?_cons, hlast]; rfl

/-- The names of the variables that the outlets of a template are shown as. -/
def OutletName (template : SnmpInfo F) (name : CStr) : Prop := ∃ number, sprintfI template.infoType number = some name

theorem outletLoop_spec {env : Env F} {mode : WalkMode} {i : Nat} {template : SnmpInfo F} (rest : Nat) :
    ∀ {number : Int} {cur : SnmpInfo F} {s s' : Snmp F} {status status' : Option Bool},
      outletLoop env mode i template rest number cur s status = some (s', status') →
      (∀ p, s.info[i]? = some p → p.flags = cur.flags) →
      status' = (lastStatus (outletReadings env mode i template rest number cur s)).or status ∧
        Turned (OutletName template) i (afterReadings mode cur.flags (outletReadings env mode i template rest number cur s))
          s.info s'.info ∧
          Untouched s s' := by
  induction rest with
  | zero =>
    intro number cur s s' status status' h hflags
    obtain ⟨rfl, rfl⟩ := Prod.mk.inj (Option.some.inj h)
    refine ⟨rfl, ⟨rfl, fun {p} hp => ?_, fun {j p p'} _ hp hp' => (Dimmed.refl _).entry hp hp'⟩, Untouched.refl s⟩
    have hself : ({ p with flags := afterReadings mode cur.flags [] } : SnmpInfo F) = p := by
      rw [afterReadings, List.foldl_nil, ← hflags p hp]
    rw [outletReadings, hself, hp]
  | succ rest ih =>
    intro number cur s s' status status' h hflags
    unfold outletLoop at h
    obtain ⟨cur₁, hinfo, h⟩ := Option.bind_eq_some_iff.1 h
    obtain ⟨⟨cur₂, s₂, got⟩, hround, h⟩ := Option.bind_eq_some_iff.1 h
    obtain ⟨hgot, hcur, hdimmed, huntouched⟩ := processOutlet_spec hround
    have hname : OutletName template cur₁.infoType := by
      obtain ⟨infoType, dfl, oid, htype, -, rfl⟩ := outletInfo_eq hinfo
      exact ⟨_, htype⟩
    have hset : Turned (OutletName template) i cur₂.flags s.info (setFlagsAt s₂ i cur₂.flags).info :=
      Turned.set (hdimmed.mono fun name hsame => hsame ▸ hname) i _
    obtain ⟨hstatus, hturned, hrest⟩ := ih h fun p hp => by
      obtain ⟨q, hq⟩ : ∃ q, s.info[i]? = some q := by
        refine ⟨_, List.getElem?_eq_getElem ?_⟩
        rw [← hset.length_eq]
        exact (List.getElem?_eq_some_iff.1 hp).1
      rw [hset.entry hq] at hp
      rw [← Option.some.inj hp]
    have hreadings : outletReadings env mode i template (rest + 1) number cur s =
        (outletReading env (isCmd template.flags) s cur₁).toList ++
          outletReadings env mode i template rest (number + 1) cur₂ (setFlagsAt s₂ i cur₂.flags) := by
      rw [outletReadings, hinfo]
      simp only
      rw [hround]
    have hcurflags : cur₁.flags = cur.flags := by
      obtain ⟨infoType, dfl, oid, -, -, rfl⟩ := outletInfo_eq hinfo
      rfl
    have hflags₂ : cur₂.flags = afterReadings mode cur.flags (outletReading env (isCmd template.flags) s cur₁).toList := by
      rw [hcur, hcurflags]
      cases outletReading env (isCmd template.flags) s cur₁ <;> rfl
    refine ⟨by rw [hreadings, hstatus, hgot, lastStatus_append], ?_, huntouched.trans ⟨hrest.outletIndexBase, hrest.iterations⟩⟩
    have hfold : afterReadings mode cur.flags (outletReadings env mode i template (rest + 1) number cur s) =
        afterReadings mode cur₂.flags
          (outletReadings env mode i template rest (number + 1) cur₂ (setFlagsAt s₂ i cur₂.flags)) := by
      rw [hreadings, hflags₂, afterReadings, afterReadings, afterReadings, List.foldl_append]
    rw [hfold]
    exact hset.again hturned

/-- Looking for the outlets changes nothing of the table. -/
structure Probed (s s' : Snmp F) : Prop where
  info : s'.info = s.info
  iterations : s'.iterations = s.iterations

theorem guestimateLoop_probed {env : Env F} {oid : CStr} {base : Int} (fuel : Nat) :
    ∀ {count : Nat} {s s' : Snmp F} {n : Nat}, guestimateLoop env oid base fuel count s = some (s', n) → Probed s s' := by
  induction fuel with
  | zero =>
    intro count s s' n h
    cases h
  | succ fuel ih =>
    intro count s s' n h
    unfold guestimateLoop at h
    split at h
    · cases h
    · rename_i test htest
      simp only [nutSnmpGet] at h
      cases hanswer : env.get s.gets.length test with
      | none =>
        rw [hanswer] at h
        rw [← (Prod.mk.inj (Option.some.inj h)).1]
        exact ⟨rfl, rfl⟩
      | some pdu =>
        rw [hanswer] at h
        obtain ⟨hinfo, hiterations⟩ := ih h
        exact ⟨hinfo, hiterations⟩

theorem guestimateOutletCount_probed {env : Env F} {s s' : Snmp F} {oid : Option CStr} {n : Nat}
    (h : guestimateOutletCount env s oid = some (s', n)) : Probed s s' := by
  unfold guestimateOutletCount at h
  split at h
  · cases h
  · split at h
    · cases h
    · simp only [nutSnmpGet] at h
      split at h
      all_goals
        rename_i heq
        obtain ⟨rfl, -⟩ := Prod.mk.inj heq
        obtain ⟨hinfo, hiterations⟩ := guestimateLoop_probed _ h
        exact ⟨hinfo, hiterations⟩

theorem outletCount_probed {env : Env F} {s s' : Snmp F} {oid : Option CStr} {count : Int}
    (h : outletCount env s oid = some (s', count)) : Probed s s' := by
  unfold outletCount at h
  split at h
  · rw [← (Prod.mk.inj (Option.some.inj h)).1]
    exact ⟨rfl, rfl⟩
  · split at h
    · cases h
    · rename_i s₁ n hguess
      obtain ⟨hinfo, hiterations⟩ := guestimateOutletCount_probed hguess
      rw [← (Prod.mk.inj (Option.some.inj h)).1]
      exact ⟨hinfo, hiterations⟩

theorem baseSnmpOutletIndex_probed {env : Env F} {s s' : Snmp F} {oid : Option CStr} {base : Int}
    (h : baseSnmpOutletIndex env s oid = some (s', base)) : Probed s s' := by
  unfold baseSnmpOutletIndex at h
  split at h
  · rw [← (Prod.mk.inj (Option.some.inj h)).1]
    exact ⟨rfl, rfl⟩
  · split at h
    · cases h
    · split at h
      · cases h
      · simp only [nutSnmpGet] at h
        split at h
        · rename_i heq
          obtain ⟨rfl, -⟩ := Prod.mk.inj heq
          rw [← (Prod.mk.inj (Option.some.inj h)).1]
          exact ⟨rfl, rfl⟩
        · rename_i heq
          obtain ⟨rfl, -⟩ := Prod.mk.inj heq
          split at h
          · cases h
          · split at h
            all_goals
              rename_i heq
              obtain ⟨rfl, -⟩ := Prod.mk.inj heq
              rw [← (Prod.mk.inj (Option.some.inj h)).1]
              exact ⟨rfl, rfl⟩

/-! ### An entry -/

/-- The readings of the outlets of a template. -/
def templateReadings (env : Env F) (mode : WalkMode) (s : Snmp F) (i : Nat) (template : SnmpInfo F) : List Reading :=
  match outletCount env s template.oid with
  | none => []
  | some (s, count) =>
    if 0 < count then
      match baseSnmpOutletIndex env s template.oid with
      | none => []
      | some (s, base) => outletReadings env mode i template count.toNat base template s
    else []

/-- The readings for an entry in its turn, which the tests let through. -/
def entryReadings (env : Env F) (mode : WalkMode) (s : Snmp F) (i : Nat) : List Reading :=
  match s.info[i]? with
  | none => []
  | some info =>
    if (select mode s info.flags).2 = .poll then
      let info := { info with flags := (select mode s info.flags).1 }
      if has info.flags suOutlet then templateReadings env mode (setFlagsAt s i info.flags) i info
      else (info.oid.map fun oid => reading info (env.get s.gets.length oid)).toList
    else []

theorem walkOutlets_spec {env : Env F} {mode : WalkMode} {s s' : Snmp F} {i : Nat} {template : SnmpInfo F}
    {got : Option Bool} (h : walkOutlets env mode s i template = some (s', got))
    (hflags : ∀ p, s.info[i]? = some p → p.flags = template.flags) :
    got = lastStatus (templateReadings env mode s i template) ∧
      Turned (OutletName template) i (afterReadings mode template.flags (templateReadings env mode s i template)) s.info
          s'.info ∧
        s'.iterations = s.iterations := by
  unfold walkOutlets at h
  unfold templateReadings
  have hself : Turned (OutletName template) i (afterReadings mode template.flags []) s.info s.info := by
    refine ⟨rfl, fun {p} hp => ?_, fun {j p p'} _ hp hp' => (Dimmed.refl _).entry hp hp'⟩
    rw [afterReadings, List.foldl_nil, ← hflags p hp, hp]
  cases hcount : outletCount env s template.oid with
  | none =>
    rw [hcount] at h
    cases h
  | some r =>
    obtain ⟨s₁, count⟩ := r
    have hprobed := outletCount_probed hcount
    rw [hcount] at h
    simp only at h ⊢
    split at h
    · rename_i hpos
      rw [if_pos hpos]
      cases hbase : baseSnmpOutletIndex env s₁ template.oid with
      | none =>
        rw [hbase] at h
        cases h
      | some r =>
        obtain ⟨s₂, base⟩ := r
        have hprobed₂ := baseSnmpOutletIndex_probed hbase
        rw [hbase] at h
        simp only at h ⊢
        have hinfo : s₂.info = s.info := hprobed₂.info.trans hprobed.info
        obtain ⟨hgot, hturned, huntouched⟩ := outletLoop_spec _ h fun p hp => hflags p (hinfo ▸ hp)
        refine ⟨by rw [hgot, Option.or_none], hinfo ▸ hturned, ?_⟩
        rw [huntouched.iterations, hprobed₂.iterations, hprobed.iterations]
    · rename_i hpos
      rw [if_neg hpos]
      obtain ⟨rfl, rfl⟩ := Prod.mk.inj (Option.some.inj h)
      exact ⟨rfl, hprobed.info ▸ hself, hprobed.iterations⟩

/-- The names of the variables that an entry is shown as. -/
def ShownAs (p : SnmpInfo F) (name : CStr) : Prop :=
  if has p.flags suOutlet then OutletName p name else name = p.infoType

theorem checkPhases_keeps {phases one three c : Flags} (hphases : ~~~phases &&& c = c) (hok : ~~~suFlagOk &&& c = c)
    (count countOfThree : Int32) (f : Flags) : (checkPhases phases one three count countOfThree f).1 &&& c = f &&& c := by
  unfold checkPhases
  split
  · rfl
  split
  · rfl
  split
  · split
    · exact clear_and hphases
    · exact clear_and hok
  split
  · split
    · exact clear_and hphases
    · exact clear_and hok
  · rfl

/-- The tests change no other bits than those of the phases, OK and STATIC. -/
theorem select_keeps {c : Flags} (h : c &&& (suInphases ||| suOutphases ||| suBypphases ||| suFlagOk ||| suFlagStatic) = 0)
    (mode : WalkMode) (s : Snmp F) (f : Flags) : (select mode s f).1 &&& c = f &&& c := by
  rw [BitVec.and_or_distrib_left, BitVec.and_or_distrib_left, BitVec.and_or_distrib_left, BitVec.and_or_distrib_left] at h
  obtain ⟨h, hstatic⟩ := BitVec.or_eq_zero_iff.1 h
  obtain ⟨h, hok⟩ := BitVec.or_eq_zero_iff.1 h
  obtain ⟨h, hbypass⟩ := BitVec.or_eq_zero_iff.1 h
  obtain ⟨hinput, houtput⟩ := BitVec.or_eq_zero_iff.1 h
  have hin : ∀ f, (checkInput s f).1 &&& c = f &&& c := checkPhases_keeps (not_and_of_and_eq_zero hinput) (not_and_of_and_eq_zero hok) _ _
  have hout : ∀ f, (checkOutput s f).1 &&& c = f &&& c := checkPhases_keeps (not_and_of_and_eq_zero houtput) (not_and_of_and_eq_zero hok) _ _
  have hbyp : ∀ f, (checkBypass s f).1 &&& c = f &&& c := checkPhases_keeps (not_and_of_and_eq_zero hbypass) (not_and_of_and_eq_zero hok) _ _
  unfold select
  split
  · rfl
  split
  · rfl
  split
  · rfl
  split
  · split
    · exact or_and (by rw [BitVec.and_comm]; exact hstatic)
    · rfl
  split
  · rfl
  have h₁ := hin f
  split
  · rename_i hcheck
    rwa [hcheck] at h₁
  · rename_i f₁ hcheck
    rw [hcheck] at h₁
    have h₂ := hout f₁
    split
    · rename_i hcheck
      rw [hcheck] at h₂
      exact h₂.trans h₁
    · rename_i f₂ hcheck
      rw [hcheck] at h₂
      have h₃ := hbyp f₂
      split
      · rename_i hcheck
        rw [hcheck] at h₃
        exact h₃.trans (h₂.trans h₁)
      · rename_i hcheck
        rw [hcheck] at h₃
        exact h₃.trans (h₂.trans h₁)

/-- The turn of an entry: only what is read from the device after the tests changes its flags further. -/
theorem walkEntry_spec {env : Env F} {mode : WalkMode} {s s' : Snmp F} {i : Nat} {got : Option Bool}
    (h : walkEntry env mode s i = some (s', got)) {p : SnmpInfo F} (hp : s.info[i]? = some p) :
    got = lastStatus (entryReadings env mode s i) ∧
      Turned (ShownAs p) i (afterReadings mode (select mode s p.flags).1 (entryReadings env mode s i)) s.info s'.info ∧
        s'.iterations = s.iterations := by
  unfold walkEntry at h
  unfold entryReadings
  rw [hp] at h
  simp only at h
  rw [hp]
  simp only
  have hset : Turned (ShownAs p) i (select mode s p.flags).1 s.info (setFlagsAt s i (select mode s p.flags).1).info :=
    turned_setFlagsAt s i _
  cases hsel : (select mode s p.flags).2 with
  | skip =>
    rw [hsel] at h
    obtain ⟨rfl, rfl⟩ := Prod.mk.inj (Option.some.inj h)
    exact ⟨rfl, hset, rfl⟩
  | default =>
    rw [hsel] at h
    simp only at h
    rw [if_neg nofun]
    split at h
    · obtain ⟨s₁, hdfl, hresult⟩ := Option.map_eq_some_iff.1 h
      obtain ⟨rfl, rfl⟩ := Prod.mk.inj hresult
      obtain ⟨st, rfl⟩ := suSetinfo_eq hdfl
      exact ⟨rfl, hset, rfl⟩
    · obtain ⟨rfl, rfl⟩ := Prod.mk.inj (Option.some.inj h)
      exact ⟨rfl, hset, rfl⟩
  | poll =>
    rw [hsel] at h
    simp only at h
    rw [if_pos rfl]
    have hentry := hset.entry hp
    have hsame : has (select mode s p.flags).1 suOutlet = has p.flags suOutlet := has_congr (select_keeps (by decide) mode s _)
    split at h
    · rename_i hout
      rw [if_pos hout]
      have hshown : ∀ name, OutletName { p with flags := (select mode s p.flags).1 } name → ShownAs p name := fun name hname => by
        rw [ShownAs, if_pos (hsame ▸ hout)]
        exact hname
      obtain ⟨hgot, hturned, hiterations⟩ := walkOutlets_spec h fun q hq => by
        rw [hentry] at hq
        rw [← Option.some.inj hq]
      exact ⟨hgot, hset.again (hturned.mono hshown), hiterations⟩
    · rename_i hout
      rw [if_neg hout]
      split at h
      · cases h
      · rename_i info s₁ status hget
        obtain ⟨oid, hoid, hstatus, rfl, hdimmed, huntouched⟩ := getAndProcessData_spec hget
        obtain ⟨rfl, rfl⟩ := Prod.mk.inj (Option.some.inj h)
        have hone : (p.oid.map fun oid => reading { p with flags := (select mode s p.flags).1 } (env.get s.gets.length oid)).toList =
            [reading { p with flags := (select mode s p.flags).1 } (env.get s.gets.length oid)] := by
          rw [hoid]
          rfl
        rw [hone]
        have hshown : ∀ name, name = p.infoType → ShownAs p name := fun name hname => by
          rw [ShownAs, if_neg (hsame ▸ hout)]
          exact hname
        exact ⟨congrArg some hstatus, hset.again (Turned.set (hdimmed.mono hshown) i _), huntouched.iterations⟩

/-! ### Walks -/

/-- Where the driver is: before the entry `index` of a walk. -/
structure Turn (F : Type) where
  mode : WalkMode
  index : Nat
  s : Snmp F

/-- What may have changed between two walks: the variables of the driver that the walk only reads are as they were. -/
structure Between (s s' : Snmp F) : Prop where
  info : s'.info = s.info
  inputPhases : s'.inputPhases = s.inputPhases
  outputPhases : s'.outputPhases = s.outputPhases
  bypassPhases : s'.bypassPhases = s.bypassPhases
  outletIndexBase : s'.outletIndexBase = s.outletIndexBase
  iterations : s'.iterations = s.iterations + 1

/-- The driver goes on to the next entry, or starts the next walk. -/
inductive WalkStep (env : Env F) : Turn F → Turn F → Prop
  | entry {mode : WalkMode} {i : Nat} {s s' : Snmp F} {got : Option Bool} (hi : i < s.info.length)
      (hexit : env.exitFlag s.iterations i = false) (h : walkEntry env mode s i = some (s', got)) :
      WalkStep env ⟨mode, i, s⟩ ⟨mode, i + 1, s'⟩
  | again {mode : WalkMode} {s s' : Snmp F} (h : Between s s') : WalkStep env ⟨mode, s.info.length, s⟩ ⟨.update, 0, s'⟩

/-- The first walk starts with the table as `upsdrv_initinfo` leaves it. -/
def Started (table : List (SnmpInfo F)) (t : Turn F) : Prop := t.mode = .init ∧ t.index = 0 ∧ t.s.info = table

theorem walkEntry_of_lt {env : Env F} {mode : WalkMode} {s s' : Snmp F} {i : Nat} {got : Option Bool}
    (h : walkEntry env mode s i = some (s', got)) (hi : i < s.info.length) :
    s'.info.length = s.info.length ∧ s'.iterations = s.iterations := by
  obtain ⟨-, hturned, hiterations⟩ := walkEntry_spec h (List.getElem?_eq_getElem hi)
  exact ⟨hturned.length_eq, hiterations⟩

/-- A walk that is not stopped is such a run. -/
theorem walkLoop_run {env : Env F} {mode : WalkMode} (rest : Nat) :
    ∀ {i : Nat} {s s' : Snmp F} {status ok : Bool}, walkLoop env mode rest i s status = some (s', ok) →
      i + rest = s.info.length → (∀ j, env.exitFlag s.iterations j = false) →
      ∃ s₁, s' = { s₁ with iterations := s₁.iterations + 1 } ∧ s₁.info.length = s.info.length ∧
        Relation.ReflTransGen (WalkStep env) ⟨mode, i, s⟩ ⟨mode, s.info.length, s₁⟩ := by
  induction rest with
  | zero =>
    intro i s s' status ok h hlen _
    obtain ⟨rfl, -⟩ := Prod.mk.inj (Option.some.inj h)
    refine ⟨s, rfl, rfl, ?_⟩
    have hi : i = s.info.length := by omega
    rw [hi]
  | succ rest ih =>
    intro i s s' status ok h hlen hexit
    unfold walkLoop at h
    rw [hexit, if_neg Bool.false_ne_true] at h
    split at h
    · cases h
    · rename_i s₂ got hentry
      have hi : i < s.info.length := by omega
      obtain ⟨hlength, hiterations⟩ := walkEntry_of_lt hentry hi
      obtain ⟨s₁, hs', hlast, hrun⟩ := ih h (by omega) (by rwa [hiterations])
      refine ⟨s₁, hs', by rw [hlast, hlength], ?_⟩
      rw [hlength] at hrun
      exact .head (.entry hi (hexit i) hentry) hrun

end

end SnmpUps

end Nut
