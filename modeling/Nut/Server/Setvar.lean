import Nut.Server.Answers
import Nut.Server.Rights

/-!
# What `SET VAR` accepts

The checks of `set_var` are those that it should make (`SetChecks`), but for the enumeration: the server keeps the values
that the driver declared as they come out of `pconf_encode`, and compares the new value with these.  So the answer is the
right one exactly where another check rejects the value, where there is no enumeration, or where it makes no difference
that its values are encoded (`set_accepted_iff`).
-/

namespace Nut

/-- The text that the server keeps for a value of an enumeration. -/
def kept (val : CStr) : CStr := pconfEncode val stMaxValueLen

/-- The checks of a new value other than that of the enumeration. -/
structure SetChecks (s : Upsd) (client : NutCtype) (ups : Upstype) (var newval : CStr) : Prop where
  available : ups.Available
  right : Entitled s client fun u => userMatchaction u "SET".toList
  known : sstateGetinfo ups var ≠ none
  writable : sstateGetflags ups var &&& stFlagRw ≠ 0
  fits : sstateGetflags ups var &&& stFlagString ≠ 0 →
    1 ≤ (sstateGetaux ups var).toInt ∧ (newval.length : Int) ≤ (sstateGetaux ups var).toInt
  inRange : sstateGetrangelist ups var ≠ [] →
    ∃ r ∈ sstateGetrangelist ups var, r.min ≤ atoi newval ∧ atoi newval ≤ r.max

/-- The new value should be set, where the driver declared the values in `declared` for the variable. -/
def Acceptable (s : Upsd) (client : NutCtype) (upsname var newval : CStr) (declared : List CStr) : Prop :=
  ∃ ups, getUpsPtr s upsname = some ups ∧ SetChecks s client ups var newval ∧ (declared = [] ∨ newval ∈ declared)

/-- The line is written to the driver, once, and the client is answered. -/
def Forwards (w : Writes) (s s' : Upsd) (fd : Nat) (upsname line : CStr) : Prop :=
  ∃ ups text, getUpsPtr s upsname = some ups ∧ ups.sockFd ≠ none ∧
    s' = (sendback w (sendToDriver w s ups line).1 fd text).1

/-- Nothing is written to a driver, and the client is sent one error line. -/
def Refuses (w : Writes) (s s' : Upsd) (fd : Nat) : Prop := ∃ err, s' = sendErr w s fd err

/-- The `SET` is forwarded when it should be, and refused otherwise. -/
def SetRight (w : Writes) (s : Upsd) (client : NutCtype) (upsname var newval : CStr) (declared : List CStr) : Prop :=
  (Acceptable s client upsname var newval declared →
    Forwards w s (setVar w s client upsname var newval) client.sockFd upsname (setLine var newval)) ∧
  (¬Acceptable s client upsname var newval declared → Refuses w s (setVar w s client upsname var newval) client.sockFd)

section

variable {w : Writes} {s : Upsd} {client : NutCtype} {ups : Upstype} {upsname var newval : CStr}

theorem userCheck_of_entitled (hs : s.Stage) {right : Ulist → Bool} (h : Entitled s client right) :
    userCheck s.users client.username client.password right = true := by
  obtain ⟨u, hu, ⟨hun, pw, hpw, hpassword⟩, hright⟩ := h
  unfold userCheck
  rw [hun, hpw]
  dsimp only
  cases hfind : s.users.find? fun tmp => tmp.password.isSome ∧ tmp.username = u.username with
  | none =>
    have hall := List.find?_eq_none.1 hfind u hu
    simp [hpassword] at hall
  | some tmp =>
    have hname := List.find?_some hfind
    simp only [Bool.decide_and, Bool.decide_eq_true, Bool.and_eq_true, decide_eq_true_eq] at hname
    obtain rfl := List.inj_on_of_nodup_map hs.nodup_users (List.mem_of_find?_eq_some hfind) hu hname.2
    simp [hpassword, hright]

theorem sent_of_connected (h : ups.sockFd ≠ none) (ok : Bool) (buf : CStr) :
    (sstateSendline ok ups buf).1.sent = ups.sent ++ [buf] := by
  unfold sstateSendline
  split
  · exact absurd ‹_› h
  · dsimp only
    split_ifs
    · rfl
    · unfold sstateDisconnect
      split <;> rfl

/-- A forwarded line shows in the record of the UPS. -/
theorem Forwards.not_refuses {s' : Upsd} {line : CStr} {fd : Nat} (h : Forwards w s s' fd upsname line) :
    ¬Refuses w s s' fd := by
  rintro ⟨err, herr⟩
  obtain ⟨ups, text, hups, hfd, h⟩ := h
  have hforwarded : s'.firstups = (sendToDriver w s ups line).1.firstups := by
    rw [h, sendback_eq]
    rfl
  have hrefused : s'.firstups = s.firstups.map id := by
    rw [herr, sendErr, sendback_eq, List.map_id]
    rfl
  have hsame := List.map_inj_left.1 (hforwarded.symm.trans hrefused) ups (mem_of_getUpsPtr hups)
  rw [if_pos rfl, id_eq] at hsame
  have hsent := congrArg Upstype.sent hsame
  rw [sent_of_connected hfd] at hsent
  simp at hsent

/-- What the checks of `set_var` are about. -/
structure CodeChecks (s : Upsd) (client : NutCtype) (ups : Upstype) (var newval : CStr) : Prop where
  right : userCheckaction s.users client.username client.password "SET".toList = true
  known : sstateGetinfo ups var ≠ none
  writable : sstateGetflags ups var &&& stFlagRw ≠ 0
  allowed : badValue ups var newval = none

/-- What the chain of checks makes of a new value for a UPS that is there and available. -/
theorem setVar_cases (hups : getUpsPtr s upsname = some ups) (havail : ups.Available) :
    (CodeChecks s client ups var newval →
      Forwards w s (setVar w s client upsname var newval) client.sockFd upsname (setLine var newval)) ∧
    (¬CodeChecks s client ups var newval → Refuses w s (setVar w s client upsname var newval) client.sockFd) := by
  unfold setVar
  dsimp only
  rw [withUps_of_available hups havail]
  constructor
  · intro h
    rw [if_neg (fun hright => Bool.noConfusion (h.right.symm.trans hright)), if_neg h.known, if_neg h.writable, h.allowed]
    rcases hsend : sendToDriver w s ups (setLine var newval) with ⟨s1, ok⟩
    refine ⟨ups, if ok then "OK\n".toList else errText "SET-FAILED".toList, hups, havail.1, ?_⟩
    rw [hsend]
    cases ok <;> rfl
  · intro h
    split_ifs with hright hknown hwritable
    · exact ⟨_, rfl⟩
    · exact ⟨_, rfl⟩
    · exact ⟨_, rfl⟩
    · cases hbad : badValue ups var newval with
      | some err => exact ⟨err, rfl⟩
      | none => exact absurd ⟨by simpa using hright, hknown, hwritable, hbad⟩ h

/-- The value is not refused: it fits, it is one of the enumeration as it is kept, and it is in a range. -/
theorem badValue_eq_none (hlen : newval.length ≤ pconfDefaultWordlenLimit) : badValue ups var newval = none ↔
    (sstateGetflags ups var &&& stFlagString ≠ 0 →
      1 ≤ (sstateGetaux ups var).toInt ∧ (newval.length : Int) ≤ (sstateGetaux ups var).toInt) ∧
    (sstateGetenumlist ups var ≠ [] → newval ∈ sstateGetenumlist ups var) ∧
    (sstateGetrangelist ups var ≠ [] →
      ∃ r ∈ sstateGetrangelist ups var, r.min ≤ atoi newval ∧ atoi newval ≤ r.max) := by
  have haux : sstateGetaux ups var < 1 ↔ ¬1 ≤ (sstateGetaux ups var).toInt := by
    rw [Int32.lt_iff_toInt_lt, Int32.toInt_one]
    omega
  have htoolong : sstateGetaux ups var < Int32.ofNat newval.length ↔
      ¬(newval.length : Int) ≤ (sstateGetaux ups var).toInt := by
    have hword : pconfDefaultWordlenLimit < 2 ^ 31 := by decide
    rw [Int32.lt_iff_toInt_lt, Int32.toInt_ofNat_of_lt (by omega)]
    omega
  unfold badValue
  dsimp only
  split_ifs with h1 h2 h3 h4
  · simp only [false_iff]
    exact fun h => haux.1 h1.2 (h.1 h1.1).1
  · simp only [false_iff]
    exact fun h => htoolong.1 h2.2 (h.1 h2.1).2
  · simp only [false_iff]
    exact fun h => h3.2 (h.2.1 h3.1)
  · simp only [false_iff]
    exact fun h => h4.2 (h.2.2 h4.1)
  · simp only [true_iff]
    refine ⟨fun hstring => ⟨?_, ?_⟩, fun henum => ?_, fun hrange => ?_⟩
    · by_contra h
      exact h1 ⟨hstring, haux.2 h⟩
    · by_contra h
      exact h2 ⟨hstring, htoolong.2 h⟩
    · by_contra h
      exact h3 ⟨henum, h⟩
    · by_contra h
      exact h4 ⟨hrange, h⟩

theorem codeChecks_iff (hs : s.Stage) (hlen : newval.length ≤ pconfDefaultWordlenLimit) (havail : ups.Available) :
    CodeChecks s client ups var newval ↔ SetChecks s client ups var newval ∧
      (sstateGetenumlist ups var ≠ [] → newval ∈ sstateGetenumlist ups var) := by
  constructor
  · intro h
    obtain ⟨hfits, henum, hrange⟩ := (badValue_eq_none hlen).1 h.allowed
    exact ⟨⟨havail, entitled_of_userCheck h.right, h.known, h.writable, hfits, hrange⟩, henum⟩
  · rintro ⟨h, henum⟩
    exact ⟨userCheck_of_entitled hs h.right, h.known, h.writable, (badValue_eq_none hlen).2 ⟨h.fits, henum, h.inRange⟩⟩

/-- The answer is the right one where the code accepts what it should. -/
theorem setRight_iff {declared : List CStr} (hups : getUpsPtr s upsname = some ups) (havail : ups.Available) :
    SetRight w s client upsname var newval declared ↔
      (Acceptable s client upsname var newval declared ↔ CodeChecks s client ups var newval) := by
  obtain ⟨hforwards, hrefuses⟩ := @setVar_cases w s client ups upsname var newval hups havail
  constructor
  · rintro ⟨haccept, hreject⟩
    constructor
    · intro h
      by_contra hcode
      exact (haccept h).not_refuses (hrefuses hcode)
    · intro hcode
      by_contra h
      exact (hforwards hcode).not_refuses (hreject h)
  · intro h
    exact ⟨fun haccept => hforwards (h.1 haccept), fun hreject => hrefuses fun hcode => hreject (h.2 hcode)⟩

end

/-- A `SET` is answered as it should be exactly where another check rejects the value, where the variable has no
enumeration, or where the value is one of the declared ones exactly if it is one of those that are kept. -/
theorem set_accepted_iff {s : Upsd} (hs : s.Stage) (w : Writes) (client : NutCtype) (upsname var : CStr) {newval : CStr}
    (hlen : newval.length ≤ pconfDefaultWordlenLimit) {declared : List CStr}
    (hdeclared : ∀ ups, getUpsPtr s upsname = some ups → ∀ v, v ∈ sstateGetenumlist ups var ↔ v ∈ declared.map kept) :
    SetRight w s client upsname var newval declared ↔
      (∀ ups, getUpsPtr s upsname = some ups → ¬SetChecks s client ups var newval) ∨ declared = [] ∨
        (newval ∈ declared ↔ newval ∈ declared.map kept) := by
  cases hups : getUpsPtr s upsname with
  | none =>
    have hrefuses : Refuses w s (setVar w s client upsname var newval) client.sockFd := by
      refine ⟨"UNKNOWN-UPS".toList, ?_⟩
      unfold setVar withUps
      rw [hups]
    have hreject : ¬Acceptable s client upsname var newval declared := by
      rintro ⟨ups, h, -⟩
      simp [hups] at h
    exact iff_of_true ⟨fun h => absurd h hreject, fun _ => hrefuses⟩ (.inl fun ups h => by simp at h)
  | some ups =>
    have hone (P : Upstype → Prop) : (∀ ups', some ups = some ups' → P ups') ↔ P ups := by simp
    have haccept : Acceptable s client upsname var newval declared ↔
        SetChecks s client ups var newval ∧ (declared = [] ∨ newval ∈ declared) := by
      simp [Acceptable, hups]
    rw [hone]
    by_cases havail : ups.Available
    · have hkept := hdeclared ups hups
      have hnone : sstateGetenumlist ups var = [] ↔ declared = [] := by
        rw [← @List.map_eq_nil_iff _ _ kept declared, List.eq_nil_iff_forall_not_mem, List.eq_nil_iff_forall_not_mem]
        exact forall_congr' fun v => not_congr (hkept v)
      rw [setRight_iff hups havail, codeChecks_iff hs hlen havail, haccept, hkept, ne_eq, hnone]
      by_cases hchecks : SetChecks s client ups var newval
      · by_cases hnil : declared = []
        · simp [hchecks, hnil]
        · simp [hchecks, hnil]
      · simp [hchecks]
    · have hrefuses : Refuses w s (setVar w s client upsname var newval) client.sockFd := by
        obtain ⟨err, herr⟩ := withUps_of_not_available hups havail w client.sockFd
        exact ⟨err, herr _⟩
      have hchecks : ¬SetChecks s client ups var newval := fun h => havail h.available
      exact iff_of_true ⟨fun h => absurd (haccept.1 h).1 hchecks, fun _ => hrefuses⟩ (.inl hchecks)

/-! ### A variable with an enumeration -/

/-- The user may set variables. -/
def setUps : Files :=
  { oneUps with upsdUsers := some [["[a]".toList], ["password".toList, "=".toList, "b".toList],
      ["actions".toList, "=".toList, "SET".toList]] }

def setUpsServer : Upsd :=
  (upsdStart oneDriver setUps 256 [] [] "2.6".toList).getD ⟨[], [], [], 0, 0, [], [], []⟩

/-- The driver declares two values, and the client is there. -/
def enumEvents : List Event :=
  [.driver "u".toList 100 (.data ("SETINFO v \"1\"\nSETFLAGS v RW\nADDENUM v \"a\"\n".toList ++
      "ADDENUM v \"a\\\"b\"\nDATAOK\nDUMPDONE\n".toList)),
    .accept 7 100 "127.0.0.1".toList]

def enumServer : Upsd :=
  (((setUpsServer.run enumEvents).getD setUpsServer).enter ["USERNAME".toList, "a".toList]).enter
    ["PASSWORD".toList, "b".toList]

def enumUps : Upstype := enumServer.firstups.headD (newUps [] [] none)

def enumClient : NutCtype := (enumServer.client 7).getD ⟨[], 7, 0, none, none, none, pconfInit, []⟩

/-- The daemon starts, and reads what the driver and the client send. -/
private theorem enumServer_runs : upsdStart oneDriver setUps 256 [] [] "2.6".toList = some setUpsServer ∧
    (setUpsServer.run enumEvents).isSome = true := by decide +kernel

theorem stage_enumServer : enumServer.Stage := by
  obtain ⟨hstart, hrun⟩ := enumServer_runs
  obtain ⟨s, hs⟩ := Option.isSome_iff_exists.1 hrun
  have hread : setUpsServer.run enumEvents = some ((setUpsServer.run enumEvents).getD setUpsServer) := by
    rw [hs, Option.getD_some]
  exact ((Upsd.Stage.run (.init ⟨_, _, _, _, _, _, hstart⟩) hread).enter _).enter _

/-- What is known there of the UPS, of its variable and of the user. -/
private theorem enumServer_knows : getUpsPtr enumServer "u".toList = some enumUps ∧
    sstateGetenumlist enumUps "v".toList = ["a".toList, "a\"b".toList].map kept ∧ enumUps.Available ∧
    userCheckaction enumServer.users enumClient.username enumClient.password "SET".toList = true ∧
    sstateGetinfo enumUps "v".toList ≠ none ∧ sstateGetflags enumUps "v".toList &&& stFlagRw ≠ 0 ∧
    sstateGetflags enumUps "v".toList &&& stFlagString = 0 ∧ sstateGetrangelist enumUps "v".toList = [] := by
  decide +kernel

theorem set_accepted_iff_plain :
    SetRight allWritten enumServer enumClient "u".toList "v".toList "a".toList ["a".toList, "a\"b".toList] := by
  obtain ⟨hfound, henum, -⟩ := enumServer_knows
  refine (set_accepted_iff stage_enumServer allWritten enumClient _ _ (by decide) fun ups hups => ?_).2
    (.inr (.inr (by decide)))
  rw [← Option.some.inj (hfound.symm.trans hups), henum]
  exact fun v => Iff.rfl

/-- A value with a quote that the driver declared is refused. -/
theorem set_declared_refused : enumServer.Stage ∧ getUpsPtr enumServer "u".toList = some enumUps ∧
    sstateGetenumlist enumUps "v".toList = ["a".toList, "a\"b".toList].map kept ∧
    ¬SetRight allWritten enumServer enumClient "u".toList "v".toList "a\"b".toList ["a".toList, "a\"b".toList] := by
  obtain ⟨hfound, henum, havail, hright, hknown, hwritable, hstring, hrange⟩ := enumServer_knows
  refine ⟨stage_enumServer, hfound, henum, fun h => ?_⟩
  have hchecks : SetChecks enumServer enumClient enumUps "v".toList "a\"b".toList := {
    available := havail
    right := entitled_of_userCheck hright
    known := hknown
    writable := hwritable
    fits := fun h => absurd hstring h
    inRange := fun h => absurd hrange h }
  have haccept : Acceptable enumServer enumClient "u".toList "v".toList "a\"b".toList ["a".toList, "a\"b".toList] :=
    ⟨enumUps, hfound, hchecks, .inr (by simp)⟩
  have hcode := ((codeChecks_iff stage_enumServer (by decide) havail).1
    (((setRight_iff hfound havail).1 h).1 haccept)).2
  rw [henum] at hcode
  revert hcode
  decide

end Nut
