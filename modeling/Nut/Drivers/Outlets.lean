import Nut.Drivers.Phases

/-!
# The names of outlets

What is sent for the name of a variable or of a command of an outlet, and the `OID` from which the walk publishes this name.
The name is taken apart by hand: the number after its first dot is compared with the number of outlets only, and what
stands before this dot and between the number and the second dot is not looked at.  So `outlet.0.x` is accepted, and a name
without a template or without its two dots ends in a NULL pointer.
-/

namespace Nut

namespace SnmpUps

variable {F : Type}

/-! ### Names -/

/-- The name of a variable or command of outlet `k`. -/
def outletVar (k : Int) (x : CStr) : CStr := "outlet.".toList ++ formatLong k ++ '.' :: x

theorem tolower_append (a b : CStr) : tolower (a ++ b) = tolower a ++ tolower b := List.map_append

/-- A text that is its own lower case and has no small letters is left as it is. -/
theorem eq_of_tolower {a t : CStr} (ht : ∀ c ∈ t, c.toNat < 97 ∨ 122 < c.toNat) (h : tolower a = t) : a = t := by
  induction t generalizing a with
  | nil => exact List.map_eq_nil_iff.1 h
  | cons d t ih =>
    obtain ⟨c, a, rfl, hc, ha⟩ := List.map_eq_cons_iff.1 h
    rw [toLower_eq hc (ht d List.mem_cons_self), ih (fun c hc => ht c (List.mem_cons_of_mem _ hc)) ha]

theorem mem_formatLong {k : Int} {c : Char} (h : c ∈ formatLong k) : c = '-' ∨ c.isDigit = true := by
  unfold formatLong at h
  split at h
  · rcases List.mem_cons.1 h with rfl | h
    · exact .inl rfl
    · exact .inr (Nat.isDigit_of_mem_toDigits (by omega) (by omega) h)
  · exact .inr (Nat.isDigit_of_mem_toDigits (by omega) (by omega) h)

theorem formatLong_small {k : Int} {c : Char} (h : c ∈ formatLong k) : c.toNat < 65 := by
  rcases mem_formatLong h with rfl | h
  · decide
  · have hbounds := isDigit_bounds h
    omega

theorem tolower_of_small {s : CStr} (h : ∀ c ∈ s, c.toNat < 65) : tolower s = s := by
  have hfix : ∀ c ∈ s, c.toLower = c := by
    intro c hc
    have hsmall := h c hc
    rcases toLower_cases c with hsame | ⟨hupper, -⟩
    · exact hsame
    · omega
  exact (List.map_congr_left hfix).trans (List.map_id _)

theorem tolower_outletVar (k : Int) (x : CStr) :
    tolower (outletVar k x) = "outlet.".toList ++ (formatLong k ++ '.' :: tolower x) := by
  have hsmall : tolower (formatLong k) = formatLong k := tolower_of_small fun c hc => formatLong_small hc
  have hword : tolower "outlet.".toList = "outlet.".toList := by decide
  have hdot : '.'.toLower = '.' := by decide
  unfold outletVar
  rw [tolower_append, tolower_append, hsmall, hword, List.append_assoc, tolower, tolower, List.map_cons, hdot]

theorem outletVar_eq (k : Int) (x : CStr) : outletVar k x = "outlet".toList ++ '.' :: (formatLong k ++ '.' :: x) := by
  have hword : "outlet.".toList = "outlet".toList ++ ['.'] := by decide
  unfold outletVar
  generalize "outlet.".toList = word at *
  rw [hword, List.append_assoc, List.append_assoc, List.singleton_append]

/-- The text of a template with the number is the name of the outlet. -/
theorem sprintfI_template {f x t : CStr} {k : Int} (hf : tolower f = tolower ("outlet.%i.".toList ++ x))
    (ht : sprintfI f k = some t) : tolower t = tolower (outletVar k x) := by
  have hsplit : tolower f = "outlet.".toList ++ '%' :: 'i' :: '.' :: tolower x := by
    have hword : tolower "outlet.%i.".toList = "outlet.".toList ++ ['%', 'i', '.'] := by decide
    rw [hf, tolower_append, hword, List.append_assoc]
    rfl
  obtain ⟨a, b, rfl, ha, hb⟩ := List.map_eq_append_iff.1 hsplit
  obtain ⟨percent, b, rfl, hpercent, hb⟩ := List.map_eq_cons_iff.1 hb
  obtain ⟨i, b, rfl, -, hb⟩ := List.map_eq_cons_iff.1 hb
  have hp : percent = '%' := toLower_eq hpercent (by decide)
  subst hp
  have hnot : '%' ∉ a := by
    intro hmem
    have hlower : '%' ∈ tolower a := List.mem_map.2 ⟨'%', hmem, rfl⟩
    rw [show tolower a = "outlet.".toList from ha] at hlower
    exact absurd hlower (by decide)
  have hlen : a.length = 7 := by
    have h := congrArg List.length ha
    rwa [List.length_map] at h
  have hindex : (a ++ '%' :: i :: b).idxOf? '%' = some a.length := by
    refine List.idxOf?_eq_some_iff.2 ⟨by rw [List.length_append, List.length_cons]; omega, ?_, fun j hj hget => hnot ?_⟩
    · rw [List.getElem_append_right (le_refl _)]
      simp only [Nat.sub_self, List.getElem_cons_zero]
    · rw [List.getElem_append_left hj] at hget
      exact hget ▸ List.getElem_mem hj
  unfold sprintfI at ht
  rw [hindex] at ht
  simp only at ht
  obtain ⟨htext, -⟩ := Option.filter_eq_some_iff.1 ht
  have hdrop : (a ++ '%' :: i :: b).drop (a.length + 2) = b := by
    rw [← List.drop_drop, List.drop_left]
    rfl
  have hsmall : tolower (formatLong k) = formatLong k := tolower_of_small fun c hc => formatLong_small hc
  split at htext
  · have ht' : a ++ formatLong k ++ b = t := by
      rw [← Option.some.inj htext, List.take_left, hdrop]
    have hb' : tolower b = '.' :: tolower x := by assumption
    rw [← ht', tolower_append, tolower_append, hsmall, tolower_outletVar, List.append_assoc, hb', tolower, ha]
  · cases htext

/-- In a name that is taken for an outlet only the letters of its last part may differ in case. -/
theorem outletVar_of_tolower {name x : CStr} {k : Int} (hname : isOutletName name = true)
    (h : tolower name = tolower (outletVar k x)) : ∃ y, name = outletVar k y ∧ tolower y = tolower x := by
  obtain ⟨rest, rfl⟩ := List.isPrefixOf_iff_prefix.1 hname
  have hword : tolower "outlet".toList = "outlet".toList := by decide
  have hdotted : "outlet.".toList = "outlet".toList ++ ['.'] := by decide
  have hrest : tolower rest = ('.' :: formatLong k) ++ '.' :: tolower x := by
    rw [tolower_append, hword, tolower_outletVar, hdotted, List.append_assoc] at h
    exact List.append_cancel_left h
  obtain ⟨number, last, rfl, hnumber, hlast⟩ := List.map_eq_append_iff.1 hrest
  obtain ⟨dot, y, rfl, hdot, hy⟩ := List.map_eq_cons_iff.1 hlast
  have hd : dot = '.' := toLower_eq hdot (by decide)
  have hsmall : ∀ c ∈ '.' :: formatLong k, c.toNat < 97 ∨ 122 < c.toNat := by
    intro c hc
    rcases List.mem_cons.1 hc with rfl | hc
    · decide
    · have hlt := formatLong_small hc
      omega
  refine ⟨y, ?_, hy⟩
  rw [hd, eq_of_tolower hsmall hnumber, outletVar_eq]
  rfl

theorem strchrDot_append {a : CStr} (ha : '.' ∉ a) (b : CStr) : strchrDot (a ++ '.' :: b) = some ('.' :: b) := by
  have hdrop : (a ++ '.' :: b).dropWhile (· ≠ '.') = '.' :: b := by
    have hne : ∀ c ∈ a, decide (c ≠ '.') = true := by
      intro c hc
      exact decide_eq_true fun h => ha (h ▸ hc)
    rw [List.dropWhile_append_of_pos hne, List.dropWhile_cons_of_neg (by decide)]
  unfold strchrDot
  rw [hdrop]

theorem dot_not_mem_formatLong (k : Int) : '.' ∉ formatLong k := by
  intro h
  rcases mem_formatLong h with h | h
  · exact absurd h (by decide)
  · exact absurd h (by decide)

theorem atoi_formatLong {k : Int} (hk : 0 ≤ k) (hk' : k < 2 ^ 31) (x : CStr) :
    (atoi (formatLong k ++ '.' :: x)).toInt = k := by
  have hint : (Int32.ofInt k).toInt = k := Int32.toInt_ofInt_of_le (by omega) (by omega)
  have htext : formatLong k = formatInt (Int32.ofInt k) := by
    rw [formatInt, hint]
    rfl
  rw [htext, atoi_formatInt_append _ fun c hc => by rw [← Option.some.inj hc]; rfl, hint]

/-- The number after the first dot. -/
def numberOf (name : CStr) : Option Int := (strchrDot name).map fun dot => (atoi dot.tail).toInt

/-- The entry with the name of the template, if this fits into the buffer. -/
def templateOf (s : Snmp F) (name : CStr) : Option (SnmpInfo F) := do
  let dot ← strchrDot name
  let rest ← strchrDot dot.tail
  if suInfosize ≤ ("outlet.%i".toList ++ rest).length then none else suFindInfo s ("outlet.%i".toList ++ rest)

theorem findTemplate_eq {s : Snmp F} {count : CStr} (hcount : getinfo s "outlet.count".toList = some count) (name : CStr)
    (noCount : Stat) :
    findTemplate s name noCount =
      match numberOf name with
      | none => none
      | some k =>
        if (atoi count).toInt < k then some (.error .invalid)
        else (templateOf s name).map fun p => .ok (p, k - baseNutOutletOffset s) := by
  unfold findTemplate numberOf templateOf
  cases strchrDot name with
  | none => rfl
  | some dot =>
    rw [hcount]
    simp only [Option.map_some, Option.bind_eq_bind, Option.bind_some]
    split
    · rfl
    · cases strchrDot dot.tail with
      | none => rfl
      | some rest =>
        simp only [Option.bind_some]
        split
        · rfl
        · rfl

theorem numberOf_outletVar {k : Int} (hk : 0 ≤ k) (hk' : k < 2 ^ 31) (x : CStr) : numberOf (outletVar k x) = some k := by
  rw [numberOf, outletVar_eq, strchrDot_append (by decide), Option.map_some, List.tail_cons, atoi_formatLong hk hk']

theorem templateOf_outletVar {s : Snmp F} {p : SnmpInfo F} {k : Int} {x : CStr} (h : templateOf s (outletVar k x) = some p) :
    tolower p.infoType = tolower ("outlet.%i.".toList ++ x) := by
  unfold templateOf at h
  rw [outletVar_eq, strchrDot_append (by decide)] at h
  simp only [Option.bind_eq_bind, Option.bind_some, List.tail_cons] at h
  rw [strchrDot_append (dot_not_mem_formatLong k)] at h
  simp only [Option.bind_some] at h
  split at h
  · cases h
  · have hfound := List.find?_some (p := fun q : SnmpInfo F => decide (strcasecmp q.infoType _ = .eq)) h
    have hword : "outlet.%i.".toList = "outlet.%i".toList ++ ['.'] := by decide
    rw [strcasecmp_eq.1 (of_decide_eq_true hfound), hword, List.append_assoc, List.singleton_append]

/-! ### What is published and what is sent -/

/-- The indices of the outlets. -/
def outletNumbers (base count : Int) : List Int := (List.range count.toNat).map fun j : Nat => base + j

theorem mem_outletNumbers {base count number : Int} : number ∈ outletNumbers base count ↔ base ≤ number ∧ number < base + count := by
  unfold outletNumbers
  rw [List.mem_map]
  constructor
  · rintro ⟨j, hj, rfl⟩
    rw [List.mem_range] at hj
    omega
  · rintro ⟨hfirst, hlast⟩
    exact ⟨(number - base).toNat, List.mem_range.2 (by omega), by omega⟩

/-- A round of the loop over the outlets: the entry, the state and the status after it. -/
def outletRound (env : Env F) (mode : WalkMode) (i : Nat) (template : SnmpInfo F) (r : SnmpInfo F × Snmp F × Option Bool)
    (number : Int) : Option (SnmpInfo F × Snmp F × Option Bool) := do
  let cur ← outletInfo r.2.1 template r.1 number
  let (cur, s, got) ← processOutlet env mode (isCmd template.flags) r.2.1 cur
  some (cur, setFlagsAt s i cur.flags, got.or r.2.2)

theorem outletLoop_eq (env : Env F) (mode : WalkMode) (i : Nat) (template : SnmpInfo F) (rest : Nat) :
    ∀ (number : Int) (cur : SnmpInfo F) (s : Snmp F) (status : Option Bool),
      outletLoop env mode i template rest number cur s status =
        ((outletNumbers number rest).foldlM (outletRound env mode i template) (cur, s, status)).map Prod.snd := by
  induction rest with
  | zero => exact fun _ _ _ _ => rfl
  | succ rest ih =>
    intro number cur s status
    have hnumbers : outletNumbers number ↑(rest + 1) = number :: outletNumbers (number + 1) rest := by
      unfold outletNumbers
      rw [Int.toNat_natCast, Int.toNat_natCast, List.range_succ_eq_map, List.map_cons, List.map_map]
      congr 1
      · omega
      · refine List.map_congr_left fun j _ => ?_
        simp only [Function.comp_apply]
        omega
    rw [hnumbers, List.foldlM_cons, outletLoop, outletRound]
    simp only [Option.bind_eq_bind]
    cases outletInfo s template cur number with
    | none => rfl
    | some cur =>
      simp only [Option.bind_some]
      cases processOutlet env mode (isCmd template.flags) s cur with
      | none => rfl
      | some r => exact ih _ _ _ _

/-- The walk goes through the outlets from the base on. -/
theorem walkOutlets_eq {env : Env F} {mode : WalkMode} {s s₁ s₂ : Snmp F} {i : Nat} {template : SnmpInfo F} {count base : Int}
    (hcount : outletCount env s template.oid = some (s₁, count)) (hpos : 0 < count)
    (hbase : baseSnmpOutletIndex env s₁ template.oid = some (s₂, base)) :
    walkOutlets env mode s i template =
      ((outletNumbers base count).foldlM (outletRound env mode i template) (template, s₂, none)).map Prod.snd := by
  unfold walkOutlets
  rw [hcount]
  simp only [if_pos hpos, hbase]
  rw [outletLoop_eq, Int.toNat_of_nonneg (Int.le_of_lt hpos)]

/-- In its round for the index `number` the walk makes an entry from the template `p`, and publishes `name` from it. -/
structure Shows (s : Snmp F) (count : Int) (p : SnmpInfo F) (number : Int) (name : CStr) : Prop where
  mem : p ∈ s.info
  outlet : has p.flags suOutlet = true
  template : ∃ x, strcasecmp p.infoType ("outlet.%i.".toList ++ x) = .eq
  round : number ∈ outletNumbers s.outletIndexBase count
  entry : ∃ cur, outletInfo s p p number = some cur ∧ strcasecmp cur.infoType name = .eq

/-- Which entries a function writes, and how far their instances are from those that the walk reads. -/
structure Access (F : Type) where
  writable : SnmpInfo F → Prop
  shift : SnmpInfo F → Int

/-- The instance of `p` that is written for the outlet with the index `number`. -/
def Access.Writes (a : Access F) (p : SnmpInfo F) (number : Int) (oid : CStr) : Prop :=
  a.writable p ∧ outletOid p (number + a.shift p) = some (some oid)

def setAccess : Access F where
  writable p := has p.flags suFlagOk = true ∧ p.infoFlags &&& stFlagRw ≠ 0
  shift _ := 0

def cmdAccess : Access F where
  writable p := has p.flags suFlagOk = true
  shift p := if has p.flags suCmdOffset then 1 else 0

/-- The instance that belongs to a name. -/
def Target (s : Snmp F) (count : Int) (a : Access F) (name oid : CStr) : Prop :=
  ∃ p number, Shows s count p number name ∧ a.Writes p number oid

/-- A request is sent to the instance that belongs to the name; if there is none the call is rejected. -/
def Addressed (s : Snmp F) (count : Int) (a : Access F) (name : CStr) (r : Option (Snmp F × Stat)) : Prop :=
  ∃ s' stat, r = some (s', stat) ∧ (∀ oid, Target s count a name oid → ∃ q : SetRequest, q.oid = oid ∧ s'.sets = s.sets ++ [q]) ∧
    ((∀ oid, ¬ Target s count a name oid) → s' = s ∧ stat ≠ .handled)

/-- The name of outlet `k`, as it is published. -/
def Canonical (name : CStr) (k : Int) : Prop := 1 ≤ k ∧ ∃ x, name = outletVar k x

/-- The walk makes an entry from the template, and it can be written. -/
def Available (s : Snmp F) (a : Access F) (p : SnmpInfo F) (number : Int) (oid : CStr) : Prop :=
  has p.flags suOutlet = true ∧ outletInfo s p p number ≠ none ∧ a.Writes p number oid

theorem outletInfo_infoType {s : Snmp F} {p cur : SnmpInfo F} {number : Int} (h : outletInfo s p p number = some cur) :
    sprintfI p.infoType (number + baseNutOutletOffset s) = some cur.infoType := by
  unfold outletInfo at h
  obtain ⟨text, htext, h⟩ := Option.bind_eq_some_iff.1 h
  obtain ⟨dfl, -, h⟩ := Option.bind_eq_some_iff.1 h
  obtain ⟨oid, -, h⟩ := Option.bind_eq_some_iff.1 h
  rw [htext, ← Option.some.inj h]

/-- How a call answers: what stands after the first dot, then the template and its texts decide what is done. -/
structure Answers (s : Snmp F) (count : Int) (a : Access F) (ready : SnmpInfo F → Int → Prop) (name : CStr)
    (r : Option (Snmp F × Stat)) : Prop where
  undotted : numberOf name = none → r = none
  above : ∀ k, numberOf name = some k → count < k → ∃ stat, r = some (s, stat) ∧ stat ≠ .handled
  missing : ∀ k, numberOf name = some k → k ≤ count → templateOf s name = none → r = none
  unready : ∀ k p, numberOf name = some k → k ≤ count → templateOf s name = some p →
    ¬ ready p (k - baseNutOutletOffset s) → r = none
  kept : ∀ k p, numberOf name = some k → k ≤ count → templateOf s name = some p → ready p (k - baseNutOutletOffset s) →
    (∀ oid, ¬ a.Writes p (k - baseNutOutletOffset s) oid) → ∃ stat, r = some (s, stat) ∧ stat ≠ .handled
  sent : ∀ k p oid, numberOf name = some k → k ≤ count → templateOf s name = some p →
    ready p (k - baseNutOutletOffset s) → a.Writes p (k - baseNutOutletOffset s) oid →
      ∃ s' stat, r = some (s', stat) ∧ ∃ q : SetRequest, q.oid = oid ∧ s'.sets = s.sets ++ [q]

/-- The entry that is found is written under a name that is published only, and the templates of this name agree with it. -/
def Consistent (s : Snmp F) (a : Access F) (name : CStr) (k : Int) (p : SnmpInfo F) : Prop :=
  (∀ oid, a.Writes p (k - baseNutOutletOffset s) oid → Canonical name k) ∧
    (Canonical name k → ∀ oid, a.Writes p (k - baseNutOutletOffset s) oid ↔
      ∃ q ∈ s.info, strcasecmp q.infoType p.infoType = .eq ∧ Available s a q (k - baseNutOutletOffset s) oid)

/-- The number is above those of the outlets, or there is a template for the name. -/
def Meets (s : Snmp F) (count : Int) (a : Access F) (ready : SnmpInfo F → Int → Prop) (name : CStr) : Prop :=
  ∃ k, numberOf name = some k ∧
    (count < k ∨ ∃ p, templateOf s name = some p ∧ ready p (k - baseNutOutletOffset s) ∧ Consistent s a name k p)

theorem Access.Writes.unique {a : Access F} {p : SnmpInfo F} {number : Int} {oid oid' : CStr} (h : a.Writes p number oid)
    (h' : a.Writes p number oid') : oid = oid' := Option.some.inj (Option.some.inj (h.2.symm.trans h'.2))

section

variable {s : Snmp F} {count : Int} (hbase : s.outletIndexBase = 0 ∨ s.outletIndexBase = 1)

include hbase

theorem base_add_offset : s.outletIndexBase + baseNutOutletOffset s = 1 := by
  unfold baseNutOutletOffset
  rcases hbase with hb | hb
  · rw [hb, if_pos rfl]
    omega
  · rw [hb, if_neg (by decide)]
    omega

/-- What is published is called after an outlet from 1 to the number of outlets. -/
theorem Shows.canonical {p : SnmpInfo F} {number : Int} {name : CStr} (h : Shows s count p number name)
    (hname : isOutletName name = true) :
    1 ≤ number + baseNutOutletOffset s ∧ number + baseNutOutletOffset s ≤ count ∧
      ∃ x, name = outletVar (number + baseNutOutletOffset s) x ∧ tolower p.infoType = tolower ("outlet.%i.".toList ++ x) := by
  obtain ⟨hfirst, hlast⟩ := mem_outletNumbers.1 h.round
  have hone := base_add_offset hbase
  obtain ⟨x, hx⟩ := h.template
  obtain ⟨cur, hcur, hshown⟩ := h.entry
  have htext := sprintfI_template (strcasecmp_eq.1 hx) (outletInfo_infoType hcur)
  obtain ⟨y, hy, hlower⟩ := outletVar_of_tolower hname ((strcasecmp_eq.1 hshown).symm.trans htext)
  refine ⟨by omega, by omega, y, hy, ?_⟩
  rw [strcasecmp_eq.1 hx, tolower_append, tolower_append, hlower]

/-- The instance that belongs to a name is that of a template with the name of the entry that is found. -/
theorem target_iff {a : Access F} {name oid : CStr} {k : Int} {p : SnmpInfo F} (hname : isOutletName name = true)
    (hcount : count < 2 ^ 31) (hk : numberOf name = some k) (hle : k ≤ count) (hp : templateOf s name = some p) :
    Target s count a name oid ↔ Canonical name k ∧ ∃ q ∈ s.info, strcasecmp q.infoType p.infoType = .eq ∧
      Available s a q (k - baseNutOutletOffset s) oid := by
  constructor
  · rintro ⟨q, number, hshows, hwrites⟩
    obtain ⟨hfirst, hlast, x, rfl, hq⟩ := hshows.canonical hbase hname
    rw [numberOf_outletVar (by omega) (by omega)] at hk
    have hnumber : k - baseNutOutletOffset s = number := by
      have h := Option.some.inj hk
      omega
    obtain ⟨cur, hcur, -⟩ := hshows.entry
    refine ⟨⟨by have h := Option.some.inj hk; omega, x, by rw [Option.some.inj hk]⟩, q, hshows.mem, ?_, hshows.outlet, ?_, ?_⟩
    · rw [strcasecmp_eq, hq, templateOf_outletVar hp]
    · rw [hnumber, hcur]
      exact nofun
    · rw [hnumber]
      exact hwrites
  · rintro ⟨⟨hpos, x, rfl⟩, q, hq, hsame, houtlet, hentry, hwrites⟩
    have hlower := (strcasecmp_eq.1 hsame).trans (templateOf_outletVar hp)
    obtain ⟨cur, hcur⟩ := Option.ne_none_iff_exists'.1 hentry
    have htext := outletInfo_infoType hcur
    rw [show k - baseNutOutletOffset s + baseNutOutletOffset s = k by omega] at htext
    have hone := base_add_offset hbase
    exact ⟨q, _, ⟨hq, houtlet, ⟨x, strcasecmp_eq.2 hlower⟩, mem_outletNumbers.2 (by omega), cur, hcur,
      strcasecmp_eq.2 (sprintfI_template hlower htext)⟩, hwrites⟩

/-- A name whose number is too large belongs to no outlet. -/
theorem not_target {a : Access F} {name oid : CStr} {k : Int} (hname : isOutletName name = true) (hcount : count < 2 ^ 31)
    (hk : numberOf name = some k) (hlt : count < k) : ¬ Target s count a name oid := by
  rintro ⟨q, number, hshows, -⟩
  obtain ⟨hfirst, hlast, x, rfl, -⟩ := hshows.canonical hbase hname
  rw [numberOf_outletVar (by omega) (by omega)] at hk
  have h := Option.some.inj hk
  omega

/-- Where an entry is found and its texts are there, it is what the templates have that counts. -/
theorem addressed_found {a : Access F} {ready : SnmpInfo F → Int → Prop} {name : CStr} {r : Option (Snmp F × Stat)} {k : Int}
    {p : SnmpInfo F} (hname : isOutletName name = true) (hcount : count < 2 ^ 31) (h : Answers s count a ready name r)
    (hk : numberOf name = some k) (hle : k ≤ count) (hp : templateOf s name = some p)
    (hready : ready p (k - baseNutOutletOffset s)) : Addressed s count a name r ↔ Consistent s a name k p := by
  have htarget : ∀ oid, Target s count a name oid ↔ Canonical name k ∧ ∃ q ∈ s.info,
      strcasecmp q.infoType p.infoType = .eq ∧ Available s a q (k - baseNutOutletOffset s) oid :=
    fun oid => target_iff hbase hname hcount hk hle hp
  constructor
  · rintro ⟨s', stat, hr, hsent, hkept⟩
    -- a target is written, and what is written has a target
    have hwrites : ∀ oid, Target s count a name oid → a.Writes p (k - baseNutOutletOffset s) oid := by
      intro oid ht
      obtain ⟨q, rfl, hsets⟩ := hsent oid ht
      by_cases hw : ∃ oid, a.Writes p (k - baseNutOutletOffset s) oid
      · obtain ⟨oid, hw⟩ := hw
        obtain ⟨s₁, stat₁, hr₁, q₁, hq₁, hsets₁⟩ := h.sent k p oid hk hle hp hready hw
        obtain ⟨hs, -⟩ := Prod.mk.inj (Option.some.inj (hr.symm.trans hr₁))
        have hq : q = q₁ := by
          rw [← hs, hsets] at hsets₁
          exact List.singleton_inj.1 (List.append_cancel_left hsets₁)
        rw [hq, hq₁]
        exact hw
      · obtain ⟨stat₁, hr₁, -⟩ := h.kept k p hk hle hp hready (not_exists.1 hw)
        obtain ⟨hs, -⟩ := Prod.mk.inj (Option.some.inj (hr.symm.trans hr₁))
        rw [hs] at hsets
        exact absurd (List.self_eq_append_right.1 hsets) (List.cons_ne_nil _ _)
    have hsome : ∀ oid, a.Writes p (k - baseNutOutletOffset s) oid → ∃ oid, Target s count a name oid := by
      intro oid hw
      by_contra hnone
      obtain ⟨hs, -⟩ := hkept (not_exists.1 hnone)
      obtain ⟨s₁, stat₁, hr₁, q₁, -, hsets₁⟩ := h.sent k p oid hk hle hp hready hw
      obtain ⟨hs₁, -⟩ := Prod.mk.inj (Option.some.inj (hr.symm.trans hr₁))
      rw [← hs₁, hs] at hsets₁
      exact absurd (List.self_eq_append_right.1 hsets₁) (List.cons_ne_nil _ _)
    refine ⟨fun oid hw => ?_, fun hcanonical oid => ⟨fun hw => ?_, fun ha => hwrites oid ((htarget oid).2 ⟨hcanonical, ha⟩)⟩⟩
    · obtain ⟨oid', ht⟩ := hsome oid hw
      exact ((htarget oid').1 ht).1
    · obtain ⟨oid', ht⟩ := hsome oid hw
      rw [hw.unique (hwrites oid' ht)]
      exact ((htarget oid').1 ht).2
  · rintro ⟨hcanonical, hsame⟩
    by_cases hw : ∃ oid, a.Writes p (k - baseNutOutletOffset s) oid
    · obtain ⟨oid, hw⟩ := hw
      obtain ⟨s', stat, hr, q, hq, hsets⟩ := h.sent k p oid hk hle hp hready hw
      have ht : Target s count a name oid := (htarget oid).2 ⟨hcanonical oid hw, (hsame (hcanonical oid hw) oid).1 hw⟩
      refine ⟨s', stat, hr, fun oid' ht' => ⟨q, ?_, hsets⟩, fun hnone => absurd ht (hnone oid)⟩
      obtain ⟨hc, ha⟩ := (htarget oid').1 ht'
      rw [hq]
      exact hw.unique ((hsame hc oid').2 ha)
    · obtain ⟨stat, hr, hstat⟩ := h.kept k p hk hle hp hready (not_exists.1 hw)
      refine ⟨s, stat, hr, fun oid ht => ?_, fun _ => ⟨rfl, hstat⟩⟩
      obtain ⟨hc, ha⟩ := (htarget oid).1 ht
      exact absurd ⟨oid, (hsame hc oid).2 ha⟩ hw

theorem addressed_iff {a : Access F} {ready : SnmpInfo F → Int → Prop} {name : CStr} {r : Option (Snmp F × Stat)}
    (hname : isOutletName name = true) (hcount : count < 2 ^ 31) (h : Answers s count a ready name r) :
    Addressed s count a name r ↔ Meets s count a ready name := by
  have hsome : Addressed s count a name r → r ≠ none := by
    rintro ⟨s', stat, rfl, -⟩
    exact nofun
  constructor
  · intro haddressed
    cases hk : numberOf name with
    | none => exact absurd (h.undotted hk) (hsome haddressed)
    | some k =>
      refine ⟨k, hk, ?_⟩
      by_cases hlt : count < k
      · exact .inl hlt
      · have hle := Int.not_lt.1 hlt
        cases hp : templateOf s name with
        | none => exact absurd (h.missing k hk hle hp) (hsome haddressed)
        | some p =>
          have hready : ready p (k - baseNutOutletOffset s) := by
            by_contra hnot
            exact hsome haddressed (h.unready k p hk hle hp hnot)
          exact .inr ⟨p, rfl, hready, (addressed_found hbase hname hcount h hk hle hp hready).1 haddressed⟩
  · rintro ⟨k, hk, hmeets⟩
    by_cases hlt : count < k
    · obtain ⟨stat, hr, hstat⟩ := h.above k hk hlt
      exact ⟨s, stat, hr, fun oid ht => absurd ht (not_target hbase hname hcount hk hlt), fun _ => ⟨rfl, hstat⟩⟩
    · obtain ⟨p, hp, hready, hsame⟩ := hmeets.resolve_left hlt
      exact (addressed_found hbase hname hcount h hk (Int.not_lt.1 hlt) hp hready).2 hsame

end

/-! ### Setting and commands -/

/-- The texts of a variable fit into the buffers, and its value is found. -/
def setReady (name val : CStr) (p : SnmpInfo F) (number : Int) : Prop :=
  outletDefault p number ≠ none ∧ outletOid p number ≠ none ∧ name.length < suInfosize ∧
    ∀ oid, setAccess.Writes p number oid → p.infoFlags &&& stFlagString = 0 →
      ∀ oid2info, p.oid2info = some oid2info → suFindValinfo oid2info val ≠ none

/-- The texts of a command fit into the buffers, and it has a value. -/
def cmdReady (extradata : Option CStr) (p : SnmpInfo F) (number : Int) : Prop :=
  outletDefault p number ≠ none ∧ outletOid p (number + cmdAccess.shift p) ≠ none ∧
    ∀ oid, cmdAccess.Writes p number oid → p.infoFlags &&& stFlagString ≠ 0 → extradata.or p.dfl ≠ none

theorem suSetinfo_some (env : Env F) (s : Snmp F) (info : SnmpInfo F) (val : CStr) :
    ∃ s', suSetinfo env s info (some val) = some s' ∧ s'.sets = s.sets := by
  unfold suSetinfo
  split
  · exact ⟨s, rfl, rfl⟩
  · split
    · exact ⟨s, rfl, rfl⟩
    · exact ⟨_, rfl, rfl⟩

theorem setEntry_kept (env : Env F) (s : Snmp F) {info : SnmpInfo F} (val : CStr)
    (h : ¬ (has info.flags suFlagOk = true ∧ info.infoFlags &&& stFlagRw ≠ 0 ∧ info.oid ≠ none)) :
    ∃ stat, setEntry env s info val = some (s, stat) ∧ stat ≠ .handled := by
  unfold setEntry
  split
  · exact ⟨_, rfl, nofun⟩
  · rename_i hok
    split
    · exact ⟨_, rfl, nofun⟩
    · rename_i hrw
      split
      · exact ⟨_, rfl, nofun⟩
      · rename_i oid hoid
        exact absurd ⟨not_not.1 hok, hrw, hoid ▸ nofun⟩ h

/-- The answer of the device does not matter for what is sent. -/
theorem sent_of_set (env : Env F) (s : Snmp F) (info : SnmpInfo F) (val : CStr) (q : SetRequest) :
    ∃ s' stat, (match nutSnmpSet env s q with
      | (s, false) => some (s, Stat.failed)
      | (s, true) => (suSetinfo env s info (some val)).map fun s => (s, Stat.handled)) = some (s', stat) ∧
        s'.sets = s.sets ++ [q] := by
  unfold nutSnmpSet
  cases env.set s.sets.length q with
  | false => exact ⟨_, _, rfl, rfl⟩
  | true =>
    obtain ⟨s', hs', hsets⟩ := suSetinfo_some env { s with sets := s.sets ++ [q] } info val
    exact ⟨s', .handled, by simp only [hs', Option.map_some], hsets⟩

section

variable (env : Env F) (s : Snmp F) {info : SnmpInfo F} {val oid : CStr} (hok : has info.flags suFlagOk = true)
  (hrw : info.infoFlags &&& stFlagRw ≠ 0) (hoid : info.oid = some oid)

include hok hrw hoid

theorem setEntry_sent (hvalue : info.infoFlags &&& stFlagString = 0 → ∀ oid2info, info.oid2info = some oid2info →
      suFindValinfo oid2info val ≠ none) :
    ∃ s' stat, setEntry env s info val = some (s', stat) ∧ ∃ q : SetRequest, q.oid = oid ∧ s'.sets = s.sets ++ [q] := by
  have hrequest : ∀ q : SetRequest, q.oid = oid → ∃ s' stat, (match nutSnmpSet env s q with
      | (s, false) => some (s, Stat.failed)
      | (s, true) => (suSetinfo env s info (some val)).map fun s => (s, Stat.handled)) = some (s', stat) ∧
        ∃ q : SetRequest, q.oid = oid ∧ s'.sets = s.sets ++ [q] := by
    intro q hq
    obtain ⟨s', stat, h, hsets⟩ := sent_of_set env s info val q
    exact ⟨s', stat, h, q, hq, hsets⟩
  unfold setEntry
  rw [if_neg (not_not.2 hok), if_neg hrw, hoid]
  dsimp only
  by_cases hstring : info.infoFlags &&& stFlagString ≠ 0
  · rw [if_pos hstring]
    exact hrequest _ rfl
  · rw [if_neg hstring]
    cases htable : info.oid2info with
    | none => exact hrequest _ rfl
    | some oid2info =>
      obtain ⟨value, hv⟩ := Option.ne_none_iff_exists'.1 (hvalue (not_not.1 hstring) oid2info htable)
      simp only [hv, Option.map_some]
      exact hrequest _ rfl

theorem setEntry_unready {oid2info : List InfoLkp} (hstring : info.infoFlags &&& stFlagString = 0)
    (htable : info.oid2info = some oid2info) (hvalue : suFindValinfo oid2info val = none) : setEntry env s info val = none := by
  unfold setEntry
  rw [if_neg (not_not.2 hok), if_neg hrw, hoid]
  dsimp only
  rw [if_neg (not_not.2 hstring), htable]
  simp only [hvalue, Option.map_none]
  rfl

end

theorem sendEntry_sent (env : Env F) (s : Snmp F) {info : SnmpInfo F} {extradata : Option CStr} {oid : CStr}
    (hoid : info.oid = some oid) (hvalue : info.infoFlags &&& stFlagString ≠ 0 → extradata.or info.dfl ≠ none) :
    ∃ s' stat, sendEntry env s info extradata = some (s', stat) ∧ ∃ q : SetRequest, q.oid = oid ∧ s'.sets = s.sets ++ [q] := by
  have hrequest : ∀ q : SetRequest, q.oid = oid → ∃ s' stat, (match nutSnmpSet env s q with
      | (s, false) => some (s, Stat.failed)
      | (s, true) => some (s, Stat.handled)) = some (s', stat) ∧ ∃ q : SetRequest, q.oid = oid ∧ s'.sets = s.sets ++ [q] := by
    intro q hq
    unfold nutSnmpSet
    cases env.set s.sets.length q with
    | false => exact ⟨_, _, rfl, q, hq, rfl⟩
    | true => exact ⟨_, _, rfl, q, hq, rfl⟩
  unfold sendEntry
  rw [hoid]
  by_cases hstring : info.infoFlags &&& stFlagString ≠ 0
  · obtain ⟨value, hv⟩ := Option.ne_none_iff_exists'.1 (hvalue hstring)
    simp only [if_pos hstring, hv, Option.map_some, Option.bind_eq_bind, Option.bind_some]
    exact hrequest _ rfl
  · simp only [if_neg hstring, Option.bind_eq_bind, Option.bind_some]
    exact hrequest _ rfl

theorem sendEntry_unready (env : Env F) (s : Snmp F) {info : SnmpInfo F} {extradata : Option CStr}
    (hstring : info.infoFlags &&& stFlagString ≠ 0) (hvalue : extradata.or info.dfl = none) :
    sendEntry env s info extradata = none := by
  unfold sendEntry
  cases info.oid with
  | none => rfl
  | some oid =>
    simp only [if_pos hstring, hvalue, Option.map_none]
    rfl

theorem outletDefault_none {p : SnmpInfo F} {number : Int} {dfl : Option CStr} (h : outletDefault p number = some dfl) :
    dfl = none ↔ p.dfl = none := by
  unfold outletDefault at h
  split at h
  · rename_i hp
    rw [hp, ← Option.some.inj h]
  · rename_i text hp
    have hsome : dfl ≠ none := by
      split at h
      · obtain ⟨t, -, ht⟩ := Option.map_eq_some_iff.1 h
        exact ht ▸ nofun
      · exact Option.some.inj h ▸ nofun
    exact ⟨fun hd => absurd hd hsome, fun hd => nomatch hp ▸ hd⟩

theorem or_none_congr {a b b' : Option CStr} (h : b = none ↔ b' = none) : a.or b = none ↔ a.or b' = none := by
  rw [Option.or_eq_none_iff, Option.or_eq_none_iff, h]

theorem cmdAccess_number (p : SnmpInfo F) (number : Int) :
    (if has p.flags suCmdOffset = true then number + 1 else number) = number + cmdAccess.shift p := by
  unfold cmdAccess
  dsimp only
  split
  · rfl
  · omega

section

variable {s : Snmp F} {text : CStr} (hcount : getinfo s "outlet.count".toList = some text)

include hcount

/-- It is what is done with a template that tells how a call answers. -/
theorem answers_of_template {a : Access F} {ready : SnmpInfo F → Int → Prop} (name : CStr) (noCount : Stat)
    {f : SnmpInfo F → Int → Option (Snmp F × Stat)} (hunready : ∀ p number, ¬ ready p number → f p number = none)
    (hkept : ∀ p number, ready p number → (∀ oid, ¬ a.Writes p number oid) →
      ∃ stat, f p number = some (s, stat) ∧ stat ≠ .handled)
    (hsent : ∀ p number oid, ready p number → a.Writes p number oid →
      ∃ s' stat, f p number = some (s', stat) ∧ ∃ q : SetRequest, q.oid = oid ∧ s'.sets = s.sets ++ [q]) :
    Answers s (atoi text).toInt a ready name
      (match findTemplate s name noCount with
      | none => none
      | some (.error stat) => some (s, stat)
      | some (.ok (template, number)) => f template number) := by
  have hfind := findTemplate_eq hcount name noCount
  have hfound : ∀ k p, numberOf name = some k → k ≤ (atoi text).toInt → templateOf s name = some p →
      findTemplate s name noCount = some (.ok (p, k - baseNutOutletOffset s)) := by
    intro k p hk hle hp
    rw [hfind, hk]
    simp only [if_neg (Int.not_lt.2 hle), hp, Option.map_some]
  constructor
  · intro hk
    rw [hfind, hk]
  · intro k hk hlt
    rw [hfind, hk]
    simp only [if_pos hlt]
    exact ⟨_, rfl, nofun⟩
  · intro k hk hle hp
    rw [hfind, hk]
    simp only [if_neg (Int.not_lt.2 hle), hp, Option.map_none]
  · intro k p hk hle hp hnot
    rw [hfound k p hk hle hp]
    exact hunready _ _ hnot
  · intro k p hk hle hp hready hnone
    rw [hfound k p hk hle hp]
    exact hkept _ _ hready hnone
  · intro k p oid hk hle hp hready hwrites
    rw [hfound k p hk hle hp]
    exact hsent _ _ _ hready hwrites

omit hcount in
theorem setAccess_writes {p : SnmpInfo F} {number : Int} {oid : CStr} : setAccess.Writes p number oid ↔
    (has p.flags suFlagOk = true ∧ p.infoFlags &&& stFlagRw ≠ 0) ∧ outletOid p number = some (some oid) := by
  rw [Access.Writes, show setAccess.shift p = 0 from rfl, Int.add_zero]
  rfl

theorem suSetvar_answers (env : Env F) {name : CStr} (val : CStr) (hname : isOutletName name = true) :
    Answers s (atoi text).toInt setAccess (setReady name val) name (suSetvar env s name val) := by
  let entry (p : SnmpInfo F) (dfl oid : Option CStr) : SnmpInfo F := { p with infoType := name, oid := oid, dfl := dfl }
  have hentry : ∀ (p : SnmpInfo F) number dfl oid, outletDefault p number = some dfl → outletOid p number = some oid →
      name.length < suInfosize → (do
        let dfl ← outletDefault p number
        let oid ← outletOid p number
        if suInfosize ≤ name.length then none else setEntry env s (entry p dfl oid) val) = setEntry env s (entry p dfl oid) val := by
    intro p number dfl oid hdfl hoid hlen
    simp only [hdfl, hoid, Option.bind_eq_bind, Option.bind_some, if_neg (Nat.not_le.2 hlen)]
  unfold suSetvar
  rw [if_pos hname]
  refine answers_of_template hcount name .invalid (f := fun p number => do
    let dfl ← outletDefault p number
    let oid ← outletOid p number
    if suInfosize ≤ name.length then none else setEntry env s (entry p dfl oid) val) ?_ ?_ ?_
  · intro p number hnot
    by_contra hsome
    obtain ⟨r, hr⟩ := Option.ne_none_iff_exists'.1 hsome
    obtain ⟨dfl, hdfl, hr⟩ := Option.bind_eq_some_iff.1 hr
    obtain ⟨oid, hoid, hr⟩ := Option.bind_eq_some_iff.1 hr
    split at hr
    · cases hr
    · rename_i hlen
      refine hnot ⟨hdfl ▸ nofun, hoid ▸ nofun, Nat.not_le.1 hlen, ?_⟩
      intro oid' hw hstring oid2info htable hvalue
      obtain ⟨⟨hok, hrw⟩, hoid'⟩ := setAccess_writes.1 hw
      rw [hoid] at hoid'
      have hnone : setEntry env s (entry p dfl oid) val = none :=
        setEntry_unready env s hok hrw (Option.some.inj hoid') hstring htable hvalue
      rw [hnone] at hr
      cases hr
  · rintro p number ⟨hdfl, hoid, hlen, -⟩ hnone
    obtain ⟨dfl, hdfl⟩ := Option.ne_none_iff_exists'.1 hdfl
    obtain ⟨oid, hoid⟩ := Option.ne_none_iff_exists'.1 hoid
    rw [hentry p number dfl oid hdfl hoid hlen]
    refine setEntry_kept env s val ?_
    rintro ⟨hok, hrw, hne⟩
    obtain ⟨oid', rfl⟩ := Option.ne_none_iff_exists'.1 hne
    exact hnone oid' (setAccess_writes.2 ⟨⟨hok, hrw⟩, hoid⟩)
  · rintro p number oid ⟨hdfl, -, hlen, hvalue⟩ hw
    obtain ⟨dfl, hdfl⟩ := Option.ne_none_iff_exists'.1 hdfl
    obtain ⟨⟨hok, hrw⟩, hoid⟩ := setAccess_writes.1 hw
    rw [hentry p number dfl (some oid) hdfl hoid hlen]
    exact setEntry_sent env s hok hrw rfl (hvalue oid hw)

theorem suInstcmd_answers (env : Env F) {name : CStr} (extradata : Option CStr) (hname : isOutletName name = true) :
    Answers s (atoi text).toInt cmdAccess (cmdReady extradata) name (suInstcmd env s name extradata) := by
  let entry (p : SnmpInfo F) (dfl oid : Option CStr) : SnmpInfo F := { p with oid := oid, dfl := dfl }
  unfold suInstcmd
  rw [if_pos hname]
  refine answers_of_template hcount name .unknown (f := fun p number => do
    let dfl ← outletDefault p number
    let oid ← outletOid p (if has p.flags suCmdOffset then number + 1 else number)
    if oid = none ∨ ¬ has p.flags suFlagOk then some (s, .unknown)
    else sendEntry env s (entry p dfl oid) extradata) ?_ ?_ ?_
  · intro p number hnot
    by_contra hsome
    obtain ⟨r, hr⟩ := Option.ne_none_iff_exists'.1 hsome
    obtain ⟨dfl, hdfl, hr⟩ := Option.bind_eq_some_iff.1 hr
    obtain ⟨oid, hoid, hr⟩ := Option.bind_eq_some_iff.1 hr
    rw [cmdAccess_number] at hoid
    refine hnot ⟨hdfl ▸ nofun, hoid ▸ nofun, ?_⟩
    intro oid' hw hstring hvalue
    have hnone : sendEntry env s (entry p dfl oid) extradata = none :=
      sendEntry_unready env s hstring ((or_none_congr (outletDefault_none hdfl)).2 hvalue)
    have hoid' : oid = some oid' := Option.some.inj (hoid.symm.trans hw.2)
    have hok : has p.flags suFlagOk = true := hw.1
    have hsent : ¬ (oid = none ∨ ¬ has p.flags suFlagOk = true) := by
      rw [hoid']
      exact not_or.2 ⟨nofun, not_not.2 hok⟩
    rw [if_neg hsent, hnone] at hr
    cases hr
  · rintro p number ⟨hdfl, hoid, -⟩ hnone
    obtain ⟨dfl, hdfl⟩ := Option.ne_none_iff_exists'.1 hdfl
    obtain ⟨oid, hoid⟩ := Option.ne_none_iff_exists'.1 hoid
    refine ⟨.unknown, ?_, nofun⟩
    simp only [cmdAccess_number, hdfl, hoid, Option.bind_eq_bind, Option.bind_some]
    refine if_pos ?_
    by_contra hboth
    obtain ⟨hsome, hok⟩ := not_or.1 hboth
    obtain ⟨oid', rfl⟩ := Option.ne_none_iff_exists'.1 hsome
    exact hnone oid' ⟨not_not.1 hok, hoid⟩
  · rintro p number oid ⟨hdfl, -, hvalue⟩ hw
    obtain ⟨dfl, hdfl⟩ := Option.ne_none_iff_exists'.1 hdfl
    have hok : has p.flags suFlagOk = true := hw.1
    simp only [cmdAccess_number, hdfl, hw.2, Option.bind_eq_bind, Option.bind_some]
    rw [if_neg (not_or.2 ⟨nofun, not_not.2 hok⟩)]
    exact sendEntry_sent env s rfl fun hstring hnone =>
      hvalue oid hw hstring ((or_none_congr (outletDefault_none hdfl)).1 hnone)

/-- What is set, and which command is sent, for the name of an outlet: where the number is not too large it is the template
that decides, whose name, number and texts have to be there. -/
theorem outlets_addressed (env : Env F) (hbase : s.outletIndexBase = 0 ∨ s.outletIndexBase = 1) {name : CStr}
    (hname : isOutletName name = true) (val : CStr) (extradata : Option CStr) :
    (Addressed s (atoi text).toInt setAccess name (suSetvar env s name val) ↔
        Meets s (atoi text).toInt setAccess (setReady name val) name) ∧
      (Addressed s (atoi text).toInt cmdAccess name (suInstcmd env s name extradata) ↔
        Meets s (atoi text).toInt cmdAccess (cmdReady extradata) name) := by
  have hlt : (atoi text).toInt < 2 ^ 31 := Int32.toInt_lt _
  exact ⟨addressed_iff hbase hname hlt (suSetvar_answers hcount env val hname),
    addressed_iff hbase hname hlt (suInstcmd_answers hcount env extradata hname)⟩

end

/-- A template of a command. -/
def switchEntry : SnmpInfo Unit := numberEntry "outlet.%i.load.on".toList ".2.%i".toList (suOutlet ||| suTypeCmd) none

/-- Two outlets, with the indices 0 and 1. -/
def switchDevice : Env Unit := numbers fun oid =>
  if oid = ".1".toList then some 2 else if oid = ".2.0".toList ∨ oid = ".2.1".toList then some 5 else none

def switchTable : List (SnmpInfo Unit) := [numberEntry "outlet.count".toList ".1".toList 0 none, switchEntry]

/-- The driver has found the outlets. -/
structure Initialised (s : Snmp Unit) : Prop where
  run : upsdrvInitinfo switchDevice false (firstWalk switchTable) = some s
  base : s.outletIndexBase = 0
  count : getinfo s "outlet.count".toList = some "2".toList

theorem initialised_some {f : Snmp Unit → Bool}
    (h : (upsdrvInitinfo switchDevice false (firstWalk switchTable)).any (fun s => s.outletIndexBase = 0 ∧
      getinfo s "outlet.count".toList = some "2".toList ∧ f s = true) = true) : ∃ s, Initialised s ∧ f s = true := by
  obtain ⟨s, hs, hcheck⟩ := (Option.any_eq_true _ _).1 h
  obtain ⟨hbase, hcount, hf⟩ := of_decide_eq_true hcheck
  exact ⟨s, ⟨hs, hbase, hcount⟩, hf⟩

/-- The second outlet is switched on by the request to its instance. -/
theorem outlets_addressed_second :
    ∃ s, Initialised s ∧ Target s 2 cmdAccess "outlet.2.load.on".toList ".2.1".toList ∧
      Addressed s 2 cmdAccess "outlet.2.load.on".toList (suInstcmd switchDevice s "outlet.2.load.on".toList none) := by
  obtain ⟨s, hs, hf⟩ := @initialised_some (fun s => s.info.map (fun p => (p.infoType, p.oid, p.dfl, p.infoFlags, p.flags)) =
    [("outlet.count".toList, some ".1".toList, none, 0, suFlagOk),
      ("outlet.%i.load.on".toList, some ".2.%i".toList, none, 0, suOutlet ||| suTypeCmd ||| suFlagOk)]) (by decide +kernel)
  obtain ⟨c, rest, hinfo, hc, hrest⟩ := List.map_eq_cons_iff.1 (of_decide_eq_true hf)
  obtain ⟨p, last, rfl, hp, hlast⟩ := List.map_eq_cons_iff.1 hrest
  rw [List.map_eq_nil_iff.1 hlast] at hinfo
  simp only [Prod.mk.injEq] at hc hp
  obtain ⟨htype, hoid, hdfl, hstring, hflags⟩ := hp
  have hoffset : (2 : Int) - baseNutOutletOffset s = 1 := by
    rw [baseNutOutletOffset, hs.base]
    rfl
  have hfound : templateOf s "outlet.2.load.on".toList = some p := by
    have hrest : templateOf s "outlet.2.load.on".toList = suFindInfo s "outlet.%i.load.on".toList := rfl
    rw [hrest, suFindInfo, hinfo, List.find?_cons_of_neg (by rw [hc.1]; decide),
      List.find?_cons_of_pos (by rw [htype]; decide)]
  have hwrites : cmdAccess.Writes p 1 ".2.1".toList := by
    refine ⟨?_, ?_⟩
    · show has p.flags suFlagOk = true
      rw [hflags]
      decide
    · show outletOid p (1 + if has p.flags suCmdOffset then 1 else 0) = _
      rw [outletOid, hoid, hflags]
      decide +kernel
  have hmem : p ∈ s.info := by
    rw [hinfo]
    exact List.mem_cons_of_mem _ List.mem_cons_self
  have houtlet : has p.flags suOutlet = true := by
    rw [hflags]
    decide
  obtain ⟨cur, hcur, hshown⟩ : ∃ cur, outletInfo s p p 1 = some cur ∧ cur.infoType = "outlet.2.load.on".toList := by
    have hname : sprintfI p.infoType (1 + baseNutOutletOffset s) = some "outlet.2.load.on".toList := by
      rw [htype, show (1 : Int) + baseNutOutletOffset s = 2 by omega]
      decide +kernel
    have hdefault : outletDefault p (1 + baseNutOutletOffset s) = some none := by
      rw [outletDefault, hdfl]
    have hinstance : outletOid p 1 = some (some ".2.1".toList) := by
      rw [outletOid, hoid]
      decide +kernel
    exact ⟨{ p with infoType := "outlet.2.load.on".toList, dfl := none, oid := some ".2.1".toList },
      by simp only [outletInfo, hname, hdefault, hinstance, Option.bind_eq_bind, Option.bind_some], rfl⟩
  have hsame : ∀ oid, cmdAccess.Writes p 1 oid ↔
      ∃ q ∈ s.info, strcasecmp q.infoType p.infoType = .eq ∧ Available s cmdAccess q 1 oid := by
    intro oid
    constructor
    · intro hw
      exact ⟨p, hmem, strcasecmp_self _, houtlet, hcur ▸ nofun, hw⟩
    · rintro ⟨q, hq, heq, -, -, hw⟩
      rw [hinfo] at hq
      rcases List.mem_cons.1 hq with rfl | hq
      · rw [hc.1, htype] at heq
        exact absurd heq (by decide)
      · rwa [List.mem_singleton.1 hq] at hw
  have hready : cmdReady none p 1 := by
    refine ⟨?_, hwrites.2 ▸ nofun, fun oid _ h => absurd ?_ h⟩
    · rw [outletDefault, hdfl]
      exact nofun
    · rw [hstring]
      rfl
  have hcanonical : Canonical "outlet.2.load.on".toList 2 := ⟨by decide, "load.on".toList, by decide⟩
  refine ⟨s, hs, ⟨p, 1, ⟨hmem, houtlet, ⟨"load.on".toList, by rw [htype]; decide⟩, by rw [hs.base]; decide,
    cur, hcur, by rw [hshown, strcasecmp_self]⟩, hwrites⟩, ?_⟩
  refine (outlets_addressed hs.count switchDevice (.inl hs.base) (by decide) [] none).2.2
    ⟨2, by decide +kernel, .inr ⟨p, hfound, ?_, ?_⟩⟩
  · rw [hoffset]
    exact hready
  · rw [Consistent, hoffset]
    exact ⟨fun _ _ => hcanonical, fun _ => hsame⟩

/-- The request for an outlet 0 is sent to an instance that no outlet has, and a name without its second dot ends in a NULL
pointer. -/
theorem outlet_zero_sent :
    ∃ s, Initialised s ∧
      ¬ Addressed s 2 cmdAccess "outlet.0.load.on".toList (suInstcmd switchDevice s "outlet.0.load.on".toList none) ∧
        ¬ Addressed s 2 cmdAccess "outlet.1".toList (suInstcmd switchDevice s "outlet.1".toList none) := by
  obtain ⟨s, hs, hf⟩ := @initialised_some (fun s =>
    ((suInstcmd switchDevice s "outlet.0.load.on".toList none).any fun r => r.1.sets ≠ s.sets) ∧
      (suInstcmd switchDevice s "outlet.1".toList none).isNone) (by decide +kernel)
  obtain ⟨hsent, hnone⟩ := of_decide_eq_true hf
  refine ⟨s, hs, ?_, ?_⟩
  · rintro ⟨s', stat, hr, -, hkept⟩
    have hnumber : numberOf "outlet.0.load.on".toList = some 0 := by decide +kernel
    obtain ⟨hsame, -⟩ := hkept (by
      rintro oid ⟨p, number, hshows, -⟩
      obtain ⟨hpos, hle, x, hx, -⟩ := hshows.canonical (.inl hs.base) (by decide)
      rw [hx, numberOf_outletVar (by omega) (by omega)] at hnumber
      have h := Option.some.inj hnumber
      omega)
    rw [hr, hsame] at hsent
    exact absurd hsent (by simp)
  · rintro ⟨s', stat, hr, -⟩
    rw [hr] at hnone
    cases hnone

end SnmpUps

end Nut
