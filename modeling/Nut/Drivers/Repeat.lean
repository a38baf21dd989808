import Nut.Lib.Replica
import Nut.Drivers.Announce

/-!
# What the clone repeats

The variables that the clone publishes are a replica of those of the upstream driver, but for the ones that it filters
(`repeated`).  It counts the status as it came from upstream, published with or without `FSD`.

* A line from upstream is an update or none (`told`), and the clone executes it as long as `dstate_setinfo` takes the
  value (`executes_parseArgs`).
* What the clone does of its own accord touches the status at most, and then publishes the one it had from upstream
  (`Stays`).
-/

namespace Nut

open SearchTree Replica

/-- The values of the variables, by their names in lower case. -/
def raws (t : StTree) (k : CStr) : Option CStr := (find nodeKey k t).map StNode.raw

/-- `state_setinfo` leaves the variable with the value. -/
def Taken (t : StTree) (var val : CStr) : Prop := ∀ n ∈ stateTreeFind t var, n.raw = val ∨ keepsValue val n = false

instance (t : StTree) (var val : CStr) : Decidable (Taken t var val) := inferInstanceAs (Decidable (∀ n ∈ _, _))

section Raws

variable {t : StTree}

theorem raws_congr {t' : StTree} {k : CStr} (h : find nodeKey k t' = find nodeKey k t) : raws t' k = raws t k :=
  congrArg (Option.map StNode.raw) h

theorem raws_erase (ht : Ordered nodeKey t) (k : CStr) : raws (erase nodeKey k t) = assign (raws t) (k, none) := by
  funext k'
  unfold raws
  rw [find_erase ht]
  by_cases hk : k' = k
  · rw [if_pos hk, hk, assign_self]
    rfl
  · rw [if_neg hk, assign_of_ne hk]

theorem raws_modify {f : StNode → StNode} (hf : KeepsReading f) (k : CStr) (t : StTree) :
    raws (SearchTree.modify nodeKey k f t) = raws t := by
  funext k'
  unfold raws
  rw [find_modify hf.key]
  split
  · rename_i hk
    rw [hk, Option.map_map]
    exact Option.map_congr fun n _ => hf.raw n
  · rfl

theorem raws_upsert_of_ne {k var : CStr} (h : k ≠ tolower var) (val : CStr) (t : StTree) :
    find nodeKey k (upsert nodeKey (tolower var) (setRaw val) (newNode var val) t) = find nodeKey k t :=
  find_upsert_of_ne (nodeKey_setRaw val) (nodeKey_newNode var val) h t

/-- A value is taken, or a variable that keeps its own stays as it is. -/
theorem raws_upsert_cases (var val : CStr) (t : StTree) :
    raws (upsert nodeKey (tolower var) (setRaw val) (newNode var val) t) = assign (raws t) (tolower var, some val) ∨
      raws (upsert nodeKey (tolower var) (setRaw val) (newNode var val) t) = raws t ∧
        ∃ n, stateTreeFind t var = some n ∧ keepsValue val n = true := by
  have hself := @find_upsert_self _ _ _ nodeKey (tolower var) (setRaw val) (newNode var val) (nodeKey_setRaw val)
    (nodeKey_newNode var val) t
  have hraws : ∀ o, raws (upsert nodeKey (tolower var) (setRaw val) (newNode var val) t) (tolower var) = o →
      raws (upsert nodeKey (tolower var) (setRaw val) (newNode var val) t) = assign (raws t) (tolower var, o) := by
    intro o ho
    funext k
    by_cases hk : k = tolower var
    · rw [hk, assign_self, ho]
    · rw [assign_of_ne hk]
      exact raws_congr (raws_upsert_of_ne hk val t)
  rw [stateTreeFind_eq]
  rcases hn : find nodeKey (tolower var) t with _ | n
  · left
    refine hraws _ ?_
    rw [raws, hself, hn]
    exact congrArg some (newNode_raw var val)
  · rcases hkeeps : keepsValue val n with _ | _
    · left
      refine hraws _ ?_
      rw [raws, hself, hn]
      exact congrArg some (setRaw_raw hkeeps)
    · refine .inr ⟨?_, n, rfl, hkeeps⟩
      have hsame : raws (upsert nodeKey (tolower var) (setRaw val) (newNode var val) t) (tolower var) =
          raws t (tolower var) := by
        rw [raws, hself, hn, raws, hn]
        exact congrArg (fun n => some (StNode.raw n)) (setRaw_of_keeps hkeeps)
      rw [hraws _ hsame, assign_eq_self rfl]

/-- A value that is taken. -/
theorem raws_upsert {var val : CStr} (h : Taken t var val) :
    raws (upsert nodeKey (tolower var) (setRaw val) (newNode var val) t) = assign (raws t) (tolower var, some val) := by
  rcases raws_upsert_cases var val t with heq | ⟨heq, n, hn, hkeeps⟩
  · exact heq
  · have hraw : n.raw = val := by
      rcases h n hn with hraw | hfree
      · exact hraw
      · exact absurd (hkeeps.symm.trans hfree) (by decide)
    rw [heq, assign_eq_self]
    rw [raws, ← stateTreeFind_eq, hn, ← hraw]
    rfl

end Raws

namespace Clone

variable {F : Type}

/-- The name of the status. -/
def statusKey : CStr := Nut.tolower "ups.status".toList

/-- The names that are passed on, in lower case. -/
def passed : Set CStr := {k | ∃ var, Nut.tolower var = k ∧ filtered var = false}

theorem filtered_congr {v v' : CStr} (h : Nut.tolower v = Nut.tolower v') : filtered v = filtered v' := by
  have hcase : ∀ u, (strcasecmp v u = .eq) = (strcasecmp v' u = .eq) := fun u => by
    rw [strcasecmp_eq, strcasecmp_eq, h]
  unfold filtered
  simp only [strncaseeq_of_eq h, hcase]

theorem ne_of_filtered {k v : CStr} (hk : k ∈ passed) (hv : filtered v = true) : k ≠ Nut.tolower v := by
  obtain ⟨var, rfl, hvar⟩ := hk
  intro h
  rw [filtered_congr h, hv] at hvar
  exact Bool.noConfusion hvar

theorem statusKey_mem : statusKey ∈ passed := ⟨"ups.status".toList, rfl, by decide⟩

/-- What is published is the status, as it is or with `FSD`. -/
def Tells (status : CStr) (o : Option CStr) : Prop := o = some status ∨ o = some (fsdText status)

instance (status : CStr) (o : Option CStr) : Decidable (Tells status o) := inferInstanceAs (Decidable (_ ∨ _))

/-- The clone as a replica of the upstream driver. -/
def repeated (c : Clone F) : CStr → Option CStr :=
  assign (raws c.dstate.dtreeRoot) (statusKey, if Tells c.status (published c) then some c.status else none)

theorem repeated_of_ne {k : CStr} (h : k ≠ statusKey) (c : Clone F) : repeated c k = raws c.dstate.dtreeRoot k :=
  assign_of_ne h _

theorem published_eq (c : Clone F) : published c = raws c.dstate.dtreeRoot statusKey := by
  rw [published, stateTreeFind_eq]
  rfl

/-! ### What the clone does of its own accord -/

/-- What the replica needs besides the variables is the same. -/
structure Holds (c c' : Clone F) : Prop where
  ordered : Ordered nodeKey c.dstate.dtreeRoot → Ordered nodeKey c'.dstate.dtreeRoot
  status : c'.status = c.status
  upsfd : c'.upsfd = c.upsfd
  sockCtx : c'.sockCtx = c.sockCtx
  dumpdone : c'.dumpdone = c.dumpdone

/-- Nothing that is passed on is touched. -/
structure Aside (c c' : Clone F) : Prop extends Holds c c' where
  vars : ∀ k ∈ passed, find nodeKey k c'.dstate.dtreeRoot = find nodeKey k c.dstate.dtreeRoot

/-- Of what is passed on only the status is touched, and it is published as it came from upstream. -/
structure Stays (c c' : Clone F) : Prop extends Holds c c' where
  vars : ∀ k ∈ passed, k ≠ statusKey → find nodeKey k c'.dstate.dtreeRoot = find nodeKey k c.dstate.dtreeRoot
  tells : published c' = published c ∨ Tells c.status (published c')

theorem Holds.trans {c c' c'' : Clone F} (h : Holds c c') (h' : Holds c' c'') : Holds c c'' where
  ordered hord := h'.ordered (h.ordered hord)
  status := h'.status.trans h.status
  upsfd := h'.upsfd.trans h.upsfd
  sockCtx := h'.sockCtx.trans h.sockCtx
  dumpdone := h'.dumpdone.trans h.dumpdone

namespace Aside

variable {D : Doubles F} {w : Nat → Bool} {c c' c'' : Clone F}

/-- Other fields. -/
theorem fields (hd : c'.dstate = c.dstate) (hs : c'.status = c.status) (hfd : c'.upsfd = c.upsfd)
    (hctx : c'.sockCtx = c.sockCtx)
    (hdone : c'.dumpdone = c.dumpdone) : Aside c c' where
  ordered hord := hd ▸ hord
  status := hs
  upsfd := hfd
  sockCtx := hctx
  dumpdone := hdone
  vars k _ := by rw [hd]

theorem refl (c : Clone F) : Aside c c := fields rfl rfl rfl rfl rfl

theorem trans (h : Aside c c') (h' : Aside c' c'') : Aside c c'' where
  toHolds := h.toHolds.trans h'.toHolds
  vars k hk := (h'.vars k hk).trans (h.vars k hk)

theorem published (h : Aside c c') : published c' = published c := by
  rw [published_eq, published_eq]
  exact raws_congr (h.vars _ statusKey_mem)

theorem stays (h : Aside c c') : Stays c c' := ⟨h.toHolds, fun k hk _ => h.vars k hk, .inl h.published⟩

theorem repeated (h : Aside c c') {k : CStr} (hk : k ∈ passed) : c'.repeated k = c.repeated k := by
  by_cases hs : k = statusKey
  · unfold Clone.repeated
    rw [hs, assign_self, assign_self, h.published, h.status]
  · rw [repeated_of_ne hs, repeated_of_ne hs]
    exact raws_congr (h.vars k hk)

theorem setinfo (h : Aside c c') {var : CStr} (hvar : filtered var = true) (text : CStr) :
    Aside c (Clone.setinfo w c' var text) := by
  refine h.trans ⟨⟨fun hord => ordered_setinfo hord var text, rfl, rfl, rfl, rfl⟩, fun k hk => ?_⟩
  unfold Clone.setinfo
  dsimp only
  rw [dtreeRoot_setinfo]
  exact raws_upsert_of_ne (ne_of_filtered hk hvar) _ _

theorem modify (h : Aside c c') {d : Dstate} {var : CStr} (hvar : filtered var = true) {f : StNode → StNode}
    (hf : KeepsReading f)
    (hd : d.dtreeRoot = SearchTree.modify nodeKey (Nut.tolower var) f c'.dstate.dtreeRoot) :
    Aside c { c' with dstate := d } := by
  refine h.trans ⟨⟨fun hord => ?_, rfl, rfl, rfl, rfl⟩, fun k hk => ?_⟩
  · dsimp only
    rw [hd]
    exact ordered_modify hf.key hord
  · dsimp only
    rw [hd]
    exact find_modify_of_ne hf.key (ne_of_filtered hk hvar) _

theorem battery (h : Aside c c') {var : CStr} (hvar : filtered var = true) (low : F) (aux : Int32) :
    Aside c (Clone.battery D w c' var low aux) := by
  have hset := @Aside.setinfo F w c c' h var hvar (D.text low)
  have hflags := hset.modify hvar (keepsImmutable_setFlagsUnless (stFlagRw ||| stFlagString)).toKeepsReading
    (dtreeRoot_setflags w _ var _)
  exact hflags.modify hvar (keeps_setAuxOf aux) (dtreeRoot_setaux w _ var aux)

theorem sendline (c : Clone F) (buf : CStr) : Aside c (sstateSendline c buf) := by
  unfold sstateSendline
  split
  · exact refl c
  · exact fields rfl rfl rfl rfl rfl

theorem sendLoad (c : Clone F) (val : Option CStr) : Aside c (Clone.sendLoad c val) := by
  unfold Clone.sendLoad
  split
  · exact sendline c _
  · exact refl c

theorem setTimers (c : Clone F) : Aside c (Clone.setTimers w c) :=
  ((refl c).setinfo (by decide) _).setinfo (by decide) _

theorem setvar (c : Clone F) (varname val : CStr) : Aside c (Clone.setvar D w c varname val) := by
  unfold Clone.setvar
  split
  · have h : Aside c { c with chargeLow := D.strtod val } := fields rfl rfl rfl rfl rfl
    exact h.setinfo (by decide) _
  · split
    · have h : Aside c { c with runtimeLow := D.strtod val } := fields rfl rfl rfl rfl rfl
      exact h.setinfo (by decide) _
    · exact refl c

theorem initinfo (now : Int) (c : Clone F) (offdelay ondelay mincharge minruntime : Option CStr) :
    Aside c (upsdrvInitinfo D w now c offdelay ondelay mincharge minruntime) := by
  have htree : ∀ (d : Dstate) (cmdname : CStr), (dstateAddcmd w d cmdname).dtreeRoot = d.dtreeRoot := by
    intro d cmdname
    unfold dstateAddcmd
    dsimp only
    split
    · exact sendToAll_dtreeRoot w _ _
    · rfl
  unfold upsdrvInitinfo
  dsimp only
  generalize hd : dstateAddcmd w (dstateAddcmd w c.dstate "shutdown.return".toList) "shutdown.stayoff".toList = d
  have hsame : d.dtreeRoot = c.dstate.dtreeRoot := by rw [← hd, htree, htree]
  refine Aside.trans ?_ (setTimers _)
  refine @Aside.setinfo F w c _ (@Aside.setinfo F w c _ ?_ "ups.delay.shutdown".toList (by decide) _)
    "ups.delay.start".toList (by decide) _
  refine ⟨⟨fun hord => ?_, rfl, rfl, rfl, rfl⟩, fun k _ => ?_⟩
  · dsimp only
    rw [hsame]
    exact hord
  · dsimp only
    rw [hsame]

theorem dead (now : Int) (c : Clone F) (maxage : Int) : Aside c (sstateDead now c maxage).1 := by
  unfold sstateDead
  split
  · exact refl c
  · split
    · exact refl c
    · dsimp only
      split
      · exact (sendline c _).trans (fields rfl rfl rfl rfl rfl)
      · exact refl c

end Aside

namespace Stays

variable {D : Doubles F} {w : Nat → Bool} {c c' c'' : Clone F}

theorem trans (h : Stays c c') (h' : Stays c' c'') : Stays c c'' where
  toHolds := h.toHolds.trans h'.toHolds
  vars k hk hne := (h'.vars k hk hne).trans (h.vars k hk hne)
  tells := by
    rcases h'.tells with heq | htells
    · rw [heq]
      exact h.tells
    · right
      rwa [h.status] at htells

/-- The status from upstream is published. -/
theorem setStatus (h : Aside c c') {text : CStr} (ht : Tells c.status (some (snprintf stMaxValueLen text))) :
    Stays c (Clone.setinfo w c' "ups.status".toList text) := by
  rw [← h.status] at ht
  refine h.stays.trans ⟨⟨fun hord => ordered_setinfo hord _ text, rfl, rfl, rfl, rfl⟩, fun k _ hne => ?_, ?_⟩
  · unfold Clone.setinfo
    dsimp only
    rw [dtreeRoot_setinfo]
    exact raws_upsert_of_ne hne _ _
  · rw [published_eq, published_eq]
    unfold Clone.setinfo
    dsimp only
    rw [dtreeRoot_setinfo]
    rcases raws_upsert_cases "ups.status".toList (snprintf stMaxValueLen text) c'.dstate.dtreeRoot with heq | ⟨heq, -⟩
    · right
      rw [heq]
      have hself := assign_self (raws c'.dstate.dtreeRoot) statusKey (some (snprintf stMaxValueLen text))
      exact hself ▸ ht
    · left
      rw [heq]

theorem startShutdown (h : Aside c c') : Stays c (Clone.startShutdown w c') := by
  unfold Clone.startShutdown
  split
  · have h' : Aside c { c' with timerShutdown := c'.offdelay } := h.trans (.fields rfl rfl rfl rfl rfl)
    refine setStatus h' (.inr ?_)
    rw [h.status]
    rfl
  · exact h.stays

theorem instcmd {cmdname : CStr} (h : Clone.instcmd w c cmdname = some c') : Stays c c' := by
  unfold Clone.instcmd at h
  split at h
  · cases h
  · rename_i loadStatus _
    obtain ⟨outlet, houtlet⟩ := readOutlet_eq c loadStatus
    rw [houtlet] at h
    have hread : Aside c { c with outlet := outlet } := .fields rfl rfl rfl rfl rfl
    have hstart : ∀ t, Stays c { Clone.startShutdown w { c with outlet := outlet } with timerStart := t } := fun t =>
      (startShutdown hread).trans (Aside.stays (.fields rfl rfl rfl rfl rfl))
    dsimp only at h
    split at h
    · cases h
      exact hstart c.ondelay
    · split at h
      · cases h
        exact hstart (-1)
      · cases h
        exact hread.stays

theorem runTimers (hlen : c.status.length < stMaxValueLen) {now : Int} (h : Clone.runTimers D w now c = some c') :
    Stays c c' := by
  unfold Clone.runTimers at h
  split at h
  · dsimp only at h
    split at h
    · cases h
      have hoff : Aside c { c with timerShutdown := -1, outlet := false } := .fields rfl rfl rfl rfl rfl
      exact (hoff.trans (.sendLoad _ c.loadOff)).stays
    · cases h
      exact Aside.stays (.fields rfl rfl rfl rfl rfl)
  · split at h
    · dsimp only at h
      split at h
      · -- the outlet is on again, and the status without `FSD`
        cases h
        have hon : Aside c { c with timerStart := -1, outlet := true } := .fields rfl rfl rfl rfl rfl
        refine setStatus (hon.trans (.sendLoad _ c.loadOn)) (.inl ?_)
        rw [snprintf_of_lt hlen]
      · cases h
        exact Aside.stays (.fields rfl rfl rfl rfl rfl)
    · split at h
      · split at h
        · exact instcmd h
        · cases h
          exact (Aside.refl c).stays
      · cases h
        exact (Aside.refl c).stays

/-- The replica is the same, but for a status that it did not have. -/
theorem repeated (h : Stays c c') :
    (∀ k ∈ passed, k ≠ statusKey → c'.repeated k = c.repeated k) ∧
      (c'.repeated statusKey = c.repeated statusKey ∨ c.repeated statusKey = none) := by
  refine ⟨fun k hk hne => ?_, ?_⟩
  · rw [repeated_of_ne hne, repeated_of_ne hne]
    exact raws_congr (h.vars k hk hne)
  · unfold Clone.repeated
    rw [assign_self, assign_self]
    by_cases hc : Tells c.status (published c)
    · left
      have hc' : Tells c'.status (published c') := by
        rw [h.status]
        rcases h.tells with heq | htells
        · rw [heq]
          exact hc
        · exact htells
      rw [if_pos hc, if_pos hc', h.status]
    · exact .inr (if_neg hc)

end Stays

/-! ### The lines from upstream -/

/-- What a line tells of a variable: its value, or that it is gone. -/
def told (numargs : Nat) (arg : List CStr) : List (CStr × Option CStr) :=
  if 2 ≤ numargs ∧ strcasecmp (arg.getD 0 []) "DELINFO".toList = .eq then [(Nut.tolower (arg.getD 1 []), none)]
  else if 3 ≤ numargs ∧ strcasecmp (arg.getD 0 []) "SETINFO".toList = .eq then
    [(Nut.tolower (arg.getD 1 []), some (snprintf stMaxValueLen (arg.getD 2 [])))]
  else []

/-- The line is the last of a dump. -/
def endsDump (numargs : Nat) (arg : List CStr) : Bool :=
  decide (1 ≤ numargs ∧ strcasecmp (arg.getD 0 []) "DUMPDONE".toList = .eq)

/-- The value that is published for one from upstream. -/
def passedOn (c : Clone F) (var val : CStr) : CStr :=
  if strcasecmp var "ups.status".toList = .eq ∧ 0 < c.timerShutdown then fsdText (snprintf stMaxValueLen val)
  else snprintf stMaxValueLen val

/-- `dstate_setinfo` takes the value that a line sets. -/
def LineTaken (c : Clone F) (numargs : Nat) (arg : List CStr) : Prop :=
  3 ≤ numargs → strcasecmp (arg.getD 0 []) "SETINFO".toList = .eq → filtered (arg.getD 1 []) = false →
    Taken c.dstate.dtreeRoot (arg.getD 1 []) (passedOn c (arg.getD 1 []) (arg.getD 2 []))

instance (c : Clone F) (numargs : Nat) (arg : List CStr) : Decidable (LineTaken c numargs arg) := by
  unfold LineTaken
  infer_instance

/-- The clone after a line. -/
structure Executes (numargs : Nat) (arg : List CStr) (c c' : Clone F) : Prop where
  ordered : Ordered nodeKey c'.dstate.dtreeRoot
  status : c'.status.length < stMaxValueLen
  upsfd : c'.upsfd = c.upsfd
  dumpdone : c'.dumpdone = (c.dumpdone || endsDump numargs arg)
  repeated : ∀ k ∈ passed, c'.repeated k = (told numargs arg).foldl assign c.repeated k

section Lines

variable {D : Doubles F} {w : Nat → Bool} {c c' : Clone F} {numargs : Nat} {arg : List CStr}

theorem repeated_congr (ht : c'.dstate.dtreeRoot = c.dstate.dtreeRoot) (hs : c'.status = c.status) :
    c'.repeated = c.repeated := by
  have hpublished : published c' = published c := by rw [published_eq, published_eq, ht]
  unfold Clone.repeated
  rw [ht, hs, hpublished]

theorem told_of_keyword {kw : CStr} (h : strcasecmp (arg.getD 0 []) kw = .eq)
    (hd : strcasecmp kw "DELINFO".toList ≠ .eq)
    (hs : strcasecmp kw "SETINFO".toList ≠ .eq) : told numargs arg = [] := by
  unfold told
  rw [if_neg fun h' => strcasecmp_ne h hd h'.2, if_neg fun h' => strcasecmp_ne h hs h'.2]

theorem endsDump_of_keyword {kw : CStr} (h : strcasecmp (arg.getD 0 []) kw = .eq)
    (hd : strcasecmp kw "DUMPDONE".toList ≠ .eq) : endsDump numargs arg = false :=
  decide_eq_false fun h' => strcasecmp_ne h hd h'.2

/-- A line that touches neither the variables nor the status. -/
theorem Executes.of_same (hord : Ordered nodeKey c.dstate.dtreeRoot) (hlen : c.status.length < stMaxValueLen)
    (ht : c'.dstate.dtreeRoot = c.dstate.dtreeRoot) (hs : c'.status = c.status) (hfd : c'.upsfd = c.upsfd)
    (hdone : c'.dumpdone = (c.dumpdone || endsDump numargs arg)) (htold : told numargs arg = []) :
    Executes numargs arg c c' where
  ordered := ht ▸ hord
  status := hs ▸ hlen
  upsfd := hfd
  dumpdone := hdone
  repeated k _ := by rw [htold, repeated_congr ht hs]; rfl

/-- A variable of another name is set. -/
theorem repeated_setinfo {var text : CStr} (hvar : Nut.tolower var ≠ statusKey)
    (h : Taken c.dstate.dtreeRoot var (snprintf stMaxValueLen text)) :
    (Clone.setinfo w c var text).repeated =
      assign c.repeated (Nut.tolower var, some (snprintf stMaxValueLen text)) := by
  have htree : raws (Clone.setinfo w c var text).dstate.dtreeRoot =
      assign (raws c.dstate.dtreeRoot) (Nut.tolower var, some (snprintf stMaxValueLen text)) := by
    unfold Clone.setinfo
    dsimp only
    rw [dtreeRoot_setinfo]
    exact raws_upsert h
  have hpublished : published (Clone.setinfo w c var text) = published c := by
    rw [published_eq, published_eq, htree, assign_of_ne hvar.symm]
  funext k
  by_cases hk : k = statusKey
  · rw [hk, assign_of_ne hvar.symm]
    unfold Clone.repeated
    rw [assign_self, assign_self, hpublished]
    rfl
  · rw [repeated_of_ne hk, htree]
    exact assign_congr (repeated_of_ne hk c).symm _

/-- The status is set, to the one from upstream. -/
theorem repeated_setStatus {var text : CStr} (hvar : Nut.tolower var = statusKey)
    (h : Taken c.dstate.dtreeRoot var (snprintf stMaxValueLen text))
    (htells : Tells c.status (some (snprintf stMaxValueLen text))) :
    (Clone.setinfo w c var text).repeated = assign c.repeated (statusKey, some c.status) := by
  have htree : raws (Clone.setinfo w c var text).dstate.dtreeRoot =
      assign (raws c.dstate.dtreeRoot) (statusKey, some (snprintf stMaxValueLen text)) := by
    unfold Clone.setinfo
    dsimp only
    rw [dtreeRoot_setinfo, raws_upsert h, hvar]
  have hpublished : published (Clone.setinfo w c var text) = some (snprintf stMaxValueLen text) := by
    rw [published_eq, htree, assign_self]
  funext k
  by_cases hk : k = statusKey
  · rw [hk, assign_self]
    unfold Clone.repeated
    rw [assign_self, hpublished]
    exact if_pos htells
  · rw [repeated_of_ne hk, htree, assign_of_ne hk, assign_of_ne hk, repeated_of_ne hk]

theorem repeated_delinfo (hord : Ordered nodeKey c.dstate.dtreeRoot) (var : CStr) :
    (Clone.delinfo w c var).repeated = assign c.repeated (Nut.tolower var, none) := by
  have htree : raws (Clone.delinfo w c var).dstate.dtreeRoot =
      assign (raws c.dstate.dtreeRoot) (Nut.tolower var, none) := by
    unfold Clone.delinfo
    dsimp only
    rw [dtreeRoot_delinfo, raws_erase hord]
  funext k
  by_cases hk : k = statusKey
  · rw [hk]
    unfold Clone.repeated
    rw [assign_self, published_eq, htree]
    by_cases hvar : statusKey = Nut.tolower var
    · rw [← hvar, assign_self, assign_self]
      exact if_neg fun h => h.elim nofun nofun
    · rw [assign_of_ne hvar, assign_of_ne hvar, assign_self, published_eq]
      rfl
  · rw [repeated_of_ne hk, htree]
    exact assign_congr (repeated_of_ne hk c).symm _

/-- A line that sets another variable may set the limits of the clone first. -/
theorem parseSetinfo_other {var val : CStr} (hf : filtered var = false)
    (hs : strcasecmp var "ups.status".toList ≠ .eq) :
    ∃ c', Aside c c' ∧ parseSetinfo D w c var val = Clone.setinfo w c' var val := by
  have hcharge : Aside c (if strcasecmp var "battery.charge".toList = .eq then
      battery D w { c with chargeAct := D.strtod val } "battery.charge.low".toList c.chargeLow 3 else c) := by
    split
    · have h : Aside c { c with chargeAct := D.strtod val } := .fields rfl rfl rfl rfl rfl
      exact h.battery (by decide) _ _
    · exact .refl c
  unfold parseSetinfo
  rw [if_neg (by rw [hf]; exact Bool.false_ne_true)]
  dsimp only
  rw [decide_eq_false hs, Bool.false_and, if_neg Bool.false_ne_true, if_neg Bool.false_ne_true]
  refine ⟨_, ?_, rfl⟩
  split
  · have hact : Aside c { (if strcasecmp var "battery.charge".toList = .eq then
        battery D w { c with chargeAct := D.strtod val } "battery.charge.low".toList c.chargeLow 3 else c) with
        runtimeAct := D.strtod val } := hcharge.trans (.fields rfl rfl rfl rfl rfl)
    exact hact.battery (by decide) _ _
  · exact hcharge

/-- A status from upstream is kept, and published as it is or with `FSD`. -/
theorem parseSetinfo_text {var val : CStr} (hs : strcasecmp var "ups.status".toList = .eq) :
    ∃ online, parseSetinfo D w c var val =
    if 0 < c.timerShutdown then
      Clone.setinfo w { c with status := snprintf stMaxValueLen val, online := online } "ups.status".toList
        (fsd (snprintf stMaxValueLen val))
    else Clone.setinfo w { c with status := snprintf stMaxValueLen val, online := online } var val := by
  have hcharge := strcasecmp_ne hs (show strcasecmp "ups.status".toList "battery.charge".toList ≠ .eq by decide)
  have hruntime := strcasecmp_ne hs (show strcasecmp "ups.status".toList "battery.runtime".toList ≠ .eq by decide)
  refine ⟨isOnline (snprintf stMaxValueLen val), ?_⟩
  unfold parseSetinfo
  rw [filtered_status hs, if_neg Bool.false_ne_true]
  dsimp only
  rw [decide_eq_true hs, if_pos rfl, Bool.true_and]
  dsimp only
  by_cases ht : 0 < c.timerShutdown
  · rw [if_pos ht, decide_eq_true ht, if_pos rfl]
  · rw [if_neg ht, decide_eq_false ht, if_neg Bool.false_ne_true, if_neg hcharge, if_neg hruntime]

/-- What `SETINFO` makes of the replica. -/
structure Sets (var val : CStr) (c c' : Clone F) : Prop where
  ordered : Ordered nodeKey c'.dstate.dtreeRoot
  status : c'.status.length < stMaxValueLen
  upsfd : c'.upsfd = c.upsfd
  dumpdone : c'.dumpdone = c.dumpdone
  repeated : ∀ k ∈ passed, c'.repeated k = assign c.repeated (Nut.tolower var, some (snprintf stMaxValueLen val)) k

theorem sets_parseSetinfo (hord : Ordered nodeKey c.dstate.dtreeRoot) (hlen : c.status.length < stMaxValueLen)
    {var val : CStr}
    (h : filtered var = false → Taken c.dstate.dtreeRoot var (passedOn c var val)) :
    Sets var val c (parseSetinfo D w c var val) := by
  rcases hf : filtered var with _ | _
  swap
  · -- not passed on
    have hsame : parseSetinfo D w c var val = c := by
      unfold parseSetinfo
      rw [if_pos hf]
    rw [hsame]
    exact ⟨hord, hlen, rfl, rfl, fun k hk => (assign_of_ne (ne_of_filtered hk hf) _).symm⟩
  have htaken := h hf
  by_cases hs : strcasecmp var "ups.status".toList = .eq
  · have hvar : Nut.tolower var = statusKey := strcasecmp_eq.1 hs
    obtain ⟨online, hparse⟩ := @parseSetinfo_text F D w c var val hs
    have hshort := length_snprintf_lt (by decide : 0 < stMaxValueLen) val
    -- the status itself is kept before it is published
    have hkept : ∀ {v text : CStr}, Nut.tolower v = statusKey → passedOn c var val = snprintf stMaxValueLen text →
        Tells (snprintf stMaxValueLen val) (some (snprintf stMaxValueLen text)) →
        Sets var val c (Clone.setinfo w { c with status := snprintf stMaxValueLen val, online := online } v text) := by
      intro v text hv htext htells
      have htaken' : Taken c.dstate.dtreeRoot v (snprintf stMaxValueLen text) := by
        unfold Taken at htaken ⊢
        rw [htext, stateTreeFind_eq, hvar] at htaken
        rwa [stateTreeFind_eq, hv]
      have hset := @repeated_setStatus F w { c with status := snprintf stMaxValueLen val, online := online }
        v text hv htaken' htells
      refine ⟨ordered_setinfo hord _ _, hshort, rfl, rfl, fun k _ => ?_⟩
      rw [hset, hvar]
      by_cases hk : k = statusKey
      · rw [hk, assign_self, assign_self]
      · rw [assign_of_ne hk, assign_of_ne hk, repeated_of_ne hk, repeated_of_ne hk]
    rw [hparse]
    split
    · rename_i ht
      exact hkept rfl (if_pos ⟨hs, ht⟩) (.inr rfl)
    · rename_i ht
      exact hkept hvar (if_neg fun h => ht h.2) (.inl rfl)
  · have hvar : Nut.tolower var ≠ statusKey := fun h => hs (strcasecmp_eq.2 h)
    obtain ⟨c', haside, hparse⟩ := @parseSetinfo_other F D w c var val hf hs
    have hpassed : passedOn c var val = snprintf stMaxValueLen val := if_neg fun h => hs h.1
    have htaken' : Taken c'.dstate.dtreeRoot var (snprintf stMaxValueLen val) := by
      unfold Taken at htaken ⊢
      rw [hpassed, stateTreeFind_eq] at htaken
      rwa [stateTreeFind_eq, haside.vars _ ⟨var, rfl, hf⟩]
    rw [hparse]
    refine ⟨ordered_setinfo (haside.ordered hord) _ _, ?_, haside.upsfd, haside.dumpdone, fun k hk => ?_⟩
    · show c'.status.length < _
      rwa [haside.status]
    · rw [repeated_setinfo hvar htaken']
      exact assign_congr (haside.repeated hk) _

theorem executes_parseArgs (hord : Ordered nodeKey c.dstate.dtreeRoot) (hlen : c.status.length < stMaxValueLen)
    (h : LineTaken c numargs arg) : Executes numargs arg c (parseArgs D w c numargs arg).1 := by
  unfold parseArgs
  dsimp only
  split
  · rename_i hnum
    refine .of_same hord hlen rfl rfl rfl ?_ ?_
    · rw [endsDump, decide_eq_false fun h' => by omega, Bool.or_false]
    · unfold told
      rw [if_neg (by omega), if_neg (by omega)]
  rename_i hnum
  split
  · rename_i hpong
    refine .of_same hord hlen rfl rfl rfl ?_ (told_of_keyword hpong (by decide) (by decide))
    rw [endsDump_of_keyword hpong (by decide), Bool.or_false]
  split
  · rename_i hdone
    refine .of_same hord hlen rfl rfl rfl ?_ (told_of_keyword hdone (by decide) (by decide))
    rw [endsDump, decide_eq_true ⟨by omega, hdone⟩, Bool.or_true]
  rename_i hdone
  have hnotdone : endsDump numargs arg = false := decide_eq_false fun h' => hdone h'.2
  split
  · rename_i hstale
    refine .of_same hord hlen ?_ rfl rfl ?_ (told_of_keyword hstale (by decide) (by decide))
    · unfold dstateDatastale
      split
      · rfl
      · exact sendToAll_dtreeRoot w _ _
    · rw [hnotdone, Bool.or_false]
  split
  · rename_i hok
    refine .of_same hord hlen ?_ rfl rfl ?_ (told_of_keyword hok (by decide) (by decide))
    · unfold dstateDataok
      split
      · exact sendToAll_dtreeRoot w _ _
      · rfl
    · rw [hnotdone, Bool.or_false]
  split
  · rename_i hnum2
    refine .of_same hord hlen rfl rfl rfl ?_ ?_
    · rw [hnotdone, Bool.or_false]
    · unfold told
      rw [if_neg (by omega), if_neg (by omega)]
  rename_i hnum2
  split
  · rename_i hdel
    have htold : told numargs arg = [(Nut.tolower (arg.getD 1 []), none)] := if_pos ⟨by omega, hdel⟩
    refine ⟨?_, hlen, rfl, ?_, fun k _ => ?_⟩
    · unfold delinfo
      dsimp only
      rw [dtreeRoot_delinfo]
      exact ordered_erase hord
    · rw [endsDump_of_keyword hdel (by decide), Bool.or_false]
      rfl
    · rw [htold]
      exact congrFun (repeated_delinfo hord _) k
  rename_i hdel
  split
  · rename_i hnum3
    refine .of_same hord hlen rfl rfl rfl ?_ ?_
    · rw [hnotdone, Bool.or_false]
    · unfold told
      rw [if_neg fun h' => hdel h'.2, if_neg (by omega)]
  rename_i hnum3
  split
  · rename_i hset
    have htold : told numargs arg = [(Nut.tolower (arg.getD 1 []), some (snprintf stMaxValueLen (arg.getD 2 [])))] := by
      unfold told
      rw [if_neg fun h' => hdel h'.2, if_pos ⟨by omega, hset⟩]
    have hsets := @sets_parseSetinfo F D w c hord hlen (arg.getD 1 []) (arg.getD 2 []) (h (by omega) hset)
    refine ⟨hsets.ordered, hsets.status, hsets.upsfd, ?_, fun k hk => ?_⟩
    · rw [hsets.dumpdone, hnotdone, Bool.or_false]
    · rw [htold]
      exact hsets.repeated k hk
  · rename_i hset
    refine .of_same hord hlen rfl rfl rfl ?_ ?_
    · rw [hnotdone, Bool.or_false]
    · unfold told
      rw [if_neg fun h' => hdel h'.2, if_neg fun h' => hset h'.2]

end Lines

end Clone

end Nut
