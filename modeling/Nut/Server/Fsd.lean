import Nut.Server.Answers
import Nut.Server.Moves

/-!
# The FSD flag

`net_fsd` sets `fsd` in the record of a UPS, beside the tree of its variables.  No event takes it back while the UPS is
configured (`Latched.keeps`), and both paths that serve a value put `FSD ` before that of `ups.status`
(`fsd_latched`).
-/

namespace Nut

open Relation

/-- The UPS is configured and its FSD flag is set. -/
def Latched (s : Upsd) (name : CStr) : Prop := ∃ ups ∈ s.firstups, ups.name = name ∧ ups.fsd = true

/-- The server goes on from `s`, and the UPS stays in the configuration. -/
inductive Upsd.Keeps (name : CStr) (s : Upsd) : Upsd → Prop
  | refl : Keeps name s s
  | step {t t' : Upsd} (h : Keeps name s t) (hdoes : Does t t') (hups : ∃ ups ∈ t'.firstups, ups.name = name) :
      Keeps name s t'

/-- The record keeps its name, and its FSD flag if it is set. -/
def KeepsFsd (ups ups' : Upstype) : Prop := ups'.name = ups.name ∧ (ups.fsd = true → ups'.fsd = true)

variable {adds dels : Prop} {s s' : Upsd} {name : CStr}

theorem keepsFsd_modifyUps (s : Upsd) (name : CStr) {f : Upstype → Upstype} (hf : ∀ ups, KeepsFsd ups (f ups)) :
    List.Forall₂ KeepsFsd s.firstups (s.modifyUps name f).firstups := by
  unfold Upsd.modifyUps
  rw [List.forall₂_map_right_iff, List.forall₂_same]
  intro ups _
  split_ifs
  · exact hf ups
  · exact ⟨rfl, id⟩

theorem keepsFsd_refl (upses : List Upstype) : List.Forall₂ KeepsFsd upses upses :=
  List.forall₂_same.2 fun _ _ => ⟨rfl, id⟩

theorem keepsFsd_clientDisconnect (s : Upsd) (fd : Nat) :
    List.Forall₂ KeepsFsd s.firstups (clientDisconnect s fd).firstups := by
  unfold clientDisconnect
  split
  · exact keepsFsd_refl _
  · dsimp only
    split
    · exact keepsFsd_refl _
    · unfold declogins
      split
      · exact keepsFsd_refl _
      · exact keepsFsd_modifyUps s _ fun ups => ⟨rfl, id⟩

/-- A move keeps the flags, adds a UPS or removes some. -/
theorem Move.keepsFsd (h : Move adds dels s s') : List.Forall₂ KeepsFsd s.firstups s'.firstups ∨
    (adds ∧ ∃ ups, s'.firstups = ups :: s.firstups) ∨ dels ∧ s'.firstups ⊆ s.firstups := by
  cases h with
  | upses h => exact .inl (h.imp fun ups ups' hsame => ⟨hsame.name, fun hfsd => hsame.fsd.trans hfsd⟩)
  | login => exact .inl (keepsFsd_modifyUps s _ fun ups => ⟨rfl, id⟩)
  | fsd => exact .inl (keepsFsd_modifyUps s _ fun ups => ⟨rfl, fun _ => rfl⟩)
  | disconnect fd => exact .inl (keepsFsd_clientDisconnect s fd)
  | create hadds ups => exact .inr (.inl ⟨hadds, ups, rfl⟩)
  | delete hdels => exact .inr (.inr ⟨hdels, List.filter_sublist.subset⟩)
  | client | connect | users | limits => exact .inl (keepsFsd_refl _)

theorem exists_right_of_forall₂ {α : Type*} {r : α → α → Prop} {l l' : List α} (h : List.Forall₂ r l l') {a : α}
    (ha : a ∈ l) : ∃ b ∈ l', r a b := by
  induction h with
  | nil => simp at ha
  | cons hr _ ih =>
    rcases List.mem_cons.1 ha with rfl | ha
    · exact ⟨_, List.mem_cons_self, hr⟩
    · obtain ⟨b, hb, hr⟩ := ih ha
      exact ⟨b, List.mem_cons_of_mem _ hb, hr⟩

/-- A flag that is set stays set, where no UPS is removed. -/
theorem Latched.move (hs : Latched s name) (h : Move adds False s s') : Latched s' name := by
  obtain ⟨ups, hups, hname, hfsd⟩ := hs
  rcases h.keepsFsd with h | ⟨-, new, h⟩ | ⟨h, -⟩
  · obtain ⟨ups', hups', hkeeps⟩ := exists_right_of_forall₂ h hups
    exact ⟨ups', hups', hkeeps.1.trans hname, hkeeps.2 hfsd⟩
  · exact ⟨ups, h ▸ List.mem_cons_of_mem _ hups, hname, hfsd⟩
  · exact h.elim

/-- Where no UPS is added, the flag is set in every record of that name that is left. -/
theorem latched_move (hs : ∀ ups ∈ s.firstups, ups.name = name → ups.fsd = true) (h : Move False dels s s') :
    ∀ ups ∈ s'.firstups, ups.name = name → ups.fsd = true := by
  intro ups' hups' hname
  rcases h.keepsFsd with h | ⟨h, -⟩ | ⟨-, h⟩
  · obtain ⟨ups, hups, hkeeps⟩ := exists_right_of_forall₂ h.flip hups'
    exact hkeeps.2 (hs ups hups (hkeeps.1.symm.trans hname))
  · exact h.elim
  · exact hs ups' (h hups') hname

theorem Latched.does (hunique : UniqueNames s) (hs : Latched s name) (h : Does s s')
    (hups : ∃ ups ∈ s'.firstups, ups.name = name) : Latched s' name := by
  obtain ⟨mid, hadd, hdel⟩ := h.moves hunique
  have hmid : Latched mid name := by
    clear hdel
    induction hadd with
    | refl => exact hs
    | tail _ h ih => exact ih.move h
  have hall : ∀ ups ∈ mid.firstups, ups.name = name → ups.fsd = true := by
    intro ups hups hname
    obtain ⟨ups', hups', hname', hfsd⟩ := hmid
    rwa [(hunique.moves hadd).eq hups hups' (by rw [hname, hname', strcasecmp_self])]
  have hleft : ∀ ups ∈ s'.firstups, ups.name = name → ups.fsd = true := by
    clear hups h
    induction hdel with
    | refl => exact hall
    | tail _ h ih => exact latched_move ih h
  obtain ⟨ups, hups, hname⟩ := hups
  exact ⟨ups, hups, hname, hleft ups hups hname⟩

theorem Upsd.Keeps.stage {t : Upsd} (h : Upsd.Keeps name s t) (hs : s.Stage) : t.Stage := by
  induction h with
  | refl => exact hs
  | step _ hdoes _ ih => exact ih.step hdoes

/-- The flag stays set as long as the UPS is configured. -/
theorem Latched.keeps {t : Upsd} (hstage : s.Stage) (hs : Latched s name) (h : Upsd.Keeps name s t) :
    Latched t name := by
  induction h with
  | refl => exact hs
  | step h hdoes hups ih => exact ih.does (h.stage hstage).uniqueNames hdoes hups

/-! ### The answers -/

/-- An error, or the line with a value that begins with `FSD `. -/
def FsdAnswer (upsname var text : CStr) : Prop :=
  (∃ err, text = errText err) ∨ ∃ val, text = varLine "VAR".toList upsname var ("FSD ".toList ++ val)

/-- An error, the frame of the list, or the line of a variable, where the value of `ups.status` begins with `FSD `. -/
def FsdItem (upsname text : CStr) : Prop :=
  (∃ err, text = errText err) ∨ text = "BEGIN LIST VAR ".toList ++ upsname ++ "\n".toList ∨
    text = "END LIST VAR ".toList ++ upsname ++ "\n".toList ∨
      ∃ var val, text = varLine "VAR".toList upsname var val ∧
        (strcasecmp var "ups.status".toList = .eq → "FSD ".toList <+: val)

theorem sendErr_told (w : Writes) (s : Upsd) (fd : Nat) (err : CStr) :
    ∃ lost, sendErr w s fd err = s.told fd [answer (errText err)] lost := ⟨_, by rw [sendErr, sendback_eq]; rfl⟩

theorem fsdAnswer_getVar (w : Writes) {s : Upsd} (fd : Nat) {upsname var : CStr} {ups : Upstype}
    (hups : getUpsPtr s upsname = some ups) (hfsd : ups.fsd = true) (hvar : strcasecmp var "ups.status".toList = .eq) :
    ∃ text lost, getVar w s fd upsname var = s.told fd [answer text] lost ∧ FsdAnswer upsname var text := by
  have hserver : strcasecmp (var.take 7) "server.".toList ≠ .eq := by
    rw [ne_eq, strcasecmp_eq] at *
    unfold tolower at hvar ⊢
    rw [List.map_take, hvar]
    decide
  rcases @getVar_eq w s fd upsname var ups hups hserver with ⟨err, h⟩ | ⟨val, -, -, h⟩
  · obtain ⟨lost, herr⟩ := sendErr_told w s fd err
    exact ⟨_, lost, h.trans herr, .inl ⟨err, rfl⟩⟩
  · rw [servedVal, if_pos ⟨hvar, hfsd⟩] at h
    exact ⟨_, _, h.trans (by rw [sendback_eq]), .inr ⟨val, rfl⟩⟩

theorem fsdItem_listVar (w : Writes) {s : Upsd} (fd : Nat) {upsname : CStr} {ups : Upstype}
    (hups : getUpsPtr s upsname = some ups) (hfsd : ups.fsd = true) :
    ∃ (texts : List CStr) (lost : Bool), listVar w s fd upsname = s.told fd (texts.map answer) lost ∧ ∀ text ∈ texts, FsdItem upsname text := by
  by_cases havail : ups.Available
  · obtain ⟨n, lost, h⟩ := sendEach_told w s fd (listTexts ("VAR ".toList ++ upsname)
      (ups.inforoot.walk.flatMap (nodeTexts upsname false ups.fsd)) ("VAR ".toList ++ upsname))
    refine ⟨_, lost, (listVar_eq hups havail).trans h, fun text htext => ?_⟩
    have hmem := List.mem_of_mem_take htext
    rw [listTexts, List.mem_append, List.mem_cons, List.mem_singleton, List.mem_flatMap] at hmem
    rcases hmem with (rfl | ⟨node, -, hnode⟩) | rfl
    · exact .inr (.inl rfl)
    · rw [nodeTexts, if_neg (by simp), List.mem_singleton] at hnode
      refine .inr (.inr (.inr ⟨node.var, _, hnode, fun hstatus => ?_⟩))
      rw [servedVal, if_pos ⟨hstatus, hfsd⟩]
      exact List.prefix_append _ _
    · exact .inr (.inr (.inl rfl))
  · obtain ⟨err, herr⟩ := withUps_of_not_available hups havail w fd
    obtain ⟨lost, h⟩ := sendErr_told w s fd err
    refine ⟨[errText err], lost, (herr _).trans h, fun text htext => ?_⟩
    exact .inl ⟨err, List.mem_singleton.1 htext⟩

/-- Once the FSD flag of a UPS is set, and as long as the UPS is configured, the values of `ups.status` that the server
sends for it begin with `FSD `. -/
theorem fsd_latched {s t : Upsd} (hs : s.Stage) {ups : Upstype} (hups : ups ∈ s.firstups) (hfsd : ups.fsd = true)
    (hkeeps : Upsd.Keeps ups.name s t) : ∃ ups' ∈ t.firstups, ups'.name = ups.name ∧
      ∀ (w : Writes) (client : NutCtype) (args : List CStr) (type upsname : CStr),
        getUpsPtr t upsname = some ups' → strcasecmp type "VAR".toList = .eq →
          (∀ var rest, Asks args "GET".toList (type :: upsname :: var :: rest) →
            strcasecmp var "ups.status".toList = .eq → ∃ text lost,
              parseNet w t client args = t.told client.sockFd [answer text] lost ∧ FsdAnswer upsname var text) ∧
          ∀ rest, Asks args "LIST".toList (type :: upsname :: rest) → ∃ (texts : List CStr) (lost : Bool),
            parseNet w t client args = t.told client.sockFd (texts.map answer) lost ∧
              ∀ text ∈ texts, FsdItem upsname text := by
  obtain ⟨ups', hups', hname, hfsd'⟩ := Latched.keeps hs ⟨ups, hups, rfl, hfsd⟩ hkeeps
  refine ⟨ups', hups', hname, fun w client args type upsname hptr htype => ⟨?_, ?_⟩⟩
  · intro var rest hasks hvar
    rw [parseNet_get hasks, netGet_var htype]
    exact fsdAnswer_getVar w client.sockFd hptr hfsd' hvar
  · intro rest hasks
    rw [parseNet_list hasks, netList_var htype]
    exact fsdItem_listVar w client.sockFd hptr hfsd'

/-- The master has forced the shutdown of its UPS. -/
def fsdServer : Upsd := loggedInServer.enter ["FSD".toList, "u".toList]

/-- The driver has gone away and has been connected again. -/
def reconnectedServer : Upsd :=
  (fsdServer.run [.driverHup "u".toList, .scan 101 oneDriver allWritten]).getD fsdServer

def reconnectedClient : NutCtype :=
  (reconnectedServer.client 7).getD ⟨[], 7, 0, none, none, none, pconfInit, []⟩

theorem fsd_latched_reconnected : ∃ text lost,
    parseNet allWritten reconnectedServer reconnectedClient
        ["get".toList, "var".toList, "U".toList, "UPS.Status".toList] =
      reconnectedServer.told reconnectedClient.sockFd [answer text] lost ∧
        FsdAnswer "U".toList "UPS.Status".toList text := by
  have hkeeps : Upsd.Keeps "u".toList fsdServer reconnectedServer :=
    (Upsd.Keeps.refl.step (.event (.driverHup "u".toList) rfl) (by decide +kernel)).step
      (.event (.scan 101 oneDriver allWritten) (by decide +kernel)) (by decide +kernel)
  have hstage : fsdServer.Stage := stage_loggedInServer.enter _
  obtain ⟨ups', hups', hname, h⟩ := @fsd_latched fsdServer reconnectedServer hstage
    (fsdServer.firstups.headD (newUps [] [] none)) (by decide +kernel) (by decide +kernel) hkeeps
  have hu : ups'.name = "u".toList := hname.trans (by decide +kernel)
  have hptr : getUpsPtr reconnectedServer "U".toList = some ups' :=
    (hkeeps.stage hstage).uniqueNames.getUpsPtr hups' (by rw [hu]; decide)
  exact (h allWritten reconnectedClient _ "var".toList "U".toList hptr (by decide)).1 "UPS.Status".toList []
    ⟨"get".toList, rfl, by decide⟩ (by decide)

end Nut
