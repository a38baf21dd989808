import Mathlib.Data.List.Induction
import Mathlib.Data.List.Pairwise
import Mathlib.Logic.Relation
import Nut.Server.Effects
import Nut.Server.Mainloop

/-!
# The moves of the server

Every event of `mainloop`, and every line of a client, is a sequence of a few moves (`Does.moves`): a record of a UPS
changes without its name, its logins and its FSD flag, a client changes without its login, someone logs in, a connection
ends, and so on.  What holds in the state before the configuration is read and is kept by every move holds in every
reachable state (`Upsd.Stage.invariant`).
-/

namespace Nut

open Relation

/-- The records agree in the name, the logins and the FSD flag. -/
structure SameUps (ups ups' : Upstype) : Prop where
  name : ups'.name = ups.name
  numlogins : ups'.numlogins = ups.numlogins
  fsd : ups'.fsd = ups.fsd

/-- `adds` and `dels` say whether it may be the addition or the removal of a UPS. -/
inductive Move (adds dels : Prop) : Upsd → Upsd → Prop
  | upses {s : Upsd} {upses : List Upstype} (h : List.Forall₂ SameUps s.firstups upses) :
      Move adds dels s { s with firstups := upses }
  | client {s : Upsd} (fd : Nat) (f : NutCtype → NutCtype)
      (h : ∀ client, (f client).sockFd = client.sockFd ∧ (f client).loginups = client.loginups) :
      Move adds dels s (s.modifyClient fd f)
  | login {s : Upsd} {client : NutCtype} {ups : Upstype} (hclient : s.client client.sockFd = some client)
      (hups : ups ∈ s.firstups) (hnone : client.loginups = none) : Move adds dels s (loggedIn s client.sockFd ups)
  | fsd {s : Upsd} {ups : Upstype} (hups : ups ∈ s.firstups) :
      Move adds dels s (s.modifyUps ups.name fun ups => { ups with fsd := true })
  | disconnect {s : Upsd} (fd : Nat) : Move adds dels s (clientDisconnect s fd)
  | connect {s : Upsd} (now : Int) (fd : Nat) (addr : CStr) (h : s.client fd = none) :
      Move adds dels s (clientConnect now s fd addr)
  | create {s : Upsd} (hadds : adds) (ups : Upstype) (hnew : ∀ temp ∈ s.firstups, strcasecmp temp.name ups.name ≠ .eq)
      (hlogins : ups.numlogins = 0) : Move adds dels s { s with firstups := ups :: s.firstups }
  | delete {s : Upsd} (hdels : dels) (name : CStr) (hlogins : ∀ client ∈ s.firstclient, client.loginups ≠ some name) :
      Move adds dels s { s with firstups := s.firstups.filter fun ups => ups.name ≠ name }
  | users {s : Upsd} (lines : List (List CStr)) : Move adds dels s { s with users := (userLoad lines).users }
  | limits {s : Upsd} (maxage maxconn : Int) : Move adds dels s { s with maxage := maxage, maxconn := maxconn }

abbrev Moved (adds dels : Prop) : Upsd → Upsd → Prop := ReflTransGen (Move adds dels)

variable {adds dels : Prop}

/-! ### Records of UPSes -/

theorem SameUps.refl (ups : Upstype) : SameUps ups ups := ⟨rfl, rfl, rfl⟩

theorem SameUps.trans {ups ups' ups'' : Upstype} (h : SameUps ups ups') (h' : SameUps ups' ups'') : SameUps ups ups'' :=
  ⟨h'.name.trans h.name, h'.numlogins.trans h.numlogins, h'.fsd.trans h.fsd⟩

private theorem forall₂_map_sameUps {f : Upstype → Upstype} {upses : List Upstype} (h : ∀ ups ∈ upses, SameUps ups (f ups)) :
    List.Forall₂ SameUps upses (upses.map f) := by
  rw [List.forall₂_map_right_iff, List.forall₂_same]
  exact h

/-- A change of the records that `f` describes. -/
theorem Move.map {s : Upsd} {f : Upstype → Upstype} (h : ∀ ups ∈ s.firstups, SameUps ups (f ups)) :
    Move adds dels s { s with firstups := s.firstups.map f } := .upses (forall₂_map_sameUps h)

theorem Move.modifyUps {s : Upsd} (name : CStr) {f : Upstype → Upstype}
    (h : ∀ ups ∈ s.firstups, ups.name = name → SameUps ups (f ups)) : Move adds dels s (s.modifyUps name f) := by
  refine Move.map fun ups hups => ?_
  split_ifs with hname
  · exact h ups hups hname
  · exact .refl ups

theorem sameUps_sstateDisconnect (ups : Upstype) : SameUps ups (sstateDisconnect ups) := by
  unfold sstateDisconnect
  split
  · exact .refl ups
  · exact ⟨rfl, rfl, rfl⟩

theorem sameUps_sendping (now : Int) (ok : Bool) (ups : Upstype) : SameUps ups (sendping now ok ups) := by
  unfold sendping
  split
  · exact .refl ups
  · dsimp only
    split_ifs
    · exact ⟨rfl, rfl, rfl⟩
    · refine SameUps.trans ?_ (sameUps_sstateDisconnect _)
      exact ⟨rfl, rfl, rfl⟩

theorem sameUps_sstateDead (now : Int) (ok : Bool) (ups : Upstype) (maxage : Int) :
    SameUps ups (sstateDead now ok ups maxage).1 := by
  unfold sstateDead
  split
  · exact .refl ups
  · split
    · exact .refl ups
    · dsimp only
      split_ifs
      · exact sameUps_sendping now ok ups
      · exact .refl ups

theorem sameUps_sstateConnect (now : Int) (ups : Upstype) (result : ConnectResult) :
    SameUps ups (sstateConnect now ups result).1 := by
  cases result with
  | refused =>
    unfold sstateConnect
    dsimp only
    split_ifs
    · exact .refl ups
    · exact ⟨rfl, rfl, rfl⟩
  | noSocket => exact .refl ups
  | fcntlFailed => exact .refl ups
  | writeFailed => exact ⟨rfl, rfl, rfl⟩
  | ok fd => exact ⟨rfl, rfl, rfl⟩

theorem sameUps_sstateSendline (ok : Bool) (ups : Upstype) (buf : CStr) : SameUps ups (sstateSendline ok ups buf).1 := by
  unfold sstateSendline
  split
  · exact .refl ups
  · dsimp only
    split_ifs
    · exact ⟨rfl, rfl, rfl⟩
    · refine SameUps.trans ?_ (sameUps_sstateDisconnect _)
      exact ⟨rfl, rfl, rfl⟩

/-- What a line of the driver can change. -/
structure LineChange (numargs : Nat) (arg : List CStr) (ups ups' : Upstype) : Prop where
  mirror : ups' = { ups with
    dumpdone := ups'.dumpdone, dataOk := ups'.dataOk, cmdlist := ups'.cmdlist, inforoot := ups'.inforoot }
  dumpdone : ups.dumpdone = true → ups'.dumpdone = true
  dataOk : ups'.dataOk = true → ups.dataOk = true ∨ 1 ≤ numargs ∧ strcasecmp (arg.getD 0 []) "DATAOK".toList = .eq

/-- A result of `parseArgs` that is allowed by `LineChange`. -/
private def LineRes (numargs : Nat) (arg : List CStr) (ups : Upstype) (r : Option (Upstype × Bool)) : Prop :=
  ∀ u ∈ r, LineChange numargs arg ups u.1

section Line

variable {numargs : Nat} {arg : List CStr} {ups : Upstype}

private theorem lineRes_ite {c : Prop} [Decidable c] {a b : Option (Upstype × Bool)}
    (ha : c → LineRes numargs arg ups a) (hb : ¬c → LineRes numargs arg ups b) :
    LineRes numargs arg ups (if c then a else b) := by
  split
  · exact ha ‹_›
  · exact hb ‹_›

private theorem lineRes_some {ups' : Upstype} {ok : Bool} (h : LineChange numargs arg ups ups') :
    LineRes numargs arg ups (some (ups', ok)) := by
  rintro _ ⟨⟩
  exact h

private theorem lineRes_map {o : Option CStr} {f : CStr → Upstype × Bool} (h : ∀ c, LineChange numargs arg ups (f c).1) :
    LineRes numargs arg ups (o.map f) := by
  intro u hu
  obtain ⟨c, -, rfl⟩ := Option.mem_map.1 hu
  exact h c

private theorem lineChange_mirror (cmdlist : List CStr) (inforoot : StTree) :
    LineChange numargs arg ups { ups with cmdlist := cmdlist, inforoot := inforoot } := ⟨rfl, id, .inl⟩

/-- A line of the driver changes the variables, the commands and two flags; only `DATAOK` sets `data_ok`, and no line
takes `dumpdone` back. -/
theorem lineChange_parseArgs {ups' : Upstype} {ok : Bool} (h : parseArgs ups numargs arg = some (ups', ok)) :
    LineChange numargs arg ups ups' := by
  have hsame (ok : Bool) : LineRes numargs arg ups (some (ups, ok)) := lineRes_some ⟨rfl, id, .inl⟩
  have hmirror (cmdlist : List CStr) (inforoot : StTree) (ok : Bool) :
      LineRes numargs arg ups (some ({ ups with cmdlist := cmdlist, inforoot := inforoot }, ok)) :=
    lineRes_some (lineChange_mirror cmdlist inforoot)
  suffices hall : LineRes numargs arg ups (parseArgs ups numargs arg) from hall (ups', ok) h
  unfold parseArgs
  refine lineRes_ite (fun _ => hsame _) fun h1 => lineRes_ite (fun _ => hsame _) fun _ => ?_
  refine lineRes_ite (fun _ => lineRes_some ⟨rfl, fun _ => rfl, .inl⟩) fun _ => ?_
  refine lineRes_ite (fun _ => lineRes_some ⟨rfl, id, fun h => by simp at h⟩) fun _ => ?_
  refine lineRes_ite (fun hok => lineRes_some ⟨rfl, id, fun _ => .inr ⟨by omega, hok⟩⟩) fun _ => ?_
  refine lineRes_ite (fun _ => hsame _) fun _ => lineRes_ite (fun _ => hmirror _ _ _) fun _ => ?_
  refine lineRes_ite (fun _ => hmirror _ _ _) fun _ => lineRes_ite (fun _ => hmirror _ _ _) fun _ => ?_
  refine lineRes_ite (fun _ => hsame _) fun _ => lineRes_ite (fun _ => hmirror _ _ _) fun _ => ?_
  refine lineRes_ite (fun _ => hmirror _ _ _) fun _ => lineRes_ite (fun _ => hmirror _ _ _) fun _ => ?_
  refine lineRes_ite (fun _ => lineRes_map fun _ => lineChange_mirror _ _) fun _ => ?_
  refine lineRes_ite (fun _ => hmirror _ _ _) fun _ => ?_
  refine lineRes_ite (fun _ => lineRes_map fun _ => lineChange_mirror _ _) fun _ => ?_
  exact lineRes_ite (fun _ => hmirror _ _ _) fun _ => hsame _

end Line

theorem LineChange.sameUps {numargs : Nat} {arg : List CStr} {ups ups' : Upstype} (h : LineChange numargs arg ups ups') :
    SameUps ups ups' := by
  rw [h.mirror]
  exact ⟨rfl, rfl, rfl⟩

/-- What the lines of a driver keep, the bytes of one `read` keep. -/
theorem sstateLines_invariant {P : Upstype → Prop} {now : Int} (lines : List (Nat × List CStr)) {ups ups' : Upstype}
    (hstep : ∀ line ∈ lines, ∀ (ups ups' : Upstype) (ok : Bool), P ups → parseArgs ups line.1 line.2 = some (ups', ok) →
      P (if ok then { ups' with lastHeard := now } else ups'))
    (hups : P ups) (h : lines.foldl (fun s l => sstateLine now s l.1 l.2) (some ups) = some ups') : P ups' := by
  induction lines using List.reverseRecOn generalizing ups' with
  | nil => exact Option.some.inj h ▸ hups
  | append_singleton lines line ih =>
    rw [List.foldl_append, List.foldl_cons, List.foldl_nil, sstateLine, Option.bind_eq_some_iff] at h
    obtain ⟨mid, hmid, hline⟩ := h
    obtain ⟨⟨ups1, ok⟩, hargs, rfl⟩ := Option.map_eq_some_iff.1 hline
    have hP : P mid := ih (fun l hl => hstep l (List.mem_append_left _ hl)) hmid
    exact hstep line (by simp) _ _ _ hP hargs

theorem sameUps_sstateReadline {now : Int} {ups ups' : Upstype} {ret : ReadResult}
    (h : sstateReadline now ups ret = some ups') : SameUps ups ups' := by
  unfold sstateReadline at h
  split at h
  · exact Option.some.inj h ▸ .refl ups
  · split at h
    · exact Option.some.inj h ▸ .refl ups
    · exact Option.some.inj h ▸ sameUps_sstateDisconnect ups
    · rw [readLoop_eq] at h
      obtain ⟨ups1, hlines, rfl⟩ := Option.map_eq_some_iff.1 h
      refine @SameUps.trans _ ups1 _ ?_ ⟨rfl, rfl, rfl⟩
      refine sstateLines_invariant (P := SameUps ups) _ (fun line _ u u' ok hu hargs => ?_) (.refl ups) hlines
      have hargs' := hu.trans (lineChange_parseArgs hargs).sameUps
      split_ifs
      · exact ⟨hargs'.name, hargs'.numlogins, hargs'.fsd⟩
      · exact hargs'

theorem forall₂_scanUpses (c : Connects) (w : Writes) (maxage maxconn nfds : Int) (upses : List Upstype) :
    List.Forall₂ SameUps upses (scanUpses c w maxage maxconn nfds upses) := by
  induction upses generalizing nfds with
  | nil => exact .nil
  | cons ups rest ih =>
    unfold scanUpses
    split
    · split
      · refine .cons ?_ (ih nfds)
        have h := sameUps_sstateConnect c.now ups (c.result ups.name)
        exact ⟨h.name, h.numlogins, h.fsd⟩
      · refine .cons ?_ (ih (nfds + 1))
        have h := sameUps_sstateDead c.now (w.driver ups.name ups.sent.length) ups maxage
        exact ⟨h.name, h.numlogins, h.fsd⟩
    · exact List.forall₂_same.2 fun ups _ => .refl ups

/-! ### Clients -/

theorem client_eq_some {s : Upsd} {fd : Nat} {client : NutCtype} (h : s.client fd = some client) :
    client ∈ s.firstclient ∧ client.sockFd = fd :=
  ⟨List.mem_of_find?_eq_some h, by simpa using List.find?_some h⟩

theorem client_eq_none {s : Upsd} {fd : Nat} : s.client fd = none ↔ ∀ client ∈ s.firstclient, client.sockFd ≠ fd := by
  simp [Upsd.client]

@[simp] theorem declogins_firstclient (s : Upsd) (upsname : CStr) :
    (declogins s upsname).firstclient = s.firstclient := by
  unfold declogins
  split <;> rfl

theorem clientDisconnect_firstclient (s : Upsd) (fd : Nat) :
    (clientDisconnect s fd).firstclient = s.firstclient.filter fun client => client.sockFd ≠ fd := by
  unfold clientDisconnect
  split
  · rename_i h
    exact (List.filter_eq_self.2 fun client hclient => by simpa using client_eq_none.1 h client hclient).symm
  · dsimp only
    split
    · rfl
    · rw [declogins_firstclient]

/-- Closing the connections of a list of clients, where `p` holds. -/
theorem disconnectEach_firstclient (p : NutCtype → Prop) [DecidablePred p] (clients : List NutCtype) (s : Upsd) :
    (clients.foldl (fun s client => if p client then clientDisconnect s client.sockFd else s) s).firstclient =
      s.firstclient.filter fun client => ∀ other ∈ clients, p other → client.sockFd ≠ other.sockFd := by
  induction clients generalizing s with
  | nil => simp
  | cons other clients ih =>
    rw [List.foldl_cons, ih]
    split_ifs with hp
    · rw [clientDisconnect_firstclient, List.filter_filter]
      refine List.filter_congr fun client _ => ?_
      simp only [List.forall_mem_cons, hp, forall_const, ← Bool.decide_and]
      exact decide_eq_decide.2 and_comm
    · refine List.filter_congr fun client _ => ?_
      simp only [List.forall_mem_cons, hp, false_implies, true_and]

theorem Moved.disconnectEach (p : NutCtype → Prop) [DecidablePred p] (clients : List NutCtype) (s : Upsd) :
    Moved adds dels s (clients.foldl (fun s client => if p client then clientDisconnect s client.sockFd else s) s) := by
  induction clients generalizing s with
  | nil => exact .refl
  | cons client clients ih =>
    rw [List.foldl_cons]
    refine ReflTransGen.trans ?_ (ih _)
    split_ifs
    · exact .single (.disconnect client.sockFd)
    · exact .refl

/-! ### Commands -/

theorem Tells.move {s s' : Upsd} {fd : Nat} (h : Tells fd s s') : Move adds dels s s' := by
  obtain ⟨bufs, lost, rfl⟩ := h
  exact .client fd _ fun client => ⟨rfl, rfl⟩

theorem move_sendToDriver (w : Writes) (s : Upsd) (ups : Upstype) (buf : CStr) : Move adds dels s (sendToDriver w s ups buf).1 :=
  Move.modifyUps ups.name fun ups _ _ => sameUps_sstateSendline _ ups buf

theorem Effect.moves {w : Writes} {s s' : Upsd} {client : NutCtype} {args : List CStr} (h : Effect w s client args s')
    (hclient : s.client client.sockFd = some client) : Moved adds dels s s' := by
  cases h with
  | nothing => exact .refl
  | username un => exact .single (.client client.sockFd _ fun client => ⟨rfl, rfl⟩)
  | password pw => exact .single (.client client.sockFd _ fun client => ⟨rfl, rfl⟩)
  | login _ hups hnone => exact .single (.login hclient (mem_of_getUpsPtr hups) hnone)
  | fsd _ hups => exact .single (.fsd (mem_of_getUpsPtr hups))
  | set => exact .single (move_sendToDriver ..)
  | instcmd => exact .single (move_sendToDriver ..)

theorem moves_parseNet (w : Writes) {s : Upsd} {client : NutCtype} (hclient : s.client client.sockFd = some client)
    (args : List CStr) : Moved adds dels s (parseNet w s client args) := by
  obtain ⟨s1, heffect, htells⟩ := parseNet_effect w s client args
  exact (heffect.moves hclient).tail htells.move

theorem moves_netLine (now : Int) (w : Writes) (fd : Nat) (s : Upsd) (numargs : Nat) (arglist : List CStr) :
    Moved adds dels s (netLine now w fd s numargs arglist) := by
  have hheard : Move adds dels s (s.modifyClient fd fun client => { client with lastHeard := now }) :=
    .client fd _ fun client => ⟨rfl, rfl⟩
  refine .head hheard ?_
  unfold netLine
  dsimp only
  split
  · exact .refl
  · rename_i client hclient
    obtain rfl := (client_eq_some hclient).2
    exact moves_parseNet w hclient _

theorem moves_clientReadline (now : Int) (w : Writes) (s : Upsd) (fd : Nat) (buf : Option CStr) :
    Moved adds dels s (clientReadline now w s fd buf) := by
  have hlines (lines : List (Nat × List CStr)) (s : Upsd) :
      Moved adds dels s (lines.foldl (fun s l => netLine now w fd s l.1 l.2) s) := by
    induction lines generalizing s with
    | nil => exact .refl
    | cons line lines ih => exact (moves_netLine now w fd s line.1 line.2).trans (ih _)
  unfold clientReadline
  split
  · exact .single (.disconnect fd)
  · exact .single (.disconnect fd)
  · exact .refl
  · rw [readLoop_eq]
    exact (hlines _ s).tail (.client fd _ fun client => ⟨rfl, rfl⟩)

/-! ### Reloading -/

theorem moves_upsCreate (c : Connects) (s : Upsd) (fn name : CStr) (desc : Option CStr) :
    Moved True dels s (upsCreate c s fn name desc) := by
  unfold upsCreate
  split
  · exact .refl
  · rename_i hnew
    have hsame := sameUps_sstateConnect c.now (newUps fn name desc) (c.result name)
    rcases hconnect : sstateConnect c.now (newUps fn name desc) (c.result name) with ⟨temp, fd⟩
    rw [hconnect] at hsame
    refine .single (.create trivial { temp with sockFd := fd, lastHeard := c.now } (fun other hother => ?_) hsame.numlogins)
    have hname : temp.name = name := hsame.name
    simp only [List.any_eq_true, decide_eq_true_eq, not_exists, not_and] at hnew
    dsimp only
    rw [hname]
    exact hnew other hother

theorem moves_upsUpdate (s : Upsd) (fn name : CStr) (desc : Option CStr) : Moved adds dels s (upsUpdate s fn name desc) := by
  unfold upsUpdate
  split
  · exact .refl
  · refine .single (Move.modifyUps _ fun ups _ _ => ?_)
    dsimp only
    split_ifs <;> exact ⟨rfl, rfl, rfl⟩

theorem moves_upsconfAdd (c : Connects) (reloading : Bool) (s : Upsd) (upstable : List UpsT) :
    Moved True dels s (upsconfAdd c reloading s upstable) := by
  unfold upsconfAdd
  induction upstable generalizing s with
  | nil => exact .refl
  | cons tmp upstable ih =>
    refine ReflTransGen.trans ?_ (ih _)
    unfold upsconfAddOne
    split
    · dsimp only
      split_ifs
      · exact moves_upsUpdate ..
      · exact moves_upsCreate ..
    · exact .refl

theorem moves_loadUpsdconf (s : Upsd) (lines : List (List CStr)) : Moved adds dels s (loadUpsdconf s lines) := by
  unfold loadUpsdconf
  induction lines generalizing s with
  | nil => exact .refl
  | cons line lines ih =>
    refine ReflTransGen.trans ?_ (ih _)
    unfold parseUpsdConfArgs
    split
    · split_ifs
      · exact .single (.limits _ s.maxconn)
      · exact .single (.limits s.maxage _)
      · exact .refl
    · exact .refl

/-- No client is left that is logged into the UPS. -/
theorem kickLoginClients_loginups {s : Upsd} {upsname : CStr} :
    ∀ client ∈ (kickLoginClients s upsname).firstclient, client.loginups ≠ some upsname := by
  intro client hclient hlogin
  unfold kickLoginClients at hclient
  rw [disconnectEach_firstclient, List.mem_filter, decide_eq_true_eq] at hclient
  exact hclient.2 client hclient.1 hlogin rfl

theorem moves_deleteUnretained (s : Upsd) : Moved adds True s (deleteUnretained s) := by
  have hall (upses : List Upstype) (s : Upsd) :
      Moved adds True s (upses.foldl (fun s ups => if ups.retain then s else deleteUps s ups) s) := by
    induction upses generalizing s with
    | nil => exact .refl
    | cons ups upses ih =>
      refine ReflTransGen.trans ?_ (ih _)
      dsimp only
      split_ifs
      · exact .refl
      · exact (Moved.disconnectEach _ _ s).tail (.delete trivial ups.name kickLoginClients_loginups)
  exact hall _ s

/-- A reload adds UPSes first, and then removes some. -/
theorem moves_confReload {c : Connects} {s s' : Upsd} {files : Files} (h : confReload c s files = some s') :
    ∃ mid, Moved True False s mid ∧ Moved False True mid s' := by
  unfold confReload at h
  split at h
  · exact ⟨s, .refl, Option.some.inj h ▸ .refl⟩
  · simp at h
  · rename_i upsdConf _ _ _
    obtain ⟨upstable, -, h⟩ := Option.bind_eq_some_iff.1 h
    have hretain : Moved True False s { s with firstups := s.firstups.map fun ups => { ups with retain := false } } :=
      .single (Move.map fun ups _ => ⟨rfl, rfl, rfl⟩)
    have hdelete (s : Upsd) : Moved False True s (deleteUnretained (loadUpsdconf s upsdConf)) :=
      (moves_loadUpsdconf s upsdConf).trans (moves_deleteUnretained _)
    refine ⟨_, hretain.trans (moves_upsconfAdd c true _ upstable), ?_⟩
    split at h
    · exact Option.some.inj h ▸ hdelete _
    · exact Option.some.inj h ▸ (hdelete _).tail (.users _)

/-! ### Runs -/

theorem moves_scan (now : Int) (c : Connects) (w : Writes) (s : Upsd) : Moved adds dels s (scan now c w s) :=
  .head (.upses (forall₂_scanUpses c w s.maxage s.maxconn 0 s.firstups)) (Moved.disconnectEach _ _ _)

/-- No two UPSes have the same name, in lower case. -/
def UniqueNames (s : Upsd) : Prop := s.firstups.Pairwise fun ups ups' => strcasecmp ups.name ups'.name ≠ .eq

private instance : Std.Symm fun ups ups' : Upstype => strcasecmp ups.name ups'.name ≠ .eq :=
  ⟨fun _ _ h h' => h (strcasecmp_eq.2 (strcasecmp_eq.1 h').symm)⟩

theorem UniqueNames.eq {s : Upsd} (hs : UniqueNames s) {ups ups' : Upstype} (hups : ups ∈ s.firstups)
    (hups' : ups' ∈ s.firstups) (hname : strcasecmp ups.name ups'.name = .eq) : ups = ups' := by
  by_contra hne
  exact hs.forall hups hups' hne hname

theorem UniqueNames.getUpsPtr {s : Upsd} (hs : UniqueNames s) {ups : Upstype} (hups : ups ∈ s.firstups) {name : CStr}
    (hname : strcasecmp ups.name name = .eq) : getUpsPtr s name = some ups := by
  cases h : Nut.getUpsPtr s name with
  | none =>
    have hall := List.find?_eq_none.1 h ups hups
    simp [hname] at hall
  | some ups' =>
    have hname' : strcasecmp ups'.name name = .eq := by simpa using List.find?_some h
    rw [strcasecmp_eq] at hname hname'
    rw [hs.eq (mem_of_getUpsPtr h) hups (strcasecmp_eq.2 (hname'.trans hname.symm))]

/-- What the server does at once: an event of `mainloop`, or a line of a client. -/
inductive Does (s : Upsd) : Upsd → Prop
  | event {s' : Upsd} (e : Event) (h : s.step e = some s') : Does s s'
  | line (now : Int) (w : Writes) (fd numargs : Nat) (arglist : List CStr) : Does s (netLine now w fd s numargs arglist)

theorem Does.moves {s s' : Upsd} (hs : UniqueNames s) (h : Does s s') :
    ∃ mid, Moved True False s mid ∧ Moved False True mid s' := by
  cases h with
  | line => exact ⟨s, .refl, moves_netLine ..⟩
  | event e h =>
    cases e with
    | reload c files => exact moves_confReload (step_reload.1 h).1
    | scan now c w => exact ⟨s, .refl, Option.some.inj h ▸ moves_scan now c w s⟩
    | driver name now ret =>
      simp only [Upsd.step] at h
      refine ⟨s, .refl, ?_⟩
      split at h
      · exact Option.some.inj h ▸ .refl
      · rename_i ups hups
        obtain ⟨ups', hread, rfl⟩ := Option.map_eq_some_iff.1 h
        refine .single (Move.modifyUps name fun other hother hname => ?_)
        have hfound : ups ∈ s.firstups ∧ ups.name = name :=
          ⟨List.mem_of_find?_eq_some hups, by simpa using List.find?_some hups⟩
        obtain rfl := hs.eq hother hfound.1 (by rw [hname, hfound.2, strcasecmp_self])
        exact sameUps_sstateReadline hread
    | driverHup name =>
      have hsame : Move False True s (s.modifyUps name sstateDisconnect) :=
        Move.modifyUps name fun ups _ _ => sameUps_sstateDisconnect ups
      exact ⟨s, .refl, Option.some.inj h ▸ .single hsame⟩
    | client fd now w buf => exact ⟨s, .refl, Option.some.inj h ▸ moves_clientReadline ..⟩
    | clientHup fd => exact ⟨s, .refl, Option.some.inj h ▸ .single (.disconnect fd)⟩
    | accept fd now addr =>
      simp only [Upsd.step] at h
      split at h
      · rename_i hfree
        exact ⟨s, .refl, Option.some.inj h ▸ .single (.connect now fd addr hfree)⟩
      · simp at h

theorem Move.mono {s s' : Upsd} (h : Move adds dels s s') : Move True True s s' := by
  cases h with
  | upses h => exact .upses h
  | client fd f h => exact .client fd f h
  | login hclient hups hnone => exact .login hclient hups hnone
  | fsd hups => exact .fsd hups
  | disconnect fd => exact .disconnect fd
  | connect now fd addr h => exact .connect now fd addr h
  | create _ ups hnew hlogins => exact .create trivial ups hnew hlogins
  | delete _ name hlogins => exact .delete trivial name hlogins
  | users lines => exact .users lines
  | limits maxage maxconn => exact .limits maxage maxconn

theorem Moved.mono {s s' : Upsd} (h : Moved adds dels s s') : Moved True True s s' := by
  induction h with
  | refl => exact .refl
  | tail _ h ih => exact ih.tail h.mono

theorem names_of_forall₂ {upses upses' : List Upstype} (h : List.Forall₂ SameUps upses upses') :
    upses'.map Upstype.name = upses.map Upstype.name := by
  induction h with
  | nil => rfl
  | cons hups _ ih => rw [List.map_cons, List.map_cons, hups.name, ih]

theorem exists_of_forall₂ {upses upses' : List Upstype} (h : List.Forall₂ SameUps upses upses') {ups' : Upstype}
    (hups' : ups' ∈ upses') : ∃ ups ∈ upses, SameUps ups ups' := by
  induction h with
  | nil => simp at hups'
  | cons hsame _ ih =>
    rcases List.mem_cons.1 hups' with rfl | hups'
    · exact ⟨_, List.mem_cons_self, hsame⟩
    · obtain ⟨ups, hups, hsame⟩ := ih hups'
      exact ⟨ups, List.mem_cons_of_mem _ hups, hsame⟩

theorem names_modifyUps (s : Upsd) (name : CStr) {f : Upstype → Upstype} (hf : ∀ ups, (f ups).name = ups.name) :
    (s.modifyUps name f).firstups.map Upstype.name = s.firstups.map Upstype.name := by
  unfold Upsd.modifyUps
  rw [List.map_map]
  refine List.map_congr_left fun ups _ => ?_
  rw [Function.comp_apply]
  split_ifs
  · exact hf ups
  · rfl

theorem names_clientDisconnect (s : Upsd) (fd : Nat) :
    (clientDisconnect s fd).firstups.map Upstype.name = s.firstups.map Upstype.name := by
  unfold clientDisconnect
  split
  · rfl
  · dsimp only
    split
    · rfl
    · unfold declogins
      split
      · rfl
      · exact names_modifyUps s _ fun ups => rfl

/-- Moves that neither add nor remove a UPS keep the names. -/
theorem names_moves {s s' : Upsd} (h : Moved False False s s') :
    s'.firstups.map Upstype.name = s.firstups.map Upstype.name := by
  induction h with
  | refl => rfl
  | tail _ h ih =>
    refine Eq.trans ?_ ih
    cases h with
    | upses h => exact names_of_forall₂ h
    | login => exact names_modifyUps _ _ fun ups => rfl
    | fsd => exact names_modifyUps _ _ fun ups => rfl
    | disconnect fd => exact names_clientDisconnect _ fd
    | create hadds => exact hadds.elim
    | delete hdels => exact hdels.elim
    | client | connect | users | limits => rfl

theorem UniqueNames.of_names {s s' : Upsd} (hs : UniqueNames s)
    (h : s'.firstups.map Upstype.name = s.firstups.map Upstype.name) : UniqueNames s' := by
  have hpairwise : (s.firstups.map Upstype.name).Pairwise fun name name' => strcasecmp name name' ≠ .eq :=
    List.pairwise_map.2 hs
  rw [← h] at hpairwise
  exact List.pairwise_map.1 hpairwise

theorem UniqueNames.move {s s' : Upsd} (hs : UniqueNames s) (h : Move adds dels s s') : UniqueNames s' := by
  cases h with
  | upses h => exact hs.of_names (names_of_forall₂ h)
  | client | connect | users | limits => exact hs
  | login => exact hs.of_names (names_modifyUps s _ fun ups => rfl)
  | fsd => exact hs.of_names (names_modifyUps s _ fun ups => rfl)
  | disconnect fd => exact hs.of_names (names_clientDisconnect s fd)
  | create _ ups hnew =>
    refine List.pairwise_cons.2 ⟨fun temp htemp h => hnew temp htemp ?_, hs⟩
    rw [strcasecmp_eq] at h ⊢
    exact h.symm
  | delete => exact hs.filter _

theorem UniqueNames.moves {s s' : Upsd} (hs : UniqueNames s) (h : Moved adds dels s s') : UniqueNames s' := by
  induction h with
  | refl => exact hs
  | tail _ h ih => exact ih.move h

/-- The states of a run, and those between the lines of a packet. -/
def Upsd.Stage : Upsd → Prop := Transition.Reach Started Does

theorem Upsd.Reachable.stage {s : Upsd} (h : s.Reachable) : s.Stage :=
  h.invariant (fun _ hs => .init hs) fun _ _ hs ⟨e, he⟩ => hs.step (.event e he)

theorem Upsd.Stage.run {s t : Upsd} (hs : s.Stage) {events : List Event} (h : s.run events = some t) : t.Stage := by
  induction events generalizing s with
  | nil => exact Option.some.inj h ▸ hs
  | cons e events ih =>
    rw [Upsd.run, List.foldlM_cons] at h
    obtain ⟨s', hstep, h⟩ := Option.bind_eq_some_iff.1 h
    exact ih (hs.step (.event e hstep)) h

/-- Before the configuration of the drivers is read, there is no UPS and no client. -/
structure Upsd.Empty (s : Upsd) : Prop where
  firstups : s.firstups = []
  firstclient : s.firstclient = []
  users : ∃ lines, s.users = (userLoad lines).users

theorem moves_started {s : Upsd} (h : Started s) : ∃ s0, Upsd.Empty s0 ∧ Moved True dels s0 s := by
  obtain ⟨c, files, maxconn, cmdList, varList, upsVersion, h⟩ := h
  unfold upsdStart at h
  split at h
  · rename_i upsdConf _ _ _
    obtain ⟨upstable, -, h⟩ := Option.bind_eq_some_iff.1 h
    dsimp only at h
    split_ifs at h
    refine ⟨_, ⟨?_, ?_, ?_⟩, Option.some.inj h ▸ (moves_loadUpsdconf _ upsdConf).trans (moves_upsconfAdd c false _ upstable)⟩
    · rfl
    · rfl
    · exact ⟨_, rfl⟩
  · simp at h

/-- A server that runs has moved on from a state without UPSes and clients. -/
theorem Upsd.Stage.moves {s : Upsd} (h : s.Stage) : ∃ s0, Upsd.Empty s0 ∧ Moved True True s0 s := by
  have hunique {s0 s : Upsd} (hs0 : Upsd.Empty s0) (h : Moved True True s0 s) : UniqueNames s := by
    refine UniqueNames.moves ?_ h
    rw [UniqueNames, hs0.firstups]
    exact .nil
  refine @Transition.Reach.invariant _ _ _ _ (fun s => ∃ s0, Upsd.Empty s0 ∧ Moved True True s0 s) h
    (fun s hs => moves_started hs) fun s s' hs hstep => ?_
  obtain ⟨s0, hs0, hmoves⟩ := hs
  obtain ⟨mid, hmid, hmid'⟩ := hstep.moves (hunique hs0 hmoves)
  exact ⟨s0, hs0, hmoves.trans (hmid.mono.trans hmid'.mono)⟩

/-- What holds before the configuration is read, and is kept by every move, holds in every state of a run. -/
theorem Upsd.Stage.invariant {P : Upsd → Prop} {s : Upsd} (h : s.Stage) (hempty : ∀ s, Upsd.Empty s → P s)
    (hmove : ∀ s s', P s → Move True True s s' → P s') : P s := by
  obtain ⟨s0, hs0, hmoves⟩ := h.moves
  clear h
  induction hmoves with
  | refl => exact hempty _ hs0
  | tail _ h ih => exact hmove _ _ ih h

theorem Upsd.Stage.uniqueNames {s : Upsd} (h : s.Stage) : UniqueNames s := by
  refine h.invariant (fun s hs => ?_) fun s s' hs hmove => hs.move hmove
  rw [UniqueNames, hs.firstups]
  exact .nil

/-! ### A small server

It has one UPS, whose driver is connected, and one user, a master. -/

def oneUps : Files where
  upsdConf := some []
  upsConf := some [["[u]".toList], ["driver".toList, "=".toList, "d".toList], ["port".toList, "=".toList, "p".toList]]
  upsdUsers := some [["[a]".toList], ["password".toList, "=".toList, "b".toList], ["upsmon".toList, "master".toList]]

def oneDriver : Connects := ⟨100, fun _ => .ok 4, 256⟩

def allWritten : Writes := ⟨fun _ _ => true, fun _ _ => true, fun _ => true⟩

def oneUpsServer : Upsd :=
  (upsdStart oneDriver oneUps 256 [] [] "2.6".toList).getD ⟨[], [], [], 0, 0, [], [], []⟩

theorem started_oneUpsServer : Started oneUpsServer := ⟨oneDriver, oneUps, 256, [], [], "2.6".toList, by decide +kernel⟩

def oneClientServer : Upsd := clientConnect 100 oneUpsServer 7 "127.0.0.1".toList

/-- The words of a line from the client. -/
def Upsd.enter (s : Upsd) (words : List CStr) : Upsd := netLine 100 allWritten 7 s words.length words

/-- The user is logged into the UPS. -/
def loggedInServer : Upsd :=
  ((oneClientServer.enter ["USERNAME".toList, "a".toList]).enter ["PASSWORD".toList, "b".toList]).enter
    ["LOGIN".toList, "u".toList]

theorem stage_oneClientServer : oneClientServer.Stage :=
  (Transition.Reach.init started_oneUpsServer).step (.event (.accept 7 100 "127.0.0.1".toList) (by decide +kernel))

theorem Upsd.Stage.enter {s : Upsd} (h : s.Stage) (words : List CStr) : (s.enter words).Stage := h.step (.line ..)

theorem stage_loggedInServer : loggedInServer.Stage := ((stage_oneClientServer.enter _).enter _).enter _

end Nut
