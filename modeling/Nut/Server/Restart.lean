import Nut.Server.Logins

/-!
# A reload and a restart

A server that starts takes, of the complete definitions of a UPS, the one in the last section of the file, and refuses
the others; a reload works through all of them, and the first section has the last word.  Names are compared without
case there, and with case where the sections are collected, so a UPS can have several sections.  A reload leaves the table
that a restart would build exactly where they agree, and the UPSes that run are written as they were
(`server_restart_iff`).
-/

namespace Nut

/-- A complete definition of a UPS. -/
structure Definition where
  name : CStr
  fn : CStr
  desc : Option CStr
  deriving DecidableEq

def UpsT.definition (tmp : UpsT) : Option Definition :=
  match tmp.driver, tmp.port with
  | some driver, some _ => some ⟨tmp.upsname, snprintf smallbuf (driver ++ "-".toList ++ tmp.upsname), tmp.desc⟩
  | _, _ => none

/-- The complete definitions of the UPS, that of the last section first. -/
def definitions (upstable : List UpsT) (name : CStr) : List Definition :=
  upstable.filterMap fun tmp => if strcasecmp tmp.upsname name = .eq then tmp.definition else none

/-- The table: names, driver sockets and descriptions. -/
def Upsd.table (s : Upsd) : Set (CStr × CStr × Option CStr) :=
  {t | ∃ ups ∈ s.firstups, t = (ups.name, ups.fn, ups.desc)}

/-- The socket and the description that the server finds for a name. -/
def Upsd.definitionOf (s : Upsd) (name : CStr) : Option (CStr × Option CStr) :=
  (getUpsPtr s name).map fun ups => (ups.fn, ups.desc)

/-- The UPSes that a server adds at its start. -/
def Builds (upsConf : List (List CStr)) (fresh : Upsd) : Prop :=
  ∃ (c : Connects) (s0 : Upsd) (upstable : List UpsT), s0.firstups = [] ∧ readUpsconf upsConf = some upstable ∧
    fresh = upsconfAdd c false s0 upstable

theorem builds_upsdStart {c : Connects} {files : Files} {maxconn : Int} {cmdList varList : List (CStr × CStr)}
    {upsVersion : CStr} {upsConf : List (List CStr)} {fresh : Upsd} (hfile : files.upsConf = some upsConf)
    (h : upsdStart c files maxconn cmdList varList upsVersion = some fresh) : Builds upsConf fresh := by
  unfold upsdStart at h
  rw [hfile] at h
  split at h
  · rename_i upsdConf upsConf' hconf hfile'
    obtain rfl := Option.some.inj hfile'
    obtain ⟨upstable, hread, h⟩ := Option.bind_eq_some_iff.1 h
    dsimp only at h
    split_ifs at h
    refine ⟨c, _, upstable, ?_, hread, (Option.some.inj h).symm⟩
    exact loadUpsdconf_firstups _ upsdConf
  · simp at h

/-- After the reload of `s` the server is as if it had been restarted, and what was there keeps its logins and its flag. -/
structure Restarted (upsConf : List (List CStr)) (s s' fresh : Upsd) : Prop where
  table : s'.table = fresh.table
  kept : ∀ ups ∈ s.firstups, ∀ ups' ∈ fresh.firstups, strcasecmp ups'.name ups.name = .eq →
    ∃ ups'' ∈ s'.firstups, ups''.name = ups.name ∧ ups''.numlogins = ups.numlogins ∧ ups''.fsd = ups.fsd
  gone : ∀ upstable, readUpsconf upsConf = some upstable → ∀ ups' ∈ s'.firstups, definitions upstable ups'.name ≠ []

/-- The first and the last of the complete definitions of every UPS agree. -/
def SameDefinitions (upsConf : List (List CStr)) : Prop :=
  ∀ upstable, readUpsconf upsConf = some upstable → ∀ name,
    ((definitions upstable name).head?.map fun d => (d.fn, d.desc)) =
      (definitions upstable name).getLast?.map fun d => (d.fn, d.desc)

/-- A UPS that runs is written as in the last of its sections. -/
def SameSpelling (upsConf : List (List CStr)) (s : Upsd) : Prop :=
  ∀ upstable, readUpsconf upsConf = some upstable → ∀ ups ∈ s.firstups,
    ∀ d ∈ (definitions upstable ups.name).head?, d.name = ups.name

/-- What a record has to do with the configuration. -/
structure Entry where
  name : CStr
  fn : CStr
  desc : Option CStr
  numlogins : Int
  fsd : Bool
  retain : Bool

def Upstype.entry (ups : Upstype) : Entry := ⟨ups.name, ups.fn, ups.desc, ups.numlogins, ups.fsd, ups.retain⟩

def Upsd.entry (s : Upsd) (name : CStr) : Option Entry := (getUpsPtr s name).map Upstype.entry

/-- The entry of a new UPS. -/
def Definition.created (d : Definition) : Entry := ⟨d.name, d.fn, d.desc, 0, false, true⟩

/-- The entry after a reload has met the definition. -/
def Entry.updated (d : Definition) (e : Option Entry) : Option Entry :=
  some { e.getD d.created with fn := d.fn, desc := d.desc, retain := true }

variable {s : Upsd} {name n : CStr}

/-! ### Looking up a name -/

private theorem strcasecmp_congr {a b : CStr} (h : strcasecmp a b = .eq) (c : CStr) :
    (strcasecmp c a = .eq ↔ strcasecmp c b = .eq) := by
  simp only [strcasecmp_eq] at h ⊢
  rw [h]

private theorem getUpsPtr_congr {a b : CStr} (h : strcasecmp a b = .eq) (s : Upsd) : getUpsPtr s a = getUpsPtr s b := by
  unfold getUpsPtr
  congr 1
  funext ups
  exact decide_eq_decide.2 (strcasecmp_congr h ups.name)

private theorem strcasecmp_comm {a b : CStr} : strcasecmp a b = .eq ↔ strcasecmp b a = .eq := by
  simp only [strcasecmp_eq]
  exact eq_comm

private theorem name_of_getUpsPtr {ups : Upstype} (h : getUpsPtr s name = some ups) : strcasecmp ups.name name = .eq := by
  simpa using List.find?_some h

private theorem getUpsPtr_map {f : Upstype → Upstype} (hf : ∀ ups, (f ups).name = ups.name) :
    getUpsPtr { s with firstups := s.firstups.map f } n = (getUpsPtr s n).map f := by
  unfold getUpsPtr
  rw [List.find?_map]
  congr 2
  funext ups
  simp [hf]

private theorem entry_congr {a b : CStr} (h : strcasecmp a b = .eq) (s : Upsd) : s.entry a = s.entry b := by
  rw [Upsd.entry, getUpsPtr_congr h, Upsd.entry]

/-! ### One definition -/

/-- A new record, of a name that is not in use. -/
private theorem entry_cons {d : Definition} (hfree : ¬(s.firstups.any fun temp => strcasecmp temp.name d.name = .eq))
    {new : Upstype} (hname : new.name = d.name) (hentry : new.entry = d.created) (n : CStr) :
    Upsd.entry { s with firstups := new :: s.firstups } n =
      if strcasecmp d.name n = .eq then (s.entry n).or (some d.created) else s.entry n := by
  unfold Upsd.entry getUpsPtr
  dsimp only
  rw [List.find?_cons, hname]
  by_cases hn : strcasecmp d.name n = .eq
  · have hnone : s.firstups.find? (fun tmp => strcasecmp tmp.name n = .eq) = none := by
      rw [List.find?_eq_none]
      intro ups hups hmem
      refine hfree (List.any_eq_true.2 ⟨ups, hups, ?_⟩)
      have hmem' : strcasecmp ups.name n = .eq := by simpa using hmem
      simpa using (strcasecmp_congr hn ups.name).2 hmem'
    rw [hnone]
    simp only [hn, decide_true, if_true, Option.map_some, Option.map_none, Option.none_or, hentry]
  · simp only [hn, decide_false, if_false]

private theorem entry_upsCreate (c : Connects) (s : Upsd) (d : Definition) (n : CStr) :
    (upsCreate c s d.fn d.name d.desc).entry n =
      if strcasecmp d.name n = .eq then (s.entry n).or (some d.created) else s.entry n := by
  unfold upsCreate
  split
  · rename_i hused
    split
    · rename_i hn
      -- the name is in use
      have hfound : (s.entry n).isSome := by
        obtain ⟨ups, hups, hname⟩ := List.any_eq_true.1 hused
        rw [Upsd.entry, Option.isSome_map, getUpsPtr, List.find?_isSome]
        exact ⟨ups, hups, by simpa using (strcasecmp_congr hn ups.name).1 (of_decide_eq_true hname)⟩
      obtain ⟨e, he⟩ := Option.isSome_iff_exists.1 hfound
      rw [he, Option.some_or]
    · rfl
  · rename_i hfree
    have hsame := sameUps_sstateConnect c.now (newUps d.fn d.name d.desc) (c.result d.name)
    have hconf : ∀ result, (sstateConnect c.now (newUps d.fn d.name d.desc) result).1.fn = d.fn ∧
        (sstateConnect c.now (newUps d.fn d.name d.desc) result).1.desc = d.desc ∧
        (sstateConnect c.now (newUps d.fn d.name d.desc) result).1.retain = true := by
      intro result
      cases result <;> simp only [sstateConnect] <;> (try split_ifs) <;> exact ⟨rfl, rfl, rfl⟩
    have hres := hconf (c.result d.name)
    rcases hconnect : sstateConnect c.now (newUps d.fn d.name d.desc) (c.result d.name) with ⟨temp, fd⟩
    rw [hconnect] at hsame hres
    have hname : temp.name = d.name := hsame.name
    have hentry : Upstype.entry { temp with sockFd := fd, lastHeard := c.now } = d.created := by
      show Entry.mk temp.name temp.fn temp.desc temp.numlogins temp.fsd temp.retain = d.created
      have hlogins : temp.numlogins = 0 := hsame.numlogins
      have hfsd : temp.fsd = false := hsame.fsd
      have hfn : temp.fn = d.fn := hres.1
      have hdesc : temp.desc = d.desc := hres.2.1
      have hretain : temp.retain = true := hres.2.2
      rw [hname, hfn, hdesc, hlogins, hfsd, hretain]
      rfl
    exact @entry_cons s d hfree { temp with sockFd := fd, lastHeard := c.now } hname hentry n

private theorem entry_upsUpdate {d : Definition} (h : getUpsPtr s d.name ≠ none) (n : CStr) :
    (upsUpdate s d.fn d.name d.desc).entry n =
      if strcasecmp d.name n = .eq then Entry.updated d (s.entry n) else s.entry n := by
  obtain ⟨temp, htemp⟩ := Option.ne_none_iff_exists'.1 h
  unfold upsUpdate
  simp only [htemp]
  have hname := name_of_getUpsPtr htemp
  unfold Upsd.entry Upsd.modifyUps
  rw [getUpsPtr_map (by intro ups; dsimp only; split_ifs <;> rfl)]
  by_cases hn : strcasecmp d.name n = .eq
  · rw [if_pos hn, ← getUpsPtr_congr hn, htemp]
    simp only [Option.map_some, if_true, Entry.updated, Option.getD_some]
    split_ifs with hfn
    · rfl
    · simp only [ne_eq, not_not] at hfn
      simp only [Upstype.entry, hfn]
  · rw [if_neg hn]
    cases hups : getUpsPtr s n with
    | none => rfl
    | some ups =>
      have hne : ups.name ≠ temp.name := by
        intro he
        have hups' := name_of_getUpsPtr hups
        rw [he, strcasecmp_eq] at hups'
        rw [strcasecmp_eq] at hname hn
        exact hn (hname.symm.trans hups')
      simp only [Option.map_some, if_neg hne]

theorem upsconfAddOne_eq (c : Connects) (reloading : Bool) (s : Upsd) (tmp : UpsT) :
    upsconfAddOne c reloading s tmp =
      match tmp.definition with
      | none => s
      | some d =>
        if reloading ∧ getUpsPtr s d.name ≠ none then upsUpdate s d.fn d.name d.desc
        else upsCreate c s d.fn d.name d.desc := by
  unfold upsconfAddOne UpsT.definition
  rcases tmp.driver with _ | driver
  · rfl
  · rcases tmp.port with _ | port
    · rfl
    · rfl

private theorem definition_name {tmp : UpsT} {d : Definition} (h : tmp.definition = some d) : d.name = tmp.upsname := by
  unfold UpsT.definition at h
  split at h
  · exact Option.some.inj h ▸ rfl
  · simp at h

/-- A definition, as the reload meets it. -/
private theorem entry_reloadOne (c : Connects) (s : Upsd) (tmp : UpsT) (n : CStr) :
    (upsconfAddOne c true s tmp).entry n =
      (definitions [tmp] n).foldl (fun e d => Entry.updated d e) (s.entry n) := by
  rw [upsconfAddOne_eq, definitions, List.filterMap_cons, List.filterMap_nil]
  cases hdef : tmp.definition with
  | none => split_ifs <;> rfl
  | some d =>
    rw [← definition_name hdef]
    simp only [true_and]
    split_ifs with hups hn hn
    · exact (entry_upsUpdate hups n).trans (if_pos hn)
    · exact (entry_upsUpdate hups n).trans (if_neg hn)
    · rw [not_not] at hups
      have hnone : s.entry n = none := by
        rw [← entry_congr hn, Upsd.entry, hups]
        rfl
      rw [entry_upsCreate, if_pos hn, hnone]
      rfl
    · rw [entry_upsCreate, if_neg hn]
      rfl

/-- A definition, as the start meets it. -/
private theorem entry_startOne (c : Connects) (s : Upsd) (tmp : UpsT) (n : CStr) :
    (upsconfAddOne c false s tmp).entry n =
      (definitions [tmp] n).foldl (fun e d => e.or (some d.created)) (s.entry n) := by
  rw [upsconfAddOne_eq, definitions, List.filterMap_cons, List.filterMap_nil]
  cases hdef : tmp.definition with
  | none => split_ifs <;> rfl
  | some d =>
    rw [← definition_name hdef]
    simp only [Bool.false_eq_true, false_and, if_false, entry_upsCreate]
    split_ifs with hn
    · rfl
    · rfl

/-! ### The whole table -/

private theorem definitions_cons (tmp : UpsT) (upstable : List UpsT) (n : CStr) :
    definitions (tmp :: upstable) n = definitions [tmp] n ++ definitions upstable n := by
  rw [definitions, ← List.singleton_append, List.filterMap_append]
  rfl

private theorem entry_upsconfAdd {c : Connects} {reloading : Bool} {f : Option Entry → Definition → Option Entry}
    (hone : ∀ (s : Upsd) (tmp : UpsT) (n : CStr),
      (upsconfAddOne c reloading s tmp).entry n = (definitions [tmp] n).foldl f (s.entry n))
    (s : Upsd) (upstable : List UpsT) (n : CStr) :
    (upsconfAdd c reloading s upstable).entry n = (definitions upstable n).foldl f (s.entry n) := by
  unfold upsconfAdd
  induction upstable generalizing s with
  | nil => rfl
  | cons tmp upstable ih => rw [List.foldl_cons, ih, hone, definitions_cons tmp upstable, List.foldl_append]

private theorem foldl_created (ds : List Definition) (e : Option Entry) :
    ds.foldl (fun e d => e.or (some d.created)) e = e.or (ds.head?.map Definition.created) := by
  induction ds generalizing e with
  | nil => simp
  | cons d ds ih =>
    rw [List.foldl_cons, ih]
    cases e <;> simp

/-- The last definition has the last word; the rest is as before, or as the first of them. -/
private theorem foldl_updated (ds : List Definition) (e : Option Entry) :
    ds.foldl (fun e d => Entry.updated d e) e =
      match ds.head?, ds.getLast? with
      | some first, some last => some { e.getD first.created with fn := last.fn, desc := last.desc, retain := true }
      | _, _ => e := by
  induction ds using List.reverseRecOn with
  | nil => rfl
  | append_singleton ds d ih =>
    rw [List.foldl_append, ih, List.foldl_cons, List.foldl_nil, List.getLast?_append, List.head?_append]
    rcases ds with _ | ⟨first, ds⟩
    · rfl
    · rcases hlast : (first :: ds).getLast? with _ | last
      · simp at hlast
      · rfl

/-- The table of a server that starts. -/
theorem entry_start (c : Connects) {s0 : Upsd} (h : s0.firstups = []) (upstable : List UpsT) (n : CStr) :
    (upsconfAdd c false s0 upstable).entry n = (definitions upstable n).head?.map Definition.created := by
  have hnone : s0.entry n = none := by
    rw [Upsd.entry, getUpsPtr, h]
    rfl
  rw [entry_upsconfAdd (entry_startOne c), foldl_created, hnone, Option.none_or]

/-! ### Removing what is not in the file -/

private theorem filter_map_of_name {f : Upstype → Upstype} (upses : List Upstype) (hf : ∀ ups, (f ups).name = ups.name) :
    (upses.map fun ups => if ups.name = name then f ups else ups).filter (fun ups => ups.name ≠ name) =
      upses.filter fun ups => ups.name ≠ name := by
  induction upses with
  | nil => rfl
  | cons ups upses ih =>
    rw [List.map_cons]
    by_cases hname : ups.name = name
    · rw [if_pos hname, List.filter_cons_of_neg (by simp [hf, hname]), List.filter_cons_of_neg (by simp [hname]), ih]
    · rw [if_neg hname, List.filter_cons_of_pos (by simp [hname]), List.filter_cons_of_pos (by simp [hname]), ih]

/-- The clients of a UPS leave the other UPSes as they are. -/
private theorem kick_others (hunique : UniqueNames s) (hfds : (s.firstclient.map NutCtype.sockFd).Nodup)
    (hname : name ∈ s.firstups.map Upstype.name) :
    (kickLoginClients s name).firstups.filter (fun ups => ups.name ≠ name) = s.firstups.filter fun ups => ups.name ≠ name := by
  have hall (clients : List NutCtype) (hsub : ∀ client ∈ clients, client ∈ s.firstclient) (t : Upsd)
      (ht : UniqueNames t) (hnames : t.firstups.map Upstype.name = s.firstups.map Upstype.name)
      (hclients : ∀ client ∈ t.firstclient, client ∈ s.firstclient) :
      (clients.foldl (fun s client => if client.loginups = some name then clientDisconnect s client.sockFd else s)
        t).firstups.filter (fun ups => ups.name ≠ name) = t.firstups.filter fun ups => ups.name ≠ name := by
    induction clients generalizing t with
    | nil => rfl
    | cons client clients ih =>
      rw [List.foldl_cons]
      split_ifs with hlogin
      · have hnames' := names_clientDisconnect t client.sockFd
        rw [ih (fun other hother => hsub other (List.mem_cons_of_mem _ hother)) _ (ht.of_names hnames')
          (hnames'.trans hnames) fun other hother => ?_]
        · -- the client of that descriptor is the one that is logged in
          unfold clientDisconnect
          split
          · rfl
          · rename_i other hother
            obtain ⟨hmem, hfd⟩ := client_eq_some hother
            obtain rfl := List.inj_on_of_nodup_map hfds (hclients other hmem) (hsub client (by simp)) hfd
            rw [hlogin]
            obtain ⟨ups, hups, rfl⟩ := List.mem_map.1 (hnames ▸ hname)
            simp only [declogins, ht.getUpsPtr hups (strcasecmp_self ups.name)]
            exact filter_map_of_name t.firstups fun ups => rfl
        · rw [clientDisconnect_firstclient] at hother
          exact hclients other (List.mem_filter.1 hother).1
      · exact ih (fun other hother => hsub other (List.mem_cons_of_mem _ hother)) t ht hnames hclients
  exact hall s.firstclient (fun _ h => h) s hunique rfl fun _ h => h

private theorem Accounted.moves {adds dels : Prop} {t : Upsd} (hs : Accounted s) (h : Moved adds dels s t) : Accounted t := by
  induction h with
  | refl => exact hs
  | tail _ h ih => exact ih.move h

private theorem moved_deleteUps (s : Upsd) (target : Upstype) : Moved False True s (deleteUps s target) :=
  (Moved.disconnectEach _ _ s).tail (.delete trivial target.name kickLoginClients_loginups)

/-- The UPSes that are left are as they were. -/
theorem deleteUnretained_firstups (hs : Accounted s) :
    (deleteUnretained s).firstups = s.firstups.filter Upstype.retain := by
  have hall (upses : List Upstype) (hdistinct : upses.Pairwise fun ups ups' => ups.name ≠ ups'.name) (t : Upsd)
      (ht : Accounted t) (hsub : ∀ ups ∈ upses, ups ∈ t.firstups) :
      (upses.foldl (fun s ups => if ups.retain then s else deleteUps s ups) t).firstups =
        t.firstups.filter fun ups => ∀ other ∈ upses, other.retain = false → ups.name ≠ other.name := by
    induction upses generalizing t with
    | nil => simp
    | cons target upses ih =>
      obtain ⟨hne, hdistinct⟩ := List.pairwise_cons.1 hdistinct
      rw [List.foldl_cons]
      by_cases hretain : target.retain = true
      · rw [if_pos hretain, ih hdistinct t ht fun ups hups => hsub ups (List.mem_cons_of_mem _ hups)]
        refine List.filter_congr fun ups _ => decide_eq_decide.2 ?_
        simp [hretain]
      · have htarget := hsub target (by simp)
        have hkick := kick_others ht.names ht.fds (List.mem_map_of_mem htarget)
        have hfirst : (deleteUps t target).firstups = t.firstups.filter fun ups => ups.name ≠ target.name := hkick
        have hmoved : Accounted (deleteUps t target) := ht.moves (moved_deleteUps t target)
        rw [if_neg hretain, ih hdistinct _ hmoved fun ups hups => ?_, hfirst, List.filter_filter]
        · refine List.filter_congr fun ups _ => ?_
          rw [← Bool.decide_and]
          refine decide_eq_decide.2 ?_
          simp only [Bool.not_eq_true] at hretain
          simp only [List.forall_mem_cons, hretain, forall_const]
          exact and_comm
        · rw [hfirst, List.mem_filter]
          exact ⟨hsub ups (List.mem_cons_of_mem _ hups), by simpa using (hne ups hups).symm⟩
  have hdistinct : s.firstups.Pairwise fun ups ups' => ups.name ≠ ups'.name :=
    hs.names.imp fun hne hname => hne (by rw [hname, strcasecmp_self])
  unfold deleteUnretained
  rw [hall s.firstups hdistinct s hs fun ups h => h]
  refine List.filter_congr fun ups hups => ?_
  rw [Bool.eq_iff_iff, decide_eq_true_eq]
  constructor
  · intro h
    by_contra hretain
    exact h ups hups (by simpa using hretain) rfl
  · intro hretain other hother hother' hname
    rw [hs.names.eq hups hother (by rw [hname, strcasecmp_self]), hother'] at hretain
    contradiction

theorem UniqueNames.getUpsPtr_iff (hs : UniqueNames s) {ups : Upstype} :
    Nut.getUpsPtr s n = some ups ↔ ups ∈ s.firstups ∧ strcasecmp ups.name n = .eq :=
  ⟨fun h => ⟨mem_of_getUpsPtr h, name_of_getUpsPtr h⟩, fun h => hs.getUpsPtr h.1 h.2⟩

/-- A UPS that is not retained is not found any more. -/
theorem entry_deleteUnretained (hs : Accounted s) (n : CStr) :
    (deleteUnretained s).entry n = (s.entry n).filter Entry.retain := by
  have hdelete : UniqueNames (deleteUnretained s) := hs.names.moves (@moves_deleteUnretained True s)
  have hptr : getUpsPtr (deleteUnretained s) n = (getUpsPtr s n).filter Upstype.retain := by
    ext ups
    rw [hdelete.getUpsPtr_iff, Option.filter_eq_some_iff, hs.names.getUpsPtr_iff, deleteUnretained_firstups hs,
      List.mem_filter]
    tauto
  rw [Upsd.entry, hptr, Upsd.entry, Option.filter_map]
  rfl

/-! ### The reload -/

/-- The table with the flags reset, as the reload starts. -/
def Upsd.reset (s : Upsd) : Upsd := { s with firstups := s.firstups.map fun ups => { ups with retain := false } }

private theorem entry_reset (s : Upsd) (n : CStr) : s.reset.entry n = (s.entry n).map fun e => { e with retain := false } := by
  have hmap := @getUpsPtr_map s n (fun ups => { ups with retain := false }) fun ups => rfl
  rw [Upsd.entry, Upsd.reset, hmap, Upsd.entry, Option.map_map, Option.map_map]
  rfl

private theorem confReload_firstups {c : Connects} {files : Files} {upsConf upsdConf : List (List CStr)} {upstable : List UpsT}
    {s' : Upsd} (hconf : files.upsdConf = some upsdConf) (hfile : files.upsConf = some upsConf)
    (hread : readUpsconf upsConf = some upstable) (h : confReload c s files = some s') :
    s'.firstups = (deleteUnretained (loadUpsdconf (upsconfAdd c true s.reset upstable) upsdConf)).firstups := by
  simp only [confReload, hconf, hfile, hread] at h
  split at h
  · exact Option.some.inj h ▸ rfl
  · exact Option.some.inj h ▸ rfl

private theorem accounted_reload (hs : Accounted s) (c : Connects) (upstable : List UpsT) (upsdConf : List (List CStr)) :
    Accounted (loadUpsdconf (upsconfAdd c true s.reset upstable) upsdConf) := by
  have hreset : Moved True False s s.reset := .single (Move.map fun ups _ => ⟨rfl, rfl, rfl⟩)
  exact ((hs.moves hreset).moves (@moves_upsconfAdd False c true _ upstable)).moves
    (@moves_loadUpsdconf False False _ upsdConf)

/-- The table after a reload: the definitions of the file, on the UPSes that were there. -/
theorem entry_confReload (hs : Accounted s) {c : Connects} {files : Files} {upsConf : List (List CStr)}
    {upstable : List UpsT} {s' : Upsd} (hconf : files.upsdConf ≠ none) (hfile : files.upsConf = some upsConf)
    (hread : readUpsconf upsConf = some upstable) (h : confReload c s files = some s') (n : CStr) :
    s'.entry n = match (definitions upstable n).head?, (definitions upstable n).getLast? with
      | some first, some last =>
        some { (s.entry n).getD first.created with fn := last.fn, desc := last.desc, retain := true }
      | _, _ => none := by
  obtain ⟨upsdConf, hconf⟩ := Option.ne_none_iff_exists'.1 hconf
  have hload (m : CStr) : (loadUpsdconf (upsconfAdd c true s.reset upstable) upsdConf).entry m =
      (upsconfAdd c true s.reset upstable).entry m := by
    rw [Upsd.entry, Upsd.entry, getUpsPtr, getUpsPtr, loadUpsdconf_firstups]
  have hdone : s'.entry n = (deleteUnretained (loadUpsdconf (upsconfAdd c true s.reset upstable) upsdConf)).entry n := by
    rw [Upsd.entry, Upsd.entry, getUpsPtr, getUpsPtr, confReload_firstups hconf hfile hread h]
  rw [hdone, entry_deleteUnretained (accounted_reload hs c upstable upsdConf), hload, entry_upsconfAdd (entry_reloadOne c),
    foldl_updated, entry_reset]
  split
  · cases s.entry n <;> simp [Definition.created]
  · cases s.entry n <;> simp

theorem exists_definitions (ds : List Definition) :
    ds = [] ∨ ∃ first last, ds.head? = some first ∧ ds.getLast? = some last := by
  rcases ds with _ | ⟨first, ds⟩
  · exact .inl rfl
  · exact .inr ⟨first, _, rfl, List.getLast?_eq_some_getLast (List.cons_ne_nil first ds)⟩

/-- The definition of a UPS is of that name. -/
private theorem name_of_mem_definitions {upstable : List UpsT} {d : Definition} (h : d ∈ definitions upstable n) :
    strcasecmp d.name n = .eq := by
  obtain ⟨tmp, -, htmp⟩ := List.mem_filterMap.1 h
  split_ifs at htmp with hn
  rwa [definition_name htmp]

private theorem definitions_congr {a b : CStr} (h : strcasecmp a b = .eq) (upstable : List UpsT) :
    definitions upstable a = definitions upstable b := by
  unfold definitions
  congr 1
  funext tmp
  simp only [strcasecmp_congr h tmp.upsname]

/-- What the server shows of an entry. -/
def Entry.shown (e : Entry) : CStr × CStr × Option CStr := (e.name, e.fn, e.desc)

/-- Two servers have the same table when they find the same under every name. -/
private theorem table_eq_iff {t t' : Upsd} (ht : UniqueNames t) (ht' : UniqueNames t') :
    t.table = t'.table ↔ ∀ n, (t.entry n).map Entry.shown = (t'.entry n).map Entry.shown := by
  have hmem {t : Upsd} (ht : UniqueNames t) (x : CStr × CStr × Option CStr) (n : CStr) (hn : strcasecmp x.1 n = .eq) :
      x ∈ t.table ↔ (t.entry n).map Entry.shown = some x := by
    rw [Upsd.entry, Option.map_map, Option.map_eq_some_iff]
    constructor
    · rintro ⟨ups, hups, rfl⟩
      exact ⟨ups, ht.getUpsPtr_iff.2 ⟨hups, hn⟩, rfl⟩
    · rintro ⟨ups, hups, rfl⟩
      exact ⟨ups, mem_of_getUpsPtr hups, rfl⟩
  have hname {t : Upsd} {n : CStr} {x : CStr × CStr × Option CStr} (h : (t.entry n).map Entry.shown = some x) :
      strcasecmp x.1 n = .eq := by
    rw [Upsd.entry, Option.map_map, Option.map_eq_some_iff] at h
    obtain ⟨ups, hups, rfl⟩ := h
    exact name_of_getUpsPtr hups
  constructor
  · intro h n
    ext x
    constructor
    · intro hx
      have hn := hname hx
      exact (hmem ht' x n hn).1 (h ▸ (hmem ht x n hn).2 hx)
    · intro hx
      have hn := hname hx
      exact (hmem ht x n hn).1 (h ▸ (hmem ht' x n hn).2 hx)
  · intro h
    ext x
    rw [hmem ht x x.1 (strcasecmp_self _), hmem ht' x x.1 (strcasecmp_self _), h]

section

variable {s' fresh : Upsd} {c : Connects} {files : Files} {upsConf : List (List CStr)}

private theorem uniqueNames_fresh (h : Builds upsConf fresh) : UniqueNames fresh := by
  obtain ⟨c, s0, upstable, hempty, -, rfl⟩ := h
  refine UniqueNames.moves ?_ (@moves_upsconfAdd False c false s0 upstable)
  rw [UniqueNames, hempty]
  exact .nil

theorem entry_of_mem (hs : UniqueNames s) {ups : Upstype} (hups : ups ∈ s.firstups) :
    s.entry ups.name = some ups.entry := by
  rw [Upsd.entry, hs.getUpsPtr hups (strcasecmp_self _)]
  rfl

/-- The same table, after the reload and in the fresh server. -/
private theorem shown_eq_iff (hs : Accounted s) (hconf : files.upsdConf ≠ none) (hfile : files.upsConf = some upsConf)
    (h : confReload c s files = some s') (hfresh : Builds upsConf fresh) :
    (∀ n, (s'.entry n).map Entry.shown = (fresh.entry n).map Entry.shown) ↔
      SameDefinitions upsConf ∧ SameSpelling upsConf s := by
  obtain ⟨c', s0, upstable, hempty, hread, rfl⟩ := hfresh
  have hreload (n : CStr) := entry_confReload hs hconf hfile hread h n
  have hstart (n : CStr) := entry_start c' hempty upstable n
  constructor
  · intro hall
    refine ⟨fun upstable' hread' n => ?_, fun upstable' hread' ups hups d hd => ?_⟩
    · obtain rfl := Option.some.inj (hread.symm.trans hread')
      have hn := hall n
      rw [hreload, hstart] at hn
      rcases exists_definitions (definitions upstable n) with hnil | ⟨first, last, hfirst, hlast⟩
      · rw [hnil]
        rfl
      · simp only [hfirst, hlast, Option.map_some, Option.some.injEq] at hn ⊢
        exact (congrArg Prod.snd hn).symm
    · obtain rfl := Option.some.inj (hread.symm.trans hread')
      have hn := hall ups.name
      rw [hreload, hstart] at hn
      rcases exists_definitions (definitions upstable ups.name) with hnil | ⟨first, last, hfirst, hlast⟩
      · rw [hnil] at hd
        simp at hd
      · obtain rfl : first = d := Option.some.inj (hfirst.symm.trans hd)
        simp only [hfirst, hlast, entry_of_mem hs.names hups, Option.getD_some, Option.map_some, Option.some.injEq] at hn
        exact (congrArg Prod.fst hn).symm
  · rintro ⟨hdefs, hspelling⟩ n
    rw [hreload, hstart]
    have hsame := hdefs upstable hread n
    rcases exists_definitions (definitions upstable n) with hnil | ⟨first, last, hfirst, hlast⟩
    · rw [hnil]
      rfl
    · simp only [hfirst, hlast, Option.map_some, Option.some.injEq, Prod.mk.injEq] at hsame ⊢
      have hname : ((s.entry n).getD first.created).name = first.name := by
        cases hentry : s.entry n with
        | none => rfl
        | some e =>
          obtain ⟨ups, hups, rfl⟩ := Option.map_eq_some_iff.1 hentry
          obtain ⟨hmem, hn⟩ := hs.names.getUpsPtr_iff.1 hups
          have hd := hspelling upstable hread ups hmem first
          rw [definitions_congr hn upstable, hfirst] at hd
          exact (hd rfl).symm
      simp only [Entry.shown, hname, ← hsame.1, ← hsame.2]
      rfl

private theorem definitionOf_eq_iff (hs : Accounted s) (hconf : files.upsdConf ≠ none) (hfile : files.upsConf = some upsConf)
    (h : confReload c s files = some s') (hfresh : Builds upsConf fresh) :
    (∀ n, s'.definitionOf n = fresh.definitionOf n) ↔ SameDefinitions upsConf := by
  obtain ⟨c', s0, upstable, hempty, hread, rfl⟩ := hfresh
  have hof (t : Upsd) (n : CStr) : t.definitionOf n = (t.entry n).map fun e => (e.fn, e.desc) := by
    rw [Upsd.definitionOf, Upsd.entry, Option.map_map]
    rfl
  have hn (n : CStr) : s'.definitionOf n = (upsconfAdd c' false s0 upstable).definitionOf n ↔
      ((definitions upstable n).head?.map fun d => (d.fn, d.desc)) =
        (definitions upstable n).getLast?.map fun d => (d.fn, d.desc) := by
    rw [hof, hof, entry_confReload hs hconf hfile hread h n, entry_start c' hempty upstable n]
    rcases exists_definitions (definitions upstable n) with hnil | ⟨first, last, hfirst, hlast⟩
    · simp [hnil]
    · simp only [hfirst, hlast, Option.map_some]
      exact eq_comm
  constructor
  · intro hall upstable' hread' n
    obtain rfl := Option.some.inj (hread.symm.trans hread')
    exact (hn n).1 (hall n)
  · intro hdefs n
    exact (hn n).2 (hdefs upstable hread n)

/-- The UPSes of the file that were there keep their logins and their flag. -/
private theorem kept_of_reload (hs : Accounted s) (hconf : files.upsdConf ≠ none) (hfile : files.upsConf = some upsConf)
    (h : confReload c s files = some s') (hfresh : Builds upsConf fresh) {ups ups' : Upstype} (hups : ups ∈ s.firstups)
    (hups' : ups' ∈ fresh.firstups) (hname : strcasecmp ups'.name ups.name = .eq) :
    ∃ ups'' ∈ s'.firstups, ups''.name = ups.name ∧ ups''.numlogins = ups.numlogins ∧ ups''.fsd = ups.fsd := by
  have hunique := uniqueNames_fresh hfresh
  obtain ⟨c', s0, upstable, hempty, hread, rfl⟩ := hfresh
  have hstart := entry_start c' hempty upstable ups'.name
  rw [entry_of_mem hunique hups', definitions_congr hname] at hstart
  have hreload := entry_confReload hs hconf hfile hread h ups.name
  rcases exists_definitions (definitions upstable ups.name) with hnil | ⟨first, last, hfirst, hlast⟩
  · rw [hnil] at hstart
    simp at hstart
  · simp only [hfirst, hlast, entry_of_mem hs.names hups, Option.getD_some] at hreload
    obtain ⟨ups'', hups'', hentry⟩ := Option.map_eq_some_iff.1 hreload
    exact ⟨ups'', mem_of_getUpsPtr hups'', congrArg Entry.name hentry, congrArg Entry.numlogins hentry,
      congrArg Entry.fsd hentry⟩

/-- A reload leaves the server as a restart would, with the logins and the flags that were there, exactly where the first
and the last of the complete sections of every UPS agree, and the UPSes that run are written as in their last section.  The
first half alone decides whether the server finds the same under every name. -/
theorem server_restart_iff (hs : s.Stage) (hconf : files.upsdConf ≠ none) (hfile : files.upsConf = some upsConf)
    (h : confReload c s files = some s') (hfresh : Builds upsConf fresh) :
    (Restarted upsConf s s' fresh ↔ SameDefinitions upsConf ∧ SameSpelling upsConf s) ∧
      ((∀ n, s'.definitionOf n = fresh.definitionOf n) ↔ SameDefinitions upsConf) := by
  have hs := accounted hs
  have hfound : UniqueNames s' := by
    obtain ⟨mid, hmid, hmid'⟩ := moves_confReload h
    exact (hs.names.moves hmid).moves hmid'
  have htable := (table_eq_iff hfound (uniqueNames_fresh hfresh)).trans (shown_eq_iff hs hconf hfile h hfresh)
  refine ⟨⟨fun hrestart => htable.1 hrestart.table, fun hsame => ⟨htable.2 hsame, ?_, ?_⟩⟩,
    definitionOf_eq_iff hs hconf hfile h hfresh⟩
  · intro ups hups ups' hups' hname
    exact kept_of_reload hs hconf hfile h hfresh hups hups' hname
  · intro upstable hread ups' hups' hnil
    have hreload := entry_confReload hs hconf hfile hread h ups'.name
    rw [entry_of_mem hfound hups', hnil] at hreload
    simp at hreload

end

/-- A second section of the UPS, in capital letters and with another driver. -/
def twoSections : List (List CStr) :=
  [["[u]".toList], ["driver".toList, "=".toList, "d".toList], ["port".toList, "=".toList, "p".toList],
    ["[U]".toList], ["driver".toList, "=".toList, "e".toList], ["port".toList, "=".toList, "p".toList]]

def noServer : Upsd := ⟨[], [], [], 0, 0, [], [], []⟩

/-- The server that is restarted has the UPS of the second section, and the one that reloads that of the first. -/
theorem server_not_restarted :
    ¬(∀ s files s' fresh upsConf, s.Stage → files.upsdConf ≠ none → files.upsConf = some upsConf →
      confReload oneDriver s files = some s' → Builds upsConf fresh → Restarted upsConf s s' fresh) := by
  intro h
  have hreload : ∃ s', confReload oneDriver oneUpsServer { oneUps with upsConf := some twoSections } = some s' ∧
      ∃ ups ∈ s'.firstups, (ups.name, ups.fn, ups.desc) = ("u".toList, "d-u".toList, none) := by
    refine ⟨(confReload oneDriver oneUpsServer { oneUps with upsConf := some twoSections }).getD noServer, ?_⟩
    decide +kernel
  obtain ⟨upstable, hread, hstart⟩ : ∃ upstable, readUpsconf twoSections = some upstable ∧
      ∀ ups ∈ (upsconfAdd oneDriver false noServer upstable).firstups, ups.name = "U".toList := by
    refine ⟨(readUpsconf twoSections).getD [], ?_⟩
    decide +kernel
  obtain ⟨s', hs', ups, hups, htriple⟩ := hreload
  have hbuilds : Builds twoSections (upsconfAdd oneDriver false noServer upstable) :=
    ⟨oneDriver, noServer, upstable, rfl, hread, rfl⟩
  have hsame := (h oneUpsServer _ s' _ twoSections (.init started_oneUpsServer) (by decide) rfl hs' hbuilds).table
  have hmem : ("u".toList, "d-u".toList, none) ∈ s'.table := ⟨ups, hups, htriple.symm⟩
  rw [hsame] at hmem
  obtain ⟨other, hother, htriple'⟩ := hmem
  have hname : "u".toList = other.name := congrArg Prod.fst htriple'
  rw [hstart other hother] at hname
  exact absurd hname (by decide)

/-- Reloading the file with which the server was started. -/
theorem server_restart_same : ∃ s' fresh, ∃ upsConf ∈ oneUps.upsConf,
    (Restarted upsConf loggedInServer s' fresh ↔ SameDefinitions upsConf ∧ SameSpelling upsConf loggedInServer) ∧
      ((∀ n, s'.definitionOf n = fresh.definitionOf n) ↔ SameDefinitions upsConf) := by
  obtain ⟨upsConf, hfile⟩ : ∃ upsConf, oneUps.upsConf = some upsConf := ⟨_, rfl⟩
  obtain ⟨upstable, hread⟩ : ∃ upstable, readUpsconf upsConf = some upstable := by
    obtain rfl := Option.some.inj hfile
    exact ⟨_, rfl⟩
  have hreload : (confReload oneDriver loggedInServer oneUps).isSome := by decide +kernel
  obtain ⟨s', hs'⟩ := Option.isSome_iff_exists.1 hreload
  exact ⟨s', _, upsConf, hfile, server_restart_iff stage_loggedInServer (by decide) hfile hs'
    ⟨oneDriver, noServer, upstable, rfl, hread, rfl⟩⟩

end Nut
