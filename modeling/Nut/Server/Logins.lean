import Nut.Server.Moves

/-!
# Login accounting

`numlogins` of a UPS is changed by `net_login` and `declogins` only, and `loginups` of a client when it logs in and when
it is disconnected.  In every state of a run the number is that of the clients that are logged into the UPS, and the
client's `loginups` names a UPS that is still configured (`logins_accounted`).
-/

namespace Nut

/-- The client is logged into the UPS: `loginups` names it. -/
def LoggedInto (s : Upsd) (ups : Upstype) (client : NutCtype) : Prop :=
  ∃ upsname, client.loginups = some upsname ∧ getUpsPtr s upsname = some ups

instance (s : Upsd) (ups : Upstype) (client : NutCtype) : Decidable (LoggedInto s ups client) :=
  decidable_of_iff (client.loginups.bind (getUpsPtr s) = some ups) Option.bind_eq_some_iff

/-- How many clients have this name as `loginups`. -/
def loginCount (clients : List NutCtype) (name : CStr) : Nat :=
  clients.countP fun client => client.loginups = some name

structure Accounted (s : Upsd) : Prop where
  names : UniqueNames s
  fds : (s.firstclient.map NutCtype.sockFd).Nodup
  named : ∀ client ∈ s.firstclient, ∀ name, client.loginups = some name → name ∈ s.firstups.map Upstype.name
  counts : ∀ ups ∈ s.firstups, ups.numlogins = loginCount s.firstclient ups.name

/-! ### Counting -/

/-- One client more or less. -/
theorem loginCount_filter {clients : List NutCtype} (hfds : (clients.map NutCtype.sockFd).Nodup) {client : NutCtype}
    (hclient : client ∈ clients) (name : CStr) : loginCount clients name =
      loginCount (clients.filter fun other => other.sockFd ≠ client.sockFd) name +
        if client.loginups = some name then 1 else 0 := by
  induction clients with
  | nil => simp at hclient
  | cons other clients ih =>
    rw [List.map_cons, List.nodup_cons] at hfds
    rcases List.mem_cons.1 hclient with rfl | hclient
    · have hrest : clients.filter (fun other => other.sockFd ≠ client.sockFd) = clients := by
        refine List.filter_eq_self.2 fun other hother => ?_
        have hne : other.sockFd ≠ client.sockFd := fun h => hfds.1 (List.mem_map.2 ⟨other, hother, h⟩)
        simpa using hne
      rw [List.filter_cons_of_neg (by simp), hrest]
      simp [loginCount, List.countP_cons]
    · have hne : other.sockFd ≠ client.sockFd := fun h => hfds.1 (h ▸ List.mem_map_of_mem hclient)
      have hcount := ih hfds.2 hclient
      rw [List.filter_cons_of_pos (by simpa using hne)]
      simp only [loginCount, List.countP_cons] at hcount ⊢
      omega

theorem loginCount_map {clients : List NutCtype} {f : NutCtype → NutCtype}
    (hf : ∀ client, (f client).loginups = client.loginups) (name : CStr) :
    loginCount (clients.map f) name = loginCount clients name := by
  unfold loginCount
  rw [List.countP_map]
  refine List.countP_congr fun client _ => ?_
  simp [hf]

theorem loginCount_eq_zero {clients : List NutCtype} {name : CStr}
    (h : ∀ client ∈ clients, client.loginups ≠ some name) : loginCount clients name = 0 :=
  List.countP_eq_zero.2 fun client hclient => by simpa using h client hclient

theorem fds_modifyClient (s : Upsd) (fd : Nat) {f : NutCtype → NutCtype}
    (hf : ∀ client, (f client).sockFd = client.sockFd) :
    (s.modifyClient fd f).firstclient.map NutCtype.sockFd = s.firstclient.map NutCtype.sockFd := by
  unfold Upsd.modifyClient
  rw [List.map_map]
  refine List.map_congr_left fun client _ => ?_
  rw [Function.comp_apply]
  split_ifs
  · exact hf client
  · rfl

namespace Accounted

variable {s : Upsd}

/-- The UPSes change without their names and logins. -/
theorem upses (hs : Accounted s) {upses : List Upstype}
    (hnames : upses.map Upstype.name = s.firstups.map Upstype.name)
    (hlogins : ∀ ups' ∈ upses, ∃ ups ∈ s.firstups, ups'.name = ups.name ∧ ups'.numlogins = ups.numlogins) :
    Accounted { s with firstups := upses } where
  names := hs.names.of_names hnames
  fds := hs.fds
  named client hclient name hname := hnames.symm ▸ hs.named client hclient name hname
  counts := by
    intro ups' hups'
    obtain ⟨ups, hups, hname, hnum⟩ := hlogins ups' hups'
    rw [hnum, hname]
    exact hs.counts ups hups

theorem client (hs : Accounted s) (fd : Nat) {f : NutCtype → NutCtype}
    (hf : ∀ client, (f client).sockFd = client.sockFd ∧ (f client).loginups = client.loginups) :
    Accounted (s.modifyClient fd f) := by
  have hlogin (client : NutCtype) : (if client.sockFd = fd then f client else client).loginups = client.loginups := by
    split_ifs
    · exact (hf client).2
    · rfl
  refine ⟨hs.names, ?_, ?_, ?_⟩
  · rw [fds_modifyClient s fd fun client => (hf client).1]
    exact hs.fds
  · intro client' hclient' name hname
    obtain ⟨client, hclient, rfl⟩ := List.mem_map.1 hclient'
    rw [hlogin] at hname
    exact hs.named client hclient name hname
  · intro ups hups
    rw [hs.counts ups hups]
    exact congrArg Nat.cast (loginCount_map hlogin ups.name).symm

theorem login (hs : Accounted s) {client : NutCtype} {ups : Upstype} (hclient : client ∈ s.firstclient)
    (hups : ups ∈ s.firstups) (hnone : client.loginups = none) : Accounted (loggedIn s client.sockFd ups) := by
  have hnames : (loggedIn s client.sockFd ups).firstups.map Upstype.name = s.firstups.map Upstype.name :=
    names_modifyUps s _ fun ups => rfl
  have hfds : ((loggedIn s client.sockFd ups).firstclient.map NutCtype.sockFd).Nodup := by
    rw [loggedIn, fds_modifyClient _ _ (by exact fun _ => rfl)]
    exact hs.fds
  refine ⟨hs.names.of_names hnames, hfds, ?_, ?_⟩
  · intro other' hother' name hname
    rw [hnames]
    obtain ⟨other, hother, rfl⟩ := List.mem_map.1 hother'
    split_ifs at hname
    · exact Option.some.inj hname ▸ List.mem_map_of_mem hups
    · exact hs.named other hother name hname
  · intro other' hother'
    obtain ⟨other, hother, rfl⟩ := List.mem_map.1 hother'
    have hcount := hs.counts other hother
    have hbefore := loginCount_filter hs.fds hclient other.name
    have hafter := loginCount_filter hfds (List.mem_map.2 ⟨client, hclient, if_pos rfl⟩) other.name
    dsimp only at hafter
    rw [loggedIn, filter_modifyClient _ _ (by exact fun _ => rfl)] at hafter
    rw [hnone] at hbefore
    split_ifs with hname
    · simp only [hname, modifyUps_firstclient, if_true, reduceCtorEq, if_false] at hcount hafter hbefore ⊢
      rw [loggedIn]
      omega
    · have hne : ¬some ups.name = some other.name := fun h => hname (Option.some.inj h).symm
      simp only [hne, modifyUps_firstclient, reduceCtorEq, if_false] at hafter hbefore ⊢
      rw [loggedIn]
      omega

/-- A client that leaves, and takes back its login. -/
theorem disconnect (hs : Accounted s) (fd : Nat) : Accounted (clientDisconnect s fd) := by
  have hnames := names_clientDisconnect s fd
  have hclients := clientDisconnect_firstclient s fd
  refine ⟨hs.names.of_names hnames, ?_, ?_, ?_⟩
  · rw [hclients]
    exact (List.filter_sublist.map _).nodup hs.fds
  · intro client hclient name hname
    rw [hclients] at hclient
    rw [hnames]
    exact hs.named client (List.mem_filter.1 hclient).1 name hname
  · intro ups' hups'
    rw [hclients]
    unfold clientDisconnect at hups'
    split at hups'
    · rename_i hnone
      rw [hs.counts ups' hups', List.filter_eq_self.2 fun other hother => by simpa using client_eq_none.1 hnone other hother]
    · rename_i client hclient
      obtain ⟨hmem, rfl⟩ := client_eq_some hclient
      have hbefore := fun name => loginCount_filter hs.fds hmem name
      dsimp only at hups'
      split at hups'
      · rename_i hlogin
        rw [hs.counts ups' hups', hbefore, hlogin]
        simp
      · rename_i name hlogin
        obtain ⟨ups, hups, rfl⟩ := List.mem_map.1 (hs.named client hmem name hlogin)
        have hptr := hs.names.getUpsPtr hups (strcasecmp_self ups.name)
        simp only [declogins, hptr] at hups'
        obtain ⟨other, hother, rfl⟩ := List.mem_map.1 hups'
        have hcount := hs.counts other hother
        have hname' := hbefore other.name
        rw [hlogin] at hname'
        split_ifs with hname
        · simp only [hname, if_true] at hcount hname' ⊢
          omega
        · have hne : ¬some ups.name = some other.name := fun h => hname (Option.some.inj h).symm
          simp only [hne, if_false] at hname'
          omega

theorem move (hs : Accounted s) {adds dels : Prop} {s' : Upsd} (h : Move adds dels s s') : Accounted s' := by
  have hnames := hs.names.move h
  cases h with
  | upses h =>
    refine hs.upses (names_of_forall₂ h) fun ups' hups' => ?_
    obtain ⟨ups, hups, hsame⟩ := exists_of_forall₂ h hups'
    exact ⟨ups, hups, hsame.name, hsame.numlogins⟩
  | client fd f hf => exact hs.client fd hf
  | login hclient hups hnone => exact hs.login (client_eq_some hclient).1 hups hnone
  | @fsd ups hups =>
    refine hs.upses (names_modifyUps s _ fun ups => rfl) fun ups' hups' => ?_
    obtain ⟨other, hother, rfl⟩ := List.mem_map.1 hups'
    refine ⟨other, hother, ?_⟩
    split_ifs <;> exact ⟨rfl, rfl⟩
  | disconnect fd => exact hs.disconnect fd
  | connect now fd addr hfree =>
    refine ⟨hs.names, ?_, ?_, ?_⟩
    · refine List.nodup_cons.2 ⟨fun h => ?_, hs.fds⟩
      obtain ⟨client, hclient, hfd⟩ := List.mem_map.1 h
      exact client_eq_none.1 hfree client hclient hfd
    · intro client hclient name hname
      rcases List.mem_cons.1 hclient with rfl | hclient
      · simp at hname
      · exact hs.named client hclient name hname
    · intro ups hups
      rw [hs.counts ups hups]
      simp [clientConnect, loginCount]
  | create _ ups hnew hlogins =>
    refine ⟨hnames, hs.fds, ?_, ?_⟩
    · intro client hclient name hname
      exact List.mem_cons_of_mem _ (hs.named client hclient name hname)
    · intro ups' hups'
      rcases List.mem_cons.1 hups' with rfl | hups'
      · rw [hlogins, loginCount_eq_zero]
        · rfl
        · intro client hclient hname
          obtain ⟨temp, htemp, hsame⟩ := List.mem_map.1 (hs.named client hclient _ hname)
          exact hnew temp htemp (by rw [hsame, strcasecmp_self])
      · exact hs.counts ups' hups'
  | delete _ name hlogins =>
    refine ⟨hnames, hs.fds, ?_, ?_⟩
    · intro client hclient name' hname'
      obtain ⟨ups, hups, rfl⟩ := List.mem_map.1 (hs.named client hclient name' hname')
      refine List.mem_map.2 ⟨ups, List.mem_filter.2 ⟨hups, ?_⟩, rfl⟩
      have hne : ups.name ≠ name := fun h => hlogins client hclient (h ▸ hname')
      simpa using hne
    · intro ups hups
      exact hs.counts ups (List.mem_filter.1 hups).1
  | users | limits => exact ⟨hs.names, hs.fds, hs.named, hs.counts⟩

end Accounted

theorem accounted {s : Upsd} (h : s.Stage) : Accounted s := by
  refine h.invariant (fun s hs => ⟨?_, ?_, ?_, ?_⟩) fun s s' hs hmove => hs.move hmove
  · rw [UniqueNames, hs.firstups]
    exact .nil
  · rw [hs.firstclient]
    exact .nil
  · simp [hs.firstclient]
  · simp [hs.firstups]

/-- In every state of a run, `numlogins` of a UPS is the number of the clients that are logged into it, so never
negative, and a client that is logged in is logged into a UPS that is configured. -/
theorem logins_accounted {s : Upsd} (h : s.Stage) :
    (∀ ups ∈ s.firstups, ups.numlogins = s.firstclient.countP (fun client => LoggedInto s ups client) ∧ 0 ≤ ups.numlogins) ∧
      ∀ client ∈ s.firstclient, ∀ upsname, client.loginups = some upsname → ∃ ups, getUpsPtr s upsname = some ups := by
  have hs := accounted h
  have hptr {name : CStr} (hname : name ∈ s.firstups.map Upstype.name) :
      ∃ ups ∈ s.firstups, ups.name = name ∧ getUpsPtr s name = some ups := by
    obtain ⟨ups, hups, rfl⟩ := List.mem_map.1 hname
    exact ⟨ups, hups, rfl, hs.names.getUpsPtr hups (strcasecmp_self _)⟩
  constructor
  · intro ups hups
    have hcount : loginCount s.firstclient ups.name = s.firstclient.countP fun client => LoggedInto s ups client := by
      refine List.countP_congr fun client hclient => ?_
      rw [decide_eq_true_eq, decide_eq_true_eq]
      constructor
      · intro hlogin
        exact ⟨ups.name, hlogin, hs.names.getUpsPtr hups (strcasecmp_self _)⟩
      · rintro ⟨name, hlogin, hups'⟩
        obtain ⟨other, -, hname, hother⟩ := hptr (hs.named client hclient name hlogin)
        rw [hups'] at hother
        rw [hlogin, ← hname, Option.some.inj hother]
    rw [hs.counts ups hups, hcount]
    exact ⟨rfl, Int.natCast_nonneg _⟩
  · intro client hclient upsname hlogin
    obtain ⟨ups, -, -, hups⟩ := hptr (hs.named client hclient upsname hlogin)
    exact ⟨ups, hups⟩

theorem logins_accounted_once : (∃ ups ∈ loggedInServer.firstups, ups.numlogins = 1) ∧
    ∀ ups ∈ loggedInServer.firstups,
      ups.numlogins = loggedInServer.firstclient.countP (fun client => LoggedInto loggedInServer ups client) :=
  ⟨by decide +kernel, fun ups hups => ((logins_accounted stage_loggedInServer).1 ups hups).1⟩

end Nut
