import Nut.Server.Restart
import Nut.Server.Rights

/-!
# A reload that cannot open a file

`upsd.conf` is tried before anything is touched, and without it the reload changes nothing.  `upsd.users` is tried only
when the table of the UPSes has been reloaded: without it the users stay as they are, and all else happens as it would with
any `upsd.users` (`unopened_reload`).  Whether the server runs on is then up to `poll_reload`.
-/

namespace Nut

variable {s s' : Upsd} {c : Connects} {files : Files} {upsConf : List (List CStr)}

/-! ### The users while the other files are read -/

theorem users_upsconfAdd (c : Connects) (reloading : Bool) (s : Upsd) (upstable : List UpsT) :
    (upsconfAdd c reloading s upstable).users = s.users := by
  unfold upsconfAdd
  induction upstable generalizing s with
  | nil => rfl
  | cons tmp upstable ih =>
    rw [List.foldl_cons, ih]
    unfold upsconfAddOne
    split
    · dsimp only
      split_ifs
      · unfold upsUpdate
        split <;> rfl
      · unfold upsCreate
        split_ifs
        · rfl
        · dsimp only
    · rfl

theorem users_loadUpsdconf (s : Upsd) (lines : List (List CStr)) : (loadUpsdconf s lines).users = s.users := by
  unfold loadUpsdconf
  induction lines generalizing s with
  | nil => rfl
  | cons line lines ih =>
    rw [List.foldl_cons, ih]
    unfold parseUpsdConfArgs
    split
    · split_ifs <;> rfl
    · rfl

theorem users_kickLoginClients (s : Upsd) (upsname : CStr) : (kickLoginClients s upsname).users = s.users := by
  have hall (clients : List NutCtype) (s : Upsd) : (clients.foldl (fun s client =>
      if client.loginups = some upsname then clientDisconnect s client.sockFd else s) s).users = s.users := by
    induction clients generalizing s with
    | nil => rfl
    | cons client clients ih =>
      rw [List.foldl_cons, ih]
      split_ifs
      · exact users_clientDisconnect s client.sockFd
      · rfl
  exact hall s.firstclient s

theorem users_deleteUnretained (s : Upsd) : (deleteUnretained s).users = s.users := by
  have hall (upses : List Upstype) (s : Upsd) :
      (upses.foldl (fun s ups => if ups.retain then s else deleteUps s ups) s).users = s.users := by
    induction upses generalizing s with
    | nil => rfl
    | cons ups upses ih =>
      rw [List.foldl_cons, ih]
      split_ifs
      · rfl
      · exact users_kickLoginClients s ups.name
  exact hall s.firstups s

/-! ### The reload -/

/-- Up to `upsd.users`, the reload goes its way whatever becomes of that file. -/
theorem confReload_users (hconf : files.upsdConf ≠ none) (lines : List (List CStr)) :
    confReload c s { files with upsdUsers := some lines } =
      (confReload c s { files with upsdUsers := none }).map fun t => { t with users := (userLoad lines).users } := by
  obtain ⟨upsdConf, hconf⟩ := Option.ne_none_iff_exists'.1 hconf
  unfold confReload
  dsimp only
  rw [hconf]
  cases files.upsConf with
  | none => rfl
  | some upsConf =>
    dsimp only
    cases readUpsconf upsConf <;> rfl

/-- Without `upsd.users` the users stay. -/
theorem users_confReload (hconf : files.upsdConf ≠ none) (husers : files.upsdUsers = none)
    (h : confReload c s files = some s') : s'.users = s.users := by
  obtain ⟨upsdConf, hconf⟩ := Option.ne_none_iff_exists'.1 hconf
  unfold confReload at h
  rw [hconf, husers] at h
  cases hfile : files.upsConf with
  | none =>
    rw [hfile] at h
    simp at h
  | some upsConf =>
    rw [hfile] at h
    obtain ⟨upstable, -, h⟩ := Option.bind_eq_some_iff.1 h
    rw [← Option.some.inj h, users_deleteUnretained, users_loadUpsdconf, users_upsconfAdd]

/-- A UPS that the file still defines keeps its logins and its flag. -/
theorem kept_confReload (hs : Accounted s) (hconf : files.upsdConf ≠ none) (hfile : files.upsConf = some upsConf)
    {upstable : List UpsT} (hread : readUpsconf upsConf = some upstable) (h : confReload c s files = some s')
    {ups : Upstype} (hups : ups ∈ s.firstups) (hdefined : definitions upstable ups.name ≠ []) :
    ∃ ups' ∈ s'.firstups, ups'.name = ups.name ∧ ups'.numlogins = ups.numlogins ∧ ups'.fsd = ups.fsd := by
  have hreload := entry_confReload hs hconf hfile hread h ups.name
  rcases exists_definitions (definitions upstable ups.name) with hnil | ⟨first, last, hfirst, hlast⟩
  · exact absurd hnil hdefined
  · simp only [hfirst, hlast, entry_of_mem hs.names hups, Option.getD_some] at hreload
    obtain ⟨ups', hups', hentry⟩ := Option.map_eq_some_iff.1 hreload
    exact ⟨ups', mem_of_getUpsPtr hups', congrArg Entry.name hentry, congrArg Entry.numlogins hentry,
      congrArg Entry.fsd hentry⟩

/-- `poll_reload` does not look at the users. -/
theorem pollReload_users (openMax : Int) (s : Upsd) (users : List Ulist) :
    pollReload openMax { s with users := users } =
      (pollReload openMax s).map fun t => { t with users := users } := by
  unfold pollReload
  split_ifs <;> rfl

theorem unopened_reload (hs : s.Stage) (c : Connects) (files : Files) :
    (files.upsdConf = none →
      confReload c s files = some s ∧ s.step (.reload c files) = pollReload c.openMax s) ∧
      (files.upsdConf ≠ none → files.upsdUsers = none →
        (∀ lines, s.step (.reload c { files with upsdUsers := some lines }) =
          (s.step (.reload c files)).map fun t => { t with users := (userLoad lines).users }) ∧
        ∀ upsConf upstable, files.upsConf = some upsConf → readUpsconf upsConf = some upstable →
          ∃ s', confReload c s files = some s' ∧ s.step (.reload c files) = pollReload c.openMax s' ∧
            s'.users = s.users ∧
            ∀ ups ∈ s.firstups, definitions upstable ups.name ≠ [] →
              ∃ ups' ∈ s'.firstups, ups'.name = ups.name ∧ ups'.numlogins = ups.numlogins ∧ ups'.fsd = ups.fsd) := by
  have hstep : ∀ files, s.step (.reload c files) = (confReload c s files).bind (pollReload c.openMax) := fun _ => rfl
  refine ⟨fun hnone => ?_, fun hconf husers => ⟨fun lines => ?_, fun upsConf upstable hfile hread => ?_⟩⟩
  · have hreload : confReload c s files = some s := by
      unfold confReload
      rw [hnone]
    rw [hstep, hreload]
    exact ⟨rfl, rfl⟩
  · have hsame : { files with upsdUsers := none } = files := by rw [← husers]
    have hreload := @confReload_users s c files hconf lines
    rw [hsame] at hreload
    rw [hstep, hstep, hreload]
    cases confReload c s files with
    | none => rfl
    | some s' => exact pollReload_users c.openMax s' _
  · obtain ⟨upsdConf, hsome⟩ := Option.ne_none_iff_exists'.1 hconf
    have hruns : ∃ s', confReload c s files = some s' := by
      unfold confReload
      rw [hsome, hfile, husers]
      dsimp only
      rw [hread]
      exact ⟨_, rfl⟩
    obtain ⟨s', h⟩ := hruns
    have hpoll : s.step (.reload c files) = pollReload c.openMax s' := by
      rw [hstep, h]
      rfl
    exact ⟨s', h, hpoll, users_confReload hconf husers h, fun ups hups hdefined =>
      kept_confReload (accounted hs) hconf hfile hread h hups hdefined⟩

/-- The UPS of the small server, and one more. -/
def twoUpses : List (List CStr) :=
  [["[u]".toList], ["driver".toList, "=".toList, "d".toList], ["port".toList, "=".toList, "p".toList],
    ["[v]".toList], ["driver".toList, "=".toList, "d".toList], ["port".toList, "=".toList, "p".toList]]

/-- The client stays logged in. -/
theorem unopened_reload_loggedIn :
    ∃ s', loggedInServer.step (.reload oneDriver { oneUps with upsConf := some twoUpses, upsdUsers := none }) = some s' ∧
      s'.users = loggedInServer.users ∧ ∀ ups ∈ loggedInServer.firstups, ups.name = "u".toList →
        ∃ ups' ∈ s'.firstups, ups'.name = ups.name ∧ ups'.numlogins = ups.numlogins ∧ ups'.fsd = ups.fsd := by
  obtain ⟨upstable, hread, hdefined⟩ : ∃ upstable, readUpsconf twoUpses = some upstable ∧
      definitions upstable "u".toList ≠ [] := ⟨(readUpsconf twoUpses).getD [], by decide +kernel, by decide +kernel⟩
  obtain ⟨s', h, hpoll, husers, hkept⟩ := ((unopened_reload stage_loggedInServer oneDriver
    { oneUps with upsConf := some twoUpses, upsdUsers := none }).2 (by decide) rfl).2 twoUpses upstable rfl hread
  have hlimit : (confReload oneDriver loggedInServer { oneUps with upsConf := some twoUpses, upsdUsers := none }).map
      Upsd.maxconn = some 256 := by decide +kernel
  have hmaxconn : s'.maxconn = 256 := by
    rw [h] at hlimit
    exact Option.some.inj hlimit
  refine ⟨s', ?_, husers, fun ups hups hname => hkept ups hups (hname ▸ hdefined)⟩
  rw [hpoll]
  exact pollReload_iff.2 ⟨rfl, hmaxconn ▸ by decide, hmaxconn ▸ by decide⟩

/-- The UPS table has been reloaded when `upsd.users` is found missing; and a larger `MAXCONN` than the system allows ends the
server. -/
theorem unopened_reload_adds : loggedInServer.Stage ∧
    (loggedInServer.firstups.map Upstype.name) = ["u".toList] ∧
    ((loggedInServer.step (.reload oneDriver { oneUps with upsConf := some twoUpses, upsdUsers := none })).map
      fun s' => s'.firstups.map Upstype.name) = some ["v".toList, "u".toList] ∧
    (confReload oneDriver loggedInServer
      { oneUps with upsdConf := some [["MAXCONN".toList, "300".toList]], upsdUsers := none }).isSome ∧
    loggedInServer.step (.reload oneDriver
      { oneUps with upsdConf := some [["MAXCONN".toList, "300".toList]], upsdUsers := none }) = none := by
  refine ⟨stage_loggedInServer, by decide +kernel, by decide +kernel, by decide +kernel, ?_⟩
  rw [← Option.isNone_iff_eq_none]
  decide +kernel

end Nut
