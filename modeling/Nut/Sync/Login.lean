import Nut.Server.Logout
import Nut.Server.Rights
import Nut.Sync.Polled

/-!
# A monitor logs in

The commands with which `upsmon` logs into `upsd` (`do_upsd_auth`) meet the server.  Between them it serves its
drivers and other clients as they come.  At the end the monitor takes itself for logged in exactly when the server has
it as a login and counts it, and that is so when the user, the host and the name of the UPS are all accepted
(`logged_in`).
-/

namespace Nut

open Lexer ChunkReader

/-- A change of the UPSes, and of the client on `fd`. -/
def Upsd.change (k : List Upstype → List Upstype) (h : NutCtype → NutCtype) (fd : Nat) (s : Upsd) : Upsd :=
  { s with firstups := k s.firstups }.modifyClient fd h

/-- A client of the server, from where and as whom it has come, and the UPS into which it is logged. -/
def Session (s : Upsd) (fd : Nat) (addr : CStr) (un pw login : Option CStr) : Prop :=
  ∃ client, s.client fd = some client ∧ client.addr = addr ∧ client.username = un ∧ client.password = pw ∧
    client.loginups = login

section

variable {k : List Upstype → List Upstype} {h : NutCtype → NutCtype} {fd : Nat} {s t : Upsd} {texts : List CStr}
  {addr : CStr} {un pw login : Option CStr} {w : Writes}

theorem client_change (hh : ∀ c, (h c).sockFd = c.sockFd) : (s.change k h fd).client fd = (s.client fd).map h :=
  client_modifyClient _ fd hh

theorem OnlyHeard.session {s' : Upsd} (hheard : OnlyHeard fd s s') (hs : Session s fd addr un pw login) :
    Session s' fd addr un pw login := by
  obtain ⟨client, hclient, hrest⟩ := hs
  obtain ⟨heard, ctx, hclient'⟩ := hheard.found hclient
  exact ⟨_, hclient', hrest⟩

theorem OnlyHeard.users {s' : Upsd} (hheard : OnlyHeard fd s s') : s'.users = s.users := by
  obtain ⟨f, -, rfl⟩ := hheard
  rfl

/-- What a command leaves that changes the record of its client by `h`. -/
theorem Answered.after (hanswered : Answered (Upsd.change k h fd) texts fd s t) (hh : ∀ c, (h c).sockFd = c.sockFd)
    (hs : Session s fd addr un pw login) : t.users = s.users ∧ t.firstups = k s.firstups ∧
      ∃ c, c.addr = addr ∧ c.username = un ∧ c.password = pw ∧ c.loginups = login ∧
        Session t fd (h c).addr (h c).username (h c).password (h c).loginups := by
  obtain ⟨s', ctx, hheard, -, rfl⟩ := hanswered
  obtain ⟨c, hc, hfields⟩ := hheard.session hs
  refine ⟨hheard.users, congrArg k hheard.firstups, c, hfields.1, hfields.2.1, hfields.2.2.1, hfields.2.2.2, ?_⟩
  refine ⟨{ h c with sent := (h c).sent ++ texts, ctx := ctx }, ?_, rfl, rfl, rfl, rfl⟩
  rw [client_modifyClient _ fd (by exact fun _ => rfl), client_told, client_change hh, hc]
  rfl

end

/-! ### Others -/

/-- What others leave of a client. -/
structure Aside (fd : Nat) (s s' : Upsd) : Prop where
  client : s'.client fd = s.client fd
  users : s'.users = s.users

/-- Others are served: drivers, other clients, and clients that come. -/
def Others (fd : Nat) (s s' : Upsd) : Prop :=
  ∃ events, (∀ e ∈ events, e.Polled ∧ e.serves ≠ some fd) ∧ s.run events = some s'

section

variable {fd : Nat} {s s' t : Upsd} {addr : CStr} {un pw login : Option CStr} {w : Writes}

theorem Aside.trans (h : Aside fd s s') (h' : Aside fd s' t) : Aside fd s t :=
  ⟨h'.client.trans h.client, h'.users.trans h.users⟩

theorem Aside.session (h : Aside fd s s') (hs : Session s fd addr un pw login) : Session s' fd addr un pw login := by
  obtain ⟨client, hclient, hrest⟩ := hs
  exact ⟨client, h.client.trans hclient, hrest⟩

theorem Aside.serves (h : Aside fd s s') (hs : Serves w s fd) : Serves w s' fd := by
  obtain ⟨⟨client, hclient, hctx⟩, hwrites⟩ := hs
  exact ⟨⟨client, h.client.trans hclient, hctx⟩, hwrites⟩

theorem client_of_others {fd' : Nat} (hne : fd' ≠ fd) (h : s'.others fd' = s.others fd') :
    s'.client fd = s.client fd := by
  have hfind (u : Upsd) : (u.others fd').find? (fun client => client.sockFd = fd) = u.client fd := by
    rw [Upsd.others, List.find?_filter, Upsd.client]
    congr 1
    funext client
    by_cases hfd : client.sockFd = fd
    · simp [hfd, hne.symm]
    · simp [hfd]
  rw [← hfind, h, hfind]

theorem users_parseNet (w : Writes) (s : Upsd) (client : NutCtype) (args : List CStr) :
    (parseNet w s client args).users = s.users := by
  obtain ⟨s1, heffect, bufs, lost, hparse⟩ := parseNet_effect w s client args
  rw [hparse, told_users]
  cases heffect <;> rfl

theorem users_clientReadline (now : Int) (w : Writes) (s : Upsd) (fd : Nat) (buf : Option CStr) :
    (clientReadline now w s fd buf).users = s.users := by
  have hline (s : Upsd) (numargs : Nat) (arglist : List CStr) :
      (netLine now w fd s numargs arglist).users = s.users := by
    unfold netLine
    dsimp only
    split
    · rfl
    · rw [users_parseNet]
      rfl
  have hlines (lines : List (Nat × List CStr)) (s : Upsd) :
      (lines.foldl (fun s l => netLine now w fd s l.1 l.2) s).users = s.users := by
    induction lines generalizing s with
    | nil => rfl
    | cons line lines ih => rw [List.foldl_cons, ih, hline]
  unfold clientReadline
  split
  · exact users_clientDisconnect s fd
  · exact users_clientDisconnect s fd
  · rfl
  · rw [readLoop_eq]
    exact hlines _ s

theorem aside_step {e : Event} (hclient : s.client fd ≠ none) (hpolled : e.Polled) (hserves : e.serves ≠ some fd)
    (h : s.step e = some s') : Aside fd s s' := by
  cases e with
  | reload => exact hpolled.elim
  | scan => exact hpolled.elim
  | driver name now ret =>
    simp only [Upsd.step] at h
    split at h
    · obtain rfl := Option.some.inj h
      exact ⟨rfl, rfl⟩
    · obtain ⟨ups, -, rfl⟩ := Option.map_eq_some_iff.1 h
      exact ⟨rfl, rfl⟩
  | driverHup name =>
    obtain rfl := Option.some.inj h
    exact ⟨rfl, rfl⟩
  | client fd' now w buf =>
    obtain rfl := Option.some.inj h
    have hne : fd' ≠ fd := fun heq => hserves (congrArg some heq)
    exact ⟨client_of_others hne (others_clientReadline now w s fd' buf), users_clientReadline now w s fd' buf⟩
  | clientHup fd' =>
    obtain rfl := Option.some.inj h
    have hne : fd' ≠ fd := fun heq => hserves (congrArg some heq)
    exact ⟨client_of_others hne (others_clientDisconnect s fd'), users_clientDisconnect s fd'⟩
  | accept fd' now addr =>
    simp only [Upsd.step] at h
    split_ifs at h with hnone
    obtain rfl := Option.some.inj h
    have hne : fd' ≠ fd := fun heq => hclient (heq ▸ hnone)
    refine ⟨?_, rfl⟩
    simp [Upsd.client, clientConnect, hne]

/-- Whatever others do, the client and the users are as before. -/
theorem Others.aside (hclient : s.client fd ≠ none) (h : Others fd s s') : Aside fd s s' := by
  obtain ⟨events, hevents, hrun⟩ := h
  induction events generalizing s with
  | nil =>
    obtain rfl := Option.some.inj hrun
    exact ⟨rfl, rfl⟩
  | cons e events ih =>
    rw [List.forall_mem_cons] at hevents
    rw [Upsd.run, List.foldlM_cons] at hrun
    obtain ⟨s1, hstep, hrun⟩ := Option.bind_eq_some_iff.1 hrun
    have hfirst := aside_step hclient hevents.1.1 hevents.1.2 hstep
    exact hfirst.trans (ih (by rwa [hfirst.client]) hevents.2 hrun)

theorem Session.exists (hs : Session s fd addr un pw login) : s.client fd ≠ none := by
  obtain ⟨client, hclient, -⟩ := hs
  simp [hclient]

end

/-- The server reads a line from the master. -/
def Upsd.hears (s : Upsd) (line : CStr) : Upsd := clientReads allWritten 7 s [(101, line)]

namespace Upsmon

section

variable {conn : Upsconn} {net : Net} {line : CStr}

/-- A command that is answered by one line. -/
theorem exchange_line (hconn : conn.Settled) (hwrote : 0 < net.wrote) (hline : WholeLine line)
    (hahead : Ahead conn net.reads (line ++ ['\n'])) (buf : CStr) : exchange conn net buf = (conn, some line) := by
  obtain ⟨unread, left, hread, hleft⟩ := upscliReadline_line hconn.fd hline hahead
  obtain ⟨rfl, hunread⟩ := hleft.eq_nil
  have hsame : { conn with readbuf := unread } = conn := by
    obtain rfl : unread = [] := hunread
    rw [← hconn.readbuf]
  have hsent : upscliSendline conn net.wrote (snprintf smallbuf buf) =
      (conn, some ((snprintf smallbuf buf).take net.wrote.toNat)) := by
    rw [upscliSendline, if_neg (by rw [hconn.fd]; decide), if_neg (by omega), if_neg (by omega)]
  rw [hsame] at hread
  have hbuf : smallbuf = upscliNetbufLen := rfl
  rw [exchange, hsent]
  dsimp only
  rw [hbuf, hread]

end

section

variable {k : List Upstype → List Upstype} {h : NutCtype → NutCtype} {fd : Nat} {s t : Upsd} {w : Writes}
  {cmd arg line : CStr} {net : Net}

/-- A command with one word, which changes the UPSes and the record of its client, and is answered by one line. -/
theorem command_answered (hserves : Serves w s fd) (hcmd : PlainWord cmd) (harg : PlainName arg)
    (hfits : (cmdText cmd [arg]).length < upscliNetbufLen) (hline : WholeLine line) (hh : ∀ c, (h c).sockFd = c.sockFd)
    (hsent : ∀ c, (h c).sent = c.sent)
    (htold : ∀ s' client', OnlyHeard fd s s' → s'.client fd = some client' →
      parseNet w s' client' [cmd, arg] = (s'.change k h fd).told fd [answer (line ++ ['\n'])] false)
    (hnet : Exchange w s fd (cmdText cmd [arg]) net t) :
    Answered (Upsd.change k h fd) [answer (line ++ ['\n'])] fd s t ∧ Serves w t fd ∧
      ∀ (conn : Upsconn) (buf : CStr), conn.Settled → exchange conn net buf = (conn, some line) := by
  have hread := @readsAs_names cmd [arg] hcmd (by simpa using harg) (by rw [List.length_singleton]; decide) hfits
  rw [buildCmd_eq hfits] at hread
  obtain ⟨-, hafter⟩ := exchange_answered hserves hread (fun s' client' _ hclient' => ⟨h client', by
    rw [client_change hh, hclient', Option.map_some], hsent client'⟩) htold
  obtain ⟨hwrote, hanswered, hagain, hahead⟩ := hafter net t hnet
  refine ⟨hanswered, hagain, fun conn buf hconn => ?_⟩
  have hstream := hahead conn hconn.readbuf
  have hone := @flatten_answers [line] (by simpa using hline)
  rw [List.map_singleton, wire_cons] at hone
  rw [hone] at hstream
  exact exchange_line hconn hwrote hline hstream buf

end

/-- The words of the commands of a monitor: they can be sent as they are, and fit. -/
structure Speakable (arg : CStr) : Prop where
  name : PlainName arg
  fits : arg.length + 12 < upscliNetbufLen

theorem Speakable.cmdText {arg : CStr} (h : Speakable arg) (cmd : CStr) :
    cmdText cmd [arg] = cmd ++ " ".toList ++ arg ++ "\n".toList := by
  rw [Nut.cmdText, List.flatMap_cons, List.flatMap_nil, h.name.argText]
  simp

theorem Speakable.fitsIn {arg : CStr} (h : Speakable arg) {cmd : CStr} (hcmd : cmd.length ≤ 9) :
    (Nut.cmdText cmd [arg]).length < upscliNetbufLen := by
  have hfits := h.fits
  have hblank : " ".toList.length = 1 := rfl
  have hend : "\n".toList.length = 1 := rfl
  rw [h.cmdText]
  simp only [List.length_append]
  omega

section

variable {k : List Upstype → List Upstype} {h : NutCtype → NutCtype} {fd : Nat} {s t : Upsd} {w : Writes} {net : Net}
  {addr u line : CStr} {un pw login : Option CStr} {cmd : CStr × NetHandler × Bool} {ups : Upstype}

/-- The handler sends one line, after it has changed the UPSes and the record of its client. -/
theorem handler_answered (hcmd : cmd ∈ netcmds) (hplain : PlainWord cmd.1) (hshort : cmd.1.length ≤ 9)
    (hu : Speakable u)
    (hserves : Serves w s fd) (hs : Session s fd addr un pw login) (hline : WholeLine line)
    (hh : ∀ c, (h c).sockFd = c.sockFd ∧ (h c).sent = c.sent)
    (hsends : ∀ s' c, s'.users = s.users → (∀ name, getUpsPtr s' name = getUpsPtr s name) → c.addr = addr →
      c.username = un →
      c.password = pw → c.loginups = login → c.sockFd = fd →
      checkCommand cmd.2.1 cmd.2.2 w s' c [u] = (sendback w (s'.change k h fd) fd (line ++ ['\n'])).1)
    (hnet : Exchange w s fd (cmd.1 ++ " ".toList ++ u ++ "\n".toList) net t) :
    (t.users = s.users ∧ t.firstups = k s.firstups ∧
      ∃ c, c.addr = addr ∧ c.username = un ∧ c.password = pw ∧ c.loginups = login ∧
        Session t fd (h c).addr (h c).username (h c).password (h c).loginups) ∧
      Serves w t fd ∧ ∀ (conn : Upsconn) (buf : CStr), conn.Settled → exchange conn net buf = (conn, some line) := by
  have htold (s' : Upsd) (client' : NutCtype) (hheard : OnlyHeard fd s s') (hclient' : s'.client fd = some client') :
      parseNet w s' client' [cmd.1, u] = (s'.change k h fd).told fd [answer (line ++ ['\n'])] false := by
    obtain ⟨c, hc, haddr, hun, hpw, hlogin⟩ := hheard.session hs
    obtain rfl := Option.some.inj (hclient'.symm.trans hc)
    obtain ⟨-, hfd⟩ := client_self hclient'
    have hok : w.client fd ((s'.change k h fd).written fd) = true := hserves.writes _
    have hptr (name : CStr) : getUpsPtr s' name = getUpsPtr s name := by
      rw [getUpsPtr, hheard.firstups, getUpsPtr]
    rw [parseNet_of_asks hcmd ⟨_, rfl, strcasecmp_self _⟩,
      hsends s' client' hheard.users hptr haddr hun hpw hlogin hfd, sendback_eq, hok]
    rfl
  rw [← hu.cmdText] at hnet
  obtain ⟨hanswered, hagain, hexchange⟩ :=
    command_answered hserves hplain hu.name (hu.fitsIn hshort) hline (fun c => (hh c).1)
    (fun c => (hh c).2) htold hnet
  exact ⟨hanswered.after (fun c => (hh c).1) hs, hagain, hexchange⟩

/-- What a command leaves that changes nothing but the UPSes. -/
theorem kept_answered (hcmd : cmd ∈ netcmds) (hplain : PlainWord cmd.1) (hshort : cmd.1.length ≤ 9) (hu : Speakable u)
    (hserves : Serves w s fd) (hs : Session s fd addr un pw login) (hline : WholeLine line)
    (hsends : ∀ s' c, s'.users = s.users → (∀ name, getUpsPtr s' name = getUpsPtr s name) → c.addr = addr →
      c.username = un →
      c.password = pw → c.loginups = login → c.sockFd = fd →
      checkCommand cmd.2.1 cmd.2.2 w s' c [u] =
        (sendback w { s' with firstups := k s'.firstups } fd (line ++ ['\n'])).1)
    (hnet : Exchange w s fd (cmd.1 ++ " ".toList ++ u ++ "\n".toList) net t) :
    (Session t fd addr un pw login ∧ t.users = s.users ∧ t.firstups = k s.firstups) ∧ Serves w t fd ∧
      ∀ (conn : Upsconn) (buf : CStr), conn.Settled → exchange conn net buf = (conn, some line) := by
  obtain ⟨⟨husers, hall, c, rfl, rfl, rfl, rfl, hsession⟩, hrest⟩ :=
    @handler_answered k id fd s t w net addr u line un pw login
      cmd hcmd hplain hshort hu hserves hs hline (fun _ => ⟨rfl, rfl⟩) (fun s' c husers hptr haddr hun hpw hlogin hfd => by
      have hsame : s'.change k id fd = { s' with firstups := k s'.firstups } := modifyClient_of_eq _ _ fun _ => rfl
      rw [hsends s' c husers hptr haddr hun hpw hlogin hfd, hsame]) hnet
  exact ⟨⟨hsession, husers, hall⟩, hrest⟩

end

/-! ### Logging in -/

/-- The UPSes after one more login into the one with the name. -/
def oneMore (name : CStr) (upses : List Upstype) : List Upstype :=
  upses.map fun ups => if ups.name = name then { ups with numlogins := ups.numlogins + 1 } else ups

/-- The UPS for which the action is granted: the host is let in, and a user with the name and the password may do it. -/
def granted (access : Bool) (s : Upsd) (un pw u action : CStr) : Option Upstype :=
  if access = true ∧ userCheckaction s.users (some un) (some pw) action = true then getUpsPtr s u else none

/-- The TCP wrapper looks at where the client comes from, and who it is. -/
def Wraps (w : Writes) (addr un : CStr) (access : Bool) : Prop :=
  ∀ c, c.addr = addr → c.username = some un → w.hostsAccess c = access

section

variable {fd : Nat} {s t : Upsd} {w : Writes} {net : Net} {addr u : CStr} {oun opw login : Option CStr} {un pw : CStr}
  {access : Bool} {ups : Upstype}

theorem wholeLine_ok : WholeLine "OK".toList := ⟨by decide, by decide, by decide⟩

theorem username_answered (hserves : Serves w s fd) (hs : Session s fd addr none opw login) (hu : Speakable u)
    (hnet : Exchange w s fd ("USERNAME ".toList ++ u ++ "\n".toList) net t) :
    (Session t fd addr (some u) opw login ∧ t.users = s.users ∧ t.firstups = s.firstups) ∧ Serves w t fd ∧
      ∀ (conn : Upsconn) (buf : CStr), conn.Settled → exchange conn net buf = (conn, some "OK".toList) := by
  obtain ⟨⟨husers, hups, c, rfl, -, rfl, rfl, hsession⟩, hrest⟩ := @handler_answered id
    (fun c => { c with username := some u }) fd s t w net addr u "OK".toList none opw login
    ("USERNAME".toList, netUsername, false) (by simp [netcmds]) (by decide) (by decide) hu hserves hs wholeLine_ok
    (fun _ => ⟨rfl, rfl⟩) (fun s' c _ _ _ hun _ _ hfd => by
      show netUsername w s' c [u] = _
      rw [netUsername, if_neg (by simp [hun]), hfd]
      rfl) hnet
  exact ⟨⟨hsession, husers, hups⟩, hrest⟩

theorem password_answered (hserves : Serves w s fd) (hs : Session s fd addr oun none login) (hu : Speakable u)
    (hnet : Exchange w s fd ("PASSWORD ".toList ++ u ++ "\n".toList) net t) :
    (Session t fd addr oun (some u) login ∧ t.users = s.users ∧ t.firstups = s.firstups) ∧ Serves w t fd ∧
      ∀ (conn : Upsconn) (buf : CStr), conn.Settled → exchange conn net buf = (conn, some "OK".toList) := by
  obtain ⟨⟨husers, hups, c, rfl, rfl, -, rfl, hsession⟩, hrest⟩ := @handler_answered id
    (fun c => { c with password := some u }) fd s t w net addr u "OK".toList oun none login
    ("PASSWORD".toList, netPassword, false) (by simp [netcmds]) (by decide) (by decide) hu hserves hs wholeLine_ok
    (fun _ => ⟨rfl, rfl⟩) (fun s' c _ _ _ _ hpw _ hfd => by
      show netPassword w s' c [u] = _
      rw [netPassword, if_neg (by simp [hpw]), hfd]
      rfl) hnet
  exact ⟨⟨hsession, husers, hups⟩, hrest⟩

/-- A command for users, from a client that has said who it is. -/
theorem checkCommand_user {func : NetHandler} {c : NutCtype} (hwraps : Wraps w addr un access) (haddr : c.addr = addr)
    (hun : c.username = some un) (hpw : c.password = some pw) (arg : List CStr) : checkCommand func true w s c arg =
      if access = false then sendErr w s c.sockFd "ACCESS-DENIED".toList else func w s c arg := by
  rw [checkCommand, if_pos rfl, if_neg (by simp [hun]), if_neg (by simp [hpw]), hwraps c haddr hun]

/-- The commands that ask for a UPS and a right: the handler looks for the UPS first, and then at the user. -/
structure AsksRight (func : NetHandler) (action : CStr) (login : Option CStr) : Prop where
  unknown : ∀ w s c u, c.loginups = login → getUpsPtr s u = none →
    func w s c [u] = sendErr w s c.sockFd "UNKNOWN-UPS".toList
  denied : ∀ w s c u ups, c.loginups = login → getUpsPtr s u = some ups →
    userCheckaction s.users c.username c.password action = false →
    func w s c [u] = sendErr w s c.sockFd "ACCESS-DENIED".toList

theorem asksRight_login : AsksRight netLogin "LOGIN".toList none where
  unknown w s c u hlogin hptr := by
    simp only [netLogin, hlogin, ne_eq, not_true_eq_false, if_false, hptr]
  denied w s c u ups hlogin hptr hmay := by
    simp only [netLogin, hlogin, ne_eq, not_true_eq_false, if_false, hptr]
    exact if_pos hmay

theorem asksRight_master (login : Option CStr) : AsksRight netMaster "MASTER".toList login where
  unknown w s c u _ hptr := by
    simp only [netMaster, hptr]
  denied w s c u ups _ hptr hmay := by
    simp only [netMaster, hptr]
    exact if_pos hmay

section

variable {cmd : CStr × NetHandler × Bool} {action : CStr}

/-- A command that is answered with an error changes nothing. -/
theorem error_answered {err : CStr} (hcmd : cmd ∈ netcmds) (hplain : PlainWord cmd.1) (hshort : cmd.1.length ≤ 9)
    (hu : Speakable u) (hserves : Serves w s fd) (hs : Session s fd addr oun opw login)
    (herr : WholeLine ("ERR ".toList ++ err))
    (hsends : ∀ s' c, s'.users = s.users → (∀ name, getUpsPtr s' name = getUpsPtr s name) → c.addr = addr →
      c.username = oun → c.password = opw → c.loginups = login → c.sockFd = fd →
      checkCommand cmd.2.1 cmd.2.2 w s' c [u] = sendErr w s' c.sockFd err)
    (hnet : Exchange w s fd (cmd.1 ++ " ".toList ++ u ++ "\n".toList) net t) :
    (Session t fd addr oun opw login ∧ t.users = s.users ∧ t.firstups = s.firstups) ∧ Serves w t fd ∧
      ∃ line, ¬"OK".toList <+: line ∧
        ∀ (conn : Upsconn) (buf : CStr), conn.Settled → exchange conn net buf = (conn, some line) := by
  obtain ⟨hleft, hagain, hexchange⟩ := @kept_answered id fd s t w net addr u _ oun opw login cmd hcmd hplain
    hshort hu hserves hs herr (fun s' c husers hptr haddr hun hpw hlogin hfd => by
      rw [hsends s' c husers hptr haddr hun hpw hlogin hfd, sendErr, hfd]
      rfl) hnet
  refine ⟨hleft, hagain, _, ?_, hexchange⟩
  rintro ⟨rest, hrest⟩
  injection hrest with hhead
  exact absurd hhead (by decide)

/-- A command that is not granted changes nothing. -/
theorem refused_answered (hcmd : cmd ∈ netcmds) (hplain : PlainWord cmd.1) (hshort : cmd.1.length ≤ 9)
    (huser : cmd.2.2 = true) (hright : AsksRight cmd.2.1 action login) (hu : Speakable u)
    (hserves : Serves w s fd) (hs : Session s fd addr (some un) (some pw) login) (hwraps : Wraps w addr un access)
    (hnone : granted access s un pw u action = none)
    (hnet : Exchange w s fd (cmd.1 ++ " ".toList ++ u ++ "\n".toList) net t) :
    (Session t fd addr (some un) (some pw) login ∧ t.users = s.users ∧ t.firstups = s.firstups) ∧ Serves w t fd ∧
      ∃ line, ¬"OK".toList <+: line ∧
        ∀ (conn : Upsconn) (buf : CStr), conn.Settled → exchange conn net buf = (conn, some line) := by
  rw [granted] at hnone
  by_cases haccess : access = false
  · refine @error_answered fd s t w net addr u _ _ login cmd "ACCESS-DENIED".toList hcmd hplain hshort hu hserves hs
      ⟨by decide, by decide, by decide⟩
      (fun s' c husers hptr haddr hun hpw hlogin hfd => ?_) hnet
    rw [huser, checkCommand_user hwraps haddr hun hpw, if_pos haccess]
  cases hups : getUpsPtr s u with
  | none =>
    refine @error_answered fd s t w net addr u _ _ login cmd "UNKNOWN-UPS".toList hcmd hplain hshort hu hserves hs
      ⟨by decide, by decide, by decide⟩
      (fun s' c husers hptr haddr hun hpw hlogin hfd => ?_) hnet
    rw [huser, checkCommand_user hwraps haddr hun hpw, if_neg haccess]
    exact hright.unknown w s' c u hlogin ((hptr u).trans hups)
  | some ups =>
    have hmay : userCheckaction s.users (some un) (some pw) action = false := by
      rw [hups] at hnone
      simpa [haccess] using hnone
    refine @error_answered fd s t w net addr u _ _ login cmd "ACCESS-DENIED".toList hcmd hplain hshort hu hserves hs
      ⟨by decide, by decide, by decide⟩
      (fun s' c husers hptr haddr hun hpw hlogin hfd => ?_) hnet
    rw [huser, checkCommand_user hwraps haddr hun hpw, if_neg haccess]
    refine hright.denied w s' c u ups hlogin ((hptr u).trans hups) ?_
    rw [husers, hun, hpw, hmay]

/-- One that is granted. -/
theorem granted_some (h : granted access s un pw u action = some ups) :
    access = true ∧ userCheckaction s.users (some un) (some pw) action = true ∧ getUpsPtr s u = some ups := by
  rw [granted] at h
  split_ifs at h with hboth
  exact ⟨hboth.1, hboth.2, h⟩

end

theorem login_answered (hu : Speakable u) (hserves : Serves w s fd) (hs : Session s fd addr (some un) (some pw) none)
    (hwraps : Wraps w addr un access) (hgranted : granted access s un pw u "LOGIN".toList = some ups)
    (hnet : Exchange w s fd ("LOGIN ".toList ++ u ++ "\n".toList) net t) :
    (Session t fd addr (some un) (some pw) (some ups.name) ∧ t.users = s.users ∧
      t.firstups = oneMore ups.name s.firstups) ∧
      Serves w t fd ∧
      ∀ (conn : Upsconn) (buf : CStr), conn.Settled → exchange conn net buf = (conn, some "OK".toList) := by
  obtain ⟨haccess, hmay, hups⟩ := granted_some hgranted
  obtain ⟨⟨husers, hall, c, rfl, hun', hpw', -, hsession⟩, hrest⟩ := @handler_answered (oneMore ups.name)
    (fun c => { c with loginups := some ups.name }) fd s t w net addr u "OK".toList (some un) (some pw) none
    ("LOGIN".toList, netLogin, true) (by simp [netcmds]) (by decide) (by decide) hu hserves hs wholeLine_ok
    (fun _ => ⟨rfl, rfl⟩) (fun s' c husers hptr haddr hun hpw hlogin hfd => by
      rw [checkCommand_user hwraps haddr hun hpw, if_neg (by simp [haccess])]
      simp only [netLogin, hlogin, ne_eq, not_true_eq_false, if_false, hptr, hups]
      rw [if_neg (by rw [husers, hun, hpw, hmay]; decide), hfd]
      rfl) hnet
  dsimp only at hsession
  rw [hun', hpw'] at hsession
  exact ⟨⟨hsession, husers, hall⟩, hrest⟩

theorem master_answered (hu : Speakable u) (hserves : Serves w s fd) (hs : Session s fd addr (some un) (some pw) login)
    (hwraps : Wraps w addr un access) (hgranted : granted access s un pw u "MASTER".toList = some ups)
    (hnet : Exchange w s fd ("MASTER ".toList ++ u ++ "\n".toList) net t) :
    (Session t fd addr (some un) (some pw) login ∧ t.users = s.users ∧ t.firstups = s.firstups) ∧ Serves w t fd ∧
      ∀ (conn : Upsconn) (buf : CStr), conn.Settled →
        exchange conn net buf = (conn, some "OK MASTER-GRANTED".toList) := by
  obtain ⟨haccess, hmay, hups⟩ := granted_some hgranted
  refine @kept_answered id fd s t w net addr u _ _ _ login ("MASTER".toList, netMaster, true) (by simp [netcmds])
    (by decide) (by decide) hu hserves hs ⟨by decide, by decide, by decide⟩
    (fun s' c husers hptr haddr hun hpw hlogin hfd => ?_) hnet
  rw [checkCommand_user hwraps haddr hun hpw, if_neg (by simp [haccess])]
  simp only [netMaster, hptr, hups]
  rw [if_neg (by rw [husers, hun, hpw, hmay]; decide), hfd]
  rfl

end

/-! ### The login -/

/-- The commands of `do_upsd_auth` up to `LOGIN`: the server is in the state `q` when that comes, and in `r`
afterwards. -/
structure Authenticates (w : Writes) (fd : Nat) (m : Utype) (u : CStr) (net : AuthNet) (s q r : Upsd) : Prop where
  named : ∃ s1 s2 s3, Exchange w s fd ("USERNAME ".toList ++ m.un ++ "\n".toList) net.username s1 ∧ Others fd s1 s2 ∧
    Exchange w s2 fd ("PASSWORD ".toList ++ m.pw ++ "\n".toList) net.password s3 ∧ Others fd s3 q
  login : Exchange w q fd ("LOGIN ".toList ++ u ++ "\n".toList) net.login r

/-- The monitor has what it needs to log into the UPS `u`, over a new connection. -/
structure Prepared (m : Utype) (u : CStr) : Prop where
  conn : m.conn.Settled
  upsname : m.upsname = some u
  un : Speakable m.un
  pw : Speakable m.pw
  ups : Speakable u

section

variable {fd : Nat} {s q r : Upsd} {w : Writes} {m : Utype} {addr u : CStr} {net : AuthNet} {access : Bool}

/-- The answer of `do_upsd_auth`, up to `MASTER`. -/
theorem doUpsdAuth_of_answers (hm : Prepared m u) {user pass answer : CStr} (hpass : "OK".toList <+: pass)
    (h1 : exchange m.conn net.username ("USERNAME ".toList ++ m.un ++ "\n".toList) = (m.conn, some user))
    (h2 : exchange m.conn net.password ("PASSWORD ".toList ++ m.pw ++ "\n".toList) = (m.conn, some pass))
    (h3 : exchange m.conn net.login ("LOGIN ".toList ++ u ++ "\n".toList) = (m.conn, some answer)) :
    doUpsdAuth net m =
      if "OK".toList <+: answer then checkmaster net.master { m with status := setflag m.status stLogin }
      else (m, false) := by
  have hne : u ≠ [] := hm.ups.name.1.elim (fun heq => heq ▸ List.cons_ne_nil _ _) And.left
  have hsame : { m with upsname := some u } = m := by
    rw [← hm.upsname]
  unfold doUpsdAuth
  simp only [h1, h2, hpass, not_true_eq_false, if_false, hm.upsname, hne, h3]
  rw [← hsame]
  split_ifs with hok
  · rfl
  · rfl

theorem checkmaster_status (net : Net) (m : Utype) : (checkmaster net m).1.status = m.status := by
  unfold checkmaster
  split_ifs
  · rfl
  · split
    · rfl
    · split_ifs
      · rfl
      · split <;> rfl

/-- What a master makes of the answer to `MASTER`. -/
theorem checkmaster_line (hm : Prepared m u) {net : Net} {line : CStr} {status : BitVec 32}
    (hmaster : flagIsset status stMaster = true)
    (h : exchange m.conn net ("MASTER ".toList ++ u ++ "\n".toList) = (m.conn, some line)) :
    (checkmaster net { m with status := status }).2 = decide ("OK".toList <+: line) := by
  have hne : u ≠ [] := hm.ups.name.1.elim (fun heq => heq ▸ List.cons_ne_nil _ _) And.left
  rw [checkmaster, if_neg (by simp [hmaster])]
  simp only [hm.upsname, hne, if_false, h]

theorem master_line (hu : Speakable u) {net : Net} {s t : Upsd} {login : Option CStr} {un pw : CStr}
    (hserves : Serves w s fd)
    (hs : Session s fd addr (some un) (some pw) login) (hwraps : Wraps w addr un access)
    (hnet : Exchange w s fd ("MASTER ".toList ++ u ++ "\n".toList) net t) : ∃ line,
      (∀ (conn : Upsconn) (buf : CStr), conn.Settled → exchange conn net buf = (conn, some line)) ∧
        decide ("OK".toList <+: line) = (granted access s un pw u "MASTER".toList).isSome := by
  cases hg : granted access s un pw u "MASTER".toList with
  | none =>
    obtain ⟨-, -, line, hno, hline⟩ := refused_answered
      (show ("MASTER".toList, netMaster, true) ∈ netcmds by simp [netcmds]) (by decide) (by decide) rfl
        (asksRight_master login) hu hserves hs hwraps hg hnet
    exact ⟨line, hline, decide_eq_false hno⟩
  | some ups =>
    obtain ⟨-, -, hline⟩ := master_answered hu hserves hs hwraps hg hnet
    exact ⟨_, hline, decide_eq_true (by decide)⟩

/-- The monitor and the server agree about the login, and about the right to be a master. -/
structure LoginAgrees (w : Writes) (fd : Nat) (m : Utype) (u addr : CStr) (access : Bool) (net : AuthNet) (q r : Upsd) :
    Prop where
  session : Session r fd addr (some m.un) (some m.pw) ((granted access q m.un m.pw u "LOGIN".toList).map Upstype.name)
  counted : r.firstups =
    (granted access q m.un m.pw u "LOGIN".toList).elim q.firstups fun ups => oneMore ups.name q.firstups
  flag : flagIsset (doUpsdAuth net m).1.status stLogin = true ↔ (granted access q m.un m.pw u "LOGIN".toList).isSome
  slave : flagIsset m.status stMaster = false →
    ((doUpsdAuth net m).2 = true ↔ (granted access q m.un m.pw u "LOGIN".toList).isSome)
  master : flagIsset m.status stMaster = true → ∀ q' t, Others fd r q' →
    Exchange w q' fd ("MASTER ".toList ++ u ++ "\n".toList) net.master t →
      ((doUpsdAuth net m).2 = true ↔ (granted access q m.un m.pw u "LOGIN".toList).isSome ∧
        (granted access q' m.un m.pw u "MASTER".toList).isSome)

end

/-! ### A master logs in -/

/-- The command comes in one piece, and so does its answer. -/
theorem exchange_packet {w : Writes} {s : Upsd} {fd : Nat} {cmd buf : CStr} (now : Int) (hclient : (s.client fd).isSome)
    (hsent : ((clientReads w fd s [(now, cmd)]).client fd).map NutCtype.sent = (s.client fd).map (·.sent ++ [buf]))
    (hcmd : cmd ≠ []) (hbuf : buf ≠ []) :
    Exchange w s fd cmd ⟨cmd.length, [.bytes buf]⟩ (clientReads w fd s [(now, cmd)]) where
  wrote := rfl
  answered := by
    obtain ⟨client, hclient⟩ := Option.isSome_iff_exists.1 hclient
    rw [hclient, Option.map_some] at hsent
    obtain ⟨client', hclient', hsent⟩ := Option.map_eq_some_iff.1 hsent
    refine ⟨[(now, cmd)], [buf], [buf], ⟨?_, ?_⟩, rfl, ⟨client, client', hclient, hclient', hsent⟩, ⟨rfl, ?_⟩, rfl⟩
    · exact List.append_nil cmd
    · simpa using hcmd
    · simpa using hbuf

def masterMonitor : Utype :=
  { newUps "u@localhost".toList (some "u".toList) 1 "a".toList "b".toList "master".toList with
    conn := Upsconn.connected }

def masterNet : AuthNet where
  username := ⟨11, [.bytes "OK\n".toList]⟩
  password := ⟨11, [.bytes "OK\n".toList]⟩
  login := ⟨8, [.bytes "OK\n".toList]⟩
  master := ⟨9, [.bytes "OK MASTER-GRANTED\n".toList]⟩

/-- After the name has come, another client does. -/
def namedServer : Upsd := clientConnect 102 (oneClientServer.hears "USERNAME a\n".toList) 8 "::1".toList

def passedServer : Upsd := namedServer.hears "PASSWORD b\n".toList

def masterServer : Upsd := passedServer.hears "LOGIN u\n".toList

def newClient : NutCtype := ⟨"127.0.0.1".toList, 7, 100, none, none, none, pconfInit, []⟩

/-- The states of the run. -/
theorem login_steps : oneClientServer.client 7 = some newClient ∧
    ((oneClientServer.hears "USERNAME a\n".toList).client 7).map NutCtype.sent = some ["OK\n".toList] ∧
    (oneClientServer.hears "USERNAME a\n".toList).step (.accept 8 102 "::1".toList) = some namedServer ∧
    (namedServer.client 7).map NutCtype.sent = some ["OK\n".toList] ∧
    (passedServer.client 7).map NutCtype.sent = some ["OK\n".toList, "OK\n".toList] ∧
    (masterServer.client 7).map NutCtype.sent = some ["OK\n".toList, "OK\n".toList, "OK\n".toList] ∧
    (granted true passedServer "a".toList "b".toList "u".toList "LOGIN".toList).isSome := by decide +kernel

end Upsmon

end Nut
