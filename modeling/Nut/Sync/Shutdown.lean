import Nut.Clients.Slavesync
import Nut.Server.Logins
import Nut.Sync.Login
import Nut.Sync.Structural

/-!
# The master and its slaves

A master that is to shut its UPS down sets `FSD` on it (`setfsd`) and waits for its slaves to log out (`slavesync`).
The flag is set exactly when the master is entitled to that (`forced`).  While the server answers its queries, the
master stops waiting for the sake of the logins in the first round in which none of its UPSes has more than one client
logged in, and until then it waits for `HOSTSYNC` seconds (`waits_for_slaves`).
-/

namespace Nut.Upsmon

/-- What is left of the UPS. -/
def setfsd (net : Net) (ups : Utype) : Utype :=
  match ups.upsname with
  | none => ups
  | some upsname => { ups with conn := (exchange ups.conn net ("FSD ".toList ++ upsname ++ "\n".toList)).1 }

/-- The UPSes after the shutdown of the one with the name is forced. -/
def forcedOn (name : CStr) (upses : List Upstype) : List Upstype :=
  upses.map fun ups => if ups.name = name then { ups with fsd := true } else ups

section

variable {fd : Nat} {s t : Upsd} {w : Writes} {net : Net} {addr u un pw : CStr} {login : Option CStr} {access : Bool}
  {ups : Upstype}

theorem asksRight_fsd (login : Option CStr) : AsksRight netFsd "FSD".toList login where
  unknown w s c u _ hptr := by
    simp only [netFsd, hptr]
  denied w s c u ups _ hptr hmay := by
    simp only [netFsd, hptr]
    exact if_pos hmay

theorem fsd_answered (hu : Speakable u) (hserves : Serves w s fd) (hs : Session s fd addr (some un) (some pw) login)
    (hwraps : Wraps w addr un access) (hgranted : granted access s un pw u "FSD".toList = some ups)
    (hnet : Exchange w s fd ("FSD ".toList ++ u ++ "\n".toList) net t) :
    (Session t fd addr (some un) (some pw) login ∧ t.users = s.users ∧ t.firstups = forcedOn ups.name s.firstups) ∧
      Serves w t fd ∧
      ∀ (conn : Upsconn) (buf : CStr), conn.Settled → exchange conn net buf = (conn, some "OK FSD-SET".toList) := by
  obtain ⟨haccess, hmay, hups⟩ := granted_some hgranted
  refine @kept_answered (forcedOn ups.name) fd s t w net addr u _ _ _ login ("FSD".toList, netFsd, true)
    (by simp [netcmds])
    (by decide) (by decide) hu hserves hs ⟨by decide, by decide, by decide⟩
    (fun s' c husers hptr haddr hun hpw hlogin hfd => ?_) hnet
  rw [checkCommand_user hwraps haddr hun hpw, if_neg (by simp [haccess])]
  simp only [netFsd, hptr, hups]
  rw [if_neg (by rw [husers, hun, hpw, hmay]; decide), hfd]
  rfl

end

theorem stage_clientReads {s : Upsd} (h : s.Stage) (w : Writes) (fd : Nat) (packets : List (Int × CStr)) :
    (clientReads w fd s packets).Stage := by
  induction packets generalizing s with
  | nil => exact h
  | cons p packets ih => exact ih (h.step (.event (.client fd p.1 w (some p.2)) rfl))

theorem setfsd_line {m : Utype} {u line : CStr} {net : Net} (hm : Attached m u)
    (h : exchange m.conn net ("FSD ".toList ++ u ++ "\n".toList) = (m.conn, some line)) : setfsd net m = m := by
  rw [setfsd, hm.upsname]
  dsimp only
  rw [h, ← hm.upsname]

/-- A master that is to shut a UPS down makes `upsd` set the flag exactly when it is entitled to that.  Every monitor
that asks for the status from then on hears of it, whatever happens to the driver and to other clients, as long as the
UPS is configured. -/
theorem shutdown_heard {fd : Nat} {s t : Upsd} {w : Writes} {net : Net} {addr u un pw : CStr} {login : Option CStr}
    {access : Bool} {m : Utype} (hstage : s.Stage) (hm : Attached m u) (hu : Speakable u) (hserves : Serves w s fd)
    (hs : Session s fd addr (some un) (some pw) login) (hwraps : Wraps w addr un access)
    (hnet : Exchange w s fd ("FSD ".toList ++ u ++ "\n".toList) net t) :
    setfsd net m = m ∧ (granted access s un pw u "FSD".toList = none → t.firstups = s.firstups) ∧
      ∀ ups, granted access s un pw u "FSD".toList = some ups → ∀ v, Upsd.Keeps ups.name t v →
        ∃ ups' ∈ v.firstups, ups'.name = ups.name ∧ ∀ (u : CStr) (node : StNode) (w : Writes) (fd : Nat),
          getUpsPtr v u = some ups' → Servable u ups' → node ∈ ups'.inforoot.walk → node.var = "ups.status".toList →
            Serves w v fd → Heard v ups' u w fd := by
  have hstage' : t.Stage := by
    obtain ⟨packets, -, -, -, rfl, -⟩ := hnet.answered
    exact stage_clientReads hstage w fd packets
  cases hg : granted access s un pw u "FSD".toList with
  | none =>
    obtain ⟨⟨-, -, hups⟩, -, line, -, hline⟩ := refused_answered
      (show ("FSD".toList, netFsd, true) ∈ netcmds by simp [netcmds]) (by decide) (by decide) rfl
        (asksRight_fsd login) hu
      hserves hs hwraps hg hnet
    exact ⟨setfsd_line hm (hline m.conn _ hm.conn), fun _ => hups,
      fun _ hsame => (Option.some_ne_none _ hsame.symm).elim⟩
  | some ups =>
    obtain ⟨⟨-, -, hups⟩, -, hline⟩ := fsd_answered hu hserves hs hwraps hg hnet
    refine ⟨setfsd_line hm (hline m.conn _ hm.conn), fun hsame => (Option.some_ne_none _ hsame).elim,
      fun ups' hsame v hkeeps => ?_⟩
    obtain rfl := Option.some.inj hsame
    have hmem := mem_of_getUpsPtr (granted_some hg).2.2
    refine heard_of_latched hstage' ⟨{ ups with fsd := true }, ?_, rfl, rfl⟩ hkeeps
    rw [hups]
    exact List.mem_map.2 ⟨ups, hmem, if_pos rfl⟩

/-- The master asks for the shutdown. -/
def forcedServer : Upsd := loggedInServer.hears "FSD u\n".toList

/-- The driver completes its dump after that. -/
def dumpEvent : Nut.Event := .driver "u".toList 102 (.data "SETINFO ups.status \"OB LB\"\nDATAOK\nDUMPDONE\n".toList)

def dumpedServer : Upsd := (forcedServer.step dumpEvent).getD forcedServer

/-- A slave has connected. -/
def slaveServer : Upsd := clientConnect 103 dumpedServer 8 "10.0.0.2".toList

def heardServer : Upsd := scan 104 oneDriver allWritten slaveServer

def heardUps : Upstype := heardServer.firstups.headD (Nut.newUps [] [] none)

def slaveClient : NutCtype := ⟨"10.0.0.2".toList, 8, 103, none, none, none, pconfInit, []⟩

def heardNode : StNode := heardUps.inforoot.walk.headD (newNode [] [])

def masterClient : NutCtype :=
  ⟨"127.0.0.1".toList, 7, 100, some "u".toList, some "b".toList, some "a".toList, pconfInit,
    ["OK\n".toList, "OK\n".toList,
    "OK\n".toList]⟩

def loggedUps : Upstype := loggedInServer.firstups.headD (Nut.newUps [] [] none)

/-- The states of the run. -/
theorem heard_steps : loggedInServer.client 7 = some masterClient ∧
    (forcedServer.client 7).map NutCtype.sent = some (masterClient.sent ++ ["OK FSD-SET\n".toList]) ∧
    granted true loggedInServer "a".toList "b".toList "u".toList "FSD".toList = some loggedUps ∧
    loggedUps.name = "u".toList ∧ forcedServer.step dumpEvent = some dumpedServer ∧
    dumpedServer.step (.accept 8 103 "10.0.0.2".toList) = some slaveServer ∧
    (∃ ups ∈ dumpedServer.firstups, ups.name = "u".toList) ∧ (∃ ups ∈ slaveServer.firstups, ups.name = "u".toList) ∧
    heardServer.firstups = [heardUps] ∧ getUpsPtr heardServer "u".toList = some heardUps ∧
    heardServer.client 8 = some slaveClient ∧ heardUps.name = "u".toList ∧ heardUps.fsd = true ∧
    heardUps.Available ∧ heardUps.inforoot = [StateCall.setinfo "ups.status".toList "WAIT".toList,
      .setinfo "ups.status".toList "OB LB".toList].foldl StateCall.run .nil ∧ heardNode ∈ heardUps.inforoot.walk ∧
    heardNode.var = "ups.status".toList := by decide +kernel

theorem shutdown_heard_slave : Heard heardServer heardUps "u".toList allWritten 8 := by
  obtain ⟨hclient, hsent, hgranted, hname, hdump, haccept, hstays, hstays', hone, hptr, hslave, hheardname, hset,
    havailable,
    hroot, hnode, hvar⟩ := heard_steps
  have hnet : Exchange allWritten loggedInServer 7 "FSD u\n".toList ⟨6, [.bytes "OK FSD-SET\n".toList]⟩ forcedServer :=
    exchange_packet 101 (by rw [hclient]; rfl) (by rw [hclient]; exact hsent) (by decide) (by decide)
  have hkeeps : Upsd.Keeps loggedUps.name forcedServer heardServer := by
    rw [hname]
    exact ((Upsd.Keeps.refl.step (.event _ hdump) hstays).step (.event _ haccept) hstays').step
      (.event (.scan 104 oneDriver allWritten) rfl) ⟨heardUps, by rw [hone]; exact List.mem_singleton_self _,
        hheardname⟩
  obtain ⟨-, -, hheard⟩ :=
    @shutdown_heard 7 loggedInServer forcedServer allWritten _ "127.0.0.1".toList "u".toList "a".toList
    "b".toList (some "u".toList) true masterMonitor stage_loggedInServer ⟨rfl, ⟨rfl, .init⟩, rfl⟩ ⟨by decide, by decide⟩
    ⟨⟨masterClient, hclient, atLineStart_pconfInit⟩, fun _ => rfl⟩ ⟨masterClient, hclient, rfl, rfl, rfl, rfl⟩
    (fun _ _ _ => rfl) hnet
  obtain ⟨ups', hups', -, h⟩ := hheard loggedUps hgranted heardServer hkeeps
  have hsame : ups' = heardUps := List.mem_singleton.1 (hone ▸ hups')
  rw [hsame] at h
  refine h "u".toList heardNode allWritten 8 hptr ⟨havailable, ⟨_, hroot⟩, by decide, ?_, ?_, by decide, ?_⟩ hnode hvar
    ⟨⟨slaveClient, hslave, atLineStart_pconfInit⟩, fun _ => rfl⟩
  · rw [hroot]
    decide
  · rw [hroot]
    decide
  · rw [hroot, hset]
    decide

/-! ### The login counts -/

/-- The line that asks for the number of logins. -/
def numloginsQuery (u : CStr) : CStr := cmdText "GET".toList ["NUMLOGINS".toList, u]

/-- How many clients are logged into the UPS. -/
def loginsOf (s : Upsd) (ups : Upstype) : Nat := Nut.loginCount s.firstclient ups.name

/-- The server as it is when the query of a master comes: the UPS is known under the name `u`, and its data is
served. -/
structure Counts (s : Upsd) (u : CStr) (ups : Upstype) : Prop where
  stage : s.Stage
  ptr : getUpsPtr s u = some ups
  connected : ups.sockFd ≠ none
  fresh : ups.stale = false
  few : s.firstclient.length < 2 ^ 31

section

variable {s s' t : Upsd} {u : CStr} {ups : Upstype} {w : Writes} {fd : Nat} {client : NutCtype} {net : Net} {m : Utype}

theorem Counts.numlogins (h : Counts s u ups) : ups.numlogins = loginsOf s ups := by
  exact (accounted h.stage).counts ups (mem_of_getUpsPtr h.ptr)

/-- The count is as it is printed. -/
theorem Counts.toInt (h : Counts s u ups) : (Int32.ofInt ups.numlogins).toInt = loginsOf s ups := by
  have hle : loginsOf s ups ≤ s.firstclient.length := List.countP_le_length
  have hfew := h.few
  rw [h.numlogins, Int32.toInt_ofInt_of_le (by omega) (by omega)]

/-- The line that answers the query. -/
def numloginsLine (u : CStr) (logins : Int32) : CStr := unwords ["NUMLOGINS".toList, u, formatInt logins]

/-- The name of a UPS: it can be sent as it is, and fits the query and the answer. -/
structure Countable (u : CStr) : Prop where
  name : PlainName u
  fits : u.length + 24 ≤ upscliNetbufLen

theorem plainName_formatInt (i : Int32) : PlainName (formatInt i) :=
  ⟨(isWord_formatInt i).1, fun _ hc => (StructOp.number_chars hc).2⟩

theorem Countable.words (hu : Countable u) (logins : Int32) :
    ∀ v ∈ ["NUMLOGINS".toList, u, formatInt logins], IsWord v ∧ Nut.Kept v := by
  have hfits := hu.fits
  have hlimit : upscliNetbufLen = pconfDefaultWordlenLimit := rfl
  intro v hv
  simp only [List.mem_cons, List.not_mem_nil, or_false] at hv
  rcases hv with rfl | rfl | rfl
  · decide
  · exact ⟨hu.name.isWord (by omega), hu.name.kept⟩
  · exact ⟨isWord_formatInt logins, (plainName_formatInt logins).kept⟩

theorem Countable.wholeLine (hu : Countable u) (logins : Int32) : WholeLine (numloginsLine u logins) := by
  have hfits := hu.fits
  have hlen := length_formatInt logins
  have hwords := hu.words logins
  have hname : "NUMLOGINS".toList.length = 9 := rfl
  refine wholeLine_of_kept (fun c hc => ?_) ?_
  · unfold numloginsLine at hc
    rw [unwords_three] at hc
    simp only [List.mem_append, List.mem_cons] at hc
    rcases hc with hc | rfl | hc | rfl | hc
    · exact (hwords _ (by simp)).2 c hc
    · decide
    · exact hu.name.kept c hc
    · decide
    · exact (plainName_formatInt logins).kept c hc
  · unfold numloginsLine
    rw [unwords_three]
    simp only [List.length_append, List.length_cons]
    omega

theorem Countable.finish (hu : Countable u) (logins : Int32) :
    Lexer.start.finish (numloginsLine u logins) = ["NUMLOGINS".toList, u] ++ [formatInt logins] :=
  finish_unwords (fun v hv => (hu.words logins v hv).1) (show 3 ≤ pconfDefaultArgLimit by decide) (List.cons_ne_nil _ _)

theorem upscliErrcheck_numloginsLine (u : CStr) (logins : Int32) : upscliErrcheck (numloginsLine u logins) = none := by
  have hopening : Opening "NUMLOGINS".toList := opening_of (by decide) (by decide) (by decide) (by decide)
  unfold numloginsLine
  rw [unwords_three]
  exact hopening.notErr _

/-- The query is answered with the count. -/
theorem Counts.told (h : Counts s u ups) (hserves : Serves w s fd) (hsame : SameBut s s' fd)
    (hclient : s'.client fd = some client) : parseNet w s' client ["GET".toList, "NUMLOGINS".toList, u] =
      s'.told fd [answer (numloginsLine u (Int32.ofInt ups.numlogins) ++ ['\n'])] false := by
  obtain ⟨-, hfd⟩ := client_self hclient
  have hptr : getUpsPtr s' u = some ups := (hsame.getUpsPtr u).trans h.ptr
  have htext : ("NUMLOGINS ".toList ++ u ++ " ".toList ++ formatInt (Int32.ofInt ups.numlogins) ++ "\n".toList) =
      numloginsLine u (Int32.ofInt ups.numlogins) ++ ['\n'] := by
    unfold numloginsLine
    rw [unwords_three]
    simp
  rw [parseNet_get ⟨_, rfl, by decide⟩, netGet, if_pos (by decide), getNumlogins,
    withUps_of_available hptr ⟨h.connected, h.fresh⟩, hfd, htext, sendback_eq, hserves.writes]
  rfl

/-- The master reads the count. -/
theorem Counts.getVar (h : Counts s u ups) (hu : Countable u) (hm : Attached m u) (hserves : Serves w s fd)
    (hnet : Exchange w s fd (numloginsQuery u) net t) : Serves w t fd ∧ ∃ conn, conn.Settled ∧
      Upsmon.getVar m net "numlogins".toList =
        some ({ m with conn := conn }, some (formatInt (Int32.ofInt ups.numlogins))) := by
  have hfits := hu.fits
  have hnames : ∀ n ∈ ["NUMLOGINS".toList, u], PlainName n := by
    intro n hn
    simp only [List.mem_cons, List.not_mem_nil, or_false] at hn
    rcases hn with rfl | rfl
    · decide
    · exact hu.name
  have hquery : (cmdText "GET".toList ["NUMLOGINS".toList, u]).length < upscliNetbufLen := by
    have hname : argText "NUMLOGINS".toList = " NUMLOGINS".toList := by decide
    have hlen : " NUMLOGINS".toList.length = 10 := rfl
    have hcmd : "GET".toList.length = 3 := rfl
    rw [cmdText, List.flatMap_cons, List.flatMap_cons, List.flatMap_nil, hname, hu.name.argText]
    simp only [List.length_append, List.length_cons, List.length_nil]
    omega
  have hcmd := readsAs_names (by decide : PlainWord "GET".toList) hnames
    (show 2 < pconfDefaultArgLimit by decide) hquery
  rw [numloginsQuery, ← buildCmd_eq hquery] at hnet
  obtain ⟨-, hafter⟩ := exchange_told hserves hcmd fun s' client' hsame hclient' => h.told hserves hsame hclient'
  obtain ⟨hwrote, hagain, -, hahead⟩ := hafter net t hnet
  have hstream := hahead m.conn hm.conn.readbuf
  have hline := hu.wholeLine (Int32.ofInt ups.numlogins)
  have hone := @flatten_answers [numloginsLine u (Int32.ofInt ups.numlogins)] (by simpa using hline)
  rw [List.map_singleton, wire_cons] at hone
  rw [hone] at hstream
  have hsame : Repeated ["NUMLOGINS".toList, u] ["NUMLOGINS".toList, u] :=
    .cons (strcasecmp_self _) (.cons (strcasecmp_self u) .nil)
  obtain ⟨conn, left, hget, hidle, hleft, hargs⟩ := upscliGet_line hm.conn.toIdle hwrote hline hstream
    (upscliErrcheck_numloginsLine u _) (List.cons_ne_nil _ _) (hu.finish _) hsame
  obtain ⟨rfl, hbuf⟩ := hleft.eq_nil
  refine ⟨hagain, conn, ⟨hidle, hbuf⟩, ?_⟩
  obtain ⟨hnum, hslot⟩ := slot_of_args (show conn.pcCtx.args[2]? = some (formatInt (Int32.ofInt ups.numlogins)) by
    rw [hargs]
    rfl)
  have hlen := length_formatInt (Int32.ofInt ups.numlogins)
  rw [Upsmon.getVar, hm.upsname]
  dsimp only
  rw [if_pos rfl, if_neg (List.cons_ne_nil _ _), hget]
  simp only [List.length_cons, List.length_nil, Nat.reduceAdd, if_neg (Nat.not_lt.2 hnum.le), hslot, Option.map_some]
  rw [snprintf_of_lt (by omega)]

end

/-! ### Waiting -/

/-- The server, and the UPS in it, that a query about a UPS of the monitor finds in a round. -/
abbrev Servers := Round → CStr → Upsd × Upstype

/-- The queries about a UPS in the round reach the server, and are answered. -/
structure Reached (net : Net) (u : CStr) (s : Upsd) (ups : Upstype) : Prop where
  counts : Counts s u ups
  exchange : ∃ w fd t, Serves w s fd ∧ Exchange w s fd (numloginsQuery u) net t

/-- In each of the rounds the server answers the query about the UPS. -/
structure Followed (servers : Servers) (rounds : List Round) (m : Utype) (u : CStr) : Prop where
  attached : Attached m u
  countable : Countable u
  reached : ∀ round ∈ rounds, Reached (round.net m.sys) u (servers round m.sys).1 (servers round m.sys).2

/-- In each of the rounds the server answers all queries. -/
def AllFollowed (servers : Servers) (rounds : List Round) (upses : List Utype) : Prop :=
  ∀ m ∈ upses, flagIsset m.status stMaster = true → ∃ u, Followed servers rounds m u

/-- The UPSes of which the monitor is a master. -/
def masters (upses : List Utype) : List CStr := (upses.filter fun ups => flagIsset ups.status stMaster).map Utype.sys

/-- No UPS of the master has more than one login, its own. -/
def Gone (servers : Servers) (sys : List CStr) (round : Round) : Prop :=
  ∀ name ∈ sys, loginsOf (servers round name).1 (servers round name).2 ≤ 1

instance (servers : Servers) (sys : List CStr) : DecidablePred (Gone servers sys) := fun _ =>
  inferInstanceAs (Decidable (∀ _ ∈ _, _))

/-- What waiting is for: the slaves are gone, or `HOSTSYNC` has passed. -/
def waitFor (hostsync : Int32) (start : Int) (gone : Round → Prop) [DecidablePred gone] : List Round → Sync
  | [] => .waiting
  | round :: rounds =>
    if gone round then .slavesGone
    else if hostsync.toInt < round.now - start then .expired
    else waitFor hostsync start gone rounds

section

variable {servers : Servers} {rounds : List Round} {round : Round} {m : Utype} {upses : List Utype} {u : CStr}

theorem masters_cons (m : Utype) (upses : List Utype) : masters (m :: upses) =
    if flagIsset m.status stMaster = true then m.sys :: masters upses else masters upses := by
  unfold masters
  split_ifs with hmaster
  · rw [List.filter_cons_of_pos (by exact hmaster), List.map_cons]
  · rw [List.filter_cons_of_neg (by exact hmaster)]

/-- The query is answered with the count, and leaves the UPS as it was. -/
theorem Followed.getVar (h : Followed servers (round :: rounds) m u) : ∃ m' temp,
    Upsmon.getVar m (round.net m.sys) "numlogins".toList = some (m', some temp) ∧
      (atoi temp ≤ 1 ↔ loginsOf (servers round m.sys).1 (servers round m.sys).2 ≤ 1) ∧
      m'.sys = m.sys ∧ m'.status = m.status ∧ Followed servers rounds m' u := by
  obtain ⟨hcounts, w, fd, t, hserves, hnet⟩ := h.reached round List.mem_cons_self
  obtain ⟨-, conn, hconn, hget⟩ := hcounts.getVar h.countable h.attached hserves hnet
  refine ⟨_, _, hget, ?_, rfl, rfl, ⟨h.attached.upsname, hconn⟩, h.countable,
    fun r hr => h.reached r (List.mem_cons_of_mem _ hr)⟩
  have hint := hcounts.toInt
  have hone : (1 : Int32).toInt = 1 := rfl
  rw [atoi_formatInt, Int32.le_iff_toInt_le, hint, hone]
  omega

/-- A round of queries: it tells whether the slaves are gone. -/
theorem queryLogins_followed (h : AllFollowed servers (round :: rounds) upses) (v : Int32) : ∃ upses' maxlogins,
    queryLogins round.net upses v = some (upses', maxlogins) ∧ masters upses' = masters upses ∧
      AllFollowed servers rounds upses' := by
  induction upses generalizing v with
  | nil => exact ⟨[], v, rfl, rfl, fun _ hm => absurd hm List.not_mem_nil⟩
  | cons m upses ih =>
    rw [AllFollowed, List.forall_mem_cons] at h
    by_cases hmaster : flagIsset m.status stMaster = true
    · obtain ⟨u, hu⟩ := h.1 hmaster
      obtain ⟨m', temp, hget, -, hsys, hstatus, hfollowed⟩ := hu.getVar
      obtain ⟨upses', maxlogins, hquery, hmasters, hrest⟩ := ih h.2 (if v < atoi temp then atoi temp else v)
      refine ⟨m' :: upses', maxlogins, ?_, ?_, ?_⟩
      · rw [queryLogins, if_neg (by simp [hmaster]), hget]
        dsimp only
        rw [hquery]
        rfl
      · have hmaster' : flagIsset m'.status stMaster = true := by rwa [hstatus]
        rw [masters_cons, masters_cons, if_pos hmaster, if_pos hmaster', hsys, hmasters]
      · exact List.forall_mem_cons.2 ⟨fun _ => ⟨u, hfollowed⟩, hrest⟩
    · obtain ⟨upses', maxlogins, hquery, hmasters, hrest⟩ := ih h.2 v
      refine ⟨m :: upses', maxlogins, ?_, ?_, ?_⟩
      · rw [queryLogins, if_pos (by simpa using hmaster), hquery]
        rfl
      · rw [masters_cons, masters_cons, if_neg hmaster, if_neg hmaster, hmasters]
      · exact List.forall_mem_cons.2 ⟨fun h => absurd h hmaster, hrest⟩

theorem quiet_iff_gone (h : AllFollowed servers (round :: rounds) upses) :
    Quiet round.net upses ↔ Gone servers (masters upses) round := by
  unfold Quiet Gone masters
  simp only [List.forall_mem_map, List.mem_filter, and_imp]
  refine forall₂_congr fun m hm => forall_congr' fun hmaster => ?_
  obtain ⟨u, hu⟩ := h m hm hmaster
  obtain ⟨m', temp, hget, hcount, -⟩ := hu.getVar
  rw [hget, ← hcount]
  simp

end

/-- As long as its queries are answered, the master leaves off waiting when it should: in the first round in which the
server counts no more than one login for any of its UPSes, or after `HOSTSYNC` seconds. -/
theorem waits_for_slaves {servers : Servers} {rounds : List Round} {upses : List Utype}
    (h : AllFollowed servers rounds upses) (hostsync : Int32) (start : Int) : ∃ last,
    slavesync hostsync start rounds upses =
      some (last, waitFor hostsync start (Gone servers (masters upses)) rounds) := by
  induction rounds generalizing upses with
  | nil => exact ⟨upses, rfl⟩
  | cons round rounds ih =>
    obtain ⟨upses', maxlogins, hquery, hmasters, hrest⟩ := queryLogins_followed h 0
    have hgone : maxlogins ≤ 1 ↔ Gone servers (masters upses) round := by
      rw [← quiet_iff_gone h]
      have hle := queryLogins_le_one round.net upses 0
      rw [hquery] at hle
      simpa using hle
    obtain ⟨last, hlast⟩ := ih hrest
    rw [slavesync, hquery, waitFor]
    dsimp only
    rw [← hmasters] at hgone ⊢
    by_cases hall : Gone servers (masters upses') round
    · rw [if_pos hall, if_pos (hgone.2 hall)]
      exact ⟨upses', rfl⟩
    · rw [if_neg hall, if_neg (mt hgone.1 hall)]
      split_ifs
      · exact ⟨upses', rfl⟩
      · exact ⟨last, hlast⟩

/-! ### A slave that leaves -/

/-- The slave comes and logs in. -/
def comeServer : Upsd := clientConnect 101 loggedInServer 8 "10.0.0.2".toList

def slaveLine (words : List CStr) (s : Upsd) : Upsd := netLine 101 allWritten 8 s words.length words

theorem stage_slaveLine (words : List CStr) {s : Upsd} (h : s.Stage) : (slaveLine words s).Stage := h.step (.line ..)

def joinedServer : Upsd :=
  slaveLine ["LOGIN".toList, "u".toList] (slaveLine ["PASSWORD".toList, "b".toList]
    (slaveLine ["USERNAME".toList, "a".toList] comeServer))

/-- The slave goes, after the master has asked for the first time. -/
def askedServer : Upsd := joinedServer.hears (numloginsQuery "u".toList)

def leftServer : Upsd := clientDisconnect askedServer 8

def firstRound : Round := ⟨fun _ => ⟨16, [.bytes "NUMLOGINS u 2\n".toList]⟩, 100⟩

def secondRound : Round := ⟨fun _ => ⟨16, [.bytes "NUMLOGINS u 1\n".toList]⟩, 105⟩

def countedUps (s : Upsd) : Upstype := s.firstups.headD (Nut.newUps [] [] none)

def slaveServers : Servers := fun round _ =>
  if round.now = 100 then (joinedServer, countedUps joinedServer) else (leftServer, countedUps leftServer)

theorem slave_steps : loggedInServer.step (.accept 8 101 "10.0.0.2".toList) = some comeServer ∧
    joinedServer.client 7 = some masterClient ∧ getUpsPtr joinedServer "u".toList = some (countedUps joinedServer) ∧
    (countedUps joinedServer).Available ∧ joinedServer.firstclient.length = 2 ∧
    (askedServer.client 7).map NutCtype.sent = some (masterClient.sent ++ ["NUMLOGINS u 2\n".toList]) ∧
    getUpsPtr leftServer "u".toList = some (countedUps leftServer) ∧ (countedUps leftServer).Available ∧
    leftServer.firstclient.length = 1 ∧ (leftServer.client 7).isSome ∧
    ((leftServer.hears (numloginsQuery "u".toList)).client 7).map NutCtype.sent =
      (leftServer.client 7).map (·.sent ++ ["NUMLOGINS u 1\n".toList]) ∧
    waitFor 15 100 (Gone slaveServers (masters [masterMonitor])) [firstRound, secondRound] = .slavesGone := by
  decide +kernel

theorem waits_for_slaves_left : ∃ last,
    slavesync 15 100 [firstRound, secondRound] [masterMonitor] = some (last, .slavesGone) := by
  obtain ⟨haccept, hclient, hptr, havailable, htwo, hsent, hptr', havailable', hone, hclient', hsent', hwait⟩ :=
    slave_steps
  have hstage : joinedServer.Stage :=
    stage_slaveLine _ (stage_slaveLine _ (stage_slaveLine _ (stage_loggedInServer.step (.event _ haccept))))
  have hstage' : leftServer.Stage := (stage_clientReads hstage allWritten 7 _).step (.event (.clientHup 8) rfl)
  have hcounts : Counts joinedServer "u".toList (countedUps joinedServer) :=
    ⟨hstage, hptr, havailable.1, havailable.2, by rw [htwo]; decide⟩
  have hcounts' : Counts leftServer "u".toList (countedUps leftServer) :=
    ⟨hstage', hptr', havailable'.1, havailable'.2, by rw [hone]; decide⟩
  have hmaster : Attached masterMonitor "u".toList := ⟨rfl, ⟨rfl, .init⟩, rfl⟩
  have hu : Countable "u".toList := ⟨by decide, by decide⟩
  have hserves : Serves allWritten joinedServer 7 := ⟨⟨masterClient, hclient, atLineStart_pconfInit⟩, fun _ => rfl⟩
  have hnet : Exchange allWritten joinedServer 7 (numloginsQuery "u".toList)
      (firstRound.net masterMonitor.sys) askedServer :=
    exchange_packet 101 (by rw [hclient]; rfl) (by rw [hclient]; exact hsent) (by decide) (by decide)
  have hserves' : Serves allWritten leftServer 7 := by
    obtain ⟨hagain, -⟩ := hcounts.getVar hu hmaster hserves hnet
    obtain ⟨client, hfound, -⟩ := hagain.client
    have hnone : askedServer.client 7 ≠ none := by
      rw [hfound]
      exact Option.some_ne_none _
    have haside : Aside 7 askedServer leftServer :=
      @aside_step 7 askedServer leftServer (.clientHup 8) hnone trivial (by decide) rfl
    exact haside.serves hagain
  have hnet' : Exchange allWritten leftServer 7 (numloginsQuery "u".toList) (secondRound.net masterMonitor.sys)
      (leftServer.hears (numloginsQuery "u".toList)) :=
    exchange_packet 101 hclient' hsent' (by decide) (by decide)
  have hfirst : slaveServers firstRound masterMonitor.sys = (joinedServer, countedUps joinedServer) := if_pos rfl
  have hsecond : slaveServers secondRound masterMonitor.sys = (leftServer, countedUps leftServer) := if_neg (by decide)
  have hall : AllFollowed slaveServers [firstRound, secondRound] [masterMonitor] := by
    intro m hm _
    obtain rfl := List.mem_singleton.1 hm
    refine ⟨"u".toList, hmaster, hu, fun round hround => ?_⟩
    simp only [List.mem_cons, List.not_mem_nil, or_false] at hround
    rcases hround with rfl | rfl
    · rw [hfirst]
      exact ⟨hcounts, allWritten, 7, _, hserves, hnet⟩
    · rw [hsecond]
      exact ⟨hcounts', allWritten, 7, _, hserves', hnet'⟩
  rw [← hwait]
  exact waits_for_slaves hall 15 100

end Nut.Upsmon
