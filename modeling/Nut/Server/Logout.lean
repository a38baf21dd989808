import Nut.Server.Answers
import Nut.Server.Logins

/-!
# The end of a connection

`net_logout`, and a write that fails, set `last_heard` of the client to 0, and the next scan closes the connection.  But
`client_readline` sets `last_heard` to the time for each line, before it executes the line: what follows in the same
packet is executed too, and the connection stays.  So a connection ends as it should exactly where nothing follows
(`logout_final_iff`).
-/

namespace Nut

open ChunkReader

/-- `P` holds of every event of the run, in the state that it meets. -/
def Along (P : Upsd → Event → Prop) : Upsd → List Event → Prop
  | _, [] => True
  | s, e :: events => P s e ∧ ∀ s', s.step e = some s' → Along P s' events

/-- The lines of the packet that a client sends. -/
def packetLines (s : Upsd) (fd : Nat) : Option CStr → List (Nat × List CStr)
  | none => []
  | some buf => ((s.client fd).map fun client => (readChunk pconfStep client.ctx buf).2).getD []

/-- The state after some lines of a packet. -/
def afterLines (now : Int) (w : Writes) (fd : Nat) (s : Upsd) (lines : List (Nat × List CStr)) : Upsd :=
  lines.foldl (fun s l => netLine now w fd s l.1 l.2) s

/-- The line is a `LOGOUT`, or one of the writes that it makes fails. -/
def EndsConnection (now : Int) (w : Writes) (fd : Nat) (s : Upsd) (line : Nat × List CStr) : Prop :=
  Asks (line.2.take line.1) "LOGOUT".toList [] ∨
    ∃ k, s.written fd ≤ k ∧ k < (netLine now w fd s line.1 line.2).written fd ∧ w.client fd k = false

/-- No line of a packet is executed when `last_heard` of its client is 0. -/
def StopsExecuting (s : Upsd) : Event → Prop
  | .client fd now w buf => ∀ pre line post, packetLines s fd buf = pre ++ line :: post →
      ∀ client, (afterLines now w fd s pre).client fd = some client → client.lastHeard ≠ 0
  | _ => True

/-- In a packet no line follows one that ends the connection. -/
def NothingFollows (s : Upsd) : Event → Prop
  | .client fd now w buf => ∀ pre line post, packetLines s fd buf = pre ++ line :: post →
      EndsConnection now w fd (afterLines now w fd s pre) line → post = []
  | _ => True

/-- What a client sends after the end of its connection is not executed, and the connection is closed at the start of the
next pass. -/
structure LogoutFinal (s : Upsd) (passes : List Pass) : Prop where
  stops : Along StopsExecuting s (passes.flatMap Pass.events)
  closes : ∀ pre p post t t' fd client, passes = pre ++ p :: post → s.run (pre.flatMap Pass.events) = some t →
    t.client fd = some client → client.lastHeard = 0 → t.run p.start = some t' → t'.client fd = none

/-! ### One line -/

section Line

variable {now : Int} {w : Writes} {s s' : Upsd} {fd : Nat} {client : NutCtype}

theorem Effect.keepsClient {args : List CStr} (h : Effect w s client args s') (hclient : s.client client.sockFd = some client) :
    ∃ client', s'.client client.sockFd = some client' ∧ client'.lastHeard = client.lastHeard ∧
      client'.sent = client.sent := by
  have hmodify {s : Upsd} (hs : s.client client.sockFd = some client) {f : NutCtype → NutCtype}
      (hf : ∀ client, (f client).sockFd = client.sockFd ∧ (f client).lastHeard = client.lastHeard ∧
        (f client).sent = client.sent) :
      ∃ client', (s.modifyClient client.sockFd f).client client.sockFd = some client' ∧
        client'.lastHeard = client.lastHeard ∧ client'.sent = client.sent := by
    refine ⟨f client, ?_, (hf client).2⟩
    rw [client_modifyClient _ _ fun client => (hf client).1, hs, Option.map_some]
  cases h with
  | nothing => exact ⟨client, hclient, rfl, rfl⟩
  | username => exact hmodify hclient fun client => ⟨rfl, rfl, rfl⟩
  | password => exact hmodify hclient fun client => ⟨rfl, rfl, rfl⟩
  | login => exact hmodify (by exact hclient) fun client => ⟨rfl, rfl, rfl⟩
  | fsd => exact ⟨client, hclient, rfl, rfl⟩
  | set => exact ⟨client, hclient, rfl, rfl⟩
  | instcmd => exact ⟨client, hclient, rfl, rfl⟩

theorem written_of_client (hclient : s.client fd = some client) : s.written fd = client.sent.length := by
  unfold Upsd.written
  rw [hclient]
  rfl

theorem lostAny_eq_true (n : Nat) : s.lostAny w fd n = true ↔
    ∃ k, s.written fd ≤ k ∧ k < s.written fd + n ∧ w.client fd k = false := by
  simp only [Upsd.lostAny, List.any_eq_true, List.mem_range, Bool.not_eq_true']
  constructor
  · rintro ⟨k, hk, hw⟩
    exact ⟨s.written fd + k, by omega, by omega, hw⟩
  · rintro ⟨k, hle, hlt, hw⟩
    refine ⟨k - s.written fd, by omega, ?_⟩
    rwa [Nat.add_sub_cancel' hle]

/-- The record after a line says whether the line ends the connection. -/
theorem client_netLine (hnow : now ≠ 0) (hclient : s.client fd = some client) (line : Nat × List CStr) :
    ∃ client', (netLine now w fd s line.1 line.2).client fd = some client' ∧
      (client'.lastHeard = 0 ↔ EndsConnection now w fd s line) := by
  obtain ⟨-, rfl⟩ := client_eq_some hclient
  -- the record when the line is executed
  set s0 := s.modifyClient client.sockFd fun client => { client with lastHeard := now } with hs0
  have hclient0 : s0.client client.sockFd = some { client with lastHeard := now } := by
    rw [hs0, client_modifyClient _ _ (by exact fun _ => rfl), hclient, Option.map_some]
  have hline : netLine now w client.sockFd s line.1 line.2 =
      parseNet w s0 { client with lastHeard := now } (line.2.take line.1) := by
    unfold netLine
    rw [← hs0]
    dsimp only
    rw [hclient0]
  by_cases hasks : Asks (line.2.take line.1) "LOGOUT".toList []
  · have hafter : ∃ client', (netLine now w client.sockFd s line.1 line.2).client client.sockFd = some client' ∧
        client'.lastHeard = 0 := by
      rw [hline, parseNet_logout hasks, client_modifyClient _ _ (by exact fun _ => rfl), sendback_eq, client_told, hclient0]
      exact ⟨_, rfl, rfl⟩
    obtain ⟨client', hclient', hzero⟩ := hafter
    exact ⟨client', hclient', fun _ => .inl hasks, fun _ => hzero⟩
  · obtain ⟨s1, s2, heffect, ⟨bufs, hs2⟩, hs' | ⟨h, -⟩⟩ := parseNet_performs w s0 { client with lastHeard := now }
      (line.2.take line.1)
    · obtain ⟨client1, hclient1, hheard, hsent⟩ := heffect.keepsClient hclient0
      have hwritten : s1.written client.sockFd = s.written client.sockFd := by
        rw [written_of_client hclient1, written_of_client hclient, hsent]
      have hafter : (netLine now w client.sockFd s line.1 line.2).client client.sockFd =
          some { client1 with
            sent := client1.sent ++ bufs
            lastHeard := if s1.lostAny w client.sockFd bufs.length then 0 else client1.lastHeard } := by
        rw [hline, hs', hs2, client_told, hclient1, Option.map_some]
      refine ⟨_, hafter, ?_⟩
      have hcount : (netLine now w client.sockFd s line.1 line.2).written client.sockFd =
          s.written client.sockFd + bufs.length := by
        rw [written_of_client hafter, List.length_append, hsent, written_of_client hclient]
      have hheard0 : client1.lastHeard ≠ 0 := by rwa [hheard]
      unfold EndsConnection
      rw [hcount, or_iff_right hasks, ← hwritten, ← lostAny_eq_true]
      by_cases hlost : s1.lostAny w client.sockFd bufs.length = true
      · simp [hlost]
      · simp [hlost, hheard0]
    · exact absurd h hasks

end Line

/-! ### One packet -/

section Packet

variable {now : Int} {w : Writes} {s s' : Upsd} {fd : Nat}

theorem client_afterLines (hnow : now ≠ 0) {client : NutCtype} (hclient : s.client fd = some client)
    (lines : List (Nat × List CStr)) : ∃ client', (afterLines now w fd s lines).client fd = some client' := by
  induction lines generalizing s client with
  | nil => exact ⟨client, hclient⟩
  | cons line lines ih =>
    obtain ⟨client', hclient', -⟩ := client_netLine (w := w) hnow hclient line
    exact ih hclient'

theorem afterLines_snoc (lines : List (Nat × List CStr)) (line : Nat × List CStr) :
    afterLines now w fd s (lines ++ [line]) = netLine now w fd (afterLines now w fd s lines) line.1 line.2 := by
  unfold afterLines
  rw [List.foldl_append, List.foldl_cons, List.foldl_nil]

/-- A packet of a client whose connection is to go on. -/
theorem stopsExecuting_client (hnow : now ≠ 0) (halive : ∀ client, s.client fd = some client → client.lastHeard ≠ 0)
    (buf : Option CStr) : StopsExecuting s (.client fd now w buf) ↔ NothingFollows s (.client fd now w buf) := by
  have hthere {pre : List (Nat × List CStr)} {line : Nat × List CStr} {post : List (Nat × List CStr)}
      (h : packetLines s fd buf = pre ++ line :: post) : ∃ client, s.client fd = some client := by
    cases hclient : s.client fd with
    | some client => exact ⟨client, rfl⟩
    | none =>
      cases buf with
      | none => simp [packetLines] at h
      | some buf => simp [packetLines, hclient] at h
  constructor
  · intro hstops pre line post h hends
    cases post with
    | nil => rfl
    | cons line' post =>
      obtain ⟨client, hclient⟩ := hthere h
      obtain ⟨client1, hclient1⟩ := client_afterLines (w := w) hnow hclient pre
      obtain ⟨client2, hclient2, hzero⟩ := client_netLine (w := w) hnow hclient1 line
      rw [← afterLines_snoc] at hclient2
      exact absurd (hzero.2 hends) (hstops (pre ++ [line]) line' post (by rw [h, List.append_assoc]; rfl) client2 hclient2)
  · intro hlast pre line post h client hclient
    induction pre using List.reverseRecOn with
    | nil => exact halive client hclient
    | append_singleton pre line' =>
      obtain ⟨client0, hclient0⟩ := hthere h
      obtain ⟨client1, hclient1⟩ := client_afterLines (w := w) hnow hclient0 pre
      obtain ⟨client2, hclient2, hzero⟩ := client_netLine (w := w) hnow hclient1 line'
      rw [← afterLines_snoc, hclient] at hclient2
      rw [Option.some.inj hclient2, ne_eq, hzero]
      intro hends
      have hnone := hlast pre line' (line :: post) (by rw [h, List.append_assoc]; rfl) hends
      simp at hnone

theorem others_netLine (now : Int) (w : Writes) (s : Upsd) (fd numargs : Nat) (arglist : List CStr) :
    (netLine now w fd s numargs arglist).others fd = s.others fd := by
  unfold netLine
  dsimp only
  split
  · exact others_modifyClient s fd (by exact fun _ => rfl)
  · rename_i client hclient
    obtain ⟨-, rfl⟩ := client_eq_some hclient
    rw [others_parseNet]
    exact others_modifyClient s _ (by exact fun _ => rfl)

theorem others_clientDisconnect (s : Upsd) (fd : Nat) : (clientDisconnect s fd).others fd = s.others fd := by
  unfold Upsd.others
  rw [clientDisconnect_firstclient, List.filter_filter]
  simp

theorem others_clientReadline (now : Int) (w : Writes) (s : Upsd) (fd : Nat) (buf : Option CStr) :
    (clientReadline now w s fd buf).others fd = s.others fd := by
  have hlines (lines : List (Nat × List CStr)) (s : Upsd) :
      (lines.foldl (fun s l => netLine now w fd s l.1 l.2) s).others fd = s.others fd := by
    induction lines generalizing s with
    | nil => rfl
    | cons line lines ih => rw [List.foldl_cons, ih, others_netLine]
  unfold clientReadline
  split
  · exact others_clientDisconnect s fd
  · exact others_clientDisconnect s fd
  · rfl
  · rw [readLoop_eq]
    exact (others_modifyClient _ fd (by exact fun _ => rfl)).trans (hlines _ s)

end Packet

/-! ### Passes -/

section Passes

variable {s s' : Upsd} {fd : Nat}

/-- The connection of the client is to go on. -/
def Alive (s : Upsd) (fd : Nat) : Prop := ∀ client ∈ s.firstclient, client.sockFd = fd → client.lastHeard ≠ 0

theorem Alive.of_others {fd' : Nat} (hs : Alive s fd) (hne : fd' ≠ fd) (h : s'.others fd' = s.others fd') : Alive s' fd := by
  rintro client hclient rfl
  have hmem : client ∈ s'.others fd' := List.mem_filter.2 ⟨hclient, by simpa using hne.symm⟩
  rw [h] at hmem
  exact hs client (List.mem_filter.1 hmem).1 rfl

/-- The events of other sockets leave the client alone. -/
theorem Alive.step (hs : Alive s fd) {e : Event} (hpolled : e.Polled) (hclocked : e.Clocked) (hne : e.serves ≠ some fd)
    (h : s.step e = some s') : Alive s' fd := by
  cases e with
  | reload => exact hpolled.elim
  | scan => exact hpolled.elim
  | driver name now ret =>
    simp only [Upsd.step] at h
    split at h
    · exact Option.some.inj h ▸ hs
    · obtain ⟨ups', -, rfl⟩ := Option.map_eq_some_iff.1 h
      exact hs
  | driverHup name => exact Option.some.inj h ▸ hs
  | client fd' now w buf =>
    have hne' : fd' ≠ fd := fun h => hne (by rw [Event.serves, h])
    exact Option.some.inj h ▸ hs.of_others hne' (others_clientReadline now w s fd' buf)
  | clientHup fd' =>
    have hne' : fd' ≠ fd := fun h => hne (by rw [Event.serves, h])
    exact Option.some.inj h ▸ hs.of_others hne' (others_clientDisconnect s fd')
  | accept fd' now addr =>
    simp only [Upsd.step] at h
    split at h
    · refine Option.some.inj h ▸ List.forall_mem_cons.2 ⟨fun _ => ?_, hs⟩
      have hclock : 60 < now := hclocked
      show now ≠ 0
      omega
    · simp at h

/-- The events of a pass after the scan. -/
theorem along_polled {events : List Event} (hsockets : ∀ e ∈ events, e.Polled ∧ e.Clocked)
    (honce : (events.filterMap Event.serves).Nodup) (hs : ∀ fd ∈ events.filterMap Event.serves, Alive s fd) :
    Along StopsExecuting s events ↔ Along NothingFollows s events := by
  induction events generalizing s with
  | nil => exact Iff.rfl
  | cons e events ih =>
    obtain ⟨⟨hpolled, hclocked⟩, hsockets⟩ := List.forall_mem_cons.1 hsockets
    have hone : StopsExecuting s e ↔ NothingFollows s e := by
      cases e with
      | client fd now w buf =>
        have hclock : 60 < now := hclocked
        have halive : Alive s fd := hs fd (by simp [Event.serves])
        refine stopsExecuting_client (by omega) (fun client hclient => ?_) buf
        obtain ⟨hmem, hfd⟩ := client_eq_some hclient
        exact halive client hmem hfd
      | _ => exact Iff.rfl
    refine and_congr hone (forall_congr' fun s' => imp_congr_right fun hstep => ih hsockets ?_ fun fd hfd => ?_)
    · exact ((List.sublist_cons_self e events).filterMap _).nodup honce
    · have hne : e.serves ≠ some fd := by
        intro hserves
        rw [List.filterMap_cons_some hserves] at honce
        exact (List.nodup_cons.1 honce).1 hfd
      have hmem : fd ∈ (e :: events).filterMap Event.serves := by
        rw [List.mem_filterMap] at hfd ⊢
        obtain ⟨e', he', h⟩ := hfd
        exact ⟨e', List.mem_cons_of_mem _ he', h⟩
      exact (hs fd hmem).step hpolled hclocked hne hstep

theorem run_append (s : Upsd) (events events' : List Event) :
    s.run (events ++ events') = (s.run events).bind fun t => t.run events' := by
  unfold Upsd.run
  exact List.foldlM_append

theorem along_append (P : Upsd → Event → Prop) (s : Upsd) (events events' : List Event) :
    Along P s (events ++ events') ↔ Along P s events ∧ ∀ t, s.run events = some t → Along P t events' := by
  induction events generalizing s with
  | nil => simp [Along, Upsd.run]
  | cons e events ih =>
    have hrun (t : Upsd) : s.run (e :: events) = some t ↔ ∃ s', s.step e = some s' ∧ s'.run events = some t := by
      unfold Upsd.run
      rw [List.foldlM_cons]
      exact Option.bind_eq_some_iff
    simp only [List.cons_append, Along, ih, hrun]
    constructor
    · rintro ⟨he, h⟩
      refine ⟨⟨he, fun s' hs' => (h s' hs').1⟩, ?_⟩
      rintro t ⟨s', hs', ht⟩
      exact (h s' hs').2 t ht
    · rintro ⟨⟨he, h⟩, h'⟩
      exact ⟨he, fun s' hs' => ⟨h s' hs', fun t ht => h' t ⟨s', hs', ht⟩⟩⟩

/-- After the scan no client is left whose `last_heard` is 0. -/
theorem alive_start (p : Pass) {t : Upsd} (h : s.run p.start = some t) (fd : Nat) : Alive t fd := by
  rw [Pass.start, run_append] at h
  obtain ⟨s1, -, hscan⟩ := Option.bind_eq_some_iff.1 h
  have ht : t = scan p.now p.connects p.writes s1 := by
    simpa [Upsd.run, Upsd.step] using hscan.symm
  intro client hclient _ hzero
  rw [ht, scan, scanClients, disconnectEach_firstclient, List.mem_filter, decide_eq_true_eq] at hclient
  have hclock := p.clock
  exact hclient.2 client hclient.1 (by omega) rfl

theorem along_start {P : Upsd → Event → Prop} (hreload : ∀ s c files, P s (.reload c files))
    (hscan : ∀ s now c w, P s (.scan now c w)) (p : Pass) (s : Upsd) : Along P s p.start := by
  rw [Pass.start]
  cases p.reload with
  | none => exact ⟨hscan .., fun s' _ => trivial⟩
  | some r => exact ⟨hreload .., fun s' _ => ⟨hscan .., fun s' _ => trivial⟩⟩

/-- The passes of a run. -/
theorem along_passes (s : Upsd) (passes : List Pass) : Along StopsExecuting s (passes.flatMap Pass.events) ↔
    Along NothingFollows s (passes.flatMap Pass.events) := by
  induction passes generalizing s with
  | nil => exact Iff.rfl
  | cons p passes ih =>
    have hstops : Along StopsExecuting s p.start := along_start (fun _ _ _ => trivial) (fun _ _ _ _ => trivial) p s
    have hlast : Along NothingFollows s p.start := along_start (fun _ _ _ => trivial) (fun _ _ _ _ => trivial) p s
    rw [List.flatMap_cons, Pass.events]
    simp only [along_append, ih, hstops, hlast, true_and]
    have hpolled (t : Upsd) (ht : s.run p.start = some t) : Along StopsExecuting t p.polled ↔ Along NothingFollows t p.polled :=
      along_polled p.sockets p.once fun fd _ => alive_start p ht fd
    exact and_congr_left fun _ => forall_congr' fun t => imp_congr_right fun ht => hpolled t ht

theorem upsconfAdd_firstclient (c : Connects) (reloading : Bool) (s : Upsd) (upstable : List UpsT) :
    (upsconfAdd c reloading s upstable).firstclient = s.firstclient := by
  unfold upsconfAdd
  induction upstable generalizing s with
  | nil => rfl
  | cons tmp upstable ih =>
    rw [List.foldl_cons, ih]
    unfold upsconfAddOne upsUpdate upsCreate
    split
    · dsimp only
      split
      · split <;> rfl
      · split <;> rfl
    · rfl

theorem loadUpsdconf_firstclient (s : Upsd) (lines : List (List CStr)) :
    (loadUpsdconf s lines).firstclient = s.firstclient := by
  unfold loadUpsdconf
  induction lines generalizing s with
  | nil => rfl
  | cons line lines ih =>
    rw [List.foldl_cons, ih]
    unfold parseUpsdConfArgs
    split
    · split_ifs <;> rfl
    · rfl

theorem deleteUnretained_firstclient (s : Upsd) : (deleteUnretained s).firstclient ⊆ s.firstclient := by
  have hall (upses : List Upstype) (s : Upsd) :
      (upses.foldl (fun s ups => if ups.retain then s else deleteUps s ups) s).firstclient ⊆ s.firstclient := by
    induction upses generalizing s with
    | nil => exact fun _ h => h
    | cons ups upses ih =>
      refine List.Subset.trans (ih _) ?_
      dsimp only
      split_ifs
      · exact fun _ h => h
      · intro client hclient
        have hmem : client ∈ (kickLoginClients s ups.name).firstclient := hclient
        unfold kickLoginClients at hmem
        rw [disconnectEach_firstclient] at hmem
        exact (List.mem_filter.1 hmem).1
  exact hall _ s

/-- A reload closes connections, and changes nothing else about the clients. -/
theorem confReload_firstclient {c : Connects} {files : Files} (h : confReload c s files = some s') :
    s'.firstclient ⊆ s.firstclient := by
  unfold confReload at h
  split at h
  · exact Option.some.inj h ▸ fun _ h => h
  · simp at h
  · rename_i upsdConf _ _ _
    obtain ⟨upstable, -, h⟩ := Option.bind_eq_some_iff.1 h
    have hdelete (s : Upsd) (f : Upstype → Upstype) :
        (deleteUnretained (loadUpsdconf (upsconfAdd c true { s with firstups := s.firstups.map f } upstable)
          upsdConf)).firstclient ⊆ s.firstclient := by
      refine List.Subset.trans (deleteUnretained_firstclient _) ?_
      rw [loadUpsdconf_firstclient, upsconfAdd_firstclient]
      exact fun _ h => h
    split at h
    · exact Option.some.inj h ▸ hdelete s _
    · exact Option.some.inj h ▸ hdelete s _

/-- A connection that is to end is closed at the start of the next pass. -/
theorem closes_start (hs : s.Stage) {client : NutCtype} (hclient : s.client fd = some client)
    (hzero : client.lastHeard = 0) (p : Pass) (h : s.run p.start = some s') : s'.client fd = none := by
  have halive := alive_start p h fd
  have hsubset : s'.firstclient ⊆ s.firstclient := by
    rw [Pass.start, run_append] at h
    obtain ⟨s1, hreload, hscan⟩ := Option.bind_eq_some_iff.1 h
    have hs' : s' = scan p.now p.connects p.writes s1 := by
      simpa [Upsd.run, Upsd.step] using hscan.symm
    have hscanned : s'.firstclient ⊆ s1.firstclient := by
      intro client hclient
      rw [hs', scan, scanClients, disconnectEach_firstclient] at hclient
      exact (List.mem_filter.1 hclient).1
    refine List.Subset.trans hscanned ?_
    cases hr : p.reload with
    | none =>
      have hs1 : s = s1 := by simpa [hr, Upsd.run] using hreload
      exact hs1 ▸ fun _ h => h
    | some r =>
      have hs1 : s.step (.reload r.1 r.2) = some s1 := by simpa [hr, Upsd.run] using hreload
      exact confReload_firstclient (step_reload.1 hs1).1
  cases hclient' : s'.client fd with
  | none => rfl
  | some client' =>
    obtain ⟨hmem', hfd'⟩ := client_eq_some hclient'
    obtain ⟨hmem, hfd⟩ := client_eq_some hclient
    have hsame := List.inj_on_of_nodup_map (accounted hs).fds (hsubset hmem') hmem (hfd'.trans hfd.symm)
    exact absurd (hsame ▸ hzero) (halive client' hmem' hfd')

end Passes

/-- A connection ends as it should exactly where nothing follows, in the packets of the run, the line that ends it. -/
theorem logout_final_iff {s : Upsd} (hs : s.Stage) (passes : List Pass) :
    LogoutFinal s passes ↔ Along NothingFollows s (passes.flatMap Pass.events) := by
  rw [← along_passes]
  constructor
  · exact LogoutFinal.stops
  · intro hstops
    refine ⟨hstops, fun pre p post t t' fd client _ hrun hclient hzero hstart => ?_⟩
    exact closes_start (hs.run hrun) hclient hzero p hstart

/-- A pass in which the client sends one packet. -/
def packetPass (buf : CStr) : Pass where
  reload := none
  now := 101
  connects := oneDriver
  writes := allWritten
  polled := [.client 7 101 allWritten (some buf)]
  clock := by omega
  sockets := by simp [Event.Polled, Event.Clocked]
  once := by simp [Event.serves]

/-- A `LOGOUT` after another command, with the beginning of a third behind it, which the next pass would complete. -/
theorem logout_final_last :
    LogoutFinal oneClientServer [packetPass "VER\nLOGOUT\nVE".toList, packetPass "R\n".toList] := by
  refine (logout_final_iff stage_oneClientServer _).2
    ⟨trivial, fun s hs => ⟨?_, fun s₁ hs₁ => ⟨trivial, fun s₂ hs₂ => ⟨?_, fun _ _ => trivial⟩⟩⟩⟩
  all_goals obtain rfl : scan 101 oneDriver allWritten oneClientServer = s := Option.some.inj hs
  · intro pre line post hlines hends
    have hpacket : packetLines (scan 101 oneDriver allWritten oneClientServer) 7 (some "VER\nLOGOUT\nVE".toList) =
        [(1, ["VER".toList]), (1, ["LOGOUT".toList])] := by decide +kernel
    rw [hpacket] at hlines
    rcases pre with _ | ⟨l, pre⟩
    · -- the first command does not end the connection
      obtain ⟨rfl, -⟩ := List.cons.inj hlines
      rcases hends with ⟨arg0, hargs, hname⟩ | ⟨k, -, -, hfailed⟩
      · obtain rfl : "VER".toList = arg0 := (List.cons.inj hargs).1
        exact absurd hname (by decide)
      · exact absurd hfailed (by simp [allWritten])
    · have hlength := congrArg List.length hlines
      simp only [List.length_cons, List.length_append, List.length_nil] at hlength
      exact List.length_eq_zero_iff.1 (by omega)
  · obtain rfl := Option.some.inj hs₁
    obtain rfl := Option.some.inj hs₂
    intro pre line post hlines
    -- the connection is closed before the rest arrives
    have hpacket : packetLines (scan 101 oneDriver allWritten (clientReadline 101 allWritten
        (scan 101 oneDriver allWritten oneClientServer) 7 (some "VER\nLOGOUT\nVE".toList))) 7 (some "R\n".toList) = [] := by
      decide +kernel
    have hlength := congrArg List.length (hpacket.symm.trans hlines)
    simp at hlength

/-- A command after `LOGOUT` in the same packet is executed. -/
theorem logout_pipelined : ¬LogoutFinal oneClientServer [packetPass "LOGOUT\nVER\n".toList] := by
  intro h
  have hstops := (h.stops.2 (scan 101 oneDriver allWritten oneClientServer) rfl).1
  have hclient : ((afterLines 101 allWritten 7 (scan 101 oneDriver allWritten oneClientServer)
      [(1, ["LOGOUT".toList])]).client 7).map NutCtype.lastHeard = some 0 := by decide +kernel
  obtain ⟨client, hclient, hzero⟩ := Option.map_eq_some_iff.1 hclient
  exact hstops [(1, ["LOGOUT".toList])] (1, ["VER".toList]) [] (by decide +kernel) client hclient hzero

end Nut
