import Nut.Server.Answers
import Nut.Server.Moves

/-!
# Stale data

`DATASTALE` clears `data_ok` of a UPS when it is read, but the clients are answered by `stale`, which `mainloop` derives
from it when it scans the drivers, and `sstate_connect` clears `stale` before the new dump.  So a value can still be
served until the next scan, and again once the driver is connected anew (`stale_served`).  In between none is
(`stale_not_served`).
-/

namespace Nut

open ChunkReader

/-- The driver said `DATASTALE` when its dump was complete. -/
structure SaidStale (ups : Upstype) : Prop where
  dumpdone : ups.dumpdone = true
  dataOk : ups.dataOk = false

instance (ups : Upstype) : Decidable (SaidStale ups) :=
  decidable_of_iff (ups.dumpdone = true ∧ ups.dataOk = false) ⟨fun h => ⟨h.1, h.2⟩, fun h => ⟨h.dumpdone, h.dataOk⟩⟩

/-- The scan of the drivers comes as far as the UPS. -/
def Scanned (s : Upsd) (ups : Upstype) : Prop :=
  ∃ pre post, s.firstups = pre ++ ups :: post ∧ (pre.countP fun ups => ups.sockFd.isSome : Int) < s.maxconn

/-- The event connects the server to the driver of the UPS, or reads `DATAOK` from it. -/
def Refreshes (s : Upsd) (name : CStr) : Event → Prop
  | .scan _ c _ => ∃ ups ∈ s.firstups, ups.name = name ∧ ups.sockFd = none ∧ ∃ fd, c.result name = .ok fd
  | .driver name' _ (.data buf) => name' = name ∧ ∃ ups ∈ s.firstups, ups.name = name ∧
      ∃ line ∈ (readChunk pconfStep ups.sockCtx buf).2, 1 ≤ line.1 ∧ strcasecmp (line.2.getD 0 []) "DATAOK".toList = .eq
  | _ => False

/-- The server goes on from `s` and does not hear from the driver that its data is fresh; the UPS stays in the
configuration. -/
inductive Upsd.Waits (name : CStr) (s : Upsd) : Upsd → Prop
  | refl : Waits name s s
  | line {t : Upsd} (h : Waits name s t) (now : Int) (w : Writes) (fd numargs : Nat) (arglist : List CStr) :
      Waits name s (netLine now w fd t numargs arglist)
  | event {t t' : Upsd} (h : Waits name s t) (e : Event) (hquiet : ¬Refreshes t name e) (hstep : t.step e = some t')
      (hups : ∃ ups ∈ t'.firstups, ups.name = name) : Waits name s t'

/-- The record that the scan leaves: not available until it is refreshed. -/
def Held (ups : Upstype) : Prop := ups.sockFd = none ∨ ups.stale = true ∧ ups.dumpdone = true ∧ ups.dataOk = false

theorem Held.not_available {ups : Upstype} (h : Held ups) : ¬ups.Available := by
  rintro ⟨hfd, hstale⟩
  rcases h with h | ⟨h, -⟩
  · exact hfd h
  · rw [hstale] at h
    exact Bool.noConfusion h

/-- Every record of that name is held. -/
def HeldAll (name : CStr) (upses : List Upstype) : Prop := ∀ ups ∈ upses, ups.name = name → Held ups

/-! ### What keeps a record held -/

theorem held_sstateDisconnect (ups : Upstype) : Held (sstateDisconnect ups) := by
  unfold sstateDisconnect
  split
  · exact .inl ‹_›
  · exact .inl rfl

theorem Held.sstateSendline {ups : Upstype} (h : Held ups) (ok : Bool) (buf : CStr) : Held (sstateSendline ok ups buf).1 := by
  unfold Nut.sstateSendline
  split
  · exact h
  · dsimp only
    split_ifs
    · exact h
    · exact held_sstateDisconnect _

theorem sstateDead_of_saidStale {ups : Upstype} (h : SaidStale ups) (now : Int) (ok : Bool) (maxage : Int) :
    sstateDead now ok ups maxage = (ups, true) := by
  unfold sstateDead
  split
  · rfl
  · rw [if_pos ⟨h.dumpdone, by simp [h.dataOk]⟩]

theorem Held.parseArgs {ups ups' : Upstype} (h : Held ups) {numargs : Nat} {arg : List CStr} {ok : Bool}
    (hline : parseArgs ups numargs arg = some (ups', ok))
    (hok : ¬(1 ≤ numargs ∧ strcasecmp (arg.getD 0 []) "DATAOK".toList = .eq)) : Held ups' := by
  have hof := lineChange_parseArgs hline
  have hfd : ups'.sockFd = ups.sockFd := by rw [hof.mirror]
  have hstale : ups'.stale = ups.stale := by rw [hof.mirror]
  rcases h with h | ⟨h1, h2, h3⟩
  · exact .inl (hfd.trans h)
  · refine .inr ⟨hstale.trans h1, hof.dumpdone h2, ?_⟩
    by_contra hdata
    rcases hof.dataOk (by simpa using hdata) with h | h
    · rw [h3] at h
      exact Bool.noConfusion h
    · exact hok h

section Keep

variable {s s' : Upsd} {name : CStr}

theorem heldAll_modifyUps (hs : HeldAll name s.firstups) (n : CStr) {f : Upstype → Upstype}
    (hname : ∀ ups, (f ups).name = ups.name) (hf : ∀ ups, Held ups → Held (f ups)) :
    HeldAll name (s.modifyUps n f).firstups := by
  intro ups' hups' hn
  obtain ⟨ups, hups, rfl⟩ := List.mem_map.1 hups'
  split_ifs at hn ⊢
  · exact hf ups (hs ups hups ((hname ups).symm.trans hn))
  · exact hs ups hups hn

theorem heldAll_clientDisconnect (hs : HeldAll name s.firstups) (fd : Nat) :
    HeldAll name (clientDisconnect s fd).firstups := by
  unfold clientDisconnect
  split
  · exact hs
  · dsimp only
    split
    · exact hs
    · unfold declogins
      split
      · exact hs
      · exact heldAll_modifyUps hs _ (fun _ => rfl) fun _ h => h

theorem heldAll_disconnectEach (p : NutCtype → Prop) [DecidablePred p] (clients : List NutCtype)
    (hs : HeldAll name s.firstups) : HeldAll name
      (clients.foldl (fun s client => if p client then clientDisconnect s client.sockFd else s) s).firstups := by
  induction clients generalizing s with
  | nil => exact hs
  | cons client clients ih =>
    rw [List.foldl_cons]
    refine ih ?_
    split_ifs
    · exact heldAll_clientDisconnect hs _
    · exact hs

theorem Effect.heldAll {w : Writes} {client : NutCtype} {args : List CStr} (h : Effect w s client args s')
    (hs : HeldAll name s.firstups) : HeldAll name s'.firstups := by
  have hsend (ups : Upstype) (buf : CStr) : HeldAll name (sendToDriver w s ups buf).1.firstups :=
    heldAll_modifyUps hs _ (fun ups => (sameUps_sstateSendline _ ups buf).name) fun ups h => h.sstateSendline _ buf
  cases h with
  | nothing => exact hs
  | username => exact hs
  | password => exact hs
  | login => exact heldAll_modifyUps hs _ (fun _ => rfl) fun _ h => h
  | fsd => exact heldAll_modifyUps hs _ (fun _ => rfl) fun _ h => h
  | set => exact hsend _ _
  | instcmd => exact hsend _ _

theorem heldAll_netLine (hs : HeldAll name s.firstups) (now : Int) (w : Writes) (fd numargs : Nat)
    (arglist : List CStr) : HeldAll name (netLine now w fd s numargs arglist).firstups := by
  unfold netLine
  dsimp only
  split
  · exact hs
  · rename_i client _
    obtain ⟨s1, heffect, bufs, lost, htells⟩ := parseNet_effect w
      (s.modifyClient fd fun client => { client with lastHeard := now }) client (arglist.take numargs)
    rw [htells, told_firstups]
    exact heffect.heldAll hs

theorem heldAll_clientReadline (hs : HeldAll name s.firstups) (now : Int) (w : Writes) (fd : Nat) (buf : Option CStr) :
    HeldAll name (clientReadline now w s fd buf).firstups := by
  have hlines (lines : List (Nat × List CStr)) {s : Upsd} (hs : HeldAll name s.firstups) :
      HeldAll name (lines.foldl (fun s l => netLine now w fd s l.1 l.2) s).firstups := by
    induction lines generalizing s with
    | nil => exact hs
    | cons line lines ih => exact ih (heldAll_netLine hs now w fd line.1 line.2)
  unfold clientReadline
  split
  · exact heldAll_clientDisconnect hs fd
  · exact heldAll_clientDisconnect hs fd
  · exact hs
  · rw [readLoop_eq]
    exact hlines _ hs

/-! ### Scans -/

theorem scanUpses_cons (c : Connects) (w : Writes) (maxage maxconn nfds : Int) (ups : Upstype) (rest : List Upstype) :
    scanUpses c w maxage maxconn nfds (ups :: rest) =
      if nfds < maxconn then
        if ups.sockFd = none then
          { (sstateConnect c.now ups (c.result ups.name)).1 with
            sockFd := (sstateConnect c.now ups (c.result ups.name)).2 } :: scanUpses c w maxage maxconn nfds rest
        else
          { (sstateDead c.now (w.driver ups.name ups.sent.length) ups maxage).1 with
            stale := (sstateDead c.now (w.driver ups.name ups.sent.length) ups maxage).2 } ::
              scanUpses c w maxage maxconn (nfds + 1) rest
      else ups :: rest := by
  rw [scanUpses]
  cases h : ups.sockFd with
  | none => rfl
  | some n => rfl

theorem heldAll_scanUpses (c : Connects) (w : Writes) (maxage maxconn nfds : Int) {upses : List Upstype}
    (hs : HeldAll name upses)
    (hquiet : ¬∃ ups ∈ upses, ups.name = name ∧ ups.sockFd = none ∧ ∃ fd, c.result name = .ok fd) :
    HeldAll name (scanUpses c w maxage maxconn nfds upses) := by
  induction upses generalizing nfds with
  | nil => exact hs
  | cons ups rest ih =>
    have hups : ups.name = name → Held ups := hs ups List.mem_cons_self
    have hrest (nfds : Int) : HeldAll name (scanUpses c w maxage maxconn nfds rest) := by
      refine ih nfds (fun ups hups => hs ups (List.mem_cons_of_mem _ hups)) ?_
      rintro ⟨ups', hups', h⟩
      exact hquiet ⟨ups', List.mem_cons_of_mem _ hups', h⟩
    rw [scanUpses_cons]
    split
    · split
      · rename_i hfd
        refine List.forall_mem_cons.2 ⟨fun hname => ?_, hrest _⟩
        have hsame := (sameUps_sstateConnect c.now ups (c.result ups.name)).name
        have hname' : ups.name = name := hsame.symm.trans hname
        -- it was not connected, and is not connected anew
        left
        cases hresult : c.result ups.name with
        | ok fd => exact absurd ⟨ups, List.mem_cons_self, hname', hfd, fd, hname' ▸ hresult⟩ hquiet
        | _ => rfl
      · rename_i hfd
        refine List.forall_mem_cons.2 ⟨fun hname => ?_, hrest _⟩
        have hsame := (sameUps_sstateDead c.now (w.driver ups.name ups.sent.length) ups maxage).name
        rcases hups (hsame.symm.trans hname) with h | ⟨-, h2, h3⟩
        · exact absurd h hfd
        · rw [sstateDead_of_saidStale ⟨h2, h3⟩]
          exact .inr ⟨rfl, h2, h3⟩
    · exact hs

/-- The scan connects the server to the driver of the UPS. -/
def Reconnects (c : Connects) (ups : Upstype) : Prop := ups.sockFd = none ∧ ∃ fd, c.result ups.name = .ok fd

/-- A scan that comes as far as a UPS whose driver said `DATASTALE` marks it, or finds it disconnected and leaves it so. -/
theorem held_scanUpses (c : Connects) (w : Writes) (maxage maxconn nfds : Int) {pre post : List Upstype} {ups : Upstype}
    (h : SaidStale ups) (hquiet : ¬Reconnects c ups)
    (hreach : nfds + (pre.countP fun ups => ups.sockFd.isSome : Int) < maxconn) :
    ∃ ups' ∈ scanUpses c w maxage maxconn nfds (pre ++ ups :: post), ups'.name = ups.name ∧ Held ups' := by
  induction pre generalizing nfds with
  | nil =>
    rw [List.nil_append, scanUpses_cons, if_pos (by simpa using hreach)]
    split_ifs with hfd
    · refine ⟨_, List.mem_cons_self, (sameUps_sstateConnect c.now ups (c.result ups.name)).name, .inl ?_⟩
      cases hresult : c.result ups.name with
      | ok fd => exact absurd ⟨hfd, fd, hresult⟩ hquiet
      | _ => rfl
    · rw [sstateDead_of_saidStale h]
      exact ⟨_, List.mem_cons_self, rfl, .inr ⟨rfl, h.dumpdone, h.dataOk⟩⟩
  | cons u pre ih =>
    rw [List.countP_cons] at hreach
    rw [List.cons_append, scanUpses_cons]
    cases hfd : u.sockFd with
    | none =>
      have hlt : nfds + (pre.countP fun ups => ups.sockFd.isSome : Int) < maxconn := by simpa [hfd] using hreach
      rw [if_pos (by omega), if_pos rfl]
      obtain ⟨held, hmem, hheld⟩ := ih nfds hlt
      exact ⟨held, List.mem_cons_of_mem _ hmem, hheld⟩
    | some n =>
      have hlt : nfds + 1 + (pre.countP fun ups => ups.sockFd.isSome : Int) < maxconn := by
        simp only [hfd, Option.isSome_some, if_true] at hreach
        push_cast at hreach
        omega
      rw [if_pos (by omega), if_neg (by simp)]
      obtain ⟨held, hmem, hheld⟩ := ih (nfds + 1) hlt
      exact ⟨held, List.mem_cons_of_mem _ hmem, hheld⟩

/-! ### Drivers and reloads -/

theorem Held.sstateReadline {now : Int} {ups ups' : Upstype} (h : Held ups) {ret : ReadResult}
    (hread : sstateReadline now ups ret = some ups')
    (hquiet : ∀ buf, ret = .data buf → ¬∃ line ∈ (readChunk pconfStep ups.sockCtx buf).2,
      1 ≤ line.1 ∧ strcasecmp (line.2.getD 0 []) "DATAOK".toList = .eq) : Held ups' := by
  unfold Nut.sstateReadline at hread
  split at hread
  · exact Option.some.inj hread ▸ h
  · split at hread
    · exact Option.some.inj hread ▸ h
    · exact Option.some.inj hread ▸ held_sstateDisconnect ups
    · rename_i buf
      rw [readLoop_eq] at hread
      obtain ⟨ups1, hlines, rfl⟩ := Option.map_eq_some_iff.1 hread
      have hups1 : Held ups1 := by
        refine sstateLines_invariant _ (fun line hline u u' ok hu hargs => ?_) h hlines
        have hu' := hu.parseArgs hargs fun hok => hquiet buf rfl ⟨line, hline, hok⟩
        split_ifs
        · exact hu'
        · exact hu'
      exact hups1

theorem heldAll_upsconfAddOne (c : Connects) (reloading : Bool) (tmp : UpsT) (hs : HeldAll name s.firstups)
    (hname : name ∈ s.firstups.map Upstype.name) : HeldAll name (upsconfAddOne c reloading s tmp).firstups ∧
      name ∈ (upsconfAddOne c reloading s tmp).firstups.map Upstype.name := by
  -- a new UPS has another name
  have hcreate (fn n : CStr) (desc : Option CStr) : HeldAll name (upsCreate c s fn n desc).firstups ∧
      name ∈ (upsCreate c s fn n desc).firstups.map Upstype.name := by
    unfold upsCreate
    split
    · exact ⟨hs, hname⟩
    · rename_i hnew
      have hsame := (sameUps_sstateConnect c.now (newUps fn n desc) (c.result n)).name
      rcases hconnect : sstateConnect c.now (newUps fn n desc) (c.result n) with ⟨temp, fd⟩
      rw [hconnect] at hsame
      have htemp : temp.name = n := hsame
      refine ⟨List.forall_mem_cons.2 ⟨fun heq => ?_, hs⟩, List.mem_cons_of_mem _ hname⟩
      obtain ⟨ups, hups, hupsname⟩ := List.mem_map.1 hname
      refine absurd (List.any_eq_true.2 ⟨ups, hups, ?_⟩) hnew
      have heq' : temp.name = name := heq
      rw [hupsname, ← htemp, heq', strcasecmp_self]
      rfl
  -- one that is defined again stays as it is, or loses its connection
  have hupdate (fn n : CStr) (desc : Option CStr) : HeldAll name (upsUpdate s fn n desc).firstups ∧
      name ∈ (upsUpdate s fn n desc).firstups.map Upstype.name := by
    unfold upsUpdate
    split
    · exact ⟨hs, hname⟩
    · constructor
      · refine heldAll_modifyUps hs _ (fun ups => ?_) fun ups hups => ?_
        · dsimp only
          split_ifs <;> rfl
        · dsimp only
          split_ifs
          · exact .inl rfl
          · exact hups
      · rw [names_modifyUps s _ fun ups => by dsimp only; split_ifs <;> rfl]
        exact hname
  unfold upsconfAddOne
  split
  · dsimp only
    split_ifs
    · exact hupdate _ _ _
    · exact hcreate _ _ _
  · exact ⟨hs, hname⟩

theorem heldAll_upsconfAdd (c : Connects) (reloading : Bool) (upstable : List UpsT) (hs : HeldAll name s.firstups)
    (hname : name ∈ s.firstups.map Upstype.name) : HeldAll name (upsconfAdd c reloading s upstable).firstups := by
  unfold upsconfAdd
  induction upstable generalizing s with
  | nil => exact hs
  | cons tmp upstable ih =>
    obtain ⟨hs', hname'⟩ := heldAll_upsconfAddOne c reloading tmp hs hname
    exact ih hs' hname'

theorem heldAll_deleteUnretained (hs : HeldAll name s.firstups) : HeldAll name (deleteUnretained s).firstups := by
  have hall (upses : List Upstype) {s : Upsd} (hs : HeldAll name s.firstups) :
      HeldAll name (upses.foldl (fun s ups => if ups.retain then s else deleteUps s ups) s).firstups := by
    induction upses generalizing s with
    | nil => exact hs
    | cons ups upses ih =>
      refine ih ?_
      dsimp only
      split_ifs
      · exact hs
      · intro ups' hups'
        exact heldAll_disconnectEach _ _ hs ups' (List.mem_filter.1 hups').1
  exact hall _ hs

theorem heldAll_confReload {c : Connects} {files : Files} (h : confReload c s files = some s')
    (hs : HeldAll name s.firstups) (hname : name ∈ s.firstups.map Upstype.name) : HeldAll name s'.firstups := by
  unfold confReload at h
  split at h
  · exact Option.some.inj h ▸ hs
  · simp at h
  · rename_i upsdConf _ _ _
    obtain ⟨upstable, -, h⟩ := Option.bind_eq_some_iff.1 h
    have hretain : HeldAll name (s.firstups.map fun ups => { ups with retain := false }) := by
      intro ups' hups' hn
      obtain ⟨ups, hups, rfl⟩ := List.mem_map.1 hups'
      exact hs ups hups hn
    have hadd := heldAll_upsconfAdd (s := { s with firstups := s.firstups.map fun ups => { ups with retain := false } })
      c true upstable hretain (by simpa using hname)
    rw [← loadUpsdconf_firstups _ upsdConf] at hadd
    have hdelete := heldAll_deleteUnretained hadd
    split at h
    · exact Option.some.inj h ▸ hdelete
    · exact Option.some.inj h ▸ hdelete

/-- An event that does not refresh the UPS. -/
theorem heldAll_step {e : Event} (hquiet : ¬Refreshes s name e) (hstep : s.step e = some s')
    (hs : HeldAll name s.firstups) (hname : name ∈ s.firstups.map Upstype.name) : HeldAll name s'.firstups := by
  cases e with
  | reload c files => exact heldAll_confReload (step_reload.1 hstep).1 hs hname
  | scan now c w =>
    refine Option.some.inj hstep ▸ heldAll_disconnectEach _ _ ?_
    exact heldAll_scanUpses c w s.maxage s.maxconn 0 hs hquiet
  | driver name' now ret =>
    simp only [Upsd.step] at hstep
    split at hstep
    · exact Option.some.inj hstep ▸ hs
    · rename_i ups hfind
      obtain ⟨ups', hread, rfl⟩ := Option.map_eq_some_iff.1 hstep
      have hups : ups ∈ s.firstups := List.mem_of_find?_eq_some hfind
      have hupsname : ups.name = name' := by simpa using List.find?_some hfind
      intro new hnew hn
      obtain ⟨other, hother, rfl⟩ := List.mem_map.1 hnew
      split_ifs at hn ⊢ with hname'
      · have hsame : ups.name = name := (sameUps_sstateReadline hread).name.symm.trans hn
        refine (hs ups hups hsame).sstateReadline hread fun buf hbuf hline => hquiet ?_
        rw [hbuf]
        exact ⟨hupsname.symm.trans hsame, ups, hups, hsame, hline⟩
      · exact hs other hother hn
  | driverHup name' =>
    refine Option.some.inj hstep ▸ heldAll_modifyUps hs name' (fun ups => ?_) fun ups _ => held_sstateDisconnect ups
    exact (sameUps_sstateDisconnect ups).name
  | client fd now w buf => exact Option.some.inj hstep ▸ heldAll_clientReadline hs now w fd buf
  | clientHup fd => exact Option.some.inj hstep ▸ heldAll_clientDisconnect hs fd
  | accept fd now addr =>
    simp only [Upsd.step] at hstep
    split at hstep
    · exact Option.some.inj hstep ▸ hs
    · simp at hstep

/-- The record stays held as long as the server waits. -/
theorem heldAll_waits {t : Upsd} (hstage : s.Stage) (hs : HeldAll name s.firstups)
    (hname : name ∈ s.firstups.map Upstype.name) (h : Upsd.Waits name s t) :
    t.Stage ∧ HeldAll name t.firstups ∧ name ∈ t.firstups.map Upstype.name := by
  induction h with
  | refl => exact ⟨hstage, hs, hname⟩
  | line h now w fd numargs arglist ih =>
    obtain ⟨hstage, hheld, hpresent⟩ := ih
    refine ⟨hstage.step (.line ..), heldAll_netLine hheld now w fd numargs arglist, ?_⟩
    rw [names_moves (moves_netLine now w fd _ numargs arglist)]
    exact hpresent
  | event h e hquiet hstep hups ih =>
    obtain ⟨hstage, hheld, hpresent⟩ := ih
    refine ⟨hstage.step (.event e hstep), heldAll_step hquiet hstep hheld hpresent, ?_⟩
    obtain ⟨ups, hups, hn⟩ := hups
    exact List.mem_map.2 ⟨ups, hups, hn⟩

end Keep

theorem heldAll_scan {s : Upsd} (hs : s.Stage) {ups : Upstype} (hstale : SaidStale ups) (hscanned : Scanned s ups)
    (now : Int) {c : Connects} (w : Writes) (hquiet : ¬Reconnects c ups) : HeldAll ups.name (scan now c w s).firstups := by
  obtain ⟨pre, post, hfirstups, hreach⟩ := hscanned
  refine heldAll_disconnectEach _ _ fun ups' hups' hname => ?_
  have hunique : UniqueNames { s with firstups := scanUpses c w s.maxage s.maxconn 0 s.firstups } :=
    hs.uniqueNames.of_names (names_of_forall₂ (forall₂_scanUpses c w s.maxage s.maxconn 0 s.firstups))
  obtain ⟨held, hmem, hsame, hheld⟩ := @held_scanUpses c w s.maxage s.maxconn 0 pre post ups hstale hquiet (by omega)
  rw [← hfirstups] at hmem
  obtain rfl := hunique.eq hups' hmem (by rw [hname, hsame, strcasecmp_self])
  exact hheld

/-! ### Queries -/

/-- The command line asks for values of the UPS: `GET VAR` of a variable of the driver, or a list about one UPS other
than that of its clients. -/
inductive AsksValues (upsname : CStr) (args : List CStr) : Prop
  | get {type var : CStr} {rest : List CStr} (hasks : Asks args "GET".toList (type :: upsname :: var :: rest))
      (htype : strcasecmp type "VAR".toList = .eq) (hvar : strcasecmp (var.take 7) "server.".toList ≠ .eq)
  | list {type : CStr} {rest : List CStr} (hasks : Asks args "LIST".toList (type :: upsname :: rest))
      (hups : strcasecmp type "UPS".toList ≠ .eq) (hclient : strcasecmp type "CLIENT".toList ≠ .eq)

/-- A query about a UPS that is not available is answered by an error. -/
theorem error_of_not_available {s : Upsd} {upsname : CStr} {ups : Upstype} (hups : getUpsPtr s upsname = some ups)
    (h : ¬ups.Available) {args : List CStr} (hasks : AsksValues upsname args) (w : Writes) (client : NutCtype) :
    ∃ err, parseNet w s client args = sendErr w s client.sockFd err := by
  obtain ⟨err, herr⟩ := withUps_of_not_available hups h w client.sockFd
  cases hasks with
  | get hasks htype hvar =>
    rw [parseNet_get hasks, netGet_var htype]
    unfold getVar
    rw [if_neg hvar]
    exact ⟨err, herr _⟩
  | list hasks hnotups hnotclient =>
    rw [parseNet_list hasks]
    unfold netList
    dsimp only
    rw [if_neg hnotups, if_neg hnotclient]
    have hite {p : Prop} [Decidable p] {a b : Upsd} (ha : ∃ err, a = sendErr w s client.sockFd err)
        (hb : ∃ err, b = sendErr w s client.sockFd err) : ∃ err, (if p then a else b) = sendErr w s client.sockFd err := by
      split
      · exact ha
      · exact hb
    refine hite ⟨err, herr _⟩ (hite ⟨err, herr _⟩ (hite ⟨err, herr _⟩ ?_))
    split
    · exact ⟨_, rfl⟩
    · exact hite ⟨err, herr _⟩ (hite ⟨err, herr _⟩ ⟨_, rfl⟩)

/-- After `DATASTALE`, and from the next scan that comes as far as the UPS and does not connect it anew, every query for values
of the UPS is answered by an error, until the driver says `DATAOK` or is connected anew. -/
theorem stale_not_served {s t : Upsd} (hs : s.Stage) {ups : Upstype} (hstale : SaidStale ups) (hscanned : Scanned s ups)
    (now : Int) {c : Connects} (w : Writes) (hquiet : ¬Reconnects c ups) (hwaits : Upsd.Waits ups.name (scan now c w s) t) (w' : Writes)
    (client : NutCtype) {args : List CStr} {upsname : CStr} {ups' : Upstype} (hups' : getUpsPtr t upsname = some ups')
    (hname : ups'.name = ups.name) (hasks : AsksValues upsname args) :
    ∃ err lost, parseNet w' t client args = t.told client.sockFd [answer (errText err)] lost := by
  have hstage : (scan now c w s).Stage := hs.step (.event (.scan now c w) rfl)
  have hpresent : ups.name ∈ (scan now c w s).firstups.map Upstype.name := by
    rw [names_moves (moves_scan now c w s)]
    obtain ⟨pre, post, hfirstups, -⟩ := hscanned
    simp [hfirstups]
  obtain ⟨hstage', hheld, -⟩ := heldAll_waits hstage (heldAll_scan hs hstale hscanned now w hquiet) hpresent hwaits
  obtain ⟨err, herr⟩ := error_of_not_available hups' (hheld ups' (mem_of_getUpsPtr hups') hname).not_available hasks w' client
  exact ⟨err, _, by rw [herr, sendErr, sendback_eq]; rfl⟩

/-! ### The small server -/

/-- A pass in which the driver completes its dump, and one in which it sends `DATASTALE`. -/
def staleEvents : List Event :=
  [.accept 7 100 "127.0.0.1".toList, .scan 100 oneDriver allWritten,
    .driver "u".toList 100 (.data "SETINFO ups.status \"OL\"\nDATAOK\nDUMPDONE\n".toList),
    .scan 101 oneDriver allWritten, .driver "u".toList 101 (.data "DATASTALE\n".toList)]

def staleServer : Upsd := (oneUpsServer.run staleEvents).getD oneUpsServer

/-- The packet of a client that asks for the status. -/
def askStatus : Event := .client 7 101 allWritten (some "GET VAR u ups.status\n".toList)

/-- What the client was sent last. -/
def Upsd.lastSent (s : Upsd) (fd : Nat) : Option CStr := (s.client fd).bind fun client => client.sent.getLast?

private theorem isSome_staleEvents : (oneUpsServer.run staleEvents).isSome = true := by decide +kernel

theorem stale_run : oneUpsServer.run staleEvents = some staleServer := by
  obtain ⟨s, hs⟩ := Option.isSome_iff_exists.1 isSome_staleEvents
  rw [staleServer, hs, Option.getD_some]

/-- After `DATASTALE` the status is still served in the same pass, and again when the driver has been connected anew and
its dump is not complete. -/
theorem stale_served : oneUpsServer.run staleEvents = some staleServer ∧
    (∃ ups ∈ staleServer.firstups, SaidStale ups) ∧
    (staleServer.run [askStatus]).bind (fun s => s.lastSent 7) = some "VAR u ups.status \"OL\"\n".toList ∧
    (staleServer.run [.driverHup "u".toList, .scan 102 oneDriver allWritten, askStatus]).bind (fun s => s.lastSent 7) =
      some "VAR u ups.status \"WAIT\"\n".toList := by
  refine ⟨stale_run, ?_⟩
  decide +kernel

def staleUps : Upstype := staleServer.firstups.headD (newUps [] [] none)

def staleClient : NutCtype := (staleServer.client 7).getD ⟨[], 7, 0, none, none, none, pconfInit, []⟩

/-- What the next scan makes of the UPS. -/
private theorem staleServer_scanned :
    getUpsPtr (scan 102 oneDriver allWritten staleServer) "u".toList = some { staleUps with stale := true } ∧
      SaidStale staleUps ∧ staleUps.sockFd ≠ none ∧ staleServer.firstups = [staleUps] ∧ 0 < staleServer.maxconn := by
  decide +kernel

theorem stale_not_served_status : ∃ err lost,
    parseNet allWritten (scan 102 oneDriver allWritten staleServer) staleClient
        ["GET".toList, "VAR".toList, "u".toList, "ups.status".toList] =
      (scan 102 oneDriver allWritten staleServer).told staleClient.sockFd [answer (errText err)] lost := by
  have hstage : staleServer.Stage := Upsd.Stage.run (.init started_oneUpsServer) stale_run
  obtain ⟨hups', hstale, hconnected, hfirstups, hmax⟩ := staleServer_scanned
  have hscanned : Scanned staleServer staleUps := ⟨[], [], hfirstups, hmax⟩
  exact stale_not_served hstage hstale hscanned 102 allWritten (fun h => hconnected h.1) .refl allWritten staleClient hups' rfl
    (.get ⟨_, rfl, by decide⟩ (by decide) (by decide))

end Nut
