import Nut.Lib.Transition
import Nut.Drivers.Sock
import Nut.Sync.Behind

/-!
# The driver and the server under races

A server connects to a driver and writes `DUMPALL`; the driver accepts the connection at some time, reads the request
at some time, and may change its state and broadcast the change before, between and after.  In every order of these
steps the mirror is behind the driver (`Link.Inv`), so that once the dump is through and nothing is on its way the
mirror shows the state of the driver (`race_converges`).
-/

namespace Nut

open ChunkReader Lexer SearchTree Transition

/-- A driver, a server that connected to it, the bytes for the driver, and how many of those that the driver wrote on
the connection the server has read. -/
structure Link where
  driver : Dstate
  server : Upstype
  toDriver : CStr
  taken : Nat

namespace Link

/-- What the driver wrote on the connection and the server has not read. -/
def inflight (fd : Nat) (s : Link) : CStr := ((connOut s.driver fd).getD []).drop s.taken

/-- A new driver and a server that just connected to it. -/
def connected (now : Int) (ups : Upstype) (sock : Nat) : Link :=
  let r := sstateConnect now ups (.ok sock)
  { driver := Dstate.init
    server := { r.1 with sockFd := r.2 }
    toDriver := (r.1.sent.drop ups.sent.length).flatten
    taken := 0 }

/-- A call, the `accept` of the driver, or a `read` of some of the bytes that have arrived. -/
inductive Event where
  | call (c : Call)
  | accept
  | driverRead (n : Nat)
  | serverRead (now : Int) (n : Nat)

section

variable (P : Call → Prop) (w : Nat → Bool) (upsh : UpsHandler) (fd : Nat)

/-- There is no result when the event cannot happen. -/
def step (s : Link) : Event → Option Link
  | .call c => some { s with driver := c.run w s.driver }
  | .accept => if (connOut s.driver fd).isSome then none else some { s with driver := sockConnect s.driver fd }
  | .driverRead n =>
    if (connOut s.driver fd).isNone ∨ s.toDriver.take n = [] then none
    else
      (sockRead w upsh fd s.driver (.data (s.toDriver.take n))).map fun d =>
        { s with driver := d, toDriver := s.toDriver.drop n }
  | .serverRead now n =>
    if (s.inflight fd).take n = [] then none
    else
      (sstateReadline now s.server (.data ((s.inflight fd).take n))).map fun ups =>
        { s with server := ups, taken := s.taken + ((s.inflight fd).take n).length }

/-- The calls are among `P`, every line fits the buffer, and the driver has a status when it answers `DUMPALL`. -/
def Admissible (s : Link) : Event → Prop
  | .call c => P c ∧ (c.changes s.driver = true → c.line.length < stSockBufLen)
  | .driverRead n =>
    s.toDriver.length ≤ n → StatusSet s.driver ∧ ∀ text ∈ dumpLines s.driver, text.length < stSockBufLen
  | .accept | .serverRead _ _ => True

/-- The states of the link in every run. -/
def Reachable (s : Link) : Prop :=
  Reach (fun s => ∃ now ups sock, ups.inforoot = .nil ∧ ups.cmdlist = [] ∧ s = connected now ups sock)
    (fun s s' => ∃ e, Admissible P s e ∧ step w upsh fd s e = some s') s

end

/-! ### The request -/

/-- The request is on its way to the driver, or it was answered. -/
def Asked (done : Bool) (chan : CStr) (ctx : PconfCtx) : Prop :=
  if done then chan = []
  else ∃ A l, Loaded A l ctx ∧ ReadsAs Lexer.step l chan Lexer.start ["DUMPALL".toList]

/-- `d'` differs from `d` in its connections only. -/
structure SameState (d d' : Dstate) : Prop where
  tree : d'.dtreeRoot = d.dtreeRoot
  cmds : d'.cmdhead = d.cmdhead
  stale : d'.stale = d.stale

namespace SameState

variable {d d' d'' : Dstate}

theorem trans (h : SameState d d') (h' : SameState d' d'') : SameState d d'' :=
  ⟨h'.tree.trans h.tree, h'.cmds.trans h.cmds, h'.stale.trans h.stale⟩

theorem published (h : SameState d d') : d'.published = d.published := by
  simp only [Dstate.published, h.tree, h.cmds, h.stale]

theorem dumpLines (h : SameState d d') : dumpLines d' = dumpLines d := by
  simp only [Nut.dumpLines, h.tree, h.cmds, h.stale]

theorem plainDriver (h : SameState d d') (hd : PlainDriver d) : PlainDriver d' :=
  ⟨hd.sound.congr h.tree h.cmds, by rw [h.tree]; exact hd.nodes⟩

theorem of_sameButCtx {fd : Nat} (h : SameButCtx fd d d') : SameState d d' := ⟨h.dtreeRoot, h.cmdhead, h.stale⟩

theorem sendToAll (w : Nat → Bool) (d : Dstate) (text : CStr) : SameState d (sendToAll w d text) :=
  ⟨by simp, by simp, by simp⟩

end SameState

section Reading

variable {w : Nat → Bool} {upsh : UpsHandler} {fd : Nat} {d : Dstate} {conn : Conn}

/-- Reading the request is answering it. -/
private theorem sockReadLoop_dumpall (hc : (d.connhead.find? fun conn => conn.fd = fd) = some conn) {chan : CStr}
    (ha : Asked false chan conn.ctx) :
    ∃ d' ctx', sockReadLoop w upsh fd d chan = some (dumpAll w fd d') ∧ SameState d d' ∧
      (d'.connhead.find? fun conn => conn.fd = fd) = some { conn with ctx := ctx' } := by
  obtain ⟨A, l, hl, hreads⟩ := ha
  obtain ⟨ctx', -, hrun⟩ := @sockReadLoop_line w upsh fd d conn A l hc hl chan _ hreads []
  have hfind := find_setConnCtx d fd ctx'
  rw [hc, Option.map_some] at hfind
  rw [List.append_nil] at hrun
  exact ⟨setConnCtx d fd ctx', ctx', hrun, .of_sameButCtx (.setConnCtx fd d ctx'), hfind⟩

end Reading

/-! ### The invariant -/

/-- The connection waits to be accepted, and the mirror has only what the server made up. -/
structure Waiting (fd : Nat) (s : Link) : Prop where
  closed : connOut s.driver fd = none
  request : s.toDriver = "DUMPALL\n".toList
  taken : s.taken = 0
  receives : Receives s.server [] []
  tree : s.server.inforoot = .node .nil placeholder .nil
  cmds : s.server.cmdlist = []
  dumpdone : s.server.dumpdone = false

/-- The connection is open, the messages `ms` are on their way, and the mirror is behind the driver once it has read
them. -/
structure Open (fd : Nat) (s : Link) (conn : Conn) (done : Bool) (ms : List Message) : Prop where
  found : (s.driver.connhead.find? fun conn => conn.fd = fd) = some conn
  taken : s.taken ≤ conn.out.length
  receives : Receives s.server (conn.out.drop s.taken) ms
  behind : Behind done s.driver.published (ms.foldl Message.exec s.server.mirror)
  request : Asked done s.toDriver conn.ctx

def Inv (fd : Nat) (s : Link) : Prop := PlainDriver s.driver ∧ (Waiting fd s ∨ ∃ conn done ms, Open fd s conn done ms)

private theorem connOut_eq_none {d : Dstate} {fd : Nat} :
    connOut d fd = none ↔ (d.connhead.find? fun conn => conn.fd = fd) = none := by
  rw [connOut, Option.map_eq_none_iff]

section

variable {w : Nat → Bool} {upsh : UpsHandler} {fd : Nat} {s s' : Link}

theorem inv_connected (now : Int) {ups : Upstype} (sock : Nat) (htree : ups.inforoot = .nil) (hcmds : ups.cmdlist = []) :
    Inv fd (connected now ups sock) := by
  refine ⟨PlainDriver.init, .inl ⟨rfl, ?_, rfl, Receives.start (by simp [connected, sstateConnect]) atLineStart_pconfInit,
    ?_, hcmds, rfl⟩⟩
  · simp [connected, sstateConnect]
  · show (stateSetinfo ups.inforoot "ups.status".toList "WAIT".toList).1 = _
    rw [htree, stateSetinfo_fst]
    rfl

private theorem inv_accept (h : Inv fd s) (hnone : connOut s.driver fd = none) :
    Inv fd { s with driver := sockConnect s.driver fd } := by
  obtain ⟨hd, hwait | ⟨conn, done, ms, hopen⟩⟩ := h
  · refine ⟨⟨hd.sound.congr rfl rfl, hd.nodes⟩, .inr ⟨⟨fd, pconfInit, []⟩, false, [], ?_⟩⟩
    refine ⟨by simp [sockConnect], by simp [hwait.taken], by simpa using hwait.receives, ?_, ?_⟩
    · exact behind_placeholder _ hwait.tree hwait.cmds hwait.dumpdone
    · show Asked false s.toDriver pconfInit
      rw [hwait.request]
      exact ⟨_, _, atLineStart_pconfInit, reads_keyword (by decide : IsWord "DUMPALL".toList)⟩
  · rw [connOut_eq_none, hopen.found] at hnone
    simp at hnone

private theorem inv_serverRead (h : Inv fd s) (now : Int) {n : Nat} (hbuf : (s.inflight fd).take n ≠ []) :
    ∃ ups, sstateReadline now s.server (.data ((s.inflight fd).take n)) = some ups ∧
      Inv fd { s with server := ups, taken := s.taken + ((s.inflight fd).take n).length } := by
  obtain ⟨hd, hwait | ⟨conn, done, ms, hopen⟩⟩ := h
  · simp [inflight, hwait.closed] at hbuf
  have hflight : s.inflight fd = conn.out.drop s.taken := by
    rw [inflight, connOut, hopen.found]
    rfl
  have hrec := hopen.receives
  rw [← List.take_append_drop n (conn.out.drop s.taken)] at hrec
  rw [hflight] at hbuf ⊢
  obtain ⟨ups, ms₁, ms₂, hread, rfl, hmirror, -, hrec'⟩ := hrec.read now
  have hlen : ((conn.out.drop s.taken).take n).length = min n (conn.out.drop s.taken).length := List.length_take
  refine ⟨ups, hread, hd, .inr ⟨conn, done, ms₂, hopen.found, ?_, ?_, ?_, hopen.request⟩⟩
  · have htaken := hopen.taken
    show s.taken + _ ≤ _
    rw [hlen, List.length_drop]
    omega
  · show Receives ups (conn.out.drop (s.taken + _)) ms₂
    rw [hlen, ← List.drop_drop, ← List.drop_eq_drop_min]
    exact hrec'
  · have hbehind := hopen.behind
    rw [List.foldl_append, ← hmirror] at hbehind
    exact hbehind

section Delivered

variable (hw : ∀ n, w n = true)
include hw

private theorem inv_call (h : Inv fd s) {c : Call} (hc : c.Plain)
    (hfit : c.changes s.driver = true → c.line.length < stSockBufLen) :
    Inv fd { s with driver := c.run w s.driver } := by
  obtain ⟨hd, hstate⟩ := h
  have hrun := hc.run_eq w s.driver
  rcases hop : c.changes s.driver with _ | _
  · rw [hop] at hrun
    rw [hrun]
    exact ⟨hd, hstate⟩
  rw [hop, if_pos rfl] at hrun
  refine ⟨hd.call hc.spoken w, ?_⟩
  rw [hrun]
  have hsame := SameState.sendToAll w (s.driver.withState (c.apply s.driver.published)) c.line
  rcases hstate with hwait | ⟨conn, done, ms, hopen⟩
  · refine .inl ⟨?_, hwait.request, hwait.taken, hwait.receives, hwait.tree, hwait.cmds, hwait.dumpdone⟩
    rw [connOut_sendToAll hw]
    show (connOut s.driver fd).map _ = none
    rw [hwait.closed, Option.map_none]
  · -- one more message, and the same change of the driver
    refine .inr ⟨{ conn with out := conn.out ++ c.line }, done, ms ++ [c.message], ?_, ?_, ?_, ?_, hopen.request⟩
    · rw [find_sendToAll hw, snprintf_of_lt (hfit hop)]
      show (s.driver.connhead.find? _).map _ = _
      rw [hopen.found, Option.map_some]
    · have htaken := hopen.taken
      simp only [List.length_append]
      omega
    · rw [List.drop_append_of_le_length hopen.taken]
      exact hopen.receives.append (hc.reads (hfit hop))
    · rw [hsame.published, c.published_withState, List.foldl_append]
      exact hopen.behind.call hd hc hop

private theorem inv_driverRead (h : Inv fd s) {n : Nat} (hsome : connOut s.driver fd ≠ none) (hbuf : s.toDriver.take n ≠ [])
    (hadm : s.toDriver.length ≤ n → StatusSet s.driver ∧ ∀ text ∈ dumpLines s.driver, text.length < stSockBufLen) :
    ∃ d, sockRead w upsh fd s.driver (.data (s.toDriver.take n)) = some d ∧
      Inv fd { s with driver := d, toDriver := s.toDriver.drop n } := by
  obtain ⟨hd, hwait | ⟨conn, done, ms, hopen⟩⟩ := h
  · exact absurd hwait.closed hsome
  obtain ⟨hfind, htaken, hrec, hbehind, hasked⟩ := hopen
  rcases done with _ | _
  swap
  · -- nothing is sent to the driver after the request
    have hnil : s.toDriver = [] := hasked
    simp [hnil] at hbuf
  by_cases hall : s.toDriver.length ≤ n
  · -- the whole request has arrived: the dump completes the mirror
    obtain ⟨hstatus, hfit⟩ := hadm hall
    obtain ⟨d', ctx', hrun, hsame, hfind'⟩ := @sockReadLoop_dumpall w upsh fd s.driver conn hfind s.toDriver hasked
    have hsent := dumpAll_sent hw fd d'
    have hall' : SameState s.driver (dumpAll w fd d') := hsame.trans ⟨hsent.tree, hsent.cmds, hsent.stale⟩
    have hconn := hsent.find
    rw [hfind', Option.map_some] at hconn
    rw [List.take_of_length_le hall, List.drop_of_length_le hall]
    refine ⟨_, hrun, hall'.plainDriver hd, .inr ⟨_, true, ms ++ dumpMessages s.driver, hconn, ?_, ?_, ?_, rfl⟩⟩
    · simp only [List.length_append]
      omega
    · have hlines := hrec.lines (lineOf_dump hd.sound) hfit
      rw [hsame.dumpLines, List.drop_append_of_le_length htaken]
      exact hlines
    · rw [hall'.published, List.foldl_append]
      exact hbehind.dump hd hstatus
  · -- a part of the request
    have hrest : s.toDriver.drop n ≠ [] := by
      intro hnil
      rw [List.drop_eq_nil_iff] at hnil
      exact hall hnil
    obtain ⟨A, l, hl, hreads⟩ := hasked
    rw [← List.take_append_drop n s.toDriver] at hreads
    obtain ⟨t, ht, hreads'⟩ := hreads.split hrest
    obtain ⟨d', ctx', hrun, hctx, hfind', hl'⟩ := @sockReadLoop_silent w upsh fd s.driver conn A l t hfind hl _ ht []
    rw [List.append_nil] at hrun
    have hsame := SameState.of_sameButCtx hctx
    have hbehind' : Behind false d'.published (ms.foldl Message.exec s.server.mirror) := hsame.published ▸ hbehind
    exact ⟨d', hrun, hsame.plainDriver hd, .inr ⟨_, false, ms, hfind', htaken, hrec, hbehind', A, t, hl', hreads'⟩⟩

theorem inv_step (h : Inv fd s) {e : Event} (ha : Admissible Call.Plain s e) (hs : step w upsh fd s e = some s') :
    Inv fd s' := by
  cases e with
  | call c =>
    obtain rfl := Option.some.inj hs
    exact inv_call hw h ha.1 ha.2
  | accept =>
    simp only [step] at hs
    split at hs
    · simp at hs
    · rename_i hclosed
      obtain rfl := Option.some.inj hs
      exact inv_accept h (by simpa using hclosed)
  | driverRead n =>
    simp only [step] at hs
    split at hs
    · simp at hs
    · rename_i hbuf
      rw [not_or] at hbuf
      obtain ⟨d, hread, hinv⟩ := @inv_driverRead w upsh fd s hw h n (by simpa using hbuf.1) hbuf.2 ha
      rw [hread] at hs
      obtain rfl := Option.some.inj hs
      exact hinv
  | serverRead now n =>
    simp only [step] at hs
    split at hs
    · simp at hs
    · rename_i hbuf
      obtain ⟨ups, hread, hinv⟩ := inv_serverRead h now hbuf
      rw [hread] at hs
      obtain rfl := Option.some.inj hs
      exact hinv

theorem Reachable.inv (h : Reachable Call.Plain w upsh fd s) : Inv fd s := by
  refine Reach.invariant h ?_ ?_
  · rintro s ⟨now, ups, sock, htree, hcmds, rfl⟩
    exact inv_connected now sock htree hcmds
  · rintro s s' hs ⟨e, ha, hstep⟩
    exact inv_step hw hs ha hstep

/-- In every order of the steps: once the dump is done and nothing is on its way, the mirror shows the state of the
driver. -/
theorem race_converges (h : Reachable Call.Plain w upsh fd s) (hdone : s.server.dumpdone = true)
    (hdrained : s.inflight fd = []) : s.driver.published.SameSets s.server.mirror := by
  obtain ⟨hd, hwait | ⟨conn, done, ms, hopen⟩⟩ := h.inv hw
  · rw [hwait.dumpdone] at hdone
    simp at hdone
  · have hflight : s.inflight fd = conn.out.drop s.taken := by
      rw [inflight, connOut, hopen.found]
      rfl
    have hrec := hopen.receives
    rw [← hflight, hdrained] at hrec
    obtain ⟨rfl, -⟩ := hrec.drained
    have hbehind : Behind done s.driver.published s.server.mirror := hopen.behind
    have htrue : done = true := by
      rw [← hbehind.dumpdone]
      exact hdone
    subst htrue
    exact hbehind.sameSets hd

end Delivered

end

/-! ### Runs -/

instance (d : Dstate) : Decidable (StatusSet d) :=
  decidable_of_iff ((stateTreeFind d.dtreeRoot placeholder.var).any fun n => strcasecmp n.val placeholder.raw ≠ .eq)
    (by simp [StatusSet, Option.any_eq_true])

instance {P : Call → Prop} [DecidablePred P] (s : Link) (e : Event) : Decidable (Admissible P s e) := by
  cases e <;> unfold Admissible <;> infer_instance

/-- The state after several events, each admissible. -/
def follow (P : Call → Prop) [DecidablePred P] (fd : Nat) (s : Link) (es : List Event) : Option Link :=
  es.foldlM (fun s e => if Admissible P s e then step (fun _ => true) ⟨none, none⟩ fd s e else none) s

theorem reachable_follow {P : Call → Prop} [DecidablePred P] {fd : Nat} {s s' : Link} {es : List Event}
    (h : Reachable P (fun _ => true) ⟨none, none⟩ fd s) (hes : follow P fd s es = some s') :
    Reachable P (fun _ => true) ⟨none, none⟩ fd s' := by
  induction es generalizing s with
  | nil =>
    obtain rfl := Option.some.inj hes
    exact h
  | cons e es ih =>
    obtain ⟨t, ht, hrest⟩ := Option.bind_eq_some_iff.1 hes
    beta_reduce at ht
    split at ht
    · rename_i ha
      exact ih (.step h ⟨e, ha, ht⟩) hrest
    · simp at ht

/-- The calls that change something, with values in which nothing is to be escaped, whatever the names and the other
characters. -/
def Listed : Call → Prop
  | .value (.setinfo _ val) | .value (.addenum _ val) => ∀ c ∈ val, pconfEscape c = false
  | .struct (.setflags _ flags) => flags &&& stFlagSent ≠ 0
  | .value (.delenum _ _) | .struct (.delrange _ _ _) => False
  | .struct _ | .dataok | .datastale => True

instance : DecidablePred Listed
  | .value (.setinfo _ _) | .value (.addenum _ _) => inferInstanceAs (Decidable (∀ c ∈ _, _))
  | .struct (.setflags _ _) => inferInstanceAs (Decidable (_ ≠ _))
  | .value (.delenum _ _) | .struct (.delrange _ _ _) => inferInstanceAs (Decidable False)
  | .struct (.setaux _ _) | .struct (.delinfo _) | .struct (.addcmd _) | .struct (.delcmd _)
  | .struct (.addrange _ _ _) | .dataok | .datastale => inferInstanceAs (Decidable True)

/-- A server that connects to a new driver. -/
def fresh : Link := connected 0 (newUps "apcsmart-ups".toList "ups".toList none) 5

theorem reachable_fresh {P : Call → Prop} : Reachable P (fun _ => true) ⟨none, none⟩ 4 fresh :=
  .init ⟨0, newUps "apcsmart-ups".toList "ups".toList none, 5, rfl, rfl, rfl⟩

/-- The values of a variable on both sides, with what else tells that the dump is through. -/
def outcome (k : CStr) (s : Link) : (Bool × CStr) × Option CStr × Option CStr :=
  ((s.server.dumpdone, s.inflight 4), (find nodeKey k s.driver.published.inforoot).map StNode.val,
    (find nodeKey k s.server.mirror.inforoot).map StNode.val)

/-- The run ends with the dump through, nothing on its way, and a mirror that shows something else. -/
def Diverges (es : List Event) : Prop :=
  ∃ s, follow Listed 4 fresh es = some s ∧ Reachable Listed (fun _ => true) ⟨none, none⟩ 4 s ∧ s.server.dumpdone = true ∧
    s.inflight 4 = [] ∧ ¬s.driver.published.SameSets s.server.mirror

private theorem diverges_of_outcome {es : List Event} {k : CStr} {v v' : Option CStr} (hne : v ≠ v')
    (h : (follow Listed 4 fresh es).map (outcome k) = some ((true, []), v, v')) : Diverges es := by
  obtain ⟨s, hs, hout⟩ := Option.map_eq_some_iff.1 h
  simp only [outcome, Prod.mk.injEq] at hout
  obtain ⟨⟨hdone, hdrained⟩, hv, hv'⟩ := hout
  refine ⟨s, hs, reachable_follow reachable_fresh hs, hdone, hdrained, fun hsame => hne ?_⟩
  have hview := congrArg (Option.map Prod.fst) (hsame.vars k)
  rw [Option.map_map, Option.map_map] at hview
  rw [← hv, ← hv']
  exact hview

/-- A value with a character that the parser drops. -/
def valueRun : List Event :=
  [.call (.value (.setinfo "ups.status".toList "O\x01L".toList)), .accept, .driverRead 8, .serverRead 1 64]

/-- A name with a blank. -/
def nameRun : List Event :=
  [.call (.value (.setinfo "ups.status".toList "OL".toList)), .call (.value (.setinfo "ups load".toList "42".toList)),
    .accept, .driverRead 8, .serverRead 1 128]

/-- A character that the parser drops is lost on the way, and a name with a blank is not read as one. -/
theorem race_dropped : Diverges valueRun ∧ Diverges nameRun := by
  constructor
  · exact @diverges_of_outcome valueRun "ups.status".toList (some "O\x01L".toList) (some "OL".toList) (by decide) (by decide)
  · exact @diverges_of_outcome nameRun "ups load".toList (some "42".toList) none (by decide) (by decide)

/-- Changes before the request is read, between its parts, and after the dump. -/
def raceRun : List Event :=
  [.call (.value (.setinfo "ups.status".toList "OL".toList)), .accept,
    .call (.value (.setinfo "ups.load".toList "42".toList)), .driverRead 3, .call (.struct (.addcmd "load.off".toList)),
    .serverRead 1 20, .driverRead 5, .call .dataok, .serverRead 2 300]

theorem race_converges_load :
    ∃ s, follow Call.Plain 4 fresh raceRun = some s ∧ s.driver.published.SameSets s.server.mirror := by
  have hrun : (follow Call.Plain 4 fresh raceRun).map (fun s => (s.server.dumpdone, s.inflight 4)) = some (true, []) := by
    decide
  obtain ⟨s, hs, hout⟩ := Option.map_eq_some_iff.1 hrun
  obtain ⟨hdone, hdrained⟩ := Prod.mk.inj hout
  exact ⟨s, hs, race_converges (fun _ => rfl) (reachable_follow reachable_fresh hs) hdone hdrained⟩

end Link

end Nut
