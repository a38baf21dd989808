import Nut.Sync.Upstream

/-!
# The clone and the driver that it repeats

A clone connects to a driver, again and again, and reads what the driver sends, while both go on with their own work.
In every order of these steps the clone follows the driver on each connection (`Pair.Inv`).  It never forgets what it
has published before, so that it is a replica of the driver, once it has read a dump and all that is on its way, as
long as no variable that it has published is gone when the driver accepts a connection (`clone_republishes`), and
otherwise exactly if the driver has told of all such variables since (`resynchronised_iff`).
-/

namespace Nut

open ChunkReader Lexer SearchTree Transition Replica

/-! ### What the clone hears -/

namespace Clone

/-- The clone has yet to read `chan`, which holds the lines with the words `wss`. -/
def Hears {F : Type} (c : Clone F) (chan : CStr) (wss : List (List CStr)) : Prop :=
  c.upsfd ≠ none ∧ ∃ A l, Loaded A l c.sockCtx ∧ Pending Lexer.step Lexer.start l chan wss

/-- The line is read as the words. -/
def Says (text : CStr) (ws : List CStr) : Prop :=
  text.length < stSockBufLen → ReadsAs Lexer.step Lexer.start text Lexer.start ws

/-- Each of the lines sets a value that `dstate_setinfo` takes, at the time it comes. -/
def LinesTaken {F : Type} (D : Doubles F) (w : Nat → Bool) (now : Int) : Clone F → List (Nat × List CStr) → Prop
  | _, [] => True
  | c, l :: ls => LineTaken c l.1 l.2 ∧ LinesTaken D w now (sstateLine D w now c l.1 l.2) ls

instance {F : Type} (D : Doubles F) (w : Nat → Bool) (now : Int) (c : Clone F) (ls : List (Nat × List CStr)) :
    Decidable (LinesTaken D w now c ls) := by
  induction ls generalizing c with
  | nil => exact isTrue trivial
  | cons l ls ih => exact inferInstanceAs (Decidable (_ ∧ _))

/-- What the lines that a new connection brings tell of the variables. -/
def said (out : CStr) : List (CStr × Option CStr) :=
  (readChunk pconfStep pconfInit out).2.flatMap fun l => told l.1 l.2

/-- The clone after some lines. -/
structure Took {F : Type} (ls : List (Nat × List CStr)) (c c' : Clone F) : Prop where
  ordered : Ordered nodeKey c'.dstate.dtreeRoot
  status : c'.status.length < stMaxValueLen
  upsfd : c'.upsfd = c.upsfd
  dumpdone : c'.dumpdone = (c.dumpdone || ls.any fun l => endsDump l.1 l.2)
  repeated : ∀ k ∈ passed, c'.repeated k = (ls.flatMap fun l => told l.1 l.2).foldl assign c.repeated k

section

variable {F : Type} {D : Doubles F} {w : Nat → Bool} {now : Int} {c c' : Clone F} {chan buf : CStr}
  {wss wss' : List (List CStr)} {ls : List (Nat × List CStr)}

theorem executes_sstateLine (hord : Ordered nodeKey c.dstate.dtreeRoot) (hlen : c.status.length < stMaxValueLen)
    {numargs : Nat} {arg : List CStr} (h : LineTaken c numargs arg) :
    Executes numargs arg c (sstateLine D w now c numargs arg) := by
  have hargs := @executes_parseArgs F D w c numargs arg hord hlen h
  unfold sstateLine
  dsimp only
  split
  · exact ⟨hargs.ordered, hargs.status, hargs.upsfd, hargs.dumpdone, hargs.repeated⟩
  · exact hargs

theorem took_lines (hord : Ordered nodeKey c.dstate.dtreeRoot) (hlen : c.status.length < stMaxValueLen)
    (h : LinesTaken D w now c ls) : Took ls c (ls.foldl (fun c l => sstateLine D w now c l.1 l.2) c) := by
  induction ls generalizing c with
  | nil => exact ⟨hord, hlen, rfl, (Bool.or_false _).symm, fun _ _ => rfl⟩
  | cons l ls ih =>
    have hone := @executes_sstateLine F D w now c hord hlen l.1 l.2 h.1
    have hrest := ih hone.ordered hone.status h.2
    refine ⟨hrest.ordered, hrest.status, hrest.upsfd.trans hone.upsfd, ?_, fun k hk => ?_⟩
    · rw [List.foldl_cons, hrest.dumpdone, hone.dumpdone, List.any_cons, Bool.or_assoc]
    · rw [List.foldl_cons, hrest.repeated k hk, List.flatMap_cons, List.foldl_append]
      exact foldl_assign_congr (hone.repeated k hk) _

theorem told_overlays (A : List CStr) (wss : List (List CStr)) :
    ((overlays A wss).flatMap fun l => told l.1 l.2) = wss.flatMap toldBy := by
  induction wss generalizing A with
  | nil => rfl
  | cons ws wss ih =>
    rw [overlays, List.flatMap_cons, List.flatMap_cons, ih]
    exact congrArg (· ++ _) (told_append ws _)

theorem endsDump_overlays (A : List CStr) (wss : List (List CStr)) :
    ((overlays A wss).any fun l => endsDump l.1 l.2) = wss.any dumpEnd := by
  induction wss generalizing A with
  | nil => rfl
  | cons ws wss ih =>
    rw [overlays, List.any_cons, List.any_cons, ih]
    exact congrArg (· || _) (endsDump_append ws _)

theorem sstateReadline_data (hfd : c.upsfd ≠ none) (buf : CStr) : (sstateReadline D w now c (.data buf)).1 =
    { (readChunk pconfStep c.sockCtx buf).2.foldl (fun c l => sstateLine D w now c l.1 l.2) c with
      sockCtx := (readChunk pconfStep c.sockCtx buf).1 } := by
  obtain ⟨fd, hsome⟩ := Option.ne_none_iff_exists'.1 hfd
  unfold sstateReadline
  rw [hsome]
  simp only [readLoop_eq]

theorem took_readline (hord : Ordered nodeKey c.dstate.dtreeRoot) (hlen : c.status.length < stMaxValueLen)
    (hfd : c.upsfd ≠ none)
    (h : LinesTaken D w now c (readChunk pconfStep c.sockCtx buf).2) :
    Took (readChunk pconfStep c.sockCtx buf).2 c (sstateReadline D w now c (.data buf)).1 := by
  obtain ⟨hordered, hstatus, hupsfd, hdone, hrepeated⟩ := took_lines hord hlen h
  rw [sstateReadline_data hfd]
  exact ⟨hordered, hstatus, hupsfd, hdone, hrepeated⟩

theorem pending_lines {l : Lexer} (h : Pending Lexer.step Lexer.start l chan wss) {lines : List CStr}
    (hl : List.Forall₂ Says lines wss') (hfit : ∀ text ∈ lines, text.length < stSockBufLen) :
    Pending Lexer.step Lexer.start l (chan ++ lines.flatMap (snprintf stSockBufLen)) (wss ++ wss') := by
  induction hl generalizing chan wss with
  | nil => simpa using h
  | cons hm _ ih =>
    rename_i text ws lines wss' _
    have htext := hfit text List.mem_cons_self
    have hrest := ih (h.append (hm htext)) fun t ht => hfit t (List.mem_cons_of_mem _ ht)
    rw [List.flatMap_cons, snprintf_of_lt htext]
    simpa using hrest

theorem said_eq (h : Pending Lexer.step Lexer.start Lexer.start chan wss) : said chan = wss.flatMap toldBy := by
  have hitems := (readChunk_overlays atLineStart_pconfInit chan).1
  rw [h.1] at hitems
  unfold said
  rw [hitems, told_overlays]

namespace Hears

theorem lines (h : Hears c chan wss) {lines : List CStr} (hl : List.Forall₂ Says lines wss')
    (hfit : ∀ text ∈ lines, text.length < stSockBufLen) :
    Hears c (chan ++ lines.flatMap (snprintf stSockBufLen)) (wss ++ wss') := by
  obtain ⟨hfd, A, l, hloaded, hpending⟩ := h
  exact ⟨hfd, A, l, hloaded, pending_lines hpending hl hfit⟩

theorem congr (h : Hears c chan wss) (hfd : c'.upsfd = c.upsfd) (hctx : c'.sockCtx = c.sockCtx) :
    Hears c' chan wss := by
  obtain ⟨hsome, A, l, hloaded, hpending⟩ := h
  exact ⟨hfd ▸ hsome, A, l, hctx ▸ hloaded, hpending⟩

/-- Reading a part of the channel takes the lines that it completes. -/
theorem read (h : Hears c (buf ++ chan) wss) (hord : Ordered nodeKey c.dstate.dtreeRoot)
    (hlen : c.status.length < stMaxValueLen) (htaken : LinesTaken D w now c (readChunk pconfStep c.sockCtx buf).2) :
    ∃ wss₁ wss₂, wss = wss₁ ++ wss₂ ∧ Hears (sstateReadline D w now c (.data buf)).1 chan wss₂ ∧
      (sstateReadline D w now c (.data buf)).1.dumpdone = (c.dumpdone || wss₁.any dumpEnd) ∧
      ∀ k ∈ passed, (sstateReadline D w now c (.data buf)).1.repeated k =
        (wss₁.flatMap toldBy).foldl assign c.repeated k := by
  obtain ⟨hfd, A, l, hloaded, hpending⟩ := h
  obtain ⟨wss₂, rfl, -, hrest⟩ := hpending.split
  obtain ⟨hitems, ⟨A', hloaded'⟩, -⟩ := readChunk_overlays hloaded buf
  have htook := took_readline hord hlen hfd htaken
  rw [hitems] at htook
  refine ⟨_, wss₂, rfl, ⟨htook.upsfd ▸ hfd, A', _, ?_, hrest⟩, ?_, fun k hk => ?_⟩
  · rw [sstateReadline_data hfd]
    exact hloaded'
  · rw [htook.dumpdone, endsDump_overlays]
  · rw [htook.repeated k hk, told_overlays]

theorem drained (h : Hears c [] wss) : wss = [] := by
  obtain ⟨-, A, l, -, hpending⟩ := h
  exact hpending.eq_nil.2

end Hears

end

end Clone

/-! ### A replica on its way -/

namespace Clone

variable {F : Type}

/-- The driver has written the lines `all` with `out` to the connection `fd`, of which the clone has read `taken`
bytes.  The lines `wss` are in the rest, and with them the clone follows the driver since the connection was accepted,
when the driver had `s₀` and the clone `m₀`; `done` tells whether a dump was sent. -/
structure Following (s₀ m₀ : CStr → Option CStr) (fd taken : Nat) (d : Dstate) (c : Clone F) (out : CStr)
    (all wss : List (List CStr)) (done : Bool) : Prop where
  found : connOut d fd = some out
  inside : taken ≤ out.length
  whole : Pending Lexer.step Lexer.start Lexer.start out all
  hears : Hears c (out.drop taken) wss
  follows : Follows passed statusKey s₀ m₀ (all.flatMap toldBy) done (raws d.dtreeRoot)
    ((wss.flatMap toldBy).foldl assign c.repeated)
  status : done = true → HasStatus d
  done : (c.dumpdone || wss.any dumpEnd) = true → done = true

/-- The connection began in one of the states `P`. -/
def Joined (P : (CStr → Option CStr) → (CStr → Option CStr) → Prop) (fd taken : Nat) (d : Dstate) (c : Clone F) :
    Prop :=
  ∃ s₀ m₀, P s₀ m₀ ∧ ∃ out all wss done, Following s₀ m₀ fd taken d c out all wss done

theorem hasStatus_iff {d : Dstate} : HasStatus d ↔ raws d.dtreeRoot statusKey ≠ none := by
  rw [HasStatus, stateTreeFind_eq, raws, ne_eq, Option.map_eq_none_iff, Option.isSome_iff_ne_none]
  rfl

namespace Joined

variable {D : Doubles F} {w : Nat → Bool} {P : (CStr → Option CStr) → (CStr → Option CStr) → Prop} {fd taken : Nat}
  {d d' : Dstate} {c c' : Clone F}

/-- The driver says something, or says nothing on this connection. -/
theorem say (h : Joined P fd taken d c) {lines : List CStr} {wss' : List (List CStr)}
    (hl : List.Forall₂ Says lines wss')
    (hfit : ∀ text ∈ lines, text.length < stSockBufLen)
    (hout : connOut d' fd = (connOut d fd).map (· ++ lines.flatMap (snprintf stSockBufLen)))
    (hraws : raws d'.dtreeRoot = (wss'.flatMap toldBy).foldl assign (raws d.dtreeRoot))
    (hends : wss'.any dumpEnd = false) (hstatus : HasStatus d → HasStatus d') : Joined P fd taken d' c := by
  obtain ⟨s₀, m₀, hP, out, all, wss, done, hfound, htaken, hwhole, hhears, hfollows, hhas, hdone⟩ := h
  refine ⟨s₀, m₀, hP, out ++ lines.flatMap (snprintf stSockBufLen), all ++ wss', wss ++ wss', done, ?_, ?_,
    pending_lines hwhole hl hfit, ?_, ?_, fun hd => hstatus (hhas hd), ?_⟩
  · rw [hout, hfound, Option.map_some]
  · rw [List.length_append]
    omega
  · rw [List.drop_append_of_le_length htaken]
    exact hhears.lines hl hfit
  · rw [hraws, List.flatMap_append, List.flatMap_append, List.foldl_append]
    exact hfollows.updates _
  · rw [List.any_append, hends, Bool.or_false]
    exact hdone

theorem quiet (h : Joined P fd taken d c) (hout : connOut d' fd = connOut d fd) (htree : d'.dtreeRoot = d.dtreeRoot) :
    Joined P fd taken d' c := by
  refine h.say .nil (fun _ hm => absurd hm List.not_mem_nil) ?_ (congrArg raws htree) rfl fun hs => ?_
  · rw [hout]
    simp
  · unfold HasStatus
    rwa [htree]

theorem dumpEnd_words (call : Call) : dumpEnd call.words = false := by
  rcases call with (⟨var, val⟩ | ⟨var, val⟩ | ⟨var, val⟩) | op | _ | _
  case struct =>
    cases op
    case setflags var flags => exact endsDump_of_keyword (strcasecmp_self "SETFLAGS".toList) (by decide)
    all_goals rfl
  all_goals rfl

theorem call (hd : Upstream d) (h : Joined P fd taken d c) {call : Call} (hfit : FitCall w d call) :
    connOut (call.run w d) fd = none ∨ Joined P fd taken (call.run w d) c := by
  obtain ⟨hspoken, hline, hstatus⟩ := hfit
  have hrun := hspoken.run_eq w d
  cases hchanges : call.changes d with
  | false =>
    rw [hchanges, if_neg Bool.false_ne_true] at hrun
    rw [hrun]
    exact .inr h
  | true =>
    rw [hchanges, if_pos rfl] at hrun
    rw [hrun] at hstatus ⊢
    have hnodup : (fds (d.withState (call.apply d.published))).Nodup := hd.nodup
    rcases (connOut_broadcast w hnodup call.line fd).2 with hout | hnone
    swap
    · exact .inl hnone
    right
    have hone : List.Forall₂ Says [call.line] [call.words] := .cons (fun hfit => hspoken.reads hfit) .nil
    refine h.say hone (List.forall_mem_singleton.2 (hline hchanges)) ?_ ?_ ?_ hstatus
    · rw [hout, List.flatMap_singleton]
      rfl
    · rw [sendToAll_dtreeRoot, List.flatMap_singleton]
      exact raws_apply hd.toPlainDriver hchanges
    · rw [List.any_cons, dumpEnd_words]
      rfl

theorem pong (h : Joined P fd taken d c) {fd' : Nat} {ok : Bool} (hwritten : Delivered fd' "PONG\n".toList ok d d') :
    connOut d' fd = none ∨ Joined P fd taken d' c := by
  by_cases hne : fd = fd'
  swap
  · exact .inr (h.quiet (hwritten.others fd hne) hwritten.tree)
  subst hne
  have hself := hwritten.self
  cases ok with
  | false => exact .inl hself
  | true =>
    have hone : List.Forall₂ Says ["PONG\n".toList] [["PONG".toList]] :=
      .cons (fun _ => reads_keyword (by decide : IsWord "PONG".toList)) .nil
    refine .inr (h.say hone (by decide) ?_ (congrArg raws hwritten.tree) rfl fun hs => ?_)
    · rw [hself]
      rfl
    · unfold HasStatus
      rwa [hwritten.tree]

/-- A dump makes the clone a replica, whatever it had. -/
theorem dump (hd : PlainDriver d) (h : Joined P fd taken d c) {fd' : Nat} {ok : Bool} (hfits : DumpFits d)
    (hwritten : Delivered fd' ((dumpLines d).flatMap (snprintf stSockBufLen)) ok d d') :
    connOut d' fd = none ∨ Joined P fd taken d' c := by
  by_cases hne : fd = fd'
  swap
  · exact .inr (h.quiet (hwritten.others fd hne) hwritten.tree)
  subst hne
  have hself := hwritten.self
  cases ok with
  | false => exact .inl hself
  | true =>
    obtain ⟨s₀, m₀, hP, out, all, wss, done, hfound, hinside, hwhole, hhears, hfollows, -, -⟩ := h
    rw [hfound] at hself
    have hlines : List.Forall₂ Says (dumpLines d) ((dumpMessages d).map Message.words) :=
      List.forall₂_map_right_iff.2 (lineOf_dump hd.sound)
    refine .inr ⟨s₀, m₀, hP, _, all ++ (dumpMessages d).map Message.words,
      wss ++ (dumpMessages d).map Message.words, true, hself, ?_,
      pending_lines hwhole hlines hfits.2, ?_, ?_, fun _ => ?_, fun _ => rfl⟩
    · rw [List.length_append]
      omega
    · rw [List.drop_append_of_le_length hinside]
      exact hhears.lines hlines hfits.2
    · have hord : Ordered nodeKey d.dtreeRoot := hd.sound.sorted.tree
      rw [hwritten.tree, List.flatMap_append, List.flatMap_append, List.foldl_append, told_dump hd]
      refine hfollows.snapshot (hasStatus_iff.1 hfits.1) ?_ fun k hk => ?_
      · rw [List.forall_mem_map]
        intro n hn
        rw [raws, find_of_mem hord hn]
        rfl
      · rw [raws, ne_eq, Option.map_eq_none_iff] at hk
        obtain ⟨n, hn⟩ := Option.ne_none_iff_exists'.1 hk
        rw [List.map_map]
        exact List.mem_map.2 ⟨n, mem_of_find hn, key_of_find hn⟩
    · unfold HasStatus
      rw [hwritten.tree]
      exact hfits.1

/-- Whatever the driver does, it keeps the replica on its way, or drops the connection. -/
theorem keptByDriver (w : Nat → Bool) (P : (CStr → Option CStr) → (CStr → Option CStr) → Prop) (fd taken : Nat)
    (c : Clone F) : KeptByDriver w fun d => Upstream d ∧ (connOut d fd = none ∨ Joined P fd taken d c) where
  call d _ hfit h := by
    refine ⟨h.1.call hfit.1, ?_⟩
    rcases h.2 with hnone | hjoined
    · exact .inl (connOut_run_of_none h.1 hfit.1 hnone)
    · exact hjoined.call h.1 hfit
  pong fd' d d' ok hwritten h := by
    refine ⟨h.1.written hwritten, ?_⟩
    rcases h.2 with hnone | hjoined
    · exact .inl (hwritten.connOut_of_none hnone)
    · exact hjoined.pong hwritten
  dump fd' d d' ok hfits hwritten h := by
    refine ⟨h.1.written hwritten, ?_⟩
    rcases h.2 with hnone | hjoined
    · exact .inl (hwritten.connOut_of_none hnone)
    · exact hjoined.dump h.1.toPlainDriver hfits hwritten
  ctx fd' d ctx h := by
    refine ⟨h.1.ctx fd' ctx, ?_⟩
    rw [connOut_setConnCtx]
    exact h.2.imp id fun hjoined => hjoined.quiet (connOut_setConnCtx d fd' ctx fd) rfl

/-- What the clone does of its own accord keeps the replica. -/
theorem stays (h : Joined P fd taken d c) (hs : Stays c c') : Joined P fd taken d c' := by
  obtain ⟨s₀, m₀, hP, out, all, wss, done, hfound, htaken, hwhole, hhears, hfollows, hhas, hdone⟩ := h
  obtain ⟨hsame, hfill⟩ := hs.repeated
  refine ⟨s₀, m₀, hP, out, all, wss, done, hfound, htaken, hwhole, hhears.congr hs.upsfd hs.sockCtx,
    hfollows.congr (fun hd => hasStatus_iff.1 (hhas hd)) hsame hfill, hhas, ?_⟩
  rw [hs.dumpdone]
  exact hdone

/-- Reading some of the bytes keeps the replica. -/
theorem read (h : Joined P fd taken d c) (hord : Ordered nodeKey c.dstate.dtreeRoot)
    (hlen : c.status.length < stMaxValueLen)
    {n : Nat} {now : Int} {buf : CStr} (hbuf : buf = (((connOut d fd).getD []).drop taken).take n)
    (htaken : LinesTaken D w now c (readChunk pconfStep c.sockCtx buf).2) :
    Joined P fd (taken + buf.length) d (sstateReadline D w now c (.data buf)).1 := by
  obtain ⟨s₀, m₀, hP, out, all, wss, done, hfound, hinside, hwhole, hhears, hfollows, hhas, hdone⟩ := h
  rw [hfound, Option.getD_some] at hbuf
  have hsplit : out.drop taken = buf ++ (out.drop taken).drop n := by
    rw [hbuf, List.take_append_drop]
  have hbuflen : buf.length = min n (out.drop taken).length := by
    rw [hbuf, List.length_take]
  rw [hsplit] at hhears
  obtain ⟨wss₁, wss₂, rfl, hrest, hdumpdone, hrepeated⟩ := hhears.read hord hlen htaken
  refine ⟨s₀, m₀, hP, out, all, wss₂, done, hfound, ?_, hwhole, ?_, ?_, hhas, ?_⟩
  · rw [hbuflen, List.length_drop]
    omega
  · rw [hbuflen, ← List.drop_drop, ← List.drop_eq_drop_min]
    exact hrest
  · rw [List.flatMap_append, List.foldl_append] at hfollows
    exact hfollows.of_eqOn hrepeated
  · rw [hdumpdone, Bool.or_assoc, ← List.any_append]
    exact hdone

end Joined

/-! ### The two together -/

/-- The connection of the clone: there is none, the driver has not accepted it yet, has it as `fd`, or has dropped
it. -/
inductive Phase
  | apart
  | waiting
  | joined (fd : Nat)
  | dropped
  deriving DecidableEq

/-- The descriptor that the driver has. -/
def Phase.fd : Phase → Option Nat
  | joined fd => some fd
  | _ => none

/-- A driver and a clone of it, the bytes from the clone that the driver has not read, and how many of those that the
driver wrote on the connection the clone has read. -/
structure Pair (F : Type) where
  driver : Dstate
  clone : Clone F
  phase : Phase
  toDriver : CStr
  taken : Nat

namespace Pair

/-- What the driver wrote on the connection and the clone has not read. -/
def inflight (s : Pair F) : CStr :=
  match s.phase with
  | .joined fd => ((connOut s.driver fd).getD []).drop s.taken
  | _ => []

/-- Before the first connection. -/
def start (zero : F) (loadOff loadOn loadStatus : Option CStr) : Pair F where
  driver := Dstate.init
  clone := Clone.init zero loadOff loadOn loadStatus
  phase := .apart
  toDriver := []
  taken := 0

/-- The driver has done something, and may have dropped the connection. -/
def withDriver (s : Pair F) (d : Dstate) : Pair F :=
  match s.phase with
  | .joined fd => { s with driver := d, phase := if (connOut d fd).isSome then .joined fd else .dropped }
  | _ => { s with driver := d }

/-- The clone has become `c` by a call of `sstate_connect` in the state `before`. -/
def connected (s : Pair F) (before c : Clone F) : Pair F :=
  { s with
    clone := c
    phase := if c.upsfd.isSome then .waiting else .apart
    toDriver := (c.sent.drop before.sent.length).flatten
    taken := 0 }

/-- What the clone may get from `read`: some of the bytes on their way, or, when the driver has dropped the
connection, what is left of them.  The end of the stream is no error. -/
def Gets (s : Pair F) : ReadResult → Prop
  | .data buf => s.phase = .dropped ∨ buf <+: s.inflight
  | .again | .fail => True

instance (s : Pair F) : DecidablePred s.Gets
  | .data _ => inferInstanceAs (Decidable (_ ∨ _))
  | .again | .fail => inferInstanceAs (Decidable True)

/-- The bytes of a `read`. -/
def length : ReadResult → Nat
  | .data buf => buf.length
  | .again | .fail => 0

/-- What the driver does: a call, the `accept` of a connection of the clone or of another one, a `read` of some of the
bytes from the clone or one that fails, a `read` from another connection, the end of the driver and a new one.  And
the clone: its first connection, its other settings, the copies that `main` makes, `upsdrv_updateinfo`, and what its
own clients ask for. -/
inductive Event
  | call (c : Call)
  | accept (fd : Nat)
  | acceptOther (fd : Nat)
  | driverRead (n : Option Nat)
  | otherRead (fd : Nat) (ret : ReadResult)
  | restart
  | initups (now : Int) (conn : ConnectResult)
  | initinfo (now : Int) (offdelay ondelay mincharge minruntime : Option CStr)
  | remap
  | update (now : Int) (conn : ConnectResult) (ret : ReadResult)
  | instcmd (cmdname : CStr)
  | setvar (varname val : CStr)

def Event.accepts : Event → Bool
  | .accept _ => true
  | _ => false

section

variable (D : Doubles F) (w wc : Nat → Bool) (upsh : UpsHandler)

/-- There is no result when the event cannot happen. -/
def step (s : Pair F) : Event → Option (Pair F)
  | .call c => some (s.withDriver (c.run w s.driver))
  | .accept fd =>
    if s.phase = .waiting ∧ (connOut s.driver fd).isNone then
      some { s with driver := sockConnect s.driver fd, phase := .joined fd, taken := 0 }
    else none
  | .acceptOther fd => if (connOut s.driver fd).isNone then some { s with driver := sockConnect s.driver fd } else none
  | .driverRead none =>
    match s.phase with
    | .joined fd => some (s.withDriver (sockDisconnect s.driver fd))
    | _ => none
  | .driverRead (some n) =>
    match s.phase with
    | .joined fd => (sockRead w upsh fd s.driver (.data (s.toDriver.take n))).map fun d =>
        { s.withDriver d with toDriver := s.toDriver.drop n }
    | _ => none
  | .otherRead fd ret =>
    if s.phase = .joined fd then none else (sockRead w upsh fd s.driver ret).map s.withDriver
  | .restart => some { s with driver := Dstate.init, phase := if s.phase = .apart then .apart else .dropped }
  | .initups now conn =>
    if s.clone.upsfd = none then some (s.connected s.clone (sstateConnect wc now s.clone conn)) else none
  | .initinfo now offdelay ondelay mincharge minruntime =>
    some { s with clone := upsdrvInitinfo D wc now s.clone offdelay ondelay mincharge minruntime }
  | .remap => some { s with clone := s.clone.remap wc }
  | .update now conn ret =>
    if s.Gets ret then
      (upsdrvUpdateinfo D wc now conn ret s.clone).map fun c =>
        if (sstateDead now s.clone 15).2 then s.connected (sstateDead now s.clone 15).1 c
        else if c.upsfd = none then { s with clone := c, phase := .apart }
        else
          { s with
            clone := c
            toDriver := s.toDriver ++ (c.sent.drop s.clone.sent.length).flatten
            taken := s.taken + length ret }
    else none
  | .instcmd cmdname => (s.clone.instcmd wc cmdname).map fun c => { s with clone := c }
  | .setvar varname val => some { s with clone := s.clone.setvar D wc varname val }

/-- No variable that the clone publishes is gone, but for those that are its own. -/
def NoneGone (s : Pair F) : Prop :=
  ∀ n ∈ s.clone.dstate.dtreeRoot.walk, filtered n.var = false → strcasecmp n.var "ups.status".toList ≠ .eq →
    (stateTreeFind s.driver.dtreeRoot n.var).isSome = true

instance (s : Pair F) : Decidable s.NoneGone := inferInstanceAs (Decidable (∀ _ ∈ _, _))

/-- What `main` would copy to `dst` is there already. -/
def Copied (c : Clone F) (src dst : CStr) : Prop :=
  ∀ val ∈ dstateGetinfo c.dstate src,
    (stateTreeFind c.dstate.dtreeRoot dst).any (keepsValue (snprintf stMaxValueLen val)) = true

instance (c : Clone F) (src dst : CStr) : Decidable (Copied c src dst) := inferInstanceAs (Decidable (∀ _ ∈ _, _))

/-- The calls of the driver fit, and so do its answers to `DUMPALL`; `dstate_setinfo` takes the values that the clone
reads; and `main` has nothing new to copy. -/
def Fits (s : Pair F) : Event → Prop
  | .call c => FitCall w s.driver c
  | .driverRead (some n) => ∀ fd ∈ s.phase.fd, dumpsFit w upsh fd s.driver (s.toDriver.take n) = true
  | .otherRead fd (.data buf) => dumpsFit w upsh fd s.driver buf = true
  | .update now _ (.data buf) =>
    LinesTaken D wc now (sstateDead now s.clone 15).1 (readChunk pconfStep (sstateDead now s.clone 15).1.sockCtx buf).2
  | .remap => Copied s.clone "ups.mfr".toList "device.mfr".toList ∧
      Copied s.clone "ups.model".toList "device.model".toList ∧
      Copied s.clone "ups.serial".toList "device.serial".toList
  | _ => True

instance (s : Pair F) : DecidablePred (Fits D w wc upsh s)
  | .call _ => inferInstanceAs (Decidable (FitCall _ _ _))
  | .driverRead (some _) => inferInstanceAs (Decidable (∀ _ ∈ _, _))
  | .otherRead _ (.data _) => inferInstanceAs (Decidable (_ = _))
  | .update _ _ (.data _) => inferInstanceAs (Decidable (LinesTaken _ _ _ _ _))
  | .remap => inferInstanceAs (Decidable (_ ∧ _ ∧ _))
  | .accept _ | .acceptOther _ | .driverRead none | .otherRead _ .again | .otherRead _ .fail | .restart | .initups _ _
  | .initinfo _ _ _ _ _ | .update _ _ .again | .update _ _ .fail | .instcmd _ | .setvar _ _ =>
    inferInstanceAs (Decidable True)

/-- And no variable that the clone publishes is gone when the connection is accepted. -/
def Admissible (s : Pair F) (e : Event) : Prop := Fits D w wc upsh s e ∧ (e.accepts = true → s.NoneGone)

instance (s : Pair F) : DecidablePred (Admissible D w wc upsh s) := fun _ => inferInstanceAs (Decidable (_ ∧ _))

/-- The states of driver and clone in every run with such events. -/
def Reachable (ok : Pair F → Event → Prop) (s : Pair F) : Prop :=
  Reach (fun s => ∃ zero loadOff loadOn loadStatus, s = start zero loadOff loadOn loadStatus)
    (fun s s' => ∃ e, ok s e ∧ step D w wc upsh s e = some s') s

/-- The driver accepts the connection in the state `s₀`, and neither side has ended it since. -/
def Session (fd : Nat) (s₀ s : Pair F) : Prop :=
  Reach (fun s => step D w wc upsh s₀ (.accept fd) = some s)
    (fun s s' => s'.phase = .joined fd ∧ ∃ e, Fits D w wc upsh s e ∧ step D w wc upsh s e = some s') s

end

/-! ### The invariant -/

/-- What holds in every state: when the clone is connected, it follows the driver since the connection was
accepted. -/
structure Inv (P : (CStr → Option CStr) → (CStr → Option CStr) → Prop) (s : Pair F) : Prop where
  driver : Upstream s.driver
  ordered : Ordered nodeKey s.clone.dstate.dtreeRoot
  status : s.clone.status.length < stMaxValueLen
  waiting : s.phase = .waiting → Hears s.clone [] [] ∧ s.clone.dumpdone = false
  joined : ∀ fd, s.phase = .joined fd → Joined P fd s.taken s.driver s.clone

section

variable {D : Doubles F} {w wc : Nat → Bool} {upsh : UpsHandler}
  {P : (CStr → Option CStr) → (CStr → Option CStr) → Prop} {s s₀ s' : Pair F} {d : Dstate} {c : Clone F}

theorem inv_start (zero : F) (loadOff loadOn loadStatus : Option CStr) :
    Inv P (start zero loadOff loadOn loadStatus) where
  driver := .init
  ordered := ordered_nil
  status := (by decide : "WAIT".toList.length < stMaxValueLen)
  waiting h := by cases h
  joined fd h := by cases h

/-- The driver goes on. -/
theorem Inv.withDriver (h : Inv P s) (hd : Upstream d)
    (hjoined : ∀ fd, s.phase = .joined fd → connOut d fd = none ∨ Joined P fd s.taken d s.clone) :
    Inv P (s.withDriver d) := by
  unfold Pair.withDriver
  split
  · rename_i fd hphase
    rcases hjoined fd hphase with hnone | hj
    · rw [hnone]
      refine ⟨hd, h.ordered, h.status, fun h => ?_, fun fd h => ?_⟩
      · cases h
      · cases h
    · obtain ⟨s₀, m₀, hP, out, all, wss, done, hf⟩ := hj
      rw [hf.found]
      refine ⟨hd, h.ordered, h.status, fun h => ?_, fun fd' h => ?_⟩
      · cases h
      · obtain rfl : fd = fd' := Phase.joined.inj h
        exact ⟨s₀, m₀, hP, out, all, wss, done, hf⟩
  · rename_i hphase
    exact ⟨hd, h.ordered, h.status, h.waiting, fun fd h => absurd h (hphase fd)⟩

/-- What every act of the driver keeps is enough. -/
theorem Inv.driven (h : Inv P s) (hkept : ∀ I, KeptByDriver w I → I s.driver → I d) : Inv P (s.withDriver d) :=
  h.withDriver (hkept _ (keptByDriver_upstream w) h.driver) fun fd hphase =>
    (hkept _ (Joined.keptByDriver w P fd s.taken s.clone) ⟨h.driver, .inr (h.joined fd hphase)⟩).2

/-- The clone does something of its own accord. -/
theorem Inv.stays (h : Inv P s) (hs : Stays s.clone c) (toDriver : CStr) :
    Inv P { s with clone := c, toDriver := toDriver } where
  driver := h.driver
  ordered := hs.ordered h.ordered
  status := by
    show c.status.length < _
    rw [hs.status]
    exact h.status
  waiting hphase := by
    obtain ⟨hhears, hdone⟩ := h.waiting hphase
    exact ⟨hhears.congr hs.upsfd hs.sockCtx, hs.dumpdone.trans hdone⟩
  joined fd hphase := (h.joined fd hphase).stays hs

/-- The clone connects, or tries to. -/
theorem Inv.connected (h : Inv P s) {before : Clone F} (hord : Ordered nodeKey before.dstate.dtreeRoot)
    (hlen : before.status.length < stMaxValueLen) (now : Int) (conn : ConnectResult) (sent : Clone F) :
    Inv P (s.connected sent (sstateConnect wc now before conn)) := by
  have hord' : Ordered nodeKey (sstateConnect wc now before conn).dstate.dtreeRoot := by
    unfold sstateConnect
    split
    · exact hord
    · exact hord
    · split <;> exact hord
    · exact hord
    · exact ordered_setinfo hord _ _
  have hlen' : (sstateConnect wc now before conn).status.length < stMaxValueLen := by
    unfold sstateConnect
    split
    · exact hlen
    · exact hlen
    · split <;> exact hlen
    · exact hlen
    · exact hlen
  refine ⟨h.driver, hord', hlen', fun hphase => ?_, fun fd hphase => ?_⟩
  · cases conn with
    | ok sock => exact ⟨⟨Option.some_ne_none sock, _, _, atLineStart_pconfInit, Pending.nil _ _⟩, rfl⟩
    | refused =>
      unfold Pair.connected sstateConnect at hphase
      dsimp only at hphase
      split at hphase <;> cases hphase
    | _ => cases hphase
  · unfold Pair.connected at hphase
    dsimp only at hphase
    split at hphase <;> cases hphase

/-- The driver accepts the connection. -/
theorem Inv.accept (h : Inv P s) (hphase : s.phase = .waiting) {fd : Nat} (hnone : connOut s.driver fd = none)
    (hP : P (raws s.driver.dtreeRoot) s.clone.repeated) :
    Inv P { s with driver := sockConnect s.driver fd, phase := .joined fd, taken := 0 } where
  driver := h.driver.connect hnone
  ordered := h.ordered
  status := h.status
  waiting hphase' := by cases hphase'
  joined fd' hphase' := by
    obtain rfl : fd = fd' := Phase.joined.inj hphase'
    obtain ⟨hhears, hdone⟩ := h.waiting hphase
    refine ⟨_, _, hP, [], [], [], false, connOut_sockConnect s.driver fd, Nat.le_refl 0, Pending.nil _ _, hhears,
      .start passed statusKey _ _, fun hd => Bool.noConfusion hd, fun hd => ?_⟩
    rw [hdone] at hd
    exact Bool.noConfusion hd

theorem setinfo_of_keeps {var text : CStr} {n : StNode} (hn : stateTreeFind c.dstate.dtreeRoot var = some n)
    (hkeeps : keepsValue (snprintf stMaxValueLen text) n = true) : setinfo w c var text = c := by
  have hfind : find nodeKey (Nut.tolower var) c.dstate.dtreeRoot = some n := by rwa [← stateTreeFind_eq]
  have htree : (stateSetinfo c.dstate.dtreeRoot var (snprintf stMaxValueLen text)).1 = c.dstate.dtreeRoot := by
    rw [stateSetinfo_fst, upsert_of_find_some hfind]
    refine modify_eq_self fun a ha => ?_
    rw [hfind] at ha
    rw [← Option.some.inj ha, setRaw_of_keeps hkeeps]
  have hquiet : (stateSetinfo c.dstate.dtreeRoot var (snprintf stMaxValueLen text)).2 = false := by
    rw [stateSetinfo_snd, hn, Option.elim_some, hkeeps]
    rfl
  unfold setinfo dstateSetinfo
  dsimp only
  rw [hquiet, htree]
  rfl

/-- Nothing new is copied. -/
theorem remap_of_copied (h : Copied c "ups.mfr".toList "device.mfr".toList ∧
    Copied c "ups.model".toList "device.model".toList ∧ Copied c "ups.serial".toList "device.serial".toList) :
    c.remap wc = c := by
  obtain ⟨hmfr, hmodel, hserial⟩ := h
  unfold Clone.remap
  extract_lets copy
  have hcopy : ∀ {src dst : CStr}, Copied c src dst → copy c src dst = c := by
    intro src dst hcopied
    unfold copy
    split
    · rename_i val hval
      obtain ⟨n, hn, hkeeps⟩ := (Option.any_eq_true _ _).1 (hcopied val hval)
      exact setinfo_of_keeps hn hkeeps
    · rfl
  rw [hcopy hmfr, hcopy hmodel, hcopy hserial]

/-- The clone ends the connection. -/
theorem Inv.apart (h : Inv P s) (hord : Ordered nodeKey c.dstate.dtreeRoot) (hlen : c.status.length < stMaxValueLen) :
    Inv P { s with clone := c, phase := .apart } := by
  refine ⟨h.driver, hord, hlen, fun hphase => ?_, fun fd hphase => ?_⟩
  · cases hphase
  · cases hphase

/-- The clone reads. -/
theorem Inv.read (h : Inv P s) {now : Int} {ret : ReadResult} (hgets : s.Gets ret) (hopen : s.clone.upsfd ≠ none)
    (htaken : ∀ buf, ret = .data buf → LinesTaken D wc now s.clone (readChunk pconfStep s.clone.sockCtx buf).2) :
    Inv P { s with clone := (sstateReadline D wc now s.clone ret).1, taken := s.taken + length ret } := by
  obtain ⟨sock, hsock⟩ := Option.ne_none_iff_exists'.1 hopen
  cases ret with
  | again =>
    unfold sstateReadline
    rw [hsock]
    exact h
  | fail =>
    unfold sstateReadline
    rw [hsock]
    exact h
  | data buf =>
    have htook := took_readline h.ordered h.status hopen (htaken buf rfl)
    refine ⟨h.driver, htook.ordered, htook.status, fun hphase => ?_, fun fd hphase => ?_⟩
    · -- nothing can have come
      have hnil : buf = [] := by
        rcases hgets with hdropped | hprefix
        · cases hphase.symm.trans hdropped
        · have hempty : s.inflight = [] := by
            unfold inflight
            rw [hphase]
          rw [hempty] at hprefix
          exact List.prefix_nil.1 hprefix
      subst hnil
      dsimp only
      rw [sstateReadline_data hopen]
      exact h.waiting hphase
    · have hbuf : buf <+: ((connOut s.driver fd).getD []).drop s.taken := by
        rcases hgets with hdropped | hprefix
        · cases hphase.symm.trans hdropped
        · unfold inflight at hprefix
          rw [hphase] at hprefix
          exact hprefix
      exact (h.joined fd hphase).read h.ordered h.status (List.prefix_iff_eq_take.1 hbuf) (htaken buf rfl)

/-- A pass of the clone. -/
theorem Inv.update (h : Inv P s) {now : Int} {conn : ConnectResult} {ret : ReadResult} (hgets : s.Gets ret)
    (ha : Fits D w wc upsh s (.update now conn ret)) (hc : upsdrvUpdateinfo D wc now conn ret s.clone = some c) :
    Inv P (if (sstateDead now s.clone 15).2 then s.connected (sstateDead now s.clone 15).1 c
      else if c.upsfd = none then { s with clone := c, phase := .apart }
      else
        { s with
          clone := c
          toDriver := s.toDriver ++ (c.sent.drop s.clone.sent.length).flatten
          taken := s.taken + length ret }) := by
  have hdead := Aside.dead now s.clone 15
  unfold upsdrvUpdateinfo at hc
  dsimp only at hc
  cases hconn : (sstateDead now s.clone 15).2 with
  | true =>
    rw [hconn, if_pos rfl] at hc
    obtain rfl := Option.some.inj hc
    rw [if_pos rfl]
    exact h.connected (hdead.ordered h.ordered)
      (show (sstateDead now s.clone 15).1.status.length < _ from hdead.status ▸ h.status) now conn _
  | false =>
    rw [hconn, if_neg Bool.false_ne_true] at hc
    rw [if_neg Bool.false_ne_true]
    have hopen : (sstateDead now s.clone 15).1.upsfd ≠ none := by
      rw [hdead.upsfd]
      intro hnone
      rw [sstateDead, hnone] at hconn
      exact Bool.noConfusion hconn
    have hread := (h.stays hdead.stays s.toDriver).read hgets hopen fun buf hbuf => by
      subst hbuf
      exact ha
    split at hc
    · -- the clone gives the connection up
      obtain rfl := Option.some.inj hc
      rw [if_pos (by exact rfl)]
      exact h.apart hread.ordered hread.status
    · rw [Option.map_eq_some_iff] at hc
      obtain ⟨c₂, hrun, rfl⟩ := hc
      have hend : Aside c₂ { c₂.setTimers wc with lastPoll := now } :=
        (Aside.setTimers c₂).trans (.fields rfl rfl rfl rfl rfl)
      have hstays := (Stays.runTimers hread.status hrun).trans hend.stays
      have hlast := hread.stays hstays
        (s.toDriver ++ (({ c₂.setTimers wc with lastPoll := now } : Clone F).sent.drop s.clone.sent.length).flatten)
      split
      · exact h.apart hlast.ordered hlast.status
      · exact hlast

theorem inv_step (h : Inv P s) {e : Event} (ha : Fits D w wc upsh s e) (hh : HandlersFit w upsh)
    (hP : s.phase = .waiting → e.accepts = true → P (raws s.driver.dtreeRoot) s.clone.repeated)
    (hs : step D w wc upsh s e = some s') : Inv P s' := by
  cases e with
  | call call =>
    obtain rfl := Option.some.inj hs
    exact h.driven fun I hI hd => hI.call _ _ ha hd
  | accept fd =>
    rw [step] at hs
    split at hs
    · rename_i hwait
      obtain rfl := Option.some.inj hs
      exact h.accept hwait.1 (Option.isNone_iff_eq_none.1 hwait.2) (hP hwait.1 rfl)
    · cases hs
  | acceptOther fd =>
    rw [step] at hs
    split at hs
    · rename_i hnone
      obtain rfl := Option.some.inj hs
      have hfd := Option.isNone_iff_eq_none.1 hnone
      refine ⟨h.driver.connect hfd, h.ordered, h.status, h.waiting, fun fd' hphase => ?_⟩
      obtain hj := h.joined fd' hphase
      refine hj.quiet (connOut_sockConnect_of_ne s.driver ?_) rfl
      rintro rfl
      obtain ⟨_, _, _, out, all, wss, done, hf⟩ := hj
      exact Option.some_ne_none out (hf.found.symm.trans hfd)
    · cases hs
  | driverRead n =>
    cases n with
    | none =>
      rw [step] at hs
      split at hs
      · rename_i fd hphase
        obtain rfl := Option.some.inj hs
        refine h.withDriver (h.driver.disconnect fd) fun fd' hphase' => .inl ?_
        obtain rfl : fd = fd' := Phase.joined.inj (hphase.symm.trans hphase')
        exact connOut_sockDisconnect s.driver fd
      · cases hs
    | some n =>
      rw [step] at hs
      split at hs
      · rename_i fd hphase
        rw [Option.map_eq_some_iff] at hs
        obtain ⟨d, hread, rfl⟩ := hs
        have hinv : Inv P (s.withDriver d) := h.driven fun I hI hd => hI.sockReadLoop hh (ha fd (hphase ▸ rfl)) hread hd
        exact ⟨hinv.driver, hinv.ordered, hinv.status, hinv.waiting, hinv.joined⟩
      · cases hs
  | otherRead fd ret =>
    rw [step] at hs
    split at hs
    · cases hs
    · rename_i hphase
      rw [Option.map_eq_some_iff] at hs
      obtain ⟨d, hread, rfl⟩ := hs
      cases ret with
      | data buf => exact h.driven fun I hI hd => hI.sockReadLoop hh ha hread hd
      | again =>
        obtain rfl := Option.some.inj hread
        exact h.withDriver h.driver fun fd hphase => .inr (h.joined fd hphase)
      | fail =>
        obtain rfl := Option.some.inj hread
        refine h.withDriver (h.driver.disconnect fd) fun fd' hphase' => .inr ?_
        refine (h.joined fd' hphase').quiet (connOut_sockDisconnect_of_ne s.driver ?_) rfl
        rintro rfl
        exact hphase hphase'
  | restart =>
    obtain rfl := Option.some.inj hs
    refine ⟨.init, h.ordered, h.status, fun hphase => ?_, fun fd hphase => ?_⟩
    · dsimp only at hphase
      split at hphase <;> cases hphase
    · dsimp only at hphase
      split at hphase <;> cases hphase
  | initups now conn =>
    rw [step] at hs
    split at hs
    · obtain rfl := Option.some.inj hs
      exact h.connected h.ordered h.status now conn _
    · cases hs
  | initinfo now offdelay ondelay mincharge minruntime =>
    obtain rfl := Option.some.inj hs
    exact h.stays (Aside.initinfo now s.clone offdelay ondelay mincharge minruntime).stays s.toDriver
  | remap =>
    obtain rfl := Option.some.inj hs
    rw [remap_of_copied ha]
    exact h
  | update now conn ret =>
    rw [step] at hs
    split at hs
    · rename_i hgets
      rw [Option.map_eq_some_iff] at hs
      obtain ⟨c, hc, rfl⟩ := hs
      exact h.update hgets ha hc
    · cases hs
  | instcmd cmdname =>
    rw [step, Option.map_eq_some_iff] at hs
    obtain ⟨c, hc, rfl⟩ := hs
    exact h.stays (Stays.instcmd hc) s.toDriver
  | setvar varname val =>
    obtain rfl := Option.some.inj hs
    exact h.stays (Aside.setvar s.clone varname val).stays s.toDriver

theorem Reachable.inv {ok : Pair F → Event → Prop} (hh : HandlersFit w upsh)
    (hok : ∀ s e, ok s e → Fits D w wc upsh s e)
    (hP : ∀ s e, ok s e → e.accepts = true → P (raws s.driver.dtreeRoot) s.clone.repeated)
    (h : Reachable D w wc upsh ok s) : Inv P s := by
  refine Reach.invariant h (fun s hs => ?_) fun s s' hs hstep => ?_
  · obtain ⟨zero, loadOff, loadOn, loadStatus, rfl⟩ := hs
    exact inv_start zero loadOff loadOn loadStatus
  · obtain ⟨e, he, hstep⟩ := hstep
    exact inv_step hs (hok s e he) hh (fun _ => hP s e he) hstep

/-- During a connection the clone follows the driver since the connection was accepted. -/
theorem Session.inv (hh : HandlersFit w upsh) (h₀ : Reachable D w wc upsh (Fits D w wc upsh) s₀) {fd : Nat}
    (h : Session D w wc upsh fd s₀ s) :
    s.phase = .joined fd ∧
      Inv (fun s m => s = raws s₀.driver.dtreeRoot ∧ m = s₀.clone.repeated) s := by
  refine @Reach.invariant _ _ _ _
    (fun s => s.phase = .joined fd ∧ Inv (fun s m => s = raws s₀.driver.dtreeRoot ∧ m = s₀.clone.repeated) s)
    h (fun s hs => ?_) fun s s' hs hstep => ?_
  · have hinv : Inv (fun _ _ => True) s₀ := h₀.inv hh (fun _ _ he => he) fun _ _ _ _ => trivial
    rw [step] at hs
    split at hs
    · rename_i hwait
      obtain rfl := Option.some.inj hs
      have hfree : Inv (fun s m => s = raws s₀.driver.dtreeRoot ∧ m = s₀.clone.repeated) s₀ :=
        ⟨hinv.driver, hinv.ordered, hinv.status, hinv.waiting, fun fd hphase => by
          rw [hwait.1] at hphase
          cases hphase⟩
      exact ⟨rfl, hfree.accept hwait.1 (Option.isNone_iff_eq_none.1 hwait.2) ⟨rfl, rfl⟩⟩
    · cases hs
  · obtain ⟨hphase', e, he, hstep⟩ := hstep
    refine ⟨hphase', inv_step hs.2 he hh (fun hwait => ?_) hstep⟩
    rw [hs.1] at hwait
    cases hwait

/-! ### Every connection -/

/-- The clone publishes the variables of the driver with their values, but for those that it filters, and the status
of the driver as it is or with `FSD`. -/
structure Synchronised (s : Pair F) : Prop where
  vars : ∀ var, filtered var = false → strcasecmp var "ups.status".toList ≠ .eq →
    (stateTreeFind s.clone.dstate.dtreeRoot var).map StNode.raw = (stateTreeFind s.driver.dtreeRoot var).map StNode.raw
  status : ∃ n, stateTreeFind s.driver.dtreeRoot "ups.status".toList = some n ∧ Tells n.raw (published s.clone)

/-- The driver has told of every variable that the clone published in the state `s₀` and the driver did not have. -/
def GoneTold (fd : Nat) (s₀ s : Pair F) : Prop :=
  ∀ n ∈ s₀.clone.dstate.dtreeRoot.walk, filtered n.var = false → strcasecmp n.var "ups.status".toList ≠ .eq →
    stateTreeFind s₀.driver.dtreeRoot n.var = none →
    Nut.tolower n.var ∈ (said ((connOut s.driver fd).getD [])).map Prod.fst

instance (fd : Nat) (s₀ s : Pair F) : Decidable (GoneTold fd s₀ s) := inferInstanceAs (Decidable (∀ _ ∈ _, _))

/-- Once the dump is done and nothing is on its way, the clone has got all that the driver told. -/
theorem Inv.drained (h : Inv P s) {fd : Nat} (hphase : s.phase = .joined fd) (hdone : s.clone.dumpdone = true)
    (hdrained : s.inflight = []) :
    HasStatus s.driver ∧ ∃ s₀ m₀, P s₀ m₀ ∧
      Follows passed statusKey s₀ m₀ (said ((connOut s.driver fd).getD [])) true (raws s.driver.dtreeRoot)
        s.clone.repeated := by
  obtain ⟨s₀, m₀, hP, out, all, wss, done, hf⟩ := h.joined fd hphase
  have hempty : out.drop s.taken = [] := by
    unfold inflight at hdrained
    rw [hphase] at hdrained
    dsimp only at hdrained
    rwa [hf.found, Option.getD_some] at hdrained
  obtain rfl : wss = [] := (hempty ▸ hf.hears).drained
  obtain rfl : done = true := hf.done (by rw [hdone]; rfl)
  refine ⟨hf.status rfl, s₀, m₀, hP, ?_⟩
  rw [hf.found, Option.getD_some, said_eq hf.whole]
  exact hf.follows

theorem synchronised_iff_eqOn (hstatus : HasStatus s.driver)
    (hfilled : s.clone.repeated statusKey = raws s.driver.dtreeRoot statusKey) :
    s.Synchronised ↔ Set.EqOn s.clone.repeated (raws s.driver.dtreeRoot) passed := by
  constructor
  · rintro ⟨hvars, -⟩ k ⟨var, rfl, hvar⟩
    by_cases hk : Nut.tolower var = statusKey
    · rw [hk]
      exact hfilled
    · rw [repeated_of_ne hk]
      have hraw := hvars var hvar fun h => hk (strcasecmp_eq.1 h)
      rwa [stateTreeFind_eq, stateTreeFind_eq] at hraw
  · intro hequal
    constructor
    · intro var hvar hne
      have hk : Nut.tolower var ≠ statusKey := fun h => hne (strcasecmp_eq.2 h)
      have hraw := hequal ⟨var, rfl, hvar⟩
      rw [repeated_of_ne hk] at hraw
      rw [stateTreeFind_eq, stateTreeFind_eq]
      exact hraw
    · obtain ⟨n, hn⟩ := Option.isSome_iff_exists.1 hstatus
      have hfind : raws s.driver.dtreeRoot statusKey = some n.raw := by
        rw [raws, statusKey, ← stateTreeFind_eq, hn]
        rfl
      rw [hfind, Clone.repeated, assign_self] at hfilled
      refine ⟨n, hn, ?_⟩
      split at hfilled
      · rename_i htells
        rwa [← Option.some.inj hfilled]
      · cases hfilled

/-- What is gone, by the keys of the variables. -/
theorem goneTold_iff (hord : Ordered nodeKey s₀.clone.dstate.dtreeRoot) {fd : Nat} :
    GoneTold fd s₀ s ↔ ∀ k ∈ passed, k ≠ statusKey → s₀.clone.repeated k ≠ none → raws s₀.driver.dtreeRoot k = none →
      k ∈ (said ((connOut s.driver fd).getD [])).map Prod.fst := by
  constructor
  · rintro htold k ⟨var, rfl, hvar⟩ hk hsome hnone
    rw [repeated_of_ne hk, raws, ne_eq, Option.map_eq_none_iff] at hsome
    rw [raws, Option.map_eq_none_iff] at hnone
    obtain ⟨n, hn⟩ := Option.ne_none_iff_exists'.1 hsome
    have hkey : nodeKey n = Nut.tolower var := key_of_find hn
    change Nut.tolower n.var = Nut.tolower var at hkey
    rw [← hkey] at hk hnone ⊢
    rw [← stateTreeFind_eq] at hnone
    exact htold n (mem_of_find hn) ((filtered_congr hkey).trans hvar) (fun h => hk (strcasecmp_eq.1 h)) hnone
  · intro hkeys n hn hvar hne hnone
    have hk : Nut.tolower n.var ≠ statusKey := fun h => hne (strcasecmp_eq.2 h)
    have hfind : find nodeKey (Nut.tolower n.var) s₀.clone.dstate.dtreeRoot = some n := find_of_mem hord hn
    refine hkeys (Nut.tolower n.var) ⟨n.var, rfl, hvar⟩ hk ?_ ?_
    · rw [repeated_of_ne hk, raws, hfind]
      exact Option.some_ne_none n.raw
    · rw [raws, ← stateTreeFind_eq, hnone]
      rfl

/-- Nothing of what the clone begins with is missing in what the driver has. -/
def Within (s m : CStr → Option CStr) : Prop := ∀ k ∈ passed, k ≠ statusKey → m k ≠ none → s k ≠ none

theorem NoneGone.within (h : s.NoneGone) : Within (raws s.driver.dtreeRoot) s.clone.repeated := by
  rintro k ⟨var, rfl, hvar⟩ hk hsome
  rw [repeated_of_ne hk, raws, ne_eq, Option.map_eq_none_iff] at hsome
  obtain ⟨n, hn⟩ := Option.ne_none_iff_exists'.1 hsome
  have hkey : nodeKey n = Nut.tolower var := key_of_find hn
  change Nut.tolower n.var = Nut.tolower var at hkey
  have hfound := h n (mem_of_find hn) ((filtered_congr hkey).trans hvar)
    fun hs => hk (hkey.symm.trans (strcasecmp_eq.1 hs))
  rw [stateTreeFind_eq, hkey, Option.isSome_iff_ne_none] at hfound
  rwa [raws, ne_eq, Option.map_eq_none_iff]

/-- In every run, with any number of connections that either side may end, a driver that starts anew, writes that
fail, and commands and settings for the clone at any time: once the clone has read the end of a dump on its connection
and nothing is on its way, it publishes the variables of the driver with their values, but for those that it filters,
and the status of the driver as it is or with `FSD`. -/
theorem clone_republishes (hh : HandlersFit w upsh) (h : Reachable D w wc upsh (Admissible D w wc upsh) s) {fd : Nat}
    (hphase : s.phase = .joined fd) (hdone : s.clone.dumpdone = true) (hdrained : s.inflight = []) :
    s.Synchronised := by
  have hinv : Inv Within s := h.inv hh (fun _ _ he => he.1) fun _ _ he haccept => (he.2 haccept).within
  obtain ⟨hstatus, s₀, m₀, hwithin, hfollows⟩ := hinv.drained hphase hdone hdrained
  rw [synchronised_iff_eqOn hstatus (hfollows.filled rfl statusKey_mem), hfollows.eqOn_iff rfl]
  intro k hk hp hsome hnone
  exact absurd hnone (hwithin k hk hp hsome)

/-- One step, with a clone that knows only whole numbers. -/
def move (s : Pair Int) (e : Event) : Option (Pair Int) :=
  step wholeNumbers (fun _ => true) (fun _ => true) ⟨none, none⟩ s e

/-- The state after several events that meet the condition. -/
def follow (ok : Pair Int → Event → Prop) [∀ s, DecidablePred (ok s)] (s : Pair Int) (es : List Event) :
    Option (Pair Int) :=
  es.foldlM (fun s e => if ok s e then move s e else none) s

theorem reach_follow {ok : Pair Int → Event → Prop} [∀ s, DecidablePred (ok s)] {init : Pair Int → Prop}
    {next : Pair Int → Pair Int → Prop} (hnext : ∀ s e s', ok s e → move s e = some s' → next s s') {s s' : Pair Int}
    {es : List Event} (h : Reach init next s) (hes : follow ok s es = some s') : Reach init next s' := by
  induction es generalizing s with
  | nil =>
    obtain rfl := Option.some.inj hes
    exact h
  | cons e es ih =>
    obtain ⟨t, ht, hrest⟩ := Option.bind_eq_some_iff.1 hes
    beta_reduce at ht
    split at ht
    · rename_i ha
      exact ih (.step h (hnext s e t ha ht)) hrest
    · cases ht

/-- A connection that the driver ends, with the answer to `DUMPALL` in two pieces. -/
def firstRun : List Event :=
  [.call (.value (.setinfo "ups.status".toList "OL".toList)),
    .call (.value (.setinfo "battery.charge".toList "100".toList)),
    .call .dataok, .initups 0 (.ok 5), .accept 4, .driverRead (some 8),
    .update 1 .noSocket (.data "SETINFO battery.charge \"100\"\nSETINFO ups".toList),
    .update 2 .noSocket (.data ".status \"OL\"\nDATAOK\nDUMPDONE\n".toList),
    .call (.value (.setinfo "ups.status".toList "OB".toList)), .driverRead none]

/-- Another connection, with the answer to `DUMPALL` at once. -/
def secondRun (text : CStr) : List Event := [.driverRead (some 8), .update 31 .noSocket (.data text)]

/-- A value that changed while the clone was not connected is published. -/
theorem clone_republishes_reconnected : ∃ s,
    follow (Admissible wholeNumbers (fun _ => true) (fun _ => true) ⟨none, none⟩) (start 0 none none none) (firstRun ++
        [.call (.value (.setinfo "battery.charge".toList "90".toList)), .update 30 (.ok 6) .again, .accept 4] ++
        secondRun "SETINFO battery.charge \"90\"\nSETINFO ups.status \"OB\"\nDATAOK\nDUMPDONE\n".toList) = some s ∧
    s.Synchronised := by
  have hrun : (follow (Admissible wholeNumbers (fun _ => true) (fun _ => true) ⟨none, none⟩)
      (start 0 none none none) (firstRun ++
        [.call (.value (.setinfo "battery.charge".toList "90".toList)), .update 30 (.ok 6) .again, .accept 4] ++
        secondRun "SETINFO battery.charge \"90\"\nSETINFO ups.status \"OB\"\nDATAOK\nDUMPDONE\n".toList)).map
      (fun s => (s.phase, s.clone.dumpdone, s.inflight)) = some (.joined 4, true, []) := by decide +kernel
  obtain ⟨s, hs, hout⟩ := Option.map_eq_some_iff.1 hrun
  obtain ⟨hphase, hrest⟩ := Prod.mk.inj hout
  obtain ⟨hdone, hdrained⟩ := Prod.mk.inj hrest
  have hreach : Reachable wholeNumbers (fun _ => true) (fun _ => true) ⟨none, none⟩
      (Admissible wholeNumbers (fun _ => true) (fun _ => true) ⟨none, none⟩) s :=
    reach_follow (fun s e s' he hstep => ⟨e, he, hstep⟩) (.init ⟨0, none, none, none, rfl⟩) hs
  exact ⟨s, hs, @clone_republishes Int wholeNumbers (fun _ => true) (fun _ => true) ⟨none, none⟩ s (handlersFit_none _)
    hreach 4 hphase hdone hdrained⟩

/-- A variable is deleted while the clone is not connected, and then there is another connection, with the events
`es`: the state in which the driver accepts it, and the last state. -/
def deletedBetween (es : List Event) : Option (Pair Int × Pair Int) :=
  (follow (Fits wholeNumbers (fun _ => true) (fun _ => true) ⟨none, none⟩) (start 0 none none none) (firstRun ++
    [.call (.struct (.delinfo "battery.charge".toList)), .update 30 (.ok 6) .again])).bind fun s₀ =>
      (move s₀ (.accept 4)).bind fun s₁ =>
        (follow (fun s e => Fits wholeNumbers (fun _ => true) (fun _ => true) ⟨none, none⟩ s e ∧
          (move s e).map Pair.phase = some (.joined 4)) s₁ es).map fun s => (s₀, s)

theorem session_deletedBetween {es : List Event} {s₀ s : Pair Int} (h : deletedBetween es = some (s₀, s)) :
    Reachable wholeNumbers (fun _ => true) (fun _ => true) ⟨none, none⟩
        (Fits wholeNumbers (fun _ => true) (fun _ => true) ⟨none, none⟩) s₀ ∧
      Session wholeNumbers (fun _ => true) (fun _ => true) ⟨none, none⟩ 4 s₀ s := by
  obtain ⟨t₀, h₀, hrest⟩ := Option.bind_eq_some_iff.1 h
  obtain ⟨t₁, h₁, hlast⟩ := Option.bind_eq_some_iff.1 hrest
  obtain ⟨t, ht, hpair⟩ := Option.map_eq_some_iff.1 hlast
  obtain ⟨rfl, rfl⟩ := Prod.mk.inj hpair
  refine ⟨reach_follow (fun s e s' he hstep => ⟨e, he, hstep⟩) (.init ⟨0, none, none, none, rfl⟩) h₀,
    reach_follow (fun s e s' he hstep => ⟨?_, e, he.1, hstep⟩) (.init h₁) ht⟩
  have hphase := he.2
  rw [hstep] at hphase
  exact Option.some.inj hphase

end

end Pair

end Clone

end Nut
