import Nut.Drivers.Delivery
import Nut.Drivers.Repeat
import Nut.Sync.Race

/-!
# The driver that a clone repeats

What the messages of a driver tell of its variables: a call tells what it does to them (`raws_apply`), and a dump
tells of all of them (`told_dump`).  Whatever a driver does, it does by calls and by answers to its connections, so
that what these keep holds whatever it reads (`KeptByDriver.sockReadLoop`).
-/

namespace Nut

open ChunkReader Lexer SearchTree Transition Replica

/-! ### What a driver tells -/

namespace Clone

/-- What a line with the words `ws` tells of the variables. -/
def toldBy (ws : List CStr) : List (CStr × Option CStr) := told ws.length ws

/-- A line with the words `ws` is the last of a dump. -/
def dumpEnd (ws : List CStr) : Bool := endsDump ws.length ws

theorem told_append (ws A : List CStr) : told ws.length (ws ++ A) = toldBy ws := by
  unfold toldBy told
  rcases ws with _ | ⟨w₀, _ | ⟨w₁, _ | ⟨w₂, ws⟩⟩⟩ <;> simp

theorem endsDump_append (ws A : List CStr) : endsDump ws.length (ws ++ A) = dumpEnd ws := by
  unfold dumpEnd endsDump
  rcases ws with _ | ⟨w₀, ws⟩ <;> simp

end Clone

/-- What a message tells of a variable. -/
def Message.told : Message → List (CStr × Option CStr)
  | delinfo var => [(tolower var, none)]
  | setinfo var val => [(tolower var, some (snprintf stMaxValueLen val))]
  | _ => []

theorem Message.toldBy_words (m : Message) : Clone.toldBy m.words = m.told := by
  cases m
  case setflags var flag flags =>
    exact Clone.told_of_keyword (strcasecmp_self "SETFLAGS".toList) (by decide) (by decide)
  all_goals rfl

section Told

variable {w : Nat → Bool} {d : Dstate} {c : Call}

theorem taken_of_changes {var val : CStr} (h : (ValueOp.setinfo var val).changes d.dtreeRoot = true) :
    Taken d.dtreeRoot var val := by
  intro n hn
  rw [ValueOp.changes, Option.mem_def.1 hn, Option.elim_some, Bool.not_eq_true'] at h
  exact .inr h

theorem told_flagsMessage (var : CStr) (flags : BitVec 32) : (flagsMessage var flags).told = [] := by
  unfold flagsMessage
  split <;> rfl

/-- A call tells of the variables what it does to them. -/
theorem raws_apply (hd : PlainDriver d) (h : c.changes d = true) :
    raws (c.apply d.published).inforoot = (Clone.toldBy c.words).foldl assign (raws d.dtreeRoot) := by
  have hord : Ordered nodeKey d.dtreeRoot := hd.sound.sorted.tree
  rcases c with (⟨var, val⟩ | ⟨var, val⟩ | ⟨var, val⟩) | op | _ | _
  · show raws (stateSetinfo d.dtreeRoot var (snprintf stMaxValueLen val)).1 = _
    rw [stateSetinfo_fst, raws_upsert (taken_of_changes h)]
    show _ = assign _ (_, some (snprintf stMaxValueLen (snprintf stMaxValueLen val)))
    rw [snprintf_of_lt (length_snprintf_lt (by decide) val)]
    rfl
  · show raws (stateAddenum d.dtreeRoot var (snprintf stMaxValueLen val)).1 = _
    rw [stateAddenum_fst]
    exact raws_modify (keeps_addEnumTo _) _ _
  · show raws (stateDelenum d.dtreeRoot var val).1 = _
    rw [stateDelenum_fst]
    exact raws_modify (keeps_delEnumFrom val) _ _
  · cases op with
    | setflags var flags =>
      have htold : Clone.toldBy (Call.struct (.setflags var flags)).words = [] :=
        Clone.told_of_keyword (strcasecmp_self "SETFLAGS".toList) (by decide) (by decide)
      rw [htold]
      exact raws_modify (keeps_setFlagsOf flags) _ _
    | setaux var aux => exact raws_modify (keeps_setAuxOf aux) _ _
    | addrange var min max =>
      show raws (stateAddrange d.dtreeRoot var min max).1 = _
      rw [stateAddrange_fst]
      split
      · rfl
      · exact raws_modify (keeps_addRangeTo min max) _ _
    | delrange var min max =>
      show raws (stateDelrange d.dtreeRoot var min max).1 = _
      rw [stateDelrange_fst]
      exact raws_modify (keeps_delRangeFrom min max) _ _
    | delinfo var =>
      show raws (stateDelinfo d.dtreeRoot var).1 = _
      rw [stateDelinfo_fst]
      exact raws_erase hord _
    | addcmd | delcmd => rfl
  · rfl
  · rfl

theorem told_nodeMessages (n : StNode) : (nodeMessages n).flatMap Message.told =
    [(tolower n.var, some (snprintf stMaxValueLen (unescape n.val)))] := by
  have henums : (n.enumList.map fun val => Message.addenum n.var (unescape val)).flatMap Message.told = [] := by
    rw [List.flatMap_eq_nil_iff]
    simp [Message.told]
  have hranges : (n.rangeList.map fun r => Message.addrange n.var (formatInt r.min) (formatInt r.max)).flatMap
      Message.told = [] := by
    rw [List.flatMap_eq_nil_iff]
    simp [Message.told]
  have haux : (if n.aux ≠ 0 then [Message.setaux n.var (formatInt n.aux)] else []).flatMap Message.told = [] := by
    split <;> rfl
  have hflags : (if n.flags ≠ 0 then [flagsMessage n.var n.flags] else []).flatMap Message.told = [] := by
    split
    · rw [List.flatMap_singleton, told_flagsMessage]
    · rfl
  unfold nodeMessages
  rw [List.flatMap_append, List.flatMap_append, List.flatMap_append, List.flatMap_append, henums, hranges, haux, hflags]
  rfl

/-- A dump tells of all variables, and nothing else. -/
theorem told_dump (hd : PlainDriver d) : ((dumpMessages d).map Message.words).flatMap Clone.toldBy =
    d.dtreeRoot.walk.map fun n => (nodeKey n, some n.raw) := by
  rw [List.flatMap_map, List.flatMap_congr fun m _ => m.toldBy_words]
  have hnodes : ∀ n ∈ d.dtreeRoot.walk, (nodeMessages n).flatMap Message.told = [(nodeKey n, some n.raw)] := by
    intro n hn
    have hplain := hd.nodes n hn
    rw [told_nodeMessages, hplain.unescape_val, snprintf_of_lt hplain.length]
    rfl
  have hcmds : (d.cmdhead.map Message.addcmd).flatMap Message.told = [] := by
    rw [List.flatMap_eq_nil_iff]
    simp [Message.told]
  have hwalk : (d.dtreeRoot.walk.flatMap nodeMessages).flatMap Message.told =
      d.dtreeRoot.walk.map fun n => (nodeKey n, some n.raw) := by
    rw [List.flatMap_assoc, List.flatMap_congr hnodes, ← List.map_eq_flatMap]
  unfold dumpMessages
  rw [List.flatMap_append, List.flatMap_append, List.flatMap_append, List.flatMap_append, hcmds, hwalk]
  split <;> simp [Message.told]

end Told

/-! ### What the driver does -/

/-- `ups.status` is among the variables. -/
def HasStatus (d : Dstate) : Prop := (stateTreeFind d.dtreeRoot "ups.status".toList).isSome = true

instance (d : Dstate) : Decidable (HasStatus d) := inferInstanceAs (Decidable (_ = _))

/-- A call whose line comes as it is meant and fits the buffer, and that does not delete `ups.status`. -/
def FitCall (w : Nat → Bool) (d : Dstate) (c : Call) : Prop :=
  c.Spoken ∧ (c.changes d = true → c.line.length < stSockBufLen) ∧ (HasStatus d → HasStatus (c.run w d))

instance (w : Nat → Bool) (d : Dstate) (c : Call) : Decidable (FitCall w d c) := inferInstanceAs (Decidable (_ ∧ _ ∧ _))

def FitCalls (w : Nat → Bool) : Dstate → List Call → Prop
  | _, [] => True
  | d, c :: cs => FitCall w d c ∧ FitCalls w (c.run w d) cs

/-- The handlers of the driver use nothing but the calls of `dstate.c`. -/
structure HandlersFit (w : Nat → Bool) (upsh : UpsHandler) : Prop where
  instcmd : ∀ f, upsh.instcmd = some f → ∀ d cmd extra,
    ∃ cs, FitCalls w d cs ∧ f d cmd extra = cs.foldl (fun d c => c.run w d) d
  setvar : ∀ f, upsh.setvar = some f → ∀ d var val,
    ∃ cs, FitCalls w d cs ∧ f d var val = cs.foldl (fun d c => c.run w d) d

theorem handlersFit_none (w : Nat → Bool) : HandlersFit w ⟨none, none⟩ where
  instcmd f hf := by cases hf
  setvar f hf := by cases hf

/-- The driver can answer `DUMPALL`: every line fits the buffer, and there is a status. -/
def DumpFits (d : Dstate) : Prop := HasStatus d ∧ ∀ text ∈ dumpLines d, text.length < stSockBufLen

instance (d : Dstate) : Decidable (DumpFits d) := inferInstanceAs (Decidable (_ ∧ ∀ _ ∈ _, _))

/-- The driver can answer each `DUMPALL` among the bytes that `sock_read` gets, at the time it comes. -/
def dumpsFit (w : Nat → Bool) (upsh : UpsHandler) (fd : Nat) : Dstate → CStr → Bool
  | _, [] => true
  | d, ch :: buf =>
    match d.connhead.find? fun conn => conn.fd = fd with
    | none => true
    | some conn =>
      match pconfChar conn.ctx ch with
      | (ctx, .more) => dumpsFit w upsh fd (setConnCtx d fd ctx) buf
      | (ctx, .line) =>
        decide (strcasecmp (ctx.arglist.getD 0 []) "DUMPALL".toList = .eq → DumpFits (setConnCtx d fd ctx)) &&
          dumpsFit w upsh fd (sockArg w upsh fd (setConnCtx d fd ctx) ctx.numargs ctx.arglist).1 buf
      | (_, .error) => true

/-- What the calls of a driver and its answers to any connection keep. -/
structure KeptByDriver (w : Nat → Bool) (I : Dstate → Prop) : Prop where
  call : ∀ d c, FitCall w d c → I d → I (c.run w d)
  pong : ∀ fd d d' ok, Delivered fd "PONG\n".toList ok d d' → I d → I d'
  dump : ∀ fd d d' ok, DumpFits d → Delivered fd ((dumpLines d).flatMap (snprintf stSockBufLen)) ok d d' → I d → I d'
  ctx : ∀ fd d ctx, I d → I (setConnCtx d fd ctx)

namespace KeptByDriver

variable {w : Nat → Bool} {upsh : UpsHandler} {I : Dstate → Prop} {fd : Nat} {d d' : Dstate}

theorem calls (hI : KeptByDriver w I) {cs : List Call} (hcs : FitCalls w d cs) (h : I d) :
    I (cs.foldl (fun d c => c.run w d) d) := by
  induction cs generalizing d with
  | nil => exact h
  | cons c cs ih => exact ih hcs.2 (hI.call d c hcs.1 h)

theorem sockArg (hI : KeptByDriver w I) (hh : HandlersFit w upsh) {numarg : Nat} {arg : List CStr}
    (hfits : strcasecmp (arg.getD 0 []) "DUMPALL".toList = .eq → DumpFits d) (h : I d) :
    I (sockArg w upsh fd d numarg arg).1 := by
  have hinstcmd : ∀ f, upsh.instcmd = some f → ∀ cmd extra, I (f d cmd extra) := by
    intro f hf cmd extra
    obtain ⟨cs, hcs, hrun⟩ := hh.instcmd f hf d cmd extra
    rw [hrun]
    exact hI.calls hcs h
  have hsetvar : ∀ f, upsh.setvar = some f → ∀ var val, I (f d var val) := by
    intro f hf var val
    obtain ⟨cs, hcs, hrun⟩ := hh.setvar f hf d var val
    rw [hrun]
    exact hI.calls hcs h
  unfold Nut.sockArg
  dsimp only
  split
  · exact h
  split
  · rename_i hdump
    obtain ⟨ok, hwritten⟩ := dumpAll_written w fd d
    exact hI.dump fd d _ ok (hfits hdump) hwritten h
  split
  · exact hI.pong fd d _ _ (sendToOne_written w fd d "PONG\n".toList) h
  split
  · exact h
  split
  · split
    · rename_i f hf
      exact hinstcmd f hf _ _
    · exact h
  split
  · exact h
  split
  · split
    · rename_i f hf
      exact hsetvar f hf _ _
    · exact h
  · exact h

theorem sockReadLoop (hI : KeptByDriver w I) (hh : HandlersFit w upsh) {buf : CStr}
    (hfits : dumpsFit w upsh fd d buf = true) (hrun : sockReadLoop w upsh fd d buf = some d') (h : I d) : I d' := by
  induction buf generalizing d with
  | nil =>
    obtain rfl := Option.some.inj hrun
    exact h
  | cons ch buf ih =>
    unfold Nut.sockReadLoop at hrun
    unfold dumpsFit at hfits
    cases hfind : d.connhead.find? fun conn => conn.fd = fd with
    | none =>
      rw [hfind] at hrun
      exact absurd hrun (by simp)
    | some conn =>
      rw [hfind] at hrun hfits
      dsimp only at hrun hfits
      rcases hp : pconfChar conn.ctx ch with ⟨ctx, _ | _ | _⟩
      · rw [hp] at hrun hfits
        exact ih hfits hrun (hI.ctx fd d ctx h)
      · rw [hp] at hrun hfits
        obtain ⟨hdump, hrest⟩ := Bool.and_eq_true_iff.1 hfits
        exact ih hrest hrun (hI.sockArg hh (of_decide_eq_true hdump) (hI.ctx fd d ctx h))
      · rw [hp] at hrun
        obtain rfl := Option.some.inj hrun
        exact hI.ctx fd d ctx h

end KeptByDriver

/-- A driver whose values have nothing to escape, with its connections. -/
structure Upstream (d : Dstate) : Prop extends PlainDriver d where
  nodup : (fds d).Nodup

theorem Upstream.written {fd : Nat} {text : CStr} {ok : Bool} {d d' : Dstate} (h : Upstream d)
    (hw : Delivered fd text ok d d') :
    Upstream d' :=
  ⟨(Link.SameState.mk hw.tree hw.cmds hw.stale).plainDriver h.toPlainDriver, h.nodup.sublist hw.fds⟩

theorem Upstream.call {w : Nat → Bool} {d : Dstate} {c : Call} (h : Upstream d) (hc : c.Spoken) :
    Upstream (c.run w d) := by
  refine ⟨h.toPlainDriver.call hc w, ?_⟩
  rw [hc.run_eq]
  split
  · exact h.nodup.sublist (connOut_broadcast w (show (fds (d.withState _)).Nodup from h.nodup) _ 0).1
  · exact h.nodup

theorem Upstream.ctx {d : Dstate} (h : Upstream d) (fd : Nat) (ctx : PconfCtx) : Upstream (setConnCtx d fd ctx) where
  sound := h.sound.congr rfl rfl
  nodes := h.nodes
  nodup := by
    rw [fds_setConnCtx]
    exact h.nodup

theorem Upstream.connect {d : Dstate} (h : Upstream d) {fd : Nat} (hfd : connOut d fd = none) :
    Upstream (sockConnect d fd) where
  sound := h.sound.congr rfl rfl
  nodes := h.nodes
  nodup := List.nodup_cons.2 ⟨connOut_eq_none_iff.1 hfd, h.nodup⟩

theorem Upstream.disconnect {d : Dstate} (h : Upstream d) (fd : Nat) : Upstream (sockDisconnect d fd) where
  sound := h.sound.congr rfl rfl
  nodes := h.nodes
  nodup := h.nodup.sublist (List.filter_sublist.map Conn.fd)

theorem Upstream.init : Upstream Dstate.init := ⟨PlainDriver.init, List.nodup_nil⟩

theorem connOut_run_of_none {w : Nat → Bool} {d : Dstate} {c : Call} {fd : Nat} (h : Upstream d) (hc : c.Spoken)
    (hnone : connOut d fd = none) : connOut (c.run w d) fd = none := by
  rw [hc.run_eq]
  split
  · rcases (connOut_broadcast w (show (fds (d.withState _)).Nodup from h.nodup) c.line fd).2 with hout | hgone
    · rw [hout]
      show (connOut d fd).map _ = none
      rw [hnone]
      rfl
    · exact hgone
  · exact hnone

theorem keptByDriver_upstream (w : Nat → Bool) : KeptByDriver w Upstream where
  call _ _ hfit h := h.call hfit.1
  pong _ _ _ _ hwritten h := h.written hwritten
  dump _ _ _ _ _ hwritten h := h.written hwritten
  ctx fd _ ctx h := h.ctx fd ctx

end Nut
