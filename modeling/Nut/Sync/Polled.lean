import Nut.Clients.Notify
import Nut.Server.Fsd
import Nut.Sync.Agreement

/-!
# What a monitor is told of a UPS

A poll of `upsmon` asks for `ups.status`, and what it then makes of the UPS are the words that `upsd` has of the driver,
behind `FSD` when a shutdown of the UPS is forced (`Attached.pollups`).  So a shutdown that was forced is heard by every
monitor that polls the UPS from then on, whatever becomes of the driver and of the other clients in the meantime
(`heard_of_latched`).
-/

namespace Nut.Upsmon

/-- A UPS of the monitor that is called `u` at its `upsd`, with a connection on which all answers are read. -/
structure Attached (m : Utype) (u : CStr) : Prop where
  upsname : m.upsname = some u
  conn : m.conn.Settled

/-- What `upsd` serves as the status of the UPS, as the client reads it. -/
def servedStatus (ups : Upstype) (node : StNode) : CStr := servedVal ups.fsd node.var (unescape node.val)

/-- The line that asks for the status. -/
def statusQuery (u : CStr) : CStr := buildCmd upscliNetbufLen "GET".toList ["VAR".toList, u, "ups.status".toList]

section

variable {u : CStr} {ups : Upstype} {node : StNode} {w : Writes} {s t : Upsd} {fd : Nat} {m : Utype} {net : Net}

/-- The query for a variable with a value fits, as the answer to it does. -/
theorem fits_query (h : Servable u ups) (hnode : node ∈ ups.inforoot.walk)
    (hval : servedVal ups.fsd node.var node.val ≠ []) :
    (cmdText "GET".toList ["VAR".toList, u, node.var]).length < upscliNetbufLen := by
  have hline := h.lines node hnode
  have hpos := List.length_pos_iff.2 hval
  have hvar : argText "VAR".toList = " VAR".toList := by decide
  rw [cmdText, List.flatMap_cons, List.flatMap_cons, List.flatMap_cons, List.flatMap_nil, hvar, h.upsname.argText,
    (h.names node hnode).argText]
  simp only [varItem, valueItem, spaced, quoted, List.flatMap_cons, List.flatMap_nil, List.length_append,
    List.length_cons,
    List.length_nil, String.length_toList] at hline ⊢
  have h1 : "GET".length = 3 := rfl
  have h2 : " VAR".length = 4 := rfl
  have h3 : "VAR".length = 3 := rfl
  have h4 : "\"".length = 1 := rfl
  omega

theorem servedVal_length (h : Servable u ups) (hnode : node ∈ ups.inforoot.walk) :
    (servedStatus ups node).length < 512 := by
  have henc := (h.encoded hnode).2
  have hline := h.lines node hnode
  have hval : servedVal ups.fsd node.var node.val = escape (servedStatus ups node) := by
    rw [servedStatus, escape_servedVal, henc.escape_unescape]
  have hlong := length_le_escape (servedStatus ups node)
  rw [varItem, valueItem, hval, List.length_append, quoted] at hline
  simp only [List.length_append] at hline
  rw [upscliNetbufLen] at hline
  omega

/-- A word of a line is in its slot. -/
theorem slot_of_args {ctx : PconfCtx} {n : Nat} {a : CStr} (h : ctx.args[n]? = some a) :
    n < ctx.numargs ∧ ctx.arglist[n]? = some a := by
  rw [PconfCtx.args, List.getElem?_take] at h
  split_ifs at h with hn
  exact ⟨hn, h⟩

/-- The answer to the query for the status. -/
theorem Attached.getVar_status (hm : Attached m u) (h : Servable u ups) (hnode : node ∈ ups.inforoot.walk)
    (hvar : node.var = "ups.status".toList) (hval : servedVal ups.fsd node.var node.val ≠ []) (hserves : Serves w s fd)
    (hups : getUpsPtr s u = some ups) (hnet : Exchange w s fd (statusQuery u) net t) :
    ∃ conn, conn.Settled ∧
      getVar m net "status".toList = some ({ m with conn := conn }, some (servedStatus ups node)) := by
  obtain ⟨calls, hcalls⟩ := h.reachable
  obtain ⟨-, hvariables, -⟩ := variables_search_tree calls
  rw [← hcalls] at hvariables
  have hserver : strcasecmp (node.var.take 7) "server.".toList ≠ .eq := by
    rw [hvar]
    decide
  obtain ⟨-, hgives⟩ := h.getGives hnode ((hvariables node).1 hnode) (fits_query h hnode hval) hserver hserves hups
  rw [hvar] at hgives
  obtain ⟨conn, hget, hargs, hsettled, -⟩ := hgives m.conn net t hm.conn hnet
  refine ⟨conn, hsettled, ?_⟩
  have hanswer : conn.pcCtx.args[3]? = some (servedStatus ups node) := by
    rw [hargs]
    rfl
  obtain ⟨hnum, hslot⟩ := slot_of_args hanswer
  have hother : "status".toList ≠ "numlogins".toList := by decide
  rw [getVar, hm.upsname]
  dsimp only
  rw [if_neg hother, if_pos rfl, if_neg (List.cons_ne_nil _ _), hget]
  simp only [List.length_cons, List.length_nil, Nat.reduceAdd, if_neg (Nat.not_lt.2 hnum.le), hslot, Option.map_some]
  rw [snprintf_of_lt (servedVal_length h hnode)]

/-- A poll makes of the UPS what its status says. -/
theorem Attached.pollups (hm : Attached m u) (hconnected : flagIsset m.status stConnected = true) (h : Servable u ups)
    (hnode : node ∈ ups.inforoot.walk) (hvar : node.var = "ups.status".toList)
    (hval : servedVal ups.fsd node.var node.val ≠ []) (hserves : Serves w s fd) (hups : getUpsPtr s u = some ups)
    (c : State)
    {p : Polled} (hnet : Exchange w s fd (statusQuery u) p.get t) : ∃ conn, conn.Settled ∧
      Upsmon.pollups c p m = some (parseStatus c p.now { m with conn := conn } (servedStatus ups node)) := by
  obtain ⟨conn, hsettled, hget⟩ := hm.getVar_status h hnode hvar hval hserves hups hnet
  refine ⟨conn, hsettled, ?_⟩
  rw [Upsmon.pollups, if_neg (by simp [hconnected]), pollConnected, hget]

/-- The query can be answered. -/
theorem exists_exchange (h : Servable u ups) (hnode : node ∈ ups.inforoot.walk) (hvar : node.var = "ups.status".toList)
    (hval : servedVal ups.fsd node.var node.val ≠ []) (hserves : Serves w s fd) (hups : getUpsPtr s u = some ups) :
    ∃ net t, Exchange w s fd (statusQuery u) net t := by
  obtain ⟨calls, hcalls⟩ := h.reachable
  obtain ⟨-, hvariables, -⟩ := variables_search_tree calls
  rw [← hcalls] at hvariables
  have hserver : strcasecmp (node.var.take 7) "server.".toList ≠ .eq := by
    rw [hvar]
    decide
  have hexists := (h.getGives hnode ((hvariables node).1 hnode) (fits_query h hnode hval) hserver hserves hups).1
  rwa [hvar] at hexists

end

/-! ### A forced shutdown -/

section

variable {m : Utype} {c : State} {now : Int} {status : CStr}

theorem hasWord_forced (val : CStr) : HasWord ("FSD ".toList ++ val) "FSD".toList := by
  have hsplit : ("FSD".toList ++ ' ' :: val).splitOn ' ' = "FSD".toList :: val.splitOn ' ' :=
    List.splitOn_append_cons_self_of_not_mem (by decide) val
  refine ⟨"FSD".toList, ?_, strcasecmp_self _⟩
  have htext : "FSD ".toList ++ val = "FSD".toList ++ ' ' :: val := rfl
  rw [htext, hsplit]
  exact List.mem_cons_self

/-- The word sets the flag, whatever it was before. -/
theorem parseStatus_fsd (h : HasWord status "FSD".toList) (hne : status ≠ []) :
    flagIsset (parseStatus c now m status).status stFsd = true := by
  have hset (ups : Utype) (w : CStr) : flagIsset (parseStatword c now ups w).status stFsd =
      (flagIsset ups.status stFsd || decide (strcasecmp w "FSD".toList = .eq)) := by
    rw [stFsd, statword_flag c now ups (by omega) (by omega)]
    simp
  rw [parseStatus_eq, if_neg hne, words_flag hset, hasWord_iff.2 h, Bool.or_true]

theorem isUpsCritical_of_fsd (h : flagIsset m.status stFsd = true) : isUpsCritical c now m = true := if_pos h

theorem promoteDead_fsd (h : flagIsset m.status stFsd = true) :
    flagIsset (promoteDead c now m).status stFsd = true := by
  unfold promoteDead
  split_ifs
  · rw [stFsd, stLowbatt, flagIsset_setflag _ (by omega), ← stFsd, h, Bool.true_or]
  · exact h

/-- A computer whose UPSes are all to be shut down shuts down. -/
theorem recalc_of_fsd (h : ∀ ups ∈ c.firstups, flagIsset ups.status stFsd = true) (hmin : 0 < c.minsupplies) :
    recalc c now = none := by
  have hsum (upses : List Utype) (hupses : ∀ ups ∈ upses, flagIsset ups.status stFsd = true) (v : Int32) :
      upses.foldl (fun valOl ups => if isUpsCritical c now ups then valOl else valOl + ups.pv) v = v := by
    induction upses with
    | nil => rfl
    | cons ups upses ih =>
      rw [List.forall_mem_cons] at hupses
      rw [List.foldl_cons, if_pos (isUpsCritical_of_fsd hupses.1), ih hupses.2]
  unfold recalc
  dsimp only
  rw [hsum _ (fun ups hups => ?_), if_pos hmin]
  obtain ⟨ups, hmem, rfl⟩ := List.mem_map.1 hups
  exact promoteDead_fsd (h ups hmem)

end

/-- What the monitors hear of the UPS `ups` of the server: its status can be asked for, and a monitor that asks sets the
flag, for which the UPS is critical from then on; a computer that has no other UPS shuts down in the same pass. -/
structure Heard (s : Upsd) (ups : Upstype) (u : CStr) (w : Writes) (fd : Nat) : Prop where
  asked : ∃ net t, Exchange w s fd (statusQuery u) net t
  polled : ∀ (m : Utype) (c : State) (p : Polled) (t : Upsd), Attached m u → flagIsset m.status stConnected = true →
    Exchange w s fd (statusQuery u) p.get t → ∃ m', pollups c p m = some m' ∧ flagIsset m'.status stFsd = true ∧
      (∀ c now, isUpsCritical c now m' = true) ∧
      (c.firstups = [m] → 0 < c.minsupplies → ∀ now, (pollAll c fun _ => p).bind (recalc · now) = none)

/-- Once a shutdown of the UPS is forced, every monitor that asks for its status hears of it, as long as the UPS is
configured: from every later state in which the driver's data is served. -/
theorem heard_of_latched {s t : Upsd} (hs : s.Stage) {name : CStr} (hlatched : Latched s name)
    (hkeeps : Upsd.Keeps name s t) : ∃ ups' ∈ t.firstups, ups'.name = name ∧
      ∀ (u : CStr) (node : StNode) (w : Writes) (fd : Nat), getUpsPtr t u = some ups' → Servable u ups' →
        node ∈ ups'.inforoot.walk → node.var = "ups.status".toList → Serves w t fd → Heard t ups' u w fd := by
  obtain ⟨ups', hups', hname, hfsd'⟩ := hlatched.keeps hs hkeeps
  refine ⟨ups', hups', hname, fun u node w fd hptr hserv hnode hvar hserves => ?_⟩
  have hforced (val : CStr) : servedVal ups'.fsd node.var val = "FSD ".toList ++ val :=
    if_pos ⟨by rw [hvar, strcasecmp_self], hfsd'⟩
  have hval : servedVal ups'.fsd node.var node.val ≠ [] := by
    rw [hforced]
    exact List.cons_ne_nil _ _
  refine ⟨exists_exchange hserv hnode hvar hval hserves hptr, fun m c p t' hm hconnected hnet => ?_⟩
  obtain ⟨conn, -, hpoll⟩ := hm.pollups hconnected hserv hnode hvar hval hserves hptr c hnet
  rw [servedStatus, hforced] at hpoll
  have hset := @parseStatus_fsd { m with conn := conn } c p.now _ (hasWord_forced (unescape node.val))
    (List.cons_ne_nil _ _)
  refine ⟨_, hpoll, hset, fun c now => isUpsCritical_of_fsd hset, fun hone hmin now => ?_⟩
  have hall : (pollAll c fun _ => p) = some { c with firstups :=
      [parseStatus c p.now { m with conn := conn } ("FSD ".toList ++ unescape node.val)] } := by
    rw [pollAll, hone]
    simp [hpoll]
  rw [hall, Option.bind_some]
  refine recalc_of_fsd (fun ups hups => ?_) hmin
  rw [List.mem_singleton.1 hups]
  exact hset

end Nut.Upsmon
