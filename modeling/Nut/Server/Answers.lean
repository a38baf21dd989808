import Nut.Server.Netcmds
import Nut.Server.Effects

/-!
# The answers to `GET` and `LIST`

What the answers are made of, and what a client is sent: each list is one sequence of texts (`sendList_eq`), which are
sent in order until a write fails (`sendEach_told`), and in full if none does (`sendEach_all`).
-/

namespace Nut

/-- The value of a variable in an answer. -/
def servedVal (fsd : Bool) (var val : CStr) : CStr :=
  if strcasecmp var "ups.status".toList = .eq ∧ fsd then "FSD ".toList ++ val else val

/-- The line of `LIST VAR`, or of `LIST RW`, for a variable. -/
def nodeTexts (ups : CStr) (rw fsd : Bool) (node : StNode) : List CStr :=
  if rw then if node.flags &&& stFlagRw ≠ 0 then [varLine "RW".toList ups node.var node.val] else []
  else [varLine "VAR".toList ups node.var (servedVal fsd node.var node.val)]

/-- An answer that is an error. -/
def errText (err : CStr) : CStr := "ERR ".toList ++ err ++ "\n".toList

/-- The texts of a list. -/
def listTexts (query : CStr) (items : List CStr) (stop : CStr) : List CStr :=
  ("BEGIN LIST ".toList ++ query ++ "\n".toList) :: items ++ ["END LIST ".toList ++ stop ++ "\n".toList]

section Send

variable (w : Writes) (s : Upsd) (fd : Nat)

theorem sendEach_cons (text : CStr) (texts : List CStr) : sendEach w s fd (text :: texts) =
    if (sendback w s fd text).2 then sendEach w (sendback w s fd text).1 fd texts else sendback w s fd text := by
  rw [sendEach]
  rcases sendback w s fd text with ⟨s', _ | _⟩ <;> rfl

theorem sendEach_append (texts texts' : List CStr) : sendEach w s fd (texts ++ texts') =
    if (sendEach w s fd texts).2 then sendEach w (sendEach w s fd texts).1 fd texts' else sendEach w s fd texts := by
  induction texts generalizing s with
  | nil => rfl
  | cons text texts ih =>
    rw [List.cons_append, sendEach_cons, sendEach_cons]
    cases hone : (sendback w s fd text).2 with
    | false => simp [hone]
    | true => simp only [if_true, ih]

theorem sendEach_singleton (text : CStr) : sendEach w s fd [text] = sendback w s fd text := by
  rw [sendEach_cons]
  rcases sendback w s fd text with ⟨s', _ | _⟩ <;> rfl

/-- A walk over the tree sends the lines of its variables. -/
theorem treeDump_eq (ups : CStr) (rw fsd : Bool) (t : StTree) :
    treeDump w s fd ups rw fsd t = sendEach w s fd (t.walk.flatMap (nodeTexts ups rw fsd)) := by
  induction t generalizing s with
  | nil => rfl
  | node left node right ihl ihr =>
    have hone (s : Upsd) : (if rw then
        if node.flags &&& stFlagRw ≠ 0 then sendback w s fd (varLine "RW".toList ups node.var node.val) else (s, true)
        else if fsd ∧ strcasecmp node.var "ups.status".toList = .eq then
          sendback w s fd (varLine "VAR".toList ups node.var ("FSD ".toList ++ node.val))
        else sendback w s fd (varLine "VAR".toList ups node.var node.val)) =
          sendEach w s fd (nodeTexts ups rw fsd node) := by
      unfold nodeTexts servedVal
      split
      · split
        · rw [sendEach_singleton]
        · rfl
      · rw [sendEach_singleton]
        by_cases hstatus : strcasecmp node.var "ups.status".toList = .eq <;> cases fsd <;> simp only [hstatus] <;> rfl
    rw [SearchTree.walk_node, List.flatMap_append, List.flatMap_cons, sendEach_append, ← ihl, treeDump]
    rcases treeDump w s fd ups rw fsd left with ⟨s1, _ | _⟩
    · rfl
    · dsimp only
      rw [if_pos rfl, sendEach_append, hone]
      rcases sendEach w s1 fd (nodeTexts ups rw fsd node) with ⟨s2, _ | _⟩
      · rfl
      · exact ihr s2

theorem sendList_eq (query : CStr) (items : List CStr) (stop : CStr) :
    sendList w s fd query (fun s => sendEach w s fd items) stop = (sendEach w s fd (listTexts query items stop)).1 := by
  rw [listTexts, List.cons_append, sendEach_cons, sendList]
  rcases sendback w s fd ("BEGIN LIST ".toList ++ query ++ "\n".toList) with ⟨s1, _ | _⟩
  · rfl
  · dsimp only
    rw [if_pos rfl, sendEach_append]
    rcases sendEach w s1 fd items with ⟨s2, _ | _⟩
    · rfl
    · dsimp only
      rw [if_pos rfl, sendEach_singleton]

/-- The texts are sent in order, as far as the writes go. -/
theorem sendEach_told (texts : List CStr) : ∃ n lost,
    (sendEach w s fd texts).1 = s.told fd ((texts.take n).map answer) lost := by
  induction texts generalizing s with
  | nil => exact ⟨0, false, (told_nil s fd).symm⟩
  | cons text texts ih =>
    rw [sendEach_cons, sendback_eq]
    dsimp only
    split_ifs with hok
    · obtain ⟨n, lost, h⟩ := ih (s.told fd [answer text] (!w.client fd (s.written fd)))
      refine ⟨n + 1, lost, ?_⟩
      rw [h, told_told, hok]
      rfl
    · refine ⟨1, true, ?_⟩
      simp [hok]

/-- The next `n` writes to the client do not fail. -/
def WritesTake (n : Nat) : Prop := ∀ k < n, w.client fd (s.written fd + k) = true

/-- All of the texts are sent, if no write fails. -/
theorem sendEach_all {client : NutCtype} (hclient : s.client fd = some client) {texts : List CStr}
    (hw : WritesTake w s fd texts.length) : sendEach w s fd texts = (s.told fd (texts.map answer) false, true) := by
  induction texts generalizing s client with
  | nil => rw [sendEach, List.map_nil, told_nil]
  | cons text texts ih =>
    have hone : w.client fd (s.written fd) = true := hw 0 (by simp)
    rw [sendEach_cons, sendback_eq, hone]
    have htold : (s.told fd [answer text] false).client fd = some { client with sent := client.sent ++ [answer text] } := by
      unfold Upsd.told
      rw [client_modifyClient _ _ (by exact fun _ => rfl), hclient]
      simp
    have hrest : WritesTake w (s.told fd [answer text] false) fd texts.length := by
      intro k hk
      rw [written_told s fd _ _ hclient]
      have hnext := hw (k + 1) (by simpa using hk)
      rwa [← Nat.add_assoc, Nat.add_right_comm] at hnext
    simp only [Bool.not_true, if_true]
    rw [ih _ htold hrest, told_told]
    rfl

end Send

/-! ### The table of the commands -/

/-- The command is in the table. -/
theorem parseNet_of_asks {args : List CStr} {arg : List CStr} {cmd : CStr × NetHandler × Bool} (hcmd : cmd ∈ netcmds)
    (hasks : Asks args cmd.1 arg) (w : Writes) (s : Upsd) (client : NutCtype) :
    parseNet w s client args = checkCommand cmd.2.1 cmd.2.2 w s client arg := by
  obtain ⟨arg0, rfl, hname⟩ := hasks
  have hnodup : (netcmds.map fun cmd => tolower cmd.1).Nodup := by decide
  have hfind : (netcmds.find? fun cmd => strcasecmp cmd.1 arg0 = .eq) = some cmd := by
    cases h : netcmds.find? fun cmd => strcasecmp cmd.1 arg0 = .eq with
    | none =>
      have hall := List.find?_eq_none.1 h cmd hcmd
      simp [hname] at hall
    | some cmd' =>
      have hname' : strcasecmp cmd'.1 arg0 = .eq := by simpa using List.find?_some h
      rw [strcasecmp_eq] at hname hname'
      rw [List.inj_on_of_nodup_map hnodup (List.mem_of_find?_eq_some h) hcmd (hname'.trans hname.symm)]
  unfold parseNet
  dsimp only
  rw [hfind]

theorem parseNet_get {args arg : List CStr} (hasks : Asks args "GET".toList arg) (w : Writes) (s : Upsd)
    (client : NutCtype) : parseNet w s client args = netGet w s client arg :=
  @parseNet_of_asks _ _ ("GET".toList, netGet, false) (by simp [netcmds]) hasks w s client

theorem parseNet_list {args arg : List CStr} (hasks : Asks args "LIST".toList arg) (w : Writes) (s : Upsd)
    (client : NutCtype) : parseNet w s client args = netList w s client arg :=
  @parseNet_of_asks _ _ ("LIST".toList, netList, false) (by simp [netcmds]) hasks w s client

theorem parseNet_logout {args : List CStr} (hasks : Asks args "LOGOUT".toList []) (w : Writes) (s : Upsd)
    (client : NutCtype) : parseNet w s client args =
      ((sendback w s client.sockFd "OK Goodbye\n".toList).1).modifyClient client.sockFd
        fun client => { client with lastHeard := 0 } :=
  @parseNet_of_asks _ _ ("LOGOUT".toList, netLogout, false) (by simp [netcmds]) hasks w s client

/-! ### The queries of `GET VAR` and `LIST VAR` -/

theorem netGet_var {w : Writes} {s : Upsd} {client : NutCtype} {type : CStr} (htype : strcasecmp type "VAR".toList = .eq)
    (upsname var : CStr) (rest : List CStr) :
    netGet w s client (type :: upsname :: var :: rest) = getVar w s client.sockFd upsname var := by
  unfold netGet
  dsimp only
  rw [if_neg (strcasecmp_ne htype (by decide)), if_neg (strcasecmp_ne htype (by decide)), if_pos htype]

theorem netList_var {w : Writes} {s : Upsd} {client : NutCtype} {type : CStr} (htype : strcasecmp type "VAR".toList = .eq)
    (upsname : CStr) (rest : List CStr) :
    netList w s client (type :: upsname :: rest) = listVar w s client.sockFd upsname := by
  unfold netList
  dsimp only
  rw [if_neg (strcasecmp_ne htype (by decide)), if_pos htype]

/-- An error about the UPS of a query, or the answer. -/
theorem getVar_eq {w : Writes} {s : Upsd} {fd : Nat} {upsname var : CStr} {ups : Upstype}
    (hups : getUpsPtr s upsname = some ups) (hvar : strcasecmp (var.take 7) "server.".toList ≠ .eq) :
    (∃ err, getVar w s fd upsname var = sendErr w s fd err) ∨ ∃ val, sstateGetinfo ups var = some val ∧ ups.Available ∧
      getVar w s fd upsname var = (sendback w s fd (varLine "VAR".toList upsname var (servedVal ups.fsd var val))).1 := by
  unfold getVar
  rw [if_neg hvar]
  by_cases havail : ups.Available
  · rw [withUps_of_available hups havail]
    cases hval : sstateGetinfo ups var with
    | none => exact .inl ⟨_, rfl⟩
    | some val =>
      refine .inr ⟨val, rfl, havail, ?_⟩
      unfold servedVal
      dsimp only
      split_ifs <;> rfl
  · obtain ⟨err, herr⟩ := withUps_of_not_available hups havail w fd
    exact .inl ⟨err, herr _⟩

theorem listVar_eq {w : Writes} {s : Upsd} {fd : Nat} {upsname : CStr} {ups : Upstype}
    (hups : getUpsPtr s upsname = some ups) (havail : ups.Available) :
    listVar w s fd upsname = (sendEach w s fd (listTexts ("VAR ".toList ++ upsname)
      (ups.inforoot.walk.flatMap (nodeTexts upsname false ups.fsd)) ("VAR ".toList ++ upsname))).1 := by
  unfold listVar
  rw [withUps_of_available hups havail]
  simp only [treeDump_eq]
  exact sendList_eq ..

end Nut
