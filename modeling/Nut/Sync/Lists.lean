import Mathlib.Data.List.TakeDrop
import Nut.Clients.Descriptions
import Nut.Clients.Echoed
import Nut.Server.Moves

/-!
# Lists between server and client

The answers to `LIST` that are not errors are lists (`Lists`): a line that begins the list, a line for each item, and a
line that ends it.  A list is well bracketed (`WellBracketed`) if its first and its last line name the same query, and a
client that asked it is given the items and stops at the last line.  It is exactly if it is not that of a range, whose last
line says `ENUM`, and the client can read it: the names of the query are plain words, and the lines fit
(`lists_bracketed_iff`).
-/

namespace Nut

open ChunkReader Lexer

/-- A list: its type and the names of the query, the lines of the items, and the words that the last line repeats. -/
structure ListAnswer where
  type : CStr
  names : List CStr
  items : List CStr
  stop : List CStr

namespace ListAnswer

/-- The words of the query. -/
def query (a : ListAnswer) : List CStr := a.type :: a.names

def lines (a : ListAnswer) : List CStr := listLines (unwords a.query) a.items (unwords a.stop)

/-- The lines with the same query in the first and in the last of them. -/
def bracketed (a : ListAnswer) : List CStr := listLines (unwords a.query) a.items (unwords a.query)

end ListAnswer

/-- The line of an item that consists of words and a value in quotes. -/
def valueItem (words : List CStr) (val : CStr) : CStr := spaced words ++ quoted val

/-- The item of a UPS in `LIST UPS`. -/
def upsItem (utmp : Upstype) : CStr :=
  valueItem ["UPS".toList, utmp.name]
    (match utmp.desc with
      | some desc => pconfEncode desc smallbuf
      | none => "Description unavailable".toList)

/-- The item of a client in `LIST CLIENT`, if it is logged into the UPS. -/
def clientItem (ups : Upstype) (c : NutCtype) : Option CStr :=
  match c.loginups with
  | none => none
  | some loginups =>
    if strcasecmp loginups ups.name = .eq then some (spaced ["CLIENT".toList, loginups] ++ c.addr) else none

/-- The lists with which the server answers, by the arguments of `LIST`. -/
inductive Lists (s : Upsd) : List CStr → ListAnswer → Prop
  | ups {type : CStr} (htype : strcasecmp type "UPS".toList = .eq) (rest : List CStr) :
      Lists s (type :: rest) ⟨"UPS".toList, [], s.firstups.map upsItem, ["UPS".toList]⟩
  | var {type upsname : CStr} {ups : Upstype} (htype : strcasecmp type "VAR".toList = .eq)
      (hups : getUpsPtr s upsname = some ups) (havail : ups.Available) (rest : List CStr) :
      Lists s (type :: upsname :: rest)
        ⟨"VAR".toList, [upsname],
          ups.inforoot.walk.map fun node =>
            valueItem ["VAR".toList, upsname, node.var] (servedVal ups.fsd node.var node.val),
          ["VAR".toList, upsname]⟩
  | rw {type upsname : CStr} {ups : Upstype} (htype : strcasecmp type "RW".toList = .eq)
      (hups : getUpsPtr s upsname = some ups) (havail : ups.Available) (rest : List CStr) :
      Lists s (type :: upsname :: rest)
        ⟨"RW".toList, [upsname],
          (ups.inforoot.walk.filter fun node => node.flags &&& stFlagRw ≠ 0).map fun node =>
            valueItem ["RW".toList, upsname, node.var] node.val,
          ["RW".toList, upsname]⟩
  | cmd {type upsname : CStr} {ups : Upstype} (htype : strcasecmp type "CMD".toList = .eq)
      (hups : getUpsPtr s upsname = some ups) (havail : ups.Available) (rest : List CStr) :
      Lists s (type :: upsname :: rest)
        ⟨"CMD".toList, [upsname], ups.cmdlist.map fun name => spaced ["CMD".toList, upsname] ++ name,
          ["CMD".toList, upsname]⟩
  | client {type upsname : CStr} {ups : Upstype} (htype : strcasecmp type "CLIENT".toList = .eq)
      (hups : getUpsPtr s upsname = some ups) (rest : List CStr) :
      Lists s (type :: upsname :: rest)
        ⟨"CLIENT".toList, [upsname], s.firstclient.filterMap (clientItem ups), ["CLIENT".toList, upsname]⟩
  | enum {type upsname var : CStr} {ups : Upstype} {node : StNode} (htype : strcasecmp type "ENUM".toList = .eq)
      (hups : getUpsPtr s upsname = some ups) (havail : ups.Available) (hnode : sstateGetnode ups var = some node)
      (rest : List CStr) :
      Lists s (type :: upsname :: var :: rest)
        ⟨"ENUM".toList, [upsname, var], node.enumList.map fun val => valueItem ["ENUM".toList, upsname, var] val,
          ["ENUM".toList, upsname, var]⟩
  | range {type upsname var : CStr} {ups : Upstype} {node : StNode} (htype : strcasecmp type "RANGE".toList = .eq)
      (hups : getUpsPtr s upsname = some ups) (havail : ups.Available) (hnode : sstateGetnode ups var = some node)
      (rest : List CStr) :
      Lists s (type :: upsname :: var :: rest)
        ⟨"RANGE".toList, [upsname, var],
          node.rangeList.map fun r =>
            valueItem ["RANGE".toList, upsname, var] (formatInt r.min) ++ " ".toList ++ quoted (formatInt r.max),
          ["ENUM".toList, upsname, var]⟩

/-! ### The lists are sent -/

section Send

variable {w : Writes} {s : Upsd} {client : NutCtype} {arg : List CStr} {a : ListAnswer}

theorem listTexts_lines (query stop : CStr) (items : List CStr) :
    listTexts query (items.map (· ++ ['\n'])) stop = (listLines query items stop).map (· ++ ['\n']) := by
  simp [listTexts, listLines]

theorem varLine_eq (type upsname var val : CStr) :
    varLine type upsname var val = valueItem [type, upsname, var] val ++ ['\n'] := by
  simp [varLine, valueItem, spaced]

theorem upsLine_eq (utmp : Upstype) : upsLine utmp = upsItem utmp ++ ['\n'] := by
  unfold upsLine upsItem
  cases utmp.desc with
  | some desc => simp [valueItem, spaced]
  | none => simp [valueItem, spaced, quoted]

theorem clientLine_eq (ups : Upstype) (c : NutCtype) : clientLine ups c = (clientItem ups c).map (· ++ ['\n']) := by
  unfold clientLine clientItem
  cases c.loginups with
  | none => rfl
  | some loginups =>
    dsimp only
    split_ifs
    · simp [spaced]
    · rfl

/-- The walk over the tree for `LIST VAR`. -/
theorem flatMap_nodeTexts_var (upsname : CStr) (fsd : Bool) (nodes : List StNode) :
    nodes.flatMap (nodeTexts upsname false fsd) =
      (nodes.map fun node => valueItem ["VAR".toList, upsname, node.var] (servedVal fsd node.var node.val)).map
        (· ++ ['\n']) := by
  induction nodes with
  | nil => rfl
  | cons node nodes ih =>
    rw [List.flatMap_cons, ih, List.map_cons, List.map_cons, nodeTexts, if_neg Bool.false_ne_true, varLine_eq]
    rfl

/-- The walk over the tree for `LIST RW`. -/
theorem flatMap_nodeTexts_rw (upsname : CStr) (fsd : Bool) (nodes : List StNode) :
    nodes.flatMap (nodeTexts upsname true fsd) =
      ((nodes.filter fun node => node.flags &&& stFlagRw ≠ 0).map fun node =>
        valueItem ["RW".toList, upsname, node.var] node.val).map (· ++ ['\n']) := by
  induction nodes with
  | nil => rfl
  | cons node nodes ih =>
    rw [List.flatMap_cons, ih, nodeTexts, if_pos rfl]
    by_cases hrw : node.flags &&& stFlagRw ≠ 0
    · rw [if_pos hrw, List.filter_cons_of_pos (by simpa using hrw), varLine_eq]
      rfl
    · rw [if_neg hrw, List.filter_cons_of_neg (by simpa using hrw), List.nil_append]

/-- What was sent to a client before does not matter for its item. -/
theorem filterMap_clientLine_told (ups : Upstype) (s : Upsd) (fd : Nat) (bufs : List CStr) (lost : Bool) :
    (s.told fd bufs lost).firstclient.filterMap (clientLine ups) = s.firstclient.filterMap (clientLine ups) := by
  unfold Upsd.told Upsd.modifyClient
  rw [List.filterMap_map]
  congr 1
  funext c
  rw [Function.comp_apply]
  split_ifs <;> rfl

theorem listClients_eq {upsname : CStr} {ups : Upstype} (hups : getUpsPtr s upsname = some ups) (fd : Nat) :
    listClients w s fd upsname = (sendEach w s fd (listTexts ("CLIENT ".toList ++ upsname)
      (s.firstclient.filterMap (clientLine ups)) ("CLIENT ".toList ++ upsname))).1 := by
  rw [← sendList_eq, listClients, hups]
  dsimp only
  -- the clients are read after the first line is sent, which does not change their lines
  rw [sendList, sendList, sendback_eq]
  cases w.client fd (s.written fd) with
  | false => rfl
  | true =>
    dsimp only
    rw [filterMap_clientLine_told]

theorem unwords_two (v w : CStr) : unwords [v, w] = v ++ ' ' :: w := by
  simp [unwords, List.intercalate_cons_cons]

theorem unwords_three (u v w : CStr) : unwords [u, v, w] = u ++ ' ' :: (v ++ ' ' :: w) := by
  simp [unwords, List.intercalate_cons_cons]

/-- The lines of the list are sent, in order. -/
theorem Lists.sent (h : Lists s arg a) :
    netList w s client arg = (sendEach w s client.sockFd (a.lines.map (· ++ ['\n']))).1 := by
  unfold netList ListAnswer.lines ListAnswer.query
  cases h with
  | ups htype rest =>
    have hitems : s.firstups.map upsLine = (s.firstups.map upsItem).map (· ++ ['\n']) := by
      rw [List.map_map]
      exact List.map_congr_left fun utmp _ => upsLine_eq utmp
    dsimp only
    rw [if_pos htype, listUps_eq, hitems, listTexts_lines, unwords, List.intercalate_singleton]
  | var htype hups havail rest =>
    dsimp only
    rw [if_neg (strcasecmp_ne htype (by decide)), if_pos htype, listVar_eq hups havail, flatMap_nodeTexts_var,
      listTexts_lines, unwords_two]
    rfl
  | rw htype hups havail rest =>
    dsimp only
    rw [if_neg (strcasecmp_ne htype (by decide)), if_neg (strcasecmp_ne htype (by decide)), if_pos htype, listRw,
      withUps_of_available hups havail]
    simp only [treeDump_eq]
    rw [sendList_eq, flatMap_nodeTexts_rw, listTexts_lines, unwords_two]
    rfl
  | @cmd type upsname ups htype hups havail rest =>
    have hitems : (ups.cmdlist.map fun name => "CMD ".toList ++ upsname ++ " ".toList ++ name ++ "\n".toList) =
        (ups.cmdlist.map fun name => spaced ["CMD".toList, upsname] ++ name).map (· ++ ['\n']) := by
      rw [List.map_map]
      exact List.map_congr_left fun name _ => by simp [spaced]
    dsimp only
    rw [if_neg (strcasecmp_ne htype (by decide)), if_neg (strcasecmp_ne htype (by decide)),
      if_neg (strcasecmp_ne htype (by decide)), if_pos htype, listCmd, withUps_of_available hups havail, sendList_eq,
      hitems, listTexts_lines, unwords_two]
    rfl
  | @client type upsname ups htype hups rest =>
    have hitems : s.firstclient.filterMap (clientLine ups) =
        (s.firstclient.filterMap (clientItem ups)).map (· ++ ['\n']) := by
      rw [List.map_filterMap]
      congr 1
      funext c
      exact clientLine_eq ups c
    dsimp only
    rw [if_neg (strcasecmp_ne htype (by decide)), if_neg (strcasecmp_ne htype (by decide)),
      if_neg (strcasecmp_ne htype (by decide)), if_neg (strcasecmp_ne htype (by decide)), if_pos htype,
      listClients_eq hups, hitems, listTexts_lines, unwords_two]
    rfl
  | @enum type upsname var ups node htype hups havail hnode rest =>
    have hitems : (node.enumList.map fun val => varLine "ENUM".toList upsname var val) =
        (node.enumList.map fun val => valueItem ["ENUM".toList, upsname, var] val).map (· ++ ['\n']) := by
      rw [List.map_map]
      exact List.map_congr_left fun val _ => varLine_eq _ _ _ val
    dsimp only
    rw [if_neg (strcasecmp_ne htype (by decide)), if_neg (strcasecmp_ne htype (by decide)),
      if_neg (strcasecmp_ne htype (by decide)), if_neg (strcasecmp_ne htype (by decide)),
      if_neg (strcasecmp_ne htype (by decide)), if_pos htype, listEnum, withUps_of_available hups havail, hnode]
    dsimp only
    rw [sendList_eq, hitems, listTexts_lines, unwords_three]
    simp
  | @range type upsname var ups node htype hups havail hnode rest =>
    have hitems : (node.rangeList.map fun r =>
        "RANGE ".toList ++ upsname ++ " ".toList ++ var ++ " ".toList ++ quoted (formatInt r.min) ++ " ".toList ++
          quoted (formatInt r.max) ++ "\n".toList) =
        (node.rangeList.map fun r => valueItem ["RANGE".toList, upsname, var] (formatInt r.min) ++ " ".toList ++
          quoted (formatInt r.max)).map (· ++ ['\n']) := by
      rw [List.map_map]
      exact List.map_congr_left fun r _ => by simp [valueItem, spaced]
    dsimp only
    rw [if_neg (strcasecmp_ne htype (by decide)), if_neg (strcasecmp_ne htype (by decide)),
      if_neg (strcasecmp_ne htype (by decide)), if_neg (strcasecmp_ne htype (by decide)),
      if_neg (strcasecmp_ne htype (by decide)), if_neg (strcasecmp_ne htype (by decide)), if_pos htype, listRange,
      withUps_of_available hups havail, hnode]
    dsimp only
    rw [sendList_eq, hitems, listTexts_lines, unwords_three, unwords_three]
    simp

/-- A query is answered by an error, or by a list. -/
theorem netList_cases (w : Writes) (s : Upsd) (client : NutCtype) (arg : List CStr) :
    (∃ err, netList w s client arg = sendErr w s client.sockFd err) ∨ ∃ a, Lists s arg a := by
  unfold netList
  rcases arg with _ | ⟨type, rest⟩
  · exact .inl ⟨_, rfl⟩
  dsimp only
  by_cases hups : strcasecmp type "UPS".toList = .eq
  · exact .inr ⟨_, .ups hups rest⟩
  rw [if_neg hups]
  rcases rest with _ | ⟨upsname, rest⟩
  · exact .inl ⟨_, rfl⟩
  dsimp only
  by_cases hvar : strcasecmp type "VAR".toList = .eq
  · rw [if_pos hvar, listVar]
    rcases withUps_cases w s client.sockFd upsname _ with ⟨ups, hups, havail, -⟩ | ⟨herr, -⟩
    · exact .inr ⟨_, .var hvar hups havail rest⟩
    · exact .inl herr
  rw [if_neg hvar]
  by_cases hrw : strcasecmp type "RW".toList = .eq
  · rw [if_pos hrw, listRw]
    rcases withUps_cases w s client.sockFd upsname _ with ⟨ups, hups, havail, -⟩ | ⟨herr, -⟩
    · exact .inr ⟨_, .rw hrw hups havail rest⟩
    · exact .inl herr
  rw [if_neg hrw]
  by_cases hcmd : strcasecmp type "CMD".toList = .eq
  · rw [if_pos hcmd, listCmd]
    rcases withUps_cases w s client.sockFd upsname _ with ⟨ups, hups, havail, -⟩ | ⟨herr, -⟩
    · exact .inr ⟨_, .cmd hcmd hups havail rest⟩
    · exact .inl herr
  rw [if_neg hcmd]
  by_cases hclient : strcasecmp type "CLIENT".toList = .eq
  · rw [if_pos hclient, listClients]
    cases hups : getUpsPtr s upsname with
    | none => exact .inl ⟨_, rfl⟩
    | some ups => exact .inr ⟨_, .client hclient hups rest⟩
  rw [if_neg hclient]
  rcases rest with _ | ⟨var, rest⟩
  · exact .inl ⟨_, rfl⟩
  dsimp only
  by_cases henum : strcasecmp type "ENUM".toList = .eq
  · rw [if_pos henum, listEnum]
    rcases withUps_cases w s client.sockFd upsname _ with ⟨ups, hups, havail, heq⟩ | ⟨herr, -⟩
    · rw [heq]
      cases hnode : sstateGetnode ups var with
      | none => exact .inl ⟨_, rfl⟩
      | some node => exact .inr ⟨_, .enum henum hups havail hnode rest⟩
    · exact .inl herr
  rw [if_neg henum]
  by_cases hrange : strcasecmp type "RANGE".toList = .eq
  · rw [if_pos hrange, listRange]
    rcases withUps_cases w s client.sockFd upsname _ with ⟨ups, hups, havail, heq⟩ | ⟨herr, -⟩
    · rw [heq]
      cases hnode : sstateGetnode ups var with
      | none => exact .inl ⟨_, rfl⟩
      | some node => exact .inr ⟨_, .range hrange hups havail hnode rest⟩
    · exact .inl herr
  rw [if_neg hrange]
  exact .inl ⟨_, rfl⟩

/-! ### What the lists are made of -/

/-- The query of the list is that of the client, up to case. -/
theorem Lists.query (h : Lists s arg a) : Repeated (arg.take a.query.length) a.query := by
  have hself (name : CStr) : strcasecmp name name = .eq := strcasecmp_self name
  cases h with
  | ups htype rest => exact .cons htype .nil
  | var htype hups havail rest => exact .cons htype (.cons (hself _) .nil)
  | rw htype hups havail rest => exact .cons htype (.cons (hself _) .nil)
  | cmd htype hups havail rest => exact .cons htype (.cons (hself _) .nil)
  | client htype hups rest => exact .cons htype (.cons (hself _) .nil)
  | enum htype hups havail hnode rest => exact .cons htype (.cons (hself _) (.cons (hself _) .nil))
  | range htype hups havail hnode rest => exact .cons htype (.cons (hself _) (.cons (hself _) .nil))

/-- The last line names the query, except for a range. -/
theorem Lists.stop_cases (h : Lists s arg a) :
    strcasecmp (arg.headD []) "RANGE".toList ≠ .eq ∧ a.stop = a.query ∨
      strcasecmp (arg.headD []) "RANGE".toList = .eq ∧
        ∃ upsname var, a.query = ["RANGE".toList, upsname, var] ∧ a.stop = ["ENUM".toList, upsname, var] := by
  cases h with
  | ups htype rest => exact .inl ⟨strcasecmp_ne htype (by decide), rfl⟩
  | var htype hups havail rest => exact .inl ⟨strcasecmp_ne htype (by decide), rfl⟩
  | rw htype hups havail rest => exact .inl ⟨strcasecmp_ne htype (by decide), rfl⟩
  | cmd htype hups havail rest => exact .inl ⟨strcasecmp_ne htype (by decide), rfl⟩
  | client htype hups rest => exact .inl ⟨strcasecmp_ne htype (by decide), rfl⟩
  | enum htype hups havail hnode rest => exact .inl ⟨strcasecmp_ne htype (by decide), rfl⟩
  | range htype hups havail hnode rest => exact .inr ⟨htype, _, _, rfl, rfl⟩

/-- The line begins with the words of the query, up to the case of the names. -/
def Begins (a : ListAnswer) (line : CStr) : Prop :=
  ∃ names more, Repeated a.names names ∧ line = spaced (a.type :: names) ++ more

/-- Every item begins with the words of the query. -/
theorem Lists.begins (h : Lists s arg a) : ∀ line ∈ a.items, Begins a line := by
  have hself (name : CStr) : strcasecmp name name = .eq := strcasecmp_self name
  have hone (name : CStr) : Repeated [name] [name] := .cons (hself name) .nil
  have htwo (name name' : CStr) : Repeated [name, name'] [name, name'] := .cons (hself name) (hone name')
  intro line hline
  cases h with
  | ups htype rest =>
    obtain ⟨utmp, -, rfl⟩ := List.mem_map.1 hline
    exact ⟨[], _, .nil, rfl⟩
  | @var type upsname ups htype hups havail rest =>
    obtain ⟨node, -, rfl⟩ := List.mem_map.1 hline
    refine ⟨[upsname], spaced [node.var] ++ quoted (servedVal ups.fsd node.var node.val), hone upsname, ?_⟩
    simp [valueItem, spaced]
  | @rw type upsname ups htype hups havail rest =>
    obtain ⟨node, -, rfl⟩ := List.mem_map.1 hline
    refine ⟨[upsname], spaced [node.var] ++ quoted node.val, hone upsname, ?_⟩
    simp [valueItem, spaced]
  | @cmd type upsname ups htype hups havail rest =>
    obtain ⟨name, -, rfl⟩ := List.mem_map.1 hline
    exact ⟨[upsname], name, hone upsname, rfl⟩
  | @client type upsname ups htype hups rest =>
    obtain ⟨c, -, hc⟩ := List.mem_filterMap.1 hline
    unfold clientItem at hc
    rcases hlogin : c.loginups with _ | loginups
    · rw [hlogin] at hc
      exact absurd hc (by simp)
    · rw [hlogin] at hc
      dsimp only at hc
      split_ifs at hc with hname
      have hfound : strcasecmp ups.name upsname = .eq := by simpa using List.find?_some hups
      have hnames : strcasecmp upsname loginups = .eq := by
        rw [strcasecmp_eq] at hname hfound ⊢
        exact hfound.symm.trans hname.symm
      exact ⟨[loginups], c.addr, .cons hnames .nil, (Option.some.inj hc).symm⟩
  | @enum type upsname var ups node htype hups havail hnode rest =>
    obtain ⟨val, -, rfl⟩ := List.mem_map.1 hline
    exact ⟨[upsname, var], quoted val, htwo upsname var, rfl⟩
  | @range type upsname var ups node htype hups havail hnode rest =>
    obtain ⟨r, -, rfl⟩ := List.mem_map.1 hline
    refine ⟨[upsname, var], quoted (formatInt r.min) ++ " ".toList ++ quoted (formatInt r.max), htwo upsname var, ?_⟩
    simp [valueItem]

theorem opening_of {type : CStr} (hword : IsWord type) (hend : type ≠ "END".toList) (hlen : 2 ≤ type.length)
    (herr : type.take 2 ≠ "ER".toList) : Opening type where
  word := hword
  notEnd := hend
  notErr := by
    intro s
    rw [upscliErrcheck, if_neg]
    intro h
    have htake : "ERR".toList.take 2 = (type ++ ' ' :: s).take 2 := by
      obtain ⟨t, ht⟩ := h
      rw [← ht]
      rfl
    rw [List.take_append_of_le_length hlen] at htake
    exact herr htake.symm

/-- The types of the lists. -/
def listTypes : List CStr :=
  ["UPS".toList, "VAR".toList, "RW".toList, "CMD".toList, "CLIENT".toList, "ENUM".toList, "RANGE".toList]

theorem Lists.type (h : Lists s arg a) : a.type ∈ listTypes ∧ a.names.length ≤ 2 := by
  cases h <;> simp [listTypes]

theorem Lists.opening (h : Lists s arg a) : Opening a.type := by
  have hall : ∀ type ∈ listTypes,
      IsWord type ∧ type ≠ "END".toList ∧ 2 ≤ type.length ∧ type.take 2 ≠ "ER".toList := by decide
  obtain ⟨hword, hend, hlen, herr⟩ := hall a.type h.type.1
  exact opening_of hword hend hlen herr

end Send

/-! ### The first line and the last -/

/-- Exactly these buffers are sent to the client. -/
def Sends (s s' : Upsd) (fd : Nat) (bufs : List CStr) : Prop :=
  ∃ client client', s.client fd = some client ∧ s'.client fd = some client' ∧ client'.sent = client.sent ++ bufs

section

variable {w : Writes} {s : Upsd} {client c : NutCtype} {arg : List CStr} {a : ListAnswer}

theorem sends_told_iff {fd : Nat} (hclient : s.client fd = some c) (bufs bufs' : List CStr) (lost : Bool) :
    Sends s (s.told fd bufs lost) fd bufs' ↔ bufs' = bufs := by
  have htold := client_told s fd bufs lost
  rw [hclient, Option.map_some] at htold
  constructor
  · rintro ⟨c', c'', hc, hc', hsent⟩
    rw [hclient] at hc
    rw [htold] at hc'
    rw [← Option.some.inj hc, ← Option.some.inj hc'] at hsent
    exact (List.append_cancel_left hsent).symm
  · rintro rfl
    exact ⟨c, _, hclient, htold, rfl⟩

/-- A line is sent whole if it fits the buffer of `sendback`. -/
theorem answer_line_iff (line : CStr) : answer (line ++ ['\n']) = line ++ ['\n'] ↔ line.length < nutNetAnswerMax := by
  rw [answer, snprintf, List.take_eq_self_iff, List.length_append, List.length_singleton, Nat.add_sub_cancel]
  exact Nat.succ_le_iff

/-- Lines that fit the client's buffer are sent whole. -/
theorem flatten_answers {lines : List CStr} (hlines : ∀ line ∈ lines, WholeLine line) :
    (lines.map fun line => answer (line ++ ['\n'])).flatten = wire lines := by
  rw [wire, List.flatMap_def]
  refine congrArg List.flatten (List.map_congr_left fun line hline => (answer_line_iff line).2 ?_)
  have hfits := (hlines line hline).fits
  unfold upscliNetbufLen at hfits
  unfold nutNetAnswerMax smallbuf
  omega

/-- If no write fails, the list is sent to its end, each line as far as the buffer has room. -/
theorem Lists.told (h : Lists s arg a) (hclient : s.client client.sockFd = some c)
    (hw : ∀ n, w.client client.sockFd n = true) :
    netList w s client arg =
      s.told client.sockFd (a.lines.map fun line => answer (line ++ ['\n'])) false := by
  rw [h.sent, sendEach_all w s client.sockFd hclient fun k _ => hw _, List.map_map]
  rfl

/-- The last line of a list that is not that of a range names its query. -/
theorem Lists.lines_eq (h : Lists s arg a) (hrange : strcasecmp (arg.headD []) "RANGE".toList ≠ .eq) : a.lines = a.bracketed := by
  rcases h.stop_cases with ⟨-, hstop⟩ | ⟨heq, -⟩
  · rw [ListAnswer.lines, ListAnswer.bracketed, hstop]
  · exact absurd heq hrange

/-- The lines that are sent are those with one query in the first and the last. -/
theorem Lists.whole_iff (h : Lists s arg a) :
    (a.bracketed.map (· ++ ['\n']) = a.lines.map fun line => answer (line ++ ['\n'])) ↔
      strcasecmp (arg.headD []) "RANGE".toList ≠ .eq ∧ ∀ line ∈ a.bracketed, line.length < nutNetAnswerMax := by
  by_cases hrange : strcasecmp (arg.headD []) "RANGE".toList = .eq
  · obtain ⟨upsname, var, hquery, hstop⟩ := (h.stop_cases.resolve_left fun h => h.1 hrange).2
    refine iff_of_false (fun heq => ?_) fun hall => hall.1 hrange
    -- the last lines differ after `END LIST`
    rw [ListAnswer.bracketed, ListAnswer.lines, listLines, listLines, List.map_append, List.map_append, hquery, hstop,
      unwords_three, unwords_three] at heq
    have hlast := (List.cons.inj (List.append_inj' heq (by simp)).2).1
    have hchar := congrArg (fun text => text[9]?) hlast
    simp [answer, snprintf, nutNetAnswerMax, smallbuf] at hchar
  · rw [h.lines_eq hrange, List.map_inj_left, and_iff_right hrange]
    refine forall₂_congr fun line _ => ?_
    rw [eq_comm, answer_line_iff]

/-- A list is no error. -/
theorem Lists.not_error (h : Lists s arg a) (hclient : s.client client.sockFd = some c)
    (hw : ∀ n, w.client client.sockFd n = true) : ¬∃ err, netList w s client arg = sendErr w s client.sockFd err := by
  rintro ⟨err, herr⟩
  have hone : Sends s (sendErr w s client.sockFd err) client.sockFd [answer (errText err)] := by
    rw [sendErr, sendback_eq]
    exact (sends_told_iff hclient _ _ _).2 rfl
  rw [← herr, h.told hclient hw] at hone
  have hlen := congrArg List.length ((sends_told_iff hclient _ _ _).1 hone)
  simp [ListAnswer.lines, listLines] at hlen

/-- A client whose query is that of the list is given the items, and stops at the last line: what comes after it is left. -/
theorem Lists.read (h : Lists s arg a) {ups : Upsconn} (hidle : ups.Idle) {net : Net} (hwrote : 0 < net.wrote)
    {query : List CStr} (hquery : Repeated query a.query) (hnames : ∀ n ∈ a.names, IsWord n)
    (hlines : ∀ line ∈ a.lines, WholeLine line) {rest : CStr} (hahead : Ahead ups net.reads (wire a.lines ++ rest)) :
    ∃ mid left ups' left', upscliListStart ups net query = some (mid, left, true) ∧
      Iterates query mid left (a.items.map start.finish) ups' left' ∧ ups'.Idle ∧ Ahead ups' left' rest := by
  have hfew := h.type.2
  have hitems : ∀ line ∈ a.items, ItemOf query a.type line := by
    intro line hline
    obtain ⟨names, more, hsame, heq⟩ := h.begins line hline
    refine ⟨names, more, ?_, ?_, ?_, heq⟩
    · intro name hname
      obtain ⟨n, hn, hcase⟩ : ∃ n ∈ a.names, strcasecmp n name = .eq := by
        obtain ⟨i, hi, rfl⟩ := List.getElem_of_mem hname
        have hi' : i < a.names.length := by
          rw [hsame.length_eq]
          exact hi
        exact ⟨a.names[i], List.getElem_mem hi', hsame.get hi' hi⟩
      exact isWord_of_strcasecmp hcase (hnames n hn)
    · have heq := hsame.length_eq
      unfold pconfDefaultArgLimit
      omega
    · obtain ⟨q, qs, hq, hqs, rfl⟩ := List.forall₂_cons_right_iff.1 hquery
      exact .cons hq (Repeated.trans hqs hsame)
  exact list_read hidle hwrote h.opening hnames (by unfold pconfDefaultArgLimit; omega) hquery hitems hlines hahead

/-- A client that asks for the list is given its items from the text, one at a time, and stops at the last line, with what
comes after it still to be read. -/
def ListAnswer.ReadFrom (a : ListAnswer) (text : CStr) : Prop :=
  ∀ (ups : Upsconn) (net : Net) (query : List CStr) (rest : CStr), ups.Idle → 0 < net.wrote → Repeated query a.query →
    Ahead ups net.reads (text ++ rest) → ∃ mid left ups' left', upscliListStart ups net query = some (mid, left, true) ∧
      Iterates query mid left (a.items.map start.finish) ups' left' ∧ Ahead ups' left' rest

/-- The list is sent with the same query in its first and its last line, and a client reads it from what is sent. -/
structure WellBracketed (s s' : Upsd) (fd : Nat) (a : ListAnswer) : Prop where
  sent : Sends s s' fd (a.bracketed.map (· ++ ['\n']))
  read : ∀ bufs, Sends s s' fd bufs → a.ReadFrom bufs.flatten

/-- The names of the query are words to the parser, and each line fits the buffer of the client. -/
structure ListAnswer.Readable (a : ListAnswer) : Prop where
  names : ∀ n ∈ a.names, IsWord n
  lines : ∀ line ∈ a.bracketed, '\n' ∉ line ∧ line.length + 2 ≤ upscliNetbufLen

theorem wire_eq (lines : List CStr) : (lines.map (· ++ ['\n'])).flatten = wire lines := by
  rw [wire, List.flatMap_def]

/-- What a new client reads shows that the list is readable. -/
theorem ListAnswer.ReadFrom.readable (h : a.ReadFrom (wire a.bracketed)) (hnul : ∀ line ∈ a.bracketed, '\x00' ∉ line) :
    a.Readable := by
  have hquery : Repeated a.query a.query := List.forall₂_same.2 fun w _ => strcasecmp_self w
  have hahead : Ahead { Upsconn.connected with readbuf := wire a.bracketed } [] (wire a.bracketed ++ []) :=
    ⟨[], rfl, fun c hc => absurd hc List.not_mem_nil, rfl⟩
  obtain ⟨mid, left, ups', left', hstart, hiter, hrest⟩ := h _ ⟨1, []⟩ a.query [] ⟨rfl, .init⟩ Int.one_pos hquery hahead
  obtain ⟨hwords, hlines⟩ := readable_of_read (List.cons_ne_nil _ _) rfl rfl rfl hnul hstart hiter (List.length_map _) hrest
  exact ⟨fun n hn => hwords n (List.mem_cons_of_mem _ hn), hlines⟩

/-- A query that is not answered by an error is answered by a list for that query whose items begin with its words.  The
list is well bracketed exactly if it is not that of a range and the client can read its query and its lines. -/
theorem lists_bracketed_iff (hclient : s.client client.sockFd = some c) (hw : ∀ n, w.client client.sockFd n = true)
    (hanswer : ¬∃ err, netList w s client arg = sendErr w s client.sockFd err) :
    ∃ a, Lists s arg a ∧ Repeated (arg.take a.query.length) a.query ∧ (∀ line ∈ a.items, Begins a line) ∧
      ((∀ line ∈ a.lines, '\x00' ∉ line) → (WellBracketed s (netList w s client arg) client.sockFd a ↔
        strcasecmp (arg.headD []) "RANGE".toList ≠ .eq ∧ a.Readable)) := by
  obtain ⟨a, h⟩ := (netList_cases w s client arg).resolve_left hanswer
  -- no write fails, so what was sent is known
  have hsends (bufs : List CStr) : Sends s (netList w s client arg) client.sockFd bufs ↔
      bufs = a.lines.map fun line => answer (line ++ ['\n']) := by
    rw [h.told hclient hw, sends_told_iff hclient]
  refine ⟨a, h, h.query, h.begins, fun hnul => ⟨?_, ?_⟩⟩
  · rintro ⟨hsent, hread⟩
    have hrange := (h.whole_iff.1 ((hsends _).1 hsent)).1
    have hclientReads := hread _ hsent
    rw [wire_eq] at hclientReads
    rw [h.lines_eq hrange] at hnul
    exact ⟨hrange, hclientReads.readable hnul⟩
  · rintro ⟨hrange, hnames, hlines⟩
    -- a line that the client can read is not cut by `sendback` either
    have hfits : ∀ line ∈ a.bracketed, line.length < nutNetAnswerMax := by
      intro line hline
      have hlen := (hlines line hline).2
      unfold upscliNetbufLen at hlen
      unfold nutNetAnswerMax smallbuf
      omega
    have hsent := h.whole_iff.2 ⟨hrange, hfits⟩
    refine ⟨(hsends _).2 hsent, ?_⟩
    intro bufs hbufs ups net query rest hidle hwrote hquery hahead
    rw [(hsends bufs).1 hbufs, ← hsent, wire_eq, ← h.lines_eq hrange] at hahead
    have hwhole : ∀ line ∈ a.lines, WholeLine line := by
      intro line hline
      obtain ⟨hnewline, hlen⟩ := hlines line (h.lines_eq hrange ▸ hline)
      exact ⟨hnewline, hnul line hline, hlen⟩
    obtain ⟨mid, left, ups', left', hstart, hiter, -, hleft⟩ := h.read hidle hwrote hquery hnames hwhole hahead
    exact ⟨mid, left, ups', left', hstart, hiter, hleft⟩

end

/-! ### A variable with a range -/

/-- The driver declares a variable with a range, and the client is there. -/
def rangeEvents : List Event :=
  [.driver "u".toList 100 (.data "SETINFO v 1\nADDRANGE v 1 2\n".toList),
    .accept 7 100 "::1".toList]

def rangeServer : Upsd := (oneUpsServer.run rangeEvents).getD oneUpsServer

def rangeClient : NutCtype := (rangeServer.client 7).getD ⟨[], 7, 0, none, none, none, pconfInit, []⟩

def rangeUps : Upstype := rangeServer.firstups.headD (newUps [] [] none)

/-- The line holds no newline and no NUL, and fits. -/
def ReadWhole (line : CStr) : Prop := '\n' ∉ line ∧ '\x00' ∉ line ∧ line.length + 2 ≤ upscliNetbufLen

instance (line : CStr) : Decidable (ReadWhole line) := inferInstanceAs (Decidable (_ ∧ _ ∧ _))

/-- What the daemon knows after these events. -/
private theorem rangeServer_knows : (oneUpsServer.run rangeEvents).isSome = true ∧
    rangeServer.client 7 = some rangeClient ∧ rangeClient.sockFd = 7 ∧
    getUpsPtr rangeServer "u".toList = some rangeUps ∧ rangeUps.Available ∧
    (∀ node ∈ rangeUps.inforoot.walk, ReadWhole
      (valueItem ["VAR".toList, "u".toList, node.var] (servedVal rangeUps.fsd node.var node.val))) ∧
    (sstateGetnode rangeUps "v".toList).map StNode.rangeList = some [⟨1, 2⟩] := by
  decide +kernel

theorem range_run : oneUpsServer.run rangeEvents = some rangeServer := by
  obtain ⟨s, hs⟩ := Option.isSome_iff_exists.1 rangeServer_knows.1
  rw [rangeServer, hs, Option.getD_some]

/-- The list of the variables is well bracketed. -/
theorem lists_bracketed_var : ∃ a, Lists rangeServer ["VAR".toList, "u".toList] a ∧
    WellBracketed rangeServer (netList allWritten rangeServer rangeClient ["VAR".toList, "u".toList]) rangeClient.sockFd a := by
  obtain ⟨-, hclient, hfd, hups, havail, hfits, -⟩ := rangeServer_knows
  rw [← hfd] at hclient
  have hall (n : Nat) : allWritten.client rangeClient.sockFd n = true := rfl
  have hlist := @Lists.var rangeServer "VAR".toList _ _ (by decide) hups havail []
  obtain ⟨a, h, -, -, hwell⟩ := lists_bracketed_iff hclient hall (hlist.not_error hclient hall)
  have hvar : strcasecmp (["VAR".toList, "u".toList].headD []) "RANGE".toList ≠ .eq := by decide
  have hlines : ∀ line ∈ a.bracketed, ReadWhole line := by
    cases h with
    | @var _ _ ups _ hfound _ _ =>
      rw [← Option.some.inj (hups.symm.trans hfound)]
      intro line hline
      simp only [ListAnswer.bracketed, ListAnswer.query, listLines, List.cons_append, List.mem_cons, List.mem_append,
        List.mem_map, List.not_mem_nil, or_false] at hline
      rcases hline with rfl | ⟨node, hnode, rfl⟩ | rfl
      · decide
      · exact hfits node hnode
      · decide
    | ups htype => exact absurd htype (by decide)
    | rw htype => exact absurd htype (by decide)
    | cmd htype => exact absurd htype (by decide)
    | client htype => exact absurd htype (by decide)
  have hnames : ∀ n ∈ a.names, IsWord n := by
    cases h with
    | var => exact fun n hn => List.mem_singleton.1 hn ▸ by decide
    | ups htype => exact absurd htype (by decide)
    | rw htype => exact absurd htype (by decide)
    | cmd htype => exact absurd htype (by decide)
    | client htype => exact absurd htype (by decide)
  have hnul : ∀ line ∈ a.lines, '\x00' ∉ line := by
    rw [h.lines_eq hvar]
    exact fun line hline => (hlines line hline).2.1
  exact ⟨a, h, (hwell hnul).2 ⟨hvar, hnames, fun line hline => ⟨(hlines line hline).1, (hlines line hline).2.2⟩⟩⟩

/-- The list of a range ends as one of values, so no query is both in its first and in its last line. -/
theorem range_ends_as_enum : oneUpsServer.run rangeEvents = some rangeServer ∧
    Sends rangeServer (netList allWritten rangeServer rangeClient ["RANGE".toList, "u".toList, "v".toList])
      rangeClient.sockFd
      ["BEGIN LIST RANGE u v\n".toList, "RANGE u v \"1\" \"2\"\n".toList, "END LIST ENUM u v\n".toList] ∧
    ¬∃ query items,
      Sends rangeServer (netList allWritten rangeServer rangeClient ["RANGE".toList, "u".toList, "v".toList])
        rangeClient.sockFd ((listLines query items query).map (· ++ ['\n'])) := by
  obtain ⟨-, hclient, hfd, hups, havail, -, hranges⟩ := rangeServer_knows
  obtain ⟨node, hnode, hrange⟩ := Option.map_eq_some_iff.1 hranges
  rw [← hfd] at hclient
  have hlist := @Lists.range rangeServer "RANGE".toList _ _ _ _ (by decide) hups havail hnode []
  have htold := @Lists.told allWritten _ _ _ _ _ hlist hclient fun _ => rfl
  have htexts : ["BEGIN LIST RANGE u v\n".toList, "RANGE u v \"1\" \"2\"\n".toList, "END LIST ENUM u v\n".toList] =
      (ListAnswer.lines ⟨"RANGE".toList, ["u".toList, "v".toList],
        node.rangeList.map fun r => valueItem ["RANGE".toList, "u".toList, "v".toList] (formatInt r.min) ++ " ".toList ++
          quoted (formatInt r.max), ["ENUM".toList, "u".toList, "v".toList]⟩).map fun line => answer (line ++ ['\n']) := by
    rw [hrange]
    decide
  refine ⟨range_run, ?_, ?_⟩
  · rw [htold, sends_told_iff hclient]
    exact htexts
  · rintro ⟨query, items, hsends⟩
    rw [htold, sends_told_iff hclient, ← htexts, listLines, List.map_append] at hsends
    -- the query would be both what the first line says and what the last one does
    have hfirst : query ++ ['\n'] = "RANGE u v\n".toList := by
      have hhead := congrArg (fun lines => (lines.headD []).drop 11) hsends
      simpa using hhead
    have hlast : query ++ ['\n'] = "ENUM u v\n".toList := by
      have hends : _ = ["BEGIN LIST RANGE u v\n".toList, "RANGE u v \"1\" \"2\"\n".toList] ++
        ["END LIST ENUM u v\n".toList] := hsends
      have hdrop := congrArg (fun lines => (lines.headD []).drop 9) (List.append_inj' hends rfl).2
      simpa using hdrop
    exact absurd (hfirst.symm.trans hlast) (by decide)

end Nut
