import Mathlib.Data.List.Forall2
import Nut.Lib.Slots
import Nut.Clients.Upsmon

/-!
# What the clients read of an answer

The answers of `upsd` are parsed into `arglist`, whose slots behind `numargs` are those of earlier answers, or do not
exist.  `upscli_get` compares within the answer; `upscli_list_start` and `upscli_list_next` read on where the answer
ends before the query does, and `get_var` of `upsmon` and `getvar` of `upslog` where it is the query and nothing more
(`answers_within_iff`).
-/

namespace Nut

open SlotReader

def largebuf : Nat := 1024

/-! ### The functions as readers of `arglist` -/

/-- `verify_resp` from the slot `i` on. -/
def verifyRespFrom : List CStr → Nat → SlotReader CStr Bool
  | [], _ => .done true
  | q :: qs, i => .read i fun a => if strcasecmp q a ≠ .eq then .done false else verifyRespFrom qs (i + 1)

/-- `upscli_get` once its answer is parsed. -/
def upscliGetAnswer (query : List CStr) (numargs : Nat) : SlotReader CStr Bool :=
  if numargs < query.length then .done false else verifyRespFrom query 0

/-- `upscli_list_start` once its answer is parsed. -/
def upscliListStartAnswer (query : List CStr) (numargs : Nat) : SlotReader CStr Bool :=
  if numargs < 2 then .done false
  else
    .read 0 fun arg0 =>
      if strcasecmp arg0 "BEGIN".toList ≠ .eq then .done false
      else
        .read 1 fun arg1 => if strcasecmp arg1 "LIST".toList ≠ .eq then .done false else verifyRespFrom query 2

/-- The comparison at the end of `upscli_list_next`. -/
def listNextResp (query : List CStr) : SlotReader CStr ListNext :=
  (verifyRespFrom query 0).bind fun same => .done (if same then .item else .error)

/-- `upscli_list_next` once its answer is parsed. -/
def upscliListNextAnswer (query : List CStr) (numargs : Nat) : SlotReader CStr ListNext :=
  if numargs < 1 then .done .error
  else if 2 ≤ numargs then
    .read 0 fun arg0 =>
      if arg0 = "END".toList then .read 1 fun arg1 => if arg1 = "LIST".toList then .done .done else listNextResp query
      else listNextResp query
  else listNextResp query

/-- `get_var` of `upsmon` from the answer to its query on. -/
def getVarAnswer (query : List CStr) (numargs : Nat) : SlotReader CStr (Option CStr) :=
  (upscliGetAnswer query numargs).bind fun ok =>
    if ok = false then .done none
    else if numargs < query.length then .done none
    else .read query.length fun answer => .done (some (snprintf 512 answer))

/-- `getvar` of `upslog` from the answer to its query on: the new text of `logbuffer`. -/
def getvarAnswer (logbuffer upsname var : CStr) (numargs : Nat) : SlotReader CStr CStr :=
  (upscliGetAnswer ["VAR".toList, upsname, var] numargs).bind fun ok =>
    if ok = false ∨ numargs < 3 then .done (snprintfcat logbuffer largebuf "NA".toList)
    else .read 3 fun answer => .done (snprintfcat logbuffer largebuf answer)

/-- `getvar` of `upslog`; there is no result where a slot is read that does not exist. -/
def getvar (ups : Upsconn) (net : Net) (logbuffer upsname var : CStr) : Option (Upsconn × CStr) :=
  match upscliGet ups net ["VAR".toList, upsname, var] with
  | none => none
  | some (ups, _, false) => some (ups, snprintfcat logbuffer largebuf "NA".toList)
  | some (ups, _, true) =>
    if ups.pcCtx.numargs < 3 then some (ups, snprintfcat logbuffer largebuf "NA".toList)
    else ups.pcCtx.arglist[3]?.map fun answer => (ups, snprintfcat logbuffer largebuf answer)

section

variable {ups mid : Upsconn} {net : Net} {reads rest : List NetRead} {query words slots : List CStr} {tmp : CStr} {n : Nat}

theorem run_verifyRespFrom (query : List CStr) (i : Nat) :
    (verifyRespFrom query i).run slots = verifyResp query (slots.drop i) := by
  induction query generalizing i with
  | nil => rfl
  | cons q qs ih =>
    rw [verifyRespFrom, run]
    by_cases hi : i < slots.length
    · rw [List.getElem?_eq_getElem hi, List.drop_eq_getElem_cons hi, verifyResp]
      simp only
      split_ifs
      · rfl
      · exact ih (i + 1)
    · rw [List.getElem?_eq_none (by omega), List.drop_eq_nil_of_le (by omega), verifyResp]

/-- `upscli_get` is what it does up to the answer, and the reader of the answer. -/
theorem upscliGet_eq (hquery : ¬query.length < 1)
    (hask : upscliAsk ups net (buildCmd upscliNetbufLen "GET".toList query) = (mid, reads, some tmp)) :
    upscliGet ups net query =
      ((upscliGetAnswer query (pconfLine mid.pcCtx tmp).numargs).run (pconfLine mid.pcCtx tmp).arglist).map fun ok =>
        if ok then ({ mid with pcCtx := pconfLine mid.pcCtx tmp }, reads, true)
        else ({ mid with pcCtx := pconfLine mid.pcCtx tmp, upserror := .protocol }, reads, false) := by
  rw [upscliGet, if_neg hquery, hask, upscliGetAnswer]
  simp only
  split_ifs
  · rfl
  · rw [run_verifyRespFrom, List.drop_zero]

theorem upscliListStart_eq (hquery : ¬query.length < 1)
    (hask : upscliAsk ups net (buildCmd upscliNetbufLen "LIST".toList query) = (mid, reads, some tmp))
    (hslots : (pconfLine mid.pcCtx tmp).numargs ≤ (pconfLine mid.pcCtx tmp).arglist.length) :
    upscliListStart ups net query =
      ((upscliListStartAnswer query (pconfLine mid.pcCtx tmp).numargs).run (pconfLine mid.pcCtx tmp).arglist).map fun ok =>
        if ok then ({ mid with pcCtx := pconfLine mid.pcCtx tmp }, reads, true)
        else ({ mid with pcCtx := pconfLine mid.pcCtx tmp, upserror := .protocol }, reads, false) := by
  rw [upscliListStart, if_neg hquery, hask, upscliListStartAnswer]
  simp only
  by_cases hnum : (pconfLine mid.pcCtx tmp).numargs < 2
  · rw [if_pos hnum, if_pos hnum]
    rfl
  · rw [if_neg hnum, if_neg hnum, run_read_getD (by omega) []]
    by_cases h0 : strcasecmp ((pconfLine mid.pcCtx tmp).arglist.getD 0 []) "BEGIN".toList ≠ .eq
    · rw [if_pos (.inl h0), if_pos h0]
      rfl
    · rw [if_neg h0, run_read_getD (by omega) []]
      by_cases h1 : strcasecmp ((pconfLine mid.pcCtx tmp).arglist.getD 1 []) "LIST".toList ≠ .eq
      · rw [if_pos (.inr h1), if_pos h1]
        rfl
      · rw [if_neg (not_or.2 ⟨h0, h1⟩), if_neg h1, run_verifyRespFrom]

theorem run_listNextResp (query : List CStr) :
    (listNextResp query).run slots = (verifyResp query slots).map fun same => if same then .item else .error := by
  rw [listNextResp, run_bind, run_verifyRespFrom, List.drop_zero]
  cases verifyResp query slots <;> rfl

theorem upscliListNext_eq (hread : upscliReadline ups reads upscliNetbufLen = (mid, rest, some tmp))
    (hanswer : upscliErrcheck tmp = none)
    (hslots : (pconfLine mid.pcCtx tmp).numargs ≤ (pconfLine mid.pcCtx tmp).arglist.length) :
    upscliListNext ups reads query =
      ((upscliListNextAnswer query (pconfLine mid.pcCtx tmp).numargs).run (pconfLine mid.pcCtx tmp).arglist).map fun r =>
        (if r = .error then { mid with pcCtx := pconfLine mid.pcCtx tmp, upserror := .protocol }
          else { mid with pcCtx := pconfLine mid.pcCtx tmp }, rest, r) := by
  have hresp : (verifyResp query (pconfLine mid.pcCtx tmp).arglist).map (fun same =>
        if same then ({ mid with pcCtx := pconfLine mid.pcCtx tmp }, rest, ListNext.item)
        else ({ mid with pcCtx := pconfLine mid.pcCtx tmp, upserror := .protocol }, rest, .error)) =
      ((listNextResp query).run (pconfLine mid.pcCtx tmp).arglist).map fun r =>
        (if r = .error then { mid with pcCtx := pconfLine mid.pcCtx tmp, upserror := .protocol }
          else { mid with pcCtx := pconfLine mid.pcCtx tmp }, rest, r) := by
    rw [run_listNextResp]
    rcases verifyResp query (pconfLine mid.pcCtx tmp).arglist with _ | _ | _ <;> rfl
  rw [upscliListNext, hread]
  simp only [hanswer]
  rw [upscliListNextAnswer]
  by_cases hnum : (pconfLine mid.pcCtx tmp).numargs < 1
  · rw [if_pos hnum, if_pos hnum]
    rfl
  · rw [if_neg hnum, if_neg hnum, hresp]
    by_cases htwo : 2 ≤ (pconfLine mid.pcCtx tmp).numargs
    · rw [if_pos htwo, run_read_getD (by omega) []]
      by_cases h0 : (pconfLine mid.pcCtx tmp).arglist.getD 0 [] = "END".toList
      · rw [if_pos h0, run_read_getD (by omega) []]
        by_cases h1 : (pconfLine mid.pcCtx tmp).arglist.getD 1 [] = "LIST".toList
        · rw [if_pos ⟨htwo, h0, h1⟩, if_pos h1]
          rfl
        · rw [if_neg (fun h => h1 h.2.2), if_neg h1]
      · rw [if_neg (fun h => h0 h.2.1), if_neg h0]
    · rw [if_neg (fun h => htwo h.1), if_neg htwo]

theorem upslogGetvar_eq {logbuffer upsname var : CStr}
    (hask : upscliAsk ups net (buildCmd upscliNetbufLen "GET".toList ["VAR".toList, upsname, var]) = (mid, reads, some tmp)) :
    (getvar ups net logbuffer upsname var).map Prod.snd =
      (getvarAnswer logbuffer upsname var (pconfLine mid.pcCtx tmp).numargs).run (pconfLine mid.pcCtx tmp).arglist := by
  rw [getvar, upscliGet_eq (by simp) hask, getvarAnswer, run_bind]
  rcases (upscliGetAnswer ["VAR".toList, upsname, var] (pconfLine mid.pcCtx tmp).numargs).run
      (pconfLine mid.pcCtx tmp).arglist with _ | _ | _
  · rfl
  · rfl
  · by_cases hnum : (pconfLine mid.pcCtx tmp).numargs < 3
    · simp [hnum, run]
    · simp only [Option.map_some, Option.bind_some, if_true, if_neg hnum, Bool.true_eq_false, false_or, run]
      cases (pconfLine mid.pcCtx tmp).arglist[3]? <;> rfl

theorem upsmonGetVar_eq {ups : Upsmon.Utype} {upsname var : CStr} (hname : ups.upsname = some upsname)
    (hquery : query = if var = "numlogins".toList then ["NUMLOGINS".toList, upsname]
      else if var = "status".toList then ["VAR".toList, upsname, "ups.status".toList] else []) (hne : query ≠ [])
    (hask : upscliAsk ups.conn net (buildCmd upscliNetbufLen "GET".toList query) = (mid, reads, some tmp)) :
    (Upsmon.getVar ups net var).map Prod.snd =
      (getVarAnswer query (pconfLine mid.pcCtx tmp).numargs).run (pconfLine mid.pcCtx tmp).arglist := by
  have hlen : ¬query.length < 1 := by
    intro h
    exact hne (List.length_eq_zero_iff.1 (by omega))
  rw [Upsmon.getVar, hname]
  simp only [← hquery]
  rw [if_neg hne, upscliGet_eq hlen hask, getVarAnswer, run_bind]
  rcases (upscliGetAnswer query (pconfLine mid.pcCtx tmp).numargs).run (pconfLine mid.pcCtx tmp).arglist with _ | _ | _
  · rfl
  · rfl
  · by_cases hnum : (pconfLine mid.pcCtx tmp).numargs < query.length
    · simp [hnum, run]
    · simp only [Option.map_some, Option.bind_some, if_true, if_neg hnum, Bool.true_eq_false, if_false, run]
      cases (pconfLine mid.pcCtx tmp).arglist[query.length]? <;> rfl

/-! ### Answers that end too early -/

/-- The words are those of the query, up to case, and end before it does. -/
def CutShort (query words : List CStr) : Prop :=
  words.length < query.length ∧ List.Forall₂ (strcasecmp · · = .eq) (query.take words.length) words

/-- The words are those of the query, up to case, and no more. -/
def Repeated (query words : List CStr) : Prop := List.Forall₂ (strcasecmp · · = .eq) query words

instance (query words : List CStr) : Decidable (CutShort query words) := inferInstanceAs (Decidable (_ ∧ _))

instance (query words : List CStr) : Decidable (Repeated query words) :=
  inferInstanceAs (Decidable (List.Forall₂ _ query words))

theorem verifyResp_none_iff : verifyResp query words = none ↔ CutShort query words := by
  induction query generalizing words with
  | nil => simp [verifyResp, CutShort]
  | cons q qs ih =>
    cases words with
    | nil => simp [verifyResp, CutShort]
    | cons a as =>
      rw [verifyResp, CutShort, List.length_cons, List.length_cons, List.take_succ_cons, List.forall₂_cons]
      by_cases hq : strcasecmp q a ≠ .eq
      · rw [if_pos hq]
        exact iff_of_false (by simp) fun h => hq h.2.1
      · rw [if_neg hq, ih, CutShort, Nat.succ_lt_succ_iff]
        exact ⟨fun h => ⟨h.1, not_not.1 hq, h.2⟩, fun h => ⟨h.1, h.2.2⟩⟩

theorem repeated_iff : Repeated query words ↔ verifyResp query words = some true ∧ words.length = query.length := by
  induction query generalizing words with
  | nil => simp [Repeated, verifyResp, List.forall₂_nil_left_iff]
  | cons q qs ih =>
    cases words with
    | nil => simp [Repeated, verifyResp, List.forall₂_nil_right_iff]
    | cons a as =>
      rw [Repeated, List.forall₂_cons, verifyResp, List.length_cons, List.length_cons, Nat.succ_inj]
      by_cases hq : strcasecmp q a ≠ .eq
      · rw [if_pos hq]
        exact iff_of_false (fun h => hq h.1) (by simp)
      · rw [if_neg hq, ← ih]
        exact ⟨fun h => h.2, fun h => ⟨not_not.1 hq, h⟩⟩

/-- An answer to `LIST` that begins the list and ends before the query does. -/
def ListStartShort (query : List CStr) : List CStr → Prop
  | arg0 :: arg1 :: words =>
    strcasecmp arg0 "BEGIN".toList = .eq ∧ strcasecmp arg1 "LIST".toList = .eq ∧ CutShort query words
  | _ => False

/-- A line of a list that is not its last and ends before the query does. -/
def ListNextShort (query words : List CStr) : Prop :=
  words ≠ [] ∧ words.take 2 ≠ ["END".toList, "LIST".toList] ∧ CutShort query words

theorem upscliGetAnswer_within (query : List CStr) (hn : n ≤ slots.length) : (upscliGetAnswer query n).Within n slots := by
  rw [within_iff hn, upscliGetAnswer]
  split_ifs with hlen
  · rfl
  · rw [run_verifyRespFrom, List.drop_zero, Option.isSome_iff_ne_none, Ne, verifyResp_none_iff]
    intro hshort
    have hwords := hshort.1
    rw [List.length_take] at hwords
    omega

theorem upscliListStartAnswer_within_iff (query : List CStr) (hn : n ≤ slots.length) :
    (upscliListStartAnswer query n).Within n slots ↔ ¬ListStartShort query (slots.take n) := by
  have hlen : (slots.take n).length = n := by rw [List.length_take]; omega
  rw [within_iff hn, upscliListStartAnswer]
  rcases hwords : slots.take n with _ | ⟨arg0, _ | ⟨arg1, words⟩⟩
  · rw [if_pos (by rw [← hlen, hwords]; decide)]
    exact iff_of_true rfl id
  · rw [if_pos (by rw [← hlen, hwords]; simp : n < 2)]
    exact iff_of_true rfl id
  · have htwo : ¬n < 2 := by
      rw [← hlen, hwords, List.length_cons, List.length_cons]
      omega
    rw [if_neg htwo, run_read rfl, ListStartShort]
    by_cases h0 : strcasecmp arg0 "BEGIN".toList ≠ .eq
    · rw [if_pos h0]
      exact iff_of_true rfl fun h => h0 h.1
    · rw [if_neg h0, run_read rfl]
      by_cases h1 : strcasecmp arg1 "LIST".toList ≠ .eq
      · rw [if_pos h1]
        exact iff_of_true rfl fun h => h1 h.2.1
      · rw [if_neg h1, run_verifyRespFrom, Option.isSome_iff_ne_none, Ne, verifyResp_none_iff]
        exact not_congr ⟨fun h => ⟨not_not.1 h0, not_not.1 h1, h⟩, fun h => h.2.2⟩

theorem upscliListNextAnswer_within_iff (query : List CStr) (hn : n ≤ slots.length) :
    (upscliListNextAnswer query n).Within n slots ↔ ¬ListNextShort query (slots.take n) := by
  have hlen : (slots.take n).length = n := by rw [List.length_take]; omega
  have hresp (hne : slots.take n ≠ []) (hlast : (slots.take n).take 2 ≠ ["END".toList, "LIST".toList]) :
      ((listNextResp query).run (slots.take n)).isSome ↔ ¬ListNextShort query (slots.take n) := by
    rw [run_listNextResp, Option.isSome_map, Option.isSome_iff_ne_none, Ne, verifyResp_none_iff, ListNextShort]
    exact not_congr ⟨fun h => ⟨hne, hlast, h⟩, fun h => h.2.2⟩
  rw [within_iff hn, upscliListNextAnswer]
  rcases hwords : slots.take n with _ | ⟨arg0, _ | ⟨arg1, words⟩⟩
  · rw [if_pos (by rw [← hlen, hwords]; decide)]
    exact iff_of_true rfl fun h => h.1 rfl
  · rw [hwords] at hresp hlen
    rw [if_neg (by rw [← hlen]; simp : ¬n < 1), if_neg (by rw [← hlen]; simp : ¬2 ≤ n)]
    exact hresp (List.cons_ne_nil _ _) (by simp)
  · have htwo : 2 ≤ n := by
      rw [← hlen, hwords, List.length_cons, List.length_cons]
      omega
    rw [hwords] at hresp
    rw [if_neg (by omega), if_pos htwo, run_read rfl]
    by_cases h0 : arg0 = "END".toList
    · rw [if_pos h0, run_read rfl]
      by_cases h1 : arg1 = "LIST".toList
      · rw [if_pos h1]
        exact iff_of_true rfl fun h => h.2.1 (by rw [h0, h1]; rfl)
      · rw [if_neg h1]
        exact hresp (List.cons_ne_nil _ _) fun h => h1 (List.cons.inj (List.cons.inj h).2).1
    · rw [if_neg h0]
      exact hresp (List.cons_ne_nil _ _) fun h => h0 (List.cons.inj h).1

/-- The slot behind an answer to the query is read if the answer is the query and no more. -/
theorem consumer_within_iff {ρ : Type*} (r : ρ) (f : CStr → ρ) (query : List CStr) (hn : n ≤ slots.length) :
    ((upscliGetAnswer query n).bind fun ok =>
        if ok = false ∨ n < query.length then .done r else .read query.length fun answer => .done (f answer)).Within n slots ↔
      ¬Repeated query (slots.take n) := by
  have hlen : (slots.take n).length = n := by rw [List.length_take]; omega
  rw [within_iff hn, run_bind, upscliGetAnswer, repeated_iff, hlen]
  by_cases hquery : n < query.length
  · rw [if_pos hquery]
    exact iff_of_true rfl fun h => by omega
  · rw [if_neg hquery, run_verifyRespFrom, List.drop_zero]
    rcases hsame : verifyResp query (slots.take n) with _ | _ | _
    · have hshort := (verifyResp_none_iff.1 hsame).1
      omega
    · exact iff_of_true rfl fun h => by simp at h
    · rw [Option.bind_some, if_neg (by simp [hquery]), run]
      rcases hslot : (slots.take n)[query.length]? with _ | answer
      · have hle := List.getElem?_eq_none_iff.1 hslot
        rw [hlen] at hle
        exact iff_of_false Bool.false_ne_true fun h => h ⟨rfl, by omega⟩
      · obtain ⟨hlt, -⟩ := List.getElem?_eq_some_iff.1 hslot
        rw [hlen] at hlt
        exact iff_of_true rfl fun h => by omega

theorem getVarAnswer_within_iff (query : List CStr) (hn : n ≤ slots.length) :
    (getVarAnswer query n).Within n slots ↔ ¬Repeated query (slots.take n) := by
  have hor : getVarAnswer query n = (upscliGetAnswer query n).bind fun ok =>
      if ok = false ∨ n < query.length then .done none
      else .read query.length fun answer => .done (some (snprintf 512 answer)) := by
    rw [getVarAnswer]
    congr 1
    funext ok
    by_cases hok : ok = false <;> simp [hok]
  rw [hor]
  exact consumer_within_iff none _ query hn

theorem getvarAnswer_within_iff (logbuffer upsname var : CStr) (hn : n ≤ slots.length) :
    (getvarAnswer logbuffer upsname var n).Within n slots ↔ ¬Repeated ["VAR".toList, upsname, var] (slots.take n) :=
  consumer_within_iff _ _ ["VAR".toList, upsname, var] hn

/-- Which answers make which of the functions read an argument that the answer does not have. -/
theorem answers_within_iff {ctx : PconfCtx} (h : BetweenLines ctx) (tmp : CStr) (query : List CStr)
    (logbuffer upsname var : CStr) :
    (upscliGetAnswer query (pconfLine ctx tmp).numargs).Within (pconfLine ctx tmp).numargs (pconfLine ctx tmp).arglist ∧
    ((upscliListStartAnswer query (pconfLine ctx tmp).numargs).Within (pconfLine ctx tmp).numargs
      (pconfLine ctx tmp).arglist ↔ ¬ListStartShort query (pconfLine ctx tmp).args) ∧
    ((upscliListNextAnswer query (pconfLine ctx tmp).numargs).Within (pconfLine ctx tmp).numargs
      (pconfLine ctx tmp).arglist ↔ ¬ListNextShort query (pconfLine ctx tmp).args) ∧
    ((getVarAnswer query (pconfLine ctx tmp).numargs).Within (pconfLine ctx tmp).numargs (pconfLine ctx tmp).arglist ↔
      ¬Repeated query (pconfLine ctx tmp).args) ∧
    ((getvarAnswer logbuffer upsname var (pconfLine ctx tmp).numargs).Within (pconfLine ctx tmp).numargs
      (pconfLine ctx tmp).arglist ↔ ¬Repeated ["VAR".toList, upsname, var] (pconfLine ctx tmp).args) := by
  have hn := (h.line tmp).tidy.1.numargs
  exact ⟨upscliGetAnswer_within query hn, upscliListStartAnswer_within_iff query hn,
    upscliListNextAnswer_within_iff query hn, getVarAnswer_within_iff query hn,
    getvarAnswer_within_iff logbuffer upsname var hn⟩

end

theorem answers_within_first :
    (upscliGetAnswer ["VAR".toList, "ups".toList, "ups.status".toList]
        (pconfLine pconfInit "VAR ups ups.status".toList).numargs).Within
      (pconfLine pconfInit "VAR ups ups.status".toList).numargs (pconfLine pconfInit "VAR ups ups.status".toList).arglist :=
  (answers_within_iff .init "VAR ups ups.status".toList ["VAR".toList, "ups".toList, "ups.status".toList] [] [] []).1

/-- An answer that only begins the list, an item without the name of the UPS, and two answers without their value. -/
theorem answers_cut_short :
    ¬(upscliListStartAnswer ["VAR".toList, "ups".toList] (pconfLine pconfInit "BEGIN LIST".toList).numargs).Within
        (pconfLine pconfInit "BEGIN LIST".toList).numargs (pconfLine pconfInit "BEGIN LIST".toList).arglist ∧
    ¬(upscliListNextAnswer ["VAR".toList, "ups".toList] (pconfLine pconfInit "VAR".toList).numargs).Within
        (pconfLine pconfInit "VAR".toList).numargs (pconfLine pconfInit "VAR".toList).arglist ∧
    ¬(getVarAnswer ["VAR".toList, "ups".toList, "ups.status".toList]
          (pconfLine pconfInit "VAR ups ups.status".toList).numargs).Within
        (pconfLine pconfInit "VAR ups ups.status".toList).numargs (pconfLine pconfInit "VAR ups ups.status".toList).arglist ∧
    ¬(getvarAnswer [] "ups".toList "ups.load".toList (pconfLine pconfInit "VAR ups ups.load".toList).numargs).Within
        (pconfLine pconfInit "VAR ups ups.load".toList).numargs (pconfLine pconfInit "VAR ups ups.load".toList).arglist := by
  unfold Within
  decide +kernel

end Nut
