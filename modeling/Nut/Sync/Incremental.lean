import Nut.Sync.Frame
import Nut.Sync.Unescaped

/-!
# Incremental updates

`dstate_setinfo`, `dstate_addenum` and `dstate_delenum` broadcast one line with the value as it was given, while the
dump sends the encoded value, and the server takes escapes back.  So the mirror follows exactly when nothing was
broadcast or when the name is a plain word and the value has no character to escape (`incremental_iff`).
-/

namespace Nut

open ChunkReader Lexer SearchTree

/-- What the trees of a driver and of the server have in common: names, raw values and enumerations. -/
def rawView (n : StNode) : CStr × CStr × List CStr := (n.var, n.raw, n.enumList)

/-- Same variables, same raw values, same enumerations. -/
def SameRaw (s t : StTree) : Prop := Agree nodeKey rawView s t

/-- A connected server between two lines, whose tree agrees with that of the driver. -/
structure Mirrors (d : Dstate) (ups : Upstype) : Prop where
  tree : SameRaw d.dtreeRoot ups.inforoot
  noImmutable : NoImmutable ups.inforoot
  connected : ups.sockFd ≠ none
  idle : AtLineStart ups.sockCtx

/-- However the server reads what the driver wrote between `d` and `d'`, its tree then agrees with that of `d'`. -/
def Followed (fd : Nat) (d d' : Dstate) (ups : Upstype) : Prop :=
  ∀ reads : List (Int × CStr), (∀ r ∈ reads, r.2.length ≤ smallbuf) →
    connOut d' fd = (connOut d fd).map (· ++ (reads.map Prod.snd).flatten) →
    ∃ ups', sstateReads ups reads = some ups' ∧ SameRaw d'.dtreeRoot ups'.inforoot

/-- The calls with a value. -/
inductive ValueOp where
  | setinfo (var value : CStr)
  | addenum (var value : CStr)
  | delenum (var value : CStr)
  deriving DecidableEq

namespace ValueOp

def var : ValueOp → CStr
  | setinfo var _ | addenum var _ | delenum var _ => var

def value : ValueOp → CStr
  | setinfo _ value | addenum _ value | delenum _ value => value

def run (w : Nat → Bool) (d : Dstate) : ValueOp → Dstate
  | setinfo var value => (dstateSetinfo w d var value).1
  | addenum var value => (dstateAddenum w d var value).1
  | delenum var value => (dstateDelenum w d var value).1

/-- The call finds something to change. -/
def changes (t : StTree) : ValueOp → Bool
  | setinfo var value => (stateTreeFind t var).elim true fun n => !keepsValue value n
  | addenum var value => (stateTreeFind t var).elim false fun n => decide (escape value ∉ n.enumList)
  | delenum var value => (stateTreeFind t var).elim false fun n => n.enumList.any (isEnum value)

/-- The value fits the buffers of the driver, also encoded. -/
def ValueFits : ValueOp → Prop
  | setinfo _ value | addenum _ value => (escape value).length < stMaxValueLen
  | delenum _ _ => True

def keyword : ValueOp → CStr
  | setinfo _ _ => "SETINFO".toList
  | addenum _ _ => "ADDENUM".toList
  | delenum _ _ => "DELENUM".toList

def line (op : ValueOp) : CStr :=
  op.keyword ++ " ".toList ++ op.var ++ " \"".toList ++ op.value ++ "\"\n".toList

/-- The change that either side makes to its tree. -/
def tree (t : StTree) : ValueOp → StTree
  | setinfo var value => (stateSetinfo t var value).1
  | addenum var value => (stateAddenum t var value).1
  | delenum var value => (stateDelenum t var value).1

/-- The same call with other arguments. -/
def withArgs (var value : CStr) : ValueOp → ValueOp
  | setinfo _ _ => setinfo var value
  | addenum _ _ => addenum var value
  | delenum _ _ => delenum var value

def message : ValueOp → Message
  | setinfo var value => .setinfo var value
  | addenum var value => .addenum var value
  | delenum var value => .delenum var value

theorem tree_of_not_changes {t : StTree} {op : ValueOp} (hfit : op.ValueFits) (h : op.changes t = false) :
    op.tree t = t := by
  cases op with
  | setinfo var value =>
    simp only [tree, stateSetinfo_fst]
    rcases hf : stateTreeFind t var with _ | n
    · simp [changes, hf] at h
    · have hkeep : keepsValue value n = true := by simpa [changes, hf] using h
      rw [stateTreeFind_eq] at hf
      rw [upsert_of_find_some hf]
      exact modify_eq_self fun a ha => by
        rw [hf] at ha
        rw [← Option.some.inj ha, setRaw_of_keeps hkeep]
  | addenum var value =>
    simp only [tree, stateAddenum_fst, pconfEncode_fits hfit]
    refine modify_eq_self fun a ha => ?_
    rw [← stateTreeFind_eq] at ha
    have hmem : escape value ∈ a.enumList := by simpa [changes, ha] using h
    simp [addEnumTo, stTreeEnumAdd_eq, hmem]
  | delenum var value =>
    simp only [tree, stateDelenum_fst]
    refine modify_eq_self fun a ha => ?_
    rw [← stateTreeFind_eq] at ha
    have hnone : a.enumList.eraseP (isEnum value) = a.enumList := by
      rw [List.eraseP_eq_self_iff]
      simpa [changes, ha] using h
    simp [delEnumFrom, stTreeDelEnum_fst, hnone]

theorem run_eq (w : Nat → Bool) (d : Dstate) {op : ValueOp} (hfit : op.ValueFits) :
    op.run w d = if op.changes d.dtreeRoot then sendToAll w { d with dtreeRoot := op.tree d.dtreeRoot } op.line
      else { d with dtreeRoot := op.tree d.dtreeRoot } := by
  cases op with
  | setinfo var value =>
    have hval : snprintf stMaxValueLen value = value :=
      snprintf_of_lt (Nat.lt_of_le_of_lt (length_le_escape value) hfit)
    simp only [run, dstateSetinfo, hval, stateSetinfo_snd]
    rfl
  | addenum var value =>
    have hval : snprintf stMaxValueLen value = value :=
      snprintf_of_lt (Nat.lt_of_le_of_lt (length_le_escape value) hfit)
    simp only [run, dstateAddenum, hval, stateAddenum_snd, pconfEncode_fits hfit]
    rfl
  | delenum var value =>
    simp only [run, dstateDelenum, stateDelenum_snd]
    rfl

/-! ### The effect on the trees -/

private theorem find_rawView {s t : StTree} (h : SameRaw s t) {var : CStr} {a : StNode} (ha : stateTreeFind s var = some a) :
    ∃ b, stateTreeFind t var = some b ∧ b.var = a.var ∧ b.raw = a.raw ∧ b.enumList = a.enumList := by
  have hk := h (tolower var)
  rw [← stateTreeFind_eq, ← stateTreeFind_eq, ha] at hk
  rcases hb : stateTreeFind t var with _ | b
  · simp [hb] at hk
  · simp only [hb, Option.map_some, Option.some.injEq, rawView, Prod.mk.injEq] at hk
    exact ⟨b, rfl, hk.1.symm, hk.2.1.symm, hk.2.2.symm⟩

private theorem keepsValue_eq_false {value : CStr} {n : StNode} :
    keepsValue value n = false ↔ tolower n.raw ≠ tolower value ∧ n.flags &&& stFlagImmutable = 0 := by
  simp [keepsValue, strcasecmp_eq]

/-- Two trees that agree still do so when the same change is made to both. -/
theorem sameRaw_tree {s t : StTree} (h : SameRaw s t) (ht : NoImmutable t) {op : ValueOp} (hop : op.changes s = true) :
    SameRaw (op.tree s) (op.tree t) := by
  cases op with
  | setinfo var value =>
    simp only [tree, stateSetinfo_fst]
    refine Agree.upsert h (nodeKey_setRaw value) (nodeKey_setRaw value) (nodeKey_newNode var value)
      (nodeKey_newNode var value) ?_
    rw [← stateTreeFind_eq, ← stateTreeFind_eq]
    rcases ha : stateTreeFind s var with _ | a
    · have hb := h (tolower var)
      rw [← stateTreeFind_eq, ← stateTreeFind_eq, ha, Option.map_none, eq_comm, Option.map_eq_none_iff] at hb
      rw [hb]
    · obtain ⟨b, hb, hvar, hraw, henum⟩ := find_rawView h ha
      have hkeep : keepsValue value a = false := by simpa [changes, ha] using hop
      have hkeep' : keepsValue value b = false := by
        rw [keepsValue_eq_false, hraw]
        exact ⟨(keepsValue_eq_false.1 hkeep).1, ht.find (stateTreeFind_eq t var ▸ hb)⟩
      rw [hb]
      simp [rawView, setRaw_raw hkeep, setRaw_raw hkeep', hvar, henum]
  | addenum var value =>
    simp only [tree, stateAddenum_fst]
    refine Agree.modify h (fun a => rfl) (fun a => rfl) fun a b _ _ hview => ?_
    simp only [rawView, Prod.mk.injEq] at hview
    simp [rawView, addEnumTo, hview]
  | delenum var value =>
    simp only [tree, stateDelenum_fst]
    refine Agree.modify h (fun a => rfl) (fun a => rfl) fun a b _ _ hview => ?_
    simp only [rawView, Prod.mk.injEq] at hview
    simp [rawView, delEnumFrom, hview]

/-- The variable of a call after it. -/
private theorem find_tree_self (t : StTree) (op : ValueOp) :
    stateTreeFind (op.tree t) op.var =
      match op with
      | setinfo var value => some ((stateTreeFind t var).elim (newNode var value) (setRaw value))
      | addenum var value => (stateTreeFind t var).map (addEnumTo (pconfEncode value stMaxValueLen))
      | delenum var value => (stateTreeFind t var).map (delEnumFrom value) := by
  cases op with
  | setinfo var value =>
    simp only [tree, ValueOp.var, stateSetinfo_fst, stateTreeFind_eq]
    rw [find_upsert_self (nodeKey_setRaw value) (nodeKey_newNode var value)]
  | addenum var value =>
    simp only [tree, ValueOp.var, stateAddenum_fst, stateTreeFind_eq]
    rw [find_modify_self (nodeKey_addEnumTo _)]
  | delenum var value =>
    simp only [tree, ValueOp.var, stateDelenum_fst, stateTreeFind_eq]
    rw [find_modify_self (nodeKey_delEnumFrom _)]

/-- Other variables after a call. -/
private theorem find_tree_of_ne (t : StTree) (op : ValueOp) {k : CStr} (hk : k ≠ tolower op.var) :
    find nodeKey k (op.tree t) = find nodeKey k t := by
  cases op <;> simp only [ValueOp.var] at hk
  case setinfo var value =>
    rw [tree, stateSetinfo_fst, find_upsert_of_ne (nodeKey_setRaw value) (nodeKey_newNode var value) hk]
  case addenum var value => rw [tree, stateAddenum_fst, find_modify_of_ne (nodeKey_addEnumTo _) hk]
  case delenum var value => rw [tree, stateDelenum_fst, find_modify_of_ne (nodeKey_delEnumFrom _) hk]

/-- A call that finds something to change changes what is seen of its variable. -/
private theorem view_changes {t : StTree} {op : ValueOp} (hfit : op.ValueFits) (hop : op.changes t = true) :
    (stateTreeFind (op.tree t) op.var).map rawView ≠ (stateTreeFind t op.var).map rawView := by
  rw [find_tree_self]
  cases op with
  | setinfo var value =>
    simp only [ValueOp.var]
    rcases ha : stateTreeFind t var with _ | a
    · simp
    · have hkeep : keepsValue value a = false := by simpa [changes, ha] using hop
      have hne := (keepsValue_eq_false.1 hkeep).1
      simp only [Option.elim_some, Option.map_some, ne_eq, Option.some.injEq, rawView, Prod.mk.injEq,
        setRaw_raw hkeep]
      rintro ⟨-, hraw, -⟩
      exact hne (by rw [hraw])
  | addenum var value =>
    simp only [ValueOp.var]
    rcases ha : stateTreeFind t var with _ | a
    · simp [changes, ha] at hop
    · have hmem : escape value ∉ a.enumList := by simpa [changes, ha] using hop
      simp [rawView, addEnumTo, stTreeEnumAdd_eq, pconfEncode_fits hfit, hmem]
  | delenum var value =>
    simp only [ValueOp.var]
    rcases ha : stateTreeFind t var with _ | a
    · simp [changes, ha] at hop
    · have hany : a.enumList.any (isEnum value) = true := by simpa [changes, ha] using hop
      simp only [Option.map_some, ne_eq, Option.some.injEq, rawView, Prod.mk.injEq, delEnumFrom, stTreeDelEnum_fst]
      rintro ⟨-, -, hsame⟩
      rw [List.eraseP_eq_self_iff] at hsame
      obtain ⟨x, hx, hpx⟩ := List.any_eq_true.1 hany
      exact hsame x hx hpx

/-- Deleting the first item that satisfies one of two incompatible conditions gives different lists. -/
private theorem eraseP_ne {α : Type*} {p q : α → Bool} {l : List α} (hpq : ∀ x, p x → ¬q x) (hany : l.any p = true) :
    l.eraseP p ≠ l.eraseP q := by
  intro h
  obtain ⟨x, hx, hpx⟩ := List.any_eq_true.1 hany
  obtain ⟨a, l₁, l₂, -, hpa, hl, hp⟩ := List.exists_of_eraseP hx hpx
  have hcount : (l.eraseP p).countP p + 1 = l.countP p := by
    rw [hp, hl]
    simp [hpa]
    omega
  have hsame : (l.eraseP q).countP p = l.countP p := by
    rcases List.exists_or_eq_self_of_eraseP q l with hq | ⟨b, m₁, m₂, -, hqb, hm, hq⟩
    · rw [hq]
    · have hpb : p b = false := by
        by_contra hb
        exact hpq b (by simpa using hb) hqb
      rw [hq, hm]
      simp [hpb]
  rw [h] at hcount
  omega

/-- If the server gets to the same tree with other arguments, they are the name and, up to its end, the value. -/
private theorem args_of_sameRaw {s t : StTree} (h : SameRaw s t) {op : ValueOp} (hfit : op.ValueFits)
    (hop : op.changes s = true) {a₁ a₂ : CStr} (hs : SameRaw (op.tree s) ((op.withArgs a₁ a₂).tree t)) :
    tolower a₁ = tolower op.var ∧ tolower op.value <+: tolower a₂ := by
  have hk := hs (tolower op.var)
  have hargs : (op.withArgs a₁ a₂).var = a₁ := by cases op <;> rfl
  have hvar : tolower op.var = tolower a₁ := by
    by_contra hne
    refine view_changes hfit hop ?_
    rw [stateTreeFind_eq, stateTreeFind_eq, hk, find_tree_of_ne t _ (by rwa [hargs]), h (tolower op.var)]
  refine ⟨hvar.symm, ?_⟩
  have hfind : ∀ u : StTree, find nodeKey (tolower op.var) u = stateTreeFind u a₁ :=
    fun u => by rw [stateTreeFind_eq, hvar]
  have hself := find_tree_self t (op.withArgs a₁ a₂)
  rw [hargs] at hself
  rw [← stateTreeFind_eq, find_tree_self s op, hfind, hself] at hk
  have hview := h (tolower op.var)
  rw [hfind t, ← stateTreeFind_eq] at hview
  cases op with
  | setinfo var value =>
    simp only [ValueOp.var, ValueOp.value, withArgs] at hk hview ⊢
    rcases ha : stateTreeFind s var with _ | a <;> rcases hb : stateTreeFind t a₁ with _ | b
    · have hraw : var = a₁ ∧ value = a₂ := by simpa [ha, hb, rawView] using hk
      exact congrArg tolower hraw.2 ▸ List.prefix_rfl
    · simp [ha, hb] at hview
    · simp [ha, hb] at hview
    · have hkeep : keepsValue value a = false := by simpa [changes, ha] using hop
      simp only [ha, hb, Option.elim_some, Option.map_some, Option.some.injEq, rawView, Prod.mk.injEq,
        setRaw_raw hkeep] at hk hview
      by_cases hkeep' : keepsValue a₂ b = true
      · -- the server keeps its value, which was not the new one
        rw [setRaw_of_keeps hkeep', ← hview.2.1] at hk
        exact absurd (by rw [hk.2.1]) (keepsValue_eq_false.1 hkeep).1
      · rw [setRaw_raw (by simpa using hkeep')] at hk
        exact congrArg tolower hk.2.1 ▸ List.prefix_rfl
  | addenum var value =>
    simp only [ValueOp.var, ValueOp.value, withArgs] at hk hview ⊢
    rcases ha : stateTreeFind s var with _ | a
    · simp [changes, ha] at hop
    · have hmem : escape value ∉ a.enumList := by simpa [changes, ha] using hop
      rcases hb : stateTreeFind t a₁ with _ | b
      · simp [ha, hb] at hview
      · simp only [ha, hb, Option.map_some, Option.some.injEq, rawView, Prod.mk.injEq] at hk hview
        obtain ⟨k, hk₂, -, -⟩ := pconfEncode_take a₂ (by decide : 2 ≤ stMaxValueLen)
        have henc : escape value = escape (a₂.take k) := by
          have hlists := hk.2.2
          simp only [addEnumTo, stTreeEnumAdd_eq, pconfEncode_fits hfit, if_neg hmem, ← hview.2.2, hk₂] at hlists
          by_cases hmem₂ : escape (a₂.take k) ∈ a.enumList
          · simp [hmem₂] at hlists
          · simpa [hmem₂] using hlists
        rw [escape_injective henc]
        exact (List.take_prefix k a₂).map _
  | delenum var value =>
    simp only [ValueOp.var, ValueOp.value, withArgs] at hk hview ⊢
    rcases ha : stateTreeFind s var with _ | a
    · simp [changes, ha] at hop
    · have hany : a.enumList.any (isEnum value) = true := by simpa [changes, ha] using hop
      rcases hb : stateTreeFind t a₁ with _ | b
      · simp [ha, hb] at hview
      · simp only [ha, hb, Option.map_some, Option.some.injEq, rawView, Prod.mk.injEq, delEnumFrom,
          stTreeDelEnum_fst] at hk hview
        rw [← hview.2.2] at hk
        have heq : tolower value = tolower a₂ := by
          by_contra hne
          refine eraseP_ne (fun x hx hx' => hne ?_) hany hk.2.2
          simp only [isEnum, decide_eq_true_eq, strcasecmp_eq] at hx hx'
          rw [← hx, hx']
        exact heq ▸ List.prefix_rfl

/-! ### What the server reads -/

private theorem parseArgs_keyword (ups : Upstype) (op : ValueOp) {n : Nat} (hn : 3 ≤ n) (a₁ a₂ : CStr) (A : List CStr) :
    parseArgs ups n (op.keyword :: a₁ :: a₂ :: A) =
      some ({ ups with inforoot := (op.withArgs a₁ a₂).tree ups.inforoot }, true) := by
  obtain ⟨m, rfl⟩ := Nat.exists_eq_add_of_le' hn
  cases op <;> rfl

private theorem parseArgs_keyword_short (ups : Upstype) (op : ValueOp) {n : Nat} (hn : n < 3) (A : List CStr) :
    parseArgs ups n (op.keyword :: A) = some (ups, false) := by
  obtain rfl | rfl | rfl : n = 0 ∨ n = 1 ∨ n = 2 := by omega
  all_goals cases op <;> rfl

private theorem keyword_isWord (op : ValueOp) : IsWord op.keyword ∧ '\n' ∉ op.keyword := by
  cases op with
  | setinfo => exact (by decide : IsWord "SETINFO".toList ∧ '\n' ∉ "SETINFO".toList)
  | addenum => exact (by decide : IsWord "ADDENUM".toList ∧ '\n' ∉ "ADDENUM".toList)
  | delenum => exact (by decide : IsWord "DELENUM".toList ∧ '\n' ∉ "DELENUM".toList)

/-- The arguments that the server reads in the line of a call. -/
private theorem reads_line_args {op : ValueOp} {ws : List CStr} (hvar : Kept op.var) (hvalue : Kept op.value)
    (hfit : op.line.length < stSockBufLen) (h : ReadsAs step start op.line start ws) :
    ∃ t, ws = op.keyword :: t ∧ ∀ a₁ a₂, [a₁, a₂] <+: t → tolower a₁ = tolower op.var →
      tolower op.value <+: tolower a₂ → PlainWord op.var ∧ ∀ c ∈ op.value, pconfEscape c = false := by
  have hline : op.line = op.keyword ++ [' '] ++ (op.var ++ (' ' :: '"' :: (op.value ++ ['"', '\n']))) := by
    simp [line]
  have hlen : op.var.length < pconfDefaultWordlenLimit := by
    rw [hline] at hfit
    simp only [List.length_append, List.length_cons, stSockBufLen] at hfit
    unfold pconfDefaultWordlenLimit
    omega
  rw [hline] at h
  obtain ⟨l, hl, hs⟩ := h.split (by simp)
  have hkw := (keyword_isWord op).1
  have hstart : silent step start (op.keyword ++ [' ']) = some ⟨[op.keyword], [], .between⟩ :=
    silent_word [] hkw.1 hkw.2 (by decide)
  rw [hstart, Option.some.injEq] at hl
  subst hl
  obtain ⟨t, rfl⟩ := words_kept hs
  refine ⟨t, rfl, fun a₁ a₂ hpre h₁ h₂ => ?_⟩
  exact plain_of_readsAs hvar hvalue hlen hs (List.cons_prefix_cons.2 ⟨rfl, hpre⟩) h₁ h₂

private theorem newline_notMem {op : ValueOp} (hvar : Kept op.var) (hvalue : Kept op.value) :
    ∃ body, op.line = body ++ ['\n'] ∧ '\n' ∉ body := by
  refine ⟨op.keyword ++ " ".toList ++ op.var ++ " \"".toList ++ op.value ++ "\"".toList, by simp [line], ?_⟩
  have hkw := (keyword_isWord op).2
  have hvar' : '\n' ∉ op.var := fun h => absurd (hvar _ h) (by decide)
  have hvalue' : '\n' ∉ op.value := fun h => absurd (hvalue _ h) (by decide)
  simp [hkw, hvar', hvalue']

end ValueOp

section Incremental

variable {w : Nat → Bool} {d : Dstate} {ups : Upstype} {fd : Nat}

/-- Without a change nothing is sent. -/
private theorem followed_of_not_changes (h : Mirrors d ups) (hfd : (connOut d fd).isSome) {op : ValueOp}
    (hfit : op.ValueFits) (hop : op.changes d.dtreeRoot = false) : Followed fd d (op.run w d) ups := by
  intro reads _ hreads
  have hrun : op.run w d = d := by
    rw [ValueOp.run_eq w d hfit, if_neg (by simp [hop]), ValueOp.tree_of_not_changes hfit hop]
  obtain ⟨out, hout⟩ := Option.isSome_iff_exists.1 hfd
  have hstream : (reads.map Prod.snd).flatten = [] := by
    rw [hrun, hout, Option.map_some, Option.some.injEq] at hreads
    simpa using hreads.symm
  have hrec := Receives.start h.connected h.idle
  rw [← hstream] at hrec
  obtain ⟨ups', hread, hmirror, -, -⟩ := hrec.reads
  have hroot : ups'.inforoot = ups.inforoot := congrArg Mirror.inforoot hmirror
  exact ⟨ups', hread, by rw [hrun, hroot]; exact h.tree⟩

/-- The single line of a plain call has the effect of the call. -/
private theorem followed_of_plain (hw : ∀ n, w n = true) (h : Mirrors d ups) (hfd : (connOut d fd).isSome) {op : ValueOp}
    (hvalue : Kept op.value) (hfit : op.ValueFits) (hline : op.line.length < stSockBufLen)
    (hop : op.changes d.dtreeRoot = true) (hplain : PlainWord op.var ∧ ∀ c ∈ op.value, pconfEscape c = false) :
    Followed fd d (op.run w d) ups := by
  intro reads _ hreads
  obtain ⟨out, hout⟩ := Option.isSome_iff_exists.1 hfd
  have hstream : (reads.map Prod.snd).flatten = op.line := by
    rw [ValueOp.run_eq w d hfit, if_pos hop, connOut_sendToAll hw, snprintf_of_lt hline] at hreads
    have hconn : connOut { d with dtreeRoot := op.tree d.dtreeRoot } fd = connOut d fd := rfl
    rw [hconn, hout, Option.map_some, Option.map_some, Option.some.injEq, List.append_cancel_left_eq] at hreads
    exact hreads.symm
  have hlen : op.var.length ≤ pconfDefaultWordlenLimit ∧ op.value.length ≤ pconfDefaultWordlenLimit := by
    simp only [ValueOp.line, List.length_append, stSockBufLen] at hline
    unfold pconfDefaultWordlenLimit
    omega
  have hvar : IsWord op.var := ⟨hplain.1, hlen.1⟩
  have htext : ReadsAs step start op.line start op.message.words := by
    have hesc : escape op.value = op.value := escape_of_forall hplain.2
    cases op with
    | setinfo var value => have h := reads_setinfo hvar hvalue hlen.2; rw [hesc] at h; exact h
    | addenum var value => have h := reads_addenum hvar hvalue hlen.2; rw [hesc] at h; exact h
    | delenum var value => have h := reads_delenum hvar hvalue hlen.2; rw [hesc] at h; exact h
  have hrec := (Receives.start h.connected h.idle).append htext
  rw [List.nil_append, ← hstream] at hrec
  obtain ⟨ups', hread, hmirror, -, -⟩ := hrec.reads
  refine ⟨ups', hread, ?_⟩
  have hroot : ups'.inforoot = op.tree ups.inforoot := by
    have hmir := congrArg Mirror.inforoot hmirror
    cases op <;> exact hmir
  have htree : (op.run w d).dtreeRoot = op.tree d.dtreeRoot := by
    rw [ValueOp.run_eq w d hfit, if_pos hop, sendToAll_dtreeRoot]
  rw [hroot, htree]
  exact ValueOp.sameRaw_tree h.tree h.noImmutable hop

/-- If the line, read at once, has the effect of the call, its name is plain and its value is not escaped. -/
private theorem plain_of_followed (hw : ∀ n, w n = true) (h : Mirrors d ups) {op : ValueOp} (hvar : Kept op.var) (hvalue : Kept op.value) (hfit : op.ValueFits)
    (hline : op.line.length < stSockBufLen) (hop : op.changes d.dtreeRoot = true)
    (hfollowed : Followed fd d (op.run w d) ups) : PlainWord op.var ∧ ∀ c ∈ op.value, pconfEscape c = false := by
  have hconn : connOut (op.run w d) fd = (connOut d fd).map (· ++ op.line) := by
    rw [ValueOp.run_eq w d hfit, if_pos hop, connOut_sendToAll hw, snprintf_of_lt hline]
    rfl
  obtain ⟨ups', hread, hsame⟩ := hfollowed [(0, op.line)]
    (by simpa using Nat.le_of_lt (Nat.lt_of_lt_of_le hline (by decide))) (by simpa using hconn)
  have htree : (op.run w d).dtreeRoot = op.tree d.dtreeRoot := by
    rw [ValueOp.run_eq w d hfit, if_pos hop, sendToAll_dtreeRoot]
  rw [htree] at hsame
  rw [sstateReads_one] at hread
  -- a server that does nothing falls behind
  have unchanged : ups'.inforoot = ups.inforoot → False := by
    intro hroot
    rw [hroot] at hsame
    refine ValueOp.view_changes hfit hop ?_
    rw [stateTreeFind_eq, stateTreeFind_eq, hsame (tolower op.var), h.tree (tolower op.var)]
  obtain ⟨body, hbody, hnl⟩ := ValueOp.newline_notMem hvar hvalue
  rcases sstateReadline_line h.connected h.idle 0 hnl with ⟨ctx, hctx⟩ | ⟨ws, A, ctx, hws, hctx⟩
  · rw [← hbody, hread, Option.some.injEq] at hctx
    exact (unchanged (by rw [hctx])).elim
  · rw [← hbody] at hws hctx
    obtain ⟨t, rfl, hargs⟩ := ValueOp.reads_line_args hvar hvalue hline hws
    rw [hread, List.cons_append] at hctx
    by_cases hshort : (op.keyword :: t).length < 3
    · simp only [sstateLine, Option.bind_some, ValueOp.parseArgs_keyword_short ups op hshort, Option.map_some,
        Option.some.injEq] at hctx
      exact (unchanged (by rw [hctx]; rfl)).elim
    · obtain ⟨a₁, a₂, t', rfl⟩ : ∃ a₁ a₂ t', t = a₁ :: a₂ :: t' := by
        rcases t with _ | ⟨a₁, _ | ⟨a₂, t'⟩⟩
        · simp at hshort
        · simp at hshort
        · exact ⟨a₁, a₂, t', rfl⟩
      simp only [sstateLine, Option.bind_some, List.cons_append,
        ValueOp.parseArgs_keyword ups op (by simp : 3 ≤ (op.keyword :: a₁ :: a₂ :: t').length), Option.map_some,
        Option.some.injEq, if_true] at hctx
      have hroot : ups'.inforoot = (op.withArgs a₁ a₂).tree ups.inforoot := by rw [hctx]
      rw [hroot] at hsame
      obtain ⟨h₁, h₂⟩ := ValueOp.args_of_sameRaw h.tree hfit hop hsame
      exact hargs a₁ a₂ (List.prefix_append [a₁, a₂] t') h₁ h₂

/-- The mirror follows a call with a name and a value that the parser keeps exactly when the call changes nothing or when the name
is a plain word and the value has no character that the encoder escapes. -/
theorem incremental_iff (hw : ∀ n, w n = true) (h : Mirrors d ups) (hfd : (connOut d fd).isSome) (op : ValueOp)
    (hvar : Kept op.var) (hvalue : Kept op.value) (hfit : op.ValueFits)
    (hline : op.line.length < stSockBufLen) :
    Followed fd d (op.run w d) ups ↔
      (op.changes d.dtreeRoot = true → PlainWord op.var ∧ ∀ c ∈ op.value, pconfEscape c = false) := by
  constructor
  · exact fun hfollowed hop => plain_of_followed hw h hvar hvalue hfit hline hop hfollowed
  · intro hplain
    rcases hop : op.changes d.dtreeRoot with _ | _
    · exact followed_of_not_changes h hfd hfit hop
    · exact followed_of_plain hw h hfd hvalue hfit hline hop (hplain hop)

end Incremental

/-- A server without variables at the other end of descriptor 4. -/
def emptyServer : Upstype := { newUps "apcsmart-ups".toList "ups".toList none with sockFd := some 4 }

private theorem mirrors_empty : Mirrors (sockConnect Dstate.init 4) emptyServer where
  tree := fun _ => rfl
  noImmutable := holds_nil
  connected := by simp [emptyServer]
  idle := atLineStart_pconfInit

/-- A model name with a quote does not get through. -/
theorem incremental_quote_lost :
    ¬∀ (d : Dstate) (ups : Upstype) (fd : Nat) (op : ValueOp), Mirrors d ups → (connOut d fd).isSome →
      Kept op.var → Kept op.value → op.ValueFits → op.line.length < stSockBufLen →
      Followed fd d (op.run (fun _ => true) d) ups := by
  intro h
  have hfollowed := h (sockConnect Dstate.init 4) emptyServer 4 (.setinfo "ups.model".toList "5\" rack".toList)
    mirrors_empty (by decide) (by decide) (by decide) (by show _ < _; decide) (by decide)
  have hplain := plain_of_followed (fun _ => rfl) mirrors_empty (by decide) (by decide) (by show _ < _; decide)
    (by decide) (by decide) hfollowed
  exact absurd hplain (by decide)

theorem incremental_iff_model :
    Followed 4 (sockConnect Dstate.init 4)
      ((ValueOp.setinfo "ups.model".toList "Smart-UPS".toList).run (fun _ => true) (sockConnect Dstate.init 4))
      emptyServer :=
  (incremental_iff (fun _ => rfl) mirrors_empty (by decide) (.setinfo "ups.model".toList "Smart-UPS".toList)
    (by decide) (by decide) (by show _ < _; decide) (by decide)).2 fun _ => by decide

end Nut
