import Mathlib.Data.List.Induction
import Nut.Server.User

/-!
# The sections of `upsd.users`

A line of `upsd.users` belongs to the section of the last header before it.  `user_add` leaves `curr_user` where it
is when the header repeats an earlier one, so the settings below it go to the user of the last header that was new
(`userLoad_loaded`).  Every user has what its own sections say and nothing else exactly where the settings below such a
header repeat what that other user has already (`owned_iff`).
-/

namespace Nut

/-- What a line gives to a user. -/
inductive Setting where
  | password (pw : CStr)
  | instcmd (cmd : CStr)
  | action (act : CStr)
  deriving DecidableEq

/-- The name in a section header. -/
def header : List CStr → Option CStr
  | [] => none
  | arg0 :: _ => if strcasecmp arg0 "user".toList = .eq then none else if '=' ∈ arg0 then none else sectionName arg0

def upsmonSettings (type : CStr) : List Setting :=
  if strcasecmp type "master".toList = .eq then [.action "login".toList, .action "master".toList, .action "fsd".toList]
  else if strcasecmp type "slave".toList = .eq then [.action "login".toList]
  else []

def varSettings (var val : CStr) : List Setting :=
  if strcasecmp var "password".toList = .eq then [.password val]
  else if strcasecmp var "instcmds".toList = .eq then [.instcmd val]
  else if strcasecmp var "actions".toList = .eq then [.action val]
  else if strcasecmp var "allowfrom".toList = .eq then []
  else if strcasecmp var "upsmon".toList = .eq then upsmonSettings val
  else []

/-- The settings of a line, in order; a header has none. -/
def settings : List CStr → List Setting
  | [] => []
  | arg0 :: rest =>
    if strcasecmp arg0 "user".toList = .eq then []
    else if '=' ∈ arg0 then
      ((arg0.dropWhile (· ≠ '=')).tail :: rest).flatMap (varSettings (arg0.takeWhile (· ≠ '=')))
    else if (sectionName arg0).isSome then []
    else
      match rest with
      | [] => []
      | [arg1] => if strcasecmp arg0 "upsmon".toList = .eq then upsmonSettings arg1 else []
      | arg1 :: arg2 :: rest =>
        (if strcasecmp arg0 "upsmon".toList = .eq then upsmonSettings arg1 else []) ++
          if arg1 = "=".toList then (arg2 :: rest).flatMap (varSettings arg0) else []

/-- The section of a line that follows `lines`. -/
def sectionOf (lines : List (List CStr)) : Option CStr :=
  lines.foldl (fun un line => (header line).elim un some) none

/-- The names of the headers, each where it comes first. -/
def headers (lines : List (List CStr)) : List CStr :=
  lines.foldl (fun names line => (header line).elim names fun un => if un ∈ names then names else names ++ [un]) []

/-- The name in the last header that was new. -/
def lastNew (lines : List (List CStr)) : Option CStr := (headers lines).getLast?

/-- A line gives the setting where `who` says that the lines before it end in the part of the user `un`. -/
def Under (who : List (List CStr) → Option CStr) (un : CStr) (lines : List (List CStr)) (x : Setting) : Prop :=
  ∃ pre line post, lines = pre ++ line :: post ∧ header line = none ∧ who pre = some un ∧ x ∈ settings line

/-- The setting is in a section of the user. -/
def WrittenIn : CStr → List (List CStr) → Setting → Prop := Under sectionOf

/-- The setting is below the header of the user, with no new header between. -/
def GivenTo : CStr → List (List CStr) → Setting → Prop := Under lastNew

def UserState.entry (s : UserState) (un : CStr) : Option Ulist := s.users.find? fun u => u.username = un

/-- The password and the privileges of an entry. -/
def Ulist.rights (u : Ulist) : Option CStr × (CStr → Bool) × (CStr → Bool) :=
  (u.password, userMatchaction u, userMatchinstcmd u)

/-- What the checks honour for a user is in a section of that user, and a line in no section of a user leaves the
rights of that user as they are. -/
structure Owned (lines : List (List CStr)) : Prop where
  action : ∀ un pw act, userCheckaction (userLoad lines).users (some un) (some pw) act = true →
    WrittenIn un lines (.password pw) ∧ ∃ a, strcasecmp a act = .eq ∧ WrittenIn un lines (.action a)
  instcmd : ∀ un pw cmd, userCheckinstcmd (userLoad lines).users (some un) (some pw) cmd = true →
    WrittenIn un lines (.password pw) ∧
      ∃ c, (strcasecmp c cmd = .eq ∨ strcasecmp c "all".toList = .eq) ∧ WrittenIn un lines (.instcmd c)
  others : ∀ pre line post, lines = pre ++ line :: post → header line = none → ∀ un, sectionOf pre ≠ some un →
    ((userLoad (pre ++ [line])).entry un).map Ulist.rights = ((userLoad pre).entry un).map Ulist.rights

/-- A setting of that kind was given before. -/
def Repeats (un : CStr) (lines : List (List CStr)) : Setting → Prop
  | .password _ => ∃ pw, GivenTo un lines (.password pw)
  | .instcmd cmd => ∃ c, (strcasecmp c cmd = .eq ∨ strcasecmp c "all".toList = .eq) ∧ GivenTo un lines (.instcmd c)
  | .action act => ∃ a, strcasecmp a act = .eq ∧ GivenTo un lines (.action a)

/-- Below a repeated header of another user, the settings only repeat what the user of the last new header has. -/
def RepeatsBelow (lines : List (List CStr)) : Prop :=
  ∀ pre line post un, lines = pre ++ line :: post → header line = none → lastNew pre = some un →
    sectionOf pre ≠ some un → ∀ x ∈ settings line, Repeats un pre x

/-! ### A line is its settings -/

/-- The setting given to `curr_user`. -/
def UserState.set (s : UserState) : Setting → UserState
  | .password pw => userPassword s pw
  | .instcmd cmd => userAddInstcmd s cmd
  | .action act => userAddAction s act

private theorem setUpsmonType_eq (s : UserState) (type : CStr) :
    setUpsmonType s type = (upsmonSettings type).foldl UserState.set s := by
  unfold setUpsmonType upsmonSettings
  split_ifs <;> rfl

private theorem parseVar_eq (s : UserState) (var val : CStr) :
    parseVar s var val = (varSettings var val).foldl UserState.set s := by
  unfold parseVar varSettings
  split_ifs
  · rfl
  · rfl
  · rfl
  · rfl
  · exact setUpsmonType_eq s val
  · rfl

private theorem set_none {s : UserState} (h : s.currUser = none) (x : Setting) : s.set x = s := by
  cases x <;> simp only [UserState.set, userPassword, userAddInstcmd, userAddAction, UserState.modifyCurr, h]

private theorem foldl_set_none {s : UserState} (h : s.currUser = none) (xs : List Setting) :
    xs.foldl UserState.set s = s := by
  induction xs with
  | nil => rfl
  | cons x xs ih => rw [List.foldl_cons, set_none h, ih]

private theorem foldl_parseVar (var : CStr) (vals : List CStr) (s : UserState) :
    vals.foldl (fun s val => parseVar s var val) s = (vals.flatMap (varSettings var)).foldl UserState.set s := by
  induction vals generalizing s with
  | nil => rfl
  | cons val vals ih => rw [List.foldl_cons, List.flatMap_cons, List.foldl_append, ← parseVar_eq, ih]

private theorem parseRest_eq (s : UserState) (var fval : CStr) (rest : List CStr) :
    parseRest s var fval rest = ((fval :: rest).flatMap (varSettings var)).foldl UserState.set s := by
  unfold parseRest
  split
  · rename_i hnone
    exact (foldl_set_none hnone _).symm
  · exact foldl_parseVar var (fval :: rest) s

/-- A header line adds a user. -/
theorem userParseArg_of_header {line : List CStr} {un : CStr} (h : header line = some un) (s : UserState) :
    userParseArg s line = userAdd s un := by
  rcases line with _ | ⟨arg0, rest⟩
  · simp [header] at h
  · simp only [header] at h
    split_ifs at h with h1 h2
    simp only [userParseArg, if_neg h1, if_neg h2, h]

private theorem upsmonLine_eq (s : UserState) (arg0 arg1 : CStr) :
    (if strcasecmp arg0 "upsmon".toList = .eq then setUpsmonType s arg1 else s) =
      (if strcasecmp arg0 "upsmon".toList = .eq then upsmonSettings arg1 else []).foldl UserState.set s := by
  split
  · exact setUpsmonType_eq s arg1
  · rfl

/-- Any other line gives its settings to `curr_user`. -/
theorem userParseArg_of_settings {line : List CStr} (h : header line = none) (s : UserState) :
    userParseArg s line = (settings line).foldl UserState.set s := by
  rcases line with _ | ⟨arg0, rest⟩
  · rfl
  · by_cases h1 : strcasecmp arg0 "user".toList = .eq
    · simp only [userParseArg, settings, if_pos h1, List.foldl_nil]
    by_cases h2 : '=' ∈ arg0
    · simp only [userParseArg, settings, if_neg h1, if_pos h2]
      exact parseRest_eq s _ _ _
    · simp only [header, if_neg h1, if_neg h2] at h
      simp only [userParseArg, settings, if_neg h1, if_neg h2, h, Option.isSome_none, Bool.false_eq_true, if_false]
      rcases rest with _ | ⟨arg1, _ | ⟨arg2, rest⟩⟩
      · rfl
      · exact upsmonLine_eq s arg0 arg1
      · simp only [List.foldl_append, ← upsmonLine_eq]
        split
        · exact parseRest_eq _ _ _ _
        · rfl

/-! ### The entry of a user -/

/-- The setting in an entry. -/
def Ulist.set (u : Ulist) : Setting → Ulist
  | .password pw => if u.password.isSome then u else { u with password := some pw }
  | .instcmd cmd =>
    if u.firstcmd.any fun tmp => strcasecmp tmp cmd = .eq then u else { u with firstcmd := u.firstcmd ++ [cmd] }
  | .action act => { u with firstaction := u.firstaction ++ [act] }

/-- The entry made of some settings. -/
def entryOf (un : CStr) (xs : List Setting) : Ulist := xs.foldl Ulist.set ⟨un, none, [], []⟩

@[simp] theorem set_username (u : Ulist) (x : Setting) : (u.set x).username = u.username := by
  cases x <;> simp only [Ulist.set] <;> split <;> rfl

@[simp] theorem foldl_set_username (xs : List Setting) (u : Ulist) : (xs.foldl Ulist.set u).username = u.username := by
  induction xs generalizing u with
  | nil => rfl
  | cons x xs ih => rw [List.foldl_cons, ih, set_username]

/-- The password of a setting. -/
def Setting.pw : Setting → Option CStr
  | .password pw => some pw
  | _ => none

@[simp] theorem pw_eq_some {x : Setting} {pw : CStr} : x.pw = some pw ↔ x = .password pw := by
  cases x <;> simp [Setting.pw]

/-- The rights of an entry after one more setting. -/
theorem set_password (u : Ulist) (x : Setting) : (u.set x).password = u.password.or x.pw := by
  cases x with
  | password p => cases hp : u.password <;> simp [Ulist.set, Setting.pw, hp]
  | instcmd c => simp only [Ulist.set]; split <;> simp [Setting.pw]
  | action a => simp [Ulist.set, Setting.pw]

theorem set_matchaction (u : Ulist) (x : Setting) (act : CStr) :
    userMatchaction (u.set x) act = true ↔
      userMatchaction u act = true ∨ ∃ a, strcasecmp a act = .eq ∧ x = .action a := by
  cases x with
  | password p => simp only [Ulist.set]; split <;> simp [userMatchaction]
  | instcmd c => simp only [Ulist.set]; split <;> simp [userMatchaction]
  | action a => simp [Ulist.set, userMatchaction]

theorem set_matchinstcmd (u : Ulist) (x : Setting) (cmd : CStr) :
    userMatchinstcmd (u.set x) cmd = true ↔ userMatchinstcmd u cmd = true ∨
      ∃ c, (strcasecmp c cmd = .eq ∨ strcasecmp c "all".toList = .eq) ∧ x = .instcmd c := by
  cases x with
  | password p => simp only [Ulist.set]; split <;> simp [userMatchinstcmd]
  | action a => simp [Ulist.set, userMatchinstcmd]
  | instcmd c =>
    simp only [Ulist.set]
    split
    · -- a command that is there already: whatever the new one matches, the old one does
      rename_i hany
      obtain ⟨tmp, htmp, heq⟩ := List.any_eq_true.1 hany
      have heq : tolower tmp = tolower c := strcasecmp_eq.1 (of_decide_eq_true heq)
      refine ⟨Or.inl, Or.rec id ?_⟩
      rintro ⟨c', hc', hx⟩
      obtain rfl : c = c' := by simpa using hx
      refine List.any_eq_true.2 ⟨tmp, htmp, decide_eq_true ?_⟩
      simpa only [strcasecmp_eq, heq] using hc'
    · simp [userMatchinstcmd]

theorem foldl_set_password (xs : List Setting) (u : Ulist) :
    (xs.foldl Ulist.set u).password = u.password.or (xs.findSome? Setting.pw) := by
  induction xs generalizing u with
  | nil => simp
  | cons x xs ih =>
    rw [List.foldl_cons, ih, set_password, Option.or_assoc, List.findSome?_cons]
    cases x.pw <;> rfl

private theorem findSome_pw {xs : List Setting} {pw : CStr} (h : xs.findSome? Setting.pw = some pw) :
    .password pw ∈ xs := by
  obtain ⟨x, hx, hpw⟩ := List.exists_of_findSome?_eq_some h
  exact pw_eq_some.1 hpw ▸ hx

theorem foldl_set_matchaction (xs : List Setting) (u : Ulist) (act : CStr) :
    userMatchaction (xs.foldl Ulist.set u) act = true ↔
      userMatchaction u act = true ∨ ∃ a, strcasecmp a act = .eq ∧ .action a ∈ xs := by
  induction xs generalizing u with
  | nil => simp
  | cons x xs ih =>
    rw [List.foldl_cons, ih, set_matchaction, or_assoc, ← exists_or]
    simp only [List.mem_cons, ← and_or_left, eq_comm]

theorem foldl_set_matchinstcmd (xs : List Setting) (u : Ulist) (cmd : CStr) :
    userMatchinstcmd (xs.foldl Ulist.set u) cmd = true ↔ userMatchinstcmd u cmd = true ∨
      ∃ c, (strcasecmp c cmd = .eq ∨ strcasecmp c "all".toList = .eq) ∧ .instcmd c ∈ xs := by
  induction xs generalizing u with
  | nil => simp
  | cons x xs ih =>
    rw [List.foldl_cons, ih, set_matchinstcmd, or_assoc, ← exists_or]
    simp only [List.mem_cons, ← and_or_left, eq_comm]

/-- A setting changes no rights of the entry. -/
def NothingNew (u : Ulist) : Setting → Prop
  | .password _ => u.password ≠ none
  | .instcmd cmd => userMatchinstcmd u cmd = true
  | .action act => userMatchaction u act = true

/-- The rights stay when every setting repeats one, and only then. -/
theorem foldl_set_rights (xs : List Setting) (u : Ulist) :
    (xs.foldl Ulist.set u).rights = u.rights ↔ ∀ x ∈ xs, NothingNew u x := by
  simp only [Ulist.rights, Prod.mk.injEq, funext_iff]
  constructor
  · rintro ⟨hpw, hact, hcmd⟩ x hx
    cases x with
    | password pw =>
      intro hnone
      rw [foldl_set_password, hnone, Option.none_or, List.findSome?_eq_none_iff] at hpw
      exact absurd (hpw _ hx) (by simp [Setting.pw])
    | instcmd cmd =>
      have hafter := (foldl_set_matchinstcmd xs u cmd).2 (.inr ⟨cmd, .inl (strcasecmp_self cmd), hx⟩)
      exact (hcmd cmd).symm.trans hafter
    | action act =>
      have hafter := (foldl_set_matchaction xs u act).2 (.inr ⟨act, strcasecmp_self act, hx⟩)
      exact (hact act).symm.trans hafter
  · intro h
    refine ⟨?_, fun act => ?_, fun cmd => ?_⟩
    · rw [foldl_set_password]
      cases hu : u.password with
      | some pw => rfl
      | none =>
        rw [Option.none_or, Option.eq_none_iff_forall_ne_some]
        intro pw hpw
        exact h _ (findSome_pw hpw) hu
    · rw [Bool.eq_iff_iff, foldl_set_matchaction]
      refine ⟨Or.rec id ?_, .inl⟩
      rintro ⟨a, ha, hx⟩
      have hmatch : userMatchaction u a = true := h _ hx
      simpa only [userMatchaction, strcasecmp_eq, strcasecmp_eq.1 ha] using hmatch
    · rw [Bool.eq_iff_iff, foldl_set_matchinstcmd]
      refine ⟨Or.rec id ?_, .inl⟩
      rintro ⟨c, hc, hx⟩
      have hmatch : userMatchinstcmd u c = true := h _ hx
      obtain ⟨tmp, htmp, heq⟩ := List.any_eq_true.1 hmatch
      refine List.any_eq_true.2 ⟨tmp, htmp, decide_eq_true ?_⟩
      have heq := of_decide_eq_true heq
      simp only [strcasecmp_eq] at heq hc ⊢
      rcases heq with heq | heq
      · rwa [heq]
      · exact .inr heq

/-! ### Reading the file -/

private theorem headers_snoc (lines : List (List CStr)) (line : List CStr) : headers (lines ++ [line]) =
    (header line).elim (headers lines) fun un => if un ∈ headers lines then headers lines else headers lines ++ [un] := by
  rw [headers, List.foldl_append]
  rfl

private theorem userLoad_snoc (lines : List (List CStr)) (line : List CStr) :
    userLoad (lines ++ [line]) = userParseArg (userLoad lines) line := by
  simp only [userLoad, List.foldl_append, List.foldl_cons, List.foldl_nil]

private theorem headers_subset (pre post : List (List CStr)) : headers pre ⊆ headers (pre ++ post) := by
  induction post using List.reverseRecOn with
  | nil => rw [List.append_nil]; exact List.Subset.refl _
  | append_singleton post line ih =>
    rw [← List.append_assoc, headers_snoc]
    cases header line with
    | none => exact ih
    | some un =>
      simp only [Option.elim_some]
      split
      · exact ih
      · exact List.Subset.trans ih (List.subset_append_left _ _)

private theorem mem_headers_of_lastNew {lines : List (List CStr)} {un : CStr} (h : lastNew lines = some un) :
    un ∈ headers lines := List.mem_of_getLast? h

private theorem append_singleton_split {lines pre post : List (List CStr)} {line l : List CStr}
    (h : lines ++ [line] = pre ++ l :: post) : (pre = lines ∧ l = line ∧ post = []) ∨ ∃ post', lines = pre ++ l :: post' := by
  rcases List.eq_nil_or_concat' post with rfl | ⟨post', last, rfl⟩
  · left
    obtain ⟨h1, h2⟩ := List.append_inj' h rfl
    exact ⟨h1.symm, (List.cons.inj h2).1.symm, rfl⟩
  · right
    refine ⟨post', ?_⟩
    rw [← List.cons_append, ← List.append_assoc] at h
    exact (List.append_inj' h rfl).1

/-- What one more line adds. -/
theorem under_snoc {who : List (List CStr) → Option CStr} {un : CStr} {lines : List (List CStr)} {line : List CStr}
    {x : Setting} : Under who un (lines ++ [line]) x ↔
      Under who un lines x ∨ header line = none ∧ who lines = some un ∧ x ∈ settings line := by
  constructor
  · rintro ⟨pre, l, post, he, hh, hw, hx⟩
    rcases append_singleton_split he with ⟨rfl, rfl, rfl⟩ | ⟨post', he⟩
    · exact .inr ⟨hh, hw, hx⟩
    · exact .inl ⟨pre, l, post', he, hh, hw, hx⟩
  · rintro (⟨pre, l, post, rfl, hh, hw, hx⟩ | ⟨hh, hw, hx⟩)
    · exact ⟨pre, l, post ++ [line], by simp, hh, hw, hx⟩
    · exact ⟨lines, line, [], rfl, hh, hw, hx⟩

private theorem mem_headers_of_given {un : CStr} {lines : List (List CStr)} {x : Setting} (h : GivenTo un lines x) :
    un ∈ headers lines := by
  obtain ⟨pre, line, post, rfl, -, hlast, -⟩ := h
  exact headers_subset pre _ (mem_headers_of_lastNew hlast)

private theorem modifyCurr_none {s : UserState} (h : s.currUser = none) (f : Ulist → Ulist) : s.modifyCurr f = s := by
  unfold UserState.modifyCurr
  rw [h]

private theorem modifyCurr_some {s : UserState} {un : CStr} (h : s.currUser = some un) (f : Ulist → Ulist) :
    s.modifyCurr f = ⟨s.users.map fun u => if u.username = un then f u else u, some un⟩ := by
  unfold UserState.modifyCurr
  rw [h]

private theorem modifyCurr_foldl (xs : List Setting) (s : UserState) :
    xs.foldl UserState.set s = s.modifyCurr fun u => xs.foldl Ulist.set u := by
  cases hc : s.currUser with
  | none => rw [foldl_set_none hc, modifyCurr_none hc]
  | some un =>
    rw [modifyCurr_some hc]
    induction xs generalizing s with
    | nil =>
      simp only [List.foldl_nil, ite_self, List.map_id']
      rw [← hc]
    | cons x xs ih =>
      have hset : s.set x = s.modifyCurr fun u => u.set x := by cases x <;> rfl
      rw [List.foldl_cons, hset, modifyCurr_some hc, ih _ rfl, List.map_map]
      congr 1
      refine List.map_congr_left fun u _ => ?_
      by_cases hu : u.username = un <;> simp [hu]

/-- The users after some lines: one for each header, in that order, with the settings given to it. -/
structure UsersLoaded (lines : List (List CStr)) (s : UserState) : Prop where
  names : s.users.map Ulist.username = headers lines
  curr : s.currUser = lastNew lines
  given : ∀ u ∈ s.users, ∃ xs, u = entryOf u.username xs ∧ ∀ x, x ∈ xs ↔ GivenTo u.username lines x

private theorem UsersLoaded.add {lines : List (List CStr)} {s : UserState} (hs : UsersLoaded lines s) {line : List CStr} {un : CStr}
    (h : header line = some un) : UsersLoaded (lines ++ [line]) (userAdd s un) := by
  have hany : (s.users.any fun tmp => tmp.username = un) = true ↔ un ∈ headers lines := by
    simp only [← hs.names, List.any_eq_true, decide_eq_true_eq, List.mem_map]
  have hgiven : ∀ un' x, GivenTo un' (lines ++ [line]) x ↔ GivenTo un' lines x := by
    intro un' x
    simp only [GivenTo, under_snoc, h, reduceCtorEq, false_and, or_false]
  have hheaders := headers_snoc lines line
  simp only [h, Option.elim_some] at hheaders
  unfold userAdd
  by_cases hmem : un ∈ headers lines
  · rw [if_pos (hany.2 hmem)]
    rw [if_pos hmem] at hheaders
    refine ⟨by rw [hs.names, hheaders], by rw [hs.curr, lastNew, lastNew, hheaders], fun u hu => ?_⟩
    simpa only [hgiven] using hs.given u hu
  · rw [if_neg fun hc => hmem (hany.1 hc)]
    rw [if_neg hmem] at hheaders
    refine ⟨by simp [hs.names, hheaders], by simp [lastNew, hheaders], fun u hu => ?_⟩
    simp only [hgiven]
    rcases List.mem_append.1 hu with hu | hu
    · exact hs.given u hu
    · -- nothing was given to a name that no header had
      obtain rfl := List.mem_singleton.1 hu
      exact ⟨[], rfl, fun x => ⟨fun hx => absurd hx List.not_mem_nil, fun hx => absurd (mem_headers_of_given hx) hmem⟩⟩

private theorem UsersLoaded.set {lines : List (List CStr)} {s : UserState} (hs : UsersLoaded lines s) {line : List CStr}
    (h : header line = none) : UsersLoaded (lines ++ [line]) ((settings line).foldl UserState.set s) := by
  have hheaders := headers_snoc lines line
  simp only [h, Option.elim_none] at hheaders
  have hgiven : ∀ un x, GivenTo un (lines ++ [line]) x ↔
      GivenTo un lines x ∨ lastNew lines = some un ∧ x ∈ settings line := by
    intro un x
    simp only [GivenTo, under_snoc, h, true_and]
  rw [modifyCurr_foldl]
  cases hcurr : s.currUser with
  | none =>
    have hlast : lastNew lines = none := hs.curr ▸ hcurr
    rw [modifyCurr_none hcurr]
    refine ⟨by rw [hs.names, hheaders], by rw [hs.curr, lastNew, lastNew, hheaders], fun u hu => ?_⟩
    simpa only [hgiven, hlast, reduceCtorEq, false_and, or_false] using hs.given u hu
  | some cu =>
    have hlast : lastNew lines = some cu := hs.curr ▸ hcurr
    have hname : ∀ u : Ulist, (if u.username = cu then (settings line).foldl Ulist.set u else u).username = u.username := by
      intro u
      split
      · exact foldl_set_username _ _
      · rfl
    rw [modifyCurr_some hcurr]
    refine ⟨?_, by rw [← hlast, lastNew, lastNew, hheaders], fun u' hu' => ?_⟩
    · rw [hheaders, ← hs.names, List.map_map]
      exact List.map_congr_left fun u _ => hname u
    · obtain ⟨u, hu, rfl⟩ := List.mem_map.1 hu'
      obtain ⟨xs, hxs, hmem⟩ := hs.given u hu
      rw [hname]
      by_cases hcu : u.username = cu
      · refine ⟨xs ++ settings line, ?_, fun x => ?_⟩
        · rw [if_pos hcu, entryOf, List.foldl_append]
          exact congrArg (fun v => (settings line).foldl Ulist.set v) hxs
        · rw [List.mem_append, hgiven, hmem, hlast, hcu]
          simp
      · refine ⟨xs, by rw [if_neg hcu]; exact hxs, fun x => ?_⟩
        rw [hgiven, hmem, hlast]
        simp [Ne.symm hcu]

theorem userLoad_loaded (lines : List (List CStr)) : UsersLoaded lines (userLoad lines) := by
  induction lines using List.reverseRecOn with
  | nil => exact ⟨rfl, rfl, fun u hu => absurd hu List.not_mem_nil⟩
  | append_singleton lines line ih =>
    rw [userLoad_snoc]
    cases h : header line with
    | some un => rw [userParseArg_of_header h]; exact ih.add h
    | none => rw [userParseArg_of_settings h]; exact ih.set h

/-! ### Who is given what -/

private theorem entry_mem {s : UserState} {un : CStr} {u : Ulist} (h : s.entry un = some u) :
    u ∈ s.users ∧ u.username = un :=
  ⟨List.mem_of_find?_eq_some h, by simpa using List.find?_some h⟩

/-- The user whose section the program takes a line to be in gets its settings, and no other entry changes. -/
theorem entry_snoc {lines : List (List CStr)} {line : List CStr} (h : header line = none) (un : CStr) :
    (userLoad (lines ++ [line])).entry un = ((userLoad lines).entry un).map fun u =>
      if lastNew lines = some un then (settings line).foldl Ulist.set u else u := by
  have hcurr := (userLoad_loaded lines).curr
  rw [userLoad_snoc, userParseArg_of_settings h, modifyCurr_foldl]
  cases hlast : lastNew lines with
  | none =>
    rw [modifyCurr_none (hcurr.trans hlast)]
    simp
  | some cu =>
    rw [modifyCurr_some (hcurr.trans hlast)]
    simp only [UserState.entry, List.find?_map]
    have hcomp : ((fun u : Ulist => decide (u.username = un)) ∘ fun u =>
        if u.username = cu then (settings line).foldl Ulist.set u else u) = fun u => decide (u.username = un) := by
      funext u
      by_cases hu : u.username = cu <;> simp [hu]
    rw [hcomp]
    cases hfind : (userLoad lines).users.find? fun u => u.username = un with
    | none => rfl
    | some u =>
      obtain rfl : u.username = un := by simpa using List.find?_some hfind
      simp only [Option.map_some, Option.some.injEq, eq_comm]

private theorem nothingNew_iff {lines : List (List CStr)} {u : Ulist} (hu : u ∈ (userLoad lines).users) (x : Setting) :
    NothingNew u x ↔ Repeats u.username lines x := by
  obtain ⟨xs, hxs, hmem⟩ := (userLoad_loaded lines).given u hu
  cases x with
  | password pw =>
    simp only [NothingNew, Repeats, ← hmem]
    rw [hxs, entryOf, foldl_set_password, Option.none_or, ne_eq, List.findSome?_eq_none_iff]
    constructor
    · intro hne
      by_contra hall
      refine hne fun y hy => ?_
      cases hpw : y.pw with
      | none => rfl
      | some pw => exact absurd ⟨pw, pw_eq_some.1 hpw ▸ hy⟩ hall
    · rintro ⟨pw, hpw⟩ hnone
      exact absurd (hnone _ hpw) (by simp [Setting.pw])
  | instcmd cmd =>
    simp only [NothingNew, Repeats, ← hmem]
    rw [hxs, entryOf, foldl_set_matchinstcmd]
    simp [userMatchinstcmd]
  | action act =>
    simp only [NothingNew, Repeats, ← hmem]
    rw [hxs, entryOf, foldl_set_matchaction]
    simp [userMatchaction]

private theorem RepeatsBelow.dropLast {lines : List (List CStr)} {line : List CStr} (h : RepeatsBelow (lines ++ [line])) :
    RepeatsBelow lines := by
  rintro pre l post un rfl
  exact h pre l (post ++ [line]) un (by simp)

/-- All the rights of an entry are from the sections of its user. -/
structure Backed (lines : List (List CStr)) (u : Ulist) : Prop where
  password : ∀ pw, u.password = some pw → WrittenIn u.username lines (.password pw)
  action : ∀ act, userMatchaction u act = true → ∃ a, strcasecmp a act = .eq ∧ WrittenIn u.username lines (.action a)
  instcmd : ∀ cmd, userMatchinstcmd u cmd = true → ∃ c, (strcasecmp c cmd = .eq ∨ strcasecmp c "all".toList = .eq) ∧
    WrittenIn u.username lines (.instcmd c)

private theorem Backed.snoc {lines : List (List CStr)} {u : Ulist} (h : Backed lines u) (line : List CStr) :
    Backed (lines ++ [line]) u := by
  refine ⟨fun pw hpw => under_snoc.2 (.inl (h.password pw hpw)), fun act hact => ?_, fun cmd hcmd => ?_⟩
  · obtain ⟨a, ha, hw⟩ := h.action act hact
    exact ⟨a, ha, under_snoc.2 (.inl hw)⟩
  · obtain ⟨c, hc, hw⟩ := h.instcmd cmd hcmd
    exact ⟨c, hc, under_snoc.2 (.inl hw)⟩

private theorem Backed.of_rights {lines : List (List CStr)} {u v : Ulist} (h : Backed lines u)
    (hname : v.username = u.username) (hrights : v.rights = u.rights) : Backed lines v := by
  simp only [Ulist.rights, Prod.mk.injEq] at hrights
  obtain ⟨hpw, hact, hcmd⟩ := hrights
  constructor
  · rw [hname, hpw]; exact h.password
  · rw [hname, hact]; exact h.action
  · rw [hname, hcmd]; exact h.instcmd

/-- A line in a section of the user. -/
private theorem Backed.set {lines : List (List CStr)} {u : Ulist} (h : Backed lines u) {line : List CStr}
    (hline : header line = none) (hsection : sectionOf lines = some u.username) :
    Backed (lines ++ [line]) ((settings line).foldl Ulist.set u) := by
  have hnew : ∀ x ∈ settings line, WrittenIn u.username (lines ++ [line]) x := fun x hx =>
    under_snoc.2 (.inr ⟨hline, hsection, hx⟩)
  have hold := h.snoc line
  constructor
  · intro pw hpw
    rw [foldl_set_password] at hpw
    rw [foldl_set_username]
    cases hu : u.password with
    | none => exact hnew _ (findSome_pw (by simpa [hu] using hpw))
    | some p =>
      obtain rfl : p = pw := by simpa [hu] using hpw
      exact hold.password p hu
  · intro act hact
    rw [foldl_set_username]
    rcases (foldl_set_matchaction _ _ _).1 hact with hact | ⟨a, ha, hx⟩
    · exact hold.action act hact
    · exact ⟨a, ha, hnew _ hx⟩
  · intro cmd hcmd
    rw [foldl_set_username]
    rcases (foldl_set_matchinstcmd _ _ _).1 hcmd with hcmd | ⟨c, hc, hx⟩
    · exact hold.instcmd cmd hcmd
    · exact ⟨c, hc, hnew _ hx⟩

/-- The rights of a user that a line does not name do not change. -/
private theorem RepeatsBelow.rights_eq {lines : List (List CStr)} {line : List CStr} (h : RepeatsBelow (lines ++ [line]))
    (hline : header line = none) {u : Ulist} (hu : u ∈ (userLoad lines).users)
    (hlast : lastNew lines = some u.username) (hsection : sectionOf lines ≠ some u.username) :
    ((settings line).foldl Ulist.set u).rights = u.rights := by
  rw [foldl_set_rights]
  intro x hx
  exact (nothingNew_iff hu x).2 (h lines line [] u.username (by simp) hline hlast hsection x hx)

private theorem backed_of_repeatsBelow {lines : List (List CStr)} (h : RepeatsBelow lines) :
    ∀ u ∈ (userLoad lines).users, Backed lines u := by
  induction lines using List.reverseRecOn with
  | nil => exact fun u hu => absurd hu List.not_mem_nil
  | append_singleton lines line ih =>
    have ih := ih h.dropLast
    intro v hv
    rw [userLoad_snoc] at hv
    cases hline : header line with
    | some un =>
      rw [userParseArg_of_header hline, userAdd] at hv
      split at hv
      · exact (ih v hv).snoc line
      · rcases List.mem_append.1 hv with hv | hv
        · exact (ih v hv).snoc line
        · obtain rfl := List.mem_singleton.1 hv
          constructor <;> simp [userMatchaction, userMatchinstcmd]
    | none =>
      rw [userParseArg_of_settings hline, modifyCurr_foldl] at hv
      have hcurr := (userLoad_loaded lines).curr
      cases hlast : lastNew lines with
      | none =>
        rw [modifyCurr_none (hcurr.trans hlast)] at hv
        exact (ih v hv).snoc line
      | some cu =>
        rw [modifyCurr_some (hcurr.trans hlast)] at hv
        obtain ⟨u, hu, rfl⟩ := List.mem_map.1 hv
        split
        · rename_i hcu
          by_cases hsection : sectionOf lines = some u.username
          · exact (ih u hu).set hline hsection
          · have hrights := h.rights_eq hline hu (hcu ▸ hlast) hsection
            exact ((ih u hu).snoc line).of_rights (foldl_set_username _ _) hrights
        · exact (ih u hu).snoc line

private theorem userCheck_eq_true {users : List Ulist} {un pw : CStr} {ok : Ulist → Bool}
    (h : userCheck users (some un) (some pw) ok = true) :
    ∃ u ∈ users, u.username = un ∧ u.password = some pw ∧ ok u = true := by
  simp only [userCheck] at h
  split at h
  · simp at h
  · rename_i u hfind
    have hname := List.find?_some hfind
    simp only [Bool.decide_and, Bool.decide_eq_true, Bool.and_eq_true, decide_eq_true_eq] at hname h
    exact ⟨u, List.mem_of_find?_eq_some hfind, hname.2, h⟩

/-- The sections own what is in them exactly when the settings below a repeated header of another user are nothing new
to the user of the last new one. -/
theorem owned_iff (lines : List (List CStr)) : Owned lines ↔ RepeatsBelow lines := by
  constructor
  · rintro h pre line post un he hline hlast hsection x hx
    have hothers := h.others pre line post he hline un hsection
    rw [entry_snoc hline] at hothers
    simp only [hlast, if_true] at hothers
    obtain ⟨v, hv, hname⟩ := List.mem_map.1 ((userLoad_loaded pre).names ▸ mem_headers_of_lastNew hlast)
    cases hentry : (userLoad pre).entry un with
    | none =>
      have hnot := List.find?_eq_none.1 hentry v hv
      simp [hname] at hnot
    | some u =>
      obtain ⟨hu, rfl⟩ := entry_mem hentry
      rw [hentry, Option.map_some, Option.map_some, Option.map_some, Option.some.injEq, foldl_set_rights] at hothers
      exact (nothingNew_iff hu x).1 (hothers x hx)
  · intro h
    constructor
    · intro un pw act hcheck
      obtain ⟨u, hu, rfl, hpw, hact⟩ := userCheck_eq_true hcheck
      exact ⟨(backed_of_repeatsBelow h u hu).password pw hpw, (backed_of_repeatsBelow h u hu).action act hact⟩
    · intro un pw cmd hcheck
      obtain ⟨u, hu, rfl, hpw, hcmd⟩ := userCheck_eq_true hcheck
      exact ⟨(backed_of_repeatsBelow h u hu).password pw hpw, (backed_of_repeatsBelow h u hu).instcmd cmd hcmd⟩
    · rintro pre line post rfl hline un hsection
      rw [entry_snoc hline]
      cases hentry : (userLoad pre).entry un with
      | none => rfl
      | some u =>
        obtain ⟨hu, rfl⟩ := entry_mem hentry
        simp only [Option.map_some, Option.some.injEq]
        split
        · rename_i hlast
          rw [foldl_set_rights]
          intro x hx
          exact (nothingNew_iff hu x).2 (h pre line post u.username rfl hline hlast hsection x hx)
        · rfl

/-- A second section of the first user gives to the second one. -/
theorem repeated_header_not_owned :
    ¬ Owned [["[admin]".toList], ["password".toList, "=".toList, "p".toList], ["[slave]".toList],
      ["password".toList, "=".toList, "q".toList], ["[admin]".toList], ["actions".toList, "=".toList, "SET".toList]] := by
  intro h
  have hothers := h.others
    [["[admin]".toList], ["password".toList, "=".toList, "p".toList], ["[slave]".toList],
      ["password".toList, "=".toList, "q".toList], ["[admin]".toList]] ["actions".toList, "=".toList, "SET".toList] []
    rfl (by decide) "slave".toList (by decide)
  have hset := congrArg (fun r => (r.map fun r => r.2.1 "SET".toList)) hothers
  revert hset
  decide

end Nut
