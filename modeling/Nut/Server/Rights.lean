import Mathlib.Data.List.Induction
import Nut.Server.Moves
import Nut.Server.Sections

/-!
# What a client needs a right for

A command line changes a UPS, or writes to its driver, only if a user of `upsd.users` has the user name and the password
of the client and the right that the command asks for; no command line changes another client (`rights_respected`).
-/

namespace Nut

/-- The user name and the password of the client are those of the user. -/
def Matches (client : NutCtype) (u : Ulist) : Prop :=
  client.username = some u.username ∧ ∃ pw, client.password = some pw ∧ u.password = some pw

/-- A user that the client matches has the right. -/
def Entitled (s : Upsd) (client : NutCtype) (right : Ulist → Bool) : Prop :=
  ∃ u ∈ s.users, Matches client u ∧ right u = true

/-- The right in question, for each command line. -/
def rightFor (args : List CStr) (u : Ulist) : Bool :=
  match args with
  | [] => false
  | arg0 :: arg =>
    if strcasecmp "LOGIN".toList arg0 = .eq then userMatchaction u "LOGIN".toList
    else if strcasecmp "FSD".toList arg0 = .eq then userMatchaction u "FSD".toList
    else if strcasecmp "SET".toList arg0 = .eq then userMatchaction u "SET".toList
    else if strcasecmp "INSTCMD".toList arg0 = .eq then userMatchinstcmd u (arg.getD 1 [])
    else false

/-- The pair of the client matches no user, or one that lacks the right. -/
def Lacks (s : Upsd) (client : NutCtype) (right : Ulist → Bool) : Prop :=
  (∀ u ∈ s.users, ¬Matches client u) ∨ ∃ u ∈ s.users, Matches client u ∧ right u = false

/-- The changes of a record that the client has a right to. -/
structure Allowed (s : Upsd) (client : NutCtype) (ups ups' : Upstype) : Prop where
  sent : ups'.sent = ups.sent ∨ ∃ buf, ups'.sent = ups.sent ++ [buf] ∧
    ((∃ var newval, buf = setLine var newval ∧ Entitled s client fun u => userMatchaction u "SET".toList) ∨
      ∃ cmdname value, buf = instcmdLine cmdname value ∧ Entitled s client fun u => userMatchinstcmd u cmdname)
  fsd : ups'.fsd = ups.fsd ∨ Entitled s client fun u => userMatchaction u "FSD".toList
  numlogins : ups'.numlogins ≤ ups.numlogins ∨ Entitled s client fun u => userMatchaction u "LOGIN".toList

/-! ### Users -/

theorem entitled_of_userCheck {s : Upsd} {client : NutCtype} {right : Ulist → Bool}
    (h : userCheck s.users client.username client.password right = true) : Entitled s client right := by
  unfold userCheck at h
  split at h
  · rename_i un pw hun hpw
    split at h
    · simp at h
    · rename_i u hfind
      have hname := List.find?_some hfind
      simp only [Bool.decide_and, Bool.decide_eq_true, Bool.and_eq_true, decide_eq_true_eq] at hname h
      exact ⟨u, List.mem_of_find?_eq_some hfind, ⟨by rw [hun, hname.2], pw, hpw, h.1⟩, h.2⟩
  · simp at h

theorem nodup_headers (lines : List (List CStr)) : (headers lines).Nodup := by
  induction lines using List.reverseRecOn with
  | nil => exact .nil
  | append_singleton lines line ih =>
    unfold headers at ih ⊢
    rw [List.foldl_append, List.foldl_cons, List.foldl_nil]
    cases header line with
    | none => exact ih
    | some un =>
      rw [Option.elim_some]
      split_ifs with hun
      · exact ih
      · refine List.Nodup.append ih (List.nodup_singleton un) fun name hname hsame => ?_
        exact hun (List.mem_singleton.1 hsame ▸ hname)

theorem nodup_userLoad (lines : List (List CStr)) : ((userLoad lines).users.map Ulist.username).Nodup := by
  rw [(userLoad_loaded lines).names]
  exact nodup_headers lines

theorem users_clientDisconnect (s : Upsd) (fd : Nat) : (clientDisconnect s fd).users = s.users := by
  unfold clientDisconnect
  split
  · rfl
  · dsimp only
    split
    · rfl
    · unfold declogins
      split <;> rfl

/-- The names of the users are all different. -/
theorem Upsd.Stage.nodup_users {s : Upsd} (h : s.Stage) : (s.users.map Ulist.username).Nodup := by
  refine @Upsd.Stage.invariant (fun s => (s.users.map Ulist.username).Nodup) s h (fun s hs => ?_) fun s s' hs hmove => ?_
  · obtain ⟨lines, hlines⟩ := hs.users
    rw [hlines]
    exact nodup_userLoad lines
  · cases hmove with
    | disconnect fd =>
      rw [users_clientDisconnect]
      exact hs
    | users lines => exact nodup_userLoad lines
    | _ => exact hs

/-- One that lacks the right is not entitled. -/
theorem Lacks.not_entitled {s : Upsd} (hs : s.Stage) {client : NutCtype} {right : Ulist → Bool}
    (h : Lacks s client right) : ¬Entitled s client right := by
  rintro ⟨u, hu, hmatches, hright⟩
  rcases h with hnone | ⟨u', hu', hmatches', hlacks⟩
  · exact hnone u hu hmatches
  · have hname : u.username = u'.username := Option.some.inj (hmatches.1.symm.trans hmatches'.1)
    obtain rfl := List.inj_on_of_nodup_map hs.nodup_users hu hu' hname
    rw [hright] at hlacks
    exact Bool.noConfusion hlacks

/-! ### Commands -/

section Command

variable {w : Writes} {s s' : Upsd} {client : NutCtype} {args : List CStr}

theorem Allowed.refl (ups : Upstype) : Allowed s client ups ups := ⟨.inl rfl, .inl rfl, .inl le_rfl⟩

theorem allowed_of_eq {upses : List Upstype} (h : upses = s.firstups) :
    List.Forall₂ (Allowed s client) s.firstups upses := by
  rw [h]
  exact List.forall₂_same.2 fun ups _ => .refl ups

theorem allowed_modifyUps (name : CStr) {f : Upstype → Upstype} (hf : ∀ ups, Allowed s client ups (f ups)) :
    List.Forall₂ (Allowed s client) s.firstups (s.modifyUps name f).firstups := by
  unfold Upsd.modifyUps
  rw [List.forall₂_map_right_iff, List.forall₂_same]
  intro ups _
  split_ifs
  · exact hf ups
  · exact .refl ups

theorem sent_sstateSendline (ok : Bool) (ups : Upstype) (buf : CStr) :
    (sstateSendline ok ups buf).1.sent = ups.sent ∨ (sstateSendline ok ups buf).1.sent = ups.sent ++ [buf] := by
  unfold sstateSendline
  split
  · exact .inl rfl
  · right
    dsimp only
    split_ifs
    · rfl
    · unfold sstateDisconnect
      split <;> rfl

theorem allowed_sendToDriver {ups : Upstype} {buf : CStr}
    (hbuf : (∃ var newval, buf = setLine var newval ∧ Entitled s client fun u => userMatchaction u "SET".toList) ∨
      ∃ cmdname value, buf = instcmdLine cmdname value ∧ Entitled s client fun u => userMatchinstcmd u cmdname) :
    List.Forall₂ (Allowed s client) s.firstups (sendToDriver w s ups buf).1.firstups := by
  refine allowed_modifyUps ups.name fun ups' => ?_
  have hsame := sameUps_sstateSendline (w.driver ups.name ups.sent.length) ups' buf
  refine ⟨?_, .inl hsame.fsd, .inl hsame.numlogins.le⟩
  exact (sent_sstateSendline _ ups' buf).imp_right fun h => ⟨buf, h, hbuf⟩

theorem Effect.allowed (h : Effect w s client args s') :
    List.Forall₂ (Allowed s client) s.firstups s'.firstups := by
  cases h with
  | nothing => exact allowed_of_eq rfl
  | username => exact allowed_of_eq rfl
  | password => exact allowed_of_eq rfl
  | login _ _ _ hright =>
    exact allowed_modifyUps _ fun ups => ⟨.inl rfl, .inl rfl, .inr (entitled_of_userCheck hright)⟩
  | fsd _ _ hright => exact allowed_modifyUps _ fun ups => ⟨.inl rfl, .inr (entitled_of_userCheck hright), .inl le_rfl⟩
  | set _ _ hright => exact allowed_sendToDriver (.inl ⟨_, _, rfl, entitled_of_userCheck hright⟩)
  | instcmd value _ _ hright => exact allowed_sendToDriver (.inr ⟨_, value, rfl, entitled_of_userCheck hright⟩)

/-- The right for a command of the table. -/
theorem rightFor_of_asks {name : CStr} {arg : List CStr} (h : Asks args name arg) : rightFor args =
    if strcasecmp "LOGIN".toList name = .eq then fun u => userMatchaction u "LOGIN".toList
    else if strcasecmp "FSD".toList name = .eq then fun u => userMatchaction u "FSD".toList
    else if strcasecmp "SET".toList name = .eq then fun u => userMatchaction u "SET".toList
    else if strcasecmp "INSTCMD".toList name = .eq then fun u => userMatchinstcmd u (arg.getD 1 [])
    else fun _ => false := by
  obtain ⟨arg0, rfl, hname⟩ := h
  have hsame (t : CStr) : (strcasecmp t arg0 = .eq) = (strcasecmp t name = .eq) := by
    rw [strcasecmp_eq, strcasecmp_eq, strcasecmp_eq.1 hname]
  funext u
  simp only [rightFor, hsame]
  split_ifs <;> rfl

/-- A change of a UPS needs the right for the command line. -/
theorem Effect.entitled (h : Effect w s client args s') : s'.firstups = s.firstups ∨ Entitled s client (rightFor args) := by
  cases h with
  | nothing => exact .inl rfl
  | username => exact .inl rfl
  | password => exact .inl rfl
  | login hasks _ _ hright =>
    rw [rightFor_of_asks hasks, if_pos (by decide)]
    exact .inr (entitled_of_userCheck hright)
  | fsd hasks _ hright =>
    rw [rightFor_of_asks hasks, if_neg (by decide), if_pos (by decide)]
    exact .inr (entitled_of_userCheck hright)
  | set hasks _ hright =>
    rw [rightFor_of_asks hasks, if_neg (by decide), if_neg (by decide), if_pos (by decide)]
    exact .inr (entitled_of_userCheck hright)
  | instcmd value hasks _ hright =>
    rw [rightFor_of_asks hasks, if_neg (by decide), if_neg (by decide), if_neg (by decide), if_pos (by decide)]
    exact .inr (entitled_of_userCheck hright)

end Command

/-- Whatever the client sends, no other client is changed; no UPS is, nor is anything written to a driver, if the client
lacks the right for the command line; and each change of a UPS has its right. -/
theorem rights_respected {s : Upsd} (hs : s.Stage) (w : Writes) (client : NutCtype) (args : List CStr) :
    (parseNet w s client args).others client.sockFd = s.others client.sockFd ∧
      (Lacks s client (rightFor args) → (parseNet w s client args).firstups = s.firstups) ∧
      List.Forall₂ (Allowed s client) s.firstups (parseNet w s client args).firstups := by
  obtain ⟨s1, heffect, htells⟩ := parseNet_effect w s client args
  have hfirstups : (parseNet w s client args).firstups = s1.firstups := by
    obtain ⟨bufs, lost, h⟩ := htells
    rw [h, told_firstups]
  rw [hfirstups]
  refine ⟨others_parseNet w s client args, fun hlacks => ?_, heffect.allowed⟩
  exact heffect.entitled.resolve_right (hlacks.not_entitled hs)

/-- The user `a` of the small server may not set a variable. -/
theorem rights_respected_set : ∃ client ∈ loggedInServer.firstclient,
    (parseNet allWritten loggedInServer client
      ["SET".toList, "VAR".toList, "u".toList, "ups.status".toList, "OL".toList]).firstups = loggedInServer.firstups :=
  ⟨(loggedInServer.client 7).getD ⟨[], 0, 0, none, none, none, pconfInit, []⟩, by decide +kernel,
    (rights_respected stage_loggedInServer allWritten _ _).2.1 (.inr ⟨loggedInServer.users.headD ⟨[], none, [], []⟩,
      by decide +kernel, ⟨by decide +kernel, "b".toList, by decide +kernel, by decide +kernel⟩, by decide +kernel⟩)⟩

end Nut
