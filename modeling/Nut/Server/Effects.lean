import Nut.Server.Netcmds

/-!
# What a command can do

A handler changes the state in one of a few ways, each behind its check (`Effect`), and otherwise only answers its
client (`Tells`): `parseNet_effect`.
-/

namespace Nut

/-- The client was sent these buffers, and a write to it was lost. -/
def Upsd.told (s : Upsd) (fd : Nat) (bufs : List CStr) (lost : Bool) : Upsd :=
  s.modifyClient fd fun client =>
    { client with sent := client.sent ++ bufs, lastHeard := if lost then 0 else client.lastHeard }

/-- The client was sent something, and its connection may have ended. -/
def Tells (fd : Nat) (s s' : Upsd) : Prop := ∃ bufs lost, s' = s.told fd bufs lost

/-- One of the next `n` writes to the client fails. -/
def Upsd.lostAny (s : Upsd) (w : Writes) (fd n : Nat) : Bool := (List.range n).any fun k => !w.client fd (s.written fd + k)

/-- The client was answered, and the connection is given up exactly if a write failed. -/
def Answers (w : Writes) (fd : Nat) (s s' : Upsd) : Prop := ∃ bufs, s' = s.told fd bufs (s.lostAny w fd bufs.length)

section Told

variable (s : Upsd) (fd : Nat) (bufs : List CStr) (lost : Bool)

@[simp] theorem told_firstups : (s.told fd bufs lost).firstups = s.firstups := rfl
@[simp] theorem told_users : (s.told fd bufs lost).users = s.users := rfl
@[simp] theorem modifyClient_firstups (f : NutCtype → NutCtype) : (s.modifyClient fd f).firstups = s.firstups := rfl
@[simp] theorem modifyClient_users (f : NutCtype → NutCtype) : (s.modifyClient fd f).users = s.users := rfl
@[simp] theorem modifyUps_firstclient (name : CStr) (f : Upstype → Upstype) :
    (s.modifyUps name f).firstclient = s.firstclient := rfl
@[simp] theorem modifyUps_users (name : CStr) (f : Upstype → Upstype) : (s.modifyUps name f).users = s.users := rfl

theorem modifyClient_modifyClient {f : NutCtype → NutCtype} (hf : ∀ client, (f client).sockFd = client.sockFd)
    (g : NutCtype → NutCtype) : (s.modifyClient fd f).modifyClient fd g = s.modifyClient fd fun client => g (f client) := by
  unfold Upsd.modifyClient
  rw [List.map_map]
  congr 1
  refine List.map_congr_left fun client _ => ?_
  by_cases h : client.sockFd = fd <;> simp [h, hf]

theorem modifyClient_of_eq {f : NutCtype → NutCtype} (hf : ∀ client, f client = client) : s.modifyClient fd f = s := by
  unfold Upsd.modifyClient
  simp only [hf, ite_self, List.map_id']

/-- The other clients are not touched. -/
theorem filter_modifyClient {f : NutCtype → NutCtype}
    (hf : ∀ client, (f client).sockFd = client.sockFd) :
    (s.modifyClient fd f).firstclient.filter (fun client => client.sockFd ≠ fd) =
      s.firstclient.filter fun client => client.sockFd ≠ fd := by
  have hfd (client : NutCtype) : (if client.sockFd = fd then f client else client).sockFd = client.sockFd := by
    split_ifs
    · exact hf client
    · rfl
  unfold Upsd.modifyClient
  rw [List.filter_map, List.filter_congr fun client _ => by rw [Function.comp_apply, hfd]]
  refine (List.map_congr_left fun client hclient => ?_).trans (List.map_id _)
  have hne : client.sockFd ≠ fd := by simpa using (List.mem_filter.1 hclient).2
  rw [if_neg hne, id_eq]

@[simp] theorem told_nil : s.told fd [] false = s := modifyClient_of_eq _ _ fun client => by simp

theorem told_told (bufs' : List CStr) (lost' : Bool) :
    (s.told fd bufs lost).told fd bufs' lost' = s.told fd (bufs ++ bufs') (lost || lost') := by
  refine (modifyClient_modifyClient s fd ?_ _).trans ?_
  · exact fun _ => rfl
  unfold Upsd.told
  congr 1
  funext client
  cases lost <;> cases lost' <;> simp

theorem client_modifyClient {f : NutCtype → NutCtype} (hf : ∀ client, (f client).sockFd = client.sockFd) :
    (s.modifyClient fd f).client fd = (s.client fd).map f := by
  unfold Upsd.modifyClient Upsd.client
  rw [List.find?_map]
  have hfd : ((fun client => decide (client.sockFd = fd)) ∘ fun client => if client.sockFd = fd then f client else client) =
      fun client => decide (client.sockFd = fd) := by
    funext client
    by_cases h : client.sockFd = fd <;> simp [h, hf]
  rw [hfd]
  cases h : s.firstclient.find? fun client => decide (client.sockFd = fd) with
  | none => rfl
  | some client =>
    have hmatch : client.sockFd = fd := by simpa using List.find?_some h
    simp [hmatch]

theorem client_told : (s.told fd bufs lost).client fd = (s.client fd).map fun client =>
    { client with sent := client.sent ++ bufs, lastHeard := if lost then 0 else client.lastHeard } :=
  client_modifyClient s fd (by exact fun _ => rfl)

theorem written_told {client : NutCtype} (hclient : s.client fd = some client) :
    (s.told fd bufs lost).written fd = s.written fd + bufs.length := by
  unfold Upsd.written
  rw [client_told, hclient]
  simp

theorem told_of_none (hclient : s.client fd = none) : s.told fd bufs lost = s := by
  unfold Upsd.told Upsd.modifyClient
  have hmap : (s.firstclient.map fun client => if client.sockFd = fd then
      { client with sent := client.sent ++ bufs, lastHeard := if lost then 0 else client.lastHeard } else client) =
        s.firstclient := by
    refine (List.map_congr_left fun client hmem => ?_).trans (List.map_id _)
    have hne : client.sockFd ≠ fd := by simpa using List.find?_eq_none.1 hclient client hmem
    rw [if_neg hne, id_eq]
  rw [hmap]

theorem lostAny_one (w : Writes) : s.lostAny w fd 1 = !w.client fd (s.written fd) := by
  simp [Upsd.lostAny, List.range_succ]

theorem lostAny_add (w : Writes) {client : NutCtype} (hclient : s.client fd = some client) (n : Nat) :
    (s.lostAny w fd bufs.length || (s.told fd bufs lost).lostAny w fd n) = s.lostAny w fd (bufs.length + n) := by
  unfold Upsd.lostAny
  rw [List.range_add, List.any_append, List.any_map, written_told s fd bufs lost hclient]
  congr 2
  funext k
  rw [Function.comp_apply, Nat.add_assoc]

/-- The buffer that is written for a text. -/
def answer (text : CStr) : CStr := snprintf (nutNetAnswerMax + 1) text

theorem sendback_eq (w : Writes) (text : CStr) : sendback w s fd text =
    (s.told fd [answer text] (!w.client fd (s.written fd)), w.client fd (s.written fd)) := by
  unfold sendback Upsd.told answer
  cases w.client fd (s.written fd) <;> rfl

end Told

namespace Answers

variable {w : Writes} {s s' t : Upsd} {fd : Nat}

theorem refl (w : Writes) (fd : Nat) (s : Upsd) : Answers w fd s s := ⟨[], (told_nil s fd).symm⟩

theorem trans (h : Answers w fd s s') (h' : Answers w fd s' t) : Answers w fd s t := by
  obtain ⟨bufs, rfl⟩ := h
  obtain ⟨bufs', rfl⟩ := h'
  refine ⟨bufs ++ bufs', ?_⟩
  cases hclient : s.client fd with
  | none =>
    have hsame (bufs : List CStr) (lost : Bool) : s.told fd bufs lost = s := told_of_none s fd bufs lost hclient
    rw [hsame, hsame, hsame]
  | some client => rw [told_told, List.length_append, lostAny_add s fd bufs _ w hclient]

theorem ite {c : Prop} [Decidable c] (h : Answers w fd s s') (h' : Answers w fd s t) : Answers w fd s (if c then s' else t) := by
  split
  · exact h
  · exact h'

theorem sendback (w : Writes) (s : Upsd) (fd : Nat) (text : CStr) : Answers w fd s (sendback w s fd text).1 :=
  ⟨[answer text], by rw [sendback_eq, List.length_singleton, lostAny_one]⟩

theorem sendErr (w : Writes) (s : Upsd) (fd : Nat) (err : CStr) : Answers w fd s (sendErr w s fd err) := sendback w s fd _

theorem upsAvailable (w : Writes) (s : Upsd) (ups : Upstype) (fd : Nat) : Answers w fd s (upsAvailable w s ups fd).1 := by
  unfold Nut.upsAvailable
  split
  · exact sendErr w s fd _
  · split
    · exact sendErr w s fd _
    · exact refl w fd s

theorem sendEach (w : Writes) (s : Upsd) (fd : Nat) (texts : List CStr) : Answers w fd s (sendEach w s fd texts).1 := by
  induction texts generalizing s with
  | nil => exact refl w fd s
  | cons text texts ih =>
    have hone := sendback w s fd text
    rw [Nut.sendEach]
    split
    · rename_i h
      rwa [h] at hone
    · rename_i h
      rw [h] at hone
      exact hone.trans (ih _)

theorem treeDump (w : Writes) (s : Upsd) (fd : Nat) (ups : CStr) (rw fsd : Bool) (t : StTree) :
    Answers w fd s (treeDump w s fd ups rw fsd t).1 := by
  induction t generalizing s with
  | nil => exact refl w fd s
  | node left node right ihl ihr =>
    have hleft := ihl s
    rw [Nut.treeDump]
    split
    · rename_i h
      rwa [h] at hleft
    · rename_i s1 h
      rw [h] at hleft
      have hone : Answers w fd s1 (if rw then
          if node.flags &&& stFlagRw ≠ 0 then Nut.sendback w s1 fd (varLine "RW".toList ups node.var node.val) else (s1, true)
          else if fsd ∧ strcasecmp node.var "ups.status".toList = .eq then
            Nut.sendback w s1 fd (varLine "VAR".toList ups node.var ("FSD ".toList ++ node.val))
          else Nut.sendback w s1 fd (varLine "VAR".toList ups node.var node.val)).1 := by
        split_ifs
        · exact sendback w s1 fd _
        · exact refl w fd s1
        · exact sendback w s1 fd _
        · exact sendback w s1 fd _
      simp only
      split
      · rename_i h'
        rw [h'] at hone
        exact hleft.trans hone
      · rename_i h'
        rw [h'] at hone
        exact hleft.trans (hone.trans (ihr _))

theorem sendList (w : Writes) (s : Upsd) (fd : Nat) (start stop : CStr) {items : Upsd → Upsd × Bool}
    (hitems : ∀ s, Answers w fd s (items s).1) : Answers w fd s (sendList w s fd start items stop) := by
  have hbegin := sendback w s fd ("BEGIN LIST ".toList ++ start ++ "\n".toList)
  unfold Nut.sendList
  split
  · rename_i h
    rwa [h] at hbegin
  · rename_i s1 h
    rw [h] at hbegin
    have hmid := hitems s1
    split
    · rename_i h'
      rw [h'] at hmid
      exact hbegin.trans hmid
    · rename_i s2 h'
      rw [h'] at hmid
      exact hbegin.trans (hmid.trans (sendback w s2 fd _))

/-- A query about a UPS that is refused, or goes on with a UPS that is there and available. -/
theorem withUps {upsname : CStr} {f : Upsd → Upstype → Upsd} (hf : ∀ s ups, Answers w fd s (f s ups)) :
    Answers w fd s (withUps w s fd upsname f) := by
  unfold Nut.withUps
  split
  · exact sendErr w s fd _
  · rename_i ups _
    have havail := upsAvailable w s ups fd
    split
    · rename_i h
      rwa [h] at havail
    · rename_i h
      rw [h] at havail
      exact havail.trans (hf _ _)

end Answers

/-- The UPS can be queried. -/
def Upstype.Available (ups : Upstype) : Prop := ups.sockFd ≠ none ∧ ups.stale = false

instance (ups : Upstype) : Decidable ups.Available := inferInstanceAs (Decidable (_ ∧ _))

/-- A query either ends in an error or goes on with a UPS that is available. -/
theorem withUps_cases (w : Writes) (s : Upsd) (fd : Nat) (upsname : CStr) (f : Upsd → Upstype → Upsd) :
    (∃ ups, getUpsPtr s upsname = some ups ∧ ups.Available ∧ withUps w s fd upsname f = f s ups) ∨
      (∃ err, withUps w s fd upsname f = sendErr w s fd err) ∧ ∀ ups, getUpsPtr s upsname = some ups → ¬ups.Available := by
  unfold withUps upsAvailable Upstype.Available
  cases hups : getUpsPtr s upsname with
  | none => exact .inr ⟨⟨_, rfl⟩, by simp⟩
  | some ups =>
    simp only [Option.some.injEq, forall_eq']
    cases hfd : ups.sockFd with
    | none => exact .inr ⟨⟨_, rfl⟩, by simp⟩
    | some n =>
      cases hstale : ups.stale with
      | true => exact .inr ⟨⟨_, rfl⟩, by simp⟩
      | false => exact .inl ⟨ups, rfl, ⟨by simp [hfd], hstale⟩, rfl⟩

theorem withUps_of_available {s : Upsd} {upsname : CStr} {ups : Upstype} (hups : getUpsPtr s upsname = some ups)
    (havail : ups.Available) {w : Writes} {fd : Nat} {f : Upsd → Upstype → Upsd} : withUps w s fd upsname f = f s ups := by
  rcases withUps_cases w s fd upsname f with ⟨ups', hups', -, h⟩ | ⟨-, h⟩
  · rw [h, Option.some.inj (hups.symm.trans hups')]
  · exact absurd havail (h ups hups)

/-- The error does not depend on the query. -/
theorem withUps_of_not_available {s : Upsd} {upsname : CStr} {ups : Upstype} (hups : getUpsPtr s upsname = some ups)
    (h : ¬ups.Available) (w : Writes) (fd : Nat) : ∃ err, ∀ f, withUps w s fd upsname f = sendErr w s fd err := by
  cases hfd : ups.sockFd with
  | none => exact ⟨"DRIVER-NOT-CONNECTED".toList, fun f => by simp only [withUps, upsAvailable, hups, hfd]⟩
  | some n =>
    cases hstale : ups.stale with
    | true => exact ⟨"DATA-STALE".toList, fun f => by simp only [withUps, upsAvailable, hups, hfd, hstale, if_true]⟩
    | false => exact absurd ⟨by simp [hfd], hstale⟩ h

theorem mem_of_getUpsPtr {s : Upsd} {name : CStr} {ups : Upstype} (h : getUpsPtr s name = some ups) :
    ups ∈ s.firstups := List.mem_of_find?_eq_some h

/-! ### The effects of the commands -/

/-- The state after a login. -/
def loggedIn (s : Upsd) (fd : Nat) (ups : Upstype) : Upsd :=
  (s.modifyUps ups.name fun ups => { ups with numlogins := ups.numlogins + 1 }).modifyClient fd
    fun client => { client with loginups := some ups.name }

/-- The words are the command with these arguments. -/
def Asks (args : List CStr) (name : CStr) (arg : List CStr) : Prop :=
  ∃ arg0, args = arg0 :: arg ∧ strcasecmp name arg0 = .eq

/-- The changes that a command line can make, each behind its check. -/
inductive Effect (w : Writes) (s : Upsd) (client : NutCtype) (args : List CStr) : Upsd → Prop
  | nothing : Effect w s client args s
  | username (un : CStr) (hnone : client.username = none) :
      Effect w s client args (s.modifyClient client.sockFd fun client => { client with username := some un })
  | password (pw : CStr) (hnone : client.password = none) :
      Effect w s client args (s.modifyClient client.sockFd fun client => { client with password := some pw })
  | login {upsname : CStr} {ups : Upstype} (hasks : Asks args "LOGIN".toList [upsname])
      (hups : getUpsPtr s upsname = some ups) (hnone : client.loginups = none)
      (hright : userCheckaction s.users client.username client.password "LOGIN".toList = true) :
      Effect w s client args (loggedIn s client.sockFd ups)
  | fsd {upsname : CStr} {ups : Upstype} (hasks : Asks args "FSD".toList [upsname])
      (hups : getUpsPtr s upsname = some ups)
      (hright : userCheckaction s.users client.username client.password "FSD".toList = true) :
      Effect w s client args (s.modifyUps ups.name fun ups => { ups with fsd := true })
  | set {type upsname var newval : CStr} {rest : List CStr} {ups : Upstype}
      (hasks : Asks args "SET".toList (type :: upsname :: var :: newval :: rest))
      (hups : getUpsPtr s upsname = some ups)
      (hright : userCheckaction s.users client.username client.password "SET".toList = true) :
      Effect w s client args (sendToDriver w s ups (setLine var newval)).1
  | instcmd {upsname cmdname : CStr} {rest : List CStr} {ups : Upstype} (value : Option CStr)
      (hasks : Asks args "INSTCMD".toList (upsname :: cmdname :: rest)) (hups : getUpsPtr s upsname = some ups)
      (hright : userCheckinstcmd s.users client.username client.password cmdname = true) :
      Effect w s client args (sendToDriver w s ups (instcmdLine cmdname value)).1

/-- A change and the answers; only `LOGOUT` asks for the end of the connection. -/
def Performs (w : Writes) (s : Upsd) (client : NutCtype) (args : List CStr) (s' : Upsd) : Prop :=
  ∃ s1 s2, Effect w s client args s1 ∧ Answers w client.sockFd s1 s2 ∧
    (s' = s2 ∨ Asks args "LOGOUT".toList [] ∧ s' = s2.told client.sockFd [] true)

section Handlers

variable {w : Writes} {s s' : Upsd} {client : NutCtype} {args : List CStr}

theorem Answers.performs (h : Answers w client.sockFd s s') : Performs w s client args s' :=
  ⟨s, s', .nothing, h, .inl rfl⟩

theorem performs_sendErr (err : CStr) : Performs w s client args (sendErr w s client.sockFd err) :=
  (Answers.sendErr w s client.sockFd err).performs

theorem performs_sendback (text : CStr) : Performs w s client args (sendback w s client.sockFd text).1 :=
  (Answers.sendback w s client.sockFd text).performs

theorem Effect.sendback {s1 : Upsd} (h : Effect w s client args s1) (text : CStr) :
    Performs w s client args (sendback w s1 client.sockFd text).1 :=
  ⟨s1, _, h, Answers.sendback w s1 _ text, .inl rfl⟩

theorem Effect.sendErr {s1 : Upsd} (h : Effect w s client args s1) (err : CStr) :
    Performs w s client args (sendErr w s1 client.sockFd err) :=
  ⟨s1, _, h, Answers.sendErr w s1 _ err, .inl rfl⟩

theorem performs_withUps {upsname : CStr} {f : Upsd → Upstype → Upsd}
    (hf : ∀ ups, getUpsPtr s upsname = some ups → Performs w s client args (f s ups)) :
    Performs w s client args (withUps w s client.sockFd upsname f) := by
  rcases withUps_cases w s client.sockFd upsname f with ⟨ups, hups, -, h⟩ | ⟨⟨err, h⟩, -⟩
  · rw [h]
    exact hf ups hups
  · rw [h]
    exact performs_sendErr err

variable (w s client)

theorem performs_netFsd {arg : List CStr} (hasks : Asks args "FSD".toList arg) : Performs w s client args (netFsd w s client arg) := by
  unfold netFsd
  split
  · split
    · exact performs_sendErr _
    · rename_i ups hups
      split_ifs with hright
      · exact performs_sendErr _
      · exact (Effect.fsd hasks hups (by simpa using hright)).sendback _
  · exact performs_sendErr _

theorem performs_netLogin {arg : List CStr} (hasks : Asks args "LOGIN".toList arg) : Performs w s client args (netLogin w s client arg) := by
  unfold netLogin
  split
  · split
    · exact performs_sendErr _
    · rename_i hnone
      split
      · exact performs_sendErr _
      · rename_i ups hups
        split_ifs with hright
        · exact performs_sendErr _
        · exact (Effect.login hasks hups (by simpa using hnone) (by simpa using hright)).sendback _
  · exact performs_sendErr _

theorem performs_netLogout {arg : List CStr} (hasks : Asks args "LOGOUT".toList arg) :
    Performs w s client args (netLogout w s client arg) := by
  unfold netLogout
  split_ifs with harg
  · exact performs_sendErr _
  · obtain rfl : arg = [] := by simpa using harg
    refine ⟨s, _, .nothing, Answers.sendback w s client.sockFd "OK Goodbye\n".toList, .inr ⟨hasks, ?_⟩⟩
    unfold Upsd.told
    simp

theorem performs_netUsername (arg : List CStr) : Performs w s client args (netUsername w s client arg) := by
  unfold netUsername
  split
  · split_ifs with hnone
    · exact performs_sendErr _
    · exact (Effect.username _ (by simpa using hnone)).sendback _
  · exact performs_sendErr _

theorem performs_netPassword (arg : List CStr) : Performs w s client args (netPassword w s client arg) := by
  unfold netPassword
  split
  · split_ifs with hnone
    · exact performs_sendErr _
    · exact (Effect.password _ (by simpa using hnone)).sendback _
  · exact performs_sendErr _

theorem performs_netMaster (arg : List CStr) : Performs w s client args (netMaster w s client arg) := by
  unfold netMaster
  split
  · split
    · exact performs_sendErr _
    · split_ifs
      · exact performs_sendErr _
      · exact performs_sendback _
  · exact performs_sendErr _

theorem performs_netSet {arg : List CStr} (hasks : Asks args "SET".toList arg) : Performs w s client args (netSet w s client arg) := by
  unfold netSet
  split
  · split_ifs
    · refine performs_withUps fun ups hups => ?_
      split
      · exact performs_sendErr _
      · rename_i hright
        split_ifs
        · exact performs_sendErr _
        · exact performs_sendErr _
        split
        · exact performs_sendErr _
        · have heff : Effect w s client args _ := .set hasks hups (by simpa using hright)
          split
          · rename_i h
            rw [h] at heff
            exact heff.sendErr _
          · rename_i h
            rw [h] at heff
            exact heff.sendback _
    · exact performs_sendErr _
  · exact performs_sendErr _

theorem performs_netInstcmd {arg : List CStr} (hasks : Asks args "INSTCMD".toList arg) :
    Performs w s client args (netInstcmd w s client arg) := by
  have hsend {upsname cmdname : CStr} {rest : List CStr}
      (hasks : Asks args "INSTCMD".toList (upsname :: cmdname :: rest)) (value : Option CStr) :
      Performs w s client args (sendInstcmd w s client upsname cmdname value) := by
    refine performs_withUps fun ups hups => ?_
    split
    · exact performs_sendErr _
    · split
      · exact performs_sendErr _
      · rename_i hright
        have heff : Effect w s client args _ := .instcmd value hasks hups (by simpa using hright)
        split
        · rename_i h
          rw [h] at heff
          exact heff.sendErr _
        · rename_i h
          rw [h] at heff
          exact heff.sendback _
  unfold netInstcmd
  split
  · exact hsend hasks _
  · exact hsend hasks _
  · exact performs_sendErr _

theorem answers_netGet (arg : List CStr) : Answers w client.sockFd s (netGet w s client arg) := by
  have hdesc (upsname : CStr) : Answers w client.sockFd s (getUpsdesc w s client.sockFd upsname) := by
    unfold getUpsdesc
    split
    · exact Answers.sendErr ..
    · split <;> exact Answers.sendback ..
  have hvar (upsname var : CStr) : Answers w client.sockFd s (getVar w s client.sockFd upsname var) := by
    unfold getVar
    split
    · unfold getVarServer
      split_ifs
      · exact Answers.sendback ..
      · exact Answers.sendback ..
      · exact Answers.sendErr ..
    · refine Answers.withUps fun s ups => ?_
      split
      · exact Answers.sendErr ..
      · split_ifs <;> exact Answers.sendback ..
  have htype (upsname var : CStr) : Answers w client.sockFd s (getType w s client.sockFd upsname var) := by
    refine Answers.withUps fun s ups => ?_
    split
    · exact Answers.sendErr ..
    · split_ifs <;> exact Answers.sendback ..
  unfold netGet
  dsimp only
  split
  · refine Answers.ite (Answers.withUps fun s ups => Answers.sendback ..) (Answers.ite (hdesc _) ?_)
    split
    · exact Answers.sendErr ..
    · refine Answers.ite (hvar _ _) (Answers.ite (htype _ _) (Answers.ite ?_ (Answers.ite ?_ ?_)))
      · exact Answers.withUps fun s ups => Answers.sendback ..
      · exact Answers.withUps fun s ups => Answers.sendback ..
      · exact Answers.sendErr ..
  · exact Answers.sendErr ..

private theorem answers_withNode {w : Writes} {s : Upsd} {client : NutCtype} {upsname var : CStr}
    {f : Upsd → StNode → Upsd} (hf : ∀ s node, Answers w client.sockFd s (f s node)) :
    Answers w client.sockFd s (withUps w s client.sockFd upsname fun s ups =>
      match sstateGetnode ups var with
      | none => sendErr w s client.sockFd "VAR-NOT-SUPPORTED".toList
      | some node => f s node) := by
  refine Answers.withUps fun s ups => ?_
  split
  · exact Answers.sendErr ..
  · exact hf _ _

theorem answers_netList (arg : List CStr) : Answers w client.sockFd s (netList w s client arg) := by
  have hclients (upsname : CStr) : Answers w client.sockFd s (listClients w s client.sockFd upsname) := by
    unfold listClients
    split
    · exact Answers.sendErr ..
    · exact Answers.sendList _ _ _ _ _ fun s => Answers.sendEach ..
  unfold netList
  dsimp only
  split
  · exact Answers.sendErr ..
  · refine Answers.ite (Answers.sendList _ _ _ _ _ fun s => Answers.sendEach ..) ?_
    split
    · exact Answers.sendErr ..
    · refine Answers.ite ?_ (Answers.ite ?_ (Answers.ite ?_ (Answers.ite (hclients _) ?_)))
      · exact Answers.withUps fun s ups => Answers.sendList _ _ _ _ _ fun s => Answers.treeDump ..
      · exact Answers.withUps fun s ups => Answers.sendList _ _ _ _ _ fun s => Answers.treeDump ..
      · exact Answers.withUps fun s ups => Answers.sendList _ _ _ _ _ fun s => Answers.sendEach ..
      · split
        · exact Answers.sendErr ..
        · refine Answers.ite (answers_withNode fun s node => ?_)
            (Answers.ite (answers_withNode fun s node => ?_) (Answers.sendErr ..))
          · exact Answers.sendList _ _ _ _ _ fun s => Answers.sendEach ..
          · exact Answers.sendList _ _ _ _ _ fun s => Answers.sendEach ..

/-- A command that checks its arguments and answers with one line. -/
private theorem performs_line (arg : List CStr) (text : CStr) : Performs w s client args
    (if arg.length ≠ 0 then sendErr w s client.sockFd "INVALID-ARGUMENT".toList
      else (sendback w s client.sockFd text).1) := by
  split_ifs
  · exact performs_sendErr _
  · exact performs_sendback _

theorem performs_netcmds {cmd : CStr × NetHandler × Bool} (h : cmd ∈ netcmds) {arg : List CStr}
    (hasks : Asks args cmd.1 arg) : Performs w s client args (cmd.2.1 w s client arg) := by
  simp only [netcmds, List.mem_cons, List.not_mem_nil, or_false] at h
  rcases h with rfl | rfl | rfl | rfl | rfl | rfl | rfl | rfl | rfl | rfl | rfl | rfl | rfl | rfl
  · exact performs_line w s client _ _
  · exact performs_line w s client _ _
  · exact performs_line w s client _ _
  · exact performs_sendErr _
  · exact (answers_netGet w s client arg).performs
  · exact (answers_netList w s client arg).performs
  · exact performs_netUsername w s client arg
  · exact performs_netPassword w s client arg
  · exact performs_netLogin w s client hasks
  · exact performs_netLogout w s client hasks
  · exact performs_netMaster w s client arg
  · exact performs_netFsd w s client hasks
  · exact performs_netSet w s client hasks
  · exact performs_netInstcmd w s client hasks

theorem performs_checkCommand {func : NetHandler} {arg : List CStr}
    (hfunc : Performs w s client args (func w s client arg)) (flagUser : Bool) : Performs w s client args (checkCommand func flagUser w s client arg) := by
  unfold checkCommand
  split_ifs
  · exact performs_sendErr _
  · exact performs_sendErr _
  · exact performs_sendErr _
  · exact hfunc
  · exact hfunc

theorem parseNet_performs (args : List CStr) : Performs w s client args (parseNet w s client args) := by
  unfold parseNet
  split
  · exact performs_sendErr _
  · split
    · exact performs_sendErr _
    · rename_i func flagUser hfind
      have hname := List.find?_some hfind
      refine performs_checkCommand w s client (performs_netcmds w s client (List.mem_of_find?_eq_some hfind) ?_) _
      exact ⟨_, rfl, by simpa using hname⟩

/-- A command line makes one of the changes that its client has the right to, and answers the client. -/
theorem parseNet_effect (args : List CStr) :
    ∃ s1, Effect w s client args s1 ∧ Tells client.sockFd s1 (parseNet w s client args) := by
  obtain ⟨s1, s2, heffect, ⟨bufs, rfl⟩, h | ⟨-, h⟩⟩ := parseNet_performs w s client args
  · exact ⟨s1, heffect, _, _, h⟩
  · exact ⟨s1, heffect, _, _, h.trans (told_told _ _ _ _ _ _)⟩

end Handlers

/-! ### The other clients -/

section Others

variable {w : Writes} {s s' : Upsd} {client : NutCtype} {args : List CStr}

/-- The clients other than the one with the descriptor. -/
def Upsd.others (s : Upsd) (fd : Nat) : List NutCtype := s.firstclient.filter fun client => client.sockFd ≠ fd

theorem others_modifyClient (s : Upsd) (fd : Nat) {f : NutCtype → NutCtype}
    (hf : ∀ client, (f client).sockFd = client.sockFd) : (s.modifyClient fd f).others fd = s.others fd :=
  filter_modifyClient s fd hf

theorem Tells.others {fd : Nat} (h : Tells fd s s') : s'.others fd = s.others fd := by
  obtain ⟨bufs, lost, rfl⟩ := h
  exact others_modifyClient s fd (by exact fun _ => rfl)

theorem Effect.others (h : Effect w s client args s') : s'.others client.sockFd = s.others client.sockFd := by
  cases h with
  | nothing => rfl
  | username => exact others_modifyClient _ _ (by exact fun _ => rfl)
  | password => exact others_modifyClient _ _ (by exact fun _ => rfl)
  | login => exact others_modifyClient _ _ (by exact fun _ => rfl)
  | fsd => rfl
  | set => rfl
  | instcmd => rfl

/-- No other client is changed by a command. -/
theorem others_parseNet (w : Writes) (s : Upsd) (client : NutCtype) (args : List CStr) :
    (parseNet w s client args).others client.sockFd = s.others client.sockFd := by
  obtain ⟨s1, heffect, htells⟩ := parseNet_effect w s client args
  exact htells.others.trans heffect.others

end Others

end Nut
