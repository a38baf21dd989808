import Mathlib.Data.List.Forall2
import Nut.Common.Buffers
import Nut.Common.Tokens
import Nut.Common.State
import Nut.Drivers.Main

/-!
# `upslog.c`: the format of the log

`compile_format` turns the format into a list of calls, and `run_flist` makes the calls, which print into `logbuffer`.  A
command is found by the beginning of its word, so `%HOSTNAME%` is `%HOST%`, and `do_time` duplicates its argument without a
test.

What the system and the server answer to the handlers is in `Env`.  There is no result where a missing argument is used, or
where `strftime` leaves its buffer undefined.
-/

namespace Nut

namespace Upslog

def largebuf : Nat := 1024

inductive Cmd
  | host
  | upshost
  | pid
  | time
  | var
  | etime
  deriving DecidableEq

def logcmds : List (CStr × Cmd) :=
  [("HOST".toList, .host), ("UPSHOST".toList, .upshost), ("PID".toList, .pid), ("TIME".toList, .time), ("VAR".toList, .var),
    ("ETIME".toList, .etime)]

/-- What the handlers print; `strftime` is the text of a format at the present time, `answer` the value of a variable. -/
structure Env where
  gethostname : Option CStr
  monhost : CStr
  pid : Nat
  tod : Nat
  strftime : CStr → CStr
  upsname : Option CStr
  answer : CStr → Option CStr

def invalid : CStr := "INVALID".toList

/-- The format that `do_time` hands to `strftime`. -/
def timeFormat (format : CStr) : CStr := format.map fun c => if c = '@' then '%' else c

def doTime (e : Env) (arg : Option CStr) : Option CStr := do
  let format ← arg
  let timebuf := e.strftime (timeFormat format)
  if timebuf.length < smallbuf then some timebuf else none

def getvar (e : Env) (var : CStr) : CStr := (e.answer var).getD "NA".toList

def doVar (e : Env) : Option CStr → CStr
  | none => invalid
  | some arg =>
    if arg.length < 1 then invalid
    else if '.' ∉ arg then invalid
    else if e.upsname = none then invalid
    else getvar e arg

inductive Func
  | printLiteral
  | logcmd (cmd : Cmd)

structure Flist where
  fptr : Func
  arg : Option CStr

/-- The text that a call prints. -/
def call (e : Env) (tmp : Flist) : Option CStr :=
  match tmp.fptr with
  | .printLiteral => tmp.arg
  | .logcmd .host => some (e.gethostname.getD [])
  | .logcmd .upshost => some e.monhost
  | .logcmd .pid => some (Nat.toDigits 10 e.pid)
  | .logcmd .time => doTime e tmp.arg
  | .logcmd .var => some (doVar e tmp.arg)
  | .logcmd .etime => some (Nat.toDigits 10 e.tod)

def literal (text : CStr) : Flist := ⟨.printLiteral, some text⟩

/-- The command and its argument, which starts behind the first blank. -/
def wordOf (cmd : CStr) : CStr := cmd.takeWhile (· ≠ ' ')

def argOf (cmd : CStr) : Option CStr := if ' ' ∈ cmd then some (cmd.dropWhile (· ≠ ' ')).tail else none

/-- The call for a sequence. -/
def commandCall (cmd : CStr) : Flist :=
  match logcmds.find? fun c => strncasecmp (wordOf cmd) c.1 c.1.length = .eq with
  | some c => ⟨.logcmd c.2, argOf cmd⟩
  | none => literal invalid

/-- The loop, where some characters are still to be skipped. -/
def compileFrom : CStr → Nat → List Flist
  | [], _ => []
  | _ :: t, skip + 1 => compileFrom t skip
  | c :: t, 0 =>
    if c ≠ '%' then literal [c] :: compileFrom t 0
    else if t.head? = some '%' then literal "%".toList :: compileFrom t 1
    else if '%' ∉ t then literal invalid :: compileFrom t 0
    else
      let cmd := t.takeWhile (· ≠ '%')
      let ofs := cmd.length + 1
      commandCall cmd :: compileFrom t ofs

def compileFormat (logformat : CStr) : List Flist := compileFrom logformat 0

def runFlist (e : Env) (fhead : List Flist) : Option CStr :=
  fhead.foldlM (fun logbuffer tmp => (call e tmp).map (snprintfcat logbuffer largebuf)) []

/-! ### The parts of a format -/

inductive Piece
  | literal (c : Char)
  | percent
  | command (cmd : CStr)
  | unterminated

/-- A format is made of these pieces. -/
inductive Split : CStr → List Piece → Prop
  | nil : Split [] []
  | literal {c : Char} {t : CStr} {pieces : List Piece} : c ≠ '%' → Split t pieces → Split (c :: t) (.literal c :: pieces)
  | percent {t : CStr} {pieces : List Piece} : Split t pieces → Split ('%' :: '%' :: t) (.percent :: pieces)
  | command {cmd t : CStr} {pieces : List Piece} : cmd ≠ [] → '%' ∉ cmd → Split t pieces →
      Split ('%' :: (cmd ++ '%' :: t)) (.command cmd :: pieces)
  | unterminated {t : CStr} {pieces : List Piece} : '%' ∉ t → Split t pieces → Split ('%' :: t) (.unterminated :: pieces)

/-- The command with a name, whatever the case of its letters. -/
def exactly (name : CStr) : Option Cmd := (logcmds.find? fun c => strcasecmp name c.1 = .eq).map Prod.snd

/-- The command whose name a word begins with. -/
def byPrefix (name : CStr) : Option Cmd :=
  (logcmds.find? fun c => strncasecmp name c.1 c.1.length = .eq).map Prod.snd

/-- What a piece prints, where `known` gives the known commands. -/
def Prints (e : Env) (known : CStr → Option Cmd) : Piece → CStr → Prop
  | .literal c, text => text = [c]
  | .percent, text => text = "%".toList
  | .unterminated, text => text = invalid
  | .command cmd, text =>
    match known (wordOf cmd) with
    | some c => call e ⟨.logcmd c, argOf cmd⟩ = some text
    | none => text = invalid

/-- Every piece is printed in its turn, and the line has the texts one after the other if the buffer holds them. -/
def Renders (e : Env) (known : CStr → Option Cmd) (logformat : CStr) : Prop :=
  ∃ pieces texts line, Split logformat pieces ∧ (compileFormat logformat).mapM (call e) = some texts ∧
    List.Forall₂ (Prints e known) pieces texts ∧ runFlist e (compileFormat logformat) = some line ∧
    (texts.flatten.length < largebuf → line = texts.flatten)

/-- Every time has a format, and its text fits the buffer. -/
def TimesGiven (e : Env) (logformat : CStr) : Prop :=
  ∀ pieces, Split logformat pieces → ∀ cmd, .command cmd ∈ pieces → byPrefix (wordOf cmd) = some .time →
    ∃ format, argOf cmd = some format ∧ (e.strftime (timeFormat format)).length < smallbuf

/-- The texts of the pieces do not fill the buffer to its last character, which `snprintfcat` leaves out. -/
def RoomLeft (e : Env) (known : CStr → Option Cmd) (logformat : CStr) : Prop :=
  ∀ pieces, Split logformat pieces → ∀ texts, List.Forall₂ (Prints e known) pieces texts →
    texts.flatten.length ≠ largebuf - 1

/-- A word that only begins with the name of a command prints what an unknown one does. -/
def NamesWhole (e : Env) (logformat : CStr) : Prop :=
  ∀ pieces, Split logformat pieces → ∀ cmd, .command cmd ∈ pieces → ∀ c, byPrefix (wordOf cmd) = some c →
    exactly (wordOf cmd) = none → call e ⟨.logcmd c, argOf cmd⟩ = some invalid

section Pieces

variable {e : Env} {known : CStr → Option Cmd} {logformat : CStr} {pieces : List Piece}

/-- Every format has pieces. -/
theorem Split.exists (logformat : CStr) : ∃ pieces, Split logformat pieces := by
  induction h : logformat.length using Nat.strong_induction_on generalizing logformat with
  | _ n ih =>
    rcases logformat with _ | ⟨c, t⟩
    · exact ⟨[], .nil⟩
    · rw [List.length_cons] at h
      by_cases hc : c = '%'
      · subst hc
        by_cases hpercent : '%' ∈ t
        · obtain ⟨cmd, t', rfl, hcmd⟩ := List.eq_append_cons_of_mem hpercent
          have hlength : (cmd ++ '%' :: t').length = cmd.length + t'.length + 1 := by
            rw [List.length_append, List.length_cons]
            omega
          obtain ⟨rest, hrest⟩ := ih t'.length (by omega) t' rfl
          rcases cmd with _ | ⟨d, cmd⟩
          · exact ⟨_, .percent hrest⟩
          · exact ⟨_, .command (List.cons_ne_nil d cmd) hcmd hrest⟩
        · obtain ⟨rest, hrest⟩ := ih t.length (by omega) t rfl
          exact ⟨_, .unterminated hpercent hrest⟩
      · obtain ⟨rest, hrest⟩ := ih t.length (by omega) t rfl
        exact ⟨_, .literal hc hrest⟩

/-- A format has one list of pieces. -/
theorem Split.unique {pieces' : List Piece} (h : Split logformat pieces) (h' : Split logformat pieces') :
    pieces = pieces' := by
  induction h generalizing pieces' with
  | nil =>
    cases h'
    rfl
  | literal hc h ih =>
    cases h' with
    | literal _ h' => rw [ih h']
    | percent _ => exact absurd rfl hc
    | command _ _ _ => exact absurd rfl hc
    | unterminated _ _ => exact absurd rfl hc
  | percent h ih =>
    generalize htext : '%' :: '%' :: _ = text at h'
    cases h' with
    | nil => cases htext
    | literal hc _ => exact absurd (List.cons.inj htext).1.symm hc
    | percent h' =>
      rw [ih ((List.cons.inj (List.cons.inj htext).2).2 ▸ h')]
    | @command cmd t _ hne hcmd _ =>
      obtain ⟨d, cmd, rfl⟩ := List.exists_cons_of_ne_nil hne
      have hd : '%' = d := (List.cons.inj (List.cons.inj htext).2).1
      exact absurd (hd ▸ List.mem_cons_self) hcmd
    | unterminated ht _ => exact absurd ((List.cons.inj htext).2 ▸ List.mem_cons_self) ht
  | @command cmd t _ hne hcmd h ih =>
    generalize htext : '%' :: (cmd ++ '%' :: t) = text at h'
    cases h' with
    | nil => cases htext
    | literal hc _ => exact absurd (List.cons.inj htext).1.symm hc
    | percent h' =>
      obtain ⟨d, cmd, rfl⟩ := List.exists_cons_of_ne_nil hne
      have hd : d = '%' := (List.cons.inj (List.cons.inj htext).2).1
      exact absurd (hd ▸ List.mem_cons_self) hcmd
    | @command cmd' t' _ hne' hcmd' h' =>
      have hboth : cmd ++ '%' :: t = cmd' ++ '%' :: t' := (List.cons.inj htext).2
      have hword := (takeWhile_append_cons hcmd t).1
      rw [hboth, (takeWhile_append_cons hcmd' t').1] at hword
      subst hword
      rw [ih ((List.cons.inj (List.append_cancel_left hboth)).2 ▸ h')]
    | unterminated ht _ => exact absurd ((List.cons.inj htext).2 ▸ List.mem_append_right _ List.mem_cons_self) ht
  | @unterminated t _ ht h ih =>
    generalize htext : '%' :: t = text at h'
    cases h' with
    | nil => cases htext
    | literal hc _ => exact absurd (List.cons.inj htext).1.symm hc
    | percent _ => exact absurd ((List.cons.inj htext).2.symm ▸ List.mem_cons_self) ht
    | command _ _ _ => exact absurd ((List.cons.inj htext).2.symm ▸ List.mem_append_right _ List.mem_cons_self) ht
    | unterminated _ h' => rw [ih ((List.cons.inj htext).2 ▸ h')]

/-- The call for a piece. -/
def callOf : Piece → Flist
  | .literal c => literal [c]
  | .percent => literal "%".toList
  | .command cmd => commandCall cmd
  | .unterminated => literal invalid

theorem compileFrom_skip (pre t : CStr) : compileFrom (pre ++ t) pre.length = compileFrom t 0 := by
  induction pre with
  | nil => rfl
  | cons c pre ih => exact ih

/-- The compiler makes one call for each piece. -/
theorem compileFormat_split (h : Split logformat pieces) : compileFormat logformat = pieces.map callOf := by
  unfold compileFormat
  induction h with
  | nil => rfl
  | literal hc h ih => rw [compileFrom, if_pos hc, ih, List.map_cons, callOf]
  | percent h ih =>
    rw [compileFrom, if_neg (not_not.2 rfl), if_pos List.head?_cons, List.map_cons, callOf, ← ih]
    exact congrArg _ (compileFrom_skip ['%'] _)
  | @command cmd t _ hne hcmd h ih =>
    obtain ⟨d, cmd', rfl⟩ := List.exists_cons_of_ne_nil hne
    have hd : d ≠ '%' := fun h => hcmd (h ▸ List.mem_cons_self)
    have hskip : compileFrom (d :: cmd' ++ '%' :: t) ((d :: cmd').length + 1) = compileFrom t 0 := by
      have := compileFrom_skip (d :: cmd' ++ ['%']) t
      simpa using this
    have hhead : (d :: cmd' ++ '%' :: t).head? ≠ some '%' := fun h => hd (Option.some.inj h)
    rw [compileFrom, if_neg (not_not.2 rfl), if_neg hhead, if_neg (not_not.2 (List.mem_append_right _ List.mem_cons_self))]
    dsimp only
    rw [(takeWhile_append_cons hcmd t).1, hskip, ih, List.map_cons, callOf]
  | @unterminated t _ ht h ih =>
    have hhead : t.head? ≠ some '%' := fun h => ht (List.mem_of_mem_head? h)
    rw [compileFrom, if_neg (not_not.2 rfl), if_neg hhead, if_pos ht, ih, List.map_cons, callOf]

/-- The line is what the calls print, as far as it fits. -/
theorem runFlist_eq (e : Env) (fhead : List Flist) :
    runFlist e fhead = (fhead.mapM (call e)).map fun texts => texts.flatten.take (largebuf - 2) := by
  have hfold : ∀ (fhead : List Flist) (pre : CStr),
      fhead.foldlM (fun logbuffer tmp => (call e tmp).map (snprintfcat logbuffer largebuf)) (pre.take (largebuf - 2)) =
        (fhead.mapM (call e)).map fun texts => (pre ++ texts.flatten).take (largebuf - 2) := by
    intro fhead
    induction fhead with
    | nil =>
      intro pre
      simp
    | cons tmp fhead ih =>
      intro pre
      rw [List.foldlM_cons, List.mapM_cons]
      cases hcall : call e tmp with
      | none => rfl
      | some text =>
        have hcat : snprintfcat (pre.take (largebuf - 2)) largebuf text = (pre ++ text).take (largebuf - 2) := by
          rw [snprintfcat_eq_take (List.length_take_le _ _), take_take_append]
        change List.foldlM _ (snprintfcat (pre.take (largebuf - 2)) largebuf text) fhead = _
        rw [hcat, ih (pre ++ text)]
        cases fhead.mapM (call e) <;> simp
  have := hfold fhead []
  simpa [runFlist] using this

/-- A piece has one text to print. -/
theorem Prints.unique {piece : Piece} {text text' : CStr} (h : Prints e known piece text) (h' : Prints e known piece text') :
    text = text' := by
  cases piece with
  | command cmd =>
    cases hknown : known (wordOf cmd) with
    | none =>
      rw [Prints, hknown] at h h'
      exact h.trans h'.symm
    | some c =>
      rw [Prints, hknown] at h h'
      exact Option.some.inj (h.symm.trans h')
  | _ => exact h.trans h'.symm

theorem texts_unique {texts texts' : List CStr} (h : List.Forall₂ (Prints e known) pieces texts)
    (h' : List.Forall₂ (Prints e known) pieces texts') : texts = texts' := by
  induction h generalizing texts' with
  | nil =>
    cases h'
    rfl
  | cons hpiece _ ih =>
    cases h' with
    | cons hpiece' h' => rw [hpiece.unique hpiece', ih h']

/-- The texts of all pieces, where each of them prints what it should. -/
theorem mapM_prints (pieces : List Piece) :
    (∃ texts, (pieces.map callOf).mapM (call e) = some texts ∧ List.Forall₂ (Prints e known) pieces texts) ↔
      ∀ piece ∈ pieces, ∃ text, call e (callOf piece) = some text ∧ Prints e known piece text := by
  induction pieces with
  | nil => simp
  | cons piece pieces ih =>
    rw [List.forall_mem_cons, ← ih, List.map_cons, List.mapM_cons]
    constructor
    · rintro ⟨texts, hmap, htexts⟩
      obtain ⟨text, hcall, hmap⟩ := Option.bind_eq_some_iff.1 hmap
      obtain ⟨rest, hrest, hcons⟩ := Option.bind_eq_some_iff.1 hmap
      obtain rfl := Option.some.inj hcons
      obtain ⟨hpiece, hpieces⟩ := List.forall₂_cons.1 htexts
      exact ⟨⟨text, hcall, hpiece⟩, rest, hrest, hpieces⟩
    · rintro ⟨⟨text, hcall, hpiece⟩, rest, hrest, hpieces⟩
      rw [hcall, hrest]
      exact ⟨text :: rest, rfl, .cons hpiece hpieces⟩

/-- A format is rendered if each of its pieces prints what it should and one more character would fit. -/
theorem renders_iff (h : Split logformat pieces) :
    Renders e known logformat ↔
      (∀ piece ∈ pieces, ∃ text, call e (callOf piece) = some text ∧ Prints e known piece text) ∧
        RoomLeft e known logformat := by
  rw [← mapM_prints]
  have hcompile := compileFormat_split h
  constructor
  · rintro ⟨pieces₁, texts, line, h₁, hmap, htexts, hrun, hline⟩
    obtain rfl := h.unique h₁
    refine ⟨⟨texts, hcompile ▸ hmap, htexts⟩, fun pieces₂ h₂ texts₂ htexts₂ hlength => ?_⟩
    obtain rfl := h.unique h₂
    obtain rfl := texts_unique htexts htexts₂
    -- the line would have all the characters, and it has one less
    rw [runFlist_eq, hmap, hline (by rw [hlength]; decide)] at hrun
    have hcut := congrArg List.length (Option.some.inj hrun)
    rw [List.length_take, hlength] at hcut
    exact absurd hcut (by decide)
  · rintro ⟨⟨texts, hmap, htexts⟩, hroom⟩
    rw [← hcompile] at hmap
    refine ⟨pieces, texts, texts.flatten.take (largebuf - 2), h, hmap, htexts, by rw [runFlist_eq, hmap]; rfl,
      fun hlt => List.take_of_length_le ?_⟩
    have hne := hroom pieces h texts htexts
    omega

end Pieces

section Commands

variable {e : Env} {known : CStr → Option Cmd} {logformat : CStr} {pieces : List Piece}

theorem strncasecmp_congr {name name' : CStr} (h : Nut.tolower name = Nut.tolower name') (t : CStr) (n : Nat) :
    strncasecmp name t n = .eq ↔ strncasecmp name' t n = .eq := by
  have htake : Nut.tolower (name.take n) = Nut.tolower (name'.take n) := by
    unfold Nut.tolower at h ⊢
    rw [List.map_take, List.map_take, h]
  rw [strncasecmp, strncasecmp, strcasecmp_eq, strcasecmp_eq, htake]

theorem byPrefix_congr {name name' : CStr} (h : Nut.tolower name = Nut.tolower name') : byPrefix name = byPrefix name' := by
  unfold byPrefix
  congr 2
  exact funext fun c => decide_eq_decide.2 (strncasecmp_congr h c.1 c.1.length)

theorem byPrefix_logcmds : ∀ c ∈ logcmds, byPrefix c.1 = some c.2 := by decide

/-- A whole name is found as it should be. -/
theorem byPrefix_of_exactly {name : CStr} {c : Cmd} (h : exactly name = some c) : byPrefix name = some c := by
  obtain ⟨entry, hfind, rfl⟩ := Option.map_eq_some_iff.1 h
  have hname : strcasecmp name entry.1 = .eq := by simpa using List.find?_some hfind
  rw [byPrefix_congr (strcasecmp_eq.1 hname)]
  exact byPrefix_logcmds entry (List.mem_of_find?_eq_some hfind)

theorem commandCall_of_some {cmd : CStr} {c : Cmd} (h : byPrefix (wordOf cmd) = some c) :
    commandCall cmd = ⟨.logcmd c, argOf cmd⟩ := by
  obtain ⟨entry, hfind, rfl⟩ := Option.map_eq_some_iff.1 h
  rw [commandCall, hfind]

theorem commandCall_of_none {cmd : CStr} (h : byPrefix (wordOf cmd) = none) : commandCall cmd = literal invalid := by
  rw [commandCall, Option.map_eq_none_iff.1 h]

theorem call_isSome {c : Cmd} {arg : Option CStr} :
    (∃ text, call e ⟨.logcmd c, arg⟩ = some text) ↔
      (c = .time → ∃ format, arg = some format ∧ (e.strftime (timeFormat format)).length < smallbuf) := by
  by_cases hc : c = .time
  · subst hc
    rcases arg with _ | format
    · constructor
      · rintro ⟨text, h⟩
        cases h
      · intro h
        obtain ⟨format, h, -⟩ := h rfl
        cases h
    · change (∃ text, (if (e.strftime (timeFormat format)).length < smallbuf then some (e.strftime (timeFormat format)) else none) =
        some text) ↔ _
      by_cases hfits : (e.strftime (timeFormat format)).length < smallbuf
      · rw [if_pos hfits]
        exact iff_of_true ⟨_, rfl⟩ fun _ => ⟨format, rfl, hfits⟩
      · rw [if_neg hfits]
        constructor
        · rintro ⟨text, h⟩
          cases h
        · intro h
          obtain ⟨format', h, hfits'⟩ := h rfl
          exact absurd (Option.some.inj h ▸ hfits') hfits
  · refine iff_of_true ?_ fun h => absurd h hc
    cases c with
    | time => exact absurd rfl hc
    | _ => exact ⟨_, rfl⟩

/-- A piece that is no command prints itself. -/
theorem prints_of_not_command {piece : Piece} (h : ∀ cmd, piece ≠ .command cmd) :
    ∃ text, call e (callOf piece) = some text ∧ Prints e known piece text := by
  cases piece with
  | command cmd => exact absurd rfl (h cmd)
  | _ => exact ⟨_, rfl, rfl⟩

theorem prints_byPrefix (cmd : CStr) :
    (∃ text, call e (callOf (.command cmd)) = some text ∧ Prints e byPrefix (.command cmd) text) ↔
      (byPrefix (wordOf cmd) = some .time →
        ∃ format, argOf cmd = some format ∧ (e.strftime (timeFormat format)).length < smallbuf) := by
  cases h : byPrefix (wordOf cmd) with
  | none =>
    refine iff_of_true ⟨invalid, ?_, ?_⟩ fun h => by cases h
    · rw [callOf, commandCall_of_none h]
      rfl
    · rw [Prints, h]
  | some c =>
    rw [callOf, commandCall_of_some h, Option.some.injEq, ← call_isSome]
    refine exists_congr fun text => ?_
    rw [Prints, h]
    exact and_self_iff

theorem prints_exactly (cmd : CStr) :
    (∃ text, call e (callOf (.command cmd)) = some text ∧ Prints e exactly (.command cmd) text) ↔
      (∃ text, call e (callOf (.command cmd)) = some text ∧ Prints e byPrefix (.command cmd) text) ∧
        ∀ c, byPrefix (wordOf cmd) = some c → exactly (wordOf cmd) = none → call e ⟨.logcmd c, argOf cmd⟩ = some invalid := by
  cases hexact : exactly (wordOf cmd) with
  | some c =>
    have hprefix := byPrefix_of_exactly hexact
    simp only [Prints, hexact, hprefix]
    exact ⟨fun h => ⟨h, fun _ _ h => by cases h⟩, And.left⟩
  | none =>
    cases hprefix : byPrefix (wordOf cmd) with
    | none =>
      simp only [Prints, hexact, hprefix]
      exact ⟨fun h => ⟨h, fun c h => by cases h⟩, And.left⟩
    | some c =>
      simp only [Prints, hexact, hprefix, callOf, commandCall_of_some hprefix]
      constructor
      · rintro ⟨text, hcall, rfl⟩
        exact ⟨⟨_, hcall, hcall⟩, fun c' hc' _ => Option.some.inj hc' ▸ hcall⟩
      · rintro ⟨-, hcall⟩
        exact ⟨invalid, hcall c rfl trivial, rfl⟩

theorem forall_pieces {P : CStr → Prop} (h : Split logformat pieces) :
    (∀ pieces, Split logformat pieces → ∀ cmd, .command cmd ∈ pieces → P cmd) ↔ ∀ cmd, .command cmd ∈ pieces → P cmd := by
  constructor
  · intro hall
    exact hall pieces h
  · intro hall pieces' h'
    obtain rfl := h.unique h'
    exact hall

end Commands

/-- Every format is rendered whose times have a format with a text that fits, unless the line is one character short of
the buffer's size; and where only the whole name of a command is one, no word may begin with a name and go on, unless it
prints what an unknown one does. -/
theorem upslog_renders_iff (e : Env) (logformat : CStr) :
    (Renders e byPrefix logformat ↔ TimesGiven e logformat ∧ RoomLeft e byPrefix logformat) ∧
      (Renders e exactly logformat ↔
        (TimesGiven e logformat ∧ NamesWhole e logformat) ∧ RoomLeft e exactly logformat) := by
  obtain ⟨pieces, h⟩ := Split.exists logformat
  have hcommands : ∀ known, Renders e known logformat ↔ (∀ cmd, .command cmd ∈ pieces →
      ∃ text, call e (callOf (.command cmd)) = some text ∧ Prints e known (.command cmd) text) ∧
        RoomLeft e known logformat := by
    intro known
    rw [renders_iff h]
    refine and_congr_left fun _ => ?_
    constructor
    · exact fun hall cmd hcmd => hall _ hcmd
    · intro hall piece hpiece
      cases piece with
      | command cmd => exact hall cmd hpiece
      | _ => exact prints_of_not_command (by simp)
  have hgiven : (∀ cmd, .command cmd ∈ pieces → ∃ text, call e (callOf (.command cmd)) = some text ∧
      Prints e byPrefix (.command cmd) text) ↔ TimesGiven e logformat := by
    rw [TimesGiven, forall_pieces h]
    exact forall₂_congr fun cmd _ => prints_byPrefix cmd
  constructor
  · rw [hcommands, hgiven]
  · rw [hcommands, ← hgiven, NamesWhole, forall_pieces h, ← forall₂_and]
    exact and_congr_left fun _ => forall₂_congr fun cmd _ => prints_exactly cmd

/-- A time without a format ends the program. -/
theorem bare_time_fails :
    ¬ Renders ⟨none, "localhost".toList, 1, 0, fun format => format, none, fun _ => none⟩ byPrefix "%TIME%".toList ∧
      ¬ Renders ⟨none, "localhost".toList, 1, 0, fun format => format, none, fun _ => none⟩ exactly "%TIME%".toList := by
  have hrun : runFlist ⟨none, "localhost".toList, 1, 0, fun format => format, none, fun _ => none⟩
      (compileFormat "%TIME%".toList) = none := by decide +kernel
  constructor
  · rintro ⟨pieces, texts, line, -, -, -, h, -⟩
    cases hrun.symm.trans h
  · rintro ⟨pieces, texts, line, -, -, -, h, -⟩
    cases hrun.symm.trans h

end Upslog

end Nut
