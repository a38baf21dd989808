import Nut.Common.CString

/-!
# `user.c`: the users of `upsd`

The list of users read from `upsd.users`, one parsed line at a time (`userParseArg`), and the questions that the
commands ask of it.  A line is given as the list of its arguments.

`curr_user` points to an entry of the list; names are not repeated there, so it is the name of the entry.
-/

namespace Nut

structure Ulist where
  username : CStr
  password : Option CStr
  firstcmd : List CStr
  firstaction : List CStr
  deriving DecidableEq

structure UserState where
  users : List Ulist
  currUser : Option CStr
  deriving DecidableEq

/-- The users and `curr_user` when `user_load` starts to read. -/
def UserState.empty : UserState := ⟨[], none⟩

def userAdd (s : UserState) (un : CStr) : UserState :=
  if s.users.any fun tmp => tmp.username = un then s
  else { users := s.users ++ [⟨un, none, [], []⟩], currUser := some un }

/-- Change the entry that `curr_user` points to, if there is one. -/
def UserState.modifyCurr (s : UserState) (f : Ulist → Ulist) : UserState :=
  match s.currUser with
  | none => s
  | some un => { s with users := s.users.map fun u => if u.username = un then f u else u }

def userPassword (s : UserState) (pw : CStr) : UserState :=
  s.modifyCurr fun u => if u.password.isSome then u else { u with password := some pw }

def userAddInstcmd (s : UserState) (cmd : CStr) : UserState :=
  s.modifyCurr fun u =>
    if u.firstcmd.any fun tmp => strcasecmp tmp cmd = .eq then u else { u with firstcmd := u.firstcmd ++ [cmd] }

def userAddAction (s : UserState) (act : CStr) : UserState :=
  s.modifyCurr fun u => { u with firstaction := u.firstaction ++ [act] }

def setUpsmonType (s : UserState) (type : CStr) : UserState :=
  if strcasecmp type "master".toList = .eq then
    userAddAction (userAddAction (userAddAction s "login".toList) "master".toList) "fsd".toList
  else if strcasecmp type "slave".toList = .eq then userAddAction s "login".toList
  else s

def parseVar (s : UserState) (var val : CStr) : UserState :=
  if strcasecmp var "password".toList = .eq then userPassword s val
  else if strcasecmp var "instcmds".toList = .eq then userAddInstcmd s val
  else if strcasecmp var "actions".toList = .eq then userAddAction s val
  else if strcasecmp var "allowfrom".toList = .eq then s
  else if strcasecmp var "upsmon".toList = .eq then setUpsmonType s val
  else s

/-- The first value and the remaining ones. -/
def parseRest (s : UserState) (var fval : CStr) (rest : List CStr) : UserState :=
  match s.currUser with
  | none => s
  | some _ => (fval :: rest).foldl (fun s val => parseVar s var val) s

/-- `[name]` -/
def sectionName (arg0 : CStr) : Option CStr :=
  if arg0.head? = some '[' ∧ arg0.getLast? = some ']' then some arg0.dropLast.tail else none

def userParseArg (s : UserState) : List CStr → UserState
  | [] => s
  | arg0 :: rest =>
    if strcasecmp arg0 "user".toList = .eq then s
    else if '=' ∈ arg0 then parseRest s (arg0.takeWhile (· ≠ '=')) (arg0.dropWhile (· ≠ '=')).tail rest
    else
      match sectionName arg0 with
      | some un => userAdd s un
      | none =>
        match rest with
        | [] => s
        | [arg1] => if strcasecmp arg0 "upsmon".toList = .eq then setUpsmonType s arg1 else s
        | arg1 :: arg2 :: rest =>
          let s := if strcasecmp arg0 "upsmon".toList = .eq then setUpsmonType s arg1 else s
          if arg1 = "=".toList then parseRest s arg0 arg2 rest else s

/-- The lines that `user_load` reads without a parse error. -/
def userLoad (lines : List (List CStr)) : UserState := lines.foldl userParseArg .empty

/-! ### Questions -/

def userMatchinstcmd (user : Ulist) (cmd : CStr) : Bool :=
  user.firstcmd.any fun tmp => strcasecmp tmp cmd = .eq ∨ strcasecmp tmp "all".toList = .eq

def userMatchaction (user : Ulist) (action : CStr) : Bool :=
  user.firstaction.any fun tmp => strcasecmp tmp action = .eq

/-- The first entry with that name and some password decides. -/
def userCheck (users : List Ulist) (un pw : Option CStr) (ok : Ulist → Bool) : Bool :=
  match un, pw with
  | some un, some pw =>
    match users.find? fun tmp => tmp.password.isSome ∧ tmp.username = un with
    | none => false
    | some tmp => tmp.password = some pw ∧ ok tmp
  | _, _ => false

def userCheckinstcmd (users : List Ulist) (un pw : Option CStr) (cmd : CStr) : Bool :=
  userCheck users un pw fun user => userMatchinstcmd user cmd

def userCheckaction (users : List Ulist) (un pw : Option CStr) (action : CStr) : Bool :=
  userCheck users un pw fun user => userMatchaction user action

end Nut
