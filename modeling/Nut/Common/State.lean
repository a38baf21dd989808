import Nut.Common.Parseconf
import Nut.Lib.SearchTree

/-!
# `state.c`: the tree of variables

The operations on the tree of variables and on the list of instant commands that drivers and the server share.  Each
is the loop of the source written as a recursion; those that return whether something changed return it as a `Bool`.
The enumerations and ranges of a variable keep the order of the linked lists.

A node's `val` is the text behind the pointer `val`; the sizes of the buffers `raw` and `safe`, which grow as needed,
are not modelled.
-/

namespace Nut

def stMaxValueLen : Nat := 256
def stSockBufLen : Nat := 512
def smallbuf : Nat := 512

def stFlagRw : BitVec 32 := 0x0001
def stFlagString : BitVec 32 := 0x0002
def stFlagImmutable : BitVec 32 := 0x0004

structure Range where
  min : Int32
  max : Int32
  deriving DecidableEq

structure StNode where
  var : CStr
  val : CStr
  raw : CStr
  flags : BitVec 32
  aux : Int32
  enumList : List CStr
  rangeList : List Range
  deriving DecidableEq

abbrev StTree := SearchTree.Tree StNode

def valEscape (node : StNode) : StNode :=
  let etmp := pconfEncode node.raw stMaxValueLen
  if node.raw = etmp then { node with val := node.raw } else { node with val := etmp }

def stateTreeFind : StTree → CStr → Option StNode
  | .nil, _ => none
  | .node left node right, var =>
    match strcasecmp node.var var with
    | .gt => stateTreeFind left var
    | .lt => stateTreeFind right var
    | .eq => some node

/-- The tree after a change of the node that `stateTreeFind` returns. -/
def stateTreeStore : StTree → CStr → StNode → StTree
  | .nil, _, _ => .nil
  | .node left node right, var, new =>
    match strcasecmp node.var var with
    | .gt => .node (stateTreeStore left var new) node right
    | .lt => .node left node (stateTreeStore right var new)
    | .eq => .node left new right

/-- The loop of `st_tree_node_add`: find the place of `sptr`, whose root is called `var`. -/
def stTreeNodeAddLoop (sptr : StTree) (var : CStr) : StTree → StTree
  | .nil => sptr
  | .node left node right =>
    match strcasecmp node.var var with
    | .gt => .node (stTreeNodeAddLoop sptr var left) node right
    | .lt => .node left node (stTreeNodeAddLoop sptr var right)
    | .eq => .node left node right

def stTreeNodeAdd (nptr sptr : StTree) : StTree :=
  match sptr with
  | .nil => nptr
  | .node _ root _ => stTreeNodeAddLoop sptr root.var nptr

def stateDelinfo : StTree → CStr → StTree × Bool
  | .nil, _ => (.nil, false)
  | .node left node right, var =>
    match strcasecmp node.var var with
    | .gt => (.node (stateDelinfo left var).1 node right, (stateDelinfo left var).2)
    | .lt => (.node left node (stateDelinfo right var).1, (stateDelinfo right var).2)
    -- whatever is on the left is hung off the right child, which takes the place of the node
    | .eq => (stTreeNodeAdd right left, true)

/-- The node that `state_setinfo` creates. -/
def newNode (var val : CStr) : StNode :=
  valEscape { var := var, val := [], raw := val, flags := 0, aux := 0, enumList := [], rangeList := [] }

def stateSetinfo : StTree → CStr → CStr → StTree × Bool
  | .nil, var, val => (.node .nil (newNode var val) .nil, true)
  | .node left node right, var, val =>
    match strcasecmp node.var var with
    | .gt => (.node (stateSetinfo left var val).1 node right, (stateSetinfo left var val).2)
    | .lt => (.node left node (stateSetinfo right var val).1, (stateSetinfo right var val).2)
    | .eq =>
      if strcasecmp node.raw val = .eq then (.node left node right, false)
      else if node.flags &&& stFlagImmutable ≠ 0 then (.node left node right, false)
      else (.node left (valEscape { node with raw := val }) right, true)

def stTreeEnumAdd : List CStr → CStr → List CStr × Bool
  | [], enc => ([enc], true)
  | item :: list, enc =>
    if item ≠ enc then (item :: (stTreeEnumAdd list enc).1, (stTreeEnumAdd list enc).2)
    else (item :: list, false)

def stateAddenum (root : StTree) (var val : CStr) : StTree × Bool :=
  match stateTreeFind root var with
  | none => (root, false)
  | some sttmp =>
    let enc := pconfEncode val stMaxValueLen
    let r := stTreeEnumAdd sttmp.enumList enc
    (stateTreeStore root var { sttmp with enumList := r.1 }, r.2)

def stTreeRangeAdd : List Range → Int32 → Int32 → List Range × Bool
  | [], min, max => ([⟨min, max⟩], true)
  | item :: list, min, max =>
    if item.min ≠ min ∧ item.max ≠ max then
      (item :: (stTreeRangeAdd list min max).1, (stTreeRangeAdd list min max).2)
    else (item :: list, false)

def stateAddrange (root : StTree) (var : CStr) (min max : Int32) : StTree × Bool :=
  if max < min then (root, false)
  else
    match stateTreeFind root var with
    | none => (root, false)
    | some sttmp =>
      let r := stTreeRangeAdd sttmp.rangeList min max
      (stateTreeStore root var { sttmp with rangeList := r.1 }, r.2)

/-- The result is that of the source: -1 for an unknown variable, 0 for no change. -/
def stateSetaux (root : StTree) (var auxs : CStr) : StTree × Int :=
  match stateTreeFind root var with
  | none => (root, -1)
  | some sttmp =>
    let aux := atoi auxs
    if sttmp.aux = aux then (root, 0) else (stateTreeStore root var { sttmp with aux := aux }, 1)

def stateGetinfo (root : StTree) (var : CStr) : Option CStr := (stateTreeFind root var).map StNode.val

/-- -1, that is all bits set, for an unknown variable. -/
def stateGetflags (root : StTree) (var : CStr) : BitVec 32 :=
  match stateTreeFind root var with
  | none => -1
  | some sttmp => sttmp.flags

def stateGetaux (root : StTree) (var : CStr) : Int32 :=
  match stateTreeFind root var with
  | none => -1
  | some sttmp => sttmp.aux

/-- An empty list is a null pointer. -/
def stateGetenumlist (root : StTree) (var : CStr) : List CStr :=
  match stateTreeFind root var with
  | none => []
  | some sttmp => sttmp.enumList

def stateGetrangelist (root : StTree) (var : CStr) : List Range :=
  match stateTreeFind root var with
  | none => []
  | some sttmp => sttmp.rangeList

/-- One round of the loop of `state_setflags`. -/
def setflag (flags : BitVec 32) (flag : CStr) : BitVec 32 :=
  if strcasecmp flag "RW".toList = .eq then flags ||| stFlagRw
  else if strcasecmp flag "STRING".toList = .eq then flags ||| stFlagString
  else flags

def stateSetflags (root : StTree) (var : CStr) (flag : List CStr) : StTree :=
  match stateTreeFind root var with
  | none => root
  | some sttmp => stateTreeStore root var { sttmp with flags := flag.foldl setflag 0 }

def stateAddcmd : List CStr → CStr → List CStr × Bool
  | [], cmd => ([cmd], true)
  | name :: list, cmd =>
    match strcasecmp name cmd with
    | .gt => (cmd :: name :: list, true)
    | .lt => (name :: (stateAddcmd list cmd).1, (stateAddcmd list cmd).2)
    | .eq => (name :: list, false)

def stateDelcmd : List CStr → CStr → List CStr × Bool
  | [], _ => ([], false)
  | name :: list, cmd =>
    match strcasecmp name cmd with
    | .gt => (name :: list, false)
    | .lt => (name :: (stateDelcmd list cmd).1, (stateDelcmd list cmd).2)
    | .eq => (list, true)

def stTreeDelEnum : List CStr → CStr → List CStr × Bool
  | [], _ => ([], false)
  | item :: list, val =>
    if strcasecmp item val ≠ .eq then (item :: (stTreeDelEnum list val).1, (stTreeDelEnum list val).2)
    else (list, true)

def stateDelenum (root : StTree) (var val : CStr) : StTree × Bool :=
  match stateTreeFind root var with
  | none => (root, false)
  | some sttmp =>
    let r := stTreeDelEnum sttmp.enumList val
    (stateTreeStore root var { sttmp with enumList := r.1 }, r.2)

def stTreeDelRange : List Range → Int32 → Int32 → List Range × Bool
  | [], _, _ => ([], false)
  | item :: list, min, max =>
    if item.min ≠ min ∧ item.max ≠ max then
      (item :: (stTreeDelRange list min max).1, (stTreeDelRange list min max).2)
    else (list, true)

def stateDelrange (root : StTree) (var : CStr) (min max : Int32) : StTree × Bool :=
  match stateTreeFind root var with
  | none => (root, false)
  | some sttmp =>
    let r := stTreeDelRange sttmp.rangeList min max
    (stateTreeStore root var { sttmp with rangeList := r.1 }, r.2)

end Nut
