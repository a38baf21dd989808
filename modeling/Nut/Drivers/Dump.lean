import Nut.Drivers.Dstate

/-!
# The answer to `DUMPALL`

When no write fails, `dumpAll` writes the lines `dumpLines` to the connection that asked, each cut to the size of the
buffer, and changes nothing else of the driver (`dumpAll_sent`).
-/

namespace Nut

/-- The lines that answer `DUMPALL`. -/
def dumpLines (d : Dstate) : List CStr :=
  (if d.stale then ["DATASTALE\n".toList] else []) ++ d.dtreeRoot.walk.flatMap nodeDump ++
    d.cmdhead.map (fun name => "ADDCMD ".toList ++ name ++ "\n".toList) ++
    (if d.stale then [] else ["DATAOK\n".toList]) ++ ["DUMPDONE\n".toList]

/-- The connection `fd` after more was written to it. -/
def writeTo (fd : Nat) (text : CStr) (conn : Conn) : Conn :=
  if conn.fd = fd then { conn with out := conn.out ++ text } else conn

/-- `d'` is `d` after `text` was written to the connection `fd`. -/
structure Sent (fd : Nat) (text : CStr) (d d' : Dstate) : Prop where
  tree : d'.dtreeRoot = d.dtreeRoot
  cmds : d'.cmdhead = d.cmdhead
  stale : d'.stale = d.stale
  conns : d'.connhead = d.connhead.map (writeTo fd text)

namespace Sent

variable {fd : Nat} {text text' : CStr} {d d' d'' : Dstate}

theorem refl (fd : Nat) (d : Dstate) : Sent fd [] d d := by
  refine ⟨rfl, rfl, rfl, ?_⟩
  have hid : writeTo fd [] = id := by
    funext conn
    simp [writeTo]
  rw [hid, List.map_id]

theorem trans (h : Sent fd text d d') (h' : Sent fd text' d' d'') : Sent fd (text ++ text') d d'' := by
  refine ⟨h'.tree.trans h.tree, h'.cmds.trans h.cmds, h'.stale.trans h.stale, ?_⟩
  have hcomp : writeTo fd text' ∘ writeTo fd text = writeTo fd (text ++ text') := by
    funext conn
    by_cases hfd : conn.fd = fd
    · simp [writeTo, hfd]
    · simp [writeTo, hfd]
  rw [h'.conns, h.conns, List.map_map, hcomp]

theorem find (h : Sent fd text d d') :
    (d'.connhead.find? fun conn => conn.fd = fd) =
      (d.connhead.find? fun conn => conn.fd = fd).map fun conn => { conn with out := conn.out ++ text } := by
  rw [h.conns, List.find?_map]
  have hfd : (fun conn => decide (conn.fd = fd)) ∘ writeTo fd text = fun conn => decide (conn.fd = fd) := by
    funext conn
    by_cases hfd : conn.fd = fd
    · simp [writeTo, hfd]
    · simp [writeTo, hfd]
  rw [hfd]
  refine Option.map_congr fun conn hc => ?_
  have hconn : conn.fd = fd := by simpa using List.find?_some hc
  simp [writeTo, hconn]

theorem connOut (h : Sent fd text d d') : Nut.connOut d' fd = (Nut.connOut d fd).map (· ++ text) := by
  rw [Nut.connOut, Nut.connOut, h.find, Option.map_map, Option.map_map]
  rfl

end Sent

section Delivered

variable {w : Nat → Bool} (hw : ∀ n, w n = true) (fd : Nat)
include hw

theorem sendToOne_sent (d : Dstate) (text : CStr) :
    ∃ d', sendToOne w fd d text = (d', true) ∧ Sent fd (snprintf stSockBufLen text) d d' := by
  unfold sendToOne
  split
  · rename_i h
    have hnil : text = [] := List.eq_nil_of_length_eq_zero (by omega)
    exact ⟨d, rfl, by rw [hnil]; exact .refl fd d⟩
  · simp only [hw, if_true]
    exact ⟨_, rfl, rfl, rfl, rfl, rfl⟩

theorem sendLines_sent (d : Dstate) (lines : List CStr) :
    ∃ d', sendLines w fd d lines = (d', true) ∧ Sent fd (lines.flatMap (snprintf stSockBufLen)) d d' := by
  induction lines generalizing d with
  | nil => exact ⟨d, rfl, .refl fd d⟩
  | cons text lines ih =>
    obtain ⟨d₁, h₁, hs₁⟩ := sendToOne_sent hw fd d text
    obtain ⟨d₂, h₂, hs₂⟩ := ih d₁
    refine ⟨d₂, by simp only [sendLines, h₁, h₂], ?_⟩
    rw [List.flatMap_cons]
    exact hs₁.trans hs₂

theorem stTreeDumpConn_sent (d : Dstate) (t : StTree) :
    ∃ d', stTreeDumpConn w fd d t = (d', true) ∧
      Sent fd ((t.walk.flatMap nodeDump).flatMap (snprintf stSockBufLen)) d d' := by
  induction t generalizing d with
  | nil => exact ⟨d, rfl, .refl fd d⟩
  | node left n right ihl ihr =>
    obtain ⟨d₁, h₁, hs₁⟩ := ihl d
    obtain ⟨d₂, h₂, hs₂⟩ := sendLines_sent hw fd d₁ (nodeDump n)
    obtain ⟨d₃, h₃, hs₃⟩ := ihr d₂
    refine ⟨d₃, by simp only [stTreeDumpConn, h₁, h₂, h₃], ?_⟩
    have hwalk : ((SearchTree.Tree.node left n right).walk.flatMap nodeDump).flatMap (snprintf stSockBufLen) =
        (left.walk.flatMap nodeDump).flatMap (snprintf stSockBufLen) ++
          (nodeDump n).flatMap (snprintf stSockBufLen) ++
            (right.walk.flatMap nodeDump).flatMap (snprintf stSockBufLen) := by
      simp
    rw [hwalk]
    exact (hs₁.trans hs₂).trans hs₃

/-- `DUMPALL` is answered with `dumpLines`. -/
theorem dumpAll_sent (d : Dstate) : Sent fd ((dumpLines d).flatMap (snprintf stSockBufLen)) d (dumpAll w fd d) := by
  obtain ⟨d₁, h₁, hs₁⟩ : ∃ d₁,
      (if d.stale then sendToOne w fd d "DATASTALE\n".toList else (d, true)) = (d₁, true) ∧
        Sent fd ((if d.stale then ["DATASTALE\n".toList] else []).flatMap (snprintf stSockBufLen)) d d₁ := by
    split
    · obtain ⟨d₁, h₁, hs₁⟩ := sendToOne_sent hw fd d "DATASTALE\n".toList
      exact ⟨d₁, h₁, by simpa using hs₁⟩
    · exact ⟨d, rfl, .refl fd d⟩
  obtain ⟨d₂, h₂, hs₂⟩ := stTreeDumpConn_sent hw fd d₁ d₁.dtreeRoot
  obtain ⟨d₃, h₃, hs₃⟩ := sendLines_sent hw fd d₂
    (d₂.cmdhead.map fun name => "ADDCMD ".toList ++ name ++ "\n".toList)
  obtain ⟨d₄, h₄, hs₄⟩ : ∃ d₄,
      (if d₃.stale then (d₃, true) else sendToOne w fd d₃ "DATAOK\n".toList) = (d₄, true) ∧
        Sent fd ((if d₃.stale then [] else ["DATAOK\n".toList]).flatMap (snprintf stSockBufLen)) d₃ d₄ := by
    split
    · exact ⟨d₃, rfl, .refl fd d₃⟩
    · obtain ⟨d₄, h₄, hs₄⟩ := sendToOne_sent hw fd d₃ "DATAOK\n".toList
      exact ⟨d₄, h₄, by simpa using hs₄⟩
  obtain ⟨d₅, h₅, hs₅⟩ := sendToOne_sent hw fd d₄ "DUMPDONE\n".toList
  have hdump : dumpAll w fd d = d₅ := by
    simp only [dumpAll, h₁, h₂, cmdDumpConn, h₃, h₄, h₅]
  rw [hs₃.stale, hs₂.stale, hs₁.stale] at hs₄
  rw [hs₂.cmds, hs₁.cmds] at hs₃
  rw [hs₁.tree] at hs₂
  have hall := (((hs₁.trans hs₂).trans hs₃).trans hs₄).trans hs₅
  rw [hdump]
  simpa only [dumpLines, List.flatMap_append, List.flatMap_cons, List.flatMap_nil, List.append_nil] using hall

end Delivered

end Nut
