import Nut.Drivers.Dump

/-!
# Writes that fail

A write to a connection takes the whole text, or the driver drops the connection (`Delivered`).  A broadcast does so on
each of them (`connOut_broadcast`), and a dump stops at the first write that fails (`dumpAll_written`).
-/

namespace Nut

/-- The descriptors of the connections. -/
def fds (d : Dstate) : List Nat := d.connhead.map Conn.fd

/-- `d'` is `d` after `text` was written to the connection `fd`, or, unless `ok`, after it was dropped. -/
structure Delivered (fd : Nat) (text : CStr) (ok : Bool) (d d' : Dstate) : Prop where
  tree : d'.dtreeRoot = d.dtreeRoot
  cmds : d'.cmdhead = d.cmdhead
  stale : d'.stale = d.stale
  fds : (fds d').Sublist (fds d)
  self : connOut d' fd = if ok then (connOut d fd).map (· ++ text) else none
  others : ∀ fd', fd' ≠ fd → connOut d' fd' = connOut d fd'

section

variable {w : Nat → Bool} {fd fd' : Nat} {d d' d'' : Dstate} {text text' : CStr} {ok : Bool}

theorem connOut_eq_none_iff : connOut d fd = none ↔ fd ∉ fds d := by
  rw [connOut, Option.map_eq_none_iff, List.find?_eq_none, fds, List.mem_map]
  constructor
  · rintro h ⟨conn, hconn, hfd⟩
    exact h conn hconn (decide_eq_true hfd)
  · intro h conn hconn hfd
    exact h ⟨conn, hconn, of_decide_eq_true hfd⟩

/-- A change of the connections that keeps their descriptors. -/
theorem connOut_map {f : Conn → Conn} (hfd : ∀ conn, (f conn).fd = conn.fd) {g : CStr → CStr}
    (hout : ∀ conn, conn.fd = fd → (f conn).out = g conn.out) (htree : d'.connhead = d.connhead.map f) :
    connOut d' fd = (connOut d fd).map g := by
  rw [connOut, connOut, htree]
  induction d.connhead with
  | nil => rfl
  | cons conn conns ih =>
    rw [List.map_cons, List.find?_cons, List.find?_cons, hfd]
    by_cases hself : conn.fd = fd
    · rw [decide_eq_true hself]
      exact congrArg some (hout conn hself)
    · rw [decide_eq_false hself]
      exact ih

theorem connOut_sockDisconnect (d : Dstate) (fd : Nat) : connOut (sockDisconnect d fd) fd = none := by
  rw [connOut_eq_none_iff, fds, sockDisconnect]
  simp

theorem connOut_sockDisconnect_of_ne (d : Dstate) (hne : fd' ≠ fd) :
    connOut (sockDisconnect d fd) fd' = connOut d fd' := by
  unfold connOut sockDisconnect
  dsimp only
  induction d.connhead with
  | nil => rfl
  | cons conn conns ih =>
    by_cases hfd : conn.fd = fd
    · rw [List.filter_cons_of_neg (by simpa using hfd), List.find?_cons_of_neg (by simpa [hfd] using hne.symm)]
      exact ih
    · rw [List.filter_cons_of_pos (by simpa using hfd), List.find?_cons, List.find?_cons]
      cases decide (conn.fd = fd') with
      | true => rfl
      | false => exact ih

theorem connOut_sockConnect (d : Dstate) (fd : Nat) : connOut (sockConnect d fd) fd = some [] := by
  unfold connOut sockConnect
  dsimp only
  rw [List.find?_cons_of_pos (by simp)]
  rfl

theorem connOut_sockConnect_of_ne (d : Dstate) (hne : fd' ≠ fd) : connOut (sockConnect d fd) fd' = connOut d fd' := by
  unfold connOut sockConnect
  dsimp only
  rw [List.find?_cons_of_neg (by simpa using hne.symm)]

theorem connOut_setConnCtx (d : Dstate) (fd : Nat) (ctx : PconfCtx) (fd' : Nat) :
    connOut (setConnCtx d fd ctx) fd' = connOut d fd' := by
  have hmap := @connOut_map fd' d (setConnCtx d fd ctx)
    (fun conn => if conn.fd = fd then { conn with ctx := ctx } else conn)
    (fun conn => by split <;> rfl) id (fun conn _ => by split <;> rfl) rfl
  rw [hmap, Option.map_id, id]

theorem fds_setConnCtx (d : Dstate) (fd : Nat) (ctx : PconfCtx) : fds (setConnCtx d fd ctx) = fds d := by
  unfold fds setConnCtx
  dsimp only
  rw [List.map_map]
  refine List.map_congr_left fun conn _ => ?_
  rw [Function.comp_apply]
  split <;> rfl

theorem writeTo_fd (fd : Nat) (text : CStr) (conn : Conn) : (writeTo fd text conn).fd = conn.fd := by
  unfold writeTo
  split <;> rfl

theorem find_sendToAllLoop (w : Nat → Bool) (buf : CStr) (n : Nat) {conns : List Conn}
    (hnodup : (conns.map Conn.fd).Nodup)
    (fd : Nat) : ((sendToAllLoop w buf n conns).2.map Conn.fd).Sublist (conns.map Conn.fd) ∧
      (((sendToAllLoop w buf n conns).2.find? fun conn => conn.fd = fd).map Conn.out =
          ((conns.find? fun conn => conn.fd = fd).map Conn.out).map (· ++ buf) ∨
        ((sendToAllLoop w buf n conns).2.find? fun conn => conn.fd = fd) = none) := by
  induction conns generalizing n with
  | nil => exact ⟨.refl _, .inl rfl⟩
  | cons conn conns ih =>
    rw [List.map_cons, List.nodup_cons] at hnodup
    obtain ⟨hsub, hfind⟩ := ih (n + 1) hnodup.2
    rw [sendToAllLoop]
    split
    · refine ⟨hsub.cons_cons conn.fd, ?_⟩
      rw [List.find?_cons, List.find?_cons]
      dsimp only
      cases decide (conn.fd = fd) with
      | true => exact .inl rfl
      | false => exact hfind
    · refine ⟨hsub.cons conn.fd, ?_⟩
      by_cases hfd : conn.fd = fd
      · -- the descriptor is not among the others
        right
        rw [List.find?_eq_none]
        intro conn' hconn' hsame
        have hmem : conn'.fd ∈ conns.map Conn.fd := hsub.subset (List.mem_map_of_mem hconn')
        exact hnodup.1 (hfd.trans (of_decide_eq_true hsame).symm ▸ hmem)
      · rw [List.find?_cons_of_neg (by simpa using hfd)]
        exact hfind

/-- A broadcast is written to a connection, or the connection is dropped. -/
theorem connOut_broadcast (w : Nat → Bool) (hnodup : (fds d).Nodup) (text : CStr) (fd : Nat) :
    (fds (sendToAll w d text)).Sublist (fds d) ∧
      (connOut (sendToAll w d text) fd = (connOut d fd).map (· ++ snprintf stSockBufLen text) ∨
        connOut (sendToAll w d text) fd = none) := by
  unfold sendToAll
  split
  · rename_i h
    have hnil : text = [] := List.eq_nil_of_length_eq_zero (by omega)
    refine ⟨.refl _, .inl ?_⟩
    rw [hnil]
    cases connOut d fd with
    | none => rfl
    | some out => exact congrArg some (List.append_nil out).symm
  · obtain ⟨hsub, hfind⟩ := find_sendToAllLoop w (snprintf stSockBufLen text) d.nwrites hnodup fd
    refine ⟨hsub, hfind.imp id fun hnone => ?_⟩
    rw [connOut, Option.map_eq_none_iff]
    exact hnone

theorem Delivered.trans (h : Delivered fd text true d d') (h' : Delivered fd text' ok d' d'') :
    Delivered fd (text ++ text') ok d d'' where
  tree := h'.tree.trans h.tree
  cmds := h'.cmds.trans h.cmds
  stale := h'.stale.trans h.stale
  fds := h'.fds.trans h.fds
  self := by
    rw [h'.self, h.self, if_pos rfl]
    cases ok with
    | false => rfl
    | true =>
      rw [if_pos rfl, if_pos rfl, Option.map_map]
      congr 1
      funext out
      exact List.append_assoc out text text'
  others fd' hne := (h'.others fd' hne).trans (h.others fd' hne)

/-- What comes after is lost with the connection. -/
theorem Delivered.lost (h : Delivered fd text false d d') (text' : CStr) : Delivered fd text' false d d' :=
  ⟨h.tree, h.cmds, h.stale, h.fds, h.self, h.others⟩

theorem Delivered.connOut_of_none (h : Delivered fd text ok d d') (hnone : connOut d fd' = none) :
    connOut d' fd' = none := by
  rw [connOut_eq_none_iff] at hnone ⊢
  exact fun hmem => hnone (h.fds.subset hmem)

theorem Delivered.refl (fd : Nat) (d : Dstate) : Delivered fd [] true d d where
  tree := rfl
  cmds := rfl
  stale := rfl
  fds := List.Sublist.refl _
  self := by simp
  others _ _ := rfl

theorem Sent.written (h : Sent fd text d d') : Delivered fd text true d d' where
  tree := h.tree
  cmds := h.cmds
  stale := h.stale
  fds := by
    unfold Nut.fds
    rw [h.conns, List.map_map]
    have hfd : Conn.fd ∘ writeTo fd text = Conn.fd := funext fun conn => writeTo_fd fd text conn
    rw [hfd]
  self := h.connOut
  others fd' hne := by
    have hmap := @connOut_map fd' d d' (writeTo fd text) (writeTo_fd fd text) id
      (fun conn hfd => by rw [writeTo, if_neg fun h => hne (hfd.symm.trans h)]; rfl) h.conns
    rw [hmap, Option.map_id, id]

theorem sendToOne_written (w : Nat → Bool) (fd : Nat) (d : Dstate) (text : CStr) :
    Delivered fd (snprintf stSockBufLen text) (sendToOne w fd d text).2 d (sendToOne w fd d text).1 := by
  unfold sendToOne
  split
  · rename_i h
    have hnil : text = [] := List.eq_nil_of_length_eq_zero (by omega)
    rw [hnil]
    exact .refl fd d
  · dsimp only
    split
    · have hsent : Sent fd (snprintf stSockBufLen text) d { d with
          nwrites := d.nwrites + 1
          connhead := d.connhead.map fun conn =>
            if conn.fd = fd then { conn with out := conn.out ++ snprintf stSockBufLen text } else conn } :=
        ⟨rfl, rfl, rfl, rfl⟩
      exact hsent.written
    · refine ⟨rfl, rfl, rfl, ?_, ?_, fun fd' hne => ?_⟩
      · exact List.Sublist.map Conn.fd List.filter_sublist
      · exact connOut_sockDisconnect _ fd
      · exact connOut_sockDisconnect_of_ne _ hne

theorem sendLines_written (w : Nat → Bool) (fd : Nat) (d : Dstate) (lines : List CStr) :
    Delivered fd (lines.flatMap (snprintf stSockBufLen)) (sendLines w fd d lines).2 d (sendLines w fd d lines).1 := by
  induction lines generalizing d with
  | nil => exact .refl fd d
  | cons text lines ih =>
    have hone := sendToOne_written w fd d text
    rw [sendLines, List.flatMap_cons]
    rcases hr : sendToOne w fd d text with ⟨d₁, _ | _⟩
    · rw [hr] at hone
      exact hone.lost _
    · rw [hr] at hone
      exact hone.trans (ih d₁)

theorem stTreeDumpConn_written (w : Nat → Bool) (fd : Nat) (d : Dstate) (t : StTree) :
    Delivered fd ((t.walk.flatMap nodeDump).flatMap (snprintf stSockBufLen)) (stTreeDumpConn w fd d t).2 d
      (stTreeDumpConn w fd d t).1 := by
  induction t generalizing d with
  | nil => exact .refl fd d
  | node left n right ihl ihr =>
    have hwalk : ((SearchTree.Tree.node left n right).walk.flatMap nodeDump).flatMap (snprintf stSockBufLen) =
        (left.walk.flatMap nodeDump).flatMap (snprintf stSockBufLen) ++
          ((nodeDump n).flatMap (snprintf stSockBufLen) ++
            (right.walk.flatMap nodeDump).flatMap (snprintf stSockBufLen)) := by
      simp
    have hleft := ihl d
    rw [stTreeDumpConn, hwalk]
    rcases hl : stTreeDumpConn w fd d left with ⟨d₁, _ | _⟩
    · rw [hl] at hleft
      exact hleft.lost _
    rw [hl] at hleft
    refine hleft.trans ?_
    have hnode := sendLines_written w fd d₁ (nodeDump n)
    dsimp only
    rcases hn : sendLines w fd d₁ (nodeDump n) with ⟨d₂, _ | _⟩
    · rw [hn] at hnode
      exact hnode.lost _
    · rw [hn] at hnode
      exact hnode.trans (ihr d₂)

/-- `DUMPALL` is answered with `dumpLines`, or the connection is dropped. -/
theorem dumpAll_written (w : Nat → Bool) (fd : Nat) (d : Dstate) :
    ∃ ok, Delivered fd ((dumpLines d).flatMap (snprintf stSockBufLen)) ok d (dumpAll w fd d) := by
  have hlines : (dumpLines d).flatMap (snprintf stSockBufLen) =
      (if d.stale then ["DATASTALE\n".toList] else []).flatMap (snprintf stSockBufLen) ++
        ((d.dtreeRoot.walk.flatMap nodeDump).flatMap (snprintf stSockBufLen) ++
          ((d.cmdhead.map fun name => "ADDCMD ".toList ++ name ++ "\n".toList).flatMap (snprintf stSockBufLen) ++
            ((if d.stale then [] else ["DATAOK\n".toList]).flatMap (snprintf stSockBufLen) ++
              snprintf stSockBufLen "DUMPDONE\n".toList))) := by
    simp only [dumpLines, List.flatMap_append, List.flatMap_cons, List.flatMap_nil, List.append_nil, List.append_assoc]
  rw [hlines, dumpAll]
  have hstale : Delivered fd ((if d.stale then ["DATASTALE\n".toList] else []).flatMap (snprintf stSockBufLen))
      (if d.stale then sendToOne w fd d "DATASTALE\n".toList else (d, true)).2 d
      (if d.stale then sendToOne w fd d "DATASTALE\n".toList else (d, true)).1 := by
    split
    · rw [List.flatMap_singleton]
      exact sendToOne_written w fd d _
    · exact .refl fd d
  rcases h₁ : (if d.stale then sendToOne w fd d "DATASTALE\n".toList else (d, true)) with ⟨d₁, _ | _⟩
  · rw [h₁] at hstale
    exact ⟨false, hstale.lost _⟩
  rw [h₁] at hstale
  dsimp only at hstale ⊢
  have htree := stTreeDumpConn_written w fd d₁ d₁.dtreeRoot
  rw [← hstale.tree]
  rcases h₂ : stTreeDumpConn w fd d₁ d₁.dtreeRoot with ⟨d₂, _ | _⟩
  · rw [h₂] at htree
    exact ⟨false, hstale.trans (htree.lost _)⟩
  rw [h₂] at htree
  dsimp only at htree ⊢
  have hcmds := sendLines_written w fd d₂ (d₂.cmdhead.map fun name => "ADDCMD ".toList ++ name ++ "\n".toList)
  rw [← hstale.cmds, ← htree.cmds]
  rw [cmdDumpConn]
  rcases h₃ : sendLines w fd d₂ (d₂.cmdhead.map fun name => "ADDCMD ".toList ++ name ++ "\n".toList) with ⟨d₃, _ | _⟩
  · rw [h₃] at hcmds
    exact ⟨false, hstale.trans (htree.trans (hcmds.lost _))⟩
  rw [h₃] at hcmds
  dsimp only at hcmds ⊢
  have hok : Delivered fd ((if d.stale then [] else ["DATAOK\n".toList]).flatMap (snprintf stSockBufLen))
      (if d₃.stale then (d₃, true) else sendToOne w fd d₃ "DATAOK\n".toList).2 d₃
      (if d₃.stale then (d₃, true) else sendToOne w fd d₃ "DATAOK\n".toList).1 := by
    rw [hcmds.stale, htree.stale, hstale.stale]
    split
    · exact .refl fd d₃
    · rw [List.flatMap_singleton]
      exact sendToOne_written w fd d₃ _
  rcases h₄ : (if d₃.stale then (d₃, true) else sendToOne w fd d₃ "DATAOK\n".toList) with ⟨d₄, _ | _⟩
  · rw [h₄] at hok
    exact ⟨false, hstale.trans (htree.trans (hcmds.trans (hok.lost _)))⟩
  rw [h₄] at hok
  exact ⟨_, hstale.trans (htree.trans (hcmds.trans (hok.trans (sendToOne_written w fd d₄ "DUMPDONE\n".toList))))⟩

end

end Nut
