import Nut.Sync.Message

/-!
# What a line can touch

A line from the driver changes the mirror at the name in its first argument and nowhere else (`parseArgs_touches`),
and it keeps the order of the tree and of the commands.  The words of a line have no character that the parser drops,
so a name with such a character is out of the reach of every line (`sstateReadline_outside`).
-/

namespace Nut

open ChunkReader Lexer SearchTree

/-- No variable is marked as immutable; the server never marks one (`noImmutable_parseArgs`). -/
def NoImmutable (t : StTree) : Prop := Holds (fun n => n.flags &&& stFlagImmutable = 0) t

/-- The variables and the commands are in the order of their names. -/
structure Mirror.Sorted (m : Mirror) : Prop where
  tree : Ordered nodeKey m.inforoot
  cmds : CmdSorted m.cmdlist

/-- The variable and the command of the name `k` are the same. -/
def Mirror.SameAt (k : CStr) (m m' : Mirror) : Prop :=
  find nodeKey k m.inforoot = find nodeKey k m'.inforoot ∧ ∀ c, tolower c = k → (c ∈ m.cmdlist ↔ c ∈ m'.cmdlist)

theorem Mirror.SameAt.refl (k : CStr) (m : Mirror) : m.SameAt k m := ⟨rfl, fun _ _ => Iff.rfl⟩

/-- What one line may do to the mirror, when its first argument is `name`. -/
inductive Touches (name : CStr) (m : Mirror) : Mirror → Prop
  | status (dataOk dumpdone : Bool) : Touches name m { m with dataOk := dataOk, dumpdone := dumpdone }
  | addcmd : Touches name m { m with cmdlist := (stateAddcmd m.cmdlist name).1 }
  | delcmd : Touches name m { m with cmdlist := (stateDelcmd m.cmdlist name).1 }
  | delinfo : Touches name m { m with inforoot := (stateDelinfo m.inforoot name).1 }
  | setinfo (val : CStr) : Touches name m { m with inforoot := (stateSetinfo m.inforoot name val).1 }
  | node (f : StNode → StNode) (hkey : ∀ n, nodeKey (f n) = nodeKey n)
      (hflags : ∀ n, n.flags &&& stFlagImmutable = 0 → (f n).flags &&& stFlagImmutable = 0) :
      Touches name m { m with inforoot := SearchTree.modify nodeKey (tolower name) f m.inforoot }

theorem Touches.refl (name : CStr) (m : Mirror) : Touches name m m := .status m.dataOk m.dumpdone

private theorem setflag_immutable {flags : BitVec 32} (h : flags &&& stFlagImmutable = 0) (flag : CStr) :
    setflag flags flag &&& stFlagImmutable = 0 := by
  have hrw : stFlagRw &&& stFlagImmutable = 0 := by decide
  have hstr : stFlagString &&& stFlagImmutable = 0 := by decide
  unfold setflag
  split
  · rw [BitVec.and_comm, BitVec.and_or_distrib_left, BitVec.and_comm, h, BitVec.and_comm, hrw]; rfl
  · split
    · rw [BitVec.and_comm, BitVec.and_or_distrib_left, BitVec.and_comm, h, BitVec.and_comm, hstr]; rfl
    · exact h

private theorem foldl_setflag_immutable (flags : BitVec 32) (h : flags &&& stFlagImmutable = 0) (words : List CStr) :
    words.foldl setflag flags &&& stFlagImmutable = 0 := by
  induction words generalizing flags with
  | nil => exact h
  | cons flag words ih => exact ih _ (setflag_immutable h flag)

/-! ### One line -/

section Line

variable {name : CStr} {m : Mirror}

/-- A result of `parseArgs` that is allowed by `Touches`. -/
private def TouchesRes (name : CStr) (m : Mirror) (r : Option (Upstype × Bool)) : Prop :=
  ∀ u ∈ r, Touches name m u.1.mirror

private theorem touches_ite {c : Prop} [Decidable c] {a b : Option (Upstype × Bool)} (ha : c → TouchesRes name m a)
    (hb : ¬c → TouchesRes name m b) : TouchesRes name m (if c then a else b) := by
  split
  · exact ha ‹_›
  · exact hb ‹_›

private theorem touches_some {u : Upstype} {b : Bool} (h : Touches name m u.mirror) : TouchesRes name m (some (u, b)) := by
  rintro _ ⟨⟩; exact h

private theorem touches_map {o : Option CStr} {f : CStr → Upstype × Bool} (h : ∀ c, Touches name m (f c).1.mirror) :
    TouchesRes name m (o.map f) := by
  intro u hu
  obtain ⟨c, -, rfl⟩ := Option.mem_map.1 hu
  exact h c

private theorem touches_addrange (min max : Int32) :
    Touches name m { m with inforoot := (stateAddrange m.inforoot name min max).1 } := by
  rw [stateAddrange_fst]
  split
  · exact .refl name m
  · exact .node (addRangeTo min max) (fun n => rfl) fun n h => h

private theorem touches_setaux (auxs : CStr) :
    Touches name m { m with inforoot := (stateSetaux m.inforoot name auxs).1 } := by
  rw [stateSetaux_fst]; exact .node (setAuxOf (atoi auxs)) (fun n => rfl) fun n h => h

private theorem touches_setflags (flags : List CStr) :
    Touches name m { m with inforoot := stateSetflags m.inforoot name flags } := by
  rw [stateSetflags_eq]
  exact .node _ (nodeKey_setFlagsOf _) fun n _ => foldl_setflag_immutable 0 (by decide) flags

private theorem touches_addenum (val : CStr) :
    Touches name m { m with inforoot := (stateAddenum m.inforoot name val).1 } := by
  rw [stateAddenum_fst]; exact .node _ (nodeKey_addEnumTo _) fun n h => h

private theorem touches_delenum (val : CStr) :
    Touches name m { m with inforoot := (stateDelenum m.inforoot name val).1 } := by
  rw [stateDelenum_fst]; exact .node _ (nodeKey_delEnumFrom _) fun n h => h

private theorem touches_delrange (min max : Int32) :
    Touches name m { m with inforoot := (stateDelrange m.inforoot name min max).1 } := by
  rw [stateDelrange_fst]; exact .node _ (nodeKey_delRangeFrom _ _) fun n h => h

/-- A line changes the mirror at its first argument, if it has one. -/
theorem parseArgs_touches {ups ups' : Upstype} {numargs : Nat} {arg : List CStr} {known : Bool}
    (h : parseArgs ups numargs arg = some (ups', known)) (hname : 2 ≤ numargs → arg.getD 1 [] = name) :
    Touches name ups.mirror ups'.mirror := by
  have hsame : ∀ {b : Bool}, TouchesRes name ups.mirror (some (ups, b)) := touches_some (.refl name _)
  suffices hall : TouchesRes name ups.mirror (parseArgs ups numargs arg) from hall (ups', known) h
  unfold parseArgs
  refine touches_ite (fun _ => hsame) fun _ => touches_ite (fun _ => hsame) fun _ =>
    touches_ite (fun _ => touches_some (.status _ true)) fun _ =>
    touches_ite (fun _ => touches_some (.status false _)) fun _ =>
    touches_ite (fun _ => touches_some (.status true _)) fun _ =>
    touches_ite (fun _ => hsame) fun h2 => ?_
  obtain rfl := hname (by omega)
  exact touches_ite (fun _ => touches_some .addcmd) fun _ => touches_ite (fun _ => touches_some .delcmd) fun _ =>
    touches_ite (fun _ => touches_some .delinfo) fun _ => touches_ite (fun _ => hsame) fun _ =>
    touches_ite (fun _ => touches_some (touches_setflags _)) fun _ =>
    touches_ite (fun _ => touches_some (.setinfo _)) fun _ =>
    touches_ite (fun _ => touches_some (touches_addenum _)) fun _ =>
    touches_ite (fun _ => touches_map fun _ => touches_addrange _ _) fun _ =>
    touches_ite (fun _ => touches_some (touches_delenum _)) fun _ =>
    touches_ite (fun _ => touches_map fun _ => touches_delrange _ _) fun _ =>
    touches_ite (fun _ => touches_some (touches_setaux _)) fun _ => hsame

variable {m' : Mirror}

theorem Touches.sorted (h : Touches name m m') (hm : m.Sorted) : m'.Sorted := by
  cases h
  case status => exact ⟨hm.tree, hm.cmds⟩
  case addcmd => exact ⟨hm.tree, cmdSorted_addcmd hm.cmds name⟩
  case delcmd => exact ⟨hm.tree, cmdSorted_delcmd hm.cmds name⟩
  case delinfo => exact ⟨by rw [stateDelinfo_fst]; exact ordered_erase hm.tree, hm.cmds⟩
  case setinfo val =>
    refine ⟨?_, hm.cmds⟩
    rw [stateSetinfo_fst]
    exact ordered_upsert (nodeKey_setRaw val) (nodeKey_newNode name val) hm.tree
  case node f hkey hflags => exact ⟨ordered_modify hkey hm.tree, hm.cmds⟩

theorem Touches.noImmutable (h : Touches name m m') (hm : NoImmutable m.inforoot) : NoImmutable m'.inforoot := by
  cases h
  case status | addcmd | delcmd => exact hm
  case delinfo => rw [stateDelinfo_fst]; exact Holds.erase hm
  case setinfo val =>
    rw [stateSetinfo_fst]
    exact Holds.upsert hm (fun n hn => by rw [setRaw_flags]; exact hn) (by rw [newNode_flags]; decide)
  case node f hkey hflags => exact Holds.modify hm hflags

/-- The lines of the driver do not mark a variable of the server as immutable. -/
theorem noImmutable_parseArgs {ups ups' : Upstype} {numargs : Nat} {arg : List CStr} {known : Bool}
    (h : parseArgs ups numargs arg = some (ups', known)) (ht : NoImmutable ups.inforoot) :
    NoImmutable ups'.inforoot :=
  (parseArgs_touches h fun _ => rfl).noImmutable ht

/-- Other variables and commands stay as they are. -/
theorem Touches.sameAt (h : Touches name m m') (hm : m.Sorted) {k : CStr} (hk : k ≠ tolower name) : m.SameAt k m' := by
  cases h
  case status => exact .refl k m
  case addcmd =>
    refine ⟨rfl, fun c hc => ?_⟩
    rw [mem_stateAddcmd hm.cmds]
    constructor
    · exact .inl
    · rintro (h | ⟨rfl, -⟩)
      · exact h
      · exact absurd hc.symm hk
  case delcmd =>
    refine ⟨rfl, fun c hc => ?_⟩
    rw [mem_stateDelcmd hm.cmds]
    exact ⟨fun h => ⟨h, hc ▸ hk⟩, fun h => h.1⟩
  case delinfo => exact ⟨by rw [stateDelinfo_fst, find_erase hm.tree, if_neg hk], fun _ _ => Iff.rfl⟩
  case setinfo val =>
    refine ⟨?_, fun _ _ => Iff.rfl⟩
    rw [stateSetinfo_fst, find_upsert_of_ne (nodeKey_setRaw val) (nodeKey_newNode name val) hk]
  case node f hkey hflags => exact ⟨(find_modify_of_ne hkey hk _).symm, fun _ _ => Iff.rfl⟩

end Line

/-- Messages keep the order of the mirror. -/
theorem exec_sorted {m : Mirror} (h : m.Sorted) (msg : Message) : (msg.exec m).Sorted := by
  have hparse := parseArgs_words ({ newUps [] [] none with
    inforoot := m.inforoot, cmdlist := m.cmdlist, dataOk := m.dataOk, dumpdone := m.dumpdone } : Upstype) msg []
  exact (parseArgs_touches hparse fun _ => rfl).sorted h

/-! ### Reading one line -/

/-- A line read at once completes at most one line of words, which is executed. -/
theorem sstateReadline_line {ups : Upstype} (hfd : ups.sockFd ≠ none) (hidle : AtLineStart ups.sockCtx) (now : Int)
    {body : CStr} (hbody : '\n' ∉ body) :
    (∃ ctx, sstateReadline now ups (.data (body ++ ['\n'])) = some { ups with sockCtx := ctx }) ∨
      ∃ ws A ctx, ReadsAs step start (body ++ ['\n']) start ws ∧
        sstateReadline now ups (.data (body ++ ['\n'])) =
          (sstateLine now (some ups) ws.length (ws ++ A)).map fun ups => { ups with sockCtx := ctx } := by
  obtain ⟨hitems, -, -⟩ := readChunk_overlays hidle (body ++ ['\n'])
  rw [sstateReadline_data hfd, hitems]
  rcases Lexer.delimited.readChunk_line hbody with hnone | ⟨ws, hws, hreads⟩
  · rw [hnone]
    exact .inl ⟨_, rfl⟩
  · rw [hws]
    exact .inr ⟨ws, _, _, hreads, rfl⟩

private theorem sstateReads_nil (ups : Upstype) {reads : List (Int × CStr)} (h : (reads.map Prod.snd).flatten = []) :
    sstateReads ups reads = some ups := by
  induction reads with
  | nil => rfl
  | cons r reads ih =>
    obtain ⟨hr, hrest⟩ := List.append_eq_nil_iff.1 h
    have hread : sstateReadline r.1 ups (.data []) = some ups := by
      unfold sstateReadline
      split <;> rfl
    rw [sstateReads, hr, hread, Option.bind_some, ih hrest]

/-- However a line is cut, it is executed once, at the time of the read that completes it. -/
theorem sstateReads_line {A : List CStr} {l : Lexer} {ups : Upstype} {reads : List (Int × CStr)} {ws : List CStr}
    (hfd : ups.sockFd ≠ none) (hl : Loaded A l ups.sockCtx)
    (h : ReadsAs step l (reads.map Prod.snd).flatten start ws) :
    ∃ r ∈ reads, ∃ ctx ctx', AtLineStart ctx' ∧ sstateReads ups reads =
      (sstateLine r.1 (some { ups with sockCtx := ctx }) ws.length (ws ++ A.drop ws.length)).map fun ups =>
        { ups with sockCtx := ctx' } := by
  induction reads generalizing l ups with
  | nil =>
    obtain ⟨body, b, t, hnil, -⟩ := h
    simp at hnil
  | cons r reads ih =>
    rw [List.map_cons, List.flatten_cons] at h
    by_cases hrest : (reads.map Prod.snd).flatten = []
    · -- this read completes the line
      rw [hrest, List.append_nil] at h
      have hchunk := (@ReadsAs.readChunk _ _ _ step l start r.2 [] ws h).1
      rw [List.append_nil] at hchunk
      simp only [readChunk] at hchunk
      obtain ⟨hitems, ⟨A', hl'⟩, -⟩ := readChunk_overlays hl r.2
      rw [hchunk] at hitems hl'
      refine ⟨r, by simp, ups.sockCtx, _, hl'.atLineStart, ?_⟩
      rw [sstateReads, sstateReadline_data hfd, hitems]
      show Option.bind (Option.map _ (sstateLine r.1 (some ups) ws.length (ws ++ A.drop ws.length))) _ = _
      rcases hline : sstateLine r.1 (some ups) ws.length (ws ++ A.drop ws.length) with _ | u
      · rfl
      · rw [Option.map_some, Option.bind_some, sstateReads_nil _ hrest]
    · obtain ⟨t, ht, hreads⟩ := h.split hrest
      obtain ⟨hl', hitems⟩ := hl.silent ht
      have hread : sstateReadline r.1 ups (.data r.2) =
          some { ups with sockCtx := (readChunk pconfStep ups.sockCtx r.2).1 } := by
        rw [sstateReadline_data hfd, hitems]
        rfl
      obtain ⟨r', hr', ctx, ctx', hidle, hsame⟩ :=
        @ih t { ups with sockCtx := (readChunk pconfStep ups.sockCtx r.2).1 } hfd hl' hreads
      refine ⟨r', by simp [hr'], ctx, ctx', hidle, ?_⟩
      rw [sstateReads, hread, Option.bind_some, hsame]

/-! ### Names with a character that is dropped -/

/-- The parser dropped nothing from the words read so far. -/
private def KeptWords (l : Lexer) : Prop := (∀ w ∈ l.words, Kept w) ∧ Kept l.word

private theorem KeptWords.keep {l : Lexer} (h : KeptWords l) (c : Char) : KeptWords (l.keep c) := by
  unfold Lexer.keep
  split
  · exact h
  · rename_i hc
    split
    · exact h
    · refine ⟨h.1, fun d hd => ?_⟩
      rcases List.mem_append.1 hd with hd | hd
      · exact h.2 d hd
      · rw [List.mem_singleton.1 hd]
        simp only [Bool.or_eq_true, decide_eq_true_eq, not_or] at hc
        simp only [isKept, Bool.and_eq_true, decide_eq_true_eq]
        omega

private theorem KeptWords.close {l : Lexer} (h : KeptWords l) : KeptWords l.close := by
  unfold Lexer.close
  split
  · exact ⟨h.1, by simp [Kept]⟩
  · refine ⟨fun w hw => ?_, by simp [Kept]⟩
    rcases List.mem_append.1 hw with hw | hw
    · exact h.1 w hw
    · rw [List.mem_singleton.1 hw]; exact h.2

private theorem KeptWords.into {l : Lexer} (h : KeptWords l) (m : Mode) : KeptWords (l.into m) := h

private theorem keptWords_start : KeptWords start := ⟨by simp [start], by simp [start, Kept]⟩

private theorem keptWords_step {l : Lexer} (h : KeptWords l) (c : Char) :
    KeptWords (l.step c).1 ∧ ∀ ws, (l.step c).2 = .item ws → ∀ w ∈ ws, Kept w := by
  unfold step
  split
  case h_1 =>
    split_ifs
    · exact ⟨keptWords_start, fun ws hws => by cases hws; exact h.1⟩
    · exact ⟨h, by simp⟩
    · exact ⟨h, by simp⟩
    · exact ⟨h, by simp⟩
    · exact ⟨h, by simp⟩
    · exact ⟨(h.keep c).close, by simp⟩
    · exact ⟨h.keep c, by simp⟩
  case h_2 =>
    split_ifs
    · exact ⟨keptWords_start, fun ws hws => by cases hws; exact h.1⟩
    · exact ⟨h, by simp⟩
  case h_3 =>
    split_ifs
    · exact ⟨keptWords_start, by simp⟩
    · exact ⟨h.close, by simp⟩
    · exact ⟨h, by simp⟩
    · exact ⟨h.keep c, by simp⟩
  case h_4 =>
    split_ifs
    · exact ⟨h, by simp⟩
    · exact ⟨h.keep c, by simp⟩
  case h_5 =>
    split_ifs
    · exact ⟨h.close, by simp⟩
    · exact ⟨keptWords_start, fun ws hws => by cases hws; exact h.close.1⟩
    · exact ⟨h.close, by simp⟩
    · exact ⟨(h.close.keep c).close, by simp⟩
    · exact ⟨h, by simp⟩
    · exact ⟨h.keep c, by simp⟩
  case h_6 =>
    split_ifs
    · exact ⟨h, by simp⟩
    · exact ⟨h.keep c, by simp⟩

/-- The words of a line have no character that the parser drops. -/
theorem kept_of_readChunk (buf : CStr) : ∀ ws ∈ (readChunk step start buf).2, ∀ w ∈ ws, Kept w :=
  readChunk_forall (P := KeptWords) (fun l c l' h hs => by have := (keptWords_step h c).1; rwa [hs] at this)
    (fun l c l' ws h hs => by have := keptWords_step h c; rw [hs] at this; exact ⟨this.1, this.2 ws rfl⟩)
    keptWords_start buf

/-- The first argument of a line, if it has one, has no character that the parser drops. -/
private def KeptName (l : Nat × List CStr) : Prop := 2 ≤ l.1 → Kept (l.2.getD 1 [])

private theorem keptName_overlays {wss : List (List CStr)} (h : ∀ ws ∈ wss, ∀ w ∈ ws, Kept w) (A : List CStr) :
    ∀ l ∈ overlays A wss, KeptName l := by
  induction wss generalizing A with
  | nil => simp [overlays]
  | cons ws wss ih =>
    rw [overlays, List.forall_mem_cons]
    refine ⟨fun h2 => ?_, ih (fun v hv => h v (by simp [hv])) _⟩
    simp only at h2 ⊢
    rw [List.getD_eq_getElem?_getD, List.getElem?_append_left (by omega), List.getElem?_eq_getElem (by omega)]
    exact h ws (by simp) _ (List.getElem_mem _)

private theorem foldl_sstateLine_none (now : Int) (ls : List (Nat × List CStr)) :
    ls.foldl (fun s l => sstateLine now s l.1 l.2) none = none := by
  induction ls with
  | nil => rfl
  | cons l ls ih => exact ih

private theorem foldl_outside {now : Int} {ls : List (Nat × List CStr)} (hls : ∀ l ∈ ls, KeptName l) {ups ups' : Upstype}
    (hm : ups.mirror.Sorted) (h : ls.foldl (fun s l => sstateLine now s l.1 l.2) (some ups) = some ups') {k : CStr}
    (hk : ¬Kept k) : ups.mirror.SameAt k ups'.mirror := by
  induction ls generalizing ups with
  | nil => cases h; exact .refl k _
  | cons l ls ih =>
    rw [List.forall_mem_cons] at hls
    rw [List.foldl_cons] at h
    rcases hp : parseArgs ups l.1 l.2 with _ | ⟨u, known⟩
    · have hline : sstateLine now (some ups) l.1 l.2 = none := by simp [sstateLine, hp]
      rw [hline, foldl_sstateLine_none] at h
      simp at h
    · obtain ⟨u', hline, hmir⟩ : ∃ u', sstateLine now (some ups) l.1 l.2 = some u' ∧ u'.mirror = u.mirror := by
        cases known
        · exact ⟨u, by simp [sstateLine, hp], rfl⟩
        · exact ⟨{ u with lastHeard := now }, by simp [sstateLine, hp], rfl⟩
      rw [hline] at h
      obtain ⟨name, hname, hkept⟩ : ∃ name, (2 ≤ l.1 → l.2.getD 1 [] = name) ∧ Kept name := by
        by_cases h2 : 2 ≤ l.1
        · exact ⟨_, fun _ => rfl, hls.1 h2⟩
        · exact ⟨[], fun h2' => absurd h2' h2, by simp [Kept]⟩
      have htouch := parseArgs_touches hp hname
      rw [← hmir] at htouch
      have hne : k ≠ tolower name := by
        rintro rfl
        exact hk (kept_tolower_iff.2 hkept)
      obtain ⟨h1, h2⟩ := ih hls.2 (htouch.sorted hm) h
      obtain ⟨h3, h4⟩ := htouch.sameAt hm hne
      exact ⟨h3.trans h1, fun c hc => (h4 c hc).trans (h2 c hc)⟩

/-- What the server reads does not change a variable or a command whose name has a character that the parser drops. -/
theorem sstateReadline_outside {now : Int} {ups ups' : Upstype} {buf : CStr} (hfd : ups.sockFd ≠ none)
    (hidle : AtLineStart ups.sockCtx) (hm : ups.mirror.Sorted) (h : sstateReadline now ups (.data buf) = some ups')
    {name : CStr} (hname : ¬Kept name) : ups.mirror.SameAt (tolower name) ups'.mirror := by
  obtain ⟨hitems, -, -⟩ := readChunk_overlays hidle buf
  rw [sstateReadline_data hfd, hitems, Option.map_eq_some_iff] at h
  obtain ⟨u, hu, rfl⟩ := h
  exact foldl_outside (keptName_overlays (kept_of_readChunk buf) _) hm hu fun hk => hname (kept_tolower_iff.1 hk)

end Nut
