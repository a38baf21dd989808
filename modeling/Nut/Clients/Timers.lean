import Mathlib.Data.List.Induction
import Mathlib.Data.List.Nodup
import Nut.Clients.Upssched

/-!
# The timers of the daemon

What becomes of a timer that was started, over the calls that the daemon makes afterwards.  Each entry is in the queue, or
one `CANCEL-TIMER` removed it, or one pass ran it, the first at or after its time (`timers_conserved`).
`cancel_timer` stops at the first entry of the name, so a timer that was cancelled can fire as soon as a name was started
twice: cancelled timers never fire exactly in the runs where every `CANCEL-TIMER` finds at most one entry of its name
(`cancel_heeded_iff`).
-/

namespace Nut

namespace Sched

/-- The call took the entry out of the queue. -/
def Happening.Removes (tmp : Ttype) : Happening → Prop
  | .start _ => False
  | .cancel _ _ removed => removed = some tmp.addr
  | .check _ ran => tmp.addr ∈ ran

/-- Over these calls the entry stays in the queue, and its time does not come. -/
structure Waits (tmp : Ttype) (calls : List Happening) : Prop where
  kept : ∀ h ∈ calls, ¬h.Removes tmp
  early : ∀ now ran, .check now ran ∈ calls → now < tmp.etime

/-- The entry is in the queue, as it was added. -/
def Pending (thead : List Ttype) (tmp : Ttype) (calls : List Happening) : Prop := tmp ∈ thead ∧ Waits tmp calls

/-- The entry is not in the queue. -/
def Gone (thead : List Ttype) (tmp : Ttype) : Prop := ∀ t ∈ thead, t.addr ≠ tmp.addr

/-- One `CANCEL-TIMER` of its name removed the entry, before a pass found it due, when the clock was `now`. -/
def Cancelled (thead : List Ttype) (tmp : Ttype) (calls : List Happening) (now : Int) : Prop :=
  ∃ before after, calls = before ++ .cancel tmp.name now (some tmp.addr) :: after ∧ Waits tmp before ∧
    (∀ h ∈ after, ¬h.Removes tmp) ∧ Gone thead tmp

/-- The first pass at or after its time ran the entry, once. -/
def Executed (thead : List Ttype) (tmp : Ttype) (calls : List Happening) : Prop :=
  ∃ before now ran after, calls = before ++ .check now ran :: after ∧ Waits tmp before ∧ tmp.etime ≤ now ∧
    ran.count tmp.addr = 1 ∧ (∀ h ∈ after, ¬h.Removes tmp) ∧ Gone thead tmp

/-- Exactly one of the three. -/
def OneOf (p q r : Prop) : Prop := p ∧ ¬q ∧ ¬r ∨ ¬p ∧ q ∧ ¬r ∨ ¬p ∧ ¬q ∧ r

/-- The entries that were started, in order. -/
def started (log : List Happening) : List Ttype :=
  log.filterMap fun
    | .start tmp => some tmp
    | _ => none

variable {log calls : List Happening} {thead : List Ttype} {fresh : Nat} {tmp : Ttype}

private theorem snoc_split {pre post : List Happening} {e x : Happening} (h : log ++ [e] = pre ++ x :: post) :
    post = [] ∧ e = x ∧ log = pre ∨ ∃ post', post = post' ++ [e] ∧ log = pre ++ x :: post' := by
  rcases List.eq_nil_or_concat post with rfl | ⟨post', y, rfl⟩
  · obtain ⟨hlog, he⟩ := List.append_inj' h rfl
    exact .inl ⟨rfl, (List.cons.inj he).1, hlog⟩
  · rw [List.concat_eq_append, ← List.cons_append, ← List.append_assoc] at h
    obtain ⟨hlog, he⟩ := List.append_inj' h rfl
    exact .inr ⟨post', by rw [List.concat_eq_append, (List.cons.inj he).1], hlog⟩

private theorem Waits.snoc {h : Happening} (hw : Waits tmp calls) (hkeep : ¬h.Removes tmp)
    (hearly : ∀ now ran, h = .check now ran → now < tmp.etime) : Waits tmp (calls ++ [h]) := by
  refine ⟨fun h' hh' => ?_, fun now ran hmem => ?_⟩
  · rcases List.mem_append.1 hh' with hh' | hh'
    · exact hw.kept h' hh'
    · rwa [List.mem_singleton.1 hh']
  · rcases List.mem_append.1 hmem with hmem | hmem
    · exact hw.early now ran hmem
    · exact hearly now ran (List.mem_singleton.1 hmem).symm

private theorem snoc_kept {h : Happening} (hcalls : ∀ h' ∈ calls, ¬h'.Removes tmp) (hkeep : ¬h.Removes tmp) :
    ∀ h' ∈ calls ++ [h], ¬h'.Removes tmp := by
  intro h' hh'
  rcases List.mem_append.1 hh' with hh' | hh'
  · exact hcalls h' hh'
  · rwa [List.mem_singleton.1 hh']

/-- The entry is in one of the three situations. -/
def Accounted (thead : List Ttype) (tmp : Ttype) (calls : List Happening) : Prop :=
  Pending thead tmp calls ∨ (∃ now, Cancelled thead tmp calls now) ∨ Executed thead tmp calls

/-- A call that does not remove the entry, when it is gone, leaves it where it is. -/
private theorem Accounted.snoc_of_gone {thead' : List Ttype} {h : Happening}
    (hacc : (∃ now, Cancelled thead tmp calls now) ∨ Executed thead tmp calls) (hkeep : Gone thead tmp → ¬h.Removes tmp)
    (hgone : Gone thead tmp → Gone thead' tmp) : Accounted thead' tmp (calls ++ [h]) := by
  rcases hacc with ⟨now, before, after, rfl, hbefore, hafter, hg⟩ | ⟨before, now, ran, after, rfl, hbefore, hdue, hran, hafter, hg⟩
  · exact .inr (.inl ⟨now, before, after ++ [h], by simp, hbefore, snoc_kept hafter (hkeep hg), hgone hg⟩)
  · exact .inr (.inr ⟨before, now, ran, after ++ [h], by simp, hbefore, hdue, hran, snoc_kept hafter (hkeep hg), hgone hg⟩)

/-- Every entry that was started is accounted for. -/
theorem History.accounted (h : History log thead fresh) :
    ∀ pre post, log = pre ++ .start tmp :: post → tmp.addr < fresh ∧ Accounted thead tmp post := by
  induction h with
  | nil => intro pre post h; simp at h
  | start h name etime ih =>
    intro pre post hlog
    rcases snoc_split hlog with ⟨rfl, he, -⟩ | ⟨post', rfl, hlog'⟩
    · obtain rfl := Happening.start.inj he
      exact ⟨Nat.lt_succ_self _, .inl ⟨by simp, by simp, by simp⟩⟩
    · obtain ⟨hold, hacc⟩ := ih pre post' hlog'
      refine ⟨Nat.lt_succ_of_lt hold, ?_⟩
      rcases hacc with ⟨hmem, hw⟩ | hacc
      · exact .inl ⟨by simp [hmem], hw.snoc (fun h => h) (by simp)⟩
      · refine .snoc_of_gone hacc (fun _ h => h) fun hg t ht => ?_
        rcases List.mem_append.1 ht with ht | ht
        · exact hg t ht
        · rw [List.mem_singleton.1 ht]
          exact Nat.ne_of_gt hold
  | @cancel log before after t fresh h hbefore now ih =>
    intro pre post hlog
    rcases snoc_split hlog with ⟨-, he, -⟩ | ⟨post', rfl, hlog'⟩
    · simp at he
    · obtain ⟨hold, hacc⟩ := ih pre post' hlog'
      refine ⟨hold, ?_⟩
      have hnodup := h.inOrder.nodup
      have hothers : ∀ u ∈ before ++ after, u.addr ≠ t.addr := by
        intro u hu heq
        have hperm : (before ++ t :: after).Perm (t :: (before ++ after)) := List.perm_middle
        have hnodup' := (hperm.map Ttype.addr).nodup_iff.1 hnodup
        exact (List.nodup_cons.1 hnodup').1 (heq ▸ List.mem_map_of_mem hu)
      rcases hacc with ⟨hmem, hw⟩ | hacc
      · by_cases ht : t.addr = tmp.addr
        · obtain rfl : t = tmp := List.inj_on_of_nodup_map hnodup (by simp) hmem ht
          exact .inr (.inl ⟨now, post', [], rfl, hw, by simp, hothers⟩)
        · refine .inl ⟨?_, hw.snoc (fun h => ht (Option.some.inj h)) (by simp)⟩
          rcases List.mem_append.1 hmem with hmem | hmem
          · exact List.mem_append_left _ hmem
          · rcases List.mem_cons.1 hmem with rfl | hmem
            · exact absurd rfl ht
            · exact List.mem_append_right _ hmem
      · refine .snoc_of_gone hacc (fun hg h => hg t (by simp) (Option.some.inj h)) fun hg u hu => hg u ?_
        rcases List.mem_append.1 hu with hu | hu <;> simp [hu]
  | cancelNone h hname now ih =>
    intro pre post hlog
    rcases snoc_split hlog with ⟨-, he, -⟩ | ⟨post', rfl, hlog'⟩
    · simp at he
    · obtain ⟨hold, hacc⟩ := ih pre post' hlog'
      refine ⟨hold, ?_⟩
      rcases hacc with ⟨hmem, hw⟩ | hacc
      · exact .inl ⟨hmem, hw.snoc (fun h => by simp [Happening.Removes] at h) (by simp)⟩
      · exact .snoc_of_gone hacc (fun _ h => by simp [Happening.Removes] at h) id
  | @check log thead fresh h now ih =>
    intro pre post hlog
    rcases snoc_split hlog with ⟨-, he, -⟩ | ⟨post', rfl, hlog'⟩
    · simp at he
    · obtain ⟨hold, hacc⟩ := ih pre post' hlog'
      refine ⟨hold, ?_⟩
      have hnodup := h.inOrder.nodup
      rcases hacc with ⟨hmem, hw⟩ | hacc
      · by_cases hdue : tmp.etime ≤ now
        · have hran : tmp.addr ∈ (thead.filter fun t => t.etime ≤ now).map Ttype.addr :=
            List.mem_map_of_mem (List.mem_filter.2 ⟨hmem, by simpa using hdue⟩)
          refine .inr (.inr ⟨post', now, _, [], rfl, hw, hdue, ?_, by simp, fun t ht heq => ?_⟩)
          · exact List.count_eq_one_of_mem (hnodup.sublist (List.filter_sublist.map _)) hran
          · have hlater := (List.mem_filter.1 ht).2
            obtain rfl := List.inj_on_of_nodup_map hnodup (List.mem_filter.1 ht).1 hmem heq
            simp only [decide_eq_true_eq] at hlater
            omega
        · have hlater : now < tmp.etime := by omega
          refine .inl ⟨List.mem_filter.2 ⟨hmem, by simpa using hlater⟩, hw.snoc (fun hran => ?_) ?_⟩
          · obtain ⟨t, ht, haddr⟩ := List.mem_map.1 hran
            obtain rfl := List.inj_on_of_nodup_map hnodup (List.mem_filter.1 ht).1 hmem haddr
            exact hdue (by simpa using (List.mem_filter.1 ht).2)
          · rintro now' ran' heq
            rw [Happening.check.injEq] at heq
            omega
      · refine .snoc_of_gone hacc (fun hg hran => ?_) fun hg t ht => hg t (List.mem_filter.1 ht).1
        obtain ⟨t, ht, haddr⟩ := List.mem_map.1 hran
        exact hg t (List.mem_filter.1 ht).1 haddr

/-- The record grows. -/
private theorem step_log (d : Sched) (h : InOrder d.thead d.fresh) (e : Event) : ∃ calls, (d.step e).log = d.log ++ calls := by
  have hchange := step_change h e
  generalize (d.step e).thead = thead, (d.step e).fresh = fresh, (d.step e).log = log at hchange
  cases hchange with
  | same => exact ⟨[], by simp⟩
  | start | cancel | cancelNone | check => exact ⟨_, rfl⟩

private theorem run_log {d : Sched} (h : Recorded d) (es : List Event) : ∃ calls, (d.run es).log = d.log ++ calls := by
  induction es generalizing d with
  | nil => exact ⟨[], by simp [run]⟩
  | cons e es ih =>
    obtain ⟨calls, hcalls⟩ := step_log d h.inOrder e
    obtain ⟨more, hmore⟩ := ih (h.step e)
    exact ⟨calls ++ more, by rw [run, List.foldl_cons]; exact hmore.trans (by rw [hcalls, List.append_assoc])⟩

/-- The queue is in the order in which its entries were started. -/
theorem History.sublist (h : History log thead fresh) : thead.Sublist (started log) := by
  have hsnoc (log : List Happening) (h : Happening) : started (log ++ [h]) = started log ++ started [h] :=
    List.filterMap_append
  induction h with
  | nil => exact List.Sublist.refl _
  | start h name etime ih => rw [hsnoc]; exact ih.append (List.Sublist.refl _)
  | @cancel log before after tmp fresh h hbefore now ih =>
    rw [hsnoc]
    simp only [started, List.filterMap_cons, List.filterMap_nil, List.append_nil]
    exact ((List.append_sublist_append_left before).2 (List.sublist_cons_self tmp after)).trans ih
  | cancelNone h hname now ih => rw [hsnoc]; simpa [started] using ih
  | check h now ih =>
    rw [hsnoc]
    simp only [started, List.filterMap_cons, List.filterMap_nil, List.append_nil]
    exact List.filter_sublist.trans ih

private theorem oneOf_of_accounted (h : Accounted thead tmp calls) :
    OneOf (Pending thead tmp calls) (∃ now, Cancelled thead tmp calls now) (Executed thead tmp calls) := by
  have hpending (hp : Pending thead tmp calls) : ¬Gone thead tmp := fun hg => hg tmp hp.1 rfl
  have hexecuted : (∃ now, Cancelled thead tmp calls now) → ¬Executed thead tmp calls := by
    rintro ⟨now, before, after, rfl, -, -, -⟩ ⟨before', now', ran, after', hsplit, hwaits, -, -, hafter, -⟩
    have hmem : Happening.cancel tmp.name now (some tmp.addr) ∈ before' ++ .check now' ran :: after' := by
      rw [← hsplit]
      simp
    rcases List.mem_append.1 hmem with hmem | hmem
    · exact hwaits.kept _ hmem rfl
    · rcases List.mem_cons.1 hmem with heq | hmem
      · simp at heq
      · exact hafter _ hmem rfl
  rcases h with hp | hc | hr
  · exact .inl ⟨hp, fun ⟨_, _, _, _, _, _, hg⟩ => hpending hp hg, fun ⟨_, _, _, _, _, _, _, _, _, hg⟩ => hpending hp hg⟩
  · obtain ⟨now, before, after, hsplit, hwaits, hafter, hg⟩ := hc
    exact .inr (.inl ⟨fun hp => hpending hp hg, ⟨now, before, after, hsplit, hwaits, hafter, hg⟩,
      hexecuted ⟨now, before, after, hsplit, hwaits, hafter, hg⟩⟩)
  · refine .inr (.inr ⟨fun hp => ?_, fun hc => hexecuted hc hr, hr⟩)
    obtain ⟨_, _, _, _, _, _, _, _, _, hg⟩ := hr
    exact hpending hp hg

/-- The entry that a request adds. -/
def newTimer (d : Sched) (now : Int) (name ofsstr : CStr) : Ttype := ⟨d.fresh, name, now + (atoi ofsstr).toInt⟩

/-- No timer is lost or run twice: whatever the daemon does after it accepted a timer, the entry is in the queue, or one
`CANCEL-TIMER` removed it before a pass found it due, or the first pass at or after its time ran it, once; and the queue
is in the order of the requests. -/
theorem timers_conserved {es : List Event} (es' : List Event) (now : Int) (name : CStr) {ofsstr : CStr}
    (hrunning : (init.run es).running = true) (hofs : 0 ≤ (atoi ofsstr).toInt) :
    let d := init.run (es ++ .start now name ofsstr :: es')
    let tmp := newTimer (init.run es) now name ofsstr
    ∃ calls, d.log = (init.run es).log ++ .start tmp :: calls ∧
      OneOf (Pending d.thead tmp calls) (∃ now, Cancelled d.thead tmp calls now) (Executed d.thead tmp calls) ∧
      d.thead.Sublist (started d.log) := by
  intro d tmp
  have hnonneg : ¬atoi ofsstr < 0 := by
    rw [Int32.lt_iff_toInt_lt, Int32.toInt_zero]
    omega
  have hstart : ((init.run es).step (.start now name ofsstr)).log = (init.run es).log ++ [.start tmp] := by
    rw [step, if_pos hrunning]
    dsimp only [startTimer]
    rw [if_neg hnonneg]
    rfl
  have hrun : d = ((init.run es).step (.start now name ofsstr)).run es' := by simp [d, run]
  obtain ⟨calls, hcalls⟩ := run_log ((recorded_run es).step (.start now name ofsstr)) es'
  have hlog : d.log = (init.run es).log ++ .start tmp :: calls := by
    rw [hrun, hcalls, hstart, List.append_assoc, List.singleton_append]
  have hhistory : History d.log d.thead d.fresh := recorded_run (es ++ .start now name ofsstr :: es')
  exact ⟨calls, hlog, oneOf_of_accounted (hhistory.accounted _ calls hlog).2, hhistory.sublist⟩

theorem timers_conserved_second :
    let d := init.run ([.start 0 "a".toList "5".toList] ++ .start 1 "a".toList "5".toList ::
      [.cancel 2 "a".toList none, .check 6])
    let tmp := newTimer (init.run [.start 0 "a".toList "5".toList]) 1 "a".toList "5".toList
    ∃ calls, d.log = (init.run [.start 0 "a".toList "5".toList]).log ++ .start tmp :: calls ∧
      OneOf (Pending d.thead tmp calls) (∃ now, Cancelled d.thead tmp calls now) (Executed d.thead tmp calls) ∧
      d.thead.Sublist (started d.log) :=
  timers_conserved _ 1 "a".toList rfl (by decide)

/-- A `CANCEL-TIMER` can remove an entry whose time has come, when no pass was made since. -/
theorem cancelled_after_expiry : ¬(∀ (es es' : List Event) (now : Int) (name ofsstr : CStr),
    (init.run es).running = true → 0 ≤ (atoi ofsstr).toInt →
    let d := init.run (es ++ .start now name ofsstr :: es')
    let tmp := newTimer (init.run es) now name ofsstr
    ∃ calls, d.log = (init.run es).log ++ .start tmp :: calls ∧ OneOf (Pending d.thead tmp calls)
      (∃ now < tmp.etime, Cancelled d.thead tmp calls now) (Executed d.thead tmp calls)) := by
  intro hall
  obtain ⟨calls, hlog, hone⟩ := hall [] [.cancel 7 "a".toList none] 0 "a".toList "5".toList rfl (by decide)
  have hrun : (init.run ([] ++ .start 0 "a".toList "5".toList :: [.cancel 7 "a".toList none])).log =
      [.start ⟨0, "a".toList, 5⟩, .cancel "a".toList 7 (some 0)] := by decide
  have hcalls : calls = [.cancel "a".toList 7 (some 0)] := (List.cons.inj (hlog.symm.trans hrun)).2
  subst hcalls
  rcases hone with ⟨⟨hmem, -⟩, -⟩ | ⟨-, ⟨now, hnow, before, after, hsplit, -⟩, -⟩ | ⟨-, -, before, now, ran, after, hsplit, -⟩
  · exact absurd hmem (by decide)
  · have hhead : Happening.cancel "a".toList now (some 0) ∈ [Happening.cancel "a".toList 7 (some 0)] := by
      rw [hsplit]
      exact List.mem_append_right _ (List.mem_cons_self ..)
    have hseven : now = 7 := by simpa using hhead
    have hfive : now < 5 := hnow
    omega
  · have hmem : Happening.check now ran ∈ [Happening.cancel "a".toList 7 (some 0)] := by
      rw [hsplit]
      exact List.mem_append_right _ (List.mem_cons_self ..)
    simp at hmem

/-! ### Cancelled timers -/

/-- No `CANCEL-TIMER` of its name came after the entry was started. -/
def NotCancelled (log : List Happening) (tmp : Ttype) : Prop :=
  ∀ pre calls, log = pre ++ .start tmp :: calls → ∀ now removed, .cancel tmp.name now removed ∉ calls

/-- No entry in the queue was cancelled, and no pass ran an entry that was. -/
structure Heeded (d : Sched) : Prop where
  queue : ∀ tmp ∈ d.thead, NotCancelled d.log tmp
  ran : ∀ pre now ran post, d.log = pre ++ .check now ran :: post → ∀ addr ∈ ran,
    ∃ tmp, .start tmp ∈ pre ∧ tmp.addr = addr ∧ NotCancelled pre tmp

/-- A `CANCEL-TIMER` finds at most one entry of its name. -/
def FindsOne (d : Sched) : Event → Prop
  | .cancel _ name _ => d.running = true → (d.thead.filter fun t => t.name = name).length ≤ 1
  | _ => True

/-- What is in the queue was started. -/
theorem History.started (h : History log thead fresh) : ∀ t ∈ thead, ∃ pre calls, log = pre ++ .start t :: calls := by
  have snoc (log : List Happening) (h : Happening) {t : Ttype} :
      (∃ pre calls, log = pre ++ .start t :: calls) → ∃ pre calls, log ++ [h] = pre ++ .start t :: calls := by
    rintro ⟨pre, calls, rfl⟩
    exact ⟨pre, calls ++ [h], by simp⟩
  induction h with
  | nil => simp
  | start h name etime ih =>
    intro t ht
    rcases List.mem_append.1 ht with ht | ht
    · exact snoc _ _ (ih t ht)
    · rw [List.mem_singleton.1 ht]
      exact ⟨_, [], rfl⟩
  | cancel h hbefore now ih =>
    intro t ht
    refine snoc _ _ (ih t ?_)
    rcases List.mem_append.1 ht with ht | ht <;> simp [ht]
  | cancelNone h hname now ih => exact fun t ht => snoc _ _ (ih t ht)
  | check h now ih => exact fun t ht => snoc _ _ (ih t (List.mem_filter.1 ht).1)

private theorem NotCancelled.snoc {h : Happening} (hnot : NotCancelled log tmp)
    (hh : ∀ now removed, h ≠ .cancel tmp.name now removed) : NotCancelled (log ++ [h]) tmp := by
  intro pre calls hlog now removed hmem
  rcases snoc_split hlog with ⟨rfl, -, -⟩ | ⟨calls', rfl, hlog'⟩
  · simp at hmem
  · rcases List.mem_append.1 hmem with hmem | hmem
    · exact hnot pre calls' hlog' now removed hmem
    · exact hh now removed (List.mem_singleton.1 hmem).symm

private theorem ran_snoc {d : Sched} {h : Happening} (hd : Heeded d)
    (hh : ∀ now ran, h = .check now ran → ∀ addr ∈ ran, ∃ tmp, .start tmp ∈ d.log ∧ tmp.addr = addr ∧
      NotCancelled d.log tmp) :
    ∀ pre now ran post, d.log ++ [h] = pre ++ .check now ran :: post → ∀ addr ∈ ran,
      ∃ tmp, .start tmp ∈ pre ∧ tmp.addr = addr ∧ NotCancelled pre tmp := by
  intro pre now ran post hlog addr haddr
  rcases snoc_split hlog with ⟨-, he, rfl⟩ | ⟨post', rfl, hlog'⟩
  · exact hh now ran he addr haddr
  · exact hd.ran pre now ran post' hlog' addr haddr

private theorem heeded_congr {d d' : Sched} (h : Heeded d) (hthead : d'.thead = d.thead) (hlog : d'.log = d.log) :
    Heeded d' := by
  obtain ⟨hqueue, hran⟩ := h
  rw [← hthead, ← hlog] at hqueue
  rw [← hlog] at hran
  exact ⟨hqueue, hran⟩

/-- A request or a pass that finds at most one entry keeps the property. -/
theorem Heeded.step {d : Sched} (h : Heeded d) (hd : Recorded d) {e : Event} (hone : FindsOne d e) : Heeded (d.step e) := by
  have hchange := step_change hd.inOrder e
  suffices key : ∀ d' : Sched, Change d e d'.thead d'.fresh d'.log → Heeded d' from key _ hchange
  intro d' hchange
  generalize hthead : d'.thead = thead, hfresh : d'.fresh = fresh, hlog : d'.log = log at hchange
  cases hchange with
  | same => exact heeded_congr h hthead hlog
  | start now name ofsstr hofs =>
    refine ⟨fun t ht => ?_, ?_⟩
    · rw [hlog]
      rw [hthead] at ht
      rcases List.mem_append.1 ht with ht | ht
      · exact (h.queue t ht).snoc (by simp)
      · rw [List.mem_singleton.1 ht]
        intro pre calls hsplit now' removed hmem
        rcases snoc_split hsplit with ⟨rfl, -, -⟩ | ⟨calls', rfl, hlog'⟩
        · simp at hmem
        · exact absurd (hd.accounted pre calls' hlog').1 (Nat.lt_irrefl _)
    · rw [hlog]
      exact ran_snoc h (by simp)
  | @cancel before after tmp hrunning hsplit hbefore now cname =>
    -- the entry that is removed is the only one of its name
    have hafter : ∀ t ∈ after, t.name ≠ tmp.name := by
      have hlen := hone hrunning
      rw [hsplit, List.filter_append, List.filter_cons_of_pos (by simp)] at hlen
      simp only [List.length_append, List.length_cons] at hlen
      intro t ht hname
      have hmem : t ∈ after.filter fun u => u.name = tmp.name := List.mem_filter.2 ⟨ht, by simpa using hname⟩
      have hpos := List.length_pos_of_mem hmem
      omega
    refine ⟨fun t ht => ?_, ?_⟩
    · rw [hlog]
      rw [hthead] at ht
      have hmem : t ∈ d.thead := by
        rw [hsplit]
        rcases List.mem_append.1 ht with ht | ht <;> simp [ht]
      have hname : t.name ≠ tmp.name := by
        rcases List.mem_append.1 ht with ht | ht
        · exact hbefore t ht
        · exact hafter t ht
      refine (h.queue t hmem).snoc fun now' removed heq => hname ?_
      rw [Happening.cancel.injEq] at heq
      exact heq.1.symm
    · rw [hlog]
      exact ran_snoc h (by simp)
  | @cancelNone name hname now cname =>
    refine ⟨fun t ht => ?_, ?_⟩
    · rw [hlog]
      rw [hthead] at ht
      refine (h.queue t ht).snoc fun now' removed heq => hname t ht ?_
      rw [Happening.cancel.injEq] at heq
      exact heq.1.symm
    · rw [hlog]
      exact ran_snoc h (by simp)
  | check now =>
    refine ⟨fun t ht => ?_, ?_⟩
    · rw [hlog]
      rw [hthead] at ht
      exact (h.queue t (List.mem_filter.1 ht).1).snoc (by simp)
    · rw [hlog]
      refine ran_snoc h fun now' ran heq addr haddr => ?_
      rw [Happening.check.injEq] at heq
      rw [← heq.2] at haddr
      obtain ⟨t, ht, rfl⟩ := List.mem_map.1 haddr
      have hmem := (List.mem_filter.1 ht).1
      obtain ⟨pre, calls, hstarted⟩ := hd.started t hmem
      exact ⟨t, by rw [hstarted]; simp, rfl, h.queue t hmem⟩

/-- When a `CANCEL-TIMER` finds two entries, one of them stays in the queue. -/
private theorem not_heeded {d : Sched} (hd : Recorded d) {e : Event} (hmany : ¬FindsOne d e) : ¬Heeded (d.step e) := by
  cases e with
  | start | check => exact absurd trivial hmany
  | cancel now name cname =>
    simp only [FindsOne, Classical.not_imp, not_le] at hmany
    obtain ⟨hrunning, hlen⟩ := hmany
    have hchange := step_change hd.inOrder (.cancel now name cname)
    suffices key : ∀ d' : Sched, Change d (.cancel now name cname) d'.thead d'.fresh d'.log → ¬Heeded d' from key _ hchange
    intro d' hchange hheeded
    obtain ⟨hqueue, -⟩ := hheeded
    generalize d'.thead = thead, d'.fresh = fresh, d'.log = log at hchange hqueue
    cases hchange with
    | same h =>
      obtain ⟨_, _, _, heq, -⟩ := h hrunning
      simp at heq
    | @cancel before after tmp hrunning hsplit hbefore =>
      rw [hsplit, List.filter_append, List.filter_cons_of_pos (by simp)] at hlen
      have hnone : before.filter (fun t => t.name = tmp.name) = [] :=
        List.filter_eq_nil_iff.2 fun t ht => by simpa using hbefore t ht
      rw [hnone, List.nil_append, List.length_cons] at hlen
      obtain ⟨t, ht⟩ := List.exists_mem_of_length_pos (show 0 < (after.filter fun t => t.name = tmp.name).length by omega)
      obtain ⟨hmem, hname⟩ := List.mem_filter.1 ht
      obtain ⟨pre, calls, hstarted⟩ := hd.started t (by rw [hsplit]; simp [hmem])
      have hname : tmp.name = t.name := (of_decide_eq_true hname).symm
      refine hqueue t (List.mem_append_right _ hmem) pre (calls ++ [.cancel tmp.name now (some tmp.addr)]) ?_ now
        (some tmp.addr) ?_
      · rw [hstarted]
        simp
      · rw [← hname]
        simp
    | cancelNone hname =>
      have hnone : d.thead.filter (fun t => t.name = name) = [] :=
        List.filter_eq_nil_iff.2 fun t ht => by simpa using hname t ht
      rw [hnone] at hlen
      simp at hlen

/-- Cancelled timers do not stay in the queue, and do not fire, throughout a run exactly if each `CANCEL-TIMER` of the run
finds at most one entry of its name. -/
theorem cancel_heeded_iff (es : List Event) :
    (∀ pre, pre <+: es → Heeded (init.run pre)) ↔ ∀ pre e, pre ++ [e] <+: es → FindsOne (init.run pre) e := by
  constructor
  · intro h pre e hpre
    by_contra hmany
    have hheeded := h _ hpre
    rw [run_snoc] at hheeded
    exact not_heeded (recorded_run pre) hmany hheeded
  · intro h pre hpre
    induction pre using List.reverseRecOn with
    | nil => exact ⟨by simp [run, init], by simp [run, init]⟩
    | append_singleton pre e ih =>
      rw [run_snoc]
      exact (ih ((List.prefix_append pre [e]).trans hpre)).step (recorded_run pre) (h pre e hpre)

/-- A name that was started twice fires although it was cancelled. -/
theorem cancelled_fires : ¬(∀ es, Heeded (init.run es)) := by
  intro hall
  have h := (hall [.start 0 "a".toList "5".toList, .start 1 "a".toList "5".toList, .cancel 2 "a".toList none, .check 6]).ran
    [.start ⟨0, "a".toList, 5⟩, .start ⟨1, "a".toList, 6⟩, .cancel "a".toList 2 (some 0)] 6 [1] [] (by decide) 1 (by simp)
  obtain ⟨tmp, hmem, haddr, hnot⟩ := h
  have htmp : tmp = ⟨1, "a".toList, 6⟩ := by
    rcases tmp with ⟨addr, name, etime⟩
    simp only at haddr
    subst haddr
    simpa using hmem
  subst htmp
  exact hnot [.start ⟨0, "a".toList, 5⟩] [.cancel "a".toList 2 (some 0)] rfl 2 (some 0) (by simp)

end Sched

end Nut
