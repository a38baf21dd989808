import Nut.Common.CString

/-!
# `upssched.c`: the timers of the daemon

The queue of the timers and what the daemon does with it: `start_timer` adds an entry at the end, `cancel_timer` removes
the first one of a name, and `checktimers` runs the commands of those that are due and removes them.

An entry is told from others of its name by its address.  The daemon keeps a record of its calls in `log`; each entry
of the record says which timers the call started or removed.
-/

namespace Nut

def emptyWait : Nat := 15

structure Ttype where
  addr : Nat
  name : CStr
  etime : Int
  deriving DecidableEq

namespace Sched

/-- A call and what it did to the queue. -/
inductive Happening where
  | start (tmp : Ttype)
  | cancel (name : CStr) (now : Int) (removed : Option Nat)
  | check (now : Int) (ran : List Nat)
  deriving DecidableEq

end Sched

/-- The daemon: its timers, the number of passes without any, whether it is still there, the address of the next entry,
the commands it ran, and the record of its calls. -/
structure Sched where
  thead : List Ttype
  emptyctr : Nat
  running : Bool
  fresh : Nat
  commands : List CStr
  log : List Sched.Happening
  deriving DecidableEq

namespace Sched

def init : Sched where
  thead := []
  emptyctr := 0
  running := true
  fresh := 0
  commands := []
  log := []

def record (d : Sched) (h : Happening) : Sched := { d with log := d.log ++ [h] }

def execCmd (d : Sched) (cmd : CStr) : Sched := { d with commands := d.commands ++ [cmd] }

def removetimer (d : Sched) (tfind : Ttype) : Sched :=
  { d with thead := d.thead.eraseP fun tmp => tmp.addr = tfind.addr }

/-- The loop of `checktimers` over the entries from `tmp` on, with the addresses of those that it ran. -/
def checkLoop (now : Int) : Sched → List Ttype → Sched × List Nat
  | d, [] => (d, [])
  | d, tmp :: tmpnext =>
    if tmp.etime ≤ now then
      let r := checkLoop now (removetimer (execCmd d tmp.name) tmp) tmpnext
      (r.1, tmp.addr :: r.2)
    else checkLoop now d tmpnext

def checktimers (now : Int) (d : Sched) : Sched :=
  match d.thead with
  | [] =>
    let d := record { d with emptyctr := d.emptyctr + 1 } (.check now [])
    if d.emptyctr < emptyWait then d else { d with running := false }
  | thead =>
    let r := checkLoop now { d with emptyctr := 0 } thead
    record r.1 (.check now r.2)

def startTimer (now : Int) (name ofsstr : CStr) (d : Sched) : Sched :=
  let ofs := atoi ofsstr
  if ofs < 0 then d
  else
    let tmp := { addr := d.fresh, name := name, etime := now + ofs.toInt }
    record { d with thead := d.thead ++ [tmp], fresh := d.fresh + 1 } (.start tmp)

/-- The function does not look at the clock; `now` is for the record. -/
def cancelTimer (now : Int) (name : CStr) (cname : Option CStr) (d : Sched) : Sched :=
  match d.thead.find? fun tmp => tmp.name = name with
  | some tmp => record (removetimer d tmp) (.cancel name now (some tmp.addr))
  | none =>
    record (match cname with
      | some (c :: cs) => execCmd d (c :: cs)
      | _ => d) (.cancel name now none)

/-- A request, or a pass of the loop. -/
inductive Event where
  | start (now : Int) (name ofsstr : CStr)
  | cancel (now : Int) (name : CStr) (cname : Option CStr)
  | check (now : Int)
  deriving DecidableEq

def step (d : Sched) (e : Event) : Sched :=
  if d.running then
    match e with
    | .start now name ofsstr => startTimer now name ofsstr d
    | .cancel now name cname => cancelTimer now name cname d
    | .check now => checktimers now d
  else d

def run (d : Sched) (es : List Event) : Sched := es.foldl step d

theorem run_snoc (d : Sched) (es : List Event) (e : Event) : d.run (es ++ [e]) = (d.run es).step e := by
  simp [run]

/-! ### What a step can do -/

/-- The queue and the next address that a record of calls leads to. -/
inductive History : List Happening → List Ttype → Nat → Prop
  | nil : History [] [] 0
  | start {log : List Happening} {thead : List Ttype} {fresh : Nat} (h : History log thead fresh) (name : CStr)
      (etime : Int) : History (log ++ [.start ⟨fresh, name, etime⟩]) (thead ++ [⟨fresh, name, etime⟩]) (fresh + 1)
  | cancel {log : List Happening} {before after : List Ttype} {tmp : Ttype} {fresh : Nat}
      (h : History log (before ++ tmp :: after) fresh) (hbefore : ∀ t ∈ before, t.name ≠ tmp.name) (now : Int) :
      History (log ++ [.cancel tmp.name now (some tmp.addr)]) (before ++ after) fresh
  | cancelNone {log : List Happening} {thead : List Ttype} {fresh : Nat} (h : History log thead fresh) {name : CStr}
      (hname : ∀ t ∈ thead, t.name ≠ name) (now : Int) : History (log ++ [.cancel name now none]) thead fresh
  | check {log : List Happening} {thead : List Ttype} {fresh : Nat} (h : History log thead fresh) (now : Int) :
      History (log ++ [.check now ((thead.filter fun t => t.etime ≤ now).map Ttype.addr)])
        (thead.filter fun t => now < t.etime) fresh

/-- Addresses are given out in order. -/
structure InOrder (thead : List Ttype) (fresh : Nat) : Prop where
  increasing : thead.Pairwise fun t u => t.addr < u.addr
  old : ∀ t ∈ thead, t.addr < fresh

theorem InOrder.sublist {thead thead' : List Ttype} {fresh : Nat} (h : InOrder thead fresh) (hs : thead'.Sublist thead) :
    InOrder thead' fresh := ⟨h.increasing.sublist hs, fun t ht => h.old t (hs.subset ht)⟩

theorem InOrder.nodup {thead : List Ttype} {fresh : Nat} (h : InOrder thead fresh) : (thead.map Ttype.addr).Nodup :=
  List.pairwise_map.2 (h.increasing.imp fun hlt => Nat.ne_of_lt hlt)

theorem History.inOrder {log : List Happening} {thead : List Ttype} {fresh : Nat} (h : History log thead fresh) :
    InOrder thead fresh := by
  induction h with
  | nil => exact ⟨.nil, by simp⟩
  | start h name etime ih =>
    refine ⟨List.pairwise_append.2 ⟨ih.increasing, List.pairwise_singleton _ _, fun t ht u hu => ?_⟩, fun t ht => ?_⟩
    · rw [List.mem_singleton.1 hu]
      exact ih.old t ht
    · rcases List.mem_append.1 ht with ht | ht
      · exact Nat.lt_succ_of_lt (ih.old t ht)
      · rw [List.mem_singleton.1 ht]
        exact Nat.lt_succ_self _
  | @cancel log before after tmp fresh h hbefore now ih =>
    exact ih.sublist ((List.append_sublist_append_left before).2 (List.sublist_cons_self tmp after))
  | cancelNone h hname now ih => exact ih
  | check h now ih => exact ih.sublist List.filter_sublist

private theorem eraseP_addr {before after : List Ttype} {tmp : Ttype}
    (h : ((before ++ tmp :: after).map Ttype.addr).Nodup) :
    (before ++ tmp :: after).eraseP (fun t => t.addr = tmp.addr) = before ++ after := by
  rw [List.map_append, List.map_cons] at h
  have hbefore : ∀ t ∈ before, ¬decide (t.addr = tmp.addr) = true := by
    intro t ht heq
    have hdisj := (List.nodup_append.1 h).2.2 t.addr (List.mem_map_of_mem ht) tmp.addr (by simp)
    exact hdisj (by simpa using heq)
  rw [List.eraseP_append_right _ hbefore, List.eraseP_cons_of_pos (by simp)]

/-- A pass runs the entries that are due, in order, and leaves the others as they are. -/
theorem checkLoop_eq (now : Int) {d : Sched} {before todo : List Ttype} (hthead : d.thead = before ++ todo)
    (hnodup : (d.thead.map Ttype.addr).Nodup) : checkLoop now d todo =
      ({ d with
          thead := before ++ todo.filter fun t => now < t.etime
          commands := d.commands ++ (todo.filter fun t => t.etime ≤ now).map Ttype.name },
        (todo.filter fun t => t.etime ≤ now).map Ttype.addr) := by
  induction todo generalizing d before with
  | nil => simp [checkLoop, ← hthead]
  | cons tmp todo ih =>
    rw [checkLoop]
    by_cases hdue : tmp.etime ≤ now
    · have herase : (removetimer (execCmd d tmp.name) tmp).thead = before ++ todo := by
        show d.thead.eraseP _ = _
        rw [hthead] at hnodup ⊢
        exact eraseP_addr hnodup
      have hrest : ((removetimer (execCmd d tmp.name) tmp).thead.map Ttype.addr).Nodup := by
        rw [herase]
        rw [hthead] at hnodup
        exact hnodup.sublist (((List.append_sublist_append_left before).2 (List.sublist_cons_self tmp todo)).map _)
      rw [if_pos hdue, ih herase hrest]
      simp [hdue, removetimer, execCmd]
    · have hlater : now < tmp.etime := by omega
      rw [if_neg hdue, @ih d (before ++ [tmp]) (by simpa using hthead) hnodup]
      simp [hdue, hlater]

/-- What a request or a pass does to the queue, the next address and the record. -/
inductive Change (d : Sched) : Event → List Ttype → Nat → List Happening → Prop
  | same {e : Event} (h : d.running = true → ∃ now name ofsstr, e = .start now name ofsstr ∧ atoi ofsstr < 0) :
      Change d e d.thead d.fresh d.log
  | start (now : Int) (name ofsstr : CStr) (h : d.running = true ∧ ¬atoi ofsstr < 0) :
      Change d (.start now name ofsstr) (d.thead ++ [⟨d.fresh, name, now + (atoi ofsstr).toInt⟩]) (d.fresh + 1)
        (d.log ++ [.start ⟨d.fresh, name, now + (atoi ofsstr).toInt⟩])
  | cancel {before after : List Ttype} {tmp : Ttype} (h : d.running = true) (hsplit : d.thead = before ++ tmp :: after)
      (hbefore : ∀ t ∈ before, t.name ≠ tmp.name) (now : Int) (cname : Option CStr) :
      Change d (.cancel now tmp.name cname) (before ++ after) d.fresh (d.log ++ [.cancel tmp.name now (some tmp.addr)])
  | cancelNone {name : CStr} (hname : ∀ t ∈ d.thead, t.name ≠ name) (now : Int) (cname : Option CStr) :
      Change d (.cancel now name cname) d.thead d.fresh (d.log ++ [.cancel name now none])
  | check (now : Int) : Change d (.check now) (d.thead.filter fun t => now < t.etime) d.fresh
      (d.log ++ [.check now ((d.thead.filter fun t => t.etime ≤ now).map Ttype.addr)])

variable {d : Sched}

private theorem change_cancel (h : InOrder d.thead d.fresh) (hrunning : d.running = true) (now : Int) (name : CStr) (cname : Option CStr) :
    Change d (.cancel now name cname) (cancelTimer now name cname d).thead (cancelTimer now name cname d).fresh
      (cancelTimer now name cname d).log := by
  unfold cancelTimer
  cases hfind : d.thead.find? fun tmp => tmp.name = name with
  | some tmp =>
    obtain ⟨hname, before, after, hsplit, hbefore⟩ := List.find?_eq_some_iff_append.1 hfind
    obtain rfl : tmp.name = name := by simpa using hname
    have herase := @eraseP_addr before after tmp (hsplit ▸ h.nodup)
    rw [← hsplit] at herase
    simp only [record, removetimer, herase]
    exact .cancel hrunning hsplit (fun t ht => by simpa using hbefore t ht) now cname
  | none =>
    have hname : ∀ t ∈ d.thead, t.name ≠ name := fun t ht => by simpa using List.find?_eq_none.1 hfind t ht
    rcases cname with _ | _ | ⟨c, cs⟩ <;> exact .cancelNone hname now _

private theorem change_check (h : InOrder d.thead d.fresh) (now : Int) :
    Change d (.check now) (checktimers now d).thead (checktimers now d).fresh (checktimers now d).log := by
  have hcheck := @Change.check d now
  unfold checktimers
  cases hthead : d.thead with
  | nil =>
    rw [hthead] at hcheck
    dsimp only
    split_ifs
    · simpa [record, hthead] using hcheck
    · simpa [record, hthead] using hcheck
  | cons tmp thead =>
    dsimp only
    rw [← hthead, @checkLoop_eq now { d with emptyctr := 0 } [] d.thead rfl h.nodup]
    exact hcheck

theorem step_change (h : InOrder d.thead d.fresh) (e : Event) :
    Change d e (d.step e).thead (d.step e).fresh (d.step e).log := by
  unfold step
  split_ifs with hrunning
  · cases e with
    | start now name ofsstr =>
      dsimp only [startTimer]
      split_ifs with hofs
      · exact .same fun _ => ⟨now, name, ofsstr, rfl, hofs⟩
      · exact .start now name ofsstr ⟨hrunning, hofs⟩
    | cancel now name cname => exact change_cancel h hrunning now name cname
    | check now => exact change_check h now
  · exact .same fun h => absurd h hrunning

/-- The record and the queue of a daemon fit together. -/
def Recorded (d : Sched) : Prop := History d.log d.thead d.fresh

theorem Recorded.step (h : Recorded d) (e : Event) : Recorded (d.step e) := by
  have hchange := step_change h.inOrder e
  unfold Recorded
  generalize (d.step e).thead = thead, (d.step e).fresh = fresh, (d.step e).log = log at hchange
  cases hchange with
  | same => exact h
  | start now name ofsstr => exact History.start h name _
  | cancel hrunning hsplit hbefore now cname =>
    unfold Recorded at h
    rw [hsplit] at h
    exact h.cancel hbefore now
  | cancelNone hname now cname => exact History.cancelNone h hname now
  | check now => exact History.check h now

theorem Recorded.run (h : Recorded d) (es : List Event) : Recorded (d.run es) := by
  induction es generalizing d with
  | nil => exact h
  | cons e es ih => exact ih (h.step e)

theorem recorded_run (es : List Event) : Recorded (init.run es) :=
  Recorded.run (show Recorded init from .nil) es

end Sched

end Nut
