import Nut.Lib.Slots
import Nut.Common.Lines
import Nut.Server.Sstate
import Nut.Clients.Sendcmd

/-!
# What the daemons read of a line

The server reads the lines of a driver, the driver those of the server, and the timer daemon those of `upssched`.  Each
looks at the number of words before it reads them, in front of keywords that need different numbers: the driver always
reads words of the line, the server not for a range without its maximum, and `upssched` not for a `CANCEL` alone
(`lines_within_iff`).
-/

namespace Nut

open SlotReader

/-- `parse_args` as a reader of `arglist`. -/
def parseArgsReader (ups : Upstype) (numargs : Nat) : SlotReader CStr (Upstype × Bool) :=
  if numargs < 1 then .done (ups, false)
  else .read 0 fun arg0 =>
    if strcasecmp arg0 "PONG".toList = .eq then .done (ups, true)
    else if strcasecmp arg0 "DUMPDONE".toList = .eq then .done ({ ups with dumpdone := true }, true)
    else if strcasecmp arg0 "DATASTALE".toList = .eq then .done ({ ups with dataOk := false }, true)
    else if strcasecmp arg0 "DATAOK".toList = .eq then .done ({ ups with dataOk := true }, true)
    else if numargs < 2 then .done (ups, false)
    else if strcasecmp arg0 "ADDCMD".toList = .eq then
      .read 1 fun arg1 => .done ({ ups with cmdlist := (stateAddcmd ups.cmdlist arg1).1 }, true)
    else if strcasecmp arg0 "DELCMD".toList = .eq then
      .read 1 fun arg1 => .done ({ ups with cmdlist := (stateDelcmd ups.cmdlist arg1).1 }, true)
    else if strcasecmp arg0 "DELINFO".toList = .eq then
      .read 1 fun arg1 => .done ({ ups with inforoot := (stateDelinfo ups.inforoot arg1).1 }, true)
    else if numargs < 3 then .done (ups, false)
    else if strcasecmp arg0 "SETFLAGS".toList = .eq then
      .read 1 fun arg1 => (range 2 (numargs - 2)).bind fun flags =>
        .done ({ ups with inforoot := stateSetflags ups.inforoot arg1 flags }, true)
    else if strcasecmp arg0 "SETINFO".toList = .eq then
      .read 1 fun arg1 => .read 2 fun arg2 =>
        .done ({ ups with inforoot := (stateSetinfo ups.inforoot arg1 arg2).1 }, true)
    else if strcasecmp arg0 "ADDENUM".toList = .eq then
      .read 1 fun arg1 => .read 2 fun arg2 =>
        .done ({ ups with inforoot := (stateAddenum ups.inforoot arg1 arg2).1 }, true)
    else if strcasecmp arg0 "ADDRANGE".toList = .eq then
      .read 1 fun arg1 => .read 2 fun arg2 => .read 3 fun arg3 =>
        .done ({ ups with inforoot := (stateAddrange ups.inforoot arg1 (atoi arg2) (atoi arg3)).1 }, true)
    else if strcasecmp arg0 "DELENUM".toList = .eq then
      .read 1 fun arg1 => .read 2 fun arg2 =>
        .done ({ ups with inforoot := (stateDelenum ups.inforoot arg1 arg2).1 }, true)
    else if strcasecmp arg0 "DELRANGE".toList = .eq then
      .read 1 fun arg1 => .read 2 fun arg2 => .read 3 fun arg3 =>
        .done ({ ups with inforoot := (stateDelrange ups.inforoot arg1 (atoi arg2) (atoi arg3)).1 }, true)
    else if strcasecmp arg0 "SETAUX".toList = .eq then
      .read 1 fun arg1 => .read 2 fun arg2 =>
        .done ({ ups with inforoot := (stateSetaux ups.inforoot arg1 arg2).1 }, true)
    else .done (ups, false)

/-- `sock_arg` of the driver as a reader of `arglist`. -/
def sockArgReader (w : Nat → Bool) (upsh : UpsHandler) (fd : Nat) (d : Dstate) (numarg : Nat) :
    SlotReader CStr (Dstate × Bool) :=
  if numarg < 1 then .done (d, false)
  else .read 0 fun arg0 =>
    if strcasecmp arg0 "DUMPALL".toList = .eq then .done (dumpAll w fd d, true)
    else if strcasecmp arg0 "PING".toList = .eq then .done ((sendToOne w fd d "PONG\n".toList).1, true)
    else if numarg < 2 then .done (d, false)
    else if strcasecmp arg0 "INSTCMD".toList = .eq then
      match upsh.instcmd with
      | some instcmd =>
        if 2 < numarg then .read 1 fun arg1 => .read 2 fun arg2 => .done (instcmd d arg1 (some arg2), true)
        else .read 1 fun arg1 => .done (instcmd d arg1 none, true)
      | none => .done (d, true)
    else if numarg < 3 then .done (d, false)
    else if strcasecmp arg0 "SET".toList = .eq then
      match upsh.setvar with
      | some setvar => .read 1 fun arg1 => .read 2 fun arg2 => .done (setvar d arg1 arg2, true)
      | none => .done (d, true)
    else .done (d, false)

/-- `sock_arg` of `upssched` as a reader of `arglist`. -/
def schedArgReader (now : Int) (numargs : Nat) (d : Sched) : SlotReader CStr (Option Sched) :=
  if numargs < 1 then .done none
  else .read 0 fun arg0 =>
    if arg0 = "CANCEL".toList then
      if numargs < 3 then .read 1 fun name => .done (some (d.cancelTimer now name none))
      else .read 1 fun name => .read 2 fun cmd => .done (some (d.cancelTimer now name (some cmd)))
    else if numargs < 3 then .done none
    else if arg0 = "START".toList then
      .read 1 fun name => .read 2 fun ofsstr => .done (some (d.startTimer now name ofsstr))
    else .done none

section

variable {arg words slots : List CStr} {n : Nat}

theorem run_parseArgsReader (ups : Upstype) (h : n ≤ arg.length) :
    (parseArgsReader ups n).run arg = parseArgs ups n arg := by
  have read1 (h2 : ¬n < 2) := @run_read_getD CStr (Upstype × Bool) arg 1 (by omega) []
  have read2 (h3 : ¬n < 3) := @run_read_getD CStr (Upstype × Bool) arg 2 (by omega) []
  have read12 (h3 : ¬n < 3) (next : CStr → CStr → SlotReader CStr (Upstype × Bool)) :
      (read 1 fun arg1 => read 2 (next arg1)).run arg = (next (arg.getD 1 []) (arg.getD 2 [])).run arg := by
    rw [read1 (by omega), read2 h3]
  have read3 (f : CStr → Upstype × Bool) : (read 3 fun arg3 => .done (f arg3)).run arg = arg[3]?.map f := by
    rw [run]
    cases arg[3]? <;> rfl
  rw [parseArgsReader, parseArgs]
  refine run_ite (fun _ => rfl) fun h1 => ?_
  rw [run_read_getD (by omega) []]
  refine run_ite (fun _ => rfl) fun _ => run_ite (fun _ => rfl) fun _ => run_ite (fun _ => rfl) fun _ =>
    run_ite (fun _ => rfl) fun _ => ?_
  refine run_ite (fun _ => rfl) fun h2 => ?_
  refine run_ite (fun _ => read1 h2 _) fun _ => run_ite (fun _ => read1 h2 _) fun _ =>
    run_ite (fun _ => read1 h2 _) fun _ => ?_
  refine run_ite (fun _ => rfl) fun h3 => ?_
  refine run_ite (fun _ => ?_) fun _ => ?_
  · rw [read1 h2, run_bind, run_range 2 (n - 2) (by omega), List.drop_take]
    rfl
  refine run_ite (fun _ => read12 h3 _) fun _ => run_ite (fun _ => read12 h3 _) fun _ => ?_
  refine run_ite (fun _ => (read12 h3 _).trans (read3 _)) fun _ => ?_
  refine run_ite (fun _ => read12 h3 _) fun _ => ?_
  refine run_ite (fun _ => (read12 h3 _).trans (read3 _)) fun _ => ?_
  exact run_ite (fun _ => read12 h3 _) fun _ => rfl

theorem run_sockArgReader (w : Nat → Bool) (upsh : UpsHandler) (fd : Nat) (d : Dstate) (h : n ≤ arg.length) :
    (sockArgReader w upsh fd d n).run arg = some (sockArg w upsh fd d n arg) := by
  rw [sockArgReader, sockArg]
  by_cases h1 : n < 1
  · rw [if_pos h1, if_pos h1]
    rfl
  rw [if_neg h1, if_neg h1, run_read_getD (by omega) []]
  have hsome {c : Prop} [Decidable c] (x y : Dstate × Bool) : some (if c then x else y) = if c then some x else some y :=
    apply_ite some c x y
  simp only [hsome]
  refine run_ite (fun _ => rfl) fun _ => run_ite (fun _ => rfl) fun _ => run_ite (fun _ => rfl) fun h2 => ?_
  refine run_ite (fun _ => ?_) fun _ => ?_
  · rcases upsh.instcmd with _ | instcmd
    · rfl
    · by_cases h3 : 2 < n
      · simp only [if_pos h3]
        rw [run_read_getD (by omega) [], run_read_getD (by omega) []]
        rfl
      · simp only [if_neg h3]
        rw [run_read_getD (by omega) []]
        rfl
  refine run_ite (fun _ => rfl) fun h3 => run_ite (fun _ => ?_) fun _ => rfl
  rcases upsh.setvar with _ | setvar
  · rfl
  · simp only
    rw [run_read_getD (by omega) [], run_read_getD (by omega) []]
    rfl

/-- `sockArg` does not tell a line that it does not know from a slot that does not exist. -/
theorem run_schedArgReader (now : Int) (d : Sched) (h : n ≤ arg.length) :
    ((schedArgReader now n d).run arg).bind id = Upssched.sockArg now n arg d := by
  rw [schedArgReader, Upssched.sockArg]
  by_cases h1 : n < 1
  · rw [if_pos h1, if_pos h1]
    rfl
  have hslot {i : Nat} (hi : i < n) : arg[i]? = some (arg.getD i []) := by
    rw [List.getD_eq_getElem?_getD, List.getElem?_eq_getElem (by omega), Option.getD_some]
  have hget {i : Nat} (hi : i < n) (s : CStr) : arg[i]? = some s ↔ arg.getD i [] = s := by
    rw [hslot hi, Option.some.injEq]
  rw [if_neg h1, if_neg h1, run_read_getD (by omega) []]
  simp only [hget (show 0 < n by omega)]
  by_cases hcancel : arg.getD 0 [] = "CANCEL".toList
  · rw [if_pos hcancel, if_pos hcancel]
    by_cases h3 : n < 3
    · rw [if_pos h3, if_pos h3, run]
      cases arg[1]? <;> rfl
    · rw [if_neg h3, if_neg h3, run_read_getD (by omega) [], run_read_getD (by omega) [], hslot (by omega), hslot (by omega)]
      rfl
  · rw [if_neg hcancel, if_neg hcancel]
    by_cases h3 : n < 3
    · rw [if_pos h3, if_pos h3]
      rfl
    · rw [if_neg h3, if_neg h3]
      split_ifs
      · rw [run_read_getD (by omega) [], run_read_getD (by omega) [], hslot (by omega), hslot (by omega)]
        rfl
      · rfl

/-! ### Lines that are read on -/

/-- A range without its maximum. -/
def ShortRange (words : List CStr) : Prop :=
  ∃ arg0 arg1 arg2, words = [arg0, arg1, arg2] ∧
    (strcasecmp arg0 "ADDRANGE".toList = .eq ∨ strcasecmp arg0 "DELRANGE".toList = .eq)

/-- The keywords are different. -/
theorem keyword_ne {s a b : CStr} (h : strcasecmp s a = .eq) (hab : strcasecmp a b ≠ .eq) : ¬strcasecmp s b = .eq := by
  rw [strcasecmp_eq] at h
  rw [Ne, strcasecmp_eq, ← h, ← strcasecmp_eq] at hab
  exact hab

theorem ite_isSome {ρ : Type*} {c : Prop} [Decidable c] {x y : Option ρ} (hx : c → x.isSome) (hy : ¬c → y.isSome) :
    (if c then x else y).isSome := by
  split_ifs with hc
  · exact hx hc
  · exact hy hc

/-- Other lines are read to the end of what they need. -/
theorem parseArgs_isSome (ups : Upstype) (n : Nat)
    (h : ¬(strcasecmp (arg.getD 0 []) "ADDRANGE".toList = .eq ∨ strcasecmp (arg.getD 0 []) "DELRANGE".toList = .eq)) :
    (parseArgs ups n arg).isSome := by
  obtain ⟨hadd, hdel⟩ := not_or.1 h
  rw [parseArgs]
  iterate 5 refine ite_isSome (fun _ => rfl) fun _ => ?_
  iterate 4 refine ite_isSome (fun _ => rfl) fun _ => ?_
  iterate 4 refine ite_isSome (fun _ => rfl) fun _ => ?_
  refine ite_isSome (fun hc => absurd hc hadd) fun _ => ite_isSome (fun _ => rfl) fun _ => ?_
  refine ite_isSome (fun hc => absurd hc hdel) fun _ => ite_isSome (fun _ => rfl) fun _ => rfl

/-- The minimum and the maximum are read where there are three words. -/
theorem parseArgs_range (ups : Upstype) (n : Nat)
    (h : strcasecmp (arg.getD 0 []) "ADDRANGE".toList = .eq ∨ strcasecmp (arg.getD 0 []) "DELRANGE".toList = .eq) :
    ∃ f, parseArgs ups n arg = if n < 3 then some (ups, false) else arg[3]?.map f := by
  have hne (k : CStr) (hk : strcasecmp "ADDRANGE".toList k ≠ .eq ∧ strcasecmp "DELRANGE".toList k ≠ .eq) :
      ¬strcasecmp (arg.getD 0 []) k = .eq := by
    rcases h with h | h
    · exact keyword_ne h hk.1
    · exact keyword_ne h hk.2
  by_cases h3 : n < 3
  · refine ⟨fun _ => (ups, false), ?_⟩
    rw [if_pos h3, parseArgs]
    by_cases h1 : n < 1
    · rw [if_pos h1]
    rw [if_neg h1, if_neg (hne _ (by decide)), if_neg (hne _ (by decide)), if_neg (hne _ (by decide)),
      if_neg (hne _ (by decide))]
    by_cases h2 : n < 2
    · rw [if_pos h2]
    rw [if_neg h2, if_neg (hne _ (by decide)), if_neg (hne _ (by decide)), if_neg (hne _ (by decide)), if_pos h3]
  · rw [parseArgs, if_neg (by omega), if_neg (hne _ (by decide)), if_neg (hne _ (by decide)), if_neg (hne _ (by decide)),
      if_neg (hne _ (by decide)), if_neg (by omega), if_neg (hne _ (by decide)), if_neg (hne _ (by decide)),
      if_neg (hne _ (by decide)), if_neg h3, if_neg (hne _ (by decide)), if_neg (hne _ (by decide)),
      if_neg (hne _ (by decide))]
    by_cases hadd : strcasecmp (arg.getD 0 []) "ADDRANGE".toList = .eq
    · rw [if_pos hadd]
      exact ⟨_, (if_neg h3).symm⟩
    · rw [if_neg hadd, if_neg (hne _ (by decide)), if_pos (h.resolve_left hadd)]
      exact ⟨_, (if_neg h3).symm⟩

theorem parseArgsReader_within_iff (ups : Upstype) (hn : n ≤ slots.length) :
    (parseArgsReader ups n).Within n slots ↔ ¬ShortRange (slots.take n) := by
  have hlen : (slots.take n).length = n := by rw [List.length_take]; omega
  rw [within_iff hn, run_parseArgsReader ups hlen.ge]
  by_cases hrange : strcasecmp ((slots.take n).getD 0 []) "ADDRANGE".toList = .eq ∨
      strcasecmp ((slots.take n).getD 0 []) "DELRANGE".toList = .eq
  · obtain ⟨f, hf⟩ := parseArgs_range ups n hrange
    rw [hf]
    generalize slots.take n = words at hlen hrange
    by_cases h3 : n < 3
    · rw [if_pos h3]
      refine iff_of_true rfl ?_
      rintro ⟨arg0, arg1, arg2, rfl, -⟩
      simp only [List.length_cons, List.length_nil] at hlen
      omega
    · rw [if_neg h3, Option.isSome_map]
      rcases words with _ | ⟨arg0, _ | ⟨arg1, _ | ⟨arg2, _ | ⟨arg3, words⟩⟩⟩⟩
      case cons.cons.cons.nil => exact iff_of_false Bool.false_ne_true fun h => h ⟨arg0, arg1, arg2, rfl, hrange⟩
      case cons.cons.cons.cons =>
        refine iff_of_true rfl ?_
        rintro ⟨_, _, _, h, -⟩
        simp at h
      all_goals
        simp only [List.length_cons, List.length_nil] at hlen
        omega
  · refine iff_of_true (parseArgs_isSome ups n hrange) ?_
    rintro ⟨arg0, arg1, arg2, hwords, h⟩
    rw [hwords] at hrange
    exact hrange h

theorem sockArgReader_within (w : Nat → Bool) (upsh : UpsHandler) (fd : Nat) (d : Dstate) (hn : n ≤ slots.length) :
    (sockArgReader w upsh fd d n).Within n slots := by
  have hlen : (slots.take n).length = n := by rw [List.length_take]; omega
  rw [within_iff hn, run_sockArgReader w upsh fd d hlen.ge]
  rfl

theorem schedArgReader_within_iff (now : Int) (d : Sched) (hn : n ≤ slots.length) :
    (schedArgReader now n d).Within n slots ↔ slots.take n ≠ ["CANCEL".toList] := by
  have hlen : (slots.take n).length = n := by rw [List.length_take]; omega
  rw [within_iff hn, schedArgReader]
  rcases hwords : slots.take n with _ | ⟨arg0, words⟩
  · rw [if_pos (by rw [← hlen, hwords]; decide)]
    exact iff_of_true rfl (by simp)
  rw [hwords, List.length_cons] at hlen
  rw [if_neg (by omega), run_read rfl]
  by_cases hcancel : arg0 = "CANCEL".toList
  · rw [if_pos hcancel, hcancel]
    rcases words with _ | ⟨name, _ | ⟨cmd, words⟩⟩
    · rw [if_pos (by rw [← hlen]; simp)]
      exact iff_of_false Bool.false_ne_true fun h => h rfl
    · rw [if_pos (by rw [← hlen]; simp)]
      exact iff_of_true rfl (by simp)
    · rw [if_neg (by rw [← hlen, List.length_cons, List.length_cons]; omega)]
      exact iff_of_true rfl (by simp)
  · have hne : arg0 :: words ≠ ["CANCEL".toList] := fun h => hcancel (List.cons.inj h).1
    rw [if_neg hcancel]
    refine iff_of_true ?_ hne
    split_ifs with h3
    · rfl
    · rcases words with _ | ⟨name, _ | ⟨ofsstr, words⟩⟩
      · simp only [List.length_nil] at hlen
        omega
      · simp only [List.length_cons, List.length_nil] at hlen
        omega
      · rfl
    · rfl

/-- The context of a connection after the characters that came to the parser. -/
def received (input : CStr) : PconfCtx := input.foldl (fun ctx ch => (pconfChar ctx ch).1) pconfInit

theorem pconfChar_tidy {ctx : PconfCtx} (h : Tidy ctx) (ch : Char) : Tidy (pconfChar ctx ch).1 := by
  have hline := charLine_tidy h [ch]
  rw [charLine] at hline
  rcases hc : pconfChar ctx ch with ⟨ctx', _ | _ | _⟩ <;> rw [hc] at hline <;> exact hline

theorem received_tidy (input : CStr) : Tidy (received input) := by
  have hfold {ctx : PconfCtx} (h : Tidy ctx) : Tidy (input.foldl (fun ctx ch => (pconfChar ctx ch).1) ctx) := by
    induction input generalizing ctx with
    | nil => exact h
    | cons ch input ih => exact ih (pconfChar_tidy h ch)
  exact hfold BetweenLines.init.tidy.1

/-- Which lines make which of the daemons read an argument that the line does not have. -/
theorem lines_within_iff (input : CStr) (ups : Upstype) (w : Nat → Bool) (upsh : UpsHandler) (fd : Nat) (d : Dstate)
    (now : Int) (sched : Sched) :
    ((parseArgsReader ups (received input).numargs).Within (received input).numargs (received input).arglist ↔
      ¬ShortRange (received input).args) ∧
    (sockArgReader w upsh fd d (received input).numargs).Within (received input).numargs (received input).arglist ∧
    ((schedArgReader now (received input).numargs sched).Within (received input).numargs (received input).arglist ↔
      (received input).args ≠ ["CANCEL".toList]) := by
  have hn := (received_tidy input).numargs
  exact ⟨parseArgsReader_within_iff ups hn, sockArgReader_within w upsh fd d hn, schedArgReader_within_iff now sched hn⟩

end

/-- A range without its maximum as the first line of a driver, and `CANCEL` alone as the first line of a client. -/
theorem lines_cut_short :
    ¬(parseArgsReader (newUps "dev".toList "ups".toList none) (received "ADDRANGE in.low 85\n".toList).numargs).Within
        (received "ADDRANGE in.low 85\n".toList).numargs (received "ADDRANGE in.low 85\n".toList).arglist ∧
    ¬(schedArgReader 0 (received "CANCEL\n".toList).numargs ⟨[], 0, true, 0, [], []⟩).Within
        (received "CANCEL\n".toList).numargs (received "CANCEL\n".toList).arglist := by
  unfold Within
  decide +kernel

end Nut
