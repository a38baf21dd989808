import Nut.Common.CString

/-!
# `serial.c`: lines from a serial port

`ser_get_line_alert` takes a line from the chunks that `select_read` returns.  It does not depend on where the stream is cut:
the line, its length and the calls of the handler are those of the stream (`get_line_alert_eq`).

`size_t` has 64 bits.  There is no result where a byte is put outside the buffer.
-/

namespace Nut

namespace Serial

/-- What a call of `select_read` returns: the bytes, or 0 for a timeout and -1 for an error. -/
inductive SelectRead where
  | bytes (tmp : CStr)
  | failed (ret : Int32)

/-- `strchr`: the NUL at the end of the string is one of its characters. -/
def strchr (set : CStr) (ch : Char) : Bool := ch = '\x00' || set.contains ch

/-- The arguments of `ser_get_line_alert`; `handler` says whether there is one. -/
structure LineArgs where
  buflen : Nat
  endchar : Char
  ignset : CStr
  alertset : CStr
  handler : Bool

/-- The characters put into the buffer, `count` of them, and those that the handler was called with. -/
structure LineState where
  data : CStr
  alerted : CStr

/-- The line, the buffer and the calls of the handler. -/
structure LineResult where
  ret : Int32
  buf : CStr
  alerted : CStr
  deriving DecidableEq

def LineArgs.maxcount (a : LineArgs) : Nat := (UInt64.ofNat a.buflen - 1).toNat

/-- The loop over a chunk; the second result says whether the function returns in it. -/
def lineChunk (a : LineArgs) : LineState → CStr → Option (LineState × Bool)
  | s, [] => some (s, false)
  | s, ch :: tmp =>
    if s.data.length = a.maxcount ∨ ch = a.endchar then some (s, true)
    else if strchr a.ignset ch then lineChunk a s tmp
    else if strchr a.alertset ch then
      lineChunk a (if a.handler then { s with alerted := s.alerted ++ [ch] } else s) tmp
    else if a.buflen ≤ s.data.length then none
    else lineChunk a { s with data := s.data ++ [ch] } tmp

def LineState.result (a : LineArgs) (s : LineState) (ret : Int32) : LineResult where
  ret := ret
  buf := s.data ++ List.replicate (a.buflen - s.data.length) '\x00'
  alerted := s.alerted

/-- The loop over the calls of `select_read`; where none is left, nothing arrives in time. -/
def lineLoop (a : LineArgs) : LineState → List SelectRead → Option LineResult
  | s, reads =>
    if a.maxcount ≤ s.data.length then some (s.result a (Int32.ofNat s.data.length))
    else
      match reads with
      | [] => some (s.result a 0)
      | .failed ret :: _ => some (s.result a ret)
      | .bytes [] :: _ => some (s.result a 0)
      | .bytes (ch :: tmp) :: reads =>
        match lineChunk a s (ch :: tmp) with
        | none => none
        | some (s, true) => some (s.result a (Int32.ofNat s.data.length))
        | some (s, false) => lineLoop a s reads

def serGetLineAlert (a : LineArgs) (reads : List SelectRead) : Option LineResult := lineLoop a ⟨[], []⟩ reads

/-- `ser_get_line`: there is no handler. -/
def serGetLine (buflen : Nat) (endchar : Char) (ignset : CStr) (reads : List SelectRead) : Option LineResult :=
  serGetLineAlert ⟨buflen, endchar, ignset, [], false⟩ reads

/-! ### The line of a stream -/

namespace LineArgs

/-- The character is put into the line. -/
def Kept (a : LineArgs) (ch : Char) : Bool := ch ≠ '\x00' && ch ∉ a.ignset && ch ∉ a.alertset

/-- The handler is called with the character. -/
def Alert (a : LineArgs) (ch : Char) : Bool := a.handler && ch ≠ '\x00' && ch ∉ a.ignset && ch ∈ a.alertset

/-- The characters of the stream up to the end of a line, which is before the first end character or behind the `room`-th
character that is put into it. -/
def span (a : LineArgs) : Nat → CStr → CStr
  | 0, _ => []
  | _ + 1, [] => []
  | room + 1, ch :: s =>
    if ch = a.endchar then [] else if a.Kept ch then ch :: a.span room s else ch :: a.span (room + 1) s

/-- The end of the line arrives. -/
def Arrives (a : LineArgs) (s : CStr) : Prop := a.endchar ∈ s ∨ a.buflen - 1 ≤ (s.filter a.Kept).length

end LineArgs

section

variable {a : LineArgs} {s : LineState} {room : Nat} {tmp rest stream : CStr} {chunks : List CStr} {ch : Char}

theorem strchr_eq (set : CStr) (ch : Char) : strchr set ch = true ↔ ch = '\x00' ∨ ch ∈ set := by
  simp [strchr]

theorem span_endchar (room : Nat) (tmp : CStr) : a.span room (a.endchar :: tmp) = [] := by
  cases room with
  | zero => rfl
  | succ room => rw [LineArgs.span, if_pos rfl]

theorem span_kept (he : ch ≠ a.endchar) (hk : a.Kept ch = true) :
    a.span (room + 1) (ch :: tmp) = ch :: a.span room tmp := by
  rw [LineArgs.span, if_neg he, if_pos hk]

theorem span_dropped (he : ch ≠ a.endchar) (hk : a.Kept ch = false) :
    a.span (room + 1) (ch :: tmp) = ch :: a.span (room + 1) tmp := by
  rw [LineArgs.span, if_neg he, if_neg (by simp [hk])]

/-- What the function has done with these characters of the line. -/
def LineState.took (s : LineState) (a : LineArgs) (p : CStr) : LineState where
  data := s.data ++ p.filter a.Kept
  alerted := s.alerted ++ p.filter a.Alert

@[simp] theorem took_nil (s : LineState) (a : LineArgs) : s.took a [] = s := by simp [LineState.took]

theorem took_append (s : LineState) (a : LineArgs) (p q : CStr) : s.took a (p ++ q) = (s.took a p).took a q := by
  simp [LineState.took]

theorem maxcount_eq (hbuf : 0 < a.buflen) (hsize : a.buflen < 2 ^ 64) : a.maxcount = a.buflen - 1 := by
  have hle : (1 : UInt64) ≤ UInt64.ofNat a.buflen := by
    rw [UInt64.le_iff_toNat_le, UInt64.toNat_ofNat_of_lt' hsize]
    exact hbuf
  rw [LineArgs.maxcount, UInt64.toNat_sub_of_le _ _ hle, UInt64.toNat_ofNat_of_lt' hsize]
  rfl

/-- The loop over a chunk goes through the characters of the line, and returns if one is left. -/
theorem lineChunk_eq (hbuf : 0 < a.buflen) (hsize : a.buflen < 2 ^ 64) (hroom : s.data.length + room = a.buflen - 1)
    (tmp : CStr) : lineChunk a s tmp = some (s.took a (a.span room tmp), decide (a.span room tmp ≠ tmp)) := by
  induction tmp generalizing s room with
  | nil => cases room <;> simp [lineChunk, LineArgs.span]
  | cons ch tmp ih =>
    rw [lineChunk, maxcount_eq hbuf hsize]
    by_cases hstop : s.data.length = a.buflen - 1 ∨ ch = a.endchar
    · rw [if_pos hstop]
      have hspan : a.span room (ch :: tmp) = [] := by
        rcases hstop with hfull | rfl
        · obtain rfl : room = 0 := by omega
          rfl
        · exact span_endchar room tmp
      simp [hspan]
    · obtain ⟨hfull, hend⟩ := not_or.1 hstop
      obtain ⟨room, rfl⟩ : ∃ k, room = k + 1 := ⟨room - 1, by omega⟩
      rw [if_neg hstop]
      by_cases hign : strchr a.ignset ch = true
      · have hk : a.Kept ch = false := by
          rcases (strchr_eq ..).1 hign with h | h <;> simp [LineArgs.Kept, h]
        have ha : a.Alert ch = false := by
          rcases (strchr_eq ..).1 hign with h | h <;> simp [LineArgs.Alert, h]
        rw [if_pos hign, ih hroom, span_dropped hend hk]
        simp [LineState.took, hk, ha]
      · have hnul : ch ≠ '\x00' := fun h => hign ((strchr_eq ..).2 (.inl h))
        have hign' : ch ∉ a.ignset := fun h => hign ((strchr_eq ..).2 (.inr h))
        rw [if_neg hign]
        by_cases hset : strchr a.alertset ch = true
        · have hmem : ch ∈ a.alertset := ((strchr_eq ..).1 hset).resolve_left hnul
          have hk : a.Kept ch = false := by simp [LineArgs.Kept, hmem]
          have ha : a.Alert ch = a.handler := by simp [LineArgs.Alert, hnul, hign', hmem]
          have hdata : (if a.handler then { s with alerted := s.alerted ++ [ch] } else s).data.length + (room + 1) =
              a.buflen - 1 := by
            split_ifs <;> exact hroom
          rw [if_pos hset, ih hdata, span_dropped hend hk]
          cases hh : a.handler <;> simp [LineState.took, hk, ha, hh]
        · have hmem : ch ∉ a.alertset := fun h => hset ((strchr_eq ..).2 (.inr h))
          have hk : a.Kept ch = true := by simp [LineArgs.Kept, hnul, hign', hmem]
          have ha : a.Alert ch = false := by simp [LineArgs.Alert, hmem]
          have hdata : (s.data ++ [ch]).length + room = a.buflen - 1 := by
            rw [List.length_append, List.length_singleton]
            omega
          rw [if_neg hset, if_neg (by omega), ih hdata, span_kept hend hk]
          simp [LineState.took, hk, ha]

/-- A line that does not end in a chunk goes on behind it. -/
theorem span_append (h : a.span room tmp = tmp) (rest : CStr) :
    a.span room (tmp ++ rest) = tmp ++ a.span (room - (tmp.filter a.Kept).length) rest ∧ a.endchar ∉ tmp ∧
      (tmp.filter a.Kept).length ≤ room := by
  induction tmp generalizing room with
  | nil => simp
  | cons ch tmp ih =>
    cases room with
    | zero => simp [LineArgs.span] at h
    | succ room =>
      by_cases hend : ch = a.endchar
      · rw [hend, span_endchar] at h
        simp at h
      · rw [List.cons_append]
        cases hk : a.Kept ch with
        | true =>
          rw [span_kept hend hk, List.cons.injEq] at h
          obtain ⟨hspan, hmem, hle⟩ := ih h.2
          rw [span_kept hend hk, hspan, List.filter_cons_of_pos hk, List.length_cons, Nat.add_sub_add_right]
          exact ⟨rfl, by simp [Ne.symm hend, hmem], Nat.succ_le_succ hle⟩
        | false =>
          rw [span_dropped hend hk, List.cons.injEq] at h
          obtain ⟨hspan, hmem, hle⟩ := ih h.2
          rw [span_dropped hend hk, hspan, List.filter_cons_of_neg (by simp [hk])]
          exact ⟨rfl, by simp [Ne.symm hend, hmem], hle⟩

/-- A line that ends in a chunk does not depend on what follows. -/
theorem span_append_of_ne (h : a.span room tmp ≠ tmp) (rest : CStr) : a.span room (tmp ++ rest) = a.span room tmp := by
  induction tmp generalizing room with
  | nil => cases room <;> simp [LineArgs.span] at h
  | cons ch tmp ih =>
    cases room with
    | zero => rfl
    | succ room =>
      by_cases hend : ch = a.endchar
      · rw [hend, List.cons_append, span_endchar, span_endchar]
      · rw [List.cons_append]
        cases hk : a.Kept ch with
        | true =>
          rw [span_kept hend hk] at h ⊢
          rw [span_kept hend hk, ih fun he => h (by rw [he])]
        | false =>
          rw [span_dropped hend hk] at h ⊢
          rw [span_dropped hend hk, ih fun he => h (by rw [he])]

/-- The loop over the chunks goes through the characters of the line, if its end arrives. -/
theorem lineLoop_eq (hbuf : 0 < a.buflen) (hsize : a.buflen < 2 ^ 64) (hroom : s.data.length + room = a.buflen - 1)
    (hchunks : ∀ c ∈ chunks, c ≠ [])
    (harrives : a.endchar ∈ chunks.flatten ∨ room ≤ (chunks.flatten.filter a.Kept).length) :
    lineLoop a s (chunks.map .bytes) = some ((s.took a (a.span room chunks.flatten)).result a
      (Int32.ofNat (s.took a (a.span room chunks.flatten)).data.length)) := by
  induction chunks generalizing s room with
  | nil =>
    have h0 : room = 0 := by
      rcases harrives with h | h
      · simp at h
      · exact Nat.le_zero.1 h
    subst h0
    rw [List.map_nil, lineLoop]
    rw [maxcount_eq hbuf hsize, if_pos (by omega)]
    simp [LineArgs.span]
  | cons chunk chunks ih =>
    obtain ⟨hne, hlater⟩ := List.forall_mem_cons.1 hchunks
    obtain ⟨ch, tmp, rfl⟩ := List.exists_cons_of_ne_nil hne
    rw [List.map_cons, lineLoop, maxcount_eq hbuf hsize]
    by_cases hfull : a.buflen - 1 ≤ s.data.length
    · obtain rfl : room = 0 := by omega
      rw [if_pos hfull]
      simp [LineArgs.span]
    · rw [if_neg hfull, lineChunk_eq hbuf hsize hroom, List.flatten_cons]
      by_cases hspan : a.span room (ch :: tmp) = ch :: tmp
      · -- the chunk is all of the line
        obtain ⟨happend, hmem, hle⟩ := span_append hspan chunks.flatten
        rw [hspan, decide_eq_false (not_not.2 rfl)]
        dsimp only
        have hroom' : (s.took a (ch :: tmp)).data.length + (room - ((ch :: tmp).filter a.Kept).length) = a.buflen - 1 := by
          rw [LineState.took, List.length_append]
          omega
        have harrives' : a.endchar ∈ chunks.flatten ∨
            room - ((ch :: tmp).filter a.Kept).length ≤ (chunks.flatten.filter a.Kept).length := by
          rw [List.flatten_cons, List.mem_append, List.filter_append, List.length_append] at harrives
          rcases harrives with h | h
          · exact .inl (h.resolve_left hmem)
          · exact .inr (by omega)
        rw [ih hroom' hlater harrives', happend, took_append]
      · rw [span_append_of_ne hspan, decide_eq_true hspan]

/-- What is put into the line: the characters before the end character, as many as there is room for. -/
theorem filter_span (a : LineArgs) (room : Nat) (stream : CStr) :
    (a.span room stream).filter a.Kept = ((stream.takeWhile (· ≠ a.endchar)).filter a.Kept).take room := by
  induction stream generalizing room with
  | nil => cases room <;> simp [LineArgs.span]
  | cons ch stream ih =>
    cases room with
    | zero => simp [LineArgs.span]
    | succ room =>
      by_cases hend : ch = a.endchar
      · rw [hend, span_endchar]
        simp
      · rw [List.takeWhile_cons_of_pos (by simpa using hend)]
        cases hk : a.Kept ch with
        | true =>
          rw [span_kept hend hk, List.filter_cons_of_pos hk, List.filter_cons_of_pos hk, List.take_succ_cons, ih]
        | false =>
          rw [span_dropped hend hk, List.filter_cons_of_neg (by simp [hk]), List.filter_cons_of_neg (by simp [hk]), ih]

/-- A line that is not cut ends before the end character. -/
theorem span_of_lt (h : ((stream.takeWhile (· ≠ a.endchar)).filter a.Kept).length < room) :
    a.span room stream = stream.takeWhile (· ≠ a.endchar) := by
  induction stream generalizing room with
  | nil => cases room <;> rfl
  | cons ch stream ih =>
    obtain ⟨room, rfl⟩ : ∃ k, room = k + 1 := ⟨room - 1, by omega⟩
    by_cases hend : ch = a.endchar
    · rw [hend, span_endchar]
      simp
    · rw [List.takeWhile_cons_of_pos (by simpa using hend)] at h ⊢
      cases hk : a.Kept ch with
      | true =>
        rw [List.filter_cons_of_pos hk, List.length_cons] at h
        rw [span_kept hend hk, ih (by omega)]
      | false =>
        rw [List.filter_cons_of_neg (by simp [hk])] at h
        rw [span_dropped hend hk, ih h]

/-- However the stream is cut, the line is what is kept of it before the end character, as far as the buffer has room, and
the handler is called for the alert characters up to the end of the line. -/
theorem get_line_alert_eq (a : LineArgs) (hbuf : 0 < a.buflen) (hsize : a.buflen < 2 ^ 64) {chunks : List CStr}
    (hchunks : ∀ c ∈ chunks, c ≠ []) {stream : CStr} (hcut : chunks.flatten = stream) (harrives : a.Arrives stream) :
    let before := stream.takeWhile (· ≠ a.endchar)
    let line := (before.filter a.Kept).take (a.buflen - 1)
    serGetLineAlert a (chunks.map .bytes) = some {
      ret := Int32.ofNat line.length
      buf := line ++ List.replicate (a.buflen - line.length) '\x00'
      alerted := (a.span (a.buflen - 1) stream).filter a.Alert } ∧
    line.length < a.buflen ∧ (line.length < a.buflen - 1 → a.span (a.buflen - 1) stream = before) := by
  intro before line
  subst hcut
  have hroom : (LineState.mk [] []).data.length + (a.buflen - 1) = a.buflen - 1 := Nat.zero_add _
  have hline : (a.span (a.buflen - 1) chunks.flatten).filter a.Kept = line := filter_span a _ _
  have hlen : line.length = min (a.buflen - 1) (before.filter a.Kept).length := List.length_take
  refine ⟨?_, by omega, fun hshort => span_of_lt (by change (before.filter a.Kept).length < _; omega)⟩
  rw [serGetLineAlert, lineLoop_eq hbuf hsize hroom hchunks harrives]
  simp only [LineState.took, LineState.result, List.nil_append, hline]

end

/-- A line with ignored and alert characters that fills the buffer at the end of a chunk. -/
theorem get_line_alert_full :
    serGetLineAlert ⟨4, '\n', ['\r'], ['!'], true⟩ ([['A'], ['!', '\r', 'B', 'C'], ['D', '!']].map .bytes) =
      some ⟨3, ['A', 'B', 'C', '\x00'], ['!']⟩ :=
  (get_line_alert_eq ⟨4, '\n', ['\r'], ['!'], true⟩ (by decide) (by decide) (by decide) rfl (.inr (by decide))).1.trans
    (by decide)

end Serial

end Nut
