import Nut.Common.Tokens

/-!
# `nutclient.cpp`: the line reader

`Socket::read` collects a line in a local string and keeps only the last piece of it in `_buffer`.  A timeout throws the
string away.  At the end of the stream it reads zero bytes again and again.
-/

namespace Nut

namespace Socket

/-- What one `::read` delivers. -/
structure Chunk where
  text : CStr
  nonempty : text ≠ []
  fits : text.length ≤ 256

/-- What comes from the peer, before the end of the stream. -/
inductive Event
  | chunk (c : Chunk)
  | timeout

structure Sock where
  buffer : CStr
  events : List Event

/-- How a call of the line reader ends. -/
inductive Outcome
  | line (res : CStr)
  | thrown

/-- `size_t Socket::read(void *, size_t)`: the bytes, or nothing where it throws. -/
def readBytes : List Event → Option CStr × List Event
  | [] => (some [], [])
  | .timeout :: events => (none, events)
  | .chunk c :: events => (some c.text, events)

/-- The loop of `std::string Socket::read()`; there is no outcome while it goes on. -/
def readLoop : Nat → Sock → CStr → Option (Outcome × Sock)
  | 0, _, _ => none
  | fuel + 1, s, res =>
    if '\n' ∈ s.buffer then
      some (.line (res ++ s.buffer.takeWhile (· ≠ '\n')), { s with buffer := (s.buffer.dropWhile (· ≠ '\n')).tail })
    else
      match readBytes s.events with
      | (none, events) => some (.thrown, { s with events })
      | (some buff, events) => readLoop fuel { buffer := buff, events } (res ++ s.buffer)

/-- A call ends. -/
def Read (s : Sock) (o : Outcome) (s' : Sock) : Prop := ∃ fuel, readLoop fuel s [] = some (o, s')

/-- Calls one after the other. -/
inductive Calls : Sock → List Outcome → Sock → Prop
  | nil (s : Sock) : Calls s [] s
  | cons {s s' s'' : Sock} {o : Outcome} {os : List Outcome} : Read s o s' → Calls s' os s'' → Calls s (o :: os) s''

/-- The lines that calls return. -/
def linesOf : List Outcome → List CStr
  | [] => []
  | .line res :: os => res :: linesOf os
  | .thrown :: os => linesOf os

/-- The text of the stream. -/
def textOf : List Event → CStr
  | [] => []
  | .timeout :: events => textOf events
  | .chunk c :: events => c.text ++ textOf events

/-- The complete lines of a text. -/
def completeLines (t : CStr) : List CStr := (t.splitOn '\n').dropLast

/-- What comes after the last complete line. -/
def unfinished (t : CStr) : CStr := (t.splitOn '\n').getLast (List.splitOn_ne_nil '\n' t)

/-- Every call ends; the calls return the complete lines; where the stream is read up, the next call throws. -/
structure Law (events : List Event) : Prop where
  ends : ∀ os s, Calls ⟨[], events⟩ os s → ∃ o s', Read s o s'
  lines : ∃ os s, Calls ⟨[], events⟩ os s ∧ linesOf os = completeLines (textOf events)
  throws : ∀ os s, Calls ⟨[], events⟩ os s → s.events = [] → '\n' ∉ s.buffer → ∃ s', Read s .thrown s'

/-- The calls up to the one that does not end return exactly the complete lines. -/
def LinesKept (events : List Event) : Prop :=
  ∃ os s, Calls ⟨[], events⟩ os s ∧ (∀ fuel, readLoop fuel s [] = none) ∧ linesOf os = completeLines (textOf events)

/-- A timeout after a chunk interrupts no line that began in an earlier chunk and is completed later. -/
def Uninterrupted (events : List Event) : Prop :=
  ∀ pre c post, events = pre ++ .chunk c :: .timeout :: post → '\n' ∈ textOf post →
    '\n' ∈ c.text ∨ unfinished (textOf pre) = []

section Lines

theorem completeLines_of_not_mem {t : CStr} (h : '\n' ∉ t) : completeLines t = [] ∧ unfinished t = t := by
  have hsplit : t.splitOn '\n' = [t] := List.splitOn_eq_singleton h
  simp [completeLines, unfinished, hsplit]

theorem completeLines_line {l : CStr} (h : '\n' ∉ l) (t : CStr) :
    completeLines (l ++ '\n' :: t) = l :: completeLines t ∧ unfinished (l ++ '\n' :: t) = unfinished t := by
  have hsplit : (l ++ '\n' :: t).splitOn '\n' = l :: t.splitOn '\n' := List.splitOn_append_cons_self_of_not_mem h t
  have hne := List.splitOn_ne_nil '\n' t
  constructor
  · rw [completeLines, hsplit, List.dropLast_cons_of_ne_nil hne, completeLines]
  · simp only [unfinished, hsplit]
    exact List.getLast_cons hne

/-- A text has no line break, or it begins with a complete line. -/
theorem line_cases (t : CStr) : '\n' ∉ t ∨ ∃ l rest, '\n' ∉ l ∧ t = l ++ '\n' :: rest := by
  by_cases h : '\n' ∈ t
  · obtain ⟨l, rest, rfl, hl⟩ := List.eq_append_cons_of_mem h
    exact Or.inr ⟨l, rest, hl, rfl⟩
  · exact Or.inl h

theorem not_mem_unfinished (t : CStr) : '\n' ∉ unfinished t := by
  induction hn : t.length using Nat.strongRecOn generalizing t with
  | ind n ih =>
    rcases line_cases t with h | ⟨l, rest, hl, rfl⟩
    · rw [(completeLines_of_not_mem h).2]
      exact h
    · rw [(completeLines_line hl rest).2]
      exact ih rest.length (by rw [← hn]; simp; omega) rest rfl

/-- The lines of a text in two parts. -/
theorem completeLines_append (s t : CStr) :
    completeLines (s ++ t) = completeLines s ++ completeLines (unfinished s ++ t) ∧
      unfinished (s ++ t) = unfinished (unfinished s ++ t) := by
  induction hn : s.length using Nat.strongRecOn generalizing s with
  | ind n ih =>
    rcases line_cases s with h | ⟨l, rest, hl, rfl⟩
    · rw [(completeLines_of_not_mem h).1, (completeLines_of_not_mem h).2]
      exact ⟨rfl, rfl⟩
    · obtain ⟨hlines, hlast⟩ := ih rest.length (by rw [← hn]; simp; omega) rest rfl
      rw [List.append_assoc, List.cons_append, (completeLines_line hl _).1, (completeLines_line hl _).2,
        (completeLines_line hl _).1, (completeLines_line hl _).2, hlines, hlast]
      exact ⟨rfl, rfl⟩

end Lines

/-- The lines that the calls return, with the string and the buffer of the call that goes on. -/
def answer : CStr → CStr → List Event → List CStr
  | res, buffer, [] => completeLines (res ++ buffer)
  | res, buffer, .timeout :: events => completeLines (res ++ buffer) ++ answer [] (unfinished buffer) events
  | res, buffer, .chunk c :: events =>
    completeLines (res ++ buffer) ++ answer (unfinished (res ++ buffer)) c.text events

/-- What timeouts may not interrupt, with the line so far before and in the buffer. -/
def Kept : CStr → CStr → List Event → Prop
  | _, _, [] => True
  | line, buffer, .timeout :: events =>
    ('\n' ∈ textOf events → '\n' ∈ buffer ∨ line = []) ∧
      Kept (if '\n' ∈ buffer then [] else line) (unfinished buffer) events
  | line, buffer, .chunk c :: events => Kept (unfinished (line ++ buffer)) c.text events

section Answer

theorem answer_line {res l : CStr} (hres : '\n' ∉ res) (hl : '\n' ∉ l) (rest : CStr) (events : List Event) :
    answer res (l ++ '\n' :: rest) events = (res ++ l) :: answer [] rest events := by
  have hboth : '\n' ∉ res ++ l := by simp [hres, hl]
  have hlines := completeLines_line hboth rest
  rw [List.append_assoc] at hlines
  rcases events with _ | ⟨_ | _, events⟩
  · rw [answer, answer, hlines.1, List.nil_append]
  · rw [answer, answer, hlines.1, hlines.2, List.nil_append, List.cons_append]
  · rw [answer, answer, hlines.1, (completeLines_line hl rest).2, List.nil_append, List.cons_append]

theorem completeLines_same_iff {a b : CStr} (ha : '\n' ∉ a) (hb : '\n' ∉ b) (t : CStr) :
    (completeLines (a ++ t)).length = (completeLines (b ++ t)).length ∧
      (completeLines (a ++ t) = completeLines (b ++ t) ↔ (a = b ∨ '\n' ∉ t)) := by
  rcases line_cases t with h | ⟨l, rest, hl, rfl⟩
  · have hat : '\n' ∉ a ++ t := by simp [ha, h]
    have hbt : '\n' ∉ b ++ t := by simp [hb, h]
    rw [(completeLines_of_not_mem hat).1, (completeLines_of_not_mem hbt).1]
    exact ⟨rfl, iff_of_true rfl (Or.inr h)⟩
  · have hal : '\n' ∉ a ++ l := by simp [ha, hl]
    have hbl : '\n' ∉ b ++ l := by simp [hb, hl]
    rw [← List.append_assoc, ← List.append_assoc, (completeLines_line hal rest).1, (completeLines_line hbl rest).1]
    simp

theorem unfinished_of_mem {a t : CStr} (ha : '\n' ∉ a) (ht : '\n' ∈ t) : unfinished (a ++ t) = unfinished t := by
  obtain ⟨l, rest, rfl, hl⟩ := List.eq_append_cons_of_mem ht
  have hal : '\n' ∉ a ++ l := by simp [ha, hl]
  rw [← List.append_assoc, (completeLines_line hal rest).2, (completeLines_line hl rest).2]

theorem append_eq_iff {α : Type*} {a b c d : List α} (h : a.length = b.length) : a ++ c = b ++ d ↔ a = b ∧ c = d := by
  constructor
  · exact fun heq => List.append_inj heq h
  · rintro ⟨rfl, rfl⟩
    rfl

/-- The lines come back whole exactly if nothing of the line is lost now and nothing will be. -/
theorem answer_eq_iff (events : List Event) {res line buffer : CStr} (hres : '\n' ∉ res) (hline : '\n' ∉ line)
    (hlost : line = [] → res = []) :
    answer res buffer events = completeLines (line ++ buffer ++ textOf events) ↔
      (res = line ∨ '\n' ∉ buffer ++ textOf events) ∧ Kept line buffer events := by
  induction events generalizing res line buffer with
  | nil =>
    simp only [answer, textOf, List.append_nil, Kept, and_true]
    exact (completeLines_same_iff hres hline buffer).2
  | cons e events ih =>
    obtain ⟨hlength, hsame⟩ := completeLines_same_iff hres hline buffer
    rcases e with c | _
    · have hnext := @ih (unfinished (res ++ buffer)) (unfinished (line ++ buffer)) c.text (not_mem_unfinished _)
        (not_mem_unfinished _)
      rw [answer, textOf, (completeLines_append (line ++ buffer) _).1, append_eq_iff hlength, hsame, ← List.append_assoc,
        Kept]
      by_cases hbuffer : '\n' ∈ buffer
      · have hr := unfinished_of_mem hres hbuffer
        have hl := unfinished_of_mem hline hbuffer
        rw [hnext fun h => by rw [hr, ← hl, h], hr, hl]
        simp [hbuffer]
      · have hr : unfinished (res ++ buffer) = res ++ buffer := (completeLines_of_not_mem (by simp [hres, hbuffer])).2
        have hl : unfinished (line ++ buffer) = line ++ buffer := (completeLines_of_not_mem (by simp [hline, hbuffer])).2
        rw [hr, hl] at hnext
        rw [hr, hl, hnext]
        · simp [hbuffer]
        · intro h
          obtain ⟨hl', hb'⟩ := List.append_eq_nil_iff.1 h
          rw [hlost hl', hb']
          rfl
    · rw [answer, textOf, (completeLines_append (line ++ buffer) _).1, append_eq_iff hlength, hsame, Kept]
      by_cases hbuffer : '\n' ∈ buffer
      · have hnext := @ih [] [] (unfinished buffer) List.not_mem_nil List.not_mem_nil fun _ => rfl
        rw [List.nil_append] at hnext
        rw [unfinished_of_mem hline hbuffer, hnext, if_pos hbuffer]
        simp [hbuffer]
      · have hl : unfinished (line ++ buffer) = line ++ buffer := (completeLines_of_not_mem (by simp [hline, hbuffer])).2
        have hb : unfinished buffer = buffer := (completeLines_of_not_mem hbuffer).2
        have hnext := @ih [] line buffer List.not_mem_nil hline fun _ => rfl
        rw [hl, hb, hnext, if_neg hbuffer]
        by_cases hempty : line = []
        · simp [hbuffer, hempty, hlost hempty]
        · simp [hbuffer, hempty, Ne.symm hempty]
          tauto

/-- What is kept, as a condition on the events. -/
theorem kept_iff (events : List Event) {line buffer : CStr} (hline : '\n' ∉ line) :
    Kept line buffer events ↔
      (∀ post, events = .timeout :: post → '\n' ∈ textOf post → '\n' ∈ buffer ∨ line = []) ∧
        ∀ pre c post, events = pre ++ .chunk c :: .timeout :: post → '\n' ∈ textOf post →
          '\n' ∈ c.text ∨ unfinished (line ++ buffer ++ textOf pre) = [] := by
  induction events generalizing line buffer with
  | nil => simp [Kept]
  | cons e events ih =>
    have hlast : ∀ t, unfinished (line ++ buffer ++ t) = unfinished (unfinished (line ++ buffer) ++ t) := fun t =>
      (completeLines_append _ t).2
    rcases e with c | _
    · rw [Kept, ih (not_mem_unfinished _)]
      constructor
      · rintro ⟨hnow, hlater⟩
        refine ⟨fun post h => absurd h (by simp), fun pre c' post h hpost => ?_⟩
        rcases pre with _ | ⟨e, pre⟩
        · obtain ⟨hc, hevents⟩ := List.cons.inj h
          obtain rfl := Event.chunk.inj hc
          simpa [textOf] using hnow post hevents hpost
        · obtain ⟨rfl, hevents⟩ := List.cons.inj h
          have := hlater pre c' post hevents hpost
          rw [textOf, hlast, ← List.append_assoc]
          exact this
      · rintro ⟨-, hlater⟩
        refine ⟨fun post h hpost => ?_, fun pre c' post h hpost => ?_⟩
        · simpa [textOf] using hlater [] c post (by rw [h, List.nil_append]) hpost
        · have := hlater (.chunk c :: pre) c' post (by rw [h, List.cons_append]) hpost
          rw [textOf, hlast, ← List.append_assoc] at this
          exact this
    · have hempty : '\n' ∉ if '\n' ∈ buffer then [] else line := by
        split
        · exact List.not_mem_nil
        · exact hline
      have hsame : (if '\n' ∈ buffer then [] else line) ++ unfinished buffer = unfinished (line ++ buffer) := by
        by_cases hbuffer : '\n' ∈ buffer
        · rw [if_pos hbuffer, unfinished_of_mem hline hbuffer, List.nil_append]
        · rw [if_neg hbuffer, (completeLines_of_not_mem hbuffer).2,
            (completeLines_of_not_mem (by simp [hline, hbuffer])).2]
      rw [Kept, ih hempty, hsame]
      constructor
      · rintro ⟨hnow, -, hlater⟩
        refine ⟨fun post h hpost => hnow ((List.cons.inj h).2 ▸ hpost), fun pre c' post h hpost => ?_⟩
        rcases pre with _ | ⟨e, pre⟩
        · cases (List.cons.inj h).1
        · obtain ⟨rfl, hevents⟩ := List.cons.inj h
          rw [textOf, hlast]
          exact hlater pre c' post hevents hpost
      · rintro ⟨hnow, hlater⟩
        refine ⟨hnow events rfl, fun post h hpost => ?_, fun pre c' post h hpost => ?_⟩
        · rcases hnow events rfl (by rw [h]; exact hpost) with hbuffer | hnil
          · exact Or.inr (if_pos hbuffer)
          · exact Or.inr (by rw [hnil, ite_self])
        · have := hlater (.timeout :: pre) c' post (by rw [h, List.cons_append]) hpost
          rw [textOf, hlast] at this
          exact this

end Answer

section Reads

/-- The bytes and the events that are left, which every call that ends makes fewer. -/
def Sock.size (s : Sock) : Nat := s.buffer.length + (textOf s.events).length + s.events.length

/-- At the end of the stream a call without a complete line in the buffer goes on. -/
theorem readLoop_eof (fuel : Nat) {buffer : CStr} (h : '\n' ∉ buffer) (res : CStr) : readLoop fuel ⟨buffer, []⟩ res = none := by
  induction fuel generalizing buffer res with
  | zero => rfl
  | succ fuel ih =>
    rw [readLoop, if_neg h]
    exact ih List.not_mem_nil _

/-- What a call that ends does to the lines. -/
theorem readLoop_sound (fuel : Nat) {s s' : Sock} {res : CStr} {o : Outcome} (hres : '\n' ∉ res)
    (h : readLoop fuel s res = some (o, s')) :
    answer res s.buffer s.events = linesOf [o] ++ answer [] s'.buffer s'.events := by
  induction fuel generalizing s res with
  | zero => cases h
  | succ fuel ih =>
    obtain ⟨buffer, events⟩ := s
    rcases line_cases buffer with hbuffer | ⟨l, rest, hl, rfl⟩
    · have hboth : '\n' ∉ res ++ buffer := by simp [hres, hbuffer]
      rw [readLoop, if_neg hbuffer] at h
      rcases events with _ | ⟨c | _, events⟩
      · have heof := readLoop_eof fuel List.not_mem_nil (res ++ buffer)
        exact absurd (h.symm.trans heof) (Option.some_ne_none _)
      · rw [answer, (completeLines_of_not_mem hboth).1, (completeLines_of_not_mem hboth).2, List.nil_append]
        exact ih hboth h
      · cases h
        rw [answer, (completeLines_of_not_mem hboth).1, (completeLines_of_not_mem hbuffer).2]
        rfl
    · obtain ⟨htake, hdrop⟩ := takeWhile_append_cons hl rest
      rw [readLoop, if_pos (by simp)] at h
      dsimp only at h
      rw [htake, hdrop] at h
      cases h
      exact answer_line hres hl rest events

theorem readLoop_line {l : CStr} (hl : '\n' ∉ l) (rest : CStr) (events : List Event) (res : CStr) :
    ∃ fuel o s', readLoop fuel ⟨l ++ '\n' :: rest, events⟩ res = some (o, s') ∧
      s'.size < (⟨l ++ '\n' :: rest, events⟩ : Sock).size := by
  refine ⟨1, .line (res ++ l), ⟨rest, events⟩, ?_, ?_⟩
  · obtain ⟨htake, hdrop⟩ := takeWhile_append_cons hl rest
    rw [readLoop, if_pos (by simp), htake, hdrop]
    rfl
  · simp only [Sock.size, List.length_append, List.length_cons]
    omega

/-- A call ends and leaves less, or there are no lines left. -/
theorem readLoop_ends (events : List Event) {buffer res : CStr} (hres : '\n' ∉ res) :
    (∃ fuel o s', readLoop fuel ⟨buffer, events⟩ res = some (o, s') ∧ s'.size < (⟨buffer, events⟩ : Sock).size) ∨
      (∀ fuel, readLoop fuel ⟨buffer, events⟩ res = none) ∧ answer res buffer events = [] := by
  induction events generalizing buffer res with
  | nil =>
    rcases line_cases buffer with hbuffer | ⟨l, rest, hl, rfl⟩
    · refine Or.inr ⟨fun fuel => readLoop_eof fuel hbuffer res, ?_⟩
      rw [answer, (completeLines_of_not_mem (by simp [hres, hbuffer])).1]
    · exact Or.inl (readLoop_line hl rest [] res)
  | cons e events ih =>
    rcases line_cases buffer with hbuffer | ⟨l, rest, hl, rfl⟩
    · have hboth : '\n' ∉ res ++ buffer := by simp [hres, hbuffer]
      have hstep : ∀ fuel, readLoop (fuel + 1) ⟨buffer, e :: events⟩ res = match readBytes (e :: events) with
          | (none, events) => some (.thrown, ⟨buffer, events⟩)
          | (some buff, events) => readLoop fuel ⟨buff, events⟩ (res ++ buffer) := fun fuel => by
        rw [readLoop, if_neg hbuffer]
      rcases e with c | _
      · rcases @ih c.text (res ++ buffer) hboth with ⟨fuel, o, s', h, hsize⟩ | ⟨hnone, hanswer⟩
        · refine Or.inl ⟨fuel + 1, o, s', (hstep fuel).trans h, hsize.trans_le ?_⟩
          simp only [Sock.size, textOf, List.length_append, List.length_cons]
          omega
        · refine Or.inr ⟨fun fuel => ?_, ?_⟩
          · cases fuel with
            | zero => rfl
            | succ fuel => exact (hstep fuel).trans (hnone fuel)
          · rw [answer, (completeLines_of_not_mem hboth).1, (completeLines_of_not_mem hboth).2, hanswer]
            rfl
      · refine Or.inl ⟨1, .thrown, ⟨buffer, events⟩, hstep 0, ?_⟩
        simp only [Sock.size, textOf, List.length_cons]
        omega
    · exact Or.inl (readLoop_line hl rest (e :: events) res)

theorem Read.sound {s s' : Sock} {o : Outcome} (h : Read s o s') :
    answer [] s.buffer s.events = linesOf [o] ++ answer [] s'.buffer s'.events := by
  obtain ⟨fuel, h⟩ := h
  exact readLoop_sound fuel List.not_mem_nil h

theorem linesOf_cons (o : Outcome) (os : List Outcome) : linesOf (o :: os) = linesOf [o] ++ linesOf os := by
  cases o <;> rfl

/-- The lines of a run of calls, and those that are still to come. -/
theorem Calls.sound {s s' : Sock} {os : List Outcome} (h : Calls s os s') :
    answer [] s.buffer s.events = linesOf os ++ answer [] s'.buffer s'.events := by
  induction h with
  | nil => rfl
  | @cons s s₁ s₂ o os hread _ ih => rw [hread.sound, ih, linesOf_cons o os, List.append_assoc]

/-- Calls come to one that does not end. -/
theorem exists_endless (s : Sock) : ∃ os s', Calls s os s' ∧ ∀ fuel, readLoop fuel s' [] = none := by
  induction hn : s.size using Nat.strongRecOn generalizing s with
  | ind n ih =>
    rcases @readLoop_ends s.events s.buffer [] List.not_mem_nil with ⟨fuel, o, s₁, h, hsize⟩ | ⟨hnone, -⟩
    · obtain ⟨os, s', hcalls, hend⟩ := ih s₁.size (hn ▸ hsize) s₁ rfl
      exact ⟨o :: os, s', .cons ⟨fuel, h⟩ hcalls, hend⟩
    · exact ⟨[], s, .nil s, hnone⟩

/-- The calls up to the one that does not end return the lines of `answer`. -/
theorem Calls.lines {s s' : Sock} {os : List Outcome} (h : Calls s os s') (hend : ∀ fuel, readLoop fuel s' [] = none) :
    linesOf os = answer [] s.buffer s.events := by
  rcases @readLoop_ends s'.events s'.buffer [] List.not_mem_nil with ⟨fuel, o, s₁, hread, -⟩ | ⟨-, hnil⟩
  · exact absurd (hread.symm.trans (hend fuel)) (Option.some_ne_none _)
  · rw [h.sound, hnil, List.append_nil]

end Reads

/-- No stream is read as it should be, as calls at its end go on for ever.  The complete lines before that come back exactly
if no timeout interrupts a line that two chunks have begun and a later one completes. -/
theorem socket_read_iff (events : List Event) : ¬ Law events ∧ (LinesKept events ↔ Uninterrupted events) := by
  obtain ⟨os, s, hcalls, hend⟩ := exists_endless ⟨[], events⟩
  constructor
  · intro hlaw
    obtain ⟨o, s', fuel, h⟩ := hlaw.ends os s hcalls
    rw [hend fuel] at h
    cases h
  · have hkept := @kept_iff events [] [] List.not_mem_nil
    have hanswer := @answer_eq_iff events [] [] [] List.not_mem_nil List.not_mem_nil fun _ => rfl
    have huninterrupted : Kept [] [] events ↔ Uninterrupted events :=
      hkept.trans ⟨fun h => h.2, fun h => ⟨fun _ _ _ => Or.inr rfl, h⟩⟩
    rw [← huninterrupted]
    constructor
    · rintro ⟨os', s', hcalls', hend', hlines⟩
      exact (hanswer.1 ((hcalls'.lines hend').symm.trans hlines)).2
    · intro h
      exact ⟨os, s, hcalls, hend, (hcalls.lines hend).trans (hanswer.2 ⟨Or.inl rfl, h⟩)⟩

/-- A stream that ends at once, and one whose only line comes in three chunks with a timeout before the last. -/
theorem partial_line_lost :
    (∀ fuel, readLoop fuel ⟨[], []⟩ [] = none) ∧
      (let events : List Event := [.chunk ⟨"a".toList, by decide, by decide⟩, .chunk ⟨"b".toList, by decide, by decide⟩,
        .timeout, .chunk ⟨"c\n".toList, by decide, by decide⟩]
      Calls ⟨[], events⟩ [.thrown, .line "bc".toList] ⟨[], []⟩ ∧ completeLines (textOf events) = ["abc".toList] ∧
        ¬ Law events) := by
  refine ⟨fun fuel => readLoop_eof fuel List.not_mem_nil [], ?_, by decide, ?_⟩
  · exact .cons ⟨3, rfl⟩ (.cons ⟨2, rfl⟩ (.nil _))
  · exact (socket_read_iff _).1

end Socket

end Nut
