import Nut.Lib.Transition
import Nut.Clients.Upsclient

/-!
# `upscli_readline` and its buffer

`upscli_readline` takes one character at a time from `readbuf` and fills it again where `readidx` has come to
`readlen`; the three stay as they are from one call to the next.

* `readidx` never passes `readlen`, whatever the network does and in whatever order the calls come
  (`Reached.bounded`).
* The calls see the stream and not its chunks (`readlines_eq`), and lines that fit are returned one a call
  (`readlines_lines`).
-/

namespace Nut

/-- `sizeof(ups->readbuf)` -/
def readbufSize : Nat := 64

/-- `UPSCONN_t` with the fields of its buffer as they are in memory. -/
structure UpsconnT where
  fd : Bool
  upserror : UpscliErr
  pcCtx : PconfCtx
  readbuf : Vector Char readbufSize
  readlen : Nat
  readidx : Nat

namespace UpsconnT

/-- Bytes at the start of `readbuf`. -/
def put (ups : UpsconnT) (got : CStr) : UpsconnT :=
  { ups with readbuf := Vector.ofFn fun i => got.getD i ups.readbuf[i] }

/-- One call of `net_read` with `readbuf`; the first result is what it returns. -/
def netRead (ups : UpsconnT) : List NetRead → Int × UpsconnT × List NetRead
  | .bytes [] :: reads => (0, { ups with upserror := .srvdisc }, reads)
  | .bytes (ch :: chunk) :: reads =>
    (((ch :: chunk).take readbufSize).length, ups.put ((ch :: chunk).take readbufSize), reads)
  | .failed :: reads => (-1, { ups with upserror := .read }, reads)
  | [] => (0, { ups with upserror := .srvdisc }, [])

/-- `upscli_disconnect` leaves the buffer and its indices. -/
def disconnect (ups : UpsconnT) : UpsconnT := { ups with fd := false, pcCtx := pconfInit }

/-- Fill an empty buffer; the last result is whether the loop goes on. -/
def fill (ups : UpsconnT) (reads : List NetRead) : UpsconnT × List NetRead × Bool :=
  if ups.readidx = ups.readlen then
    match ups.netRead reads with
    | (ret, ups, reads) =>
      if ret < 1 then (ups.disconnect, reads, false)
      -- the indices are assigned one after the other, and nothing reads them in between
      else ({ ups with readlen := ret.toNat, readidx := 0 }, reads, true)
  else (ups, reads, true)

/-- `ups->readbuf[ups->readidx++]`; there is no result where that lies behind the buffer. -/
def nextChar (ups : UpsconnT) : Option (UpsconnT × Char) :=
  ups.readbuf[ups.readidx]?.map fun ch => ({ ups with readidx := ups.readidx + 1 }, ch)

/-- The loop of `upscli_readline` from the text `buf` on, with room for `n` more characters. -/
def readLoop (ups : UpsconnT) (reads : List NetRead) (buf : CStr) :
    Nat → Option (UpsconnT × List NetRead × Option CStr)
  | 0 => some (ups, reads, some buf)
  | n + 1 =>
    match ups.fill reads with
    | (ups, reads, false) => some (ups, reads, none)
    | (ups, reads, true) =>
      match ups.nextChar with
      | none => none
      | some (ups, ch) => if ch = '\n' then some (ups, reads, some buf) else readLoop ups reads (buf ++ [ch]) n

/-- `upscli_readline`; the last result is what it wrote before the NUL. -/
def readline (ups : UpsconnT) (reads : List NetRead) (buflen : Nat) :
    Option (UpsconnT × List NetRead × Option CStr) :=
  if ups.fd = false then some ({ ups with upserror := .drvnotconn }, reads, none)
  else if buflen < 1 then some ({ ups with upserror := .invalidarg }, reads, none)
  else readLoop ups reads [] (buflen - 1)

/-- Successive calls with these values of `buflen`. -/
def readlines (ups : UpsconnT) (reads : List NetRead) :
    List Nat → Option (UpsconnT × List NetRead × List (Option CStr))
  | [] => some (ups, reads, [])
  | buflen :: buflens =>
    (ups.readline reads buflen).bind fun r =>
      (readlines r.1 r.2.1 buflens).map fun rs => (rs.1, rs.2.1, r.2.2 :: rs.2.2)

/-- What has been received and not taken yet. -/
def unread (ups : UpsconnT) : CStr := (ups.readbuf.toList.take ups.readlen).drop ups.readidx

/-- The connection as the rest of the library sees it. -/
def toUpsconn (ups : UpsconnT) : Upsconn := ⟨ups.fd, ups.upserror, ups.pcCtx, ups.unread⟩

/-! ### The indices -/

/-- As `upscli_tryconnect` clears the record. -/
def Cleared (ups : UpsconnT) : Prop := ups.readlen = 0 ∧ ups.readidx = 0

/-- The connection when `upscli_connect` has succeeded. -/
def connected : UpsconnT where
  fd := true
  upserror := .unknown
  pcCtx := pconfInit
  readbuf := Vector.replicate readbufSize '\x00'
  readlen := 0
  readidx := 0

/-- What changes a connection: the two parts of a turn of the loop, and everything else that the library does with a
connection, which leaves the buffer and its indices. -/
inductive Moves : UpsconnT → UpsconnT → Prop
  | fill (ups : UpsconnT) (reads : List NetRead) : Moves ups (ups.fill reads).1
  | nextChar {ups ups' ups'' : UpsconnT} {reads reads' : List NetRead} {ch : Char}
      (hfill : ups.fill reads = (ups', reads', true)) (h : ups'.nextChar = some (ups'', ch)) : Moves ups ups''
  | others (ups : UpsconnT) (fd : Bool) (upserror : UpscliErr) (pcCtx : PconfCtx) :
      Moves ups { ups with fd := fd, upserror := upserror, pcCtx := pcCtx }

/-- The states of a connection, those within a call included. -/
abbrev Reached : UpsconnT → Prop := Transition.Reach Cleared Moves

/-- The characters from `readidx` to `readlen` are in the buffer. -/
structure Bounded (ups : UpsconnT) : Prop where
  readidx : ups.readidx ≤ ups.readlen
  readlen : ups.readlen ≤ readbufSize

section

variable {ups ups' : UpsconnT} {reads reads' left : List NetRead} {ch : Char}

theorem unread_length (h : ups.Bounded) : ups.unread.length = ups.readlen - ups.readidx := by
  have hlen := h.readlen
  simp only [unread, List.length_drop, List.length_take, Vector.length_toList]
  omega

theorem unread_eq_nil (h : ups.Bounded) : ups.unread = [] ↔ ups.readidx = ups.readlen := by
  have hidx := h.readidx
  rw [← List.length_eq_zero_iff, unread_length h]
  omega

/-- The connection after a chunk that was not empty. -/
def filled (ups : UpsconnT) (got : CStr) : UpsconnT := { ups.put got with readlen := got.length, readidx := 0 }

theorem unread_filled (ups : UpsconnT) {got : CStr} (hgot : got.length ≤ readbufSize) : (ups.filled got).unread = got := by
  simp only [unread, filled, put, List.drop_zero]
  refine List.ext_getElem ?_ ?_
  · simp only [List.length_take, Vector.length_toList]
    omega
  · intro i hi hi'
    simp only [List.getElem_take, Vector.getElem_toList, Vector.getElem_ofFn]
    rw [List.getD_eq_getElem?_getD, List.getElem?_eq_getElem hi', Option.getD_some]

theorem fill_chunk (hempty : ups.readidx = ups.readlen) (ch : Char) (chunk : CStr) (reads : List NetRead) :
    ups.fill (.bytes (ch :: chunk) :: reads) = (ups.filled ((ch :: chunk).take readbufSize), reads, true) := by
  have hpos : ¬((((ch :: chunk).take readbufSize).length : Int) < 1) := by
    rw [List.length_take, List.length_cons, readbufSize]
    omega
  rw [fill, if_pos hempty]
  exact if_neg hpos

/-- A turn that goes on finds a character in the buffer. -/
theorem fill_bounded (h : ups.Bounded) (hfill : ups.fill reads = (ups', reads', true)) :
    ups'.Bounded ∧ ups'.readidx < ups'.readlen := by
  obtain ⟨hidx, hlen⟩ := h
  by_cases hempty : ups.readidx = ups.readlen
  · rcases reads with _ | ⟨(_ | ⟨ch, chunk⟩) | _, reads⟩
    · simp [fill, hempty, netRead] at hfill
    · simp [fill, hempty, netRead] at hfill
    · rw [fill_chunk hempty] at hfill
      obtain ⟨rfl, -⟩ := Prod.mk.inj hfill
      have hpos : 0 < ((ch :: chunk).take readbufSize).length := by
        rw [List.length_take, List.length_cons, readbufSize]
        omega
      exact ⟨⟨Nat.zero_le _, List.length_take_le _ _⟩, hpos⟩
    · simp [fill, hempty, netRead] at hfill
  · rw [fill, if_neg hempty] at hfill
    obtain ⟨rfl, -⟩ := Prod.mk.inj hfill
    exact ⟨⟨hidx, hlen⟩, by omega⟩

/-- A turn that ends the call leaves the indices. -/
theorem fill_ended (hfill : ups.fill reads = (ups', reads', false)) :
    ups'.readlen = ups.readlen ∧ ups'.readidx = ups.readidx := by
  by_cases hempty : ups.readidx = ups.readlen
  · rcases reads with _ | ⟨(_ | ⟨ch, chunk⟩) | _, reads⟩
    case cons.bytes.cons =>
      rw [fill_chunk hempty] at hfill
      simp at hfill
    all_goals
      rw [fill, if_pos hempty] at hfill
      obtain ⟨rfl, -⟩ := Prod.mk.inj hfill
      exact ⟨rfl, rfl⟩
  · rw [fill, if_neg hempty] at hfill
    simp at hfill

theorem nextChar_eq (h : ups.Bounded) (hidx : ups.readidx < ups.readlen) :
    ∃ ch, ups.nextChar = some ({ ups with readidx := ups.readidx + 1 }, ch) ∧
      ups.unread = ch :: unread { ups with readidx := ups.readidx + 1 } := by
  have hlen : ups.readidx < readbufSize := lt_of_lt_of_le hidx h.readlen
  refine ⟨ups.readbuf[ups.readidx], ?_, ?_⟩
  · rw [nextChar, Vector.getElem?_eq_getElem hlen, Option.map_some]
  · have htake : ups.readidx < (ups.readbuf.toList.take ups.readlen).length := by
      rw [List.length_take, Vector.length_toList]
      omega
    rw [unread, List.drop_eq_getElem_cons htake, List.getElem_take, Vector.getElem_toList, unread]

theorem nextChar_readidx (h : ups.nextChar = some (ups', ch)) : ups' = { ups with readidx := ups.readidx + 1 } := by
  rw [nextChar, Option.map_eq_some_iff] at h
  obtain ⟨c, -, h⟩ := h
  exact (Prod.mk.inj h).1.symm

theorem Moves.bounded (h : ups.Bounded) (hm : Moves ups ups') : ups'.Bounded := by
  cases hm with
  | fill reads =>
    rcases hfill : ups.fill reads with ⟨ups', reads', _ | _⟩
    · obtain ⟨hlen, hidx⟩ := fill_ended hfill
      exact ⟨hidx ▸ hlen ▸ h.readidx, hlen ▸ h.readlen⟩
    · exact (fill_bounded h hfill).1
  | nextChar hfill hnext =>
    obtain ⟨hb, hidx⟩ := fill_bounded h hfill
    rw [nextChar_readidx hnext]
    exact ⟨hidx, hb.readlen⟩
  | others fd upserror pcCtx => exact ⟨h.readidx, h.readlen⟩

theorem Reached.bounded (h : Reached ups) : ups.Bounded := by
  refine h.invariant ?_ fun ups ups' h hm => hm.bounded h
  intro ups ⟨hlen, hidx⟩
  exact ⟨by omega, by rw [hlen]; exact Nat.zero_le _⟩

/-- The states that a call passes through and leaves are among those of the connection. -/
theorem Reached.readLoop (h : Reached ups) {buf : CStr} {n : Nat} {line : Option CStr}
    (hloop : ups.readLoop reads buf n = some (ups', left, line)) : Reached ups' := by
  induction n generalizing ups reads buf with
  | zero =>
    simp only [UpsconnT.readLoop, Option.some.injEq, Prod.mk.injEq] at hloop
    exact hloop.1 ▸ h
  | succ n ih =>
    have hfilled := Transition.Reach.step h (.fill ups reads)
    rw [UpsconnT.readLoop] at hloop
    rcases hfill : ups.fill reads with ⟨mid, reads', _ | _⟩
    · rw [hfill] at hfilled hloop
      simp only [Option.some.injEq, Prod.mk.injEq] at hloop
      exact hloop.1 ▸ hfilled
    · rw [hfill] at hloop
      rcases hnext : mid.nextChar with _ | ⟨ups₁, ch⟩
      · simp [hnext] at hloop
      · have hstep := Transition.Reach.step h (.nextChar hfill hnext)
        simp only [hnext] at hloop
        split_ifs at hloop
        · simp only [Option.some.injEq, Prod.mk.injEq] at hloop
          exact hloop.1 ▸ hstep
        · exact ih hstep hloop

theorem Reached.readline (h : Reached ups) {buflen : Nat} {line : Option CStr}
    (hline : ups.readline reads buflen = some (ups', left, line)) : Reached ups' := by
  rw [UpsconnT.readline] at hline
  split_ifs at hline
  · obtain ⟨rfl, -⟩ := Prod.mk.inj (Option.some.inj hline)
    exact h.step (.others ups _ _ _)
  · obtain ⟨rfl, -⟩ := Prod.mk.inj (Option.some.inj hline)
    exact h.step (.others ups _ _ _)
  · exact h.readLoop hline

theorem Reached.readlines (h : Reached ups) {buflens : List Nat} {lines : List (Option CStr)}
    (hlines : ups.readlines reads buflens = some (ups', left, lines)) : Reached ups' := by
  induction buflens generalizing ups reads lines with
  | nil =>
    rw [UpsconnT.readlines, Option.some.injEq, Prod.mk.injEq] at hlines
    exact hlines.1 ▸ h
  | cons buflen buflens ih =>
    obtain ⟨⟨mid, reads', line⟩, hline, hrest⟩ := Option.bind_eq_some_iff.1 hlines
    obtain ⟨⟨last, left', lines'⟩, hcalls, heq⟩ := Option.map_eq_some_iff.1 hrest
    simp only [Prod.mk.injEq] at heq
    obtain ⟨rfl, rfl, -⟩ := heq
    exact ih (h.readline hline) hcalls

end

/-! ### The stream -/

/-- A line of at most `n` characters from the front of a stream; the newline is taken and not returned. -/
def takeLine : CStr → Nat → Option (CStr × CStr)
  | s, 0 => some ([], s)
  | [], _ + 1 => none
  | ch :: s, n + 1 => if ch = '\n' then some ([], s) else (takeLine s n).map fun r => (ch :: r.1, r.2)

/-- Lines for successive calls with these values of `buflen`, and the rest of the stream; a call that finds the stream at
its end closes the connection. -/
def takeLines : CStr → List Nat → List (Option CStr) × CStr
  | s, [] => ([], s)
  | s, buflen :: buflens =>
    if buflen < 1 then (none :: (takeLines s buflens).1, (takeLines s buflens).2)
    else
      match takeLine s (buflen - 1) with
      | none => (none :: buflens.map fun _ => none, [])
      | some (line, rest) => (some line :: (takeLines rest buflens).1, (takeLines rest buflens).2)

section

variable {ups : UpsconnT} {conn : Upsconn} {reads : List NetRead} {chunks : List CStr} {s line rest buf : CStr} {n : Nat}

theorem takeLine_line (hline : '\n' ∉ line) (hn : line.length < n) :
    takeLine (line ++ '\n' :: rest) n = some (line, rest) := by
  induction line generalizing n with
  | nil =>
    obtain ⟨n, rfl⟩ := Nat.exists_eq_succ_of_ne_zero (show n ≠ 0 by omega)
    rw [List.nil_append, takeLine, if_pos rfl]
  | cons ch line ih =>
    obtain ⟨hch, hline⟩ := not_or.1 (List.mem_cons.not.1 hline)
    obtain ⟨n, rfl⟩ := Nat.exists_eq_succ_of_ne_zero (show n ≠ 0 by omega)
    rw [List.length_cons] at hn
    rw [List.cons_append, takeLine, if_neg (Ne.symm hch), ih hline (by omega), Option.map_some]

/-- Lines that fit are taken one a call. -/
theorem takeLines_lines {lines : List CStr} {buflens : List Nat} (hlines : ∀ line ∈ lines, '\n' ∉ line)
    (hfits : List.Forall₂ (fun line buflen => line.length + 2 ≤ buflen) lines buflens) (rest : CStr) :
    takeLines (lines.flatMap (· ++ ['\n']) ++ rest) buflens = (lines.map some, rest) := by
  induction hfits with
  | nil => rfl
  | @cons line buflen lines buflens hfit _ ih =>
    obtain ⟨hline, hlines⟩ := List.forall_mem_cons.1 hlines
    have hstream : (line :: lines).flatMap (· ++ ['\n']) ++ rest =
        line ++ '\n' :: (lines.flatMap (· ++ ['\n']) ++ rest) := by
      simp only [List.flatMap_cons, List.append_assoc, List.cons_append, List.nil_append]
    rw [hstream, takeLines, if_neg (by omega), takeLine_line hline (by omega)]
    simp only [ih hlines, List.map_cons]

/-! ### The buffer and the stream -/

/-- A chunk that fits into `readbuf`. -/
def Fits : NetRead → Prop
  | .bytes chunk => chunk.length ≤ readbufSize
  | .failed => True

theorem filled_toUpsconn (ups : UpsconnT) (got r : CStr) :
    { (ups.filled got).toUpsconn with readbuf := r } = { ups.toUpsconn with readbuf := r } := by
  simp only [toUpsconn, filled, put]

theorem readlineLoop_char {ch : Char} {r : CStr} (hbuf : conn.readbuf = ch :: r) (reads : List NetRead) (buf : CStr) (n : Nat) :
    readlineLoop conn reads buf (n + 1) = if ch = '\n' then ({ conn with readbuf := r }, reads, some buf)
      else readlineLoop { conn with readbuf := r } reads (buf ++ [ch]) n := by
  cases conn
  cases hbuf
  rfl

theorem readlineLoop_chunk (hbuf : conn.readbuf = []) (ch : Char) (r : CStr) (reads : List NetRead) (buf : CStr) (n : Nat) :
    readlineLoop conn (.bytes (ch :: r) :: reads) buf (n + 1) =
      if ch = '\n' then ({ conn with readbuf := r }, reads, some buf)
      else readlineLoop { conn with readbuf := r } reads (buf ++ [ch]) n := by
  cases conn
  cases hbuf
  rfl

/-- The loop on the buffer in memory does what the loop on its unread part does. -/
theorem readLoop_eq (h : ups.Bounded) (hreads : ∀ r ∈ reads, Fits r) (buf : CStr) (n : Nat) :
    ∃ ups', ups.readLoop reads buf n = some (ups', (readlineLoop ups.toUpsconn reads buf n).2) ∧
      ups'.toUpsconn = (readlineLoop ups.toUpsconn reads buf n).1 := by
  induction n generalizing ups reads buf with
  | zero => exact ⟨ups, rfl, rfl⟩
  | succ n ih =>
    -- a turn that goes on
    have hturn {mid : UpsconnT} {reads' : List NetRead} {ch : Char} {r : CStr} (hreads : ∀ r ∈ reads', Fits r)
        (hfill : ups.fill reads = (mid, reads', true)) (hunread : mid.unread = ch :: r)
        (hloop : readlineLoop ups.toUpsconn reads buf (n + 1) =
          if ch = '\n' then ({ mid.toUpsconn with readbuf := r }, reads', some buf)
          else readlineLoop { mid.toUpsconn with readbuf := r } reads' (buf ++ [ch]) n) :
        ∃ ups', ups.readLoop reads buf (n + 1) = some (ups', (readlineLoop ups.toUpsconn reads buf (n + 1)).2) ∧
          ups'.toUpsconn = (readlineLoop ups.toUpsconn reads buf (n + 1)).1 := by
      obtain ⟨hmid, hidx⟩ := fill_bounded h hfill
      obtain ⟨c, hnext, hcons⟩ := nextChar_eq hmid hidx
      obtain ⟨rfl, rfl⟩ := List.cons.inj (hcons.symm.trans hunread)
      have hafter : Bounded { mid with readidx := mid.readidx + 1 } := ⟨hidx, hmid.readlen⟩
      rw [readLoop, hfill, hloop]
      simp only [hnext]
      split_ifs
      · exact ⟨_, rfl, rfl⟩
      · exact ih hafter hreads _
    rcases hunread : ups.unread with _ | ⟨ch, r⟩
    · have hempty := (unread_eq_nil h).1 hunread
      rcases reads with _ | ⟨(_ | ⟨ch, chunk⟩) | _, reads⟩
      case cons.bytes.cons =>
        obtain ⟨hchunk, hreads⟩ := List.forall_mem_cons.1 hreads
        have hfill := fill_chunk hempty ch chunk reads
        rw [List.take_of_length_le hchunk] at hfill
        have hloop := @readlineLoop_chunk ups.toUpsconn hunread ch chunk reads buf n
        rw [← filled_toUpsconn ups (ch :: chunk)] at hloop
        exact hturn hreads hfill (unread_filled ups hchunk) hloop
      all_goals
        rw [readLoop, fill, if_pos hempty, toUpsconn, hunread]
        exact ⟨_, rfl, congrArg (Upsconn.mk _ _ _) hunread⟩
    · have hidx : ups.readidx ≠ ups.readlen := by
        intro he
        rw [(unread_eq_nil h).2 he] at hunread
        simp at hunread
      have hfill : ups.fill reads = (ups, reads, true) := by rw [fill, if_neg hidx]
      have hloop := @readlineLoop_char ups.toUpsconn ch r hunread reads buf n
      exact hturn hreads hfill hunread hloop

/-- The stream from its next character on. -/
theorem takeLine_cons {ch : Char} (hline : takeLine (ch :: s) (n + 1) = some (line, rest)) :
    ch = '\n' ∧ line = [] ∧ rest = s ∨ ch ≠ '\n' ∧ ∃ line', line = ch :: line' ∧ takeLine s n = some (line', rest) := by
  rw [takeLine] at hline
  split_ifs at hline with hch
  · obtain ⟨rfl, rfl⟩ := Prod.mk.inj (Option.some.inj hline)
    exact .inl ⟨hch, rfl, rfl⟩
  · obtain ⟨⟨line', rest'⟩, htake, heq⟩ := Option.map_eq_some_iff.1 hline
    obtain ⟨rfl, rfl⟩ := Prod.mk.inj heq
    exact .inr ⟨hch, line', rfl, htake⟩

/-- The loop takes its line from the stream, wherever the chunks end. -/
theorem readlineLoop_eq (hchunks : ∀ c ∈ chunks, c ≠ [])
    (hline : takeLine (conn.readbuf ++ chunks.flatten) n = some (line, rest)) :
    ∃ unread left, readlineLoop conn (chunks.map .bytes) buf n =
        ({ conn with readbuf := unread }, left.map .bytes, some (buf ++ line)) ∧
      unread ++ left.flatten = rest ∧ left <:+ chunks := by
  induction n generalizing conn chunks buf line with
  | zero =>
    simp only [takeLine, Option.some.injEq, Prod.mk.injEq] at hline
    obtain ⟨rfl, rfl⟩ := hline
    exact ⟨conn.readbuf, chunks, by rw [readlineLoop, List.append_nil], rfl, List.suffix_rfl⟩
  | succ n ih =>
    -- one character of the stream, with the rest of its chunk in the buffer
    have hturn {later : List CStr} {ch : Char} {r : CStr} (hchunks : ∀ c ∈ later, c ≠ [])
        (hline : takeLine (ch :: (r ++ later.flatten)) (n + 1) = some (line, rest))
        (hloop : readlineLoop conn (chunks.map .bytes) buf (n + 1) =
          if ch = '\n' then ({ conn with readbuf := r }, later.map .bytes, some buf)
          else readlineLoop { conn with readbuf := r } (later.map .bytes) (buf ++ [ch]) n) :
        ∃ unread left, readlineLoop conn (chunks.map .bytes) buf (n + 1) =
            ({ conn with readbuf := unread }, left.map .bytes, some (buf ++ line)) ∧
          unread ++ left.flatten = rest ∧ left <:+ later := by
      rcases takeLine_cons hline with ⟨hch, rfl, rfl⟩ | ⟨hch, line', rfl, htake⟩
      · rw [hloop, if_pos hch]
        exact ⟨r, later, by rw [List.append_nil], rfl, List.suffix_rfl⟩
      · obtain ⟨unread, left, hrec, hrest, hleft⟩ := @ih { conn with readbuf := r } later line' (buf ++ [ch]) hchunks htake
        rw [hloop, if_neg hch, hrec, List.append_assoc, List.singleton_append]
        exact ⟨unread, left, rfl, hrest, hleft⟩
    rcases hbuf : conn.readbuf with _ | ⟨ch, r⟩
    · rw [hbuf] at hline
      rcases chunks with _ | ⟨_ | ⟨ch, chunk⟩, chunks⟩
      · simp [takeLine] at hline
      · exact absurd rfl (hchunks [] List.mem_cons_self)
      · have hlater : ∀ c ∈ chunks, c ≠ [] := fun c hc => hchunks c (List.mem_cons_of_mem _ hc)
        obtain ⟨unread, left, hloop, hrest, hleft⟩ := hturn hlater hline (readlineLoop_chunk hbuf ch chunk _ buf n)
        exact ⟨unread, left, hloop, hrest, hleft.trans (List.suffix_cons _ _)⟩
    · rw [hbuf] at hline
      exact hturn hchunks hline (readlineLoop_char hbuf _ buf n)

/-- At the end of the stream the loop has taken all of it. -/
theorem readlineLoop_ended (hchunks : ∀ c ∈ chunks, c ≠ [])
    (hline : takeLine (conn.readbuf ++ chunks.flatten) n = none) :
    readlineLoop conn (chunks.map .bytes) buf n =
      (upscliDisconnect { conn with upserror := .srvdisc, readbuf := [] }, [], none) := by
  induction n generalizing conn chunks buf with
  | zero => simp [takeLine] at hline
  | succ n ih =>
    have hturn {later : List CStr} {ch : Char} {r : CStr} (hchunks : ∀ c ∈ later, c ≠ [])
        (hline : takeLine (ch :: (r ++ later.flatten)) (n + 1) = none)
        (hloop : readlineLoop conn (chunks.map .bytes) buf (n + 1) =
          if ch = '\n' then ({ conn with readbuf := r }, later.map .bytes, some buf)
          else readlineLoop { conn with readbuf := r } (later.map .bytes) (buf ++ [ch]) n) :
        readlineLoop conn (chunks.map .bytes) buf (n + 1) =
          (upscliDisconnect { conn with upserror := .srvdisc, readbuf := [] }, [], none) := by
      rw [takeLine] at hline
      split_ifs at hline with hch
      rw [hloop, if_neg hch]
      exact @ih { conn with readbuf := r } later (buf ++ [ch]) hchunks (Option.map_eq_none_iff.1 hline)
    rcases hbuf : conn.readbuf with _ | ⟨ch, r⟩
    · rw [hbuf] at hline
      rcases chunks with _ | ⟨_ | ⟨ch, chunk⟩, chunks⟩
      · cases conn
        cases hbuf
        rfl
      · exact absurd rfl (hchunks [] List.mem_cons_self)
      · have hlater : ∀ c ∈ chunks, c ≠ [] := fun c hc => hchunks c (List.mem_cons_of_mem _ hc)
        exact hturn hlater hline (readlineLoop_chunk hbuf ch chunk _ buf n)
    · rw [hbuf] at hline
      exact hturn hchunks hline (readlineLoop_char hbuf _ buf n)

/-- A call as the rest of the library sees it. -/
theorem readline_eq (h : ups.Bounded) (hreads : ∀ r ∈ reads, Fits r) {buflen : Nat} (hbuflen : 1 ≤ buflen) :
    ∃ ups' left line, ups.readline reads buflen = some (ups', left, line) ∧
      upscliReadline ups.toUpsconn reads buflen = (ups'.toUpsconn, left, line.map (List.takeWhile (· ≠ '\x00'))) := by
  by_cases hfd : ups.fd = false
  · have hclosed : ups.toUpsconn.fd = false := hfd
    rw [readline, if_pos hfd, upscliReadline, if_pos hclosed]
    exact ⟨_, reads, none, rfl, rfl⟩
  · have hopen : ¬ups.toUpsconn.fd = false := hfd
    obtain ⟨ups', hloop, hups'⟩ := readLoop_eq h hreads [] (buflen - 1)
    rw [readline, if_neg hfd, if_neg (by omega), hloop, upscliReadline, if_neg hopen]
    exact ⟨ups', _, _, rfl, by rw [hups']⟩

theorem fits_chunks (hchunks : ∀ c ∈ chunks, c ≠ [] ∧ c.length ≤ readbufSize) : ∀ r ∈ chunks.map NetRead.bytes, Fits r := by
  intro r hr
  obtain ⟨c, hc, rfl⟩ := List.mem_map.1 hr
  exact (hchunks c hc).2

/-- Calls on a connection that is closed. -/
theorem readlines_closed (hfd : ups.fd = false) (reads : List NetRead) (buflens : List Nat) :
    ∃ ups', ups.readlines reads buflens = some (ups', reads, buflens.map fun _ => none) ∧ ups'.unread = ups.unread := by
  induction buflens generalizing ups with
  | nil => exact ⟨ups, rfl, rfl⟩
  | cons buflen buflens ih =>
    have hcall : ups.readline reads buflen = some ({ ups with upserror := .drvnotconn }, reads, none) := by
      rw [readline, if_pos hfd]
    obtain ⟨ups', hcalls, hunread⟩ := @ih { ups with upserror := .drvnotconn } hfd
    refine ⟨ups', ?_, hunread⟩
    rw [readlines, hcall, Option.bind_some, hcalls]
    rfl

/-- Successive calls take the lines of the stream, wherever the chunks end. -/
theorem readlines_eq (h : Reached ups) (hfd : ups.fd = true) (hchunks : ∀ c ∈ chunks, c ≠ [] ∧ c.length ≤ readbufSize)
    (buflens : List Nat) : ∃ (ups' : UpsconnT) (left : List CStr),
      ups.readlines (chunks.map .bytes) buflens =
        some (ups', left.map .bytes, (takeLines (ups.unread ++ chunks.flatten) buflens).1) ∧
      ups'.unread ++ left.flatten = (takeLines (ups.unread ++ chunks.flatten) buflens).2 := by
  induction buflens generalizing ups chunks with
  | nil => exact ⟨ups, chunks, rfl, rfl⟩
  | cons buflen buflens ih =>
    have hopen : ¬ups.fd = false := by rw [hfd]; decide
    rw [readlines, takeLines]
    by_cases hbuflen : buflen < 1
    · -- nothing is read
      have hcall : ups.readline (chunks.map .bytes) buflen =
          some ({ ups with upserror := .invalidarg }, chunks.map .bytes, none) := by
        rw [readline, if_neg hopen, if_pos hbuflen]
      obtain ⟨ups', left, hcalls, hleft⟩ := @ih { ups with upserror := .invalidarg } chunks (h.readline hcall) hfd hchunks
      rw [hcall, Option.bind_some, hcalls, if_pos hbuflen]
      exact ⟨ups', left, rfl, hleft⟩
    · have hne : ∀ c ∈ chunks, c ≠ [] := fun c hc => (hchunks c hc).1
      obtain ⟨mid, hloop, hmid⟩ := readLoop_eq h.bounded (fits_chunks hchunks) [] (buflen - 1)
      have hcall : ups.readline (chunks.map .bytes) buflen = ups.readLoop (chunks.map .bytes) [] (buflen - 1) := by
        rw [readline, if_neg hopen, if_neg hbuflen]
      rw [if_neg hbuflen, hcall]
      rw [hloop] at hcall
      have hreached := h.readline hcall
      rcases hline : takeLine (ups.unread ++ chunks.flatten) (buflen - 1) with _ | ⟨line, rest⟩
      · rw [readlineLoop_ended hne hline] at hloop hmid
        have hclosed : mid.fd = false := congrArg Upsconn.fd hmid
        have hempty : mid.unread = [] := congrArg Upsconn.readbuf hmid
        obtain ⟨ups', hcalls, hunread⟩ := readlines_closed hclosed [] buflens
        rw [hloop, Option.bind_some, hcalls]
        exact ⟨ups', [], rfl, by rw [hunread, hempty]; rfl⟩
      · obtain ⟨unread, left, hread, hrest, hleft⟩ := @readlineLoop_eq ups.toUpsconn chunks line rest [] _ hne hline
        rw [hread] at hloop hmid
        have hunread : mid.unread = unread := congrArg Upsconn.readbuf hmid
        have hmidfd : mid.fd = true := (congrArg Upsconn.fd hmid).trans hfd
        obtain ⟨ups', left', hcalls, hrest'⟩ := ih hreached hmidfd fun c hc => hchunks c (hleft.subset hc)
        rw [hunread, hrest] at hcalls hrest'
        rw [hloop, Option.bind_some, hcalls]
        exact ⟨ups', left', rfl, hrest'⟩

/-- The calls do not depend on the chunks: for any values of `buflen` they take the lines of the stream, lines that fit
are returned in order and complete, what they leave is the rest of the stream, and `readidx` never passes `readlen`. -/
theorem readlines_lines (h : Reached ups) (hfd : ups.fd = true)
    (hchunks : ∀ c ∈ chunks, c ≠ [] ∧ c.length ≤ readbufSize) :
    (∀ buflens, ∃ (ups' : UpsconnT) (left : List CStr),
      ups.readlines (chunks.map .bytes) buflens =
        some (ups', left.map .bytes, (takeLines (ups.unread ++ chunks.flatten) buflens).1) ∧
      ups'.unread ++ left.flatten = (takeLines (ups.unread ++ chunks.flatten) buflens).2 ∧ Reached ups') ∧
    (∀ lines buflens rest, (∀ line ∈ lines, '\n' ∉ line) →
      List.Forall₂ (fun line buflen => line.length + 2 ≤ buflen) lines buflens →
      ups.unread ++ chunks.flatten = lines.flatMap (· ++ ['\n']) ++ rest →
      ∃ (ups' : UpsconnT) (left : List CStr),
        ups.readlines (chunks.map .bytes) buflens = some (ups', left.map .bytes, lines.map some) ∧
        ups'.unread ++ left.flatten = rest ∧ Reached ups') ∧
    ∀ ups', Reached ups' → ups'.readidx ≤ ups'.readlen := by
  refine ⟨?_, ?_, fun ups' h => h.bounded.readidx⟩
  · intro buflens
    obtain ⟨ups', left, hcalls, hleft⟩ := readlines_eq h hfd hchunks buflens
    exact ⟨ups', left, hcalls, hleft, h.readlines hcalls⟩
  · intro lines buflens rest hlines hfits hstream
    obtain ⟨ups', left, hcalls, hleft⟩ := readlines_eq h hfd hchunks buflens
    rw [hstream, takeLines_lines hlines hfits] at hcalls hleft
    exact ⟨ups', left, hcalls, hleft, h.readlines hcalls⟩

end

/-- The end of the first line lies within a chunk, that of the second between two. -/
theorem readlines_answers : ∃ (ups' : UpsconnT) (left : List CStr),
    connected.readlines (["O".toList, "K\nVAR".toList, " a b".toList, "\n".toList, "END".toList].map .bytes) [512, 9] =
      some (ups', left.map .bytes, [some "OK".toList, some "VAR a b".toList]) ∧
    ups'.unread ++ left.flatten = "END".toList ∧ Reached ups' :=
  (readlines_lines (.init ⟨rfl, rfl⟩) rfl (by decide)).2.1 ["OK".toList, "VAR a b".toList] [512, 9] "END".toList
    (by decide) (.cons (by decide) (.cons (by decide) .nil)) rfl

end UpsconnT

end Nut
