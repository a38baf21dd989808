import Nut.Drivers.Frames

/-!
# What `shut_packet_recv` makes of the frames

`heard` are the good frames that are taken, from the frames that come.  Their payloads are what is put into the buffer, those
of notifications as well, and the count starts again after a notification.  So a frame can be taken only if its payload ends
within the buffer, and at its end the answer is whole only if no notification has put bytes before it (`Whole`); without
notifications it always is, if there is room (`reassembled_of_quiet`).
-/

namespace Nut

namespace Shut

namespace Frame

/-- The results of `ser_get_char` where frames come in. -/
def line (fs : List Frame) : Chars := fs.flatMap fun f => f.bytes.map some

/-- The bytes `SYNC` and `SYNC_OFF` are no start of a frame. -/
def NoToken (f : Frame) : Prop := f.start ≠ shutSync ∧ f.start ≠ shutSyncOff

end Frame

/-- The payloads of the answer: of the good frames up to the last one, other than notifications. -/
def answer : List Frame → Bytes
  | [] => []
  | f :: fs =>
    if f.good ∧ ¬ f.notify then if f.last then f.payload else f.payload ++ answer fs
    else answer fs

/-- The good frames that are taken, where `room` bytes are wanted, `since` were taken since the last notification was
complete, and the last `bad` frames were not good. -/
def heard (room : Int) (since bad : Nat) : List Frame → List Frame
  | [] => []
  | f :: fs =>
    if 0 < room ∧ bad < 3 then
      if f.good then
        if f.last then
          if f.notify then
            f :: heard (room - f.payload.length + ((since + f.payload.length) % 65536 : Nat)) 0 0 fs
          else [f]
        else f :: heard (room - f.payload.length) (since + f.payload.length) 0 fs
      else heard room since (bad + 1) fs
    else []

/-- The bytes since the last complete notification at the end of the answer, if it ends. -/
def countAtEnd (since : Nat) : List Frame → Nat
  | [] => 0
  | f :: fs =>
    if f.last then if f.notify then countAtEnd 0 fs else since + f.payload.length
    else countAtEnd (since + f.payload.length) fs

/-- The frames behind the reader: the good ones up to the last complete notification and since then, the bytes that are still
wanted, and the number of bad frames at the end. -/
structure Behind where
  before : List Frame
  since : List Frame
  room : Int
  bad : Nat

def payloads (fs : List Frame) : Bytes := fs.flatMap Frame.payload

/-- The payloads that are no notification's, and those that are. -/
def dataOf (fs : List Frame) : Bytes := payloads (fs.filter fun f => ¬ f.notify)

def notesOf (fs : List Frame) : Bytes := payloads (fs.filter Frame.notify)

def Behind.start (datalen : Int) : Behind := ⟨[], [], datalen, 0⟩

/-- The reader goes on. -/
def Behind.Reads (s : Behind) : Prop := 0 < s.room ∧ s.bad < 3

instance (s : Behind) : Decidable s.Reads := inferInstanceAs (Decidable (_ ∧ _))

def Behind.next (s : Behind) (f : Frame) : Behind :=
  if f.good then
    if f.last ∧ f.notify then
      { before := s.before ++ (s.since ++ [f])
        since := []
        room := s.room - f.payload.length + ((payloads (s.since ++ [f])).length % 65536 : Nat)
        bad := 0 }
    else { s with since := s.since ++ [f], room := s.room - f.payload.length, bad := 0 }
  else { s with bad := s.bad + 1 }

/-- At its end the answer has no bytes since the last complete notification, so that nothing is returned; or no notification
had any bytes and none was complete behind a byte of the answer; or the bytes of the notifications stand for the answer's. -/
def AnswerWhole (before since : List Frame) : Prop :=
  (payloads since).length % 65536 = 0 ∨
    (notesOf (before ++ since) = [] ∧ dataOf before = [] ∧ (dataOf since).length < 65536) ∨
    ((payloads since).length % 65536 = (dataOf (before ++ since)).length ∧
      dataOf (before ++ since) <+: payloads (before ++ since))

instance (before since : List Frame) : Decidable (AnswerWhole before since) :=
  inferInstanceAs (Decidable (_ ∨ _ ∧ _ ∧ _ ∨ _ ∧ _))

/-- Every good frame that is read ends within the buffer, and the answer is whole where it ends. -/
def Whole (datalen : Int) : Behind → List Frame → Prop
  | _, [] => True
  | s, f :: fs =>
    s.Reads →
      (f.good → ((payloads (s.before ++ s.since)).length + f.payload.length : Int) ≤ datalen) ∧
      (if f.good ∧ f.last ∧ ¬ f.notify then AnswerWhole s.before (s.since ++ [f]) else Whole datalen (s.next f) fs)

instance decidableWhole (datalen : Int) : (s : Behind) → (fs : List Frame) → Decidable (Whole datalen s fs)
  | _, [] => inferInstanceAs (Decidable True)
  | s, f :: fs =>
    have := decidableWhole datalen (s.next f) fs
    inferInstanceAs (Decidable (s.Reads → _ ∧ ite _ _ _))

/-- What is asked of a result: nothing is stored at or beyond `datalen`, and a count is that of the answer's bytes, which the
buffer starts with. -/
def Reassembled (datalen : Int) (fs : List Frame) (r : PacketRecv × Nat) : Prop :=
  (∀ i < r.1.stored.length, (i : Int) < datalen) ∧ (0 < r.2 → r.1.stored.take r.2 = answer fs ∧ r.2 = (answer fs).length)

/-! ### A frame -/

theorem lengths_nibbles (f : Frame) :
    f.lengths >>> 4 = f.lengths &&& 0x0f ∧ (f.lengths &&& 0x0f).toNat = f.payload.length := by
  have h : ∀ n : Fin 9, UInt8.ofNat ((n : Nat) * 16 + n) >>> 4 = UInt8.ofNat ((n : Nat) * 16 + n) &&& 0x0f ∧
      (UInt8.ofNat ((n : Nat) * 16 + n) &&& 0x0f).toNat = n := by decide
  exact h ⟨f.payload.length, Nat.lt_succ_of_le f.fits⟩

theorem recvFrame_eq (payload : Bytes) (frame : Bytes) (recv : Nat) (chars : Chars) (h : recv + payload.length ≤ frame.length) :
    recvFrame frame recv payload.length (payload.map some ++ chars) =
      (frame.take recv ++ payload ++ frame.drop (recv + payload.length), chars) := by
  induction payload generalizing frame recv with
  | nil => simp [recvFrame]
  | cons c payload ih =>
    rw [List.length_cons] at h
    have hset := ih (frame.set recv c) (recv + 1) (by rw [List.length_set]; omega)
    have htake : (frame.set recv c).take (recv + 1) = frame.take recv ++ [c] := by
      have hrecv : (frame.take recv).length = recv := by
        rw [List.length_take]
        omega
      rw [List.set_eq_take_append_cons_drop, if_pos (by omega), List.take_append, hrecv, Nat.add_sub_cancel_left,
        List.take_of_length_le (by omega)]
      rfl
    have hdrop : (frame.set recv c).drop (recv + 1 + payload.length) = frame.drop (recv + (payload.length + 1)) := by
      rw [List.drop_set_of_lt (by omega)]
      congr 1
      omega
    simp only [List.length_cons, List.map_cons, List.cons_append, recvFrame, serGetChar]
    rw [hset, htake, hdrop]
    simp

/-- The variables after a good frame. -/
def PacketRecv.took (s : PacketRecv) (f : Frame) : PacketRecv where
  frame := f.payload ++ s.frame.drop f.payload.length
  chk := f.chk
  pos := s.pos + UInt16.ofNat f.payload.length
  retry := 0
  datalen := s.datalen - f.payload.length
  stored := s.stored ++ f.payload
  sent := s.sent ++ [shutOk]

/-- The variables after a frame that is not good. -/
def PacketRecv.refused (s : PacketRecv) (f : Frame) : PacketRecv :=
  { s with
    frame := f.payload ++ s.frame.drop f.payload.length, chk := f.chk, retry := s.retry + 1, sent := s.sent ++ [shutNok] }

/-- The variables after the last frame of a notification. -/
def PacketRecv.dropped (s : PacketRecv) : PacketRecv := { s with datalen := s.datalen + s.pos.toNat, pos := 0 }

theorem packetRound_frame {s : PacketRecv} {f : Frame} (hframe : s.frame.length = 8) (htoken : f.NoToken) (chars : Chars) :
    packetRound s (f.bytes.map some ++ chars) =
      if f.good then
        if f.last then
          if f.notify then ((s.took f).dropped, chars, none) else (s.took f, chars, some (s.took f).pos.toNat)
        else (s.took f, chars, none)
      else (s.refused f, chars, none) := by
  obtain ⟨hnib, hlen⟩ := lengths_nibbles f
  have hfits := f.fits
  have hrecv := recvFrame_eq f.payload s.frame 0 (some f.chk :: chars) (by omega)
  rw [List.take_zero, List.nil_append, Nat.zero_add] at hrecv
  have hpayload : (f.payload ++ s.frame.drop f.payload.length).take f.payload.length = f.payload := by
    rw [List.take_append_of_le_length (le_refl _), List.take_length]
  have hstart : ¬ (f.start = shutSync ∨ f.start = shutSyncOff) := fun h => h.elim htoken.1 htoken.2
  have hline : f.bytes.map some ++ chars = some f.start :: some f.lengths :: (f.payload.map some ++ some f.chk :: chars) := by
    simp [Frame.bytes]
  rw [hline]
  simp only [packetRound, serGetChar, if_neg hstart, hnib, ne_eq, not_true, if_false, hlen, if_neg (Nat.not_lt.2 hfits), hrecv,
    hpayload]
  -- the branches of the source: the checksum, the mark of the last frame, the type
  by_cases hgood : f.chk = shutChecksum f.payload
  · have hgood' : f.good = true := decide_eq_true hgood
    rw [if_pos hgood, hgood', if_pos rfl]
    by_cases hlast : f.start &&& 0xf0 = shutPktLast
    · have hlast' : f.last = true := decide_eq_true hlast
      rw [if_pos hlast, hlast', if_pos rfl]
      by_cases hnotify : f.start &&& 0x0f = shutTypeNotify
      · have hnotify' : f.notify = true := decide_eq_true hnotify
        rw [if_pos hnotify, hnotify', if_pos rfl]
        rfl
      · have hnotify' : f.notify = false := decide_eq_false hnotify
        rw [if_neg hnotify, hnotify']
        rfl
    · have hlast' : f.last = false := decide_eq_false hlast
      rw [if_neg hlast, hlast']
      rfl
  · have hgood' : f.good = false := decide_eq_false hgood
    rw [if_neg hgood, hgood']
    rfl

/-! ### The loop -/

theorem packetLoop_silent (fuel : Nat) (s : PacketRecv) :
    (packetLoop fuel s []).1.stored = s.stored ∧ (packetLoop fuel s []).2 = 0 := by
  induction fuel generalizing s with
  | zero => exact ⟨rfl, rfl⟩
  | succ fuel ih =>
    rw [packetLoop]
    split
    · exact ih { s with retry := s.retry + 1 }
    · exact ⟨rfl, rfl⟩

theorem packetLoop_frames {fs : List Frame} (htoken : ∀ f ∈ fs, f.NoToken) {fuel : Nat} (hfuel : fs.length ≤ fuel)
    {s : PacketRecv} (hframe : s.frame.length = 8) {since : Nat} (hpos : s.pos.toNat = since % 65536) :
    (packetLoop fuel s (Frame.line fs)).1.stored = s.stored ++ (heard s.datalen since s.retry fs).flatMap Frame.payload ∧
      (packetLoop fuel s (Frame.line fs)).2 = countAtEnd since (heard s.datalen since s.retry fs) % 65536 := by
  induction fs generalizing fuel s since with
  | nil =>
    obtain ⟨hstored, hret⟩ := packetLoop_silent fuel s
    exact ⟨by rw [Frame.line, List.flatMap_nil, hstored]; simp [heard], hret⟩
  | cons f fs ih =>
    -- `since` counts the bytes that `pos` has in 16 bits
    obtain ⟨fuel, rfl⟩ : ∃ n, fuel = n + 1 := ⟨fuel - 1, by rw [List.length_cons] at hfuel; omega⟩
    have hfuel' : fs.length ≤ fuel := Nat.le_of_succ_le_succ hfuel
    have htoken' : ∀ g ∈ fs, g.NoToken := fun g hg => htoken g (List.mem_cons_of_mem _ hg)
    have hfits := f.fits
    have hline : Frame.line (f :: fs) = f.bytes.map some ++ Frame.line fs := rfl
    have hframe' : (f.payload ++ s.frame.drop f.payload.length).length = 8 := by
      rw [List.length_append, List.length_drop]
      omega
    have hpos' : (s.took f).pos.toNat = (since + f.payload.length) % 65536 := by
      have h : (s.pos + UInt16.ofNat f.payload.length).toNat = (s.pos.toNat + f.payload.length) % 65536 := by
        simp [UInt16.toNat_add]
      rw [PacketRecv.took, h, hpos]
      omega
    rw [hline, packetLoop, heard, packetRound_frame hframe (htoken f List.mem_cons_self)]
    by_cases hgo : 0 < s.datalen ∧ s.retry < 3
    · rw [if_pos hgo, if_pos hgo]
      cases hgood : f.good with
      | false =>
        simp only [Bool.false_eq_true, if_false]
        exact ih htoken' hfuel' (s := s.refused f) hframe' hpos
      | true =>
        cases hlast : f.last with
        | false =>
          simp only [Bool.false_eq_true, if_false, if_true, List.flatMap_cons, countAtEnd, hlast]
          obtain ⟨hstored, hret⟩ := ih htoken' hfuel' (s := s.took f) hframe' hpos'
          exact ⟨by rw [hstored, ← List.append_assoc]; rfl, hret⟩
        | true =>
          cases hnotify : f.notify with
          | false =>
            simp only [Bool.false_eq_true, if_false, if_true, List.flatMap_cons, countAtEnd, hlast, hnotify]
            exact ⟨by simp [PacketRecv.took], hpos'⟩
          | true =>
            simp only [if_true, List.flatMap_cons, countAtEnd, hlast, hnotify]
            obtain ⟨hstored, hret⟩ := @ih htoken' _ hfuel' (s.took f).dropped hframe' 0 rfl
            have hroom : (s.took f).dropped.datalen =
                s.datalen - f.payload.length + ((since + f.payload.length) % 65536 : Nat) := by
              rw [← hpos']
              rfl
            rw [hroom] at hstored hret
            exact ⟨by rw [hstored, ← List.append_assoc]; rfl, hret⟩
    · rw [if_neg hgo, if_neg hgo]
      exact ⟨by simp, rfl⟩

/-! ### What the buffer holds -/

section

variable {frame : Bytes} {chk : UInt8} {datalen : Int} {fs : List Frame}

theorem length_line (fs : List Frame) : fs.length ≤ (Frame.line fs).length := by
  induction fs with
  | nil => exact le_refl 0
  | cons f fs ih =>
    rw [Frame.line, List.flatMap_cons, ← Frame.line, List.length_append, List.length_map]
    have h : 1 ≤ f.bytes.length := Nat.succ_le_succ (Nat.zero_le _)
    rw [List.length_cons]
    omega

theorem shutPacketRecv_frames (hframe : frame.length = 8) (htoken : ∀ f ∈ fs, f.NoToken) :
    (shutPacketRecv frame chk datalen (Frame.line fs)).1.stored = (heard datalen 0 0 fs).flatMap Frame.payload ∧
      (shutPacketRecv frame chk datalen (Frame.line fs)).2 = countAtEnd 0 (heard datalen 0 0 fs) % 65536 := by
  have hfuel := length_line fs
  have h := @packetLoop_frames fs htoken ((Frame.line fs).length + 3) (by omega) ⟨frame, chk, 0, 0, datalen, [], []⟩ hframe 0 rfl
  rwa [List.nil_append] at h

theorem payloads_append (fs gs : List Frame) : payloads (fs ++ gs) = payloads fs ++ payloads gs := List.flatMap_append ..

theorem dataOf_append (fs gs : List Frame) : dataOf (fs ++ gs) = dataOf fs ++ dataOf gs := by
  rw [dataOf, List.filter_append, payloads_append, ← dataOf, ← dataOf]

theorem payloads_singleton (f : Frame) : payloads [f] = f.payload := List.append_nil _

theorem dataOf_singleton (f : Frame) : dataOf [f] = if f.notify then [] else f.payload := by
  cases h : f.notify
  · simp [dataOf, h, payloads_singleton]
  · simp [dataOf, h, payloads]

/-- Frames without bytes of notifications have those of the answer. -/
theorem payloads_of_notesOf {fs : List Frame} (h : notesOf fs = []) : payloads fs = dataOf fs := by
  induction fs with
  | nil => rfl
  | cons f fs ih =>
    rw [← List.singleton_append, payloads_append, dataOf_append, payloads_singleton, dataOf_singleton]
    cases hnotify : f.notify with
    | false =>
      rw [notesOf, List.filter_cons_of_neg (by rw [hnotify]; exact Bool.false_ne_true)] at h
      rw [if_neg Bool.false_ne_true, ih h]
    | true =>
      rw [notesOf, List.filter_cons_of_pos hnotify, ← List.singleton_append, payloads_append, payloads_singleton] at h
      obtain ⟨hnil, hrest⟩ := List.append_eq_nil_iff.1 h
      rw [hnil, ih hrest]
      rfl

theorem answerWhole_iff {before since : List Frame} :
    AnswerWhole before since ↔ (payloads since).length % 65536 = 0 ∨
      ((payloads since).length % 65536 = (dataOf (before ++ since)).length ∧
        dataOf (before ++ since) <+: payloads (before ++ since)) := by
  refine or_congr_right ⟨?_, Or.inr⟩
  rintro (⟨hnotes, hbefore, hshort⟩ | h)
  · have hall := payloads_of_notesOf hnotes
    have hsince : notesOf since = [] := by
      rw [notesOf, List.filter_append, payloads_append] at hnotes
      exact (List.append_eq_nil_iff.1 hnotes).2
    rw [payloads_of_notesOf hsince, hall, dataOf_append, hbefore, List.nil_append, Nat.mod_eq_of_lt hshort]
    exact ⟨rfl, List.prefix_rfl⟩
  · exact h

/-- A frame that does not end the answer goes behind the reader. -/
theorem next_spec {s : Behind} {f : Frame} (hreads : s.Reads) (hend : ¬ (f.good = true ∧ f.last = true ∧ ¬ f.notify = true))
    (fs : List Frame) :
    payloads ((s.next f).before ++ (s.next f).since) =
        payloads (s.before ++ s.since) ++ (if f.good then f.payload else []) ∧
      dataOf ((s.next f).before ++ (s.next f).since) ++ answer fs = dataOf (s.before ++ s.since) ++ answer (f :: fs) ∧
      payloads (heard s.room (payloads s.since).length s.bad (f :: fs)) = (if f.good then f.payload else []) ++
        payloads (heard (s.next f).room (payloads (s.next f).since).length (s.next f).bad fs) ∧
      countAtEnd (payloads s.since).length (heard s.room (payloads s.since).length s.bad (f :: fs)) =
        countAtEnd (payloads (s.next f).since).length
          (heard (s.next f).room (payloads (s.next f).since).length (s.next f).bad fs) := by
  have hcount : (payloads (s.since ++ [f])).length = (payloads s.since).length + f.payload.length := by
    rw [payloads_append, payloads_singleton, List.length_append]
  have hcons : ∀ hs : List Frame, payloads (f :: hs) = f.payload ++ payloads hs := fun hs => List.flatMap_cons ..
  have hpayloads : payloads (s.before ++ (s.since ++ [f])) = payloads (s.before ++ s.since) ++ f.payload := by
    rw [← List.append_assoc, payloads_append _ [f], payloads_singleton]
  have hdata : dataOf (s.before ++ (s.since ++ [f])) = dataOf (s.before ++ s.since) ++ if f.notify then [] else f.payload := by
    rw [← List.append_assoc, dataOf_append _ [f], dataOf_singleton]
  have hgo : 0 < s.room ∧ s.bad < 3 := hreads
  cases hgood : f.good with
  | false =>
    -- a bad frame only adds to the bad ones in a row
    have hanswer : answer (f :: fs) = answer fs := by simp [answer, hgood]
    have hheard : heard s.room (payloads s.since).length s.bad (f :: fs) =
        heard s.room (payloads s.since).length (s.bad + 1) fs := by simp [heard, hgo, hgood]
    have hnext : s.next f = { s with bad := s.bad + 1 } := by simp [Behind.next, hgood]
    rw [hanswer, hheard, hnext]
    simp
  | true =>
    cases hlast : f.last with
    | false =>
      -- its bytes take room, whatever it is a part of
      have hanswer : answer (f :: fs) = (if f.notify then [] else f.payload) ++ answer fs := by
        cases hnotify : f.notify <;> simp [answer, hgood, hlast, hnotify]
      have hheard : heard s.room (payloads s.since).length s.bad (f :: fs) =
          f :: heard (s.room - f.payload.length) ((payloads s.since).length + f.payload.length) 0 fs := by
        simp [heard, hgo, hgood, hlast]
      have hnext : s.next f = { s with since := s.since ++ [f], room := s.room - f.payload.length, bad := 0 } := by
        simp [Behind.next, hgood, hlast]
      rw [hanswer, hheard, hnext, hpayloads, hdata, hcons, hcount, countAtEnd, hlast, List.append_assoc]
      exact ⟨rfl, rfl, rfl, rfl⟩
    | true =>
      -- a notification is complete and gives its room back, in 16 bits
      have hnotify : f.notify = true := by simpa [hgood, hlast] using hend
      have hanswer : answer (f :: fs) = answer fs := by simp [answer, hnotify]
      have hheard : heard s.room (payloads s.since).length s.bad (f :: fs) =
          f :: heard (s.room - f.payload.length + (((payloads s.since).length + f.payload.length) % 65536 : Nat)) 0 0 fs := by
        simp [heard, hgo, hgood, hlast, hnotify]
      have hnext : s.next f =
          { before := s.before ++ (s.since ++ [f])
            since := []
            room := s.room - f.payload.length + ((payloads (s.since ++ [f])).length % 65536 : Nat)
            bad := 0 } := by simp [Behind.next, hgood, hlast, hnotify]
      rw [hanswer, hheard, hnext, hcons, hcount, countAtEnd, hlast, hnotify]
      dsimp only
      rw [List.append_nil, hpayloads, hdata, hnotify]
      exact ⟨rfl, by rw [if_pos rfl, List.append_nil], rfl, rfl⟩

/-- What is put into the buffer and what is counted are right just when every frame that is read is. -/
theorem whole_iff (fs : List Frame) {s : Behind} (hfit : ((payloads (s.before ++ s.since)).length : Int) ≤ datalen) :
    Whole datalen s fs ↔
      ((payloads (s.before ++ s.since) ++ payloads (heard s.room (payloads s.since).length s.bad fs)).length : Int) ≤ datalen ∧
      (countAtEnd (payloads s.since).length (heard s.room (payloads s.since).length s.bad fs) % 65536 = 0 ∨
        (countAtEnd (payloads s.since).length (heard s.room (payloads s.since).length s.bad fs) % 65536 =
            (dataOf (s.before ++ s.since) ++ answer fs).length ∧
          dataOf (s.before ++ s.since) ++ answer fs <+:
            payloads (s.before ++ s.since) ++ payloads (heard s.room (payloads s.since).length s.bad fs))) := by
  induction fs generalizing s with
  | nil =>
    refine iff_of_true trivial ⟨?_, Or.inl rfl⟩
    rw [show payloads (heard s.room (payloads s.since).length s.bad []) = [] from rfl, List.append_nil]
    exact hfit
  | cons f fs ih =>
    rw [Whole]
    by_cases hreads : s.Reads
    · rw [imp_iff_right hreads]
      by_cases hend : f.good = true ∧ f.last = true ∧ ¬ f.notify = true
      · obtain ⟨hgood, hlast, hnotify⟩ := hend
        have hheard : heard s.room (payloads s.since).length s.bad (f :: fs) = [f] := by
          rw [heard, if_pos (show 0 < s.room ∧ s.bad < 3 from hreads), if_pos hgood, if_pos hlast, if_neg hnotify]
        have hanswer : answer (f :: fs) = f.payload := by rw [answer, if_pos ⟨hgood, hnotify⟩, if_pos hlast]
        have hcount : (payloads (s.since ++ [f])).length = (payloads s.since).length + f.payload.length := by
          rw [payloads_append, payloads_singleton, List.length_append]
        rw [if_pos ⟨hgood, hlast, hnotify⟩, imp_iff_right hgood, hheard, hanswer, countAtEnd, if_pos hlast, if_neg hnotify,
          payloads_singleton, answerWhole_iff, hcount, ← List.append_assoc, payloads_append _ [f], payloads_singleton,
          dataOf_append _ [f], dataOf_singleton, if_neg hnotify, @List.length_append _ (payloads _), Nat.cast_add]
      · obtain ⟨hpayloads, hdata, hheard, hcount⟩ := next_spec hreads hend fs
        rw [if_neg hend, hcount, hheard, ← hdata, ← List.append_assoc (payloads (s.before ++ s.since)), ← hpayloads]
        -- the frame ends within the buffer on both sides
        have hnext : (f.good = true → ((payloads (s.before ++ s.since)).length + f.payload.length : Int) ≤ datalen) ↔
            ((payloads ((s.next f).before ++ (s.next f).since)).length : Int) ≤ datalen := by
          rw [hpayloads]
          by_cases hgood : f.good = true
          · rw [if_pos hgood, List.length_append, Nat.cast_add]
            exact imp_iff_right hgood
          · rw [if_neg hgood, List.append_nil]
            exact iff_of_true (fun h => absurd h hgood) hfit
        rw [hnext]
        constructor
        · rintro ⟨hfit', hwhole⟩
          exact (ih hfit').1 hwhole
        · intro h
          have hfit' : ((payloads ((s.next f).before ++ (s.next f).since)).length : Int) ≤ datalen := by
            have := h.1
            rw [List.length_append, Nat.cast_add] at this
            omega
          exact ⟨hfit', (ih hfit').2 h⟩
    · refine iff_of_true (fun h => absurd h hreads) ?_
      rw [show heard s.room (payloads s.since).length s.bad (f :: fs) = [] from if_neg hreads]
      refine ⟨?_, Or.inl rfl⟩
      rw [show payloads [] = [] from rfl, List.append_nil]
      exact hfit

theorem reassembled_iff (hframe : frame.length = 8) (htoken : ∀ f ∈ fs, f.NoToken) :
    Reassembled datalen fs (shutPacketRecv frame chk datalen (Frame.line fs)) ↔ Whole datalen (.start datalen) fs := by
  obtain ⟨hstored, hret⟩ := @shutPacketRecv_frames frame chk datalen fs hframe htoken
  rw [Reassembled, hstored, hret]
  have hcounted : ∀ k : Nat, (0 < k → (payloads (heard datalen 0 0 fs)).take k = answer fs ∧ k = (answer fs).length) ↔
      (k = 0 ∨ k = (answer fs).length ∧ answer fs <+: payloads (heard datalen 0 0 fs)) := by
    intro k
    rw [List.prefix_iff_eq_take]
    constructor
    · intro h
      rcases Nat.eq_zero_or_pos k with hzero | hpos
      · exact Or.inl hzero
      · obtain ⟨htake, hcount⟩ := h hpos
        exact Or.inr ⟨hcount, by rw [← hcount, htake]⟩
    · rintro (hzero | ⟨hcount, htake⟩) hpos
      · omega
      · exact ⟨by rw [hcount]; exact htake.symm, hcount⟩
  by_cases hpos : 0 < datalen
  · have hwhole := @whole_iff datalen fs (.start datalen) hpos.le
    have hfits : (∀ i < (payloads (heard datalen 0 0 fs)).length, (i : Int) < datalen) ↔
        ((payloads (heard datalen 0 0 fs)).length : Int) ≤ datalen := by
      constructor
      · intro h
        by_contra hlong
        have := h datalen.toNat (by omega)
        omega
      · intro h i hi
        omega
    exact ((and_congr hfits (hcounted _)).trans hwhole.symm)
  -- without room nothing is read
  · have hnone : heard datalen 0 0 fs = [] := by
      cases fs with
      | nil => rfl
      | cons f fs => exact if_neg fun h => hpos h.1
    have hwhole : Whole datalen (.start datalen) fs := by
      cases fs with
      | nil => trivial
      | cons f fs => exact fun h => absurd h.1 hpos
    refine iff_of_true ?_ hwhole
    rw [hnone]
    exact ⟨fun i hi => absurd hi (Nat.not_lt_zero i), fun h => absurd h (Nat.lt_irrefl 0)⟩

/-- Without notifications every good frame that is read is right, if the answer fits into the buffer and 16 bits. -/
theorem whole_of_quiet (hquiet : ∀ f ∈ fs, f.notify = false) (hlarge : datalen < 65536) {s : Behind} (hbefore : s.before = [])
    (hsince : ∀ f ∈ s.since, f.notify = false)
    (hfit : ((payloads s.since ++ answer fs).length : Int) ≤ datalen) : Whole datalen s fs := by
  induction fs generalizing s with
  | nil => trivial
  | cons f fs ih =>
    have hnotify := hquiet f List.mem_cons_self
    have hquiet' : ∀ g ∈ fs, g.notify = false := fun g hg => hquiet g (List.mem_cons_of_mem _ hg)
    have hsince' : ∀ g ∈ s.since ++ [f], g.notify = false := by
      intro g hg
      rcases List.mem_append.1 hg with hg | hg
      · exact hsince g hg
      · rw [List.mem_singleton.1 hg]
        exact hnotify
    rw [Whole]
    intro _
    by_cases hgood : f.good = true
    · have hlength : ((payloads s.since).length + f.payload.length : Int) ≤ datalen := by
        rw [answer, if_pos ⟨hgood, by rw [hnotify]; exact Bool.false_ne_true⟩, List.length_append] at hfit
        split at hfit
        · omega
        · rw [List.length_append] at hfit
          omega
      refine ⟨fun _ => by rw [hbefore, List.nil_append]; exact hlength, ?_⟩
      by_cases hlast : f.last = true
      · rw [if_pos ⟨hgood, hlast, by rw [hnotify]; exact Bool.false_ne_true⟩]
        -- all that came are bytes of the answer
        have hnotes : notesOf (s.since ++ [f]) = [] := by
          rw [notesOf, List.filter_eq_nil_iff.2 fun g hg => by rw [hsince' g hg]; exact Bool.false_ne_true]
          rfl
        refine Or.inr (Or.inl ⟨by rw [hbefore]; exact hnotes, by rw [hbefore]; rfl, ?_⟩)
        rw [← payloads_of_notesOf hnotes, payloads_append, payloads_singleton, List.length_append]
        omega
      · rw [if_neg fun h => hlast h.2.1]
        have hnext : s.next f = { s with since := s.since ++ [f], room := s.room - f.payload.length, bad := 0 } := by
          rw [Behind.next, if_pos hgood, if_neg fun h => hlast h.1]
        rw [hnext]
        refine ih hquiet' hbefore hsince' ?_
        rw [answer, if_pos ⟨hgood, by rw [hnotify]; exact Bool.false_ne_true⟩, if_neg hlast] at hfit
        rw [payloads_append, payloads_singleton, List.append_assoc]
        exact hfit
    · refine ⟨fun h => absurd h hgood, ?_⟩
      have hnext : s.next f = { s with bad := s.bad + 1 } := if_neg hgood
      rw [if_neg fun h => hgood h.1, hnext]
      refine ih hquiet' hbefore hsince ?_
      rw [answer, if_neg fun h => hgood h.1] at hfit
      exact hfit

/-- Without notifications it is enough that the answer fits. -/
theorem reassembled_of_quiet (hframe : frame.length = 8) (htoken : ∀ f ∈ fs, f.NoToken) (hquiet : ∀ f ∈ fs, f.notify = false)
    (hfit : ((answer fs).length : Int) ≤ datalen) (hlarge : datalen < 65536) :
    Reassembled datalen fs (shutPacketRecv frame chk datalen (Frame.line fs)) := by
  have hwhole := @whole_of_quiet datalen fs hquiet hlarge (.start datalen) rfl (fun f h => absurd h List.not_mem_nil) hfit
  exact (reassembled_iff hframe htoken).2 hwhole

end

/-- The answer is taken as it should be just when every good frame that is read ends within the buffer and the answer is whole
where it ends. -/
theorem packet_recv_iff (frame : Bytes) (chk : UInt8) (datalen : Int) (fs : List Frame) (hframe : frame.length = 8)
    (htoken : ∀ f ∈ fs, f.NoToken) :
    Reassembled datalen fs (shutPacketRecv frame chk datalen (Frame.line fs)) ↔ Whole datalen (.start datalen) fs :=
  reassembled_iff hframe htoken

/-- A frame of type 4, the last of the answer. -/
def answerFrame : Frame := ⟨0x84, [2, 3], 1, by decide⟩

/-- A notification of one frame. -/
def notifyFrame : Frame := ⟨0x85, [1], 1, by decide⟩

/-- An answer of two frames, with bad frames before and between them and an empty notification at the beginning. -/
theorem packet_recv_answer :
    Reassembled 8 [⟨0x85, [], 0, by decide⟩, ⟨0x04, [7], 0, by decide⟩, ⟨0x04, [7, 9], 14, by decide⟩,
        ⟨0x84, [2], 3, by decide⟩, answerFrame]
      (shutPacketRecv (List.replicate 8 0) 0 8 (Frame.line [⟨0x85, [], 0, by decide⟩, ⟨0x04, [7], 0, by decide⟩,
        ⟨0x04, [7, 9], 14, by decide⟩, ⟨0x84, [2], 3, by decide⟩, answerFrame])) :=
  (packet_recv_iff (List.replicate 8 0) 0 8 _ rfl (by unfold Frame.NoToken; decide)).2 (by decide)

/-- The same answer after a notification: two bytes are returned, and the buffer starts with the one of the notification. -/
theorem packet_recv_notification :
    ¬ Reassembled 8 [notifyFrame, answerFrame]
      (shutPacketRecv (List.replicate 8 0) 0 8 (Frame.line [notifyFrame, answerFrame])) := by
  unfold Reassembled
  decide

end Shut

end Nut
