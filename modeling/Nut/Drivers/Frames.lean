import Nut.Drivers.Libshut

/-!
# Frames that are sent and received

What goes over the line as frames.  A set request is framed as the protocol has it just when the report has at most seven
bytes (`set_report_framed_iff`): with eight the header is sent again, and with more the packet is overrun or bytes are lost.
-/

namespace Nut

namespace Shut

/-- A frame with the checksum that comes with it. -/
structure Frame where
  start : UInt8
  payload : Bytes
  chk : UInt8
  fits : payload.length ≤ 8

namespace Frame

def lengths (f : Frame) : UInt8 := UInt8.ofNat (f.payload.length * 16 + f.payload.length)

def bytes (f : Frame) : Bytes := f.start :: f.lengths :: f.payload ++ [f.chk]

def good (f : Frame) : Bool := f.chk = shutChecksum f.payload

def last (f : Frame) : Bool := f.start &&& 0xf0 = shutPktLast

def notify (f : Frame) : Bool := f.start &&& 0x0f = shutTypeNotify

end Frame

/-- A header frame, then frames with the report, of which only the last is marked so. -/
def SetFramed (header report : Bytes) (sent : List Bytes) : Prop :=
  ∃ (first : Frame) (rest : List Frame), sent = (first :: rest).map Frame.bytes ∧ first.payload = header ∧
    rest.flatMap Frame.payload = report ∧ (∀ f ∈ first :: rest, f.good) ∧
    (first :: rest).map Frame.last = List.replicate rest.length false ++ [true]

/-! ### The packet -/

theorem copyInto_eq {pkt src : Bytes} {dest : Nat} (hdest : dest + src.length ≤ 11) :
    copyInto pkt dest src src.length = some (pkt.take dest ++ src ++ pkt.drop (dest + src.length)) := by
  have h : ¬ ((src.length : Int) < 0 ∨ src.length < (src.length : Int).toNat ∨ 11 < dest + (src.length : Int).toNat) := by omega
  rw [copyInto, if_neg h]
  simp

/-- The lead byte of the frame that is forged. -/
def leadOf (left : Int) : UInt8 := shutTypeRequest + if 8 < left then 0 else shutPktLast

theorem last_leadOf (left : Int) : decide (leadOf left &&& 0xf0 = shutPktLast) = decide (left ≤ 8) := by
  unfold leadOf
  split
  · rename_i h
    rw [decide_eq_false (by omega : ¬ left ≤ 8)]
    decide
  · rename_i h
    rw [decide_eq_true (by omega : left ≤ 8)]
    decide

private theorem lengths_eq {n : Nat} (hn : n ≤ 8) : UInt8.ofInt ((n : Int) * 16 + n) = UInt8.ofNat (n * 16 + n) := by
  have h : ∀ n : Fin 9, UInt8.ofInt ((n : Nat) * 16 + (n : Nat)) = UInt8.ofNat (n * 16 + n) := by decide
  exact h ⟨n, by omega⟩

/-- The frame that is forged with `left` bytes to go. -/
def forged (left : Int) (payload : Bytes) (h : payload.length ≤ 8) : Frame where
  start := leadOf left
  payload := payload
  chk := shutChecksum payload
  fits := h

theorem good_forged {left : Int} {payload : Bytes} {h : payload.length ≤ 8} : (forged left payload h).good = true := by
  simp [Frame.good, forged]

theorem last_forged {left : Int} {payload : Bytes} {h : payload.length ≤ 8} :
    (forged left payload h).last = decide (left ≤ 8) :=
  last_leadOf left

theorem forgeFrame_eq {ctrl : CtrlTransfer} {s : ControlMsg} {src : Bytes} (hset : ctrl.isSet) (hp : s.shutPkt.length = 11)
    (hn : src.length ≤ 8)
    (hcopy : (s.remainingSize < 8 ∧ src = ctrl.data) ∨ (8 ≤ s.remainingSize ∧ src = ctrl.header)) :
    ∃ pkt, forgeFrame ctrl s src.length = some pkt ∧ pkt.length = 11 ∧
      pkt.take (src.length + 3) = (forged s.remainingSize src hn).bytes := by
  obtain ⟨b0, b1, tl, hpkt⟩ : ∃ b0 b1 tl, s.shutPkt = b0 :: b1 :: tl := by
    match hs : s.shutPkt with
    | [] | [_] => simp [hs] at hp
    | b0 :: b1 :: tl => exact ⟨b0, b1, tl, rfl⟩
  have htl : tl.length = 9 := by simpa [hpkt] using hp
  have hlead : shutTypeRequest + (if ctrl.isSet ∧ 8 < s.remainingSize then 0 else shutPktLast) = leadOf s.remainingSize := by
    simp only [hset, true_and]
    rfl
  let lengths := UInt8.ofNat (src.length * 16 + src.length)
  -- both branches copy `src`
  have hcopied : (if ctrl.isSet ∧ s.remainingSize < 8 then
        copyInto (leadOf s.remainingSize :: lengths :: tl) 2 ctrl.data src.length
      else copyInto (leadOf s.remainingSize :: lengths :: tl) 2 ctrl.header 8) =
      some (leadOf s.remainingSize :: lengths :: (src ++ tl.drop src.length)) := by
    rcases hcopy with ⟨hrest, rfl⟩ | ⟨hrest, rfl⟩
    · rw [if_pos ⟨hset, hrest⟩, copyInto_eq (by omega), Nat.add_comm 2]
      rfl
    · rw [if_neg (by omega)]
      exact @copyInto_eq _ ctrl.header _ (by omega)
  obtain ⟨x, tail, hdrop⟩ : ∃ x tail, tl.drop src.length = x :: tail :=
    List.exists_cons_of_length_pos (by rw [List.length_drop]; omega)
  have htail : tail.length + 1 = 9 - src.length := by
    have h := congrArg List.length hdrop
    rw [List.length_drop] at h
    simpa [htl] using h.symm
  have hchk : (src ++ tl.drop src.length).set src.length (shutChecksum src) = src ++ shutChecksum src :: tail := by
    rw [hdrop, List.set_append_right _ _ (le_refl _), Nat.sub_self, List.set_cons_zero]
  refine ⟨leadOf s.remainingSize :: lengths :: (src ++ shutChecksum src :: tail), ?_, ?_, ?_⟩
  · have hbound : 0 ≤ (src.length : Int) + 2 ∧ (src.length : Int) + 2 < 11 := by omega
    have hplace : ((src.length : Int) + 2).toNat = src.length + 2 := by omega
    have htake : (src ++ tl.drop src.length).take src.length = src := by
      rw [List.take_append_of_le_length (le_refl _), List.take_length]
    simp only [forgeFrame, hlead, hpkt, List.set_cons_zero, List.set_cons_succ, lengths_eq hn]
    simp only [lengths] at hcopied
    simp only [hcopied, if_pos hbound, hplace, List.drop_succ_cons, List.drop_zero, Int.toNat_natCast, htake,
      List.set_cons_succ, hchk]
    rfl
  · simp only [List.length_cons, List.length_append]
    omega
  · have hall : (src ++ shutChecksum src :: tail).take (src.length + 1) = src ++ [shutChecksum src] := by
      rw [List.take_append, List.take_of_length_le (by omega), Nat.add_sub_cancel_left]
      rfl
    rw [List.take_succ_cons, List.take_succ_cons, hall]
    rfl

theorem forgeFrame_overrun {ctrl : CtrlTransfer} {s : ControlMsg} {n : Int} (hn : 9 ≤ n) : forgeFrame ctrl s n = none := by
  have hbound : ¬ (0 ≤ n + 2 ∧ n + 2 < 11) := by omega
  simp only [forgeFrame, if_neg hbound]
  split
  · rfl
  · rfl

/-! ### The loop of a set request -/

theorem short_spec (x : Int) : ∃ k : Int, short x = x + 65536 * k ∧ -32768 ≤ short x ∧ short x < 32768 := by
  have hdef : short x = if x % 65536 < 32768 then x % 65536 else x % 65536 - 65536 := by
    simp [short, Int.bmod_def]
  rw [hdef]
  split
  · exact ⟨-(x / 65536), by omega, by omega, by omega⟩
  · exact ⟨-(x / 65536) - 1, by omega, by omega, by omega⟩

theorem controlLoop_stop {ctrl : CtrlTransfer} {s : ControlMsg} (h : s.remainingSize ≤ 0) (fuel : Nat) (chars : Chars) :
    controlLoop ctrl fuel s chars = some (s, chars, none) := by
  cases fuel with
  | zero => rfl
  | succ fuel =>
    rw [controlLoop, if_neg]
    omega

/-- The state after a buffer is acknowledged. -/
def ControlMsg.acked (s : ControlMsg) (pkt : Bytes) (dataSize : Int) : ControlMsg where
  retry := 1
  setPass := 2
  remainingSize := short (s.remainingSize - dataSize)
  shutPkt := pkt
  sent := s.sent ++ [pkt.take (dataSize + 3).toNat]

theorem acked_remainingSize (s : ControlMsg) (pkt : Bytes) (n : Int) :
    (s.acked pkt n).remainingSize = short (s.remainingSize - n) := by
  rw [ControlMsg.acked]

theorem acked_sent (s : ControlMsg) (pkt : Bytes) (n : Int) :
    (s.acked pkt n).sent = s.sent ++ [pkt.take (n + 3).toNat] := by
  rw [ControlMsg.acked]

theorem controlLoop_ack {ctrl : CtrlTransfer} {s : ControlMsg} (hset : ctrl.isSet) (hretry : s.retry = 1)
    (hpass : s.setPass = 1 ∨ s.setPass = 2) (hleft : 0 < s.remainingSize) {dataSize : Int}
    (hsize : dataSize = if s.setPass = 1 then 8 else short ctrl.data.length) (fuel : Nat) (chars : Chars) :
    controlLoop ctrl (fuel + 1) s (some shutOk :: chars) =
      (forgeFrame ctrl s dataSize).bind fun pkt => controlLoop ctrl fuel (s.acked pkt dataSize) chars := by
  have hgo : 0 < s.remainingSize ∧ 0 < s.retry := ⟨hleft, by omega⟩
  have hpass' : (if s.setPass = 1 then 2 else s.setPass) = 2 := by
    rcases hpass with h | h
    · rw [if_pos h]
    · rw [if_neg (by omega), h]
  rw [controlLoop, if_pos hgo]
  simp only [hset, if_true, true_and, ← hsize, hretry, hpass']
  cases forgeFrame ctrl s dataSize with
  | none => rfl
  | some pkt => rfl

/-! ### Set requests -/

def setRequest (request : UInt8) (value index : UInt16) (report : Bytes) : CtrlTransfer :=
  controlRequest requestTypeSetReport request value index report

theorem shutControlMsg_set {pkt frame report : Bytes} {chk request : UInt8} {value index : UInt16} {chars : Chars}
    {P : List Bytes → Prop} :
    (∃ r, shutControlMsg pkt frame chk requestTypeSetReport request value index report chars = some r ∧ P r.sent) ↔
      ∃ r, controlLoop (setRequest request value index report) (chars.length + 5)
        (controlStart pkt (setRequest request value index report)) chars = some r ∧ P r.1.sent := by
  have hset : (setRequest request value index report).isSet = true := rfl
  rw [shutControlMsg, ← setRequest]
  rcases controlLoop (setRequest request value index report) (chars.length + 5)
    (controlStart pkt (setRequest request value index report)) chars with _ | ⟨s, chars', _ | ret⟩
  · simp
  · by_cases hleft : s.remainingSize = 0
    · simp [hset, hleft]
    · simp [hleft]
  · simp

theorem start_remainingSize {ctrl : CtrlTransfer} (hset : ctrl.isSet) (pkt : Bytes) :
    (controlStart pkt ctrl).remainingSize = short (short ctrl.data.length + 8) := by
  simp only [controlStart, if_pos hset]

theorem short_eq {x : Int} (h : -32768 ≤ x) (h' : x < 32768) : short x = x := by
  obtain ⟨k, hk, hlow, hhigh⟩ := short_spec x
  omega

section

variable {request : UInt8} {value index : UInt16} {report pkt : Bytes}

/-- What is sent for a report of at most eight bytes, where `src` is what the second frame is made of. -/
theorem controlLoop_small (hp : pkt.length = 11) {src : Bytes} (hpos : 0 < report.length) (hsize : src.length = report.length)
    (hn : src.length ≤ 8) (hsrc : (src.length < 8 ∧ src = report) ∨
      (src.length = 8 ∧ src = (setRequest request value index report).header)) (fuel : Nat) (chars : Chars) :
    ∃ r, controlLoop (setRequest request value index report) (fuel + 2)
        (controlStart pkt (setRequest request value index report)) (some shutOk :: some shutOk :: chars) = some r ∧
      r.1.sent = [(forged (src.length + 8) (setRequest request value index report).header (le_refl 8)).bytes,
        (forged src.length src hn).bytes] := by
  obtain ⟨ctrl, hctrl⟩ : ∃ ctrl, ctrl = setRequest request value index report := ⟨_, rfl⟩
  have hset : ctrl.isSet = true := by rw [hctrl]; rfl
  have hdata : ctrl.data = report := by rw [hctrl]; rfl
  obtain ⟨s, hs⟩ : ∃ s, s = controlStart pkt ctrl := ⟨_, rfl⟩
  have hstart : s.remainingSize = src.length + 8 := by
    rw [hs, start_remainingSize hset, hdata, ← hsize, short_eq (x := (src.length : Int)) (by omega) (by omega),
      short_eq (by omega) (by omega)]
  rw [← hctrl] at hsrc ⊢
  -- the header
  obtain ⟨pkt₁, hforge₁, hp₁, hsent₁⟩ :=
    @forgeFrame_eq ctrl s ctrl.header hset (by rw [hs]; exact hp) (le_refl 8) (Or.inr ⟨by omega, rfl⟩)
  have hround₁ := @controlLoop_ack ctrl s hset (by rw [hs]; rfl) (Or.inl (by rw [hs]; simp [controlStart, hset]))
    (by omega) 8 (by rw [hs]; simp [controlStart, hset]) (fuel + 1) (some shutOk :: chars)
  rw [show ((ctrl.header.length : Nat) : Int) = 8 from rfl] at hforge₁
  rw [hforge₁, Option.bind_some] at hround₁
  -- the report
  obtain ⟨s₁, hs₁⟩ : ∃ s₁, s₁ = s.acked pkt₁ 8 := ⟨_, rfl⟩
  have hleft : s₁.remainingSize = src.length := by
    rw [hs₁, acked_remainingSize, hstart, short_eq (by omega) (by omega)]
    omega
  obtain ⟨pkt₂, hforge₂, hp₂, hsent₂⟩ := @forgeFrame_eq ctrl s₁ src hset (by rw [hs₁]; exact hp₁) hn (by
    rcases hsrc with ⟨h, h'⟩ | ⟨h, h'⟩
    · exact Or.inl ⟨by omega, by rw [h', hdata]⟩
    · exact Or.inr ⟨by omega, h'⟩)
  have hdataSize : (src.length : Int) = if s₁.setPass = 1 then 8 else short ctrl.data.length := by
    rw [hdata, ← hsize, short_eq (by omega) (by omega), hs₁]
    rfl
  have hround₂ := controlLoop_ack (s := s₁) hset (by rw [hs₁]; rfl) (Or.inr (by rw [hs₁]; rfl)) (by omega) hdataSize fuel chars
  have hdone : (s₁.acked pkt₂ src.length).remainingSize ≤ 0 := by
    rw [acked_remainingSize, hleft, Int.sub_self]
    decide
  rw [hforge₂, Option.bind_some, controlLoop_stop hdone] at hround₂
  rw [← hs₁] at hround₁
  refine ⟨_, (hs ▸ hround₁).trans hround₂, ?_⟩
  have hplace : ((src.length : Int) + 3).toNat = src.length + 3 := by omega
  have hfirst : s₁.sent = [(forged (src.length + 8) ctrl.header (le_refl 8)).bytes] := by
    have hplace₁ : ((8 : Int) + 3).toNat = ctrl.header.length + 3 := rfl
    have hnone : s.sent = [] := by rw [hs]; rfl
    rw [hs₁, acked_sent, hplace₁, hsent₁, hstart, hnone]
    rfl
  rw [acked_sent, hplace, hsent₂, hleft, hfirst]
  rfl

/-- At most two buffers are sent, however long the report is. -/
theorem controlLoop_sent (fuel : Nat) (chars : Chars) {r : ControlMsg × Chars × Option Int}
    (h : controlLoop (setRequest request value index report) (fuel + 2)
      (controlStart pkt (setRequest request value index report)) (some shutOk :: some shutOk :: chars) = some r) :
    r.1.sent.length ≤ 2 := by
  obtain ⟨ctrl, hctrl⟩ : ∃ ctrl, ctrl = setRequest request value index report := ⟨_, rfl⟩
  have hset : ctrl.isSet = true := by rw [hctrl]; rfl
  obtain ⟨s, hs⟩ : ∃ s, s = controlStart pkt ctrl := ⟨_, rfl⟩
  obtain ⟨k, hshort, hlow, hhigh⟩ := short_spec ctrl.data.length
  obtain ⟨k', hshort', hlow', hhigh'⟩ := short_spec (short ctrl.data.length + 8)
  have hstart : s.remainingSize = short (short ctrl.data.length + 8) := by rw [hs, start_remainingSize hset]
  have hsent : s.sent = [] := by rw [hs]; rfl
  rw [← hctrl, ← hs] at h
  by_cases hgo : 0 < s.remainingSize
  · rw [@controlLoop_ack ctrl s hset (by rw [hs]; rfl) (Or.inl (by rw [hs]; simp [controlStart, hset])) hgo
      8 (by rw [hs]; simp [controlStart, hset])] at h
    obtain ⟨pkt₁, hforge₁, h⟩ := Option.bind_eq_some_iff.1 h
    obtain ⟨s₁, hs₁⟩ : ∃ s₁, s₁ = s.acked pkt₁ 8 := ⟨_, rfl⟩
    have hleft : s₁.remainingSize = s.remainingSize - 8 := by
      rw [hs₁, acked_remainingSize, short_eq (by omega) (by omega)]
    have hsent₁ : s₁.sent.length = 1 := by
      rw [hs₁, acked_sent, hsent]
      rfl
    rw [← hs₁] at h
    by_cases hgo₁ : 0 < s₁.remainingSize
    · rw [@controlLoop_ack ctrl s₁ hset (by rw [hs₁]; rfl) (Or.inr (by rw [hs₁]; rfl)) hgo₁
        (short ctrl.data.length) (by simp [hs₁, ControlMsg.acked])] at h
      obtain ⟨pkt₂, hforge₂, h⟩ := Option.bind_eq_some_iff.1 h
      have hsmall : short ctrl.data.length < 9 := by
        by_contra hlarge
        rw [forgeFrame_overrun (by omega)] at hforge₂
        cases hforge₂
      -- the remaining size is what was sent
      have hdone : (s₁.acked pkt₂ (short ctrl.data.length)).remainingSize ≤ 0 := by
        rw [acked_remainingSize, hleft, hstart, show short (short ctrl.data.length + 8) - 8 - short ctrl.data.length = 0 by omega]
        decide
      rw [controlLoop_stop hdone] at h
      cases h
      rw [acked_sent, List.length_append, hsent₁]
      rfl
    · rw [controlLoop_stop (by omega)] at h
      cases h
      exact hsent₁.trans_le (Nat.le_succ 1)
  · rw [controlLoop_stop (by omega)] at h
    cases h
    rw [hsent]
    exact Nat.zero_le 2

theorem length_of_setFramed {header : Bytes} {sent : List Bytes} (h : SetFramed header report sent) :
    report.length ≤ 8 * (sent.length - 1) := by
  obtain ⟨first, rest, rfl, -, rfl, -, -⟩ := h
  have hrest : (rest.flatMap Frame.payload).length ≤ 8 * rest.length := by
    induction rest with
    | nil => exact Nat.zero_le _
    | cons f rest ih =>
      have hfits := f.fits
      rw [List.flatMap_cons, List.length_append, List.length_cons]
      omega
  simpa using hrest

theorem payload_of_bytes {f g : Frame} (h : f.bytes = g.bytes) : f.payload = g.payload := by
  simp only [Frame.bytes, List.cons_append, List.cons.injEq] at h
  exact (List.append_inj' h.2.2 rfl).1

/-- For a set request of a report whose frames are all acknowledged: the header frame and the frames with the report are
sent, and none is built outside the packet, just when the report has at most seven bytes or is the header itself. -/
theorem set_report_framed_iff (pkt frame : Bytes) (chk request : UInt8) (value index : UInt16) (report : Bytes) (acks : Nat)
    (hp : pkt.length = 11) (hn : report ≠ []) (hacks : 2 ≤ acks) :
    (∃ r, shutControlMsg pkt frame chk requestTypeSetReport request value index report (List.replicate acks (some shutOk)) =
        some r ∧ SetFramed (setRequest request value index report).header report r.sent) ↔
      report.length ≤ 7 ∨ report = (setRequest request value index report).header := by
  obtain ⟨acks, rfl⟩ : ∃ n, acks = n + 2 := ⟨acks - 2, by omega⟩
  have hpos : 0 < report.length := List.length_pos_iff.2 hn
  have hheader : (setRequest request value index report).header.length = 8 := rfl
  rw [shutControlMsg_set, List.length_replicate, show acks + 2 + 5 = (acks + 5) + 2 by omega, List.replicate_succ,
    List.replicate_succ]
  constructor
  · rintro ⟨r, hr, hframed⟩
    have hlen := length_of_setFramed hframed
    have hsent := controlLoop_sent _ _ hr
    by_cases h7 : report.length ≤ 7
    · exact Or.inl h7
    · -- eight bytes: the second frame is the header again
      have h8 : report.length = 8 := by omega
      obtain ⟨r', hr', hsent'⟩ := @controlLoop_small request value index report _ hp _ hpos
        (hheader.trans h8.symm) (le_refl 8) (Or.inr ⟨hheader, rfl⟩) (acks + 5) (List.replicate acks (some shutOk))
      rw [hr] at hr'
      cases hr'
      obtain ⟨first, rest, hbytes, -, hreport, -, -⟩ := hframed
      rw [hsent'] at hbytes
      match rest with
      | [] => simp at hbytes
      | [f] =>
        simp only [List.map_cons, List.map_nil, List.cons.injEq, and_true] at hbytes
        have hpayload : report = f.payload := by rw [← hreport, List.flatMap_singleton]
        exact Or.inr (hpayload.trans (payload_of_bytes hbytes.2).symm)
      | _ :: _ :: _ => simp at hbytes
  · intro h
    have hsmall : report.length ≤ 8 := by
      rcases h with h | h
      · omega
      · rw [h]
        exact le_refl 8
    obtain ⟨r, hr, hsent⟩ := @controlLoop_small request value index report _ hp _ hpos rfl hsmall (by
      rcases h with h | h
      · exact Or.inl ⟨by omega, rfl⟩
      · exact Or.inr ⟨by rw [h]; rfl, h⟩) (acks + 5) (List.replicate acks (some shutOk))
    refine ⟨r, hr, forged (report.length + 8) (setRequest request value index report).header (le_refl 8),
      [forged report.length report hsmall], hsent, rfl, ?_, ?_, ?_⟩
    · simp [forged]
    · intro f hf
      simp only [List.mem_cons, List.not_mem_nil, or_false] at hf
      rcases hf with rfl | rfl
      · exact good_forged
      · exact good_forged
    · have hfirst : (forged (report.length + 8) (setRequest request value index report).header (le_refl 8)).last = false :=
        last_forged.trans (decide_eq_false (by omega))
      have hsecond : (forged report.length report hsmall).last = true := last_forged.trans (decide_eq_true (by omega))
      rw [List.map_cons, List.map_singleton, hfirst, hsecond]
      rfl

/-- A report of two bytes. -/
theorem set_report_framed_two : ∃ r, shutControlMsg (List.replicate 11 0) (List.replicate 8 0) 0 requestTypeSetReport 9 0x0305 0
      [5, 0x14] (List.replicate 2 (some shutOk)) = some r ∧
    SetFramed (setRequest 9 0x0305 0 [5, 0x14]).header [5, 0x14] r.sent :=
  (set_report_framed_iff _ _ _ _ _ _ _ 2 rfl (by decide) (le_refl 2)).2 (Or.inl (by decide))

/-- A report of nine bytes overruns the packet. -/
theorem set_report_overrun : ¬ ∃ r, shutControlMsg (List.replicate 11 0) (List.replicate 8 0) 0 requestTypeSetReport 9 0x0305 0
      [5, 1, 2, 3, 4, 5, 6, 7, 8] (List.replicate 2 (some shutOk)) = some r ∧
    SetFramed (setRequest 9 0x0305 0 [5, 1, 2, 3, 4, 5, 6, 7, 8]).header [5, 1, 2, 3, 4, 5, 6, 7, 8] r.sent := by
  have h : shutControlMsg (List.replicate 11 0) (List.replicate 8 0) 0 requestTypeSetReport 9 0x0305 0
      [5, 1, 2, 3, 4, 5, 6, 7, 8] (List.replicate 2 (some shutOk)) = none := by decide
  rintro ⟨r, hr, -⟩
  rw [h] at hr
  cases hr

end

end Shut

end Nut
