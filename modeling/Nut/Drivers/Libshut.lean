import Mathlib.Data.List.Basic
import Mathlib.Data.UInt

/-!
# `libshut.c`: frames on the serial line

The exchange of SHUT frames with a UPS: `shut_packet_recv` takes an answer frame by frame, and `shut_control_msg` sends a
request and waits for it.  What the line delivers is an argument: the results of the calls of `ser_get_char`, in order, where
nothing arrives after the last, and those of `shut_wait_ack`.

`short` has 16 bits, and `Buf` is written from its start on, as far as it takes.
-/

namespace Nut

namespace Shut

abbrev Bytes := List UInt8

def shutTypeRequest : UInt8 := 0x01
def shutTypeNotify : UInt8 := 0x05
def shutOk : UInt8 := 0x06
def shutNok : UInt8 := 0x15
def shutSync : UInt8 := 0x16
def shutSyncOff : UInt8 := 0x18
def shutPktLast : UInt8 := 0x80
def requestTypeSetReport : UInt8 := 0x21
def maxTry : Int := 4

def shutChecksum (buf : Bytes) : UInt8 := buf.foldl (· ^^^ ·) 0

/-! ### `shut_packet_recv` -/

/-- The results of the calls of `ser_get_char`. -/
abbrev Chars := List (Option UInt8)

/-- The second result is the character, which stays what it was if nothing arrives. -/
def serGetChar (ch : UInt8) : Chars → Chars × UInt8 × Bool
  | [] => ([], ch, false)
  | none :: chars => (chars, ch, false)
  | some c :: chars => (chars, c, true)

/-- The variables of `shut_packet_recv`: `stored` is what was put into `Buf`, and `sent` are the replies. -/
structure PacketRecv where
  frame : Bytes
  chk : UInt8
  pos : UInt16
  retry : Nat
  datalen : Int
  stored : Bytes
  sent : Bytes
  deriving DecidableEq

/-- The loop that reads the `n` bytes of a frame from the place `recv` on. -/
def recvFrame (frame : Bytes) (recv : Nat) : Nat → Chars → Bytes × Chars
  | 0, chars => (frame, chars)
  | n + 1, chars =>
    match serGetChar 0 chars with
    | (chars, _, false) => (frame, chars)
    | (chars, c, true) => recvFrame (frame.set recv c) (recv + 1) n chars

/-- A round of the loop; the last result is what the function returns, if it does. -/
def packetRound (s : PacketRecv) (chars : Chars) : PacketRecv × Chars × Option Nat :=
  match serGetChar 0 chars with
  | (chars, _, false) => ({ s with retry := s.retry + 1 }, chars, none)
  | (chars, start0, true) =>
    if start0 = shutSync ∨ start0 = shutSyncOff then ({ s with stored := s.stored ++ [start0] }, chars, some 1)
    else
      match serGetChar 0 chars with
      | (chars, _, false) => (s, chars, some 0)
      | (chars, start1, true) =>
        if start1 >>> 4 ≠ start1 &&& 0x0f then (s, chars, some 0)
        else
          let size := (start1 &&& 0x0f).toNat
          if 8 < size then ({ s with retry := s.retry + 1, sent := s.sent ++ [shutNok] }, chars, some 0)
          else
            let r := recvFrame s.frame 0 size chars
            let c := serGetChar s.chk r.2
            let payload := r.1.take size
            if c.2.1 = shutChecksum payload then
              let s := { s with
                frame := r.1, chk := c.2.1, stored := s.stored ++ payload, datalen := s.datalen - size,
                pos := s.pos + UInt16.ofNat size, retry := 0, sent := s.sent ++ [shutOk] }
              if start0 &&& 0xf0 = shutPktLast then
                if start0 &&& 0x0f = shutTypeNotify then
                  ({ s with datalen := s.datalen + s.pos.toNat, pos := 0 }, c.1, none)
                else (s, c.1, some s.pos.toNat)
              else (s, c.1, none)
            else
              ({ s with frame := r.1, chk := c.2.1, retry := s.retry + 1, sent := s.sent ++ [shutNok] }, c.1, none)

/-- At most `fuel` rounds. -/
def packetLoop : Nat → PacketRecv → Chars → PacketRecv × Nat
  | 0, s, _ => (s, 0)
  | fuel + 1, s, chars =>
    if 0 < s.datalen ∧ s.retry < 3 then
      match packetRound s chars with
      | (s, _, some ret) => (s, ret)
      | (s, chars, none) => packetLoop fuel s chars
    else (s, 0)

/-- `frame` and `chk` are what is in these variables at first.  A round takes a character or, when none is left, a try. -/
def shutPacketRecv (frame : Bytes) (chk : UInt8) (datalen : Int) (chars : Chars) : PacketRecv × Nat :=
  packetLoop (chars.length + 3) ⟨frame, chk, 0, 0, datalen, [], []⟩ chars

/-! ### `shut_control_msg` -/

/-- The fields of `shut_ctrltransfer_s` that are sent, and the data. -/
structure CtrlTransfer where
  bRequestType : UInt8
  bRequest : UInt8
  wValue : UInt16
  wIndex : UInt16
  wLength : UInt16
  data : Bytes

/-- Its first eight bytes, once `align_request` has made them little endian. -/
def CtrlTransfer.header (ctrl : CtrlTransfer) : Bytes :=
  [ctrl.bRequestType, ctrl.bRequest, ctrl.wValue.toUInt8, (ctrl.wValue >>> 8).toUInt8, ctrl.wIndex.toUInt8,
    (ctrl.wIndex >>> 8).toUInt8, ctrl.wLength.toUInt8, (ctrl.wLength >>> 8).toUInt8]

/-- A value that is stored in a `short`. -/
def short (x : Int) : Int := Int.bmod x (2 ^ 16)

/-- The results of `shut_wait_ack`: 0, -1, -2 and -3. -/
inductive WaitAck where
  | ack
  | error
  | nack
  | notify
  deriving DecidableEq

def shutWaitAck (chars : Chars) : Chars × WaitAck :=
  match serGetChar 0 chars with
  | (chars, c, _) =>
    (chars, if c = shutOk then .ack else if c = shutNok then .nack else if c &&& 0x0f = shutTypeNotify then .notify else .error)

/-- The variables of the loop; `setPass` is 1 until the header of a set request is forged, and `sent` are the buffers that
were sent. -/
structure ControlMsg where
  retry : Int
  setPass : Int
  remainingSize : Int
  shutPkt : Bytes
  sent : List Bytes
  deriving DecidableEq

def CtrlTransfer.isSet (ctrl : CtrlTransfer) : Bool := ctrl.bRequestType = requestTypeSetReport

/-- `memcpy` of the first `n` bytes of `src` to the place `dest` of the packet, which has eleven. -/
def copyInto (pkt : Bytes) (dest : Nat) (src : Bytes) (n : Int) : Option Bytes :=
  if n < 0 ∨ src.length < n.toNat ∨ 11 < dest + n.toNat then none
  else some (pkt.take dest ++ src.take n.toNat ++ pkt.drop (dest + n.toNat))

/-- The packet with the frame; there is none where an access is outside the packet or the data. -/
def forgeFrame (ctrl : CtrlTransfer) (s : ControlMsg) (dataSize : Int) : Option Bytes :=
  let pkt := s.shutPkt.set 0 (shutTypeRequest + if ctrl.isSet ∧ 8 < s.remainingSize then 0 else shutPktLast)
  let pkt := pkt.set 1 (UInt8.ofInt (dataSize * 16 + dataSize))
  match if ctrl.isSet ∧ s.remainingSize < 8 then copyInto pkt 2 ctrl.data dataSize else copyInto pkt 2 ctrl.header 8 with
  | none => none
  | some pkt =>
    if 0 ≤ dataSize + 2 ∧ dataSize + 2 < 11 then
      some (pkt.set (dataSize + 2).toNat (shutChecksum ((pkt.drop 2).take dataSize.toNat)))
    else none

/-- At most `fuel` rounds of the loop; the last result is what the function returns, if it does in a round. -/
def controlLoop (ctrl : CtrlTransfer) : Nat → ControlMsg → Chars → Option (ControlMsg × Chars × Option Int)
  | 0, s, chars => some (s, chars, none)
  | fuel + 1, s, chars =>
    if 0 < s.remainingSize ∧ 0 < s.retry then
      let dataSize := if ctrl.isSet then if s.setPass = 1 then 8 else short ctrl.data.length else 8
      match forgeFrame ctrl s dataSize with
      | none => none
      | some pkt =>
        let s := { s with
          setPass := if ctrl.isSet ∧ s.setPass = 1 then 2 else s.setPass
          shutPkt := pkt
          sent := if s.retry = 1 then s.sent ++ [pkt.take (dataSize + 3).toNat] else s.sent }
        match shutWaitAck chars with
        | (chars, .ack) =>
          let left := if ctrl.isSet then short (s.remainingSize - dataSize) else 0
          controlLoop ctrl fuel { s with remainingSize := left, retry := 1 } chars
        | (chars, .error) =>
          if maxTry ≤ s.retry then some (s, chars, some (-1))
          else
            controlLoop ctrl fuel { s with retry := short (s.retry + 1), sent := s.sent ++ [[shutNok]] } chars
        | (chars, .notify) =>
          controlLoop ctrl fuel { s with retry := short (s.retry + 1), sent := s.sent ++ [[shutNok]] } chars
        | (chars, .nack) => controlLoop ctrl fuel s chars
    else some (s, chars, none)

/-- The request that is built. -/
def controlRequest (requestType request : UInt8) (value index : UInt16) (bytes : Bytes) : CtrlTransfer :=
  ⟨requestType, request, value, index, UInt16.ofNat bytes.length, bytes⟩

/-- The variables before the loop. -/
def controlStart (pkt : Bytes) (ctrl : CtrlTransfer) : ControlMsg where
  retry := 1
  setPass := if ctrl.isSet then 1 else -1
  remainingSize := if ctrl.isSet then short (short ctrl.data.length + 8) else short ctrl.data.length
  shutPkt := pkt
  sent := []

/-- The buffers that are sent before the answer is awaited, and what the function returns. -/
structure ControlResult where
  sent : List Bytes
  ret : Int
  deriving DecidableEq

/-- `pkt`, `frame` and `chk` are what is in these variables at first.  A round takes a character or, when none is left, a
try.  Where the loop returns -1 it has called `shut_synchronise`. -/
def shutControlMsg (pkt frame : Bytes) (chk requestType request : UInt8) (value index : UInt16) (bytes : Bytes)
    (chars : Chars) : Option ControlResult :=
  let ctrl := controlRequest requestType request value index bytes
  match controlLoop ctrl (chars.length + 5) (controlStart pkt ctrl) chars with
  | none => none
  | some (s, _, some ret) => some ⟨s.sent, ret⟩
  | some (s, chars, none) =>
    if s.remainingSize ≠ 0 then some ⟨s.sent, -1⟩
    else if ctrl.isSet then some ⟨s.sent, 0⟩
    else some ⟨s.sent, (shutPacketRecv frame chk bytes.length chars).2⟩

end Shut

end Nut
