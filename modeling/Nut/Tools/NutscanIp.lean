import Nut.Lib.Ranges
import Nut.Common.Numbers
import Nut.Common.Tokens

/-!
# `nutscan-ip.c`: the addresses of a network scan

The range of a prefix and the walk through a range, for both families of addresses.  `getaddrinfo` and `getnameinfo` are
parameters.  `unsigned long` has 64 bits.  There is no result where C defines none.
-/

namespace Nut

open Ranges

namespace NutscanIp

/-- `struct in_addr`, in network byte order. -/
structure InAddr where
  sAddr : UInt32

/-- `struct in6_addr`. -/
structure In6Addr where
  s6Addr : List UInt8
  length_eq : s6Addr.length = 16

/-- The host, with its byte order, and the conversions of numeric addresses. -/
structure Host where
  littleEndian : Bool
  /-- `getaddrinfo` for `AF_INET`. -/
  getaddrinfo : CStr → Option InAddr
  /-- `getaddrinfo` for `AF_INET6`. -/
  getaddrinfo6 : CStr → Option In6Addr
  ntop : InAddr → Option CStr
  ntop6 : In6Addr → Option CStr

def swapBytes (x : UInt32) : UInt32 :=
  (x <<< 24) ||| ((x &&& (0xff00 : UInt32)) <<< 8) ||| ((x >>> 8) &&& (0xff00 : UInt32)) ||| (x >>> 24)

def Host.ntohl (host : Host) (x : UInt32) : UInt32 := if host.littleEndian then swapBytes x else x

def Host.htonl (host : Host) (x : UInt32) : UInt32 := if host.littleEndian then swapBytes x else x

/-- The loop of `increment_IPv6`, for the bytes below the index `i`. -/
def incrementLoop : Nat → List UInt8 → List UInt8
  | 0, addr => addr
  | i + 1, addr =>
    let addr := addr.modify i (· + 1)
    if addr[i]? ≠ some 0 then addr else incrementLoop i addr

theorem length_incrementLoop (i : Nat) (addr : List UInt8) : (incrementLoop i addr).length = addr.length := by
  induction i generalizing addr with
  | zero => rfl
  | succ i ih =>
    rw [incrementLoop]
    split
    · exact List.length_modify ..
    · rw [ih, List.length_modify]

def incrementIPv6 (addr : In6Addr) : In6Addr :=
  ⟨incrementLoop 16 addr.s6Addr, by rw [length_incrementLoop, addr.length_eq]⟩

/-- `nutscan_ip_iter_t` -/
inductive Iter
  | ipv4 (start stop : InAddr)
  | ipv6 (start6 stop6 : In6Addr)

/-- The first bytes that differ are in descending order. -/
def startGreater : List UInt8 → List UInt8 → Bool
  | a :: as, b :: bs => if a ≠ b then b < a else startGreater as bs
  | _, _ => false

/-- `nutscan_ip_iter_init` -/
def iterInit (host : Host) (startIP stopIP : Option CStr) : Option (Iter × CStr) := do
  let startIP ← startIP
  let stopIP := stopIP.getD startIP
  match host.getaddrinfo startIP with
  | none =>
    let start6 ← host.getaddrinfo6 startIP
    let stop6 ← host.getaddrinfo6 stopIP
    let (start6, stop6) := if startGreater start6.s6Addr stop6.s6Addr then (stop6, start6) else (start6, stop6)
    return (.ipv6 start6 stop6, ← host.ntop6 start6)
  | some start =>
    let stop ← host.getaddrinfo stopIP
    let (start, stop) := if host.ntohl stop.sAddr < host.ntohl start.sAddr then (stop, start) else (start, stop)
    return (.ipv4 start stop, ← host.ntop start)

/-- `nutscan_ip_iter_inc` -/
def iterInc (host : Host) : Iter → Iter × Option CStr
  | .ipv4 start stop =>
    if start.sAddr = stop.sAddr then (.ipv4 start stop, none)
    else
      let start := ⟨host.htonl (host.ntohl start.sAddr + 1)⟩
      (.ipv4 start stop, host.ntop start)
  | .ipv6 start6 stop6 =>
    if start6.s6Addr = stop6.s6Addr then (.ipv6 start6 stop6, none)
    else
      let start6 := incrementIPv6 start6
      (.ipv6 start6 stop6, host.ntop6 start6)

/-- The mask of the bits behind a prefix of an IPv4 address. -/
def maskBit4 (maskVal : Int) : Option UInt64 :=
  if 0 < maskVal then
    if maskVal - 1 < 64 then some ((0x80000000 >>> UInt64.ofNat (maskVal - 1).toNat) - 1) else none
  else some 0xffffffff

/-- The first and the last address of an IPv4 network. -/
def range4 (host : Host) (start : InAddr) (maskVal : Int) : Option (InAddr × InAddr) := do
  let maskBit ← maskBit4 maskVal
  let stop := host.htonl ((host.ntohl start.sAddr).toUInt64 ||| maskBit).toUInt32
  let start := host.htonl ((host.ntohl start.sAddr).toUInt64 &&& ~~~maskBit).toUInt32
  return (⟨start⟩, ⟨stop⟩)

def memset (bytes : List UInt8) (i : Nat) (c : UInt8) (n : Nat) : List UInt8 :=
  bytes.take i ++ List.replicate n c ++ bytes.drop (i + n)

/-- The mask of the bits behind a prefix in its last byte. -/
def maskBit6 (maskVal : Nat) : UInt64 := (0x100 >>> UInt64.ofNat (maskVal % 8)) - 1

/-- The byte that the prefix ends in, with the bytes behind it. -/
def cutBytes (bytes : List UInt8) (maskByte : Nat) (c : UInt8) (f : UInt8 → UInt8) : List UInt8 :=
  (memset bytes (maskByte + 1) c (15 - maskByte)).modify maskByte f

theorem length_cutBytes {bytes : List UInt8} {maskByte : Nat} (h : bytes.length = 16) (hm : maskByte < 16) (c : UInt8)
    (f : UInt8 → UInt8) : (cutBytes bytes maskByte c f).length = 16 := by
  simp only [cutBytes, memset, List.length_modify, List.length_append, List.length_take, List.length_replicate,
    List.length_drop, h]
  omega

/-- The first and the last address of an IPv6 network. -/
def range6 (addr : In6Addr) (maskVal : Int) : Option (In6Addr × In6Addr) :=
  if maskVal < 0 then none
  else
    let maskByte := maskVal.toNat / 8
    let maskBit := maskBit6 maskVal.toNat
    if h : maskByte < 16 then
      some (⟨cutBytes addr.s6Addr maskByte 0x00 (· &&& (~~~maskBit).toUInt8), length_cutBytes addr.length_eq h _ _⟩,
        ⟨cutBytes addr.s6Addr maskByte 0xFF (· ||| maskBit.toUInt8), length_cutBytes addr.length_eq h _ _⟩)
    else some (addr, addr)

/-- The texts of two addresses. -/
def texts {α : Type} (ntop : α → Option CStr) (range : α × α) : Option (CStr × CStr) := do
  let startIP ← ntop range.1
  let stopIP ← ntop range.2
  return (startIP, stopIP)

/-- What `nutscan_cidr_to_ip` does from the value of the mask on; the inner `none` is its result 0. -/
def addressRange (host : Host) (firstIp : CStr) (maskVal : Int) : Option (Option (CStr × CStr)) :=
  match host.getaddrinfo firstIp with
  | some start => (range4 host start maskVal).map (texts host.ntop)
  | none =>
    match host.getaddrinfo6 firstIp with
    | none => some none
    | some start6 => (range6 start6 maskVal).map (texts host.ntop6)

/-- A block of the heap, with the text in it until it is freed. -/
inductive Block
  | live (text : CStr)
  | freed

def Block.free (_ : Block) : Block := .freed

/-- The text that a pointer into the block leads to. -/
def Block.read : Block → Option CStr
  | .live text => some text
  | .freed => none

/-- `nutscan_cidr_to_ip` -/
def nutscanCidrToIp (host : Host) (cidr : CStr) : Option (Option (CStr × CStr)) :=
  match strtok "/".toList cidr with
  | (none, _) => none
  | (some firstIp, saveptr) =>
    match strtok "/".toList saveptr with
    | (none, _) => some none
    | (some mask, _) => do
      -- `mask` points into the copy of `cidr`, which is freed before `atoi` reads it
      let cidrTok := (Block.live mask).free
      let mask ← cidrTok.read
      addressRange host firstIp (atoi mask).toInt

section Words

theorem swapBytes_swapBytes (x : UInt32) : swapBytes (swapBytes x) = x := by
  refine UInt32.toBitVec_inj.1 (BitVec.eq_of_getLsbD_eq fun i hi => ?_)
  interval_cases i <;> simp [swapBytes]

theorem Host.htonl_ntohl (host : Host) (x : UInt32) : host.htonl (host.ntohl x) = x := by
  unfold Host.htonl Host.ntohl
  split
  · exact swapBytes_swapBytes x
  · rfl

theorem Host.ntohl_htonl (host : Host) (x : UInt32) : host.ntohl (host.htonl x) = x := host.htonl_ntohl x

theorem maskBit4_eq {m : Nat} (hm : m ≤ 32) : ∃ mask, maskBit4 m = some mask ∧ mask.toNat = 2 ^ (32 - m) - 1 := by
  interval_cases m <;> exact ⟨_, rfl, by decide⟩

theorem maskBit6_eq (m : Nat) :
    (maskBit6 m).toUInt8.toNat = 2 ^ (8 - m % 8) - 1 ∧ (~~~maskBit6 m).toUInt8.toNat = 2 ^ 8 - 2 ^ (8 - m % 8) := by
  have hr : m % 8 < 8 := Nat.mod_lt m (by omega)
  unfold maskBit6
  generalize m % 8 = r at hr
  interval_cases r <;> exact ⟨by decide, by decide⟩

end Words

/-! ### The addresses of a family -/

inductive Address
  | ipv4 (a : InAddr)
  | ipv6 (a : In6Addr)

/-- The length of the addresses of the family. -/
def Address.bits : Address → Nat
  | .ipv4 _ => 32
  | .ipv6 _ => 128

def Host.value4 (host : Host) (a : InAddr) : Nat := (host.ntohl a.sAddr).toNat

def In6Addr.value (a : In6Addr) : Nat := Ranges.value a.s6Addr

def Address.value (host : Host) : Address → Nat
  | .ipv4 a => host.value4 a
  | .ipv6 a => a.value

section Values

variable {host : Host}

theorem value4_injective {a b : InAddr} (h : host.value4 a = host.value4 b) : a = b := by
  have hword : host.ntohl a.sAddr = host.ntohl b.sAddr := UInt32.toNat_inj.1 h
  have haddr := congrArg host.htonl hword
  rw [host.htonl_ntohl, host.htonl_ntohl] at haddr
  cases a
  cases b
  exact congrArg InAddr.mk haddr

theorem value6_injective {a b : In6Addr} (h : a.value = b.value) : a = b := by
  have hbytes := value_injective (a.length_eq.trans b.length_eq.symm) h
  cases a
  cases b
  cases hbytes
  rfl

theorem value4_htonl (x : UInt32) : host.value4 ⟨host.htonl x⟩ = x.toNat := by rw [Host.value4, host.ntohl_htonl]

/-- The range of an IPv4 network. -/
theorem range4_spec (a : InAddr) {m : Nat} (hm : m ≤ 32) :
    ∃ lo hi, range4 host a m = some (lo, hi) ∧ host.value4 lo = low (32 - m) (host.value4 a) ∧
      host.value4 hi = high (32 - m) (host.value4 a) := by
  obtain ⟨mask, hmask, hnat⟩ := maskBit4_eq hm
  have hv : host.value4 a < 2 ^ 32 := (host.ntohl a.sAddr).toNat_lt
  have hk : 2 ^ (32 - m) ≤ 2 ^ 32 := Nat.pow_le_pow_right (by omega) (by omega)
  have hpos := Nat.two_pow_pos (32 - m)
  refine ⟨_, _, by rw [range4, hmask]; rfl, ?_, ?_⟩
  · have hnot : (~~~mask).toNat = 2 ^ 64 - 2 ^ (32 - m) := by
      rw [UInt64.toNat_not, hnat]
      change 2 ^ 64 - 1 - _ = _
      omega
    have hlow : low (32 - m) (host.value4 a) < 2 ^ 32 := (Nat.mul_div_le _ _).trans_lt hv
    have hand : host.value4 a &&& (2 ^ 64 - 2 ^ (32 - m)) = low (32 - m) (host.value4 a) :=
      and_mask (by omega) (hv.trans (by decide))
    rw [value4_htonl, UInt64.toNat_toUInt32, UInt64.toNat_and, hnot, UInt32.toNat_toUInt64]
    change (host.value4 a &&& _) % _ = _
    rw [hand]
    exact Nat.mod_eq_of_lt hlow
  · have hhigh : high (32 - m) (host.value4 a) < 2 ^ 32 := by
      rw [← or_mask]
      exact Nat.or_lt_two_pow hv (by omega)
    rw [value4_htonl, UInt64.toNat_toUInt32, UInt64.toNat_or, hnat, UInt32.toNat_toUInt64, or_mask]
    exact Nat.mod_eq_of_lt hhigh

theorem modify_append_cons (pre : List UInt8) (b : UInt8) (suf : List UInt8) (f : UInt8 → UInt8) :
    (pre ++ b :: suf).modify pre.length f = pre ++ f b :: suf := by
  induction pre with
  | nil => rfl
  | cons c pre ih => rw [List.cons_append, List.length_cons, List.modify_succ_cons, ih, List.cons_append]

theorem cutBytes_append (pre : List UInt8) (b : UInt8) (suf : List UInt8) (h : pre.length + suf.length = 15) (c : UInt8)
    (f : UInt8 → UInt8) : cutBytes (pre ++ b :: suf) pre.length c f = pre ++ f b :: List.replicate suf.length c := by
  have hset : memset (pre ++ b :: suf) (pre.length + 1) c (15 - pre.length) = pre ++ b :: List.replicate suf.length c := by
    have htake : (pre ++ b :: suf).take (pre.length + 1) = pre ++ [b] := by simp [List.take_append]
    have hdrop : (pre ++ b :: suf).drop (pre.length + 1 + (15 - pre.length)) = [] := by
      refine List.drop_eq_nil_of_le ?_
      simp only [List.length_append, List.length_cons]
      omega
    rw [memset, htake, hdrop, show 15 - pre.length = suf.length by omega, List.append_nil]
    simp
  rw [cutBytes, hset, modify_append_cons]

/-- The range of an IPv6 network. -/
theorem range6_spec (a : In6Addr) {m : Nat} (hm : m ≤ 128) :
    ∃ lo hi, range6 a m = some (lo, hi) ∧ lo.value = low (128 - m) a.value ∧ hi.value = high (128 - m) a.value := by
  obtain ⟨bytes, hlen⟩ := a
  by_cases hbyte : m / 8 < 16
  · have hlt : m / 8 < bytes.length := by omega
    -- the byte in which the prefix ends, and those before and behind it
    have hcut := List.take_append_drop (m / 8) bytes
    rw [List.drop_eq_getElem_cons hlt] at hcut
    generalize hpre : bytes.take (m / 8) = pre at hcut
    generalize bytes[m / 8] = b at hcut
    generalize hsuf : bytes.drop (m / 8 + 1) = suf at hcut
    have hprelen : pre.length = m / 8 := by
      rw [← hpre, List.length_take]
      omega
    have hsuflen : suf.length = 15 - m / 8 := by
      rw [← hsuf, List.length_drop]
      omega
    obtain ⟨hor, hand⟩ := maskBit6_eq m
    have hbits : 128 - m = 8 * suf.length + (8 - m % 8) := by omega
    have hb : b.toNat < 2 ^ 8 := b.toNat_lt
    have hbytes : ∀ c f, cutBytes bytes (m / 8) c f = pre ++ f b :: List.replicate suf.length c := fun c f => by
      rw [← hcut, ← hprelen]
      exact cutBytes_append pre b suf (by omega) c f
    have hval : In6Addr.value ⟨bytes, hlen⟩ = Ranges.value (pre ++ b :: suf) := by rw [hcut, In6Addr.value]
    refine ⟨⟨cutBytes bytes (m / 8) 0x00 (· &&& (~~~maskBit6 m).toUInt8), length_cutBytes hlen hbyte _ _⟩,
      ⟨cutBytes bytes (m / 8) 0xFF (· ||| (maskBit6 m).toUInt8), length_cutBytes hlen hbyte _ _⟩, ?_, ?_, ?_⟩
    · exact (if_neg (by omega)).trans (dif_pos (show (m : Int).toNat / 8 < 16 from hbyte))
    · change Ranges.value (cutBytes bytes (m / 8) 0x00 _) = _
      rw [hval, hbits, low_value _ _ _ (by omega), hbytes, value_append, value_cons, value_replicate_zero,
        UInt8.toNat_and, hand, and_mask (by omega) hb, List.length_cons, List.length_replicate]
      exact Nat.add_zero _
    · have hmax := value_replicate_max suf.length
      change Ranges.value (cutBytes bytes (m / 8) 0xFF _) = _
      rw [hval, hbits, high_value _ _ _ (by omega), hbytes, value_append, value_cons, UInt8.toNat_or, hor,
        or_mask, List.length_cons, List.length_replicate]
      omega
  · have hm' : m = 128 := by omega
    subst hm'
    exact ⟨⟨bytes, hlen⟩, ⟨bytes, hlen⟩, rfl, by simp [low], by simp [high]⟩

end Values

/-! ### The walk -/

section Walks

/-- The loop adds one to the number of the bytes below its index. -/
theorem incrementLoop_append (pre suf : List UInt8) :
    ∃ pre', incrementLoop pre.length (pre ++ suf) = pre' ++ suf ∧ pre'.length = pre.length ∧
      Ranges.value pre' = (Ranges.value pre + 1) % 256 ^ pre.length := by
  induction pre using List.reverseRecOn generalizing suf with
  | nil => exact ⟨[], rfl, rfl, rfl⟩
  | append_singleton pre b ih =>
    have hmodify := modify_append_cons pre b suf (· + 1)
    have hread : (pre ++ (b + 1) :: suf)[pre.length]? = some (b + 1) := by simp
    have hassoc : pre ++ [b] ++ suf = pre ++ b :: suf := by simp
    have hnat : (b + 1).toNat = (b.toNat + 1) % 256 := UInt8.toNat_add b 1
    have hb := b.toNat_lt
    have hlt := value_lt pre
    have hlen : (pre ++ [b]).length = pre.length + 1 := by simp
    rw [hassoc, hlen, incrementLoop]
    simp only [hmodify, hread, value_concat]
    -- a byte that turns over carries into the one before it
    by_cases hcarry : b + 1 = 0
    · obtain ⟨pre', hloop, hlength, hvalue⟩ := ih ((b + 1) :: suf)
      have hzero : (b + 1).toNat = 0 := by rw [hcarry]; rfl
      refine ⟨pre' ++ [b + 1], ?_, by simp [hlength], ?_⟩
      · rw [if_neg (by simp [hcarry]), hloop, List.append_assoc, List.singleton_append]
      · have hsum : Ranges.value pre * 256 + b.toNat + 1 = (Ranges.value pre + 1) * 256 := by omega
        rw [value_concat, hvalue, hzero, hsum, Nat.pow_succ, Nat.mul_mod_mul_right, Nat.add_zero]
    · have hne : (b + 1).toNat ≠ 0 := fun h => hcarry (UInt8.toNat_inj.1 h)
      refine ⟨pre ++ [b + 1], ?_, by simp, ?_⟩
      · rw [if_pos (by simpa using hcarry), List.append_assoc, List.singleton_append]
      · rw [value_concat, Nat.pow_succ, Nat.mod_eq_of_lt (by omega)]
        omega

theorem value_incrementIPv6 (a : In6Addr) : (incrementIPv6 a).value = (a.value + 1) % 2 ^ 128 := by
  obtain ⟨bytes, hlen⟩ := a
  obtain ⟨bytes', hloop, -, hvalue⟩ := incrementLoop_append bytes []
  rw [hlen, List.append_nil, List.append_nil] at hloop
  change Ranges.value (incrementLoop 16 bytes) = (Ranges.value bytes + 1) % 2 ^ 128
  rw [hloop, hvalue, hlen, show 256 ^ 16 = 2 ^ 128 by norm_num]

/-- Bytes are in descending order where their numbers are. -/
theorem startGreater_iff {as bs : List UInt8} (h : as.length = bs.length) :
    startGreater as bs = true ↔ Ranges.value bs < Ranges.value as := by
  induction as generalizing bs with
  | nil =>
    obtain rfl := List.length_eq_zero_iff.1 h.symm
    simp [startGreater]
  | cons a as ih =>
    obtain ⟨b, bs, rfl⟩ := List.exists_cons_of_length_eq_add_one h.symm
    have hlen : as.length = bs.length := Nat.succ_injective h
    have ha := value_lt as
    have hb := value_lt bs
    rw [hlen] at ha
    rw [startGreater, value_cons, value_cons, hlen]
    -- the first bytes that differ decide
    by_cases hne : a = b
    · rw [if_neg (not_not.2 hne), ih hlen, hne]
      omega
    · rw [if_pos hne, decide_eq_true_eq, UInt8.lt_iff_toNat_lt]
      have hnat : a.toNat ≠ b.toNat := fun h => hne (UInt8.toNat_inj.1 h)
      constructor
      · intro hlt
        have := Nat.mul_le_mul_right (256 ^ bs.length) (show b.toNat + 1 ≤ a.toNat from hlt)
        rw [Nat.succ_mul] at this
        omega
      · intro hlt
        by_contra hge
        have := Nat.mul_le_mul_right (256 ^ bs.length) (show a.toNat + 1 ≤ b.toNat by omega)
        rw [Nat.succ_mul] at this
        omega

/-- The address after `a`, where the walk to `stop` is not over. -/
def next4 (host : Host) (stop a : InAddr) : Option InAddr :=
  if a.sAddr = stop.sAddr then none else some ⟨host.htonl (host.ntohl a.sAddr + 1)⟩

def next6 (stop a : In6Addr) : Option In6Addr := if a.s6Addr = stop.s6Addr then none else some (incrementIPv6 a)

/-- The texts that `nutscan_ip_iter_inc` gives, up to its first `NULL`. -/
inductive Scan (host : Host) : Iter → List CStr → Prop
  | done {it it' : Iter} : iterInc host it = (it', none) → Scan host it []
  | next {it it' : Iter} {t : CStr} {ts : List CStr} : iterInc host it = (it', some t) → Scan host it' ts →
      Scan host it (t :: ts)

/-- A walk through the addresses of a family gives their texts. -/
theorem scan_of_walk {host : Host} {α : Type} {step : α → Option α} {ntop : α → Option CStr} {iter : α → Iter}
    (hntop : ∀ a, ∃ t, ntop a = some t) (hinc : ∀ a b, step a = some b → iterInc host (iter a) = (iter b, ntop b))
    (hend : ∀ a, step a = none → iterInc host (iter a) = (iter a, none)) {a : α} {l : List α} (h : Walk step a l) :
    ∃ first rest, ntop a = some first ∧ Scan host (iter a) rest ∧
      List.Forall₂ (fun t c => ntop c = some t) (first :: rest) l := by
  induction h with
  | @last a hstep =>
    obtain ⟨t, ht⟩ := hntop a
    exact ⟨t, [], ht, .done (hend a hstep), .cons ht .nil⟩
  | @next a b l hstep _ ih =>
    obtain ⟨t, ht⟩ := hntop a
    obtain ⟨first, rest, hfirst, hscan, htexts⟩ := ih
    exact ⟨t, first :: rest, ht, .next ((hinc a b hstep).trans (by rw [hfirst])) hscan, .cons ht htexts⟩

end Walks

/-! ### The two families as one -/

/-- The address that a text is, where IPv4 is tried first. -/
def Host.address (host : Host) (t : CStr) : Option Address :=
  match host.getaddrinfo t with
  | some a => some (.ipv4 a)
  | none => (host.getaddrinfo6 t).map .ipv6

/-- The host writes every address as a text that it reads as this address, and no IPv6 address as one of IPv4. -/
structure Host.Faithful (host : Host) : Prop where
  ntop : ∀ a, ∃ t, host.ntop a = some t ∧ host.getaddrinfo t = some a
  ntop6 : ∀ a, ∃ t, host.ntop6 a = some t ∧ host.getaddrinfo t = none ∧ host.getaddrinfo6 t = some a

/-- Two addresses of a family agree in their first `m` bits. -/
def Address.Prefix (host : Host) (m : Nat) (a b : Address) : Prop :=
  b.bits = a.bits ∧ SharesPrefix a.bits m (a.value host) (b.value host)

/-- The texts are the lowest and the highest address with the first `m` bits of `a`. -/
def Host.PrefixRange (host : Host) (m : Nat) (a : Address) (startIP stopIP : CStr) : Prop :=
  ∃ lo hi, host.address startIP = some lo ∧ host.address stopIP = some hi ∧ a.Prefix host m lo ∧ a.Prefix host m hi ∧
    ∀ b, a.Prefix host m b → lo.value host ≤ b.value host ∧ b.value host ≤ hi.value host

/-- The texts are the addresses between two, each once and in ascending order. -/
def Host.AllBetween (host : Host) (a b : Address) (texts : List CStr) : Prop :=
  ∃ l : List Address, List.Forall₂ (fun t c => host.address t = some c) texts l ∧
    l.Pairwise (fun c d => c.value host < d.value host) ∧
    ∀ c, c ∈ l ↔ c.bits = a.bits ∧ min (a.value host) (b.value host) ≤ c.value host ∧
      c.value host ≤ max (a.value host) (b.value host)

section Families

variable {host : Host}

theorem address_ipv4 {t : CStr} {a : InAddr} : host.address t = some (.ipv4 a) ↔ host.getaddrinfo t = some a := by
  unfold Host.address
  cases host.getaddrinfo t with
  | none => cases host.getaddrinfo6 t <;> simp
  | some b => simp

theorem address_ipv6 {t : CStr} {a : In6Addr} :
    host.address t = some (.ipv6 a) ↔ host.getaddrinfo t = none ∧ host.getaddrinfo6 t = some a := by
  unfold Host.address
  cases host.getaddrinfo t with
  | none => simp
  | some b => simp

theorem ipv4_of_bits {c : Address} (h : c.bits = 32) : ∃ a, c = .ipv4 a := by
  cases c with
  | ipv4 a => exact ⟨a, rfl⟩
  | ipv6 a => exact absurd h (show ¬ 128 = 32 by decide)

theorem ipv6_of_bits {c : Address} (h : c.bits = 128) : ∃ a, c = .ipv6 a := by
  cases c with
  | ipv4 a => exact absurd h (show ¬ 32 = 128 by decide)
  | ipv6 a => exact ⟨a, rfl⟩

/-- Bounds of a range in numbers are its bounds in addresses. -/
theorem prefixRange_of_value {m : Nat} {a lo hi : Address} {startIP stopIP : CStr} (hlo : host.address startIP = some lo)
    (hhi : host.address stopIP = some hi) (hlobits : lo.bits = a.bits) (hhibits : hi.bits = a.bits)
    (hlow : lo.value host = low (a.bits - m) (a.value host)) (hhigh : hi.value host = high (a.bits - m) (a.value host)) :
    host.PrefixRange m a startIP stopIP := by
  have hleast := @isLeast_low a.bits m (a.value host)
  have hgreatest := @isGreatest_high a.bits m (a.value host)
  rw [← hlow] at hleast
  rw [← hhigh] at hgreatest
  exact ⟨lo, hi, hlo, hhi, ⟨hlobits, hleast.1⟩, ⟨hhibits, hgreatest.1⟩, fun b hb => ⟨hleast.2 hb.2, hgreatest.2 hb.2⟩⟩

/-- The addresses of a walk in one family, as addresses. -/
theorem allBetween_of_walk {α : Type} {wrap : α → Address} {val : α → Nat} {ntop : α → Option CStr} {a b : Address}
    {texts : List CStr} {l : List α} {lo hi : Nat} (hval : ∀ c, (wrap c).value host = val c)
    (hbits : ∀ c, (wrap c).bits = a.bits) (hwrap : ∀ c : Address, c.bits = a.bits → ∃ d, c = wrap d)
    (hntop : ∀ c t, ntop c = some t → host.address t = some (wrap c))
    (htexts : List.Forall₂ (fun t c => ntop c = some t) texts l) (hsorted : l.Pairwise (val · < val ·))
    (hmem : ∀ c, c ∈ l ↔ lo ≤ val c ∧ val c ≤ hi) (hlo : lo = min (a.value host) (b.value host))
    (hhi : hi = max (a.value host) (b.value host)) : host.AllBetween a b texts := by
  refine ⟨l.map wrap, ?_, ?_, fun c => ?_⟩
  · rw [List.forall₂_map_right_iff]
    exact htexts.imp fun t c h => hntop c t h
  · rw [List.pairwise_map]
    exact hsorted.imp fun h => by rwa [hval, hval]
  · rw [← hlo, ← hhi, List.mem_map]
    constructor
    · rintro ⟨d, hd, rfl⟩
      exact ⟨hbits d, by rw [hval]; exact (hmem d).1 hd⟩
    · rintro ⟨hc, hbounds⟩
      obtain ⟨d, rfl⟩ := hwrap c hc
      exact ⟨d, (hmem d).2 (by rwa [hval] at hbounds), rfl⟩

theorem Host.Faithful.address_ntop (hf : host.Faithful) {c : InAddr} {t : CStr} (h : host.ntop c = some t) :
    host.address t = some (.ipv4 c) := by
  obtain ⟨t', ht, hread⟩ := hf.ntop c
  rw [← Option.some.inj (ht.symm.trans h)]
  exact address_ipv4.2 hread

theorem Host.Faithful.address_ntop6 (hf : host.Faithful) {c : In6Addr} {t : CStr} (h : host.ntop6 c = some t) :
    host.address t = some (.ipv6 c) := by
  obtain ⟨t', ht, hread⟩ := hf.ntop6 c
  rw [← Option.some.inj (ht.symm.trans h)]
  exact address_ipv6.2 hread

/-- The walk from one IPv4 address up to another. -/
theorem scan4 (hf : host.Faithful) {start stop : InAddr} (hle : host.value4 start ≤ host.value4 stop) :
    ∃ first rest l, host.ntop start = some first ∧ Scan host (.ipv4 start stop) rest ∧
      List.Forall₂ (fun t c => host.ntop c = some t) (first :: rest) l ∧ l.Pairwise (host.value4 · < host.value4 ·) ∧
      ∀ c, c ∈ l ↔ host.value4 start ≤ host.value4 c ∧ host.value4 c ≤ host.value4 stop := by
  have hstep : ∀ a, a ≠ stop → ∃ b, next4 host stop a = some b ∧
      (host.value4 a < host.value4 stop → host.value4 b = host.value4 a + 1) := by
    intro a ha
    refine ⟨_, if_neg fun h => ha ?_, fun hlt => ?_⟩
    · cases a
      cases stop
      exact congrArg InAddr.mk h
    · have hmax : host.value4 stop < 2 ^ 32 := (host.ntohl stop.sAddr).toNat_lt
      rw [value4_htonl, UInt32.toNat_add]
      exact Nat.mod_eq_of_lt (by change host.value4 a + 1 < 2 ^ 32; omega)
  obtain ⟨l, hwalk, hsorted, hmem⟩ := exists_walk (fun a b h => value4_injective h) (if_pos rfl) hstep hle
  obtain ⟨first, rest, hfirst, hscan, htexts⟩ := @scan_of_walk host InAddr (next4 host stop) host.ntop (.ipv4 · stop)
    (fun a => (hf.ntop a).imp fun t h => h.1)
    (fun a b h => by
      unfold next4 at h
      split at h
      · cases h
      · rename_i hne
        rw [← Option.some.inj h]
        exact if_neg hne)
    (fun a h => by
      unfold next4 at h
      split at h
      · rename_i heq
        exact if_pos heq
      · cases h) start l hwalk
  exact ⟨first, rest, l, hfirst, hscan, htexts, hsorted, hmem⟩

theorem scan6 (hf : host.Faithful) {start stop : In6Addr} (hle : start.value ≤ stop.value) :
    ∃ first rest l, host.ntop6 start = some first ∧ Scan host (.ipv6 start stop) rest ∧
      List.Forall₂ (fun t c => host.ntop6 c = some t) (first :: rest) l ∧
      l.Pairwise (In6Addr.value · < In6Addr.value ·) ∧ ∀ c, c ∈ l ↔ start.value ≤ c.value ∧ c.value ≤ stop.value := by
  have hstep : ∀ a, a ≠ stop → ∃ b, next6 stop a = some b ∧ (a.value < stop.value → b.value = a.value + 1) := by
    intro a ha
    refine ⟨_, if_neg fun h => ha ?_, fun hlt => ?_⟩
    · cases a
      cases stop
      cases h
      rfl
    · have hmax : stop.value < 2 ^ 128 := by
        have := value_lt stop.s6Addr
        rw [stop.length_eq] at this
        exact this.trans_eq (by norm_num)
      rw [value_incrementIPv6]
      exact Nat.mod_eq_of_lt (by omega)
  obtain ⟨l, hwalk, hsorted, hmem⟩ := exists_walk (fun a b h => value6_injective h) (if_pos rfl) hstep hle
  obtain ⟨first, rest, hfirst, hscan, htexts⟩ := @scan_of_walk host In6Addr (next6 stop) host.ntop6 (.ipv6 · stop)
    (fun a => (hf.ntop6 a).imp fun t h => h.1)
    (fun a b h => by
      unfold next6 at h
      split at h
      · cases h
      · rename_i hne
        rw [← Option.some.inj h]
        exact if_neg hne)
    (fun a h => by
      unfold next6 at h
      split at h
      · rename_i heq
        exact if_pos heq
      · cases h) start l hwalk
  exact ⟨first, rest, l, hfirst, hscan, htexts, hsorted, hmem⟩

/-- A mask behind a slash is only read where it is gone. -/
theorem nutscanCidrToIp_slash {firstIp mask : CStr} (hip : firstIp ≠ []) (hip' : '/' ∉ firstIp) (hmask : mask ≠ [])
    (hmask' : '/' ∉ mask) : nutscanCidrToIp host (firstIp ++ '/' :: mask) = none := by
  have hword : ∀ {w : CStr}, '/' ∉ w → ∀ c ∈ w, c ∉ "/".toList := by
    intro w hw c hc hmem
    rw [List.mem_singleton.1 hmem] at hc
    exact hw hc
  have hfirst : strtok "/".toList (firstIp ++ '/' :: mask) = (some firstIp, mask) :=
    strtok_append hip (hword hip') (by decide)
  unfold nutscanCidrToIp
  rw [hfirst]
  dsimp only
  rw [strtok_last hmask (hword hmask')]
  rfl

/-- From the value of the mask on, a network is given as the range of its prefix. -/
theorem addressRange_prefixRange (hf : host.Faithful) {firstIp : CStr} {a : Address} {m : Nat}
    (ha : host.address firstIp = some a) (hbits : m ≤ a.bits) :
    ∃ startIP stopIP, addressRange host firstIp m = some (some (startIP, stopIP)) ∧
      host.PrefixRange m a startIP stopIP := by
  cases a with
  | ipv4 a =>
    obtain ⟨lo, hi, hrange, hlow, hhigh⟩ := @range4_spec host a m hbits
    obtain ⟨s, hs, -⟩ := hf.ntop lo
    obtain ⟨e, he, -⟩ := hf.ntop hi
    refine ⟨s, e, ?_, prefixRange_of_value (hf.address_ntop hs) (hf.address_ntop he) rfl rfl hlow hhigh⟩
    rw [addressRange, address_ipv4.1 ha]
    simp [hrange, texts, hs, he]
  | ipv6 a =>
    obtain ⟨lo, hi, hrange, hlow, hhigh⟩ := range6_spec a hbits
    obtain ⟨s, hs, -⟩ := hf.ntop6 lo
    obtain ⟨e, he, -⟩ := hf.ntop6 hi
    refine ⟨s, e, ?_, prefixRange_of_value (hf.address_ntop6 hs) (hf.address_ntop6 he) rfl rfl hlow hhigh⟩
    rw [addressRange, (address_ipv6.1 ha).1, (address_ipv6.1 ha).2]
    simp [hrange, texts, hs, he]

/-- A walk from one address to another gives all between. -/
theorem iter_allBetween (hf : host.Faithful) {startIP stopIP : CStr} {a b : Address} (ha : host.address startIP = some a)
    (hb : host.address stopIP = some b) (hbits : a.bits = b.bits) :
    ∃ it first rest, iterInit host (some startIP) (some stopIP) = some (it, first) ∧ Scan host it rest ∧
      host.AllBetween a b (first :: rest) := by
  cases a with
  | ipv4 a =>
    obtain ⟨b, rfl⟩ := ipv4_of_bits hbits.symm
    have hwalk : ∀ lo hi : InAddr, host.value4 lo = min (host.value4 a) (host.value4 b) →
        host.value4 hi = max (host.value4 a) (host.value4 b) → ∃ first rest, host.ntop lo = some first ∧
          Scan host (.ipv4 lo hi) rest ∧ host.AllBetween (.ipv4 a) (.ipv4 b) (first :: rest) := by
      intro lo hi hlo hhi
      obtain ⟨first, rest, l, hfirst, hscan, htexts, hsorted, hmem⟩ := @scan4 host hf lo hi (by omega)
      have hall := @allBetween_of_walk host InAddr .ipv4 host.value4 host.ntop (.ipv4 a) (.ipv4 b) (first :: rest) l
        (host.value4 lo) (host.value4 hi) (fun _ => rfl) (fun _ => rfl) (fun _ => ipv4_of_bits)
        (fun _ _ => hf.address_ntop) htexts hsorted hmem hlo hhi
      exact ⟨first, rest, hfirst, hscan, hall⟩
    by_cases hswap : host.ntohl b.sAddr < host.ntohl a.sAddr
    · have hlt : host.value4 b < host.value4 a := hswap
      obtain ⟨first, rest, hfirst, hscan, hall⟩ := hwalk b a (by omega) (by omega)
      refine ⟨_, first, rest, ?_, hscan, hall⟩
      simp [iterInit, address_ipv4.1 ha, address_ipv4.1 hb, hswap, hfirst]
    · have hle : host.value4 a ≤ host.value4 b := Nat.le_of_not_lt hswap
      obtain ⟨first, rest, hfirst, hscan, hall⟩ := hwalk a b (by omega) (by omega)
      refine ⟨_, first, rest, ?_, hscan, hall⟩
      simp [iterInit, address_ipv4.1 ha, address_ipv4.1 hb, hswap, hfirst]
  | ipv6 a =>
    obtain ⟨b, rfl⟩ := ipv6_of_bits hbits.symm
    obtain ⟨ha4, ha6⟩ := address_ipv6.1 ha
    obtain ⟨-, hb6⟩ := address_ipv6.1 hb
    have hwalk : ∀ lo hi : In6Addr, lo.value = min a.value b.value → hi.value = max a.value b.value →
        ∃ first rest, host.ntop6 lo = some first ∧ Scan host (.ipv6 lo hi) rest ∧
          host.AllBetween (.ipv6 a) (.ipv6 b) (first :: rest) := by
      intro lo hi hlo hhi
      obtain ⟨first, rest, l, hfirst, hscan, htexts, hsorted, hmem⟩ := @scan6 host hf lo hi (by omega)
      have hall := @allBetween_of_walk host In6Addr .ipv6 In6Addr.value host.ntop6 (.ipv6 a) (.ipv6 b) (first :: rest) l
        lo.value hi.value (fun _ => rfl) (fun _ => rfl) (fun _ => ipv6_of_bits)
        (fun _ _ => hf.address_ntop6) htexts hsorted hmem hlo hhi
      exact ⟨first, rest, hfirst, hscan, hall⟩
    have hgreater := startGreater_iff (a.length_eq.trans b.length_eq.symm)
    by_cases hswap : startGreater a.s6Addr b.s6Addr = true
    · have hlt : b.value < a.value := hgreater.1 hswap
      obtain ⟨first, rest, hfirst, hscan, hall⟩ := hwalk b a (by omega) (by omega)
      refine ⟨_, first, rest, ?_, hscan, hall⟩
      simp [iterInit, ha4, ha6, hb6, hswap, hfirst]
    · have hle : a.value ≤ b.value := Nat.le_of_not_lt fun h => hswap (hgreater.2 h)
      obtain ⟨first, rest, hfirst, hscan, hall⟩ := hwalk a b (by omega) (by omega)
      refine ⟨_, first, rest, ?_, hscan, hall⟩
      simp [iterInit, ha4, ha6, hb6, hswap, hfirst]

end Families

/-- A network scan has the walk and not the network: of no network does `nutscan_cidr_to_ip` give the lowest and the highest
address, though all it does from the value of the mask on is right; the walk from one address to another, in either order,
gives every address between them once and in ascending order. -/
theorem network_scan_walks {host : Host} (hf : host.Faithful) :
    (∀ (firstIp mask : CStr) (a : Address) (m : Nat), host.address firstIp = some a → firstIp ≠ [] → '/' ∉ firstIp →
      mask ≠ [] → '/' ∉ mask → (atoi mask).toInt = m → m ≤ a.bits →
      nutscanCidrToIp host (firstIp ++ '/' :: mask) = none ∧
        ¬ ∃ startIP stopIP, nutscanCidrToIp host (firstIp ++ '/' :: mask) = some (some (startIP, stopIP)) ∧
          host.PrefixRange m a startIP stopIP) ∧
    (∀ (firstIp : CStr) (a : Address) (m : Nat), host.address firstIp = some a → m ≤ a.bits →
      ∃ startIP stopIP, addressRange host firstIp m = some (some (startIP, stopIP)) ∧
        host.PrefixRange m a startIP stopIP) ∧
    ∀ (startIP stopIP : CStr) (a b : Address), host.address startIP = some a → host.address stopIP = some b →
      a.bits = b.bits → ∃ it first rest, iterInit host (some startIP) (some stopIP) = some (it, first) ∧
        Scan host it rest ∧ host.AllBetween a b (first :: rest) := by
  refine ⟨fun firstIp mask a m ha hip hip' hmask hmask' hm hbits => ?_,
    fun firstIp a m ha hbits => addressRange_prefixRange hf ha hbits,
    fun startIP stopIP a b ha hb hbits => iter_allBetween hf ha hb hbits⟩
  have hnone := @nutscanCidrToIp_slash host firstIp mask hip hip' hmask hmask'
  refine ⟨hnone, ?_⟩
  rintro ⟨startIP, stopIP, h, -⟩
  cases hnone.symm.trans h

/-! ### A host that writes every group of an address -/

/-- Numbers with a separator between them. -/
def joined (sep : Char) (base : Nat) (ns : List Nat) : CStr := [sep].intercalate (ns.map (Nat.toDigits base))

def numbers (sep : Char) (base : Nat) (t : CStr) : List Nat := (t.splitOn sep).map (leadingNumber base)

theorem numbers_joined {sep : Char} {base : Nat} (hbase : 1 < base) (hbase' : base ≤ 16) (hsep : ¬ digitValue sep < base)
    {ns : List Nat} (hne : ns ≠ []) : numbers sep base (joined sep base ns) = ns := by
  have hfree : ∀ l ∈ ns.map (Nat.toDigits base), sep ∉ l := by
    intro l hl hmem
    obtain ⟨n, -, rfl⟩ := List.mem_map.1 hl
    exact hsep (digitValue_lt_of_mem_toDigits hbase hbase' sep hmem)
  rw [numbers, joined, List.splitOn_intercalate sep hfree (by simpa using hne), List.map_map]
  exact (List.map_congr_left fun n _ => leadingNumber_toDigits hbase hbase').trans (List.map_id ns)

theorem mem_joined {sep c : Char} {base : Nat} (hbase : 1 < base) (hbase' : base ≤ 16) {ns : List Nat}
    (h : c ∈ joined sep base ns) : c = sep ∨ digitValue c < base := by
  unfold joined at h
  induction ns with
  | nil => exact absurd h List.not_mem_nil
  | cons n ns ih =>
    rcases ns with _ | ⟨m, ns⟩
    · rw [List.map_singleton, List.intercalate_singleton] at h
      exact Or.inr (digitValue_lt_of_mem_toDigits hbase hbase' c h)
    · rw [List.map_cons, List.map_cons, List.intercalate_cons_cons, ← List.map_cons, List.append_assoc] at h
      rcases List.mem_append.1 h with h | h
      · exact Or.inr (digitValue_lt_of_mem_toDigits hbase hbase' c h)
      · rcases List.mem_append.1 h with h | h
        · exact Or.inl (List.mem_singleton.1 h)
        · exact ih h

/-- The groups of an IPv6 address. -/
def groups : List UInt8 → List Nat
  | a :: b :: bytes => (a.toNat * 256 + b.toNat) :: groups bytes
  | _ => []

def ofGroups (ns : List Nat) : List UInt8 := ns.flatMap fun n => [UInt8.ofNat (n / 256), UInt8.ofNat (n % 256)]

theorem ofGroups_groups (bytes : List UInt8) (h : bytes.length % 2 = 0) : ofGroups (groups bytes) = bytes := by
  induction bytes using groups.induct with
  | case1 a b bytes ih =>
    have ha : UInt8.ofNat ((a.toNat * 256 + b.toNat) / 256) = a := by
      rw [show (a.toNat * 256 + b.toNat) / 256 = a.toNat by have := b.toNat_lt; omega, UInt8.ofNat_toNat]
    have hb : UInt8.ofNat ((a.toNat * 256 + b.toNat) % 256) = b := by
      rw [show (a.toNat * 256 + b.toNat) % 256 = b.toNat by have := b.toNat_lt; omega, UInt8.ofNat_toNat]
    have hrest := ih (by simp only [List.length_cons] at h; omega)
    rw [groups, ofGroups, List.flatMap_cons, ha, hb, ← ofGroups, hrest]
    rfl
  | case2 bytes hshort =>
    rcases bytes with _ | ⟨a, _ | ⟨b, bytes⟩⟩
    · rfl
    · exact absurd h (by simp)
    · exact absurd rfl (hshort a b bytes)

/-- A host that reads and writes addresses without shortening them. -/
def numericHost : Host where
  littleEndian := true
  getaddrinfo t :=
    match numbers '.' 10 t with
    | [a, b, c, d] => some ⟨swapBytes (UInt32.ofNat (a * 2 ^ 24 + b * 2 ^ 16 + c * 2 ^ 8 + d))⟩
    | _ => none
  getaddrinfo6 t :=
    let bytes := ofGroups (numbers ':' 16 t)
    if h : bytes.length = 16 then some ⟨bytes, h⟩ else none
  ntop a :=
    let n := (swapBytes a.sAddr).toNat
    some (joined '.' 10 [n / 2 ^ 24, n / 2 ^ 16 % 256, n / 2 ^ 8 % 256, n % 256])
  ntop6 a := some (joined ':' 16 (groups a.s6Addr))

theorem numericHost_faithful : numericHost.Faithful where
  ntop := by
    rintro ⟨x⟩
    refine ⟨_, rfl, ?_⟩
    have hread := @numbers_joined '.' 10 (by decide) (by decide) (by decide)
    simp only [numericHost]
    rw [hread (List.cons_ne_nil _ _)]
    have hsum : ∀ n : Nat, n < 2 ^ 32 → n / 2 ^ 24 * 2 ^ 24 + n / 2 ^ 16 % 256 * 2 ^ 16 + n / 2 ^ 8 % 256 * 2 ^ 8 + n % 256 = n :=
      fun n hn => by omega
    dsimp only
    rw [hsum _ (swapBytes x).toNat_lt, UInt32.ofNat_toNat, swapBytes_swapBytes]
  ntop6 := by
    rintro ⟨bytes, hlen⟩
    have hne : groups bytes ≠ [] := by
      intro h
      have := ofGroups_groups bytes (by omega)
      rw [h] at this
      rw [← this] at hlen
      exact absurd hlen (by decide)
    have hread := @numbers_joined ':' 16 (by decide) (by decide) (by decide) _ hne
    have hdot : '.' ∉ joined ':' 16 (groups bytes) := by
      intro h
      rcases mem_joined (by decide) (by decide) h with h | h
      · exact absurd h (by decide)
      · exact absurd h (by decide)
    refine ⟨_, rfl, ?_, ?_⟩
    · simp only [numericHost]
      rw [numbers, List.splitOn_eq_singleton hdot]
      rfl
    · simp only [numericHost]
      rw [hread, ofGroups_groups bytes (by omega), dif_pos hlen]

/-- The network of four addresses around `10.0.0.5`, and the addresses from `10.0.1.1` down to `10.0.0.254`. -/
theorem network_scan_walks_numeric :
    (nutscanCidrToIp numericHost ("10.0.0.5".toList ++ '/' :: "30".toList) = none ∧
        ¬ ∃ startIP stopIP, nutscanCidrToIp numericHost ("10.0.0.5".toList ++ '/' :: "30".toList) =
          some (some (startIP, stopIP)) ∧ numericHost.PrefixRange 30 (.ipv4 ⟨0x0500000a⟩) startIP stopIP) ∧
      (∃ startIP stopIP, addressRange numericHost "10.0.0.5".toList 30 = some (some (startIP, stopIP)) ∧
        numericHost.PrefixRange 30 (.ipv4 ⟨0x0500000a⟩) startIP stopIP) ∧
      ∃ it first rest, iterInit numericHost (some "10.0.1.1".toList) (some "10.0.0.254".toList) = some (it, first) ∧
        Scan numericHost it rest ∧
        numericHost.AllBetween (.ipv4 ⟨0x0101000a⟩) (.ipv4 ⟨0xfe00000a⟩) (first :: rest) :=
  ⟨(network_scan_walks numericHost_faithful).1 _ _ _ 30 rfl (by decide) (by decide) (by decide) (by decide) (by decide)
    (by decide),
    (network_scan_walks numericHost_faithful).2.1 _ _ 30 rfl (by decide),
    (network_scan_walks numericHost_faithful).2.2 _ _ _ _ rfl rfl rfl⟩

/-- The mask of `10.0.0.5/30` is read out of the freed copy. -/
theorem network_freed_mask :
    numericHost.address "10.0.0.5".toList = some (.ipv4 ⟨0x0500000a⟩) ∧ (atoi "30".toList).toInt = 30 ∧
      ¬ ∃ startIP stopIP, nutscanCidrToIp numericHost "10.0.0.5/30".toList = some (some (startIP, stopIP)) ∧
        numericHost.PrefixRange 30 (.ipv4 ⟨0x0500000a⟩) startIP stopIP := by
  have hnone : nutscanCidrToIp numericHost "10.0.0.5/30".toList = none := rfl
  refine ⟨rfl, by decide, ?_⟩
  rintro ⟨startIP, stopIP, h, -⟩
  cases hnone.symm.trans h

end NutscanIp

end Nut
