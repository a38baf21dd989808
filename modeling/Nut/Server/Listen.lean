import Mathlib.Data.List.Induction
import Mathlib.Data.List.Perm.Basic
import Nut.Common.CString

/-!
# `upsd.c`: the addresses that the server listens on

`listen_add` puts each address in front of the list, so `firstaddr` is that of the last LISTEN line.  `server_load` sets
up all of them and then asks only this one whether it has a socket.  An address that fails to resolve ends the program,
as a failure of `setsockopt` or `fcntl` does; one that cannot be bound is left to the others.

What the calls of the system come to is part of each address.
-/

namespace Nut.Listen

/-- What the calls of `setuptcp` return for one `struct addrinfo`. -/
structure AddrInfo where
  socket : Int
  setsockopt : Int
  bind : Int
  fcntlGet : Int
  fcntlSet : Int
  listen : Int
  deriving DecidableEq

/-- What `getaddrinfo` makes of an address: an error, or a list of addresses to try. -/
inductive Resolution
  | error (v : Int)
  | resolved (res : List AddrInfo)

/-- The program ends with a message, of the system error (`fatal_with_errno`) or without it (`fatalx`). -/
inductive Fatal
  | withErrno (msg : CStr)
  | fatalx (msg : CStr)
  deriving DecidableEq

/-- `stype_t` -/
structure Stype where
  addr : CStr
  port : CStr
  sockFd : Int
  net : Resolution

/-- `opt_af` -/
inductive Family
  | unspec
  | inet
  | inet6
  deriving DecidableEq

def eaiSystem : Int := -11

def noInterface : Fatal := .fatalx "no listening interface available".toList

/-- `listen_add` before the server runs (`reload_flag` is 0). -/
def listenAdd (firstaddr : List Stype) (addr port : CStr) (net : Resolution) : List Stype :=
  ⟨addr, port, -1, net⟩ :: firstaddr

/-- The loop of `setuptcp` over what `getaddrinfo` gave. -/
def tryAll (server : Stype) : List AddrInfo → Except Fatal Stype
  | [] => .ok server
  | ai :: res =>
    if ai.socket < 0 then tryAll server res
    else if ai.setsockopt ≠ 0 then .error (.withErrno "setuptcp: setsockopt".toList)
    else if ai.bind < 0 then tryAll server res
    else if ai.fcntlGet = -1 then .error (.withErrno "setuptcp: fcntl(get)".toList)
    else if ai.fcntlSet = -1 then .error (.withErrno "setuptcp: fcntl(set)".toList)
    else if ai.listen < 0 then tryAll server res
    else .ok { server with sockFd := ai.socket }

/-- A parsed line of `upsd.conf`, with what resolving and binding its address comes to; the other settings of the file
are read in `parseUpsdConfArgs`. -/
structure Line where
  arg : List CStr
  net : Resolution

section Setup

variable (gaiStrerror : Int → CStr) (PORT : CStr) (opt_af : Family) (loopback6 loopback4 : Resolution)

def setuptcp (server : Stype) : Except Fatal Stype :=
  match server.net with
  | .error v =>
    if v = eaiSystem then .error (.withErrno "getaddrinfo".toList)
    else .error (.fatalx ("getaddrinfo: ".toList ++ gaiStrerror v))
  | .resolved res => tryAll server res

def setupAll : List Stype → Except Fatal (List Stype)
  | [] => .ok []
  | server :: next => do
    let server ← setuptcp gaiStrerror server
    let next ← setupAll next
    .ok (server :: next)

/-- The branch of `parse_upsd_conf_args` for `LISTEN <address> [<port>]`. -/
def parseListen (firstaddr : List Stype) (line : Line) : List Stype :=
  match line.arg with
  | arg0 :: arg1 :: rest =>
    if arg0 = "LISTEN".toList then listenAdd firstaddr arg1 (rest.headD PORT) line.net else firstaddr
  | _ => firstaddr

/-- The addresses that are listened on where no LISTEN line is given. -/
def defaults (firstaddr : List Stype) : List Stype :=
  let firstaddr :=
    if opt_af ≠ .inet then listenAdd firstaddr "::1".toList PORT loopback6 else firstaddr
  if opt_af ≠ .inet6 then listenAdd firstaddr "127.0.0.1".toList PORT loopback4 else firstaddr

def addresses (firstaddr : List Stype) : List Stype :=
  if firstaddr = [] then defaults PORT opt_af loopback6 loopback4 firstaddr else firstaddr

def serverLoad (firstaddr : List Stype) : Except Fatal (List Stype) := do
  let firstaddr ← setupAll gaiStrerror (addresses PORT opt_af loopback6 loopback4 firstaddr)
  match firstaddr with
  | [] => .ok []
  | server :: next => if server.sockFd < 0 then .error noInterface else .ok (server :: next)

/-- The start of the server as far as the addresses go: `upsd.conf` is read, then they are set up. -/
def start (conf : List Line) : Except Fatal (List Stype) :=
  serverLoad gaiStrerror PORT opt_af loopback6 loopback4 (conf.foldl (parseListen PORT) [])

end Setup

/-! ### What an address comes to -/

def AddrInfo.Bound (ai : AddrInfo) : Prop :=
  0 ≤ ai.socket ∧ ai.setsockopt = 0 ∧ 0 ≤ ai.bind ∧ ai.fcntlGet ≠ -1 ∧ ai.fcntlSet ≠ -1 ∧ 0 ≤ ai.listen

/-- The next one is tried: there is no socket, or it cannot be bound or listened on. -/
def AddrInfo.Refused (ai : AddrInfo) : Prop :=
  ai.socket < 0 ∨ ai.setsockopt = 0 ∧ (ai.bind < 0 ∨ ai.fcntlGet ≠ -1 ∧ ai.fcntlSet ≠ -1 ∧ ai.listen < 0)

instance (ai : AddrInfo) : Decidable ai.Bound :=
  inferInstanceAs (Decidable (0 ≤ ai.socket ∧ ai.setsockopt = 0 ∧ 0 ≤ ai.bind ∧ ai.fcntlGet ≠ -1 ∧ ai.fcntlSet ≠ -1 ∧
    0 ≤ ai.listen))

namespace Resolution

/-- There is something to bind behind the address. -/
def Bindable (net : Resolution) : Prop := ∃ res, net = resolved res ∧ ∃ ai ∈ res, ai.Bound

/-- The address is bound, and what was tried before was only refused. -/
def Opens (net : Resolution) : Prop :=
  ∃ pre ai post, net = resolved (pre ++ ai :: post) ∧ (∀ x ∈ pre, x.Refused) ∧ ai.Bound

/-- The address resolves, and all of it is refused. -/
def Fails (net : Resolution) : Prop := ∃ res, net = resolved res ∧ ∀ ai ∈ res, ai.Refused

theorem Opens.bindable {net : Resolution} (h : net.Opens) : net.Bindable := by
  obtain ⟨pre, ai, post, hnet, -, hai⟩ := h
  exact ⟨_, hnet, ai, by simp, hai⟩

end Resolution

theorem AddrInfo.Refused.not_bound {ai : AddrInfo} (h : ai.Refused) : ¬ ai.Bound := by
  unfold AddrInfo.Refused at h
  unfold AddrInfo.Bound
  omega

theorem Resolution.Fails.not_bindable {net : Resolution} (h : net.Fails) : ¬ net.Bindable := by
  obtain ⟨res, rfl, hres⟩ := h
  rintro ⟨res', heq, ai, hai, hbound⟩
  obtain rfl := resolved.inj heq
  exact (hres ai hai).not_bound hbound

theorem tryAll_refused {server : Stype} {ai : AddrInfo} (res : List AddrInfo) (h : ai.Refused) :
    tryAll server (ai :: res) = tryAll server res := by
  rw [tryAll]
  rcases h with hsocket | ⟨hopt, hbind | ⟨hget, hset, hlisten⟩⟩
  · rw [if_pos hsocket]
  · rw [if_neg (not_not.2 hopt), if_pos hbind, ite_self]
  · rw [if_neg (not_not.2 hopt), if_neg hget, if_neg hset, if_pos hlisten, ite_self, ite_self]

theorem tryAll_bound {server : Stype} {ai : AddrInfo} (res : List AddrInfo) (h : ai.Bound) :
    tryAll server (ai :: res) = .ok { server with sockFd := ai.socket } := by
  obtain ⟨hsocket, hopt, hbind, hget, hset, hlisten⟩ := h
  rw [tryAll, if_neg (not_lt.2 hsocket), if_neg (not_not.2 hopt), if_neg (not_lt.2 hbind), if_neg hget, if_neg hset,
    if_neg (not_lt.2 hlisten)]

theorem tryAll_fatal {server : Stype} {ai : AddrInfo} (res : List AddrInfo) (hr : ¬ ai.Refused) (hb : ¬ ai.Bound) :
    ∃ msg, tryAll server (ai :: res) = .error (.withErrno msg) := by
  have hsocket : ¬ ai.socket < 0 := fun h => hr (.inl h)
  rw [tryAll, if_neg hsocket]
  by_cases hopt : ai.setsockopt = 0
  · have hbind : ¬ ai.bind < 0 := fun h => hr (.inr ⟨hopt, .inl h⟩)
    rw [if_neg (not_not.2 hopt), if_neg hbind]
    by_cases hget : ai.fcntlGet = -1
    · exact ⟨_, if_pos hget⟩
    · by_cases hset : ai.fcntlSet = -1
      · exact ⟨_, by rw [if_neg hget, if_pos hset]⟩
      · have hlisten : ¬ ai.listen < 0 := fun h => hr (.inr ⟨hopt, .inr ⟨hget, hset, h⟩⟩)
        exact absurd ⟨not_lt.1 hsocket, hopt, not_lt.1 hbind, hget, hset, not_lt.1 hlisten⟩ hb
  · exact ⟨_, if_pos hopt⟩

/-- The three ways the loop of `setuptcp` ends. -/
theorem tryAll_cases (server : Stype) (res : List AddrInfo) :
    (∀ ai ∈ res, ai.Refused) ∧ tryAll server res = .ok server ∨
    (∃ pre ai post, res = pre ++ ai :: post ∧ (∀ x ∈ pre, x.Refused) ∧ ai.Bound ∧
      tryAll server res = .ok { server with sockFd := ai.socket }) ∨
    (∃ pre ai post, res = pre ++ ai :: post ∧ (∀ x ∈ pre, x.Refused) ∧ ¬ ai.Refused ∧ ¬ ai.Bound ∧
      ∃ msg, tryAll server res = .error (.withErrno msg)) := by
  induction res with
  | nil => exact .inl ⟨by simp, rfl⟩
  | cons ai res ih =>
    by_cases hr : ai.Refused
    · rw [tryAll_refused res hr]
      rcases ih with ⟨hall, ih⟩ | ⟨pre, x, post, rfl, hpre, hx, ih⟩ | ⟨pre, x, post, rfl, hpre, hx, ih⟩
      · exact .inl ⟨List.forall_mem_cons.2 ⟨hr, hall⟩, ih⟩
      · exact .inr (.inl ⟨ai :: pre, x, post, rfl, List.forall_mem_cons.2 ⟨hr, hpre⟩, hx, ih⟩)
      · exact .inr (.inr ⟨ai :: pre, x, post, rfl, List.forall_mem_cons.2 ⟨hr, hpre⟩, hx, ih⟩)
    · by_cases hb : ai.Bound
      · exact .inr (.inl ⟨[], ai, res, rfl, by simp, hb, tryAll_bound res hb⟩)
      · exact .inr (.inr ⟨[], ai, res, rfl, by simp, hr, hb, tryAll_fatal res hr hb⟩)

/-- The first one that is not refused is the same in both splits. -/
private theorem first_unique {pre pre' post post' : List AddrInfo} {ai ai' : AddrInfo}
    (h : pre ++ ai :: post = pre' ++ ai' :: post') (hpre : ∀ x ∈ pre, x.Refused) (hpre' : ∀ x ∈ pre', x.Refused)
    (hai : ¬ ai.Refused) (hai' : ¬ ai'.Refused) : ai = ai' := by
  induction pre generalizing pre' with
  | nil =>
    cases pre' with
    | nil => exact (List.cons.inj h).1
    | cons x pre' =>
      obtain ⟨rfl, -⟩ := List.cons.inj h
      exact absurd (hpre' ai (by simp)) hai
  | cons x pre ih =>
    cases pre' with
    | nil =>
      obtain ⟨rfl, -⟩ := List.cons.inj h
      exact absurd (hpre x (by simp)) hai'
    | cons x' pre' =>
      have htail : pre ++ ai :: post = pre' ++ ai' :: post' := (List.cons.inj h).2
      exact ih htail (fun y hy => hpre y (List.mem_cons_of_mem _ hy)) fun y hy => hpre' y (List.mem_cons_of_mem _ hy)

section Setup

variable (gaiStrerror : Int → CStr) (PORT : CStr) (opt_af : Family) (loopback6 loopback4 : Resolution)

/-- The address gets a socket, stays as it is, or ends the program with another message than that of `server_load`. -/
theorem setuptcp_cases (server : Stype) :
    (server.net.Opens ∧ ∃ t, setuptcp gaiStrerror server = .ok t ∧ 0 ≤ t.sockFd) ∨
    (server.net.Fails ∧ setuptcp gaiStrerror server = .ok server) ∨
    (¬ server.net.Opens ∧ ¬ server.net.Fails ∧ ∃ e, setuptcp gaiStrerror server = .error e ∧ e ≠ noInterface) := by
  cases hnet : server.net with
  | error v =>
    refine .inr (.inr ⟨?_, ?_, ?_⟩)
    · rintro ⟨pre, ai, post, h, -⟩
      cases h
    · rintro ⟨res, h, -⟩
      cases h
    · simp only [setuptcp, hnet]
      split_ifs
      · exact ⟨_, rfl, by simp [noInterface]⟩
      · exact ⟨_, rfl, by simp [noInterface]⟩
  | resolved res =>
    have hset : setuptcp gaiStrerror server = tryAll server res := by rw [setuptcp, hnet]
    rw [hset]
    rcases tryAll_cases server res with ⟨hall, h⟩ | ⟨pre, ai, post, rfl, hpre, hai, h⟩ |
      ⟨pre, ai, post, rfl, hpre, hr, hb, msg, h⟩
    · exact .inr (.inl ⟨⟨res, rfl, hall⟩, h⟩)
    · exact .inl ⟨⟨pre, ai, post, rfl, hpre, hai⟩, _, h, hai.1⟩
    · refine .inr (.inr ⟨?_, ?_, _, h, by simp [noInterface]⟩)
      · rintro ⟨pre', ai', post', heq, hpre', hai'⟩
        have := first_unique (Resolution.resolved.inj heq) hpre hpre' hr fun hr' => hr'.not_bound hai'
        exact hb (this ▸ hai')
      · rintro ⟨res', heq, hres'⟩
        obtain rfl := Resolution.resolved.inj heq
        exact hr (hres' ai (by simp))

/-- An address that does not end the program. -/
def Resolution.Settled (net : Resolution) : Prop := net.Opens ∨ net.Fails

theorem setupAll_cases {servers : List Stype} (hfresh : ∀ s ∈ servers, s.sockFd = -1) :
    (∀ s ∈ servers, s.net.Settled) ∧ (∃ ss, setupAll gaiStrerror servers = .ok ss ∧
      List.Forall₂ (fun s t => 0 ≤ t.sockFd ↔ s.net.Opens) servers ss) ∨
    ¬ (∀ s ∈ servers, s.net.Settled) ∧ ∃ e, setupAll gaiStrerror servers = .error e ∧ e ≠ noInterface := by
  induction servers with
  | nil => exact .inl ⟨by simp, [], rfl, .nil⟩
  | cons server next ih =>
    rw [List.forall_mem_cons] at hfresh
    rw [List.forall_mem_cons]
    have hok : ∀ t, setuptcp gaiStrerror server = .ok t → server.net.Settled →
        (0 ≤ t.sockFd ↔ server.net.Opens) →
        (server.net.Settled ∧ ∀ s ∈ next, s.net.Settled) ∧
          (∃ ss, setupAll gaiStrerror (server :: next) = .ok ss ∧
            List.Forall₂ (fun s t => 0 ≤ t.sockFd ↔ s.net.Opens) (server :: next) ss) ∨
        ¬ (server.net.Settled ∧ ∀ s ∈ next, s.net.Settled) ∧
          ∃ e, setupAll gaiStrerror (server :: next) = .error e ∧ e ≠ noInterface := by
      intro t ht hsettled hsock
      rcases ih hfresh.2 with ⟨hall, ss, hss, hrel⟩ | ⟨hnot, e, he, hne⟩
      · exact .inl ⟨⟨hsettled, hall⟩, t :: ss, by rw [setupAll, ht, hss]; rfl, .cons hsock hrel⟩
      · exact .inr ⟨fun h => hnot h.2, e, by rw [setupAll, ht, he]; rfl, hne⟩
    rcases setuptcp_cases gaiStrerror server with ⟨hopen, t, ht, hsock⟩ | ⟨hfail, ht⟩ | ⟨hno, hnf, e, he, hne⟩
    · exact hok t ht (.inl hopen) ⟨fun _ => hopen, fun _ => hsock⟩
    · refine hok server ht (.inr hfail) ⟨fun h => ?_, fun h => ?_⟩
      · rw [hfresh.1] at h
        omega
      · exact absurd h.bindable hfail.not_bindable
    · exact .inr ⟨fun h => h.1.elim hno hnf, e, by rw [setupAll, he]; rfl, hne⟩

/-! ### The list of addresses -/

/-- The address of a LISTEN line. -/
def listenOf (line : Line) : Option Stype := (parseListen PORT [] line).head?

theorem parseListen_eq (firstaddr : List Stype) (line : Line) :
    parseListen PORT firstaddr line = (listenOf PORT line).toList ++ firstaddr := by
  unfold listenOf parseListen
  split
  · split_ifs <;> rfl
  · rfl

/-- The list is that of the lines, the last one first. -/
theorem foldl_parseListen (conf : List Line) :
    conf.foldl (parseListen PORT) [] = (conf.filterMap (listenOf PORT)).reverse := by
  induction conf using List.reverseRecOn with
  | nil => rfl
  | append_singleton conf line ih =>
    rw [List.foldl_concat, ih, parseListen_eq, List.filterMap_append, List.reverse_append]
    cases h : listenOf PORT line <;> simp [h]

/-- The addresses in the order in which they are set up. -/
def listening (conf : List Line) : List Stype :=
  addresses PORT opt_af loopback6 loopback4 (conf.foldl (parseListen PORT) [])

/-- The server starts, as far as the addresses go. -/
def Starts (conf : List Line) : Prop :=
  ∃ ss, start gaiStrerror PORT opt_af loopback6 loopback4 conf = .ok ss

theorem sockFd_listening {conf : List Line} : ∀ s ∈ listening PORT opt_af loopback6 loopback4 conf, s.sockFd = -1 := by
  intro s hs
  unfold listening at hs
  rw [foldl_parseListen] at hs
  unfold addresses at hs
  split_ifs at hs with hnil
  · rw [hnil] at hs
    cases opt_af <;> simp [defaults, listenAdd] at hs
    · rcases hs with rfl | rfl <;> rfl
    · rw [hs]
    · rw [hs]
  · rw [List.mem_reverse, List.mem_filterMap] at hs
    obtain ⟨line, -, hline⟩ := hs
    unfold listenOf parseListen at hline
    split at hline
    · split_ifs at hline
      · rw [← Option.some.inj hline]
      · cases hline
    · cases hline

theorem listening_ne_nil (conf : List Line) : listening PORT opt_af loopback6 loopback4 conf ≠ [] := by
  unfold listening addresses
  split_ifs with hnil
  · rw [hnil]
    cases opt_af <;> simp [defaults, listenAdd]
  · exact hnil

/-- The server starts, or ends with the message of `server_load`, or with that of an address. -/
theorem start_cases (conf : List Line) :
    ∃ server next, listening PORT opt_af loopback6 loopback4 conf = server :: next ∧
      ((∀ s ∈ server :: next, s.net.Settled) ∧ server.net.Opens ∧
          (∃ ss, start gaiStrerror PORT opt_af loopback6 loopback4 conf = .ok ss) ∨
        (∀ s ∈ server :: next, s.net.Settled) ∧ ¬ server.net.Opens ∧
          start gaiStrerror PORT opt_af loopback6 loopback4 conf = .error noInterface ∨
        ¬ (∀ s ∈ server :: next, s.net.Settled) ∧
          ∃ e, start gaiStrerror PORT opt_af loopback6 loopback4 conf = .error e ∧ e ≠ noInterface) := by
  cases hl : listening PORT opt_af loopback6 loopback4 conf with
  | nil => exact absurd hl (listening_ne_nil PORT opt_af loopback6 loopback4 conf)
  | cons server next =>
    refine ⟨server, next, rfl, ?_⟩
    have hstart : start gaiStrerror PORT opt_af loopback6 loopback4 conf =
        (setupAll gaiStrerror (server :: next) >>= fun firstaddr =>
          match firstaddr with
          | [] => .ok []
          | server :: next => if server.sockFd < 0 then .error noInterface else .ok (server :: next)) := by
      rw [← hl]
      rfl
    have hfresh : ∀ s ∈ server :: next, s.sockFd = -1 := hl ▸ sockFd_listening PORT opt_af loopback6 loopback4
    rcases setupAll_cases gaiStrerror hfresh with ⟨hall, ss, hss, hrel⟩ | ⟨hnot, e, he, hne⟩
    · cases hrel with
      | @cons _ t _ ss hsock _ =>
        rw [hss] at hstart
        change _ = if t.sockFd < 0 then _ else _ at hstart
        by_cases hopen : server.net.Opens
        · have := hsock.2 hopen
          rw [if_neg (by omega)] at hstart
          exact .inl ⟨hall, hopen, _, hstart⟩
        · have := mt hsock.1 hopen
          rw [if_pos (by omega)] at hstart
          exact .inr (.inl ⟨hall, hopen, hstart⟩)
    · rw [he] at hstart
      exact .inr (.inr ⟨hnot, e, hstart, hne⟩)

theorem starts_iff {conf : List Line} {server : Stype} {next : List Stype}
    (hl : listening PORT opt_af loopback6 loopback4 conf = server :: next) :
    Starts gaiStrerror PORT opt_af loopback6 loopback4 conf ↔
      (∀ s ∈ listening PORT opt_af loopback6 loopback4 conf, s.net.Settled) ∧ server.net.Opens := by
  obtain ⟨server', next', hl', h⟩ := start_cases gaiStrerror PORT opt_af loopback6 loopback4 conf
  obtain ⟨rfl, rfl⟩ := List.cons.inj (hl.symm.trans hl')
  rw [hl]
  unfold Starts
  rcases h with ⟨hall, hopen, hok⟩ | ⟨hall, hopen, herr⟩ | ⟨hnot, e, herr, -⟩
  · exact ⟨fun _ => ⟨hall, hopen⟩, fun _ => hok⟩
  · exact ⟨fun ⟨ss, hss⟩ => absurd (herr.symm.trans hss) (by simp), fun h => absurd h.2 hopen⟩
  · exact ⟨fun ⟨ss, hss⟩ => absurd (herr.symm.trans hss) (by simp), fun h => absurd h.1 hnot⟩

/-- The message of `server_load` is given exactly where no address ends the program. -/
theorem noInterface_iff {conf : List Line} {e : Fatal}
    (h : start gaiStrerror PORT opt_af loopback6 loopback4 conf = .error e) :
    e = noInterface ↔ ∀ s ∈ listening PORT opt_af loopback6 loopback4 conf, s.net.Settled := by
  obtain ⟨server, next, hl, hcases⟩ := start_cases gaiStrerror PORT opt_af loopback6 loopback4 conf
  rw [hl]
  rcases hcases with ⟨-, -, ss, hok⟩ | ⟨hall, -, herr⟩ | ⟨hnot, e', herr, hne⟩
  · rw [hok] at h
    cases h
  · rw [herr] at h
    exact ⟨fun _ => hall, fun _ => (Except.error.inj h).symm⟩
  · rw [herr] at h
    obtain rfl := Except.error.inj h
    exact ⟨fun h => absurd h hne, fun h => absurd h hnot⟩

/-- With the lines in another order the same addresses are set up. -/
theorem mem_listening_perm {conf conf' : List Line} (h : conf'.Perm conf) (s : Stype) :
    s ∈ listening PORT opt_af loopback6 loopback4 conf' ↔ s ∈ listening PORT opt_af loopback6 loopback4 conf := by
  have hmap := h.filterMap (listenOf PORT)
  unfold listening
  rw [foldl_parseListen, foldl_parseListen]
  unfold addresses
  by_cases hnil : conf.filterMap (listenOf PORT) = []
  · rw [hnil] at hmap ⊢
    rw [hmap.eq_nil]
  · have hnil' : conf'.filterMap (listenOf PORT) ≠ [] := fun h' => hnil (by rw [h'] at hmap; exact hmap.symm.eq_nil)
    rw [if_neg (by simpa using hnil'), if_neg (by simpa using hnil), List.mem_reverse, List.mem_reverse]
    exact hmap.mem_iff

/-- Any address can be that of the last line. -/
theorem exists_perm_head {conf : List Line} {s : Stype} (hs : s ∈ conf.filterMap (listenOf PORT)) :
    ∃ conf', conf'.Perm conf ∧ ∃ next, listening PORT opt_af loopback6 loopback4 conf' = s :: next := by
  rw [List.mem_filterMap] at hs
  obtain ⟨line, hline, hs⟩ := hs
  obtain ⟨pre, post, rfl⟩ := List.append_of_mem hline
  refine ⟨pre ++ post ++ [line], ?_, ((pre ++ post).filterMap (listenOf PORT)).reverse, ?_⟩
  · exact (List.perm_append_singleton line (pre ++ post)).trans List.perm_middle.symm
  · unfold listening
    rw [foldl_parseListen, List.filterMap_append, List.reverse_append]
    simp [hs, addresses]

/-- The server starts if it can listen anywhere, and the order of the lines does not matter. -/
structure StartsAnywhere (conf : List Line) : Prop where
  starts : Starts gaiStrerror PORT opt_af loopback6 loopback4 conf ↔
    ∃ s ∈ listening PORT opt_af loopback6 loopback4 conf, s.net.Bindable
  anyOrder : ∀ conf', conf'.Perm conf → (Starts gaiStrerror PORT opt_af loopback6 loopback4 conf' ↔
    Starts gaiStrerror PORT opt_af loopback6 loopback4 conf)

/-- With the lines in any order the only error is that of `server_load`. -/
def OnlyNoInterface (conf : List Line) : Prop :=
  ∀ conf', conf'.Perm conf → ∀ e, start gaiStrerror PORT opt_af loopback6 loopback4 conf' = .error e → e = noInterface

/-- None of the addresses can be bound, or all are; or there is no LISTEN line, and of the two defaults the second is. -/
def Alike (conf : List Line) : Prop :=
  (∀ s ∈ listening PORT opt_af loopback6 loopback4 conf, ¬ s.net.Bindable) ∨
  (∀ s ∈ listening PORT opt_af loopback6 loopback4 conf, s.net.Opens) ∨
  conf.filterMap (listenOf PORT) = [] ∧ opt_af = .unspec ∧ loopback6.Fails ∧ loopback4.Opens

theorem listening_perm_nil {conf conf' : List Line} (h : conf'.Perm conf) (hnil : conf.filterMap (listenOf PORT) = []) :
    listening PORT opt_af loopback6 loopback4 conf' = listening PORT opt_af loopback6 loopback4 conf := by
  have hmap := h.filterMap (listenOf PORT)
  rw [hnil] at hmap
  unfold listening
  rw [foldl_parseListen, foldl_parseListen, hnil, hmap.eq_nil]

theorem not_starts {conf : List Line}
    (h : ∀ s ∈ listening PORT opt_af loopback6 loopback4 conf, ¬ s.net.Bindable) :
    ¬ Starts gaiStrerror PORT opt_af loopback6 loopback4 conf := by
  intro hstart
  obtain ⟨server, next, hl, -⟩ := start_cases gaiStrerror PORT opt_af loopback6 loopback4 conf
  have hopen := ((starts_iff gaiStrerror PORT opt_af loopback6 loopback4 hl).1 hstart).2
  exact h server (by simp [hl]) hopen.bindable

theorem starts_of_opens {conf : List Line}
    (h : ∀ s ∈ listening PORT opt_af loopback6 loopback4 conf, s.net.Opens) :
    Starts gaiStrerror PORT opt_af loopback6 loopback4 conf := by
  obtain ⟨server, next, hl, -⟩ := start_cases gaiStrerror PORT opt_af loopback6 loopback4 conf
  exact (starts_iff gaiStrerror PORT opt_af loopback6 loopback4 hl).2 ⟨fun s hs => .inl (h s hs), h server (by simp [hl])⟩

/-- A server that starts with the lines in any order has bound all of them. -/
theorem opens_of_anyOrder {conf : List Line}
    (h : ∀ conf', conf'.Perm conf → Starts gaiStrerror PORT opt_af loopback6 loopback4 conf')
    (hnil : conf.filterMap (listenOf PORT) ≠ []) :
    ∀ s ∈ listening PORT opt_af loopback6 loopback4 conf, s.net.Opens := by
  intro s hs
  have hmem : s ∈ conf.filterMap (listenOf PORT) := by
    unfold listening addresses at hs
    rw [foldl_parseListen, if_neg (by simpa using hnil)] at hs
    exact List.mem_reverse.1 hs
  obtain ⟨conf', hperm, next, hl⟩ := exists_perm_head PORT opt_af loopback6 loopback4 hmem
  exact ((starts_iff gaiStrerror PORT opt_af loopback6 loopback4 hl).1 (h conf' hperm)).2

/-- Without a LISTEN line the second default is the first of the list. -/
theorem alike_defaults {conf : List Line} (hnil : conf.filterMap (listenOf PORT) = [])
    (h : Starts gaiStrerror PORT opt_af loopback6 loopback4 conf) : Alike PORT opt_af loopback6 loopback4 conf := by
  have hl : listening PORT opt_af loopback6 loopback4 conf = defaults PORT opt_af loopback6 loopback4 [] := by
    unfold listening
    rw [foldl_parseListen, hnil]
    rfl
  cases opt_af with
  | inet =>
    obtain ⟨-, hopen⟩ := (starts_iff gaiStrerror PORT .inet loopback6 loopback4 hl).1 h
    refine .inr (.inl fun s hs => ?_)
    rw [hl] at hs
    rw [List.mem_singleton.1 hs]
    exact hopen
  | inet6 =>
    obtain ⟨-, hopen⟩ := (starts_iff gaiStrerror PORT .inet6 loopback6 loopback4 hl).1 h
    refine .inr (.inl fun s hs => ?_)
    rw [hl] at hs
    rw [List.mem_singleton.1 hs]
    exact hopen
  | unspec =>
    obtain ⟨hsettled, hopen⟩ := (starts_iff gaiStrerror PORT .unspec loopback6 loopback4 hl).1 h
    rw [hl] at hsettled
    rcases hsettled ⟨"::1".toList, PORT, -1, loopback6⟩ (by simp [defaults, listenAdd]) with h6 | h6
    · refine .inr (.inl fun s hs => ?_)
      rw [hl] at hs
      rcases List.mem_pair.1 hs with rfl | rfl
      · exact hopen
      · exact h6
    · exact .inr (.inr ⟨hnil, rfl, h6, hopen⟩)

theorem startsAnywhere_iff (conf : List Line) :
    StartsAnywhere gaiStrerror PORT opt_af loopback6 loopback4 conf ↔
      Alike PORT opt_af loopback6 loopback4 conf := by
  constructor
  · intro h
    by_cases hnone : ∀ s ∈ listening PORT opt_af loopback6 loopback4 conf, ¬ s.net.Bindable
    · exact .inl hnone
    · push Not at hnone
      have hconf := h.starts.2 hnone
      by_cases hnil : conf.filterMap (listenOf PORT) = []
      · exact alike_defaults gaiStrerror PORT opt_af loopback6 loopback4 hnil hconf
      · exact .inr (.inl (opens_of_anyOrder gaiStrerror PORT opt_af loopback6 loopback4
          (fun conf' hperm => (h.anyOrder conf' hperm).2 hconf) hnil))
  · rintro (hnone | hall | ⟨hnil, rfl, h6, h4⟩)
    · have hnot : ∀ conf', conf'.Perm conf → ¬ Starts gaiStrerror PORT opt_af loopback6 loopback4 conf' :=
        fun conf' hperm => not_starts gaiStrerror PORT opt_af loopback6 loopback4 fun s hs =>
          hnone s ((mem_listening_perm PORT opt_af loopback6 loopback4 hperm s).1 hs)
      have hconf := hnot conf (List.Perm.refl conf)
      exact ⟨⟨fun h => absurd h hconf, fun ⟨s, hs, hb⟩ => absurd hb (hnone s hs)⟩,
        fun conf' hperm => iff_of_false (hnot conf' hperm) hconf⟩
    · have hyes : ∀ conf', conf'.Perm conf → Starts gaiStrerror PORT opt_af loopback6 loopback4 conf' :=
        fun conf' hperm => starts_of_opens gaiStrerror PORT opt_af loopback6 loopback4 fun s hs =>
          hall s ((mem_listening_perm PORT opt_af loopback6 loopback4 hperm s).1 hs)
      have hconf := hyes conf (List.Perm.refl conf)
      obtain ⟨server, next, hl, -⟩ := start_cases gaiStrerror PORT opt_af loopback6 loopback4 conf
      have hserver : server ∈ listening PORT opt_af loopback6 loopback4 conf := by simp [hl]
      exact ⟨iff_of_true hconf ⟨server, hserver, (hall server hserver).bindable⟩,
        fun conf' hperm => iff_of_true (hyes conf' hperm) hconf⟩
    · have hl : listening PORT .unspec loopback6 loopback4 conf =
          [⟨"127.0.0.1".toList, PORT, -1, loopback4⟩, ⟨"::1".toList, PORT, -1, loopback6⟩] := by
        unfold listening
        rw [foldl_parseListen, hnil]
        rfl
      have hyes : ∀ conf', conf'.Perm conf → Starts gaiStrerror PORT .unspec loopback6 loopback4 conf' := by
        intro conf' hperm
        have hl' := (listening_perm_nil PORT .unspec loopback6 loopback4 hperm hnil).trans hl
        rw [starts_iff gaiStrerror PORT .unspec loopback6 loopback4 hl', hl', List.forall_mem_cons, List.forall_mem_singleton]
        exact ⟨⟨.inl h4, .inr h6⟩, h4⟩
      have hconf := hyes conf (List.Perm.refl conf)
      exact ⟨iff_of_true hconf ⟨_, by rw [hl]; exact List.mem_cons_self, h4.bindable⟩,
        fun conf' hperm => iff_of_true (hyes conf' hperm) hconf⟩

theorem onlyNoInterface_iff {conf : List Line} (hnot : ¬ Starts gaiStrerror PORT opt_af loopback6 loopback4 conf) :
    OnlyNoInterface gaiStrerror PORT opt_af loopback6 loopback4 conf ↔
      ∀ s ∈ listening PORT opt_af loopback6 loopback4 conf, s.net.Settled := by
  constructor
  · intro h
    cases hstart : start gaiStrerror PORT opt_af loopback6 loopback4 conf with
    | ok ss => exact absurd ⟨ss, hstart⟩ hnot
    | error e =>
      exact (noInterface_iff gaiStrerror PORT opt_af loopback6 loopback4 hstart).1 (h conf (List.Perm.refl conf) e hstart)
  · intro h conf' hperm e he
    refine (noInterface_iff gaiStrerror PORT opt_af loopback6 loopback4 he).2 fun s hs => h s ?_
    exact (mem_listening_perm PORT opt_af loopback6 loopback4 hperm s).1 hs

/-- The server starts exactly if it can listen somewhere, in any order of the lines, if and only if all addresses come to
the same; and it then ends with the message of `server_load` only, if and only if all of them are tried. -/
theorem server_load_starts (conf : List Line) :
    (StartsAnywhere gaiStrerror PORT opt_af loopback6 loopback4 conf ↔ Alike PORT opt_af loopback6 loopback4 conf) ∧
    (StartsAnywhere gaiStrerror PORT opt_af loopback6 loopback4 conf ∧
        OnlyNoInterface gaiStrerror PORT opt_af loopback6 loopback4 conf ↔
      Alike PORT opt_af loopback6 loopback4 conf ∧
        ∀ s ∈ listening PORT opt_af loopback6 loopback4 conf, s.net.Settled) := by
  refine ⟨startsAnywhere_iff gaiStrerror PORT opt_af loopback6 loopback4 conf, ?_⟩
  rw [startsAnywhere_iff gaiStrerror PORT opt_af loopback6 loopback4 conf]
  refine and_congr_right fun halike => ?_
  by_cases hstart : Starts gaiStrerror PORT opt_af loopback6 loopback4 conf
  · have hany := (startsAnywhere_iff gaiStrerror PORT opt_af loopback6 loopback4 conf).2 halike
    obtain ⟨server, next, hl, -⟩ := start_cases gaiStrerror PORT opt_af loopback6 loopback4 conf
    refine iff_of_true (fun conf' hperm e he => ?_)
      ((starts_iff gaiStrerror PORT opt_af loopback6 loopback4 hl).1 hstart).1
    obtain ⟨ss, hss⟩ := (hany.anyOrder conf' hperm).2 hstart
    rw [he] at hss
    cases hss
  · exact onlyNoInterface_iff gaiStrerror PORT opt_af loopback6 loopback4 hstart

end Setup

/-- `LISTEN 127.0.0.1` is bound, `LISTEN 192.168.50.1` is not, and is the last line: the server gives up. -/
theorem last_line_decides : ¬ StartsAnywhere (fun _ => []) "3493".toList .unspec (.resolved []) (.resolved [])
    [⟨["LISTEN".toList, "127.0.0.1".toList], .resolved [⟨4, 0, 0, 2, 0, 0⟩]⟩,
      ⟨["LISTEN".toList, "192.168.50.1".toList], .resolved [⟨5, 0, -1, 2, 0, 0⟩]⟩] := by
  intro h
  obtain ⟨ss, hss⟩ := h.starts.2 ⟨⟨"127.0.0.1".toList, "3493".toList, -1, .resolved [⟨4, 0, 0, 2, 0, 0⟩]⟩,
    .tail _ (.head _), _, rfl, _, .head _, by decide⟩
  cases hss

end Nut.Listen
