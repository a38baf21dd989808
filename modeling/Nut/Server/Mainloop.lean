import Nut.Lib.Transition
import Nut.Server.Conf
import Nut.Server.Netcmds

/-!
# `mainloop`: the runs of the server

A pass of `mainloop` reloads the files if it was told to, scans the drivers and the clients, and serves the sockets that
`poll` reports, one after the other.  Each of these is an `Event`, and a run is any list of them.

The name of a UPS and the socket of a client stand for the pointers in `handler`.
-/

namespace Nut

inductive Event where
  | reload (c : Connects) (files : Files)
  | scan (now : Int) (c : Connects) (w : Writes)
  | driver (name : CStr) (now : Int) (ret : ReadResult)
  | driverHup (name : CStr)
  | client (fd : Nat) (now : Int) (w : Writes) (buf : Option CStr)
  | clientHup (fd : Nat)
  | accept (fd : Nat) (now : Int) (addr : CStr)

/-- The scan of the drivers, with `nfds` descriptors in use: one that is not connected is tried, and the others are found
stale or not. -/
def scanUpses (c : Connects) (w : Writes) (maxage maxconn : Int) : Int → List Upstype → List Upstype
  | _, [] => []
  | nfds, ups :: rest =>
    if nfds < maxconn then
      match ups.sockFd with
      | none =>
        match sstateConnect c.now ups (c.result ups.name) with
        | (ups, fd) => { ups with sockFd := fd } :: scanUpses c w maxage maxconn nfds rest
      | some _ =>
        match sstateDead c.now (w.driver ups.name ups.sent.length) ups maxage with
        | (ups, dead) => { ups with stale := dead } :: scanUpses c w maxage maxconn (nfds + 1) rest
    else ups :: rest

/-- Shed clients after one minute of inactivity. -/
def scanClients (now : Int) (s : Upsd) : Upsd :=
  s.firstclient.foldl (fun s client => if 60 < now - client.lastHeard then clientDisconnect s client.sockFd else s) s

def scan (now : Int) (c : Connects) (w : Writes) (s : Upsd) : Upsd :=
  scanClients now { s with firstups := scanUpses c w s.maxage s.maxconn 0 s.firstups }

/-- `poll_reload` after a reload: it ends the program if the system allows less than MAXCONN, and also where `xrealloc` gets no
memory, as for none at all. -/
def pollReload (openMax : Int) (s : Upsd) : Option Upsd :=
  if openMax < s.maxconn ∨ s.maxconn ≤ 0 then none else some s

/-- A socket that `accept` returns is not that of another client. -/
def Upsd.step (s : Upsd) : Event → Option Upsd
  | .reload c files => (confReload c s files).bind (pollReload c.openMax)
  | .scan now c w => some (scan now c w s)
  | .driver name now ret =>
    match s.firstups.find? fun ups => ups.name = name with
    | none => some s
    | some ups => (sstateReadline now ups ret).map fun ups => s.modifyUps name fun _ => ups
  | .driverHup name => some (s.modifyUps name sstateDisconnect)
  | .client fd now w buf => some (clientReadline now w s fd buf)
  | .clientHup fd => some (clientDisconnect s fd)
  | .accept fd now addr => if s.client fd = none then some (clientConnect now s fd addr) else none

theorem pollReload_iff {openMax : Int} {s s' : Upsd} :
    pollReload openMax s = some s' ↔ s = s' ∧ 0 < s.maxconn ∧ s.maxconn ≤ openMax := by
  unfold pollReload
  split_ifs with h
  · refine iff_of_false (fun hnone => ?_) fun hs => ?_
    · cases hnone
    · omega
  · exact ⟨fun hs => ⟨Option.some.inj hs, by omega⟩, fun hs => congrArg some hs.1⟩

theorem step_reload {s s' : Upsd} {c : Connects} {files : Files} :
    s.step (.reload c files) = some s' ↔
      confReload c s files = some s' ∧ 0 < s'.maxconn ∧ s'.maxconn ≤ c.openMax := by
  show (confReload c s files).bind (pollReload c.openMax) = some s' ↔ _
  rw [Option.bind_eq_some_iff]
  constructor
  · rintro ⟨t, ht, hpoll⟩
    obtain ⟨rfl, hpos, hle⟩ := pollReload_iff.1 hpoll
    exact ⟨ht, hpos, hle⟩
  · rintro ⟨h, hpos, hle⟩
    exact ⟨s', h, pollReload_iff.2 ⟨rfl, hpos, hle⟩⟩

def Upsd.run (s : Upsd) (events : List Event) : Option Upsd := events.foldlM Upsd.step s

/-- The client that the event serves. -/
def Event.serves : Event → Option Nat
  | .client fd _ _ _ => some fd
  | .clientHup fd => some fd
  | _ => none

/-- The event is one of a socket. -/
def Event.Polled : Event → Prop
  | .reload _ _ => False
  | .scan _ _ _ => False
  | _ => True

/-- `time` counts from the epoch, so it is past the first minute. -/
def Event.Clocked : Event → Prop
  | .scan now _ _ => 60 < now
  | .client _ now _ _ => 60 < now
  | .accept _ now _ => 60 < now
  | _ => True

/-- A pass: the reload, if there is one, the scans, and what `poll` reports, each socket once. -/
structure Pass where
  reload : Option (Connects × Files)
  now : Int
  connects : Connects
  writes : Writes
  polled : List Event
  clock : 60 < now
  sockets : ∀ e ∈ polled, e.Polled ∧ e.Clocked
  once : (polled.filterMap Event.serves).Nodup

/-- The part of the pass before `poll`. -/
def Pass.start (p : Pass) : List Event :=
  (p.reload.map fun r => Event.reload r.1 r.2).toList ++ [.scan p.now p.connects p.writes]

def Pass.events (p : Pass) : List Event := p.start ++ p.polled

def Started (s : Upsd) : Prop :=
  ∃ c files maxconn cmdList varList upsVersion, upsdStart c files maxconn cmdList varList upsVersion = some s

/-- The states of a server that was started and has run for any time. -/
def Upsd.Reachable : Upsd → Prop := Transition.Reach Started fun s s' => ∃ e, s.step e = some s'

end Nut
