import Nut.Sync.Agreement
import Nut.Sync.Race

/-!
# What a client reads is what the driver said

A driver, the server that mirrors it, and a client of the server.  Once the dump is through and nothing is on its way
between driver and server, the list that the client reads are the variables of the driver, each once and in the order of
their names, with their values (`driver_read`): two protocols, two encodings and two copies of the tree apart.
-/

namespace Nut

open SearchTree

namespace Link

variable {w : Nat → Bool} {upsh : UpsHandler} {fd : Nat} {L : Link}

/-- A mirror that is not behind. -/
theorem Reachable.behind (hw : ∀ n, w n = true) (h : Reachable Call.Plain w upsh fd L)
    (hdone : L.server.dumpdone = true)
    (hdrained : L.inflight fd = []) : PlainDriver L.driver ∧ Behind true L.driver.published L.server.mirror := by
  obtain ⟨hd, hwait | ⟨conn, done, ms, hopen⟩⟩ := h.inv hw
  · rw [hwait.dumpdone] at hdone
    contradiction
  · have hflight : L.inflight fd = conn.out.drop L.taken := by
      rw [inflight, connOut, hopen.found]
      rfl
    have hrec := hopen.receives
    rw [← hflight, hdrained] at hrec
    obtain ⟨rfl, -⟩ := hrec.drained
    have hbehind : Behind done L.driver.published L.server.mirror := hopen.behind
    have htrue : done = true := hbehind.dumpdone.symm.trans hdone
    exact ⟨hd, htrue ▸ hbehind⟩

end Link

/-- What a client is given for a variable of the driver: the name up to its case, and the value, behind `FSD` when it
is the status and a shutdown is forced. -/
def AnswerOf (u : CStr) (fsd : Bool) (n : StNode) (answer : List CStr) : Prop :=
  ∃ var, strcasecmp var n.var = .eq ∧ answer = ["VAR".toList, u, var, servedVal fsd var n.raw]

section

variable {w : Nat → Bool} {upsh : UpsHandler} {fd sock : Nat} {L : Link} {wc : Writes} {s : Upsd} {u : CStr}
  {ups : Upstype}

theorem driver_walk (hw : ∀ n, w n = true) (h : Link.Reachable Call.Plain w upsh fd L)
    (hdone : L.server.dumpdone = true)
    (hdrained : L.inflight fd = []) (htree : ups.inforoot = L.server.inforoot) :
    List.Forall₂ (AnswerOf u ups.fsd) L.driver.dtreeRoot.walk (ups.inforoot.walk.map (varAnswer u ups.fsd)) := by
  obtain ⟨hd, hbehind⟩ := h.behind hw hdone hdrained
  have hagree := (hbehind.sameSets hd).vars
  have hwalk := hagree.forall₂_walk hd.sound.sorted.tree hbehind.sorted.tree
  rw [List.forall₂_map_right_iff, htree]
  refine ((List.forall₂_and_left _ _).2 ⟨hd.nodes, hwalk⟩).imp ?_
  rintro n node ⟨hplain, hkey, hview⟩
  refine ⟨node.var, strcasecmp_eq.2 hkey.symm, ?_⟩
  have hval : n.val = node.val := congrArg Prod.fst hview
  rw [varAnswer, ← hval, hplain.val_eq, ← escape_of_forall hplain.raw, unescape_escape, escape_of_forall hplain.raw]

/-- A client that lists the variables of a UPS is given those of its driver. -/
theorem driver_read (hw : ∀ n, w n = true) (h : Link.Reachable Call.Plain w upsh fd L)
    (hdone : L.server.dumpdone = true)
    (hdrained : L.inflight fd = []) (htree : ups.inforoot = L.server.inforoot) (hserv : Servable u ups)
    (hserves : Serves wc s sock) (hups : getUpsPtr s u = some ups) :
    (∃ net t, Exchange wc s sock (buildCmd upscliNetbufLen "LIST".toList ["VAR".toList, u]) net t) ∧
      ∀ conn net t, conn.Settled → Exchange wc s sock (buildCmd upscliNetbufLen "LIST".toList ["VAR".toList, u]) net t →
        ∃ mid left answers conn', upscliListStart conn net ["VAR".toList, u] = some (mid, left, true) ∧
          Iterates ["VAR".toList, u] mid left answers conn' [] ∧
          List.Forall₂ (AnswerOf u ups.fsd) L.driver.dtreeRoot.walk answers := by
  obtain ⟨hexists, hgives⟩ := hserv.listGives hserves hups
  refine ⟨hexists, fun conn net t hsettled hnet => ?_⟩
  obtain ⟨mid, left, conn', hstart, hiter, -⟩ := hgives conn net t hsettled hnet
  exact ⟨mid, left, _, conn', hstart, hiter, driver_walk hw h hdone hdrained htree⟩

end

/-! ### A driver and its clients -/

open Link in
/-- Driver and server after a dump between changes. -/
def raceLink : Link := (follow Call.Plain 4 fresh raceRun).getD fresh

def raceUps : Upstype :=
  { newUps "apcsmart-ups".toList "ups".toList none with
    sockFd := some 5, stale := false, inforoot := raceLink.server.inforoot }

def raceServer : Upsd :=
  { oneUpsServer with
    firstups := [raceUps]
    firstclient := [⟨"::1".toList, 7, 0, none, none, none, pconfInit, []⟩] }

theorem driver_read_race : ∃ net t mid left answers conn',
    Exchange allWritten raceServer 7 (buildCmd upscliNetbufLen "LIST".toList ["VAR".toList, "ups".toList]) net t ∧
      upscliListStart Upsconn.connected net ["VAR".toList, "ups".toList] = some (mid, left, true) ∧
      Iterates ["VAR".toList, "ups".toList] mid left answers conn' [] ∧
      List.Forall₂ (AnswerOf "ups".toList false) raceLink.driver.dtreeRoot.walk answers := by
  have hrun : (Link.follow Call.Plain 4 Link.fresh Link.raceRun).isSome ∧ raceLink.server.dumpdone = true ∧
      raceLink.inflight 4 = [] ∧ raceUps.inforoot = [StateCall.setinfo "ups.status".toList "OL".toList,
        .setinfo "ups.load".toList "42".toList].foldl StateCall.run .nil := by decide +kernel
  obtain ⟨hsome, hdone, hdrained, hroot⟩ := hrun
  obtain ⟨L, hfollow⟩ := Option.isSome_iff_exists.1 hsome
  have hlink : raceLink = L := by rw [raceLink, hfollow, Option.getD_some]
  have hreach : Link.Reachable Call.Plain (fun _ => true) ⟨none, none⟩ 4 raceLink := by
    rw [hlink]
    exact Link.reachable_follow Link.reachable_fresh hfollow
  have hserv : Servable "ups".toList raceUps := by
    refine ⟨⟨by decide, rfl⟩, ⟨_, hroot⟩, by decide, ?_, ?_, by decide, ?_⟩
    all_goals
      rw [hroot]
      decide
  obtain ⟨⟨net, t, hnet⟩, hread⟩ :=
    @driver_read (fun _ => true) ⟨none, none⟩ 4 7 raceLink allWritten raceServer "ups".toList
    raceUps (fun _ => rfl) hreach hdone hdrained rfl hserv ⟨⟨_, rfl, atLineStart_pconfInit⟩, fun _ => rfl⟩ rfl
  obtain ⟨mid, left, answers, conn', hstart, hiter, hall⟩ := hread Upsconn.connected net t ⟨⟨rfl, .init⟩, rfl⟩ hnet
  exact ⟨net, t, mid, left, answers, conn', hnet, hstart, hiter, hall⟩

end Nut
