import Nut.Clients.Upsmon

/-!
# The master waits for its slaves

A query that fails leaves `maxlogins` as it is, so `slavesync` cannot tell it from a UPS without slaves.  It returns too
early exactly in a round, before `HOSTSYNC` has passed, in which a query is lost and no other answer shows a slave
(`waits_iff`).
-/

namespace Nut.Upsmon

/-- The login count in the answer to the query about the UPS, if there is one. -/
def loginCount (net : CStr → Net) (ups : Utype) : Option Int32 :=
  match ups.upsname with
  | none => none
  | some upsname =>
    match upscliGet ups.conn (net ups.sys) ["NUMLOGINS".toList, upsname] with
    | some (conn, _, true) => conn.pcCtx.args[2]?.map fun answer => atoi (snprintf 512 answer)
    | _ => none

/-- Whenever `slavesync` returns before `HOSTSYNC` seconds have passed, the last round of queries got a login count of at
most one for every UPS in master mode. -/
def Waits (hostsync : Int32) (start : Int) (rounds : List Round) (upses : List Utype) : Prop :=
  ∀ pre round post cur last sync, rounds = pre ++ round :: post →
    slavesync hostsync start pre upses = some (cur, .waiting) →
    slavesync hostsync start [round] cur = some (last, sync) → sync ≠ .waiting → round.now - start < hostsync.toInt →
    ∀ ups ∈ cur, flagIsset ups.status stMaster = true → ∃ logins, loginCount round.net ups = some logins ∧ logins ≤ 1

/-- No answer of the round shows a second login. -/
def Quiet (net : CStr → Net) (upses : List Utype) : Prop :=
  ∀ ups ∈ upses, flagIsset ups.status stMaster = true →
    ∃ r, getVar ups (net ups.sys) "numlogins".toList = some r ∧ ∀ temp, r.2 = some temp → atoi temp ≤ 1

/-- In the rounds that are reached before `HOSTSYNC` has passed, no query is lost where no answer shows a second login. -/
def NoneLost (hostsync : Int32) (start : Int) (rounds : List Round) (upses : List Utype) : Prop :=
  ∀ pre round post cur, rounds = pre ++ round :: post → slavesync hostsync start pre upses = some (cur, .waiting) →
    round.now - start < hostsync.toInt → Quiet round.net cur →
    ∀ ups ∈ cur, flagIsset ups.status stMaster = true → (loginCount round.net ups).isSome

private theorem max_le_one (m n : Int32) : (if m < n then n else m) ≤ 1 ↔ m ≤ 1 ∧ n ≤ 1 := by
  simp only [Int32.lt_iff_toInt_lt, Int32.le_iff_toInt_le]
  split <;> omega

/-- A round ends with at most one login when that is so of every answer. -/
theorem queryLogins_le_one (net : CStr → Net) (upses : List Utype) (m : Int32) :
    (∃ r, queryLogins net upses m = some r ∧ r.2 ≤ 1) ↔ m ≤ 1 ∧ Quiet net upses := by
  induction upses generalizing m with
  | nil => simp [queryLogins, Quiet]
  | cons ups rest ih =>
    have hquiet : Quiet net (ups :: rest) ↔ (flagIsset ups.status stMaster = true →
        ∃ r, getVar ups (net ups.sys) "numlogins".toList = some r ∧ ∀ temp, r.2 = some temp → atoi temp ≤ 1) ∧
          Quiet net rest := by
      simp only [Quiet, List.forall_mem_cons]
    have hrest : ∀ (u : Utype) (m : Int32), (∃ r, ((queryLogins net rest m).map fun r => (u :: r.1, r.2)) = some r ∧ r.2 ≤ 1) ↔
        m ≤ 1 ∧ Quiet net rest := by
      intro u m
      rw [← ih m]
      cases queryLogins net rest m <;> simp
    rw [hquiet]
    by_cases hmaster : flagIsset ups.status stMaster = true
    · simp only [queryLogins, hmaster, Bool.true_eq_false, if_false, true_implies]
      rcases hget : getVar ups (net ups.sys) "numlogins".toList with _ | ⟨ups', _ | temp⟩
      · simp
      · rw [hrest]
        simp
      · rw [hrest, max_le_one]
        simp [and_assoc]
    · simp only [queryLogins, Bool.not_eq_true] at hmaster ⊢
      simp only [hmaster, if_true, hrest]
      simp

/-- A login count is what the program reads. -/
theorem getVar_of_loginCount {net : CStr → Net} {ups : Utype} {logins : Int32} (h : loginCount net ups = some logins) :
    ∃ ups' temp, getVar ups (net ups.sys) "numlogins".toList = some (ups', some temp) ∧ logins = atoi temp := by
  unfold loginCount at h
  split at h
  · simp at h
  · rename_i upsname hname
    split at h
    · rename_i conn reads hget
      obtain ⟨answer, hanswer, rfl⟩ := Option.map_eq_some_iff.1 h
      rw [PconfCtx.args, List.getElem?_take] at hanswer
      split_ifs at hanswer with hlt
      refine ⟨{ ups with conn := conn }, snprintf 512 answer, ?_, rfl⟩
      simp only [getVar, hname, if_true, hget, List.length_cons, List.length_nil, Nat.reduceAdd]
      rw [if_neg (List.cons_ne_nil _ _), if_neg (by omega), hanswer]
      rfl
    · simp at h

/-- The loop ends before its time in the quiet rounds. -/
private theorem slavesync_round {hostsync : Int32} {start : Int} {round : Round} {cur : List Utype}
    (hnow : round.now - start < hostsync.toInt) :
    (∃ last sync, slavesync hostsync start [round] cur = some (last, sync) ∧ sync ≠ .waiting) ↔ Quiet round.net cur := by
  have hround := queryLogins_le_one round.net cur 0
  simp only [show (0 : Int32) ≤ 1 by decide, true_and] at hround
  rw [← hround]
  simp only [slavesync]
  rcases queryLogins round.net cur 0 with _ | ⟨last, m⟩
  · simp
  · by_cases hm : m ≤ 1
    · simp [hm]
    · simp [hm, show ¬hostsync.toInt < round.now - start by omega]

/-- The master waits for its slaves exactly when no query is lost in a round that shows no slave. -/
theorem waits_iff (hostsync : Int32) (start : Int) (rounds : List Round) (upses : List Utype) :
    Waits hostsync start rounds upses ↔ NoneLost hostsync start rounds upses := by
  constructor
  · intro h pre round post cur he hpre hnow hquiet ups hups hmaster
    obtain ⟨last, sync, hsync, hne⟩ := (slavesync_round hnow).2 hquiet
    obtain ⟨logins, hlogins, -⟩ := h pre round post cur last sync he hpre hsync hne hnow ups hups hmaster
    exact hlogins ▸ rfl
  · intro h pre round post cur last sync he hpre hsync hne hnow ups hups hmaster
    have hquiet := (slavesync_round hnow).1 ⟨last, sync, hsync, hne⟩
    obtain ⟨logins, hlogins⟩ := Option.isSome_iff_exists.1 (h pre round post cur he hpre hnow hquiet ups hups hmaster)
    refine ⟨logins, hlogins, ?_⟩
    obtain ⟨ups', temp, hget, rfl⟩ := getVar_of_loginCount hlogins
    obtain ⟨r, hr, hle⟩ := hquiet ups hups hmaster
    rw [hget, Option.some.injEq] at hr
    exact hle temp (hr ▸ rfl)

/-- `upsd` refuses the query because the data is stale, and the master does not wait. -/
theorem stale_not_waits : ¬Waits 15 0
    [⟨fun _ => ⟨14, [.bytes "ERR DATA-STALE\n".toList]⟩, 0⟩]
    [{ newUps "su@host".toList (some "su".toList) 1 "u".toList "p".toList "master".toList with conn := .connected }] := by
  intro h
  obtain ⟨logins, hlogins, -⟩ := h [] _ [] _ _ .slavesGone rfl rfl rfl (by decide) (by decide) _ (List.mem_singleton_self _)
    (by decide)
  have hnone : ∀ o : Option Int32, o = none → o = some logins → False := by rintro o rfl h; simp at h
  exact hnone _ (by decide) hlogins

end Nut.Upsmon
