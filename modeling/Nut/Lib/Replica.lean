import Mathlib.Data.Set.Function

/-!
# Replicas

A source and a replica of it are partial maps.  The replica gets the updates of the source one after the other
(`Follows.updates`), and at some time a snapshot of all that the source has (`Follows.snapshot`).  From then on it is
the source, in all keys that count, exactly if no key is left over: one that the replica began with, that the source
did not have, and that no update was about (`Follows.eqOn_iff`).

There is one key that the replica may fill in by itself, if it has nothing there (`Follows.congr`).
-/

namespace Replica

variable {κ ν : Type*} [DecidableEq κ]

/-- The key gets the value, or loses the one it has. -/
def assign (m : κ → Option ν) (u : κ × Option ν) : κ → Option ν := Function.update m u.1 u.2

theorem assign_self (m : κ → Option ν) (k : κ) (o : Option ν) : assign m (k, o) k = o := by
  rw [assign, Function.update_self]

theorem assign_of_ne {k : κ} {u : κ × Option ν} (h : k ≠ u.1) (m : κ → Option ν) : assign m u k = m k := by
  rw [assign, Function.update_of_ne h]

/-- An update that tells what is there already. -/
theorem assign_eq_self {m : κ → Option ν} {u : κ × Option ν} (h : u.2 = m u.1) : assign m u = m := by
  rw [assign, h, Function.update_eq_self]

theorem assign_congr {m m' : κ → Option ν} {k : κ} (h : m k = m' k) (u : κ × Option ν) :
    assign m u k = assign m' u k := by
  by_cases hk : k = u.1
  · subst hk
    rw [assign_self, assign_self]
  · rw [assign_of_ne hk, assign_of_ne hk, h]

/-- What no update is about stays. -/
theorem foldl_assign_of_notMem {us : List (κ × Option ν)} {k : κ} (h : k ∉ us.map Prod.fst) (m : κ → Option ν) :
    us.foldl assign m k = m k := by
  induction us generalizing m with
  | nil => rfl
  | cons u us ih =>
    rw [List.map_cons, List.mem_cons, not_or] at h
    rw [List.foldl_cons, ih h.2, assign_of_ne h.1]

/-- What an update is about does not depend on what was there. -/
theorem foldl_assign_of_mem {us : List (κ × Option ν)} {k : κ} (h : k ∈ us.map Prod.fst) (m m' : κ → Option ν) :
    us.foldl assign m k = us.foldl assign m' k := by
  induction us generalizing m m' with
  | nil => exact absurd h List.not_mem_nil
  | cons u us ih =>
    rw [List.foldl_cons, List.foldl_cons]
    by_cases hrest : k ∈ us.map Prod.fst
    · exact ih hrest (assign m u) (assign m' u)
    · -- this is the last update about the key
      have hk : k = u.1 := (List.mem_cons.1 h).resolve_right hrest
      rw [foldl_assign_of_notMem hrest, foldl_assign_of_notMem hrest, hk]
      exact (assign_self m u.1 u.2).trans (assign_self m' u.1 u.2).symm

theorem foldl_assign_congr {m m' : κ → Option ν} {k : κ} (h : m k = m' k) (us : List (κ × Option ν)) :
    us.foldl assign m k = us.foldl assign m' k := by
  by_cases hk : k ∈ us.map Prod.fst
  · exact foldl_assign_of_mem hk m m'
  · rw [foldl_assign_of_notMem hk, foldl_assign_of_notMem hk, h]

/-- Updates that tell what the source has do nothing to it. -/
theorem foldl_assign_self {us : List (κ × Option ν)} {s : κ → Option ν} (h : ∀ u ∈ us, u.2 = s u.1) :
    us.foldl assign s = s := by
  induction us with
  | nil => rfl
  | cons u us ih =>
    rw [List.foldl_cons, assign_eq_self (h u List.mem_cons_self)]
    exact ih fun v hv => h v (List.mem_cons_of_mem u hv)

/-- The source began as `s₀` and is `s`, the replica `m` of it began as `m₀`, and both got the updates `us`; but the
replica may fill in the key `p`.  Of the replica only the keys `K` count.  `done` tells whether there was a
snapshot. -/
structure Follows (K : Set κ) (p : κ) (s₀ m₀ : κ → Option ν) (us : List (κ × Option ν)) (done : Bool)
    (s m : κ → Option ν) : Prop where
  source : s = us.foldl assign s₀
  replica : ∀ k ∈ K, k ≠ p → m k = us.foldl assign m₀ k
  told : done = true → ∀ k, s k ≠ none → k ∈ us.map Prod.fst
  filled : done = true → p ∈ K → m p = s p

namespace Follows

variable {K : Set κ} {p : κ} {s₀ m₀ : κ → Option ν} {us us' : List (κ × Option ν)} {done : Bool} {s m m' : κ → Option ν}

theorem start (K : Set κ) (p : κ) (s m : κ → Option ν) : Follows K p s m [] false s m where
  source := rfl
  replica _ _ _ := rfl
  told hd := Bool.noConfusion hd
  filled hd := Bool.noConfusion hd

theorem updates (h : Follows K p s₀ m₀ us done s m) (us' : List (κ × Option ν)) :
    Follows K p s₀ m₀ (us ++ us') done (us'.foldl assign s) (us'.foldl assign m) where
  source := by rw [List.foldl_append, h.source]
  replica k hk hp := by
    rw [List.foldl_append]
    exact foldl_assign_congr (h.replica k hk hp) us'
  told hd k hsome := by
    rw [List.map_append, List.mem_append]
    by_cases hk : k ∈ us'.map Prod.fst
    · exact .inr hk
    · rw [foldl_assign_of_notMem hk] at hsome
      exact .inl (h.told hd k hsome)
  filled hd hp := foldl_assign_congr (h.filled hd hp) us'

/-- A snapshot tells of all keys that the source has, and of the one that the replica may have filled in. -/
theorem snapshot (h : Follows K p s₀ m₀ us done s m) (hp : s p ≠ none) (hus : ∀ u ∈ us', u.2 = s u.1)
    (hall : ∀ k, s k ≠ none → k ∈ us'.map Prod.fst) :
    Follows K p s₀ m₀ (us ++ us') true s (us'.foldl assign m) := by
  have hself : us'.foldl assign s = s := foldl_assign_self hus
  obtain ⟨hsource, hreplica, -, -⟩ := h.updates us'
  rw [hself] at hsource
  refine ⟨hsource, hreplica, fun _ k hk => ?_, fun _ _ => ?_⟩
  · rw [List.map_append]
    exact List.mem_append_right _ (hall k hk)
  · rw [foldl_assign_of_mem (hall p hp) m s, hself]

theorem of_eqOn (h : Follows K p s₀ m₀ us done s (us'.foldl assign m)) (hsame : Set.EqOn m' m K) :
    Follows K p s₀ m₀ us done s (us'.foldl assign m') where
  source := h.source
  replica k hk hp := (foldl_assign_congr (hsame hk) us').trans (h.replica k hk hp)
  told := h.told
  filled hd hp := (foldl_assign_congr (hsame hp) us').trans (h.filled hd hp)

/-- A replica that differs only where it may fill in. -/
theorem congr (h : Follows K p s₀ m₀ us done s (us'.foldl assign m)) (hs : done = true → s p ≠ none)
    (hsame : ∀ k ∈ K, k ≠ p → m' k = m k) (hfill : m' p = m p ∨ m p = none) :
    Follows K p s₀ m₀ us done s (us'.foldl assign m') where
  source := h.source
  replica k hk hp := (foldl_assign_congr (hsame k hk hp) us').trans (h.replica k hk hp)
  told := h.told
  filled hd hp := by
    have hfilled := h.filled hd hp
    rcases hfill with heq | hempty
    · exact (foldl_assign_congr heq us').trans hfilled
    · -- the updates on their way settle it
      by_cases hmem : p ∈ us'.map Prod.fst
      · rwa [foldl_assign_of_mem hmem m' m]
      · rw [foldl_assign_of_notMem hmem, hempty] at hfilled
        exact absurd hfilled.symm (hs hd)

/-- After a snapshot the replica is the source exactly if nothing is left over. -/
theorem eqOn_iff (h : Follows K p s₀ m₀ us done s m) (hd : done = true) :
    Set.EqOn m s K ↔ ∀ k ∈ K, k ≠ p → m₀ k ≠ none → s₀ k = none → k ∈ us.map Prod.fst := by
  constructor
  · intro hequal k hk hp hsome hnone
    by_contra hmem
    have hm := h.replica k hk hp
    have hs := congrFun h.source k
    rw [foldl_assign_of_notMem hmem] at hm hs
    exact hsome (hm.symm.trans ((hequal hk).trans (hs.trans hnone)))
  · intro hleft k hk
    by_cases hp : k = p
    · subst hp
      exact h.filled hd hk
    have hm := h.replica k hk hp
    have hs := congrFun h.source k
    by_cases hmem : k ∈ us.map Prod.fst
    · rw [hm, hs]
      exact foldl_assign_of_mem hmem m₀ s₀
    · -- the source does not have the key, so it never had it
      have hnone : s k = none := by
        by_contra hsome
        exact hmem (h.told hd k hsome)
      rw [foldl_assign_of_notMem hmem] at hm hs
      have hm₀ : m₀ k = none := by
        by_contra hsome
        exact hmem (hleft k hk hp hsome (hs.symm.trans hnone))
      rw [hm, hm₀, hnone]

end Follows

end Replica
