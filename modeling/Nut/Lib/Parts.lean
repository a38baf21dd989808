import Mathlib.Data.List.Forall2
import Mathlib.Data.List.Perm.Basic

/-!
# Parts in any order

A list is given in parts, which keep their order while the elements of a part stand in any order.  The elements that can come
behind the first one are listed (`mem_behind`), and so are the last values that can be given behind it (`mem_outcomes`).
-/

namespace Parts

variable {α β : Type*} {g : α → Option β} {d : β} {p p' : List α} {ps ps' : List (List α)}

/-- The elements of every part are in another order. -/
def Rearranged (ps ps' : List (List α)) : Prop := List.Forall₂ List.Perm ps ps'

/-- The elements that can come behind the first one. -/
def behind : List (List α) → List α
  | [] => []
  | p :: ps => (if p.length = 1 then [] else p) ++ ps.flatten

/-- The last value that is given behind the first element. -/
def lastBehind (g : α → Option β) (d : β) (l : List α) : β := (l.tail.filterMap g).getLast?.getD d

/-- The values in the last part that gives some. -/
def lastValues (g : α → Option β) : List (List α) → List β
  | [] => []
  | p :: ps => if (lastValues g ps).isEmpty then p.filterMap g else lastValues g ps

/-- The last values that the first part can give behind its first element. -/
def headValues (g : α → Option β) (d : β) (p : List α) : List β :=
  if p.length = 1 then [d] else if (p.filterMap g).length ≤ 1 then d :: p.filterMap g else p.filterMap g

/-- The last values that can be given behind the first element. -/
def outcomes (g : α → Option β) (d : β) : List (List α) → List β
  | [] => [d]
  | p :: ps => if (lastValues g ps).isEmpty then headValues g d p else lastValues g ps

section Rearranged

theorem Rearranged.refl (ps : List (List α)) : Rearranged ps ps :=
  List.forall₂_same.2 fun p _ => .refl p

theorem Rearranged.trans {ps'' : List (List α)} (h : Rearranged ps ps') (h' : Rearranged ps' ps'') : Rearranged ps ps'' := by
  induction h generalizing ps'' with
  | nil => exact h'
  | cons hp _ ih =>
    cases h' with
    | cons hp' h' => exact .cons (hp.trans hp') (ih h')

theorem Rearranged.perm (h : Rearranged ps ps') : ps.flatten.Perm ps'.flatten := by
  induction h with
  | nil => exact .refl _
  | cons hp _ ih => exact hp.append ih

/-- The parts of one kind are rearranged with all. -/
theorem Rearranged.filter (h : Rearranged ps ps') {q : List α → Bool} (hq : ∀ p p', p.Perm p' → q p = q p') :
    Rearranged (ps.filter q) (ps'.filter q) := by
  induction h with
  | nil => exact .nil
  | @cons p p' _ _ hp _ ih =>
    rw [List.filter_cons, List.filter_cons, ← hq p p' hp]
    split
    · exact .cons hp ih
    · exact ih

/-- The parts of one kind can be rearranged and those of another kind left alone. -/
theorem exists_rearranged {q : List α → Bool} (h : Rearranged (ps.filter q) ps') :
    ∃ all, Rearranged ps all ∧ (∀ r : List α → Bool, (∀ p p', p.Perm p' → r p = r p') →
      (∀ p ∈ ps, r p = true → q p = false) → all.filter r = ps.filter r) ∧
      ((∀ p p', p.Perm p' → q p = q p') → all.filter q = ps') := by
  induction ps generalizing ps' with
  | nil =>
    cases h
    exact ⟨[], .nil, fun _ _ _ => rfl, fun _ => rfl⟩
  | cons p ps ih =>
    rw [List.filter_cons] at h
    by_cases hp : q p = true
    · rw [if_pos hp] at h
      cases h with
      | @cons _ p' _ ps' hperm h =>
        obtain ⟨all, hall, hother, hkind⟩ := ih h
        refine ⟨p' :: all, .cons hperm hall, fun r hr hapart => ?_, fun hq => ?_⟩
        · have hnot : r p = false := by
            by_contra hrp
            have := hapart p List.mem_cons_self (Bool.not_eq_false _ ▸ hrp)
            exact Bool.false_ne_true (this.symm.trans hp)
          rw [List.filter_cons_of_neg (by rw [← hr p p' hperm, hnot]; exact Bool.false_ne_true),
            List.filter_cons_of_neg (by rw [hnot]; exact Bool.false_ne_true)]
          exact hother r hr fun p hp => hapart p (List.mem_cons_of_mem _ hp)
        · rw [List.filter_cons_of_pos (hq p p' hperm ▸ hp), hkind hq]
    · rw [if_neg hp] at h
      obtain ⟨all, hall, hother, hkind⟩ := ih h
      refine ⟨p :: all, .cons (.refl p) hall, fun r hr hapart => ?_, fun hq => ?_⟩
      · rw [List.filter_cons, List.filter_cons, hother r hr fun p hp => hapart p (List.mem_cons_of_mem _ hp)]
      · rw [List.filter_cons_of_neg hp, hkind hq]

/-- What a list gives in another order is what it gives from another order. -/
theorem exists_perm_filterMap {γ : Type*} {f : γ → Option α} {l l' : List α} (h : l.Perm l') (body : List γ)
    (hbody : body.filterMap f = l) : ∃ body', body.Perm body' ∧ body'.filterMap f = l' := by
  induction h generalizing body with
  | nil => exact ⟨body, .refl _, hbody⟩
  | @cons a l l' _ ih =>
    obtain ⟨pre, x, post, rfl, hpre, hx, hpost⟩ := List.filterMap_eq_cons_iff.1 hbody
    obtain ⟨post', hperm, hpost'⟩ := ih post hpost
    refine ⟨pre ++ x :: post', (hperm.cons x).append_left pre, ?_⟩
    rw [List.filterMap_append, List.filterMap_eq_nil_iff.2 hpre, List.filterMap_cons, hx, hpost']
    rfl
  | swap a b l =>
    obtain ⟨pre, x, rest, rfl, hpre, hx, hrest⟩ := List.filterMap_eq_cons_iff.1 hbody
    obtain ⟨mid, y, post, rfl, hmid, hy, hpost⟩ := List.filterMap_eq_cons_iff.1 hrest
    refine ⟨pre ++ y :: (mid ++ x :: post), ?_, ?_⟩
    · refine List.Perm.append_left pre ?_
      calc (x :: (mid ++ y :: post)).Perm (x :: y :: (mid ++ post)) := (List.perm_middle).cons x
        _ |>.Perm (y :: x :: (mid ++ post)) := .swap y x _
        _ |>.Perm (y :: (mid ++ x :: post)) := (List.perm_middle.symm).cons y
    · rw [List.filterMap_append, List.filterMap_eq_nil_iff.2 hpre, List.filterMap_cons, hy, List.filterMap_append,
        List.filterMap_eq_nil_iff.2 hmid, List.filterMap_cons, hx, hpost]
      rfl
  | trans _ _ ih ih' =>
    obtain ⟨body', hperm, hbody'⟩ := ih body hbody
    obtain ⟨body'', hperm', hbody''⟩ := ih' body' hbody'
    exact ⟨body'', hperm.trans hperm', hbody''⟩

end Rearranged

section Behind

/-- An element of a part with others can be put behind the first one. -/
theorem exists_perm_concat {c : α} (hc : c ∈ p) (hp : p.length ≠ 1) : ∃ a l, p.Perm (a :: l ++ [c]) := by
  obtain ⟨pre, post, rfl⟩ := List.append_of_mem hc
  have hperm : (pre ++ c :: post).Perm (pre ++ post ++ [c]) :=
    List.perm_middle.trans (List.perm_append_singleton c (pre ++ post)).symm
  cases hl : pre ++ post with
  | nil =>
    have hlength := congrArg List.length hl
    rw [List.length_append, List.length_nil] at hlength
    rw [List.length_append, List.length_cons] at hp
    omega
  | cons a l => exact ⟨a, l, hl ▸ hperm⟩

theorem mem_behind (hne : ∀ p ∈ ps, p ≠ []) {c : α} : c ∈ behind ps ↔ ∃ ps', Rearranged ps ps' ∧ c ∈ ps'.flatten.tail := by
  constructor
  · intro h
    rcases ps with _ | ⟨p, ps⟩
    · cases h
    · rcases List.mem_append.1 h with h | h
      · split at h
        · cases h
        · rename_i hp
          obtain ⟨a, l, hperm⟩ := exists_perm_concat h hp
          exact ⟨(a :: l ++ [c]) :: ps, .cons hperm (Rearranged.refl ps), by simp⟩
      · refine ⟨p :: ps, Rearranged.refl _, ?_⟩
        rw [List.flatten_cons, List.tail_append_of_ne_nil (hne p List.mem_cons_self)]
        exact List.mem_append_right _ h
  · rintro ⟨ps', h, hc⟩
    cases h with
    | nil => cases hc
    | @cons p p' ps ps' hp h =>
      have hp' : p' ≠ [] := fun h => hne p List.mem_cons_self (List.perm_nil.1 (h ▸ hp))
      rw [List.flatten_cons, List.tail_append_of_ne_nil hp'] at hc
      rw [behind]
      rcases List.mem_append.1 hc with hc | hc
      · refine List.mem_append_left _ ?_
        rw [if_neg fun hlength => ?_]
        · exact hp.mem_iff.2 (List.mem_of_mem_tail hc)
        · obtain ⟨a, rfl⟩ := List.length_eq_one_iff.1 (hp.length_eq.symm.trans hlength)
          cases hc
      · exact List.mem_append_right _ ((Rearranged.perm h).mem_iff.2 hc)

end Behind

section Outcomes

/-- The last value of rearranged parts is one of those in the last part that gives some. -/
theorem getLast?_rearranged (h : Rearranged ps ps') :
    (lastValues g ps = [] ∧ ps'.flatten.filterMap g = []) ∨
      ∃ v ∈ lastValues g ps, (ps'.flatten.filterMap g).getLast? = some v := by
  induction h with
  | nil => exact Or.inl ⟨rfl, rfl⟩
  | @cons p p' ps ps' hp _ ih =>
    rw [List.flatten_cons, List.filterMap_append, lastValues]
    rcases ih with ⟨hnone, hnone'⟩ | ⟨v, hv, hlast⟩
    · rw [hnone, hnone', List.append_nil, if_pos List.isEmpty_nil]
      have hvalues := hp.filterMap g
      cases hlast : (p'.filterMap g).getLast? with
      | none =>
        have hnil := List.getLast?_eq_none_iff.1 hlast
        exact Or.inl ⟨List.perm_nil.1 (hnil ▸ hvalues), hnil⟩
      | some v => exact Or.inr ⟨v, hvalues.mem_iff.2 (List.mem_of_getLast? hlast), rfl⟩
    · have hne : lastValues g ps ≠ [] := List.ne_nil_of_mem hv
      rw [if_neg (by simpa using hne), List.getLast?_append, hlast]
      exact Or.inr ⟨v, hv, rfl⟩

/-- Every value of this part can come last. -/
theorem exists_getLast? {v : β} (h : v ∈ lastValues g ps) :
    ∃ ps', Rearranged ps ps' ∧ (ps'.flatten.filterMap g).getLast? = some v := by
  induction ps with
  | nil => cases h
  | cons p ps ih =>
    rw [lastValues] at h
    split at h
    · rename_i hnone
      obtain ⟨c, hc, hv⟩ := List.mem_filterMap.1 h
      obtain ⟨pre, post, rfl⟩ := List.append_of_mem hc
      have hperm : (pre ++ c :: post).Perm (pre ++ post ++ [c]) :=
        List.perm_middle.trans (List.perm_append_singleton c (pre ++ post)).symm
      have hrest : ps.flatten.filterMap g = [] := by
        rcases @getLast?_rearranged α β g ps ps (Rearranged.refl ps) with ⟨-, h⟩ | ⟨w, hw, -⟩
        · exact h
        · rw [List.isEmpty_iff.1 hnone] at hw
          cases hw
      refine ⟨(pre ++ post ++ [c]) :: ps, .cons hperm (Rearranged.refl ps), ?_⟩
      rw [List.flatten_cons, List.filterMap_append, hrest, List.append_nil, List.filterMap_append, List.getLast?_append,
        List.filterMap_cons, hv]
      rfl
    · obtain ⟨ps', hall, hlast⟩ := ih h
      refine ⟨p :: ps', .cons (.refl p) hall, ?_⟩
      rw [List.flatten_cons, List.filterMap_append, List.getLast?_append, hlast]
      rfl

theorem lastBehind_mem_headValues (hp : p.Perm p') (hne : p' ≠ []) : lastBehind g d p' ∈ headValues g d p := by
  obtain ⟨a, t, rfl⟩ := List.exists_cons_of_ne_nil hne
  have hvalues := hp.filterMap g
  have hlength := hp.length_eq
  rw [List.length_cons] at hlength
  unfold lastBehind headValues
  rw [List.tail_cons]
  cases hlast : (t.filterMap g).getLast? with
  | none =>
    have hnil := List.getLast?_eq_none_iff.1 hlast
    have hshort : (p.filterMap g).length ≤ 1 := by
      rw [hvalues.length_eq, List.filterMap_cons]
      cases g a <;> simp [hnil]
    rw [if_pos hshort]
    split <;> exact List.mem_cons_self
  | some v =>
    have hv : v ∈ t.filterMap g := List.mem_of_getLast? hlast
    have ht : t ≠ [] := by
      rintro rfl
      cases hv
    have hpos := List.length_pos_iff.2 ht
    have hmem : v ∈ p.filterMap g := by
      obtain ⟨c, hc, hcv⟩ := List.mem_filterMap.1 hv
      exact List.mem_filterMap.2 ⟨c, hp.mem_iff.2 (List.mem_cons_of_mem _ hc), hcv⟩
    rw [if_neg (by omega), Option.getD_some]
    split
    · exact List.mem_cons_of_mem _ hmem
    · exact hmem

theorem exists_lastBehind {v : β} (h : v ∈ headValues g d p) : ∃ p', p.Perm p' ∧ lastBehind g d p' = v := by
  have hlast : v ∈ p.filterMap g → p.length ≠ 1 → ∃ p', p.Perm p' ∧ lastBehind g d p' = v := by
    intro hv hp
    obtain ⟨c, hc, hcv⟩ := List.mem_filterMap.1 hv
    obtain ⟨a, l, hperm⟩ := exists_perm_concat hc hp
    refine ⟨_, hperm, ?_⟩
    rw [lastBehind, List.cons_append, List.tail_cons, List.filterMap_append, List.getLast?_append, List.filterMap_cons, hcv]
    rfl
  unfold headValues at h
  split at h
  · rename_i hone
    obtain ⟨a, rfl⟩ := List.length_eq_one_iff.1 hone
    exact ⟨[a], .refl _, (List.mem_singleton.1 h).symm⟩
  · rename_i hp
    split at h
    · rename_i hshort
      rcases List.mem_cons.1 h with rfl | h
      · -- the element with the value, if there is one, comes first
        cases hvalues : p.filterMap g with
        | nil =>
          refine ⟨p, .refl p, ?_⟩
          have htail : p.tail.filterMap g = [] :=
            List.filterMap_eq_nil_iff.2 fun c hc => List.filterMap_eq_nil_iff.1 hvalues c (List.mem_of_mem_tail hc)
          rw [lastBehind, htail]
          rfl
        | cons w ws =>
          obtain ⟨pre, c, post, rfl, hpre, -, hpost⟩ := List.filterMap_eq_cons_iff.1 hvalues
          have hws : ws = [] := by
            rw [hvalues, List.length_cons] at hshort
            exact List.length_eq_zero_iff.1 (by omega)
          refine ⟨c :: (pre ++ post), List.perm_middle, ?_⟩
          rw [lastBehind, List.tail_cons, List.filterMap_append, List.filterMap_eq_nil_iff.2 hpre, hpost, hws]
          rfl
      · exact hlast h hp
    · exact hlast h hp

theorem mem_outcomes (hne : ∀ p ∈ ps, p ≠ []) {v : β} :
    v ∈ outcomes g d ps ↔ ∃ ps', Rearranged ps ps' ∧ lastBehind g d ps'.flatten = v := by
  have hcons : ∀ {p : List α} (ps : List (List α)), p ≠ [] →
      lastBehind g d (p :: ps).flatten = ((p.tail.filterMap g ++ ps.flatten.filterMap g).getLast?).getD d := by
    intro p ps hp
    rw [lastBehind, List.flatten_cons, List.tail_append_of_ne_nil hp, List.filterMap_append]
  constructor
  · intro h
    rcases ps with _ | ⟨p, ps⟩
    · exact ⟨[], .nil, (List.mem_singleton.1 h).symm⟩
    · have hp := hne p List.mem_cons_self
      rw [outcomes] at h
      split at h
      · rename_i hnone
        obtain ⟨p', hperm, hlast⟩ := exists_lastBehind h
        have hp' : p' ≠ [] := fun h => hp (List.perm_nil.1 (h ▸ hperm))
        refine ⟨p' :: ps, .cons hperm (Rearranged.refl ps), ?_⟩
        rcases @getLast?_rearranged α β g ps ps (Rearranged.refl ps) with ⟨-, hrest⟩ | ⟨w, hw, -⟩
        · rw [hcons ps hp', hrest, List.append_nil]
          exact hlast
        · rw [List.isEmpty_iff.1 hnone] at hw
          cases hw
      · obtain ⟨ps', hall, hlast⟩ := exists_getLast? h
        refine ⟨p :: ps', .cons (.refl p) hall, ?_⟩
        rw [hcons ps' hp, List.getLast?_append, hlast]
        rfl
  · rintro ⟨ps', h, rfl⟩
    cases h with
    | nil => exact List.mem_singleton.2 rfl
    | @cons p p' ps ps' hp h =>
      have hp' : p' ≠ [] := fun h => hne p List.mem_cons_self (List.perm_nil.1 (h ▸ hp))
      rw [hcons ps' hp', outcomes]
      rcases getLast?_rearranged (g := g) h with ⟨hnone, hnone'⟩ | ⟨v, hv, hlast⟩
      · rw [hnone, if_pos List.isEmpty_nil, hnone', List.append_nil]
        exact lastBehind_mem_headValues hp hp'
      · rw [if_neg (by simpa using List.ne_nil_of_mem hv), List.getLast?_append, hlast]
        exact hv

end Outcomes

end Parts
