import Mathlib.Data.List.Basic
import Mathlib.Data.List.Nodup
import Mathlib.Data.List.Perm.Basic
import Mathlib.Data.List.Range

/-!
# Buckets

A list is walked once for each number, and the elements whose key is this number are taken: this sorts the elements with a key
that is not negative, and keeps the order of those that have the same key.  Two keys sort a list in the same way if and only
if they agree on which elements are taken and on every pair of them (`buckets_eq_iff`).
-/

namespace Buckets

variable {α : Type*} {key key' : α → Int} {last last' : Nat} {l : List α} {x y : α}

/-- The elements with a key from `0` to `last`, by their keys. -/
def buckets (key : α → Int) (last : Nat) (l : List α) : List α :=
  (List.range (last + 1)).flatMap fun i : Nat => l.filter fun x => key x = i

/-- The order in which two elements are taken. -/
def Earlier (key : α → Int) (l : List α) (x y : α) : Prop := key x < key y ∨ key x = key y ∧ [x, y].Sublist l

theorem mem_buckets (hlast : ∀ x ∈ l, key x ≤ last) : x ∈ buckets key last l ↔ x ∈ l ∧ 0 ≤ key x := by
  simp only [buckets, List.mem_flatMap, List.mem_range, List.mem_filter, decide_eq_true_eq]
  constructor
  · rintro ⟨i, -, hx, hi⟩
    exact ⟨hx, by omega⟩
  · rintro ⟨hx, h0⟩
    have := hlast x hx
    exact ⟨(key x).toNat, by omega, hx, by omega⟩

theorem nodup_buckets (hl : l.Nodup) : (buckets key last l).Nodup := by
  rw [buckets, List.nodup_flatMap]
  constructor
  · intro i _
    exact hl.filter _
  · refine List.pairwise_lt_range.imp ?_
    intro i j hij x hx hy
    have hx := (List.mem_filter.1 hx).2
    have hy := (List.mem_filter.1 hy).2
    rw [decide_eq_true_eq] at hx hy
    omega

theorem pairwise_buckets : (buckets key last l).Pairwise (Earlier key l) := by
  rw [buckets, List.pairwise_flatMap]
  constructor
  · intro i _
    refine List.pairwise_iff_forall_sublist.2 ?_
    intro x y h
    have hx := (List.mem_filter.1 (h.subset List.mem_cons_self)).2
    have hy := (List.mem_filter.1 (h.subset (List.mem_cons_of_mem _ List.mem_cons_self))).2
    rw [decide_eq_true_eq] at hx hy
    exact Or.inr ⟨hx.trans hy.symm, h.trans List.filter_sublist⟩
  · refine List.pairwise_lt_range.imp ?_
    intro i j hij x hx y hy
    have hx := (List.mem_filter.1 hx).2
    have hy := (List.mem_filter.1 hy).2
    rw [decide_eq_true_eq] at hx hy
    exact Or.inl (by omega)

/-- In a list without repetition two elements stand in one order only. -/
theorem not_sublist_swap (hl : l.Nodup) (h : [x, y].Sublist l) : ¬ [y, x].Sublist l := by
  intro h'
  induction l with
  | nil => cases h
  | cons a l ih =>
    obtain ⟨ha, hl⟩ := List.nodup_cons.1 hl
    rcases List.cons_sublist_cons'.1 h with hsub | ⟨rfl, hsub⟩
    · rcases List.cons_sublist_cons'.1 h' with hsub' | ⟨rfl, -⟩
      · exact ih hl hsub hsub'
      · exact ha (hsub.subset (List.mem_cons_of_mem _ List.mem_cons_self))
    · rcases List.cons_sublist_cons'.1 h' with hsub' | ⟨rfl, -⟩
      · exact ha (hsub'.subset (List.mem_cons_of_mem _ List.mem_cons_self))
      · exact ha (hsub.subset List.mem_cons_self)

theorem Earlier.asymm (hl : l.Nodup) (h : Earlier key l x y) : ¬ Earlier key l y x := by
  rintro (h' | ⟨heq, h'⟩)
  · rcases h with h | ⟨heq, h⟩ <;> omega
  · rcases h with h | ⟨-, h⟩
    · omega
    · exact not_sublist_swap hl h h'

/-- Two elements of a list stand in one order. -/
theorem sublist_or_swap (hx : x ∈ l) (hy : y ∈ l) (hne : x ≠ y) : [x, y].Sublist l ∨ [y, x].Sublist l := by
  induction l with
  | nil => cases hx
  | cons a l ih =>
    rcases List.mem_cons.1 hx with rfl | hx'
    · have hy := (List.mem_cons.1 hy).resolve_left (Ne.symm hne)
      exact Or.inl (List.cons_sublist_cons.2 (List.singleton_sublist.2 hy))
    · rcases List.mem_cons.1 hy with rfl | hy'
      · exact Or.inr (List.cons_sublist_cons.2 (List.singleton_sublist.2 hx'))
      · exact (ih hx' hy').imp (·.trans (List.sublist_cons_self a l)) (·.trans (List.sublist_cons_self a l))

/-- What holds of the taken elements in their order. -/
theorem pairwise_buckets_iff (hl : l.Nodup) (hlast : ∀ x ∈ l, key x ≤ last) {S : α → α → Prop} :
    (buckets key last l).Pairwise S ↔
      ∀ x y, x ∈ l → y ∈ l → 0 ≤ key x → 0 ≤ key y → x ≠ y → Earlier key l x y → S x y := by
  have hord := @pairwise_buckets α key last l
  constructor
  · intro h x y hx hy hx0 hy0 hne hearlier
    have hboth := hord.and h
    rcases sublist_or_swap ((mem_buckets hlast).2 ⟨hx, hx0⟩) ((mem_buckets hlast).2 ⟨hy, hy0⟩) hne with hsub | hsub
    · exact (List.pairwise_iff_forall_sublist.1 hboth hsub).2
    · exact absurd (List.pairwise_iff_forall_sublist.1 hboth hsub).1 (hearlier.asymm hl)
  · intro h
    refine List.pairwise_iff_forall_sublist.2 ?_
    intro x y hsub
    have hx := (mem_buckets hlast).1 (hsub.subset List.mem_cons_self)
    have hy := (mem_buckets hlast).1 (hsub.subset (List.mem_cons_of_mem _ List.mem_cons_self))
    have hne : x ≠ y := by
      have := (nodup_buckets hl).sublist hsub
      simpa using this
    exact h x y hx.1 hy.1 hx.2 hy.2 hne (List.pairwise_iff_forall_sublist.1 hord hsub)

/-- Two keys give one list exactly if they agree on what is taken and on the order of every two elements. -/
theorem buckets_eq_iff (hl : l.Nodup) (hlast : ∀ x ∈ l, key x ≤ last) (hlast' : ∀ x ∈ l, key' x ≤ last') :
    buckets key last l = buckets key' last' l ↔
      (∀ x ∈ l, 0 ≤ key x ↔ 0 ≤ key' x) ∧
        ∀ x y, [x, y].Sublist l → 0 ≤ key x → 0 ≤ key y → (key x ≤ key y ↔ key' x ≤ key' y) := by
  constructor
  · intro h
    have hmem : ∀ x ∈ l, 0 ≤ key x ↔ 0 ≤ key' x := by
      intro x hx
      have hiff : x ∈ buckets key last l ↔ x ∈ buckets key' last' l := by rw [h]
      rw [mem_buckets hlast, mem_buckets hlast'] at hiff
      simpa [hx] using hiff
    refine ⟨hmem, fun x y hsub hx0 hy0 => ?_⟩
    have hx := hsub.subset List.mem_cons_self
    have hy := hsub.subset (List.mem_cons_of_mem _ List.mem_cons_self)
    have hne : x ≠ y := by
      have := hl.sublist hsub
      simpa using this
    have hswap := not_sublist_swap hl hsub
    have hord' : (buckets key last l).Pairwise (Earlier key' l) := h ▸ pairwise_buckets
    have hboth := (pairwise_buckets_iff hl hlast).1 hord'
    constructor
    · intro hle
      have hearlier : Earlier key l x y := by
        by_cases heq : key x = key y
        · exact Or.inr ⟨heq, hsub⟩
        · exact Or.inl (by omega)
      rcases hboth x y hx hy hx0 hy0 hne hearlier with h | h <;> omega
    · intro hle
      by_contra hlt
      rcases hboth y x hy hx hy0 hx0 hne.symm (Or.inl (by omega)) with h | ⟨-, h⟩
      · omega
      · exact hswap h
  · rintro ⟨hmem, hle⟩
    have hperm : (buckets key last l).Perm (buckets key' last' l) := by
      refine (List.perm_ext_iff_of_nodup (nodup_buckets hl) (nodup_buckets hl)).2 fun x => ?_
      rw [mem_buckets hlast, mem_buckets hlast']
      exact and_congr_right (hmem x)
    have hord : (buckets key last l).Pairwise (Earlier key' l) := by
      rw [pairwise_buckets_iff hl hlast]
      intro x y hx hy hx0 hy0 hne hearlier
      rcases sublist_or_swap hx hy hne with hsub | hsub
      · have hxy := hle x y hsub hx0 hy0
        by_cases heq : key' x = key' y
        · exact Or.inr ⟨heq, hsub⟩
        · refine Or.inl ?_
          rcases hearlier with h | h <;> omega
      · have hyx := hle y x hsub hy0 hx0
        rcases hearlier with h | ⟨-, h⟩
        · exact Or.inl (by omega)
        · exact absurd hsub (not_sublist_swap hl h)
    refine hperm.eq_of_pairwise ?_ hord pairwise_buckets
    intro x y _ _ hxy hyx
    exact absurd hyx (hxy.asymm hl)

end Buckets
