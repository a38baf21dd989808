import Mathlib.Data.List.Infix
import Mathlib.Data.List.Nodup

/-!
# Runs of insertions and deletions

Operations that put an element into a set or take it out.  After a run of them an element belongs to the set when the
last operation on it is an insertion (`LastInserts`).

* A program that keeps a set in its own way shows that set after every run if each step shows the operation
  (`shows_run`).
* A property of runs that one more operation keeps exactly under a condition holds throughout a run exactly if the
  condition holds at every step (`throughout_iff`).
* A list without duplicates loses exactly one element to a search for the first match if that element is the first
  match (`erases_iff`).
-/

namespace SetRuns

inductive SetOp (κ : Type*) where
  | insert (k : κ)
  | delete (k : κ)
  deriving DecidableEq

variable {κ ι σ α : Type*}

namespace SetOp

def key : SetOp κ → κ
  | insert k | delete k => k

def map (f : κ → ι) : SetOp κ → SetOp ι
  | insert k => insert (f k)
  | delete k => delete (f k)

@[simp] theorem key_map (f : κ → ι) (op : SetOp κ) : (op.map f).key = f op.key := by cases op <;> rfl

end SetOp

/-- There is an operation on `k`, and the last one is an insertion. -/
def LastInserts (ops : List (SetOp κ)) (k : κ) : Prop :=
  ∃ before after, ops = before ++ .insert k :: after ∧ ∀ op ∈ after, op.key ≠ k

theorem lastInserts_nil (k : κ) : ¬LastInserts [] k := by
  rintro ⟨before, after, h, -⟩
  simp at h

theorem lastInserts_concat {ops : List (SetOp κ)} {op : SetOp κ} {k : κ} :
    LastInserts (ops ++ [op]) k ↔ op = .insert k ∨ op.key ≠ k ∧ LastInserts ops k := by
  constructor
  · rintro ⟨before, after, h, hafter⟩
    rcases List.eq_nil_or_concat after with rfl | ⟨after', op', rfl⟩
    · have hlast := (List.append_inj' h rfl).2
      exact .inl (List.singleton_inj.1 hlast)
    · rw [List.concat_eq_append, ← List.cons_append, ← List.append_assoc] at h
      obtain ⟨hops, hop⟩ := List.append_inj' h rfl
      obtain rfl := List.singleton_inj.1 hop
      rw [List.concat_eq_append] at hafter
      exact .inr ⟨hafter op (by simp), before, after', hops, fun o ho => hafter o (by simp [ho])⟩
  · rintro (rfl | ⟨hne, before, after, rfl, hafter⟩)
    · exact ⟨ops, [], rfl, by simp⟩
    · refine ⟨before, after ++ [op], by simp, fun o ho => ?_⟩
      rcases List.mem_append.1 ho with ho | ho
      · exact hafter o ho
      · obtain rfl := List.mem_singleton.1 ho
        exact hne

theorem lastInserts_insert {ops : List (SetOp κ)} {k k' : κ} :
    LastInserts (ops ++ [.insert k']) k ↔ k' = k ∨ LastInserts ops k := by
  rw [lastInserts_concat, SetOp.insert.injEq]
  by_cases hk : k' = k
  · simp [hk]
  · simp [hk, SetOp.key]

theorem lastInserts_delete {ops : List (SetOp κ)} {k k' : κ} :
    LastInserts (ops ++ [.delete k']) k ↔ k' ≠ k ∧ LastInserts ops k := by
  rw [lastInserts_concat]
  simp [SetOp.key]

/-- What is in the set was put there. -/
theorem LastInserts.mem {ops : List (SetOp κ)} {k : κ} (h : LastInserts ops k) : .insert k ∈ ops := by
  obtain ⟨before, after, rfl, -⟩ := h
  simp

/-- A program whose steps act on what it shows as the operations do on a set shows that set after every run. -/
theorem shows_run {step : σ → SetOp κ → σ} (Shows : σ → ι → Prop) {Inv : σ → Prop} {f : κ → ι} {s₀ : σ}
    (hinv : Inv s₀) (hempty : ∀ i, ¬Shows s₀ i)
    (hstep : ∀ s op, Inv s → Inv (step s op) ∧
      ∀ i, Shows (step s op) i ↔ op.map f = .insert i ∨ f op.key ≠ i ∧ Shows s i) (ops : List (SetOp κ)) :
    Inv (ops.foldl step s₀) ∧ ∀ i, Shows (ops.foldl step s₀) i ↔ LastInserts (ops.map (SetOp.map f)) i := by
  induction ops using List.reverseRecOn with
  | nil => exact ⟨hinv, fun i => iff_of_false (hempty i) (lastInserts_nil i)⟩
  | append_singleton ops op ih =>
    obtain ⟨hi, hshows⟩ := ih
    obtain ⟨hi', hop⟩ := hstep _ op hi
    rw [List.foldl_append, List.map_append]
    refine ⟨hi', fun i => ?_⟩
    show Shows (step (ops.foldl step s₀) op) i ↔ LastInserts (ops.map (SetOp.map f) ++ [op.map f]) i
    rw [hop, lastInserts_concat, hshows, SetOp.key_map]

/-- A property of runs that the next operation keeps exactly if `C` holds before it.  `Inv` is what `C` has ensured so
far. -/
theorem throughout_iff (P Inv : List α → Prop) (C : List α → α → Prop) (ops : List α) (hP : P []) (hInv : Inv [])
    (hstep : ∀ before op, before ++ [op] <+: ops → Inv before → P before → (P (before ++ [op]) ↔ C before op))
    (hkeep : ∀ before op, before ++ [op] <+: ops → Inv before → C before op → Inv (before ++ [op])) :
    (∀ before, before <+: ops → P before) ↔ ∀ before op, before ++ [op] <+: ops → C before op := by
  -- the invariant is there as long as the property is
  have hinv : (∀ before, before <+: ops → P before) → ∀ before, before <+: ops → Inv before := by
    intro h before
    induction before using List.reverseRecOn with
    | nil => exact fun _ => hInv
    | append_singleton before op ih =>
      intro hpre
      have hshort := (List.prefix_append before [op]).trans hpre
      exact hkeep before op hpre (ih hshort) ((hstep before op hpre (ih hshort) (h before hshort)).1 (h _ hpre))
  constructor
  · intro h before op hpre
    have hshort := (List.prefix_append before [op]).trans hpre
    exact (hstep before op hpre (hinv h before hshort) (h before hshort)).1 (h _ hpre)
  · intro h
    have both : ∀ before, before <+: ops → Inv before ∧ P before := by
      intro before
      induction before using List.reverseRecOn with
      | nil => exact fun _ => ⟨hInv, hP⟩
      | append_singleton before op ih =>
        intro hpre
        obtain ⟨hi, hp⟩ := ih ((List.prefix_append before [op]).trans hpre)
        exact ⟨hkeep before op hpre hi (h before op hpre), (hstep before op hpre hi hp).2 (h before op hpre)⟩
    exact fun before hpre => (both before hpre).2

/-! ### Sets kept as lists -/

section Lists

variable {l : List α} {p : α → Bool} {a : α}

theorem nodup_concat_iff : (l ++ [a]).Nodup ↔ a ∉ l ∧ l.Nodup := by
  rw [← List.concat_eq_append, List.nodup_concat]

theorem eraseP_of_find_none (h : l.find? p = none) : l.eraseP p = l :=
  List.eraseP_of_forall_not fun b hb => List.find?_eq_none.1 h b hb

variable [BEq α] [LawfulBEq α]

theorem eraseP_of_find (h : l.find? p = some a) : l.eraseP p = l.erase a := by
  induction l with
  | nil => simp at h
  | cons b l ih =>
    by_cases hb : p b = true
    · rw [List.find?_cons_of_pos hb] at h
      obtain rfl := Option.some.inj h
      rw [List.eraseP_cons_of_pos hb, List.erase_cons_head]
    · rw [List.find?_cons_of_neg hb] at h
      have hne : b ≠ a := fun he => hb (he ▸ List.find?_some h)
      rw [List.eraseP_cons_of_neg hb, ih h, List.erase_cons_tail (by simpa using hne)]

/-- Deleting the first match deletes `a` and nothing else. -/
theorem erases_iff (hl : l.Nodup) :
    (∀ b, b ∈ l.eraseP p ↔ b ≠ a ∧ b ∈ l) ↔ l.find? p = if a ∈ l then some a else none := by
  rcases hf : l.find? p with _ | c
  · rw [eraseP_of_find_none hf]
    by_cases ha : a ∈ l
    · simp only [ha, if_true, reduceCtorEq, iff_false]
      exact fun h => ((h a).1 ha).1 rfl
    · simp only [ha, if_false, iff_true]
      exact fun b => ⟨fun hb => ⟨fun he => ha (he ▸ hb), hb⟩, And.right⟩
  · have hc : c ∈ l := List.mem_of_find?_eq_some hf
    rw [eraseP_of_find hf]
    simp only [hl.mem_erase_iff]
    constructor
    · intro h
      have hca : c = a := by
        by_contra hne
        exact ((h c).2 ⟨hne, hc⟩).1 rfl
      rw [← hca, if_pos hc]
    · intro h b
      have hca : c = a := by
        by_cases ha : a ∈ l
        · rw [if_pos ha] at h
          exact Option.some.inj h
        · simp [ha] at h
      rw [hca]

end Lists

end SetRuns
