import Mathlib.Order.Compare
import Mathlib.Data.List.Sort

/-!
# Search trees ordered by a key

Unbalanced binary trees whose nodes hold a value of `α`, searched by a key `key : α → κ` in a linear order.  The
operations are those of a variable store: `find`, `modify` (change the value found), `upsert` (change it or add a
leaf), and `erase`, which hangs the left subtree of the deleted node below its right subtree (`hang`).

* `walk` lists the values from left to right, and a tree is `Ordered` when their keys increase strictly;
* what `find` returns after `modify` and `upsert` does not need `Ordered` (`find_modify`, `find_upsert`);
* on an ordered tree `find` is membership in the walk (`find_eq_some`), `erase` deletes one key from it
  (`walk_erase`), and every operation keeps the tree ordered;
* two trees `Agree` when they answer every lookup alike, and the operations keep that.
-/

namespace SearchTree

/-- A binary tree with a value at each node. -/
inductive Tree (α : Type*) where
  | nil : Tree α
  | node (left : Tree α) (a : α) (right : Tree α) : Tree α
  deriving DecidableEq, Repr

variable {α κ : Type*}

/-- The values of the tree from left to right. -/
def Tree.walk : Tree α → List α
  | .nil => []
  | .node l a r => l.walk ++ a :: r.walk

@[simp] theorem walk_nil : (Tree.nil : Tree α).walk = [] := rfl

@[simp] theorem walk_node (l : Tree α) (a : α) (r : Tree α) :
    (Tree.node l a r).walk = l.walk ++ a :: r.walk := rfl

variable [LinearOrder κ] (key : α → κ)

/-- The keys increase strictly from left to right. -/
def Ordered (t : Tree α) : Prop := t.walk.Pairwise fun a b => key a < key b

/-- The value whose key is `k`. -/
def find (k : κ) : Tree α → Option α
  | .nil => none
  | .node l a r =>
    match cmp (key a) k with
    | .gt => find k l
    | .lt => find k r
    | .eq => some a

/-- Apply `f` to the value whose key is `k`. -/
def modify (k : κ) (f : α → α) : Tree α → Tree α
  | .nil => .nil
  | .node l a r =>
    match cmp (key a) k with
    | .gt => .node (modify k f l) a r
    | .lt => .node l a (modify k f r)
    | .eq => .node l (f a) r

/-- Apply `f` to the value whose key is `k`, or add the leaf `new`. -/
def upsert (k : κ) (f : α → α) (new : α) : Tree α → Tree α
  | .nil => .node .nil new .nil
  | .node l a r =>
    match cmp (key a) k with
    | .gt => .node (upsert k f new l) a r
    | .lt => .node l a (upsert k f new r)
    | .eq => .node l (f a) r

/-- Hang the tree `s` at the place of the key `k`; nothing is added when `k` is present. -/
def hang (k : κ) (s : Tree α) : Tree α → Tree α
  | .nil => s
  | .node l a r =>
    match cmp (key a) k with
    | .gt => .node (hang k s l) a r
    | .lt => .node l a (hang k s r)
    | .eq => .node l a r

/-- Hang the tree `s` at the place of the key of its root. -/
def graft (s t : Tree α) : Tree α :=
  match s with
  | .nil => t
  | .node _ a _ => hang key (key a) s t

/-- Delete the key `k`. -/
def erase (k : κ) : Tree α → Tree α
  | .nil => .nil
  | .node l a r =>
    match cmp (key a) k with
    | .gt => .node (erase k l) a r
    | .lt => .node l a (erase k r)
    | .eq => graft key l r

/-! ### One level of an operation -/

section Level

variable {key} (k : κ) (f : α → α) (new : α) (s l : Tree α) (a : α) (r : Tree α)

theorem find_nil : find key k (.nil : Tree α) = none := rfl

theorem modify_nil : modify key k f .nil = .nil := rfl

theorem upsert_nil : upsert key k f new .nil = .node .nil new .nil := rfl

theorem find_node : find key k (.node l a r) =
    match cmp (key a) k with
    | .gt => find key k l
    | .lt => find key k r
    | .eq => some a := rfl

theorem modify_node : modify key k f (.node l a r) =
    match cmp (key a) k with
    | .gt => .node (modify key k f l) a r
    | .lt => .node l a (modify key k f r)
    | .eq => .node l (f a) r := rfl

theorem upsert_node : upsert key k f new (.node l a r) =
    match cmp (key a) k with
    | .gt => .node (upsert key k f new l) a r
    | .lt => .node l a (upsert key k f new r)
    | .eq => .node l (f a) r := rfl

theorem hang_node : hang key k s (.node l a r) =
    match cmp (key a) k with
    | .gt => .node (hang key k s l) a r
    | .lt => .node l a (hang key k s r)
    | .eq => .node l a r := rfl

theorem erase_node : erase key k (.node l a r) =
    match cmp (key a) k with
    | .gt => .node (erase key k l) a r
    | .lt => .node l a (erase key k r)
    | .eq => graft key l r := rfl

end Level

/-! ### Looking up after a change -/

section Lookup

variable {key}

theorem find_modify {k : κ} {f : α → α} (hf : ∀ a, key (f a) = key a) (k' : κ) (t : Tree α) :
    find key k' (modify key k f t) = if k' = k then (find key k t).map f else find key k' t := by
  induction t with
  | nil => rw [modify_nil, find_nil, find_nil, Option.map_none, ite_self]
  | node l a r ihl ihr =>
    rcases lt_trichotomy (key a) k with h | h | h
    · rw [modify_node, h.cmp_eq_lt, find_node, find_node, find_node, h.cmp_eq_lt, ihr]
      rcases lt_trichotomy (key a) k' with h' | h' | h'
      · rw [h'.cmp_eq_lt]
      · rw [← h', cmp_self_eq_eq, if_neg h.ne, if_neg h.ne]
      · rw [h'.cmp_eq_gt, if_neg (h'.trans h).ne, if_neg (h'.trans h).ne]
    · subst h
      rw [modify_node, cmp_self_eq_eq, find_node, find_node, find_node, cmp_self_eq_eq, hf]
      rcases lt_trichotomy (key a) k' with h' | h' | h'
      · rw [h'.cmp_eq_lt, if_neg h'.ne']
      · rw [← h', cmp_self_eq_eq, if_pos rfl]
        rfl
      · rw [h'.cmp_eq_gt, if_neg h'.ne]
    · rw [modify_node, h.cmp_eq_gt, find_node, find_node, find_node, h.cmp_eq_gt, ihl]
      rcases lt_trichotomy (key a) k' with h' | h' | h'
      · rw [h'.cmp_eq_lt, if_neg (h.trans h').ne', if_neg (h.trans h').ne']
      · rw [← h', cmp_self_eq_eq, if_neg h.ne', if_neg h.ne']
      · rw [h'.cmp_eq_gt]

theorem find_upsert {k : κ} {f : α → α} {new : α} (hf : ∀ a, key (f a) = key a) (hnew : key new = k)
    (k' : κ) (t : Tree α) :
    find key k' (upsert key k f new t) =
      if k' = k then some ((find key k t).elim new f) else find key k' t := by
  induction t with
  | nil =>
    subst hnew
    rcases lt_trichotomy (key new) k' with h' | h' | h'
    · rw [upsert_nil, find_node, h'.cmp_eq_lt, if_neg h'.ne']
    · rw [upsert_nil, ← h', find_node, cmp_self_eq_eq, if_pos rfl]
      rfl
    · rw [upsert_nil, find_node, h'.cmp_eq_gt, if_neg h'.ne]
  | node l a r ihl ihr =>
    rcases lt_trichotomy (key a) k with h | h | h
    · rw [upsert_node, h.cmp_eq_lt, find_node, find_node, find_node, h.cmp_eq_lt, ihr]
      rcases lt_trichotomy (key a) k' with h' | h' | h'
      · rw [h'.cmp_eq_lt]
      · rw [← h', cmp_self_eq_eq, if_neg h.ne, if_neg h.ne]
      · rw [h'.cmp_eq_gt, if_neg (h'.trans h).ne, if_neg (h'.trans h).ne]
    · subst h
      rw [upsert_node, cmp_self_eq_eq, find_node, find_node, find_node, cmp_self_eq_eq, hf]
      rcases lt_trichotomy (key a) k' with h' | h' | h'
      · rw [h'.cmp_eq_lt, if_neg h'.ne']
      · rw [← h', cmp_self_eq_eq, if_pos rfl]
        rfl
      · rw [h'.cmp_eq_gt, if_neg h'.ne]
    · rw [upsert_node, h.cmp_eq_gt, find_node, find_node, find_node, h.cmp_eq_gt, ihl]
      rcases lt_trichotomy (key a) k' with h' | h' | h'
      · rw [h'.cmp_eq_lt, if_neg (h.trans h').ne', if_neg (h.trans h').ne']
      · rw [← h', cmp_self_eq_eq, if_neg h.ne', if_neg h.ne']
      · rw [h'.cmp_eq_gt]

section Cases

variable {k k' : κ} {f : α → α} {new : α}

theorem find_modify_self (hf : ∀ a, key (f a) = key a) (t : Tree α) :
    find key k (modify key k f t) = (find key k t).map f := by
  rw [find_modify hf, if_pos rfl]

theorem find_modify_of_ne (hf : ∀ a, key (f a) = key a) (h : k' ≠ k) (t : Tree α) :
    find key k' (modify key k f t) = find key k' t := by
  rw [find_modify hf, if_neg h]

theorem find_upsert_self (hf : ∀ a, key (f a) = key a) (hnew : key new = k) (t : Tree α) :
    find key k (upsert key k f new t) = some ((find key k t).elim new f) := by
  rw [find_upsert hf hnew, if_pos rfl]

theorem find_upsert_of_ne (hf : ∀ a, key (f a) = key a) (hnew : key new = k) (h : k' ≠ k) (t : Tree α) :
    find key k' (upsert key k f new t) = find key k' t := by
  rw [find_upsert hf hnew, if_neg h]

end Cases

theorem upsert_of_find_some {k : κ} {f : α → α} {new a : α} {t : Tree α} (h : find key k t = some a) :
    upsert key k f new t = modify key k f t := by
  induction t with
  | nil => cases h
  | node l b r ihl ihr =>
    rw [find_node] at h
    rw [upsert_node, modify_node]
    rcases hc : cmp (key b) k <;> rw [hc] at h
    · rw [ihr h]
    · rw [ihl h]

/-- A change at the key that was just put into the tree. -/
theorem modify_upsert {k : κ} {f g : α → α} {new : α} (hf : ∀ a, key (f a) = key a) (hnew : key new = k) (t : Tree α) :
    modify key k g (upsert key k f new t) = upsert key k (fun a => g (f a)) (g new) t := by
  induction t with
  | nil =>
    rw [upsert_nil, upsert_nil, modify_node, hnew, cmp_self_eq_eq]
  | node l b r ihl ihr =>
    rw [upsert_node, upsert_node]
    rcases hc : cmp (key b) k
    · rw [modify_node, hc, ihr]
    · rw [modify_node, hf, hc]
    · rw [modify_node, hc, ihl]

/-- Only the value at the node that is found matters. -/
theorem modify_congr {k : κ} {f g : α → α} {t : Tree α} (h : ∀ a, find key k t = some a → f a = g a) :
    modify key k f t = modify key k g t := by
  induction t with
  | nil => rfl
  | node l b r ihl ihr =>
    rw [find_node] at h
    rw [modify_node, modify_node]
    rcases hc : cmp (key b) k <;> rw [hc] at h
    · rw [ihr h]
    · rw [h b rfl]
    · rw [ihl h]

/-- A change that does not touch the value that is found leaves the tree as it is. -/
theorem modify_eq_self {k : κ} {f : α → α} {t : Tree α} (h : ∀ a, find key k t = some a → f a = a) :
    modify key k f t = t := by
  induction t with
  | nil => rfl
  | node l b r ihl ihr =>
    rw [find_node] at h
    rw [modify_node]
    rcases hc : cmp (key b) k <;> rw [hc] at h
    · rw [ihr h]
    · rw [h b rfl]
    · rw [ihl h]

theorem modify_of_find_none {k : κ} {f : α → α} {t : Tree α} (h : find key k t = none) :
    modify key k f t = t :=
  modify_eq_self fun a ha => by rw [h] at ha; exact absurd ha (by simp)

theorem erase_of_find_none {k : κ} {t : Tree α} (h : find key k t = none) : erase key k t = t := by
  induction t with
  | nil => rfl
  | node l b r ihl ihr =>
    rw [find_node] at h
    rw [erase_node]
    rcases hc : cmp (key b) k <;> rw [hc] at h
    · rw [ihr h]
    · simp at h
    · rw [ihl h]

theorem key_of_find {k : κ} {t : Tree α} {a : α} (h : find key k t = some a) : key a = k := by
  induction t with
  | nil => cases h
  | node l b r ihl ihr =>
    rw [find_node] at h
    rcases hc : cmp (key b) k <;> rw [hc] at h
    · exact ihr h
    · rw [← Option.some.inj h]; exact (cmp_eq_eq_iff _ _).1 hc
    · exact ihl h

theorem mem_of_find {k : κ} {t : Tree α} {a : α} (h : find key k t = some a) : a ∈ t.walk := by
  induction t with
  | nil => cases h
  | node l b r ihl ihr =>
    rw [find_node] at h
    rcases hc : cmp (key b) k <;> rw [hc] at h
    · simp [ihr h]
    · simp [Option.some.inj h]
    · simp [ihl h]

end Lookup

/-! ### What holds of every value -/

/-- Every value of the tree satisfies `P`. -/
def Holds (P : α → Prop) (t : Tree α) : Prop := ∀ a ∈ t.walk, P a

section Holds

variable {key} {P : α → Prop} {k : κ} {f : α → α} {new : α} {s t l r : Tree α} {a : α}

omit [LinearOrder κ] in
theorem holds_nil : Holds P (.nil : Tree α) := fun _ h => absurd h (by simp)

omit [LinearOrder κ] in
theorem holds_node : Holds P (.node l a r) ↔ Holds P l ∧ P a ∧ Holds P r := by
  simp only [Holds, walk_node, List.mem_append, List.mem_cons]
  constructor
  · exact fun h => ⟨fun b hb => h b (.inl hb), h a (.inr (.inl rfl)), fun b hb => h b (.inr (.inr hb))⟩
  · rintro ⟨hl, ha, hr⟩ b (hb | rfl | hb)
    · exact hl b hb
    · exact ha
    · exact hr b hb

theorem Holds.find (h : Holds P t) (ha : find key k t = some a) : P a := h a (mem_of_find ha)

theorem Holds.modify (h : Holds P t) (hf : ∀ a, P a → P (f a)) : Holds P (modify key k f t) := by
  induction t with
  | nil => exact h
  | node l b r ihl ihr =>
    obtain ⟨hl, hb, hr⟩ := holds_node.1 h
    rw [modify_node]
    rcases cmp (key b) k
    · exact holds_node.2 ⟨hl, hb, ihr hr⟩
    · exact holds_node.2 ⟨hl, hf b hb, hr⟩
    · exact holds_node.2 ⟨ihl hl, hb, hr⟩

theorem Holds.upsert (h : Holds P t) (hf : ∀ a, P a → P (f a)) (hnew : P new) : Holds P (upsert key k f new t) := by
  induction t with
  | nil => exact holds_node.2 ⟨h, hnew, h⟩
  | node l b r ihl ihr =>
    obtain ⟨hl, hb, hr⟩ := holds_node.1 h
    rw [upsert_node]
    rcases cmp (key b) k
    · exact holds_node.2 ⟨hl, hb, ihr hr⟩
    · exact holds_node.2 ⟨hl, hf b hb, hr⟩
    · exact holds_node.2 ⟨ihl hl, hb, hr⟩

theorem Holds.hang (hs : Holds P s) (h : Holds P t) : Holds P (hang key k s t) := by
  induction t with
  | nil => exact hs
  | node l b r ihl ihr =>
    obtain ⟨hl, hb, hr⟩ := holds_node.1 h
    rw [hang_node]
    rcases cmp (key b) k
    · exact holds_node.2 ⟨hl, hb, ihr hr⟩
    · exact holds_node.2 ⟨hl, hb, hr⟩
    · exact holds_node.2 ⟨ihl hl, hb, hr⟩

theorem Holds.erase (h : Holds P t) : Holds P (erase key k t) := by
  induction t with
  | nil => exact h
  | node l b r ihl ihr =>
    obtain ⟨hl, hb, hr⟩ := holds_node.1 h
    rw [erase_node]
    rcases cmp (key b) k
    · exact holds_node.2 ⟨hl, hb, ihr hr⟩
    · cases l with
      | nil => exact hr
      | node l' a' r' => exact hl.hang hr
    · exact holds_node.2 ⟨ihl hl, hb, hr⟩

end Holds

/-! ### Ordered trees -/

section Walk

variable {key}

theorem ordered_nil : Ordered key (.nil : Tree α) := List.Pairwise.nil

theorem ordered_node {l r : Tree α} {a : α} :
    Ordered key (.node l a r) ↔ Ordered key l ∧ Ordered key r ∧ (∀ x ∈ l.walk, key x < key a) ∧
      (∀ x ∈ r.walk, key a < key x) := by
  simp only [Ordered, walk_node, List.pairwise_append, List.pairwise_cons, List.mem_cons]
  constructor
  · rintro ⟨hl, ⟨har, hr⟩, hlr⟩
    exact ⟨hl, hr, fun x hx => hlr x hx a (.inl rfl), har⟩
  · rintro ⟨hl, hr, hla, har⟩
    refine ⟨hl, ⟨har, hr⟩, ?_⟩
    rintro x hx y (rfl | hy)
    · exact hla x hx
    · exact (hla x hx).trans (har y hy)

theorem find_of_mem {t : Tree α} (ht : Ordered key t) {a : α} (ha : a ∈ t.walk) :
    find key (key a) t = some a := by
  induction t with
  | nil => simp at ha
  | node l b r ihl ihr =>
    obtain ⟨hl, hr, hlb, hbr⟩ := ordered_node.1 ht
    simp only [walk_node, List.mem_append, List.mem_cons] at ha
    rw [find_node]
    rcases ha with ha | rfl | ha
    · rw [(hlb a ha).cmp_eq_gt]; exact ihl hl ha
    · rw [cmp_self_eq_eq]
    · rw [(hbr a ha).cmp_eq_lt]; exact ihr hr ha

/-- On an ordered tree `find` is membership. -/
theorem find_eq_some {t : Tree α} (ht : Ordered key t) {k : κ} {a : α} :
    find key k t = some a ↔ a ∈ t.walk ∧ key a = k := by
  constructor
  · exact fun h => ⟨mem_of_find h, key_of_find h⟩
  · rintro ⟨ha, rfl⟩; exact find_of_mem ht ha

theorem find_eq_none {t : Tree α} (ht : Ordered key t) {k : κ} :
    find key k t = none ↔ ∀ a ∈ t.walk, key a ≠ k := by
  constructor
  · rintro h a ha rfl
    rw [find_of_mem ht ha] at h
    exact absurd h (by simp)
  · intro h
    rcases hf : find key k t with _ | a
    · rfl
    · exact absurd (key_of_find hf) (h a (mem_of_find hf))

theorem walk_modify {k : κ} {f : α → α} {t : Tree α} (ht : Ordered key t) :
    (modify key k f t).walk = t.walk.map fun a => if key a = k then f a else a := by
  induction t with
  | nil => rfl
  | node l b r ihl ihr =>
    obtain ⟨hl, hr, hlb, hbr⟩ := ordered_node.1 ht
    have keep : ∀ L : List α, (∀ x ∈ L, key x ≠ k) → L.map (fun a => if key a = k then f a else a) = L := by
      intro L hL
      conv => rhs; rw [← List.map_id L]
      exact List.map_congr_left fun x hx => by simp [hL x hx]
    rw [modify_node]
    rcases lt_trichotomy (key b) k with h | h | h
    · rw [h.cmp_eq_lt]
      simp only [walk_node, List.map_append, List.map_cons, ihr hr, h.ne, ↓reduceIte]
      rw [keep l.walk fun x hx => ((hlb x hx).trans h).ne]
    · subst h
      rw [cmp_self_eq_eq]
      simp only [walk_node, List.map_append, List.map_cons, ↓reduceIte]
      rw [keep l.walk fun x hx => (hlb x hx).ne, keep r.walk fun x hx => (hbr x hx).ne']
    · rw [h.cmp_eq_gt]
      simp only [walk_node, List.map_append, List.map_cons, ihl hl, h.ne', ↓reduceIte]
      rw [keep r.walk fun x hx => (h.trans (hbr x hx)).ne']

theorem ordered_modify {k : κ} {f : α → α} (hf : ∀ a, key (f a) = key a) {t : Tree α}
    (ht : Ordered key t) : Ordered key (modify key k f t) := by
  unfold Ordered
  rw [walk_modify ht, List.pairwise_map]
  refine List.Pairwise.imp (fun {a b} h => ?_) ht
  split <;> split <;> simpa [hf] using h

/-- A new key is added between the smaller and the larger ones. -/
theorem walk_upsert_of_none {k : κ} {f : α → α} {new : α} {t : Tree α} (ht : Ordered key t)
    (h : find key k t = none) :
    ∃ L R, t.walk = L ++ R ∧ (upsert key k f new t).walk = L ++ new :: R ∧
      (∀ a ∈ L, key a < k) ∧ (∀ a ∈ R, k < key a) := by
  induction t with
  | nil => exact ⟨[], [], rfl, rfl, by simp, by simp⟩
  | node l b r ihl ihr =>
    obtain ⟨hl, hr, hlb, hbr⟩ := ordered_node.1 ht
    rw [find_node] at h
    rw [upsert_node]
    rcases lt_trichotomy (key b) k with hk | hk | hk
    · rw [hk.cmp_eq_lt] at h ⊢
      obtain ⟨L, R, e, e', hL, hR⟩ := ihr hr h
      refine ⟨l.walk ++ b :: L, R, by simp [e], by simp [e'], ?_, hR⟩
      intro a ha
      simp only [List.mem_append, List.mem_cons] at ha
      rcases ha with ha | rfl | ha
      · exact (hlb a ha).trans hk
      · exact hk
      · exact hL a ha
    · rw [hk, cmp_self_eq_eq] at h; simp at h
    · rw [hk.cmp_eq_gt] at h ⊢
      obtain ⟨L, R, e, e', hL, hR⟩ := ihl hl h
      refine ⟨L, R ++ b :: r.walk, by simp [e], by simp [e'], hL, ?_⟩
      intro a ha
      simp only [List.mem_append, List.mem_cons] at ha
      rcases ha with ha | rfl | ha
      · exact hR a ha
      · exact hk
      · exact hk.trans (hbr a ha)

theorem ordered_upsert {k : κ} {f : α → α} {new : α} (hf : ∀ a, key (f a) = key a) (hnew : key new = k)
    {t : Tree α} (ht : Ordered key t) : Ordered key (upsert key k f new t) := by
  rcases h : find key k t with _ | a
  · obtain ⟨L, R, e, e', hL, hR⟩ := @walk_upsert_of_none α κ _ key k f new t ht h
    unfold Ordered at ht ⊢
    rw [e, List.pairwise_append] at ht
    rw [e', List.pairwise_append, List.pairwise_cons]
    obtain ⟨h1, h2, h3⟩ := ht
    refine ⟨h1, ⟨fun x hx => hnew ▸ hR x hx, h2⟩, ?_⟩
    intro x hx y hy
    rcases List.mem_cons.1 hy with rfl | hy
    · exact hnew ▸ hL x hx
    · exact h3 x hx y hy
  · rw [upsert_of_find_some h]
    exact ordered_modify hf ht

/-- Hanging a tree of smaller keys puts it to the left of everything. -/
theorem walk_hang {k : κ} {s t : Tree α} (h : ∀ a ∈ t.walk, k < key a) :
    (hang key k s t).walk = s.walk ++ t.walk := by
  induction t with
  | nil => exact (List.append_nil _).symm
  | node l b r ihl ihr =>
    have hb := h b (by simp)
    rw [hang_node, hb.cmp_eq_gt, walk_node, ihl fun a ha => h a (by simp [ha])]
    simp

theorem walk_graft {s t : Tree α} (h : ∀ a ∈ s.walk, ∀ b ∈ t.walk, key a < key b) :
    (graft key s t).walk = s.walk ++ t.walk := by
  cases s with
  | nil => rfl
  | node l a r => exact walk_hang fun b hb => h a (by simp) b hb

/-- Deleting a key from an ordered tree deletes it from the walk. -/
theorem walk_erase {k : κ} {t : Tree α} (ht : Ordered key t) :
    (erase key k t).walk = t.walk.filter fun a => decide (key a ≠ k) := by
  induction t with
  | nil => rfl
  | node l b r ihl ihr =>
    obtain ⟨hl, hr, hlb, hbr⟩ := ordered_node.1 ht
    have keep : ∀ L : List α, (∀ x ∈ L, key x ≠ k) → L.filter (fun a => decide (key a ≠ k)) = L :=
      fun L hL => List.filter_eq_self.2 fun x hx => by simp [hL x hx]
    rw [erase_node]
    rcases lt_trichotomy (key b) k with h | h | h
    · rw [h.cmp_eq_lt]
      simp only [walk_node, List.filter_append, ihr hr]
      rw [keep l.walk fun x hx => ((hlb x hx).trans h).ne, List.filter_cons_of_pos (by simp [h.ne])]
    · subst h
      rw [cmp_self_eq_eq]
      simp only [walk_node, List.filter_append]
      rw [walk_graft fun x hx y hy => (hlb x hx).trans (hbr y hy), keep l.walk fun x hx => (hlb x hx).ne,
        List.filter_cons_of_neg (by simp), keep r.walk fun x hx => (hbr x hx).ne']
    · rw [h.cmp_eq_gt]
      simp only [walk_node, List.filter_append, ihl hl]
      rw [List.filter_cons_of_pos (by simp [h.ne']), keep r.walk fun x hx => (h.trans (hbr x hx)).ne']

theorem ordered_erase {k : κ} {t : Tree α} (ht : Ordered key t) : Ordered key (erase key k t) := by
  unfold Ordered
  rw [walk_erase ht]
  exact List.Pairwise.filter _ ht

theorem find_erase {k : κ} {t : Tree α} (ht : Ordered key t) (k' : κ) :
    find key k' (erase key k t) = if k' = k then none else find key k' t := by
  split
  · subst k'
    rw [find_eq_none (ordered_erase ht), walk_erase ht]
    simp
  · rename_i hk
    refine Option.ext fun a => ?_
    rw [find_eq_some (ordered_erase ht), find_eq_some ht, walk_erase ht]
    simp only [List.mem_filter, decide_eq_true_eq, and_assoc, and_congr_right_iff]
    rintro -
    constructor
    · exact And.right
    · rintro rfl; exact ⟨hk, rfl⟩

end Walk

/-! ### Trees that agree -/

section Agree

variable {ν : Type*} (view : α → ν)

/-- Every lookup finds the same in both trees, as far as `view` shows. -/
def Agree (s t : Tree α) : Prop := ∀ k, (find key k s).map view = (find key k t).map view

variable {key view} {k : κ} {f g : α → α} {s t : Tree α}

theorem Agree.modify (h : Agree key view s t) (hf : ∀ a, key (f a) = key a) (hg : ∀ a, key (g a) = key a)
    (hfg : ∀ a b, find key k s = some a → find key k t = some b → view a = view b → view (f a) = view (g b)) :
    Agree key view (modify key k f s) (modify key k g t) := by
  intro k'
  rw [find_modify hf, find_modify hg]
  by_cases hk : k' = k
  · subst hk
    have hview := h k'
    rcases hs : find key k' s with _ | a <;> rcases ht : find key k' t with _ | b
    · simp
    · simp [hs, ht] at hview
    · simp [hs, ht] at hview
    · simp only [hs, ht, Option.map_some, Option.some.injEq] at hview
      simp [hfg a b hs ht hview]
  · simpa [hk] using h k'

theorem Agree.upsert {new new' : α} (h : Agree key view s t) (hf : ∀ a, key (f a) = key a)
    (hg : ∀ a, key (g a) = key a) (hnew : key new = k) (hnew' : key new' = k)
    (hfg : view ((find key k s).elim new f) = view ((find key k t).elim new' g)) :
    Agree key view (upsert key k f new s) (upsert key k g new' t) := by
  intro k'
  rw [find_upsert hf hnew, find_upsert hg hnew']
  by_cases hk : k' = k
  · simp [hk, hfg]
  · simpa [hk] using h k'

theorem Agree.erase (h : Agree key view s t) (hs : Ordered key s) (ht : Ordered key t) :
    Agree key view (erase key k s) (erase key k t) := by
  intro k'
  rw [find_erase hs, find_erase ht]
  by_cases hk : k' = k
  · simp [hk]
  · simpa [hk] using h k'

/-- Ordered trees that agree have the same values from left to right, as far as `view` shows. -/
theorem Agree.forall₂_walk (h : Agree key view s t) (hs : Ordered key s) (ht : Ordered key t) :
    List.Forall₂ (fun a b => key a = key b ∧ view a = view b) s.walk t.walk := by
  have hmem (p : κ × ν) (t : Tree α) (ht : Ordered key t) :
      p ∈ t.walk.map (fun a => (key a, view a)) ↔ (find key p.1 t).map view = some p.2 := by
    rw [List.mem_map, Option.map_eq_some_iff]
    constructor
    · rintro ⟨a, ha, rfl⟩
      exact ⟨a, find_of_mem ht ha, rfl⟩
    · rintro ⟨a, ha, hview⟩
      have hkey : key a = p.1 := key_of_find ha
      exact ⟨a, mem_of_find ha, Prod.ext hkey hview⟩
  have hsorted (t : Tree α) (ht : Ordered key t) :
      (t.walk.map fun a => (key a, view a)).Pairwise fun p q => p.1 < q.1 := List.pairwise_map.2 ht
  have hnodup (t : Tree α) (ht : Ordered key t) : (t.walk.map fun a => (key a, view a)).Nodup :=
    (hsorted t ht).imp fun hlt heq => absurd (heq ▸ hlt) (lt_irrefl _)
  have hperm : (s.walk.map fun a => (key a, view a)).Perm (t.walk.map fun a => (key a, view a)) := by
    refine (List.perm_ext_iff_of_nodup (hnodup s hs) (hnodup t ht)).2 fun p => ?_
    rw [hmem p s hs, hmem p t ht, h p.1]
  have heq := hperm.eq_of_pairwise (fun p q _ _ hpq hqp => absurd hpq (lt_asymm hqp)) (hsorted s hs) (hsorted t ht)
  rw [← List.forall₂_eq_eq_eq, List.forall₂_map_left_iff, List.forall₂_map_right_iff] at heq
  exact heq.imp fun a b hab => Prod.mk.inj hab

end Agree

end SearchTree
