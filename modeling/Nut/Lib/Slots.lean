import Mathlib.Data.List.Basic
import Mathlib.Data.Option.Basic
import Mathlib.Tactic.SplitIfs

/-!
# Programs that read an array by index

A `SlotReader` computes a result from the slots of an array.  An array that is used again may have more slots than
those in use now: a reader is `Within n` if it reads none behind the first `n`, which is to say that it runs on those
alone (`within_iff`).
-/

/-- A computation on the slots of an array, each read by its index. -/
inductive SlotReader (α ρ : Type*) where
  | done (r : ρ)
  | read (i : Nat) (next : α → SlotReader α ρ)

namespace SlotReader

variable {α ρ σ : Type*} {n : Nat} {slots : List α} {p : SlotReader α ρ}

/-- The result; there is none where a slot is read that does not exist. -/
def run (slots : List α) : SlotReader α ρ → Option ρ
  | done r => some r
  | read i next =>
    match slots[i]? with
    | none => none
    | some a => (next a).run slots

/-- The indices that are read, in order. -/
def reads (slots : List α) : SlotReader α ρ → List Nat
  | done _ => []
  | read i next =>
    i :: match slots[i]? with
      | none => []
      | some a => (next a).reads slots

def bind : SlotReader α ρ → (ρ → SlotReader α σ) → SlotReader α σ
  | done r, f => f r
  | read i next, f => read i fun a => (next a).bind f

/-- Read the slots from `i` on, `k` of them. -/
def range (i : Nat) : Nat → SlotReader α (List α)
  | 0 => done []
  | k + 1 => read i fun a => (range (i + 1) k).bind fun as => done (a :: as)

/-- Every slot that is read is one of the first `n`. -/
def Within (n : Nat) (slots : List α) (p : SlotReader α ρ) : Prop := ∀ i ∈ p.reads slots, i < n

theorem run_read {i : Nat} {a : α} (h : slots[i]? = some a) (next : α → SlotReader α ρ) :
    (read i next).run slots = (next a).run slots := by
  rw [run, h]

theorem run_read_getD {i : Nat} (h : i < slots.length) (d : α) (next : α → SlotReader α ρ) :
    (read i next).run slots = (next (slots.getD i d)).run slots := by
  rw [List.getD_eq_getElem?_getD, List.getElem?_eq_getElem h, Option.getD_some]
  exact run_read (List.getElem?_eq_getElem h) next

/-- A reader that branches as a program does. -/
theorem run_ite {c : Prop} [Decidable c] {p q : SlotReader α ρ} {r s : Option ρ} (hp : c → p.run slots = r)
    (hq : ¬c → q.run slots = s) : (if c then p else q).run slots = if c then r else s := by
  split_ifs with hc
  · exact hp hc
  · exact hq hc

theorem run_bind (p : SlotReader α ρ) (f : ρ → SlotReader α σ) :
    (p.bind f).run slots = (p.run slots).bind fun r => (f r).run slots := by
  induction p with
  | done r => rfl
  | read i next ih =>
    rw [bind, run, run]
    cases slots[i]? with
    | none => rfl
    | some a => exact ih a

theorem run_range (i k : Nat) (h : i + k ≤ slots.length) : (range i k).run slots = some ((slots.drop i).take k) := by
  induction k generalizing i with
  | zero => rw [List.take_zero]; rfl
  | succ k ih =>
    have hi : i < slots.length := by omega
    rw [range, run_read (List.getElem?_eq_getElem hi), run_bind, ih (i + 1) (by omega), Option.bind_some, run,
      List.drop_eq_getElem_cons hi, List.take_succ_cons]

/-- A reader stays within the first `n` slots if and only if it runs on them alone. -/
theorem within_iff (hn : n ≤ slots.length) : p.Within n slots ↔ (p.run (slots.take n)).isSome := by
  induction p with
  | done r => exact iff_of_true (fun i hi => absurd hi List.not_mem_nil) rfl
  | read i next ih =>
    rw [Within, reads, run]
    by_cases hi : i < n
    · have hslot : slots[i]? = some slots[i] := List.getElem?_eq_getElem (by omega)
      have htake : (slots.take n)[i]? = some slots[i] := by rw [List.getElem?_take, if_pos hi, hslot]
      rw [htake, hslot, List.forall_mem_cons]
      exact ⟨fun h => (ih slots[i]).1 h.2, fun h => ⟨hi, (ih slots[i]).2 h⟩⟩
    · have htake : (slots.take n)[i]? = none := by rw [List.getElem?_take, if_neg hi]
      rw [htake]
      exact iff_of_false (fun h => hi (h i List.mem_cons_self)) Bool.false_ne_true

end SlotReader
