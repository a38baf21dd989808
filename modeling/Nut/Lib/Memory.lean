import Mathlib.Data.List.TakeWhile
import Mathlib.Tactic.SplitIfs

/-!
# Strings in blocks of memory

A block of memory is a list of cells.  Its string (`text`) is what stands before the first terminator, as in C; `write`
overwrites cells and has no result where the block ends before them; `resize` keeps what fits in the new block, and new
cells hold anything.

* A text with its terminator, written behind the string, is appended to it (`write_end`).
* A terminator written at an index cuts the string there (`write_nul`).
-/

namespace Memory

variable {α : Type*}

def write (mem : List α) (i : Nat) (as : List α) : Option (List α) :=
  if i + as.length ≤ mem.length then some (mem.take i ++ as ++ mem.drop (i + as.length)) else none

def resize (junk : Nat → α) (mem : List α) (size : Nat) : List α :=
  mem.take size ++ (List.range (size - mem.length)).map junk

theorem length_resize (junk : Nat → α) (mem : List α) (size : Nat) : (resize junk mem size).length = size := by
  rw [resize, List.length_append, List.length_take, List.length_map, List.length_range]
  omega

/-- A new cell at the end. -/
theorem set_resize_succ (junk : Nat → α) (mem : List α) (a : α) :
    (resize junk mem (mem.length + 1)).set mem.length a = mem ++ [a] := by
  rw [resize, List.take_of_length_le (Nat.le_succ _), Nat.add_sub_cancel_left, List.set_append_right _ _ (Nat.le_refl _),
    Nat.sub_self]
  rfl

theorem write_eq {mem : List α} {i : Nat} {as : List α} (h : i + as.length ≤ mem.length) :
    write mem i as = some (mem.take i ++ as ++ mem.drop (i + as.length)) := if_pos h

theorem length_write {mem mem' : List α} {i : Nat} {as : List α} (h : write mem i as = some mem') :
    mem'.length = mem.length := by
  unfold write at h
  split_ifs at h with hi
  rw [← Option.some.inj h, List.length_append, List.length_append, List.length_take, List.length_drop]
  omega

/-- The cells behind those that are written stay. -/
theorem drop_write {mem mem' : List α} {i k : Nat} {as : List α} (h : write mem i as = some mem') (hk : i + as.length ≤ k) :
    mem'.drop k = mem.drop k := by
  unfold write at h
  split_ifs at h with hi
  have hlen : (mem.take i ++ as).length = i + as.length := by
    rw [List.length_append, List.length_take]
    omega
  rw [← Option.some.inj h, List.drop_append, List.drop_eq_nil_of_le (by omega), List.nil_append, List.drop_drop, hlen]
  congr 1
  omega

/-- What is written in two parts is written at once. -/
theorem write_append (mem : List α) (i : Nat) (as bs : List α) :
    (write mem i as).bind (fun mem => write mem (i + as.length) bs) = write mem i (as ++ bs) := by
  by_cases h : i + as.length ≤ mem.length
  · have hlen : (mem.take i ++ as).length = i + as.length := by
      rw [List.length_append, List.length_take]
      omega
    have hall : (mem.take i ++ as ++ mem.drop (i + as.length)).length = mem.length := length_write (write_eq h)
    rw [write_eq h, Option.bind_some]
    unfold write
    rw [hall, List.length_append]
    by_cases h' : i + as.length + bs.length ≤ mem.length
    · have hdrop : (mem.take i ++ as ++ mem.drop (i + as.length)).drop (i + as.length + bs.length) =
          mem.drop (i + as.length + bs.length) := drop_write (write_eq h) (Nat.le_add_right _ _)
      rw [if_pos h', if_pos (by omega), List.take_left' hlen, hdrop, List.append_assoc (mem.take i), Nat.add_assoc]
    · rw [if_neg h', if_neg (by omega)]
  · unfold write
    rw [if_neg h, if_neg (by rw [List.length_append]; omega)]
    rfl

variable [DecidableEq α] {nul : α}

/-- The string at the start of a block. -/
def text (nul : α) (mem : List α) : List α := mem.takeWhile (· ≠ nul)

theorem nul_notMem_text (mem : List α) : nul ∉ text nul mem := fun h => by simpa using List.mem_takeWhile_imp h

theorem text_of_notMem {as : List α} (h : nul ∉ as) : text nul as = as :=
  List.takeWhile_eq_self_iff.2 fun _ ha => decide_eq_true fun hnul => h (hnul ▸ ha)

theorem text_append {as : List α} (h : nul ∉ as) (bs : List α) : text nul (as ++ bs) = as ++ text nul bs :=
  List.takeWhile_append_of_pos fun _ ha => decide_eq_true fun hnul => h (hnul ▸ ha)

/-- Nothing behind a terminator belongs to the string. -/
theorem text_append_nul (as bs : List α) : text nul (as ++ nul :: bs) = text nul as := by
  induction as with
  | nil => simp [text]
  | cons a as ih =>
    unfold text at ih ⊢
    rw [List.cons_append, List.takeWhile_cons, List.takeWhile_cons, ih]

theorem text_take (mem : List α) (i : Nat) : text nul (mem.take i) = (text nul mem).take i := by
  induction mem generalizing i with
  | nil => simp [text]
  | cons a mem ih =>
    cases i with
    | zero => rfl
    | succ i =>
      unfold text at ih ⊢
      rw [List.take_succ_cons, List.takeWhile_cons, List.takeWhile_cons, ih]
      split_ifs <;> rfl

/-- A block with a terminator is its string, a terminator and the rest. -/
theorem eq_text_append {mem : List α} (h : nul ∈ mem) : ∃ rest, mem = text nul mem ++ nul :: rest := by
  induction mem with
  | nil => simp at h
  | cons a mem ih =>
    by_cases ha : a = nul
    · exact ⟨mem, by simp [text, ha]⟩
    · obtain ⟨rest, hrest⟩ := ih ((List.mem_cons.1 h).resolve_left (Ne.symm ha))
      refine ⟨rest, ?_⟩
      unfold text at hrest ⊢
      rw [List.takeWhile_cons, if_pos (by simpa using ha), List.cons_append, ← hrest]

theorem length_text_lt_iff {mem : List α} : (text nul mem).length < mem.length ↔ nul ∈ mem := by
  constructor
  · intro h
    by_contra hnul
    rw [text_of_notMem hnul] at h
    omega
  · intro h
    obtain ⟨rest, hrest⟩ := eq_text_append h
    have hlen := congrArg List.length hrest
    rw [List.length_append, List.length_cons] at hlen
    omega

theorem take_length_text (mem : List α) : mem.take (text nul mem).length = text nul mem :=
  List.prefix_iff_eq_take.1 (List.takeWhile_prefix _) |>.symm

/-- A text written behind the string, with a terminator, is appended to it. -/
theorem write_end (nul : α) (mem as : List α) (h : (text nul mem).length + as.length < mem.length) :
    ∃ mem', write mem (text nul mem).length (as ++ [nul]) = some mem' ∧ text nul mem' = text nul mem ++ text nul as := by
  refine ⟨_, write_eq (by rw [List.length_append, List.length_singleton]; omega), ?_⟩
  rw [take_length_text, List.append_assoc, text_append (nul_notMem_text mem), List.append_assoc, List.singleton_append,
    text_append_nul]

/-- A terminator cuts the string. -/
theorem write_nul (nul : α) {mem : List α} {i : Nat} (h : i < mem.length) :
    ∃ mem', write mem i [nul] = some mem' ∧ text nul mem' = (text nul mem).take i := by
  refine ⟨_, write_eq h, ?_⟩
  rw [List.append_assoc, List.singleton_append, text_append_nul, text_take]

/-- More memory behind a string does not change it. -/
theorem text_append_of_mem {mem : List α} (h : nul ∈ mem) (as : List α) : text nul (mem ++ as) = text nul mem := by
  obtain ⟨rest, hrest⟩ := eq_text_append h
  rw [hrest, List.append_assoc, List.cons_append, text_append_nul, text_append_nul]

theorem text_resize {mem : List α} (h : nul ∈ mem) (junk : Nat → α) {size : Nat} (hsize : mem.length ≤ size) :
    text nul (resize junk mem size) = text nul mem := by
  rw [resize, List.take_of_length_le hsize, text_append_of_mem h]

/-- A whole block is cleared and a text is written to its start. -/
theorem write_clear (nul : α) {mem as : List α} (h : as.length < mem.length) :
    ∃ mem', ((write mem 0 (List.replicate mem.length nul)).bind fun mem => write mem 0 as) = some mem' ∧
      mem'.length = mem.length ∧ text nul mem' = text nul as := by
  have hclear : write mem 0 (List.replicate mem.length nul) = some (List.replicate mem.length nul) := by
    rw [write_eq (by rw [List.length_replicate]; omega), List.length_replicate, Nat.zero_add, List.drop_length, List.append_nil]
    rfl
  have hfits : 0 + as.length ≤ (List.replicate mem.length nul).length := by
    rw [List.length_replicate]
    omega
  have hwrite := write_eq hfits
  refine ⟨_, by rw [hclear]; exact hwrite, (length_write hwrite).trans (List.length_replicate ..), ?_⟩
  obtain ⟨k, hk⟩ : ∃ k, mem.length - as.length = k + 1 := ⟨mem.length - as.length - 1, by omega⟩
  rw [List.take_zero, List.nil_append, Nat.zero_add, List.drop_replicate, hk, List.replicate_succ, text_append_nul]

end Memory
