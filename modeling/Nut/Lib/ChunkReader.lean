import Mathlib.Data.List.Basic

/-!
# Readers of a stream that arrives in chunks

A reader takes one symbol at a time (`step`), completes an item at a delimiter, and may reject.  `readChunk` reads
one received chunk and gives up the rest of it at a rejection; `readChunks` reads successive chunks with the state
kept between them.

* When every item ends at the delimiter and the reader is at rest after an item and after a rejection, all cuts
  give the same items as long as no delimiter follows the first rejection (`readChunks_independent`), and two cuts
  differ as soon as one does (`exists_cuts_differ`).
-/

namespace ChunkReader

/-- What one symbol did: nothing yet, an item completed, or the input was rejected. -/
inductive Outcome (ω : Type*) where
  | more
  | item (x : ω)
  | reject
  deriving DecidableEq, Repr

variable {σ β ω : Type*} (step : σ → β → σ × Outcome ω)

/-- Read one chunk; a rejection ends it. -/
def readChunk (s : σ) : List β → σ × List ω
  | [] => (s, [])
  | b :: bs =>
    match step s b with
    | (s', .more) => readChunk s' bs
    | (s', .item x) => ((readChunk s' bs).1, x :: (readChunk s' bs).2)
    | (s', .reject) => (s', [])

/-- Read successive chunks. -/
def readChunks (s : σ) : List (List β) → σ × List ω
  | [] => (s, [])
  | c :: cs => ((readChunks (readChunk step s c).1 cs).1, (readChunk step s c).2 ++ (readChunks (readChunk step s c).1 cs).2)

/-- The symbols that follow the first rejection. -/
def afterReject (s : σ) : List β → Option (List β)
  | [] => none
  | b :: bs =>
    match step s b with
    | (_, .reject) => some bs
    | (s', _) => afterReject s' bs

variable {step}

/-! ### Runs without a rejection -/

theorem readChunk_append {s : σ} {as bs : List β} (h : afterReject step s as = none) :
    readChunk step s (as ++ bs) = ((readChunk step (readChunk step s as).1 bs).1,
      (readChunk step s as).2 ++ (readChunk step (readChunk step s as).1 bs).2) := by
  induction as generalizing s with
  | nil => rfl
  | cons b as ih =>
    rcases hb : step s b with ⟨s', _ | x | _⟩
    · simp only [afterReject, hb] at h
      simp only [List.cons_append, readChunk, hb, ih h]
    · simp only [afterReject, hb] at h
      simp only [List.cons_append, readChunk, hb, ih h]
    · simp [afterReject, hb] at h

theorem afterReject_append {s : σ} {as bs : List β} (h : afterReject step s as = none) :
    afterReject step s (as ++ bs) = afterReject step (readChunk step s as).1 bs := by
  induction as generalizing s with
  | nil => rfl
  | cons b as ih =>
    rcases hb : step s b with ⟨s', _ | x | _⟩
    · simp only [afterReject, hb] at h
      simp only [List.cons_append, afterReject, readChunk, hb, ih h]
    · simp only [afterReject, hb] at h
      simp only [List.cons_append, afterReject, readChunk, hb, ih h]
    · simp [afterReject, hb] at h

theorem afterReject_append_some {s : σ} {as bs r : List β} (h : afterReject step s as = some r) :
    afterReject step s (as ++ bs) = some (r ++ bs) := by
  induction as generalizing s with
  | nil => simp [afterReject] at h
  | cons b as ih =>
    rcases hb : step s b with ⟨s', _ | x | _⟩
    · simp only [afterReject, hb] at h
      simp only [List.cons_append, afterReject, hb, ih h]
    · simp only [afterReject, hb] at h
      simp only [List.cons_append, afterReject, hb, ih h]
    · simp only [afterReject, hb, Option.some.injEq] at h
      simp only [List.cons_append, afterReject, hb, h]

/-- A prefix of a stream without rejection has none. -/
theorem afterReject_of_append {s : σ} {as bs : List β} (h : afterReject step s (as ++ bs) = none) :
    afterReject step s as = none := by
  rcases ha : afterReject step s as with _ | r
  · rfl
  · rw [afterReject_append_some ha] at h; simp at h

/-- Items of a reader whose states keep an invariant. -/
theorem readChunk_forall {P : σ → Prop} {Q : ω → Prop} (hmore : ∀ s b s', P s → step s b = (s', .more) → P s')
    (hitem : ∀ s b s' x, P s → step s b = (s', .item x) → P s' ∧ Q x) {s : σ} (hs : P s) (bs : List β) :
    ∀ x ∈ (readChunk step s bs).2, Q x := by
  induction bs generalizing s with
  | nil => simp [readChunk]
  | cons b bs ih =>
    rcases hb : step s b with ⟨s', _ | x | _⟩
    · simp only [readChunk, hb]
      exact ih (hmore s b s' hs hb)
    · obtain ⟨hs', hx⟩ := hitem s b s' x hs hb
      simp only [readChunk, hb, List.forall_mem_cons]
      exact ⟨hx, ih hs'⟩
    · simp [readChunk, hb]

/-! ### Silent runs -/

variable (step) in
/-- The state after symbols that complete and reject nothing. -/
def silent (s : σ) : List β → Option σ
  | [] => some s
  | b :: bs =>
    match step s b with
    | (s', .more) => silent s' bs
    | _ => none

theorem silent_append {s s' : σ} {as bs : List β} (h : silent step s as = some s') :
    silent step s (as ++ bs) = silent step s' bs := by
  induction as generalizing s with
  | nil => rw [List.nil_append, Option.some.inj h]
  | cons b as ih =>
    rcases hb : step s b with ⟨t, _ | x | _⟩
    · simp only [silent, hb] at h
      simp only [List.cons_append, silent, hb, ih h]
    · simp [silent, hb] at h
    · simp [silent, hb] at h

/-- Symbols that complete and reject nothing begin with such symbols. -/
theorem silent_of_append {s t : σ} {as bs : List β} (h : silent step s (as ++ bs) = some t) :
    ∃ u, silent step s as = some u ∧ silent step u bs = some t := by
  induction as generalizing s with
  | nil => exact ⟨s, rfl, h⟩
  | cons b as ih =>
    rcases hb : step s b with ⟨u, _ | x | _⟩
    · simp only [List.cons_append, silent, hb] at h ⊢
      exact ih h
    · simp [silent, hb] at h
    · simp [silent, hb] at h

theorem readChunk_silent {s s' : σ} {as : List β} (h : silent step s as = some s') (bs : List β) :
    readChunk step s (as ++ bs) = readChunk step s' bs ∧
      afterReject step s (as ++ bs) = afterReject step s' bs := by
  induction as generalizing s with
  | nil => rw [List.nil_append, Option.some.inj h]; exact ⟨rfl, rfl⟩
  | cons b as ih =>
    rcases hb : step s b with ⟨t, _ | x | _⟩
    · simp only [silent, hb] at h
      simp only [List.cons_append, readChunk, afterReject, hb, ih h, and_self]
    · simp [silent, hb] at h
    · simp [silent, hb] at h

/-- The symbols `bs` are one item `x`, completed by the last of them. -/
def ReadsAs (step : σ → β → σ × Outcome ω) (s : σ) (bs : List β) (s' : σ) (x : ω) : Prop :=
  ∃ body b t, bs = body ++ [b] ∧ silent step s body = some t ∧ step t b = (s', .item x)

theorem ReadsAs.of_silent {s s' t : σ} {as bs : List β} {x : ω} (h : silent step s as = some s')
    (hb : ReadsAs step s' bs t x) : ReadsAs step s (as ++ bs) t x := by
  obtain ⟨body, b, u, rfl, hs, hx⟩ := hb
  exact ⟨as ++ body, b, u, by simp, by rw [silent_append h, hs], hx⟩

/-- The first symbol of an item completes it or leads to the rest. -/
theorem ReadsAs.cons {s s' : σ} {b : β} {bs : List β} {x : ω} (h : ReadsAs step s (b :: bs) s' x) :
    bs = [] ∧ step s b = (s', .item x) ∨ ∃ t, step s b = (t, .more) ∧ ReadsAs step t bs s' x := by
  obtain ⟨body, c, t, hsplit, hs, hc⟩ := h
  cases body with
  | nil =>
    obtain ⟨rfl, rfl⟩ := List.cons.inj hsplit
    rw [silent, Option.some.injEq] at hs
    exact .inl ⟨rfl, hs ▸ hc⟩
  | cons d body =>
    obtain ⟨rfl, rfl⟩ := List.cons.inj hsplit
    rcases hb : step s b with ⟨u, _ | y | _⟩
    · simp only [silent, hb] at hs
      exact .inr ⟨u, rfl, body, c, t, rfl, hs, hc⟩
    · simp [silent, hb] at hs
    · simp [silent, hb] at hs

theorem ReadsAs.tail {s s' t : σ} {b : β} {bs : List β} {x : ω} (h : ReadsAs step s (b :: bs) s' x)
    (hb : step s b = (t, .more)) : ReadsAs step t bs s' x := by
  rcases h.cons with ⟨-, hc⟩ | ⟨u, hu, hs⟩
  · rw [hb] at hc; simp at hc
  · rw [hb] at hu
    obtain rfl := (Prod.mk.inj hu).1
    exact hs

/-- An item is completed by its last symbol. -/
theorem ReadsAs.split {s s' : σ} {as bs : List β} {x : ω} (h : ReadsAs step s (as ++ bs) s' x) (hbs : bs ≠ []) :
    ∃ t, silent step s as = some t ∧ ReadsAs step t bs s' x := by
  induction as generalizing s with
  | nil => exact ⟨s, rfl, h⟩
  | cons a as ih =>
    rcases h.cons with ⟨hnil, -⟩ | ⟨u, hu, hrest⟩
    · exact absurd (List.append_eq_nil_iff.1 hnil).2 hbs
    · obtain ⟨t, ht, hreads⟩ := ih hrest
      exact ⟨t, by simp only [silent, hu, ht], hreads⟩

theorem ReadsAs.readChunk {s s' : σ} {as bs : List β} {x : ω} (h : ReadsAs step s as s' x) :
    ChunkReader.readChunk step s (as ++ bs) =
      ((ChunkReader.readChunk step s' bs).1, x :: (ChunkReader.readChunk step s' bs).2) ∧
    afterReject step s (as ++ bs) = afterReject step s' bs := by
  obtain ⟨body, b, t, rfl, hs, hb⟩ := h
  rw [List.append_assoc, (readChunk_silent hs _).1, (readChunk_silent hs _).2]
  simp only [List.singleton_append, ChunkReader.readChunk, afterReject, hb, and_self]

private theorem readChunks_nils {s : σ} {cs : List (List β)} (h : ∀ c ∈ cs, c = []) (more : List (List β)) :
    readChunks step s (cs ++ more) = readChunks step s more := by
  induction cs with
  | nil => rfl
  | cons c cs ih =>
    obtain rfl := h c (by simp)
    simpa [readChunks, readChunk] using ih fun c hc => h c (by simp [hc])

/-- An item is completed whatever its symbols are cut into, and whatever follows them. -/
theorem ReadsAs.readChunks {s s' : σ} {as : List β} {x : ω} (h : ReadsAs step s as s' x) {cs : List (List β)}
    {tail : List β} (hcut : cs.flatten ++ tail = as) (next : List β) (more : List (List β)) :
    (ChunkReader.readChunks step s (cs ++ (tail ++ next) :: more)).2 =
      x :: (ChunkReader.readChunks step s' (next :: more)).2 := by
  induction cs generalizing s as with
  | nil =>
    rw [List.flatten_nil, List.nil_append] at hcut
    subst hcut
    simp only [List.nil_append, ChunkReader.readChunks, h.readChunk.1, List.cons_append]
  | cons c cs ih =>
    rw [List.flatten_cons, List.append_assoc] at hcut
    subst hcut
    by_cases hrest : cs.flatten ++ tail = []
    · -- the item ends with this chunk
      obtain ⟨hflat, rfl⟩ := List.append_eq_nil_iff.1 hrest
      rw [hrest, List.append_nil] at h
      have hc := (@ReadsAs.readChunk _ _ _ step _ _ _ [] _ h).1
      rw [List.append_nil] at hc
      rw [List.cons_append, ChunkReader.readChunks, hc, readChunks_nils (List.flatten_eq_nil_iff.1 hflat)]
      rfl
    · obtain ⟨t, ht, hreads⟩ := h.split hrest
      have hc := (readChunk_silent ht []).1
      rw [List.append_nil] at hc
      rw [List.cons_append, ChunkReader.readChunks, hc]
      exact ih hreads rfl

/-- A stream on its way to a reader in state `s`: it completes the items `xs` and ends at an item's end. -/
def Pending (step : σ → β → σ × Outcome ω) (start s : σ) (chan : List β) (xs : List ω) : Prop :=
  readChunk step s chan = (start, xs) ∧ afterReject step s chan = none

namespace Pending

variable {start s : σ} {chan buf : List β} {xs : List ω} {x : ω}

theorem nil (step : σ → β → σ × Outcome ω) (start : σ) : Pending step start start [] [] := ⟨rfl, rfl⟩

/-- Writing one more item. -/
theorem append (h : Pending step start s chan xs) (hx : ReadsAs step start buf start x) :
    Pending step start s (chan ++ buf) (xs ++ [x]) := by
  obtain ⟨hread, hrej⟩ := @ReadsAs.readChunk _ _ _ step start start buf [] x hx
  rw [List.append_nil] at hread hrej
  refine ⟨?_, ?_⟩
  · rw [readChunk_append h.2, h.1]
    simp only [hread, readChunk]
  · rw [afterReject_append h.2, h.1]
    simp only [hrej, afterReject]

/-- Reading a part of the stream. -/
theorem split (h : Pending step start s (buf ++ chan) xs) :
    ∃ ys, xs = (readChunk step s buf).2 ++ ys ∧ afterReject step s buf = none ∧
      Pending step start (readChunk step s buf).1 chan ys := by
  obtain ⟨hread, hrej⟩ := h
  have hbuf := afterReject_of_append hrej
  rw [readChunk_append hbuf, Prod.mk.injEq] at hread
  rw [afterReject_append hbuf] at hrej
  exact ⟨_, hread.2.symm, hbuf, Prod.ext hread.1 rfl, hrej⟩

theorem eq_nil (h : Pending step start s [] xs) : s = start ∧ xs = [] := by
  obtain ⟨hread, -⟩ := h
  rw [readChunk, Prod.mk.injEq] at hread
  exact ⟨hread.1, hread.2.symm⟩

end Pending

/-! ### Streams with a rejection -/

section Delimited

variable {start : σ} {nl : β} {empty : ω}

/-- Items end at the delimiter, and the reader is at rest after an item and after a rejection. -/
structure Delimited (step : σ → β → σ × Outcome ω) (start : σ) (nl : β) (empty : ω) : Prop where
  item : ∀ s b s' x, step s b = (s', .item x) → b = nl ∧ s' = start
  reject : ∀ s b s', step s b = (s', .reject) → s' = start
  nl : step start nl = (start, .item empty)

variable (hd : Delimited step start nl empty)
include hd

theorem Delimited.readChunk_items {s : σ} {bs : List β} (h : nl ∉ bs) : (readChunk step s bs).2 = [] := by
  induction bs generalizing s with
  | nil => rfl
  | cons b bs ih =>
    simp only [List.mem_cons, not_or] at h
    rcases hb : step s b with ⟨s', _ | x | _⟩
    · simp only [readChunk, hb]; exact ih h.2
    · exact absurd (hd.item s b s' x hb).1.symm h.1
    · simp only [readChunk, hb]

/-- A line, that is symbols up to a delimiter, is one item or none. -/
theorem Delimited.readChunk_line {s : σ} {bs : List β} (h : nl ∉ bs) :
    (readChunk step s (bs ++ [nl])).2 = [] ∨
      ∃ x, (readChunk step s (bs ++ [nl])).2 = [x] ∧ ReadsAs step s (bs ++ [nl]) start x := by
  induction bs generalizing s with
  | nil =>
    rcases hb : step s nl with ⟨s', _ | x | _⟩
    · exact .inl (by simp [readChunk, hb])
    · exact .inr ⟨x, by simp [readChunk, hb], [], nl, s, rfl, rfl, by rw [hb, (hd.item s nl s' x hb).2]⟩
    · exact .inl (by simp [readChunk, hb])
  | cons b bs ih =>
    simp only [List.mem_cons, not_or] at h
    rcases hb : step s b with ⟨s', _ | x | _⟩
    · rcases @ih s' h.2 with hnone | ⟨x, hx, hreads⟩
      · exact .inl (by simp only [List.cons_append, readChunk, hb, hnone])
      · refine .inr ⟨x, by simp only [List.cons_append, readChunk, hb, hx], ?_⟩
        have hstep : silent step s [b] = some s' := by simp only [silent, hb]
        exact @ReadsAs.of_silent _ _ _ step s s' start [b] (bs ++ [nl]) x hstep hreads
    · exact absurd (hd.item s b s' x hb).1.symm h.1
    · exact .inl (by simp only [List.cons_append, readChunk, hb])

theorem Delimited.readChunks_items {s : σ} {cs : List (List β)} (h : nl ∉ cs.flatten) :
    (readChunks step s cs).2 = [] := by
  induction cs generalizing s with
  | nil => rfl
  | cons c cs ih =>
    simp only [List.flatten_cons, List.mem_append, not_or] at h
    rw [readChunks, hd.readChunk_items h.1, ih h.2]; rfl

theorem Delimited.readChunk_reject {s : σ} {as bs r : List β} (h : afterReject step s as = some r) :
    readChunk step s (as ++ bs) = readChunk step s as ∧ (readChunk step s as).1 = start := by
  induction as generalizing s with
  | nil => simp [afterReject] at h
  | cons b as ih =>
    rcases hb : step s b with ⟨s', _ | x | _⟩
    · simp only [afterReject, hb] at h
      simp only [List.cons_append, readChunk, hb, ih h, and_self]
    · simp only [afterReject, hb] at h
      simp only [List.cons_append, readChunk, hb, ih h, and_self]
    · simp only [List.cons_append, readChunk, hb, hd.reject s b s' hb, and_self]

/-- When no delimiter follows the first rejection, every cut gives the items of the whole stream. -/
theorem Delimited.readChunks_of_no_nl {s : σ} {cs : List (List β)}
    (h : ∀ r, afterReject step s cs.flatten = some r → nl ∉ r) :
    (readChunks step s cs).2 = (readChunk step s cs.flatten).2 := by
  induction cs generalizing s with
  | nil => rfl
  | cons c cs ih =>
    rw [List.flatten_cons] at h ⊢
    rw [readChunks]
    rcases hc : afterReject step s c with _ | r
    · rw [afterReject_append hc] at h
      rw [ih h, readChunk_append hc]
    · have hr := h (r ++ cs.flatten) (afterReject_append_some hc)
      rw [(hd.readChunk_reject hc).1, hd.readChunks_items (fun hm => hr (List.mem_append_right _ hm)),
        List.append_nil]

theorem Delimited.readChunks_independent {s : σ} {bs : List β}
    (h : ∀ r, afterReject step s bs = some r → nl ∉ r) {cs ds : List (List β)}
    (hc : cs.flatten = bs) (hds : ds.flatten = bs) :
    (readChunks step s cs).2 = (readChunks step s ds).2 := by
  subst hc
  rw [hd.readChunks_of_no_nl h, hd.readChunks_of_no_nl (hds.symm ▸ h), hds]

omit hd in
/-- The first rejection splits the stream. -/
theorem afterReject_split {s : σ} {bs r : List β} (h : afterReject step s bs = some r) :
    ∃ as b s', bs = as ++ b :: r ∧ afterReject step s as = none ∧
      step (readChunk step s as).1 b = (s', .reject) := by
  induction bs generalizing s with
  | nil => simp [afterReject] at h
  | cons b bs ih =>
    rcases hb : step s b with ⟨s', _ | x | _⟩
    · simp only [afterReject, hb] at h
      obtain ⟨as, c, t, rfl, hn, ht⟩ := ih h
      exact ⟨b :: as, c, t, rfl, by simp only [afterReject, hb, hn], by simp only [readChunk, hb, ht]⟩
    · simp only [afterReject, hb] at h
      obtain ⟨as, c, t, rfl, hn, ht⟩ := ih h
      exact ⟨b :: as, c, t, rfl, by simp only [afterReject, hb, hn], by simp only [readChunk, hb, ht]⟩
    · simp only [afterReject, hb, Option.some.injEq] at h
      subst h
      exact ⟨[], b, s', rfl, rfl, hb⟩

/-- Symbols read one chunk each. -/
private def singles (bs : List β) : List (List β) := bs.map fun b => [b]

omit hd in
private theorem flatten_singles (bs : List β) : (singles bs).flatten = bs := by
  induction bs with
  | nil => rfl
  | cons b bs ih => simpa [singles] using ih

omit hd in
private theorem readChunks_singles_append {s : σ} {as : List β} {cs : List (List β)}
    (h : afterReject step s as = none) :
    readChunks step s (singles as ++ cs) = ((readChunks step (readChunk step s as).1 cs).1,
      (readChunk step s as).2 ++ (readChunks step (readChunk step s as).1 cs).2) := by
  induction as generalizing s with
  | nil => rfl
  | cons b as ih =>
    rcases hb : step s b with ⟨s', _ | x | _⟩
    · simp only [afterReject, hb] at h
      simp only [singles, List.map_cons, List.cons_append, readChunks, readChunk, hb, List.nil_append]
      exact ih h
    · simp only [afterReject, hb] at h
      simp only [singles, List.map_cons, List.cons_append, readChunks, readChunk, hb, List.nil_append]
      rw [show List.map (fun b => [b]) as = singles as from rfl, ih h]
    · simp [afterReject, hb] at h

/-- When a delimiter follows the first rejection within `n - 2` symbols, two cuts into chunks of at most `n` symbols
give different items: one drops the delimiter with the rejected chunk, the other reads it as an item of its own. -/
theorem Delimited.exists_cuts_differ {s : σ} {bs u v : List β}
    (h : afterReject step s bs = some (u ++ nl :: v)) {n : Nat} (hn : u.length + 2 ≤ n) :
    ∃ cs ds : List (List β), cs.flatten = bs ∧ ds.flatten = bs ∧ (∀ c ∈ cs ++ ds, c ≠ [] ∧ c.length ≤ n) ∧
      (readChunks step s cs).2 ≠ (readChunks step s ds).2 := by
  obtain ⟨as, b, s', rfl, hnone, hrej⟩ := afterReject_split h
  have hs' := hd.reject _ _ _ hrej
  subst hs'
  have lost : ∀ w, readChunk step (readChunk step s as).1 (b :: w) = (s', []) := by
    intro w
    simp only [readChunk, hrej]
  refine ⟨singles as ++ (b :: (u ++ [nl])) :: singles v, singles as ++ (b :: u) :: [nl] :: singles v, ?_, ?_, ?_, ?_⟩
  · simp [flatten_singles]
  · simp [flatten_singles]
  · have hsingle : ∀ (w : List β), ∀ c ∈ singles w, c ≠ [] ∧ c.length ≤ n := by
      intro w c hc
      obtain ⟨x, -, rfl⟩ := List.mem_map.1 hc
      exact ⟨by simp, by simp; omega⟩
    intro c hc
    simp only [List.mem_append, List.mem_cons] at hc
    rcases hc with (hc | rfl | hc) | (hc | rfl | rfl | hc)
    · exact hsingle as c hc
    · exact ⟨by simp, by simp; omega⟩
    · exact hsingle v c hc
    · exact hsingle as c hc
    · exact ⟨by simp, by simp; omega⟩
    · exact ⟨by simp, by simp; omega⟩
    · exact hsingle v c hc
  · rw [readChunks_singles_append hnone, readChunks_singles_append hnone]
    simp only [readChunks, lost, List.nil_append]
    simp only [readChunk, hd.nl]
    intro he
    have := congrArg List.length he
    simp only [List.length_append, List.length_cons, List.length_nil] at this
    omega

end Delimited

end ChunkReader
