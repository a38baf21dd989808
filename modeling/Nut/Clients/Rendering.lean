import Mathlib.Data.List.Basic
import Mathlib.Logic.Relation
import Nut.Clients.Upsstats

/-!
# The page of a template

What a template says, without the file: its lines are read one after the other, and the lines of a loop once for each UPS of
the list, with that UPS current.  `Sound` has the conditions under which `display_template` prints this page.

A `Reading` is a page with its place in the conditionals, which the flags of the program agree with.
-/

namespace Nut.Upsstats

open Template Relation

/-- The page behind an item, without the commands of a loop. -/
def runItem (e : Env) (p : Page) : Item → Page
  | .char c => passThrough c p
  | .command cmd =>
    match skipped cmd p with
    | some q => q
    | none =>
      if cmd = foreachups ∨ cmd = endfor then p
      else
        match condition e cmd p with
        | some (shown, q) => if shown then q else { q with skipClause := true }
        | none =>
          match doPlain e cmd p with
          | .ok q => q
          | .error _ => p

/-- A UPS becomes current, with the rest of the list. -/
def moveTo (e : Env) (next : List Ulist) (p : Page) : Page :=
  match setCurrups e next p with
  | .ok q => q
  | .error _ => p

/-! ### The place in a conditional -/

/-- Outside of the conditionals, or in the first or second part of one, which is shown or not. -/
inductive Part
  | outside
  | first (shown : Bool)
  | second (shown : Bool)
  deriving DecidableEq

namespace Part

def shown : Part → Bool
  | outside => true
  | first shown => shown
  | second shown => shown

/-- `skip_clause` in the part. -/
def clause : Part → Bool
  | first shown => !shown
  | _ => false

/-- `skip_block` in the part. -/
def block : Part → Bool
  | second shown => !shown
  | _ => false

/-- The part behind `ELSE`. -/
def other : Part → Part
  | first shown => second !shown
  | _ => second false

/-- The part behind an item. -/
def next (e : Env) (p : Page) (part : Part) : Item → Part
  | .char _ => part
  | .command cmd =>
    if cmd = endif then outside
    else if cmd = els then part.other
    else if part.shown then
      match condition e cmd p with
      | some (shown, _) => first shown
      | none => part
    else part

/-- The flags of the page are those of the part. -/
def Agrees (part : Part) (p : Page) : Prop := p.skipClause = part.clause ∧ p.skipBlock = part.block

end Part

section Parts

variable {e : Env} {p q : Page} {part : Part} {cmd : CStr}

theorem Part.Agrees.keeps (h : part.Agrees p) (hkeeps : Keeps p q) : part.Agrees q :=
  ⟨hkeeps.skipClause.trans h.1, hkeeps.skipBlock.trans h.2⟩

theorem Part.shown_iff (part : Part) : part.shown = true ↔ part.clause = false ∧ part.block = false := by
  rcases part with _ | shown | shown
  · decide
  · cases shown <;> decide
  · cases shown <;> decide

/-- Outside of the commands of a conditional, exactly what is not shown is skipped. -/
theorem Part.Agrees.skipped (h : part.Agrees p) (hendif : cmd ≠ endif) (hels : cmd ≠ els) :
    Upsstats.skipped cmd p = if part.shown then none else some p := by
  rw [Upsstats.skipped, if_neg hendif, if_neg hels, h.1, h.2]
  rcases part with _ | shown | shown
  · rfl
  · cases shown <;> rfl
  · cases shown <;> rfl

theorem Part.Agrees.els (h : part.Agrees p) : ∃ q, Upsstats.skipped Upsstats.els p = some q ∧ part.other.Agrees q := by
  have hels : Upsstats.skipped Upsstats.els p =
      if p.skipBlock then some p
      else some (if p.skipClause then { p with skipClause := false } else { p with skipBlock := true }) := rfl
  obtain ⟨hclause, hblock⟩ := h
  have hfalse : ∀ {b : Bool}, b = false → ¬ b = true := fun hb => Bool.eq_false_iff.1 hb
  rw [hels]
  rcases part with _ | shown | shown
  · rw [if_neg (hfalse hblock), if_neg (hfalse hclause)]
    exact ⟨_, rfl, hclause, rfl⟩
  · rw [if_neg (hfalse hblock)]
    cases shown
    · rw [if_pos (show p.skipClause = true from hclause)]
      exact ⟨_, rfl, rfl, hblock⟩
    · rw [if_neg (hfalse hclause)]
      exact ⟨_, rfl, hclause, rfl⟩
  · cases shown
    · rw [if_pos (show p.skipBlock = true from hblock)]
      exact ⟨_, rfl, hclause, hblock⟩
    · rw [if_neg (hfalse hblock), if_neg (hfalse hclause)]
      exact ⟨_, rfl, hclause, rfl⟩

/-- A loop is no conditional. -/
theorem condition_loop (h : cmd = foreachups ∨ cmd = endfor) : condition e cmd p = none := by
  rcases h with rfl | rfl <;> rfl

theorem Part.Agrees.runItem (h : part.Agrees p) (i : Item) : (part.next e p i).Agrees (runItem e p i) := by
  cases i with
  | char c =>
    rw [Upsstats.runItem, passThrough]
    split
    · exact h
    · exact h
  | command cmd =>
    rw [Part.next, Upsstats.runItem]
    by_cases hendif : cmd = endif
    · subst hendif
      rw [if_pos rfl, Upsstats.skipped, if_pos rfl]
      exact ⟨rfl, rfl⟩
    · rw [if_neg hendif]
      by_cases hels : cmd = Upsstats.els
      · subst hels
        obtain ⟨q, hq, hagrees⟩ := h.els
        rw [if_pos rfl, hq]
        exact hagrees
      -- what is not shown is skipped, and the part stays
      · rw [if_neg hels, h.skipped hendif hels]
        by_cases hshown : part.shown = true
        · rw [if_pos hshown, if_pos hshown]
          dsimp only
          by_cases hloop : cmd = foreachups ∨ cmd = endfor
          · rw [if_pos hloop, condition_loop hloop]
            exact h
          · obtain ⟨hclause, hblock⟩ := part.shown_iff.1 hshown
            rw [if_neg hloop]
            cases hcond : condition e cmd p with
            | some r =>
              obtain ⟨shown, q⟩ := r
              have hq : part.Agrees q := h.keeps (keeps_condition hcond)
              cases shown
              · exact ⟨rfl, hq.2.trans hblock⟩
              · exact ⟨hq.1.trans hclause, hq.2.trans hblock⟩
            | none =>
              dsimp only
              cases hplain : doPlain e cmd p with
              | ok q => exact h.keeps (keeps_doPlain hplain)
              | error halt => exact h
        · rw [if_neg hshown, if_neg hshown]
          exact h

theorem upsConnect_flags {u : Ulist} (h : upsConnect e u p = .ok q) :
    q.currups = p.currups ∧ q.skipClause = p.skipClause ∧ q.skipBlock = p.skipBlock := by
  have hnew : reconnect e u p = .ok q →
      q.currups = p.currups ∧ q.skipClause = p.skipClause ∧ q.skipBlock = p.skipBlock := by
    intro h
    unfold reconnect at h
    split at h
    · cases h
    · cases h
      exact ⟨rfl, rfl, rfl⟩
  unfold upsConnect at h
  split at h
  · exact hnew h
  · split_ifs at h
    · cases h
      exact ⟨rfl, rfl, rfl⟩
    · split at h
      · cases h
      · split_ifs at h
        · cases h
          exact ⟨rfl, rfl, rfl⟩
        · exact hnew h

theorem Part.Agrees.moveTo (h : part.Agrees p) (next : List Ulist) : part.Agrees (moveTo e next p) := by
  unfold Upsstats.moveTo
  cases hset : setCurrups e next p with
  | error halt => exact h
  | ok q =>
    cases next with
    | nil =>
      cases hset
      exact h
    | cons u next =>
      obtain ⟨-, hclause, hblock⟩ := upsConnect_flags hset
      exact ⟨hclause.trans h.1, hblock.trans h.2⟩

end Parts

/-- A page with its place. -/
@[ext]
structure Reading where
  page : Page
  part : Part
  agrees : part.Agrees page

namespace Reading

def next (e : Env) (r : Reading) (i : Item) : Reading := ⟨runItem e r.page i, r.part.next e r.page i, r.agrees.runItem i⟩

def run (e : Env) (r : Reading) (is : List Item) : Reading := is.foldl (next e) r

/-- `moveTo` does not touch the flags. -/
def move (e : Env) (ups : List Ulist) (r : Reading) : Reading := ⟨moveTo e ups r.page, r.part, r.agrees.moveTo ups⟩

/-- The reading with this list as the current one. -/
def withUps (ups : List Ulist) (r : Reading) : Reading := ⟨{ r.page with currups := ups }, r.part, r.agrees⟩

/-- The items `body` for each UPS of `u :: ups`, with that UPS current; behind all but the last one come the items `post`,
with the next one current. -/
def eachUps (e : Env) (body post : List Item) : Ulist → List Ulist → Reading → Reading
  | u, [], r => ((r.withUps [u]).run e body).move e []
  | u, v :: ups, r => eachUps e body post v ups ((((r.withUps (u :: v :: ups)).run e body).move e (v :: ups)).run e post)

end Reading

open Upsstats.Reading

/-- No loop begins in these items. -/
def Unlooped (e : Env) : Reading → List Item → Prop
  | _, [] => True
  | r, i :: is => (i = .command foreachups → r.part.shown = false) ∧ Unlooped e (r.next e i) is

/-- The reading `q` is what the items, and the lines behind them, say from the reading `r` on. -/
inductive Renders (e : Env) (ulhead : List Ulist) : Reading → List Item → List CStr → Reading → Prop
  | nil {r : Reading} : Renders e ulhead r [] [] r
  | line {r q : Reading} {l : CStr} {ls : List CStr} : Renders e ulhead r (items l) ls q → Renders e ulhead r [] (l :: ls) q
  | rest {r q : Reading} {is : List Item} {ls : List CStr} :
      Unlooped e r is → Renders e ulhead (r.run e is) [] ls q → Renders e ulhead r is ls q
  | loop {r q : Reading} {u : Ulist} {ups : List Ulist} {pre post preEnd postEnd : List Item} {last : CStr}
      {body ls : List CStr} :
      ulhead = u :: ups → Unlooped e r pre → (r.run e pre).part.shown = true →
      (∀ l ∈ body, .command endfor ∉ items l) →
      items last = preEnd ++ .command endfor :: postEnd → .command endfor ∉ preEnd →
      Renders e ulhead
        (eachUps e (body.flatMap items ++ preEnd) postEnd u ups (((r.run e pre).move e ulhead).run e post)) postEnd ls q →
      Renders e ulhead r (pre ++ .command foreachups :: post) (body ++ last :: ls) q
  | unclosed {r q : Reading} {pre post : List Item} {ls : List CStr} :
      Unlooped e r pre → (r.run e pre).part.shown = true → (∀ l ∈ ls, .command endfor ∉ items l) →
      Renders e ulhead (((r.run e pre).move e ulhead).run e post) [] ls q →
      Renders e ulhead r (pre ++ .command foreachups :: post) ls q

/-! ### The conditions -/

/-- A UPS whose name can be split. -/
def Usable (u : Ulist) : Prop := ∃ parts, Splitname.upscliSplitname u.sys = .ok parts

/-- An item may stand where it is come to: `ELSE` belongs to a conditional; `HOST`, `HOSTDESC` and `ENDFOR` need a current
UPS, and a loop and another command of a loop do not meet. -/
def Allowed (inLoop : Bool) (r : Reading) : Item → Prop
  | .char _ => True
  | .command cmd =>
    (cmd = els → r.part ≠ .outside) ∧
      (r.part.shown = true →
        cmd ≠ foreachups ∧ (cmd = endfor → inLoop = false) ∧
          (cmd = host ∨ cmd = hostdesc ∨ cmd = endfor → r.page.currups ≠ []))

def ItemsSound (e : Env) (inLoop : Bool) : Reading → List Item → Prop
  | _, [] => True
  | r, i :: is => Allowed inLoop r i ∧ ItemsSound e inLoop (r.next e i) is

/-- The same for each UPS, where `ENDFOR` is not skipped. -/
def EachSound (e : Env) (body post : List Item) : Ulist → List Ulist → Reading → Prop
  | u, [], r => ItemsSound e true (r.withUps [u]) body ∧ ((r.withUps [u]).run e body).part.shown = true
  | u, v :: ups, r =>
    ItemsSound e true (r.withUps (u :: v :: ups)) body ∧ ((r.withUps (u :: v :: ups)).run e body).part.shown = true ∧
      ItemsSound e true (((r.withUps (u :: v :: ups)).run e body).move e (v :: ups)) post ∧
      EachSound e body post v ups ((((r.withUps (u :: v :: ups)).run e body).move e (v :: ups)).run e post)

/-- Every command of the items and of the lines behind them is allowed in the state before it, and the UPSes of a loop can be
used. -/
inductive Sound (e : Env) (ulhead : List Ulist) : Reading → List Item → List CStr → Prop
  | nil {r : Reading} : Sound e ulhead r [] []
  | line {r : Reading} {l : CStr} {ls : List CStr} : Sound e ulhead r (items l) ls → Sound e ulhead r [] (l :: ls)
  | rest {r : Reading} {is : List Item} {ls : List CStr} :
      ItemsSound e false r is → Sound e ulhead (r.run e is) [] ls → Sound e ulhead r is ls
  | loop {r : Reading} {u : Ulist} {ups : List Ulist} {pre post preEnd postEnd : List Item} {last : CStr}
      {body ls : List CStr} :
      ulhead = u :: ups → ItemsSound e false r pre → (r.run e pre).part.shown = true → (∀ v ∈ ulhead, Usable v) →
      ItemsSound e true ((r.run e pre).move e ulhead) post →
      (∀ l ∈ body, .command endfor ∉ items l) →
      items last = preEnd ++ .command endfor :: postEnd → .command endfor ∉ preEnd →
      EachSound e (body.flatMap items ++ preEnd) postEnd u ups (((r.run e pre).move e ulhead).run e post) →
      Sound e ulhead
        (eachUps e (body.flatMap items ++ preEnd) postEnd u ups (((r.run e pre).move e ulhead).run e post)) postEnd ls →
      Sound e ulhead r (pre ++ .command foreachups :: post) (body ++ last :: ls)
  | unclosed {r : Reading} {pre post : List Item} {ls : List CStr} :
      ItemsSound e false r pre → (r.run e pre).part.shown = true → (∀ v ∈ ulhead.head?, Usable v) →
      ItemsSound e true ((r.run e pre).move e ulhead) post → (∀ l ∈ ls, .command endfor ∉ items l) →
      Sound e ulhead (((r.run e pre).move e ulhead).run e post) [] ls →
      Sound e ulhead r (pre ++ .command foreachups :: post) ls

instance (inLoop : Bool) (r : Reading) : (i : Item) → Decidable (Allowed inLoop r i)
  | .char _ => inferInstanceAs (Decidable True)
  | .command cmd =>
    inferInstanceAs (Decidable ((cmd = els → r.part ≠ .outside) ∧
      (r.part.shown = true →
        cmd ≠ foreachups ∧ (cmd = endfor → inLoop = false) ∧
          (cmd = host ∨ cmd = hostdesc ∨ cmd = endfor → r.page.currups ≠ []))))

instance decidableItemsSound (e : Env) (inLoop : Bool) : (r : Reading) → (is : List Item) → Decidable (ItemsSound e inLoop r is)
  | _, [] => inferInstanceAs (Decidable True)
  | r, i :: is =>
    have := decidableItemsSound e inLoop (r.next e i) is
    inferInstanceAs (Decidable (Allowed inLoop r i ∧ ItemsSound e inLoop (r.next e i) is))

/-! ### The items of a line -/

section Items

variable {e : Env} {ulhead : List Ulist} {inLoop : Bool} {p : Page} {r : Reading}

@[simp] theorem Reading.run_nil : r.run e [] = r := rfl

@[simp] theorem Reading.run_cons (i : Item) (is : List Item) : r.run e (i :: is) = (r.next e i).run e is := rfl

theorem Reading.run_append (is js : List Item) : r.run e (is ++ js) = (r.run e is).run e js := List.foldl_append

theorem itemsSound_append (is js : List Item) :
    ItemsSound e inLoop r (is ++ js) ↔ ItemsSound e inLoop r is ∧ ItemsSound e inLoop (r.run e is) js := by
  induction is generalizing r with
  | nil => exact (iff_of_eq (true_and _)).symm
  | cons i is ih =>
    simp only [List.cons_append, ItemsSound, Reading.run_cons, ih]
    exact and_assoc.symm

theorem ItemsSound.unlooped {is : List Item} (h : ItemsSound e inLoop r is) : Unlooped e r is := by
  induction is generalizing r with
  | nil => trivial
  | cons i is ih =>
    refine ⟨?_, ih h.2⟩
    rintro rfl
    exact Bool.eq_false_iff.2 fun hshown => (h.1.2 hshown).1 rfl

theorem currups_skipped {cmd : CStr} {q : Page} (h : skipped cmd p = some q) : q.currups = p.currups := by
  unfold skipped at h
  split_ifs at h
  all_goals
    obtain rfl := Option.some.inj h
    rfl

/-- No item but those of a loop changes the current UPS. -/
theorem currups_runItem (i : Item) : (runItem e p i).currups = p.currups := by
  cases i with
  | char c =>
    simp only [runItem, passThrough]
    split <;> rfl
  | command cmd =>
    simp only [runItem]
    cases hskipped : skipped cmd p with
    | some q => exact currups_skipped hskipped
    | none =>
      dsimp only
      split
      · rfl
      · cases hcondition : condition e cmd p with
        | some r =>
          obtain ⟨shown, q⟩ := r
          have hkeeps : q.currups = p.currups := (keeps_condition hcondition).currups
          cases shown
          · exact hkeeps
          · exact hkeeps
        | none =>
          cases hplain : doPlain e cmd p with
          | ok q => exact (keeps_doPlain hplain).currups
          | error halt => rfl

theorem currups_run (is : List Item) : (r.run e is).page.currups = r.page.currups := by
  induction is generalizing r with
  | nil => rfl
  | cons i is ih =>
    rw [Reading.run_cons, ih]
    exact currups_runItem i

/-- A command that is allowed does what the template says. -/
theorem doItem_ok {i : Item} {tf : CStr} {forofs : Option CStr} (h : Allowed inLoop r i)
    (hidle : inLoop = true ∨ forofs = none ∨ r.page.currups = [] ∨ i ≠ .command endfor) :
    doItem e ulhead ⟨r.page, tf, forofs⟩ i = .ok ⟨(r.next e i).page, tf, forofs⟩ := by
  cases i with
  | char c => rfl
  | command cmd =>
    show doCommand e ulhead cmd ⟨r.page, tf, forofs⟩ = .ok ⟨runItem e r.page (.command cmd), tf, forofs⟩
    simp only [doCommand, runItem]
    cases hskipped : skipped cmd r.page with
    | some q => rfl
    | none =>
      -- the command is not skipped, so it stands in a part that is shown
      have hshown : r.part.shown = true := by
        by_contra hhidden
        by_cases hels : cmd = els
        · obtain ⟨q, hq, -⟩ := r.agrees.els
          rw [hels, hq] at hskipped
          cases hskipped
        · by_cases hendif : cmd = endif
          · rw [hendif, skipped, if_pos rfl] at hskipped
            cases hskipped
          · rw [r.agrees.skipped hendif hels, if_neg hhidden] at hskipped
            cases hskipped
      obtain ⟨hforeach, hendfor, hcurrups⟩ := h.2 hshown
      dsimp only
      rw [if_neg hforeach]
      by_cases hend : cmd = endfor
      · rw [if_pos hend, if_pos (.inr hend)]
        have hforofs : forofs = none := by
          rcases hidle with hin | hforofs | hnil | hne
          · rw [hendfor hend] at hin
            cases hin
          · exact hforofs
          · exact absurd hnil (hcurrups (.inr (.inr hend)))
          · exact absurd (congrArg Item.command hend) hne
        rw [hforofs, doEndfor]
      · rw [if_neg hend, if_neg (not_or.2 ⟨hforeach, hend⟩)]
        cases condition e cmd r.page with
        | some c => rfl
        | none =>
          have hneeds : cmd = host ∨ cmd = hostdesc → r.page.currups ≠ [] := by
            rintro (hhost | hdesc)
            · exact hcurrups (.inl hhost)
            · exact hcurrups (.inr (.inl hdesc))
          obtain ⟨q, hq⟩ := doPlain_ok (e := e) hneeds
          simp only [hq, Except.map]

theorem foldlM_items {is : List Item} {tf : CStr} {forofs : Option CStr} (h : ItemsSound e inLoop r is)
    (hidle : inLoop = true ∨ forofs = none ∨ r.page.currups = [] ∨ .command endfor ∉ is) :
    is.foldlM (doItem e ulhead) ⟨r.page, tf, forofs⟩ = .ok ⟨(r.run e is).page, tf, forofs⟩ := by
  induction is generalizing r with
  | nil => rfl
  | cons i is ih =>
    have hi : doItem e ulhead ⟨r.page, tf, forofs⟩ i = .ok ⟨(r.next e i).page, tf, forofs⟩ := by
      refine doItem_ok h.1 ?_
      rcases hidle with hin | hforofs | hnil | hmem
      · exact .inl hin
      · exact .inr (.inl hforofs)
      · exact .inr (.inr (.inl hnil))
      · exact .inr (.inr (.inr fun heq => hmem (heq ▸ List.mem_cons_self)))
    rw [List.foldlM_cons, hi]
    refine ih h.2 ?_
    rcases hidle with hin | hforofs | hnil | hmem
    · exact .inl hin
    · exact .inr (.inl hforofs)
    · exact .inr (.inr (.inl ((currups_runItem i).trans hnil)))
    · exact .inr (.inr (.inr fun hin => hmem (List.mem_cons_of_mem i hin)))

end Items

/-! ### The lines of the file -/

/-- One turn of the loop of `display_template`. -/
def Step (e : Env) (ulhead : List Ulist) (s s' : Stats) : Prop :=
  ∃ buf tf, fgets s.tf = some (buf, tf) ∧ parseLine e ulhead buf { s with tf := tf } = .ok s'

/-- The commands of a loop. -/
def marks : List CStr := [foreachups, endfor]

section Lines

variable {e : Env} {ulhead : List Ulist} {p : Page} {forofs : Option CStr}

theorem displayTemplate_of_steps {s s' : Stats} (h : ReflTransGen (Step e ulhead) s s') (hend : s'.tf = []) :
    ∃ fuel, displayTemplate e ulhead fuel s = some (.ok s') := by
  induction h using ReflTransGen.head_induction_on with
  | refl => exact ⟨1, by simp only [displayTemplate, fgets, if_pos hend]⟩
  | head hstep _ ih =>
    obtain ⟨buf, tf, hread, hparse⟩ := hstep
    obtain ⟨fuel, hfuel⟩ := ih
    exact ⟨fuel + 1, by simp only [displayTemplate, hread, hparse, hfuel]⟩

/-- Only the commands of a loop look at the file. -/
theorem doItem_file {i : Item} {s : Stats} (h : ∀ m ∈ marks, i ≠ .command m) {tf : CStr}
    (hi : doItem e ulhead ⟨p, tf, forofs⟩ i = .ok s) :
    s.tf = tf ∧ s.forofs = forofs ∧ ∀ tf', doItem e ulhead ⟨p, tf', forofs⟩ i = .ok { s with tf := tf' } := by
  cases i with
  | char c =>
    obtain rfl := Except.ok.inj hi
    exact ⟨rfl, rfl, fun _ => rfl⟩
  | command cmd =>
    have hforeach : cmd ≠ foreachups := fun heq => h foreachups List.mem_cons_self (congrArg Item.command heq)
    have hendfor : cmd ≠ endfor := fun heq =>
      h endfor (List.mem_cons_of_mem _ List.mem_cons_self) (congrArg Item.command heq)
    simp only [doItem, doCommand, if_neg hforeach, if_neg hendfor] at hi ⊢
    cases hskipped : skipped cmd p with
    | some q =>
      rw [hskipped] at hi
      obtain rfl := Except.ok.inj hi
      exact ⟨rfl, rfl, fun _ => rfl⟩
    | none =>
      rw [hskipped] at hi
      dsimp only at hi ⊢
      cases hcond : condition e cmd p with
      | some c =>
        rw [hcond] at hi
        obtain rfl := Except.ok.inj hi
        exact ⟨rfl, rfl, fun _ => rfl⟩
      | none =>
        rw [hcond] at hi
        dsimp only at hi ⊢
        cases hplain : doPlain e cmd p with
        | error halt =>
          rw [hplain] at hi
          cases hi
        | ok q =>
          rw [hplain] at hi
          obtain rfl := Except.ok.inj hi
          exact ⟨rfl, rfl, fun _ => rfl⟩

theorem foldlM_file {is : List Item} {s : Stats} (h : ∀ m ∈ marks, .command m ∉ is) {tf : CStr}
    (his : is.foldlM (doItem e ulhead) ⟨p, tf, forofs⟩ = .ok s) :
    s.tf = tf ∧ s.forofs = forofs ∧
      ∀ tf', is.foldlM (doItem e ulhead) ⟨p, tf', forofs⟩ = .ok { s with tf := tf' } := by
  induction is generalizing p with
  | nil =>
    obtain rfl := Except.ok.inj his
    exact ⟨rfl, rfl, fun _ => rfl⟩
  | cons i is ih =>
    rw [List.foldlM_cons] at his
    cases hi : doItem e ulhead ⟨p, tf, forofs⟩ i with
    | error halt =>
      rw [hi] at his
      cases his
    | ok s1 =>
      rw [hi] at his
      obtain ⟨htf, hforofs, hany⟩ := doItem_file (fun m hm heq => h m hm (heq ▸ List.mem_cons_self)) hi
      obtain ⟨q, tf1, forofs1⟩ := s1
      obtain rfl : tf1 = tf := htf
      obtain rfl : forofs1 = forofs := hforofs
      obtain ⟨htf, hforofs, hrest⟩ := ih (fun m hm hmem => h m hm (List.mem_cons_of_mem i hmem)) his
      refine ⟨htf, hforofs, fun tf' => ?_⟩
      rw [List.foldlM_cons, hany tf']
      exact hrest tf'

/-- A line that is read in several pieces does what it does when it is read at once. -/
theorem steps_line {l rest : CStr} {s : Stats} (hl : l ≠ []) (hline : lineOf (l ++ rest) = l) (hwhole : Whole marks l)
    (h : (items l).foldlM (doItem e ulhead) ⟨p, rest, forofs⟩ = .ok s) :
    ReflTransGen (Step e ulhead) ⟨p, l ++ rest, forofs⟩ s := by
  induction hn : l.length using Nat.strong_induction_on generalizing l p with
  | _ n ih =>
    by_cases hlength : l.length < largebuf
    · exact .single ⟨l, rest, fgets_line hline hl hlength, h⟩
    · have hlarge : largebuf = 1024 := rfl
      -- the first piece of the line that `fgets` gives, and the rest
      obtain ⟨b, c, rfl, hb⟩ : ∃ b c, l = b ++ c ∧ b.length = largebuf - 1 :=
        ⟨l.take (largebuf - 1), l.drop (largebuf - 1), (List.take_append_drop _ _).symm, by
          rw [List.length_take]
          omega⟩
      have hsum : (b ++ c).length = b.length + c.length := List.length_append
      have hc : c ≠ [] := List.length_pos_iff.1 (by omega)
      obtain ⟨hopen, hmarks⟩ := hwhole b c rfl hc (hb ▸ dvd_rfl)
      rw [items_append hopen, List.foldlM_append] at h
      cases hpiece : (items b).foldlM (doItem e ulhead) ⟨p, rest, forofs⟩ with
      | error halt =>
        rw [hpiece] at h
        cases h
      | ok s1 =>
        rw [hpiece] at h
        obtain ⟨htf, hforofs, hany⟩ := foldlM_file hmarks hpiece
        obtain ⟨q, tf1, forofs1⟩ := s1
        obtain rfl : tf1 = rest := htf
        obtain rfl : forofs1 = forofs := hforofs
        have hread : fgets (b ++ c ++ tf1) = some (b, c ++ tf1) := fgets_piece hline hb
        exact .head ⟨b, c ++ tf1, hread, hany (c ++ tf1)⟩
          (ih c.length (by omega) hc (lineOf_of_append hline hc) (hwhole.drop hb hc) h rfl)

/-- The lines between the commands of a loop. -/
theorem steps_lines {r : Reading} {inLoop : Bool} {body ls : List CStr} (hlines : Lines (body ++ ls))
    (hwhole : ∀ l ∈ body, Whole marks l) (h : ItemsSound e inLoop r (body.flatMap items))
    (hend : ∀ l ∈ body, .command endfor ∉ items l) :
    ReflTransGen (Step e ulhead) ⟨r.page, (body ++ ls).flatten, forofs⟩
      ⟨(r.run e (body.flatMap items)).page, ls.flatten, forofs⟩ ∧ Lines ls := by
  induction body generalizing r with
  | nil => exact ⟨.refl, hlines⟩
  | cons l body ih =>
    obtain ⟨hl, hbody⟩ := List.forall_mem_cons.1 hwhole
    obtain ⟨hlend, hbend⟩ := List.forall_mem_cons.1 hend
    rw [List.flatMap_cons, itemsSound_append] at h
    cases hlines with
    | cons hne hline hlines =>
      have hfirst : ReflTransGen (Step e ulhead) ⟨r.page, l ++ (body ++ ls).flatten, forofs⟩
          ⟨(r.run e (items l)).page, (body ++ ls).flatten, forofs⟩ :=
        steps_line hne hline hl (foldlM_items h.1 (.inr (.inr (.inr hlend))))
      obtain ⟨hrest, htail⟩ := ih hlines hbody h.2 hbend
      rw [List.flatMap_cons, Reading.run_append]
      exact ⟨hfirst.trans hrest, htail⟩

end Lines

/-! ### Loops -/

section Loops

variable {e : Env} {ulhead ups : List Ulist} {p : Page} {r : Reading}

theorem upsConnect_ok {u : Ulist} (h : Usable u) : ∃ q, upsConnect e u p = .ok q := by
  obtain ⟨parts, hparts⟩ := h
  have hnew : ∃ q, reconnect e u p = .ok q := by
    rw [reconnect, hparts]
    exact ⟨_, rfl⟩
  unfold upsConnect
  split
  · exact hnew
  · split_ifs
    · exact ⟨_, rfl⟩
    · rw [hparts]
      dsimp only
      split_ifs
      · exact ⟨_, rfl⟩
      · exact hnew

theorem endfor_ne_foreachups : endfor ≠ foreachups := by decide

theorem setCurrups_ok (h : ∀ u ∈ ups.head?, Usable u) :
    setCurrups e ups p = .ok (moveTo e ups p) ∧ (moveTo e ups p).currups = ups := by
  have hset : ∃ q, setCurrups e ups p = .ok q ∧ q.currups = ups := by
    cases ups with
    | nil => exact ⟨_, rfl, rfl⟩
    | cons u ups =>
      obtain ⟨q, hq⟩ := upsConnect_ok (e := e) (p := { p with currups := u :: ups }) (h u rfl)
      exact ⟨q, hq, (upsConnect_flags hq).1⟩
  obtain ⟨q, hq, hcurrups⟩ := hset
  simp only [moveTo, hq]
  exact ⟨trivial, hcurrups⟩

/-- A command that is shown and ends no part is not skipped. -/
theorem skipped_shown {cmd : CStr} (hshown : r.part.shown = true) (hendif : cmd ≠ endif) (hels : cmd ≠ els) :
    skipped cmd r.page = none := by rw [r.agrees.skipped hendif hels, if_pos hshown]

/-- The items of a line where a loop begins. -/
theorem foldlM_foreachups {pre post : List Item} {tf : CStr} {forofs : Option CStr} (hups : ulhead ≠ [])
    (hpre : ItemsSound e false r pre)
    (hidle : false = true ∨ forofs = none ∨ r.page.currups = [] ∨ .command endfor ∉ pre)
    (hshown : (r.run e pre).part.shown = true) (husable : ∀ u ∈ ulhead.head?, Usable u)
    (hpost : ItemsSound e true ((r.run e pre).move e ulhead) post) :
    (pre ++ .command foreachups :: post).foldlM (doItem e ulhead) ⟨r.page, tf, forofs⟩ =
      .ok ⟨(((r.run e pre).move e ulhead).run e post).page, tf, some tf⟩ := by
  have hmark : doItem e ulhead ⟨(r.run e pre).page, tf, forofs⟩ (.command foreachups) =
      .ok ⟨((r.run e pre).move e ulhead).page, tf, some tf⟩ := by
    simp only [doItem, doCommand, skipped_shown hshown (show foreachups ≠ endif by decide) (by decide), if_true,
      doForeachups, if_neg hups, (setCurrups_ok husable).1, Except.map]
    rfl
  have hall : post.foldlM (doItem e ulhead) ⟨((r.run e pre).move e ulhead).page, tf, some tf⟩ =
      .ok ⟨(((r.run e pre).move e ulhead).run e post).page, tf, some tf⟩ := foldlM_items hpost (.inl rfl)
  calc (pre ++ .command foreachups :: post).foldlM (doItem e ulhead) ⟨r.page, tf, forofs⟩
      = (Item.command foreachups :: post).foldlM (doItem e ulhead) ⟨(r.run e pre).page, tf, forofs⟩ := by
        rw [List.foldlM_append, foldlM_items hpre hidle]
        rfl
    _ = post.foldlM (doItem e ulhead) ⟨((r.run e pre).move e ulhead).page, tf, some tf⟩ := by
        rw [List.foldlM_cons, hmark]
        rfl
    _ = _ := hall

/-- The items of the line where a turn of a loop ends, up to those behind its `ENDFOR`. -/
theorem foldlM_endfor {u : Ulist} {pre post : List Item} {tf pos : CStr} (hpre : ItemsSound e true r pre)
    (hshown : (r.run e pre).part.shown = true) (hcurrups : r.page.currups = u :: ups)
    (husable : ∀ v ∈ ups.head?, Usable v) :
    (pre ++ .command endfor :: post).foldlM (doItem e ulhead) ⟨r.page, tf, some pos⟩ =
      post.foldlM (doItem e ulhead)
        ⟨((r.run e pre).move e ups).page, if ups = [] then tf else pos, some pos⟩ := by
  have hcur : (r.run e pre).page.currups = u :: ups := (currups_run pre).trans hcurrups
  have hmark : doItem e ulhead ⟨(r.run e pre).page, tf, some pos⟩ (.command endfor) =
      .ok ⟨((r.run e pre).move e ups).page, if ups = [] then tf else pos, some pos⟩ := by
    simp only [doItem, doCommand, skipped_shown hshown (show endfor ≠ endif by decide) (by decide),
      if_neg endfor_ne_foreachups, if_true, doEndfor, hcur, (setCurrups_ok husable).1, Except.map]
    rfl
  rw [List.foldlM_append, foldlM_items hpre (.inl rfl)]
  show (Item.command endfor :: post).foldlM (doItem e ulhead) ⟨(r.run e pre).page, tf, some pos⟩ = _
  rw [List.foldlM_cons, hmark]
  rfl

/-- All turns of a loop, up to the items behind the last `ENDFOR`. -/
theorem steps_each {body ls : List CStr} {last : CStr} {preEnd postEnd : List Item} {u : Ulist} {s : Stats}
    (hlines : Lines (body ++ last :: ls)) (hwhole : ∀ l ∈ body, Whole marks l) (hlast : Whole marks last)
    (hend : ∀ l ∈ body, .command endfor ∉ items l) (hitems : items last = preEnd ++ .command endfor :: postEnd)
    (husable : ∀ v ∈ u :: ups, Usable v) (hcurrups : r.page.currups = u :: ups)
    (h : EachSound e (body.flatMap items ++ preEnd) postEnd u ups r)
    (hs : postEnd.foldlM (doItem e ulhead) ⟨(eachUps e (body.flatMap items ++ preEnd) postEnd u ups r).page, ls.flatten,
      some (body ++ last :: ls).flatten⟩ = .ok s) :
    ReflTransGen (Step e ulhead) ⟨r.page, (body ++ last :: ls).flatten, some (body ++ last :: ls).flatten⟩ s := by
  have hself : ∀ {us : List Ulist} {r : Reading}, r.page.currups = us → r.withUps us = r := by
    rintro _ r rfl
    rfl
  -- the lines of a turn, up to the one with the `ENDFOR`
  have hturn : ∀ {u : Ulist} {ups : List Ulist} {r : Reading} {s : Stats}, r.page.currups = u :: ups →
      (∀ v ∈ ups.head?, Usable v) → ItemsSound e true r (body.flatMap items ++ preEnd) →
      (r.run e (body.flatMap items ++ preEnd)).part.shown = true →
      postEnd.foldlM (doItem e ulhead) ⟨((r.run e (body.flatMap items ++ preEnd)).move e ups).page,
        if ups = [] then ls.flatten else (body ++ last :: ls).flatten, some (body ++ last :: ls).flatten⟩ = .ok s →
      ReflTransGen (Step e ulhead) ⟨r.page, (body ++ last :: ls).flatten, some (body ++ last :: ls).flatten⟩ s := by
    intro u ups r s hcurrups husable hsound hshown hs
    rw [itemsSound_append] at hsound
    rw [Reading.run_append] at hshown hs
    obtain ⟨hread, htail⟩ := @steps_lines e ulhead (some (body ++ last :: ls).flatten) r true body (last :: ls)
      hlines hwhole hsound.1 hend
    cases htail with
    | cons hne hline _ =>
      refine hread.trans (steps_line hne hline hlast ?_)
      rw [hitems, foldlM_endfor hsound.2 hshown ((currups_run _).trans hcurrups) husable]
      exact hs
  induction ups generalizing u r with
  | nil =>
    obtain ⟨hbody, hshown⟩ := h
    rw [eachUps] at hs
    rw [hself hcurrups] at hbody hshown hs
    refine hturn hcurrups (fun v hv => ?_) hbody hshown ?_
    · cases hv
    · rw [if_pos rfl]
      exact hs
  | cons v ups ih =>
    obtain ⟨hbody, hshown, hpost, heach⟩ := h
    rw [eachUps] at hs
    rw [hself hcurrups] at hbody hshown hpost heach hs
    obtain ⟨-, hups⟩ := List.forall_mem_cons.1 husable
    have hhead : ∀ w ∈ (v :: ups).head?, Usable w := fun w hw => hups w (List.mem_of_mem_head? hw)
    have hmoved : ((r.run e (body.flatMap items ++ preEnd)).move e (v :: ups)).page.currups = v :: ups :=
      (setCurrups_ok hhead).2
    have hrest := ih hups ((currups_run postEnd).trans hmoved) heach hs
    refine (hturn hcurrups hhead hbody hshown ?_).trans hrest
    rw [if_neg (List.cons_ne_nil v ups), foldlM_items hpost (.inl rfl)]

/-- Behind the last turn there is no current UPS. -/
theorem currups_eachUps (body post : List Item) (u : Ulist) (r : Reading) :
    (eachUps e body post u ups r).page.currups = [] := by
  induction ups generalizing u r with
  | nil =>
    refine (setCurrups_ok fun v hv => ?_).2
    cases hv
  | cons v ups ih => exact ih v _

/-- No `ENDFOR` that is not skipped goes back. -/
def Idle (forofs : Option CStr) (r : Reading) (is : List Item) (ls : List CStr) : Prop :=
  forofs = none ∨ r.page.currups = [] ∨ .command endfor ∉ is ∧ ∀ l ∈ ls, .command endfor ∉ items l

/-- The items and the lines behind them are read to the end of the file, and the page is what they say. -/
theorem Sound.reads {is : List Item} {ls : List CStr} (h : Sound e ulhead r is ls) (hups : ulhead ≠ [])
    {forofs : Option CStr} (hlines : Lines ls) (hwhole : ∀ l ∈ ls, Whole marks l) (hidle : Idle forofs r is ls) :
    ∃ s s' q, is.foldlM (doItem e ulhead) ⟨r.page, ls.flatten, forofs⟩ = .ok s ∧
      ReflTransGen (Step e ulhead) s s' ∧ s'.tf = [] ∧ s'.page = q.page ∧ Renders e ulhead r is ls q := by
  induction h generalizing forofs with
  | @nil r => exact ⟨_, _, r, rfl, .refl, rfl, rfl, .nil⟩
  | @line r l ls _ ih =>
    obtain ⟨hl, hls⟩ := List.forall_mem_cons.1 hwhole
    cases hlines with
    | cons hne hline hlines =>
      have hidle' : Idle forofs r (items l) ls := hidle.imp_right (Or.imp_right fun hno => List.forall_mem_cons.1 hno.2)
      obtain ⟨s, s', q, hitems, hsteps, hend, hpage, hrenders⟩ := ih hlines hls hidle'
      exact ⟨_, s', q, rfl, (steps_line hne hline hl hitems).trans hsteps, hend, hpage, .line hrenders⟩
  | @rest r is ls hitems _ ih =>
    have hidle' : Idle forofs (r.run e is) [] ls := by
      unfold Idle
      rw [currups_run]
      exact hidle.imp_right (Or.imp_right fun hno => ⟨List.not_mem_nil, hno.2⟩)
    obtain ⟨s, s', q, hnil, hsteps, hend, hpage, hrenders⟩ := ih hlines hwhole hidle'
    obtain rfl := Except.ok.inj hnil
    exact ⟨_, s', q, foldlM_items hitems (.inr (hidle.imp_right (Or.imp_right And.left))), hsteps, hend, hpage,
      .rest hitems.unlooped hrenders⟩
  | @loop r u next pre post preEnd postEnd last body ls hcons hpre hshown husable hpost hbody hlast hno heach _ ih =>
    obtain ⟨hwlast, hwls⟩ := List.forall_mem_cons.1 fun l hl => hwhole l (List.mem_append_right body hl)
    obtain ⟨s, s', q, hitems, hsteps, hend, hpage, hrenders⟩ := ih (Lines.tail_append hlines) hwls
      (.inr (.inl (currups_eachUps _ _ _ _)))
    have hhead : ∀ v ∈ ulhead.head?, Usable v := fun v hv => husable v (List.mem_of_mem_head? hv)
    have hcurrups : (((r.run e pre).move e ulhead).run e post).page.currups = u :: next :=
      (currups_run post).trans ((setCurrups_ok hhead).2.trans hcons)
    -- the line with `FOREACHUPS`, and behind it a turn for each UPS
    have hbegin := @foldlM_foreachups e ulhead r pre post (body ++ last :: ls).flatten forofs hups hpre
      (.inr (hidle.imp_right (Or.imp_right fun hnone hmem => hnone.1 (List.mem_append_left _ hmem)))) hshown hhead hpost
    exact ⟨_, s', q, hbegin, (steps_each hlines (fun l hl => hwhole l (List.mem_append_left _ hl)) hwlast hbody hlast
      (hcons ▸ husable) hcurrups heach hitems).trans hsteps, hend, hpage,
      .loop hcons hpre.unlooped hshown hbody hlast hno hrenders⟩
  | @unclosed r pre post ls hpre hshown husable hpost hno _ ih =>
    obtain ⟨s, s', q, hnil, hsteps, hend, hpage, hrenders⟩ := ih hlines hwhole (.inr (.inr ⟨List.not_mem_nil, hno⟩))
    obtain rfl := Except.ok.inj hnil
    have hbegin := @foldlM_foreachups e ulhead r pre post ls.flatten forofs hups hpre
      (.inr (hidle.imp_right (Or.imp_right fun hnone hmem => hnone.1 (List.mem_append_left _ hmem)))) hshown husable hpost
    exact ⟨_, s', q, hbegin, hsteps, hend, hpage, .unclosed hpre.unlooped hshown hno hrenders⟩

end Loops

/-! ### Conditionals -/

/-- The commands that begin a conditional. -/
def Begins (cmd : CStr) : Prop :=
  ∃ name ∈ ["IFSUPP ".toList, "IFEQ ".toList, "IFBETWEEN ".toList], name.isPrefixOf cmd = true

/-- The commands of a conditional. -/
def Conditional (cmd : CStr) : Prop := cmd = endif ∨ cmd = els ∨ Begins cmd

/-- There is no conditional among the items. -/
def Free (is : List Item) : Prop := ∀ cmd, .command cmd ∈ is → ¬ Conditional cmd

section Conditionals

variable {e : Env} {ulhead : List Ulist} {p : Page} {r : Reading} {cmd : CStr} {is : List Item}

theorem Free.head {i : Item} (h : Free (i :: is)) : ∀ cmd, i = .command cmd → ¬ Conditional cmd :=
  fun cmd hcmd => h cmd (hcmd ▸ List.mem_cons_self)

theorem Free.tail {i : Item} (h : Free (i :: is)) : Free is := fun cmd hcmd => h cmd (List.mem_cons_of_mem i hcmd)

theorem argOf_eq_none {name : CStr} (h : ¬ name.isPrefixOf cmd = true) : argOf name cmd = none := if_neg h

theorem condition_eq_none (h : ¬ Begins cmd) : condition e cmd p = none := by
  have hno : ∀ name ∈ ["IFSUPP ".toList, "IFEQ ".toList, "IFBETWEEN ".toList], argOf name cmd = none :=
    fun name hname => argOf_eq_none fun hcmd => h ⟨name, hname, hcmd⟩
  simp only [List.forall_mem_cons] at hno
  rw [condition, hno.1, hno.2.1, hno.2.2.1]
  rfl

/-- A conditional begins with a command of its own. -/
theorem ne_of_condition {c : Bool × Page} (h : condition e cmd p = some c) :
    cmd ≠ endif ∧ cmd ≠ els ∧ cmd ≠ foreachups ∧ cmd ≠ endfor := by
  have hnone : ∀ c ∈ [endif, els, foreachups, endfor], condition e c p = none := by
    simp only [List.forall_mem_cons]
    exact ⟨rfl, rfl, rfl, rfl, fun _ hc => absurd hc List.not_mem_nil⟩
  have hne : ∀ c ∈ [endif, els, foreachups, endfor], cmd ≠ c := by
    rintro c hc rfl
    rw [hnone cmd hc] at h
    cases h
  simp only [List.forall_mem_cons] at hne
  exact ⟨hne.1, hne.2.1, hne.2.2.1, hne.2.2.2.1⟩

/-- Other items stay in the part. -/
theorem part_next {i : Item} (h : ∀ cmd, i = .command cmd → ¬ Conditional cmd) : (r.next e i).part = r.part := by
  cases i with
  | char c => rfl
  | command cmd =>
    have hcmd : ¬ Conditional cmd := h cmd rfl
    show r.part.next e r.page (.command cmd) = r.part
    rw [Part.next, if_neg fun hend => hcmd (.inl hend), if_neg fun hels => hcmd (.inr (.inl hels)),
      condition_eq_none fun hbegins => hcmd (.inr (.inr hbegins)), ite_self]

theorem part_run (h : Free is) : (r.run e is).part = r.part := by
  induction is generalizing r with
  | nil => rfl
  | cons i is ih => exact (ih h.tail).trans (part_next h.head)

/-- Up to the next conditional the reading stays outside of them. -/
theorem part_outside {inLoop : Bool} (h : ItemsSound e inLoop r is) (hr : r.part = .outside)
    (hbegins : ∀ cmd, .command cmd ∈ is → ¬ Begins cmd) : (r.run e is).part = .outside := by
  induction is generalizing r with
  | nil => exact hr
  | cons i is ih =>
    refine ih h.2 ?_ fun cmd hcmd => hbegins cmd (List.mem_cons_of_mem i hcmd)
    cases i with
    | char c => exact hr
    | command cmd =>
      show r.part.next e r.page (.command cmd) = .outside
      rw [Part.next]
      by_cases hendif : cmd = endif
      · rw [if_pos hendif]
      · have hels : cmd ≠ els := fun hels => h.1.1 hels hr
        rw [if_neg hendif, if_neg hels, condition_eq_none (hbegins cmd List.mem_cons_self), ite_self]
        exact hr

/-- Nothing happens in a part that is not shown. -/
theorem next_hidden {i : Item} (hhidden : r.part.shown = false) (h : ∀ cmd, i = .command cmd → ¬ Conditional cmd) :
    r.next e i = r := by
  refine Reading.ext ?_ (part_next h)
  show runItem e r.page i = r.page
  have hskip : r.page.skipClause = true ∨ r.page.skipBlock = true := by
    by_contra hnone
    rw [not_or, Bool.not_eq_true, Bool.not_eq_true, r.agrees.1, r.agrees.2] at hnone
    rw [r.part.shown_iff.2 hnone] at hhidden
    cases hhidden
  cases i with
  | char c =>
    rw [runItem, passThrough]
    rcases hskip with hclause | hblock
    · rw [hclause, Bool.true_or, if_pos rfl]
    · rw [hblock, Bool.or_true, if_pos rfl]
  | command cmd =>
    have hcmd : ¬ Conditional cmd := h cmd rfl
    rw [runItem, r.agrees.skipped (fun hend => hcmd (.inl hend)) fun hels => hcmd (.inr (.inl hels)), hhidden]
    rfl

theorem run_hidden (hhidden : r.part.shown = false) (h : Free is) : r.run e is = r ∧ Unlooped e r is := by
  induction is with
  | nil => exact ⟨rfl, trivial⟩
  | cons i is ih =>
    have hi : r.next e i = r := next_hidden hhidden h.head
    obtain ⟨hrun, hunlooped⟩ := ih h.tail
    rw [Reading.run_cons, hi]
    refine ⟨hrun, fun _ => hhidden, ?_⟩
    rw [hi]
    exact hunlooped

/-- The flags of a page for a part. -/
def Reading.inPart (part : Part) (r : Reading) : Reading :=
  ⟨{ r.page with skipClause := part.clause, skipBlock := part.block }, part, rfl, rfl⟩

/-- The flags are what they are set to. -/
theorem flags_self {clause block : Bool} (hclause : p.skipClause = clause) (hblock : p.skipBlock = block) :
    { p with skipClause := clause, skipBlock := block } = p := by
  subst hclause hblock
  rfl

theorem inPart_self {part : Part} (h : r.part = part) : r.inPart part = r := by
  subst h
  exact Reading.ext (flags_self r.agrees.1 r.agrees.2) rfl

theorem inPart_inPart (part part' : Part) : (r.inPart part).inPart part' = r.inPart part' := rfl

theorem next_els : r.next e (.command els) = r.inPart r.part.other := by
  refine Reading.ext ?_ rfl
  obtain ⟨q, hq, hagrees⟩ := r.agrees.els
  have hpage : runItem e r.page (.command els) = q := by rw [runItem, hq]
  have hflags : q = { r.page with skipClause := q.skipClause, skipBlock := q.skipBlock } := by
    unfold skipped at hq
    split_ifs at hq
    all_goals
      obtain rfl := Option.some.inj hq
      rfl
  show runItem e r.page (.command els) = { r.page with skipClause := r.part.other.clause, skipBlock := r.part.other.block }
  rw [hpage, ← hagrees.1, ← hagrees.2]
  exact hflags

/-- The condition decides whether the first part is shown. -/
theorem next_condition {r' : Reading} {shown : Bool} (hr : r.part = .outside) (hr' : r'.part = .outside)
    (hcond : condition e cmd r.page = some (shown, r'.page)) : r.next e (.command cmd) = r'.inPart (.first shown) := by
  obtain ⟨hendif, hels, hforeach, hendfor⟩ := ne_of_condition hcond
  have hshown : r.part.shown = true := by rw [hr]; rfl
  have hclear : r'.page.skipClause = false ∧ r'.page.skipBlock = false := by
    have hagrees := r'.agrees
    rw [hr'] at hagrees
    exact hagrees
  have hpage : runItem e r.page (.command cmd) = if shown then r'.page else { r'.page with skipClause := true } := by
    simp only [runItem, r.agrees.skipped hendif hels, if_pos hshown, if_neg (not_or.2 ⟨hforeach, hendfor⟩), hcond]
  refine Reading.ext ?_ ?_
  · show runItem e r.page (.command cmd) =
      { r'.page with skipClause := (Part.first shown).clause, skipBlock := (Part.first shown).block }
    rw [hpage]
    cases shown with
    | true => exact (flags_self hclear.1 hclear.2).symm
    | false => exact (@flags_self { r'.page with skipClause := true } true false rfl hclear.2).symm
  · show r.part.next e r.page (.command cmd) = .first shown
    rw [Part.next, if_neg hendif, if_neg hels, if_pos hshown, hcond]

theorem page_run {r' : Reading} (h : r.page = r'.page) : (r.run e is).page = (r'.run e is).page := by
  induction is generalizing r r' with
  | nil => exact h
  | cons i is ih => exact ih (congrArg (runItem e · i) h)

/-- What is shown does not depend on the part. -/
theorem run_inPart {part : Part} (hr : r.part.shown = true) (hpart : part.shown = true) (h : Free is) :
    (r.inPart part).run e is = (r.run e is).inPart part := by
  have hclear : ∀ {r : Reading}, r.part.shown = true → (r.inPart part).page = r.page := by
    intro r hr
    obtain ⟨hclause, hblock⟩ := r.part.shown_iff.1 hr
    obtain ⟨hclause', hblock'⟩ := part.shown_iff.1 hpart
    exact flags_self ((r.agrees.1.trans hclause).trans hclause'.symm) ((r.agrees.2.trans hblock).trans hblock'.symm)
  refine Reading.ext ?_ (part_run h)
  rw [hclear (by rw [part_run h]; exact hr)]
  exact page_run (hclear hr)

/-- What is printed of a conditional is the part that its condition selects. -/
theorem run_conditional {r' : Reading} {shown : Bool} {thn alt : List Item} (hr : r.part = .outside)
    (hr' : r'.part = .outside) (hcond : condition e cmd r.page = some (shown, r'.page)) (hthn : Free thn) (halt : Free alt) :
    r.run e (.command cmd :: (thn ++ [.command endif])) = (if shown then r'.run e thn else r') ∧
      r.run e (.command cmd :: (thn ++ .command els :: (alt ++ [.command endif]))) =
        r'.run e (if shown then thn else alt) := by
  have hout : ∀ {is : List Item}, Free is → (r'.run e is).part = .outside := fun his => (part_run his).trans hr'
  have hshown : r'.part.shown = true := by rw [hr']; rfl
  rw [Reading.run_cons, Reading.run_cons, next_condition hr hr' hcond, Reading.run_append, Reading.run_append]
  cases shown with
  | true =>
    rw [run_inPart hshown rfl hthn]
    constructor
    · exact inPart_self (hout hthn)
    · rw [Reading.run_cons, next_els, Reading.run_append, (run_hidden rfl halt).1]
      exact inPart_self (hout hthn)
  | false =>
    rw [(run_hidden rfl hthn).1]
    constructor
    · exact inPart_self hr'
    · rw [Reading.run_cons, next_els, inPart_inPart, Reading.run_append, run_inPart hshown rfl halt]
      exact inPart_self (hout halt)

/-- A line is read item by item. -/
theorem renders_line {q : Reading} {l : CStr} {ls : List CStr} :
    Renders e ulhead r [] (l :: ls) q ↔ Renders e ulhead r (items l) ls q := by
  constructor
  · intro hrenders
    generalize hlines : l :: ls = lines at hrenders
    generalize hnone : ([] : List Item) = is at hrenders
    induction hrenders with
    | nil => cases hlines
    | line hrenders =>
      obtain ⟨rfl, rfl⟩ := List.cons.inj hlines
      exact hrenders
    | rest _ _ ih =>
      subst hnone
      exact ih hlines rfl
    | loop => exact absurd hnone (by simp)
    | unclosed => exact absurd hnone (by simp)
  · exact .line

/-- Items that are not shown, with the beginnings of loops. -/
theorem renders_items {q : Reading} {lines : List CStr} (hhidden : r.part.shown = false) (h : Free is) :
    Renders e ulhead r is lines q ↔ Renders e ulhead r [] lines q := by
  constructor
  · intro hrenders
    cases hrenders with
    | nil => exact .nil
    | line hrenders => exact .line hrenders
    | rest _ hrenders =>
      rw [(run_hidden hhidden h).1] at hrenders
      exact hrenders
    | loop _ _ hshown =>
      rw [(run_hidden hhidden fun cmd hcmd => h cmd (List.mem_append_left _ hcmd)).1, hhidden] at hshown
      cases hshown
    | unclosed _ hshown =>
      rw [(run_hidden hhidden fun cmd hcmd => h cmd (List.mem_append_left _ hcmd)).1, hhidden] at hshown
      cases hshown
  · intro hrenders
    refine .rest (run_hidden hhidden h).2 ?_
    rw [(run_hidden hhidden h).1]
    exact hrenders

/-- Lines that are not shown, with their loops. -/
theorem renders_hidden {q : Reading} {ls rest : List CStr} (hhidden : r.part.shown = false)
    (h : ∀ l ∈ ls, Free (items l)) : Renders e ulhead r [] (ls ++ rest) q ↔ Renders e ulhead r [] rest q := by
  induction ls with
  | nil => exact Iff.rfl
  | cons l ls ih =>
    obtain ⟨hl, hls⟩ := List.forall_mem_cons.1 h
    rw [List.cons_append, renders_line, renders_items hhidden hl]
    exact ih hls

end Conditionals

/-! ### The template -/

/-- A template that meets the conditions is rendered to its end; between its conditionals the reading is outside of them, and
of each one the selected part is read. -/
theorem template_renders {e : Env} {ulhead : List Ulist} {r : Reading} {template : CStr} (hups : ulhead ≠ [])
    (hwhole : ∀ l ∈ linesOf template, Whole marks l) (hsound : Sound e ulhead r [] (linesOf template)) :
    (∃ fuel s q, displayTemplate e ulhead fuel ⟨r.page, template, none⟩ = some (.ok s) ∧ s.page = q.page ∧
        Renders e ulhead r [] (linesOf template) q) ∧
      (∀ inLoop (r : Reading) is, ItemsSound e inLoop r is → r.part = .outside →
        (∀ cmd, .command cmd ∈ is → ¬ Begins cmd) → (r.run e is).part = .outside) ∧
      (∀ (r r' : Reading) cmd thn alt shown, r.part = .outside → r'.part = .outside →
        condition e cmd r.page = some (shown, r'.page) → Free thn → Free alt →
        r.run e (.command cmd :: (thn ++ [.command endif])) = (if shown then r'.run e thn else r') ∧
          r.run e (.command cmd :: (thn ++ .command els :: (alt ++ [.command endif]))) =
            r'.run e (if shown then thn else alt)) ∧
      ∀ (r q : Reading) ls rest, r.part.shown = false → (∀ l ∈ ls, Free (items l)) →
        (Renders e ulhead r [] (ls ++ rest) q ↔ Renders e ulhead r [] rest q) := by
  refine ⟨?_, ?_, ?_, ?_⟩
  · obtain ⟨s, s', q, hnil, hsteps, hend, hpage, hrenders⟩ :=
      hsound.reads hups (lines_linesOf template) hwhole (.inl rfl)
    obtain rfl := Except.ok.inj hnil
    rw [flatten_linesOf] at hsteps
    obtain ⟨fuel, hfuel⟩ := displayTemplate_of_steps hsteps hend
    exact ⟨fuel, s', q, hfuel, hpage, hrenders⟩
  · intro inLoop r is hsound hr hbegins
    exact part_outside hsound hr hbegins
  · intro r r' cmd thn alt shown hr hr' hcond hthn halt
    exact run_conditional hr hr' hcond hthn halt
  · intro r q ls rest hhidden hfree
    exact renders_hidden hhidden hfree

/-- Every server answers, and no UPS has any variable. -/
def answering : Env where
  connect _ _ _ := ⟨true, false, []⟩
  get _ _ _ := (⟨true, true, []⟩, none)
  strftime _ _ := []
  fahrenheit tempc := tempc
  refreshdelay := -1
  upsVersion := []

/-- What `main` begins with. -/
def start (ulhead : List Ulist) : Reading where
  page :=
    { out := []
      currups := ulhead
      skipClause := false
      skipBlock := false
      useCelsius := true
      upsstatpath := "upsstats.cgi".toList
      upsimgpath := "upsimage.cgi".toList
      lastups := none
      upsname := none
      hostname := []
      port := 0
      ups := ⟨false, false, "Invalid argument".toList⟩
      calls := 0 }
  part := .outside
  agrees := ⟨rfl, rfl⟩

def twoUpses : List Ulist := [⟨"a@h".toList, "A".toList⟩, ⟨"b@h".toList, "B".toList⟩]

def hostLoop : CStr := "@FOREACHUPS@\n@HOST@\n@IFSUPP ups.load@yes@ELSE@no@ENDIF@\n@ENDFOR@\n".toList

theorem template_renders_hosts :
    ∃ fuel s q, displayTemplate answering twoUpses fuel ⟨(start twoUpses).page, hostLoop, none⟩ = some (.ok s) ∧
      s.page = q.page ∧ Renders answering twoUpses (start twoUpses) [] (linesOf hostLoop) q := by
  refine (template_renders (by decide) ?_ ?_).1
  · intro l hl
    refine whole_of_length ?_
    revert l
    decide
  · have hlines : linesOf hostLoop = "@FOREACHUPS@\n".toList :: (["@HOST@\n".toList,
        "@IFSUPP ups.load@yes@ELSE@no@ENDIF@\n".toList] ++ "@ENDFOR@\n".toList :: []) := by decide
    have hfirst : items "@FOREACHUPS@\n".toList = [] ++ .command foreachups :: [.char '\n'] := by decide
    rw [hlines]
    refine .line ?_
    rw [hfirst]
    refine @Sound.loop _ _ _ _ _ [] [.char '\n'] [] [.char '\n'] _ _ _ rfl trivial rfl ?_ (by decide) (by decide)
      (by decide) (by decide) ?_ (.rest ?_ .nil)
    · simp only [twoUpses, List.forall_mem_cons]
      exact ⟨⟨_, rfl⟩, ⟨_, rfl⟩, fun _ h => absurd h List.not_mem_nil⟩
    · exact ⟨by decide +kernel, by decide +kernel, by decide +kernel, by decide +kernel, by decide +kernel⟩
    · decide +kernel

/-- Behind a loop there is no current UPS, and `HOST` does not look. -/
theorem host_behind_loop :
    (∀ fuel, displayTemplate answering twoUpses (fuel + 4)
        ⟨(start twoUpses).page, "@FOREACHUPS@\n@ENDFOR@\n@HOST@\n".toList, none⟩ = some (.error .nullCurrups)) ∧
      ¬ ∃ fuel s, displayTemplate answering twoUpses fuel
        ⟨(start twoUpses).page, "@FOREACHUPS@\n@ENDFOR@\n@HOST@\n".toList, none⟩ = some (.ok s) := by
  have hhalt : ∀ fuel, displayTemplate answering twoUpses (fuel + 4)
      ⟨(start twoUpses).page, "@FOREACHUPS@\n@ENDFOR@\n@HOST@\n".toList, none⟩ = some (.error .nullCurrups) := fun _ => rfl
  refine ⟨hhalt, ?_⟩
  rintro ⟨_ | _ | _ | _ | fuel, s, hs⟩
  · cases (show (none : Option (Except Halt Stats)) = some (.ok s) from hs)
  · cases (show (none : Option (Except Halt Stats)) = some (.ok s) from hs)
  · cases (show (none : Option (Except Halt Stats)) = some (.ok s) from hs)
  · cases (show (none : Option (Except Halt Stats)) = some (.ok s) from hs)
  · cases (hhalt fuel).symm.trans hs

end Nut.Upsstats
