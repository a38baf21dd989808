import Nut.Common.Buffers
import Nut.Common.Tokens
import Nut.Clients.Cgilib

/-!
# `cgilib.c`: the arguments of a query and of a form

`extractcgiargs` looks for the equals sign before it looks for the ampersand, so an argument without a value runs into the
next one that has one.  `extractpostargs` collects up to the ampersand and does not decode the name.

A run is the list of the calls of `parsearg` and how it ended.  Only at the end of the query is there nothing known behind
the string that is decoded.
-/

namespace Nut

namespace Cgilib

inductive Ending
  | returned
  /-- `fatalx` for a bad escape. -/
  | fatal
  /-- The memory behind a string is read. -/
  | overread
  deriving DecidableEq

abbrev Run := List (CStr × CStr) × Ending

/-- The string split by `strchr`, where the character becomes the terminator. -/
def cut (s : CStr) (c : Char) : Option (CStr × CStr) :=
  if c ∈ s then some (s.takeWhile (· ≠ c), (s.dropWhile (· ≠ c)).tail) else none

/-- The call of `parsearg` with two decoded strings, and what comes after it. -/
def parsearg (varname value : Option (Option CStr)) (rest : Run) : Run :=
  match varname, value with
  | some (some varname), some (some value) => ((varname, value) :: rest.1, rest.2)
  | some (some _), some none => ([], .fatal)
  | some (some _), none => ([], .overread)
  | some none, _ => ([], .fatal)
  | none, _ => ([], .overread)

/-- The loop of `extractcgiargs`. -/
def cgiLoop : Nat → CStr → Run
  | 0, _ => ([], .returned)
  | fuel + 1, ptr =>
    match cut ptr '=' with
    | none =>
      match cut ptr '&' with
      | none => parsearg (unescape ptr) (some (some [])) ([], .returned)
      | some (varname, ptr) => parsearg (unescapeWithin (ptr.headD '\x00') varname) (some (some [])) (cgiLoop fuel ptr)
    | some (varname, value) =>
      match cut value '&' with
      | none => parsearg (unescapeWithin (value.headD '\x00') varname) (unescape value) ([], .returned)
      | some (value, ptr) =>
        parsearg (unescapeWithin (value.headD '\x00') varname) (unescapeWithin (ptr.headD '\x00') value) (cgiLoop fuel ptr)

def extractcgiargs (query : Option CStr) : Run :=
  match query with
  | none => ([], .returned)
  | some query => if query.length = 0 then ([], .returned) else cgiLoop (query.length + 1) query

/-- What `extractpostargs` does with an argument in its buffer, where `behind` is the byte behind it; the text never comes to
the last two bytes of the buffer. -/
def postarg (behind : Char) (buf : CStr) (rest : Run) : Run :=
  match cut buf '=' with
  | none => ((buf, []) :: rest.1, rest.2)
  | some (varname, ptr) => parsearg (some (some varname)) (unescapeWithin behind ptr) rest

def smallbuf : Nat := 512

/-- The loop of `extractpostargs`, on the characters that are left of the input. -/
def postLoop (behind : Char) : CStr → CStr → Run
  | [], buf => if buf.length ≠ 0 then postarg behind buf ([], .returned) else ([], .returned)
  | ch :: stdin, buf =>
    if ch = '&' then postarg behind buf (postLoop behind stdin [])
    else postLoop behind stdin (snprintfcat buf smallbuf (formatC ch))

/-- `extractpostargs`, with the byte that its buffer holds behind the texts. -/
def extractpostargs (behind : Char) (stdin : CStr) : Run := postLoop behind stdin []

/-! ### The law -/

def argName (p : CStr) : CStr := p.takeWhile (· ≠ '=')

/-- What is behind the first equals sign. -/
def argValue (p : CStr) : CStr := (p.dropWhile (· ≠ '=')).tail

/-- Each piece is cut at its first equals sign and its two parts are decoded. -/
def pieceArgs : List CStr → Run
  | [] => ([], .returned)
  | p :: ps => parsearg (some (decoded (argName p))) (some (decoded (argValue p))) (pieceArgs ps)

/-- The buffer holds every piece. -/
def Fits (s : CStr) : Prop := ∀ p ∈ s.splitOn '&', p.length < smallbuf

/-- A query is split at the ampersands, and a form that fits is read as the query is. -/
def Uniform (s : CStr) : Prop :=
  extractcgiargs (some s) = pieceArgs (s.splitOn '&') ∧
    (Fits s → ∀ behind, extractpostargs behind s = extractcgiargs (some s))

/-- A piece whose name and value are decoded. -/
def Reported (p : CStr) : Prop :=
  ∃ varname value, decoded (argName p) = some varname ∧ decoded (argValue p) = some value

/-- No piece with an equals sign comes after one without, up to the first piece that ends the run. -/
def Separated (ps : List CStr) : Prop :=
  ∀ pre p post, ps = pre ++ p :: post → (∀ q ∈ pre, Reported q) → '=' ∉ p → decoded p ≠ none → ∀ q ∈ post, '=' ∉ q

/-- The loop comes to a percent sign with nothing behind it. -/
def Lone (s : CStr) : Prop := ∃ pre, Taken pre ∧ s = pre ++ ['%']

/-- If the run comes to the last piece, the query does not end in a percent sign that is read. -/
def Closed (ps : List CStr) : Prop :=
  ∀ pre p, ps = pre ++ [p] → (∀ q ∈ pre, Reported q) →
    if '=' ∈ p then decoded (argName p) ≠ none → ¬ Lone (argValue p) else ¬ Lone p

/-- What the buffer keeps of a piece, which is one character less than it holds. -/
def kept (p : CStr) : CStr := p.take (smallbuf - 2)

/-- A piece whose name is left as it is by the decoding, or whose value is refused; and of a piece that fills the buffer the
last character counts for nothing. -/
def Verbatim (p : CStr) : Prop :=
  (decoded (argName p) = some (argName (kept p)) ∧ decoded (argValue p) = decoded (argValue (kept p))) ∨
    (decoded (argValue (kept p)) = none ∧ (decoded (argName p) = none ∨ decoded (argValue p) = none))

/-- Up to the first piece that ends the run every name needs no decoding, and the last piece is not empty. -/
def Undecoded (ps : List CStr) : Prop :=
  ∀ pre p post, ps = pre ++ p :: post → (∀ q ∈ pre, Reported q) → Verbatim p ∧ (post = [] → p ≠ [])

section Pieces

theorem cut_eq_none {s : CStr} {c : Char} : cut s c = none ↔ c ∉ s := by
  unfold cut
  split <;> simp_all

theorem cut_append {a : CStr} {c : Char} (h : c ∉ a) (b : CStr) : cut (a ++ c :: b) c = some (a, b) := by
  obtain ⟨htake, hdrop⟩ := takeWhile_append_cons h b
  rw [cut, if_pos (by simp), htake, hdrop, List.tail_cons]

theorem arg_append {a : CStr} (h : '=' ∉ a) (b : CStr) : argName (a ++ '=' :: b) = a ∧ argValue (a ++ '=' :: b) = b := by
  obtain ⟨htake, hdrop⟩ := takeWhile_append_cons h b
  rw [argName, argValue, htake, hdrop]
  exact ⟨rfl, rfl⟩

theorem arg_of_not_mem {p : CStr} (h : '=' ∉ p) : argName p = p ∧ argValue p = [] := by
  have hall : ∀ d ∈ p, decide (d ≠ '=') = true := fun d hd => decide_eq_true fun hdc => h (hdc ▸ hd)
  constructor
  · exact List.takeWhile_eq_self_iff.2 hall
  · rw [argValue, List.dropWhile_eq_nil_iff.2 hall]
    rfl

/-- The first piece of a text. -/
theorem pieces_cases (s : CStr) :
    ('&' ∉ s ∧ s.splitOn '&' = [s]) ∨
      ∃ p t, '&' ∉ p ∧ s = p ++ '&' :: t ∧ s.splitOn '&' = p :: t.splitOn '&' := by
  by_cases h : '&' ∈ s
  · obtain ⟨p, t, rfl, hp⟩ := List.eq_append_cons_of_mem h
    exact Or.inr ⟨p, t, hp, rfl, List.splitOn_append_cons_self_of_not_mem hp t⟩
  · exact Or.inl ⟨h, List.splitOn_eq_singleton h⟩

theorem mem_pieces {c : Char} (hc : c ≠ '&') (s : CStr) : (∃ p ∈ s.splitOn '&', c ∈ p) ↔ c ∈ s := by
  induction hn : s.length using Nat.strongRecOn generalizing s with
  | ind n ih =>
    rcases pieces_cases s with ⟨-, hs⟩ | ⟨p, t, -, rfl, hs⟩
    · simp [hs]
    · have hrest := ih t.length (by rw [← hn]; simp; omega) t rfl
      simp only [hs, List.mem_cons, exists_eq_or_imp, hrest, List.mem_append]
      simp [hc]

end Pieces

section Query

theorem decoded_nil : decoded [] = some [] := by decide

/-- Two runs after the same call. -/
theorem parsearg_eq_iff {x y : Option (Option CStr)} {r r' : Run} :
    parsearg x y r = parsearg x y r' ↔ ((∃ n v, x = some (some n) ∧ y = some (some v)) → r = r') := by
  rcases x with _ | _ | n
  · simp [parsearg]
  · simp [parsearg]
  · rcases y with _ | _ | v
    · simp [parsearg]
    · simp [parsearg]
    · simp [parsearg, Prod.ext_iff]

theorem length_parsearg_le {x y : Option (Option CStr)} {r r' : Run} (h : r.1.length ≤ r'.1.length) :
    (parsearg x y r).1.length ≤ (parsearg x y r').1.length := by
  unfold parsearg
  split <;> simp [h]

theorem length_parsearg_name (n : CStr) (y : Option (Option CStr)) (r : Run) :
    (parsearg (some (some n)) y r).1.length = (parsearg (some (some [])) y r).1.length := by
  rcases y with _ | _ | v <;> rfl

/-- A text that goes on behind an ampersand is decoded piece by piece. -/
theorem scan_append (p t : CStr) :
    match scan p with
    | some (some _) => ∃ n, scan (p ++ '&' :: t) = (scan t).map (Option.map (n ++ ·))
    | _ => scan (p ++ '&' :: t) = some none := by
  induction p using scan.induct with
  | case1 => exact ⟨['&'], scan_plain t (by decide)⟩
  | case2 => exact scan_bad t (by decide)
  | case3 hex0 hdigit =>
    rw [scan, if_pos hdigit]
    -- the `&` is taken for the second digit
    refine ⟨formatC (escaped hex0 '&'), ?_⟩
    rw [List.cons_append, List.cons_append, List.nil_append, scan, if_pos hdigit]
  | case4 hex0 hdigit =>
    rw [scan, if_neg hdigit]
    exact scan_bad _ (by simpa using hdigit)
  | case5 hex0 hex1 p hdigit ih =>
    rw [List.cons_append, List.cons_append, List.cons_append, scan, if_pos hdigit, scan, if_pos hdigit]
    rcases hp : scan p with _ | _ | m
    · rw [hp] at ih
      simp [ih]
    · rw [hp] at ih
      simp [ih]
    · rw [hp] at ih
      obtain ⟨n, hn⟩ := ih
      refine ⟨formatC (escaped hex0 hex1) ++ n, ?_⟩
      simp [hn, Option.map_map, Function.comp_def]
  | case6 hex0 hex1 p hdigit =>
    rw [scan, if_neg hdigit]
    exact scan_bad _ (by simpa using hdigit)
  | case7 c p hend hone htwo ih =>
    have hc : c ≠ '%' := ne_percent hend hone htwo
    rw [List.cons_append, scan_plain _ hc, scan_plain _ hc]
    rcases hp : scan p with _ | _ | m
    · rw [hp] at ih
      simp [ih]
    · rw [hp] at ih
      simp [ih]
    · rw [hp] at ih
      obtain ⟨n, hn⟩ := ih
      refine ⟨plain c :: n, ?_⟩
      simp [hn, Option.map_map, Function.comp_def]

theorem decoded_scan {s : CStr} (hnul : '\x00' ∉ s) : decoded s = (scan s).join := by rw [decoded, unescape_scan hnul]

/-- A text with an ampersand is decoded exactly if its pieces are. -/
theorem decoded_append {p t : CStr} (hnul : '\x00' ∉ p ++ '&' :: t) :
    (∀ n, decoded (p ++ '&' :: t) = some n → ∃ m k, decoded p = some m ∧ decoded t = some k) ∧
      (decoded p = none → decoded (p ++ '&' :: t) = none) := by
  have hscan := scan_append p t
  rw [decoded_scan hnul, decoded_scan (s := p) (fun h => hnul (by simp [h])),
    decoded_scan (s := t) (fun h => hnul (by simp [h]))]
  rcases hp : scan p with _ | _ | m
  · rw [hp] at hscan
    refine ⟨fun n hn => ?_, fun _ => by rw [hscan]; rfl⟩
    rw [hscan] at hn
    cases hn
  · rw [hp] at hscan
    refine ⟨fun n hn => ?_, fun _ => by rw [hscan]; rfl⟩
    rw [hscan] at hn
    cases hn
  · rw [hp] at hscan
    obtain ⟨k, hk⟩ := hscan
    refine ⟨fun n hn => ?_, fun h => by cases h⟩
    rw [hk] at hn
    rcases ht : scan t with _ | _ | k'
    · rw [ht] at hn
      cases hn
    · rw [ht] at hn
      cases hn
    · exact ⟨m, k', rfl, rfl⟩

/-! The loop takes the first piece alone, or with all pieces up to the next that has an equals sign. -/

theorem cgiLoop_last {s : CStr} (hs : '&' ∉ s) (hnul : '\x00' ∉ s) (fuel : Nat) :
    cgiLoop (fuel + 1) s =
      if '=' ∈ s then parsearg (some (decoded (argName s))) (unescape (argValue s)) ([], .returned)
      else parsearg (unescape s) (some (some [])) ([], .returned) := by
  by_cases heq : '=' ∈ s
  · obtain ⟨n, v, rfl, hn⟩ := List.eq_append_cons_of_mem heq
    have hv : '&' ∉ v := fun h => hs (by simp [h])
    rw [if_pos heq, cgiLoop, cut_append hn, (arg_append hn v).1, (arg_append hn v).2]
    dsimp only
    rw [cut_eq_none.2 hv, unescapeWithin_eq _ fun h => hnul (by simp [h])]
  · rw [if_neg heq, cgiLoop, cut_eq_none.2 heq, cut_eq_none.2 hs]

/-- A first piece that has an equals sign, or that no equals sign follows. -/
theorem cgiLoop_piece {p t : CStr} (hp : '&' ∉ p) (h : '=' ∈ p ∨ '=' ∉ t) (hnul : '\x00' ∉ p) (fuel : Nat) :
    cgiLoop (fuel + 1) (p ++ '&' :: t) =
      parsearg (some (decoded (argName p))) (some (decoded (argValue p))) (cgiLoop fuel t) := by
  by_cases heq : '=' ∈ p
  · obtain ⟨n, v, rfl, hn⟩ := List.eq_append_cons_of_mem heq
    have hv : '&' ∉ v := fun h => hp (by simp [h])
    have hassoc : n ++ '=' :: v ++ '&' :: t = n ++ '=' :: (v ++ '&' :: t) := by simp
    rw [hassoc, cgiLoop, cut_append hn, (arg_append hn v).1, (arg_append hn v).2]
    dsimp only
    rw [cut_append hv]
    dsimp only
    rw [unescapeWithin_eq _ fun h => hnul (by simp [h]), unescapeWithin_eq _ fun h => hnul (by simp [h])]
  · have hnone : '=' ∉ p ++ '&' :: t := by
      have ht := h.resolve_left heq
      simp [heq, ht]
    rw [cgiLoop, cut_eq_none.2 hnone, cut_append hp, (arg_of_not_mem heq).1, (arg_of_not_mem heq).2, decoded_nil]
    dsimp only
    rw [unescapeWithin_eq _ hnul]

/-- A first piece without an equals sign runs into the name of the next argument that has one. -/
theorem cgiLoop_merged {a b : CStr} (ha : '=' ∉ a) (hnul : '\x00' ∉ a ++ '=' :: b) (fuel : Nat) :
    cgiLoop (fuel + 1) (a ++ '=' :: b) =
      match cut b '&' with
      | none => parsearg (some (decoded a)) (unescape b) ([], .returned)
      | some (v, t) => parsearg (some (decoded a)) (some (decoded v)) (cgiLoop fuel t) := by
  rw [cgiLoop, cut_append ha]
  dsimp only
  rcases pieces_cases b with ⟨hb, -⟩ | ⟨v, t, hv, rfl, -⟩
  · rw [cut_eq_none.2 hb, unescapeWithin_eq _ fun h => hnul (by simp [h])]
  · rw [cut_append hv]
    dsimp only
    rw [unescapeWithin_eq _ fun h => hnul (by simp [h]), unescapeWithin_eq _ fun h => hnul (by simp [h])]

theorem pieceArgs_last {s : CStr} (hs : '&' ∉ s) :
    pieceArgs (s.splitOn '&') = parsearg (some (decoded (argName s))) (some (decoded (argValue s))) ([], .returned) := by
  rw [List.splitOn_eq_singleton hs, pieceArgs, pieceArgs]

theorem pieceArgs_piece {p : CStr} (hp : '&' ∉ p) (t : CStr) :
    pieceArgs ((p ++ '&' :: t).splitOn '&') =
      parsearg (some (decoded (argName p))) (some (decoded (argValue p))) (pieceArgs (t.splitOn '&')) := by
  rw [List.splitOn_append_cons_self_of_not_mem hp, pieceArgs]

theorem scan_eq_none {s : CStr} : scan s = none ↔ Lone s := by
  constructor
  · intro h
    induction s using scan.induct with
    | case1 => cases h
    | case2 => exact ⟨[], .nil, rfl⟩
    | case3 hex0 hdigit =>
      rw [scan, if_pos hdigit] at h
      cases h
    | case4 hex0 hdigit =>
      rw [scan, if_neg hdigit] at h
      cases h
    | case5 hex0 hex1 t hdigit ih =>
      rw [scan, if_pos hdigit, Option.map_eq_none_iff] at h
      obtain ⟨pre, hpre, rfl⟩ := ih h
      exact ⟨'%' :: hex0 :: hex1 :: pre, .escape hdigit hpre, rfl⟩
    | case6 hex0 hex1 t hdigit =>
      rw [scan, if_neg hdigit] at h
      cases h
    | case7 c t hend hone htwo ih =>
      have hc : c ≠ '%' := ne_percent hend hone htwo
      rw [scan_plain t hc, Option.map_eq_none_iff] at h
      obtain ⟨pre, hpre, rfl⟩ := ih h
      exact ⟨c :: pre, .plain hc hpre, rfl⟩
  · rintro ⟨pre, hpre, rfl⟩
    induction hpre with
    | nil => rfl
    | @plain c t hc _ ih => rw [List.cons_append, scan_plain _ hc, ih, Option.map_none]
    | @escape hex0 hex1 t hdigit _ ih =>
      rw [List.cons_append, List.cons_append, List.cons_append, scan, if_pos hdigit, ih, Option.map_none]

/-- A string at the end of the query is decoded as it should be, or it is read over its end. -/
theorem unescape_cases {s : CStr} (hnul : '\x00' ∉ s) :
    ¬ Lone s ∧ unescape s = some (decoded s) ∨ Lone s ∧ unescape s = none ∧ decoded s = none := by
  unfold decoded
  rw [unescape_scan hnul, ← scan_eq_none]
  cases scan s with
  | none => exact Or.inr ⟨rfl, rfl, rfl⟩
  | some r => exact Or.inl ⟨Option.some_ne_none r, rfl⟩

/-- What is reported is the same. -/
theorem parsearg_end {b : CStr} (hnul : '\x00' ∉ b) (x : Option (Option CStr)) (r : Run) :
    (parsearg x (unescape b) r).1 = (parsearg x (some (decoded b)) r).1 := by
  rcases unescape_cases hnul with ⟨-, h⟩ | ⟨-, h, hdec⟩
  · rw [h]
  · rw [h, hdec]
    rcases x with _ | _ | n <;> rfl

theorem closed_singleton {p : CStr} :
    Closed [p] ↔ if '=' ∈ p then decoded (argName p) ≠ none → ¬ Lone (argValue p) else ¬ Lone p := by
  constructor
  · intro h
    exact h [] p rfl fun q hq => absurd hq List.not_mem_nil
  · intro h pre q hpre _
    rcases pre with _ | ⟨r, pre⟩
    · obtain rfl := (List.cons.inj hpre).1
      exact h
    · exact absurd (List.cons.inj hpre).2.symm (by simp)

theorem closed_cons {p : CStr} {ps : List CStr} (hps : ps ≠ []) : Closed (p :: ps) ↔ (Reported p → Closed ps) := by
  constructor
  · intro h hp pre q hpre hall
    refine h (p :: pre) q (by rw [hpre, List.cons_append]) ?_
    intro r hr
    rcases List.mem_cons.1 hr with rfl | hr
    · exact hp
    · exact hall r hr
  · intro h pre q hpre hall
    rcases pre with _ | ⟨p', pre⟩
    · exact absurd (List.cons.inj hpre).2 hps
    · obtain ⟨rfl, rfl⟩ := List.cons.inj hpre
      exact h (hall p List.mem_cons_self) pre q rfl fun r hr => hall r (List.mem_cons_of_mem _ hr)

/-- The last piece is read as it should be unless the end of the query is. -/
theorem cgiLoop_last_iff {s : CStr} (hs : '&' ∉ s) (hnul : '\x00' ∉ s) (fuel : Nat) :
    (cgiLoop (fuel + 1) s = pieceArgs (s.splitOn '&') ↔ Closed [s]) ∧
      (cgiLoop (fuel + 1) s).1 = (pieceArgs (s.splitOn '&')).1 := by
  rw [closed_singleton, cgiLoop_last hs hnul, pieceArgs_last hs]
  by_cases heq : '=' ∈ s
  · have hvalue : '\x00' ∉ argValue s := fun h =>
      hnul (((List.tail_sublist _).trans (List.dropWhile_sublist _)).subset h)
    rw [if_pos heq, if_pos heq]
    refine ⟨?_, parsearg_end hvalue _ _⟩
    rcases unescape_cases hvalue with ⟨hend, h⟩ | ⟨hend, h, h'⟩
    · rw [h]
      exact iff_of_true rfl fun _ => hend
    · rw [h, h']
      cases decoded (argName s) with
      | none => exact iff_of_true rfl fun h => absurd rfl h
      | some n => exact iff_of_false (by simp [parsearg]) fun h => h (Option.some_ne_none n) hend
  · rw [if_neg heq, if_neg heq, (arg_of_not_mem heq).1, (arg_of_not_mem heq).2, decoded_nil]
    rcases unescape_cases hnul with ⟨hend, h⟩ | ⟨hend, h, h'⟩
    · rw [h]
      exact ⟨iff_of_true rfl hend, rfl⟩
    · rw [h, h']
      exact ⟨iff_of_false (by simp [parsearg]) fun h => h hend, rfl⟩

/-- What the pieces behind the first ampersand report. -/
def restArgs (b : CStr) : Run :=
  match cut b '&' with
  | none => parsearg (some (some [])) (some (decoded b)) ([], .returned)
  | some (v, t) => parsearg (some (some [])) (some (decoded v)) (pieceArgs (t.splitOn '&'))

/-- Where the text up to the equals sign is decoded as one name, its last piece is reported with the value. -/
theorem restArgs_le {a b m : CStr} (ha : '=' ∉ a) (hnul : '\x00' ∉ a) (hdec : decoded a = some m) :
    (restArgs b).1.length ≤ (pieceArgs ((a ++ '=' :: b).splitOn '&')).1.length := by
  have hany := length_parsearg_name
  induction hn : a.length using Nat.strongRecOn generalizing a m with
  | ind n ih =>
    rcases pieces_cases a with ⟨hlast, -⟩ | ⟨p, t, hp, rfl, -⟩
    · rcases pieces_cases b with ⟨hb, -⟩ | ⟨v, t, hv, rfl, -⟩
      · rw [pieceArgs_last (by simp [hlast, hb]), (arg_append ha b).1, (arg_append ha b).2, hdec, restArgs,
          cut_eq_none.2 hb, hany m]
      · have hassoc : a ++ '=' :: (v ++ '&' :: t) = a ++ '=' :: v ++ '&' :: t := by simp
        rw [hassoc, pieceArgs_piece (by simp [hlast, hv]), (arg_append ha v).1, (arg_append ha v).2, hdec, restArgs,
          cut_append hv, hany m]
    · obtain ⟨n₁, k, hpdec, htdec⟩ := (decoded_append hnul).1 m hdec
      have hpeq : '=' ∉ p := fun h => ha (by simp [h])
      have hassoc : p ++ '&' :: t ++ '=' :: b = p ++ '&' :: (t ++ '=' :: b) := by simp
      have hrest := ih t.length (by rw [← hn]; simp; omega) (fun h => ha (by simp [h])) (fun h => hnul (by simp [h])) htdec rfl
      rw [hassoc, pieceArgs_piece hp, (arg_of_not_mem hpeq).1, (arg_of_not_mem hpeq).2, hpdec, decoded_nil]
      exact hrest.trans (Nat.le_succ _)

/-- Where the name of the first piece is decoded, a merged name is one report too few. -/
theorem merged_lt {p t n : CStr} (hp : '&' ∉ p) (hpeq : '=' ∉ p) (ht : '=' ∈ t) (hnul : '\x00' ∉ p ++ '&' :: t)
    (hdec : decoded p = some n) (fuel : Nat)
    (hle : ∀ r : CStr, r.length < t.length → '\x00' ∉ r →
      (cgiLoop fuel r).1.length ≤ (pieceArgs (r.splitOn '&')).1.length) :
    (cgiLoop (fuel + 1) (p ++ '&' :: t)).1.length < (pieceArgs ((p ++ '&' :: t).splitOn '&')).1.length := by
  obtain ⟨a, b, rfl, ha⟩ := List.eq_append_cons_of_mem ht
  -- the name goes on to the `=` of a later piece
  have hmerged : '=' ∉ p ++ '&' :: a := by simp [hpeq, ha]
  have hassoc : p ++ '&' :: (a ++ '=' :: b) = p ++ '&' :: a ++ '=' :: b := by simp
  have hspec : (pieceArgs ((p ++ '&' :: (a ++ '=' :: b)).splitOn '&')).1.length =
      (pieceArgs ((a ++ '=' :: b).splitOn '&')).1.length + 1 := by
    rw [pieceArgs_piece hp, (arg_of_not_mem hpeq).1, (arg_of_not_mem hpeq).2, hdec, decoded_nil]
    rfl
  have hnulb : '\x00' ∉ b := fun h => hnul (by simp [h])
  rw [hspec, hassoc, cgiLoop_merged hmerged (hassoc ▸ hnul), Nat.lt_succ_iff]
  have hnul' : '\x00' ∉ p ++ '&' :: a := fun h => hnul (by rw [hassoc]; exact List.mem_append_left _ h)
  cases hm : decoded (p ++ '&' :: a) with
  | none =>
    cases cut b '&' with
    | none => exact Nat.zero_le _
    | some c => exact Nat.zero_le _
  | some m =>
    obtain ⟨-, k, -, hk⟩ := (decoded_append hnul').1 m hm
    refine le_trans ?_ (restArgs_le ha (fun h => hnul' (by simp [h])) hk)
    rcases pieces_cases b with ⟨hb, -⟩ | ⟨v, r, hv, rfl, -⟩
    · rw [restArgs, cut_eq_none.2 hb, parsearg_end hnulb]
      exact (length_parsearg_name m _ _).le
    · rw [restArgs, cut_append hv]
      refine (length_parsearg_name m _ _).le.trans (length_parsearg_le (hle r ?_ ?_))
      · simp only [List.length_append, List.length_cons]
        omega
      · exact fun h => hnulb (by simp [h])

/-- The loop where the first piece is not decoded. -/
theorem merged_fails {p t : CStr} (hpeq : '=' ∉ p) (ht : '=' ∈ t) (hnul : '\x00' ∉ p ++ '&' :: t)
    (hdec : decoded p = none) (fuel : Nat) : cgiLoop (fuel + 1) (p ++ '&' :: t) = ([], .fatal) := by
  obtain ⟨a, b, rfl, ha⟩ := List.eq_append_cons_of_mem ht
  have hassoc : p ++ '&' :: (a ++ '=' :: b) = p ++ '&' :: a ++ '=' :: b := by simp
  have hnul' : '\x00' ∉ p ++ '&' :: a := fun h => hnul (by rw [hassoc]; exact List.mem_append_left _ h)
  rw [hassoc, cgiLoop_merged (by simp [hpeq, ha]) (hassoc ▸ hnul), (decoded_append hnul').2 hdec]
  cases cut b '&' <;> rfl

/-- The loop never reports more than the pieces do. -/
theorem cgiLoop_le (fuel : Nat) {s : CStr} (hnul : '\x00' ∉ s) (hfuel : s.length < fuel) :
    (cgiLoop fuel s).1.length ≤ (pieceArgs (s.splitOn '&')).1.length := by
  induction fuel generalizing s with
  | zero => omega
  | succ fuel ih =>
    rcases pieces_cases s with ⟨hs, -⟩ | ⟨p, t, hp, rfl, -⟩
    · rw [(cgiLoop_last_iff hs hnul fuel).2]
    · have hlen : t.length < fuel := by
        simp only [List.length_append, List.length_cons] at hfuel
        omega
      have hnulp : '\x00' ∉ p := fun h => hnul (by simp [h])
      have hnult : '\x00' ∉ t := fun h => hnul (by simp [h])
      by_cases hmerge : '=' ∈ p ∨ '=' ∉ t
      · rw [cgiLoop_piece hp hmerge hnulp, pieceArgs_piece hp]
        exact length_parsearg_le (ih hnult hlen)
      · rw [not_or, not_not] at hmerge
        obtain ⟨hpeq, ht⟩ := hmerge
        cases hdec : decoded p with
        | none =>
          rw [merged_fails hpeq ht hnul hdec]
          exact Nat.zero_le _
        | some n => exact (merged_lt hp hpeq ht hnul hdec fuel fun r hr hnulr => ih hnulr (by omega)).le

theorem reported_of_not_mem {p : CStr} (h : '=' ∉ p) : Reported p ↔ decoded p ≠ none := by
  rw [Reported, (arg_of_not_mem h).1, (arg_of_not_mem h).2, decoded_nil]
  simp [Option.ne_none_iff_exists']

theorem separated_cons {p : CStr} {ps : List CStr} :
    Separated (p :: ps) ↔ ('=' ∉ p → decoded p ≠ none → ∀ q ∈ ps, '=' ∉ q) ∧ (Reported p → Separated ps) := by
  constructor
  · intro h
    constructor
    · exact h [] p ps rfl (by simp)
    · intro hp pre q post hps hpre
      refine h (p :: pre) q post (by rw [hps, List.cons_append]) ?_
      intro r hr
      rcases List.mem_cons.1 hr with rfl | hr
      · exact hp
      · exact hpre r hr
  · rintro ⟨hhead, htail⟩ pre q post hps hpre
    rcases pre with _ | ⟨p', pre⟩
    · obtain ⟨rfl, rfl⟩ := List.cons.inj hps
      exact hhead
    · obtain ⟨rfl, rfl⟩ := List.cons.inj hps
      exact htail (hpre p List.mem_cons_self) pre q post rfl fun r hr => hpre r (List.mem_cons_of_mem _ hr)

theorem separated_of_not_mem {ps : List CStr} (h : ∀ q ∈ ps, '=' ∉ q) : Separated ps := by
  rintro pre p post rfl - - - q hq
  exact h q (by simp [hq])

theorem separated_singleton (p : CStr) : Separated [p] := by
  rw [separated_cons]
  constructor
  · exact fun _ _ q hq => absurd hq List.not_mem_nil
  · exact fun _ => separated_of_not_mem fun q hq => absurd hq List.not_mem_nil

/-- The loop takes the pieces one by one exactly if no name runs into a later piece and the end of the query is not
overrun. -/
theorem cgiLoop_eq_iff (fuel : Nat) {s : CStr} (hnul : '\x00' ∉ s) (hfuel : s.length < fuel) :
    cgiLoop fuel s = pieceArgs (s.splitOn '&') ↔ Separated (s.splitOn '&') ∧ Closed (s.splitOn '&') := by
  induction fuel generalizing s with
  | zero => omega
  | succ fuel ih =>
    rcases pieces_cases s with ⟨hs, hpieces⟩ | ⟨p, t, hp, rfl, hpieces⟩
    · rw [(cgiLoop_last_iff hs hnul fuel).1, hpieces]
      exact ⟨fun h => ⟨separated_singleton s, h⟩, fun h => h.2⟩
    · have hlen : t.length < fuel := by
        simp only [List.length_append, List.length_cons] at hfuel
        omega
      have hnulp : '\x00' ∉ p := fun h => hnul (by simp [h])
      have hnult : '\x00' ∉ t := fun h => hnul (by simp [h])
      have hmem := mem_pieces (show '=' ≠ '&' by decide) t
      have hrest := ih hnult hlen
      rw [hpieces, separated_cons, closed_cons (List.splitOn_ne_nil '&' t)]
      by_cases hmerge : '=' ∈ p ∨ '=' ∉ t
      · have hlater : '=' ∉ p → decoded p ≠ none → ∀ q ∈ t.splitOn '&', '=' ∉ q := fun hpeq _ q hq hqeq =>
          hmerge.resolve_left hpeq (hmem.1 ⟨q, hq, hqeq⟩)
        rw [cgiLoop_piece hp hmerge hnulp, pieceArgs, parsearg_eq_iff, hrest]
        constructor
        · intro h
          have hrep : Reported p → Separated (t.splitOn '&') ∧ Closed (t.splitOn '&') := by
            rintro ⟨n, v, hn, hv⟩
            exact h ⟨n, v, congrArg some hn, congrArg some hv⟩
          exact ⟨⟨hlater, fun hp => (hrep hp).1⟩, fun hp => (hrep hp).2⟩
        · rintro ⟨⟨-, hsep⟩, hclosed⟩ ⟨n, v, hn, hv⟩
          have hrep : Reported p := ⟨n, v, Option.some.inj hn, Option.some.inj hv⟩
          exact ⟨hsep hrep, hclosed hrep⟩
      · rw [not_or, not_not] at hmerge
        -- pieces are run together here, and in the end an argument is missing
        obtain ⟨hpeq, ht⟩ := hmerge
        obtain ⟨q, hq, hqeq⟩ := hmem.2 ht
        cases hdec : decoded p with
        | none =>
          have hnot : ¬ Reported p := fun h => (reported_of_not_mem hpeq).1 h hdec
          rw [merged_fails hpeq ht hnul hdec, pieceArgs, (arg_of_not_mem hpeq).1, hdec]
          exact iff_of_true rfl ⟨⟨fun _ h => absurd rfl h, fun h => absurd h hnot⟩, fun h => absurd h hnot⟩
        | some n =>
          have hlt := merged_lt hp hpeq ht hnul hdec fuel fun r hr hnulr => cgiLoop_le fuel hnulr (by omega)
          rw [hpieces] at hlt
          refine iff_of_false (fun h => ?_) fun h => ?_
          · rw [h] at hlt
            exact lt_irrefl _ hlt
          · exact h.1.1 hpeq (Option.some_ne_none n) q hq hqeq

end Query

section Form

variable {behind : Char}

/-- The arguments of a form, of which an empty one at the end is none. -/
def formArgs (behind : Char) : List CStr → Run
  | [] => ([], .returned)
  | [p] => if p = [] then ([], .returned) else postarg behind p ([], .returned)
  | p :: ps => postarg behind p (formArgs behind ps)

theorem formArgs_cons (p : CStr) {ps : List CStr} (h : ps ≠ []) :
    formArgs behind (p :: ps) = postarg behind p (formArgs behind ps) := by
  obtain ⟨q, qs, rfl⟩ := List.exists_cons_of_ne_nil h
  rfl

theorem postarg_eq {p : CStr} (hnul : '\x00' ∉ p) (rest : Run) :
    postarg behind p rest = parsearg (some (some (argName p))) (some (decoded (argValue p))) rest := by
  by_cases heq : '=' ∈ p
  · obtain ⟨n, v, rfl, hn⟩ := List.eq_append_cons_of_mem heq
    rw [postarg, cut_append hn, (arg_append hn v).1, (arg_append hn v).2]
    dsimp only
    rw [unescapeWithin_eq _ fun h => hnul (by simp [h])]
  · rw [postarg, cut_eq_none.2 heq, (arg_of_not_mem heq).1, (arg_of_not_mem heq).2, decoded_nil]
    rfl

theorem kept_eq_nil {p : CStr} : kept p = [] ↔ p = [] := by
  rw [kept, List.take_eq_nil_iff]
  exact or_iff_right (by decide)

/-- The loop, with the beginning of the first piece in the buffer. -/
theorem postLoop_pieces (stdin piece : CStr) (hpiece : '&' ∉ piece) (hnul : '\x00' ∉ stdin) :
    postLoop behind stdin (kept piece) = formArgs behind (((piece ++ stdin).splitOn '&').map kept) := by
  induction stdin generalizing piece with
  | nil =>
    rw [postLoop, List.append_nil, List.splitOn_eq_singleton hpiece, List.map_singleton, formArgs]
    by_cases h : kept piece = []
    · rw [if_pos h, h]
      rfl
    · rw [if_neg h, if_pos fun hlen => h (List.length_eq_zero_iff.1 hlen)]
  | cons ch stdin ih =>
    have hnul' : '\x00' ∉ stdin := fun h => hnul (List.mem_cons_of_mem _ h)
    rw [postLoop]
    by_cases hch : ch = '&'
    · subst hch
      have hrest := ih [] List.not_mem_nil hnul'
      rw [if_pos rfl, List.splitOn_append_cons_self_of_not_mem hpiece, List.map_cons, formArgs_cons]
      · exact congrArg (postarg behind (kept piece)) hrest
      · simp [List.splitOn_ne_nil]
    · have hne : ch ≠ '\x00' := fun h => hnul (h ▸ List.mem_cons_self)
      have hassoc : piece ++ ch :: stdin = piece ++ [ch] ++ stdin := by simp
      have hcat : snprintfcat (kept piece) smallbuf (formatC ch) = kept (piece ++ [ch]) := by
        rw [formatC_of_ne hne, kept, snprintfcat_eq_take (List.length_take_le _ _), take_take_append, kept]
      rw [if_neg hch, hcat, hassoc]
      exact ih (piece ++ [ch]) (by simp [hpiece, Ne.symm hch]) hnul'

/-- A call with the name as it is written. -/
theorem parsearg_verbatim {n : CStr} {x y z : Option CStr} {r r' : Run} :
    parsearg (some (some n)) (some y) r = parsearg (some x) (some z) r' ↔
      ((x = some n ∧ z = y) ∨ (y = none ∧ (x = none ∨ z = none))) ∧ ((∃ m v, x = some m ∧ z = some v) → r = r') := by
  rcases y with _ | v
  · rcases x with _ | m
    · simp [parsearg]
    · rcases z with _ | w
      · simp [parsearg]
      · simp [parsearg]
  · rcases x with _ | m
    · simp [parsearg]
    · rcases z with _ | w
      · simp [parsearg]
      · simp [parsearg, Prod.ext_iff, eq_comm, and_assoc]

theorem undecoded_cons {p : CStr} {ps : List CStr} :
    Undecoded (p :: ps) ↔ (Verbatim p ∧ (ps = [] → p ≠ [])) ∧ (Reported p → Undecoded ps) := by
  constructor
  · intro h
    constructor
    · exact h [] p ps rfl (by simp)
    · intro hp pre q post hps hpre
      refine h (p :: pre) q post (by rw [hps, List.cons_append]) ?_
      intro r hr
      rcases List.mem_cons.1 hr with rfl | hr
      · exact hp
      · exact hpre r hr
  · rintro ⟨hhead, htail⟩ pre q post hps hpre
    rcases pre with _ | ⟨p', pre⟩
    · obtain ⟨rfl, rfl⟩ := List.cons.inj hps
      exact hhead
    · obtain ⟨rfl, rfl⟩ := List.cons.inj hps
      exact htail (hpre p List.mem_cons_self) pre q post rfl fun r hr => hpre r (List.mem_cons_of_mem _ hr)

theorem undecoded_nil : Undecoded [] := fun pre p post h => absurd h.symm (by simp)

/-- A form is read as a query exactly if its names need no decoding. -/
theorem formArgs_eq_iff {ps : List CStr} (hnul : ∀ p ∈ ps, '\x00' ∉ p) :
    formArgs behind (ps.map kept) = pieceArgs ps ↔ Undecoded ps := by
  induction ps with
  | nil => exact iff_of_true rfl undecoded_nil
  | cons p ps ih =>
    have hkept : '\x00' ∉ kept p := fun h => hnul p List.mem_cons_self (List.mem_of_mem_take h)
    have hps := ih fun q hq => hnul q (List.mem_cons_of_mem _ hq)
    rw [undecoded_cons]
    rcases ps with _ | ⟨q, ps⟩
    · by_cases hp : p = []
      · subst hp
        refine iff_of_false ?_ fun h => h.1.2 rfl rfl
        rw [List.map_singleton, formArgs, if_pos (kept_eq_nil.2 rfl), pieceArgs, (arg_of_not_mem List.not_mem_nil).1,
          (arg_of_not_mem List.not_mem_nil).2, decoded_nil]
        simp [parsearg]
      · rw [List.map_singleton, formArgs, if_neg (mt kept_eq_nil.1 hp), postarg_eq hkept, pieceArgs, pieceArgs,
          parsearg_verbatim]
        exact ⟨fun h => ⟨⟨h.1, fun _ => hp⟩, fun _ => undecoded_nil⟩, fun h => ⟨h.1.1, fun _ => rfl⟩⟩
    · rw [List.map_cons, formArgs_cons _ (by simp), postarg_eq hkept, pieceArgs, parsearg_verbatim, hps]
      exact ⟨fun h => ⟨⟨h.1, fun hnil => absurd hnil (List.cons_ne_nil q ps)⟩, h.2⟩, fun h => ⟨h.1.1, h.2⟩⟩

end Form

/-- A text is split and decoded one way exactly if it is not empty, if no argument without a value comes before one with an
equals sign, if it does not end in a lone percent sign, and, where it fits the buffer of the form, if no name needs decoding
and the last argument is not empty. -/
theorem cgiargs_uniform_iff {s : CStr} (hnul : '\x00' ∉ s) :
    Uniform s ↔ s ≠ [] ∧ (Separated (s.splitOn '&') ∧ Closed (s.splitOn '&')) ∧
      (Fits s → Undecoded (s.splitOn '&')) := by
  by_cases hs : s = []
  · subst hs
    refine iff_of_false (fun h => ?_) fun h => h.1 rfl
    have hspec : pieceArgs (([] : CStr).splitOn '&') = ([([], [])], .returned) := by decide
    have hquery := h.1
    rw [hspec] at hquery
    exact absurd hquery (by decide)
  · have hquery : extractcgiargs (some s) = cgiLoop (s.length + 1) s :=
      if_neg fun h => hs (List.length_eq_zero_iff.1 h)
    have hpost : ∀ behind, extractpostargs behind s = formArgs behind ((s.splitOn '&').map kept) := fun behind =>
      postLoop_pieces s [] List.not_mem_nil hnul
    have hpieces : ∀ p ∈ s.splitOn '&', '\x00' ∉ p := fun p hp h =>
      hnul ((mem_pieces (by decide) s).1 ⟨p, hp, h⟩)
    have hloop := cgiLoop_eq_iff (s.length + 1) hnul (Nat.lt_succ_self _)
    rw [Uniform, hquery]
    constructor
    · rintro ⟨hsame, hform⟩
      refine ⟨hs, hloop.1 hsame, fun hfits => (@formArgs_eq_iff '\x00' _ hpieces).1 ?_⟩
      rw [← hpost, hform hfits, hsame]
    · rintro ⟨-, hclosed, hform⟩
      refine ⟨hloop.2 hclosed, fun hfits behind => ?_⟩
      rw [hpost, (formArgs_eq_iff hpieces).2 (hform hfits), hloop.2 hclosed]

/-- Two arguments, of which the second one has an escape and a blank in its value. -/
theorem cgiargs_uniform_two :
    Uniform "a=1&b=x+%41".toList ∧
      extractcgiargs (some "a=1&b=x+%41".toList) =
        ([("a".toList, "1".toList), ("b".toList, "x A".toList)], .returned) := by
  have hpieces : "a=1&b=x+%41".toList.splitOn '&' = ["a=1".toList, "b=x+%41".toList] := by decide
  have hlone : ¬ Lone (argValue "b=x+%41".toList) := by
    rw [← scan_eq_none]
    decide +kernel
  have hfirst : Verbatim "a=1".toList := Or.inl (by decide +kernel)
  have hsecond : Verbatim "b=x+%41".toList := Or.inl (by decide +kernel)
  refine ⟨(cgiargs_uniform_iff (by decide)).2 ⟨by decide, ⟨?_, ?_⟩, fun _ => ?_⟩, by decide +kernel⟩
  · rw [hpieces, separated_cons]
    exact ⟨fun h => absurd h (by decide), fun _ => separated_singleton _⟩
  · rw [hpieces, closed_cons (by decide), closed_singleton, if_pos (by decide)]
    exact fun _ _ => hlone
  · rw [hpieces, undecoded_cons, undecoded_cons]
    exact ⟨⟨hfirst, fun _ => by decide⟩, fun _ => ⟨⟨hsecond, fun _ => by decide⟩, fun _ => undecoded_nil⟩⟩

/-- The first name of `a&b=1` is `a&b` in a query, and the name of `a%41=1` is not decoded in a form. -/
theorem arguments_differ :
    extractcgiargs (some "a&b=1".toList) = ([("a&b".toList, "1".toList)], .returned) ∧
      pieceArgs ("a&b=1".toList.splitOn '&') = ([("a".toList, []), ("b".toList, "1".toList)], .returned) ∧
      extractcgiargs (some "a%41=1".toList) = ([("aA".toList, "1".toList)], .returned) ∧
      extractpostargs '\x00' "a%41=1".toList = ([("a%41".toList, "1".toList)], .returned) ∧
      ¬ Uniform "a&b=1".toList := by
  have hquery : extractcgiargs (some "a&b=1".toList) = ([("a&b".toList, "1".toList)], .returned) := by decide +kernel
  have hpieces : pieceArgs ("a&b=1".toList.splitOn '&') = ([("a".toList, []), ("b".toList, "1".toList)], .returned) := by
    decide +kernel
  refine ⟨hquery, hpieces, by decide +kernel, by decide +kernel, fun h => ?_⟩
  have hsame := h.1
  rw [hquery, hpieces] at hsame
  exact absurd hsame (by decide)

end Cgilib

end Nut
