import Nut.Common.State

/-!
# Splitting a UPS name

`upscli_splitname` and `upscli_splitaddr` of the client library: `upsname[@hostname[:port]]` into its parts.  Both copy
their text into a buffer and cut it there with `strtok_r`, which writes a NUL after each word, so the buffer is a list
of bytes in which `none` is a NUL.  The copies made by `strdup` are taken to succeed.
-/

namespace Nut.Splitname

/-- The port of the configuration, `PORT`. -/
def defaultPort : Int32 := 3493

/-- The bytes of a buffer; `none` is a NUL. -/
abbrev Buf := List (Option Char)

def toBuf (s : CStr) : Buf := s.map some ++ [none]

/-- The string at the start of a buffer. -/
def text : Buf → CStr
  | some c :: tmp => c :: text tmp
  | _ => []

/-- The string at the address `i` of a buffer. -/
def textAt (tmp : Buf) (i : Nat) : CStr := text (tmp.drop i)

def strspn (s delim : CStr) : Nat := (s.takeWhile (· ∈ delim)).length

def strcspn (s delim : CStr) : Nat := (s.takeWhile (· ∉ delim)).length

/-- The position at which `strchr` finds `c`. -/
def strchr (s : CStr) (c : Char) : Option Nat := s.idxOf? c

/-- `strtok_r` from the address `s`: the buffer it leaves, the address of the token, and what it puts into `last`. -/
def strtokR (tmp : Buf) (s : Nat) (delim : CStr) : Buf × Option Nat × Nat :=
  let s := s + strspn (textAt tmp s) delim
  if textAt tmp s = [] then (tmp, none, s)
  else
    let stop := s + strcspn (textAt tmp s) delim
    if textAt tmp stop = [] then (tmp, some s, stop) else (tmp.set stop none, some s, stop + 1)

/-- How a split ends without its parts: with -1, or with a `strdup` of a token that is NULL. -/
inductive Failure
  | invalid
  | nullToken
  deriving DecidableEq, Repr

/-- `strdup` of a token. -/
def strdup (tmp : Buf) (token : Option Nat) : Except Failure CStr :=
  match token with
  | none => .error .nullToken
  | some s => .ok (textAt tmp s)

/-- The port after the separator at `s`. -/
def readPort (tmp : Buf) (s : Nat) (hostname : CStr) : Except Failure (CStr × Int32) :=
  if textAt tmp (s + 1) = [] ∨ atoi (textAt tmp (s + 1)) < 1 then .error .invalid
  else .ok (hostname, atoi (textAt tmp (s + 1)))

/-- `upscli_splitaddr` -/
def upscliSplitaddr (buf : CStr) : Except Failure (CStr × Int32) := do
  if buf = [] then throw .invalid
  let tmp := toBuf (snprintf smallbuf buf)
  if (textAt tmp 0).head? = some '[' then
    if strchr (textAt tmp 0) ']' = none then throw .invalid
    let (tmp, token, last) := strtokR tmp 1 [']']
    let hostname ← strdup tmp token
    match strtokR tmp last [] with
    | (_, none, _) => return (hostname, defaultPort)
    | (tmp, some s, _) =>
      if (textAt tmp s).head? ≠ some ':' then return (hostname, defaultPort) else readPort tmp s hostname
  else
    let s := strchr (textAt tmp 0) ':'
    let (tmp, token, _) := strtokR tmp 0 [':']
    let hostname ← strdup tmp token
    match s with
    | none => return (hostname, defaultPort)
    | some s => readPort tmp s hostname

/-- The three parts of a name. -/
structure Parts where
  upsname : CStr
  hostname : CStr
  port : Int32
  deriving DecidableEq, Repr

/-- `upscli_splitname` -/
def upscliSplitname (buf : CStr) : Except Failure Parts := do
  if buf = [] then throw .invalid
  let tmp := toBuf (snprintf smallbuf buf)
  let s := strchr (textAt tmp 0) '@'
  let (tmp, token, _) := strtokR tmp 0 ['@']
  let upsname ← strdup tmp token
  match s with
  | none => return ⟨upsname, "localhost".toList, defaultPort⟩
  | some s =>
    let (hostname, port) ← upscliSplitaddr (textAt tmp (s + 1))
    return ⟨upsname, hostname, port⟩

/-! ### What the tokens are -/

/-- The first word of a text between separators `d`. -/
def word (d : Char) (s : CStr) : CStr := (s.dropWhile (· = d)).takeWhile (· ≠ d)

/-- The text after the first word and its separator. -/
def rest (d : Char) (s : CStr) : CStr := ((s.dropWhile (· = d)).dropWhile (· ≠ d)).tail

/-- The text after the first separator, once the first word has been cut out: a text that begins with separators ends
with its first word. -/
def after (d : Char) (s : CStr) : CStr :=
  if s.head? = some d then s.tail.takeWhile (· = d) ++ word d s else (s.dropWhile (· ≠ d)).tail

@[simp] theorem text_append_none (s : CStr) (tmp : Buf) : text (s.map some ++ none :: tmp) = s := by
  induction s with
  | nil => rfl
  | cons c s ih => simp [text, ih]

@[simp] theorem textAt_toBuf (s : CStr) (i : Nat) : textAt (toBuf s) i = s.drop i := by
  unfold textAt toBuf
  by_cases h : i ≤ s.length
  · rw [List.drop_append_of_le_length (by simpa using h), ← List.map_drop, text_append_none]
  · rw [List.drop_eq_nil_of_le (by simp; omega), List.drop_eq_nil_of_le (by omega)]
    rfl

/-- A NUL at `k` ends the text there, and the text behind it stays. -/
theorem textAt_set {s : CStr} {k : Nat} (hk : k ≤ s.length) (i : Nat) :
    textAt ((toBuf s).set k none) i = if i ≤ k then (s.take k).drop i else s.drop i := by
  have hset : (toBuf s).set k none = (s.take k).map some ++ none :: (toBuf s).drop (k + 1) := by
    rw [List.set_eq_take_append_cons_drop, if_pos (by simp [toBuf]; omega)]
    congr 1
    rw [toBuf, List.take_append_of_le_length (by simpa using hk), List.map_take]
  split
  · rename_i hi
    have hlen : i ≤ ((s.take k).map some).length := by simp; omega
    rw [hset, textAt, List.drop_append_of_le_length hlen, ← List.map_drop, text_append_none]
  · rename_i hi
    rw [textAt, List.drop_set_of_lt (by omega), ← textAt, textAt_toBuf]

theorem textAt_succ {tmp : Buf} {i : Nat} (h : textAt tmp i ≠ []) : textAt tmp (i + 1) = (textAt tmp i).tail := by
  unfold textAt at *
  rw [← List.drop_drop]
  match htmp : tmp.drop i with
  | some c :: tmp' => simp [text]
  | none :: tmp' => simp [htmp, text] at h
  | [] => simp [htmp, text] at h

/-- A text ends with a NUL. -/
theorem textAt_length (tmp : Buf) (i : Nat) : textAt tmp (i + (textAt tmp i).length) = [] := by
  unfold textAt
  rw [← List.drop_drop]
  induction tmp.drop i with
  | nil => simp [text]
  | cons c tmp' ih =>
    match c with
    | none => simp [text]
    | some c => simpa [text] using ih

theorem text_parts (d : Char) (t : CStr) :
    t.takeWhile (· = d) ++ (word d t ++ (t.dropWhile (· = d)).dropWhile (· ≠ d)) = t := by
  rw [word, List.takeWhile_append_dropWhile, List.takeWhile_append_dropWhile]

/-- A text without a word is made of separators. -/
theorem word_eq_nil {d : Char} {s : CStr} : word d s = [] ↔ s.dropWhile (· = d) = [] := by
  constructor
  · intro h
    by_contra hne
    obtain ⟨c, u, hu⟩ := List.exists_cons_of_ne_nil hne
    have hc := List.head?_dropWhile_not (fun c => decide (c = d)) s
    rw [hu] at hc
    have hcd : c ≠ d := by simpa using hc
    rw [word, hu, List.takeWhile_cons_of_pos (by simpa using hcd)] at h
    cases h
  · intro h
    rw [word, h, List.takeWhile_nil]

@[simp] theorem set_length (s : CStr) : (toBuf s).set s.length none = toBuf s := by
  rw [toBuf, List.set_append_right _ _ (by simp)]
  simp

/-- Without a separator to look for, the token is the whole text. -/
theorem strtokR_nil (tmp : Buf) (s : Nat) :
    ∃ last, strtokR tmp s [] = (tmp, if textAt tmp s = [] then none else some s, last) := by
  have hspn : strspn (textAt tmp s) [] = 0 := by simp [strspn]
  have hcspn : strcspn (textAt tmp s) [] = (textAt tmp s).length := by
    rw [strcspn, List.takeWhile_eq_self_iff.2 (by simp)]
  by_cases h : textAt tmp s = []
  · exact ⟨s, by simp [strtokR, strspn, h]⟩
  · exact ⟨s + (textAt tmp s).length, by simp [strtokR, hspn, hcspn, h, textAt_length]⟩

/-- The token that starts at `i` or after it. -/
theorem strtokR_word {s : CStr} {i : Nat} (hi : i ≤ s.length) (d : Char) :
    let t := s.drop i
    let start := i + (t.takeWhile (· = d)).length
    let tmp := (toBuf s).set (start + (word d t).length) none
    if word d t = [] then ∃ tmp' last, strtokR (toBuf s) i [d] = (tmp', none, last)
    else textAt tmp start = word d t ∧
      ∃ last, strtokR (toBuf s) i [d] = (tmp, some start, last) ∧ textAt tmp last = rest d t := by
  intro t start tmp
  have hspn : strspn t [d] = (t.takeWhile (· = d)).length := by simp [strspn]
  have hcspn : strcspn (t.dropWhile (· = d)) [d] = (word d t).length := by simp [strcspn, word]
  have hstart : s.drop start = t.dropWhile (· = d) := by
    rw [← List.drop_drop]
    exact (congrArg _ List.takeWhile_append_dropWhile.symm).trans List.drop_left
  have hu : t.dropWhile (· = d) = word d t ++ (t.dropWhile (· = d)).dropWhile (· ≠ d) :=
    List.takeWhile_append_dropWhile.symm
  have hstop : s.drop (start + (word d t).length) = (t.dropWhile (· = d)).dropWhile (· ≠ d) := by
    rw [← List.drop_drop, hstart]
    exact (congrArg _ hu).trans List.drop_left
  have hlen : start + (word d t).length ≤ s.length := by
    have h1 := congrArg List.length (text_parts d t)
    simp only [List.length_append, t, List.length_drop] at h1
    simp only [start, t]
    omega
  have hrest : s.drop (start + (word d t).length + 1) = rest d t := by
    rw [← List.drop_drop, hstop, List.drop_one, rest]
  have htok : textAt tmp start = word d t := by
    rw [textAt_set hlen, if_pos (by omega), ← List.take_drop, hstart, hu, List.take_left]
  have hrun : strtokR (toBuf s) i [d] = if t.dropWhile (· = d) = [] then (toBuf s, none, start)
      else if (t.dropWhile (· = d)).dropWhile (· ≠ d) = [] then (toBuf s, some start, start + (word d t).length)
      else (tmp, some start, start + (word d t).length + 1) := by
    simp only [strtokR, textAt_toBuf]
    rw [hspn, hstart, hcspn, hstop]
  by_cases hw : word d t = []
  · rw [if_pos hw, hrun, if_pos (word_eq_nil.1 hw)]
    exact ⟨_, _, rfl⟩
  rw [if_neg hw, hrun, if_neg fun h => hw (word_eq_nil.2 h)]
  refine ⟨htok, ?_⟩
  by_cases hR : (t.dropWhile (· = d)).dropWhile (· ≠ d) = []
  · -- the text ends with the word
    rw [hR] at hstop
    have hend : start + (word d t).length = s.length := le_antisymm hlen (List.drop_eq_nil_iff.1 hstop)
    have htmp : toBuf s = tmp := by simp only [tmp, hend, set_length]
    refine ⟨_, by rw [if_pos hR, ← htmp], ?_⟩
    rw [← htmp, textAt_toBuf, hstop, rest, hR, List.tail_nil]
  · refine ⟨_, by rw [if_neg hR], ?_⟩
    rw [textAt_set hlen, if_neg (by omega), hrest]

theorem strchr_eq (s : CStr) (c : Char) :
    strchr s c = if c ∈ s then some (s.takeWhile (· ≠ c)).length else none := by
  unfold strchr
  induction s with
  | nil => simp
  | cons a s ih =>
    rw [List.idxOf?_cons, ih]
    by_cases ha : a = c
    · subst ha; simp
    · by_cases hc : c ∈ s
      · simp [ha, hc]
      · simp [ha, hc, Ne.symm ha]

/-- The text behind the first separator, in the buffer whose first word has been cut out. -/
theorem textAt_after {d : Char} {s : CStr} (hw : word d s ≠ []) :
    textAt ((toBuf s).set ((s.takeWhile (· = d)).length + (word d s).length) none)
      ((s.takeWhile (· ≠ d)).length + 1) = after d s := by
  have hlen : (s.takeWhile (· = d)).length + (word d s).length ≤ s.length := by
    have h1 := congrArg List.length (text_parts d s)
    simp only [List.length_append] at h1
    omega
  have hpos : 0 < (word d s).length := List.length_pos_of_ne_nil hw
  rw [textAt_set hlen, after]
  cases s with
  | nil => simp [word] at hw
  | cons a s =>
    by_cases ha : a = d
    · subst ha
      have hword : word a (a :: s) = word a s := by simp [word]
      have hparts : s.takeWhile (· = a) ++ word a s ++ (s.dropWhile (· = a)).dropWhile (· ≠ a) = s := by
        rw [List.append_assoc]; exact text_parts a s
      rw [if_pos (by simp; omega), hword, List.head?_cons, if_pos rfl, List.tail_cons]
      simp only [decide_true, List.takeWhile_cons_of_pos, ne_eq, not_true_eq_false, decide_false, Bool.false_eq_true,
        not_false_eq_true, List.takeWhile_cons_of_neg, List.length_nil, Nat.zero_add, List.length_cons]
      rw [Nat.add_right_comm, List.take_succ_cons, List.drop_one, List.tail_cons, ← List.length_append]
      exact (congrArg _ hparts.symm).trans List.take_left
    · have hword : word d (a :: s) = (a :: s).takeWhile (· ≠ d) := by simp [word, ha]
      have hlead : (a :: s).takeWhile (· = d) = [] := by simp [ha]
      rw [hword, hlead, if_neg (by simp), if_neg (by simpa using ha), ← List.drop_drop, List.drop_one]
      congr 1
      exact (congrArg _ List.takeWhile_append_dropWhile.symm).trans List.drop_left

/-! ### What the functions return -/

/-- The host of an address, without its brackets. -/
def hostText (addr : CStr) : CStr :=
  match addr with
  | '[' :: addr => word ']' addr
  | addr => word ':' addr

/-- The text that an address gives for the port. -/
def portText (addr : CStr) : Option CStr :=
  match addr with
  | '[' :: addr =>
    match rest ']' addr with
    | ':' :: port => some port
    | _ => none
  | addr => if ':' ∈ addr then some (after ':' addr) else none

theorem hostText_of_ne {addr : CStr} (hb : addr.head? ≠ some '[') : hostText addr = word ':' addr := by
  unfold hostText
  split
  · simp at hb
  · rfl

theorem portText_of_ne {addr : CStr} (hb : addr.head? ≠ some '[') :
    portText addr = if ':' ∈ addr then some (after ':' addr) else none := by
  unfold portText
  split
  · simp at hb
  · rfl

/-- The address is refused: it is empty, it has a bracket that is not closed, or there is no positive number where the
port should be. -/
def Refused (addr : CStr) : Prop :=
  addr = [] ∨ (addr.head? = some '[' ∧ ']' ∉ addr) ∨ (hostText addr ≠ [] ∧ ∃ port ∈ portText addr, atoi port < 1)

instance (addr : CStr) : Decidable (Refused addr) := by unfold Refused; infer_instance

/-- What is returned for the host and the text of the port, if there is one. -/
def parts (host : CStr) (port : Option CStr) : Except Failure (CStr × Int32) :=
  match port with
  | none => .ok (host, defaultPort)
  | some port => if atoi port < 1 then .error .invalid else .ok (host, atoi port)

theorem readPort_eq (tmp : Buf) (s : Nat) (host : CStr) : readPort tmp s host = parts host (textAt tmp (s + 1)) := by
  have hnil : atoi [] < 1 := by decide
  unfold readPort parts
  by_cases h : textAt tmp (s + 1) = []
  · simp [h, hnil]
  · simp [h]

/-- An address in brackets. -/
theorem upscliSplitaddr_bracket {addr : CStr} (hlen : ('[' :: addr).length < smallbuf) (hb : ']' ∈ addr) :
    upscliSplitaddr ('[' :: addr) = if word ']' addr = [] then .error .nullToken
      else parts (word ']' addr) (portText ('[' :: addr)) := by
  have htok := strtokR_word (s := '[' :: addr) (i := 1) (by simp) ']'
  simp only [List.drop_one, List.tail_cons] at htok
  unfold upscliSplitaddr
  rw [snprintf_of_lt hlen]
  simp only [textAt_toBuf, strchr_eq]
  by_cases hw : word ']' addr = []
  · rw [if_pos hw] at htok
    obtain ⟨tmp', last, htok⟩ := htok
    simp [hb, hw, htok, strdup]
    rfl
  rw [if_neg hw] at htok
  obtain ⟨hhost, last, htok, hrest⟩ := htok
  generalize (toBuf ('[' :: addr)).set _ none = tmp at hhost htok hrest
  generalize 1 + (addr.takeWhile (· = ']')).length = start at hhost htok
  obtain ⟨last', hnext⟩ := strtokR_nil tmp last
  simp only [hrest] at hnext
  simp only [portText]
  cases hr : rest ']' addr with
  | nil =>
    simp [hb, hw, htok, strdup, hhost, hnext, hr, parts]
  | cons c port =>
    have hport : textAt tmp (last + 1) = port := by rw [textAt_succ (by simp [hrest, hr]), hrest, hr, List.tail_cons]
    by_cases hc : c = ':'
    · simp [hb, hw, htok, strdup, hhost, hnext, hrest, hr, hc, readPort_eq, hport]
      rfl
    · simp [hb, hw, htok, strdup, hhost, hnext, hrest, hr, hc, parts]

/-- Any other address. -/
theorem upscliSplitaddr_plain {addr : CStr} (hlen : addr.length < smallbuf) (hne : addr ≠ [])
    (hb : addr.head? ≠ some '[') :
    upscliSplitaddr addr = if word ':' addr = [] then .error .nullToken else parts (word ':' addr) (portText addr) := by
  have htok := strtokR_word (s := addr) (i := 0) (by simp) ':'
  simp only [List.drop_zero, Nat.zero_add] at htok
  unfold upscliSplitaddr
  rw [snprintf_of_lt hlen, portText_of_ne hb]
  simp only [textAt_toBuf, strchr_eq]
  by_cases hw : word ':' addr = []
  · rw [if_pos hw] at htok
    obtain ⟨tmp', last, htok⟩ := htok
    simp [hb, hne, hw, htok, strdup]
    rfl
  rw [if_neg hw] at htok
  obtain ⟨hhost, last, htok, -⟩ := htok
  by_cases hc : ':' ∈ addr
  · have hafter := textAt_after hw
    simp only [ne_eq, decide_not] at hafter
    simp [hb, hne, hw, htok, strdup, hhost, hc, readPort_eq, hafter]
    rfl
  · simp [hb, hne, hw, htok, strdup, hhost, hc, parts]

theorem upscliSplitaddr_eq {buf : CStr} (hlen : buf.length < smallbuf) :
    upscliSplitaddr buf = if buf = [] ∨ (buf.head? = some '[' ∧ ']' ∉ buf) then .error .invalid
      else if hostText buf = [] then .error .nullToken else parts (hostText buf) (portText buf) := by
  by_cases hne : buf = []
  · subst hne; rfl
  by_cases hb : buf.head? = some '['
  · obtain ⟨addr, rfl⟩ := List.head?_eq_some_iff.1 hb
    by_cases hc : ']' ∈ addr
    · have hopen : ¬('[' :: addr = [] ∨ ('[' :: addr).head? = some '[' ∧ ']' ∉ '[' :: addr) := by simp [hc]
      rw [upscliSplitaddr_bracket hlen hc, if_neg hopen, hostText]
    · rw [if_pos (by simp [hc])]
      unfold upscliSplitaddr
      rw [snprintf_of_lt hlen]
      simp [strchr_eq, hc]
      rfl
  · have hopen : ¬(buf = [] ∨ buf.head? = some '[' ∧ ']' ∉ buf) := by simp [hne, hb]
    rw [upscliSplitaddr_plain hlen hne hb, if_neg hopen, hostText_of_ne hb]

theorem upscliSplitaddr_invalid {buf : CStr} (hlen : buf.length < smallbuf) :
    upscliSplitaddr buf = .error .invalid ↔ Refused buf := by
  rw [upscliSplitaddr_eq hlen, Refused, ← or_assoc]
  split
  · rename_i h; exact iff_of_true rfl (.inl h)
  rename_i h
  simp only [h, false_or]
  split
  · rename_i hw; simp [hw]
  · rename_i hw
    cases hp : portText buf with
    | none => simp [parts]
    | some port =>
      by_cases hport : atoi port < 1
      · simp [parts, hport, hw]
      · simp [parts, hport]

theorem upscliSplitname_eq {buf : CStr} (hlen : buf.length < smallbuf) :
    upscliSplitname buf = if buf = [] then .error .invalid else if word '@' buf = [] then .error .nullToken
      else if '@' ∈ buf then do
        let (hostname, port) ← upscliSplitaddr (after '@' buf)
        return ⟨word '@' buf, hostname, port⟩
      else .ok ⟨word '@' buf, "localhost".toList, defaultPort⟩ := by
  have htok := strtokR_word (s := buf) (i := 0) (by simp) '@'
  simp only [List.drop_zero, Nat.zero_add] at htok
  by_cases hne : buf = []
  · subst hne; rfl
  unfold upscliSplitname
  rw [snprintf_of_lt hlen]
  simp only [textAt_toBuf, strchr_eq, List.drop_zero]
  by_cases hw : word '@' buf = []
  · rw [if_pos hw] at htok
    obtain ⟨tmp', last, htok⟩ := htok
    simp [hne, hw, htok, strdup]
    rfl
  rw [if_neg hw] at htok
  obtain ⟨hhost, last, htok, -⟩ := htok
  by_cases hc : '@' ∈ buf
  · have hafter := textAt_after hw
    simp only [ne_eq, decide_not] at hafter
    simp [hne, hw, htok, strdup, hhost, hc, hafter]
    rfl
  · simp [hne, hw, htok, strdup, hhost, hc]

/-- The names that are refused: the empty one, and those whose address is. -/
def RefusedName (s : CStr) : Prop := s = [] ∨ ('@' ∈ s ∧ word '@' s ≠ [] ∧ Refused (after '@' s))

instance (s : CStr) : Decidable (RefusedName s) := by unfold RefusedName; infer_instance

theorem length_after_le (d : Char) (s : CStr) : (after d s).length ≤ s.length := by
  unfold after
  split
  · have h1 := congrArg List.length (text_parts d s.tail)
    rename_i hd
    obtain ⟨s, rfl⟩ := List.head?_eq_some_iff.1 hd
    have hword : word d (d :: s) = word d s := by simp [word]
    simp only [List.length_append, List.tail_cons] at h1
    simp only [hword, List.tail_cons, List.length_append, List.length_cons]
    omega
  · have := List.length_dropWhile_le (· ≠ d) s
    simp only [List.length_tail]
    omega

theorem upscliSplitname_invalid {s : CStr} (hlen : s.length < smallbuf) :
    upscliSplitname s = .error .invalid ↔ RefusedName s := by
  have haddr : (after '@' s).length < smallbuf := lt_of_le_of_lt (length_after_le _ _) hlen
  rw [upscliSplitname_eq hlen, RefusedName, ← upscliSplitaddr_invalid haddr]
  by_cases hne : s = []
  · simp [hne]
  by_cases hw : word '@' s = []
  · simp [hne, hw]
  by_cases hc : '@' ∈ s
  · cases hsplit : upscliSplitaddr (after '@' s) with
    | error e => simp [hne, hw, hc]
    | ok parts => simp [hne, hw, hc]
  · simp [hne, hw, hc]

/-! ### The grammar -/

/-- Decimal digits for a port from 1 to 65535. -/
structure IsPort (s : CStr) (port : Int32) : Prop where
  digits : ∀ c ∈ s, c.isDigit = true
  value : (Nat.ofDigitChars 10 s 0 : Int) = port.toInt
  range : 1 ≤ port.toInt ∧ port.toInt ≤ 65535

/-- A host as it is written, and the host that it names: a plain one, or a literal in brackets. -/
inductive IsHost : CStr → CStr → Prop
  | plain {host : CStr} : host ≠ [] → (∀ c ∈ host, c ∉ ['@', ':', '[', ']']) → IsHost host host
  | literal {host : CStr} : host ≠ [] → (∀ c ∈ host, c ∉ ['@', '[', ']']) → IsHost ('[' :: (host ++ [']'])) host

/-- The names of the grammar, `upsname[@hostname[:port]]`, with their parts. -/
inductive IsName : CStr → Parts → Prop
  | upsname {ups : CStr} : ups ≠ [] → '@' ∉ ups → IsName ups ⟨ups, "localhost".toList, defaultPort⟩
  | host {ups written host : CStr} : ups ≠ [] → '@' ∉ ups → IsHost written host →
      IsName (ups ++ '@' :: written) ⟨ups, host, defaultPort⟩
  | port {ups written host digits : CStr} {port : Int32} : ups ≠ [] → '@' ∉ ups → IsHost written host →
      IsPort digits port → IsName (ups ++ '@' :: (written ++ ':' :: digits)) ⟨ups, host, port⟩

theorem dropWhile_sep {d : Char} {u t : CStr} (hne : u ≠ []) (hd : d ∉ u) : (u ++ t).dropWhile (· = d) = u ++ t := by
  obtain ⟨c, u, rfl⟩ := List.exists_cons_of_ne_nil hne
  have hc : c ≠ d := fun h => hd (by simp [h])
  rw [List.cons_append, List.dropWhile_cons_of_neg (by simpa using hc)]

theorem mem_ne {d : Char} {u : CStr} (hd : d ∉ u) : ∀ c ∈ u, decide (c ≠ d) = true := by
  intro c hc
  rw [decide_eq_true_iff]
  rintro rfl
  exact hd hc

theorem word_self {d : Char} {u : CStr} (hne : u ≠ []) (hd : d ∉ u) : word d u = u := by
  have hdrop := dropWhile_sep (t := []) hne hd
  rw [List.append_nil] at hdrop
  rw [word, hdrop, List.takeWhile_eq_self_iff.2 (mem_ne hd)]

theorem word_append {d : Char} {u : CStr} (hne : u ≠ []) (hd : d ∉ u) (t : CStr) : word d (u ++ d :: t) = u := by
  rw [word, dropWhile_sep hne hd, List.takeWhile_append_of_pos (mem_ne hd), List.takeWhile_cons_of_neg (by simp),
    List.append_nil]

theorem rest_append {d : Char} {u : CStr} (hne : u ≠ []) (hd : d ∉ u) (t : CStr) : rest d (u ++ d :: t) = t := by
  rw [rest, dropWhile_sep hne hd, List.dropWhile_append_of_pos (mem_ne hd), List.dropWhile_cons_of_neg (by simp),
    List.tail_cons]

theorem after_append {d : Char} {u : CStr} (hne : u ≠ []) (hd : d ∉ u) (t : CStr) : after d (u ++ d :: t) = t := by
  obtain ⟨c, u, rfl⟩ := List.exists_cons_of_ne_nil hne
  have hc : c ≠ d := fun h => hd (by simp [h])
  rw [after, List.cons_append, List.head?_cons, if_neg (by simpa using hc), ← List.cons_append,
    List.dropWhile_append_of_pos (mem_ne hd), List.dropWhile_cons_of_neg (by simp), List.tail_cons]

theorem IsPort.atoi {s : CStr} {port : Int32} (h : IsPort s port) : atoi s = port := by
  have hne : s ≠ [] := by
    rintro rfl
    have := h.value
    have := h.range
    simp at *
    omega
  have hval := h.value
  have hrange := h.range
  have hread : strtol (s ++ []) = _ := strtol_digits hne h.digits (by simp)
  rw [List.append_nil] at hread
  have hmin : strtol s = port.toInt := by omega
  rw [Nut.atoi, hmin, Int32.ofInt_toInt]

theorem IsHost.ne_nil {written host : CStr} (h : IsHost written host) : written ≠ [] ∧ host ≠ [] := by
  cases h with
  | plain hne _ => exact ⟨hne, hne⟩
  | literal hne _ => exact ⟨by simp, hne⟩

/-- A host of the grammar is read as it is meant, with or without a port behind it. -/
theorem IsHost.texts {written host : CStr} (h : IsHost written host) (digits : CStr) :
    (hostText written = host ∧ portText written = none) ∧
      hostText (written ++ ':' :: digits) = host ∧ portText (written ++ ':' :: digits) = some digits := by
  cases h with
  | plain hne hhost =>
    have hc : ':' ∉ written := fun hm => hhost _ hm (by simp)
    have hb : ∀ tail, (written ++ tail).head? ≠ some '[' := by
      obtain ⟨c, u, rfl⟩ := List.exists_cons_of_ne_nil hne
      intro tail hhead
      exact hhost c (by simp) (by simp_all)
    have hb' := hb []
    rw [List.append_nil] at hb'
    refine ⟨⟨?_, ?_⟩, ?_, ?_⟩
    · rw [hostText_of_ne hb', word_self hne hc]
    · rw [portText_of_ne hb', if_neg hc]
    · rw [hostText_of_ne (hb _), word_append hne hc]
    · rw [portText_of_ne (hb _), if_pos (by simp), after_append hne hc]
  | literal hne hhost =>
    have hb : ']' ∉ host := fun hm => hhost _ hm (by simp)
    have hword := word_append hne hb
    have hrest := rest_append hne hb
    refine ⟨⟨hword _, ?_⟩, ?_, ?_⟩
    · simp [portText, hrest]
    · simp [hostText, hword]
    · simp [portText, hrest]

theorem IsHost.accepted {written host : CStr} (h : IsHost written host) (tail : CStr) :
    ¬(written ++ tail = [] ∨ ((written ++ tail).head? = some '[' ∧ ']' ∉ written ++ tail)) := by
  cases h with
  | plain hne hhost =>
    obtain ⟨c, host, rfl⟩ := List.exists_cons_of_ne_nil hne
    have hb : c ≠ '[' := fun hm => hhost c (by simp) (by simp [hm])
    simp [hb]
  | literal hne hhost => simp

theorem IsHost.splitaddr {written host : CStr} (h : IsHost written host) (hlen : written.length < smallbuf) :
    upscliSplitaddr written = .ok (host, defaultPort) := by
  have haccepted := h.accepted []
  rw [List.append_nil] at haccepted
  obtain ⟨⟨hhost, hport⟩, -⟩ := h.texts []
  rw [upscliSplitaddr_eq hlen, if_neg haccepted, hhost, if_neg h.ne_nil.2, hport, parts]

theorem IsHost.splitaddr_port {written host digits : CStr} {port : Int32} (h : IsHost written host)
    (hport : IsPort digits port) (hlen : (written ++ ':' :: digits).length < smallbuf) :
    upscliSplitaddr (written ++ ':' :: digits) = .ok (host, port) := by
  obtain ⟨-, hhost, htext⟩ := h.texts digits
  have hpos : ¬port < 1 := by
    have := hport.range
    rw [Int32.lt_iff_toInt_lt]
    simp; omega
  rw [upscliSplitaddr_eq hlen, if_neg (h.accepted _), hhost, if_neg h.ne_nil.2, htext, parts, hport.atoi, if_neg hpos]

/-- A name of the grammar is split into its parts. -/
theorem IsName.split {s : CStr} {parts : Parts} (h : IsName s parts) (hlen : s.length < smallbuf) :
    upscliSplitname s = .ok parts := by
  rw [upscliSplitname_eq hlen]
  cases h with
  | upsname hne hat => simp [hne, word_self hne hat, hat]
  | @host ups written host hne hat hhost =>
    have haddr : written.length < smallbuf := by simp at hlen; omega
    have hsplit := hhost.splitaddr haddr
    simp [hne, word_append hne hat, after_append hne hat, hsplit]
  | @port ups written host digits port hne hat hhost hport =>
    have haddr : (written ++ ':' :: digits).length < smallbuf := by simp at hlen ⊢; omega
    have hsplit := hhost.splitaddr_port hport haddr
    simp [hne, word_append hne hat, after_append hne hat, hsplit]

/-- The functions are right about a name: they split it if and only if it is one of the grammar, into its parts, and
return -1 otherwise. -/
def SplitRight (s : CStr) : Prop :=
  (∀ parts, IsName s parts → upscliSplitname s = .ok parts) ∧
    ((∀ parts, ¬IsName s parts) → upscliSplitname s = .error .invalid)

theorem split_right {s : CStr} (hlen : s.length < smallbuf) :
    SplitRight s ↔ (∃ parts, IsName s parts) ∨ RefusedName s := by
  rw [← upscliSplitname_invalid hlen]
  constructor
  · rintro ⟨-, hother⟩
    by_cases h : ∃ parts, IsName s parts
    · exact .inl h
    · exact .inr (hother fun parts hp => h ⟨parts, hp⟩)
  · rintro (⟨parts, hp⟩ | hinvalid)
    · exact ⟨fun _ h => h.split hlen, fun hnone => absurd hp (hnone parts)⟩
    · exact ⟨fun _ h => h.split hlen, fun _ => hinvalid⟩

theorem split_right_port : SplitRight "ups@[::1]:0".toList :=
  (split_right (by decide)).2 (.inr (by decide +kernel))

/-- The word before the separator is looked for without a check that there is one. -/
theorem split_separator : ¬SplitRight "@".toList := by
  have hsplit : upscliSplitname "@".toList = .error .nullToken := by rfl
  rintro ⟨hname, hother⟩
  rw [hsplit] at hname hother
  have hnone : ∀ parts, ¬IsName "@".toList parts := by
    intro parts h
    cases hname parts h
  cases hother hnone

/-- The port is read up to the first character that is not a digit. -/
example : upscliSplitname "ups@host:12abc".toList = .ok ⟨"ups".toList, "host".toList, 12⟩ := by rfl

end Nut.Splitname
