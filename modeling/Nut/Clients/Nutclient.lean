import Nut.Common.Lines

/-!
# The words of the C++ and the Java client

`nutclient.cpp` splits an answer into words with `TcpClient::explode` and quotes an argument with `TcpClient::escape`; the
Java client does the same with `splitNameValueString`, `extractDoublequotedValue` and `escape`.  Both quote as the encoder of
`upsd` does, except that `#` stays as it is: `upsd` reads a quoted argument back, and goes on with the next command, exactly
when there is no `#` in it (`clients_escape_iff`).
-/

namespace Nut

open ChunkReader Lexer

/-! ### The C++ client -/

namespace TcpClient

/-- The states of `explode`. -/
inductive Explode where
  | init
  | simpleString
  | quotedString
  | simpleEscape
  | quotedEscape
  deriving DecidableEq

/-- What `'\\' + c` is as a character: the sum of the two codes. -/
def slashPlus (c : Char) : Char := Char.ofNat ((92 + c.toNat) % 256)

/-- One character: the words so far, the word `temp`, and the state. -/
def explodeStep (r : List CStr × CStr × Explode) (c : Char) : List CStr × CStr × Explode :=
  match r with
  | (res, temp, .init) =>
    if c = ' ' then (res, temp, .init)
    else if c = '"' then (res, temp, .quotedString)
    else if c = '\\' then (res, temp, .simpleEscape)
    else (res, temp ++ [c], .simpleString)
  | (res, temp, .simpleString) =>
    if c = ' ' then (res ++ [temp], [], .init)
    else if c = '\\' then (res, temp, .simpleEscape)
    else if c = '"' then (res ++ [temp], [], .quotedString)
    else (res, temp ++ [c], .simpleString)
  | (res, temp, .quotedString) =>
    if c = '\\' then (res, temp, .quotedEscape)
    else if c = '"' then (res ++ [temp], [], .init)
    else (res, temp ++ [c], .quotedString)
  | (res, temp, .simpleEscape) =>
    if c = '\\' ∨ c = '"' ∨ c = ' ' then (res, temp ++ [c], .simpleString) else (res, temp ++ [slashPlus c], .simpleString)
  | (res, temp, .quotedEscape) =>
    if c = '\\' ∨ c = '"' then (res, temp ++ [c], .quotedString) else (res, temp ++ [slashPlus c], .quotedString)

def explode (str : CStr) (begin : Nat) : List CStr :=
  match (str.drop begin).foldl explodeStep ([], [], .init) with
  | (res, temp, _) => if temp ≠ [] then res ++ [temp] else res

def escape (str : CStr) : CStr :=
  str.foldl (fun res c =>
    if c = '"' then res ++ ['\\', '"']
    else if c = '\\' then res ++ ['\\', '\\']
    else res ++ [c]) ['"'] ++ ['"']

/-- The query of `setDeviceVariable`; with one value it is the query for that value. -/
def setDeviceVariable (dev name : CStr) (values : List CStr) : CStr :=
  values.foldl (fun query value => query ++ ' ' :: escape value) ("SET VAR ".toList ++ dev ++ ' ' :: name)

end TcpClient

/-! ### The Java client -/

namespace JNut

/-- `replaceAll` for a regular expression that matches the text `pat` only; `skip` characters of a match are left. -/
def replaceFrom (pat rep : CStr) : Nat → CStr → CStr
  | _, [] => []
  | skip + 1, _ :: s => replaceFrom pat rep skip s
  | 0, c :: s =>
    if pat <+: c :: s then rep ++ replaceFrom pat rep (pat.length - 1) s else c :: replaceFrom pat rep 0 s

def replaceAll (str pat rep : CStr) : CStr := replaceFrom pat rep 0 str

def escape (str : CStr) : CStr := replaceAll (replaceAll str ['\\'] ['\\', '\\']) ['"'] ['\\', '"']

def unescape (str : CStr) : CStr := replaceAll (replaceAll str ['\\', '"'] ['"']) ['\\', '\\'] ['\\']

/-- Without a result for a text that is not in quotes; on a single quote `substring` fails. -/
def extractDoublequotedValue (source : CStr) : Option CStr :=
  if ¬(['"'] <+: source ∧ ['"'] <:+ source) then none
  else if source.length < 2 then none
  else some (unescape ((source.take (source.length - 1)).drop 1))

def splitNameValueString (source : CStr) : Option (List CStr) :=
  let pos := source.idxOf ' '
  if pos < 1 ∨ source.length ≤ pos then none
  else (extractDoublequotedValue (source.drop (pos + 1))).map fun value => [source.take pos, value]

def merge (str : CStr) (strings : List CStr) : CStr := strings.foldl (fun res s => res ++ ' ' :: s) str

/-- The query of `Variable.setValue`. -/
def setValue (device name value : CStr) : CStr :=
  merge "SET".toList ["VAR".toList, device, name, ' ' :: '"' :: escape value ++ ['"']]

end JNut

/-! ### The quoted word of both clients -/

/-- The text with a backslash before quotes and backslashes. -/
def slashed (s : CStr) : CStr := s.flatMap fun c => if c = '"' ∨ c = '\\' then ['\\', c] else [c]

private theorem slashed_cons (c : Char) (s : CStr) :
    slashed (c :: s) = (if c = '"' ∨ c = '\\' then ['\\', c] else [c]) ++ slashed s := by
  simp [slashed]

private theorem foldl_escape (s res : CStr) :
    s.foldl (fun res c =>
      if c = '"' then res ++ ['\\', '"']
      else if c = '\\' then res ++ ['\\', '\\']
      else res ++ [c]) res = res ++ slashed s := by
  induction s generalizing res with
  | nil => simp [slashed]
  | cons c s ih =>
    rw [List.foldl_cons, ih, slashed_cons]
    by_cases hq : c = '"'
    · simp [hq]
    · by_cases hb : c = '\\'
      · simp [hb]
      · simp [hq, hb]

theorem tcpClient_escape (s : CStr) : TcpClient.escape s = '"' :: slashed s ++ ['"'] := by
  rw [TcpClient.escape, foldl_escape]
  simp

private theorem replaceAll_singleton (c : Char) (rep s : CStr) :
    JNut.replaceAll s [c] rep = s.flatMap fun d => if d = c then rep else [d] := by
  unfold JNut.replaceAll
  induction s with
  | nil => rfl
  | cons d s ih =>
    rw [JNut.replaceFrom, List.flatMap_cons, List.length_singleton, Nat.sub_self, ih]
    by_cases hd : d = c
    · simp [hd]
    · have hne : ¬c = d := fun h => hd h.symm
      simp [hd, hne, List.cons_prefix_cons]

theorem jNut_escape (s : CStr) : JNut.escape s = slashed s := by
  rw [JNut.escape, replaceAll_singleton, replaceAll_singleton, List.flatMap_assoc, slashed]
  congr 1
  funext c
  by_cases hb : c = '\\'
  · simp [hb]
  · by_cases hq : c = '"'
    · simp [hq]
    · simp [hq, hb]

private theorem slashed_of_no_hash {s : CStr} (h : '#' ∉ s) : slashed s = Nut.escape s := by
  induction s with
  | nil => rfl
  | cons c s ih =>
    rw [List.mem_cons, not_or] at h
    rw [slashed_cons, escape_cons, ih h.2]
    have hc : ¬c = '#' := Ne.symm h.1
    simp [pconfEscape, hc, or_comm]

/-! ### How `upsd` reads it -/

/-- The parser hands over `args` for the line, and reads what follows as if there had been no line before, in whatever
pieces the bytes arrive. -/
structure Decodes (ctx : PconfCtx) (line : CStr) (args : List CStr) : Prop where
  args : ∀ cs tail next more, cs.flatten ++ tail = line ++ ['\n'] →
    (readChunks pconfStep ctx (cs ++ (tail ++ next) :: more)).2.map (fun p => p.2.take p.1) =
      args :: (readChunks pconfStep pconfInit (next :: more)).2.map (fun p => p.2.take p.1)
  noError : afterReject pconfStep ctx (line ++ ['\n']) = none

theorem Decodes.of_readsAs {ctx : PconfCtx} (hctx : AtLineStart ctx) {line : CStr} {args : List CStr}
    (h : ReadsAs step start (line ++ ['\n']) start args) : Decodes ctx line args where
  args := by
    intro cs tail next more hcut
    rw [readChunks_args hctx, readChunks_args atLineStart_pconfInit, h.readChunks hcut]
  noError := by
    have hnone := (@ReadsAs.readChunk _ _ _ step _ _ _ [] _ h).2
    rw [List.append_nil] at hnone
    rw [(readChunk_overlays hctx _).2.2, hnone]
    rfl

/-- A line in which a character is rejected is not read at all. -/
theorem not_decodes_of_reject {ctx : PconfCtx} (hctx : AtLineStart ctx) {line rest : CStr} {l t : Lexer} {c : Char}
    {args : List CStr} (hl : silent step start line = some l) (hc : step l c = (t, .reject)) :
    ¬Decodes ctx (line ++ c :: rest) args := by
  intro h
  have hnone := h.noError
  rw [(readChunk_overlays hctx _).2.2, List.append_assoc, (readChunk_silent hl _).2] at hnone
  simp [afterReject, hc] at hnone

section

variable {ctx : PconfCtx} {before s : CStr} {ws : List CStr}

/-- The quoted word of the two clients. -/
private theorem decodes_slashed_iff (hctx : AtLineStart ctx) (hb : silent step start before = some ⟨ws, [], .between⟩)
    (hws : ws.length < pconfDefaultArgLimit) (hs : Kept s) (hlen : s.length ≤ pconfDefaultWordlenLimit) :
    Decodes ctx (before ++ ('"' :: slashed s ++ ['"'])) (ws ++ [s]) ↔ '#' ∉ s := by
  constructor
  · intro h hmem
    -- the first `#` is met in quotes
    obtain ⟨p, q, rfl, hp⟩ := List.eq_append_cons_of_mem hmem
    have hopen : step ⟨ws, [], .between⟩ '"' = (⟨ws, [], .quoted⟩, .more) := rfl
    have hkept : Kept p := fun c hc => hs c (by simp [hc])
    have hbody := silent_escape ws [] hkept (by simp at hlen ⊢; omega)
    rw [← slashed_of_no_hash hp] at hbody
    have hline : silent step start (before ++ ('"' :: slashed p)) = some ⟨ws, [] ++ p, .quoted⟩ := by
      rw [silent_append hb, silent, hopen]
      exact hbody
    have hreject : step ⟨ws, [] ++ p, .quoted⟩ '#' = (start, .reject) := rfl
    have hsplit : slashed (p ++ '#' :: q) = slashed p ++ '#' :: slashed q := by simp [slashed]
    have hbad : Decodes ctx ((before ++ ('"' :: slashed p)) ++ '#' :: (slashed q ++ ['"'])) (ws ++ [p ++ '#' :: q]) := by
      simpa [hsplit] using h
    exact not_decodes_of_reject hctx hline hreject hbad
  · intro h
    refine .of_readsAs hctx ?_
    rw [slashed_of_no_hash h, List.append_assoc]
    exact .of_silent hb (.of_silent (silent_quoted ws hs hlen hws) (readsAs_newline _))

/-- `upsd` reads a quoted argument of either client, after any words of a command, exactly when there is no `#` in it. -/
theorem clients_escape_iff (hctx : AtLineStart ctx) (hb : silent step start before = some ⟨ws, [], .between⟩)
    (hws : ws.length < pconfDefaultArgLimit) (hs : Printable s) (hlen : s.length ≤ 512) :
    (Decodes ctx (before ++ TcpClient.escape s) (ws ++ [s]) ↔ '#' ∉ s) ∧
      (Decodes ctx (before ++ ('"' :: JNut.escape s ++ ['"'])) (ws ++ [s]) ↔ '#' ∉ s) := by
  rw [tcpClient_escape, jNut_escape]
  exact ⟨decodes_slashed_iff hctx hb hws hs.kept hlen, decodes_slashed_iff hctx hb hws hs.kept hlen⟩

/-- The words of a command before the value. -/
private theorem silent_setVar {dev name : CStr} (hdev : PlainWord dev) (hname : PlainWord name)
    (hd : dev.length ≤ pconfDefaultWordlenLimit) (hn : name.length ≤ pconfDefaultWordlenLimit) :
    silent step start ("SET VAR ".toList ++ dev ++ ' ' :: name ++ [' ']) =
      some ⟨["SET".toList, "VAR".toList, dev, name], [], .between⟩ := by
  have hcmd : silent step start "SET VAR ".toList = some ⟨["SET".toList, "VAR".toList], [], .between⟩ := by decide
  have hsplit : "SET VAR ".toList ++ dev ++ ' ' :: name ++ [' '] = "SET VAR ".toList ++ ((dev ++ [' ']) ++ (name ++ [' '])) := by
    simp only [List.append_assoc, List.cons_append, List.nil_append]
  rw [hsplit, silent_append hcmd, silent_append (silent_word _ hdev hd (by decide)),
    silent_word _ hname hn (by simp [pconfDefaultArgLimit])]
  rfl

/-- The commands with which the two clients set a variable. -/
theorem set_variable_iff (hctx : AtLineStart ctx) {dev name : CStr} (hdev : PlainWord dev) (hname : PlainWord name)
    (hd : dev.length ≤ pconfDefaultWordlenLimit) (hn : name.length ≤ pconfDefaultWordlenLimit) (hs : Kept s)
    (hlen : s.length ≤ pconfDefaultWordlenLimit) :
    (Decodes ctx (TcpClient.setDeviceVariable dev name [s]) ["SET".toList, "VAR".toList, dev, name, s] ↔ '#' ∉ s) ∧
      (Decodes ctx (JNut.setValue dev name s) ["SET".toList, "VAR".toList, dev, name, s] ↔ '#' ∉ s) := by
  have hbefore := silent_setVar hdev hname hd hn
  have hblank : silent step ⟨["SET".toList, "VAR".toList, dev, name], [], .between⟩ [' '] =
      some ⟨["SET".toList, "VAR".toList, dev, name], [], .between⟩ := rfl
  have hfew : ["SET".toList, "VAR".toList, dev, name].length < pconfDefaultArgLimit := by simp [pconfDefaultArgLimit]
  constructor
  · have hcpp := decodes_slashed_iff hctx hbefore hfew hs hlen
    rw [← tcpClient_escape] at hcpp
    have hquery : TcpClient.setDeviceVariable dev name [s] =
        ("SET VAR ".toList ++ dev ++ ' ' :: name ++ [' ']) ++ TcpClient.escape s := by
      simp only [TcpClient.setDeviceVariable, List.foldl_cons, List.foldl_nil, List.append_assoc, List.cons_append,
        List.nil_append]
    rw [hquery]
    exact hcpp
  · have hjava := decodes_slashed_iff hctx ((silent_append hbefore).trans hblank) hfew hs hlen
    rw [← jNut_escape] at hjava
    have hset : "SET VAR ".toList = "SET".toList ++ ' ' :: "VAR".toList ++ [' '] := rfl
    have hquery : JNut.setValue dev name s = ("SET VAR ".toList ++ dev ++ ' ' :: name ++ [' '] ++ [' ']) ++
        ('"' :: JNut.escape s ++ ['"']) := by
      simp only [JNut.setValue, JNut.merge, List.foldl_cons, List.foldl_nil, hset, List.append_assoc, List.cons_append,
        List.nil_append]
    rw [hquery]
    exact hjava

end

/-- Neither client gets the value `a#b` to `upsd`. -/
theorem clients_escape_hash :
    ¬(∀ ctx, AtLineStart ctx → ∀ before ws, silent step start before = some ⟨ws, [], .between⟩ →
      ws.length < pconfDefaultArgLimit → ∀ s, Printable s → s.length ≤ 512 →
        Decodes ctx (before ++ TcpClient.escape s) (ws ++ [s]) ∧
          Decodes ctx (before ++ ('"' :: JNut.escape s ++ ['"'])) (ws ++ [s])) := by
  intro h
  have hquery : "SET VAR u x ".toList ++ TcpClient.escape "a#b".toList =
      TcpClient.setDeviceVariable ['u'] ['x'] ["a#b".toList] := by decide
  have hread := (h pconfInit atLineStart_pconfInit "SET VAR u x ".toList ["SET".toList, "VAR".toList, ['u'], ['x']]
    (by decide) (by decide) "a#b".toList (by decide) (by decide)).1
  rw [hquery] at hread
  have hset := @set_variable_iff pconfInit "a#b".toList atLineStart_pconfInit ['u'] ['x'] (by decide) (by decide) (by decide)
    (by decide) (by decide) (by decide)
  exact hset.1.1 hread (by decide)

theorem clients_escape_quote :
    (Decodes pconfInit "SET VAR u x \"a\\\"b\"".toList ["SET".toList, "VAR".toList, ['u'], ['x'], "a\"b".toList] ↔ '#' ∉ "a\"b".toList) ∧
      (Decodes pconfInit "SET VAR u x \"a\\\"b\"".toList ["SET".toList, "VAR".toList, ['u'], ['x'], "a\"b".toList] ↔
        '#' ∉ "a\"b".toList) :=
  @clients_escape_iff pconfInit "SET VAR u x ".toList "a\"b".toList ["SET".toList, "VAR".toList, ['u'], ['x']]
    atLineStart_pconfInit (by decide) (by decide) (by decide) (by decide)

end Nut
