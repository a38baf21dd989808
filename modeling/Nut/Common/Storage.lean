import Nut.Common.Lexer
import Nut.Lib.Memory

/-!
# `parseconf.c`: the storage of a context

The word buffer, the slots of `arglist` and their sizes live as long as the context; they grow with `realloc`, whose new
memory holds anything, and never shrink.  Here they are blocks of memory, and a word is what stands before the first NUL.

* What the other modules say of a context holds of its storage: `Context.abs` is a context of `Nut.Common.Parseconf`, and
  every character does to it what `Nut.pconfChar` does (`pconfChar_abs`).
* At the start of a line nothing of the lines before is left in what the parser reads (`context_forgets`).

There is no result where a block is left or a string does not end.
-/

namespace Nut.Storage

open Memory

/-- `PCONF_CTX_t`; a slot of `arglist` is `none` for a null pointer. -/
structure Context where
  state : PState
  numargs : Nat
  maxargs : Nat
  argLimit : Nat
  wordlenLimit : Nat
  linenum : Nat
  error : Bool
  errmsg : CStr
  arglist : List (Option (List Char))
  argsize : List Nat
  wordbuf : List Char
  wordbufsize : Nat
  wordptr : Nat

/-- The array for the message is not initialised. -/
def pconfInit (errmsg : CStr) : Context where
  state := .findwordstart
  numargs := 0
  maxargs := 0
  argLimit := pconfDefaultArgLimit
  wordlenLimit := pconfDefaultWordlenLimit
  linenum := 0
  error := false
  errmsg := errmsg
  arglist := []
  argsize := []
  wordbuf := List.replicate 16 '\x00'
  wordbufsize := 16
  wordptr := 0

def strlen (mem : List Char) : Option Nat := if '\x00' ∈ mem then some (text '\x00' mem).length else none

/-- `strncpy` of as many characters as the string has. -/
def strncpy (dst src : List Char) (n : Nat) : Option (List Char) := write dst 0 ((text '\x00' src).take n)

section Steps

variable (junk : Nat → Char)

/-- The part of `add_arg_word` for the slot of the word: its storage grows if need be, and the word is copied. -/
def storeWord (slot : Option (List Char)) (size : Nat) (wordbuf : List Char) : Option (List Char × Nat) := do
  let wbuflen ← strlen wordbuf
  let (slot, size) :=
    if size ≤ wbuflen then (some (resize junk (slot.getD []) (wbuflen + 1)), wbuflen + 1) else (slot, size)
  let block ← slot
  let block ← write block 0 (List.replicate size '\x00')
  let block ← strncpy block wordbuf wbuflen
  some (block, size)

def addArgWord (ctx : Context) : Option Context := do
  let argpos := ctx.numargs
  let ctx := { ctx with numargs := ctx.numargs + 1 }
  let ctx :=
    if ctx.maxargs < ctx.numargs then
      { ctx with
        maxargs := ctx.numargs
        arglist := (resize (fun _ => none) ctx.arglist ctx.numargs).set argpos none
        argsize := (resize (fun _ => 0) ctx.argsize ctx.numargs).set argpos 0 }
    else ctx
  let slot ← ctx.arglist[argpos]?
  let size ← ctx.argsize[argpos]?
  let (block, size) ← storeWord junk slot size ctx.wordbuf
  some { ctx with arglist := ctx.arglist.set argpos (some block), argsize := ctx.argsize.set argpos size }

/-- The part of `addchar` that makes room for a character and the terminator. -/
def growWordbuf (ctx : Context) (wbuflen : Nat) : Context :=
  if ctx.wordbufsize - 1 ≤ wbuflen then
    { ctx with
      wordbufsize := ctx.wordbufsize + 8
      wordbuf := resize junk ctx.wordbuf (ctx.wordbufsize + 8)
      wordptr := wbuflen }
  else ctx

/-- The part of `addchar` that stores the character. -/
def storeChar (ctx : Context) (ch : Char) : Option Context := do
  let wordbuf ← write ctx.wordbuf ctx.wordptr [ch]
  let wordbuf ← write wordbuf (ctx.wordptr + 1) ['\x00']
  some { ctx with wordbuf := wordbuf, wordptr := ctx.wordptr + 1 }

def addchar (ctx : Context) (ch : Char) : Option Context := do
  let wbuflen ← strlen ctx.wordbuf
  if ch.toNat < 0x20 || 0x7f < ch.toNat then some ctx
  else if ctx.wordlenLimit ≠ 0 ∧ ctx.wordlenLimit ≤ wbuflen then some ctx
  else storeChar (growWordbuf junk ctx wbuflen) ch

/-- The end of both branches of `endofword`. -/
def clearWord (ctx : Context) : Option Context := do
  let wordbuf ← write ctx.wordbuf 0 ['\x00']
  some { ctx with wordbuf := wordbuf, wordptr := 0 }

def endofword (ctx : Context) : Option Context :=
  if ctx.argLimit ≠ 0 ∧ ctx.argLimit ≤ ctx.numargs then clearWord ctx
  else do clearWord (← addArgWord junk ctx)

def findwordstart (ctx : Context) (ch : Char) : Option (Context × PState) :=
  if ch = '\n' then some (ctx, .endofline)
  else if ch = '#' then some (ctx, .findeol)
  else if isspace ch then some (ctx, .findwordstart)
  else if ch = '\\' then some (ctx, .collectliteral)
  else if ch = '"' then some (ctx, .quotecollect)
  else if ch = '=' then do some (← endofword junk (← addchar junk ctx ch), .findwordstart)
  else do some (← addchar junk ctx ch, .collect)

def findeol (ctx : Context) (ch : Char) : Option (Context × PState) :=
  if ch = '\n' then some (ctx, .endofline) else some (ctx, .findeol)

def pconfSeterr (ctx : Context) (errmsg : CStr) : Context :=
  { ctx with errmsg := snprintf pconfErrLen errmsg, error := true }

def quotecollect (ctx : Context) (ch : Char) : Option (Context × PState) :=
  if ch = '#' then do some (← endofword junk (pconfSeterr ctx errUnbalanced), .parseerr)
  else if ch = '"' then do some (← endofword junk ctx, .findwordstart)
  else if ch = '\\' then some (ctx, .qcLiteral)
  else do some (← addchar junk ctx ch, .quotecollect)

def qcLiteral (ctx : Context) (ch : Char) : Option (Context × PState) :=
  if ch = '\n' then some (ctx, .quotecollect) else do some (← addchar junk ctx ch, .quotecollect)

def collect (ctx : Context) (ch : Char) : Option (Context × PState) :=
  if ch = '#' then do some (← endofword junk ctx, .findeol)
  else if ch = '\n' then do some (← endofword junk ctx, .endofline)
  else if isspace ch then do some (← endofword junk ctx, .findwordstart)
  else if ch = '=' then do some ((← findwordstart junk (← endofword junk ctx) ch).1, .findwordstart)
  else if ch = '\\' then some (ctx, .collectliteral)
  else do some (← addchar junk ctx ch, .collect)

def collectliteral (ctx : Context) (ch : Char) : Option (Context × PState) :=
  if ch = '\n' then some (ctx, .collect) else do some (← addchar junk ctx ch, .collect)

def parseChar (ctx : Context) (ch : Char) : Option Context := do
  let (ctx, state) ←
    match ctx.state with
    | .findwordstart => findwordstart junk ctx ch
    | .findeol => findeol ctx ch
    | .quotecollect => quotecollect junk ctx ch
    | .qcLiteral => qcLiteral junk ctx ch
    | .collect => collect junk ctx ch
    | .collectliteral => collectliteral junk ctx ch
    | .endofline => some (ctx, .endofline)
    | .parseerr => some (ctx, .parseerr)
  some { ctx with state := state }

def pconfChar (ctx : Context) (ch : Char) : Option (Context × CharResult) := do
  let ctx := if ctx.state = .endofline ∨ ctx.state = .parseerr
    then { ctx with numargs := 0, state := .findwordstart } else ctx
  let ctx ← parseChar junk ctx ch
  if ctx.state = .endofline then some (ctx, .line)
  else if ctx.state = .parseerr then some (ctx, .error)
  else some (ctx, .more)

end Steps

/-! ### The storage as a context of words -/

/-- The word in a slot. -/
def slotText (slot : Option (List Char)) : CStr := text '\x00' (slot.getD [])

def Context.abs (ctx : Context) : PconfCtx where
  state := ctx.state
  arglist := ctx.arglist.map slotText
  numargs := ctx.numargs
  wordbuf := text '\x00' ctx.wordbuf
  linenum := ctx.linenum
  error := ctx.error
  errmsg := ctx.errmsg

/-- The arguments that a caller finds. -/
def Context.args (ctx : Context) : List CStr := (ctx.arglist.take ctx.numargs).map slotText

/-- A slot with a word that ends in it. -/
def Holds (slot : Option (List Char)) (size : Nat) : Prop :=
  ∃ block, slot = some block ∧ block.length = size ∧ (text '\x00' block).length < size

/-- The word buffer has room for its terminator, `wordptr` points to it, and every slot holds a word. -/
structure Sound (ctx : Context) : Prop where
  argLimit : ctx.argLimit = pconfDefaultArgLimit
  wordlenLimit : ctx.wordlenLimit = pconfDefaultWordlenLimit
  size : ctx.wordbuf.length = ctx.wordbufsize
  room : (text '\x00' ctx.wordbuf).length < ctx.wordbufsize
  wordptr : ctx.wordptr = (text '\x00' ctx.wordbuf).length
  arglist : ctx.arglist.length = ctx.maxargs
  argsize : ctx.argsize.length = ctx.maxargs
  numargs : ctx.numargs ≤ ctx.maxargs
  slots : ∀ (i : Nat) slot size, ctx.arglist[i]? = some slot → ctx.argsize[i]? = some size → Holds slot size

theorem sound_pconfInit (errmsg : CStr) : Sound (pconfInit errmsg) where
  argLimit := rfl
  wordlenLimit := rfl
  size := rfl
  room := show (text '\x00' (List.replicate 16 '\x00')).length < 16 by decide
  wordptr := rfl
  arglist := rfl
  argsize := rfl
  numargs := Nat.le_refl _
  slots i slot size h := by simp [pconfInit] at h

namespace Sound

variable {ctx : Context}

theorem nul_mem (h : Sound ctx) : '\x00' ∈ ctx.wordbuf := length_text_lt_iff.1 (h.size ▸ h.room)

theorem strlen (h : Sound ctx) : strlen ctx.wordbuf = some (text '\x00' ctx.wordbuf).length := if_pos h.nul_mem

end Sound

variable (junk : Nat → Char)

/-- A slot that is new or holds a word holds the new word afterwards. -/
theorem storeWord_spec {slot : Option (List Char)} {size : Nat} {wordbuf : List Char} (hw : '\x00' ∈ wordbuf)
    (hslot : slot = none ∧ size = 0 ∨ Holds slot size) :
    ∃ block size', storeWord junk slot size wordbuf = some (block, size') ∧ Holds (some block) size' ∧
      text '\x00' block = text '\x00' wordbuf := by
  have htake : (text '\x00' wordbuf).take (text '\x00' wordbuf).length = text '\x00' wordbuf := List.take_length
  have hfill : ∀ block, (text '\x00' wordbuf).length < block.length → ∃ block',
      ((write block 0 (List.replicate block.length '\x00')).bind fun block =>
        strncpy block wordbuf (text '\x00' wordbuf).length) = some block' ∧
      Holds (some block') block.length ∧ text '\x00' block' = text '\x00' wordbuf := by
    intro block hlt
    obtain ⟨block', hwrite, hlen, htext⟩ := write_clear '\x00' hlt
    rw [text_of_notMem (nul_notMem_text wordbuf)] at htext
    refine ⟨block', ?_, ⟨block', rfl, hlen, htext ▸ hlt⟩, htext⟩
    simp only [strncpy, htake]
    exact hwrite
  have hstrlen : strlen wordbuf = some (text '\x00' wordbuf).length := if_pos hw
  by_cases hsize : size ≤ (text '\x00' wordbuf).length
  · have hlen := length_resize junk (slot.getD []) ((text '\x00' wordbuf).length + 1)
    obtain ⟨block', hwrite, hholds, htext⟩ :=
      hfill (resize junk (slot.getD []) ((text '\x00' wordbuf).length + 1)) (by rw [hlen]; omega)
    rw [hlen] at hwrite hholds
    refine ⟨block', _, ?_, hholds, htext⟩
    simp only [storeWord, hstrlen, Option.bind_eq_bind, Option.bind_some, if_pos hsize]
    rw [← Option.bind_assoc, hwrite]
    rfl
  · obtain ⟨-, hzero⟩ | ⟨block, rfl, hlen, hlt⟩ := hslot
    · exact absurd hzero.le (fun h => hsize (h.trans (Nat.zero_le _)))
    · obtain ⟨block', hwrite, hholds, htext⟩ := hfill block (by omega)
      rw [hlen] at hwrite hholds
      refine ⟨block', _, ?_, hholds, htext⟩
      simp only [storeWord, hstrlen, Option.bind_eq_bind, Option.bind_some, if_neg hsize]
      rw [← Option.bind_assoc, hwrite]
      rfl

/-- One more slot, or one that is used again. -/
theorem slots_set {arglist : List (Option (List Char))} {argsize : List Nat} {argpos size : Nat} {block : List Char}
    (h : ∀ (i : Nat) slot size, i ≠ argpos → arglist[i]? = some slot → argsize[i]? = some size → Holds slot size)
    (hnew : Holds (some block) size) (i : Nat) (slot : Option (List Char)) (size' : Nat)
    (hslot : (arglist.set argpos (some block))[i]? = some slot) (hsize : (argsize.set argpos size)[i]? = some size') :
    Holds slot size' := by
  by_cases hi : i = argpos
  · subst hi
    rw [List.getElem?_set_self'] at hslot hsize
    obtain ⟨_, -, rfl⟩ := Option.map_eq_some_iff.1 hslot
    obtain ⟨_, -, rfl⟩ := Option.map_eq_some_iff.1 hsize
    exact hnew
  · rw [List.getElem?_set_ne (Ne.symm hi)] at hslot hsize
    exact h i slot size' hi hslot hsize

theorem addArgWord_spec {ctx : Context} (h : Sound ctx) :
    ∃ ctx', addArgWord junk ctx = some ctx' ∧ Sound ctx' ∧ ctx'.abs = Nut.addArgWord ctx.abs := by
  by_cases hmax : ctx.maxargs < ctx.numargs + 1
  · -- all slots are in use and the lists grow
    have hnum : ctx.numargs = ctx.maxargs := Nat.le_antisymm h.numargs (by omega)
    obtain ⟨block, size', hstore, hholds, htext⟩ := storeWord_spec junk h.nul_mem (.inl ⟨rfl, rfl⟩)
    have hargs : (resize (fun _ => none) ctx.arglist (ctx.numargs + 1)).set ctx.numargs none = ctx.arglist ++ [none] := by
      rw [hnum, ← h.arglist]
      exact set_resize_succ _ _ _
    have hsizes : (resize (fun _ => 0) ctx.argsize (ctx.numargs + 1)).set ctx.numargs 0 = ctx.argsize ++ [0] := by
      rw [hnum, ← h.argsize]
      exact set_resize_succ _ _ _
    have hslot : (ctx.arglist ++ [none])[ctx.numargs]? = some none := by
      rw [hnum, ← h.arglist, List.getElem?_concat_length]
    have hsize : (ctx.argsize ++ [0])[ctx.numargs]? = some 0 := by
      rw [hnum, ← h.argsize, List.getElem?_concat_length]
    refine ⟨{ ctx with
      numargs := ctx.numargs + 1
      maxargs := ctx.numargs + 1
      arglist := (ctx.arglist ++ [none]).set ctx.numargs (some block)
      argsize := (ctx.argsize ++ [0]).set ctx.numargs size' }, ?_, ?_, ?_⟩
    · simp only [addArgWord, if_pos hmax, hargs, hsizes, hslot, hsize, hstore, Option.bind_eq_bind, Option.bind_some]
    · refine { h with
        arglist := ?_, argsize := ?_, numargs := Nat.le_refl _, slots := slots_set (fun i slot size hi => ?_) hholds }
      · rw [List.length_set, List.length_append, h.arglist, hnum]
        rfl
      · rw [List.length_set, List.length_append, h.argsize, hnum]
        rfl
      · intro hslot hsize
        rw [List.getElem?_append] at hslot hsize
        split_ifs at hslot hsize with h1 h2 h2
        · exact h.slots i slot size hslot hsize
        · exact absurd (h.arglist ▸ h1) (h.argsize ▸ h2)
        · exact absurd (h.argsize ▸ h2) (h.arglist ▸ h1)
        · have hi' := List.getElem?_eq_some_iff.1 hslot
          obtain ⟨hlt, -⟩ := hi'
          rw [List.length_singleton] at hlt
          rw [h.arglist] at h1 hlt
          omega
    · have hlen : ¬ctx.abs.numargs < ctx.abs.arglist.length := by
        simp only [Context.abs, List.length_map, h.arglist]
        omega
      have hmap : ((ctx.arglist ++ [none]).set ctx.numargs (some block)).map slotText =
          ctx.abs.arglist ++ [text '\x00' ctx.wordbuf] := by
        rw [hnum, ← h.arglist, List.set_append_right _ _ (Nat.le_refl _), Nat.sub_self, List.map_append, ← htext]
        rfl
      rw [Nut.addArgWord, if_neg hlen]
      simp only [Context.abs, hmap]
  · have hlt : ctx.numargs < ctx.maxargs := by omega
    obtain ⟨slot, hslot⟩ : ∃ slot, ctx.arglist[ctx.numargs]? = some slot := ⟨_, List.getElem?_eq_getElem (h.arglist ▸ hlt)⟩
    obtain ⟨size, hsize⟩ : ∃ size, ctx.argsize[ctx.numargs]? = some size := ⟨_, List.getElem?_eq_getElem (h.argsize ▸ hlt)⟩
    obtain ⟨block, size', hstore, hholds, htext⟩ := storeWord_spec junk h.nul_mem (.inr (h.slots _ _ _ hslot hsize))
    refine ⟨{ ctx with
      numargs := ctx.numargs + 1
      arglist := ctx.arglist.set ctx.numargs (some block)
      argsize := ctx.argsize.set ctx.numargs size' }, ?_, ?_, ?_⟩
    · simp only [addArgWord, if_neg hmax, hslot, hsize, hstore, Option.bind_eq_bind, Option.bind_some]
    · exact { h with
        arglist := by rw [List.length_set]; exact h.arglist
        argsize := by rw [List.length_set]; exact h.argsize
        numargs := hlt
        slots := slots_set (fun i slot size _ => h.slots i slot size) hholds }
    · have hlen : ctx.abs.numargs < ctx.abs.arglist.length := by
        simp only [Context.abs, List.length_map, h.arglist]
        exact hlt
      have hmap : (ctx.arglist.set ctx.numargs (some block)).map slotText =
          ctx.abs.arglist.set ctx.numargs (text '\x00' ctx.wordbuf) := by
        rw [List.map_set, ← htext]
        rfl
      rw [Nut.addArgWord, if_pos hlen]
      simp only [Context.abs, hmap]

theorem growWordbuf_spec {ctx : Context} (h : Sound ctx) :
    Sound (growWordbuf junk ctx (text '\x00' ctx.wordbuf).length) ∧
      (growWordbuf junk ctx (text '\x00' ctx.wordbuf).length).abs = ctx.abs ∧
      (text '\x00' (growWordbuf junk ctx (text '\x00' ctx.wordbuf).length).wordbuf).length + 1 <
        (growWordbuf junk ctx (text '\x00' ctx.wordbuf).length).wordbufsize := by
  have hroom := h.room
  unfold growWordbuf
  by_cases hfull : ctx.wordbufsize - 1 ≤ (text '\x00' ctx.wordbuf).length
  · have htext : text '\x00' (resize junk ctx.wordbuf (ctx.wordbufsize + 8)) = text '\x00' ctx.wordbuf :=
      text_resize h.nul_mem junk (h.size ▸ Nat.le_add_right _ _)
    rw [if_pos hfull]
    refine ⟨?_, ?_, ?_⟩
    · exact { h with
        size := length_resize _ _ _
        room := by rw [htext]; exact Nat.lt_add_right 8 hroom
        wordptr := by rw [htext] }
    · simp only [Context.abs, htext]
    · simp only [htext]
      omega
  · rw [if_neg hfull]
    exact ⟨h, rfl, by omega⟩

theorem storeChar_spec {ctx : Context} (h : Sound ctx) (hroom : (text '\x00' ctx.wordbuf).length + 1 < ctx.wordbufsize)
    {ch : Char} (hch : ch ≠ '\x00') :
    ∃ ctx', storeChar ctx ch = some ctx' ∧ Sound ctx' ∧ ctx'.abs = { ctx.abs with wordbuf := ctx.abs.wordbuf ++ [ch] } := by
  obtain ⟨wordbuf, hwrite, htext⟩ := write_end '\x00' ctx.wordbuf [ch] (by rw [h.size]; exact hroom)
  have hsingle : text '\x00' [ch] = [ch] := text_of_notMem (by simpa using Ne.symm hch)
  rw [hsingle] at htext
  have hlen : (text '\x00' wordbuf).length = (text '\x00' ctx.wordbuf).length + 1 := by
    rw [htext, List.length_append]
    rfl
  have hsize : wordbuf.length = ctx.wordbufsize := (length_write hwrite).trans h.size
  rw [← h.wordptr, ← write_append] at hwrite
  refine ⟨{ ctx with wordbuf := wordbuf, wordptr := ctx.wordptr + 1 }, ?_, ?_, ?_⟩
  · simp only [storeChar, Option.bind_eq_bind]
    rw [← Option.bind_assoc, show ctx.wordptr + 1 = ctx.wordptr + [ch].length from rfl, hwrite]
    rfl
  · exact { h with
      size := hsize
      room := by rw [hlen]; exact hroom
      wordptr := by rw [hlen, h.wordptr] }
  · simp only [Context.abs, htext]

theorem addchar_spec {ctx : Context} (h : Sound ctx) (ch : Char) :
    ∃ ctx', addchar junk ctx ch = some ctx' ∧ Sound ctx' ∧ ctx'.abs = Nut.addchar ctx.abs ch := by
  have hstart : addchar junk ctx ch = if ch.toNat < 0x20 || 0x7f < ch.toNat then some ctx
      else if ctx.wordlenLimit ≠ 0 ∧ ctx.wordlenLimit ≤ (text '\x00' ctx.wordbuf).length then some ctx
      else storeChar (growWordbuf junk ctx (text '\x00' ctx.wordbuf).length) ch := by
    rw [addchar, h.strlen]
    rfl
  rw [hstart, Nut.addchar, h.wordlenLimit]
  by_cases hvalid : (ch.toNat < 0x20 || 0x7f < ch.toNat) = true
  · rw [if_pos hvalid, if_pos hvalid]
    exact ⟨ctx, rfl, h, rfl⟩
  rw [if_neg hvalid, if_neg hvalid]
  by_cases hlong : pconfDefaultWordlenLimit ≤ (text '\x00' ctx.wordbuf).length
  · rw [if_pos ⟨by decide, hlong⟩, if_pos (show pconfDefaultWordlenLimit ≤ ctx.abs.wordbuf.length from hlong)]
    exact ⟨ctx, rfl, h, rfl⟩
  rw [if_neg (fun hlimit => hlong hlimit.2), if_neg (show ¬pconfDefaultWordlenLimit ≤ ctx.abs.wordbuf.length from hlong)]
  have hch : ch ≠ '\x00' := by
    rintro rfl
    exact hvalid (by decide)
  obtain ⟨hsound, habs, hroom⟩ := growWordbuf_spec junk h
  obtain ⟨ctx', hstore, hsound', habs'⟩ := storeChar_spec hsound hroom hch
  exact ⟨ctx', hstore, hsound', by rw [habs', habs]⟩

/-- The end of a word empties the buffer. -/
theorem clearWord_spec {ctx : Context} (h : Sound ctx) :
    ∃ ctx', clearWord ctx = some ctx' ∧ Sound ctx' ∧ ctx'.abs = { ctx.abs with wordbuf := [] } := by
  have hroom := h.room
  obtain ⟨wordbuf, hwrite, htext⟩ := write_nul '\x00' (show 0 < ctx.wordbuf.length by rw [h.size]; omega)
  rw [List.take_zero] at htext
  refine ⟨{ ctx with wordbuf := wordbuf, wordptr := 0 }, ?_, ?_, ?_⟩
  · rw [clearWord, hwrite]
    rfl
  · exact { h with
      size := (length_write hwrite).trans h.size
      room := by rw [htext]; exact Nat.zero_lt_of_lt hroom
      wordptr := by rw [htext]; rfl }
  · simp only [Context.abs, htext]

theorem endofword_spec {ctx : Context} (h : Sound ctx) :
    ∃ ctx', endofword junk ctx = some ctx' ∧ Sound ctx' ∧ ctx'.abs = Nut.endofword ctx.abs := by
  unfold endofword Nut.endofword
  rw [h.argLimit]
  by_cases hfull : pconfDefaultArgLimit ≤ ctx.numargs
  · rw [if_pos ⟨by decide, hfull⟩, if_pos (show pconfDefaultArgLimit ≤ ctx.abs.numargs from hfull)]
    exact clearWord_spec h
  · obtain ⟨ctx₁, hadd, hsound, habs⟩ := addArgWord_spec junk h
    obtain ⟨ctx₂, hclear, hsound', habs'⟩ := clearWord_spec hsound
    rw [if_neg (fun h => hfull h.2), if_neg (show ¬pconfDefaultArgLimit ≤ ctx.abs.numargs from hfull)]
    refine ⟨ctx₂, ?_, hsound', ?_⟩
    · rw [hadd]
      exact hclear
    · rw [habs', habs]

/-! ### A character -/

/-- A transition of the storage does what one of the words does. -/
def Refines (o : Option (Context × PState)) (r : PconfCtx × PState) : Prop :=
  ∃ ctx', o = some (ctx', r.2) ∧ Sound ctx' ∧ ctx'.abs = r.1

namespace Refines

variable {junk} {ctx : Context}

theorem same (h : Sound ctx) (state : PState) : Refines (some (ctx, state)) (ctx.abs, state) := ⟨ctx, rfl, h, rfl⟩

theorem addchar (h : Sound ctx) (ch : Char) (state : PState) :
    Refines (do some (← Storage.addchar junk ctx ch, state)) (Nut.addchar ctx.abs ch, state) := by
  obtain ⟨ctx', hadd, hsound, habs⟩ := addchar_spec junk h ch
  exact ⟨ctx', by rw [hadd]; rfl, hsound, habs⟩

theorem endofword (h : Sound ctx) (state : PState) :
    Refines (do some (← Storage.endofword junk ctx, state)) (Nut.endofword ctx.abs, state) := by
  obtain ⟨ctx', hend, hsound, habs⟩ := endofword_spec junk h
  exact ⟨ctx', by rw [hend]; rfl, hsound, habs⟩

theorem ite {c : Prop} [Decidable c] {a b : Option (Context × PState)} {r s : PconfCtx × PState} (ha : c → Refines a r)
    (hb : ¬c → Refines b s) : Refines (if c then a else b) (if c then r else s) := by
  split_ifs with hc
  · exact ha hc
  · exact hb hc

theorem findwordstart (h : Sound ctx) (ch : Char) :
    Refines (Storage.findwordstart junk ctx ch) (Nut.findwordstart ctx.abs ch) := by
  refine .ite (fun _ => .same h _) fun _ => .ite (fun _ => .same h _) fun _ => .ite (fun _ => .same h _) fun _ =>
    .ite (fun _ => .same h _) fun _ => .ite (fun _ => .same h _) fun _ => .ite (fun _ => ?_) fun _ => .addchar h ch _
  obtain ⟨ctx₁, hadd, hsound₁, habs₁⟩ := addchar_spec junk h ch
  rw [hadd, ← habs₁]
  exact .endofword hsound₁ _

theorem findeol (h : Sound ctx) (ch : Char) : Refines (Storage.findeol ctx ch) (Nut.findeol ctx.abs ch) :=
  .ite (fun _ => .same h _) fun _ => .same h _

theorem quotecollect (h : Sound ctx) (ch : Char) :
    Refines (Storage.quotecollect junk ctx ch) (Nut.quotecollect ctx.abs ch) := by
  have herr : Sound (pconfSeterr ctx errUnbalanced) := { h with }
  exact .ite (fun _ => .endofword herr _) fun _ => .ite (fun _ => .endofword h _) fun _ => .ite (fun _ => .same h _)
    fun _ => .addchar h ch _

theorem qcLiteral (h : Sound ctx) (ch : Char) : Refines (Storage.qcLiteral junk ctx ch) (Nut.qcLiteral ctx.abs ch) :=
  .ite (fun _ => .same h _) fun _ => .addchar h ch _

theorem collect (h : Sound ctx) (ch : Char) : Refines (Storage.collect junk ctx ch) (Nut.collect ctx.abs ch) := by
  refine .ite (fun _ => .endofword h _) fun _ => .ite (fun _ => .endofword h _) fun _ => .ite (fun _ => .endofword h _)
    fun _ => .ite (fun _ => ?_) fun _ => .ite (fun _ => .same h _) fun _ => .addchar h ch _
  obtain ⟨ctx₁, hend, hsound₁, habs₁⟩ := endofword_spec junk h
  obtain ⟨ctx₂, hfind, hsound₂, habs₂⟩ : Refines (Storage.findwordstart junk ctx₁ ch) _ := .findwordstart hsound₁ ch
  rw [habs₁] at hfind habs₂
  exact ⟨ctx₂, by rw [hend]; exact congrArg (Option.bind · fun r => some (r.1, PState.findwordstart)) hfind, hsound₂, habs₂⟩

theorem collectliteral (h : Sound ctx) (ch : Char) :
    Refines (Storage.collectliteral junk ctx ch) (Nut.collectliteral ctx.abs ch) :=
  .ite (fun _ => .same h _) fun _ => .addchar h ch _

end Refines

theorem parseChar_spec {ctx : Context} (h : Sound ctx) (ch : Char) :
    ∃ ctx', parseChar junk ctx ch = some ctx' ∧ Sound ctx' ∧ ctx'.abs = Nut.parseChar ctx.abs ch := by
  have hset : ∀ {o : Option (Context × PState)} {r : PconfCtx × PState}, Refines o r →
      ∃ ctx', (do let (ctx, state) ← o; some { ctx with state := state }) = some ctx' ∧ Sound ctx' ∧
        ctx'.abs = { r.1 with state := r.2 } := by
    rintro _ r ⟨ctx', rfl, hsound, habs⟩
    exact ⟨{ ctx' with state := r.2 }, rfl, { hsound with }, by rw [← habs]; rfl⟩
  have hstate : ctx.abs.state = ctx.state := rfl
  unfold parseChar Nut.parseChar
  rw [hstate]
  cases hs : ctx.state with
  | findwordstart => exact hset (.findwordstart h ch)
  | findeol => exact hset (.findeol h ch)
  | quotecollect => exact hset (.quotecollect h ch)
  | qcLiteral => exact hset (.qcLiteral h ch)
  | collect => exact hset (.collect h ch)
  | collectliteral => exact hset (.collectliteral h ch)
  | endofline => exact ⟨{ ctx with state := .endofline }, rfl, { h with }, by simp only [Context.abs, hs]⟩
  | parseerr => exact ⟨{ ctx with state := .parseerr }, rfl, { h with }, by simp only [Context.abs, hs]⟩

/-- A finished line is cleared first. -/
def reset (ctx : Context) : Context :=
  if ctx.state = .endofline ∨ ctx.state = .parseerr then { ctx with numargs := 0, state := .findwordstart } else ctx

theorem reset_spec {ctx : Context} (h : Sound ctx) :
    Sound (reset ctx) ∧ (reset ctx).abs = if ctx.abs.state = .endofline ∨ ctx.abs.state = .parseerr
      then { ctx.abs with numargs := 0, state := .findwordstart } else ctx.abs := by
  unfold reset
  by_cases hend : ctx.state = .endofline ∨ ctx.state = .parseerr
  · rw [if_pos hend, if_pos (show ctx.abs.state = .endofline ∨ ctx.abs.state = .parseerr from hend)]
    exact ⟨{ h with numargs := Nat.zero_le _ }, rfl⟩
  · rw [if_neg hend, if_neg (show ¬(ctx.abs.state = .endofline ∨ ctx.abs.state = .parseerr) from hend)]
    exact ⟨h, rfl⟩

/-- Every character does to the storage what it does to the words, whatever new memory holds. -/
theorem pconfChar_abs {ctx : Context} (h : Sound ctx) (ch : Char) :
    ∃ ctx' r, pconfChar junk ctx ch = some (ctx', r) ∧ Sound ctx' ∧ Nut.pconfChar ctx.abs ch = (ctx'.abs, r) := by
  obtain ⟨hreset, habs⟩ := reset_spec h
  obtain ⟨ctx', hparse, hsound, habs'⟩ := parseChar_spec junk hreset ch
  have hchar : pconfChar junk ctx ch = if ctx'.state = .endofline then some (ctx', .line)
      else if ctx'.state = .parseerr then some (ctx', .error) else some (ctx', .more) := by
    change (parseChar junk (reset ctx) ch).bind _ = _
    rw [hparse]
    rfl
  have hwords : Nut.pconfChar ctx.abs ch = if ctx'.abs.state = .endofline then (ctx'.abs, .line)
      else if ctx'.abs.state = .parseerr then (ctx'.abs, .error) else (ctx'.abs, .more) := by
    rw [Nut.pconfChar, ← habs, ← habs']
  rw [hchar, hwords]
  by_cases hline : ctx'.state = .endofline
  · exact ⟨ctx', .line, if_pos hline, hsound, if_pos hline⟩
  · rw [if_neg hline, if_neg (show ¬ctx'.abs.state = .endofline from hline)]
    by_cases herr : ctx'.state = .parseerr
    · exact ⟨ctx', .error, if_pos herr, hsound, if_pos herr⟩
    · exact ⟨ctx', .more, if_neg herr, hsound, if_neg herr⟩

/-! ### What a line depends on -/

/-- A finished line is cleared before the next character. -/
def cleared (ctx : PconfCtx) : PconfCtx :=
  if ctx.state = .endofline ∨ ctx.state = .parseerr then { ctx with numargs := 0, state := .findwordstart } else ctx

/-- Two contexts hold the same part of a line. -/
structure SameLine (a b : PconfCtx) : Prop where
  state : a.state = b.state
  numargs : a.numargs = b.numargs
  args : a.arglist.take a.numargs = b.arglist.take b.numargs
  wordbuf : a.wordbuf = b.wordbuf
  left : a.numargs ≤ a.arglist.length
  right : b.numargs ≤ b.arglist.length

/-- The slot of the new word is the last of those in use. -/
theorem take_addArgWord {ctx : PconfCtx} (h : ctx.numargs ≤ ctx.arglist.length) :
    (Nut.addArgWord ctx).arglist.take (ctx.numargs + 1) = ctx.arglist.take ctx.numargs ++ [ctx.wordbuf] ∧
      ctx.numargs + 1 ≤ (Nut.addArgWord ctx).arglist.length := by
  by_cases hlt : ctx.numargs < ctx.arglist.length
  · simp only [Nut.addArgWord, if_pos hlt]
    rw [List.length_set, List.set_eq_take_append_cons_drop, if_pos hlt]
    refine ⟨?_, hlt⟩
    rw [← List.singleton_append, ← List.append_assoc]
    exact List.take_left' (by rw [List.length_append, List.length_take, List.length_singleton]; omega)
  · simp only [Nut.addArgWord, if_neg hlt]
    have hlen : (ctx.arglist ++ [ctx.wordbuf]).length = ctx.numargs + 1 := by
      rw [List.length_append, List.length_singleton]
      omega
    rw [hlen, List.take_of_length_le (by omega), List.take_of_length_le (by omega)]
    exact ⟨rfl, Nat.le_refl _⟩

namespace SameLine

variable {a b c : PconfCtx}

theorem symm (h : SameLine a b) : SameLine b a :=
  ⟨h.state.symm, h.numargs.symm, h.args.symm, h.wordbuf.symm, h.right, h.left⟩

theorem trans (h : SameLine a b) (h' : SameLine b c) : SameLine a c :=
  ⟨h.state.trans h'.state, h.numargs.trans h'.numargs, h.args.trans h'.args, h.wordbuf.trans h'.wordbuf, h.left, h'.right⟩

theorem into (h : SameLine a b) (state : PState) : SameLine { a with state := state } { b with state := state } :=
  { h with state := rfl }

theorem addchar (h : SameLine a b) (ch : Char) : SameLine (Nut.addchar a ch) (Nut.addchar b ch) := by
  unfold Nut.addchar
  rw [h.wordbuf]
  split_ifs
  · exact h
  · exact h
  · exact { h with wordbuf := rfl }

theorem endofword (h : SameLine a b) : SameLine (Nut.endofword a) (Nut.endofword b) := by
  unfold Nut.endofword
  by_cases hfull : pconfDefaultArgLimit ≤ a.numargs
  · rw [if_pos hfull, if_pos (h.numargs ▸ hfull)]
    exact { h with wordbuf := rfl }
  · rw [if_neg hfull, if_neg (h.numargs ▸ hfull)]
    obtain ⟨hargs, hleft⟩ := take_addArgWord h.left
    obtain ⟨hargs', hright⟩ := take_addArgWord h.right
    refine ⟨h.state, congrArg (· + 1) h.numargs, hargs.trans (Eq.trans ?_ hargs'.symm), rfl, hleft, hright⟩
    rw [h.args, h.wordbuf]

/-- A line that is over does not matter. -/
theorem clear (h : SameLine a b) : SameLine (cleared a) (cleared b) := by
  unfold cleared
  rw [h.state]
  split_ifs
  · exact ⟨rfl, rfl, rfl, h.wordbuf, Nat.zero_le _, Nat.zero_le _⟩
  · exact h

end SameLine

/-- Two transitions leave the same part of a line. -/
def Both (r s : PconfCtx × PState) : Prop := r.2 = s.2 ∧ SameLine r.1 s.1

namespace Both

variable {a b : PconfCtx}

theorem ite {c : Prop} [Decidable c] {r r' s s' : PconfCtx × PState} (hr : c → Both r r') (hs : ¬c → Both s s') :
    Both (if c then r else s) (if c then r' else s') := by
  split_ifs with hc
  · exact hr hc
  · exact hs hc

theorem findwordstart (h : SameLine a b) (ch : Char) : Both (Nut.findwordstart a ch) (Nut.findwordstart b ch) :=
  .ite (fun _ => ⟨rfl, h⟩) fun _ => .ite (fun _ => ⟨rfl, h⟩) fun _ => .ite (fun _ => ⟨rfl, h⟩) fun _ =>
    .ite (fun _ => ⟨rfl, h⟩) fun _ => .ite (fun _ => ⟨rfl, h⟩) fun _ => .ite (fun _ => ⟨rfl, (h.addchar ch).endofword⟩)
    fun _ => ⟨rfl, h.addchar ch⟩

theorem findeol (h : SameLine a b) (ch : Char) : Both (Nut.findeol a ch) (Nut.findeol b ch) :=
  .ite (fun _ => ⟨rfl, h⟩) fun _ => ⟨rfl, h⟩

theorem quotecollect (h : SameLine a b) (ch : Char) : Both (Nut.quotecollect a ch) (Nut.quotecollect b ch) := by
  have herr : SameLine (Nut.pconfSeterr a errUnbalanced) (Nut.pconfSeterr b errUnbalanced) := { h with }
  exact .ite (fun _ => ⟨rfl, herr.endofword⟩) fun _ => .ite (fun _ => ⟨rfl, h.endofword⟩) fun _ => .ite (fun _ => ⟨rfl, h⟩)
    fun _ => ⟨rfl, h.addchar ch⟩

theorem qcLiteral (h : SameLine a b) (ch : Char) : Both (Nut.qcLiteral a ch) (Nut.qcLiteral b ch) :=
  .ite (fun _ => ⟨rfl, h⟩) fun _ => ⟨rfl, h.addchar ch⟩

theorem collect (h : SameLine a b) (ch : Char) : Both (Nut.collect a ch) (Nut.collect b ch) :=
  .ite (fun _ => ⟨rfl, h.endofword⟩) fun _ => .ite (fun _ => ⟨rfl, h.endofword⟩) fun _ => .ite (fun _ => ⟨rfl, h.endofword⟩)
    fun _ => .ite (fun _ => ⟨rfl, (findwordstart h.endofword ch).2⟩) fun _ => .ite (fun _ => ⟨rfl, h⟩)
    fun _ => ⟨rfl, h.addchar ch⟩

theorem collectliteral (h : SameLine a b) (ch : Char) : Both (Nut.collectliteral a ch) (Nut.collectliteral b ch) :=
  .ite (fun _ => ⟨rfl, h⟩) fun _ => ⟨rfl, h.addchar ch⟩

end Both

theorem SameLine.parseChar {a b : PconfCtx} (h : SameLine a b) (ch : Char) :
    SameLine (Nut.parseChar a ch) (Nut.parseChar b ch) := by
  have hset : ∀ {r s : PconfCtx × PState}, Both r s → SameLine { r.1 with state := r.2 } { s.1 with state := s.2 } := by
    rintro r s ⟨hstate, hsame⟩
    rw [hstate]
    exact hsame.into s.2
  unfold Nut.parseChar
  rw [h.state]
  cases b.state with
  | findwordstart => exact hset (.findwordstart h ch)
  | findeol => exact hset (.findeol h ch)
  | quotecollect => exact hset (.quotecollect h ch)
  | qcLiteral => exact hset (.qcLiteral h ch)
  | collect => exact hset (.collect h ch)
  | collectliteral => exact hset (.collectliteral h ch)
  | endofline => exact h
  | parseerr => exact h

theorem SameLine.pconfChar {a b : PconfCtx} (h : SameLine (cleared a) (cleared b)) (ch : Char) :
    (Nut.pconfChar a ch).2 = (Nut.pconfChar b ch).2 ∧ SameLine (Nut.pconfChar a ch).1 (Nut.pconfChar b ch).1 := by
  have hparse := h.parseChar ch
  have hchar : ∀ ctx : PconfCtx, Nut.pconfChar ctx ch = if (Nut.parseChar (cleared ctx) ch).state = .endofline then
      (Nut.parseChar (cleared ctx) ch, .line) else if (Nut.parseChar (cleared ctx) ch).state = .parseerr then
      (Nut.parseChar (cleared ctx) ch, .error) else (Nut.parseChar (cleared ctx) ch, .more) := fun _ => rfl
  rw [hchar, hchar, hparse.state]
  split_ifs
  · exact ⟨rfl, hparse⟩
  · exact ⟨rfl, hparse⟩
  · exact ⟨rfl, hparse⟩

/-- What the words of the lines before leave in a context is not read. -/
theorem sameLine_of_atLineStart {ctx : PconfCtx} (h : AtLineStart ctx) : SameLine (cleared ctx) (cleared Nut.pconfInit) := by
  rcases h with ⟨hend, -, hw, -⟩ | ⟨hs, -, hl⟩
  · rw [cleared, if_pos hend]
    exact ⟨rfl, rfl, rfl, hw, Nat.zero_le _, Nat.zero_le _⟩
  · have hstate : ctx.state = .findwordstart := hs
    rw [cleared, if_neg (by simp [hstate])]
    exact ⟨hstate, hl.numargs, by rw [hl.numargs]; rfl, hl.wordbuf, by rw [hl.numargs]; exact Nat.zero_le _, Nat.zero_le _⟩

/-- A character goes on with a line, or ends it. -/
theorem loaded_pconfChar {A : List CStr} {l : Lexer} {ctx ctx' : PconfCtx} {ch : Char} {r : CharResult} (h : Loaded A l ctx)
    (hchar : Nut.pconfChar ctx ch = (ctx', r)) :
    (∃ A' l', Loaded A' l' ctx') ∧ (r ≠ .more → AtLineStart ctx') := by
  have hsim := pconfStep_simulates h ch
  unfold pconfStep at hsim
  rw [hchar] at hsim
  rcases hl : l.step ch with ⟨l', _ | ws | _⟩
  · rw [hl] at hsim
    cases r with
    | more => exact ⟨⟨A, l', hsim.2⟩, fun hne => absurd rfl hne⟩
    | line => cases hsim.1
    | error => cases hsim.1
  · rw [hl] at hsim
    cases r with
    | more => cases hsim.1
    | line => exact ⟨⟨_, _, hsim.2⟩, fun _ => hsim.2.atLineStart⟩
    | error => cases hsim.1
  · rw [hl] at hsim
    cases r with
    | more => cases hsim.1
    | line => cases hsim.1
    | error => exact ⟨⟨_, _, hsim.2⟩, fun _ => hsim.2⟩

/-! ### Line after line -/

/-- Characters in the middle of a line. -/
inductive Part (ctx : Context) : CStr → Context → Prop
  | nil : Part ctx [] ctx
  | char {pre : CStr} {m m' : Context} {junk : Nat → Char} {ch : Char} (h : Part ctx pre m)
      (hch : pconfChar junk m ch = some (m', .more)) : Part ctx (pre ++ [ch]) m'

/-- The last character of `line`, and no other, ends a logical line, with a result or with an error. -/
def Line (ctx : Context) (line : CStr) (ctx' : Context) (r : CharResult) : Prop :=
  ∃ (pre : CStr) (ch : Char) (m : Context) (junk : Nat → Char), line = pre ++ [ch] ∧ Part ctx pre m ∧
    pconfChar junk m ch = some (ctx', r) ∧ r ≠ .more

/-- A context that has been fed with some logical lines. -/
inductive Fed : List CStr → Context → Prop
  | init (errmsg : CStr) : Fed [] (pconfInit errmsg)
  | line {lines : List CStr} {line : CStr} {ctx ctx' : Context} {r : CharResult} (h : Fed lines ctx)
      (hline : Line ctx line ctx' r) : Fed (lines ++ [line]) ctx'

/-- A context that has been fed with some characters. -/
structure Standing (ctx : Context) : Prop where
  sound : Sound ctx
  loaded : ∃ A l, Loaded A l ctx.abs

theorem Standing.char {ctx ctx' : Context} {junk : Nat → Char} {ch : Char} {r : CharResult} (h : Standing ctx)
    (hchar : pconfChar junk ctx ch = some (ctx', r)) : Standing ctx' ∧ (r ≠ .more → AtLineStart ctx'.abs) := by
  obtain ⟨_, _, hchar', hsound, habs⟩ := pconfChar_abs junk h.sound ch
  obtain ⟨rfl, rfl⟩ := Prod.mk.inj (Option.some.inj (hchar'.symm.trans hchar))
  obtain ⟨A, l, hloaded⟩ := h.loaded
  obtain ⟨hloaded', hstart⟩ := loaded_pconfChar hloaded habs
  exact ⟨⟨hsound, hloaded'⟩, hstart⟩

theorem Part.standing {ctx m : Context} {pre : CStr} (h : Part ctx pre m) (hctx : Standing ctx) : Standing m := by
  induction h with
  | nil => exact hctx
  | char _ hch ih => exact (ih.char hch).1

theorem Fed.standing {lines : List CStr} {ctx : Context} (h : Fed lines ctx) : Standing ctx ∧ AtLineStart ctx.abs := by
  induction h with
  | init errmsg =>
    have hstart : AtLineStart (pconfInit errmsg).abs := .inr ⟨rfl, fun _ => rfl, rfl, rfl, rfl⟩
    exact ⟨⟨sound_pconfInit errmsg, _, _, hstart⟩, hstart⟩
  | line _ hline ih =>
    obtain ⟨pre, ch, m, junk, -, hpart, hchar, hne⟩ := hline
    obtain ⟨hstanding, hstart⟩ := (hpart.standing ih.1).char hchar
    exact ⟨hstanding, hstart hne⟩

section Compare

variable {a b : Context}

/-- The same character in the same part of a line. -/
theorem same_char {a' b' : Context} {junk junk' : Nat → Char} {ch : Char} {r r' : CharResult} (ha : Standing a)
    (hb : Standing b) (h : SameLine (cleared a.abs) (cleared b.abs)) (hchar : pconfChar junk a ch = some (a', r))
    (hchar' : pconfChar junk' b ch = some (b', r')) : r = r' ∧ SameLine a'.abs b'.abs := by
  obtain ⟨_, _, hsome, -, habs⟩ := pconfChar_abs junk ha.sound ch
  obtain ⟨rfl, rfl⟩ := Prod.mk.inj (Option.some.inj (hsome.symm.trans hchar))
  obtain ⟨_, _, hsome', -, habs'⟩ := pconfChar_abs junk' hb.sound ch
  obtain ⟨rfl, rfl⟩ := Prod.mk.inj (Option.some.inj (hsome'.symm.trans hchar'))
  have hsame := h.pconfChar ch
  rw [habs, habs'] at hsame
  exact hsame

theorem Part.same {pre : CStr} {m n : Context} (hm : Part a pre m) (hn : Part b pre n) (ha : Standing a) (hb : Standing b)
    (h : SameLine (cleared a.abs) (cleared b.abs)) : SameLine (cleared m.abs) (cleared n.abs) := by
  induction hm generalizing n with
  | nil =>
    generalize hpre : ([] : CStr) = pre at hn
    cases hn with
    | nil => exact h
    | char _ _ => simp at hpre
  | @char pre m m' junk ch hm hch ih =>
    generalize hpre : pre ++ [ch] = pre' at hn
    cases hn with
    | nil => simp at hpre
    | char hn hch' =>
      obtain ⟨rfl, hlast⟩ := List.append_inj' hpre rfl
      obtain rfl := List.singleton_inj.1 hlast
      exact (same_char (hm.standing ha) (hn.standing hb) (ih hn) hch hch').2.clear

theorem Part.exists_same {pre : CStr} {m : Context} (hm : Part a pre m) (ha : Standing a) (hb : Standing b)
    (h : SameLine (cleared a.abs) (cleared b.abs)) : ∃ n, Part b pre n := by
  induction hm with
  | nil => exact ⟨b, .nil⟩
  | @char pre m m' junk ch hm hch ih =>
    obtain ⟨n, hn⟩ := ih
    obtain ⟨n', r, hchar, -, -⟩ := pconfChar_abs junk (hn.standing hb).sound ch
    obtain ⟨rfl, -⟩ := same_char (hm.standing ha) (hn.standing hb) (hm.same hn ha hb h) hch hchar
    exact ⟨n', hn.char hchar⟩

theorem Line.same {line : CStr} {a' b' : Context} {r r' : CharResult} (hl : Line a line a' r) (hl' : Line b line b' r')
    (ha : Standing a) (hb : Standing b) (h : SameLine (cleared a.abs) (cleared b.abs)) : r = r' ∧ a'.args = b'.args := by
  obtain ⟨pre, ch, m, junk, rfl, hpart, hchar, -⟩ := hl
  obtain ⟨pre', ch', n, junk', hline, hpart', hchar', -⟩ := hl'
  obtain ⟨rfl, hlast⟩ := List.append_inj' hline rfl
  obtain rfl := List.singleton_inj.1 hlast
  obtain ⟨hr, hsame⟩ := same_char (hpart.standing ha) (hpart'.standing hb) (hpart.same hpart' ha hb h) hchar hchar'
  refine ⟨hr, ?_⟩
  have hargs := hsame.args
  simp only [Context.abs, ← List.map_take] at hargs
  exact hargs

theorem Line.exists_same {line : CStr} {a' : Context} {r : CharResult} (hl : Line a line a' r) (ha : Standing a)
    (hb : Standing b) (h : SameLine (cleared a.abs) (cleared b.abs)) : ∃ b' r', Line b line b' r' := by
  obtain ⟨pre, ch, m, junk, rfl, hpart, hchar, hne⟩ := hl
  obtain ⟨n, hpart'⟩ := hpart.exists_same ha hb h
  obtain ⟨b', r', hchar', -, -⟩ := pconfChar_abs junk (hpart'.standing hb).sound ch
  obtain ⟨rfl, -⟩ := same_char (hpart.standing ha) (hpart'.standing hb) (hpart.same hpart' ha hb h) hchar hchar'
  exact ⟨b', r, pre, ch, n, junk, rfl, hpart', hchar', hne⟩

end Compare

/-- At the start of a line the word buffer is empty and has room, no character of the line leaves the storage, and the line
is read as a new context reads it. -/
theorem context_forgets {lines : List CStr} {ctx : Context} (h : Fed lines ctx) (errmsg : CStr) :
    (text '\x00' ctx.wordbuf = [] ∧ ctx.wordptr = 0 ∧ (text '\x00' ctx.wordbuf).length < ctx.wordbufsize ∧
      ctx.wordbuf.length = ctx.wordbufsize) ∧
    (∀ pre m, Part ctx pre m → ∀ junk ch, (pconfChar junk m ch).isSome) ∧
    (∀ line, (∃ ctx' r, Line ctx line ctx' r) ↔ ∃ fresh r, Line (pconfInit errmsg) line fresh r) ∧
    ∀ line ctx' r fresh r', Line ctx line ctx' r → Line (pconfInit errmsg) line fresh r' →
      r = r' ∧ ctx'.args = fresh.args := by
  obtain ⟨hstanding, hstart⟩ := h.standing
  obtain ⟨hfresh, hfresh'⟩ := (Fed.init errmsg).standing
  have hsame : SameLine (cleared ctx.abs) (cleared (pconfInit errmsg).abs) :=
    (sameLine_of_atLineStart hstart).trans (sameLine_of_atLineStart hfresh').symm
  have hword : text '\x00' ctx.wordbuf = [] := by
    rcases hstart with ⟨-, -, hw, -⟩ | ⟨-, -, hl⟩
    · exact hw
    · exact hl.wordbuf
  refine ⟨⟨hword, ?_, hstanding.sound.room, hstanding.sound.size⟩, ?_, ?_, ?_⟩
  · rw [hstanding.sound.wordptr, hword]
    rfl
  · intro pre m hpart junk ch
    obtain ⟨m', r, hchar, -, -⟩ := pconfChar_abs junk (hpart.standing hstanding).sound ch
    rw [hchar]
    rfl
  · intro line
    constructor
    · rintro ⟨ctx', r, hline⟩
      exact hline.exists_same hstanding hfresh hsame
    · rintro ⟨fresh, r, hline⟩
      exact hline.exists_same hfresh hstanding hsame.symm
  · intro line ctx' r fresh r' hline hline'
    exact hline.same hline' hstanding hfresh hsame

/-- A line that ends with an unescaped `#` in quotes. -/
theorem context_forgets_error : ∃ ctx, Fed [['"', '#']] ctx ∧ text '\x00' ctx.wordbuf = [] ∧ ctx.wordptr = 0 ∧
    ∀ line ctx' r fresh r', Line ctx line ctx' r → Line (pconfInit []) line fresh r' → r = r' ∧ ctx'.args = fresh.args := by
  have hline : ∃ ctx, Line (pconfInit []) ['"', '#'] ctx .error :=
    ⟨_, ['"'], '#', _, fun _ => ' ', rfl, Part.nil.char (show pconfChar (fun _ => ' ') _ '"' = some (_, .more) from rfl),
      rfl, by decide⟩
  obtain ⟨ctx, hline⟩ := hline
  obtain ⟨⟨hword, hptr, -⟩, -, -, hsame⟩ := context_forgets ((Fed.init []).line hline) []
  exact ⟨ctx, (Fed.init []).line hline, hword, hptr, hsame⟩

end Nut.Storage
