import Nut.Common.Endings
import Nut.Sync.Message

/-!
# Lines without their newline

The words that `pconf_line` makes of a line that begins with words (`spaced_read`), and what is known of the next word
while it is being read (`word_finish`).
-/

namespace Nut

open ChunkReader Lexer

variable {ws : List CStr} {w v s : CStr} {m : Mode}

theorem length_le_spaced (h : w ∈ ws) : w.length ≤ (spaced ws).length := by
  obtain ⟨before, after, rfl⟩ := List.append_of_mem h
  simp only [spaced, List.flatMap_append, List.flatMap_cons, List.length_append]
  omega

theorem spaced_read {ctx : PconfCtx} {r : CStr} (hws : ∀ w ∈ ws, IsWord w) (hlen : ws.length ≤ pconfDefaultArgLimit) (h : BetweenLines ctx) :
    (pconfLine ctx (spaced ws ++ r)).args = finish ⟨ws, [], .between⟩ r := by
  have hsilent := silent_spaced [] hws (by simpa using hlen)
  rw [pconfLine_args h]
  exact finish_append hsilent r

/-- The unfinished word is the beginning of the next one. -/
theorem word_finish (hws : ws.length < pconfDefaultArgLimit) (hm : m.inWord = true)
    (h : ws ++ [v] <+: finish ⟨ws, w, m⟩ s) : w <+: v := by
  have hclose : ∀ w m, (close ⟨ws, w, m⟩).words = ws ++ [w] := fun w m => by rw [close_eq hws]
  induction s generalizing w m with
  | nil =>
    rw [finish] at h
    split_ifs at h with hw
    · exact (show w = [] from hw) ▸ List.nil_prefix
    · rw [hclose] at h
      exact next_word h List.prefix_rfl ▸ List.prefix_rfl
  | cons c s ih =>
    have hended : ws ++ [v] <+: (close ⟨ws, w, m⟩).words → w <+: v := fun h => by
      rw [hclose] at h
      exact next_word h List.prefix_rfl ▸ List.prefix_rfl
    have hclosed {l : Lexer} (hl : ws ++ [w] <+: l.words) (h : ws ++ [v] <+: l.finish s) : w <+: v :=
      next_word h (hl.trans (words_finish l s)) ▸ List.prefix_rfl
    have hkept {m₁ m' : Mode} (hm' : m'.inWord = true) (h : ws ++ [v] <+: ((keep ⟨ws, w, m₁⟩ c).into m').finish s) :
        w <+: v := by
      have heq : (keep ⟨ws, w, m₁⟩ c).into m' = ⟨ws, (keep ⟨ws, w, m₁⟩ c).word, m'⟩ := by
        rw [into, keep_words]
      rw [heq] at h
      have hpre := ih hm' h
      rcases keep_word ⟨ws, w, m₁⟩ c with hk | hk
      · rwa [hk] at hpre
      · rw [hk] at hpre
        exact (List.prefix_append w [c]).trans hpre
    rw [finish] at h
    rcases hc : step ⟨ws, w, m⟩ c with ⟨t, _ | xs | _⟩
    · rw [hc] at h
      have hmoves := moves_of_step hc
      cases hmoves <;> simp only [Mode.inWord, Bool.false_eq_true] at hm
      case closes | bareComment | ends =>
        refine hclosed ⟨[], ?_⟩ h
        rw [List.append_nil, into_words, hclose]
      case bareEquals =>
        refine hclosed ?_ h
        have hk := words_close ((close ⟨ws, w, .bare⟩).keep '=')
        rwa [keep_words, hclose] at hk
      case quotedEscape | quotedNewline | bareEscape | bareNewline => exact ih rfl h
      case quoted | quotedLiteral | bare | bareLiteral => exact hkept rfl h
    · rw [hc] at h
      rcases item_of_step hc with ⟨hb | hb, -⟩ | ⟨-, rfl⟩
      · simp only at hb
        simp [hb, Mode.inWord] at hm
      · simp only at hb
        simp [hb, Mode.inWord] at hm
      · exact hended h
    · rw [hc] at h
      exact hended h

end Nut
