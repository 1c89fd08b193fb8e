import IntelAsm.Proofs.Lexer.Faults
import IntelAsm.Proofs.Lexer.LetterCase

/-!
# Blanks behind words

Where a word ends is told by its own characters and by how the text goes on behind it. A text that
goes on with a blank, or as another one does, ends all words that the other ends (`EndsLike`), but
for a comment, which takes blanks in (`Word.EndsBefore.of_endsLike`).

Blanks may also hide the second word of a size specifier. It is the next word of the text or it is
none (`suffixAhead_gap_iff`), so the width of the gap in front of it does not matter.
-/

namespace IntelAsm

namespace Lexeme

instance (g : List Char) : Decidable (IsGap g) :=
  decidable_of_iff (g.all isInlineSpace) List.all_eq_true

theorem words_gap {g : List Char} (hg : IsGap g) (cs : List Char) : words (g ++ cs) = words cs := by
  rw [words, scan_append_gap hg, words_eq]

/-- A text with a word in front starts with no blank. -/
theorem head?_of_word {l rest : List Char} {w : Word} (hne : l ≠ [])
    (h : word (l ++ rest) = ⟨.found w, l.length⟩) :
    (l ++ rest).head?.any isInlineSpace = false := by
  obtain ⟨c, cs, rfl⟩ := List.exists_cons_of_ne_nil hne
  obtain ⟨hl, he⟩ := (word_eq_found_iff hne).1 h
  simpa using not_blank_of_spells hl he

/-! ### The second word of a size specifier -/

/-- The second word of a size specifier is a name. -/
theorem word_suffix {u r : List Char} (hu : Text.lower (String.ofList u) = sizeSuffix)
    (hr : Breaks r) : word (u ++ r) = ⟨.found ⟨.ident, String.ofList u⟩, u.length⟩ := by
  have hregister : isRegister (String.ofList u) = false := by
    rw [isRegister, hu]
    decide
  have hkeyword : Width.ofKeyword? (Text.lower (String.ofList u)) = none := by
    rw [hu]
    decide
  exact word_ident (isWord_of_lower_eq_sizeSuffix hu) hregister hr (by simp [hkeyword])

/-- Behind a gap of any width the second word of a size specifier is ahead iff it comes next. -/
theorem suffixAhead_gap_iff {g cs : List Char} (hg : IsGap g)
    (hcs : cs.head?.any isInlineSpace = false) :
    SuffixAhead (g ++ cs) ↔
      ∃ u r, cs = u ++ r ∧ Text.lower (String.ofList u) = sizeSuffix ∧ Breaks r := by
  constructor
  · rintro ⟨g', u, r, h, hg', hu, hr⟩
    have hhead : (u ++ r).head?.any isInlineSpace = false :=
      (isWord_of_lower_eq_sizeSuffix hu).head?_append r
    have hgap : g = g' := by
      rw [← takeWhile_append hg hcs, h, takeWhile_append hg' hhead]
    subst hgap
    exact ⟨u, r, List.append_cancel_left h, hu, hr⟩
  · rintro ⟨u, r, rfl, hu, hr⟩
    exact ⟨g, u, r, rfl, hg, hu, hr⟩

/-- If a lexeme is the second word of a size specifier, it is in front of any text. -/
theorem exists_suffix_of_word {l rest rest' : List Char} {w : Word} (hne : l ≠ [])
    (h : word (l ++ rest) = ⟨.found w, l.length⟩) (h' : word (l ++ rest') = ⟨.found w, l.length⟩) :
    (∃ u r, l ++ rest' = u ++ r ∧ Text.lower (String.ofList u) = sizeSuffix ∧ Breaks r) →
      ∃ u r, l ++ rest = u ++ r ∧ Text.lower (String.ofList u) = sizeSuffix ∧ Breaks r := by
  rintro ⟨u, r, hsplit, hu, hr⟩
  have hword := word_suffix hu hr
  rw [← hsplit, h'] at hword
  obtain ⟨hw, hlength⟩ := Reading.mk.inj hword
  obtain rfl : w = ⟨.ident, String.ofList u⟩ := Outcome.found.inj hw
  obtain ⟨rfl, -⟩ := List.append_inj hsplit hlength
  exact ⟨l, rest, rfl, hu, ((word_eq_found_iff hne).1 h).2.1⟩

/-! ### Where words end -/

/-- The text `rest'` starts as `rest` does or with a blank, and brings the second word of a size
specifier only if `rest` does. -/
structure EndsLike (rest rest' : List Char) : Prop where
  head : rest'.head? = rest.head? ∨ ∃ c, rest'.head? = some c ∧ isInlineSpace c
  suffix : SuffixAhead rest' → SuffixAhead rest

theorem EndsLike.head?_any {rest rest' : List Char} (h : EndsLike rest rest') {f : Char → Bool}
    (hf : ∀ c, isInlineSpace c → f c = false) (hr : rest.head?.any f = false) :
    rest'.head?.any f = false := by
  rcases h.head with heq | ⟨c, hc, hb⟩
  · rwa [heq]
  · simpa [hc] using hf c hb

/-- What a blank is not can be told from three characters. -/
theorem forall_blank {f : Char → Bool} (h : [f ' ', f '\t', f '\r'] = [false, false, false])
    (c : Char) (hc : isInlineSpace c) : f c = false := by
  simp only [List.cons.injEq, and_true] at h
  simp only [isInlineSpace, Bool.or_eq_true, decide_eq_true_eq] at hc
  rcases hc with (rfl | rfl) | rfl
  · exact h.1
  · exact h.2.1
  · exact h.2.2

end Lexeme

open Lexeme

theorem Word.Spells.head?_of_comment {w : Word} {l : List Char} (h : w.Spells l)
    (hk : w.kind = .comment) : l.head?.any (fun c => c = ';' || c = '#') := by
  cases h with
  | comment hl =>
    obtain ⟨⟨c, cs, hc, rfl⟩, -⟩ := hl
    simpa using hc
  | _ => cases hk

/-- A lexeme that is no comment ends in front of a text that goes on like one before which it
ends. -/
theorem Word.EndsBefore.of_endsLike {w : Word} {l rest rest' : List Char}
    (he : w.EndsBefore l rest) (hl : w.Spells l) (h : EndsLike rest rest')
    (hk : w.kind = .comment → rest'.head? = rest.head?) : w.EndsBefore l rest' := by
  have hbreaks (hr : Breaks rest) : Breaks rest' := h.head?_any (forall_blank (by decide)) hr
  cases hl with
  | comment =>
    show rest'.head?.any (· ≠ '\n') = false
    rw [hk rfl]
    exact he
  | @number d ds hd hds =>
    refine ⟨h.head?_any (forall_blank (by decide)) he.1, ?_⟩
    have hx := he.2
    rw [List.cons_append, startsHex_cons_eq] at hx ⊢
    cases ds with
    | cons e ds => exact hx
    | nil =>
      rw [Bool.and_eq_false_iff] at hx ⊢
      exact hx.imp_right (h.head?_any (forall_blank (by decide)))
  | hexNumber => exact h.head?_any (forall_blank (by decide)) he
  | register => exact hbreaks he
  | ident => exact ⟨hbreaks he.1, fun hs hahead => he.2 hs (h.suffix hahead)⟩
  | size => exact hbreaks he
  | newline => trivial
  | string => trivial
  | mark => trivial

end IntelAsm
