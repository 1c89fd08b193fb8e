import IntelAsm.Proofs.Lexer.Partition
import IntelAsm.Proofs.Parser.WellFormed
import Mathlib.Algebra.Ring.Parity
import Mathlib.Data.List.Basic
import Mathlib.Data.List.Induction

/-!
# Texts between quotes

A string is written as it is, backslashes included, and the lexer takes what stands between the
quotes as it is. Both go through the text from its front and skip what a backslash escapes. Counting
backslashes tells the same of any place in the text: the next character is escaped if an odd number
of them stands directly in front of it (`OpensEscape`, `endsInEscape_iff`), and otherwise it stands
there unescaped (`StandsUnescaped`, `mem_unescaped_iff`).

A text can be quoted (`CanQuote`) if it is on one line, starts no escape at its end, and does not
hold both quotes unescaped. Exactly these texts are read back from their spelling, and every string
of every source is one of them (`strings_exact`).
-/

namespace IntelAsm

namespace Lexeme

/-! ### Escapes by counting -/

/-- The number of backslashes at the end of a text. -/
def trailingBackslashes (cs : List Char) : Nat := (cs.reverse.takeWhile (· = '\\')).length

/-- The text ends in a backslash that starts an escape: those directly in front of it escape each
other in pairs. -/
def OpensEscape (cs : List Char) : Prop := Odd (trailingBackslashes cs)

/-- The character stands somewhere in the text without a backslash that escapes it. -/
def StandsUnescaped (c : Char) (cs : List Char) : Prop :=
  ∃ us vs, cs = us ++ c :: vs ∧ ¬OpensEscape us

instance (cs : List Char) : Decidable (OpensEscape cs) :=
  inferInstanceAs (Decidable (Odd (trailingBackslashes cs)))

theorem not_opensEscape_nil : ¬OpensEscape [] := by
  decide

theorem not_standsUnescaped_nil (c : Char) : ¬StandsUnescaped c [] := by
  rintro ⟨us, vs, hsplit, -⟩
  simp at hsplit

/-- One more character starts an escape if it is a backslash and not escaped itself. -/
theorem opensEscape_append_singleton (cs : List Char) (d : Char) :
    OpensEscape (cs ++ [d]) ↔ d = '\\' ∧ ¬OpensEscape cs := by
  by_cases hd : d = '\\'
  · simp [OpensEscape, trailingBackslashes, hd, Nat.odd_add_one]
  · simp [OpensEscape, trailingBackslashes, hd]

/-- One more character stands unescaped if no escape is open. -/
theorem standsUnescaped_append_singleton (c : Char) (cs : List Char) (d : Char) :
    StandsUnescaped c (cs ++ [d]) ↔ StandsUnescaped c cs ∨ d = c ∧ ¬OpensEscape cs := by
  constructor
  · rintro ⟨us, vs, hsplit, ho⟩
    rcases vs.eq_nil_or_concat' with rfl | ⟨ws, e, rfl⟩
    · obtain ⟨rfl, hd⟩ := List.append_inj' hsplit rfl
      exact .inr ⟨(List.cons.inj hd).1, ho⟩
    · rw [← List.cons_append, ← List.append_assoc] at hsplit
      exact .inl ⟨us, ws, (List.append_inj' hsplit rfl).1, ho⟩
  · rintro (⟨us, vs, rfl, ho⟩ | ⟨rfl, ho⟩)
    · exact ⟨us, vs ++ [d], by simp, ho⟩
    · exact ⟨cs, [], rfl, ho⟩

section
variable {us : List Char} (h : ¬OpensEscape us)
include h

/-- Behind a text that leaves no escape open, escapes are what they are without that text. -/
theorem opensEscape_append (vs : List Char) : OpensEscape (us ++ vs) ↔ OpensEscape vs := by
  -- by induction from the end, where an escape is open or not
  induction vs using List.reverseRecOn with
  | nil => simp [h, not_opensEscape_nil]
  | append_singleton vs d ih =>
    rw [← List.append_assoc, opensEscape_append_singleton, opensEscape_append_singleton, ih]

theorem standsUnescaped_append (c : Char) (vs : List Char) :
    StandsUnescaped c (us ++ vs) ↔ StandsUnescaped c us ∨ StandsUnescaped c vs := by
  induction vs using List.reverseRecOn with
  | nil => simp [not_standsUnescaped_nil]
  | append_singleton vs d ih =>
    rw [← List.append_assoc, standsUnescaped_append_singleton, standsUnescaped_append_singleton,
      ih, opensEscape_append h, or_assoc]

end

/-! ### Counting and skipping agree -/

section
variable {c d : Char}

theorem not_opensEscape_singleton (hd : d ≠ '\\') : ¬OpensEscape [d] := by
  rw [← List.nil_append [d], opensEscape_append_singleton]
  exact fun h => hd h.1

theorem standsUnescaped_singleton : StandsUnescaped c [d] ↔ d = c := by
  rw [← List.nil_append [d], standsUnescaped_append_singleton]
  simp [not_standsUnescaped_nil, not_opensEscape_nil]

/-- A backslash and the character it escapes leave no escape open. -/
theorem not_opensEscape_escape (d : Char) : ¬OpensEscape ['\\', d] := by
  rw [← List.singleton_append, opensEscape_append_singleton]
  exact fun h => h.2 (by decide)

theorem standsUnescaped_escape : StandsUnescaped c ['\\', d] ↔ '\\' = c := by
  rw [← List.singleton_append, standsUnescaped_append_singleton, standsUnescaped_singleton]
  have ho : OpensEscape ['\\'] := by decide
  simp [ho]

/-- Counting and skipping agree on whether an escape is open at the end of a text. -/
theorem endsInEscape_iff (cs : List Char) : endsInEscape cs ↔ OpensEscape cs := by
  -- a character is passed alone, or with the backslash that escapes it; both leave no escape open
  fun_induction endsInEscape cs with
  | case1 => simp [not_opensEscape_nil]
  | case2 => decide
  | case3 d ds ih =>
    rw [ih]
    exact (opensEscape_append (not_opensEscape_escape d) ds).symm
  | case4 d ds hd ih =>
    rw [ih]
    exact (opensEscape_append (not_opensEscape_singleton hd) ds).symm

/-- The characters that are not skipped are those without a backslash that escapes them. -/
theorem mem_unescaped_iff (hc : c ≠ '\\') (cs : List Char) :
    c ∈ unescaped cs ↔ StandsUnescaped c cs := by
  fun_induction unescaped cs with
  | case1 => simp [not_standsUnescaped_nil]
  | case2 => simp [standsUnescaped_singleton, Ne.symm hc]
  | case3 d ds ih =>
    have hsplit := standsUnescaped_append (not_opensEscape_escape d) c ds
    rw [standsUnescaped_escape] at hsplit
    rw [ih]
    exact (hsplit.trans (or_iff_right (Ne.symm hc))).symm
  | case4 d ds hd ih =>
    have hsplit := standsUnescaped_append (not_opensEscape_singleton hd) c ds
    rw [standsUnescaped_singleton] at hsplit
    rw [List.mem_cons, ih, eq_comm]
    exact hsplit.symm

end

end Lexeme

/-! ### Texts that can be quoted -/

/-- A text that can stand between quotes: a newline would end it, a backslash at its end would
escape the closing quote, and a quote that stands unescaped cannot be the one around it. -/
structure Spelling.CanQuote (text : String) : Prop where
  one_line : '\n' ∉ text.toList
  closed : ¬Lexeme.OpensEscape text.toList
  free_quote :
    ¬(Lexeme.StandsUnescaped '\'' text.toList ∧ Lexeme.StandsUnescaped '"' text.toList)

open Spelling (CanQuote)

/-- What can be quoted is what fits between quotes of one of the two kinds. -/
theorem isQuotable_iff_canQuote {text : String} :
    Lexeme.IsQuotable text.toList ↔ CanQuote text := by
  have hends := Lexeme.endsInEscape_iff text.toList
  have hsingle := Lexeme.mem_unescaped_iff (c := '\'') (by decide) text.toList
  have hdouble := Lexeme.mem_unescaped_iff (c := '"') (by decide) text.toList
  rw [Lexeme.isQuotable_iff]
  constructor
  · rintro ⟨hline, hwhole, hquotes⟩
    refine ⟨hline, by simp [← hends, hwhole], fun h => hquotes ?_⟩
    exact ⟨hdouble.2 h.2, hsingle.2 h.1⟩
  · rintro ⟨hline, hclosed, hfree⟩
    refine ⟨hline, by simpa [← hends] using hclosed, fun h => hfree ?_⟩
    exact ⟨hsingle.1 h.2, hdouble.1 h.1⟩

/-- The spelling of a text that can be quoted is one word, with nothing behind it. -/
theorem tokenize_string {text : String} (h : CanQuote text) :
    tokenize (Spelling.string text) =
      .ok [⟨⟨.string, text⟩, .start⟩, ⟨⟨.eof, ""⟩, .behind (Spelling.string text).toList⟩] := by
  have hword := Lexeme.word_string (isQuotable_iff_canQuote.2 h) []
  obtain ⟨hspells, hends⟩ := (Lexeme.word_eq_found_iff (Lexeme.toList_string_ne_nil text)).1 hword
  have hscan := scan_of_spells hspells hends .start
  rw [List.append_nil, scan_nil, ← Pos.behind_nil, Pos.afterAll_behind] at hscan
  exact tokenize_eq_ok.2 hscan

/-- A string of a source can be quoted. -/
theorem canQuote_of_mem {source : String} {ts : List Token} (h : tokenize source = .ok ts)
    {t : Token} (ht : t ∈ ts) (hk : t.kind = .string) : CanQuote t.text := by
  obtain ⟨⟨kind, text⟩, pos⟩ := t
  obtain rfl : kind = .string := hk
  exact isQuotable_iff_canQuote.1 (isQuotable_of_spelled (fromLexer_of_tokenize h) ⟨pos, ht⟩)

/-- A text is read back from its spelling, as one string and nothing else, exactly if it can be
quoted; and every string of every source can be. -/
theorem strings_exact :
    (∀ text : String,
      (∃ p q, tokenize (Spelling.string text) = .ok [⟨⟨.string, text⟩, p⟩, ⟨⟨.eof, ""⟩, q⟩]) ↔
        CanQuote text) ∧
    ∀ source ts, tokenize source = .ok ts → ∀ t ∈ ts, t.kind = .string → CanQuote t.text := by
  refine ⟨fun text => ⟨?_, fun h => ⟨_, _, tokenize_string h⟩⟩,
    fun source ts h t ht hk => canQuote_of_mem h ht hk⟩
  rintro ⟨p, q, h⟩
  exact canQuote_of_mem h (List.mem_cons_self) rfl

/-- A text with both quotes, of which one is escaped, and a text with an escaped backslash at its
end. -/
theorem strings_exact_of_escapes :
    ∃ ts, tokenize "db 'say \"it\\'s\"', \"c:\\\\\"" = .ok ts ∧
      (∃ t ∈ ts, t.text = "say \"it\\'s\"" ∧ t.kind = .string ∧ CanQuote t.text) ∧
      ∃ t ∈ ts, t.text = "c:\\\\" ∧ t.kind = .string ∧ CanQuote t.text ∧
        ∃ p q, tokenize (Spelling.string t.text) =
          .ok [⟨⟨.string, t.text⟩, p⟩, ⟨⟨.eof, ""⟩, q⟩] := by
  have h : tokenize "db 'say \"it\\'s\"', \"c:\\\\\"" =
      .ok [⟨⟨.ident, "db"⟩, ⟨1, 1⟩⟩, ⟨⟨.string, "say \"it\\'s\""⟩, ⟨1, 4⟩⟩,
        ⟨⟨.mark .comma, ","⟩, ⟨1, 17⟩⟩, ⟨⟨.string, "c:\\\\"⟩, ⟨1, 19⟩⟩,
        ⟨⟨.eof, ""⟩, ⟨1, 25⟩⟩] := by
    decide +kernel
  have hcan := strings_exact.2 _ _ h
  have hlast := hcan ⟨⟨.string, "c:\\\\"⟩, ⟨1, 19⟩⟩ (by simp) rfl
  exact ⟨_, h, ⟨_, by simp, rfl, rfl, hcan ⟨⟨.string, "say \"it\\'s\""⟩, ⟨1, 4⟩⟩ (by simp) rfl⟩,
    _, by simp, rfl, rfl, hlast, (strings_exact.1 _).2 hlast⟩

-- both quotes stand unescaped, so the spelling is over at the second of them
example : tokenize (Spelling.string "\"'") = .error (.lexical ⟨.unterminated, ⟨1, 4⟩⟩) := by
  decide +kernel

end IntelAsm
