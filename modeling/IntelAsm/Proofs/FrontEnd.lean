import IntelAsm.Proofs.Expression.Stacks
import IntelAsm.Proofs.Lexer.Scan
import IntelAsm.Proofs.Parser.Labels

/-!
# How the front end fails

A source that spells no program has a word at fault or breaks the grammar, and nothing else ever
goes wrong: the lexer asks for no character behind the end of the text, every numeral that it hands
on is one, and the reading of an expression finds on its stacks what it takes from them. The parser
keeps to this on token lists from elsewhere too, provided that their numerals are numerals.

So the failures that `SourceError` and `ParseFault` list beside the documented ones
(`SourceError.IsDocumented`) do not occur.
-/

namespace IntelAsm

/-- An error of grammar: a text that was to be a number and is none does not count as one. -/
def ParseError.IsSyntax (e : ParseError) : Prop :=
  ∀ base text, e.fault ≠ .notNumeral base text

/-- The failures of the front end that are documented: a word at fault or an error of grammar. -/
def SourceError.IsDocumented : SourceError → Prop
  | .reading (.lexical _) => True
  | .reading (.endOfSource ..) => False
  | .grammar e => e.IsSyntax

/-- The parser finds a program or an error of grammar where all numerals are well formed. -/
theorem isSyntax_of_parse {ts : List Token} (hts : ∀ t ∈ ts, t.toWord.IsNumeral) {e : ParseError}
    (h : parse ts = .error e) : e.IsSyntax := by
  intro base text hf
  obtain ⟨t, ht, hk, hv⟩ := (blamed_of_parse h).numeral base text hf
  rw [hf] at hv
  exact (hts t ht).value_ne hk base text hv

/-- The numerals of a source are well formed. -/
theorem isNumeral_of_scan {p : Pos} {cs : List Char} {ts : List Token} (h : scan p cs = .ok ts) :
    ∀ t ∈ ts, t.toWord.IsNumeral := by
  obtain ⟨us, rfl, hus⟩ := lexed_of_scan h
  intro t ht
  rcases List.mem_append.1 ht with ht | ht
  · exact (hus t ht).isNumeral
  · rw [List.mem_singleton.1 ht]
    exact ⟨by simp, by simp⟩

theorem isDocumented_of_parseSource {source : String} {e : SourceError}
    (h : parseSource source = .error e) : e.IsDocumented := by
  rw [parseSource, tokenize_eq] at h
  cases hs : scan .start source.toList with
  | error e' =>
    rw [hs] at h
    cases h
    trivial
  | ok ts =>
    rw [hs] at h
    cases hp : parse ts with
    | ok p => simp [Except.mapError, hp] at h
    | error e' =>
      simp only [Except.mapError, hp] at h
      cases h
      exact isSyntax_of_parse (isNumeral_of_scan hs) hp

/-- Every source and every list of tokens with well-formed numerals is a program or fails as
documented, and at no cursor do the stacks of an expression lack what is taken from them. -/
theorem frontEnd_fails_as_documented (source : String) (ts : List Token)
    (hts : ∀ t ∈ ts, t.toWord.IsNumeral) (c : Cursor) :
    ((∃ p, parseSource source = .ok p) ∨
      ∃ e, parseSource source = .error e ∧ e.IsDocumented) ∧
    ((∃ p, parse ts = .ok p) ∨ ∃ e, parse ts = .error e ∧ e.IsSyntax) ∧
    Stacks.expression c = .ok (Parse.expression c) := by
  refine ⟨?_, ?_, Stacks.expression_eq_ok c⟩
  · cases h : parseSource source with
    | ok p => exact .inl ⟨p, rfl⟩
    | error e => exact .inr ⟨e, rfl, isDocumented_of_parseSource h⟩
  · cases h : parse ts with
    | ok p => exact .inl ⟨p, rfl⟩
    | error e => exact .inr ⟨e, rfl, isSyntax_of_parse hts h⟩

/-- An empty decimal numeral and a hexadecimal one without its marker are well formed. -/
theorem frontEnd_fails_as_documented_on_bare_numerals :
    (∀ t ∈ [(⟨⟨.ident, "org"⟩, {}⟩ : Token), ⟨⟨.number, ""⟩, {}⟩, ⟨⟨.eof, ""⟩, {}⟩,
      ⟨⟨.hexNumber, "fF"⟩, {}⟩], t.toWord.IsNumeral) ∧
    ((∃ p, parseSource "org 'x" = .ok p) ∨
      ∃ e, parseSource "org 'x" = .error e ∧ e.IsDocumented) ∧
    ((∃ p, parse [⟨⟨.ident, "org"⟩, {}⟩, ⟨⟨.number, ""⟩, {}⟩, ⟨⟨.eof, ""⟩, {}⟩,
        ⟨⟨.hexNumber, "fF"⟩, {}⟩] = .ok p) ∨
      ∃ e, parse [⟨⟨.ident, "org"⟩, {}⟩, ⟨⟨.number, ""⟩, {}⟩, ⟨⟨.eof, ""⟩, {}⟩,
        ⟨⟨.hexNumber, "fF"⟩, {}⟩] = .error e ∧ e.IsSyntax) ∧
    Stacks.expression (.ofTokens [⟨⟨.mark .rightParen, ")"⟩, {}⟩]) =
      .ok (Parse.expression (.ofTokens [⟨⟨.mark .rightParen, ")"⟩, {}⟩])) := by
  have hts : ∀ t ∈ [(⟨⟨.ident, "org"⟩, {}⟩ : Token), ⟨⟨.number, ""⟩, {}⟩, ⟨⟨.eof, ""⟩, {}⟩,
      ⟨⟨.hexNumber, "fF"⟩, {}⟩], t.toWord.IsNumeral := by
    simp only [List.forall_mem_cons]
    refine ⟨⟨by simp, by simp⟩, ⟨by simp, by simp⟩, ⟨by simp, by simp⟩, ⟨by simp, fun _ => ?_⟩,
      by simp⟩
    exact ⟨['f', 'F'], by simp, List.all_eq_true.1 (by decide), .inl rfl⟩
  exact ⟨hts, frontEnd_fails_as_documented "org 'x" _ hts _⟩

end IntelAsm
