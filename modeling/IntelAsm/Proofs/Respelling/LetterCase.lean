import IntelAsm.Proofs.Lexer.LetterCase
import IntelAsm.Proofs.RoundTrip.ParsePrint

/-!
# Letter case and the structure of programs

Sources that differ in letter case only have the same structure (`parseSource_of_toLower_eq`): the
lexer finds the same tokens but for the case of their texts, and the parser may have their texts in
lower case before it starts or in its program afterwards. The latter is a law of lawful respellings,
and forgetting letter case is one on all that the lexer makes (`lawful_caselessLexed`): in
upper case a mnemonic is the same, a keyword is one in any case, and so is a digit.
-/

namespace IntelAsm

open Text

/-! ### Hexadecimal numerals -/

namespace Numeral

theorem caseless_digitValue? : Caseless digitValue? := caseless_of_capitals (by decide)

theorem IsDigits.map_toLower {base : Nat} {cs : List Char} (h : IsDigits base cs) :
    IsDigits base (cs.map Char.toLower) where
  ne_nil := by simpa using h.ne_nil
  isSome := by
    intro c hc
    obtain ⟨d, hd, rfl⟩ := List.mem_map.1 hc
    rw [digit?, caseless_digitValue?]
    exact h.isSome d hd

/-- The text of a hexadecimal literal without separators. -/
def isHexadecimal : List Char → Bool
  | '0' :: x :: ds => (x = 'x' || x = 'X') && !ds.isEmpty && ds.all isHexDigit
  | _ => false

theorem isHexadecimal_iff {cs : List Char} :
    isHexadecimal cs ↔ ∃ x ds, cs = '0' :: x :: ds ∧ (x = 'x' ∨ x = 'X') ∧ ds ≠ [] ∧
      ∀ c ∈ ds, isHexDigit c := by
  unfold isHexadecimal
  split
  · next x ds => simp [and_assoc]
  · next h =>
    refine ⟨nofun, ?_⟩
    rintro ⟨x, ds, rfl, -⟩
    exact absurd rfl (h x ds)

/-- A hexadecimal literal stands for the same number in any letter case. -/
theorem integer?_of_isHexadecimal {cs : List Char} (h : isHexadecimal cs) :
    ∃ n, integer? 16 cs = some n ∧ integer? 16 (cs.map Char.toLower) = some n := by
  obtain ⟨x, ds, rfl, hx, hne, hds⟩ := isHexadecimal_iff.1 h
  have hdigits : IsDigits 16 ds := ⟨hne, fun c hc => digit?_sixteen_isSome (hds c hc)⟩
  have hx' : x.toLower = 'x' ∨ x.toLower = 'X' := by
    rcases hx with rfl | rfl <;> decide
  have hvalues : (ds.map Char.toLower).filterMap (digit? 16) = ds.filterMap (digit? 16) := by
    have hdigit : Caseless (digit? 16) := fun c => by rw [digit?, caseless_digitValue?, digit?]
    rw [List.filterMap_map, hdigit.comp_toLower]
  have hlower := integer?_sixteen hx' hdigits.map_toLower
  rw [hvalues] at hlower
  exact ⟨_, integer?_sixteen hx hdigits, hlower⟩

end Numeral

/-! ### Forgetting letter case -/

namespace Respelling

/-- Forgetting letter case where the lexer makes the texts: what it never makes of a numeral or a
mark stays as it is. -/
def caselessLexed : Respelling where
  text k s :=
    match k with
    | .number | .mark _ => s
    | .hexNumber => if Numeral.isHexadecimal s.toList then s.toLower else s
    | _ => s.toLower
  place p := p

theorem lawful_caselessLexed : caselessLexed.Lawful where
  place_nowhere := rfl
  end_text := toLower_eq_iff.2 rfl
  mark_text _ _ := rfl
  value := by
    rintro ⟨k, s⟩ hk
    simp only [TokenKind.isNumeric, Bool.or_eq_true, decide_eq_true_eq] at hk
    rcases hk with rfl | rfl
    · rfl
    · show Word.value ⟨.hexNumber, if Numeral.isHexadecimal s.toList then s.toLower else s⟩ = _
      split
      · next h =>
        obtain ⟨n, hn, hlower⟩ := Numeral.integer?_of_isHexadecimal h
        rw [Word.value, Word.value, if_pos rfl, if_pos rfl, toList_toLower, hlower, hn]
      · rfl
  upper := upper_toLower
  keyword := isLabelKeyword_toLower

/-! ### What the lexer makes -/

theorem word_caselessLexed {w : Word} (h : w.Lexed) : caselessLexed.word w = caseless.word w := by
  cases h with
  | @number text hne hds =>
    have hdigit : ∀ c ∈ text.toList, c.toLower = id c := by
      refine fun c hc => Lexeme.toLower_of_not_startsWord fun hs => ?_
      simpa [Lexeme.not_isDecimalDigit_of_startsWord hs] using hds c hc
    have htext : text.toLower = text := by
      rw [toLower_eq_iff, List.map_congr_left hdigit, List.map_id]
    simp only [word, caseless, caselessLexed, htext]
  | @hexNumber text x ds hx hne hds ht =>
    have hhex : Numeral.isHexadecimal text.toList :=
      Numeral.isHexadecimal_iff.2 ⟨x, ds, ht, hx, hne, hds⟩
    simp only [word, caseless, caselessLexed, if_pos hhex]
  | mark m =>
    have hchar : (String.singleton m.char).toLower = String.singleton m.char := by
      rw [toLower_eq_iff]
      cases m <;> decide
    simp only [word, caseless, caselessLexed, hchar]
  | ident => rfl
  | register => rfl
  | string => rfl
  | comment => rfl
  | newline => rfl
  | size => rfl

/-- Letter case that is forgotten in part and then everywhere is forgotten everywhere. -/
theorem caseless_word_caselessLexed (w : Word) :
    caseless.word (caselessLexed.word w) = caseless.word w := by
  obtain ⟨k, s⟩ := w
  have htext : (caselessLexed.text k s).toLower = s.toLower := by
    cases k with
    | number => rfl
    | mark m => rfl
    | hexNumber =>
      show (if Numeral.isHexadecimal s.toList then s.toLower else s).toLower = s.toLower
      split
      · exact toLower_toLower s
      · rfl
    | _ => exact toLower_toLower s
  exact congrArg (Word.mk k) htext

theorem caseless_error_caselessLexed (e : ParseError) :
    caseless.error (caselessLexed.error e) = caseless.error e := by
  obtain ⟨f, pos⟩ := e
  cases f <;> simp only [error, fault, caseless_word_caselessLexed] <;> rfl

/-- What a respelling makes of a program depends on its names, strings and comments only. -/
theorem program_congr {f g : Respelling} (hplace : f.place = g.place)
    (hident : f.text .ident = g.text .ident) (hregister : f.text .register = g.text .register)
    (hstring : f.text .string = g.text .string) (hcomment : f.text .comment = g.text .comment) :
    f.program = g.program := by
  have hexpr : f.expr = g.expr := by
    funext e
    induction e with
    | literal | symbol | here => simp only [expr, hplace, hident]
    | unary op e pos ih => simp only [expr, hplace, ih]
    | binary op l r pos ihl ihr => simp only [expr, hplace, ihl, ihr]
  have hform : f.form = g.form := by
    funext o
    cases o <;> simp only [form, address, hident, hregister, hstring, hexpr]
  have hoperand : f.operand = g.operand := by
    funext o
    simp only [operand, hform, hplace]
  have hlabel : f.label = g.label := by
    funext l
    simp only [label, hident, hplace]
  have hinstruction : f.instruction = g.instruction := by
    funext i
    simp only [instruction, hoperand, hident, hcomment, hexpr, hplace]
  funext p
  simp only [program, hinstruction, hlabel]

theorem program_caselessLexed : caselessLexed.program = caseless.program :=
  program_congr rfl rfl rfl rfl rfl

end Respelling

open Respelling

/-- Results with equal images are both values or both errors. -/
theorem results_of_images_eq {α β δ ε : Type} {r r' : Except ε α} {f : α → β} {g : ε → δ}
    (h : (r.map f).mapError g = (r'.map f).mapError g) :
    (∃ a a', r = .ok a ∧ r' = .ok a' ∧ f a = f a') ∨
    ∃ e e', r = .error e ∧ r' = .error e' ∧ g e = g e' := by
  cases r with
  | ok a =>
    cases r' with
    | ok a' => exact .inl ⟨a, a', rfl, rfl, Except.ok.inj h⟩
    | error e' => cases h
  | error e =>
    cases r' with
    | ok a' => cases h
    | error e' => exact .inr ⟨e, e', rfl, rfl, Except.error.inj h⟩

/-- The tokens of a source may be put in lower case before they are parsed, or the texts of their
program or error afterwards. -/
theorem parse_map_caseless {p : Pos} {cs : List Char} {ts : List Token} (h : scan p cs = .ok ts) :
    parse (ts.map caseless.token) =
      ((parse ts).map caseless.program).mapError caselessLexed.error := by
  have htokens : ts.map caseless.token = ts.map caselessLexed.token := by
    refine List.map_congr_left fun t ht => ?_
    obtain ⟨us, rfl, hus⟩ := lexed_of_scan h
    rcases List.mem_append.1 ht with ht | ht
    · simp only [token, word_caselessLexed (hus t ht)]
      rfl
    · rw [List.mem_singleton.1 ht]
      rfl
  rw [htokens, parse_respell lawful_caselessLexed, program_caselessLexed]

/-- Sources that differ in letter case only have tokens that do, or the same lexical error. -/
theorem scan_of_toLower_eq {s s' : String} (h : s.toLower = s'.toLower) :
    (∃ ts ts', scan .start s.toList = .ok ts ∧ scan .start s'.toList = .ok ts' ∧
      ts.map caseless.token = ts'.map caseless.token) ∨
    ∃ e e', scan .start s.toList = .error e ∧ scan .start s'.toList = .error e' ∧ e = e' := by
  have hscan : (scan .start s.toList).map (·.map caseless.token) =
      (scan .start s'.toList).map (·.map caseless.token) := by
    rw [← scan_map_toLower, ← scan_map_toLower, ← toList_toLower, ← toList_toLower, h]
  exact results_of_images_eq (g := id) (congrArg (Except.mapError id) hscan)

/-- Tokens that differ in letter case only have programs that do, or errors at the same place. -/
theorem parse_of_map_caseless_eq {p p' : Pos} {cs cs' : List Char} {ts ts' : List Token}
    (hs : scan p cs = .ok ts) (hs' : scan p' cs' = .ok ts')
    (h : ts.map caseless.token = ts'.map caseless.token) :
    (∃ q q', parse ts = .ok q ∧ parse ts' = .ok q' ∧ caseless.program q = caseless.program q') ∨
    ∃ e e', parse ts = .error e ∧ parse ts' = .error e' ∧ caseless.error e = caseless.error e' := by
  have hparse : ((parse ts).map caseless.program).mapError caselessLexed.error =
      ((parse ts').map caseless.program).mapError caselessLexed.error := by
    rw [← parse_map_caseless hs, ← parse_map_caseless hs', h]
  refine (results_of_images_eq hparse).imp_right ?_
  rintro ⟨e, e', he, he', heq⟩
  refine ⟨e, e', he, he', ?_⟩
  rw [← caseless_error_caselessLexed e, ← caseless_error_caselessLexed e', heq]

theorem parseSource_of_scan_error {source : String} {e : LexError}
    (h : scan .start source.toList = .error e) :
    parseSource source = .error (.reading (.lexical e)) := by
  rw [parseSource, tokenize_eq, h]
  rfl

/-- Two sources that differ at most in the case of letters of ASCII have programs that are equal but
for the case of names, strings and comments, or the same lexical error, or errors of grammar of the
same kind at the same place. -/
theorem parseSource_of_toLower_eq (s s' : String) (h : s.toLower = s'.toLower) :
    (∃ p p', parseSource s = .ok p ∧ parseSource s' = .ok p' ∧
      caseless.program p = caseless.program p') ∨
    (∃ e, parseSource s = .error (.reading (.lexical e)) ∧
      parseSource s' = .error (.reading (.lexical e))) ∨
    ∃ e e', parseSource s = .error (.grammar e) ∧ parseSource s' = .error (.grammar e') ∧
      e.pos = e'.pos ∧ caseless.fault e.fault = caseless.fault e'.fault := by
  obtain ⟨ts, ts', hs, hs', htokens⟩ | ⟨e, e', hs, hs', rfl⟩ := scan_of_toLower_eq h
  case inr => exact .inr (.inl ⟨e, parseSource_of_scan_error hs, parseSource_of_scan_error hs'⟩)
  rw [parseSource_of_tokenize (tokenize_eq_ok.2 hs), parseSource_of_tokenize (tokenize_eq_ok.2 hs')]
  obtain ⟨q, q', hq, hq', heq⟩ | ⟨e, e', he, he', heq⟩ := parse_of_map_caseless_eq hs hs' htokens
  · rw [hq, hq']
    exact .inl ⟨q, q', rfl, rfl, heq⟩
  · rw [he, he']
    have hpos : (caseless.error e).pos = (caseless.error e').pos := by rw [heq]
    have hfault : (caseless.error e).fault = (caseless.error e').fault := by rw [heq]
    exact .inr (.inr ⟨e, e', rfl, rfl, hpos, hfault⟩)

/-- Registers, sizes, markers, digits, keywords and mnemonics in other cases than usual: the program
is the same but for the names. -/
theorem parseSource_of_toLower_eq_of_equate :
    "Mask EQU 0xfF\nmov eax, Dword ptr [rbx+0XA]".toLower =
      "mASK equ 0XFf\nMOV EAX, dWord PTR [RBX+0xa]".toLower ∧
    ∃ p p', parseSource "Mask EQU 0xfF\nmov eax, Dword ptr [rbx+0XA]" = .ok p ∧
      parseSource "mASK equ 0XFf\nMOV EAX, dWord PTR [RBX+0xa]" = .ok p' ∧
      caseless.program p = caseless.program p' := by
  have h : "Mask EQU 0xfF\nmov eax, Dword ptr [rbx+0XA]".toLower =
      "mASK equ 0XFf\nMOV EAX, dWord PTR [RBX+0xa]".toLower := by
    rw [toLower_eq_iff, toList_toLower]
    decide
  have hok : (parseSource "Mask EQU 0xfF\nmov eax, Dword ptr [rbx+0XA]").isOk := by
    decide +kernel
  refine ⟨h, ?_⟩
  obtain hp | ⟨e, he, -⟩ | ⟨e, -, he, -⟩ := parseSource_of_toLower_eq _ _ h
  · exact hp
  · rw [he] at hok
    cases hok
  · rw [he] at hok
    cases hok

end IntelAsm
