import IntelAsm.Proofs.Grammar.Exchange
import IntelAsm.Proofs.Grammar.Overflow

/-!
# Literals are exact

A literal of any length is read as the number that its digits stand for, or it is out of range, and
what `Spelling` writes for a number is read as that number (`literals_exact`).
-/

namespace IntelAsm

open Lexeme Parse
open Numeral (limit stored)
open Descent (IsSum)

/-! ### Texts of several tokens -/

/-- Whatever follows it, a text that starts at `p` is lexed as the tokens `us`. -/
def LexedFrom (p : Pos) (l : List Char) (us : List Token) : Prop :=
  ∀ rest, scan p (l ++ rest) = (scan (p.afterAll l) rest).map (us ++ ·)

namespace LexedFrom

variable {p : Pos} {w : Word} {l cs : List Char} {us : List Token}

theorem nil (p : Pos) : LexedFrom p [] [] := by
  intro rest
  rw [List.nil_append, Pos.afterAll_nil]
  cases scan p rest <;> rfl

theorem cons (hl : w.Spells l) (he : ∀ rest, w.EndsBefore l (cs ++ rest))
    (h : LexedFrom (p.afterAll l) cs us) : LexedFrom p (l ++ cs) (⟨w, p⟩ :: us) := by
  intro rest
  rw [List.append_assoc, scan_of_spells hl (he rest), h rest, Pos.afterAll_append]
  cases scan ((p.afterAll l).afterAll cs) rest <;> rfl

end LexedFrom

/-! ### Displacements -/

theorem breaks_mark (m : Mark) (cs : List Char) : Breaks (m.char :: cs) := (ends_mark m cs).breaks

theorem Parse.takes_operand_of_address {t : Token} {us ts : List Token} {a : Address}
    (ht : t.kind = .mark .leftBracket) (h : Takes (address none) (t :: us) ts a) :
    Takes operand (t :: us) ts { form := .memory a, pos := t.pos } := by
  have hform : Takes (operandForm t.pos none) (t :: us) ts { form := .memory a, pos := t.pos } := by
    refine takes_bind takes_current ?_
    rw [if_pos ht]
    exact takes_bind h takes_pure
  intro past
  obtain ⟨past', hform⟩ := hform past
  refine ⟨past', ?_⟩
  have hsize : ∀ w, (Cursor.current ⟨past, t :: us⟩).kind ≠ .size w := by
    intro w
    show t.kind ≠ .size w
    simp [ht]
  exact (operand_of_no_size hsize).trans hform

theorem Parse.takes_operand_displacement {l r s t u : Token} {v : Int}
    (hl : l.kind = .mark .leftBracket) (hr : r.kind = .register) (hs : IsSum s.kind)
    (ht : t.kind.isNumeric) (hv : t.value = .ok v) (hu : u.kind = .mark .rightBracket)
    (ts : List Token) :
    Takes operand ([l, r, s, t, u] ++ ts) ts
      { form := .memory
          { base := some r.text
            displacement := some (if s.kind = .mark .plus then v else Numeral.signedWord (-v)) }
        pos := l.pos } := by
  have haddress : Address.Spells none _ [l, r, s, t, u] :=
    .mk hl .none (.base hr) (.cons (.displacement hs ht hv) .nil) (.inl (by simp)) hu
  exact takes_operand_of_address hl (haddress.takes ts)

/-- A displacement with its sign is read back behind a base. -/
theorem takes_spelled_displacement {base : String} {d : Int} (hb : isRegister base)
    (h : Numeral.minSigned ≤ d) (h' : d ≤ Numeral.maxSigned) (p : Pos) :
    ∃ us, LexedFrom p ("[" ++ base ++ Spelling.signed d ++ "]").toList us ∧
      ∀ ts, Takes operand (us ++ ts) ts
        { form := .memory { base := some base, displacement := some d }, pos := p } := by
  obtain ⟨m, isHex, l, n, hm, htext, hl, hn, hd⟩ := literalText_signed h h'
  have ht : ("[" ++ base ++ Spelling.signed d ++ "]").toList = [Mark.leftBracket.char] ++
      (base.toList ++ ([m.char] ++ (l ++ ([Mark.rightBracket.char] ++ [])))) := by
    simp [htext, Mark.char]
  have hregister : Word.Spells ⟨.register, base⟩ base.toList := by
    have hspells := Word.Spells.register (l := base.toList) (isWord_of_isRegister hb).1
    simp only [String.ofList_toList] at hspells
    exact hspells hb
  rw [ht]
  -- a bracket, the base, the sign, the number and the other bracket
  refine ⟨_, .cons (.mark .leftBracket) (fun _ => trivial) (.cons hregister
    (fun rest => breaks_mark m _) (.cons (.mark m) (fun _ => trivial) (.cons hl.spells
      (fun rest => hl.endsBefore (breaks_mark .rightBracket _))
        (.cons (.mark .rightBracket) (fun _ => trivial) (.nil _))))), fun ts => ?_⟩
  have hs : IsSum (TokenKind.mark m) := hm.imp (congrArg _) (congrArg _)
  have hv : (Word.ofLiteral isHex l).value = .ok (stored isHex n) := by rw [hl.value_eq, if_pos hn]
  rw [← hd]
  exact takes_operand_displacement rfl rfl hs (LiteralText.isNumeric isHex l) hv rfl ts

/-! ### Literals of programs -/

theorem lines_of_parseSource {source : String} {ts : List Token} {p : Program}
    (hts : tokenize source = .ok ts) (hp : parseSource source = .ok p) :
    ∃ us e xs, ts = us ++ [e] ∧ e.kind = .eof ∧ Lines xs us := by
  obtain ⟨us, e, rfl, he, hus⟩ := ended_of_scan (tokenize_eq_ok.1 hts)
  have hc : CommentsEnd (us ++ [e]) := ((tokenize_eq_ok_iff _ _).1 hts).commentsEnd
  have hparse : parse (us ++ [e]) = .ok p := by
    rw [parseSource_of_tokenize hts] at hp
    cases hr : parse (us ++ [e]) with
    | ok q =>
      rw [hr] at hp
      exact congrArg Except.ok (Except.ok.inj hp)
    | error f =>
      rw [hr] at hp
      cases hp
  obtain ⟨xs, hlines, -⟩ := (parse_eq_ok_iff_lines hus he hc).1 hparse
  exact ⟨us, e, xs, rfl, he, hlines⟩

section
variable {source source' : String} {p : Program} {us vs ws : List Token} {z t : Token}
  (hs : tokenize source = .ok (us ++ z :: vs)) (hp : parseSource source = .ok p)
  (hz : z.kind.isNumeric) (hs' : tokenize source' = .ok (us ++ t :: ws)) (ht : t.kind.isNumeric)
include hs hp hz

theorem lines_of_literal :
    ∃ vs' e xs, vs = vs' ++ [e] ∧ e.kind = .eof ∧ Lines xs (us ++ z :: vs') := by
  obtain ⟨ts, e, xs, hts, he, hlines⟩ := lines_of_parseSource hs hp
  rcases List.eq_nil_or_concat vs with rfl | ⟨vs', f, rfl⟩
  · -- the end marker is no literal
    obtain ⟨-, hze⟩ := List.append_inj' hts rfl
    obtain rfl : z = e := by simpa using hze
    rw [he] at hz
    cases hz
  · rw [List.concat_eq_append, ← List.cons_append, ← List.append_assoc] at hts
    obtain ⟨rfl, hfe⟩ := List.append_inj' hts rfl
    obtain rfl : f = e := by simpa using hfe
    exact ⟨vs', f, xs, List.concat_eq_append, he, hlines⟩

include hs' ht

/-- In the place of a literal of a program, a literal out of range is the error. -/
theorem parseSource_eq_error_of_refused (hr : t.Refused) :
    parseSource source' = .error (.grammar ⟨.outOfRange, t.pos⟩) := by
  obtain ⟨vs', e, xs, rfl, he, hlines⟩ := lines_of_literal hs hp hz
  rw [parseSource_of_tokenize hs', hlines.parse_eq_error hz ht hr ws]
  rfl

/-- In the place of a literal of a program, a literal with a value makes a program too, which is
spelled with it. -/
theorem exists_lines_of_value {v : Int} (hv : t.value = .ok v)
    (hws : ws.map Token.toWord = vs.map Token.toWord) :
    ∃ ys ws' e, ws = ws' ++ [e] ∧ e.kind = .eof ∧ Lines ys (us ++ t :: ws') ∧
      parseSource source' = .ok (.ofItems ys) := by
  obtain ⟨vs', e, xs, rfl, he, hlines⟩ := lines_of_literal hs hp hz
  rw [List.map_append] at hws
  obtain ⟨ws', es, rfl, hws', hes⟩ := List.map_eq_append_iff.1 hws
  obtain ⟨e', rfl, he'⟩ : ∃ e', es = [e'] ∧ e'.toWord = e.toWord := by simpa using hes
  have hbehind : Exchanged (z :: vs') (t :: ws') :=
    .cons (.inr ⟨hz, ht, v, hv⟩) (Exchanged.of_words hws')
  have hexchanged : Exchanged (us ++ z :: vs') (us ++ t :: ws') :=
    List.rel_append (Exchanged.of_words rfl) hbehind
  obtain ⟨ys, hys⟩ := hlines.exchange hexchanged
  have hend : e'.kind = .eof := (congrArg Word.kind he').trans he
  have hparse : parse (us ++ t :: (ws' ++ [e'])) = .ok (.ofItems ys) := by
    simpa using hys.parse_eq hend
  have hsource : parseSource source' = .ok (.ofItems ys) := by
    rw [parseSource_of_tokenize hs', hparse]
    rfl
  exact ⟨ys, ws', e', rfl, hend, hys, hsource⟩

end

/-! ### The result -/

theorem LiteralText.value_of_word {isHex : Bool} {l : List Char} {n : Nat} {t : Token}
    (h : LiteralText isHex l n) (ht : t.toWord = Word.ofLiteral isHex l) :
    t.value = if n ≤ limit isHex then .ok (stored isHex n) else .error .outOfRange := by
  show Word.value t.toWord = _
  rw [ht, h.value_eq]

theorem LiteralText.accepted {isHex : Bool} {l : List Char} {n : Nat} {t : Token}
    (h : LiteralText isHex l n) (ht : t.toWord = Word.ofLiteral isHex l) (hn : n ≤ limit isHex) :
    t.Accepted isHex (stored isHex n) := by
  have hkind : t.kind = (Word.ofLiteral isHex l).kind := congrArg Word.kind ht
  have hhex : isHex = decide (t.kind = .hexNumber) := by
    rw [hkind]
    cases isHex <;> rfl
  have hv : t.value = .ok (stored isHex n) := by rw [h.value_of_word ht, if_pos hn]
  have haccepted := Token.accepted_of_value (hkind ▸ isNumeric isHex l) hv
  rwa [← hhex] at haccepted

theorem LiteralText.refused {isHex : Bool} {l : List Char} {n : Nat} {t : Token}
    (h : LiteralText isHex l n) (ht : t.toWord = Word.ofLiteral isHex l) (hn : limit isHex < n) :
    t.Refused := by
  have hkind : t.kind = (Word.ofLiteral isHex l).kind := congrArg Word.kind ht
  have hv : t.value = .error .outOfRange := by
    rw [h.value_of_word ht, if_neg (Nat.not_le_of_lt hn)]
  exact Token.refused_of_value (hkind ▸ isNumeric isHex l) hv

/-- A literal of any length is one token; wherever it is read it is taken for its number if that is
in range, and is out of range otherwise. So in the place of a literal of a program it makes a
program with what follows, in which it has that value where the grammar puts it, or it is the error
whatever follows. In turn what is written for a number is read as that number, a literal in any
place and a displacement behind a base. -/
theorem literals_exact :
    (∀ isHex l n, LiteralText isHex l n →
      LexedAs l (.ofLiteral isHex l) ∧
      ∀ t : Token, t.toWord = .ofLiteral isHex l →
        (n ≤ limit isHex → t.Accepted isHex (stored isHex n)) ∧ (limit isHex < n → t.Refused)) ∧
    ParseFault.outOfRange.message = "Numeric literal out of 64-bit range" ∧
    (∀ source p us z vs, tokenize source = .ok (us ++ z :: vs) → parseSource source = .ok p →
      z.kind.isNumeric → ∀ source' t ws, tokenize source' = .ok (us ++ t :: ws) →
      ∀ isHex l n, LiteralText isHex l n → t.toWord = .ofLiteral isHex l →
        (n ≤ limit isHex → ws.map Token.toWord = vs.map Token.toWord →
          t.value = .ok (stored isHex n) ∧
            ∃ ys ws' e, ws = ws' ++ [e] ∧ e.kind = .eof ∧ Lines ys (us ++ t :: ws') ∧
              parseSource source' = .ok (.ofItems ys)) ∧
        (limit isHex < n → parseSource source' = .error (.grammar ⟨.outOfRange, t.pos⟩))) ∧
    (∀ v (isHex : Bool), Numeral.minSigned ≤ v → v ≤ Numeral.maxSigned → (0 ≤ v ∨ isHex) →
      ∃ w, LexedAs (Spelling.literal v isHex).toList w ∧
        ∀ t : Token, t.toWord = w → t.Accepted isHex v) ∧
    (∀ base d, isRegister base → Numeral.minSigned ≤ d → d ≤ Numeral.maxSigned →
      ∀ p, ∃ us, LexedFrom p ("[" ++ base ++ Spelling.signed d ++ "]").toList us ∧
        ∀ ts, Takes operand (us ++ ts) ts
          { form := .memory { base := some base, displacement := some d }, pos := p }) := by
  refine ⟨fun isHex l n h => ⟨h.lexedAs, fun t ht => ⟨h.accepted ht, h.refused ht⟩⟩, rfl, ?_, ?_,
    fun base d hb h h' => takes_spelled_displacement hb h h'⟩
  · intro source p us z vs hs hp hz source' t ws hs' isHex l n h hw
    have ht : t.kind.isNumeric := by
      rw [show t.kind = _ from congrArg Word.kind hw]
      exact LiteralText.isNumeric isHex l
    refine ⟨fun hn hws => ?_, fun hn => ?_⟩
    · have hv : t.value = .ok (stored isHex n) := by rw [h.value_of_word hw, if_pos hn]
      exact ⟨hv, exists_lines_of_value hs hp hz hs' ht hv hws⟩
    · exact parseSource_eq_error_of_refused hs hp hz hs' ht (h.refused hw hn)
  · intro v isHex h h' hv
    obtain ⟨n, hl, hn, rfl⟩ := literalText_literal h h' hv
    exact ⟨_, hl.lexedAs, fun t ht => hl.accepted ht hn⟩

/-- The least decimal literal that is out of range, and the largest hexadecimal one that is not. -/
theorem literals_exact_of_bounds :
    Token.Refused ⟨.ofLiteral false (Numeral.decimal 0x8000000000000000).toList, ⟨1, 5⟩⟩ ∧
      Token.Accepted ⟨.ofLiteral true (Numeral.hexadecimal 0xFFFFFFFFFFFFFFFF).toList, ⟨1, 5⟩⟩
        true (-1) ∧
      parseSource "int 9223372036854775808" = .error (.grammar ⟨.outOfRange, ⟨1, 5⟩⟩) ∧
      ∃ q, parseSource "int 0xFFFFFFFFFFFFFFFF" = .ok q := by
  obtain ⟨hread, -, hplace, -⟩ := literals_exact
  have hdecimal := literalText_decimal 0x8000000000000000
  have hhexadecimal := literalText_hexadecimal 0xFFFFFFFFFFFFFFFF
  have hrefused := ((hread _ _ _ hdecimal).2 ⟨_, ⟨1, 5⟩⟩ rfl).2 (by decide)
  have haccepted := ((hread _ _ _ hhexadecimal).2 ⟨_, ⟨1, 5⟩⟩ rfl).1 (by decide)
  have hv : stored true 0xFFFFFFFFFFFFFFFF = -1 := by decide
  rw [hv] at haccepted
  have hs : tokenize "int 1" = .ok ([⟨⟨.ident, "int"⟩, ⟨1, 1⟩⟩] ++ ⟨⟨.number, "1"⟩, ⟨1, 5⟩⟩ ::
      [⟨⟨.eof, ""⟩, ⟨1, 6⟩⟩]) := by
    decide +kernel
  have hp : parseSource "int 1" = .ok
      ⟨[{ mnemonic := "INT", operands := [{ form := .immediate 1 false, pos := ⟨1, 5⟩ }],
          pos := ⟨1, 1⟩ }], []⟩ := by
    decide +kernel
  have hplace := hplace _ _ _ _ _ hs hp rfl
  have herror := (hplace "int 9223372036854775808"
    ⟨.ofLiteral false (Numeral.decimal 0x8000000000000000).toList, ⟨1, 5⟩⟩
    [⟨⟨.eof, ""⟩, ⟨1, 24⟩⟩] (by decide +kernel) _ _ _ hdecimal rfl).2 (by decide)
  obtain ⟨-, ys, -, -, -, -, -, hok⟩ := (hplace "int 0xFFFFFFFFFFFFFFFF"
    ⟨.ofLiteral true (Numeral.hexadecimal 0xFFFFFFFFFFFFFFFF).toList, ⟨1, 5⟩⟩
    [⟨⟨.eof, ""⟩, ⟨1, 23⟩⟩] (by decide +kernel) _ _ _ hhexadecimal rfl).1 (by decide) rfl
  exact ⟨hrefused, haccepted, herror, _, hok⟩

end IntelAsm
