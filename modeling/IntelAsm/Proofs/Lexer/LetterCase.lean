import IntelAsm.Proofs.Lexer.Scan
import IntelAsm.Proofs.Respelling.Basic
import IntelAsm.Proofs.Text.LetterCase

/-!
# Letter case and the lexer

A source in lower case has the tokens of the source, at the same places and with their texts in
lower case, and the same lexical fault if it has one (`scan_map_toLower`). For each reader takes as
many characters in one letter case as in the other: all that it asks of a character is `Caseless`.
-/

namespace IntelAsm

open Text

/-- Forgetting the letter case of all texts. -/
def Respelling.caseless : Respelling where
  text _ s := s.toLower
  place p := p

/-- What is found of a word without its letter case. -/
def Reading.caseless (r : Reading Word) : Reading Word where
  outcome :=
    match r.outcome with
    | .found w => .found (Respelling.caseless.word w)
    | o => o
  length := r.length

namespace Lexeme

theorem caseless_found (k : TokenKind) (cs : List Char) (n : Nat) :
    Reading.caseless ⟨.found ⟨k, String.ofList cs⟩, n⟩ =
      ⟨.found ⟨k, String.ofList (cs.map Char.toLower)⟩, n⟩ := by
  rw [← toLower_ofList]
  rfl

/-! ### Readers -/

theorem comment_map_toLower (cs : List Char) :
    comment (cs.map Char.toLower) = (comment cs).caseless := by
  have hline : Caseless fun c => decide (c ≠ '\n') := caseless_of_capitals (by decide)
  simp only [comment, caseless_found, hline.takeWhile, List.length_map]

theorem digitRun_map_toLower {isDigit : Char → Bool} (h : Caseless isDigit) (cs : List Char) :
    digitRun isDigit (cs.map Char.toLower) = (digitRun isDigit cs).map Char.toLower :=
  (h.or (caseless_eq (by decide) (by decide))).takeWhile cs

/-- The separators among digits have no case. -/
theorem digitsOf_map_toLower (cs : List Char) :
    digitsOf (cs.map Char.toLower) = (digitsOf cs).map Char.toLower :=
  Caseless.filter (caseless_of_capitals (by decide)) cs

/-- Neither have decimal digits. -/
theorem number_map_toLower (cs : List Char) :
    number (cs.map Char.toLower) = (number cs).caseless := by
  simp only [number, caseless_found, digitRun_map_toLower caseless_isDecimalDigit,
    digitsOf_map_toLower, List.length_map]

/-- A hexadecimal literal, which may have letters, is read from lower case as itself in lower case. -/
theorem hexNumber_map_toLower (cs : List Char) :
    hexNumber (cs.map Char.toLower) = (hexNumber cs).caseless := by
  match cs with
  | [] => rfl
  | [_] => rfl
  | x :: y :: cs =>
    simp only [List.map_cons, hexNumber, digitRun_map_toLower caseless_isHexDigit,
      digitsOf_map_toLower, List.length_map, List.map_eq_nil_iff]
    split
    · rfl
    · rw [caseless_found]
      rfl

theorem afterWord_map_toLower (word cs : List Char) :
    afterWord word (cs.map Char.toLower) = (afterWord word cs).map (List.map Char.toLower) := by
  fun_induction afterWord word cs with
  | case1 cs => rfl
  | case2 w ws c cs h ih => rw [List.map_cons, afterWord, caseless_lowerChar, if_pos h, ih]
  | case3 w ws c cs h => rw [List.map_cons, afterWord, caseless_lowerChar, if_neg h]; rfl
  | case4 w ws => rfl

/-- A word is looked for in either case. -/
theorem wordAhead_map_toLower (word cs : List Char) :
    wordAhead word (cs.map Char.toLower) = wordAhead word cs := by
  rw [wordAhead, wordAhead, caseless_isInlineSpace.dropWhile, afterWord_map_toLower, gap,
    caseless_isInlineSpace.takeWhile, List.length_map]
  cases afterWord word (cs.dropWhile isInlineSpace) with
  | none => rfl
  | some rest => simp only [Option.map_some, caseless_continuesWord.head?_any, gap]

theorem identifier_map_toLower (cs : List Char) :
    identifier (cs.map Char.toLower) = (identifier cs).caseless := by
  have hsize (w : Width) : (w.keyword ++ " " ++ sizeSuffix).toLower =
      w.keyword ++ " " ++ sizeSuffix := by
    rw [toLower_eq_iff]
    cases w <;> decide
  simp only [identifier, caseless_continuesWord.takeWhile, caseless_continuesWord.dropWhile,
    ← toLower_ofList, lower_toLower, isRegister_toLower, wordAhead_map_toLower, List.length_map]
  cases Width.ofKeyword? (lower (String.ofList (cs.takeWhile continuesWord))) with
  | none => rfl
  | some w =>
    cases wordAhead sizeSuffix.toList (cs.dropWhile continuesWord) with
    | none => rfl
    | some n => simp only [Reading.caseless, Respelling.word, Respelling.caseless, hsize]

/-- Quotes have no letter case. -/
theorem toLower_quote {quote : Char} (h : quote = '"' ∨ quote = '\'') :
    quote.toLower = quote ∧ quote.toUpper = quote := by
  rcases h with rfl | rfl <;> decide

theorem stringBody_map_toLower {quote : Char} (hq : quote = '"' ∨ quote = '\'')
    (cs : List Char) :
    stringBody quote (cs.map Char.toLower) = (stringBody quote cs).map Char.toLower := by
  have hquote (c : Char) : c.toLower = quote ↔ c = quote :=
    toLower_eq_char_iff (toLower_quote hq).1 (toLower_quote hq).2
  have hline (c : Char) : c.toLower = '\n' ↔ c = '\n' :=
    toLower_eq_char_iff (by decide) (by decide)
  have hescape (c : Char) : c.toLower = '\\' ↔ c = '\\' :=
    toLower_eq_char_iff (by decide) (by decide)
  fun_induction stringBody quote cs with
  | case1 => rfl
  | case2 c cs h =>
    rw [List.map_cons, stringBody.eq_def]
    simp only [hquote, hline, if_pos h, List.map_nil]
  | case3 h =>
    show stringBody quote ['\\'] = ['\\']
    rw [stringBody, if_neg h, if_pos rfl]
  | case4 ds h =>
    show stringBody quote ('\\' :: '\n' :: _) = ['\\']
    rw [stringBody, if_neg h, if_pos rfl, if_pos rfl]
  | case5 d ds hd h ih =>
    show stringBody quote ('\\' :: d.toLower :: ds.map Char.toLower) = _
    rw [stringBody, if_neg h, if_pos rfl, if_neg (by rwa [hline]), ih]
    rfl
  | case6 c cs h hc ih =>
    rw [List.map_cons, stringBody.eq_def]
    simp only [hquote, hline, hescape, if_neg h, if_neg hc, ih, List.map_cons]

/-- A string in lower case ends where the string does. -/
theorem string_map_toLower {quote : Char} (hq : quote = '"' ∨ quote = '\'') (cs : List Char) :
    string (quote :: cs.map Char.toLower) = (string (quote :: cs)).caseless := by
  have hclosed : ((cs.map Char.toLower).drop (stringBody quote cs).length).head? = some quote ↔
      (cs.drop (stringBody quote cs).length).head? = some quote := by
    rw [← List.map_drop, List.head?_map]
    cases (cs.drop (stringBody quote cs).length).head? with
    | none => rfl
    | some c =>
      simpa using toLower_eq_char_iff (c := c) (toLower_quote hq).1 (toLower_quote hq).2
  simp only [string, stringBody_map_toLower hq, List.length_map, hclosed]
  split
  · rw [caseless_found]
  · rfl

/-! ### Words -/

theorem startsHex_cons_eq (c : Char) (cs : List Char) :
    startsHex (c :: cs) = (decide (c = '0') && cs.head?.any fun x => x = 'x' || x = 'X') := by
  unfold startsHex
  split
  · next h =>
    obtain ⟨rfl, rfl⟩ := List.cons.inj h
    simp
  · next h =>
    cases cs with
    | nil => simp
    | cons x cs =>
      have hc : c ≠ '0' := by
        rintro rfl
        exact h x cs rfl
      simp [hc]

/-- The marker of a hexadecimal literal may be in either case. -/
theorem startsHex_map_toLower (c : Char) (cs : List Char) :
    startsHex (c.toLower :: cs.map Char.toLower) = startsHex (c :: cs) := by
  have hmarker : Caseless fun c => c = 'x' || c = 'X' := caseless_of_capitals (by decide)
  rw [startsHex_cons_eq, startsHex_cons_eq, hmarker.head?_any,
    decide_eq_decide.2 (toLower_eq_char_iff (by decide) (by decide))]

/-- A character that starts no word of letters has no letter case. -/
theorem toLower_of_not_startsWord {c : Char} (h : ¬startsWord c = true) : c.toLower = c := by
  obtain hc | ⟨n, hn, hc, -⟩ := toLower_cases c
  · exact hc
  · have hall : ∀ n < 26, startsWord (Char.ofNat (0x41 + n)) := by decide
    rw [hc] at h
    exact absurd (hall n hn) h

/-- The word that starts with a character is the same in lower case, its letters aside. -/
theorem wordFrom_toLower (c : Char) (cs : List Char) :
    wordFrom c.toLower (cs.map Char.toLower) = (wordFrom c cs).caseless := by
  have hline : c.toLower = '\n' ↔ c = '\n' := toLower_eq_char_iff (by decide) (by decide)
  have hcomment : (decide (c.toLower = ';') || decide (c.toLower = '#')) =
      (decide (c = ';') || decide (c = '#')) :=
    caseless_of_capitals (f := fun c => decide (c = ';') || decide (c = '#')) (by decide) c
  have hquote : (decide (c.toLower = '"') || decide (c.toLower = '\'')) =
      (decide (c = '"') || decide (c = '\'')) :=
    caseless_of_capitals (f := fun c => decide (c = '"') || decide (c = '\'')) (by decide) c
  simp only [wordFrom, hline, hcomment, startsHex_map_toLower, caseless_isDecimalDigit c,
    caseless_startsWord c, hquote]
  split
  · exact (caseless_found .newline ['\n'] 1).symm
  split
  · exact comment_map_toLower (c :: cs)
  split
  · exact hexNumber_map_toLower (c :: cs)
  split
  · exact number_map_toLower (c :: cs)
  split
  · exact identifier_map_toLower (c :: cs)
  next hw =>
    have hc : c.toLower = c := toLower_of_not_startsWord hw
    rw [hc]
    split
    · next hq => exact string_map_toLower (by simpa using hq) cs
    · have hmark : (String.singleton c).toLower = String.singleton c := by
        simp [toLower_eq_iff, hc]
      cases Mark.ofChar? c with
      | none => rfl
      | some m => simp only [Reading.caseless, Respelling.word, Respelling.caseless, hmark]

end Lexeme

open Lexeme

/-- Places do not depend on the case. -/
theorem afterAll_map_toLower (p : Pos) (cs : List Char) :
    p.afterAll (cs.map Char.toLower) = p.afterAll cs := by
  have hafter (p : Pos) (c : Char) : p.after c.toLower = p.after c := by
    simp only [Pos.after, toLower_eq_char_iff (d := '\n') (by decide) (by decide)]
  simp only [Pos.afterAll, List.foldl_map, hafter]

/-- A text in lower case has the tokens of the text in lower case, or the same fault. -/
theorem scan_map_toLower (p : Pos) (cs : List Char) :
    scan p (cs.map Char.toLower) = (scan p cs).map (·.map Respelling.caseless.token) := by
  fun_induction scan p cs with
  | case1 p =>
    have hend : "".toLower = "" := toLower_eq_iff.2 rfl
    rw [List.map_nil, scan_nil]
    simp only [Except.map, List.map_cons, List.map_nil, Respelling.token, Respelling.word,
      Respelling.caseless, hend]
  | case2 p c cs hb ih =>
    have hplace : p.after c.toLower = p.after c := afterAll_map_toLower p [c]
    rw [List.map_cons, scan_blank (by rwa [caseless_isInlineSpace]), hplace, ih]
  | case3 p c cs hb w hw ih =>
    have hr : wordFrom c.toLower (cs.map Char.toLower) =
        ⟨.found (Respelling.caseless.word w), (wordFrom c cs).length⟩ := by
      rw [wordFrom_toLower, Reading.caseless, hw]
    rw [List.map_cons, scan_found p hr, ← List.map_cons, ← List.map_take, ← List.map_drop,
      afterAll_map_toLower, ih]
    generalize scan _ _ = r
    cases r <;> rfl
  | case4 p c cs hb f hf =>
    have hr : wordFrom c.toLower (cs.map Char.toLower) = ⟨.fault f, (wordFrom c cs).length⟩ := by
      rw [wordFrom_toLower, Reading.caseless, hf]
    rw [List.map_cons, scan_fault p (by rwa [caseless_isInlineSpace]) hr]
    rfl
  | case5 p c cs hb hc => exact absurd hc (wordFrom_ne_cutShort c cs)

end IntelAsm
