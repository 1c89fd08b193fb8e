import IntelAsm.Json
import IntelAsm.Proofs.Lexer.Words
import IntelAsm.Proofs.Numeral.Reading

/-!
# The grammar of JSON

What a text stands for as a JSON document (`Json.Document`), whoever wrote it: blanks may stand
between all tokens, a code point of a string may be written as itself, by one of eight short escapes
or by one or two UTF-16 units, and a digit of a unit may be in either case. A high unit and a low
one behind it are one code point always; apart from the other, each is a surrogate. Numbers are
integers of any size; fractions and exponents are left out, since no value has them.

A text is read from the front. A production relates it to what is left behind the part that it
derives. Where a production may stop is not said, and a number may be cut short; a text read to its
end stands for one value at most (`Json.Document.unique`).
-/

namespace IntelAsm.Json

/-! ### Blanks -/

/-- A blank between two tokens. -/
def isBlank (c : Char) : Bool := c = ' ' || c = '\t' || c = '\n' || c = '\r'

/-- Blanks in front of the rest. -/
inductive Blanks : (text rest : List Char) → Prop where
  | none {r : List Char} : Blanks r r
  | more {c : Char} {i r : List Char} (hc : isBlank c) (h : Blanks i r) : Blanks (c :: i) r

/-! ### Numbers -/

/-- Decimal digits without zeros in front of them. -/
structure IsNatural (cs : List Char) : Prop where
  ne_nil : cs ≠ []
  digits : ∀ c ∈ cs, Numeral.isDecimalDigit c
  leading : cs.head? = some '0' → cs = ['0']

/-- The number that decimal digits stand for. -/
def naturalOf (cs : List Char) : Nat := Numeral.ofDigits 10 (cs.filterMap (Numeral.digit? 10))

/-- A number in front of the rest. -/
inductive ReadsInteger : Int → (text rest : List Char) → Prop where
  | natural {cs i r : List Char} (h : IsNatural cs) (hi : i = cs ++ r) :
      ReadsInteger (naturalOf cs) i r
  | negative {cs i r : List Char} (h : IsNatural cs) (hi : i = cs ++ r) :
      ReadsInteger (-naturalOf cs) ('-' :: i) r

/-! ### Strings -/

/-- The characters with an escape of two characters, behind its second one. -/
def escapes : List (Char × Char) :=
  [('"', '"'), ('\\', '\\'), ('/', '/'), ('b', '\x08'), ('f', '\x0c'), ('n', '\n'), ('r', '\r'),
    ('t', '\t')]

/-- The UTF-16 unit of four hexadecimal digits. -/
def unit? (a b c d : Char) : Option Nat := do
  let a ← Numeral.digitValue? a
  let b ← Numeral.digitValue? b
  let c ← Numeral.digitValue? c
  let d ← Numeral.digitValue? d
  return Numeral.ofDigits 16 [a, b, c, d]

/-- A text that goes on with the second unit of a pair, as an escape. -/
def StartsLow (i : List Char) : Prop :=
  ∃ (a b c d : Char) (low : CodePoint) (j : List Char),
    i = '\\' :: 'u' :: a :: b :: c :: d :: j ∧ unit? a b c d = some low.toNat ∧ low.isLow

/-- The code points of a string up to the closing quote, which stands in front of the rest. -/
inductive ReadsText : Str → (text rest : List Char) → Prop where
  | close {r : List Char} : ReadsText [] ('"' :: r) r
  | plain {c : Char} {v : Str} {i r : List Char} (hquote : c ≠ '"') (hescape : c ≠ '\\')
      (hcontrol : 0x20 ≤ c.toNat) (h : ReadsText v i r) : ReadsText (.ofChar c :: v) (c :: i) r
  | escape {e c : Char} {v : Str} {i r : List Char} (he : escapes.lookup e = some c)
      (h : ReadsText v i r) : ReadsText (.ofChar c :: v) ('\\' :: e :: i) r
  /-- A unit is a code point, unless it is the first one of a pair. -/
  | unit {a b c d : Char} {e : CodePoint} {v : Str} {i r : List Char}
      (he : unit? a b c d = some e.toNat) (hlone : e.isHigh → ¬StartsLow i)
      (h : ReadsText v i r) : ReadsText (e :: v) ('\\' :: 'u' :: a :: b :: c :: d :: i) r
  | pair {a b c d a' b' c' d' : Char} {high low e : CodePoint} {v : Str} {i r : List Char}
      (hhigh : unit? a b c d = some high.toNat) (hlow : unit? a' b' c' d' = some low.toNat)
      (hh : high.isHigh) (hl : low.isLow)
      (he : e.toNat = 0x10000 + (high.toNat - 0xD800) * 0x400 + (low.toNat - 0xDC00))
      (h : ReadsText v i r) :
      ReadsText (e :: v)
        ('\\' :: 'u' :: a :: b :: c :: d :: '\\' :: 'u' :: a' :: b' :: c' :: d' :: i) r

/-! ### Values -/

/-- The parts of a document: a value, or the items of a list or an object with the bracket that
closes it. -/
inductive Part where
  | value (j : Json)
  | items (xs : List Json)
  | fields (fs : List (String × Json))

/-- A part in front of the rest. -/
inductive Part.Reads : Part → (text rest : List Char) → Prop where
  | null {r : List Char} : Reads (.value .null) ('n' :: 'u' :: 'l' :: 'l' :: r) r
  | boolTrue {r : List Char} : Reads (.value (.bool true)) ('t' :: 'r' :: 'u' :: 'e' :: r) r
  | boolFalse {r : List Char} :
      Reads (.value (.bool false)) ('f' :: 'a' :: 'l' :: 's' :: 'e' :: r) r
  | integer {n : Int} {i r : List Char} (h : ReadsInteger n i r) : Reads (.value (.integer n)) i r
  | string {s : Str} {i r : List Char} (h : ReadsText s i r) :
      Reads (.value (.string s)) ('"' :: i) r
  | emptyArray {i r : List Char} (h : Blanks i (']' :: r)) :
      Reads (.value (.array [])) ('[' :: i) r
  | array {xs : List Json} {i r : List Char} (h : Reads (.items xs) i r) :
      Reads (.value (.array xs)) ('[' :: i) r
  | emptyObject {i r : List Char} (h : Blanks i ('\x7d' :: r)) :
      Reads (.value (.object [])) ('\x7b' :: i) r
  | object {fs : List (String × Json)} {i r : List Char} (h : Reads (.fields fs) i r) :
      Reads (.value (.object fs)) ('\x7b' :: i) r
  | lastItem {x : Json} {i j k r : List Char} (hi : Blanks i j) (hx : Reads (.value x) j k)
      (hk : Blanks k (']' :: r)) : Reads (.items [x]) i r
  | item {x : Json} {xs : List Json} {i j k l r : List Char} (hi : Blanks i j)
      (hx : Reads (.value x) j k) (hk : Blanks k (',' :: l)) (hxs : Reads (.items xs) l r) :
      Reads (.items (x :: xs)) i r
  | lastField {key : String} {x : Json} {i j k l m n r : List Char} (hi : Blanks i ('"' :: j))
      (hkey : ReadsText (Text.codePoints key) j k) (hk : Blanks k (':' :: l)) (hl : Blanks l m)
      (hx : Reads (.value x) m n) (hn : Blanks n ('\x7d' :: r)) : Reads (.fields [(key, x)]) i r
  | field {key : String} {x : Json} {fs : List (String × Json)} {i j k l m n o r : List Char}
      (hi : Blanks i ('"' :: j)) (hkey : ReadsText (Text.codePoints key) j k)
      (hk : Blanks k (':' :: l)) (hl : Blanks l m) (hx : Reads (.value x) m n)
      (hn : Blanks n (',' :: o)) (hfs : Reads (.fields fs) o r) : Reads (.fields ((key, x) :: fs)) i r

/-- The text of a document stands for a value, with blanks around it. -/
def Document (j : Json) (text : List Char) : Prop :=
  ∃ i r, Blanks text i ∧ (Part.value j).Reads i r ∧ Blanks r []

/-! ### Unambiguity -/

/-- It is told where blanks end. -/
theorem Blanks.unique {i r s : List Char} {c d : Char} (h : Blanks i (c :: r))
    (h' : Blanks i (d :: s)) (hc : ¬isBlank c) (hd : ¬isBlank d) : c = d ∧ r = s := by
  generalize hcr : c :: r = cr at h
  induction h with
  | none =>
    subst hcr
    cases h' with
    | none => exact ⟨rfl, rfl⟩
    | more hb => exact absurd hb hc
  | more hb h ih =>
    cases h' with
    | none => exact absurd hb hd
    | more hb' h' => exact ih h' hcr

/-- Behind a number the text goes on with no digit. -/
def EndsNumber (r : List Char) : Prop := r.head?.any Numeral.isDecimalDigit = false

/-- A blank ends a number, like what follows it. -/
theorem Blanks.endsNumber {k r : List Char} (h : Blanks k r) (hr : EndsNumber r) :
    EndsNumber k := by
  cases h with
  | none => exact hr
  | @more c i _ hc h =>
    have hdigit : ∀ c, isBlank c → Numeral.isDecimalDigit c = false := by
      simp only [isBlank, Bool.or_eq_true, decide_eq_true_eq]
      rintro c (((rfl | rfl) | rfl) | rfl) <;> decide
    simpa [EndsNumber] using hdigit c hc

/-- It is told where digits end. -/
theorem IsNatural.unique {cs ds r s : List Char} (h : IsNatural cs) (h' : IsNatural ds)
    (heq : cs ++ r = ds ++ s) (hr : EndsNumber r) (hs : EndsNumber s) : cs = ds ∧ r = s := by
  have htake : cs = ds := by
    rw [← Lexeme.takeWhile_append h.digits hr, heq, Lexeme.takeWhile_append h'.digits hs]
  subst htake
  exact ⟨rfl, List.append_cancel_left heq⟩

/-- Numbers start with a sign or a digit. -/
theorem ReadsInteger.exists_head {n : Int} {i r : List Char} (h : ReadsInteger n i r) :
    ∃ c cs, i = c :: cs ∧ (c = '-' ∨ Numeral.isDecimalDigit c) := by
  cases h with
  | negative => exact ⟨'-', _, rfl, .inl rfl⟩
  | natural h hi =>
    obtain ⟨d, ds, rfl⟩ := List.exists_cons_of_ne_nil h.ne_nil
    exact ⟨d, ds ++ r, hi, .inr (h.digits d (by simp))⟩

/-- A number starts with a digit or a minus sign. -/
theorem ReadsInteger.head {n : Int} {c : Char} {i r : List Char} (h : ReadsInteger n (c :: i) r) :
    c = '-' ∨ Numeral.isDecimalDigit c := by
  obtain ⟨d, ds, heq, hd⟩ := h.exists_head
  rwa [(List.cons.inj heq).1]

/-- It is told which number stands there, and where it ends. -/
theorem ReadsInteger.unique {n n' : Int} {i r s : List Char} (h : ReadsInteger n i r)
    (h' : ReadsInteger n' i s) (hr : EndsNumber r) (hs : EndsNumber s) : n = n' ∧ r = s := by
  have hsign {cs t : List Char} (hcs : IsNatural cs) (j : List Char) : '-' :: j ≠ cs ++ t := by
    obtain ⟨d, ds, rfl⟩ := List.exists_cons_of_ne_nil hcs.ne_nil
    intro heq
    have hd := hcs.digits d (by simp)
    rw [← (List.cons.inj heq).1] at hd
    exact absurd hd (by decide)
  cases h with
  | natural hcs hi =>
    subst hi
    generalize hcr : _ ++ r = i at h'
    cases h' with
    | natural hds hi =>
      obtain ⟨rfl, rfl⟩ := hcs.unique hds (hcr.trans hi) hr hs
      exact ⟨rfl, rfl⟩
    | negative hds hi => exact absurd hcr.symm (hsign hcs _)
  | negative hcs hi =>
    subst hi
    generalize hcr : '-' :: (_ ++ r) = i at h'
    cases h' with
    | natural hds hi => exact absurd (hcr.trans hi) (hsign hds _)
    | negative hds hi =>
      obtain ⟨rfl, rfl⟩ := hcs.unique hds ((List.cons.inj hcr).2.trans hi) hr hs
      exact ⟨rfl, rfl⟩

/-- The escapes that tell a code point are none of the short ones. -/
theorem lookup_escapes_ne (c : Char) : escapes.lookup 'u' ≠ some c := by
  have hnone : escapes.lookup 'u' = none := rfl
  simp [hnone]

/-- The unit that is read first decides: it is one code point with a low unit behind it, and by
itself otherwise. -/
theorem ReadsText.unique {v v' : Str} {i r s : List Char} (h : ReadsText v i r)
    (h' : ReadsText v' i s) : v = v' ∧ r = s := by
  induction h generalizing v' with
  | close =>
    cases h' with
    | close => exact ⟨rfl, rfl⟩
    | plain hquote => exact absurd rfl hquote
  | plain hquote hescape hcontrol h ih =>
    cases h' with
    | close => exact absurd rfl hquote
    | plain _ _ _ h' =>
      obtain ⟨rfl, rfl⟩ := ih h'
      exact ⟨rfl, rfl⟩
    | escape => exact absurd rfl hescape
    | unit => exact absurd rfl hescape
    | pair => exact absurd rfl hescape
  | escape he h ih =>
    cases h' with
    | plain _ hescape => exact absurd rfl hescape
    | escape he' h' =>
      obtain ⟨rfl, rfl⟩ := ih h'
      exact ⟨by rw [Option.some.inj (he.symm.trans he')], rfl⟩
    | unit => exact absurd he (lookup_escapes_ne _)
    | pair => exact absurd he (lookup_escapes_ne _)
  | unit he hlone h ih =>
    cases h' with
    | plain _ hescape => exact absurd rfl hescape
    | escape he' => exact absurd he' (lookup_escapes_ne _)
    | unit he' _ h' =>
      obtain ⟨rfl, rfl⟩ := ih h'
      rw [CodePoint.ext (Option.some.inj (he.symm.trans he'))]
      exact ⟨rfl, rfl⟩
    | pair hhigh hlow hh hl =>
      obtain rfl := CodePoint.ext (Option.some.inj (he.symm.trans hhigh))
      exact absurd ⟨_, _, _, _, _, _, rfl, hlow, hl⟩ (hlone hh)
  | pair hhigh hlow hh hl he h ih =>
    cases h' with
    | plain _ hescape => exact absurd rfl hescape
    | escape he' => exact absurd he' (lookup_escapes_ne _)
    | unit he' hlone' h' =>
      obtain rfl := CodePoint.ext (Option.some.inj (hhigh.symm.trans he'))
      exact absurd ⟨_, _, _, _, _, _, rfl, hlow, hl⟩ (hlone' hh)
    | pair hhigh' hlow' _ _ he' h' =>
      obtain ⟨rfl, rfl⟩ := ih h'
      rw [Option.some.inj (hhigh.symm.trans hhigh'), Option.some.inj (hlow.symm.trans hlow')] at he
      rw [CodePoint.ext (he.trans he'.symm)]
      exact ⟨rfl, rfl⟩

/-- A character with which no value starts: a blank or a bracket that closes. -/
def isClosing (c : Char) : Bool := isBlank c || c = ']' || c = '\x7d'

theorem not_isClosing_of_number {c : Char} (h : c = '-' ∨ Numeral.isDecimalDigit c) :
    isClosing c = false := by
  obtain rfl | hd := h
  · decide
  · rw [Bool.eq_false_iff]
    intro hc
    simp only [isClosing, isBlank, Bool.or_eq_true, decide_eq_true_eq] at hc
    rcases hc with ((((rfl | rfl) | rfl) | rfl) | rfl) | rfl <;> exact absurd hd (by decide)

/-- No value starts with a blank or with a bracket that closes. -/
theorem Part.Reads.head {j : Json} {i r : List Char} (h : (Part.value j).Reads i r) :
    ∃ c cs, i = c :: cs ∧ isClosing c = false := by
  cases h with
  | integer h =>
    obtain ⟨c, cs, rfl, hc⟩ := h.exists_head
    exact ⟨c, cs, rfl, not_isClosing_of_number hc⟩
  | _ => exact ⟨_, _, rfl, by decide⟩

theorem not_isBlank_of_head {c : Char} (h : isClosing c = false) : ¬isBlank c := by
  intro hb
  simp [isClosing, hb] at h

/-- A list with items does not close where it opens. -/
theorem Part.Reads.items_not_closed {xs : List Json} {i r s : List Char}
    (h : (Part.items xs).Reads i r) : ¬Blanks i (']' :: s) := by
  intro hclosed
  obtain ⟨x, j, k, hi, hx⟩ : ∃ x j k, Blanks i j ∧ (Part.value x).Reads j k := by
    cases h with
    | lastItem hi hx => exact ⟨_, _, _, hi, hx⟩
    | item hi hx => exact ⟨_, _, _, hi, hx⟩
  obtain ⟨c, cs, rfl, hc⟩ := hx.head
  obtain ⟨rfl, -⟩ := hclosed.unique hi (by decide) (not_isBlank_of_head hc)
  exact absurd hc (by decide)

/-- An object with fields is not an empty one. -/
theorem Part.Reads.fields_not_closed {fs : List (String × Json)} {i r s : List Char}
    (h : (Part.fields fs).Reads i r) : ¬Blanks i ('\x7d' :: s) := by
  intro hclosed
  obtain ⟨j, hi⟩ : ∃ j, Blanks i ('"' :: j) := by
    cases h with
    | lastField hi => exact ⟨_, hi⟩
    | field hi => exact ⟨_, hi⟩
  exact absurd (hclosed.unique hi (by decide) (by decide)).1 (by decide)

/-- What a part stands for and where it ends is told by the text, if a number is read to its end. -/
def Part.Unique : Part → (text rest : List Char) → Prop
  | .value j, i, r => ∀ j' s, (Part.value j').Reads i s → EndsNumber r → EndsNumber s →
    j = j' ∧ r = s
  | .items xs, i, r => ∀ xs' s, (Part.items xs').Reads i s → xs = xs' ∧ r = s
  | .fields fs, i, r => ∀ fs' s, (Part.fields fs').Reads i s → fs = fs' ∧ r = s

/-- A mark behind a value: no blank, and no digit that could belong to it. -/
def IsMark (c : Char) : Prop := isBlank c = false ∧ Numeral.isDecimalDigit c = false

instance (c : Char) : Decidable (IsMark c) := inferInstanceAs (Decidable (_ ∧ _))

/-- Between blanks a value is unique too, and so is the mark behind them. -/
theorem Part.Unique.between {x y : Json} {i j j' k k' r s : List Char} {c d : Char}
    (hx : (Part.value x).Unique j k) (hreads : (Part.value x).Reads j k) (hj : Blanks i j)
    (hk : Blanks k (c :: r)) (hc : IsMark c) (hy : (Part.value y).Reads j' k') (hj' : Blanks i j')
    (hk' : Blanks k' (d :: s)) (hd : IsMark d) : x = y ∧ c = d ∧ r = s := by
  have hsame : j = j' := by
    obtain ⟨e, es, rfl, he⟩ := hreads.head
    obtain ⟨f, fs, rfl, hf⟩ := hy.head
    obtain ⟨rfl, rfl⟩ := hj.unique hj' (not_isBlank_of_head he) (not_isBlank_of_head hf)
    rfl
  subst hsame
  obtain ⟨rfl, rfl⟩ := hx _ _ hy (hk.endsNumber (by simpa [EndsNumber] using hc.2))
    (hk'.endsNumber (by simpa [EndsNumber] using hd.2))
  exact ⟨rfl, hk.unique hk' (by simp [hc.1]) (by simp [hd.1])⟩

/-- The key of a field and the colon behind it are unique. -/
theorem unique_key {key key' : String} {i j j' k k' l l' : List Char} (hi : Blanks i ('"' :: j))
    (hkey : ReadsText (Text.codePoints key) j k) (hk : Blanks k (':' :: l))
    (hi' : Blanks i ('"' :: j'))
    (hkey' : ReadsText (Text.codePoints key') j' k') (hk' : Blanks k' (':' :: l')) :
    key = key' ∧ l = l' := by
  obtain ⟨-, rfl⟩ := hi.unique hi' (by decide) (by decide)
  obtain ⟨htext, rfl⟩ := hkey.unique hkey'
  exact ⟨Text.codePoints_injective htext, (hk.unique hk' (by decide) (by decide)).2⟩

/-! ### Values by their first character -/

section
variable {j : Json} {i r : List Char}

/-- A quote starts strings only. -/
theorem Part.Reads.of_quote (h : (Part.value j).Reads ('"' :: i) r) :
    ∃ s, j = .string s ∧ ReadsText s i r := by
  cases h with
  | string h => exact ⟨_, rfl, h⟩
  | integer h => exact absurd h.head (by decide)

/-- A bracket starts lists only. -/
theorem Part.Reads.of_bracket (h : (Part.value j).Reads ('[' :: i) r) :
    j = .array [] ∧ Blanks i (']' :: r) ∨ ∃ xs, j = .array xs ∧ (Part.items xs).Reads i r := by
  cases h with
  | emptyArray h => exact .inl ⟨rfl, h⟩
  | array h => exact .inr ⟨_, rfl, h⟩
  | integer h => exact absurd h.head (by decide)

/-- A brace starts objects only. -/
theorem Part.Reads.of_brace (h : (Part.value j).Reads ('\x7b' :: i) r) :
    j = .object [] ∧ Blanks i ('\x7d' :: r) ∨ ∃ fs, j = .object fs ∧ (Part.fields fs).Reads i r := by
  cases h with
  | emptyObject h => exact .inl ⟨rfl, h⟩
  | object h => exact .inr ⟨_, rfl, h⟩
  | integer h => exact absurd h.head (by decide)

/-- Where a number can be read, every value is one. -/
theorem Part.Reads.of_integer {n : Int} {s : List Char} (h : (Part.value j).Reads i r)
    (hn : ReadsInteger n i s) : ∃ m, j = .integer m ∧ ReadsInteger m i r := by
  cases h with
  | integer h => exact ⟨_, rfl, h⟩
  | _ => exact absurd hn.head (by decide)

end

/-! ### Parts are unique if their own parts are -/

section
variable {x : Json} {xs : List Json} {fs : List (String × Json)} {key : String}
  {i j k l m n o r : List Char}

theorem Part.Unique.emptyArray (h : Blanks i (']' :: r)) :
    (Part.value (.array [])).Unique ('[' :: i) r := by
  intro j' s h' _ _
  obtain ⟨rfl, hend⟩ | ⟨xs, rfl, hxs⟩ := h'.of_bracket
  · exact ⟨rfl, (h.unique hend (by decide) (by decide)).2⟩
  · exact absurd h hxs.items_not_closed

/-- A list is told if its items are. -/
theorem Part.Unique.array (hxs : (Part.items xs).Unique i r) (h : (Part.items xs).Reads i r) :
    (Part.value (.array xs)).Unique ('[' :: i) r := by
  intro j' s h' _ _
  obtain ⟨rfl, hend⟩ | ⟨xs', rfl, hxs'⟩ := h'.of_bracket
  · exact absurd hend h.items_not_closed
  · obtain ⟨rfl, rfl⟩ := hxs _ _ hxs'
    exact ⟨rfl, rfl⟩

theorem Part.Unique.emptyObject (h : Blanks i ('\x7d' :: r)) :
    (Part.value (.object [])).Unique ('\x7b' :: i) r := by
  intro j' s h' _ _
  obtain ⟨rfl, hend⟩ | ⟨fs, rfl, hfs⟩ := h'.of_brace
  · exact ⟨rfl, (h.unique hend (by decide) (by decide)).2⟩
  · exact absurd h hfs.fields_not_closed

/-- An object is told if its fields are. -/
theorem Part.Unique.object (hfs : (Part.fields fs).Unique i r) (h : (Part.fields fs).Reads i r) :
    (Part.value (.object fs)).Unique ('\x7b' :: i) r := by
  intro j' s h' _ _
  obtain ⟨rfl, hend⟩ | ⟨fs', rfl, hfs'⟩ := h'.of_brace
  · exact absurd hend h.fields_not_closed
  · obtain ⟨rfl, rfl⟩ := hfs _ _ hfs'
    exact ⟨rfl, rfl⟩

/-- The mark behind an item tells whether it is the last. -/
theorem Part.Unique.lastItem (hunique : (Part.value x).Unique j k) (hi : Blanks i j)
    (hx : (Part.value x).Reads j k) (hk : Blanks k (']' :: r)) : (Part.items [x]).Unique i r := by
  intro xs' s h'
  cases h' with
  | lastItem hi' hx' hk' =>
    obtain ⟨rfl, -, rfl⟩ := hunique.between hx hi hk (by decide) hx' hi' hk' (by decide)
    exact ⟨rfl, rfl⟩
  | item hi' hx' hk' =>
    obtain ⟨-, hmark, -⟩ := hunique.between hx hi hk (by decide) hx' hi' hk' (by decide)
    exact absurd hmark (by decide)

/-- Items are told if the first and the rest are. -/
theorem Part.Unique.item (hunique : (Part.value x).Unique j k) (hi : Blanks i j)
    (hx : (Part.value x).Reads j k) (hk : Blanks k (',' :: l))
    (hxs : (Part.items xs).Unique l r) : (Part.items (x :: xs)).Unique i r := by
  intro xs' s h'
  cases h' with
  | lastItem hi' hx' hk' =>
    obtain ⟨-, hmark, -⟩ := hunique.between hx hi hk (by decide) hx' hi' hk' (by decide)
    exact absurd hmark (by decide)
  | item hi' hx' hk' hxs' =>
    obtain ⟨rfl, -, rfl⟩ := hunique.between hx hi hk (by decide) hx' hi' hk' (by decide)
    obtain ⟨rfl, rfl⟩ := hxs _ _ hxs'
    exact ⟨rfl, rfl⟩

/-- A field is told if its value is. -/
theorem Part.Unique.lastField (hunique : (Part.value x).Unique m n) (hi : Blanks i ('"' :: j))
    (hkey : ReadsText (Text.codePoints key) j k) (hk : Blanks k (':' :: l)) (hl : Blanks l m)
    (hx : (Part.value x).Reads m n) (hn : Blanks n ('\x7d' :: r)) :
    (Part.fields [(key, x)]).Unique i r := by
  intro fs' s h'
  cases h' with
  | lastField hi' hkey' hk' hl' hx' hn' =>
    obtain ⟨rfl, rfl⟩ := unique_key hi hkey hk hi' hkey' hk'
    obtain ⟨rfl, -, rfl⟩ := hunique.between hx hl hn (by decide) hx' hl' hn' (by decide)
    exact ⟨rfl, rfl⟩
  | field hi' hkey' hk' hl' hx' hn' =>
    obtain ⟨rfl, rfl⟩ := unique_key hi hkey hk hi' hkey' hk'
    obtain ⟨-, hmark, -⟩ := hunique.between hx hl hn (by decide) hx' hl' hn' (by decide)
    exact absurd hmark (by decide)

/-- Fields are told if the first value and the rest are. -/
theorem Part.Unique.field (hunique : (Part.value x).Unique m n) (hi : Blanks i ('"' :: j))
    (hkey : ReadsText (Text.codePoints key) j k) (hk : Blanks k (':' :: l)) (hl : Blanks l m)
    (hx : (Part.value x).Reads m n) (hn : Blanks n (',' :: o))
    (hfs : (Part.fields fs).Unique o r) : (Part.fields ((key, x) :: fs)).Unique i r := by
  intro fs' s h'
  cases h' with
  | lastField hi' hkey' hk' hl' hx' hn' =>
    obtain ⟨rfl, rfl⟩ := unique_key hi hkey hk hi' hkey' hk'
    obtain ⟨-, hmark, -⟩ := hunique.between hx hl hn (by decide) hx' hl' hn' (by decide)
    exact absurd hmark (by decide)
  | field hi' hkey' hk' hl' hx' hn' hfs' =>
    obtain ⟨rfl, rfl⟩ := unique_key hi hkey hk hi' hkey' hk'
    obtain ⟨rfl, -, rfl⟩ := hunique.between hx hl hn (by decide) hx' hl' hn' (by decide)
    obtain ⟨rfl, rfl⟩ := hfs _ _ hfs'
    exact ⟨rfl, rfl⟩

end

/-- What a text stands for is told by it, by induction on how it is read. -/
theorem Part.Reads.unique {p : Part} {i r : List Char} (h : p.Reads i r) : p.Unique i r := by
  induction h with
  | null | boolTrue | boolFalse =>
    intro j' s h' _ _
    cases h' with
    | integer h' => exact absurd h'.head (by decide)
    | _ => exact ⟨rfl, rfl⟩
  | integer h =>
    intro j' s h' hr hs
    obtain ⟨m, rfl, hm⟩ := h'.of_integer h
    obtain ⟨rfl, rfl⟩ := h.unique hm hr hs
    exact ⟨rfl, rfl⟩
  | string h =>
    intro j' s h' _ _
    obtain ⟨t, rfl, ht⟩ := h'.of_quote
    obtain ⟨rfl, rfl⟩ := h.unique ht
    exact ⟨rfl, rfl⟩
  | emptyArray h => exact .emptyArray h
  | array h ih => exact ih.array h
  | emptyObject h => exact .emptyObject h
  | object h ih => exact ih.object h
  | lastItem hi hx hk ih => exact ih.lastItem hi hx hk
  | item hi hx hk hxs ih ihs => exact ih.item hi hx hk ihs
  | lastField hi hkey hk hl hx hn ih => exact ih.lastField hi hkey hk hl hx hn
  | field hi hkey hk hl hx hn hfs ih ihs => exact ih.field hi hkey hk hl hx hn ihs

/-- A text stands for one value at most. -/
theorem Document.unique {x y : Json} {text : List Char} (h : Document x text)
    (h' : Document y text) : x = y := by
  obtain ⟨i, r, hi, hx, hr⟩ := h
  obtain ⟨j, s, hj, hy, hs⟩ := h'
  obtain ⟨c, cs, rfl, hc⟩ := hx.head
  obtain ⟨d, ds, rfl, hd⟩ := hy.head
  obtain ⟨rfl, rfl⟩ := hi.unique hj (not_isBlank_of_head hc) (not_isBlank_of_head hd)
  exact (hx.unique _ _ hy (hr.endsNumber rfl) (hs.endsNumber rfl)).1

end IntelAsm.Json
