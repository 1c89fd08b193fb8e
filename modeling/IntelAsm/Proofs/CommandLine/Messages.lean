import IntelAsm.CommandLine.Run
import IntelAsm.Proofs.RoundTrip.Parsed
import IntelAsm.Proofs.Text.OneLine

/-!
# Messages on one line

A message about a source quotes words of it and names characters, numbers and places, and none of
these has a newline, whatever the source is (`oneLine_quoted`). A word without quotes around it is a
mark or the name of a kind. So an error in a source is reported on one line (`oneLine_message`), and
a failure is too if the path that it names has no newline.
-/

namespace IntelAsm

open Text

/-! ### Numbers and places -/

namespace Numeral

theorem newline_notMem_paddedHex (width n : Nat) : '\n' ∉ paddedHex width n := by
  have hall : ∀ d < 16, (digitChar d).toLower ≠ '\n' := by decide
  simp only [paddedHex, List.mem_append, List.mem_replicate, List.mem_map, not_or]
  refine ⟨by simp, ?_⟩
  rintro ⟨d, hd, heq⟩
  exact hall d (digits_lt (by decide) n d hd) heq

end Numeral

/-- A place is named in digits. -/
theorem Pos.oneLine_message (p : Pos) : OneLine p.message := by
  have hline : OneLine (" at line " ++ Numeral.decimal p.line) :=
    .append (.ofList (by decide)) (Numeral.oneLine_decimal _)
  exact (hline.append (.ofList (by decide))).append (Numeral.oneLine_decimal _)

/-! ### Quoted texts -/

namespace Text

theorem newline_notMem_codePoint (n : Nat) : '\n' ∉ codePoint n := by
  unfold codePoint
  split
  · simp [Numeral.newline_notMem_paddedHex]
  split
  · simp [Numeral.newline_notMem_paddedHex]
  · simp [Numeral.newline_notMem_paddedHex]

/-- A quoted character is printable, or escaped. -/
theorem newline_notMem_quotedChar {mark : Char} (hm : mark ≠ '\n') (c : Char) :
    '\n' ∉ quotedChar mark c := by
  by_cases hc : c = '\n'
  · subst hc
    simp [quotedChar, hm.symm]
  · rw [quotedChar, if_neg hc]
    split
    · simpa using Ne.symm hc
    split
    · decide
    split
    · decide
    split
    · simpa using Ne.symm hc
    · exact newline_notMem_codePoint _

theorem quoteMark_ne_newline (cs : List Char) : quoteMark cs ≠ '\n' := by
  unfold quoteMark
  split <;> decide

/-- Quoted, every text stands on one line. -/
theorem oneLine_quoted (s : String) : OneLine (quoted s) := by
  have hm := quoteMark_ne_newline s.toList
  have hall : ∀ c ∈ s.toList, '\n' ∉ quotedChar (quoteMark s.toList) c :=
    fun c _ => newline_notMem_quotedChar hm c
  rw [quoted, oneLine_ofList]
  simpa [hm.symm] using hall

/-- So is a quoted surrogate. -/
theorem newline_notMem_quotedPoint {mark : Char} (hm : mark ≠ '\n') (c : CodePoint) :
    '\n' ∉ quotedPoint mark c := by
  unfold quotedPoint
  split
  · exact newline_notMem_quotedChar hm _
  · exact newline_notMem_codePoint _

/-- A text that holds surrogates stands on one line too. -/
theorem oneLine_quotedPoints (s : Str) : OneLine (quotedPoints s) := by
  have hm := quoteMark_ne_newline (s.filterMap CodePoint.char?)
  have hall : ∀ c ∈ s, '\n' ∉ quotedPoint (quoteMark (s.filterMap CodePoint.char?)) c :=
    fun c _ => newline_notMem_quotedPoint hm c
  rw [quotedPoints, oneLine_ofList]
  simpa [hm.symm] using hall

end Text

/-! ### Errors in a source -/

/-- A fault in a word quotes at most one character. -/
theorem LexError.oneLine_message (e : LexError) : OneLine e.message := by
  have hfault : OneLine e.fault.message := by
    cases e.fault with
    | unexpected c => exact .append (.ofList (by decide)) (oneLine_quoted _)
    | noHexDigits => exact .ofList (by decide)
    | unterminated => exact .ofList (by decide)
  exact hfault.append e.pos.oneLine_message

theorem StreamError.oneLine_message (e : StreamError) : OneLine e.message := by
  cases e with
  | lexical e => exact e.oneLine_message
  | endOfSource position line =>
    have hdecimal := Numeral.oneLine_decimal
    have hposition : OneLine ("CharacterStreamError: Attempted to read past end of source " ++
        "at position=<" ++ Numeral.decimal position) :=
      .append (.append (.ofList (by decide)) (.ofList (by decide))) (hdecimal _)
    exact ((hposition.append (.ofList (by decide))).append (hdecimal line)).append
      (.ofList (by decide))

/-- The kinds of this language have names on one line. -/
theorem TokenKind.oneLine_name {k : TokenKind} (h : ∀ name, k ≠ .other name) : OneLine k.name := by
  cases k with
  | mark m => cases m <;> exact .ofList (by decide)
  | size w => cases w <;> exact .ofList (by decide)
  | other name => exact absurd rfl (h name)
  | _ => exact .ofList (by decide)

/-- A word is described by its text in quotes, or by its kind. -/
theorem Word.oneLine_describe {w : Word} (h : ∀ name, w.kind ≠ .other name) :
    OneLine w.describe := by
  unfold Word.describe
  split
  · exact .ofList (by decide)
  · exact .ofList (by decide)
  · exact ((TokenKind.oneLine_name h).append (.ofList (by decide))).append (oneLine_quoted _)

/-- So it is where a word is displayed, which names its kind in any case. -/
theorem Word.oneLine_display {w : Word} (h : ∀ name, w.kind ≠ .other name) :
    OneLine w.display :=
  ((((OneLine.ofList (by decide)).append (TokenKind.oneLine_name h)).append
    (.ofList (by decide))).append (oneLine_quoted _)).append (.ofList (by decide))

section
variable {ts : List Token} (hts : FromLexer ts)
include hts

/-- A token that is seen in a source has a kind of this language. -/
theorem kind_ne_other {w : Word} (h : ∃ pos, Cursor.Seen ts ⟨w, pos⟩) (name : String) :
    w.kind ≠ .other name := by
  intro hk
  obtain ⟨pos, h⟩ := h
  have hmem : (⟨w, pos⟩ : Token) ∈ ts := h.mem (by simp [hk])
  cases hts.lexed hmem (by simp [hk]) <;> cases hk

/-- What is expected is described by kinds, marks and fixed words. -/
theorem Expected.From.oneLine {what : Expected} (h : what.From ts) : OneLine what.message := by
  cases what with
  | kinds ks =>
    refine .append (.ofList (by decide)) (oneLine_intercalate (.ofList (by decide)) ?_)
    rw [List.forall_mem_map]
    exact fun k hk => TokenKind.oneLine_name fun name he => h name (he ▸ hk)
  | signedTerm sign =>
    obtain ⟨m, pos, hmem⟩ := h
    have hsign : OneLine sign := by
      rw [text_of_mark hts hmem]
      cases m <;> exact .ofList (by decide)
    exact .append (.append (.ofList (by decide)) hsign) (.ofList (by decide))
  | described text => exact h.elim
  | _ => exact .ofList (by decide)

/-- A fault of the grammar speaks of the tokens of the list. -/
theorem ParseFault.From.oneLine {f : ParseFault} (h : f.From ts) : OneLine f.message := by
  have hword : ∀ w : Word, (∃ pos, Cursor.Seen ts ⟨w, pos⟩) → OneLine w.describe :=
    fun w hw => Word.oneLine_describe (kind_ne_other hts hw)
  cases f with
  | expected what found =>
    exact ((h.1.oneLine hts).append (.ofList (by decide))).append (hword found h.2)
  | noStatement found =>
    exact .append (.append (.ofList (by decide)) (hword found h)) (.ofList (by decide))
  | noOperand found =>
    exact .append (.append (.ofList (by decide)) (hword found h)) (.ofList (by decide))
  | noExpression mnemonic =>
    have hall : ∀ m ∈ equateMnemonics, OneLine m := by decide
    have hmem : mnemonic ∈ equateMnemonics := List.contains_iff_mem.1 h
    exact .append (.ofList (by decide)) (hall mnemonic hmem)
  | secondIndex => exact .ofList (by decide)
  | outOfRange => exact .ofList (by decide)
  | notNumeral base text =>
    have hbase : OneLine ("invalid literal for int() with base " ++ Numeral.decimal base) :=
      .append (.ofList (by decide)) (Numeral.oneLine_decimal _)
    exact (hbase.append (.ofList (by decide))).append ((oneLine_quoted text).take _)
  | described text => exact h.elim

end

/-- An error in a source is described on one line. -/
theorem oneLine_of_parseSource {source : String} {e : SourceError}
    (h : parseSource source = .error e) : OneLine (CommandLine.sourceMessage e) := by
  unfold parseSource at h
  cases htokens : tokenize source with
  | error e' =>
    rw [htokens] at h
    cases h
    exact e'.oneLine_message
  | ok ts =>
    rw [htokens] at h
    cases hparse : parse ts with
    | ok p => simp [hparse] at h
    | error e' =>
      simp only [hparse] at h
      cases h
      have hfrom : e'.fault.From ts := (blamed_of_parse hparse).fault
      exact (hfrom.oneLine (fromLexer_of_tokenize htokens)).append e'.pos.oneLine_message

/-! ### Failures -/

/-- What cannot be decoded is named by bytes and positions. -/
theorem Utf8.Error.oneLine_message (e : Utf8.Error) : OneLine e.message := by
  have hreason : OneLine e.reason.message := by
    cases e.reason <;> exact .ofList (by decide)
  have hhex : OneLine (String.ofList (Numeral.paddedHex 2 e.byte.toNat)) :=
    oneLine_ofList.2 (Numeral.newline_notMem_paddedHex _ _)
  have hdecimal := Numeral.oneLine_decimal
  unfold Utf8.Error.message
  refine .append (.append (.append (.ofList (by decide)) ?_) (.ofList (by decide))) hreason
  split
  · exact .append (.append (.append (.ofList (by decide)) hhex) (.ofList (by decide))) (hdecimal _)
  · have hfirst : OneLine ("bytes in position " ++ Numeral.decimal e.position) :=
      .append (.ofList (by decide)) (hdecimal _)
    exact .append (.append hfirst (.ofList (by decide))) (hdecimal _)

namespace CommandLine

/-- What the system says of a file stands on one line, and the path is quoted. -/
theorem FileError.oneLine_message (e : FileError) (path : Str) : OneLine (e.message path) := by
  have hnumber : OneLine ("[Errno " ++ Numeral.decimal e.number) :=
    .append (.ofList (by decide)) (Numeral.oneLine_decimal _)
  refine .append ((hnumber.append (.ofList (by decide))).append e.oneLine) ?_
  split
  · exact .append (.ofList (by decide)) (oneLine_quotedPoints path)
  · exact .ofList (by decide)

/-! ### Reports -/

/-- A text of code points that can stand on one line. -/
def Unbroken (s : Str) : Prop := .ofChar '\n' ∉ s

theorem unbroken_codePoints {s : String} : Unbroken (Text.codePoints s) ↔ OneLine s :=
  not_congr mem_codePoints

theorem Unbroken.append {s t : Str} (hs : Unbroken s) (ht : Unbroken t) : Unbroken (s ++ t) :=
  fun h => (List.mem_append.1 h).elim hs ht

/-- A report of an error: one line that begins with the word. -/
def IsReport (s : Str) : Prop := ∃ rest, s = Text.codePoints "Error" ++ rest ∧ Unbroken rest

theorem IsReport.append {s t : Str} (hs : IsReport s) (ht : Unbroken t) : IsReport (s ++ t) := by
  obtain ⟨rest, rfl, hrest⟩ := hs
  exact ⟨rest ++ t, List.append_assoc .., hrest.append ht⟩

end CommandLine

end IntelAsm
