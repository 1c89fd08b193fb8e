import IntelAsm.Proofs.Lexer.Lexeme
import IntelAsm.Proofs.Lexer.Place
import IntelAsm.Proofs.Lexer.Scan

/-!
# Words and lines

No word but the newline reaches over the end of its line, and none looks further than that for
where it ends (`wordFrom_append_newline`). So a text is read up to a newline as if it ended there,
and what stands behind is read on its own (`scan_append_newline`).
-/

namespace IntelAsm

namespace Lexeme

variable {p : Char → Bool} (cs bs : List Char)

/-! ### Readers stop at a newline -/

theorem takeWhile_append_newline (hp : p '\n' = false) :
    (cs ++ '\n' :: bs).takeWhile p = cs.takeWhile p := by
  induction cs with
  | nil => exact List.takeWhile_cons_of_neg (by simp [hp])
  | cons c cs ih => simp only [List.cons_append, List.takeWhile_cons, ih]

theorem dropWhile_append_newline (hp : p '\n' = false) :
    (cs ++ '\n' :: bs).dropWhile p = cs.dropWhile p ++ '\n' :: bs := by
  induction cs with
  | nil => exact List.dropWhile_cons_of_neg (by simp [hp])
  | cons c cs ih =>
    simp only [List.cons_append, List.dropWhile_cons, ih]
    split <;> rfl

theorem comment_append_newline : comment (cs ++ '\n' :: bs) = comment cs := by
  simp only [comment, takeWhile_append_newline cs bs (p := (· ≠ '\n')) (by decide)]

theorem digitRun_append_newline {isDigit : Char → Bool} (h : isDigit '\n' = false) :
    digitRun isDigit (cs ++ '\n' :: bs) = digitRun isDigit cs :=
  takeWhile_append_newline cs bs (by simp [h])

theorem number_append_newline : number (cs ++ '\n' :: bs) = number cs := by
  have hn : Numeral.isDecimalDigit '\n' = false := by decide
  simp only [number, digitRun_append_newline cs bs hn]

theorem hexNumber_append_newline (x y : Char) :
    hexNumber (x :: y :: (cs ++ '\n' :: bs)) = hexNumber (x :: y :: cs) := by
  have hn : Numeral.isHexDigit '\n' = false := by decide
  simp only [hexNumber, digitRun_append_newline cs bs hn]

theorem startsHex_append_newline (c : Char) :
    startsHex (c :: (cs ++ '\n' :: bs)) = startsHex (c :: cs) := by
  cases cs with
  | nil => by_cases hc : c = '0' <;> simp [startsHex, hc]
  | cons d ds => by_cases hc : c = '0' <;> simp [startsHex, hc]

theorem afterWord_append_newline {ws : List Char} (hws : ∀ w ∈ ws, Text.lowerChar '\n' ≠ [w]) :
    afterWord ws (cs ++ '\n' :: bs) = (afterWord ws cs).map (· ++ '\n' :: bs) := by
  induction ws generalizing cs with
  | nil => rfl
  | cons w ws ih =>
    obtain ⟨hw, hws⟩ := List.forall_mem_cons.1 hws
    cases cs with
    | nil => simp [afterWord, hw]
    | cons c cs =>
      simp only [List.cons_append, afterWord, ih cs hws]
      split <;> rfl

theorem wordAhead_append_newline :
    wordAhead sizeSuffix.toList (cs ++ '\n' :: bs) = wordAhead sizeSuffix.toList cs := by
  have hb : isInlineSpace '\n' = false := by decide
  have hlower : Text.lowerChar '\n' = ['\n'] := Text.lowerChar_of_isAscii (by decide)
  have hws : ∀ w ∈ sizeSuffix.toList, Text.lowerChar '\n' ≠ [w] := by
    rw [hlower]
    simp [sizeSuffix]
  unfold wordAhead gap
  rw [dropWhile_append_newline cs bs hb, takeWhile_append_newline cs bs hb,
    afterWord_append_newline _ bs hws]
  cases afterWord sizeSuffix.toList (cs.dropWhile isInlineSpace) with
  | none => rfl
  | some rest =>
    have hn : continuesWord '\n' = false := by decide
    cases rest with
    | nil => simp [hn]
    | cons c rest => rfl

theorem identifier_append_newline : identifier (cs ++ '\n' :: bs) = identifier cs := by
  have hc : continuesWord '\n' = false := by decide
  simp only [identifier, takeWhile_append_newline cs bs hc, dropWhile_append_newline cs bs hc,
    wordAhead_append_newline]

/-- A string ends in front of the newline, even where a backslash stands there. -/
theorem stringBody_append_newline (quote : Char) :
    stringBody quote (cs ++ '\n' :: bs) = stringBody quote cs := by
  fun_induction stringBody quote cs with
  | case1 =>
    rw [List.nil_append, stringBody.eq_def]
    simp
  | case2 c cs hc =>
    rw [List.cons_append, stringBody.eq_def]
    simp only [if_pos hc]
  | case3 hc =>
    rw [List.cons_append, List.nil_append, stringBody.eq_def]
    simp only [if_neg hc, if_true]
  | case4 ds hc =>
    rw [List.cons_append, List.cons_append, stringBody.eq_def]
    simp only [if_neg hc, if_true]
  | case5 d ds hd hc ih =>
    rw [List.cons_append, List.cons_append, stringBody.eq_def]
    simp only [if_neg hc, if_true, if_neg hd, ih]
  | case6 c cs hc hb ih =>
    rw [List.cons_append, stringBody.eq_def]
    simp only [if_neg hc, if_neg hb, ih]

theorem length_stringBody_le (quote : Char) : (stringBody quote cs).length ≤ cs.length := by
  have hlength := congrArg List.length (stringBody_append_drop quote cs)
  rw [List.length_append] at hlength
  omega

theorem string_append_newline {quote : Char} (hq : quote ≠ '\n') :
    string (quote :: (cs ++ '\n' :: bs)) = string (quote :: cs) := by
  have hhead : ((cs ++ '\n' :: bs).drop (stringBody quote cs).length).head? = some quote ↔
      (cs.drop (stringBody quote cs).length).head? = some quote := by
    rw [List.drop_append_of_le_length (length_stringBody_le cs quote)]
    cases cs.drop (stringBody quote cs).length with
    | nil => simp [hq.symm]
    | cons d ds => rfl
  simp only [string, stringBody_append_newline, hhead]

/-- A word that starts on a line ends on it, and is decided there. -/
theorem wordFrom_append_newline (c : Char) : wordFrom c (cs ++ '\n' :: bs) = wordFrom c cs := by
  by_cases hc : c = '\n'
  · subst hc
    rw [wordFrom_newline, wordFrom_newline]
  unfold wordFrom
  rw [startsHex_append_newline]
  simp only [if_neg hc]
  split
  · exact comment_append_newline (c :: cs) bs
  split
  · next hx =>
    cases cs with
    | nil => simp [startsHex] at hx
    | cons d ds => exact hexNumber_append_newline ds bs c d
  split
  · exact number_append_newline (c :: cs) bs
  split
  · exact identifier_append_newline (c :: cs) bs
  split
  · exact string_append_newline cs bs hc
  · rfl

end Lexeme

open Lexeme

/-- A text is read up to a newline as if it ended there, and behind it anew. -/
theorem scan_append_newline (p : Pos) (cs bs : List Char) :
    scan p (cs ++ '\n' :: bs) =
      (scan p cs).bind fun ts => (scan ((p.afterAll cs).after '\n') bs).map fun us =>
        ts.dropLast ++ ⟨⟨.newline, "\n"⟩, p.afterAll cs⟩ :: us := by
  -- by induction on the scan in front of the newline, which takes the same words
  fun_induction scan p cs with
  | case1 p =>
    rw [List.nil_append, scan_found p (wordFrom_newline bs)]
    rfl
  | case2 p c cs hb ih => rw [List.cons_append, scan_blank hb, ih, Pos.afterAll_cons]
  | case3 p c cs hb w hw ih =>
    obtain ⟨l, rest, hcs, hlength, -⟩ := cuts_wordFrom c cs w hw
    have hword : wordFrom c (cs ++ '\n' :: bs) = ⟨.found w, l.length⟩ := by
      rw [wordFrom_append_newline, ← hw, hlength]
    have hall : c :: (cs ++ '\n' :: bs) = l ++ (rest ++ '\n' :: bs) := by
      rw [← List.cons_append, hcs, List.append_assoc]
    have hscan : scan p (c :: cs ++ '\n' :: bs) =
        (scan (p.afterAll l) (rest ++ '\n' :: bs)).map (⟨w, p⟩ :: ·) := by
      rw [List.cons_append, scan_found p hword, hall, List.take_left, List.drop_left]
    rw [hcs, ← hlength, List.take_left, List.drop_left] at ih
    rw [hscan, ih, hcs, ← hlength, List.take_left, List.drop_left, Pos.afterAll_append]
    cases hts : scan (p.afterAll l) rest with
    | error e => rfl
    | ok ts =>
      obtain ⟨us, rfl, -⟩ := lexed_of_scan hts
      cases scan (((p.afterAll l).afterAll rest).after '\n') bs with
      | error e => rfl
      | ok vs => simp [Except.map, Except.bind, List.dropLast_cons_of_ne_nil]
  | case4 p c cs hb f hf =>
    have hword : wordFrom c (cs ++ '\n' :: bs) = ⟨.fault f, (wordFrom c cs).length⟩ := by
      rw [wordFrom_append_newline, ← hf]
    rw [List.cons_append, scan_fault p hb hword]
    rfl
  | case5 p c cs hb hc => exact absurd hc (wordFrom_ne_cutShort c cs)

/-! ### Texts further down -/

/-- The place `n` lines further down, in the same column. -/
def Pos.down (n : Nat) (p : Pos) : Pos := ⟨p.line + n, p.column⟩

/-- The same word `n` lines further down. -/
def Token.down (n : Nat) (t : Token) : Token := { t with pos := t.pos.down n }

/-- The same fault `n` lines further down. -/
def LexError.down (n : Nat) (e : LexError) : LexError := { e with pos := e.pos.down n }

namespace Pos

theorem after_down (n : Nat) (p : Pos) (c : Char) : (p.down n).after c = (p.after c).down n := by
  unfold after
  split
  · simp [down, Int.add_right_comm]
  · rfl

theorem afterAll_down (n : Nat) (p : Pos) (cs : List Char) :
    (p.down n).afterAll cs = (p.afterAll cs).down n := by
  induction cs generalizing p with
  | nil => rfl
  | cons c cs ih => rw [afterAll_cons, afterAll_cons, after_down, ih]

/-- Behind a text and a newline, a line starts below all lines of the text. -/
theorem after_newline_afterAll (cs : List Char) :
    (start.afterAll cs).after '\n' = start.down (1 + cs.count '\n') := by
  rw [← behind_nil, afterAll_behind, ← behind_append_singleton]
  simp [behind, down, Int.add_comm]

end Pos

/-- A text that starts further down has the same tokens, or the same fault, further down. -/
theorem scan_down (n : Nat) (p : Pos) (cs : List Char) :
    scan (p.down n) cs = ((scan p cs).map (·.map (·.down n))).mapError (·.down n) := by
  fun_induction scan p cs with
  | case1 p =>
    rw [scan_nil]
    rfl
  | case2 p c cs hb ih => rw [scan_blank hb, Pos.after_down, ih]
  | case3 p c cs hb w hw ih =>
    have hr : wordFrom c cs = ⟨.found w, (wordFrom c cs).length⟩ := by rw [← hw]
    rw [scan_found (p.down n) hr, Pos.afterAll_down, ih]
    cases scan (p.afterAll ((c :: cs).take (wordFrom c cs).length))
      ((c :: cs).drop (wordFrom c cs).length) <;> rfl
  | case4 p c cs hb f hf =>
    have hr : wordFrom c cs = ⟨.fault f, (wordFrom c cs).length⟩ := by rw [← hf]
    rw [scan_fault (p.down n) hb hr]
    rfl
  | case5 p c cs hb hc => exact absurd hc (wordFrom_ne_cutShort c cs)

theorem toList_append_newline (a b : String) :
    (a ++ "\n" ++ b).toList = a.toList ++ '\n' :: b.toList := by
  simp [String.toList_append]

/-- The tokens of two texts with a newline between them are those of the first text without the end
marker, a newline in its place, and those of the second text below all lines of the first. A fault
of the first text is the fault of both, and else one of the second is, as far down. -/
theorem tokenize_append_newline (a b : String) :
    (∀ e, tokenize a = .error (.lexical e) → tokenize (a ++ "\n" ++ b) = .error (.lexical e)) ∧
    (∀ ts e, tokenize a = .ok ts → tokenize b = .error (.lexical e) →
      tokenize (a ++ "\n" ++ b) = .error (.lexical (e.down (1 + a.toList.count '\n')))) ∧
    ∀ ts us, tokenize a = .ok ts → tokenize b = .ok us →
      ∃ vs marker, ts = vs ++ [⟨⟨.eof, ""⟩, marker⟩] ∧
        tokenize (a ++ "\n" ++ b) =
          .ok (vs ++ ⟨⟨.newline, "\n"⟩, marker⟩ ::
            us.map (·.down (1 + a.toList.count '\n'))) := by
  have hjoined := scan_append_newline .start a.toList b.toList
  rw [Pos.after_newline_afterAll, scan_down, ← toList_append_newline] at hjoined
  simp only [tokenize_eq_ok, tokenize_eq_error]
  refine ⟨fun e ha => ?_, fun ts e ha hb => ?_, fun ts us ha hb => ?_⟩
  · rw [hjoined, ha]
    rfl
  · rw [hjoined, ha, hb]
    rfl
  · obtain ⟨vs, rfl, -⟩ := lexed_of_scan ha
    refine ⟨vs, Pos.start.afterAll a.toList, rfl, ?_⟩
    rw [hjoined, ha, hb]
    simp [Except.bind, Except.map, Except.mapError]

/-- The newline stands in an escape, behind a keyword of a size, and between the words of one. -/
theorem tokenize_append_newline_of_halves :
    tokenize ("'a\\" ++ "\n" ++ "'") = .error (.lexical ⟨.unterminated, ⟨1, 1⟩⟩) ∧
    tokenize (":\ndword " ++ "\n" ++ "ptr 0x") = .error (.lexical ⟨.noHexDigits, ⟨3, 5⟩⟩) ∧
    tokenize ("dword " ++ "\n" ++ "ptr") =
      .ok [⟨⟨.ident, "dword"⟩, ⟨1, 1⟩⟩, ⟨⟨.newline, "\n"⟩, ⟨1, 7⟩⟩, ⟨⟨.ident, "ptr"⟩, ⟨2, 1⟩⟩,
        ⟨⟨.eof, ""⟩, ⟨2, 4⟩⟩] := by
  have hescape : tokenize "'a\\" = .error (.lexical ⟨.unterminated, ⟨1, 1⟩⟩) := by decide +kernel
  have hcolon : tokenize ":\ndword " =
      .ok [⟨⟨.mark .colon, ":"⟩, ⟨1, 1⟩⟩, ⟨⟨.newline, "\n"⟩, ⟨1, 2⟩⟩, ⟨⟨.ident, "dword"⟩, ⟨2, 1⟩⟩,
        ⟨⟨.eof, ""⟩, ⟨2, 7⟩⟩] := by
    decide +kernel
  have hprefix : tokenize "ptr 0x" = .error (.lexical ⟨.noHexDigits, ⟨1, 5⟩⟩) := by decide +kernel
  have hsize : tokenize "dword " = .ok [⟨⟨.ident, "dword"⟩, ⟨1, 1⟩⟩, ⟨⟨.eof, ""⟩, ⟨1, 7⟩⟩] := by
    decide +kernel
  have hptr : tokenize "ptr" = .ok [⟨⟨.ident, "ptr"⟩, ⟨1, 1⟩⟩, ⟨⟨.eof, ""⟩, ⟨1, 4⟩⟩] := by
    decide +kernel
  refine ⟨(tokenize_append_newline _ _).1 _ hescape, ?_, ?_⟩
  · have hdown := (tokenize_append_newline _ _).2.1 _ _ hcolon hprefix
    rwa [show LexError.down (1 + ":\ndword ".toList.count '\n') ⟨.noHexDigits, ⟨1, 5⟩⟩ =
      ⟨.noHexDigits, ⟨3, 5⟩⟩ by decide] at hdown
  · obtain ⟨vs, marker, hvs, hjoined⟩ := (tokenize_append_newline _ _).2.2 _ _ hsize hptr
    obtain ⟨rfl, hmarker⟩ := List.append_inj' (show [_] ++ [_] = _ from hvs) rfl
    cases hmarker
    exact hjoined

end IntelAsm
