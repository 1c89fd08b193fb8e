import IntelAsm.Proofs.Lexer.Words

/-!
# The lexer as a function of the text

A lexer action works on a stream. What it makes of the text ahead depends on nothing but that text
and its place, so the tokens of a source are the value of a function by recursion on the text
(`scan`, `tokenize_eq`). It fails only where a word is at fault, never for want of characters.

The words of a text are its tokens without their places (`words`), and no place matters to them
(`words_eq`). The laws of `words` read a text from the front: a blank is skipped, a word is taken,
and a fault ends the reading.
-/

namespace IntelAsm

open Lexeme (isInlineSpace wordFrom gap)

/-! ### Tokens of a text -/

/-- The tokens of a text that starts at the place `p`, with the end marker behind them. -/
def scan (p : Pos) : List Char → Except LexError (List Token)
  | [] => .ok [⟨⟨.eof, ""⟩, p⟩]
  | c :: cs =>
    if isInlineSpace c then scan (p.after c) cs
    else
      match _ : (wordFrom c cs).outcome with
      | .found w =>
        (scan (p.afterAll ((c :: cs).take (wordFrom c cs).length))
          ((c :: cs).drop (wordFrom c cs).length)).map (⟨w, p⟩ :: ·)
      | .fault f => .error ⟨f, p⟩
      -- a word that is begun is never cut short
      | .cutShort => .ok []
termination_by cs => cs.length
decreasing_by
  · simp
  · have hpos : 0 < (wordFrom c cs).length := Lexeme.length_word_pos (by assumption)
    simp only [List.length_drop, List.length_cons]
    omega

theorem scan_nil (p : Pos) : scan p [] = .ok [⟨⟨.eof, ""⟩, p⟩] := by
  rw [scan]

theorem scan_blank {c : Char} (h : isInlineSpace c) (p : Pos) (cs : List Char) :
    scan p (c :: cs) = scan (p.after c) cs := by
  rw [scan, if_pos h]

/-- No word starts with a blank. -/
theorem wordFrom_blank {c : Char} (h : isInlineSpace c) (cs : List Char) :
    wordFrom c cs = ⟨.fault (.unexpected c), 0⟩ := by
  simp only [isInlineSpace, Bool.or_eq_true, decide_eq_true_eq] at h
  rcases h with (rfl | rfl) | rfl
  all_goals
    rw [wordFrom, if_neg (by decide), if_neg (by decide), if_neg (by simp [Lexeme.startsHex]),
      if_neg (by decide), if_neg (by decide), if_neg (by decide)]
    rfl

/-- A word at the front is the first token. -/
theorem scan_found {c : Char} {cs : List Char} {w : Word} {n : Nat} (p : Pos)
    (h : wordFrom c cs = ⟨.found w, n⟩) :
    scan p (c :: cs) =
      (scan (p.afterAll ((c :: cs).take n)) ((c :: cs).drop n)).map (⟨w, p⟩ :: ·) := by
  have hb : ¬isInlineSpace c = true := by
    intro hb
    rw [wordFrom_blank hb] at h
    cases h
  rw [scan, if_neg hb]
  split
  · next w' ho =>
    rw [h] at ho
    cases ho
    rw [h]
  · next ho =>
    rw [h] at ho
    cases ho
  · next ho =>
    rw [h] at ho
    cases ho

/-- A fault at the front ends the reading. -/
theorem scan_fault {c : Char} {cs : List Char} {f : LexFault} {n : Nat} (p : Pos)
    (hb : ¬isInlineSpace c = true) (h : wordFrom c cs = ⟨.fault f, n⟩) :
    scan p (c :: cs) = .error ⟨f, p⟩ := by
  rw [scan, if_neg hb]
  split
  · next ho =>
    rw [h] at ho
    cases ho
  · next f' ho =>
    rw [h] at ho
    cases ho
    rfl
  · next ho =>
    rw [h] at ho
    cases ho

theorem gap_of_blank {c : Char} (h : isInlineSpace c) (cs : List Char) :
    gap (c :: cs) = c :: gap cs :=
  List.takeWhile_cons_of_pos h

theorem gap_of_not_blank {c : Char} (h : ¬isInlineSpace c = true) (cs : List Char) :
    gap (c :: cs) = [] :=
  List.takeWhile_cons_of_neg h

/-- The blanks in front of a text are skipped. -/
theorem scan_gap (p : Pos) (cs : List Char) :
    scan p cs = scan (p.afterAll (gap cs)) (cs.drop (gap cs).length) := by
  induction cs generalizing p with
  | nil => rfl
  | cons c cs ih =>
    by_cases hc : isInlineSpace c = true
    · rw [scan_blank hc, ih, gap_of_blank hc, Pos.afterAll_cons, List.length_cons,
        List.drop_succ_cons]
    · rw [gap_of_not_blank hc]
      rfl

/-- Behind the blanks in front of a text stands no other. -/
theorem not_blank_behind_gap {c : Char} {cs ds : List Char}
    (h : cs.drop (gap cs).length = c :: ds) : ¬isInlineSpace c = true := by
  induction cs with
  | nil => simp at h
  | cons d cs ih =>
    by_cases hd : isInlineSpace d = true
    · rw [gap_of_blank hd, List.length_cons, List.drop_succ_cons] at h
      exact ih h
    · rw [gap_of_not_blank hd] at h
      rwa [← (List.cons.inj h).1]

theorem take_gap (cs : List Char) : cs.take (gap cs).length = gap cs :=
  (List.prefix_iff_eq_take.1 (List.takeWhile_prefix _)).symm

/-! ### The lexer makes the same tokens -/

namespace Lexer

section
variable {reader : List Char → Reading Word} {s : Stream} {n : Nat}

theorem token_found {w : Word} (h : reader s.ahead = ⟨.found w, n⟩) :
    token reader s = .ok ⟨w, s.place⟩ (s.skip n) := by
  simp only [token_eq, read, h]

theorem token_fault {f : LexFault} (h : reader s.ahead = ⟨.fault f, n⟩) :
    token reader s = .error (.lexical ⟨f, s.place⟩) (s.skip n) := by
  simp only [token_eq, read, h]

end

/-- The next token and what is left behind it, as the text tells. -/
theorem scan_nextToken (s : Stream) :
    (∃ t s', nextToken s = .ok t s' ∧ t.kind = .eof ∧ scan s.place s.ahead = .ok [t]) ∨
    (∃ t s', nextToken s = .ok t s' ∧ t.kind ≠ .eof ∧
      scan s.place s.ahead = (scan s'.place s'.ahead).map (t :: ·)) ∨
    ∃ e s', nextToken s = .error (.lexical e) s' ∧ scan s.place s.ahead = .error e := by
  have hnext : nextToken s = token Lexeme.word (s.skip (gap s.ahead).length) := rfl
  have hscan : scan s.place s.ahead =
      scan (s.skip (gap s.ahead).length).place (s.skip (gap s.ahead).length).ahead := by
    rw [scan_gap]
    show _ = scan (s.place.afterAll (s.ahead.take (gap s.ahead).length)) _
    rw [take_gap]
    rfl
  have hblank : ∀ c cs, (s.skip (gap s.ahead).length).ahead = c :: cs → ¬isInlineSpace c = true :=
    fun c cs h => not_blank_behind_gap h
  -- behind the gap the text is over or a word is begun
  rw [hnext, hscan]
  generalize s.skip (gap s.ahead).length = s' at hblank
  cases hcs : s'.ahead with
  | nil =>
    have hw : Lexeme.word s'.ahead = ⟨.found ⟨.eof, ""⟩, 0⟩ := by
      rw [hcs]
      rfl
    exact .inl ⟨_, _, token_found hw, rfl, scan_nil _⟩
  | cons c cs =>
    have hw : Lexeme.word s'.ahead = wordFrom c cs := by
      rw [hcs]
      rfl
    have hy := Lexeme.yields_wordFrom c cs
    generalize hr : wordFrom c cs = r at hy
    cases hy with
    | found hl =>
      refine .inr (.inl ⟨_, _, token_found (hw.trans hr), hl.kind_ne_eof, ?_⟩)
      rw [scan_found s'.place hr, ← hcs]
      rfl
    | fault =>
      exact .inr (.inr ⟨_, _, token_fault (hw.trans hr), scan_fault _ (hblank c cs hcs) hr⟩)

/-- The tokens of a stream: the next one, and those behind it. -/
theorem tokens_unfold (s : Stream) :
    tokens s =
      match nextToken s with
      | .error e s' => .error e s'
      | .ok t s' =>
        if t.kind = .eof then .ok [t] s'
        else
          match tokens s' with
          | .error e s'' => .error e s''
          | .ok ts s'' => .ok (t :: ts) s'' := by
  rw [tokens]
  split
  · next hn => rw [hn]
  · next hn =>
    rw [hn]
    rfl

/-- The tokens of a stream are those of the text ahead. -/
theorem tokens_eq (s : Stream) :
    ∃ s', tokens s =
      match scan s.place s.ahead with
      | .ok ts => .ok ts s'
      | .error e => .error (.lexical e) s' := by
  induction hn : s.ahead.length using Nat.strongRecOn generalizing s with
  | _ n ih =>
    subst hn
    rw [tokens_unfold]
    obtain ⟨t, s', hnext, he, hscan⟩ | ⟨t, s', hnext, he, hscan⟩ | ⟨e, s', hnext, hscan⟩ :=
      scan_nextToken s
    · -- the end of the text
      refine ⟨s', ?_⟩
      rw [hnext, hscan]
      exact if_pos he
    · -- a token, and what the rest makes
      obtain ⟨s'', hrest⟩ := ih _ (length_ahead_nextToken hnext he) s' rfl
      refine ⟨s'', ?_⟩
      rw [hnext, hscan]
      refine (if_neg he).trans ?_
      rw [hrest]
      cases scan s'.place s'.ahead <;> rfl
    · -- a fault
      exact ⟨s', by rw [hnext, hscan]⟩

end Lexer

/-- The tokens of a source. -/
theorem tokenize_eq (source : String) :
    tokenize source = (scan .start source.toList).mapError .lexical := by
  obtain ⟨s', h⟩ := Lexer.tokens_eq (.ofString source)
  have ha : (Stream.ofString source).ahead = source.toList := rfl
  have hp : (Stream.ofString source).place = .start := rfl
  rw [ha, hp] at h
  rw [tokenize, h]
  cases scan .start source.toList <;> rfl

theorem tokenize_eq_ok {source : String} {ts : List Token} :
    tokenize source = .ok ts ↔ scan .start source.toList = .ok ts := by
  rw [tokenize_eq]
  cases scan .start source.toList <;> simp [Except.mapError]

theorem tokenize_eq_error {source : String} {e : LexError} :
    tokenize source = .error (.lexical e) ↔ scan .start source.toList = .error e := by
  rw [tokenize_eq]
  cases scan .start source.toList <;> simp [Except.mapError]

/-- Every token but the last is a word of the lexer, and the last is the end marker, which stands
behind the whole text. -/
theorem lexed_of_scan {p : Pos} {cs : List Char} {ts : List Token} (h : scan p cs = .ok ts) :
    ∃ us, ts = us ++ [⟨⟨.eof, ""⟩, p.afterAll cs⟩] ∧ ∀ t ∈ us, t.toWord.Lexed := by
  fun_induction scan p cs generalizing ts with
  | case1 p =>
    cases h
    exact ⟨[], rfl, by simp⟩
  | case2 p c cs hb ih => exact ih h
  | case3 p c cs hb w hw ih =>
    have hl : w.Lexed := Lexeme.lexed_of_wordFrom hw
    revert h
    generalize scan _ _ = r at ih
    cases r with
    | error e => exact fun h => by cases h
    | ok us =>
      intro h
      cases h
      obtain ⟨us, rfl, hus⟩ := ih rfl
      rw [← Pos.afterAll_append, List.take_append_drop]
      exact ⟨⟨w, p⟩ :: us, rfl, List.forall_mem_cons.2 ⟨hl, hus⟩⟩
  | case4 p c cs hb f hf => cases h
  | case5 p c cs hb hc => exact absurd hc (Lexeme.wordFrom_ne_cutShort c cs)

/-! ### Words -/

/-- The words of tokens, without the places. -/
def withoutPlaces (r : Except LexError (List Token)) : Except LexFault (List Word) :=
  (r.map (·.map (·.toWord))).mapError (·.fault)

theorem withoutPlaces_cons (t : Token) (r : Except LexError (List Token)) :
    withoutPlaces (r.map (t :: ·)) = (withoutPlaces r).map (t.toWord :: ·) := by
  cases r <;> rfl

/-- The words of a text, the end marker included. -/
def words (cs : List Char) : Except LexFault (List Word) := withoutPlaces (scan .start cs)

/-- Words in front of those of a text, if it has any. -/
def before (ws : List Word) (r : Except LexFault (List Word)) : Except LexFault (List Word) :=
  r.map (ws ++ ·)

@[simp] theorem before_nil (r : Except LexFault (List Word)) : before [] r = r := by
  cases r <;> rfl

@[simp] theorem before_before (vs ws : List Word) (r : Except LexFault (List Word)) :
    before vs (before ws r) = before (vs ++ ws) r := by
  cases r <;> simp [before, Except.map]

@[simp] theorem before_error (ws : List Word) (f : LexFault) :
    before ws (.error f) = .error f := rfl

theorem before_eq_ok {vs ws : List Word} {r : Except LexFault (List Word)} :
    before ws r = .ok vs ↔ ∃ us, r = .ok us ∧ vs = ws ++ us := by
  cases r <;> simp [before, Except.map, eq_comm]

/-- Where a text starts does not matter to its words. -/
theorem words_eq (p : Pos) (cs : List Char) : withoutPlaces (scan p cs) = words cs := by
  unfold words
  -- both places move on with the text, so the one at the start has to be any place
  generalize Pos.start = q
  fun_induction scan p cs generalizing q with
  | case1 p =>
    rw [scan_nil]
    rfl
  | case2 p c cs hb ih => rw [scan_blank hb, ih]
  | case3 p c cs hb w hw ih =>
    have hr : wordFrom c cs = ⟨.found w, (wordFrom c cs).length⟩ := by rw [← hw]
    rw [scan_found q hr, withoutPlaces_cons, withoutPlaces_cons, ih]
  | case4 p c cs hb f hf =>
    have hr : wordFrom c cs = ⟨.fault f, (wordFrom c cs).length⟩ := by rw [← hf]
    rw [scan_fault q hb hr]
    rfl
  | case5 p c cs hb hc => exact absurd hc (Lexeme.wordFrom_ne_cutShort c cs)

theorem words_nil : words [] = .ok [⟨.eof, ""⟩] := by
  rw [words, scan_nil]
  rfl

theorem words_blank {c : Char} (h : isInlineSpace c) (cs : List Char) :
    words (c :: cs) = words cs := by
  rw [words, scan_blank h, words_eq]

/-- A word at the front is the first of the words. -/
theorem words_word {l rest : List Char} {w : Word} (hl : l ≠ [])
    (h : Lexeme.word (l ++ rest) = ⟨.found w, l.length⟩) :
    words (l ++ rest) = before [w] (words rest) := by
  obtain ⟨c, cs, rfl⟩ := List.exists_cons_of_ne_nil hl
  have hw : wordFrom c (cs ++ rest) = ⟨.found w, (c :: cs).length⟩ := h
  rw [words, List.cons_append, scan_found _ hw, withoutPlaces_cons, words_eq,
    ← List.cons_append, List.drop_left]
  rfl

theorem words_fault {c : Char} {cs : List Char} {f : LexFault} {n : Nat}
    (hb : ¬isInlineSpace c = true) (h : wordFrom c cs = ⟨.fault f, n⟩) :
    words (c :: cs) = .error f := by
  rw [words, scan_fault _ hb h]
  rfl

/-- The tokens of a source have the words of its text, and where it has none it is not tokenized. -/
theorem tokenize_words (source : String) :
    match words source.toList with
    | .ok ws => ∃ ts, tokenize source = .ok ts ∧ ts.map (·.toWord) = ws
    | .error f => ∃ q, tokenize source = .error (.lexical ⟨f, q⟩) := by
  rw [tokenize_eq, words]
  cases scan .start source.toList with
  | ok ts => exact ⟨ts, rfl, rfl⟩
  | error e => exact ⟨e.pos, rfl⟩

end IntelAsm
