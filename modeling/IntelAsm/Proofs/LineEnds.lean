import IntelAsm.Proofs.Lexer.Blanks
import IntelAsm.Proofs.Parser.Lines

/-!
# Line ends

A carriage return at the end of a line is a blank, and blanks behind the last word of a line make no
difference, but for a comment: it is kept to the end of its line and takes the return in
(`words_line_return`). So a source whose lines end with a carriage return in front of the newline
has the same program, with one more character in the comments above the last line
(`parseSource_withReturns`).
-/

namespace IntelAsm

open Lexeme
open Respelling (unplaced)

/-! ### Texts with carriage returns -/

/-- Every newline with a carriage return in front of it. -/
def returnLines (cs : List Char) : List Char :=
  cs.flatMap fun c => if c = '\n' then ['\r', '\n'] else [c]

/-- A source whose lines end with a carriage return and a newline. -/
def withReturns (source : String) : String := String.ofList (returnLines source.toList)

theorem returnLines_append_newline (as bs : List Char) :
    returnLines (as ++ '\n' :: bs) = returnLines as ++ ['\r'] ++ '\n' :: returnLines bs := by
  simp [returnLines]

theorem returnLines_line {cs : List Char} (h : '\n' ∉ cs) : returnLines cs = cs := by
  induction cs with
  | nil => rfl
  | cons c cs ih =>
    obtain ⟨hc, hcs⟩ := not_or.1 (mt List.mem_cons.2 h)
    have hcons : returnLines (c :: cs) = c :: returnLines cs := by
      simp [returnLines, Ne.symm hc]
    rw [hcons, ih hcs]

/-! ### Words of lines with carriage returns -/

namespace Respelling

/-- A carriage return at the end of every comment. -/
def returned : Respelling where
  text k s := if k = .comment then s ++ "\r" else s
  place p := p

theorem lawful_returned : returned.Lawful where
  place_nowhere := rfl
  end_text := rfl
  mark_text _ _ := rfl
  value := by
    rintro ⟨k, s⟩ hk
    have hcomment : k ≠ .comment := by
      rintro rfl
      cases hk
    simp only [word, returned, if_neg hcomment]
  upper _ := rfl
  keyword _ := rfl

/-! Nothing in a program is changed but its comments. -/

@[simp] theorem text_returned {k : TokenKind} (h : k ≠ .comment) : returned.text k = id := by
  funext s
  exact if_neg h

@[simp] theorem place_returned : returned.place = id := rfl

@[simp] theorem expr_returned (e : Expr) : returned.expr e = e :=
  returned.expr_eq_self rfl rfl e

@[simp] theorem operand_returned (o : Operand) : returned.operand o = o :=
  returned.operand_eq_self rfl rfl rfl rfl o

theorem instruction_returned (i : Instruction) :
    returned.instruction i = { i with comment := i.comment.map (· ++ "\r") } := by
  have hdirective : i.directive.map returned.expr = i.directive := by
    simp [funext expr_returned]
  have hoperands : i.operands.map returned.operand = i.operands := by
    simp [funext operand_returned]
  have hlabel : i.label.map (returned.text .ident) = i.label := by simp
  rw [instruction, hdirective, hoperands, hlabel]
  rfl

theorem labels_returned (ls : List Label) : ls.map returned.label = ls := by
  simp [funext (show ∀ l, returned.label l = l from fun _ => rfl)]

end Respelling

open Respelling (returned lawful_returned)

namespace Lexeme

/-- The last character of a text is the last one of a part at its end. -/
theorem exists_concat_of_append {as bs es : List Char} {c : Char} (h : as ++ [c] = bs ++ es)
    (hes : es ≠ []) : ∃ ds, es = ds ++ [c] ∧ as = bs ++ ds := by
  obtain ⟨ds, d, rfl⟩ : ∃ ds d, es = ds ++ [d] := ⟨_, _, (List.dropLast_concat_getLast hes).symm⟩
  rw [← List.append_assoc] at h
  obtain ⟨has, hc⟩ := List.append_inj' h rfl
  exact ⟨ds, by rw [hc], has⟩

/-- A carriage return at the end of a line ends a word there, and brings nothing to it. -/
theorem endsLike_return (rest : List Char) : EndsLike rest (rest ++ ['\r']) where
  head := by
    cases rest with
    | nil => exact .inr ⟨'\r', rfl, rfl⟩
    | cons c rest => exact .inl rfl
  suffix := by
    rintro ⟨g, u, r, h, hg, hu, hr⟩
    have hword : IsWord u := isWord_of_lower_eq_sizeSuffix hu
    cases r with
    | nil =>
      -- no word ends with a carriage return
      rw [List.append_nil] at h
      obtain ⟨ds, rfl, -⟩ := exists_concat_of_append h hword.ne_nil
      have hcontinues : continuesWord '\r' := hword.continues '\r' (by simp)
      exact absurd hcontinues (by decide +kernel)
    | cons c r =>
      rw [← List.append_assoc] at h
      obtain ⟨ds, hds, rfl⟩ := exists_concat_of_append h (List.cons_ne_nil c r)
      rw [hds] at hr
      exact ⟨g, u, ds, List.append_assoc .., hg, hu, hr.of_append⟩

theorem shows_return {f : LexFault} {cs : List Char} (h : f.Shows cs) : f.Shows (cs ++ ['\r']) := by
  cases h with
  | unexpected hc => exact .unexpected hc
  | @noHexDigits x run rest hx hrun hend hno =>
    have hend' : (rest ++ ['\r']).head?.any (fun c => Numeral.isHexDigit c || c = '_') = false :=
      (endsLike_return rest).head?_any (forall_blank (by decide)) hend
    rw [List.cons_append, List.cons_append, List.append_assoc]
    exact .noHexDigits hx hrun hend' hno
  | @unterminated quote cs hq hopen =>
    refine .unterminated hq fun body rest h => ?_
    obtain ⟨ds, hds, rfl⟩ := exists_concat_of_append h (List.cons_ne_nil quote rest)
    cases ds with
    | nil =>
      obtain ⟨rfl, -⟩ := List.cons.inj hds
      simp at hq
    | cons d ds =>
      obtain ⟨rfl, -⟩ := List.cons.inj hds
      exact hopen body ds rfl

/-- On a line nothing stands behind a comment. -/
theorem eq_nil_of_comment {l rest : List Char} {text : String}
    (he : Word.EndsBefore ⟨.comment, text⟩ l rest) (h : '\n' ∉ rest) : rest = [] := by
  cases rest with
  | nil => rfl
  | cons c rest =>
    have hc : c = '\n' := by simpa [Word.EndsBefore] using he
    exact absurd (List.mem_cons.2 (.inl hc.symm)) h

/-- A comment at the end of a line takes the carriage return in. -/
theorem words_comment_return {l : List Char} (h : IsComment l) :
    words (l ++ ['\r']) =
      .ok [returned.word ⟨.comment, String.ofList l⟩, returned.word ⟨.eof, ""⟩] := by
  obtain ⟨⟨c, cs, hc, rfl⟩, hn⟩ := h
  have hcomment : IsComment (c :: cs ++ ['\r']) :=
    ⟨⟨c, cs ++ ['\r'], hc, rfl⟩, by simpa using hn⟩
  have hword : word (c :: cs ++ ['\r'] ++ []) =
      ⟨.found ⟨.comment, String.ofList (c :: cs ++ ['\r'])⟩, (c :: cs ++ ['\r']).length⟩ :=
    word_of_spells (.comment hcomment) rfl
  have htext : String.ofList (c :: cs ++ ['\r']) = String.ofList (c :: cs) ++ "\r" :=
    String.ofList_append
  have hwords := words_word (List.cons_ne_nil c (cs ++ ['\r'])) hword
  rw [List.append_nil] at hwords
  rw [← List.cons_append, htext, words_nil] at hwords
  exact hwords

/-- With a carriage return at its end a line has the same words, the comment at its end in full. -/
theorem words_line_return {cs : List Char} (h : '\n' ∉ cs) :
    words (cs ++ ['\r']) = (words cs).map (·.map returned.word) := by
  rw [← words_eq .start cs]
  -- the place at the start moves on with the text
  generalize Pos.start = p
  fun_induction scan p cs with
  | case1 p =>
    rw [List.nil_append, words_blank rfl, words_nil]
    rfl
  | case2 p c cs hb ih =>
    rw [List.cons_append, words_blank hb, ih (List.not_mem_of_not_mem_cons h)]
  | case3 p c cs hb w hw ih =>
    obtain ⟨l, rest, hcs, hlength, hl, he⟩ := cuts_wordFrom c cs w hw
    rw [hcs, ← hlength, List.take_left, List.drop_left] at ih ⊢
    have hrest : '\n' ∉ rest := fun hmem => h (hcs ▸ List.mem_append_right l hmem)
    rw [withoutPlaces_cons]
    by_cases hk : w.kind = .comment
    · cases hl with
      | comment hl =>
        obtain rfl := eq_nil_of_comment he hrest
        rw [List.append_nil, words_comment_return hl, scan_nil]
        rfl
      | _ => cases hk
    · have he' := he.of_endsLike hl (endsLike_return rest) fun h => absurd h hk
      rw [List.append_assoc, words_word hl.ne_nil (word_of_spells hl he'), ih hrest]
      have hreturned : returned.word w = w := by simp [Respelling.word, returned, hk]
      cases withoutPlaces (scan (p.afterAll l) rest) with
      | error f => rfl
      | ok ws => simp [before, Except.map, hreturned]
  | case4 p c cs hb f hf =>
    have hshows := shows_return (shows_of_wordFrom hb hf)
    have hfault : (wordFrom c (cs ++ ['\r'])).outcome = .fault f := wordFrom_of_shows hshows
    have hword : wordFrom c (cs ++ ['\r']) = ⟨.fault f, (wordFrom c (cs ++ ['\r'])).length⟩ := by
      rw [← hfault]
    rw [List.cons_append, words_fault hb hword]
    rfl
  | case5 p c cs hb hc => exact absurd hc (wordFrom_ne_cutShort c cs)

/-- The words of a text up to a newline are read as if it ended there, those behind it anew. -/
theorem words_append_newline (cs bs : List Char) :
    words (cs ++ '\n' :: bs) = (words cs).bind fun ws =>
      (words bs).map fun vs => ws.dropLast ++ ⟨.newline, "\n"⟩ :: vs := by
  rw [words, words, ← words_eq ((Pos.start.afterAll cs).after '\n') bs, scan_append_newline]
  cases scan .start cs with
  | error e => rfl
  | ok ts =>
    cases scan ((Pos.start.afterAll cs).after '\n') bs with
    | error e => rfl
    | ok us => simp [withoutPlaces, Except.map, Except.mapError, Except.bind]

/-- Where all lines end with a carriage return, the words are the same, but for comments. -/
theorem words_returnLines (cs : List Char) :
    words (returnLines cs ++ ['\r']) = (words cs).map (·.map returned.word) := by
  -- line by line
  induction hn : cs.length using Nat.strongRecOn generalizing cs with
  | _ n ih =>
    by_cases hmem : '\n' ∈ cs
    · obtain ⟨as, bs, rfl, has⟩ := List.eq_append_cons_of_mem hmem
      have hbs := ih bs.length (by simp [← hn]; omega) bs rfl
      rw [returnLines_append_newline, List.append_assoc _ _ ['\r'], List.cons_append,
        words_append_newline, returnLines_line has, words_line_return has, hbs,
        words_append_newline]
      cases words as with
      | error f => rfl
      | ok ws =>
        cases words bs with
        | error f => rfl
        | ok vs => simp [Except.map, Except.bind, List.map_dropLast]; rfl
    · rw [returnLines_line hmem, words_line_return hmem]

end Lexeme

/-! ### Programs of lines with carriage returns -/

/-- A carriage return at the end of the comment, if the instruction is in one of the first lines. -/
def Instruction.withReturn (lines : Nat) (i : Instruction) : Instruction :=
  if i.pos.line ≤ lines then { i with comment := i.comment.map (· ++ "\r") } else i

/-- A carriage return at the end of the comments in the first lines. -/
def Program.withReturns (lines : Nat) (p : Program) : Program :=
  { p with instructions := p.instructions.map (·.withReturn lines) }

namespace Program

theorem withReturns_join (lines : Nat) (p q : Program) :
    (p.join q).withReturns lines = (p.withReturns lines).join (q.withReturns lines) := by
  have hinstructions := map_joinInstructions (g := (·.withReturn lines))
    (fun i => by unfold Instruction.withReturn; split <;> rfl)
    (fun i => by unfold Instruction.withReturn; split <;> rfl)
    (fun i l => by unfold Instruction.withReturn; split <;> rfl) p.instructions q.instructions
  simp only [join, withReturns, hinstructions]

theorem withReturns_eq_self {lines : Nat} {p : Program}
    (h : ∀ i ∈ p.instructions, lines < i.pos.line) : p.withReturns lines = p := by
  have hinstruction : ∀ i ∈ p.instructions, i.withReturn lines = i :=
    fun i hi => if_neg (Int.not_le.2 (h i hi))
  rw [withReturns, List.map_congr_left hinstruction, List.map_id']

theorem withReturns_eq_returned {lines : Nat} {p : Program}
    (h : ∀ i ∈ p.instructions, i.pos.line ≤ lines) :
    p.withReturns lines = returned.program p := by
  have hinstruction : ∀ i ∈ p.instructions, i.withReturn lines = returned.instruction i := by
    intro i hi
    rw [Respelling.instruction_returned]
    exact if_pos (h i hi)
  rw [withReturns, List.map_congr_left hinstruction, Respelling.program,
    Respelling.labels_returned]

end Program

/-- Instructions stand at tokens. -/
theorem Program.From.exists_token {ts : List Token} {p : Program} (hp : p.From ts) :
    ∀ i ∈ p.instructions, ∃ t ∈ ts, t.pos = i.pos := by
  intro i hi
  obtain ⟨l, hl, rfl⟩ | ⟨label, hfrom⟩ := hp.instructions i hi
  · exact ⟨_, hl, rfl⟩
  · obtain ⟨name, hname, -⟩ := hfrom.mnemonic
    exact ⟨_, hname, rfl⟩

/-- The instructions of a text are in its lines. -/
theorem lines_of_parse {before cs : List Char} {ts : List Token} {p : Program}
    (hts : scan (.behind before) cs = .ok ts) (hp : parse ts = .ok p) :
    ∀ i ∈ p.instructions, before.count '\n' < i.pos.line ∧
      i.pos.line ≤ 1 + before.count '\n' + cs.count '\n' := by
  intro i hi
  obtain ⟨t, ht, hpos⟩ := (from_of_parse hp).exists_token i hi
  obtain ⟨es, rest, rfl, hes⟩ := (partition_of_scan hts).exists_split t ht
  rw [← hpos, hes]
  simp only [Pos.behind, List.count_append]
  omega

/-- A text whose last line ends with a carriage return too has the program of the plain text, with a
return in all its comments. -/
theorem parse_returned (cs : List Char) :
    (∃ p q, parseSource (.ofList cs) = .ok p ∧
      parseSource (.ofList (returnLines cs ++ ['\r'])) = .ok q ∧
      unplaced.program q = unplaced.program (returned.program p)) ∨
    ∃ e f, parseSource (.ofList cs) = .error e ∧
      parseSource (.ofList (returnLines cs ++ ['\r'])) = .error f := by
  have hts := tokenize_words (.ofList cs)
  have hus := tokenize_words (.ofList (returnLines cs ++ ['\r']))
  rw [String.toList_ofList] at hts hus
  rw [words_returnLines] at hus
  cases hws : words cs with
  | error f =>
    rw [hws] at hts hus
    obtain ⟨p, hp⟩ := hts
    obtain ⟨q, hq⟩ := hus
    exact .inr ⟨_, _, by rw [parseSource, hp], by rw [parseSource, hq]⟩
  | ok ws =>
    rw [hws] at hts hus
    obtain ⟨ts, hts, rfl⟩ := hts
    obtain ⟨us, hus, huswords⟩ := hus
    have hwords : us.map (·.toWord) = (ts.map returned.token).map (·.toWord) := by
      rw [huswords]
      simp [Respelling.token]
    have hrespell := parse_respell lawful_returned ts
    rw [parseSource_of_tokenize hts, parseSource_of_tokenize hus]
    cases hp : parse ts with
    | ok p =>
      rw [hp] at hrespell
      obtain ⟨q, hq, hsame⟩ := exists_parse_of_words hwords hrespell
      rw [hq]
      exact .inl ⟨p, q, rfl, rfl, hsame⟩
    | error e =>
      rw [hp] at hrespell
      cases hq : parse us with
      | error f => exact .inr ⟨_, _, rfl, rfl⟩
      | ok q =>
        obtain ⟨p, hp', -⟩ := exists_parse_of_words hwords.symm hq
        rw [hp'] at hrespell
        cases hrespell

/-- A text that is not one line is cut at its last newline. -/
theorem exists_last_line {source : String} (h : '\n' ∈ source.toList) :
    ∃ a b : String, source = a ++ "\n" ++ b ∧ '\n' ∉ b.toList := by
  obtain ⟨as, bs, hsplit, has⟩ := List.eq_append_cons_of_mem (List.mem_reverse.2 h)
  refine ⟨.ofList bs.reverse, .ofList as.reverse, ?_, by simpa using has⟩
  rw [← String.toList_inj, toList_append_newline, String.toList_ofList, String.toList_ofList,
    ← List.reverse_reverse source.toList, hsplit]
  simp

theorem withReturns_lines {a b : String} (hb : '\n' ∉ b.toList) :
    withReturns (a ++ "\n" ++ b) =
      String.ofList (returnLines a.toList ++ ['\r']) ++ "\n" ++ b := by
  rw [withReturns, toList_append_newline, returnLines_append_newline, returnLines_line hb,
    ← String.toList_inj, toList_append_newline, String.toList_ofList, String.toList_ofList]

/-- Comments with a return are those of the part in front of the last newline. -/
theorem exists_withReturns_of_lines {a b : String} {r : Program} (hb : '\n' ∉ b.toList)
    (h : parseSource (a ++ "\n" ++ b) = .ok r) :
    ∃ p q, parseSource a = .ok p ∧ parseSource b = .ok q ∧
      unplaced.program (r.withReturns ((a ++ "\n" ++ b).toList.count '\n')) =
        unplaced.program ((returned.program p).join q) := by
  obtain ⟨us, vs, p, q', hus, hvs, hp, hq', rfl⟩ := exists_tokens_of_parseSource_lines h
  obtain ⟨ws, hws, hwords⟩ := exists_scan_at hvs .start
  obtain ⟨q, hq, hsame⟩ := exists_parse_of_words hwords hq'
  refine ⟨p, q, parseSource_eq_ok hus hp, parseSource_eq_ok hws hq, ?_⟩
  have hcount : (a ++ "\n" ++ b).toList.count '\n' = a.toList.count '\n' + 1 := by
    simp [List.count_append, List.count_eq_zero_of_not_mem hb]
  rw [← Pos.behind_nil] at hus hvs
  rw [Pos.afterAll_behind, ← Pos.behind_append_singleton] at hvs
  have hfront : p.withReturns (a.toList.count '\n' + 1) = returned.program p := by
    refine Program.withReturns_eq_returned fun i hi => ?_
    have hlast := (lines_of_parse hus hp i hi).2
    simp only [List.count_nil] at hlast
    omega
  have hback : q'.withReturns (a.toList.count '\n' + 1) = q' := by
    refine Program.withReturns_eq_self fun i hi => ?_
    have hfirst := (lines_of_parse hvs hq' i hi).1
    simpa [List.count_append] using hfirst
  rw [hcount, Program.withReturns_join, hfront, hback, unplaced_join, unplaced_join, hsame]

/-- A source has a program iff it has one with a carriage return in front of every newline. The
programs are the same, places aside, but for a carriage return at the end of every comment that is
not in the last line. -/
theorem parseSource_withReturns (source : String) :
    (∃ p q, parseSource source = .ok p ∧ parseSource (withReturns source) = .ok q ∧
      q.toNode.same (p.withReturns (source.toList.count '\n')).toNode) ∨
    ∃ e f, parseSource source = .error e ∧ parseSource (withReturns source) = .error f := by
  by_cases hmem : '\n' ∈ source.toList
  case neg =>
    have hreturns : withReturns source = source := by
      rw [withReturns, returnLines_line hmem, String.ofList_toList]
    rw [hreturns]
    cases hp : parseSource source with
    | error e => exact .inr ⟨e, e, rfl, rfl⟩
    | ok p =>
      obtain ⟨ts, hts, hp⟩ := exists_of_parseSource hp
      rw [tokenize_eq_ok, ← Pos.behind_nil] at hts
      have hlines : p.withReturns (source.toList.count '\n') = p := by
        refine Program.withReturns_eq_self fun i hi => ?_
        have hfirst := (lines_of_parse hts hp i hi).1
        rwa [List.count_eq_zero_of_not_mem hmem]
      refine .inl ⟨p, p, rfl, rfl, ?_⟩
      rw [hlines, program_same_iff]
  obtain ⟨a, b, rfl, hb⟩ := exists_last_line hmem
  rw [withReturns_lines hb]
  have hreturned := parse_returned a.toList
  rw [String.ofList_toList] at hreturned
  generalize String.ofList (returnLines a.toList ++ ['\r']) = a' at hreturned
  cases hr : parseSource (a ++ "\n" ++ b) with
  | ok r =>
    obtain ⟨p, q, hp, hq, hlines⟩ := exists_withReturns_of_lines hb hr
    obtain ⟨p₁, p', hp₁, hp', hsame⟩ | ⟨e, -, he, -⟩ := hreturned
    case inr =>
      rw [hp] at he
      cases he
    obtain rfl : p = p₁ := Except.ok.inj (hp.symm.trans hp₁)
    obtain ⟨r', hr'⟩ := exists_parseSource_lines hp' hq
    obtain ⟨p₂, q₂, hp₂, hq₂, hjoin⟩ := exists_of_parseSource_lines hr'
    obtain rfl : p' = p₂ := Except.ok.inj (hp'.symm.trans hp₂)
    obtain rfl : q = q₂ := Except.ok.inj (hq.symm.trans hq₂)
    refine .inl ⟨r, r', rfl, hr', ?_⟩
    rw [program_same_iff] at hjoin ⊢
    rw [hjoin, hlines, unplaced_join, unplaced_join, hsame]
  | error e =>
    cases hr' : parseSource (a' ++ "\n" ++ b) with
    | error f => exact .inr ⟨e, f, rfl, rfl⟩
    | ok r' =>
      -- both parts have programs, so the whole would have one
      obtain ⟨p', q, hp', hq, -⟩ := exists_of_parseSource_lines hr'
      obtain ⟨p, -, hp, -⟩ | ⟨-, f, -, hf⟩ := hreturned
      · obtain ⟨r, hr₁⟩ := exists_parseSource_lines hp hq
        rw [hr] at hr₁
        cases hr₁
      · rw [hp'] at hf
        cases hf

/-- A comment that is not in the last line tells how the lines end. -/
theorem not_same_withReturns_of_comment :
    ¬∀ source : String, '\r' ∉ source.toList →
      ((∃ q, parseSource (withReturns source) = .ok q) ↔ ∃ p, parseSource source = .ok p) ∧
      ∀ p q, parseSource source = .ok p → parseSource (withReturns source) = .ok q →
        p.toNode.same q.toNode := by
  intro h
  have hp : parseSource "ret ;c\n" = .ok ⟨[⟨"RET", [], none, some ";c", none, ⟨1, 1⟩⟩], []⟩ := by
    decide +kernel
  have hq : parseSource (withReturns "ret ;c\n") =
      .ok ⟨[⟨"RET", [], none, some ";c\r", none, ⟨1, 1⟩⟩], []⟩ := by
    decide +kernel
  have hsame := (h "ret ;c\n" (by decide)).2 _ _ hp hq
  revert hsame
  decide +kernel

end IntelAsm
