import IntelAsm.Proofs.Lexer.Blanks
import IntelAsm.Proofs.Respelling.LetterCase
import Mathlib.Data.List.Forall2

/-!
# Layout

A source is a sequence of lexemes with blanks around them (`Layout`), and every source with tokens
is one in the way in which the lexer reads it (`exists_reads_of_tokenize`). Other blanks around the
same lexemes make no difference, provided that lexemes stay apart where they were, and that no blank
comes behind a comment (`Layout.Respaced`): the words are the same, and so is the program or the
fault (`parseSource_of_respaced`).

What could make a difference is where a word ends. That is decided by the character behind it, which
is the same or a blank, and for the first word of a size specifier by the next word.
-/

namespace IntelAsm

open Lexeme
open Respelling (unplaced)

/-- A lexeme and the blanks behind it. -/
structure Piece where
  lexeme : List Char
  gap : List Char
deriving DecidableEq, Repr

/-- A text as lexemes and the blanks around them. -/
structure Layout where
  /-- The blanks in front of the first lexeme. -/
  lead : List Char := []
  pieces : List Piece
deriving DecidableEq, Repr

namespace Layout

/-- The text of pieces. -/
def textOf (ps : List Piece) : List Char := ps.flatMap fun p => p.lexeme ++ p.gap

theorem textOf_cons (p : Piece) (ps : List Piece) :
    textOf (p :: ps) = p.lexeme ++ (p.gap ++ textOf ps) := by
  simp [textOf]

/-- The text of a layout. -/
def source (a : Layout) : String := String.ofList (a.lead ++ textOf a.pieces)

/-! ### How the lexer reads a layout -/

/-- Each lexeme is what the lexer takes for a word where it stands. -/
inductive ReadsPieces : List Piece → List Word → Prop where
  | nil : ReadsPieces [] []
  | cons {p : Piece} {ps : List Piece} {w : Word} {ws : List Word} (hne : p.lexeme ≠ [])
      (hword : word (p.lexeme ++ (p.gap ++ textOf ps)) = ⟨.found w, p.lexeme.length⟩)
      (hgap : IsGap p.gap) (hps : ReadsPieces ps ws) : ReadsPieces (p :: ps) (w :: ws)

/-- The lexer reads the lexemes of a layout as these words, and nothing but blanks is left. -/
structure Reads (a : Layout) (ws : List Word) : Prop where
  lead : IsGap a.lead
  pieces : ReadsPieces a.pieces ws

theorem ReadsPieces.words {ps : List Piece} {ws : List Word} (h : ReadsPieces ps ws) :
    words (textOf ps) = .ok (ws ++ [⟨.eof, ""⟩]) := by
  induction h with
  | nil => exact words_nil
  | cons hne hword hgap hps ih =>
    rw [textOf_cons, words_word hne hword, words_gap hgap, ih]
    rfl

theorem Reads.words {a : Layout} {ws : List Word} (h : a.Reads ws) :
    words a.source.toList = .ok (ws ++ [⟨.eof, ""⟩]) := by
  rw [source, String.toList_ofList, words_gap h.lead, h.pieces.words]

/-- The words of a layout are the tokens of its text. -/
theorem Reads.tokenize {a : Layout} {ws : List Word} (h : a.Reads ws) :
    ∃ ts, tokenize a.source = .ok ts ∧ ts.map (·.toWord) = ws ++ [⟨.eof, ""⟩] := by
  have htokens := tokenize_words a.source
  rwa [h.words] at htokens

theorem exists_reads_of_partition {before cs : List Char} {ts : List Token}
    (h : Partition before cs ts) : ∃ (a : Layout) (ws : List Word),
      cs = a.lead ++ textOf a.pieces ∧ a.Reads ws ∧ ts.map (·.toWord) = ws ++ [⟨.eof, ""⟩] := by
  induction h with
  | @last before gap hg => exact ⟨⟨gap, []⟩, [], by simp [textOf], ⟨hg, .nil⟩, rfl⟩
  | @cons before gap l rest w ts hg hne hl he hts ih =>
    obtain ⟨a, ws, rfl, ha, hws⟩ := ih
    have hpieces : ReadsPieces (⟨l, a.lead⟩ :: a.pieces) (w :: ws) :=
      .cons hne (word_of_spells hl he) ha.lead ha.pieces
    exact ⟨⟨gap, ⟨l, a.lead⟩ :: a.pieces⟩, w :: ws, by rw [textOf_cons], ⟨hg, hpieces⟩,
      by rw [List.map_cons, hws, List.cons_append]⟩

/-- Every source with tokens has a layout. -/
theorem exists_reads_of_tokenize {source : String} {ts : List Token}
    (h : IntelAsm.tokenize source = .ok ts) : ∃ (a : Layout) (ws : List Word),
      a.source = source ∧ a.Reads ws ∧ ts.map (·.toWord) = ws ++ [⟨.eof, ""⟩] := by
  rw [tokenize_eq_ok] at h
  have hpartition : Partition [] source.toList ts := partition_of_scan h
  obtain ⟨a, ws, hsource, ha, hws⟩ := exists_reads_of_partition hpartition
  exact ⟨a, ws, by rw [Layout.source, ← hsource, String.ofList_toList], ha, hws⟩

end Layout

/-! ### Other blanks -/

/-- The same lexeme with other blanks behind it: some, if there were some, and none behind a
comment, which would take them in. -/
structure Piece.Respaced (p q : Piece) : Prop where
  lexeme : q.lexeme = p.lexeme
  blanks : IsGap q.gap
  kept : p.gap ≠ [] → q.gap ≠ []
  comment : p.lexeme.head?.any (fun c => c = ';' || c = '#') → q.gap = []

/-- A layout of the same lexemes with other blanks around them. -/
structure Layout.Respaced (a b : Layout) : Prop where
  lead : IsGap b.lead
  pieces : List.Forall₂ Piece.Respaced a.pieces b.pieces

namespace Layout

theorem head?_textOf {ps qs : List Piece} {ws : List Word} (h : ReadsPieces ps ws)
    (hpq : List.Forall₂ Piece.Respaced ps qs) : (textOf qs).head? = (textOf ps).head? := by
  cases h with
  | nil =>
    cases hpq
    rfl
  | @cons p ps w ws hne hword hgap hps =>
    obtain ⟨c, cs, hc⟩ := List.exists_cons_of_ne_nil hne
    cases hpq with
    | cons hp hpq =>
      rw [textOf_cons, textOf_cons, hp.lexeme, hc]
      rfl

theorem ReadsPieces.head?_any {ps : List Piece} {ws : List Word} (h : ReadsPieces ps ws) :
    (textOf ps).head?.any isInlineSpace = false := by
  cases h with
  | nil => rfl
  | cons hne hword hgap hps =>
    rw [textOf_cons]
    exact head?_of_word hne hword

/-- The second word of a size specifier stays what it is. -/
theorem exists_suffix_of_respaced {ps qs : List Piece} {ws : List Word} (h : ReadsPieces ps ws)
    (h' : ReadsPieces qs ws) (hpq : List.Forall₂ Piece.Respaced ps qs) :
    (∃ u r, textOf qs = u ++ r ∧ Text.lower (String.ofList u) = sizeSuffix ∧ Breaks r) →
      ∃ u r, textOf ps = u ++ r ∧ Text.lower (String.ofList u) = sizeSuffix ∧ Breaks r := by
  cases h with
  | nil =>
    cases hpq
    exact id
  | @cons p ps w ws hne hword hgap hps =>
    cases hpq with
    | @cons _ q _ qs hp hpq =>
      cases h' with
      | cons hne' hword' hgap' hps' =>
        rw [hp.lexeme] at hword'
        rw [textOf_cons, textOf_cons, hp.lexeme]
        exact exists_suffix_of_word hne hword hword'

theorem endsLike_of_respaced {p q : Piece} {ps qs : List Piece} {ws : List Word}
    (hp : p.Respaced q) (hgap : IsGap p.gap) (h : ReadsPieces ps ws) (h' : ReadsPieces qs ws)
    (hpq : List.Forall₂ Piece.Respaced ps qs) :
    EndsLike (p.gap ++ textOf ps) (q.gap ++ textOf qs) where
  head := by
    cases hq : q.gap with
    | nil =>
      have hnil : p.gap = [] := by
        by_contra hne
        exact hp.kept hne hq
      rw [hnil]
      exact .inl (head?_textOf h hpq)
    | cons c cs => exact .inr ⟨c, rfl, hp.blanks c (by simp [hq])⟩
  suffix := by
    rw [suffixAhead_gap_iff hp.blanks h'.head?_any, suffixAhead_gap_iff hgap h.head?_any]
    exact exists_suffix_of_respaced h h' hpq

/-- With other blanks the lexer reads the same words. -/
theorem ReadsPieces.respaced {ps qs : List Piece} {ws : List Word} (h : ReadsPieces ps ws)
    (hpq : List.Forall₂ Piece.Respaced ps qs) : ReadsPieces qs ws := by
  -- from the end to the front, since a word may depend on the next
  induction h generalizing qs with
  | nil =>
    cases hpq
    exact .nil
  | @cons p ps w ws hne hword hgap hps ih =>
    cases hpq with
    | @cons _ q _ qs hp hpq =>
      have hps' := ih hpq
      obtain ⟨hl, he⟩ := (word_eq_found_iff hne).1 hword
      have hcomment : w.kind = .comment →
          (q.gap ++ textOf qs).head? = (p.gap ++ textOf ps).head? := by
        intro hk
        have hq : q.gap = [] := hp.comment (hl.head?_of_comment hk)
        have hnil : p.gap = [] := by
          by_contra hne
          exact hp.kept hne hq
        rw [hq, hnil]
        exact head?_textOf hps hpq
      have he' := he.of_endsLike hl (endsLike_of_respaced hp hgap hps hps' hpq) hcomment
      refine .cons (by rwa [hp.lexeme]) ?_ hp.blanks hps'
      rw [hp.lexeme]
      exact word_of_spells hl he'

theorem Reads.respaced {a b : Layout} {ws : List Word} (h : a.Reads ws) (hab : a.Respaced b) :
    b.Reads ws :=
  ⟨hab.lead, h.pieces.respaced hab.pieces⟩

end Layout

/-! ### Programs -/

theorem fault_unplaced (f : ParseFault) : unplaced.fault f = f := by
  cases f <;> rfl

/-- Tokens of the same words form the same program, places aside, or show the same fault. -/
theorem parse_of_words_eq {ts us : List Token} (h : us.map (·.toWord) = ts.map (·.toWord)) :
    (∃ p q, parse ts = .ok p ∧ parse us = .ok q ∧ p.toNode.same q.toNode) ∨
      ∃ e f, parse ts = .error e ∧ parse us = .error f ∧ e.fault = f.fault := by
  have himages : ((parse ts).map unplaced.program).mapError unplaced.error =
      ((parse us).map unplaced.program).mapError unplaced.error := by
    rw [← parse_unplaced, ← parse_unplaced, h]
  refine (results_of_images_eq himages).imp ?_ ?_
  · rintro ⟨p, q, hp, hq, heq⟩
    exact ⟨p, q, hp, hq, program_same_iff.2 heq⟩
  · rintro ⟨e, f, he, hf, heq⟩
    have hfault : unplaced.fault e.fault = unplaced.fault f.fault := congrArg ParseError.fault heq
    rw [fault_unplaced, fault_unplaced] at hfault
    exact ⟨e, f, he, hf, hfault⟩

/-- A source and the same source with other blanks in its lines have tokens of the same kinds and
texts, and they have programs that are the same, places aside, or the same error of grammar, its
place aside. -/
theorem parseSource_of_respaced {a b : Layout} {ws : List Word} (ha : a.Reads ws)
    (hab : a.Respaced b) :
    (∃ ts us, tokenize a.source = .ok ts ∧ tokenize b.source = .ok us ∧
      ts.map (·.toWord) = ws ++ [⟨.eof, ""⟩] ∧ us.map (·.toWord) = ws ++ [⟨.eof, ""⟩]) ∧
    ((∃ p q, parseSource a.source = .ok p ∧ parseSource b.source = .ok q ∧
        p.toNode.same q.toNode) ∨
      ∃ e f, parseSource a.source = .error (.grammar e) ∧
        parseSource b.source = .error (.grammar f) ∧ e.fault = f.fault) := by
  obtain ⟨ts, hts, hws⟩ := ha.tokenize
  obtain ⟨us, hus, hws'⟩ := (ha.respaced hab).tokenize
  refine ⟨⟨ts, us, hts, hus, hws, hws'⟩, ?_⟩
  rw [parseSource_of_tokenize hts, parseSource_of_tokenize hus]
  obtain ⟨p, q, hp, hq, hsame⟩ | ⟨e, f, he, hf, hfault⟩ := parse_of_words_eq (hws'.trans hws.symm)
  · rw [hp, hq]
    exact .inl ⟨p, q, rfl, rfl, hsame⟩
  · rw [he, hf]
    exact .inr ⟨e, f, rfl, rfl, hfault⟩

/-- The text `mov ecx,dword ptr[8] ;load`, and blanks in all places that take them. -/
theorem parseSource_of_respaced_of_load :
    let a : Layout := ⟨[], [⟨"mov".toList, [' ']⟩, ⟨"ecx".toList, []⟩, ⟨[','], []⟩,
      ⟨"dword ptr".toList, []⟩, ⟨['['], []⟩, ⟨['8'], []⟩, ⟨[']'], [' ']⟩, ⟨";load".toList, []⟩]⟩
    let b : Layout := ⟨['\t'], [⟨"mov".toList, ['\t', ' ']⟩, ⟨"ecx".toList, [' ']⟩, ⟨[','], ['\r']⟩,
      ⟨"dword ptr".toList, [' ']⟩, ⟨['['], ['\t']⟩, ⟨['8'], [' ']⟩, ⟨[']'], ['\t']⟩,
      ⟨";load".toList, []⟩]⟩
    (∃ p q, parseSource a.source = .ok p ∧ parseSource b.source = .ok q ∧
        p.toNode.same q.toNode) ∨
      ∃ e f, parseSource a.source = .error (.grammar e) ∧
        parseSource b.source = .error (.grammar f) ∧ e.fault = f.fault := by
  intro a b
  have ha : a.Reads [⟨.ident, "mov"⟩, ⟨.register, "ecx"⟩, ⟨.mark .comma, ","⟩,
      ⟨.size .dword, "dword ptr"⟩, ⟨.mark .leftBracket, "["⟩, ⟨.number, "8"⟩,
      ⟨.mark .rightBracket, "]"⟩, ⟨.comment, ";load"⟩] := by
    refine ⟨by decide, ?_⟩
    iterate 8 refine .cons (by decide) (by decide +kernel) (by decide) ?_
    exact .nil
  have hab : a.Respaced b := by
    refine ⟨by decide, ?_⟩
    iterate 8 refine .cons ⟨rfl, by decide, by decide, by decide⟩ ?_
    exact .nil
  exact (parseSource_of_respaced ha hab).2

end IntelAsm
