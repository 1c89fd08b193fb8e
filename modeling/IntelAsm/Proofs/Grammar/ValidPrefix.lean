import IntelAsm.Proofs.Grammar.Completeness
import IntelAsm.Proofs.Grammar.Soundness

/-!
# Errors are blamed in time

The tokens in front of the one that a syntax error blames are not at fault: with other tokens behind
them they form a program (`parse_fails_behind_valid_prefix`). So the error is found at the first
token that cannot be right.

The token to blame is known by its place, since no two tokens of a source stand at the same one.
-/

namespace IntelAsm

open Parse

theorem Pos.lt_irrefl (p : Pos) : ¬p < p := by
  rw [Pos.lt_iff]
  omega

/-- Tokens at increasing places are told apart by them. -/
theorem exists_getElem?_pos_iff {us vs : List Token} {t : Token}
    (h : (us ++ t :: vs).Pairwise (·.pos < ·.pos)) (j : Nat) :
    (∃ u, (us ++ t :: vs)[j]? = some u ∧ u.pos = t.pos) ↔ j = us.length := by
  constructor
  · rintro ⟨u, hu, hpos⟩
    obtain ⟨hj, rfl⟩ := List.getElem?_eq_some_iff.1 hu
    have hlength : us.length < (us ++ t :: vs).length := by simp
    have ht : (us ++ t :: vs)[us.length] = t := by simp
    have hlt := List.pairwise_iff_getElem.1 h
    rcases Nat.lt_trichotomy j us.length with hlt' | heq | hlt'
    · have := hlt j us.length hj hlength hlt'
      rw [ht, hpos] at this
      exact absurd this (Pos.lt_irrefl _)
    · exact heq
    · have := hlt us.length j hlength hj hlt'
      rw [ht, hpos] at this
      exact absurd this (Pos.lt_irrefl _)
  · rintro rfl
    exact ⟨t, by simp, rfl⟩

/-- Where a source has tokens but no program, the error stands at one of the tokens and at no other,
and those in front of it begin a program. -/
theorem parse_fails_behind_valid_prefix (source : String) (ts : List Token) (e : ParseError)
    (hts : tokenize source = .ok ts) (he : parseSource source = .error (.grammar e)) :
    ∃ k, (∀ j, (∃ t, ts[j]? = some t ∧ t.pos = e.pos) ↔ j = k) ∧
      ∃ c p, parse (ts.take k ++ c) = .ok p := by
  have hparse : parse ts = .error e := by
    rw [parseSource_of_tokenize hts] at he
    cases hp : parse ts with
    | ok p =>
      rw [hp] at he
      cases he
    | error f =>
      rw [hp] at he
      cases he
      rfl
  have hscan := tokenize_eq_ok.1 hts
  have hpartition : Partition [] source.toList ts := partition_of_scan hscan
  -- the tokens that were passed begin lines
  obtain ⟨us, d, hm, hpos, xs, vs, hlines⟩ : ∃ us d, (Cursor.ofTokens ts).Moves us d ∧
      e.pos = d.current.pos ∧ Viable Lines us := by
    have hfollows := follows_items (c := .ofTokens ts) hpartition.commentsEnd
    rw [parse_eq_items] at hparse
    cases hitems : items (.ofTokens ts) with
    | ok xs c =>
      rw [hitems] at hparse
      cases hparse
    | error f c =>
      rw [hitems] at hparse
      cases hparse
      exact hfollows.of_error hitems
  obtain ⟨ws, hsplit⟩ := exists_current_of_moves (ended_of_scan hscan) rfl hm
  refine ⟨us.length, fun j => ?_, vs ++ [⟨⟨.eof, ""⟩, {}⟩], .ofItems xs, ?_⟩
  · have hpairwise := hpartition.pairwise
    rw [hsplit] at hpairwise ⊢
    rw [hpos]
    exact exists_getElem?_pos_iff hpairwise j
  · rw [hsplit, List.take_left, ← List.append_assoc]
    exact hlines.parse_eq rfl

/-- Behind an operand a comma or the end of the line is due, so the second register is at fault. -/
theorem parse_fails_behind_valid_prefix_of_operand :
    ∃ ts k, tokenize "mov eax ebx" = .ok ts ∧
      (∀ j, (∃ t, ts[j]? = some t ∧ t.pos = ⟨1, 9⟩) ↔ j = k) ∧
      ∃ c p, parse (ts.take k ++ c) = .ok p := by
  have hts : tokenize "mov eax ebx" = .ok
      [⟨⟨.ident, "mov"⟩, ⟨1, 1⟩⟩, ⟨⟨.register, "eax"⟩, ⟨1, 5⟩⟩, ⟨⟨.register, "ebx"⟩, ⟨1, 9⟩⟩,
        ⟨⟨.eof, ""⟩, ⟨1, 12⟩⟩] := by
    decide +kernel
  have he : parseSource "mov eax ebx" =
      .error (.grammar ⟨.expected .lineEnd ⟨.register, "ebx"⟩, ⟨1, 9⟩⟩) := by
    decide +kernel
  obtain ⟨k, hk⟩ := parse_fails_behind_valid_prefix "mov eax ebx" _ _ hts he
  exact ⟨_, k, hts, hk⟩

end IntelAsm
