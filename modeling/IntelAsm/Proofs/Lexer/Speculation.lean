import IntelAsm.Proofs.Lexer.Faults

/-!
# Speculative reading

Whether a word comes next can be found out by reading on: blanks are taken, then the characters of
the word as far as they fit, and where they do not fit, or the word goes on behind them, the cursor
is put back (`Lexer.speculate`). That is the same action as looking at the text ahead
(`speculate_eq_matchWord`), so it is done exactly if the word stands in the text, and otherwise it
leaves no trace (`matchWord_exact`).
-/

namespace IntelAsm

open Lexeme (IsGap Breaks gap isInlineSpace continuesWord)

/-! ### Moves of a cursor -/

namespace Stream

@[ext] theorem ext {s t : Stream} (hsource : s.source = t.source)
    (hposition : s.position = t.position) (hplace : s.place = t.place) : s = t := by
  obtain ⟨source, position, place, ahead, rfl⟩ := s
  obtain ⟨source', position', place', ahead', rfl⟩ := t
  cases hsource
  cases hposition
  cases hplace
  rfl

theorem skip_zero (s : Stream) : s.skip 0 = s := by
  ext1
  · rfl
  · simp [skip]
  · simp [skip]

/-- Two moves forward are one. -/
theorem skip_skip (s : Stream) (m n : Nat) : (s.skip m).skip n = s.skip (m + n) := by
  have htake : s.ahead.take (m + n) = s.ahead.take m ++ (s.ahead.drop m).take n := List.take_add
  ext1
  · rfl
  · simp only [skip, htake, List.length_append, Nat.add_assoc]
  · simp only [skip, htake, Pos.afterAll_append]

/-- A snapshot undoes every move that was made since it was taken. -/
theorem restore_skip (s : Stream) (n : Nat) : (s.skip n).restore s.snapshot = s := by
  ext1 <;> rfl

/-- The character at the cursor is the first one ahead. -/
theorem peek_zero (s : Stream) : s.peek = s.ahead.head? := by
  have hposition : ((s.position : Int) + 0).toNat = s.position := by simp
  rw [peek, if_neg (by omega), hposition, s.ahead_eq, List.head?_drop]

end Stream

/-! ### Reading on and coming back -/

namespace Lexer

/-- Takes the characters of a word, in any letter case, up to the first that does not fit. -/
def takeWord : List Char → Lexer Bool
  | [] => return true
  | w :: ws => do
    let s ← get
    if s.peek.any (fun c => Text.lowerChar c = [w]) then do
      let _ ← next
      takeWord ws
    else return false

/-- Reads the given word if it comes next, blanks aside. If it turns out that it does not, or only
as the front of a longer word, the cursor is put back where it stood. -/
def speculate (word : String) : Lexer Bool := do
  let start ← get
  skipGap
  let fits ← takeWord word.toList
  let s ← get
  if fits && !s.peek.any continuesWord then return true
  else do
    set (s.restore start.snapshot)
    return false

theorem takeWord_cons (w : Char) (ws : List Char) (s : Stream) :
    takeWord (w :: ws) s =
      if s.ahead.head?.any (fun c => Text.lowerChar c = [w]) then takeWord ws (s.skip 1)
      else .ok false s := by
  have hstep : takeWord (w :: ws) s =
      (if s.peek.any (fun c => Text.lowerChar c = [w]) then (do let _ ← next; takeWord ws) else
        return false : Lexer Bool) s := rfl
  rw [hstep, ← s.peek_zero]
  by_cases hfits : s.peek.any (fun c => Text.lowerChar c = [w]) = true
  · rw [if_pos hfits, if_pos hfits]
    obtain ⟨c, hc, -⟩ := (Option.any_eq_true _ _).1 hfits
    have hnext : next s = .ok c (s.skip 1) := by
      rw [next, Stream.next?, ← s.peek_zero, hc]
      rfl
    show EStateM.bind next (fun _ => takeWord ws) s = _
    rw [EStateM.bind, hnext]
  · rw [if_neg hfits, if_neg hfits]
    rfl

/-- The word is taken in full if it stands at the cursor, and otherwise a part of it. -/
theorem exists_takeWord (ws : List Char) (s : Stream) :
    ∃ n, takeWord ws s = .ok (Lexeme.afterWord ws s.ahead).isSome (s.skip n) ∧
      (∀ rest, Lexeme.afterWord ws s.ahead = some rest → n = ws.length) := by
  induction ws generalizing s with
  | nil => exact ⟨0, by rw [s.skip_zero]; rfl, by simp⟩
  | cons w ws ih =>
    rw [takeWord_cons]
    cases hs : s.ahead with
    | nil => exact ⟨0, by rw [s.skip_zero]; rfl, by simp [Lexeme.afterWord]⟩
    | cons c cs =>
      rw [Lexeme.afterWord]
      by_cases hc : Text.lowerChar c = [w]
      · obtain ⟨n, hn, hlength⟩ := ih (s.skip 1)
        rw [Stream.ahead_skip, hs, List.drop_one, List.tail_cons] at hn hlength
        simp only [List.head?_cons, Option.any_some, decide_eq_true hc, if_true, if_pos hc, hn,
          Stream.skip_skip]
        exact ⟨1 + n, rfl, fun rest h => by rw [hlength rest h, List.length_cons, Nat.add_comm]⟩
      · simp only [List.head?_cons, Option.any_some, decide_eq_true_eq, if_neg hc]
        exact ⟨0, by rw [s.skip_zero]; rfl, by simp⟩

/-- Reading on and coming back is the same as looking at the text ahead. -/
theorem speculate_eq_matchWord (word : String) : speculate word = matchWord word := by
  funext s
  let s' := s.skip (gap s.ahead).length
  have hahead : s'.ahead = s.ahead.dropWhile isInlineSpace := by
    show s.ahead.drop (gap s.ahead).length = _
    have hsplit : gap s.ahead ++ s.ahead.dropWhile isInlineSpace = s.ahead :=
      List.takeWhile_append_dropWhile
    rw [← congrArg (List.drop (gap s.ahead).length) hsplit, List.drop_left]
  obtain ⟨n, hn, hlength⟩ := exists_takeWord word.toList s'
  have hrun : speculate word s = EStateM.bind (takeWord word.toList) (fun fits => do
      let t ← get
      if fits && !t.peek.any continuesWord then return true
      else do
        set (t.restore s.snapshot)
        return false) s' := rfl
  rw [hrun, EStateM.bind, hn, matchWord, Lexeme.wordAhead, ← hahead]
  -- wherever the reading stopped, it is behind the cursor of the snapshot
  have hback : (s'.skip n).restore s.snapshot = s := by rw [s.skip_skip, s.restore_skip]
  cases hw : Lexeme.afterWord word.toList s'.ahead with
  | none => exact congrArg (EStateM.Result.ok false) hback
  | some rest =>
    obtain ⟨us, hus, hmap⟩ := Lexeme.afterWord_eq_some.1 hw
    have hword : us.length = word.toList.length := by simpa using congrArg List.length hmap
    have hpeek : (s'.skip n).peek = rest.head? := by
      rw [Stream.peek_zero, Stream.ahead_skip, hus, hlength rest hw, ← hword, List.drop_left]
    show (if (true && !(s'.skip n).peek.any continuesWord) = true then
      (return true : Lexer Bool) else (do set ((s'.skip n).restore s.snapshot); return false))
        (s'.skip n) = _
    rw [hpeek, hback]
    cases hb : rest.head?.any continuesWord with
    | true =>
      simp only [hb]
      rfl
    | false =>
      have hskip : s'.skip n = s.skip ((gap s.ahead).length + word.toList.length) := by
        rw [s.skip_skip, hlength rest hw]
      simp only [hb]
      exact congrArg (EStateM.Result.ok true) hskip

end Lexer

/-! ### What is found -/

/-- A text is the blanks `g`, all there are in front of it, then the word, spelled `u` in some
letter case, and a rest `r` with which the word does not go on. -/
structure Lexeme.StandsAhead (word cs g u r : List Char) : Prop where
  text : cs = g ++ (u ++ r)
  blanks : IsGap g
  no_blank_left : (u ++ r).head?.any isInlineSpace = false
  spelled : u.map Text.lowerChar = word.map (fun w => [w])
  ends : Breaks r

namespace Lexeme

variable {word cs g u r : List Char}

theorem StandsAhead.wordAhead_eq (h : StandsAhead word cs g u r) :
    wordAhead word cs = some (g ++ u).length := by
  rw [List.length_append]
  exact wordAhead_eq_some_iff.2
    ⟨g, u, r, h.text, h.blanks, h.no_blank_left, h.spelled, h.ends, rfl⟩

theorem exists_standsAhead {n : Nat} (h : wordAhead word cs = some n) :
    ∃ g u r, StandsAhead word cs g u r := by
  obtain ⟨g, u, r, htext, hg, hleft, hu, hr, -⟩ := wordAhead_eq_some_iff.1 h
  exact ⟨g, u, r, htext, hg, hleft, hu, hr⟩

end Lexeme

open Lexeme (StandsAhead)

/-- Whether a word comes next is found out without failure and without trace, by reading on as by
looking ahead. The word is found exactly if it stands in full behind all blanks at the cursor, in
any letter case; then the cursor moves right behind it, and otherwise nothing has changed. -/
theorem matchWord_exact (word : String) (s : Stream) :
    ∃ found s', Lexer.speculate word s = .ok found s' ∧ Lexer.matchWord word s = .ok found s' ∧
      (found = true ↔ ∃ g u r, StandsAhead word.toList s.ahead g u r) ∧
      (∀ g u r, StandsAhead word.toList s.ahead g u r →
        s'.source = s.source ∧ s'.position = s.position + (g ++ u).length ∧
          s'.place = s.place.afterAll (g ++ u)) ∧
      (found = false → s' = s) := by
  rw [Lexer.speculate_eq_matchWord, Lexer.matchWord]
  cases hw : Lexeme.wordAhead word.toList s.ahead with
  | none =>
    have hno : ∀ g u r, ¬StandsAhead word.toList s.ahead g u r := by
      intro g u r h
      rw [h.wordAhead_eq] at hw
      cases hw
    exact ⟨false, s, rfl, rfl, by simpa using hno, fun g u r h => absurd h (hno g u r),
      fun _ => rfl⟩
  | some n =>
    refine ⟨true, s.skip n, rfl, rfl, by simpa using Lexeme.exists_standsAhead hw, ?_, by simp⟩
    intro g u r h
    have hn : n = (g ++ u).length := by
      rw [h.wordAhead_eq] at hw
      exact (Option.some.inj hw).symm
    have hahead : s.ahead = (g ++ u) ++ r := by rw [h.text, List.append_assoc]
    rw [hn]
    exact ⟨rfl, Lexer.position_skip hahead, Lexer.place_skip hahead⟩

end IntelAsm
