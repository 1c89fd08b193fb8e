import IntelAsm.Proofs.Address.Written
import IntelAsm.Proofs.Grammar.Completeness
import IntelAsm.Proofs.Grammar.Soundness

/-!
# Addresses are read exactly

The reader of an address takes the tokens that spell one and no others, and its value is the address
that they spell. Where no address is ahead it blames the first token with which those in front of it
begin none (`memoryOperand_reads_written`).
-/

namespace IntelAsm

open Parse

/-- The tokens begin those of an address behind the segment `outside`. -/
def WrittenAddress.Begins (outside : Option String) (us : List Token) : Prop :=
  ∃ (x : WrittenAddress) (vs : List Token), x.Spells outside (us ++ vs)

section
variable {outside : Option String} {c d : Cursor}

/-- An address is read just where one is spelled. -/
theorem address_eq_ok_iff {a : Address} :
    address outside c = .ok a d ↔
      ∃ ts, a.Spells outside ts ∧ c.ahead = ts ++ d.ahead ∧ d.past = ts.reverse ++ c.past := by
  have hpassed {a : Address} {d : Cursor} (h : address outside c = .ok a d) :
      ∃ ts, a.Spells outside ts ∧ c.ahead = ts ++ d.ahead ∧ d.past = ts.reverse ++ c.past := by
    obtain ⟨ts, hm, ha, -⟩ := (Address.decides_address outside c).of_ok h
    exact ⟨ts, ha, hm.ahead, hm.past⟩
  refine ⟨hpassed, ?_⟩
  rintro ⟨ts, ha, hahead, hpast⟩
  obtain ⟨past, hok⟩ := ha.takes d.ahead c.past
  rw [← hahead] at hok
  -- what is ahead of both cursors tells how many tokens were passed
  obtain ⟨us, -, hahead', hpast'⟩ := hpassed hok
  obtain rfl : ts = us := List.append_cancel_right (hahead.symm.trans hahead')
  obtain rfl : past = d.past := hpast'.trans hpast.symm
  exact hok

/-- Tokens that can be completed to an address begin one as it is written. -/
theorem begins_of_viable {us : List Token} (h : Viable (Address.Spells outside) us) :
    WrittenAddress.Begins outside us := by
  obtain ⟨a, vs, ha⟩ := h
  obtain ⟨x, hx, -⟩ := Address.spells_iff.1 ha
  exact ⟨x, vs, hx⟩

/-- Tokens with which the reader stops begin none. -/
theorem not_begins_of_refuses {us : List Token} {t : Token}
    (h : Refuses (address outside) us t) : ¬WrittenAddress.Begins outside (us ++ [t]) := by
  rintro ⟨x, vs, hx⟩
  have ha : x.address.Spells outside (us ++ t :: vs) := by
    rw [List.append_cons]
    exact Address.spells_iff.2 ⟨x, hx, rfl⟩
  have htakes := ha.takes []
  rw [List.append_nil] at htakes
  exact h.not_takes vs htakes

/-- The reader blames the first token with which no address begins. -/
theorem address_eq_error {e : ParseError} (h : address outside c = .error e d) :
    ∃ n ≤ c.ahead.length, e.Blames (c.peek n) ∧ WrittenAddress.Begins outside (c.ahead.take n) ∧
      ¬WrittenAddress.Begins outside (c.ahead.take n ++ [c.peek n]) := by
  obtain ⟨us, d, hm, hblames, hviable, hrefuses⟩ :=
    (Address.decides_address outside c).of_error h
  rw [hm.current_eq_peek] at hblames hrefuses
  have htake : c.ahead.take us.length = us := by rw [hm.ahead, List.take_left]
  refine ⟨us.length, by simp [hm.ahead], hblames, ?_⟩
  rw [htake]
  exact ⟨begins_of_viable hviable, not_begins_of_refuses hrefuses⟩

variable {pos : Pos} {size : Option Int}

theorem memoryOperand_eq_ok_iff {o : Operand} :
    memoryOperand pos size outside c = .ok o d ↔
      ∃ a, address outside c = .ok a d ∧ o = ⟨.memory a, size, pos⟩ := by
  show EStateM.bind _ _ c = _ ↔ _
  unfold EStateM.bind
  cases address outside c with
  | ok a d' =>
    constructor
    · intro h
      cases h
      exact ⟨a, rfl, rfl⟩
    · rintro ⟨_, h, rfl⟩
      cases h
      rfl
  | error e d' => simp

theorem memoryOperand_eq_error {e : ParseError}
    (h : memoryOperand pos size outside c = .error e d) :
    address outside c = .error e d := by
  change EStateM.bind _ _ c = _ at h
  unfold EStateM.bind at h
  cases ha : address outside c with
  | ok a d' =>
    rw [ha] at h
    cases h
  | error e' d' =>
    rw [ha] at h
    cases h
    rfl

/-- A memory operand is read just where an address is written, and holds what the address comes to.
-/
theorem memoryOperand_eq_ok_iff_written {o : Operand} :
    memoryOperand pos size outside c = .ok o d ↔
      ∃ (x : WrittenAddress) (ts : List Token), x.Spells outside ts ∧ c.ahead = ts ++ d.ahead ∧
        d.past = ts.reverse ++ c.past ∧ o = ⟨.memory x.address, size, pos⟩ := by
  rw [memoryOperand_eq_ok_iff]
  constructor
  · rintro ⟨a, ha, rfl⟩
    obtain ⟨ts, hspells, hahead, hpast⟩ := address_eq_ok_iff.1 ha
    obtain ⟨x, hx, rfl⟩ := Address.spells_iff.1 hspells
    exact ⟨x, ts, hx, hahead, hpast, rfl⟩
  · rintro ⟨x, ts, hx, hahead, hpast, rfl⟩
    have hspells : x.address.Spells outside ts := Address.spells_iff.2 ⟨x, hx, rfl⟩
    exact ⟨x.address, address_eq_ok_iff.2 ⟨ts, hspells, hahead, hpast⟩, rfl⟩

/-- Where reading a memory operand fails no address is written. -/
theorem not_written_of_error {e : ParseError}
    (h : memoryOperand pos size outside c = .error e d) :
    ¬∃ (x : WrittenAddress) (ts rest : List Token), x.Spells outside ts ∧ c.ahead = ts ++ rest := by
  rintro ⟨x, ts, rest, hx, hahead⟩
  have hok : memoryOperand pos size outside c = .ok _ ⟨ts.reverse ++ c.past, rest⟩ :=
    memoryOperand_eq_ok_iff_written.2 ⟨x, ts, hx, hahead, rfl, rfl⟩
  rw [h] at hok
  cases hok

end

/-- A memory operand is read if and only if one that is written is ahead; then its tokens are passed
and it is the result. Otherwise the error stands at the first token with which those in front of it
begin none, and it is one of grammar where that token, if it is to be a numeral, is one. -/
theorem memoryOperand_reads_written (pos : Pos) (size : Option Int) (outside : Option String)
    (c : Cursor) :
    (∀ o d, memoryOperand pos size outside c = .ok o d ↔
      ∃ (x : WrittenAddress) (ts : List Token), x.Spells outside ts ∧ c.ahead = ts ++ d.ahead ∧
        d.past = ts.reverse ++ c.past ∧ o = ⟨.memory x.address, size, pos⟩) ∧
    ((¬∃ (x : WrittenAddress) (ts rest : List Token), x.Spells outside ts ∧ c.ahead = ts ++ rest) →
      ∃ e d, memoryOperand pos size outside c = .error e d ∧
        ∃ n ≤ c.ahead.length, e.pos = (c.peek n).pos ∧
          WrittenAddress.Begins outside (c.ahead.take n) ∧
          ¬WrittenAddress.Begins outside (c.ahead.take n ++ [c.peek n]) ∧
          (e.IsSyntax ∨ ¬(c.peek n).toWord.IsNumeral)) := by
  refine ⟨fun o d => memoryOperand_eq_ok_iff_written, fun hnone => ?_⟩
  cases h : memoryOperand pos size outside c with
  | ok o d =>
    obtain ⟨x, ts, hx, hahead, -⟩ := memoryOperand_eq_ok_iff_written.1 h
    exact absurd ⟨x, ts, d.ahead, hx, hahead⟩ hnone
  | error e d =>
    obtain ⟨n, hn, hblames, hbegins, hnot⟩ := address_eq_error (memoryOperand_eq_error h)
    exact ⟨e, d, rfl, n, hn, hblames.pos, hbegins, hnot, hblames.isSyntax⟩

/-- The terms of an operand may come in any order, but a second register with a sign is refused. -/
theorem memoryOperand_reads_written_of_indices :
    (∃ ts d, tokenize "[-8+rcx*4]" = .ok (ts ++ d.ahead) ∧
      memoryOperand {} none none ⟨[], ts ++ d.ahead⟩ =
        .ok ⟨.memory { index := some "rcx", scale := 4, displacement := some (-8) }, none, {}⟩ d) ∧
    ∃ ts e d, tokenize "[rax+rcx+rdx]" = .ok ts ∧
      memoryOperand {} none none ⟨[], ts⟩ = .error e d ∧
      ∃ n ≤ ts.length, e.pos = (Cursor.peek ⟨[], ts⟩ n).pos ∧
        WrittenAddress.Begins none (ts.take n) ∧
        ¬WrittenAddress.Begins none (ts.take n ++ [Cursor.peek ⟨[], ts⟩ n]) := by
  constructor
  · let eight : Literal := ⟨⟨.number, "8"⟩, 8, rfl, by decide, by decide⟩
    let four : Literal := ⟨⟨.number, "4"⟩, 4, rfl, by decide, by decide⟩
    let x : WrittenAddress :=
      { signed := [⟨.minus, .number eight⟩, ⟨.plus, .register "rcx" (some four)⟩]
        nonempty := nofun
        length_indices := Nat.le_refl 1 }
    let index : Token := ⟨⟨.register, "rcx"⟩, ⟨1, 5⟩⟩
    have hx := WrittenAddress.Spells.mk (x := x) (l := ⟨⟨.mark .leftBracket, "["⟩, ⟨1, 1⟩⟩)
      (r := ⟨⟨.mark .rightBracket, "]"⟩, ⟨1, 10⟩⟩) rfl .none .none
      (.cons (s := ⟨⟨.mark .minus, "-"⟩, ⟨1, 2⟩⟩) rfl (.number (t := ⟨eight.word, ⟨1, 3⟩⟩) rfl)
        (.cons (s := ⟨⟨.mark .plus, "+"⟩, ⟨1, 4⟩⟩) rfl
          (.scaled (t := index) (m := ⟨⟨.mark .star, "*"⟩, ⟨1, 8⟩⟩) (u := ⟨four.word, ⟨1, 9⟩⟩)
            rfl rfl rfl) .nil)) rfl
    obtain ⟨hok, -⟩ := memoryOperand_reads_written {} none none ⟨[], _⟩
    refine ⟨_, ⟨_, [⟨⟨.eof, ""⟩, ⟨1, 11⟩⟩]⟩, ?_,
      (hok _ _).2 ⟨x, _, hx, rfl, (List.append_nil _).symm, rfl⟩⟩
    decide +kernel
  · let ts : List Token := [⟨⟨.mark .leftBracket, "["⟩, ⟨1, 1⟩⟩, ⟨⟨.register, "rax"⟩, ⟨1, 2⟩⟩,
      ⟨⟨.mark .plus, "+"⟩, ⟨1, 5⟩⟩, ⟨⟨.register, "rcx"⟩, ⟨1, 6⟩⟩, ⟨⟨.mark .plus, "+"⟩, ⟨1, 9⟩⟩,
      ⟨⟨.register, "rdx"⟩, ⟨1, 10⟩⟩, ⟨⟨.mark .rightBracket, "]"⟩, ⟨1, 13⟩⟩, ⟨⟨.eof, ""⟩, ⟨1, 14⟩⟩]
    have hts : tokenize "[rax+rcx+rdx]" = .ok ts := by decide +kernel
    have hfails : EStateM.run' (memoryOperand {} none none) ⟨[], ts⟩ = none := by decide +kernel
    obtain ⟨hok, herror⟩ := memoryOperand_reads_written {} none none ⟨[], ts⟩
    have hnone : ¬∃ (x : WrittenAddress) (us rest : List Token),
        x.Spells none us ∧ ts = us ++ rest := by
      rintro ⟨x, us, rest, hx, hus⟩
      have hread := (hok _ ⟨us.reverse ++ [], rest⟩).2 ⟨x, us, hx, hus, rfl, rfl⟩
      delta EStateM.run' EStateM.run at hfails
      rw [hread] at hfails
      cases hfails
    obtain ⟨e, d, he, n, hn, hpos, hbegins, hnot, -⟩ := herror hnone
    exact ⟨ts, e, d, hts, he, n, hn, hpos, hbegins, hnot⟩

/-- A numeric token without digits is refused where it is converted, and that is no error of
grammar. The lexer makes no such token. -/
theorem memoryOperand_fails_on_letters :
    ∃ ts : List Token, ts = [⟨⟨.mark .leftBracket, "["⟩, ⟨1, 1⟩⟩, ⟨⟨.number, "x"⟩, ⟨1, 2⟩⟩,
        ⟨⟨.mark .rightBracket, "]"⟩, ⟨1, 3⟩⟩] ∧
      (¬∃ (x : WrittenAddress) (us rest : List Token), x.Spells none us ∧ ts = us ++ rest) ∧
      ∃ e d, memoryOperand {} none none ⟨[], ts⟩ = .error e d ∧ ¬e.IsSyntax := by
  have herror : memoryOperand {} none none ⟨[], [⟨⟨.mark .leftBracket, "["⟩, ⟨1, 1⟩⟩,
      ⟨⟨.number, "x"⟩, ⟨1, 2⟩⟩, ⟨⟨.mark .rightBracket, "]"⟩, ⟨1, 3⟩⟩]⟩ =
        .error ⟨.notNumeral 10 "x", ⟨1, 2⟩⟩ _ := rfl
  exact ⟨_, rfl, not_written_of_error herror, _, _, herror, fun hsyntax => hsyntax 10 "x" rfl⟩

end IntelAsm
