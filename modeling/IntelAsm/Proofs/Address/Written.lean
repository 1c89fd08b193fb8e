import IntelAsm.Proofs.Grammar.Rules
import IntelAsm.Proofs.Numeral.Signed

/-!
# Addresses as they are written

What stands between the brackets of an address: a segment, a first term and any number of terms with
signs (`WrittenAddress`). Which tokens spell it is one thing (`WrittenAddress.Spells`), and which
address it makes is another (`WrittenAddress.address`), read off from its terms without the order in
which they were found. Together they say what the rules of the grammar do (`Address.spells_iff`),
which build the address term by term.
-/

namespace IntelAsm

open Descent (IsSum)

/-! ### Terms -/

/-- A numeric literal in range. -/
structure Literal where
  word : Word
  /-- The number that it spells, however large. -/
  number : Int
  isNumeric : word.kind.isNumeric
  number_eq : word.number? = some number
  value_eq : word.value = .ok (Numeral.signedWord number)

namespace Literal

/-- What it stands for: the signed word of its low 64 bits. -/
def value (n : Literal) : Int := Numeral.signedWord n.number

/-- A numeric token with a value is the word of a literal. -/
theorem exists_of_value {t : Token} {v : Int} (ht : t.kind.isNumeric) (hv : t.value = .ok v) :
    ∃ n : Literal, t.toWord = n.word ∧ n.value = v := by
  obtain ⟨i, hi, -, rfl⟩ := Word.exists_number_of_value hv
  exact ⟨⟨t.toWord, i, ht, hi, hv⟩, rfl, rfl⟩

/-- And the value is that of the literal. -/
theorem value_of_word {n : Literal} {t : Token} (h : t.toWord = n.word) :
    t.value = .ok n.value := by
  show Word.value t.toWord = _
  rw [h]
  exact n.value_eq

theorem isNumeric_of_word {n : Literal} {t : Token} (h : t.toWord = n.word) : t.kind.isNumeric := by
  show t.toWord.kind.isNumeric
  rw [h]
  exact n.isNumeric

theorem signedWord_value (n : Literal) : Numeral.signedWord n.value = n.value :=
  Word.signedWord_of_value n.value_eq

end Literal

inductive Sign where
  | plus
  | minus
deriving DecidableEq, Repr

namespace Sign

def mark : Sign → Mark
  | .plus => .plus
  | .minus => .minus

/-- A number with the sign in front of it. -/
def apply : Sign → Int → Int
  | .plus, v => v
  | .minus, v => -v

end Sign

theorem exists_sign_of_isSum {k : TokenKind} (h : IsSum k) : ∃ s : Sign, k = .mark s.mark := by
  rcases h with rfl | rfl
  · exact ⟨.plus, rfl⟩
  · exact ⟨.minus, rfl⟩

theorem isSum_mark (s : Sign) : IsSum (.mark s.mark) := by
  cases s
  · exact .inl rfl
  · exact .inr rfl

/-- Only a minus sign can take a value out of the range of signed words. -/
theorem Literal.signedWord_apply (n : Literal) (s : Sign) :
    Numeral.signedWord (s.apply n.value) =
      if TokenKind.mark s.mark = .mark .plus then n.value else Numeral.signedWord (-n.value) := by
  cases s
  · exact n.signedWord_value
  · rfl

/-- The term that has no sign, if there is one. -/
inductive FirstTerm where
  | none
  | register (name : String)
  | number (n : Literal)

namespace FirstTerm

def register? : FirstTerm → Option String
  | .register name => some name
  | _ => .none

def displacement? : FirstTerm → Option Int
  | .number n => some n.value
  | _ => .none

inductive Spells : FirstTerm → List Token → Prop where
  | none : Spells .none []
  | register {t : Token} (ht : t.kind = .register) : Spells (.register t.text) [t]
  | number {t : Token} {n : Literal} (ht : t.toWord = n.word) : Spells (.number n) [t]

end FirstTerm

/-- A term behind its sign: a register, which may have a factor, or a number. -/
inductive Term where
  | register (name : String) (factor : Option Literal)
  | number (n : Literal)

inductive Term.Spells : Term → List Token → Prop where
  | register {t : Token} (ht : t.kind = .register) : Spells (.register t.text none) [t]
  | scaled {t m u : Token} {n : Literal} (ht : t.kind = .register) (hm : m.kind = .mark .star)
      (hu : u.toWord = n.word) : Spells (.register t.text (some n)) [t, m, u]
  | number {t : Token} {n : Literal} (ht : t.toWord = n.word) : Spells (.number n) [t]

structure SignedTerm where
  sign : Sign
  term : Term

namespace SignedTerm

/-- The register of a term and its factor. -/
def index? (x : SignedTerm) : Option (String × Int) :=
  match x.term with
  | .register name factor => some (name, factor.elim 1 Literal.value)
  | .number _ => none

/-- The number of a term with its sign. -/
def displacement? (x : SignedTerm) : Option Int :=
  match x.term with
  | .register .. => none
  | .number n => some (x.sign.apply n.value)

inductive SpellsAll : List SignedTerm → List Token → Prop where
  | nil : SpellsAll [] []
  | cons {s : Token} {x : SignedTerm} {xs : List SignedTerm} {us vs : List Token}
      (hs : s.kind = .mark x.sign.mark) (hx : x.term.Spells us) (hxs : SpellsAll xs vs) :
      SpellsAll (x :: xs) (s :: us ++ vs)

end SignedTerm

/-! ### Addresses -/

/-- An address as it is written, with the segment inside or in front of its brackets. -/
structure WrittenAddress where
  segment : Option String := none
  first : FirstTerm := .none
  signed : List SignedTerm
  nonempty : first = .none → signed ≠ []
  /-- Only one register has a sign. -/
  length_indices : (signed.filterMap SignedTerm.index?).length ≤ 1

namespace WrittenAddress

/-- The tokens of an address from bracket to bracket behind the segment `outside`. -/
inductive Spells (outside : Option String) (x : WrittenAddress) : List Token → Prop where
  | mk {l r : Token} {ss us vs : List Token} (hl : l.kind = .mark .leftBracket)
      (hs : SpellsSegment outside x.segment ss) (hu : x.first.Spells us)
      (hv : SignedTerm.SpellsAll x.signed vs) (hr : r.kind = .mark .rightBracket) :
      Spells outside x (l :: (ss ++ (us ++ (vs ++ [r]))))

/-- The register with a sign and its factor, as a list. -/
def indices (x : WrittenAddress) : List (String × Int) :=
  x.signed.filterMap SignedTerm.index?

/-- The numbers that are terms, with their signs. -/
def displacements (x : WrittenAddress) : List Int :=
  x.first.displacement?.toList ++ x.signed.filterMap SignedTerm.displacement?

/-- The address that is written: of several numbers it keeps the last. -/
def address (x : WrittenAddress) : Address where
  base := x.first.register?
  index := x.indices.head?.map Prod.fst
  scale := (x.indices.head?.map Prod.snd).getD 1
  displacement := x.displacements.getLast?.map Numeral.signedWord
  segment := x.segment

end WrittenAddress

/-! ### Term by term -/

namespace Address

/-- What an address becomes by further terms: the last register with a sign is the index, and the
last number is the displacement. -/
def extend (a : Address) (xs : List SignedTerm) : Address :=
  { a with
    index := ((xs.filterMap SignedTerm.index?).getLast?.map Prod.fst).or a.index
    scale := ((xs.filterMap SignedTerm.index?).getLast?.map Prod.snd).getD a.scale
    displacement :=
      ((xs.filterMap SignedTerm.displacement?).getLast?.map Numeral.signedWord).or a.displacement }

/-- Terms extend an address one after the other. -/
theorem extend_cons (a : Address) (x : SignedTerm) (xs : List SignedTerm) :
    a.extend (x :: xs) = (a.extend [x]).extend xs := by
  have hlast {α : Type} (f : SignedTerm → Option α) (ys : List SignedTerm) :
      ((x :: ys).filterMap f).getLast? = (ys.filterMap f).getLast?.or (f x) := by
    cases hx : f x <;> simp [hx, List.getLast?_cons, Option.or_some]
  unfold extend
  simp only [hlast]
  cases (xs.filterMap SignedTerm.index?).getLast? <;>
    cases (xs.filterMap SignedTerm.displacement?).getLast? <;> rfl

/-- No more than one register is an index, the one that the address has counted. -/
def Accepts (a : Address) (xs : List SignedTerm) : Prop :=
  a.index.toList.length + (xs.filterMap SignedTerm.index?).length ≤ 1

theorem accepts_nil (a : Address) : a.Accepts [] := by
  unfold Accepts
  cases a.index <;> simp

/-- An address takes a term with an index only as long as it has none. -/
theorem accepts_cons {a : Address} {x : SignedTerm} {xs : List SignedTerm} :
    a.Accepts (x :: xs) ↔ (x.index? ≠ none → a.index = none) ∧ (a.extend [x]).Accepts xs := by
  have hcount : ((x :: xs).filterMap SignedTerm.index?).length =
      x.index?.toList.length + (xs.filterMap SignedTerm.index?).length := by
    cases hx : x.index? <;> simp [hx, Nat.add_comm]
  have hindex : (a.extend [x]).index = (x.index?.map Prod.fst).or a.index := by
    unfold extend
    cases hx : x.index? <;> simp [hx]
  unfold Accepts
  rw [hcount, hindex]
  cases x.index? with
  | none => simp
  | some i =>
    cases a.index with
    | none => simp
    | some name =>
      constructor
      · intro h
        simp only [Option.toList_some, List.length_singleton] at h
        omega
      · exact fun h => nomatch h.1 nofun

/-- Only an index is scaled. -/
def Unscaled (a : Address) : Prop := a.index = none → a.scale = 1

theorem Unscaled.extend {a : Address} (h : a.Unscaled) (x : SignedTerm) :
    (a.extend [x]).Unscaled := by
  intro hindex
  unfold Address.extend at *
  cases hx : x.index? with
  | none =>
    simp only [List.filterMap_cons, hx, List.filterMap_nil] at hindex ⊢
    exact h hindex
  | some i => simp [hx] at hindex

/-- The rules for a term with a sign: a register may be one if there is no index yet. -/
theorem spellsTerm_iff {a b : Address} (ha : a.Unscaled) {us : List Token} :
    a.SpellsTerm b us ↔ ∃ s x vs, us = s :: vs ∧ s.kind = .mark (SignedTerm.sign x).mark ∧
      x.term.Spells vs ∧ b = a.extend [x] ∧ (x.index? ≠ none → a.index = none) := by
  constructor
  · intro h
    cases h with
    | @index s r hs hi hr =>
      obtain ⟨sign, hsign⟩ := exists_sign_of_isSum hs
      refine ⟨s, ⟨sign, .register r.text none⟩, [r], rfl, hsign, .register hr, ?_, fun _ => hi⟩
      rw [show a.extend _ = { a with index := some r.text, scale := 1 } from rfl, ← ha hi]
    | @scaled s r m t v hs hi hr hm ht hv =>
      obtain ⟨sign, hsign⟩ := exists_sign_of_isSum hs
      obtain ⟨n, hn, rfl⟩ := Literal.exists_of_value ht hv
      exact ⟨s, ⟨sign, .register r.text (some n)⟩, [r, m, t], rfl, hsign, .scaled hr hm hn, rfl,
        fun _ => hi⟩
    | @displacement s t v hs ht hv =>
      obtain ⟨sign, hsign⟩ := exists_sign_of_isSum hs
      obtain ⟨n, hn, rfl⟩ := Literal.exists_of_value ht hv
      refine ⟨s, ⟨sign, .number n⟩, [t], rfl, hsign, .number hn, ?_, nofun⟩
      rw [hsign, ← n.signedWord_apply]
      rfl
  · rintro ⟨s, ⟨sign, term⟩, vs, rfl, hsign, hx, rfl, hi⟩
    have hs : IsSum s.kind := hsign ▸ isSum_mark sign
    cases hx with
    | @register t ht =>
      have hi : a.index = none := hi nofun
      have h := SpellsTerm.index hs hi ht
      rw [ha hi] at h
      exact h
    | scaled ht hm hu =>
      exact .scaled hs (hi nofun) ht hm (Literal.isNumeric_of_word hu) (Literal.value_of_word hu)
    | @number t n ht =>
      have h := SpellsTerm.displacement (a := a) hs (Literal.isNumeric_of_word ht)
        (Literal.value_of_word ht)
      rw [hsign, ← n.signedWord_apply] at h
      exact h

/-- The terms behind the first are spelled one after the other, and each finds room in the address.
-/
theorem spellsTerms_iff {a b : Address} (ha : a.Unscaled) {us : List Token} :
    a.SpellsTerms b us ↔ ∃ xs, SignedTerm.SpellsAll xs us ∧ b = a.extend xs ∧ a.Accepts xs := by
  constructor
  · intro h
    induction h with
    | nil => exact ⟨[], .nil, rfl, accepts_nil _⟩
    | cons ht hts ih =>
      obtain ⟨s, x, us, rfl, hs, hx, rfl, hi⟩ := (spellsTerm_iff ha).1 ht
      obtain ⟨xs, hxs, rfl, hi'⟩ := ih (ha.extend x)
      exact ⟨x :: xs, .cons hs hx hxs, (extend_cons ..).symm, accepts_cons.2 ⟨hi, hi'⟩⟩
  · rintro ⟨xs, hxs, rfl, hi⟩
    induction hxs generalizing a with
    | nil => exact .nil
    | @cons s x xs us vs hs hx hxs ih =>
      obtain ⟨hi, hi'⟩ := accepts_cons.1 hi
      rw [extend_cons]
      exact .cons ((spellsTerm_iff ha).2 ⟨s, x, us, rfl, hs, hx, rfl, hi⟩) (ih (ha.extend x) hi')

/-- What an address is before the terms with signs. -/
def ofFirst (segment : Option String) (x : FirstTerm) : Address where
  base := x.register?
  displacement := x.displacement?
  segment := segment

/-- The first term makes the address to begin with. -/
theorem spellsFirst_iff {segment : Option String} {a : Address} {us : List Token} :
    SpellsFirst { segment } a us ↔ ∃ x, FirstTerm.Spells x us ∧ a = ofFirst segment x := by
  constructor
  · intro h
    cases h with
    | none => exact ⟨.none, .none, rfl⟩
    | base hr => exact ⟨_, .register hr, rfl⟩
    | displacement ht hv =>
      obtain ⟨n, hn, rfl⟩ := Literal.exists_of_value ht hv
      exact ⟨.number n, .number hn, rfl⟩
  · rintro ⟨x, hx, rfl⟩
    cases hx with
    | none => exact .none
    | register ht => exact .base ht
    | number ht => exact .displacement (Literal.isNumeric_of_word ht) (Literal.value_of_word ht)

end Address

/-- Only a first term that is missing has no tokens. -/
theorem FirstTerm.Spells.eq_nil_iff {x : FirstTerm} {us : List Token} (h : x.Spells us) :
    us = [] ↔ x = .none := by
  cases h <;> simp

theorem SignedTerm.SpellsAll.eq_nil_iff {xs : List SignedTerm} {us : List Token}
    (h : SpellsAll xs us) : us = [] ↔ xs = [] := by
  cases h <;> simp

/-- The address that is written is built from its terms one after the other. -/
theorem WrittenAddress.address_eq (x : WrittenAddress) :
    x.address = (Address.ofFirst x.segment x.first).extend x.signed := by
  have hindex : x.indices.head? = (x.signed.filterMap SignedTerm.index?).getLast? := by
    have hlength := x.length_indices
    unfold indices
    match x.signed.filterMap SignedTerm.index?, hlength with
    | [], _ => rfl
    | [i], _ => rfl
  have hdisplacement : x.displacements.getLast?.map Numeral.signedWord =
      ((x.signed.filterMap SignedTerm.displacement?).getLast?.map Numeral.signedWord).or
        x.first.displacement? := by
    have hfirst : x.first.displacement?.map Numeral.signedWord = x.first.displacement? := by
      cases x.first with
      | none => rfl
      | register name => rfl
      | number n => exact congrArg some n.signedWord_value
    have htoList : x.first.displacement?.toList.getLast? = x.first.displacement? := by
      cases x.first.displacement? <;> rfl
    rw [displacements, List.getLast?_append, htoList, Option.map_or, hfirst]
  unfold address
  rw [hindex, hdisplacement]
  unfold Address.extend Address.ofFirst
  simp

/-- The rules of the grammar are those of written addresses. -/
theorem Address.spells_iff {outside : Option String} {a : Address} {ts : List Token} :
    a.Spells outside ts ↔ ∃ x : WrittenAddress, x.Spells outside ts ∧ x.address = a := by
  constructor
  · rintro ⟨hl, hs, hu, hv, hne, hr⟩
    rename_i l r segment b ss us vs
    obtain ⟨first, hfirst, rfl⟩ := Address.spellsFirst_iff.1 hu
    obtain ⟨signed, hsigned, rfl, hi⟩ := (Address.spellsTerms_iff fun _ => rfl).1 hv
    let x : WrittenAddress := {
      segment, first, signed
      nonempty := by
        rintro rfl
        rw [Ne, ← hsigned.eq_nil_iff]
        exact hne.resolve_left (not_not_intro (hfirst.eq_nil_iff.2 rfl))
      length_indices := by simpa [Address.Accepts, Address.ofFirst] using hi }
    exact ⟨x, .mk hl hs hfirst hsigned hr, x.address_eq⟩
  · rintro ⟨x, ⟨hl, hs, hu, hv, hr⟩, rfl⟩
    rw [x.address_eq]
    refine .mk hl hs (Address.spellsFirst_iff.2 ⟨_, hu, rfl⟩)
      ((Address.spellsTerms_iff fun _ => rfl).2 ⟨_, hv, rfl, ?_⟩) ?_ hr
    · simpa [Address.Accepts, Address.ofFirst] using x.length_indices
    · rw [Ne, Ne, hu.eq_nil_iff, hv.eq_nil_iff]
      exact or_iff_not_imp_left.2 fun h => x.nonempty (not_not.1 h)

end IntelAsm
