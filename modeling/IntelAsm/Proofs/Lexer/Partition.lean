import IntelAsm.Proofs.Lexer.Lexeme
import IntelAsm.Proofs.Lexer.Place
import IntelAsm.Proofs.Lexer.Scan

/-!
# Tokens partition their source

The text of a source is cut into lexemes with blanks between them; each token is the word of one
lexeme at the place of its first character, and the end marker stands behind them all
(`Partition`). The lexer finds exactly these tokens (`tokenize_eq_ok_iff`): it loses no character,
gives none to two words, and ends no word before its end. So tokens stand at increasing places
(`Partition.pairwise`).
-/

namespace IntelAsm

open Lexeme

/-- The text `cs`, which stands behind the text `before`, is cut into the lexemes of the tokens. -/
inductive Partition : (before cs : List Char) → List Token → Prop where
  | last {before gap : List Char} (hg : IsGap gap) :
      Partition before gap [⟨⟨.eof, ""⟩, .behind (before ++ gap)⟩]
  | cons {before gap l rest : List Char} {w : Word} {ts : List Token} (hg : IsGap gap)
      (hne : l ≠ []) (hl : w.Spells l) (he : w.EndsBefore l rest)
      (hts : Partition (before ++ gap ++ l) rest ts) :
      Partition before (gap ++ (l ++ rest)) (⟨w, .behind (before ++ gap)⟩ :: ts)

namespace Partition

variable {before cs : List Char} {ts : List Token}

/-- A blank in front belongs to the first gap. -/
theorem blank {c : Char} (hc : isInlineSpace c) (h : Partition (before ++ [c]) cs ts) :
    Partition before (c :: cs) ts := by
  cases h with
  | last hg =>
    rw [List.append_assoc]
    exact .last (List.forall_mem_cons.2 ⟨hc, hg⟩)
  | @cons _ gap l rest w ts hg hne hl he hts =>
    have hgap : before ++ [c] ++ gap = before ++ c :: gap := by simp
    rw [hgap] at hts ⊢
    have hg' : IsGap (c :: gap) := List.forall_mem_cons.2 ⟨hc, hg⟩
    exact .cons hg' hne hl he hts

/-- Tokens stand in the text. -/
theorem exists_split (h : Partition before cs ts) :
    ∀ t ∈ ts, ∃ es rest, cs = es ++ rest ∧ t.pos = .behind (before ++ es) := by
  induction h with
  | @last before gap hg => exact List.forall_mem_singleton.2 ⟨gap, [], by simp, rfl⟩
  | @cons before gap l rest w ts hg hne hl he hts ih =>
    refine List.forall_mem_cons.2 ⟨⟨gap, l ++ rest, rfl, rfl⟩, fun t ht => ?_⟩
    obtain ⟨es, rest', rfl, hes⟩ := ih t ht
    exact ⟨gap ++ l ++ es, rest', by simp, by simpa using hes⟩

/-- Tokens stand no earlier than the text does. -/
theorem exists_behind (h : Partition before cs ts) :
    ∀ t ∈ ts, ∃ es, t.pos = .behind (before ++ es) := by
  intro t ht
  obtain ⟨es, -, -, hes⟩ := h.exists_split t ht
  exact ⟨es, hes⟩

/-- Tokens stand at increasing places, the end marker behind all others. -/
theorem pairwise (h : Partition before cs ts) : ts.Pairwise (·.pos < ·.pos) := by
  induction h with
  | last hg => exact List.pairwise_singleton _ _
  | @cons before gap l rest w ts hg hne hl he hts ih =>
    refine List.pairwise_cons.2 ⟨fun t ht => ?_, ih⟩
    obtain ⟨es, hes⟩ := hts.exists_behind t ht
    rw [hes, List.append_assoc, ← Pos.afterAll_behind _ (l ++ es)]
    exact Pos.lt_afterAll (by simp [hne]) _

end Partition

/-! ### The lexer finds the partition -/

theorem scan_append_gap {gap : List Char} (hg : IsGap gap) (p : Pos) (cs : List Char) :
    scan p (gap ++ cs) = scan (p.afterAll gap) cs := by
  induction gap generalizing p with
  | nil => rfl
  | cons c gap ih =>
    obtain ⟨hc, hg⟩ := List.forall_mem_cons.1 hg
    rw [List.cons_append, scan_blank hc, ih hg, Pos.afterAll_cons]

/-- A lexeme at the front is the first token. -/
theorem scan_of_spells {w : Word} {l rest : List Char} (hl : w.Spells l)
    (he : w.EndsBefore l rest) (p : Pos) :
    scan p (l ++ rest) = (scan (p.afterAll l) rest).map (⟨w, p⟩ :: ·) := by
  obtain ⟨c, cs, rfl⟩ := List.exists_cons_of_ne_nil hl.ne_nil
  have hw : wordFrom c (cs ++ rest) = ⟨.found w, (c :: cs).length⟩ := word_of_spells hl he
  rw [List.cons_append, scan_found p hw, ← List.cons_append, List.take_left, List.drop_left]

theorem scan_of_partition {before cs : List Char} {ts : List Token}
    (h : Partition before cs ts) : scan (.behind before) cs = .ok ts := by
  induction h with
  | @last before gap hg =>
    have hgap := scan_append_gap hg (.behind before) []
    rw [List.append_nil] at hgap
    rw [hgap, Pos.afterAll_behind, scan_nil]
  | @cons before gap l rest w ts hg hne hl he hts ih =>
    rw [scan_append_gap hg, Pos.afterAll_behind, scan_of_spells hl he, Pos.afterAll_behind, ih]
    rfl

theorem partition_of_scan {before cs : List Char} {ts : List Token}
    (h : scan (.behind before) cs = .ok ts) : Partition before cs ts := by
  generalize hp : Pos.behind before = p at h
  -- by induction on the scan: a blank joins the first gap, and a word is the first lexeme
  fun_induction scan p cs generalizing before ts with
  | case1 p =>
    cases h
    have hlast : Partition before [] [⟨⟨.eof, ""⟩, .behind (before ++ [])⟩] :=
      .last (by simp [IsGap])
    rw [List.append_nil, hp] at hlast
    exact hlast
  | case2 p c cs hb ih =>
    exact .blank hb (ih (by rw [Pos.behind_append_singleton, hp]) h)
  | case3 p c cs hb w hw ih =>
    obtain ⟨l, rest, hcs, hlength, hl, he⟩ := cuts_wordFrom c cs w hw
    rw [hcs, ← hlength, List.take_left, List.drop_left] at ih h
    cases hs : scan (p.afterAll l) rest with
    | error e =>
      rw [hs] at h
      cases h
    | ok us =>
      rw [hs] at h
      cases h
      have hus : Partition (before ++ [] ++ l) rest us :=
        ih (by rw [List.append_nil, ← Pos.afterAll_behind, hp]) hs
      have hnil : IsGap [] := by simp [IsGap]
      have hcons := Partition.cons hnil hl.ne_nil hl he hus
      rw [List.append_nil, hp] at hcons
      rw [hcs]
      exact hcons
  | case4 p c cs hb f hf => cases h
  | case5 p c cs hb hc => exact absurd hc (wordFrom_ne_cutShort c cs)

/-- The tokens of a source are those of its partition, which is the only one. -/
theorem tokenize_eq_ok_iff (source : String) (ts : List Token) :
    tokenize source = .ok ts ↔ Partition [] source.toList ts := by
  rw [tokenize_eq_ok, ← Pos.behind_nil]
  exact ⟨partition_of_scan, scan_of_partition⟩

end IntelAsm
