import IntelAsm.Proofs.Lexer.Partition
import IntelAsm.Proofs.Parser.Item
import IntelAsm.Proofs.RoundTrip.Parsed

/-!
# Labels and their instructions

Every label of a source belongs to exactly one instruction, the right one: an instruction that
carries a label stands behind it, with no other instruction between them, and where there is none
the label has an anchor at its own place (`labelsPlaced_of_parseSource`).

An item is read from its tokens in order, so the places of labels and instructions are those of some
tokens (`sublist_places`), and tokens stand at increasing places. Then the labels are handed to the
instructions, which keeps them in place (`matched_instructionsFrom`).
-/

namespace IntelAsm

/-! ### The places of items -/

/-- The places of the label and of the instruction that an item has. -/
def Item.places : Item → List Pos
  | .label l => [l.pos]
  | .labelled l i => [l.pos, i.pos]
  | .plain i => [i.pos]

namespace Cursor

/-- Between two cursors there are tokens at the given places. -/
def Passes (c : Cursor) (ps : List Pos) (c' : Cursor) : Prop :=
  ∃ ts, c.ahead = ts ++ c'.ahead ∧ ps.Sublist (ts.map (·.pos))

theorem Passes.trans {c c' c'' : Cursor} {ps qs : List Pos} :
    c.Passes ps c' → c'.Passes qs c'' → c.Passes (ps ++ qs) c'' := by
  rintro ⟨ts, h, hps⟩ ⟨us, h', hqs⟩
  refine ⟨ts ++ us, by rw [h, h', List.append_assoc], ?_⟩
  rw [List.map_append]
  exact hps.append hqs

theorem Before.passes {c c' : Cursor} (h : c.Before c') : c.Passes [] c' := by
  obtain ⟨ts, h, -⟩ := h
  exact ⟨ts, h, List.nil_sublist _⟩

theorem passes_advance {c : Cursor} (h : c.current.kind ≠ .eof) :
    c.Passes [c.current.pos] c.advance := by
  rcases c with ⟨past, _ | ⟨t, ts⟩⟩
  · exact absurd (kind_current_of_ahead_eq_nil rfl) h
  · exact ⟨[t], rfl, .refl _⟩

end Cursor

namespace Parse

open Cursor (Passes)

section
variable {c₀ : Cursor} {ps : List Pos}

theorem triple_passes_of_forward {α : Type} {p : Parse α} (hp : Forward p) :
    Triple (c₀.Passes ps) p (fun _ => c₀.Passes ps) fun _ _ => True := by
  intro c hc
  cases h : p c with
  | ok a c' =>
    have hpasses : c₀.Passes (ps ++ []) c' := hc.trans (hp.of_ok h).passes
    rwa [List.append_nil] at hpasses
  | error e c' => trivial

theorem triple_passes_expect {what : Expected} {kinds : List TokenKind} (h : .eof ∉ kinds) :
    Triple (c₀.Passes ps) (expect what kinds) (fun t => c₀.Passes (ps ++ [t.pos]))
      fun _ _ => True := by
  intro c hc
  unfold expect
  by_cases hk : kinds.contains c.current.kind
  · rw [if_pos hk]
    refine hc.trans (Cursor.passes_advance fun he => h ?_)
    simpa [he] using hk
  · rw [if_neg hk]
    trivial

theorem triple_passes_instruction (label : Option String) :
    Triple (c₀.Passes ps) (instruction label) (fun i => c₀.Passes (ps ++ [i.pos]))
      fun _ _ => True := by
  apply triple_bind (triple_passes_expect (by decide))
  intro t
  refine triple_ite (fun _ => ?_) fun _ => ?_
  · apply triple_bind (triple_passes_of_forward (forward_directive _))
    intro e
    apply triple_bind (triple_passes_of_forward forward_comment)
    exact fun text => triple_pure _ fun _ h => h
  · apply triple_bind (triple_passes_of_forward forward_operandsToLineEnd)
    intro os
    apply triple_bind (triple_passes_of_forward forward_comment)
    exact fun text => triple_pure _ fun _ h => h

theorem triple_passes_wholeLine (label : Option String) :
    Triple (c₀.Passes ps) (wholeLine label) (fun i => c₀.Passes (ps ++ [i.pos]))
      fun _ _ => True := by
  apply triple_bind (triple_passes_instruction label)
  intro i
  exact triple_bind (triple_passes_of_forward forward_lineEnd) fun _ => triple_pure _ fun _ h => h

theorem triple_passes_labelDeclaration (colon : Bool) :
    Triple (c₀.Passes ps) (labelDeclaration colon) (fun l => c₀.Passes (ps ++ [l.pos]))
      fun _ _ => True := by
  apply triple_bind (triple_passes_expect (by decide))
  intro t
  exact triple_bind (triple_passes_of_forward (forward_labelColon _)) fun _ =>
    triple_pure _ fun _ h => h

theorem triple_passes_itemOfLabel (l : Label) :
    Triple (c₀.Passes [l.pos]) (itemOfLabel l) (fun x => c₀.Passes x.places) fun _ _ => True := by
  apply triple_bind (triple_passes_of_forward forward_current)
  intro t
  apply triple_bind (triple_passes_of_forward (forward_peek 1))
  intro u
  refine triple_ite (fun _ => triple_pure _ fun _ h => h) fun _ =>
    triple_ite (fun _ => ?_) fun _ => ?_
  · exact triple_bind (triple_passes_of_forward forward_lineEnd) fun _ =>
      triple_pure _ fun _ h => h
  · exact triple_bind (triple_passes_wholeLine _) fun i => triple_pure _ fun _ h => h

/-- The tokens of an item stand at its places. -/
theorem triple_passes_item :
    Triple (c₀.Passes []) item (fun x => c₀.Passes x.places) fun _ _ => True := by
  apply triple_bind (triple_passes_of_forward forward_current)
  intro t
  apply triple_bind (triple_passes_of_forward (forward_peek 1))
  intro u
  refine triple_ite (fun _ => ?_) fun _ => triple_ite (fun _ => ?_) fun _ =>
    triple_ite (fun _ => ?_) fun _ => fun _ _ => trivial
  · exact triple_bind (triple_passes_labelDeclaration _) triple_passes_itemOfLabel
  · apply triple_bind (triple_passes_labelDeclaration _)
    intro l
    exact triple_bind (triple_passes_wholeLine _) fun i => triple_pure _ fun _ h => h
  · exact triple_bind (triple_passes_wholeLine _) fun i => triple_pure _ fun _ h => h

end

/-- The places of items are those of some tokens, in order. -/
theorem sublist_places {c c' : Cursor} {xs : List Item} (h : items c = .ok xs c') :
    (xs.flatMap Item.places).Sublist (c.ahead.map (·.pos)) := by
  fun_induction items c generalizing xs with
  | case1 c he =>
    cases h
    exact List.nil_sublist _
  | case2 c he hn ih =>
    obtain ⟨ts, hts, -⟩ := c.before_advance
    rw [hts, List.map_append]
    exact (ih h).trans (List.sublist_append_right _ _)
  | case3 c he hn x c₁ hx ys c₂ hys ih =>
    cases h
    obtain ⟨ts, hts, hsub⟩ := triple_passes_item.of_ok (Cursor.Before.refl c).passes hx
    rw [hts, List.map_append, List.flatMap_cons]
    exact hsub.append (ih hys)
  | case4 c he hn x c₁ hx e c₂ hys ih => cases h
  | case5 c he hn e c₁ hx => cases h

end Parse

/-! ### Labels in place -/

/-- Instructions and labels that belong together, behind the place `prev`: a label has its anchor
at its place, or stands between the instruction in front of it and the one that carries it. -/
inductive Matched : (prev : Option Pos) → List Instruction → List Label → Prop where
  | nil {prev : Option Pos} : Matched prev [] []
  | anchor {prev : Option Pos} {l : Label} {is : List Instruction} {ls : List Label}
      (hl : ∀ p, prev = some p → p < l.pos) (h : Matched (some l.pos) is ls) :
      Matched prev (.anchor l :: is) (l :: ls)
  | labelled {prev : Option Pos} {l : Label} {i : Instruction} {is : List Instruction}
      {ls : List Label} (hi : i.label = some l.name) (ha : ¬i.isAnchor)
      (hl : ∀ p, prev = some p → p < l.pos) (hlt : l.pos < i.pos)
      (h : Matched (some i.pos) is ls) : Matched prev (i :: is) (l :: ls)
  | plain {prev : Option Pos} {i : Instruction} {is : List Instruction} {ls : List Label}
      (hi : i.label = none) (ha : ¬i.isAnchor) (h : Matched (some i.pos) is ls) :
      Matched prev (i :: is) ls

section
variable {prev : Option Pos} {pending : Option Label} {is : List Instruction} {ls : List Label}
  {p : Pos} {ps : List Pos}

theorem lt_of_pairwise (h : (prev.toList ++ p :: ps).Pairwise (· < ·)) :
    ∀ q, prev = some q → q < p := by
  rintro q rfl
  exact List.rel_of_pairwise_cons h (by simp)

/-- Behind a pending label the places go on from that label. -/
theorem pairwise_behind
    (h : (prev.toList ++ ((pending.map (·.pos)).toList ++ ps)).Pairwise (· < ·)) :
    (((pending.map (·.pos)).or prev).toList ++ ps).Pairwise (· < ·) := by
  cases pending with
  | none => exact h
  | some l => exact h.sublist (List.sublist_append_right _ _)

theorem matched_anchors
    (hl : (prev.toList ++ ((pending.map (·.pos)).toList ++ ps)).Pairwise (· < ·))
    (h : Matched ((pending.map (·.pos)).or prev) is ls) :
    Matched prev (Program.anchors pending ++ is) (pending.toList ++ ls) := by
  cases pending with
  | none => exact h
  | some l => exact .anchor (lt_of_pairwise hl) h

end

/-- Items at increasing places put their labels and instructions in place. -/
theorem matched_instructionsFrom {ts : List Token} (hts : NamesApart ts) {xs : List Item}
    (hxs : ∀ x ∈ xs, x.From ts) {prev : Option Pos} {pending : Option Label}
    (h : (prev.toList ++ ((pending.map (·.pos)).toList ++ xs.flatMap Item.places)).Pairwise
      (· < ·)) :
    Matched prev (Program.instructionsFrom pending xs)
      (pending.toList ++ xs.filterMap Item.label?) := by
  induction xs generalizing prev pending with
  | nil =>
    have hnil : Matched prev (Program.anchors pending ++ []) (pending.toList ++ []) :=
      matched_anchors h .nil
    simpa [Program.instructionsFrom] using hnil
  | cons x xs ih =>
    obtain ⟨hx, hrest⟩ := List.forall_mem_cons.1 hxs
    have hbehind := pairwise_behind h
    cases x with
    | label l => exact matched_anchors h (ih hrest hbehind)
    | labelled l i =>
      -- the places go on with those of the label and of the instruction
      obtain ⟨-, hplaces, -⟩ := List.pairwise_append.1 hbehind
      obtain ⟨hl, hi⟩ := List.pairwise_cons.1 hplaces
      refine matched_anchors h (.labelled hx.2.label_eq (hx.2.not_isAnchor hts)
        (lt_of_pairwise hbehind) (hl i.pos (by simp)) (ih hrest hi))
    | plain i =>
      obtain ⟨-, hplaces, -⟩ := List.pairwise_append.1 h
      obtain ⟨-, hi, hpending⟩ := List.pairwise_append.1 hplaces
      have hrest' : Matched (some i.pos) (Program.instructionsFrom none xs)
        (xs.filterMap Item.label?) := ih hrest hi
      cases pending with
      | none => exact .plain rfl (hx.not_isAnchor hts) hrest'
      | some l =>
        exact .labelled rfl (hx.not_isAnchor hts) (lt_of_pairwise h)
          (hpending l.pos (by simp) i.pos (by simp [Item.places])) hrest'

/-- Tokens at increasing places form a program that is in place. -/
theorem matched_of_parse {ts : List Token} (hnames : NamesApart ts)
    (hplaces : ts.Pairwise (·.pos < ·.pos)) {p : Program} (h : parse ts = .ok p) :
    Matched none p.instructions p.labels := by
  obtain ⟨xs, c, hxs, rfl⟩ := parse_eq_ok_iff.1 h
  obtain ⟨-, hitems⟩ := Parse.reads_items.of_ok rfl hxs
  have hincreasing := (List.pairwise_map.2 hplaces).sublist (Parse.sublist_places hxs)
  exact matched_instructionsFrom hnames hitems hincreasing

/-! ### Programs of sources -/

/-- The label that belongs to the first instruction behind the given ones that carries one. -/
def Program.labelBehind (p : Program) (before : List Instruction) : Option Label :=
  p.labels[(before.filterMap (·.label)).length]?

/-- Each label of a program belongs to one instruction, in order. That is the anchor of the label,
at its place and in front of a label or of the end, or it stands behind the label, and the label
behind the instruction before. -/
structure Program.LabelsPlaced (p : Program) : Prop where
  in_order : p.labels.map (·.name) = p.instructions.filterMap (·.label)
  anchor : ∀ before i after, p.instructions = before ++ i :: after → i.isAnchor →
    (∃ l, p.labelBehind before = some l ∧ i = .anchor l) ∧
      ∀ j, after.head? = some j → j.label.isSome
  labelled : ∀ before i after, p.instructions = before ++ i :: after → ¬i.isAnchor →
    i.label.isSome → ∃ l, p.labelBehind before = some l ∧ i.label = some l.name ∧
      (∀ j, before.getLast? = some j → j.pos < l.pos) ∧ l.pos < i.pos

namespace Matched

variable {prev : Option Pos} {is : List Instruction} {ls : List Label}

/-- What is in place stays so behind the first instructions and their labels. -/
theorem drop {before : List Instruction} (h : Matched prev (before ++ is) ls) :
    Matched ((before.getLast?.map (·.pos)).or prev) is
      (ls.drop (before.filterMap (·.label)).length) := by
  induction before generalizing prev ls with
  | nil => exact h
  | cons i before ih =>
    have hlast : ((i :: before).getLast?.map (·.pos)).or prev =
        (before.getLast?.map (·.pos)).or (some i.pos) := by
      rw [List.getLast?_cons]
      cases before.getLast? <;> rfl
    rw [hlast]
    cases h with
    | anchor hl h => exact ih h
    | labelled hi ha hl hlt h => simpa [List.filterMap_cons, hi] using ih h
    | plain hi ha h => simpa [List.filterMap_cons, hi] using ih h

theorem anchor_head {i : Instruction} (h : Matched prev (i :: is) ls) (ha : i.isAnchor) :
    ∃ l, ls.head? = some l ∧ i = .anchor l := by
  cases h with
  | @anchor prev l is ls hl h => exact ⟨l, rfl, rfl⟩
  | labelled hi ha' => exact absurd ha ha'
  | plain hi ha' => exact absurd ha ha'

theorem labelled_head {i : Instruction} (h : Matched prev (i :: is) ls) (ha : ¬i.isAnchor)
    (hi : i.label.isSome) :
    ∃ l, ls.head? = some l ∧ i.label = some l.name ∧ (∀ p, prev = some p → p < l.pos) ∧
      l.pos < i.pos := by
  cases h with
  | anchor => exact absurd rfl ha
  | @labelled prev l i is ls hlabel ha hl hlt h => exact ⟨l, rfl, hlabel, hl, hlt⟩
  | plain hi' => simp [hi'] at hi

end Matched

theorem AnchorsClosed.ahead {after : Bool} {before is : List Instruction} {i : Instruction}
    (h : AnchorsClosed after (before ++ i :: is)) (hi : i.isAnchor) : labelAhead after is := by
  induction before with
  | nil => exact h.1 hi
  | cons j before ih => exact ih h.2

/-- The labels of a parsed source are in place. -/
theorem labelsPlaced_of_parseSource {source : String} {p : Program}
    (h : parseSource source = .ok p) : p.LabelsPlaced := by
  obtain ⟨ts, htokenize, hparse⟩ := exists_of_parseSource h
  have hnames : NamesApart ts := namesApart (fromLexer_of_tokenize htokenize)
  have hfrom : p.From ts := from_of_parse hparse
  have hpartition : Partition [] source.toList ts := partition_of_scan (tokenize_eq_ok.1 htokenize)
  have hplaces : ts.Pairwise (·.pos < ·.pos) := hpartition.pairwise
  have hmatched : Matched none p.instructions p.labels := matched_of_parse hnames hplaces hparse
  refine ⟨hfrom.in_order, fun before i after hsplit ha => ⟨?_, ?_⟩, ?_⟩
  · rw [hsplit] at hmatched
    obtain ⟨l, hl, hi⟩ := hmatched.drop.anchor_head ha
    exact ⟨l, by rwa [List.head?_drop] at hl, hi⟩
  · intro j hj
    have hahead := (hsplit ▸ hfrom.anchors hnames).ahead ha
    cases after with
    | nil => cases hj
    | cons k after =>
      cases hj
      exact hahead
  · intro before i after hsplit ha hi
    rw [hsplit] at hmatched
    obtain ⟨l, hl, hname, hlast, hlt⟩ := hmatched.drop.labelled_head ha hi
    refine ⟨l, by rwa [List.head?_drop] at hl, hname, fun j hj => ?_, hlt⟩
    exact hlast j.pos (by simp [hj])

/-- Two labels on one line, a label on the line before, a label of data and one at the end. -/
theorem labelsPlaced_of_lines :
    ∃ p, parseSource "a: b:\nnop\nx dd 1\ne:" = .ok p ∧ p.LabelsPlaced := by
  have h : parseSource "a: b:\nnop\nx dd 1\ne:" = .ok
      ⟨[.anchor ⟨"a", ⟨1, 1⟩⟩, ⟨"NOP", [], some "b", none, none, ⟨2, 1⟩⟩,
        ⟨"DD", [⟨.immediate 1 false, none, ⟨3, 6⟩⟩], some "x", none, none, ⟨3, 3⟩⟩,
        .anchor ⟨"e", ⟨4, 1⟩⟩],
        [⟨"a", ⟨1, 1⟩⟩, ⟨"b", ⟨1, 4⟩⟩, ⟨"x", ⟨3, 1⟩⟩, ⟨"e", ⟨4, 1⟩⟩]⟩ := by decide +kernel
  exact ⟨_, h, labelsPlaced_of_parseSource h⟩

end IntelAsm
