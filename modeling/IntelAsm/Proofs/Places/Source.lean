import IntelAsm.Proofs.Grammar.Line
import IntelAsm.Proofs.Parser.LabelPlaces
import IntelAsm.Proofs.Places.Tree

/-!
# Places in the trees of sources

The tokens of a parsed source fall into the pieces that its items are spelled with, and every part
of an item stands at the first token of its own piece (`Program.PlacedOn`). The places of labels, of
instructions and of the parts of an instruction increase (`Program.Ordered`). Labels are handed to
instructions afterwards, and each item keeps its places then.
-/

namespace IntelAsm

open Parse

/-! ### Items -/

/-- The instruction that an item has. -/
def Item.instruction? : Item → Option Instruction
  | .label _ => none
  | .labelled _ i => some i
  | .plain i => some i

/-- An item with its own tokens: those of its label, which stands at the name, and behind them those
of its instruction. -/
inductive Item.PlacedOn : Item → List Token → Prop where
  | label {t u : Token} (ht : t.kind = .ident) (hu : u.kind = .mark .colon) :
      PlacedOn (.label ⟨t.text, t.pos⟩) [t, u]
  | labelled {t u : Token} {i : Instruction} {ts : List Token} (ht : t.kind = .ident)
      (hu : u.kind = .mark .colon) (hi : i.PlacedOn ts) :
      PlacedOn (.labelled ⟨t.text, t.pos⟩ i) (t :: u :: ts)
  | keyword {t : Token} {i : Instruction} {ts : List Token} (ht : t.kind = .ident)
      (hk : KeywordAhead ts) (hi : i.PlacedOn ts) : PlacedOn (.labelled ⟨t.text, t.pos⟩ i) (t :: ts)
  | plain {i : Instruction} {ts : List Token} (hi : i.PlacedOn ts) : PlacedOn (.plain i) ts

/-- Items with their own tokens, up to the end of a list. Besides them there are the comments and
the newlines. An item ends in front of a comment, a newline or the end; a label with a colon also
ends in front of another. -/
inductive PlacedLines : List Item → List Token → Prop where
  | nil : PlacedLines [] []
  | skip {t : Token} {xs : List Item} {ts : List Token} (ht : t.kind = .newline ∨ t.kind = .comment)
      (hxs : PlacedLines xs ts) : PlacedLines xs (t :: ts)
  | label {t u : Token} {xs : List Item} {ts : List Token} (ht : t.kind = .ident)
      (hu : u.kind = .mark .colon) (ha : LabelAhead ts) (hxs : PlacedLines xs ts) :
      PlacedLines (.label ⟨t.text, t.pos⟩ :: xs) (t :: u :: ts)
  | statement {c : Option String} {x : Item} {xs : List Item} {us cs ts : List Token}
      (hx : x.PlacedOn us) (hc : SpellsComment c cs) (hend : ∀ t ∈ ts.head?, t.kind = .newline)
      (hxs : PlacedLines xs ts) : PlacedLines (x :: xs) (us ++ (cs ++ ts))

/-- The tokens that spell an item are its own. -/
theorem Item.Spells.placedOn {c : Option String} {x : Item} {us : List Token} (h : x.Spells c us) :
    x.PlacedOn us := by
  cases h with
  | label ht hu => exact .label ht hu
  | labelled ht hu hi => exact .labelled ht hu hi.placedOn
  | keyword ht hk hi => exact .keyword ht hk hi.placedOn
  | plain hk hi => exact .plain hi.placedOn

theorem Lines.placedLines {xs : List Item} {ts : List Token} (h : Lines xs ts) :
    PlacedLines xs ts := by
  induction h with
  | nil => exact .nil
  | skip ht hxs ih => exact .skip ht ih
  | label ht hu ha hxs ih => exact .label ht hu ha ih
  | statement hx hc hend hxs ih => exact .statement hx.placedOn hc hend ih

theorem Item.Spells.ordered {c : Option String} {x : Item} {us : List Token} (h : x.Spells c us)
    (hus : us.Pairwise (·.pos < ·.pos)) : ∀ i, x.instruction? = some i → i.Ordered := by
  rintro i hi
  cases h with
  | label => cases hi
  | labelled ht hu h =>
    cases hi
    exact h.ordered hus.of_cons.of_cons
  | keyword ht hk h =>
    cases hi
    exact h.ordered hus.of_cons
  | plain hk h =>
    cases hi
    exact h.ordered hus

/-- In lines at increasing places the parts of every instruction are in order. -/
theorem Lines.ordered {xs : List Item} {ts : List Token} (h : Lines xs ts)
    (hts : ts.Pairwise (·.pos < ·.pos)) :
    ∀ x ∈ xs, ∀ i, x.instruction? = some i → i.Ordered := by
  induction h with
  | nil => simp
  | skip ht hxs ih => exact ih hts.of_cons
  | label ht hu ha hxs ih => exact List.forall_mem_cons.2 ⟨nofun, ih hts.of_cons.of_cons⟩
  | @statement c x xs us cs ts hx hc hend hxs ih =>
    have hrest : ts <:+ us ++ (cs ++ ts) :=
      (List.suffix_append cs ts).trans (List.suffix_append us _)
    have hown : us.Sublist (us ++ (cs ++ ts)) := List.sublist_append_left us _
    exact List.forall_mem_cons.2 ⟨hx.ordered (hts.sublist hown), ih (hts.sublist hrest.sublist)⟩

/-- The places of an item are some of those of its tokens. -/
theorem Item.Spells.sublist_places {c : Option String} {x : Item} {us : List Token}
    (h : x.Spells c us) : x.places.Sublist (us.map (·.pos)) := by
  have hfirst {label : Option String} {i : Instruction} {us : List Token}
      (h : i.Spells label c us) : [i.pos].Sublist (us.map (·.pos)) :=
    (List.singleton_sublist.2 List.mem_cons_self).trans h.sublist
  cases h with
  | label ht hu => exact (List.nil_sublist _).cons_cons _
  | labelled ht hu hi => exact ((hfirst hi).cons _).cons_cons _
  | keyword ht hk hi => exact (hfirst hi).cons_cons _
  | plain hk hi => exact hfirst hi

theorem Lines.sublist_places {xs : List Item} {ts : List Token} (h : Lines xs ts) :
    (xs.flatMap Item.places).Sublist (ts.map (·.pos)) := by
  induction h with
  | nil => exact .slnil
  | skip ht hxs ih => exact ih.cons _
  | label ht hu ha hxs ih => exact (ih.cons _).cons_cons _
  | @statement c x xs us cs ts hx hc hend hxs ih =>
    rw [List.flatMap_cons, List.map_append, List.map_append]
    exact hx.sublist_places.append (ih.trans (List.sublist_append_right _ _))

/-! ### Programs -/

namespace Program

/-- An instruction of items is an anchor, or that of an item with a label handed to it. -/
theorem of_mem_instructionsFrom {xs : List Item} {pending : Option Label} {i : Instruction}
    (h : i ∈ instructionsFrom pending xs) :
    (∃ l, i = .anchor l) ∨
      ∃ x ∈ xs, ∃ j, x.instruction? = some j ∧ ∃ label, i = { j with label } := by
  have hanchors {pending : Option Label} (h : i ∈ anchors pending) : ∃ l, i = .anchor l := by
    cases pending with
    | none => cases h
    | some l => exact ⟨l, List.mem_singleton.1 h⟩
  induction xs generalizing pending with
  | nil => exact .inl (hanchors h)
  | cons x xs ih =>
    have hrest {pending : Option Label} (h : i ∈ instructionsFrom pending xs) := (ih h).imp_right
      fun ⟨y, hy, hi⟩ => (⟨y, List.mem_cons_of_mem x hy, hi⟩ :
        ∃ y ∈ x :: xs, ∃ j, y.instruction? = some j ∧ ∃ label, i = { j with label })
    cases x with
    | label l =>
      rcases List.mem_append.1 h with h | h
      · exact .inl (hanchors h)
      · exact hrest h
    | labelled l j =>
      rcases List.mem_append.1 h with h | h
      · exact .inl (hanchors h)
      · rcases List.mem_cons.1 h with rfl | h
        · exact .inr ⟨_, List.mem_cons_self, _, rfl, _, rfl⟩
        · exact hrest h
    | plain j =>
      rcases List.mem_cons.1 h with rfl | h
      · exact .inr ⟨_, List.mem_cons_self, _, rfl, _, rfl⟩
      · exact hrest h

/-- The places of instructions are some of those of their items. -/
theorem sublist_instructionsFrom (pending : Option Label) (xs : List Item) :
    ((instructionsFrom pending xs).map (·.pos)).Sublist
      ((pending.map (·.pos)).toList ++ xs.flatMap Item.places) := by
  have hanchors (pending : Option Label) :
      (anchors pending).map (·.pos) = (pending.map (·.pos)).toList := by
    cases pending <;> rfl
  induction xs generalizing pending with
  | nil => simp [instructionsFrom, hanchors]
  | cons x xs ih =>
    cases x with
    | label l =>
      rw [instructionsFrom, List.map_append, hanchors]
      exact (List.Sublist.refl _).append (ih (some l))
    | labelled l i =>
      rw [instructionsFrom, List.map_append, hanchors]
      exact (List.Sublist.refl _).append (((ih none).cons_cons i.pos).cons l.pos)
    | plain i => exact ((ih none).cons_cons i.pos).trans (List.sublist_append_right _ _)

theorem sublist_labels (xs : List Item) :
    ((xs.filterMap Item.label?).map (·.pos)).Sublist (xs.flatMap Item.places) := by
  induction xs with
  | nil => exact .slnil
  | cons x xs ih =>
    cases x with
    | label l => exact ih.cons_cons l.pos
    | labelled l i => exact (ih.cons i.pos).cons_cons l.pos
    | plain i => exact ih.cons i.pos

/-- The tokens in front of the end marker are those of the items of a program, and every part stands
at the first of its own; anchors stand where their labels do. -/
structure PlacedOn (p : Program) (ts : List Token) : Prop where
  items : ∃ us e xs, ts = us ++ [e] ∧ e.kind = .eof ∧ PlacedLines xs us ∧ p = .ofItems xs
  anchors : ∀ before i after, p.instructions = before ++ i :: after → i.isAnchor →
    ∃ l, p.labelBehind before = some l ∧ i = .anchor l

/-- The places of a program increase along its labels, its instructions and the parts of each. -/
structure Ordered (p : Program) : Prop where
  labels : p.labels.Pairwise (·.pos < ·.pos)
  instructions : p.instructions.Pairwise (·.pos < ·.pos)
  parts : ∀ i ∈ p.instructions, i.Ordered

end Program

theorem Instruction.Ordered.anchor (l : Label) : (Instruction.anchor l).Ordered where
  places := List.pairwise_singleton _ _
  operands _ ho := absurd ho List.not_mem_nil
  directive _ he := absurd he (Option.some_ne_none _).symm

/-- The parts of a parsed source are in place and in order. -/
theorem placed_of_parseSource (source : String) (p : Program) (h : parseSource source = .ok p) :
    ∃ ts, tokenize source = .ok ts ∧ p.PlacedOn ts ∧ p.Ordered := by
  obtain ⟨ts, htokenize, hparse⟩ := exists_of_parseSource h
  have hscan := tokenize_eq_ok.1 htokenize
  have hnames : NamesApart ts := namesApart (fromLexer_of_tokenize htokenize)
  have hpartition : Partition [] source.toList ts := partition_of_scan hscan
  have hplaces : ts.Pairwise (·.pos < ·.pos) := hpartition.pairwise
  have hmatched : Matched none p.instructions p.labels := matched_of_parse hnames hplaces hparse
  obtain ⟨us, e, rfl, he, hne⟩ := ended_of_scan hscan
  obtain ⟨xs, hlines, rfl⟩ :=
    (parse_eq_ok_iff_lines hne he hpartition.commentsEnd).1 hparse
  have hincreasing : (xs.flatMap Item.places).Pairwise (· < ·) := by
    have hus := hplaces.sublist (List.sublist_append_left us [e])
    exact (List.pairwise_map.2 hus).sublist hlines.sublist_places
  have hordered := hlines.ordered (hplaces.sublist (List.sublist_append_left us [e]))
  refine ⟨_, htokenize, ⟨⟨us, e, xs, rfl, he, hlines.placedLines, rfl⟩, ?_⟩, ?_, ?_, ?_⟩
  · intro before i after hsplit ha
    rw [hsplit] at hmatched
    obtain ⟨l, hl, hi⟩ := hmatched.drop.anchor_head ha
    exact ⟨l, by rwa [List.head?_drop] at hl, hi⟩
  · exact List.pairwise_map.1 (hincreasing.sublist (Program.sublist_labels xs))
  · exact List.pairwise_map.1 (hincreasing.sublist (Program.sublist_instructionsFrom none xs))
  · intro i hi
    obtain ⟨l, rfl⟩ | ⟨x, hx, j, hj, label, rfl⟩ := Program.of_mem_instructionsFrom hi
    · exact .anchor l
    · obtain ⟨hparts, hoperands, hdirective⟩ := hordered x hx j hj
      exact ⟨hparts, hoperands, hdirective⟩

/-- Two labels, an operand with a size and a segment, and one that starts with a parenthesis. -/
theorem placed_of_parseSource_of_operands :
    ∃ p ts, parseSource "a: b:\nmov dword ptr fs:[8], (1+$)*-c" = .ok p ∧
      tokenize "a: b:\nmov dword ptr fs:[8], (1+$)*-c" = .ok ts ∧ p.PlacedOn ts ∧ p.Ordered := by
  have h : parseSource "a: b:\nmov dword ptr fs:[8], (1+$)*-c" = .ok
      ⟨[.anchor ⟨"a", ⟨1, 1⟩⟩,
        { mnemonic := "MOV"
          operands := [
            ⟨.memory { displacement := some 8, segment := some "fs" }, some 32, ⟨2, 5⟩⟩,
            ⟨.expression (.binary "*"
              (.binary "+" (.literal 1 false ⟨2, 24⟩) (.here ⟨2, 26⟩) ⟨2, 24⟩)
              (.unary "-" (.symbol "c" ⟨2, 30⟩) ⟨2, 29⟩) ⟨2, 24⟩), none, ⟨2, 23⟩⟩]
          label := some "b"
          pos := ⟨2, 1⟩ }],
        [⟨"a", ⟨1, 1⟩⟩, ⟨"b", ⟨1, 4⟩⟩]⟩ := by
    decide +kernel
  obtain ⟨ts, hts, hplaced⟩ := placed_of_parseSource _ _ h
  exact ⟨_, ts, h, hts, hplaced⟩

end IntelAsm
