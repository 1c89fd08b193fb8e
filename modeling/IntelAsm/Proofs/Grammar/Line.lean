import IntelAsm.Proofs.Grammar.Completeness
import IntelAsm.Proofs.Grammar.Soundness

/-!
# The grammar is what the parser accepts

A token list forms a program iff the grammar spells items with it, and then it is the program of
these items (`parse_eq_ok_iff_lines`).

The grammar of a single line can be told without a recursion: labels with colons, as many as there
are, then what they belong to, then a comment (`Line`). A source of one line is parsed iff its
tokens are such a line (`parseSource_of_line`).
-/

namespace IntelAsm

open Parse

/-! ### Token lists -/

section
variable {ts us vs : List Token} {e t : Token}

theorem eq_of_append_eof (h : ts ++ [e] = us ++ t :: vs) (hts : ∀ t ∈ ts, t.kind ≠ .eof)
    (ht : t.kind = .eof) : us = ts := by
  rcases List.eq_nil_or_concat vs with rfl | ⟨ws, w, rfl⟩
  · exact (List.append_inj_left' h rfl).symm
  · rw [List.concat_eq_append, ← List.cons_append, ← List.append_assoc] at h
    have hmem : t ∈ ts := by
      rw [List.append_inj_left' h rfl]
      simp
    exact absurd ht (hts t hmem)

/-- Tokens form a program iff the grammar spells items with them. -/
theorem parse_eq_ok_iff_lines (hts : ∀ t ∈ ts, t.kind ≠ .eof) (he : e.kind = .eof)
    (hc : CommentsEnd (ts ++ [e])) {p : Program} :
    parse (ts ++ [e]) = .ok p ↔ ∃ xs, Lines xs ts ∧ p = .ofItems xs := by
  constructor
  · intro h
    obtain ⟨xs, d, hitems, rfl⟩ := parse_eq_ok_iff.1 h
    obtain ⟨us, hm, hlines, hd⟩ := (follows_items (c := .ofTokens (ts ++ [e])) hc).of_ok hitems
    obtain ⟨vs, hsplit⟩ := exists_current_of_moves ⟨ts, e, rfl, he, hts⟩ rfl hm
    rw [eq_of_append_eof hsplit hts hd] at hlines
    exact ⟨xs, hlines, rfl⟩
  · rintro ⟨xs, hlines, rfl⟩
    exact hlines.parse_eq he

end

/-! ### Single lines -/

/-- The tokens of labels, each a name and a colon. -/
inductive SpellsLabels : List Label → List Token → Prop where
  | nil : SpellsLabels [] []
  | cons {t u : Token} {ls : List Label} {ts : List Token} (ht : t.kind = .ident)
      (hu : u.kind = .mark .colon) (hls : SpellsLabels ls ts) :
      SpellsLabels (⟨t.text, t.pos⟩ :: ls) (t :: u :: ts)

/-- The tokens behind the labels of a line, without the comment: the last label is that of the
instruction, and in a line without labels the first name may be one. -/
inductive SpellsBody (comment : Option String) : List Label → List Item → List Token → Prop where
  | labels (ls : List Label) : SpellsBody comment ls (ls.map .label) []
  | labelled {ls : List Label} {l : Label} {i : Instruction} {ts : List Token}
      (hi : i.Spells (some l.name) comment ts) :
      SpellsBody comment (ls ++ [l]) (ls.map .label ++ [.labelled l i]) ts
  | keyword {t : Token} {i : Instruction} {ts : List Token} (ht : t.kind = .ident)
      (hk : KeywordAhead ts) (hi : i.Spells (some t.text) comment ts) :
      SpellsBody comment [] [.labelled ⟨t.text, t.pos⟩ i] (t :: ts)
  | plain {i : Instruction} {ts : List Token} (hk : ¬KeywordAhead ts.tail)
      (hi : i.Spells none comment ts) : SpellsBody comment [] [.plain i] ts

/-- The tokens of a line: all labels that it starts with, what is behind them, and a comment. -/
inductive Line : List Item → List Token → Prop where
  | mk {ls : List Label} {xs : List Item} {c : Option String} {us ts cs : List Token}
      (hls : SpellsLabels ls us) (hmax : ¬LabelAhead (ts ++ cs)) (hxs : SpellsBody c ls xs ts)
      (hc : SpellsComment c cs) : Line xs (us ++ (ts ++ cs))

theorem SpellsLabels.exists_of_append {ls : List Label} {l : Label} {us : List Token}
    (h : SpellsLabels (ls ++ [l]) us) : ∃ vs t u, us = vs ++ [t, u] ∧ SpellsLabels ls vs ∧
      t.kind = .ident ∧ u.kind = .mark .colon ∧ l = ⟨t.text, t.pos⟩ := by
  induction ls generalizing us with
  | nil =>
    cases h with
    | cons ht hu hls =>
      cases hls
      exact ⟨[], _, _, rfl, .nil, ht, hu, rfl⟩
  | cons m ls ih =>
    cases h with
    | cons ht hu hls =>
      obtain ⟨vs, t, u, rfl, hvs, h⟩ := ih hls
      exact ⟨_ :: _ :: vs, t, u, rfl, .cons ht hu hvs, h⟩

/-- Labels may stand in front of a label. -/
theorem SpellsLabels.lines {ls : List Label} {us vs : List Token} (h : SpellsLabels ls us)
    {xs : List Item} (hv : LabelAhead vs) (hxs : Lines xs vs) :
    Lines (ls.map .label ++ xs) (us ++ vs) := by
  induction h with
  | nil => exact hxs
  | @cons t u ls ts ht hu hls ih =>
    refine .label ht hu ?_ ih
    cases hls with
    | nil => exact hv
    | cons ht hu hls => exact ⟨ht, hu⟩

theorem SpellsComment.lines {c : Option String} {cs : List Token} (h : SpellsComment c cs) :
    Lines [] cs := by
  cases h with
  | none => exact .nil
  | some ht => exact .skip (.inr ht) .nil

/-- A statement may be the only one. -/
theorem Item.Spells.lines {c : Option String} {x : Item} {us cs : List Token} (h : x.Spells c us)
    (hc : SpellsComment c cs) : Lines [x] (us ++ cs) := by
  have hlines : Lines [x] (us ++ (cs ++ [])) := .statement h hc (by simp) .nil
  simpa using hlines

theorem Line.lines {xs : List Item} {ts : List Token} (h : Line xs ts) : Lines xs ts := by
  obtain @⟨ls, xs, c, us, ts, cs, hls, -, hxs, hc⟩ := h
  cases hxs with
  | labels =>
    rcases List.eq_nil_or_concat ls with rfl | ⟨ls, l, rfl⟩
    · cases hls
      exact hc.lines
    · rw [List.concat_eq_append] at hls ⊢
      obtain ⟨vs, t, u, rfl, hvs, ht, hu, rfl⟩ := hls.exists_of_append
      have hitem := (Item.Spells.label ht hu).lines hc
      have hahead : LabelAhead ([t, u] ++ cs) := ⟨ht, hu⟩
      simpa using hvs.lines hahead hitem
  | labelled hi =>
    obtain ⟨vs, t, u, rfl, hvs, ht, hu, rfl⟩ := hls.exists_of_append
    have hitem := (Item.Spells.labelled ht hu hi).lines hc
    have hahead : LabelAhead (t :: u :: ts ++ cs) := ⟨ht, hu⟩
    simpa using hvs.lines hahead hitem
  | keyword ht hk hi =>
    cases hls
    exact (Item.Spells.keyword ht hk hi).lines hc
  | plain hk hi =>
    cases hls
    exact (Item.Spells.plain hk hi).lines hc

/-! ### Lines without newlines -/

theorem Lines.eq_nil {xs : List Item} (h : Lines xs []) : xs = [] := by
  generalize hts : ([] : List Token) = ts at h
  cases h with
  | nil => rfl
  | statement hx =>
    obtain ⟨t, us, rfl, -⟩ := hx.starts
    cases hts
  | _ => cases hts

theorem SpellsComment.not_labelAhead {c : Option String} {cs : List Token}
    (h : SpellsComment c cs) : ¬LabelAhead cs := by
  cases h <;> exact id

/-- No instruction starts like a label. -/
theorem Instruction.Spells.not_labelAhead {label c : Option String} {i : Instruction}
    {ts cs : List Token} (h : i.Spells label c ts) (hc : SpellsComment c cs) :
    ¬LabelAhead (ts ++ cs) := by
  obtain ⟨m, w, ws, hnext, -, hw, -⟩ := h.next (t := ⟨⟨.eof, ""⟩, {}⟩) (.inr rfl) [] hc
  rw [← List.append_assoc] at hnext
  generalize ts ++ cs = us at hnext
  match us with
  | [] => exact id
  | [_] => exact id
  | t :: u :: us =>
    obtain ⟨-, hnext⟩ := List.cons.inj hnext
    obtain ⟨rfl, -⟩ := List.cons.inj hnext
    exact fun hahead => hw hahead.2

theorem Item.Spells.line {c : Option String} {x : Item} {us cs : List Token} (h : x.Spells c us)
    (hc : SpellsComment c cs) : Line [x] (us ++ cs) := by
  cases h with
  | @label t u ht hu =>
    show Line _ ([t, u] ++ ([] ++ cs))
    exact .mk (.cons ht hu .nil) hc.not_labelAhead (.labels [_]) hc
  | @labelled t u i ts ht hu hi =>
    have hbody : SpellsBody c ([] ++ [⟨t.text, t.pos⟩]) _ ts := .labelled hi
    exact .mk (.cons ht hu .nil) (hi.not_labelAhead hc) hbody hc
  | keyword ht hk hi =>
    obtain ⟨m, vs, rfl, hm⟩ := hi.starts
    refine .mk .nil (fun h => ?_) (.keyword ht hk hi) hc
    simp [LabelAhead, hm] at h
  | plain hk hi => exact .mk .nil (hi.not_labelAhead hc) (.plain hk hi) hc

/-- A label in front of labels is one more of them. -/
theorem Line.cons {t u : Token} {xs : List Item} {ts : List Token} (ht : t.kind = .ident)
    (hu : u.kind = .mark .colon) (ha : LabelAhead ts) (h : Line xs ts) :
    Line (.label ⟨t.text, t.pos⟩ :: xs) (t :: u :: ts) := by
  obtain @⟨ls, xs, c, us, ts, cs, hls, hmax, hxs, hc⟩ := h
  have hcons := SpellsLabels.cons ht hu hls
  cases hxs with
  | labels => exact .mk hcons hmax (.labels (_ :: ls)) hc
  | @labelled ls l i _ hi =>
    have hbody : SpellsBody c ((⟨t.text, t.pos⟩ :: ls) ++ [l]) _ ts := .labelled hi
    exact .mk hcons hmax hbody hc
  | keyword =>
    cases hls
    exact absurd ha hmax
  | plain =>
    cases hls
    exact absurd ha hmax

/-- Where no newline stands, lines are one line. -/
theorem Lines.line {xs : List Item} {ts : List Token} (h : Lines xs ts) (hc : CommentsEnd ts)
    (hts : ∀ t ∈ ts, ¬t.kind.IsEnd) : Line xs ts := by
  induction h with
  | nil =>
    show Line [] ([] ++ ([] ++ []))
    exact .mk .nil id (.labels []) .none
  | @skip t xs ts ht hxs ih =>
    obtain ⟨hend, hts⟩ := List.forall_mem_cons.1 hts
    have hk : t.kind = .comment := ht.resolve_left fun h => hend (.inl h)
    cases ts with
    | nil =>
      rw [hxs.eq_nil]
      show Line [] ([] ++ ([] ++ [t]))
      exact .mk .nil id (.labels []) (.some hk)
    | cons u us =>
      have hu : u.kind.IsEnd := (List.isChain_cons_cons.1 hc).1 hk
      exact absurd hu (hts u (by simp))
  | @label t u xs ts ht hu ha hxs ih =>
    exact .cons ht hu ha (ih hc.tail.tail fun t h => hts t (by simp [h]))
  | @statement c x xs us cs ts hx hcs hend hxs ih =>
    cases ts with
    | nil =>
      rw [hxs.eq_nil, List.append_nil]
      exact hx.line hcs
    | cons n ns => exact absurd (.inl (hend n rfl)) (hts n (by simp))

/-- A newline is a token only where one stands in the text. -/
theorem Partition.not_newline {before cs : List Char} {ts : List Token} (h : Partition before cs ts)
    (hcs : '\n' ∉ cs) : ∀ t ∈ ts, t.kind ≠ .newline := by
  induction h with
  | last hg => simp
  | @cons before gap l rest w ts hg hne hl he hts ih =>
    refine List.forall_mem_cons.2 ⟨fun hk => hcs ?_, ih fun h => hcs (by simp [h])⟩
    cases hl with
    | newline => simp
    | _ => cases hk

/-- A source of one line is parsed iff its tokens are a line of the grammar, and then it is the
program of the items of that line. -/
theorem parseSource_of_line (source : String) (ts : List Token) (e : Token)
    (hsource : '\n' ∉ source.toList) (hts : tokenize source = .ok (ts ++ [e])) (p : Program) :
    parseSource source = .ok p ↔ ∃ xs, Line xs ts ∧ p = .ofItems xs := by
  have hscan := tokenize_eq_ok.1 hts
  have hpartition : Partition [] source.toList (ts ++ [e]) := partition_of_scan hscan
  have hcomments := hpartition.commentsEnd
  obtain ⟨us, e', heq, he, hne⟩ := ended_of_scan hscan
  obtain ⟨rfl, heq⟩ := List.append_inj' heq rfl
  obtain rfl : e = e' := by simpa using heq
  have hend : ∀ t ∈ ts, ¬t.kind.IsEnd := by
    intro t ht hend
    exact hend.elim (hpartition.not_newline hsource t (by simp [ht])) (hne t ht)
  have hparse : parseSource source = .ok p ↔ parse (ts ++ [e]) = .ok p := by
    rw [parseSource_of_tokenize hts]
    cases parse (ts ++ [e]) <;> simp [Except.mapError]
  rw [hparse, parse_eq_ok_iff_lines hne he hcomments]
  have hlines (xs : List Item) : Lines xs ts ↔ Line xs ts :=
    ⟨fun h => h.line hcomments.left_of_append hend, Line.lines⟩
  simp only [hlines]

/-- Two labels, an instruction with two operands, and a comment. -/
theorem parseSource_of_line_of_labels :
    ∃ xs, Line xs
        [⟨⟨.ident, "a"⟩, ⟨1, 1⟩⟩, ⟨⟨.mark .colon, ":"⟩, ⟨1, 2⟩⟩, ⟨⟨.ident, "b"⟩, ⟨1, 3⟩⟩,
          ⟨⟨.mark .colon, ":"⟩, ⟨1, 4⟩⟩, ⟨⟨.ident, "mov"⟩, ⟨1, 6⟩⟩, ⟨⟨.register, "al"⟩, ⟨1, 10⟩⟩,
          ⟨⟨.mark .comma, ","⟩, ⟨1, 12⟩⟩, ⟨⟨.ident, "c"⟩, ⟨1, 14⟩⟩, ⟨⟨.comment, ";d"⟩, ⟨1, 16⟩⟩] ∧
      (⟨[.anchor ⟨"a", ⟨1, 1⟩⟩,
          { mnemonic := "MOV"
            operands := [⟨.register "al", none, ⟨1, 10⟩⟩, ⟨.labelRef "c", none, ⟨1, 14⟩⟩]
            label := some "b"
            comment := some ";d"
            pos := ⟨1, 6⟩ }], [⟨"a", ⟨1, 1⟩⟩, ⟨"b", ⟨1, 3⟩⟩]⟩ : Program) = .ofItems xs :=
  (parseSource_of_line "a:b: mov al, c ;d" _ ⟨⟨.eof, ""⟩, ⟨1, 18⟩⟩ (by decide)
    (by decide +kernel) _).1 (by decide +kernel)

end IntelAsm
