import IntelAsm.Proofs.Lexer.Lines
import IntelAsm.Proofs.Parser.Lockstep
import IntelAsm.Proofs.RoundTrip.ParsePrint
import IntelAsm.Proofs.RoundTrip.Parsed

/-!
# Programs of lines

A source may be cut at any newline: the program is that of the text in front of it, joined with that
of the text behind it (`parseSource_append_line`). A label that is still pending at the newline has
an anchor in the first program; in the whole it goes to the instruction that comes next, unless that
has a label of its own (`Program.join`).

Up to the newline the text and its first part are read in lockstep, since there the one sees the end
of a line and the other the end of its tokens. Behind it, reading starts anew.
-/

namespace IntelAsm

/-! ### Joining programs -/

namespace Program

/-- Instructions behind others: where those end with an anchor, its label goes to the next
instruction without one. -/
def joinInstructions (is js : List Instruction) : List Instruction :=
  match is.getLast?, js with
  | some i, j :: js' =>
    if i.isAnchor ∧ j.label = none then is.dropLast ++ { j with label := i.label } :: js'
    else is ++ js
  | _, _ => is ++ js

/-- A program behind another. -/
def join (p q : Program) : Program :=
  ⟨joinInstructions p.instructions q.instructions, p.labels ++ q.labels⟩

theorem joinInstructions_nil (is : List Instruction) : joinInstructions is [] = is := by
  unfold joinInstructions
  cases is.getLast? <;> simp

/-- An anchor at the end gives its label to the next instruction, unless that has one. -/
theorem joinInstructions_concat (is js : List Instruction) (i j : Instruction) :
    joinInstructions (is ++ [i]) (j :: js) =
      is ++ if i.isAnchor ∧ j.label = none then { j with label := i.label } :: js
        else i :: j :: js := by
  simp only [joinInstructions, List.getLast?_concat, List.dropLast_concat]
  split <;> simp

/-- Only the last of the instructions in front matters. -/
theorem joinInstructions_append {is : List Instruction} (his : is ≠ [])
    (before js : List Instruction) :
    joinInstructions (before ++ is) js = before ++ joinInstructions is js := by
  obtain ⟨init, i, rfl⟩ : ∃ init i, is = init ++ [i] :=
    ⟨_, _, (List.dropLast_concat_getLast his).symm⟩
  cases js with
  | nil => rw [joinInstructions_nil, joinInstructions_nil]
  | cons j js =>
    rw [← List.append_assoc, joinInstructions_concat, joinInstructions_concat, List.append_assoc]

/-- Only an anchor at the end hands its label on. -/
theorem joinInstructions_cons {i : Instruction} (hi : ¬i.isAnchor) (is js : List Instruction) :
    joinInstructions (i :: is) js = i :: joinInstructions is js := by
  cases is with
  | nil => cases js <;> simp [joinInstructions, hi]
  | cons k is => exact joinInstructions_append (by simp) [i] js

/-- A single anchor is replaced by the instruction that takes its label. -/
theorem joinInstructions_anchor (l : Label) (j : Instruction) (js : List Instruction) :
    joinInstructions [.anchor l] (j :: js) =
      if j.label = none then { j with label := some l.name } :: js
      else .anchor l :: j :: js := by
  simp [joinInstructions, Instruction.isAnchor, Instruction.anchor]

/-- Where a label is pending, the next instruction carries it. -/
theorem exists_instructionsFrom_some (l : Label) (xs : List Item) :
    ∃ i is, instructionsFrom (some l) xs = i :: is ∧ i.label = some l.name := by
  cases xs with
  | nil => exact ⟨_, _, rfl, rfl⟩
  | cons x xs => cases x <;> exact ⟨_, _, rfl, rfl⟩

section
variable {ts : List Token}

/-- A pending label goes to the first of the items behind it, or has its anchor in front of them. -/
theorem instructionsFrom_eq_join (pending : Option Label) {ys : List Item}
    (hys : ∀ y ∈ ys, y.From ts) : instructionsFrom pending ys =
      joinInstructions (anchors pending) (instructionsFrom none ys) := by
  cases pending with
  | none => simp [joinInstructions, anchors]
  | some l =>
    cases ys with
    | nil => exact (joinInstructions_nil _).symm
    | cons y ys =>
      obtain ⟨hy, -⟩ := List.forall_mem_cons.1 hys
      cases y with
      | label l' =>
        obtain ⟨j, js, hjs, hj⟩ := exists_instructionsFrom_some l' ys
        show .anchor l :: instructionsFrom (some l') ys =
          joinInstructions [.anchor l] (instructionsFrom (some l') ys)
        rw [hjs, joinInstructions_anchor, if_neg (by simp [hj])]
      | labelled l' i =>
        have hi : i.label = some l'.name := hy.2.label_eq
        show .anchor l :: i :: instructionsFrom none ys =
          joinInstructions [.anchor l] (i :: instructionsFrom none ys)
        rw [joinInstructions_anchor, if_neg (by simp [hi])]
      | plain i =>
        show { i with label := some l.name } :: instructionsFrom none ys =
          joinInstructions [.anchor l] ({ i with label := none } :: instructionsFrom none ys)
        rw [joinInstructions_anchor, if_pos rfl]

variable (hts : NamesApart ts)
include hts

/-- Items in two parts make the instructions of both, joined. -/
theorem instructionsFrom_append {xs ys : List Item} (hxs : ∀ x ∈ xs, x.From ts)
    (hys : ∀ y ∈ ys, y.From ts) (pending : Option Label) :
    instructionsFrom pending (xs ++ ys) =
      joinInstructions (instructionsFrom pending xs) (instructionsFrom none ys) := by
  induction xs generalizing pending with
  | nil => exact instructionsFrom_eq_join pending hys
  | cons x xs ih =>
    obtain ⟨hx, hrest⟩ := List.forall_mem_cons.1 hxs
    cases x with
    | label l =>
      obtain ⟨i, is, his, -⟩ := exists_instructionsFrom_some l xs
      show anchors pending ++ instructionsFrom (some l) (xs ++ ys) =
        joinInstructions (anchors pending ++ instructionsFrom (some l) xs) _
      rw [ih hrest, joinInstructions_append (by simp [his])]
    | labelled l i =>
      show anchors pending ++ i :: instructionsFrom none (xs ++ ys) =
        joinInstructions (anchors pending ++ i :: instructionsFrom none xs) _
      rw [ih hrest, joinInstructions_append (by simp),
        joinInstructions_cons (hx.2.not_isAnchor hts)]
    | plain i =>
      have hi : ¬Instruction.isAnchor { i with label := pending.map (·.name) } :=
        hx.not_isAnchor hts
      show _ :: instructionsFrom none (xs ++ ys) =
        joinInstructions (_ :: instructionsFrom none xs) _
      rw [ih hrest, joinInstructions_cons hi]

/-- Items behind others make a program behind another. -/
theorem ofItems_append {xs ys : List Item} (hxs : ∀ x ∈ xs, x.From ts)
    (hys : ∀ y ∈ ys, y.From ts) : ofItems (xs ++ ys) = (ofItems xs).join (ofItems ys) := by
  simp only [ofItems, join, instructionsFrom_append hts hxs hys, List.filterMap_append]

end

end Program

/-! ### Items of lines -/

namespace Parse

/-- Items in front of those that are read. -/
def prepend (xs : List Item) :
    EStateM.Result ParseError Cursor (List Item) → EStateM.Result ParseError Cursor (List Item)
  | .ok ys c => .ok (xs ++ ys) c
  | .error e c => .error e c

@[simp] theorem prepend_nil (r : EStateM.Result ParseError Cursor (List Item)) :
    prepend [] r = r := by
  cases r <;> rfl

@[simp] theorem prepend_prepend (xs ys : List Item)
    (r : EStateM.Result ParseError Cursor (List Item)) :
    prepend xs (prepend ys r) = prepend (xs ++ ys) r := by
  cases r <;> simp [prepend]

/-- An item that is read comes in front of the others. -/
theorem items_of_item {c c' : Cursor} {x : Item} (he : c.current.kind ≠ .eof)
    (hn : ¬(c.current.kind = .newline ∨ c.current.kind = .comment)) (h : item c = .ok x c') :
    items c = prepend [x] (items c') := by
  rw [items_eq, if_neg he, if_neg hn, h]
  cases hr : items c' <;> simp only [hr] <;> rfl

/-- An item that fails is the last. -/
theorem items_of_error {c c' : Cursor} {e : ParseError} (he : c.current.kind ≠ .eof)
    (hn : ¬(c.current.kind = .newline ∨ c.current.kind = .comment)) (h : item c = .error e c') :
    items c = .error e c' := by
  rw [items_eq, if_neg he, if_neg hn, h]

/-! ### Reading up to a newline or the end -/

/-- What is ahead behind a token at which a line ends: the end of the list is never passed. -/
def behindEnd (e : Token) (x : List Token) : List Token := if e.kind = .newline then x else e :: x

section
variable (e e' : Token) (x y : List Token)

/-- Two cursors with the same tokens ahead up to the ends `e` and `e'`. -/
def UpTo (c d : Cursor) : Prop :=
  ∃ us : List Token, (∀ t ∈ us, t.kind ≠ .eof) ∧ c.ahead = us ++ e :: x ∧ d.ahead = us ++ e' :: y

/-- Two cursors as before, or behind those ends. -/
def UpToOrBehind (c d : Cursor) : Prop :=
  UpTo e e' x y c d ∨ c.ahead = behindEnd e x ∧ d.ahead = behindEnd e' y

end

section
variable {e e' : Token} {x y : List Token} (he : e.kind.IsEnd) (he' : e'.kind.IsEnd)

theorem current_eq {c : Cursor} {t : Token} {ts : List Token} (h : c.ahead = t :: ts) :
    c.current = t := by
  simp [Cursor.current, Cursor.peek, h]

theorem ahead_advance {c : Cursor} {t : Token} {ts : List Token} (h : c.ahead = t :: ts) :
    c.advance.ahead = ts := by
  simp [Cursor.advance, h]

/-- The end of the list ends the items. -/
theorem items_of_ahead (he : e.kind = .eof) {c : Cursor} (h : c.ahead = behindEnd e x) :
    items c = .ok [] c := by
  have hend : behindEnd e x = e :: x := if_neg (by simp [he])
  exact items_of_eof (current_eq (h.trans hend) ▸ he)

theorem ahead_pastNewline {c : Cursor} (h : c.ahead = e :: x) :
    c.pastNewline.ahead = behindEnd e x := by
  unfold Cursor.pastNewline behindEnd
  rw [current_eq h]
  split
  · exact ahead_advance h
  · exact h

include he he' in
/-- Up to the ends both cursors see the same tokens. -/
theorem lockstep_upTo : Lockstep (UpTo e e' x y) (UpToOrBehind e e' x y) fun _ _ => True where
  view := by
    rintro c d ⟨us, hus, hc, hd⟩
    cases us with
    | nil =>
      refine .inr ⟨?_, ?_, .inr ⟨ahead_pastNewline hc, ahead_pastNewline hd⟩, fun _ => trivial⟩
      · rwa [current_eq hc]
      · rwa [current_eq hd]
    | cons t us =>
      obtain ⟨ht, hus⟩ := List.forall_mem_cons.1 hus
      refine .inl ⟨?_, ?_, us, hus, ahead_advance hc, ahead_advance hd⟩
      · rw [current_eq hc, current_eq hd]
      · rwa [current_eq hc]
  behind := .inl
  error_refl _ := trivial

/-- A newline in front of items makes no difference. -/
theorem items_pastNewline (c : Cursor) : items c = items c.pastNewline := by
  unfold Cursor.pastNewline
  split
  · next h => exact items_of_skip (.inl h)
  · rfl

include he he' in
/-- Up to the ends both cursors read the same items, or both fail. -/
theorem items_upTo {c d : Cursor} (h : UpToOrBehind e e' x y c d) :
    (∃ f c' f' d', items c = .error f c' ∧ items d = .error f' d') ∨
      ∃ xs c' d', c'.ahead = behindEnd e x ∧ d'.ahead = behindEnd e' y ∧
        items c = prepend xs (items c') ∧ items d = prepend xs (items d') := by
  -- by induction on the tokens ahead of the first cursor, one item or skipped token at a time
  generalize hn : c.ahead.length = n
  induction n using Nat.strongRecOn generalizing c d with
  | _ n ih =>
    rcases h with hupTo | ⟨hc, hd⟩
    · obtain ⟨us, hus, hc, hd⟩ := id hupTo
      cases us with
      | nil =>
        refine .inr ⟨[], c.pastNewline, d.pastNewline, ahead_pastNewline hc, ahead_pastNewline hd,
          ?_, ?_⟩
        · rw [prepend_nil, items_pastNewline]
        · rw [prepend_nil, items_pastNewline]
      | cons t us =>
        obtain ⟨ht, hus⟩ := List.forall_mem_cons.1 hus
        have hct : c.current = t := current_eq hc
        have hdt : d.current = t := current_eq hd
        have hlt : c.advance.ahead.length < n := hn ▸ Cursor.length_ahead_advance (hct ▸ ht)
        by_cases hs : t.kind = .newline ∨ t.kind = .comment
        · have hc' : items c = items c.advance := items_of_skip (hct ▸ hs)
          have hd' : items d = items d.advance := items_of_skip (hdt ▸ hs)
          rw [hc', hd']
          exact ih _ hlt (.inl ⟨us, hus, ahead_advance hc, ahead_advance hd⟩) rfl
        have hagree := (lockstep_upTo he he').agree_item hupTo
        cases hx : item c with
        | error f c' =>
          obtain ⟨f', d', hx', -⟩ := Agree.of_error (hx ▸ hagree)
          exact .inl ⟨f, c', f', d', items_of_error (hct ▸ ht) (hct ▸ hs) hx,
            items_of_error (hdt ▸ ht) (hdt ▸ hs) hx'⟩
        | ok z c' =>
          obtain ⟨d', hx', h'⟩ := Agree.of_ok (hx ▸ hagree)
          have hlt' : c'.ahead.length < n := hn ▸ advancing_item.consuming _ _ _ hx
          rw [items_of_item (hct ▸ ht) (hct ▸ hs) hx, items_of_item (hdt ▸ ht) (hdt ▸ hs) hx']
          rcases ih _ hlt' h' rfl with ⟨f, c'', f', d'', hf, hf'⟩ | ⟨xs, c'', d'', h1, h2, h3, h4⟩
          · exact .inl ⟨f, c'', f', d'', by rw [hf]; rfl, by rw [hf']; rfl⟩
          · exact .inr ⟨z :: xs, c'', d'', h1, h2, by rw [h3, prepend_prepend]; rfl,
              by rw [h4, prepend_prepend]; rfl⟩
    · exact .inr ⟨[], c, d, hc, hd, (prepend_nil _).symm, (prepend_nil _).symm⟩

end

end Parse

/-! ### Programs of lines of tokens -/

/-- Tokens up to an end marker. -/
def Ended (ts : List Token) : Prop :=
  ∃ us e, ts = us ++ [e] ∧ e.kind = .eof ∧ ∀ t ∈ us, t.kind ≠ .eof

/-- The items of tokens do not depend on what has been passed in front of them. -/
theorem Parse.agree_items {ts : List Token} (hts : Ended ts) {c d : Cursor} (hc : c.ahead = ts)
    (hd : d.ahead = ts) : Agree (fun _ _ => True) (fun _ _ => True) (items c) (items d) := by
  obtain ⟨us, e, rfl, he, hus⟩ := hts
  rcases items_upTo (.inr he) (.inr he) (.inl ⟨us, hus, hc, hd⟩) with
    ⟨f, c', f', d', hf, hf'⟩ | ⟨xs, c', d', hc', hd', hxs, hxs'⟩
  · rw [hf, hf']
    trivial
  · rw [hxs, hxs', items_of_ahead he hc', items_of_ahead he hd']
    exact ⟨rfl, trivial⟩

section
variable {us vs : List Token} {e n : Token} (hus : ∀ t ∈ us, t.kind ≠ .eof) (he : e.kind = .eof)
  (hn : n.kind = .newline) (hvs : Ended vs)
include hus he hn hvs

/-- The items of lines are those in front of a newline and those behind it. -/
theorem Parse.items_append_line {zs : List Item} :
    (∃ c, items (.ofTokens (us ++ n :: vs)) = .ok zs c) ↔
      ∃ xs ys c d, items (.ofTokens (us ++ [e])) = .ok xs c ∧ items (.ofTokens vs) = .ok ys d ∧
        zs = xs ++ ys := by
  have hline : behindEnd n vs = vs := if_pos hn
  have hupTo : UpTo e n [] vs (.ofTokens (us ++ [e])) (.ofTokens (us ++ n :: vs)) :=
    ⟨us, hus, rfl, rfl⟩
  rcases items_upTo (.inr he) (.inl hn) (.inl hupTo) with
    ⟨f, c', f', d', hf, hf'⟩ | ⟨xs, c', d', hc', hd', hxs, hzs⟩
  · simp [hf, hf']
  have hagree := agree_items hvs (hd'.trans hline) (d := .ofTokens vs) rfl
  rw [hxs, hzs, items_of_ahead he hc']
  cases hys : items d' with
  | ok ys d'' =>
    obtain ⟨d3, hys', -⟩ := Agree.of_ok (hys ▸ hagree)
    simp [prepend, hys', eq_comm]
  | error f d'' =>
    obtain ⟨f', d3, hf', -⟩ := Agree.of_error (hys ▸ hagree)
    simp [prepend, hf']

/-- Lines form the program of those in front of a newline, joined with that of those behind it. -/
theorem parse_append_line (hts : NamesApart (us ++ n :: vs)) {r : Program} :
    parse (us ++ n :: vs) = .ok r ↔
      ∃ p q, parse (us ++ [e]) = .ok p ∧ parse vs = .ok q ∧ r = p.join q := by
  have hitems := @Parse.items_append_line us vs e n hus he hn hvs
  simp only [parse_eq_ok_iff]
  have hjoin {xs ys : List Item} {c : Cursor}
      (h : Parse.items (.ofTokens (us ++ n :: vs)) = .ok (xs ++ ys) c) :
      Program.ofItems (xs ++ ys) = (Program.ofItems xs).join (.ofItems ys) := by
    obtain ⟨-, hfrom⟩ := Parse.reads_items.of_ok rfl h
    exact Program.ofItems_append hts (fun x hx => hfrom x (by simp [hx]))
      fun y hy => hfrom y (by simp [hy])
  constructor
  · rintro ⟨zs, c, hzs, rfl⟩
    obtain ⟨xs, ys, c', d', hxs, hys, rfl⟩ := hitems.1 ⟨c, hzs⟩
    exact ⟨_, _, ⟨xs, c', hxs, rfl⟩, ⟨ys, d', hys, rfl⟩, hjoin hzs⟩
  · rintro ⟨p, q, ⟨xs, c', hxs, rfl⟩, ⟨ys, d', hys, rfl⟩, rfl⟩
    obtain ⟨c, hzs⟩ := hitems.2 ⟨xs, ys, c', d', hxs, hys, rfl⟩
    exact ⟨xs ++ ys, c, hzs, (hjoin hzs).symm⟩

end

/-! ### Programs of lines of a source -/

section
open Respelling (unplaced)

/-- What changes instructions but not the labels they carry may be done before or after joining. -/
theorem map_joinInstructions {g : Instruction → Instruction} (hlabel : ∀ i, (g i).label = i.label)
    (hanchor : ∀ i, (g i).isAnchor = i.isAnchor)
    (hset : ∀ i l, g { i with label := l } = { g i with label := l }) (is js : List Instruction) :
    (Program.joinInstructions is js).map g = Program.joinInstructions (is.map g) (js.map g) := by
  cases js with
  | nil => rw [List.map_nil, Program.joinInstructions_nil, Program.joinInstructions_nil]
  | cons j js =>
    unfold Program.joinInstructions
    rw [List.getLast?_map, List.map_cons]
    cases is.getLast? with
    | none => simp
    | some i =>
      simp only [Option.map_some, hanchor, hlabel]
      split
      · rw [List.map_append, List.map_dropLast, List.map_cons, hset]
      · rw [List.map_append, List.map_cons]

/-- Programs may be joined before or after their places are forgotten. -/
theorem unplaced_join (p q : Program) :
    unplaced.program (p.join q) = (unplaced.program p).join (unplaced.program q) := by
  have hinstructions := map_joinInstructions (g := unplaced.instruction)
    (fun i => by simp [Respelling.instruction]) (fun _ => rfl)
    (fun i l => by simp [Respelling.instruction]) p.instructions q.instructions
  simp [Program.join, Respelling.program, hinstructions]

/-- Tokens with the same words form the same program, places aside. -/
theorem exists_parse_of_words {ts us : List Token} (h : us.map (·.toWord) = ts.map (·.toWord))
    {p : Program} (hp : parse ts = .ok p) :
    ∃ q, parse us = .ok q ∧ unplaced.program q = unplaced.program p := by
  have hunplaced := parse_unplaced us
  rw [h, parse_unplaced, hp] at hunplaced
  cases hq : parse us with
  | error e =>
    rw [hq] at hunplaced
    cases hunplaced
  | ok q =>
    rw [hq] at hunplaced
    exact ⟨q, rfl, (Except.ok.inj hunplaced).symm⟩

end

/-- A text has the same words wherever it starts. -/
theorem exists_scan_at {p : Pos} {cs : List Char} {ts : List Token} (h : scan p cs = .ok ts)
    (q : Pos) : ∃ us, scan q cs = .ok us ∧ us.map (·.toWord) = ts.map (·.toWord) := by
  have hwords : withoutPlaces (scan q cs) = withoutPlaces (scan p cs) := by
    rw [words_eq, words_eq]
  rw [h] at hwords
  cases hus : scan q cs with
  | error e =>
    rw [hus] at hwords
    cases hwords
  | ok us =>
    rw [hus] at hwords
    exact ⟨us, rfl, Except.ok.inj hwords⟩

/-- The tokens of a source have their only end marker at the end. -/
theorem ended_of_scan {p : Pos} {cs : List Char} {ts : List Token} (h : scan p cs = .ok ts) :
    Ended ts := by
  obtain ⟨us, rfl, hus⟩ := lexed_of_scan h
  exact ⟨us, _, rfl, rfl, fun t ht => (hus t ht).kind_ne_eof⟩

/-- The tokens of two parts, with a newline between them, are those of both. -/
theorem scan_line_eq_ok {p : Pos} {cs bs : List Char} {ts : List Token} :
    scan p (cs ++ '\n' :: bs) = .ok ts ↔
      ∃ us vs, scan p cs = .ok us ∧ scan ((p.afterAll cs).after '\n') bs = .ok vs ∧
        ts = us.dropLast ++ ⟨⟨.newline, "\n"⟩, p.afterAll cs⟩ :: vs := by
  rw [scan_append_newline]
  cases scan p cs with
  | error e => simp [Except.bind]
  | ok us =>
    cases scan ((p.afterAll cs).after '\n') bs <;> simp [Except.bind, Except.map, eq_comm]

theorem parseSource_eq_ok {source : String} {ts : List Token} {p : Program}
    (hts : scan .start source.toList = .ok ts) (hp : parse ts = .ok p) :
    parseSource source = .ok p := by
  rw [parseSource_of_tokenize (tokenize_eq_ok.2 hts), hp]
  rfl

/-- The tokens in front of a newline and those behind it form programs, which are joined. -/
theorem exists_tokens_of_parseSource_lines {a b : String} {r : Program}
    (h : parseSource (a ++ "\n" ++ b) = .ok r) :
    ∃ us vs p q, scan .start a.toList = .ok us ∧
      scan ((Pos.start.afterAll a.toList).after '\n') b.toList = .ok vs ∧
      parse us = .ok p ∧ parse vs = .ok q ∧ r = p.join q := by
  obtain ⟨ts, htokenize, hr⟩ := exists_of_parseSource h
  have hnames : NamesApart ts := namesApart (fromLexer_of_tokenize htokenize)
  rw [tokenize_eq_ok, toList_append_newline] at htokenize
  obtain ⟨_, vs, hus, hvs, rfl⟩ := scan_line_eq_ok.1 htokenize
  obtain ⟨us, e, rfl, he, hne⟩ := ended_of_scan hus
  rw [List.dropLast_concat] at hnames hr
  obtain ⟨p, q, hp, hq, rfl⟩ :=
    (parse_append_line hne he rfl (ended_of_scan hvs) hnames).1 hr
  exact ⟨_, vs, p, q, hus, hvs, hp, hq, rfl⟩

/-- What is parsed as a whole is parsed line by line. -/
theorem exists_of_parseSource_lines {a b : String} {r : Program}
    (h : parseSource (a ++ "\n" ++ b) = .ok r) :
    ∃ p q, parseSource a = .ok p ∧ parseSource b = .ok q ∧ r.toNode.same (p.join q).toNode := by
  obtain ⟨us, vs, p, q', hus, hvs, hp, hq', rfl⟩ := exists_tokens_of_parseSource_lines h
  -- the words behind the newline are those of the second text, at other places
  obtain ⟨ws, hws, hwords⟩ := exists_scan_at hvs .start
  obtain ⟨q, hq, hsame⟩ := exists_parse_of_words hwords hq'
  refine ⟨p, q, parseSource_eq_ok hus hp, parseSource_eq_ok hws hq, ?_⟩
  rw [program_same_iff, unplaced_join, unplaced_join, hsame]

/-- What is parsed line by line is parsed as a whole. -/
theorem exists_parseSource_lines {a b : String} {p q : Program} (hp : parseSource a = .ok p)
    (hq : parseSource b = .ok q) : ∃ r, parseSource (a ++ "\n" ++ b) = .ok r := by
  obtain ⟨_, hus, hp⟩ := exists_of_parseSource hp
  obtain ⟨ws, hws, hq⟩ := exists_of_parseSource hq
  rw [tokenize_eq_ok] at hus hws
  obtain ⟨us, e, rfl, he, hne⟩ := ended_of_scan hus
  obtain ⟨vs, hvs, hwords⟩ := exists_scan_at hws ((Pos.start.afterAll a.toList).after '\n')
  obtain ⟨q', hq', -⟩ := exists_parse_of_words hwords hq
  have hscan := scan_line_eq_ok.2 ⟨_, vs, hus, hvs, rfl⟩
  rw [← toList_append_newline, List.dropLast_concat] at hscan
  have hnames := namesApart (fromLexer_of_tokenize (tokenize_eq_ok.2 hscan))
  exact ⟨_, parseSource_eq_ok hscan
    ((parse_append_line hne he rfl (ended_of_scan hvs) hnames).2 ⟨p, q', hp, hq', rfl⟩)⟩

/-- Parsing goes line by line: two texts with a newline between them form a program iff both do, and
then the two programs joined, places aside. -/
theorem parseSource_append_line (a b : String) :
    ((∃ r, parseSource (a ++ "\n" ++ b) = .ok r) ↔
      (∃ p, parseSource a = .ok p) ∧ ∃ q, parseSource b = .ok q) ∧
    ∀ p q r, parseSource a = .ok p → parseSource b = .ok q →
      parseSource (a ++ "\n" ++ b) = .ok r → r.toNode.same (p.join q).toNode := by
  refine ⟨⟨?_, ?_⟩, ?_⟩
  · rintro ⟨r, hr⟩
    obtain ⟨p, q, hp, hq, -⟩ := exists_of_parseSource_lines hr
    exact ⟨⟨p, hp⟩, q, hq⟩
  · rintro ⟨⟨p, hp⟩, q, hq⟩
    exact exists_parseSource_lines hp hq
  · intro p q r hp hq hr
    obtain ⟨p', q', hp', hq', hsame⟩ := exists_of_parseSource_lines hr
    rw [hp] at hp'
    rw [hq] at hq'
    cases hp'
    cases hq'
    exact hsame

/-- The label of the first line goes to the instruction of the second. -/
theorem parseSource_append_line_of_pending :
    ∃ r, parseSource ("x:" ++ "\n" ++ "ret") = .ok r ∧
      r.toNode.same
        (Program.join ⟨[.anchor ⟨"x", ⟨1, 1⟩⟩], [⟨"x", ⟨1, 1⟩⟩]⟩
          ⟨[⟨"RET", [], none, none, none, ⟨1, 1⟩⟩], []⟩).toNode := by
  have hp : parseSource "x:" = .ok ⟨[.anchor ⟨"x", ⟨1, 1⟩⟩], [⟨"x", ⟨1, 1⟩⟩]⟩ := by
    decide +kernel
  have hq : parseSource "ret" = .ok ⟨[⟨"RET", [], none, none, none, ⟨1, 1⟩⟩], []⟩ := by
    decide +kernel
  have hr : parseSource ("x:" ++ "\n" ++ "ret") =
      .ok ⟨[⟨"RET", [], some "x", none, none, ⟨2, 1⟩⟩], [⟨"x", ⟨1, 1⟩⟩]⟩ := by
    decide +kernel
  exact ⟨_, hr, (parseSource_append_line "x:" "ret").2 _ _ _ hp hq hr⟩

end IntelAsm
