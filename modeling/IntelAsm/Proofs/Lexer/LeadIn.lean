import IntelAsm.Lexer.LeadIn
import IntelAsm.Proofs.Lexer.Speculation

/-!
# What a cursor in front of its text takes

A cursor that starts in front of its text takes the end of the text once more, and then the text
itself (`LeadIn.chars`). Taking one character goes one position on, wherever the cursor stands
(`LeadIn.next_eq_ok`), so characters taken one by one are those in front of which it stands
(`LeadIn.Takes.chars_eq`). A reader that begins in a lead-in takes all of it (`LeadIn.takes_token`),
and an action of the lexer does not depend on how much of the lead-in was taken before
(`LeadIn.Takes.toLexer_eq`).

A snapshot puts a cursor back just where it was (`LeadIn.restore_snapshot`): what it leaves out, the
lead-in, is found again from the position. This needs the parts of a cursor to fit together
(`LeadIn.Sound`), as they do at the start and after every action.
-/

namespace IntelAsm.LeadIn

variable {α : Type} {l l' : LeadIn}

/-! ### Streams without a lead-in -/

/-- A result of the lexer as one on a stream with a lead-in. -/
def ofLexer : EStateM.Result StreamError Stream α → EStateM.Result LeadInError LeadIn α
  | .ok a s => .ok a { stream := s }
  | .error e s => .error (.stream e) { stream := s }

/-- Without a lead-in an action is that of the lexer. -/
theorem toLexer_stream (action : Lexer α) (s : Stream) :
    toLexer action { stream := s } = ofLexer (action s) := by
  unfold toLexer
  rw [if_neg (Nat.lt_irrefl 0)]
  show (match action s with
    | .ok a s => (.ok a { stream := s } : EStateM.Result LeadInError LeadIn α)
    | .error e s => .error (.stream e) { stream := s }) = _
  cases action s <;> rfl

theorem next_stream (s : Stream) : next { stream := s } = ofLexer (Lexer.next s) :=
  toLexer_stream Lexer.next s

theorem matchWord_stream (word : String) (s : Stream) :
    matchWord word { stream := s } = ofLexer (Lexer.matchWord word s) := by
  unfold matchWord
  rw [toLexer_stream]
  unfold Lexer.matchWord
  cases Lexeme.wordAhead word.toList s.ahead <;> rfl

/-- So is a reader, if it is that of the lexer where there is no lead-in. -/
theorem token_stream {reader : List Char → List Char → Reading Word}
    {reader' : List Char → Reading Word} (h : reader [] = reader') (s : Stream) :
    token reader { stream := s } = ofLexer (Lexer.token reader' s) := by
  unfold token
  rw [toLexer_stream, h, Lexer.token_eq]
  unfold Lexer.read
  dsimp only
  cases (reader' s.ahead).outcome <;> rfl

theorem prepend_nil (r : Reading Word) : prepend [] r = r := by
  obtain ⟨outcome, n⟩ := r
  cases outcome with
  | found w => simp [prepend]
  | _ => rfl

theorem comment_nil : comment [] = Lexeme.comment := funext fun _ => prepend_nil _

theorem number_nil : number [] = Lexeme.number := funext fun _ => prepend_nil _

theorem hexNumber_nil : hexNumber [] = Lexeme.hexNumber := by
  funext cs
  match cs with
  | [] | [_] => rfl
  | x :: y :: cs =>
    have hlength (n : Nat) : 2 + n = n + 2 := Nat.add_comm 2 n
    simp [hexNumber, Lexeme.hexNumber, hlength]

theorem string_nil : string [] = Lexeme.string := rfl

/-- Without a lead-in the readers are those of the lexer. -/
theorem readers_stream (s : Stream) :
    token comment { stream := s } = ofLexer (Lexer.token Lexeme.comment s) ∧
      token number { stream := s } = ofLexer (Lexer.token Lexeme.number s) ∧
      token hexNumber { stream := s } = ofLexer (Lexer.token Lexeme.hexNumber s) ∧
      token string { stream := s } = ofLexer (Lexer.token Lexeme.string s) ∧
      identifier { stream := s } = ofLexer (Lexer.token Lexeme.identifier s) :=
  ⟨token_stream comment_nil s, token_stream number_nil s, token_stream hexNumber_nil s,
    token_stream string_nil s, toLexer_stream (Lexer.token Lexeme.identifier) s⟩

/-! ### Taking characters -/

/-- The characters that are taken from a cursor to the end: its lead-in, and the text behind. -/
def chars (l : LeadIn) : List Char := l.lead ++ l.stream.ahead

/-- A cursor that is put `n` positions in front of a text takes the last `n` characters first. -/
theorem chars_ofPosition {source : List Char} {n : Nat} (hn : 0 < n) (place : Pos) :
    (ofPosition source (-n) place).chars = source.drop (source.length - n) ++ source := by
  have hneg : ¬(0 : Int) ≤ -n := by omega
  rw [ofPosition, if_neg hneg, Int.natAbs_neg, Int.natAbs_natCast]
  rfl

/-- Too far in front of the text nothing can be done, and the cursor stays there. -/
theorem toLexer_of_distance (h : 0 < l.distance) (action : Lexer α) :
    toLexer action l = .error .outOfText l := if_pos h

theorem next_of_distance (h : 0 < l.distance) : next l = .error .outOfText l := by
  obtain ⟨_ | n, lead, s⟩ := l
  · cases h
  · exact toLexer_of_distance h Lexer.next

/-- How a character is taken: it is the first of the lead-in, or there is no lead-in and it is the
first of the text ahead. -/
theorem next_cases {c : Char} (h : next l = .ok c l') :
    l.distance = 0 ∧
      ((∃ cs, l.lead = c :: cs ∧
          l' = { lead := cs, stream := { l.stream with place := l.stream.place.after c } }) ∨
        ∃ cs, l.lead = [] ∧ l.stream.ahead = c :: cs ∧ l' = { stream := l.stream.skip 1 }) := by
  obtain ⟨_ | n, _ | ⟨d, lead⟩, s⟩ := l
  · rw [next_stream] at h
    unfold Lexer.next Stream.next? at h
    cases hs : s.ahead with
    | nil =>
      rw [hs] at h
      cases h
    | cons d ds =>
      rw [hs] at h
      cases h
      exact ⟨rfl, .inr ⟨ds, rfl, rfl, rfl⟩⟩
  · cases h
    exact ⟨rfl, .inl ⟨lead, rfl, rfl⟩⟩
  · rw [next_of_distance (Nat.succ_pos n)] at h
    cases h
  · rw [next_of_distance (Nat.succ_pos n)] at h
    cases h

/-- What one character taken says of the cursor before and after: it stood in front of the character
and stands one position further on. -/
theorem next_eq_ok {c : Char} (h : next l = .ok c l') :
    l.distance = 0 ∧ l'.distance = 0 ∧ l.chars = c :: l'.chars ∧ l'.position = l.position + 1 ∧
      l'.stream.place = l.stream.place.after c := by
  obtain ⟨hdistance, ⟨cs, hlead, rfl⟩ | ⟨cs, hlead, hahead, rfl⟩⟩ := next_cases h
  · refine ⟨hdistance, rfl, by simp [chars, hlead], ?_, rfl⟩
    simp only [position, hlead, hdistance, List.length_cons]
    omega
  · exact ⟨hdistance, rfl, by simp [chars, hlead, hahead],
      by simp [position, hlead, hdistance, hahead, Stream.skip],
      by simp [hahead, Stream.skip, Pos.afterAll]⟩

/-- Taking characters one by one leads from one cursor to another. -/
inductive Takes : LeadIn → List Char → LeadIn → Prop where
  | none {l : LeadIn} : Takes l [] l
  | more {l l' l'' : LeadIn} {c : Char} {cs : List Char} (h : next l = .ok c l')
      (hcs : Takes l' cs l'') : Takes l (c :: cs) l''

theorem Takes.append {l'' : LeadIn} {cs ds : List Char} (hcs : l.Takes cs l')
    (hds : l'.Takes ds l'') : l.Takes (cs ++ ds) l'' := by
  induction hcs with
  | none => exact hds
  | more h _ ih => exact .more h (ih hds)

/-- The characters taken are those in front of which the cursor stood, and the cursor has moved over
them. -/
theorem Takes.chars_eq {cs : List Char} (h : l.Takes cs l') :
    l.chars = cs ++ l'.chars ∧ l'.position = l.position + cs.length ∧
      l'.stream.place = l.stream.place.afterAll cs := by
  induction h with
  | none => exact ⟨rfl, by simp, rfl⟩
  | more hnext _ ih =>
    obtain ⟨-, -, hchars, hposition, hplace⟩ := next_eq_ok hnext
    obtain ⟨hchars', hposition', hplace'⟩ := ih
    refine ⟨by rw [hchars, hchars', List.cons_append], ?_, ?_⟩
    · rw [hposition', hposition, List.length_cons]
      omega
    · rw [hplace', hplace, Pos.afterAll, Pos.afterAll, List.foldl_cons]

/-- The text of a stream is taken character by character. -/
theorem takes_skip (s : Stream) (n : Nat) :
    Takes { stream := s } (s.ahead.take n) { stream := s.skip n } := by
  induction n generalizing s with
  | zero =>
    rw [s.skip_zero, List.take_zero]
    exact .none
  | succ n ih =>
    cases hs : s.ahead with
    | nil =>
      have hskip : s.skip (n + 1) = s := by
        ext1
        · rfl
        · simp [Stream.skip, hs]
        · simp [Stream.skip, hs]
      rw [hskip]
      exact .none
    | cons c cs =>
      have hnext : next { stream := s } = .ok c { stream := s.skip 1 } := by
        rw [next_stream, Lexer.next, Stream.next?, hs]
        rfl
      have hrest := ih (s.skip 1)
      rw [Stream.skip_skip, Nat.add_comm, Stream.ahead_skip, hs] at hrest
      exact .more hnext hrest

theorem next_lead {c : Char} {cs : List Char} (h : l.distance = 0) (hlead : l.lead = c :: cs) :
    next l = .ok c { lead := cs, stream := { l.stream with place := l.stream.place.after c } } := by
  obtain ⟨_, _, s⟩ := l
  cases h
  cases hlead
  rfl

/-- A lead-in is taken character by character. -/
theorem takes_lead (h : l.distance = 0) : l.Takes l.lead { stream := l.behindLead } := by
  obtain ⟨_, lead, s⟩ := l
  cases h
  induction lead generalizing s with
  | nil => exact .none
  | cons c cs ih => exact .more (next_lead rfl rfl) (ih { s with place := s.place.after c })

/-- All characters in front of which a cursor stands can be taken. -/
theorem exists_takes_chars (h : l.distance = 0) : ∃ l', l.Takes l.chars l' ∧ l'.atEnd := by
  have hskip := takes_skip l.behindLead l.stream.ahead.length
  rw [behindLead, List.take_length] at hskip
  exact ⟨_, (takes_lead h).append hskip, by simp [atEnd, isInText, Stream.atEnd]⟩

/-- Whatever of the lead-in was taken, an action of the lexer comes to the same. -/
theorem Takes.toLexer_eq {cs : List Char} (h : l.Takes cs l') (hcs : cs <+: l.lead)
    (action : Lexer α) : toLexer action l' = toLexer action l := by
  induction h with
  | none => rfl
  | @more l l' l'' c cs hnext _ ih =>
    obtain ⟨ds, hlead⟩ := hcs
    obtain ⟨hdistance, -⟩ := next_eq_ok hnext
    rw [next_lead hdistance hlead.symm] at hnext
    cases hnext
    rw [ih ⟨ds, rfl⟩]
    -- both stand in front of the same stream once the lead-in is taken
    unfold toLexer behindLead
    rw [hdistance, ← hlead]
    rfl

/-- The cursor that an action leaves behind. -/
def cursorOf : EStateM.Result LeadInError LeadIn α → LeadIn
  | .ok _ l => l
  | .error _ l => l

/-- A reader takes the whole lead-in, and then what it takes of the text. -/
theorem takes_token (h : l.distance = 0) (reader : List Char → List Char → Reading Word) :
    l.Takes (l.lead ++ l.stream.ahead.take (reader l.lead l.stream.ahead).length)
      (cursorOf (token reader l)) := by
  have hcursor : cursorOf (token reader l) =
      { stream := l.behindLead.skip (reader l.lead l.stream.ahead).length } := by
    unfold token toLexer
    rw [h, if_neg (Nat.lt_irrefl 0), Lexer.token_eq]
    unfold Lexer.read behindLead
    dsimp only
    cases (reader l.lead l.stream.ahead).outcome <;> rfl
  rw [hcursor]
  exact (takes_lead h).append (takes_skip l.behindLead _)

/-! ### Snapshots -/

/-- What fits together in a cursor: its lead-in is the end of the text, and all of it where there is
nothing to take, and the stream has not moved as long as something stands in front of it. -/
structure Sound (l : LeadIn) : Prop where
  lead_suffix : l.lead <:+ l.stream.source
  lead_eq : 0 < l.distance → l.lead = l.stream.source
  position_eq : l.isInText = false → l.stream.position = 0

theorem sound_stream (s : Stream) : Sound { stream := s } :=
  ⟨List.nil_suffix, nofun, nofun⟩

/-- A cursor at any position of a text is sound. -/
theorem sound_ofPosition (source : List Char) (position : Int) (place : Pos) :
    (ofPosition source position place).Sound := by
  unfold ofPosition
  split
  · exact sound_stream _
  · refine ⟨List.drop_suffix _ _, fun hdistance => ?_, fun _ => rfl⟩
    have hzero : source.length - position.natAbs = 0 := by
      dsimp only at hdistance
      omega
    simp [hzero]

/-- Taking a character keeps a cursor sound, and in its text. -/
theorem Sound.next {c : Char} (hl : l.Sound) (h : next l = .ok c l') :
    l'.Sound ∧ l'.stream.source = l.stream.source := by
  obtain ⟨-, ⟨cs, hlead, rfl⟩ | ⟨cs, -, -, rfl⟩⟩ := next_cases h
  · have hposition : l.stream.position = 0 := hl.position_eq (by simp [isInText, hlead])
    have hsuffix : cs <:+ l.lead := hlead ▸ List.suffix_cons c cs
    exact ⟨⟨hsuffix.trans hl.lead_suffix, nofun, fun _ => hposition⟩, rfl⟩
  · exact ⟨sound_stream _, rfl⟩

/-- So does taking any number of them. -/
theorem Takes.sound {cs : List Char} (h : l.Takes cs l') (hl : l.Sound) :
    l'.Sound ∧ l'.stream.source = l.stream.source := by
  induction h with
  | none => exact ⟨hl, rfl⟩
  | more hnext _ ih =>
    obtain ⟨hl', hsource⟩ := hl.next hnext
    obtain ⟨hl'', hsource'⟩ := ih hl'
    exact ⟨hl'', hsource'.trans hsource⟩

/-- A cursor in its text is found again from its position. -/
theorem ofPosition_stream (s : Stream) :
    ofPosition s.source s.position s.place = { stream := s } := by
  have hstream :
      { source := s.source, position := (s.position : Int).toNat, place := s.place } = s := by
    ext1
    · rfl
    · exact Int.toNat_natCast s.position
    · rfl
  rw [ofPosition, if_pos (Int.natCast_nonneg _), hstream]

/-- In front of a text the position tells the lead-in. -/
theorem Sound.lead_of_position (hl : l.Sound) :
    l.lead.length + l.distance - l.stream.source.length = l.distance ∧
      l.stream.source.drop (l.stream.source.length - (l.lead.length + l.distance)) = l.lead := by
  obtain ⟨hsuffix, hwhole, -⟩ := hl
  have hle := hsuffix.length_le
  rcases Nat.eq_zero_or_pos l.distance with hdistance | hdistance
  · rw [hdistance, Nat.add_zero]
    exact ⟨by omega, (List.suffix_iff_eq_drop.1 hsuffix).symm⟩
  · rw [hwhole hdistance]
    have hzero : l.stream.source.length - (l.stream.source.length + l.distance) = 0 := by omega
    exact ⟨by omega, by rw [hzero, List.drop_zero]⟩

/-- A cursor is found again from its position and its place. -/
theorem Sound.ofPosition_eq (hl : l.Sound) :
    ofPosition l.stream.source l.position l.stream.place = l := by
  obtain ⟨hdistance, hlead⟩ := hl.lead_of_position
  have hposition := hl.position_eq
  obtain ⟨distance, lead, s⟩ := l
  dsimp only at hdistance hlead hposition
  cases hin : isInText ⟨distance, lead, s⟩ with
  | true =>
    obtain ⟨rfl, rfl⟩ : distance = 0 ∧ lead = [] := by simpa [isInText] using hin
    exact ofPosition_stream s
  | false =>
    have hzero : s.position = 0 := hposition hin
    have hfront : lead.length + distance ≠ 0 := by
      intro h
      obtain ⟨hnil, rfl⟩ := Nat.add_eq_zero_iff.1 h
      rw [List.eq_nil_of_length_eq_zero hnil] at hin
      cases hin
    have hnat : position ⟨distance, lead, s⟩ = -(lead.length + distance : Nat) := by
      simp only [position, hzero]
      omega
    have hneg : ¬(0 : Int) ≤ -(lead.length + distance : Nat) := by omega
    have hstream : { source := s.source, place := s.place } = s := by
      ext1
      · rfl
      · exact hzero.symm
      · rfl
    rw [hnat, ofPosition, if_neg hneg, Int.natAbs_neg, Int.natAbs_natCast]
    dsimp only
    rw [hdistance, hlead, hstream]

/-- Whatever was taken since, a snapshot puts a cursor back where it was. -/
theorem restore_snapshot {cs : List Char} (hl : l.Sound) (h : l.Takes cs l') :
    l'.restore l.snapshot = l := by
  obtain ⟨-, hsource⟩ := h.sound hl
  rw [restore, hsource]
  exact hl.ofPosition_eq

end IntelAsm.LeadIn
