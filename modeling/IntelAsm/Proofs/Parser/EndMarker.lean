import IntelAsm.Proofs.Parser.Lockstep
import IntelAsm.Proofs.Respelling.Program
import Mathlib.Data.List.Basic

/-!
# The end of the tokens

Behind the last token of a list the parser sees an end marker at the place of that token. If such a
marker stands in the list, the parser sees the same, and it never looks at what is behind: a list
without a marker forms the same program, or shows the same error, as the list with a marker and any
tokens behind it (`parse_append_eof`).

Cursors in the two lists are in lockstep up to the marker (`lockstep_ending`). The text of the
marker plays no part, since messages do not show it; this is a respelling (`endsBlank`).
-/

namespace IntelAsm

/-- The place of the last token. -/
def endPlace (ts : List Token) : Pos := (ts.getLast?.map (·.pos)).getD {}

/-- What an error says of the fault, and its place. -/
def ParseError.report (e : ParseError) : String × Pos := (e.fault.message, e.pos)

/-! ### Cursors in a list and in the list with an end marker -/

namespace Parse

theorem endMarker_ofTokens {ts : List Token} (hts : ∀ t ∈ ts, t.kind ≠ .eof) :
    (Cursor.ofTokens ts).endMarker = ⟨⟨.eof, ""⟩, endPlace ts⟩ := by
  have hlast : (Cursor.ofTokens ts).last? = ts.getLast? := by
    simp [Cursor.last?, Cursor.ofTokens]
  unfold Cursor.endMarker endPlace
  rw [hlast]
  cases h : ts.getLast? with
  | none => rfl
  | some t => exact if_neg (hts t (List.mem_of_getLast? h))

/-- The first cursor sees `m` behind the last token of its list. At the second, `m` and `junk` are
ahead behind the same tokens. -/
structure Ending (m : Token) (junk : List Token) (c d : Cursor) : Prop where
  marker : c.endMarker = m
  no_marker : ∀ t ∈ c.ahead, t.kind ≠ .eof
  ahead : d.ahead = c.ahead ++ m :: junk

variable {m : Token} {junk : List Token} {c d : Cursor}

theorem Ending.current_of_nil (h : Ending m junk c d) (hc : c.ahead = []) :
    c.current = m ∧ d.current = m := by
  constructor
  · simp [Cursor.current, Cursor.peek, hc, h.marker]
  · simp [Cursor.current, Cursor.peek, hc, h.ahead]

theorem Ending.alike {t : Token} {us : List Token} (h : Ending m junk c d)
    (hc : c.ahead = t :: us) : c.Alike (Ending m junk) d where
  current := by simp [Cursor.current, Cursor.peek, hc, h.ahead]
  not_eof := by
    have ht : t.kind ≠ .eof := h.no_marker t (by simp [hc])
    simpa [Cursor.current, Cursor.peek, hc] using ht
  advance :=
    have hadvance : c.advance.ahead = us := by simp [Cursor.advance, hc]
    { marker := by rw [Cursor.endMarker_advance, h.marker]
      no_marker := fun u hu => h.no_marker u (by simp [hc, hadvance ▸ hu])
      ahead := by simp [Cursor.advance, hc, h.ahead] }

theorem Ending.kind_current (h : Ending m junk c d) :
    c.current.kind = d.current.kind := by
  cases hc : c.ahead with
  | nil =>
    obtain ⟨hcm, hdm⟩ := h.current_of_nil hc
    rw [hcm, hdm]
  | cons t us => rw [(h.alike hc).current]

/-- Up to the marker both cursors see the same, and there both see the marker. -/
theorem lockstep_ending (hm : m.kind = .eof) : Lockstep (Ending m junk) (Ending m junk) Eq where
  view := by
    intro c d h
    cases hc : c.ahead with
    | nil =>
      obtain ⟨hcm, hdm⟩ := h.current_of_nil hc
      have hend : m.kind.IsEnd := .inr hm
      refine .inr ⟨hcm ▸ hend, hdm ▸ hend, ?_, fun fault => by rw [hcm, hdm]⟩
      have hne : m.kind ≠ .newline := by simp [hm]
      rwa [Cursor.pastNewline, if_neg (hcm ▸ hne), Cursor.pastNewline, if_neg (hdm ▸ hne)]
    | cons t us => exact .inl (h.alike hc)
  behind := id
  error_refl _ := rfl

end Parse

/-! ### The text of the marker -/

namespace Respelling

/-- End markers without a text. -/
def endsBlank : Respelling where
  text k s := if k = .eof then "" else s
  place p := p

theorem lawful_endsBlank : endsBlank.Lawful where
  place_nowhere := rfl
  end_text := rfl
  mark_text _ _ := rfl
  value := by
    rintro ⟨k, s⟩ hk
    have heof : k ≠ .eof := by
      rintro rfl
      cases hk
    simp only [word, endsBlank, if_neg heof]
  upper _ := rfl
  keyword _ := rfl

theorem word_endsBlank {w : Word} (h : w.kind ≠ .eof) : endsBlank.word w = w := by
  simp only [word, endsBlank, if_neg h]

theorem map_token_endsBlank {ts : List Token} (hts : ∀ t ∈ ts, t.kind ≠ .eof) :
    ts.map endsBlank.token = ts := by
  refine (List.map_congr_left fun t ht => ?_).trans ts.map_id
  rw [token, word_endsBlank (hts t ht)]
  rfl

/-- No text of a program is that of an end marker. -/
theorem program_endsBlank (p : Program) : endsBlank.program p = p := by
  have hexpr (e : Expr) : endsBlank.expr e = e := endsBlank.expr_eq_self rfl rfl e
  have hoperand (o : Operand) : endsBlank.operand o = o :=
    endsBlank.operand_eq_self rfl rfl rfl rfl o
  have htext {k : TokenKind} (hk : k ≠ .eof) : endsBlank.text k = id := funext fun s => if_neg hk
  have hinstruction (i : Instruction) : endsBlank.instruction i = i := by
    simp [instruction, htext, funext hoperand, funext hexpr]
    rfl
  have hlabel (l : Label) : endsBlank.label l = l := rfl
  simp [program, funext hinstruction, funext hlabel]

/-- Messages call an end marker the end of the input. -/
theorem describe_endsBlank (w : Word) : (endsBlank.word w).describe = w.describe := by
  by_cases h : w.kind = .eof
  · have hkind : (endsBlank.word w).kind = .eof := h
    simp only [Word.describe, hkind, h]
  · rw [word_endsBlank h]

theorem report_endsBlank (e : ParseError) : (endsBlank.error e).report = e.report := by
  obtain ⟨fault, pos⟩ := e
  have hmessage : (endsBlank.fault fault).message = fault.message := by
    cases fault with
    | expected what w => exact congrArg (what.message ++ ", got " ++ ·) (describe_endsBlank w)
    | noStatement w =>
      exact congrArg ("Unexpected " ++ · ++ " at start of statement") (describe_endsBlank w)
    | noOperand w => exact congrArg ("Unexpected " ++ · ++ " in expression") (describe_endsBlank w)
    | _ => rfl
  exact congrArg (·, pos) hmessage

end Respelling

/-! ### Programs -/

section
variable {ts : List Token} (hts : ∀ t ∈ ts, t.kind ≠ .eof) (junk : List Token)
include hts

/-- The marker that the parser sees behind a list may stand in the list. -/
theorem parse_append_endMarker :
    parse (ts ++ (⟨⟨.eof, ""⟩, endPlace ts⟩ : Token) :: junk) = parse ts := by
  have hending : Parse.Ending (⟨⟨.eof, ""⟩, endPlace ts⟩ : Token) junk (.ofTokens ts)
      (.ofTokens (ts ++ (⟨⟨.eof, ""⟩, endPlace ts⟩ : Token) :: junk)) :=
    ⟨Parse.endMarker_ofTokens hts, hts, rfl⟩
  have hagree := (Parse.lockstep_ending rfl).agree_items Parse.Ending.kind_current hending
  rw [parse_eq_items, parse_eq_items ts]
  cases hitems : Parse.items (.ofTokens ts) with
  | ok xs c =>
    obtain ⟨d, hd, -⟩ := Parse.Agree.of_ok (hitems ▸ hagree)
    rw [hd]
  | error e c =>
    obtain ⟨e', d, hd, rfl⟩ := Parse.Agree.of_error (hitems ▸ hagree)
    rw [hd]

open Respelling (endsBlank)

/-- Nothing at or behind the first end marker matters to the parser: a list without one forms the
same program, places included, as the list with a marker at the place of its last token and any
tokens behind it, or both show an error with the same message at the same place. -/
theorem parse_append_eof {e : Token} (he : e.kind = .eof) (hpos : e.pos = endPlace ts) :
    (parse (ts ++ e :: junk)).mapError ParseError.report =
      (parse ts).mapError ParseError.report := by
  obtain ⟨⟨k, s⟩, pos⟩ := e
  obtain rfl : k = .eof := he
  obtain rfl : pos = endPlace ts := hpos
  -- without the texts of end markers the first list ends with the marker that the parser sees
  have hblank : (ts ++ (⟨⟨.eof, s⟩, endPlace ts⟩ : Token) :: junk).map endsBlank.token =
      ts ++ (⟨⟨.eof, ""⟩, endPlace ts⟩ : Token) :: junk.map endsBlank.token := by
    rw [List.map_append, Respelling.map_token_endsBlank hts]
    rfl
  have hrespell := parse_respell Respelling.lawful_endsBlank
    (ts ++ (⟨⟨.eof, s⟩, endPlace ts⟩ : Token) :: junk)
  rw [hblank, parse_append_endMarker hts] at hrespell
  rw [hrespell]
  cases parse (ts ++ (⟨⟨.eof, s⟩, endPlace ts⟩ : Token) :: junk) with
  | ok p => exact congrArg Except.ok (Respelling.program_endsBlank p).symm
  | error e => exact congrArg Except.error (Respelling.report_endsBlank e).symm

end

/-- The register behind the marker is no operand of the list in front of it. -/
theorem parse_append_eof_of_open_list :
    (parse ([⟨⟨.ident, "neg"⟩, ⟨1, 1⟩⟩, ⟨⟨.size .dword, "dword ptr"⟩, ⟨1, 5⟩⟩] ++
        ⟨⟨.eof, "end"⟩, ⟨1, 5⟩⟩ :: [⟨⟨.register, "ebx"⟩, ⟨1, 15⟩⟩])).mapError ParseError.report =
      .error ("Unexpected end of input in expression", ⟨1, 5⟩) := by
  have hopen : (parse [⟨⟨.ident, "neg"⟩, ⟨1, 1⟩⟩, ⟨⟨.size .dword, "dword ptr"⟩, ⟨1, 5⟩⟩]).mapError
      ParseError.report = .error ("Unexpected end of input in expression", ⟨1, 5⟩) := by
    decide +kernel
  rw [parse_append_eof (by decide) _ rfl rfl, hopen]

end IntelAsm
