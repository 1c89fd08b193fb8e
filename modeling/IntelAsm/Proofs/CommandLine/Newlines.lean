import IntelAsm.CommandLine.Run

/-!
# The lines of a file

A line of a file may end in three ways, and a line of a text in one. `InLines` splits the content of
a file into its lines: what stands between the ends, where a return directly before a newline is one
end with it. Every content has lines, and reading it yields just these, with a newline between each
and the next (`readsAs_iff`).
-/

namespace IntelAsm.CommandLine

/-! ### Lines and their ends -/

/-- The ways to end a line in a file. -/
inductive LineEnd where
  | newline
  | carriageReturn
  | both
deriving DecidableEq, Repr

/-- The characters at the end of a line. -/
def LineEnd.chars : LineEnd → List Char
  | .newline => ['\n']
  | .carriageReturn => ['\r']
  | .both => ['\r', '\n']

/-- What stands on a line. -/
def IsLine (l : List Char) : Prop := '\n' ∉ l ∧ '\r' ∉ l

theorem isLine_nil : IsLine [] := by simp [IsLine]

theorem isLine_cons {c : Char} {l : List Char} :
    IsLine (c :: l) ↔ (c ≠ '\n' ∧ c ≠ '\r') ∧ IsLine l := by
  simp only [IsLine, List.mem_cons, not_or]
  exact ⟨fun ⟨⟨hn, hn'⟩, hr, hr'⟩ => ⟨⟨Ne.symm hn, Ne.symm hr⟩, hn', hr'⟩,
    fun ⟨⟨hn, hr⟩, hn', hr'⟩ => ⟨⟨hn.symm, hn'⟩, hr.symm, hr'⟩⟩

/-- A content, and the lines it consists of. There is no end behind the last of them. -/
inductive InLines : List Char → List (List Char) → Prop where
  | last {l : List Char} (hl : IsLine l) : InLines l [l]
  | ended {l rest : List Char} {ls : List (List Char)} (hl : IsLine l) (e : LineEnd)
      (he : e = .carriageReturn → rest.head? ≠ some '\n') (h : InLines rest ls) :
      InLines (l ++ e.chars ++ rest) (l :: ls)

/-- A text is the content of a file with a newline for every end of a line. -/
def ReadsAs (content text : String) : Prop :=
  ∃ ls, InLines content.toList ls ∧ text.toList = ['\n'].intercalate ls

/-! ### Every content has lines -/

theorem InLines.ne_nil {cs : List Char} {ls : List (List Char)} (h : InLines cs ls) : ls ≠ [] := by
  cases h <;> simp

/-- One character more stands on the first line. -/
theorem InLines.cons {c : Char} {cs l : List Char} {ls : List (List Char)} (hn : c ≠ '\n')
    (hr : c ≠ '\r') (h : InLines cs (l :: ls)) : InLines (c :: cs) ((c :: l) :: ls) := by
  cases h with
  | last hl => exact .last (isLine_cons.2 ⟨⟨hn, hr⟩, hl⟩)
  | ended hl e he h => exact .ended (isLine_cons.2 ⟨⟨hn, hr⟩, hl⟩) e he h

theorem exists_inLines (cs : List Char) : ∃ ls, InLines cs ls := by
  fun_induction joinLineEnds cs with
  | case1 => exact ⟨_, .last isLine_nil⟩
  | case2 cs ih =>
    obtain ⟨ls, h⟩ := ih
    exact ⟨_, .ended isLine_nil .both (by simp) h⟩
  | case3 cs hnext ih =>
    obtain ⟨ls, h⟩ := ih
    refine ⟨_, .ended isLine_nil .carriageReturn (fun _ hhead => ?_) h⟩
    obtain ⟨rest, rfl⟩ := List.head?_eq_some_iff.1 hhead
    exact hnext rest rfl
  | case4 c cs hboth hreturn ih =>
    obtain ⟨ls, h⟩ := ih
    by_cases hc : c = '\n'
    · subst hc
      exact ⟨_, .ended isLine_nil .newline (by simp) h⟩
    · obtain ⟨l, ls, rfl⟩ := List.exists_cons_of_ne_nil h.ne_nil
      exact ⟨_, h.cons hc hreturn⟩

/-! ### Reading joins them -/

/-- What stands on a line is read as it is. -/
theorem joinLineEnds_line {l : List Char} (hl : IsLine l) (rest : List Char) :
    joinLineEnds (l ++ rest) = l ++ joinLineEnds rest := by
  induction l with
  | nil => rfl
  | cons c l ih =>
    obtain ⟨⟨-, hr⟩, hl⟩ := isLine_cons.1 hl
    rw [List.cons_append, joinLineEnds, ih hl, List.cons_append]
    · exact fun _ hc => absurd hc hr
    · exact hr

/-- Every end of a line is read as a newline. -/
theorem joinLineEnds_end (e : LineEnd) {rest : List Char}
    (he : e = .carriageReturn → rest.head? ≠ some '\n') :
    joinLineEnds (e.chars ++ rest) = '\n' :: joinLineEnds rest := by
  cases e with
  | newline => rfl
  | both => rfl
  | carriageReturn =>
    show joinLineEnds ('\r' :: rest) = _
    rw [joinLineEnds]
    rintro cs rfl
    exact he rfl rfl

theorem joinLineEnds_of_inLines {cs : List Char} {ls : List (List Char)} (h : InLines cs ls) :
    joinLineEnds cs = ['\n'].intercalate ls := by
  induction h with
  | last hl =>
    have hjoin := joinLineEnds_line hl []
    rw [List.append_nil] at hjoin
    simpa [joinLineEnds] using hjoin
  | @ended l rest ls hl e he h ih =>
    obtain ⟨l', ls, rfl⟩ := List.exists_cons_of_ne_nil h.ne_nil
    rw [List.append_assoc, joinLineEnds_line hl, joinLineEnds_end e he, ih,
      List.intercalate_cons_cons]
    simp

/-- The text in a file is its content with the ends of lines joined. -/
theorem readsAs_iff {content text : String} :
    ReadsAs content text ↔ text = String.ofList (joinLineEnds content.toList) := by
  constructor
  · rintro ⟨ls, hls, htext⟩
    rw [joinLineEnds_of_inLines hls, ← htext, String.ofList_toList]
  · rintro rfl
    obtain ⟨ls, hls⟩ := exists_inLines content.toList
    exact ⟨ls, hls, by rw [String.toList_ofList, joinLineEnds_of_inLines hls]⟩

end IntelAsm.CommandLine
