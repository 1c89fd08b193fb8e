import IntelAsm.Proofs.Numeral.Reading

/-!
# Texts on one line

A text without a newline stands on one line, and so do the parts that make up a longer one. A text
that is put together from lines has just these lines (`lines_intercalate`).
-/

namespace IntelAsm

namespace Text

/-- A text that can stand on one line. -/
def OneLine (s : String) : Prop := '\n' ∉ s.toList

instance (s : String) : Decidable (OneLine s) := inferInstanceAs (Decidable ('\n' ∉ s.toList))

theorem OneLine.append {s t : String} (hs : OneLine s) (ht : OneLine t) : OneLine (s ++ t) := by
  simpa [OneLine] using ⟨hs, ht⟩

theorem OneLine.of_append {s t : String} (h : OneLine (s ++ t)) : OneLine t :=
  fun ht => h (by simp [ht])

theorem oneLine_ofList {cs : List Char} : OneLine (String.ofList cs) ↔ '\n' ∉ cs := by
  simp [OneLine]

theorem OneLine.ofList {cs : List Char} (h : '\n' ∉ cs) : OneLine (String.ofList cs) :=
  oneLine_ofList.2 h

theorem OneLine.take {s : String} (h : OneLine s) (n : Nat) :
    OneLine (String.ofList (s.toList.take n)) := by
  rw [oneLine_ofList]
  exact fun hm => h (List.mem_of_mem_take hm)

theorem oneLine_intercalate {sep : String} {ss : List String} (hsep : OneLine sep)
    (h : ∀ s ∈ ss, OneLine s) : OneLine (sep.intercalate ss) := by
  induction ss with
  | nil =>
    show OneLine ""
    decide
  | cons s ss ih =>
    obtain ⟨hs, hss⟩ := List.forall_mem_cons.1 h
    cases ss with
    | nil => simpa using hs
    | cons t ss =>
      rw [String.intercalate_cons_cons]
      exact (hs.append hsep).append (ih hss)

/-! ### Lines -/

/-- The lines of a text: what stands between its newlines. -/
def lines (s : String) : List String := (s.toList.splitOn '\n').map String.ofList

/-- Lines with a newline between each and the next are the lines of that text. -/
theorem lines_intercalate {ss : List String} (hne : ss ≠ []) (h : ∀ s ∈ ss, OneLine s) :
    lines ("\n".intercalate ss) = ss := by
  have hsplit : (['\n'].intercalate (ss.map String.toList)).splitOn '\n' = ss.map String.toList := by
    refine List.splitOn_intercalate '\n' ?_ (by simpa using hne)
    simpa [OneLine] using h
  have htext : "\n".toList = ['\n'] := rfl
  rw [lines, String.toList_intercalate, htext, hsplit, List.map_map]
  exact (List.map_congr_left fun s _ => String.ofList_toList).trans ss.map_id

/-- A newline behind each line leaves an empty line at the end. -/
theorem join_newlines (ss : List String) :
    String.join (ss.map (· ++ "\n")) = "\n".intercalate (ss ++ [""]) := by
  induction ss with
  | nil => simp
  | cons s ss ih =>
    rw [List.map_cons, String.join_cons, ih, List.cons_append,
      String.intercalate_cons_of_ne_nil (by simp), String.append_assoc]

end Text

open Text

/-! ### Numbers -/

namespace Numeral

theorem newline_notMem_digits {base : Nat} (hb : 2 ≤ base) (hb' : base ≤ 16) (n : Nat) :
    '\n' ∉ (digits base n).map digitChar := by
  intro h
  obtain ⟨d, hd⟩ := (isDigits_map_digitChar hb hb' n).isSome '\n' h
  have := toNat_of_digit? hd
  simp at this

theorem oneLine_decimal (i : Int) : OneLine (decimal i) := by
  have hnumeral : OneLine (numeral 10 i.natAbs) :=
    oneLine_ofList.2 (newline_notMem_digits (by decide) (by decide) _)
  unfold decimal
  split
  · exact .append (.ofList (by decide)) hnumeral
  · exact hnumeral

theorem oneLine_hexadecimal (n : Nat) : OneLine (hexadecimal n) := by
  have hnumeral : OneLine (numeral 16 n) :=
    oneLine_ofList.2 (newline_notMem_digits (by decide) (by decide) _)
  exact .append (.ofList (by decide)) hnumeral

end Numeral

end IntelAsm
