import IntelAsm.Proofs.Emission.Levels
import IntelAsm.Proofs.Rendering.Written

/-!
# Emitting one program after the other

A program that cannot be emitted adds nothing to the output, and the emitter can be used again. For
source and for documents the failure leaves the emitter as it was, so a run has the output of the
programs that were emitted in it (`run_emitted`). An emitter of outlines stays at the level that the
failure reached: the output is that of the emitted programs if and only if none of them that has
parts comes behind a failure (`output_run_iff`).
-/

namespace IntelAsm

namespace Emitter

/-! ### Runs -/

/-- The format of an emitter. -/
def format : Emitter → Format
  | .text style _ _ => .text style
  | .json _ _ => .json

/-- An emitter before its first program. -/
def IsFresh : Emitter → Prop
  | .text _ programs level => programs = #[] ∧ level = 0
  | .json _ documents => documents = #[]

/-- The emitter that a program leaves behind, whether it was emitted or failed. -/
def after (e : Emitter) (n : Node) : Emitter :=
  match emit n e with
  | .ok _ e' => e'
  | .error _ e' => e'

/-- The emitter that programs leave behind, each emitted in its turn. -/
def run (e : Emitter) (ns : List Node) : Emitter := ns.foldl after e

/-- Whether a program can be emitted. -/
def accepts (e : Emitter) (n : Node) : Bool :=
  match emit n e with
  | .ok _ _ => true
  | .error _ _ => false

/-- Those of the programs that are emitted in a run. -/
def emitted : Emitter → List Node → List Node
  | _, [] => []
  | e, n :: ns => if e.accepts n then n :: (e.after n).emitted ns else (e.after n).emitted ns

@[simp] theorem run_nil (e : Emitter) : e.run [] = e := rfl

@[simp] theorem run_cons (e : Emitter) (n : Node) (ns : List Node) :
    e.run (n :: ns) = (e.after n).run ns := rfl

section
variable {style : Style} {ps : Array String} {l : Nat} {n : Node}

theorem after_text_of_ok {t : String} (h : n.render style l = .ok t) :
    (text style ps l).after n = text style (ps.push t) l := by
  simp only [after, emit, h]

theorem after_text_of_error {f : RenderFailure} (h : n.render style l = .error f) :
    (text style ps l).after n = text style ps f.level := by
  simp only [after, emit, h]

theorem accepts_text : (text style ps l).accepts n = n.hasText style := by
  cases h : n.render style l with
  | ok t => simp only [accepts, emit, h, Node.hasText_of_ok h]
  | error f => simp only [accepts, emit, h, Node.hasText_of_error h]

theorem accepts_json {indent : Option Int} {documents : Array Json} :
    (json indent documents).accepts n = n.toJson.isOk := by
  simp only [accepts, emit, JsonEmitter.emit]
  cases n.toJson <;> rfl

end

@[simp] theorem format_after (e : Emitter) (n : Node) : (e.after n).format = e.format := by
  cases e with
  | text style ps l =>
    cases h : n.render style l with
    | ok t =>
      rw [after_text_of_ok h]
      rfl
    | error f =>
      rw [after_text_of_error h]
      rfl
  | json indent documents =>
    simp only [after, emit, JsonEmitter.emit]
    cases n.toJson <;> rfl

/-- Whether a program can be emitted does not depend on what was emitted before. -/
theorem accepts_congr {e e' : Emitter} (h : e.format = e'.format) (n : Node) :
    e.accepts n = e'.accepts n := by
  match e, e', h with
  | .text style ps l, .text _ ps' l', rfl => rw [accepts_text, accepts_text]
  | .json indent documents, .json indent' documents', _ => rw [accepts_json, accepts_json]

theorem emitted_eq_filter (e : Emitter) (ns : List Node) : e.emitted ns = ns.filter e.accepts := by
  induction ns generalizing e with
  | nil => rfl
  | cons n ns ih =>
    have hns : (e.after n).emitted ns = ns.filter e.accepts := by
      rw [ih, funext (accepts_congr (e.format_after n))]
    rw [emitted, hns, List.filter_cons]

/-! ### Emitters that keep no trace of a failure -/

/-- A failure leaves an emitter of source or documents as it was. -/
theorem after_of_not_accepts {e : Emitter} (he : e.format ≠ .text .outline) {n : Node}
    (h : e.accepts n = false) : e.after n = e := by
  match e, he with
  | .text .assembly ps l, _ =>
    rw [accepts_text] at h
    cases hr : n.render .assembly l with
    | ok t =>
      rw [Node.hasText_of_ok hr] at h
      cases h
    | error f =>
      have hlevel : f.level = l := Node.reaches_of_error hr
      rw [after_text_of_error hr, hlevel]
  | .json indent documents, _ =>
    rw [accepts_json] at h
    cases hj : n.toJson with
    | ok j =>
      rw [hj] at h
      cases h
    | error f => simp only [after, emit, JsonEmitter.emit, hj]
  | .text .outline ps l, he => exact absurd rfl he

/-- A run leaves behind what the programs emitted in it would have left. -/
theorem run_emitted {e : Emitter} (he : e.format ≠ .text .outline) (ns : List Node) :
    e.run (e.emitted ns) = e.run ns := by
  induction ns generalizing e with
  | nil => rfl
  | cons n ns ih =>
    cases h : e.accepts n with
    | true =>
      rw [emitted, if_pos h, run_cons, run_cons]
      exact ih (by rwa [format_after])
    | false =>
      have hafter : e.after n = e := after_of_not_accepts he h
      rw [emitted, if_neg (by simp [h]), run_cons, hafter]
      exact ih he

/-! ### Emitters of texts -/

/-- The texts that a run adds to an emitter at a level. -/
def texts (style : Style) : Nat → List Node → List String
  | _, [] => []
  | l, n :: ns =>
    match n.render style l with
    | .ok t => t :: texts style l ns
    | .error f => texts style f.level ns

section
variable {style : Style} {l : Nat} {n : Node} {ns : List Node}

theorem texts_cons_of_ok {t : String} (h : n.render style l = .ok t) :
    texts style l (n :: ns) = t :: texts style l ns := by
  rw [texts, h]

theorem texts_cons_of_error {f : RenderFailure} (h : n.render style l = .error f) :
    texts style l (n :: ns) = texts style f.level ns := by
  rw [texts, h]

theorem output_run_text (ps : Array String) (l : Nat) (ns : List Node) :
    ((text style ps l).run ns).output = "\n".intercalate (ps.toList ++ texts style l ns) := by
  induction ns generalizing ps l with
  | nil =>
    rw [texts, List.append_nil]
    rfl
  | cons n ns ih =>
    rw [run_cons]
    cases h : n.render style l with
    | ok t => rw [after_text_of_ok h, ih, texts_cons_of_ok h, Array.toList_push,
        List.append_assoc, List.singleton_append]
    | error f => rw [after_text_of_error h, ih, texts_cons_of_error h]

/-- As many texts are added as programs can be emitted. -/
theorem length_texts (style : Style) (l : Nat) (ns : List Node) :
    (texts style l ns).length = ns.countP (·.hasText style) := by
  induction ns generalizing l with
  | nil => rfl
  | cons n ns ih =>
    cases h : n.render style l with
    | ok t =>
      rw [texts_cons_of_ok h, List.length_cons, ih, List.countP_cons_of_pos (Node.hasText_of_ok h)]
    | error f =>
      rw [texts_cons_of_error h, ih, List.countP_cons_of_neg (by simp [Node.hasText_of_error h])]

/-- Programs that can be emitted have the texts that each has on its own. -/
theorem mapM_render {ms : List Node} (h : ∀ m ∈ ms, m.isProgram ∧ m.hasText style) :
    ms.mapM (Format.text style).render = .ok (texts style 0 ms) := by
  induction ms with
  | nil => rfl
  | cons m ms ih =>
    obtain ⟨⟨hm, htext⟩, hms⟩ := List.forall_mem_cons.1 h
    obtain ⟨t, ht⟩ := Node.exists_render_of_hasText htext 0
    rw [List.mapM_cons, render_text hm ht, ok_bind, ih hms, ok_bind, texts_cons_of_ok ht]
    rfl

end

/-! ### Emitters of outlines -/

section
variable {s t : String} {xs ys : List String}

theorem exists_intercalate_cons (s : String) (xs : List String) :
    ∃ u, "\n".intercalate (s :: xs) = s ++ u := by
  cases xs with
  | nil => exact ⟨"", by simp⟩
  | cons x xs =>
    refine ⟨"\n" ++ "\n".intercalate (x :: xs), ?_⟩
    rw [String.intercalate_cons_cons, String.append_assoc]

/-- Texts that are the same or apart are told from each other in a list. -/
theorem intercalate_cons_eq_iff (hlength : xs.length = ys.length) (h : s = t ∨ Node.Apart s t) :
    "\n".intercalate (s :: xs) = "\n".intercalate (t :: ys) ↔
      s = t ∧ "\n".intercalate xs = "\n".intercalate ys := by
  rcases h with rfl | h
  · match xs, ys, hlength with
    | [], [], _ => simp
    | x :: xs, y :: ys, _ =>
      simp only [String.intercalate_cons_cons, true_and]
      constructor
      · intro h
        simpa [← String.toList_inj] using h
      · intro h
        rw [h]
  · obtain ⟨u, hu⟩ := exists_intercalate_cons s xs
    obtain ⟨v, hv⟩ := exists_intercalate_cons t ys
    rw [hu, hv]
    exact iff_of_false (h u v) fun hst => h "" "" (by rw [hst.1])

end

/-- A text at some level against the text that a fresh emitter has. -/
theorem outline_eq_or_apart {n : Node} (hn : n.isProgram) {l : Nat} {t t₀ : String}
    (ht : n.render .outline l = .ok t) (ht₀ : n.render .outline 0 = .ok t₀) :
    (t = t₀ ∨ Node.Apart t t₀) ∧ (t = t₀ ↔ (0 < l → ¬n.listsParts)) := by
  by_cases hl : 0 < l
  · cases hparts : n.listsParts with
    | true =>
      have hapart : Node.Apart t₀ t := Node.apart_of_levels hparts hl ht₀ ht
      refine ⟨.inr fun u v h => hapart v u h.symm, iff_of_false ?_ ?_⟩
      · rintro rfl
        exact hapart "" "" rfl
      · simp [hl]
    | false =>
      rw [Node.render_bare hn hparts] at ht ht₀
      obtain rfl : t = t₀ := Except.ok.inj (ht.symm.trans ht₀)
      simp
  · obtain rfl : l = 0 := by omega
    obtain rfl : t = t₀ := Except.ok.inj (ht.symm.trans ht₀)
    simp

/-- The texts of a run that starts at level `l`, against those of a fresh emitter that is given only
the programs that can be emitted. -/
theorem intercalate_texts_iff {ns : List Node} (hns : ∀ n ∈ ns, n.isProgram) (l : Nat) :
    "\n".intercalate (texts .outline l ns) =
        "\n".intercalate (texts .outline 0 (ns.filter (·.hasText .outline))) ↔
      (0 < l → ∀ m ∈ ns, m.hasText .outline → ¬m.listsParts) ∧
        ns.Pairwise fun n m => n.hasText .outline ∨ ¬(m.hasText .outline ∧ m.listsParts) := by
  -- by induction on the programs; a failure among them raises the level for the rest
  induction ns generalizing l with
  | nil => simp [texts]
  | cons n ns ih =>
    obtain ⟨hn, hns⟩ := List.forall_mem_cons.1 hns
    rw [List.pairwise_cons, List.forall_mem_cons]
    cases hr : n.render .outline l with
    | ok t =>
      have htext : n.hasText .outline = true := Node.hasText_of_ok hr
      obtain ⟨t₀, hr₀⟩ := Node.exists_render_of_hasText htext 0
      obtain ⟨happart, heq⟩ := outline_eq_or_apart hn hr hr₀
      have hlength : (texts .outline l ns).length =
          (texts .outline 0 (ns.filter (·.hasText .outline))).length := by
        simp only [length_texts, List.countP_filter, Bool.and_self]
      rw [texts_cons_of_ok hr, List.filter_cons_of_pos htext, texts_cons_of_ok hr₀,
        intercalate_cons_eq_iff hlength happart, ih hns, heq]
      simp only [htext, true_or, implies_true, true_and, true_imp_iff]
      tauto
    | error f =>
      have hlevel : 0 < f.level :=
        Nat.lt_of_le_of_lt (Nat.zero_le l) (Node.lt_level_of_error hn hr)
      have htext : n.hasText .outline = false := Node.hasText_of_error hr
      rw [texts_cons_of_error hr, List.filter_cons_of_neg (by simp [htext]), ih hns]
      simp only [hlevel, htext, Bool.false_eq_true, true_imp_iff, false_or, not_and, false_imp_iff,
        true_and]
      tauto

/-! ### The output of a run -/

/-- No program with parts is emitted behind one that fails, where a failure would move it. -/
def KeepsLevel (e : Emitter) (ns : List Node) : Prop :=
  e.format = .text .outline → ns.Pairwise fun n m => e.accepts n ∨ ¬(e.accepts m ∧ m.listsParts)

instance (e : Emitter) (ns : List Node) : Decidable (e.KeepsLevel ns) :=
  inferInstanceAs (Decidable (_ → _))

theorem output_run_iff {e : Emitter} (he : e.IsFresh) {ns : List Node}
    (hns : ∀ n ∈ ns, n.isProgram) :
    (e.run ns).output = (e.run (e.emitted ns)).output ↔ e.KeepsLevel ns := by
  by_cases houtline : e.format = .text .outline
  · match e, houtline, he with
    | .text .outline _ _, _, ⟨rfl, rfl⟩ =>
      have haccepts : accepts (.text .outline #[] 0) = (·.hasText .outline) :=
        funext fun _ => accepts_text
      rw [emitted_eq_filter, haccepts, output_run_text, output_run_text]
      refine (intercalate_texts_iff hns 0).trans ?_
      simp [KeepsLevel, format, haccepts]
  · exact iff_of_true (by rw [run_emitted houtline]) fun h => absurd h houtline

/-- Programs that are emitted in a run have the output of a fresh emitter that is given only those,
unless a failure moves them; of texts this is what each program is rendered to on its own, joined by
newlines. -/
theorem output_run {e : Emitter} (he : e.IsFresh) {ns : List Node} (hns : ∀ n ∈ ns, n.isProgram) :
    ((e.run ns).output = (e.run (e.emitted ns)).output ↔ e.KeepsLevel ns) ∧
    ∀ style, e.format = .text style →
      ∃ ts, (e.emitted ns).mapM (Format.text style).render = .ok ts ∧
        (e.run (e.emitted ns)).output = "\n".intercalate ts := by
  refine ⟨output_run_iff he hns, ?_⟩
  intro style hstyle
  match e, hstyle, he with
  | .text _ _ _, rfl, ⟨rfl, rfl⟩ =>
    refine ⟨texts style 0 (emitted (.text style #[] 0) ns), mapM_render ?_, output_run_text ..⟩
    intro m hm
    rw [emitted_eq_filter, List.mem_filter, accepts_text] at hm
    exact ⟨hns m hm.1, hm.2⟩

/-- The last of two programs fails and leaves the outline of the first. -/
theorem output_run_of_failure_last :
    (run (.text .outline #[] 0)
        [.program [.instruction "RET" [] none none none {}] [],
          .program [.instruction "NEG" [.register "eax" (some 7) {}] none none none {}] []]).output =
      (run (.text .outline #[] 0) [.program [.instruction "RET" [] none none none {}] []]).output :=
  (output_run (e := .text .outline #[] 0) ⟨rfl, rfl⟩ (by decide)).1.2 (by decide +kernel)

/-- The first of two programs fails and moves the outline of the second. -/
theorem not_output_run_of_failure_first :
    ∃ e ns, IsFresh e ∧ (∀ n ∈ ns, n.isProgram) ∧
      (e.run ns).output = "Program:\n      Instructions:\n        RET" ∧
      (e.run (e.emitted ns)).output = "Program:\n  Instructions:\n    RET" ∧
      (e.run ns).output ≠ (e.run (e.emitted ns)).output :=
  ⟨.text .outline #[] 0,
    [.program [.instruction "NEG" [.register "eax" (some 7) {}] none none none {}] [],
      .program [.instruction "RET" [] none none none {}] []],
    ⟨rfl, rfl⟩, by decide, by decide +kernel, by decide +kernel, by decide +kernel⟩

end Emitter

end IntelAsm
