import IntelAsm.Proofs.Json.Trees

/-!
# Levels of a rendering

The level at which a node is rendered decides how far its lines are indented, and nothing else: a
node that can be rendered at one level can be rendered at all, and otherwise it fails for the same
cause (`Node.alike_render`). Source is not indented by levels, so there the text is the same too.

A failure in an outline leaves the level where the failing part was begun; where that is a part of a
program, the level is higher than that of the program (`Node.lt_level_of_error`).
-/

namespace IntelAsm

/-! ### Induction on nodes -/

namespace Node

/-- The nodes, and values in the place of nodes, that a node holds. -/
def children : Node → List Node
  | .unary _ e _ | .expression e _ _ => [e]
  | .binary _ l r _ => [l, r]
  | .instruction _ os _ _ d _ => os ++ d.toList
  | .program is ls => is ++ ls
  | .strayList xs => xs
  | _ => []

theorem sizeOf_lt_of_mem_children {m n : Node} (h : m ∈ n.children) : sizeOf m < sizeOf n := by
  cases n with
  | unary op e pos | expression e size pos =>
    obtain rfl : m = e := by simpa [children] using h
    simp
    omega
  | binary op l r pos =>
    obtain rfl | rfl : m = l ∨ m = r := by simpa [children] using h
    all_goals
      simp
      omega
  | instruction mnemonic os l c d pos =>
    obtain h | h : m ∈ os ∨ d = some m := by simpa [children] using h
    · have hlt := List.sizeOf_lt_of_mem h
      simp
      omega
    · simp [h]
      omega
  | program is ls =>
    obtain h | h : m ∈ is ∨ m ∈ ls := by simpa [children] using h
    all_goals
      have hlt := List.sizeOf_lt_of_mem h
      simp
      omega
  | strayList xs =>
    have hlt : sizeOf m < sizeOf xs := List.sizeOf_lt_of_mem h
    simp
    omega
  | _ => cases h

/-- What passes from the nodes that a node holds to that node is true of all nodes. -/
@[elab_as_elim]
theorem induct {motive : Node → Prop} (step : ∀ n, (∀ m ∈ n.children, motive m) → motive n)
    (n : Node) : motive n :=
  step n fun m _ => induct step m
termination_by sizeOf n
decreasing_by exact sizeOf_lt_of_mem_children (by assumption)

end Node

/-! ### Renderings at two levels -/

/-- The levels at which what a style begins at level `l` can fail. -/
def Style.Reaches : Style → Nat → Nat → Prop
  | .outline, l, k => l ≤ k
  | .assembly, l, k => k = l

theorem Style.Reaches.refl (style : Style) (l : Nat) : style.Reaches l l := by
  cases style with
  | outline => exact Nat.le_refl l
  | assembly => rfl

section
variable {α β : Type} {style : Style} {l l' : Nat}

/-- Two results, begun at levels `l` and `l'`: both are values, equal ones in source, or both are
failures of the same cause. -/
def Alike (style : Style) (l l' : Nat) : Except RenderFailure α → Except RenderFailure α → Prop
  | .ok a, .ok b => style = .assembly → a = b
  | .error f, .error g => f.cause = g.cause ∧ style.Reaches l f.level ∧ style.Reaches l' g.level
  | _, _ => False

theorem alike_ok {a b : α} (h : style = .assembly → a = b) :
    Alike style l l' (.ok a) (.ok b) := h

theorem alike_error (cause : RenderError) :
    Alike style l l' (.error ⟨cause, l⟩ : Except RenderFailure α) (.error ⟨cause, l'⟩) :=
  ⟨rfl, .refl style l, .refl style l'⟩

theorem alike_bind {r r' : Except RenderFailure α} {f g : α → Except RenderFailure β}
    (h : Alike style l l' r r')
    (hf : ∀ a b, (style = .assembly → a = b) → Alike style l l' (f a) (g b)) :
    Alike style l l' (r >>= f) (r' >>= g) := by
  cases r with
  | ok a =>
    cases r' with
    | ok b => exact hf a b h
    | error e => exact h.elim
  | error e =>
    cases r' with
    | ok b => exact h.elim
    | error e' => exact h

/-- In an outline a part may be begun at a higher level. -/
theorem alike_of_parts {k k' : Nat} {r r' : Except RenderFailure α} (hl : l ≤ k) (hl' : l' ≤ k')
    (h : Alike .outline k k' r r') : Alike .outline l l' r r' := by
  match r, r', h with
  | .ok _, .ok _, h => exact h
  | .error _, .error _, ⟨hcause, hk, hk'⟩ =>
    exact ⟨hcause, Nat.le_trans hl hk, Nat.le_trans hl' hk'⟩

theorem alike_sizeSpecifier (size : Option Int) :
    Alike style l l' (Style.sizeSpecifier l size) (Style.sizeSpecifier l' size) := by
  cases size with
  | none => exact alike_ok fun _ => rfl
  | some n =>
    simp only [Style.sizeSpecifier]
    cases Width.ofBits? n with
    | some w => exact alike_ok fun _ => rfl
    | none => exact alike_error _

/-- The text of an operand is its size specifier and a text that depends on no level. -/
theorem alike_sized (size : Option Int) (t : String) :
    Alike style l l' (Style.sizeSpecifier l size >>= fun s => .ok (s ++ t))
      (Style.sizeSpecifier l' size >>= fun s => .ok (s ++ t)) :=
  alike_bind (alike_sizeSpecifier size) fun _ _ h => alike_ok fun hs => by rw [h hs]

end

namespace Node

section
variable {style : Style} {ns : List Node}

theorem alike_renderItems
    (h : ∀ n ∈ ns, ∀ l l', Alike style l l' (n.render style l) (n.render style l'))
    (l l' : Nat) : Alike style l l' (renderItems style l ns) (renderItems style l' ns) := by
  induction ns with
  | nil => exact alike_ok fun _ => rfl
  | cons n ns ih =>
    obtain ⟨hn, hns⟩ := List.forall_mem_cons.1 h
    rw [renderItems, renderItems]
    apply alike_bind (hn l l')
    intro t t' ht
    apply alike_bind (ih hns)
    intro ts ts' hts
    exact alike_ok fun hs => by rw [ht hs, hts hs]

theorem alike_renderSource
    (h : ∀ n ∈ ns, ∀ l l', Alike .assembly l l' (n.render .assembly l) (n.render .assembly l'))
    (l l' : Nat) : Alike .assembly l l' (renderSource l ns) (renderSource l' ns) := by
  induction ns with
  | nil => exact alike_ok fun _ => rfl
  | cons n ns ih =>
    obtain ⟨hn, hns⟩ := List.forall_mem_cons.1 h
    rw [renderSource, renderSource]
    match n.statement? with
    | none => exact alike_error _
    | some (name, true) =>
      apply alike_bind (ih hns)
      intro ts ts' hts
      exact alike_ok fun hs => by rw [hts hs]
    | some (name, false) =>
      apply alike_bind (hn l l')
      intro t t' ht
      apply alike_bind (ih hns)
      intro ts ts' hts
      exact alike_ok fun hs => by rw [ht hs, hts hs]

end

/-- Whether a node can be rendered does not depend on the level, and in source its text does not
either. -/
theorem alike_render (style : Style) (n : Node) (l l' : Nat) :
    Alike style l l' (n.render style l) (n.render style l') := by
  induction n using induct generalizing l l' with
  | step n ih =>
    cases n with
    | literal | symbol | here | label =>
      rw [render, render]
      exact alike_ok fun _ => rfl
    | strayText | strayNumber | strayList | nothing =>
      rw [render, render]
      exact alike_error _
    | register | immediate | memory | labelRef | string =>
      rw [render, render]
      exact alike_sized _ _
    | unary op e pos =>
      rw [render, render]
      apply alike_bind (ih e (by simp [children]) l l')
      intro t t' ht
      exact alike_ok fun hs => by rw [ht hs]
    | binary op a b pos =>
      rw [render, render]
      apply alike_bind (ih a (by simp [children]) l l')
      intro t t' ht
      apply alike_bind (ih b (by simp [children]) l l')
      intro u u' hu
      exact alike_ok fun hs => by rw [ht hs, hu hs]
    | expression e size pos =>
      rw [render, render]
      apply alike_bind (alike_sizeSpecifier size)
      intro s s' hs
      apply alike_bind (ih e (by simp [children]) l l')
      intro t t' ht
      exact alike_ok fun h => by rw [hs h, ht h]
    | instruction mnemonic os label comment directive pos =>
      cases directive with
      | some e =>
        rw [render, render]
        apply alike_bind (ih e (by simp [children]) l l')
        intro t t' ht
        exact alike_ok fun hs => by rw [ht hs]
      | none =>
        rw [render, render]
        apply alike_bind (alike_renderItems (fun o ho => ih o (by simp [children, ho])) l l')
        intro ts ts' hts
        exact alike_ok fun hs => by rw [hts hs]
    | program is ls =>
      cases style with
      | outline =>
        -- the parts are begun two levels higher
        have hparts (ns : List Node) (hns : ∀ n ∈ ns, n ∈ (program is ls).children) :
            Alike .outline l l' (renderItems .outline (l + 2) ns)
              (renderItems .outline (l' + 2) ns) :=
          alike_of_parts (Nat.le_add_right l 2) (Nat.le_add_right l' 2)
            (alike_renderItems (fun n hn => ih n (hns n hn)) (l + 2) (l' + 2))
        rw [render, render]
        apply alike_bind (hparts ls fun n hn => List.mem_append_right is hn)
        intro ts ts' _
        apply alike_bind (hparts is fun n hn => List.mem_append_left ls hn)
        intro us us' _
        exact alike_ok nofun
      | assembly =>
        rw [render, render]
        apply alike_bind (alike_renderSource (fun i hi => ih i (List.mem_append_left ls hi)) l l')
        intro ts ts' hts
        exact alike_ok fun hs => by rw [hts hs]

theorem error_of_bind {ε α β : Type} {r : Except ε α} {f : α → Except ε β} {e : ε}
    (h : r >>= f = .error e) : r = .error e ∨ ∃ a, r = .ok a ∧ f a = .error e := by
  cases r with
  | error e' =>
    cases h
    exact .inl rfl
  | ok a => exact .inr ⟨a, rfl, h⟩

section
variable {n : Node} {l : Nat} {f : RenderFailure}

/-- Whether a style can render a node, at one level as at every other. -/
def hasText (style : Style) (n : Node) : Bool := (n.render style 0).isOk

theorem isOk_render (style : Style) (n : Node) (l : Nat) :
    (n.render style l).isOk = n.hasText style := by
  have h := n.alike_render style l 0
  unfold hasText
  cases hr : n.render style l <;> cases hr₀ : n.render style 0
  · rfl
  · rw [hr, hr₀] at h
    exact h.elim
  · rw [hr, hr₀] at h
    exact h.elim
  · rfl

theorem hasText_of_ok {style : Style} {t : String} (h : n.render style l = .ok t) :
    n.hasText style = true := by
  rw [← isOk_render style n l, h]
  rfl

theorem hasText_of_error {style : Style} (h : n.render style l = .error f) :
    n.hasText style = false := by
  rw [← isOk_render style n l, h]
  rfl

theorem exists_render_of_hasText {style : Style} (h : n.hasText style) (l : Nat) :
    ∃ t, n.render style l = .ok t := by
  cases hr : n.render style l with
  | ok t => exact ⟨t, rfl⟩
  | error f =>
    rw [hasText_of_error hr] at h
    cases h

theorem reaches_of_error {style : Style} (h : n.render style l = .error f) :
    style.Reaches l f.level := by
  have hself := n.alike_render style l l
  rw [h] at hself
  exact hself.2.1

/-- A program that cannot be outlined leaves the level of a part. -/
theorem lt_level_of_error (hn : n.isProgram) (h : n.render .outline l = .error f) :
    l < f.level := by
  have hparts {ns : List Node} (h : renderItems .outline (l + 2) ns = .error f) : l < f.level := by
    have hself : Alike .outline (l + 2) (l + 2) (renderItems .outline (l + 2) ns)
        (renderItems .outline (l + 2) ns) :=
      alike_renderItems (fun n _ => n.alike_render .outline) (l + 2) (l + 2)
    rw [h] at hself
    exact Nat.lt_of_lt_of_le (by omega) hself.2.1
  cases n with
  | program is ls =>
    rw [render] at h
    rcases error_of_bind h with hls | ⟨ts, -, h⟩
    · exact hparts hls
    rcases error_of_bind h with his | ⟨us, -, h⟩
    · exact hparts his
    · cases h
  | _ => cases hn

end

/-! ### Outlines at two levels -/

/-- Whether a node is a program with labels or instructions. -/
def listsParts : Node → Bool
  | .program is ls => !is.isEmpty || !ls.isEmpty
  | _ => false

/-- An outline of a program without parts is a single line. -/
theorem render_bare {n : Node} (hn : n.isProgram) (h : n.listsParts = false) (l : Nat) :
    n.render .outline l = .ok "Program:" := by
  cases n with
  | program is ls =>
    obtain ⟨rfl, rfl⟩ : is = [] ∧ ls = [] := by simpa [listsParts] using h
    rfl
  | _ => cases hn

theorem renderItems_ne_nil {style : Style} {l : Nat} {ns : List Node} {ts : List String}
    (h : renderItems style l ns = .ok ts) (hns : ns ≠ []) : ts ≠ [] := by
  cases ns with
  | nil => exact absurd rfl hns
  | cons n ns =>
    rw [renderItems] at h
    obtain ⟨t, -, h⟩ := exists_ok_of_bind h
    obtain ⟨ts, -, h⟩ := exists_ok_of_bind h
    cases h
    exact List.cons_ne_nil t ts

/-- Where a block has items, its heading comes first. -/
theorem exists_heading_of_block {items : List String} (h : items ≠ []) (l : Nat) (c : Char)
    (heading : String) (lines : List String) :
    ∃ rest, "\n".intercalate
        ("Program:" :: (Style.block l (String.singleton c ++ heading) items ++ lines)) =
      "Program:\n" ++ Style.indent l ++ (String.singleton c ++ rest) := by
  have hblock : Style.block l (String.singleton c ++ heading) items =
      (Style.indent l ++ (String.singleton c ++ heading)) ::
        items.map (Style.indent (l + 1) ++ ·) := if_neg h
  have hfirst : "Program:\n" = "Program:" ++ "\n" := by decide
  refine ⟨"\n".intercalate (heading :: (items.map (Style.indent (l + 1) ++ ·) ++ lines)), ?_⟩
  rw [hblock, List.cons_append, String.intercalate_cons_cons, String.intercalate_cons_append,
    String.intercalate_cons_append, hfirst, String.append_assoc, String.append_assoc,
    String.append_assoc]

/-- The second line of an outline is a heading, indented by the level. -/
theorem exists_heading {n : Node} (h : n.listsParts) {l : Nat} {t : String}
    (ht : n.render .outline l = .ok t) :
    ∃ (c : Char) (rest : String), c ≠ ' ' ∧
      t = "Program:\n" ++ Style.indent (l + 1) ++ (String.singleton c ++ rest) := by
  cases n with
  | program is ls =>
    rw [render] at ht
    obtain ⟨ts, hts, ht⟩ := exists_ok_of_bind ht
    obtain ⟨us, hus, ht⟩ := exists_ok_of_bind ht
    cases ht
    by_cases hls : ls = []
    · have his : is ≠ [] := by simpa [listsParts, hls] using h
      obtain rfl : ts = [] := by
        rw [hls] at hts
        cases hts
        rfl
      obtain ⟨rest, hrest⟩ := exists_heading_of_block (renderItems_ne_nil hus his) (l + 1) 'I'
        "nstructions:" []
      exact ⟨'I', rest, by decide, by rw [← hrest, List.append_nil]; rfl⟩
    · obtain ⟨rest, hrest⟩ := exists_heading_of_block (renderItems_ne_nil hts hls) (l + 1) 'L'
        "abels:" (Style.block (l + 1) "Instructions:" us)
      exact ⟨'L', rest, by decide, hrest⟩
  | _ => cases h

/-- Two texts that differ in front of the end of both. -/
def Apart (s t : String) : Prop := ∀ u v, s ++ u ≠ t ++ v

/-- Outlines of a program with parts at different levels differ in their second line. -/
theorem apart_of_levels {n : Node} (h : n.listsParts) {l l' : Nat} (hl : l < l') {t t' : String}
    (ht : n.render .outline l = .ok t) (ht' : n.render .outline l' = .ok t') : Apart t t' := by
  obtain ⟨c, rest, hc, rfl⟩ := exists_heading h ht
  obtain ⟨c', rest', -, rfl⟩ := exists_heading h ht'
  intro u v huv
  -- the blanks of the lower level are among those of the other, and behind them stands a heading
  have hblanks : List.replicate (2 * (l' + 1)) ' ' =
      List.replicate (2 * (l + 1)) ' ' ++ ' ' :: List.replicate (2 * (l' - l) - 1) ' ' := by
    rw [← List.replicate_succ, List.replicate_append_replicate]
    congr 1
    omega
  have hchars := congrArg String.toList huv
  simp only [String.toList_append, Style.indent, String.toList_ofList, hblanks,
    List.append_assoc, List.append_cancel_left_eq, String.toList_singleton, List.cons_append,
    List.cons.injEq] at hchars
  exact hc hchars.1

end Node

end IntelAsm
