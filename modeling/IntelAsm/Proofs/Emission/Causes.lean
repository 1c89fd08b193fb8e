import IntelAsm.Proofs.Emission.Levels

/-!
# Why a node cannot be rendered

Trees of the parser can be rendered; nodes put together by hand may hold what no style can write
(`Node.Hinders`): a size that has no specifier, something that is no statement among the
instructions of a program, or a value that is no part of a tree. With such a value every style fails
just as the one that has no rules (`Node.renderBare`). There is no other cause, in either style and
at any level (`Node.hinders_of_error`).
-/

namespace IntelAsm.Node

/-- A node, and every node that it holds at some depth. -/
inductive Holds : Node → Node → Prop where
  | self (n : Node) : Holds n n
  | child {n m k : Node} (hm : m ∈ n.children) (hk : Holds m k) : Holds n k

/-- The size of an operand that has one. -/
def size? : Node → Option Int
  | .register _ size _ | .immediate _ _ size _ | .memory _ size _ | .labelRef _ size _
  | .string _ size _ | .expression _ size _ => size
  | _ => none

/-- What may keep a node from being rendered. -/
inductive Hinders (n : Node) : RenderError → Prop where
  | stray {m : Node} (hm : n.Holds m) (hstray : m.isNode = false) : Hinders n m.renderBare
  | unknownSize {m : Node} {bits : Int} (hm : n.Holds m) (hsize : m.size? = some bits)
      (hbits : Width.ofBits? bits = none) : Hinders n (.unknownSize bits)
  | noStatement {is ls : List Node} {m : Node} (hp : n.Holds (.program is ls)) (hm : m ∈ is)
      (hstatement : m.statement? = none) : Hinders n (.lacks m.typeName "label")

/-- What hinders a part hinders the whole. -/
theorem Hinders.of_child {n m : Node} {e : RenderError} (hm : m ∈ n.children)
    (h : m.Hinders e) : n.Hinders e := by
  cases h with
  | stray hk hstray => exact .stray (.child hm hk) hstray
  | unknownSize hk hsize hbits => exact .unknownSize (.child hm hk) hsize hbits
  | noStatement hk hmem hstatement => exact .noStatement (.child hm hk) hmem hstatement

/-! ### Results that fail for a cause -/

section
variable {α β : Type} {P : RenderError → Prop}

/-- A result that is a value, or a failure for a cause of a kind. -/
def FailsFor (P : RenderError → Prop) (r : Except RenderFailure α) : Prop :=
  ∀ f, r = .error f → P f.cause

theorem failsFor_ok (a : α) : FailsFor P (.ok a) := nofun

/-- Two results in a row fail for such a cause if each of them does. -/
theorem failsFor_bind {r : Except RenderFailure α} {f : α → Except RenderFailure β}
    (h : FailsFor P r) (hf : ∀ a, FailsFor P (f a)) : FailsFor P (r >>= f) := by
  intro e he
  rcases error_of_bind he with hr | ⟨a, -, ha⟩
  · exact h e hr
  · exact hf a e ha

theorem FailsFor.of_child {n m : Node} {r : Except RenderFailure α} (h : FailsFor m.Hinders r)
    (hm : m ∈ n.children) : FailsFor n.Hinders r := fun f hf => (h f hf).of_child hm

end

section
variable {n : Node} {l : Nat}

/-- A size is written, or it is one without a specifier. -/
theorem failsFor_sizeSpecifier : FailsFor n.Hinders (Style.sizeSpecifier l n.size?) := by
  intro f hf
  cases hsize : n.size? with
  | none =>
    rw [hsize] at hf
    cases hf
  | some bits =>
    simp only [Style.sizeSpecifier, hsize] at hf
    cases hbits : Width.ofBits? bits with
    | some w =>
      rw [hbits] at hf
      cases hf
    | none =>
      rw [hbits] at hf
      cases hf
      exact .unknownSize (.self n) hsize hbits

/-- A value that is no part of a tree is refused, as it is without rules. -/
theorem failsFor_stray (hn : n.isNode = false) :
    FailsFor n.Hinders (.error ⟨.notANode n.typeName, l⟩ : Except RenderFailure String) := by
  intro f hf
  have hbare : n.renderBare = .notANode n.typeName := by
    rw [renderBare, hn]
    rfl
  cases hf
  rw [← hbare]
  exact .stray (.self n) hn

/-- A list fails where one of its parts does. -/
theorem failsFor_renderItems {style : Style} {ns : List Node} (hns : ∀ m ∈ ns, m ∈ n.children)
    (h : ∀ m ∈ n.children, ∀ l, FailsFor m.Hinders (m.render style l)) :
    FailsFor n.Hinders (renderItems style l ns) := by
  induction ns with
  | nil => exact failsFor_ok []
  | cons m ns ih =>
    obtain ⟨hm, hns⟩ := List.forall_mem_cons.1 hns
    rw [renderItems]
    apply failsFor_bind ((h m hm l).of_child hm)
    intro t
    apply failsFor_bind (ih hns)
    intro ts
    exact failsFor_ok _

/-- Source fails where an instruction does, or something that is none. -/
theorem failsFor_renderSource {is ls ns : List Node} (hns : ∀ m ∈ ns, m ∈ is)
    (h : ∀ m ∈ (program is ls).children, ∀ l, FailsFor m.Hinders (m.render .assembly l)) :
    FailsFor (program is ls).Hinders (renderSource l ns) := by
  induction ns with
  | nil => exact failsFor_ok []
  | cons m ns ih =>
    obtain ⟨hm, hns⟩ := List.forall_mem_cons.1 hns
    have hchild : m ∈ (program is ls).children := List.mem_append_left ls hm
    rw [renderSource]
    cases hstatement : m.statement? with
    | none =>
      intro f hf
      cases hf
      exact .noStatement (.self _) hm hstatement
    | some statement =>
      obtain ⟨name, anchors⟩ := statement
      cases anchors with
      | true =>
        apply failsFor_bind (ih hns)
        intro ts
        exact failsFor_ok _
      | false =>
        apply failsFor_bind ((h m hchild l).of_child hchild)
        intro t
        apply failsFor_bind (ih hns)
        intro ts
        exact failsFor_ok _

end

/-! ### Renderings -/

/-- By induction on the node: each fails for its own size, or where a part does. -/
theorem failsFor_render (style : Style) (n : Node) (l : Nat) :
    FailsFor n.Hinders (n.render style l) := by
  induction n using induct generalizing l with
  | step n ih =>
    have hchild {m : Node} (hm : m ∈ n.children) : FailsFor n.Hinders (m.render style l) :=
      (ih m hm l).of_child hm
    cases n with
    | literal | symbol | here | label =>
      rw [render]
      exact failsFor_ok _
    | strayText | strayNumber | strayList | nothing =>
      rw [render]
      exact failsFor_stray rfl
    | register | immediate | memory | labelRef | string =>
      rw [render]
      exact failsFor_bind failsFor_sizeSpecifier fun s => failsFor_ok _
    | unary op e pos =>
      rw [render]
      exact failsFor_bind (hchild (by simp [children])) fun t => failsFor_ok _
    | binary op a b pos =>
      rw [render]
      apply failsFor_bind (hchild (by simp [children]))
      intro t
      exact failsFor_bind (hchild (by simp [children])) fun u => failsFor_ok _
    | expression e size pos =>
      rw [render]
      apply failsFor_bind failsFor_sizeSpecifier
      intro s
      exact failsFor_bind (hchild (by simp [children])) fun t => failsFor_ok _
    | instruction mnemonic os label comment directive pos =>
      cases directive with
      | some e =>
        rw [render]
        exact failsFor_bind (hchild (by simp [children])) fun t => failsFor_ok _
      | none =>
        rw [render]
        refine failsFor_bind (failsFor_renderItems (fun m hm => ?_) ih) fun ts => failsFor_ok _
        exact List.mem_append_left _ hm
    | program is ls =>
      cases style with
      | outline =>
        rw [render]
        apply failsFor_bind (failsFor_renderItems (fun m hm => List.mem_append_right is hm) ih)
        intro ts
        refine failsFor_bind ?_ fun us => failsFor_ok _
        exact failsFor_renderItems (fun m hm => List.mem_append_left ls hm) ih
      | assembly =>
        rw [render]
        exact failsFor_bind (failsFor_renderSource (fun m hm => hm) ih) fun ts => failsFor_ok _

/-- A node that cannot be rendered, in whatever style, holds something that hinders it. -/
theorem hinders_of_error {style : Style} {n : Node} {l : Nat} {f : RenderFailure}
    (h : n.render style l = .error f) : n.Hinders f.cause :=
  n.failsFor_render style l f h

end IntelAsm.Node
