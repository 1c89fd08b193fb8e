import IntelAsm.Proofs.Json.Writing
import IntelAsm.Rendering.Emitter

/-!
# Trees as JSON objects

A tree of the parser has an object, and no other tree of its type has the same one: the field `kind`
tells the constructor, and every part of the tree, its place included, is in a field of its own.

An emitter of JSON writes the object of its only program, or the list of the objects of all. The
output is read as just that, up to pairs of surrogates in the texts of the programs; without such
pairs it tells the programs (`output_json`), and with them it does not (`halves_not_told`).
-/

namespace IntelAsm

open Node (toJson itemsToJson optionToJson)

attribute [local simp] toJson itemsToJson optionToJson

variable {τ : Type} [Textual τ]

@[simp] theorem ok_bind {ε α β : Type} (a : α) (f : α → Except ε β) : .ok a >>= f = f a := rfl

/-! ### Objects -/

/-- A node that has an object, and the fields behind its kind. -/
def Node.HasObject (n : Node τ) : Prop := ∃ fs, n.toJson = .ok (.object fs)

/-- By induction on the expression: each constructor has an object of its fields. -/
theorem Expr.hasObject (e : Expr τ) : e.toNode.HasObject := by
  induction e with
  | literal | symbol | here => exact ⟨_, rfl⟩
  | unary op e pos ih =>
    obtain ⟨fs, hfs⟩ := ih
    exact ⟨_, by simp only [Expr.toNode, toJson, hfs]; rfl⟩
  | binary op l r pos ihl ihr =>
    obtain ⟨fs, hfs⟩ := ihl
    obtain ⟨gs, hgs⟩ := ihr
    exact ⟨_, by simp only [Expr.toNode, toJson, hfs, hgs]; rfl⟩

/-- An operand has an object, whichever its form. -/
theorem Operand.hasObject (o : Operand τ) : o.toNode.HasObject := by
  obtain ⟨form, size, pos⟩ := o
  cases form with
  | expression e =>
    obtain ⟨fs, hfs⟩ := e.hasObject
    exact ⟨_, by simp only [Operand.toNode, toJson, hfs]; rfl⟩
  | _ => exact ⟨_, rfl⟩

/-- The parts of a list have objects if each has one. -/
theorem exists_itemsToJson {α : Type} {toNode : α → Node τ} (h : ∀ a, (toNode a).HasObject)
    (as : List α) : ∃ js, itemsToJson (as.map toNode) = .ok js := by
  induction as with
  | nil => exact ⟨[], rfl⟩
  | cons a as ih =>
    obtain ⟨fs, hfs⟩ := h a
    obtain ⟨js, hjs⟩ := ih
    exact ⟨.object fs :: js, by simp only [List.map_cons, itemsToJson, hfs, hjs]; rfl⟩

/-- A part that may be missing has an object or `null`. -/
theorem exists_optionToJson {α : Type} {toNode : α → Node τ} (h : ∀ a, (toNode a).HasObject)
    (a : Option α) : ∃ j, optionToJson (a.map toNode) = .ok j := by
  cases a with
  | none => exact ⟨.null, rfl⟩
  | some a =>
    obtain ⟨fs, hfs⟩ := h a
    exact ⟨_, hfs⟩

theorem Label.hasObject (l : Label τ) : l.toNode.HasObject := ⟨_, rfl⟩

theorem Instruction.hasObject (i : Instruction τ) : i.toNode.HasObject := by
  obtain ⟨os, hos⟩ := exists_itemsToJson Operand.hasObject i.operands
  obtain ⟨d, hd⟩ := exists_optionToJson Expr.hasObject i.directive
  exact ⟨_, by simp only [Instruction.toNode, toJson, hos, hd]; rfl⟩

/-- Every program has an object. -/
theorem Program.hasObject (p : Program τ) : p.toNode.HasObject := by
  obtain ⟨is, his⟩ := exists_itemsToJson Instruction.hasObject p.instructions
  obtain ⟨ls, hls⟩ := exists_itemsToJson Label.hasObject p.labels
  exact ⟨_, by simp only [Program.toNode, toJson, his, hls]; rfl⟩

/-! ### Objects tell their trees -/

namespace Node

/-- The kind of a node that has an object. -/
def kind : Node τ → String
  | .literal .. => "literal"
  | .symbol .. => "symbol"
  | .here .. => "current_location"
  | .unary .. => "unary"
  | .binary .. => "binary"
  | .register .. => "register"
  | .immediate .. => "immediate"
  | .memory .. => "memory"
  | .labelRef .. => "label_ref"
  | .string .. => "string"
  | .expression .. => "expression"
  | .label .. => "label"
  | .instruction .. => "instruction"
  | .program .. => "program"
  | .strayText _ | .strayNumber _ | .strayList _ | .nothing => ""

/-- Where two results in a row succeed, the first did. -/
theorem exists_ok_of_bind {ε α β : Type} {r : Except ε α} {f : α → Except ε β} {b : β}
    (h : r >>= f = .ok b) : ∃ a, r = .ok a ∧ f a = .ok b := by
  cases r with
  | error e => cases h
  | ok a => exact ⟨a, rfl, h⟩

/-- An object tells the kind of its node. -/
theorem exists_kind {n : Node τ} {j : Json} (h : n.toJson = .ok j) :
    ∃ fs, j = .object (("kind", .text n.kind) :: fs) := by
  cases n with
  | unary | expression =>
    rw [toJson] at h
    obtain ⟨a, -, h⟩ := exists_ok_of_bind h
    cases h
    exact ⟨_, rfl⟩
  | binary | instruction | program =>
    rw [toJson] at h
    obtain ⟨a, -, h⟩ := exists_ok_of_bind h
    obtain ⟨b, -, h⟩ := exists_ok_of_bind h
    cases h
    exact ⟨_, rfl⟩
  | strayText | strayNumber | strayList | nothing => cases h
  | _ =>
    cases h
    exact ⟨_, rfl⟩

/-- The object of a node tells its kind. -/
theorem kind_eq {n n' : Node τ} (hn : n.HasObject) (h : n.toJson = n'.toJson) : n.kind = n'.kind := by
  obtain ⟨fs, hfs⟩ := hn
  obtain ⟨gs, hgs⟩ := exists_kind hfs
  obtain ⟨gs', hgs'⟩ := exists_kind (h ▸ hfs)
  rw [hgs] at hgs'
  simp only [Json.object.injEq, List.cons.injEq, Prod.mk.injEq, Json.text_inj] at hgs'
  exact hgs'.1.2

/-- An object tells its kind, its fields and its place. -/
@[simp] theorem placed_inj {kind kind' : String} {fs fs' : List (String × Json)} {pos pos' : Pos} :
    placed kind fs pos = placed kind' fs' pos' ↔ kind = kind' ∧ fs = fs' ∧ pos = pos' := by
  obtain ⟨line, column⟩ := pos
  obtain ⟨line', column'⟩ := pos'
  constructor
  · intro h
    simp only [placed, Json.object.injEq, List.cons.injEq, Prod.mk.injEq, true_and,
      Json.text_inj, List.cons_append] at h
    obtain ⟨hfs, hplace⟩ := List.append_inj' h.2 rfl
    simp only [placeFields, List.cons.injEq, Prod.mk.injEq, Json.integer.injEq] at hplace
    simp [h.1, hfs, hplace]
  · rintro ⟨rfl, rfl, h⟩
    rw [h]

end Node

@[simp] theorem ofOption_integer_inj (a b : Option Int) :
    Json.ofOption .integer a = .ofOption .integer b ↔ a = b := by
  cases a <;> cases b <;> simp [Json.ofOption]

@[simp] theorem optionalText_inj (a b : Option τ) :
    Node.optionalText a = Node.optionalText b ↔ a = b := by
  cases a with
  | none => cases b <;> simp [Node.optionalText, Json.ofOption, Json.text]
  | some a =>
    cases b with
    | none => simp [Node.optionalText, Json.ofOption, Json.text]
    | some b => simp [Node.optionalText, Json.ofOption]

/-- The object of an expression tells the expression, by induction on it. -/
theorem Expr.toJson_inj {e e' : Expr τ} (h : e.toNode.toJson = e'.toNode.toJson) : e = e' := by
  have hkind := Node.kind_eq e.hasObject h
  induction e generalizing e' with
  | literal v hex pos =>
    cases e' with
    | literal => simpa [toNode, and_assoc] using h
    | _ => simp [toNode, Node.kind] at hkind
  | symbol name pos =>
    cases e' with
    | symbol => simpa [toNode] using h
    | _ => simp [toNode, Node.kind] at hkind
  | here pos =>
    cases e' with
    | here => simpa [toNode] using h
    | _ => simp [toNode, Node.kind] at hkind
  | unary op e pos ih =>
    cases e' with
    | unary op' e' pos' =>
      obtain ⟨fs, hfs⟩ := e.hasObject
      obtain ⟨fs', hfs'⟩ := e'.hasObject
      have hfields : (op = op' ∧ fs = fs') ∧ pos = pos' := by
        simpa [toNode, hfs, hfs'] using h
      obtain ⟨⟨rfl, rfl⟩, rfl⟩ := hfields
      have heq := hfs.trans hfs'.symm
      rw [ih heq (Node.kind_eq e.hasObject heq)]
    | _ => simp [toNode, Node.kind] at hkind
  | binary op l r pos ihl ihr =>
    cases e' with
    | binary op' l' r' pos' =>
      obtain ⟨fs, hfs⟩ := l.hasObject
      obtain ⟨fs', hfs'⟩ := l'.hasObject
      obtain ⟨gs, hgs⟩ := r.hasObject
      obtain ⟨gs', hgs'⟩ := r'.hasObject
      have hfields : (op = op' ∧ fs = fs' ∧ gs = gs') ∧ pos = pos' := by
        simpa [toNode, hfs, hfs', hgs, hgs'] using h
      obtain ⟨⟨rfl, rfl, rfl⟩, rfl⟩ := hfields
      have hl := hfs.trans hfs'.symm
      have hr := hgs.trans hgs'.symm
      rw [ihl hl (Node.kind_eq l.hasObject hl), ihr hr (Node.kind_eq r.hasObject hr)]
    | _ => simp [toNode, Node.kind] at hkind

/-- The object of an operand tells the operand, its form by its kind. -/
theorem Operand.toJson_inj {o o' : Operand τ} (h : o.toNode.toJson = o'.toNode.toJson) : o = o' := by
  have hkind := Node.kind_eq o.hasObject h
  obtain ⟨form, size, pos⟩ := o
  obtain ⟨form', size', pos'⟩ := o'
  cases form with
  | register name =>
    cases form' with
    | register => simpa [toNode, Node.sizeField, and_assoc] using h
    | _ => simp [toNode, Node.kind] at hkind
  | immediate v hex =>
    cases form' with
    | immediate => simpa [toNode, Node.sizeField, and_assoc] using h
    | _ => simp [toNode, Node.kind] at hkind
  | memory a =>
    cases form' with
    | memory a' =>
      obtain ⟨base, index, scale, displacement, segment⟩ := a
      obtain ⟨base', index', scale', displacement', segment'⟩ := a'
      simpa [toNode, Node.sizeField, Node.addressFields, and_assoc] using h
    | _ => simp [toNode, Node.kind] at hkind
  | labelRef name =>
    cases form' with
    | labelRef => simpa [toNode, Node.sizeField, and_assoc] using h
    | _ => simp [toNode, Node.kind] at hkind
  | string text =>
    cases form' with
    | string => simpa [toNode, Node.sizeField, and_assoc] using h
    | _ => simp [toNode, Node.kind] at hkind
  | expression e =>
    cases form' with
    | expression e' =>
      obtain ⟨fs, hfs⟩ := e.hasObject
      obtain ⟨fs', hfs'⟩ := e'.hasObject
      have hfields : (fs = fs' ∧ size = size') ∧ pos = pos' := by
        simpa [toNode, hfs, hfs', Node.sizeField] using h
      obtain ⟨⟨rfl, rfl⟩, rfl⟩ := hfields
      rw [Expr.toJson_inj (hfs.trans hfs'.symm)]
    | _ => simp [toNode, Node.kind] at hkind

theorem Label.toJson_inj {l l' : Label τ} (h : l.toNode.toJson = l'.toNode.toJson) : l = l' := by
  obtain ⟨name, pos⟩ := l
  obtain ⟨name', pos'⟩ := l'
  simpa [toNode] using h

section
variable {α : Type} {toNode : α → Node τ}

/-- A list of objects tells the parts if each object tells its own. -/
theorem itemsToJson_inj (hobject : ∀ a, (toNode a).HasObject)
    (hinj : ∀ {a a'}, (toNode a).toJson = (toNode a').toJson → a = a') {as as' : List α}
    (h : itemsToJson (as.map toNode) = itemsToJson (as'.map toNode)) : as = as' := by
  induction as generalizing as' with
  | nil =>
    cases as' with
    | nil => rfl
    | cons a' as' =>
      obtain ⟨fs, hfs⟩ := hobject a'
      obtain ⟨js, hjs⟩ := exists_itemsToJson hobject as'
      rw [List.map_nil, List.map_cons, itemsToJson, itemsToJson, hfs, ok_bind, hjs] at h
      cases h
  | cons a as ih =>
    obtain ⟨fs, hfs⟩ := hobject a
    obtain ⟨js, hjs⟩ := exists_itemsToJson hobject as
    rw [List.map_cons, itemsToJson, hfs, ok_bind, hjs, ok_bind] at h
    cases as' with
    | nil => cases h
    | cons a' as' =>
      obtain ⟨fs', hfs'⟩ := hobject a'
      obtain ⟨js', hjs'⟩ := exists_itemsToJson hobject as'
      rw [List.map_cons, itemsToJson, hfs', ok_bind, hjs', ok_bind] at h
      obtain ⟨hhead, htail⟩ := List.cons.inj (Except.ok.inj h)
      rw [hinj (hfs.trans ((congrArg Except.ok hhead).trans hfs'.symm)),
        ih (hjs.trans ((congrArg Except.ok htail).trans hjs'.symm))]

/-- No object is `null`, so it is told whether the part is there. -/
theorem optionToJson_inj (hobject : ∀ a, (toNode a).HasObject)
    (hinj : ∀ {a a'}, (toNode a).toJson = (toNode a').toJson → a = a') {a a' : Option α}
    (h : optionToJson (a.map toNode) = optionToJson (a'.map toNode)) : a = a' := by
  cases a with
  | none =>
    cases a' with
    | none => rfl
    | some a' =>
      obtain ⟨fs, hfs⟩ := hobject a'
      rw [Option.map_none, Option.map_some, optionToJson, optionToJson, hfs] at h
      cases h
  | some a =>
    cases a' with
    | none =>
      obtain ⟨fs, hfs⟩ := hobject a
      rw [Option.map_some, optionToJson, hfs] at h
      cases h
    | some a' => rw [hinj h]

end

/-- The object of an instruction tells the instruction. -/
theorem Instruction.toJson_inj {i i' : Instruction τ} (h : i.toNode.toJson = i'.toNode.toJson) :
    i = i' := by
  obtain ⟨mnemonic, operands, label, comment, directive, pos⟩ := i
  obtain ⟨mnemonic', operands', label', comment', directive', pos'⟩ := i'
  obtain ⟨os, hos⟩ := exists_itemsToJson Operand.hasObject operands
  obtain ⟨os', hos'⟩ := exists_itemsToJson Operand.hasObject operands'
  obtain ⟨d, hd⟩ := exists_optionToJson Expr.hasObject directive
  obtain ⟨d', hd'⟩ := exists_optionToJson Expr.hasObject directive'
  have hfields : (mnemonic = mnemonic' ∧ os = os' ∧ label = label' ∧ comment = comment' ∧ d = d') ∧
      pos = pos' := by
    simpa [toNode, hos, hos', hd, hd'] using h
  obtain ⟨⟨rfl, rfl, rfl, rfl, rfl⟩, rfl⟩ := hfields
  rw [itemsToJson_inj Operand.hasObject Operand.toJson_inj (hos.trans hos'.symm),
    optionToJson_inj Expr.hasObject Expr.toJson_inj (hd.trans hd'.symm)]

/-- Programs with the same object are equal in everything, places included. -/
theorem Program.toJson_inj {p p' : Program τ} (h : p.toNode.toJson = p'.toNode.toJson) : p = p' := by
  obtain ⟨instructions, labels⟩ := p
  obtain ⟨instructions', labels'⟩ := p'
  obtain ⟨is, his⟩ := exists_itemsToJson Instruction.hasObject instructions
  obtain ⟨is', his'⟩ := exists_itemsToJson Instruction.hasObject instructions'
  obtain ⟨ls, hls⟩ := exists_itemsToJson Label.hasObject labels
  obtain ⟨ls', hls'⟩ := exists_itemsToJson Label.hasObject labels'
  have hfields : ls = ls' ∧ is = is' := by
    simpa [toNode, his, his', hls, hls'] using h
  obtain ⟨rfl, rfl⟩ := hfields
  rw [itemsToJson_inj Instruction.hasObject Instruction.toJson_inj (his.trans his'.symm),
    itemsToJson_inj Label.hasObject Label.toJson_inj (hls.trans hls'.symm)]

/-- The objects of programs tell the programs. -/
theorem programs_inj {ps qs : List (Program τ)} {js : List Json}
    (hps : ps.mapM (·.toNode.toJson) = .ok js) (hqs : qs.mapM (·.toNode.toJson) = .ok js) :
    ps = qs := by
  induction ps generalizing qs js with
  | nil =>
    cases hps
    cases qs with
    | nil => rfl
    | cons q qs =>
      rw [List.mapM_cons] at hqs
      obtain ⟨j, -, hqs⟩ := Node.exists_ok_of_bind hqs
      obtain ⟨ks, -, hqs⟩ := Node.exists_ok_of_bind hqs
      cases hqs
  | cons p ps ih =>
    rw [List.mapM_cons] at hps
    obtain ⟨j, hj, hps⟩ := Node.exists_ok_of_bind hps
    obtain ⟨ks, hks, hps⟩ := Node.exists_ok_of_bind hps
    cases hps
    cases qs with
    | nil => cases hqs
    | cons q qs =>
      rw [List.mapM_cons] at hqs
      obtain ⟨j', hj', hqs⟩ := Node.exists_ok_of_bind hqs
      obtain ⟨ks', hks', hqs⟩ := Node.exists_ok_of_bind hqs
      cases hqs
      rw [Program.toJson_inj (hj.trans hj'.symm), ih hks hks']

/-! ### Objects without pairs of surrogates -/

namespace Json

attribute [local simp] joinPairs joinPairsItems joinPairsFields

@[simp] theorem joinPairs_text_string (s : String) : (text s).joinPairs = text s :=
  congrArg string (joinPairs_of_pairFree (pairFree_codePoints s))

@[simp] theorem joinPairs_ofOption_integer (n : Option Int) :
    (ofOption integer n).joinPairs = ofOption integer n := by
  cases n <;> simp [ofOption]

variable {t : Str} {a : Option Str}

theorem joinPairs_text (h : PairFree t) : (text t).joinPairs = text t :=
  congrArg string (joinPairs_of_pairFree h)

/-- A text that may be missing has no pair to join if it has none itself. -/
theorem joinPairs_optionalText (h : ∀ t ∈ a.toList, PairFree t) :
    (Node.optionalText a).joinPairs = Node.optionalText a := by
  cases a with
  | none => rfl
  | some t => exact joinPairs_text (h t (by simp))

/-- Pairs are joined field by field. -/
theorem joinPairsFields_append (fs gs : List (String × Json)) :
    joinPairsFields (fs ++ gs) = joinPairsFields fs ++ joinPairsFields gs := by
  induction fs with
  | nil => rfl
  | cons f fs ih => simp [ih]

@[simp] theorem joinPairs_placed (kind : String) (fs : List (String × Json)) (pos : Pos) :
    (Node.placed kind fs pos).joinPairs = Node.placed kind (joinPairsFields fs) pos := by
  simp [Node.placed, Node.placeFields, joinPairsFields_append]

@[simp] theorem joinPairsFields_sizeField (size : Option Int) :
    joinPairsFields [Node.sizeField size] = [Node.sizeField size] := by
  simp [Node.sizeField]

end Json

/-- A node whose object has no pair of surrogates. -/
def Node.Told (n : Node Str) : Prop := ∀ j, n.toJson = .ok j → j.joinPairs = j

section
open Json (joinPairs_text joinPairs_optionalText joinPairsItems)

attribute [local simp] Json.joinPairs Json.joinPairsItems Json.joinPairsFields

/-- An expression is told by its object if its texts have no pairs. -/
theorem Expr.told {e : Expr Str} (h : ∀ t ∈ e.texts, PairFree t) : e.toNode.Told := by
  induction e with
  | literal | here =>
    rintro j hj
    cases hj
    simp
  | symbol name pos =>
    rintro j hj
    cases hj
    simp [joinPairs_text (h name (by simp [texts]))]
  | unary op e pos ih =>
    rintro j hj
    simp only [texts, List.forall_mem_cons] at h
    obtain ⟨k, hk, hj⟩ := Node.exists_ok_of_bind hj
    cases hj
    simp [joinPairs_text h.1, ih h.2 k hk]
  | binary op l r pos ihl ihr =>
    rintro j hj
    simp only [texts, List.forall_mem_cons, List.forall_mem_append] at h
    obtain ⟨k, hk, hj⟩ := Node.exists_ok_of_bind hj
    obtain ⟨m, hm, hj⟩ := Node.exists_ok_of_bind hj
    cases hj
    simp [joinPairs_text h.1, ihl h.2.1 k hk, ihr h.2.2 m hm]

/-- So is an operand. -/
theorem Operand.told {o : Operand Str} (h : ∀ t ∈ o.texts, PairFree t) : o.toNode.Told := by
  obtain ⟨form, size, pos⟩ := o
  rintro j hj
  cases form with
  | register t | labelRef t | string t =>
    cases hj
    have ht := joinPairs_text (h t (by simp [texts]))
    simp [Node.sizeField, ht]
  | immediate =>
    cases hj
    simp [Node.sizeField]
  | memory a =>
    cases hj
    simp only [texts, Address.texts, List.forall_mem_append] at h
    obtain ⟨⟨hbase, hindex⟩, hsegment⟩ := h
    simp [Node.addressFields, Node.sizeField, joinPairs_optionalText hbase,
      joinPairs_optionalText hindex, joinPairs_optionalText hsegment]
  | expression e =>
    obtain ⟨k, hk, hj⟩ := Node.exists_ok_of_bind hj
    cases hj
    simp [Node.sizeField, Expr.told h k hk]

theorem Label.told {l : Label Str} (h : PairFree l.name) : l.toNode.Told := by
  rintro j hj
  cases hj
  simp [joinPairs_text h]

/-- So is a list whose parts are. -/
theorem joinPairsItems_of_told {α : Type} {toNode : α → Node Str} {as : List α} {js : List Json}
    (h : ∀ a ∈ as, (toNode a).Told) (hjs : itemsToJson (as.map toNode) = .ok js) :
    joinPairsItems js = js := by
  induction as generalizing js with
  | nil =>
    cases hjs
    rfl
  | cons a as ih =>
    obtain ⟨ha, has⟩ := List.forall_mem_cons.1 h
    obtain ⟨j, hj, hjs⟩ := Node.exists_ok_of_bind hjs
    obtain ⟨ks, hks, hjs⟩ := Node.exists_ok_of_bind hjs
    cases hjs
    rw [joinPairsItems, ha j hj, ih has hks]

/-- So is the expression of an equate. -/
theorem joinPairs_of_optionToJson {e : Option (Expr Str)} {j : Json}
    (h : ∀ e' ∈ e.toList, ∀ t ∈ e'.texts, PairFree t)
    (hj : optionToJson (e.map Expr.toNode) = .ok j) : j.joinPairs = j := by
  cases e with
  | none =>
    cases hj
    rfl
  | some e => exact Expr.told (h e (by simp)) j hj

/-- So is an instruction. -/
theorem Instruction.told {i : Instruction Str} (h : ∀ t ∈ i.texts, PairFree t) :
    i.toNode.Told := by
  rintro j hj
  simp only [texts, List.forall_mem_cons, List.forall_mem_append, List.forall_mem_flatMap] at h
  obtain ⟨hmnemonic, ⟨⟨hoperands, hlabel⟩, hcomment⟩, hdirective⟩ := h
  obtain ⟨os, hos, hj⟩ := Node.exists_ok_of_bind hj
  obtain ⟨d, hd, hj⟩ := Node.exists_ok_of_bind hj
  cases hj
  have hitems := joinPairsItems_of_told (fun o ho => Operand.told (hoperands o ho)) hos
  have hequate := joinPairs_of_optionToJson hdirective hd
  simp [joinPairs_text hmnemonic, hitems, joinPairs_optionalText hlabel,
    joinPairs_optionalText hcomment, hequate]

/-- Without pairs in the texts of a program there are none in its object. -/
theorem Program.told {p : Program Str} (h : p.PairFree) : p.toNode.Told := by
  rintro j hj
  simp only [Program.PairFree, texts, List.forall_mem_append, List.forall_mem_flatMap,
    List.forall_mem_map] at h
  obtain ⟨ls, hls, hj⟩ := Node.exists_ok_of_bind hj
  obtain ⟨is, his, hj⟩ := Node.exists_ok_of_bind hj
  cases hj
  have hlabels := joinPairsItems_of_told (fun l hl => Label.told (h.2 l hl)) hls
  have hinstructions := joinPairsItems_of_told (fun i hi => Instruction.told (h.1 i hi)) his
  simp [hlabels, hinstructions]

end

/-! ### Output -/

namespace JsonEmitter

/-- The value of an output: the only document, or the list of all. -/
def valueOf : List Json → Json
  | [j] => j
  | js => .array js

/-- The output is the value of all documents, written with the layout that was asked for. -/
theorem output_eq (s : JsonEmitter) :
    s.output = (valueOf s.documents.toList).write (.ofIndent s.indent) := by
  unfold output valueOf
  rcases s.documents.toList with _ | ⟨j, _ | ⟨k, ks⟩⟩ <;> rfl

/-- Adds programs, one after the other. -/
def emitAll (ps : List (Program τ)) : EStateM RenderError JsonEmitter Unit :=
  ps.forM fun p => emit p.toNode

/-- The documents of an emitter are the objects of the programs that were emitted. -/
theorem exists_emitAll (s : JsonEmitter) (ps : List (Program τ)) :
    ∃ objects : List (List (String × Json)),
      ps.mapM (·.toNode.toJson) = .ok (objects.map .object) ∧
      emitAll ps s =
        .ok () { s with documents := s.documents ++ (objects.map .object).toArray } := by
  induction ps generalizing s with
  | nil => exact ⟨[], rfl, by simp [emitAll]; rfl⟩
  | cons p ps ih =>
    obtain ⟨fs, hfs⟩ := p.hasObject
    obtain ⟨objects, hobjects, hemit⟩ := ih { s with documents := s.documents.push (.object fs) }
    have hfirst : emit p.toNode s =
        .ok () { s with documents := s.documents.push (.object fs) } := by
      simp only [emit, hfs]
    refine ⟨fs :: objects, by simp [hfs, hobjects], ?_⟩
    show EStateM.bind (emit p.toNode) (fun _ => emitAll ps) s = _
    unfold EStateM.bind
    rw [hfirst]
    show emitAll ps { s with documents := s.documents.push (.object fs) } = _
    rw [hemit]
    simp

/-- A single object is told from a list. -/
theorem valueOf_inj {fss gss : List (List (String × Json))}
    (h : valueOf (fss.map .object) = valueOf (gss.map .object)) :
    fss.map Json.object = gss.map .object := by
  match fss, gss with
  | [fs], [gs] =>
    rw [List.map_singleton, List.map_singleton, show Json.object fs = .object gs from h]
  | [], [] => rfl
  | [_], [] | [_], _ :: _ :: _ | [], [_] | _ :: _ :: _, [_] => cases h
  | [], _ :: _ :: _ | _ :: _ :: _, [] | _ :: _ :: _, _ :: _ :: _ => exact Json.array.inj h

/-- An emitter takes every program, and its output is made of their objects in order. -/
theorem output_emitAll (indent : Option Int) (ps : List (Program τ)) :
    ∃ (objects : List (List (String × Json))) (s : JsonEmitter),
      ps.mapM (·.toNode.toJson) = .ok (objects.map .object) ∧
      emitAll ps { indent } = .ok () s ∧
      s.output = (valueOf (objects.map .object)).write (.ofIndent indent) := by
  obtain ⟨objects, hps, hs⟩ := exists_emitAll { indent } ps
  exact ⟨objects, _, hps, hs, by rw [output_eq]; simp⟩

/-- Documents of programs without pairs have none. -/
theorem joinPairs_valueOf {ps : List (Program Str)} {js : List Json} (h : ∀ p ∈ ps, p.PairFree)
    (hps : ps.mapM (·.toNode.toJson) = .ok js) : (valueOf js).joinPairs = valueOf js := by
  have hitems : Json.joinPairsItems js = js := by
    induction ps generalizing js with
    | nil =>
      cases hps
      rfl
    | cons p ps ih =>
      obtain ⟨hp, hall⟩ := List.forall_mem_cons.1 h
      rw [List.mapM_cons] at hps
      obtain ⟨j, hj, hps⟩ := Node.exists_ok_of_bind hps
      obtain ⟨ks, hks, hps⟩ := Node.exists_ok_of_bind hps
      cases hps
      rw [Json.joinPairsItems, Program.told hp j hj, ih hall hks]
  unfold valueOf
  split
  · simpa [Json.joinPairsItems] using hitems
  · rw [Json.joinPairs, hitems]

/-- For every indentation and all programs: their objects exist, emitting the programs does not
fail, and by the grammar the output stands for the only object or for the list of all objects, in
order, with each pair of surrogates joined. Where the texts of the programs have no such pair, there
is nothing to join, and no other programs of this kind have this output, under whatever
indentation. -/
theorem output_json (indent : Option Int) (ps : List (Program Str)) :
    ∃ js s, ps.mapM (·.toNode.toJson) = .ok js ∧ emitAll ps { indent } = .ok () s ∧
      (∀ j, Json.Document j s.output.toList ↔ j = (valueOf js).joinPairs) ∧
      ((∀ p ∈ ps, p.PairFree) → (valueOf js).joinPairs = valueOf js ∧
        ∀ indent' (qs : List (Program Str)) s', (∀ q ∈ qs, q.PairFree) →
          emitAll qs { indent := indent' } = .ok () s' → s'.output = s.output → qs = ps) := by
  obtain ⟨objects, s, hps, hs, houtput⟩ := output_emitAll indent ps
  refine ⟨objects.map .object, s, hps, hs, ?_, fun hfree => ?_⟩
  · intro j
    rw [houtput]
    exact Json.document_write_iff (.ofIndent indent) _ j
  have hjoined := joinPairs_valueOf hfree hps
  refine ⟨hjoined, fun indent' qs s' hfree' hs' heq => ?_⟩
  obtain ⟨objects', s'', hqs, hs'', houtput'⟩ := output_emitAll indent' qs
  obtain ⟨-, rfl⟩ := EStateM.Result.ok.inj (hs''.symm.trans hs')
  -- the same text stands for the values of both
  have hdocument := Json.document_write (.ofIndent indent') (valueOf (objects'.map .object))
  rw [← houtput', heq, houtput, Json.document_write_iff, joinPairs_valueOf hfree' hqs,
    hjoined] at hdocument
  rw [valueOf_inj hdocument] at hqs
  exact programs_inj hqs hps

/-- A program that declares one label. -/
def declaring (name : Str) : Program Str := { labels := [{ name }] }

/-- The object of such a program. -/
def objectDeclaring (name : Str) : Json :=
  .object [("kind", .text "program"),
    ("labels", .array [Node.placed "label" [("name", .text name)] {}]), ("instructions", .array [])]

/-- Low and high surrogates apart from each other stand for themselves. -/
def lowAndHigh : Str := [⟨0xDE00, by decide⟩, ⟨0xD83D, by decide⟩]

theorem output_json_of_lowAndHigh :
    (∀ p ∈ [declaring lowAndHigh], p.PairFree) ∧
      ∃ s, emitAll [declaring lowAndHigh] { indent := some 2 } = .ok () s ∧
        (∀ j, Json.Document j s.output.toList ↔ j = objectDeclaring lowAndHigh) ∧
        ∀ indent' (qs : List (Program Str)) s', (∀ q ∈ qs, q.PairFree) →
          emitAll qs { indent := indent' } = .ok () s' → s'.output = s.output →
            qs = [declaring lowAndHigh] := by
  have hfree : ∀ p ∈ [declaring lowAndHigh], p.PairFree := by
    simp only [List.mem_singleton, forall_eq, Program.PairFree]
    decide
  obtain ⟨js, s, hjs, hs, hdocument, hrest⟩ := output_json (some 2) [declaring lowAndHigh]
  obtain ⟨hjoined, htold⟩ := hrest hfree
  cases hjs
  exact ⟨hfree, s, hs, fun j => (hdocument j).trans (by rw [hjoined]; rfl), htold⟩

/-- The two halves of a pair. -/
def halves : Str := [⟨0xD83D, by decide⟩, ⟨0xDE00, by decide⟩]

/-- The code point for which they stand. -/
def whole : Str := [⟨0x1F600, by decide⟩]

/-- A pair of surrogates in a label is written like the code point of the pair. So the output is not
read as the object of the program, and another program has the same output. -/
theorem halves_not_told :
    declaring halves ≠ declaring whole ∧
      ∃ s s', emitAll [declaring halves] { indent := none } = .ok () s ∧
        emitAll [declaring whole] { indent := none } = .ok () s' ∧ s.output = s'.output ∧
        (declaring halves).toNode.toJson = .ok (objectDeclaring halves) ∧
        ¬Json.Document (objectDeclaring halves) s.output.toList := by
  refine ⟨by decide, ⟨none, #[objectDeclaring halves]⟩, ⟨none, #[objectDeclaring whole]⟩, rfl, rfl,
    by decide +kernel, rfl, ?_⟩
  rw [output_eq]
  intro h
  have hjoin : (objectDeclaring halves).joinPairs = objectDeclaring whole := rfl
  have heq := (Json.document_write_iff _ (objectDeclaring halves) _).1 h
  rw [hjoin] at heq
  have hname : halves = whole := by simpa [objectDeclaring] using heq
  exact absurd hname (by decide)

end JsonEmitter

end IntelAsm
