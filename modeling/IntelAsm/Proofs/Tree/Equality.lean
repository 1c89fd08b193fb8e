import IntelAsm.Proofs.Emission.Levels

/-!
# Equality of nodes

Nodes are compared in everything but their places (`Node.same`), by a traversal of its own. Two
other traversals agree with it. The objects of two nodes, without the fields that tell places, are
equal as dictionaries if and only if the nodes are the same (`Node.Agrees`, one law for each node).
And a rendering depends on no place (`Node.render_withoutPlaces`), so nodes that are the same are
rendered alike. The results are joined in `Node.same_exact`.

Nodes are those of trees put together by hand too; only values in the place of nodes, which have no
object, are left out where objects are compared (`Node.IsTree`).
-/

namespace IntelAsm

/-! ### JSON values without places -/

namespace Json

mutual
/-- A value without the fields that tell places, at every depth. -/
def withoutPlaces : Json → Json
  | .array items => .array (itemsWithoutPlaces items)
  | .object fields => .object (fieldsWithoutPlaces fields)
  | .null => .null
  | .bool b => .bool b
  | .integer n => .integer n
  | .string s => .string s

/-- The items of a list without places. -/
def itemsWithoutPlaces : List Json → List Json
  | [] => []
  | x :: xs => x.withoutPlaces :: itemsWithoutPlaces xs

/-- The fields of an object without places. -/
def fieldsWithoutPlaces : List (String × Json) → List (String × Json)
  | [] => []
  | (k, x) :: fs =>
    if k = "line" ∨ k = "col" then fieldsWithoutPlaces fs
    else (k, x.withoutPlaces) :: fieldsWithoutPlaces fs
end

mutual
/-- Whether two values are equal as dictionaries and lists are: the order of fields does not matter,
that of items does. -/
def alike : Json → Json → Bool
  | .null, .null => true
  | .bool b, .bool b' => b = b'
  | .integer n, .integer n' => n = n'
  | .string s, .string s' => s = s'
  | .array xs, .array ys => alikeItems xs ys
  | .object fs, .object gs => fs.length = gs.length && alikeFields fs gs
  | _, _ => false

/-- Whether two lists are alike item by item. -/
def alikeItems : List Json → List Json → Bool
  | [], [] => true
  | x :: xs, y :: ys => x.alike y && alikeItems xs ys
  | _, _ => false

/-- Whether all fields of an object are found in another one, with values that are alike. -/
def alikeFields : List (String × Json) → List (String × Json) → Bool
  | [], _ => true
  | (k, x) :: fs, gs =>
    (match gs.lookup k with
      | some y => x.alike y
      | none => false) && alikeFields fs gs
end

theorem fieldsWithoutPlaces_append (fs gs : List (String × Json)) :
    fieldsWithoutPlaces (fs ++ gs) = fieldsWithoutPlaces fs ++ fieldsWithoutPlaces gs := by
  induction fs with
  | nil => rfl
  | cons f fs ih =>
    simp only [List.cons_append, fieldsWithoutPlaces, ih]
    split <;> rfl

end Json

namespace Node

attribute [local simp] Json.withoutPlaces Json.fieldsWithoutPlaces Json.alike Json.alikeFields
  List.lookup_cons

@[simp] theorem withoutPlaces_text (s : String) : (Json.text s).withoutPlaces = Json.text s := by
  simp only [Json.text, Json.withoutPlaces]

@[simp] theorem alike_text (s t : String) :
    (Json.text s).alike (Json.text t) = decide (s = t) := by
  have htext : (Textual.codePoints s = Textual.codePoints t) = (s = t) :=
    propext ⟨Textual.injective, congrArg _⟩
  simp only [Json.text, Json.alike, htext]

theorem withoutPlaces_placed (kind : String) (fields : List (String × Json)) (pos : Pos) :
    (placed kind fields pos).withoutPlaces =
      .object (("kind", .text kind) :: Json.fieldsWithoutPlaces fields) := by
  simp [placed, placeFields, Json.fieldsWithoutPlaces_append]

@[simp] theorem alike_ofOption_integer (a b : Option Int) :
    (Json.ofOption .integer a).withoutPlaces.alike (Json.ofOption .integer b).withoutPlaces =
      decide (a = b) := by
  cases a <;> cases b <;> simp [Json.ofOption]

@[simp] theorem alike_optionalText (a b : Option String) :
    (optionalText a).withoutPlaces.alike (optionalText b).withoutPlaces = decide (a = b) := by
  cases a with
  | none => cases b <;> simp [optionalText, Json.ofOption, Json.text]
  | some a =>
    cases b with
    | none => simp [optionalText, Json.ofOption, Json.text]
    | some b => simp [optionalText, Json.ofOption]

/-- Nodes that are the same are of one kind. -/
theorem kind_eq_of_same {a b : Node} (h : a.same b) : a.kind = b.kind := by
  fun_cases Node.same a b <;> simp_all [Node.kind, Node.same]

/-- What results behind one action results from its value. -/
theorem exists_of_bind_pure {ε α β : Type} {r : Except ε α} {f : α → β} {b : β}
    (h : (r >>= fun a => pure (f a)) = .ok b) : ∃ a, r = .ok a ∧ f a = b := by
  obtain ⟨a, ha, h⟩ := exists_ok_of_bind h
  exact ⟨a, ha, Except.ok.inj h⟩

/-- What results behind two actions results from both values. -/
theorem exists_of_bind_bind_pure {ε α α' β : Type} {r : Except ε α} {r' : Except ε α'}
    {f : α → α' → β} {b : β} (h : (r >>= fun a => r' >>= fun a' => pure (f a a')) = .ok b) :
    ∃ a a', r = .ok a ∧ r' = .ok a' ∧ f a a' = b := by
  obtain ⟨a, ha, h⟩ := exists_ok_of_bind h
  obtain ⟨a', ha', h⟩ := exists_of_bind_pure h
  exact ⟨a, a', ha, ha', h⟩

/-! ### Objects without places -/

/-- A value that is a node, and so are its children, theirs, and so on. -/
inductive IsTree : Node → Prop
  | intro {n : Node} : n.isNode → (∀ m ∈ n.children, IsTree m) → IsTree n

/-- A list has objects if each of its nodes has. -/
theorem exists_itemsToJson_of_forall {ns : List Node} (h : ∀ n ∈ ns, ∃ j, n.toJson = .ok j) :
    ∃ js, itemsToJson ns = .ok js := by
  induction ns with
  | nil => exact ⟨[], rfl⟩
  | cons n ns ih =>
    obtain ⟨hn, hns⟩ := List.forall_mem_cons.1 h
    obtain ⟨j, hj⟩ := hn
    obtain ⟨js, hjs⟩ := ih hns
    exact ⟨j :: js, by rw [itemsToJson, hj, hjs]; rfl⟩

/-- A tree has an object. -/
theorem IsTree.exists_toJson {n : Node} (h : n.IsTree) : ∃ j, n.toJson = .ok j := by
  induction h with
  | @intro n hn _ ih =>
    cases n with
    | unary op e pos | expression e size pos =>
      obtain ⟨j, hj⟩ := ih e (by simp [children])
      exact ⟨_, by rw [toJson, hj]; rfl⟩
    | binary op l r pos =>
      obtain ⟨j, hj⟩ := ih l (by simp [children])
      obtain ⟨k, hk⟩ := ih r (by simp [children])
      exact ⟨_, by rw [toJson, hj, hk]; rfl⟩
    | instruction mnemonic os label comment directive pos =>
      obtain ⟨js, hjs⟩ := exists_itemsToJson_of_forall fun o ho => ih o (List.mem_append_left _ ho)
      cases directive with
      | none => exact ⟨_, by rw [toJson, hjs]; rfl⟩
      | some e =>
        obtain ⟨j, hj⟩ := ih e (by simp [children])
        exact ⟨_, by rw [toJson, hjs, optionToJson, hj]; rfl⟩
    | program is ls =>
      obtain ⟨js, hjs⟩ := exists_itemsToJson_of_forall fun i hi => ih i (List.mem_append_left ls hi)
      obtain ⟨ks, hks⟩ := exists_itemsToJson_of_forall fun l hl => ih l (List.mem_append_right is hl)
      exact ⟨_, by rw [toJson, hks, hjs]; rfl⟩
    | strayText | strayNumber | strayList | nothing => cases hn
    | _ => exact ⟨_, rfl⟩

/-- Wherever this node and another one have objects, these are alike without their places if and
only if the nodes are the same. -/
def Agrees (a : Node) : Prop :=
  ∀ b j k, a.toJson = .ok j → b.toJson = .ok k →
    j.withoutPlaces.alike k.withoutPlaces = a.same b

/-- Objects of different kinds are not alike, and neither are their nodes the same. -/
theorem agrees_of_kind {a : Node}
    (h : ∀ b j k, a.kind = b.kind → a.toJson = .ok j → b.toJson = .ok k →
      j.withoutPlaces.alike k.withoutPlaces = a.same b) : Agrees a := by
  intro b j k hj hk
  by_cases hkind : a.kind = b.kind
  · exact h b j k hkind hj hk
  · obtain ⟨fs, rfl⟩ := exists_kind hj
    obtain ⟨gs, rfl⟩ := exists_kind hk
    have hsame : a.same b = false := Bool.eq_false_iff.2 fun h => hkind (kind_eq_of_same h)
    simp [hsame, hkind]

/-! ### One law for each node -/

section
variable {e l r : Node} {os is ls ns ms : List Node} {d d' : Option Node} {op : String}
  {size : Option Int} {pos : Pos}

/-- Lists are the same just if their objects are alike, one by one. -/
theorem alikeItems_of_toJson {js ks : List Json} (h : ∀ n ∈ ns, Agrees n)
    (hjs : itemsToJson ns = .ok js) (hks : itemsToJson ms = .ok ks) :
    Json.alikeItems (Json.itemsWithoutPlaces js) (Json.itemsWithoutPlaces ks) =
      sameItems ns ms := by
  induction ns generalizing ms js ks with
  | nil =>
    cases hjs
    cases ms with
    | nil =>
      cases hks
      rfl
    | cons m ms =>
      rw [itemsToJson] at hks
      obtain ⟨k, ks, -, -, rfl⟩ := exists_of_bind_bind_pure hks
      rfl
  | cons n ns ih =>
    rw [itemsToJson] at hjs
    obtain ⟨j, js, hj, hns, rfl⟩ := exists_of_bind_bind_pure hjs
    cases ms with
    | nil =>
      cases hks
      rfl
    | cons m ms =>
      rw [itemsToJson] at hks
      obtain ⟨k, ks, hk, hms, rfl⟩ := exists_of_bind_bind_pure hks
      obtain ⟨hagrees, hall⟩ := List.forall_mem_cons.1 h
      simp only [Json.itemsWithoutPlaces, Json.alikeItems, sameItems, hagrees m j k hj hk,
        ih hall hns hms]

/-- So it is with a node that may be absent. -/
theorem alike_of_optionToJson {j k : Json} (h : ∀ n, d = some n → Agrees n)
    (hj : optionToJson d = .ok j) (hk : optionToJson d' = .ok k) :
    j.withoutPlaces.alike k.withoutPlaces = sameOption d d' := by
  cases d with
  | none =>
    cases hj
    cases d' with
    | none =>
      cases hk
      rfl
    | some m =>
      obtain ⟨gs, rfl⟩ := exists_kind hk
      simp [sameOption]
  | some n =>
    cases d' with
    | none =>
      cases hk
      obtain ⟨fs, rfl⟩ := exists_kind hj
      simp [sameOption]
    | some m => exact h n rfl m j k hj hk

/-- A sign and what it stands in front of decide. -/
theorem agrees_unary (h : Agrees e) : Agrees (.unary op e pos) := by
  apply agrees_of_kind
  intro b j k hkind hj hk
  cases b with
  | unary op' e' pos' =>
    rw [toJson] at hj hk
    obtain ⟨x, hx, rfl⟩ := exists_of_bind_pure hj
    obtain ⟨y, hy, rfl⟩ := exists_of_bind_pure hk
    simp [withoutPlaces_placed, same, h e' x y hx hy]
  | _ => simp [kind] at hkind

/-- An operator and both its sides decide. -/
theorem agrees_binary (hl : Agrees l) (hr : Agrees r) : Agrees (.binary op l r pos) := by
  apply agrees_of_kind
  intro b j k hkind hj hk
  cases b with
  | binary op' l' r' pos' =>
    rw [toJson] at hj hk
    obtain ⟨x, x', hx, hx', rfl⟩ := exists_of_bind_bind_pure hj
    obtain ⟨y, y', hy, hy', rfl⟩ := exists_of_bind_bind_pure hk
    simp [withoutPlaces_placed, same, hl l' x y hx hy, hr r' x' y' hx' hy', Bool.and_assoc]
  | _ => simp [kind] at hkind

/-- All parts of an address decide. -/
theorem agrees_memory (a : Address) : Agrees (.memory a size pos) := by
  apply agrees_of_kind
  intro b j k hkind hj hk
  cases b with
  | memory a' size' pos' =>
    cases hj
    cases hk
    obtain ⟨base, index, scale, displacement, segment⟩ := a
    obtain ⟨base', index', scale', displacement', segment'⟩ := a'
    simp [withoutPlaces_placed, same, addressFields, sizeField, Bool.and_assoc]
  | _ => simp [kind] at hkind

/-- The expression and its size decide. -/
theorem agrees_expression (h : Agrees e) : Agrees (.expression e size pos) := by
  apply agrees_of_kind
  intro b j k hkind hj hk
  cases b with
  | expression e' size' pos' =>
    rw [toJson] at hj hk
    obtain ⟨x, hx, rfl⟩ := exists_of_bind_pure hj
    obtain ⟨y, hy, rfl⟩ := exists_of_bind_pure hk
    simp [withoutPlaces_placed, same, sizeField, h e' x y hx hy]
  | _ => simp [kind] at hkind

/-- All that an instruction holds decides, but not its place. -/
theorem agrees_instruction {mnemonic : String} {label comment : Option String}
    (hos : ∀ o ∈ os, Agrees o) (hd : ∀ e, d = some e → Agrees e) :
    Agrees (.instruction mnemonic os label comment d pos) := by
  apply agrees_of_kind
  intro b j k hkind hj hk
  cases b with
  | instruction mnemonic' os' label' comment' d' pos' =>
    rw [toJson] at hj hk
    obtain ⟨xs, x, hxs, hx, rfl⟩ := exists_of_bind_bind_pure hj
    obtain ⟨ys, y, hys, hy, rfl⟩ := exists_of_bind_bind_pure hk
    simp [withoutPlaces_placed, same, alikeItems_of_toJson hos hxs hys,
      alike_of_optionToJson hd hx hy, Bool.and_assoc]
  | _ => simp [kind] at hkind

/-- The object of a program has its labels in front of its instructions. -/
theorem agrees_program (his : ∀ i ∈ is, Agrees i) (hls : ∀ l ∈ ls, Agrees l) :
    Agrees (.program is ls) := by
  apply agrees_of_kind
  intro b j k hkind hj hk
  cases b with
  | program is' ls' =>
    rw [toJson] at hj hk
    obtain ⟨xs, xs', hxs, hxs', rfl⟩ := exists_of_bind_bind_pure hj
    obtain ⟨ys, ys', hys, hys', rfl⟩ := exists_of_bind_bind_pure hk
    simp [same, alikeItems_of_toJson hls hxs hys, alikeItems_of_toJson his hxs' hys',
      Bool.and_comm]
  | _ => simp [kind] at hkind

end

/-- Every node agrees with every other one. -/
theorem agrees (a : Node) : Agrees a := by
  induction a using induct with
  | step a ih =>
    cases a with
    | unary op e pos => exact agrees_unary (ih e (by simp [children]))
    | binary op l r pos =>
      exact agrees_binary (ih l (by simp [children])) (ih r (by simp [children]))
    | memory a size pos => exact agrees_memory a
    | expression e size pos => exact agrees_expression (ih e (by simp [children]))
    | instruction mnemonic os label comment directive pos =>
      exact agrees_instruction (fun o ho => ih o (by simp [children, ho]))
        fun e he => ih e (by simp [children, he])
    | program is ls =>
      exact agrees_program (fun i hi => ih i (by simp [children, hi]))
        fun l hl => ih l (by simp [children, hl])
    | strayText | strayNumber | strayList | nothing =>
      intro b j k hj
      cases hj
    | _ =>
      -- a node without children
      apply agrees_of_kind
      intro b j k hkind hj hk
      cases b <;> simp [kind] at hkind
      cases hj
      cases hk
      simp [withoutPlaces_placed, same, sizeField, Bool.and_assoc]

/-! ### Nodes without places -/

mutual
/-- A node whose parts all stand nowhere. -/
def withoutPlaces : Node → Node
  | .literal v h _ => .literal v h {}
  | .symbol n _ => .symbol n {}
  | .here _ => .here {}
  | .unary op e _ => .unary op e.withoutPlaces {}
  | .binary op l r _ => .binary op l.withoutPlaces r.withoutPlaces {}
  | .register n s _ => .register n s {}
  | .immediate v h s _ => .immediate v h s {}
  | .memory a s _ => .memory a s {}
  | .labelRef n s _ => .labelRef n s {}
  | .string t s _ => .string t s {}
  | .expression e s _ => .expression e.withoutPlaces s {}
  | .label n _ => .label n {}
  | .instruction m os l c d _ =>
    .instruction m (itemsWithoutPlaces os) l c (optionWithoutPlaces d) {}
  | .program is ls => .program (itemsWithoutPlaces is) (itemsWithoutPlaces ls)
  | .strayText t => .strayText t
  | .strayNumber n => .strayNumber n
  | .strayList xs => .strayList (itemsWithoutPlaces xs)
  | .nothing => .nothing

/-- The nodes of a list without places. -/
def itemsWithoutPlaces : List Node → List Node
  | [] => []
  | x :: xs => x.withoutPlaces :: itemsWithoutPlaces xs

/-- A node that may be absent, without places. -/
def optionWithoutPlaces : Option Node → Option Node
  | none => none
  | some x => some x.withoutPlaces
end

section
variable {ns ms : List Node} {d d' : Option Node}

theorem sameItems_iff_forall₂ :
    sameItems ns ms ↔ List.Forall₂ (fun a b : Node => a.same b) ns ms := by
  induction ns generalizing ms with
  | nil =>
    cases ms with
    | nil => exact ⟨fun _ => .nil, fun _ => rfl⟩
    | cons m ms => exact ⟨nofun, nofun⟩
  | cons n ns ih =>
    cases ms with
    | nil => exact ⟨nofun, nofun⟩
    | cons m ms => rw [sameItems, Bool.and_eq_true, ih, List.forall₂_cons]

theorem sameOption_iff_rel : sameOption d d' ↔ Option.Rel (fun a b : Node => a.same b) d d' := by
  cases d <;> cases d' <;> simp [sameOption]

/-- Lists are the same just if they are equal without places. -/
theorem sameItems_iff (h : ∀ n ∈ ns, ∀ m, n.same m ↔ n.withoutPlaces = m.withoutPlaces)
    (ms : List Node) : sameItems ns ms ↔ itemsWithoutPlaces ns = itemsWithoutPlaces ms := by
  induction ns generalizing ms with
  | nil => cases ms <;> simp [sameItems, itemsWithoutPlaces]
  | cons n ns ih =>
    obtain ⟨hn, hns⟩ := List.forall_mem_cons.1 h
    cases ms <;> simp [sameItems, itemsWithoutPlaces, hn, ih hns]

theorem sameOption_iff (h : ∀ n, d = some n → ∀ m, n.same m ↔ n.withoutPlaces = m.withoutPlaces)
    (d' : Option Node) : sameOption d d' ↔ optionWithoutPlaces d = optionWithoutPlaces d' := by
  cases d with
  | none => cases d' <;> simp [sameOption, optionWithoutPlaces]
  | some n => cases d' <;> simp [sameOption, optionWithoutPlaces, h n rfl]

end

/-- Nodes are the same if and only if they are equal without their places. -/
theorem same_iff_withoutPlaces_eq (a b : Node) :
    a.same b ↔ a.withoutPlaces = b.withoutPlaces := by
  induction a using induct generalizing b with
  | step a ih =>
    -- with any other constructor for `b` both sides are false
    cases a with
    | unary op e pos =>
      have he := ih e (by simp [children])
      cases b <;> simp [same, withoutPlaces, he]
    | binary op l r pos =>
      have hl := ih l (by simp [children])
      have hr := ih r (by simp [children])
      cases b <;> simp [same, withoutPlaces, hl, hr, and_assoc]
    | expression e size pos =>
      have he := ih e (by simp [children])
      cases b <;> simp [same, withoutPlaces, he]
    | instruction mnemonic os label comment directive pos =>
      have hos : ∀ ms, sameItems os ms ↔ itemsWithoutPlaces os = itemsWithoutPlaces ms :=
        sameItems_iff fun o ho => ih o (by simp [children, ho])
      have hd : ∀ d, sameOption directive d ↔
          optionWithoutPlaces directive = optionWithoutPlaces d :=
        sameOption_iff fun e he => ih e (by simp [children, he])
      cases b <;> simp [same, withoutPlaces, hos, hd, and_assoc]
    | program is ls =>
      have his : ∀ ms, sameItems is ms ↔ itemsWithoutPlaces is = itemsWithoutPlaces ms :=
        sameItems_iff fun i hi => ih i (by simp [children, hi])
      have hls : ∀ ms, sameItems ls ms ↔ itemsWithoutPlaces ls = itemsWithoutPlaces ms :=
        sameItems_iff fun l hl => ih l (by simp [children, hl])
      cases b <;> simp [same, withoutPlaces, his, hls]
    | strayList xs =>
      have hxs : ∀ ms, sameItems xs ms ↔ itemsWithoutPlaces xs = itemsWithoutPlaces ms :=
        sameItems_iff fun x hx => ih x (by simp [children, hx])
      cases b <;> simp [same, withoutPlaces, hxs]
    | _ => cases b <;> simp [same, withoutPlaces, and_assoc]

/-! ### Renderings -/

@[simp] theorem typeName_withoutPlaces (n : Node) : n.withoutPlaces.typeName = n.typeName := by
  cases n <;> rfl

@[simp] theorem statement?_withoutPlaces (n : Node) :
    n.withoutPlaces.statement? = n.statement? := by
  cases n <;> rfl

section
variable {style : Style} {level : Nat} {ns : List Node}

/-- The parts of a list are rendered as they are without places. -/
theorem renderItems_withoutPlaces
    (h : ∀ n ∈ ns, n.withoutPlaces.render style level = n.render style level) :
    renderItems style level (itemsWithoutPlaces ns) = renderItems style level ns := by
  induction ns with
  | nil => rfl
  | cons n ns ih =>
    obtain ⟨hn, hns⟩ := List.forall_mem_cons.1 h
    simp only [itemsWithoutPlaces, renderItems, hn, ih hns]

/-- So are the lines of source. -/
theorem renderSource_withoutPlaces
    (h : ∀ n ∈ ns, n.withoutPlaces.render .assembly level = n.render .assembly level) :
    renderSource level (itemsWithoutPlaces ns) = renderSource level ns := by
  induction ns with
  | nil => rfl
  | cons n ns ih =>
    obtain ⟨hn, hns⟩ := List.forall_mem_cons.1 h
    simp only [itemsWithoutPlaces, renderSource, statement?_withoutPlaces, typeName_withoutPlaces,
      hn, ih hns]

end

/-- No rendering depends on a place. -/
theorem render_withoutPlaces (style : Style) (level : Nat) (n : Node) :
    n.withoutPlaces.render style level = n.render style level := by
  induction n using induct generalizing level with
  | step n ih =>
    cases n with
    | unary op e pos | expression e size pos =>
      have he := ih e (by simp [children])
      simp only [withoutPlaces, render, he]
    | binary op l r pos =>
      have hl := ih l (by simp [children])
      have hr := ih r (by simp [children])
      simp only [withoutPlaces, render, hl, hr]
    | instruction mnemonic os label comment directive pos =>
      cases directive with
      | some e =>
        have he := ih e (by simp [children])
        simp only [withoutPlaces, optionWithoutPlaces, render, he]
      | none =>
        have hos : renderItems style level (itemsWithoutPlaces os) = renderItems style level os :=
          renderItems_withoutPlaces fun o ho => ih o (by simp [children, ho]) level
        simp only [withoutPlaces, optionWithoutPlaces, render, hos]
    | program is ls =>
      have his (level : Nat) := fun i hi => ih i (List.mem_append_left ls hi) level
      have hls (level : Nat) := fun l hl => ih l (List.mem_append_right is hl) level
      cases style with
      | outline =>
        simp only [withoutPlaces, render, renderItems_withoutPlaces (hls _),
          renderItems_withoutPlaces (his _)]
      | assembly => simp only [withoutPlaces, render, renderSource_withoutPlaces (his _)]
    | _ => rfl

/-- Nodes that are the same have the same text, or the same failure. -/
theorem render_eq_of_same {a b : Node} (h : a.same b) (style : Style) (level : Nat) :
    a.render style level = b.render style level := by
  rw [← render_withoutPlaces style level a, (same_iff_withoutPlaces_eq a b).1 h,
    render_withoutPlaces]

/-! ### Equivalence and congruence -/

/-- To be the same is to be equal without places. -/
theorem equivalence_same : Equivalence fun a b : Node => a.same b := by
  simp only [same_iff_withoutPlaces_eq]
  exact InvImage.equivalence _ withoutPlaces eq_equivalence

/-- A relation that passes from the parts of two nodes to the nodes, wherever these stand. -/
structure Congruent (r : Node → Node → Prop) : Prop where
  literal (v h pos pos') : r (.literal v h pos) (.literal v h pos')
  symbol (name pos pos') : r (.symbol name pos) (.symbol name pos')
  here (pos pos') : r (.here pos) (.here pos')
  unary (op pos pos') {e e'} : r e e' → r (.unary op e pos) (.unary op e' pos')
  binary (op pos pos') {x x' y y'} :
    r x x' → r y y' → r (.binary op x y pos) (.binary op x' y' pos')
  register (name size pos pos') : r (.register name size pos) (.register name size pos')
  immediate (v h size pos pos') : r (.immediate v h size pos) (.immediate v h size pos')
  memory (a size pos pos') : r (.memory a size pos) (.memory a size pos')
  labelRef (name size pos pos') : r (.labelRef name size pos) (.labelRef name size pos')
  string (text size pos pos') : r (.string text size pos) (.string text size pos')
  expression (size pos pos') {e e'} : r e e' → r (.expression e size pos) (.expression e' size pos')
  label (name pos pos') : r (.label name pos) (.label name pos')
  instruction (mnemonic label comment pos pos') {os os' d d'} :
    List.Forall₂ r os os' → Option.Rel r d d' →
      r (.instruction mnemonic os label comment d pos)
        (.instruction mnemonic os' label comment d' pos')
  program {is is' ls ls'} :
    List.Forall₂ r is is' → List.Forall₂ r ls ls' → r (.program is ls) (.program is' ls')

/-- Nodes are the same if their parts are. -/
theorem congruent_same : Congruent fun a b => a.same b := by
  -- each field is one equation of `same`, read from right to left
  constructor <;> intros <;>
    simp_all [same, sameItems_iff_forall₂, sameOption_iff_rel]

/-- Trees are the same if and only if their objects are equal once the places are taken out at every
depth; to be the same is an equivalence, and passes from parts to nodes; and emitters of texts give
the same text for nodes that are the same, or fail alike. -/
theorem same_exact :
    (∀ a b : Node, a.IsTree → b.IsTree → ∃ j k, a.toJson = .ok j ∧ b.toJson = .ok k ∧
      (a.same b ↔ j.withoutPlaces.alike k.withoutPlaces)) ∧
    (Equivalence fun a b : Node => a.same b) ∧
    (Congruent fun a b : Node => a.same b) ∧
    ∀ a b : Node, a.same b → ∀ (style : Style) (level : Nat) (programs : Array String),
      a.render style level = b.render style level ∧
      Emitter.emit a (.text style programs level) =
        Emitter.emit b (.text style programs level) := by
  refine ⟨fun a b ha hb => ?_, equivalence_same, congruent_same, fun a b h => ?_⟩
  · obtain ⟨j, hj⟩ := ha.exists_toJson
    obtain ⟨k, hk⟩ := hb.exists_toJson
    exact ⟨j, k, hj, hk, by rw [agrees a b j k hj hk]⟩
  · intro style level programs
    have hrender : a.render style level = b.render style level := render_eq_of_same h style level
    exact ⟨hrender, by simp only [Emitter.emit, hrender]⟩

/-- An expression where it was read and one that was put together by hand, which stands nowhere. -/
theorem same_exact_of_handmade :
    ∃ a b : Node, a = .unary "-" (.literal 1 false ⟨1, 6⟩) ⟨1, 5⟩ ∧
      b = .unary "-" (.literal 1 false {}) {} ∧ a.IsTree ∧ b.IsTree ∧
      (∃ j k, a.toJson = .ok j ∧ b.toJson = .ok k ∧ j.withoutPlaces.alike k.withoutPlaces) ∧
      a.render .assembly 0 = b.render .assembly 0 := by
  have htree (p q : Pos) : IsTree (.unary "-" (.literal 1 false p) q) := by
    refine .intro rfl fun m hm => ?_
    obtain rfl := List.mem_singleton.1 hm
    exact .intro rfl (by simp [children])
  obtain ⟨hobjects, -, -, hrender⟩ := same_exact
  obtain ⟨j, k, hj, hk, halike⟩ := hobjects _ _ (htree ⟨1, 6⟩ ⟨1, 5⟩) (htree {} {})
  have hsame : same (.unary "-" (.literal 1 false ⟨1, 6⟩) ⟨1, 5⟩)
      (.unary "-" (.literal 1 false {}) {}) := by decide
  exact ⟨_, _, rfl, rfl, htree _ _, htree _ _, ⟨j, k, hj, hk, halike.1 hsame⟩,
    (hrender _ _ hsame .assembly 0 #[]).1⟩

end Node

end IntelAsm
