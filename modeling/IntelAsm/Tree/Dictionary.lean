import IntelAsm.Json
import IntelAsm.Rendering.Error
import IntelAsm.Tree.Node

/-!
# Nodes as JSON objects

Every node is an object with a field `kind`, its own fields, and its place. A value that is no node
has no such object, and neither has a node that holds one.
-/

namespace IntelAsm

namespace Node

/-- The fields that tell where a node stands. -/
def placeFields (pos : Pos) : List (String × Json) :=
  [("line", .integer pos.line), ("col", .integer pos.column)]

/-- The object of a node that has a place. -/
def placed (kind : String) (fields : List (String × Json)) (pos : Pos) : Json :=
  .object (("kind", .text kind) :: fields ++ placeFields pos)

/-- The size of an operand. -/
def sizeField (size : Option Int) : String × Json := ("size", .ofOption .integer size)

section
variable {τ : Type} [Textual τ]

/-- A text that may be absent. -/
def optionalText (t : Option τ) : Json := .ofOption .text t

/-- The fields of an address. -/
def addressFields (a : Address τ) : List (String × Json) :=
  [("base", optionalText a.base), ("index", optionalText a.index), ("scale", .integer a.scale),
    ("displacement", .ofOption .integer a.displacement), ("segment", optionalText a.segment)]

/-- The failure of a value that has no object. -/
def noDictionary (n : Node τ) : RenderError := .lacks n.typeName "to_dict"

mutual
/-- A node as a JSON object. -/
def toJson : Node τ → Except RenderError Json
  | .literal v h pos => .ok (placed "literal" [("value", .integer v), ("is_hex", .bool h)] pos)
  | .symbol n pos => .ok (placed "symbol" [("name", .text n)] pos)
  | .here pos => .ok (placed "current_location" [] pos)
  | .unary op e pos => do
    let e ← e.toJson
    return placed "unary" [("op", .text op), ("operand", e)] pos
  | .binary op l r pos => do
    let l ← l.toJson
    let r ← r.toJson
    return placed "binary" [("op", .text op), ("left", l), ("right", r)] pos
  | .register n size pos => .ok (placed "register" [("name", .text n), sizeField size] pos)
  | .immediate v h size pos =>
    .ok (placed "immediate" [("value", .integer v), ("is_hex", .bool h), sizeField size] pos)
  | .memory a size pos => .ok (placed "memory" (addressFields a ++ [sizeField size]) pos)
  | .labelRef n size pos => .ok (placed "label_ref" [("name", .text n), sizeField size] pos)
  | .string t size pos => .ok (placed "string" [("text", .text t), sizeField size] pos)
  | .expression e size pos => do
    let e ← e.toJson
    return placed "expression" [("expression", e), sizeField size] pos
  | .label n pos => .ok (placed "label" [("name", .text n)] pos)
  | .instruction m os l c d pos => do
    let os ← itemsToJson os
    let d ← optionToJson d
    return placed "instruction" [("mnemonic", .text m), ("operands", .array os),
      ("label", optionalText l), ("comment", optionalText c), ("directive", d)] pos
  | .program is ls => do
    let ls ← itemsToJson ls
    let is ← itemsToJson is
    return .object [("kind", .text "program"), ("labels", .array ls),
      ("instructions", .array is)]
  | .strayText t => .error (strayText t : Node τ).noDictionary
  | .strayNumber n => .error (strayNumber n : Node τ).noDictionary
  | .strayList xs => .error (strayList xs : Node τ).noDictionary
  | .nothing => .error (nothing : Node τ).noDictionary

/-- The objects of a list of nodes. -/
def itemsToJson : List (Node τ) → Except RenderError (List Json)
  | [] => .ok []
  | x :: xs => do
    let j ← x.toJson
    let js ← itemsToJson xs
    return j :: js

/-- The object of a node that may be absent. -/
def optionToJson : Option (Node τ) → Except RenderError Json
  | none => .ok .null
  | some x => x.toJson
end

end

end Node

end IntelAsm
