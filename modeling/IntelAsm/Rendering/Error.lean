import IntelAsm.Text.Quoted

/-!
# Why a tree cannot be rendered

Trees of the parser can always be rendered. These are the causes that remain for nodes put together
by hand and for requests that name no target.
-/

namespace IntelAsm

/-- Why rendering failed. -/
inductive RenderError where
  /-- A value that is no part of a tree stands where one is needed. -/
  | notANode (typeName : String)
  /-- Only programs can be rendered as a whole. -/
  | notAProgram (typeName : String)
  /-- The style has no rule for this type of node. -/
  | noRule (typeName : String)
  /-- No specifier stands for this number of bits. -/
  | unknownSize (bits : Int)
  /-- No format has this name. -/
  | unknownTarget (name : String)
  /-- A value lacks what is asked of it. -/
  | lacks (typeName field : String)
deriving DecidableEq, Repr

/-- How messages describe the failure. -/
def RenderError.message : RenderError → String
  | .notANode t => "Not an asmtree node: " ++ t
  | .notAProgram t => "Renderer expects a Program, got " ++ t
  | .noRule t => "AstVisitor has no visit method for " ++ t
  | .unknownSize n => Numeral.decimal n
  | .unknownTarget name => "Unknown render target: " ++ Text.quoted name
  | .lacks t field => Text.quoted t ++ " object has no attribute " ++ Text.quoted field

end IntelAsm
