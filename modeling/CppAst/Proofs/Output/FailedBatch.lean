import CppAst.Proofs.FileSystem.Standard
import CppAst.Proofs.Output.Replacing

namespace CppAst

open FileSystem Outcome

namespace Batch

variable {sys : System} {fs fs' now : FileSystem} {files tried : List OutputFile} {e : WriteError}
  {staged done gone : List Staged} {place : Place}

end Batch
end CppAst
