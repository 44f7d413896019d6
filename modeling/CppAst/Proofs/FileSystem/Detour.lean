import CppAst.FileSystem.Standard
import CppAst.Proofs.FileSystem.Parent
import CppAst.Proofs.Source.Position

namespace CppAst

open FileSystem

variable {rest : List Char} {n : ℕ}

end CppAst
