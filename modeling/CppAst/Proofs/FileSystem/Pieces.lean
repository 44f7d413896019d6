import CppAst.FileSystem.System
import CppAst.Proofs.FileSystem.Ways
import Mathlib.Data.List.DropRight

namespace CppAst

namespace Text

end Text

namespace Path

variable {p q : Path} {piece : List Char} {pieces pre : List (List Char)} {absolute : Bool}

end Path

namespace FileSystem

variable {p q parent : Path}

end FileSystem
end CppAst
