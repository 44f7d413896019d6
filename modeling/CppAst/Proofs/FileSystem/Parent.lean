import CppAst.Proofs.FileSystem.Pieces

namespace CppAst

open FileSystem

namespace Path

variable {p q : Path} {piece : List Char} {pieces pre : List (List Char)} {absolute : Bool}

end Path

namespace FileSystem

variable {fs : FileSystem} {p q : Path} {place : Place}

end FileSystem
end CppAst
