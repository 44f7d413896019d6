import CppAst.Proofs.FileSystem.Pieces
import CppAst.Proofs.FileSystem.Standard
import CppAst.Proofs.Output.Replacing
import Mathlib.Data.List.Pairwise

namespace CppAst

open FileSystem Outcome

variable {sys : System} {fs fs' after : FileSystem} {file : OutputFile} {s : Staged} {t : Temporary}
  {staged : List Staged} {files tried : List OutputFile} {results : List WriteResult}
  {inode : Inode} {place : Place}

namespace Batch

section

variable (hm : Movable after staged) (h : Midway after fs' staged staged)
include hm h

variable (hfind : ∀ file ∈ staged.map Staged.file, fs'.exists? file.path = true)
  (hd : (staged.map Staged.file).Pairwise fun a b ↦ fs'.find a.path ≠ fs'.find b.path)
include hfind hd

end

end Batch
end CppAst
