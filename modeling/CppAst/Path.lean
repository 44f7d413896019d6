import CppAst.Text

namespace CppAst

structure Path where
  text : String
deriving Repr, DecidableEq

namespace Path

def isAbsolute (p : Path) : Bool := p.text.toList.head? = some '/'

def pieces (p : Path) : List (List Char) :=
  Text.splitOn '/' (if p.isAbsolute then p.text.toList.tail else p.text.toList)

def ofPieces (absolute : Bool) (pieces : List (List Char)) : Path :=
  ⟨.ofList ((if absolute then ['/'] else []) ++ ['/'].intercalate pieces)⟩

/-- Drops what says nothing at the end of a path. The pieces come last one first. -/
def dropVoid (absolute : Bool) : List (List Char) → List (List Char)
  | [] => []
  | piece :: rest =>
    if piece.isEmpty || piece = ['.'] && (absolute || !rest.isEmpty) then dropVoid absolute rest
    else piece :: rest

def significant (p : Path) : List (List Char) := dropVoid p.isAbsolute p.pieces.reverse

def parent? (p : Path) : Option Path :=
  match p.significant with
  | [] => none
  | _ :: rest => some (ofPieces p.isAbsolute (dropVoid p.isAbsolute rest).reverse)

theorem length_dropVoid_le (absolute : Bool) (pieces : List (List Char)) :
    (dropVoid absolute pieces).length ≤ pieces.length := by
  induction pieces with
  | nil => simp [dropVoid]
  | cons piece rest ih =>
    unfold dropVoid
    split
    · exact Nat.le_succ_of_le ih
    · exact Nat.le_refl _

def ancestors (p : Path) : List Path := p :: go p.significant
where
  go : List (List Char) → List Path
    | [] => []
    | _ :: rest =>
      ofPieces p.isAbsolute (dropVoid p.isAbsolute rest).reverse :: go (dropVoid p.isAbsolute rest)
  termination_by pieces => pieces.length
  decreasing_by exact Nat.lt_succ_of_le (length_dropVoid_le _ _)

def fileName? (p : Path) : Option (List Char) :=
  match p.significant with
  | [] => none
  | piece :: _ => if piece = ['.'] || piece = ['.', '.'] then none else some piece

/-- What follows the last dot of the file name. A dot that the name starts with does not count. -/
def extension? (p : Path) : Option (List Char) := do
  let name ← p.fileName?
  let extension := (name.reverse.takeWhile (· ≠ '.')).reverse
  let stem := name.take (name.length - extension.length - 1)
  if extension.length < name.length && !stem.isEmpty then some extension else none

def join (base name : Path) : Path :=
  if name.isAbsolute then name
  else if base.text.isEmpty || base.text.toList.getLast? = some '/' then ⟨base.text ++ name.text⟩
  else ⟨base.text ++ "/" ++ name.text⟩

end Path
end CppAst
