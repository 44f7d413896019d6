import CppAst.Text

namespace CppAst.Source

structure Span where
  offset : Nat
  length : Nat
deriving Repr, DecidableEq

/-- A line counted from one, and the number of bytes read on it. -/
structure Position where
  line : Nat
  column : Nat
deriving Repr, DecidableEq

def lineStart? : (n : Nat) → List Char → Option Nat
  | 0, _ => some 0
  | _ + 1, [] => none
  | n + 1, c :: rest =>
    (lineStart? (if c = '\n' then n else n + 1) rest).map (c.utf8Size + ·)

/-- The byte that a reader had just read when it stood at `position`, or the start of a line if it
had read nothing of it. -/
def offset? (text : List Char) (position : Position) : Option Nat :=
  match position.line with
  | 0 => none
  | n + 1 =>
    match lineStart? n text with
    | none => none
    | some start =>
      let offset := start + (position.column - 1)
      if offset ≤ Text.width text then some offset else none

def positionAfter (n : Nat) : List Char → Position :=
  go n ⟨1, 0⟩
where
  go : Nat → Position → List Char → Position
    | _, here, [] => here
    | left, here, c :: rest =>
      if left = 0 then here
      else if left < c.utf8Size then ⟨here.line, here.column + left⟩
      else go (left - c.utf8Size)
        (if c = '\n' then ⟨here.line + 1, 0⟩ else ⟨here.line, here.column + c.utf8Size⟩) rest

end CppAst.Source
