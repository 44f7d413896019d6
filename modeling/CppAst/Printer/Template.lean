import CppAst.Text

namespace CppAst.Template

/-- The line after each token has been replaced by its value, one token after the other. -/
def substituteLine (substitutions : List (String × String)) (line : String) : String :=
  .ofList (substitutions.foldl
    (fun line (token, value) ↦ Text.replace token.toList value.toList line) line.toList)

def substitute (substitutions : List (String × String)) (lines : List String) : List String :=
  lines.map (substituteLine substitutions)

def isMarker (name line : String) : Bool := Text.trim line.toList = '#' :: name.toList

structure Marker where
  name : String
  content : List String
deriving Repr, DecidableEq

def expandLine (markers : List Marker) (line : String) : List String :=
  match markers.find? (isMarker ·.name line) with
  | some marker => marker.content
  | none => [line]

/-- Expands all markers at once. The lines that are put in are not looked at again. -/
def expand (markers : List Marker) (lines : List String) : List String :=
  lines.flatMap (expandLine markers)

end CppAst.Template
