import CppAst.Printer.Template

namespace CppAst

namespace Template

inductive Piece where
  | plain (c : Char)
  | token (name : String)
deriving Repr, DecidableEq

def Piece.filled (substitutions : List (String × String)) : Piece → List Char
  | plain c => [c]
  | token name => ((substitutions.lookup name).getD name).toList

/-- The pieces of a text, from left to right: a token wherever one begins, and else a character. -/
inductive Divides (tokens : List String) : List Piece → List Char → Prop
  | nil : Divides tokens [] []
  | token {name : String} {pieces : List Piece} {rest : List Char} :
      name ∈ tokens → Divides tokens pieces rest →
      Divides tokens (.token name :: pieces) (name.toList ++ rest)
  | plain {c : Char} {pieces : List Piece} {rest : List Char} :
      (∀ name ∈ tokens, ¬ name.toList <+: c :: rest) → Divides tokens pieces rest →
      Divides tokens (.plain c :: pieces) (c :: rest)

/-- The lines after the markers have been expanded one after the other, each also in the lines that
those before it have put in. -/
def expandInTurn (markers : List Marker) (lines : List String) : List String :=
  markers.foldl (fun lines marker ↦ expand [marker] lines) lines

/-- No marker puts in a line that is a marker. -/
def Final (markers : List Marker) : Prop :=
  ∀ m ∈ markers, ∀ line ∈ m.content, ∀ other ∈ markers, isMarker other.name line = false

instance (markers : List Marker) : Decidable (Final markers) :=
  inferInstanceAs (Decidable (∀ m ∈ markers, ∀ line ∈ m.content, ∀ other ∈ markers, _))

end Template

/-- The tokens that fragments of a printer are filled with, as they are passed together. -/
def PrinterSections.tokenLists : List (List String) :=
  [["$type"], ["$type", "$name"], ["$type", "$name", "$variant"], ["$field_name"]]

end CppAst
