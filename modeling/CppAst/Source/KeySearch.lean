import CppAst.Source.Position

namespace CppAst.Source

/-- The bytes before the first occurrence of `quoted` that is followed by blanks and a colon, after
dropping `skip` characters. Occurrences do not overlap. -/
def findQuoted? (quoted : List Char) : (skip : Nat) → List Char → Option Nat
  | _, [] => none
  | skip + 1, c :: rest => (findQuoted? quoted skip rest).map (c.utf8Size + ·)
  | 0, c :: rest =>
    if quoted.isPrefixOf (c :: rest) then
      if (Text.trimStart ((c :: rest).drop quoted.length)).head? = some ':' then some 0
      else (findQuoted? quoted (quoted.length - 1) rest).map (c.utf8Size + ·)
    else (findQuoted? quoted 0 rest).map (c.utf8Size + ·)

/-- What stands before and after a key outside quotes, in the order of trial: a segment of a table
header, a key at the start of a line, a key of an inline table. -/
def surroundings : List (List Char × List Char) :=
  [(['.'], [']']), (['.'], ['.']), (['\n'], [' ', '=']), (['\n'], ['=']),
   (['\x7b', ' '], [' ', '=']), ([',', ' '], [' ', '='])]

def findBare? (text name : List Char) : Option Nat :=
  surroundings.findSome? fun (before, after) ↦
    (Text.find? (before ++ name ++ after) text).map (before.length + ·)

def startsWithKey (text name : List Char) : Bool :=
  (name ++ [' ', '=']).isPrefixOf text || (name ++ ['=']).isPrefixOf text

def findKey? (text name : List Char) : Option Span :=
  let offset? :=
    match findQuoted? ('"' :: name ++ ['"']) 0 text with
    | some offset => some (offset + 1)
    | none =>
      match findBare? text name with
      | some offset => some offset
      | none => if startsWithKey text name then some 0 else none
  offset?.map (⟨·, Text.width name⟩)

end CppAst.Source
