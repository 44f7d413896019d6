namespace CppAst

inductive Indent where
  | spaces (width : Nat)
  | tab
deriving Repr, DecidableEq

namespace Indent

def standard : Indent := spaces 4

/-- The text of one level. A width other than 1 to 8 means the standard one. -/
def text : Indent → String
  | spaces width => .ofList (List.replicate (if 1 ≤ width && width ≤ 8 then width else 4) ' ')
  | tab => "\t"

end Indent

inductive Code where
  | line (text : String)
  | lines (texts : List String)
  /-- A line without a text, which is never indented. -/
  | blank
  | indented (body : List Code)
  /-- A header, a body one level deeper, and a line that closes it. -/
  | block (header close : String) (body : List Code)

end CppAst
