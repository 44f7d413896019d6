import CppAst.Code.Basic
import CppAst.Schema.Basic

namespace CppAst

def Field.declaration (f : Field) : Code := .line s!"{f.type} {f.name};"

namespace Node

def forwardDeclaration : Node → Code
  | struct name _ _ => .line s!"struct {name};"
  | enum name _ => .line s!"enum class {name};"

mutual

/-- The full declaration. The nodes in a struct come before its fields, which may be of their
types. -/
def declaration : Node → Code
  | struct name subnodes fields =>
    .block s!"struct {name} \x7b" "\x7d;" (declarations subnodes ++ fields.map Field.declaration)
  | enum name elements =>
    .block s!"enum class {name} \x7b" "\x7d;" (elements.map fun e ↦ .line s!"{e},")

def declarations : List Node → List Code
  | [] => []
  | node :: rest => declaration node :: declarations rest

end

end Node
end CppAst
