import CppAst.Code.Builder

namespace CppAst

inductive CodeRow where
  | blank
  | text (depth : Nat) (content : String)
deriving Repr, DecidableEq

def Indent.margin (indent : Indent) (level : Nat) : String :=
  String.join (List.replicate level indent.text)

namespace CodeRow

def render (indent : Indent) (level : Nat) : CodeRow → String
  | blank => "\n"
  | text depth content => indent.margin (level + depth) ++ content ++ "\n"

def renderAll (indent : Indent) (level : Nat) (rows : List CodeRow) : String :=
  String.join (rows.map (render indent level))

end CodeRow

namespace Code

mutual

def rows (depth : Nat) : Code → List CodeRow
  | line text => [.text depth text]
  | lines texts => texts.map (.text depth)
  | blank => [.blank]
  | indented body => rowsIn (depth + 1) body
  | block header close body =>
    .text depth header :: rowsIn (depth + 1) body ++ [.text depth close]

def rowsIn (depth : Nat) : List Code → List CodeRow
  | [] => []
  | code :: rest => rows depth code ++ rowsIn depth rest

end

end Code
end CppAst
