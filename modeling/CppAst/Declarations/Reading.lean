import CppAst.Code.Layout
import CppAst.Declarations
import CppAst.Schema.Position

namespace CppAst

def CodeRow.line (indent : Indent) (level : Nat) : CodeRow → List Char
  | blank => []
  | text depth content => (indent.margin (level + depth)).toList ++ content.toList

namespace Node

mutual

/-- No name, type or element goes over several lines, and no name of a field contains a space. -/
def Plain : Node → Prop
  | struct name subnodes fields =>
    '\n' ∉ name.toList ∧ PlainIn subnodes ∧
      ∀ f ∈ fields, '\n' ∉ f.type.toList ∧ '\n' ∉ f.name.toList ∧ ' ' ∉ f.name.toList
  | enum name elements => '\n' ∉ name.toList ∧ ∀ e ∈ elements, '\n' ∉ e.toList

def PlainIn : List Node → Prop
  | [] => True
  | node :: rest => Plain node ∧ PlainIn rest

end

mutual

def decidePlain : (n : Node) → Decidable n.Plain
  | struct _ subnodes _ =>
    have := decidePlainIn subnodes
    inferInstanceAs (Decidable (_ ∧ _ ∧ _))
  | enum .. => inferInstanceAs (Decidable (_ ∧ _))

def decidePlainIn : (nodes : List Node) → Decidable (PlainIn nodes)
  | [] => .isTrue trivial
  | node :: rest =>
    have := decidePlain node
    have := decidePlainIn rest
    inferInstanceAs (Decidable (_ ∧ _))

end

instance (nodes : List Node) : Decidable (PlainIn nodes) := decidePlainIn nodes

end Node

/-- The type and the name in the declaration of a field. The name follows the last space. -/
def Field.ofDeclaration? (text : List Char) : Option Field := do
  let declared ← ";".toList.isSuffixOf? text
  let name := (declared.reverse.takeWhile (· ≠ ' ')).reverse
  let type ← (' ' :: name).isSuffixOf? declared
  return ⟨.ofList name, .ofList type⟩

def Node.headerName? (keyword : String) (text : List Char) : Option (List Char) :=
  (keyword.toList.isPrefixOf? text).bind " \x7b".toList.isSuffixOf?

def Node.ofHeader? (text : List Char) : Option Node :=
  ((headerName? "struct " text).map fun name ↦ .struct (.ofList name) [] []).or
    ((headerName? "enum class " text).map fun name ↦ .enum (.ofList name) [])

/-- The node whose block is being read, and the nodes around it, the innermost one first. Around all
nodes of the first level there is a struct without a name. -/
structure DeclarationReader where
  node : Node
  outer : List Node

namespace DeclarationReader

def start : DeclarationReader := ⟨.struct "" [] [], []⟩

def member? (r : DeclarationReader) (text : List Char) : Option DeclarationReader :=
  match r.node with
  | .enum name elements =>
    (",".toList.isSuffixOf? text).map fun element ↦
      { r with node := .enum name (elements ++ [.ofList element]) }
  | .struct name subnodes fields =>
    match Node.ofHeader? text with
    | some node => some ⟨node, r.node :: r.outer⟩
    | none => (Field.ofDeclaration? text).map fun f ↦
      { r with node := .struct name subnodes (fields ++ [f]) }

def close? (r : DeclarationReader) : Option DeclarationReader :=
  match r.outer with
  | .struct name subnodes fields :: outer => some ⟨.struct name (subnodes ++ [r.node]) fields, outer⟩
  | .enum .. :: _ | [] => none

variable (indent : Indent) (level : Nat)

def line? (r : DeclarationReader) (line : List Char) : Option DeclarationReader :=
  match (indent.margin (level + r.outer.length)).toList.isPrefixOf? line with
  | some text => r.member? text
  | none =>
    if (indent.margin (level + r.outer.length - 1)).toList ++ "\x7d;".toList = line then r.close?
    else none

def lines? (r : DeclarationReader) (lines : List (List Char)) : Option DeclarationReader :=
  lines.foldlM (line? indent level) r

/-- The nodes that a text declares, if all its blocks are closed. -/
def read? (text : String) : Option (List Node) :=
  match lines? indent level start (text.toList.splitOn '\n').dropLast with
  | some ⟨node, []⟩ => some node.subnodes
  | _ => none

end DeclarationReader
end CppAst
