import CppAst.Printer.NodeInfo
import CppAst.Schema.Position

namespace CppAst

namespace TypePath

def split : List Char → List (List Char)
  | [] => [[]]
  | ':' :: ':' :: rest => [] :: split rest
  | c :: rest =>
    match split rest with
    | [] => [[c]]
    | part :: parts => (c :: part) :: parts

def ofQualified (text : String) : TypePath := ⟨(split text.toList).map String.ofList⟩

end TypePath

namespace Node

def at? (nodes : List Node) (position : List Nat) : Option Node :=
  (chain? position nodes).bind List.getLast?

/-- The position that a sequence of names leads to. Each name stands for the first node that bears
it, and the next one is looked up among the nodes in that. -/
def locate? : (names : List String) → List Node → Option (List Nat)
  | [], _ => some []
  | name :: names, nodes => do
    let i ← nodes.findIdx? (·.name = name)
    let node ← nodes[i]?
    return i :: (← locate? names node.subnodes)

def parts : Node → NodeParts
  | struct _ _ fields => .struct (fields.map Field.name)
  | enum _ elements => .enum elements

end Node

def NodeInfo.Describes (info : NodeInfo) (node : Node) : Prop :=
  info.name = node.name ∧ info.parts = node.parts

end CppAst
