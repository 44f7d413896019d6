import CppAst.Schema.Basic
import CppAst.TypePath

namespace CppAst

namespace Node

def subnodes : Node → List Node
  | struct _ subnodes _ => subnodes
  | enum .. => []

def chain? : (position : List Nat) → List Node → Option (List Node)
  | [], _ => some []
  | i :: rest, nodes =>
    match nodes[i]? with
    | some node => (chain? rest node.subnodes).map (node :: ·)
    | none => none

def pathOf (chain : List Node) : TypePath := ⟨chain.map name⟩

def structOf? (parent : TypePath) (chain : List Node) : Option (TypePath × List Field) :=
  match chain.getLast? with
  | some (struct _ _ fields) => some (⟨parent.segments ++ chain.map name⟩, fields)
  | some (enum ..) | none => none

def structAt? (nodes : List Node) (position : List Nat) : Option (TypePath × List Field) :=
  (chain? position nodes).bind (structOf? .root)

mutual

/-- The positions below a node and its own, in pre-order, with the nodes on the way to each. -/
def walk : Node → List (List Nat × List Node)
  | struct _ subnodes _ => ([], []) :: walkFrom 0 subnodes
  | enum .. => [([], [])]

def walkFrom (i : Nat) : List Node → List (List Nat × List Node)
  | [] => []
  | node :: rest =>
    (walk node).map (fun (position, chain) ↦ (i :: position, node :: chain)) ++
      walkFrom (i + 1) rest

end

end Node
end CppAst
