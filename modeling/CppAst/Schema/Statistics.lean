import CppAst.Schema.Basic

namespace CppAst

structure Statistics where
  topLevel : Nat := 0
  structs : Nat := 0
  enums : Nat := 0
  fields : Nat := 0
  elements : Nat := 0
  maxDepth : Nat := 0
deriving Repr, DecidableEq

namespace Statistics

mutual

/-- Counts a node at a depth, and those in it, in addition to what has been counted. -/
def collect (depth : Nat) (stats : Statistics) : Node → Statistics
  | .struct _ subnodes fields =>
    collectAll (depth + 1)
      { stats with
        maxDepth := max stats.maxDepth depth
        structs := stats.structs + 1
        fields := stats.fields + fields.length } subnodes
  | .enum _ elements =>
    { stats with
      maxDepth := max stats.maxDepth depth
      enums := stats.enums + 1
      elements := stats.elements + elements.length }

def collectAll (depth : Nat) (stats : Statistics) : List Node → Statistics
  | [] => stats
  | node :: rest => collectAll depth (collect depth stats node) rest

end

def ofTree (nodes : List Node) : Statistics := collectAll 1 { topLevel := nodes.length } nodes

def add (a b : Statistics) : Statistics where
  topLevel := a.topLevel + b.topLevel
  structs := a.structs + b.structs
  enums := a.enums + b.enums
  fields := a.fields + b.fields
  elements := a.elements + b.elements
  maxDepth := max a.maxDepth b.maxDepth

mutual

/-- The counts of a node and those in it as a sum. The depth is that of the longest way down. -/
def ofNode : Node → Statistics
  | .struct _ subnodes fields =>
    let inner := ofNodes subnodes
    { inner with
      structs := inner.structs + 1
      fields := inner.fields + fields.length
      maxDepth := inner.maxDepth + 1 }
  | .enum _ elements => { enums := 1, elements := elements.length, maxDepth := 1 }

def ofNodes : List Node → Statistics
  | [] => {}
  | node :: rest => (ofNode node).add (ofNodes rest)

end

def below (depth : Nat) (s : Statistics) : Statistics := { s with maxDepth := depth + s.maxDepth }

end Statistics
end CppAst
