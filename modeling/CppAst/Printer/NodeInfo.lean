import CppAst.Schema.Basic
import CppAst.TypePath

namespace CppAst

inductive NodeParts where
  | struct (fields : List String)
  | enum (elements : List String)
deriving Repr, DecidableEq

structure NodeInfo where
  type : String
  name : String
  parts : NodeParts
deriving Repr, DecidableEq

namespace NodeInfo

mutual

def ofNode (parent : TypePath) : Node → List NodeInfo
  | .struct name subnodes fields =>
    let path := parent.child name
    ⟨path.qualified, name, .struct (fields.map Field.name)⟩ :: ofNodesIn path subnodes
  | .enum name elements => [⟨(parent.child name).qualified, name, .enum elements⟩]

def ofNodesIn (parent : TypePath) : List Node → List NodeInfo
  | [] => []
  | node :: rest => ofNode parent node ++ ofNodesIn parent rest

end

def ofNodes (nodes : List Node) : List NodeInfo := ofNodesIn .root nodes

def struct? (info : NodeInfo) : Option (String × List String) :=
  match info.parts with
  | .struct fields => some (info.type, fields)
  | .enum _ => none

def elements? (info : NodeInfo) : Option (List String) :=
  match info.parts with
  | .struct _ => none
  | .enum elements => some elements

end NodeInfo
end CppAst
