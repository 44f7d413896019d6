import CppAst.Code.Layout
import CppAst.Schema.Basic
import CppAst.TypePath

namespace CppAst

inductive Comparison where
  | equal
  | notEqual
deriving Repr, DecidableEq

namespace Comparison

def all : List Comparison := [equal, notEqual]

def operator : Comparison → String
  | equal => "=="
  | notEqual => "!="

def connective : Comparison → String
  | equal => " && "
  | notEqual => " || "

def vacuous : Comparison → String
  | equal => "true"
  | notEqual => "false"

variable (op : Comparison)

/-- The operands of a struct without fields are never read. -/
def signature (path : TypePath) (fields : List Field) : String :=
  let unused := if fields.isEmpty then "[[maybe_unused]] " else ""
  let type := path.qualified
  s!"bool operator{op.operator}({unused}const {type}& l, {unused}const {type}& r)"

def expression (fields : List Field) : String :=
  if fields.isEmpty then op.vacuous
  else op.connective.intercalate (fields.map fun f ↦ s!"l.{f.name} {op.operator} r.{f.name}")

def prototype (path : TypePath) (fields : List Field) : Code :=
  .line s!"{op.signature path fields};"

def definition (path : TypePath) (fields : List Field) : Code :=
  .block s!"{op.signature path fields} \x7b" "\x7d" [.line s!"return {op.expression fields};"]

mutual

/-- The structs in a node with their paths and fields, each before those in it. Enums have operators
already. -/
def structs (parent : TypePath) : Node → List (TypePath × List Field)
  | .struct name subnodes fields =>
    (parent.child name, fields) :: structsIn (parent.child name) subnodes
  | .enum .. => []

def structsIn (parent : TypePath) : List Node → List (TypePath × List Field)
  | [] => []
  | node :: rest => structs parent node ++ structsIn parent rest

end

def prototypes (nodes : List Node) : List Code :=
  (structsIn .root nodes).map fun (path, fields) ↦ op.prototype path fields

def definitions (nodes : List Node) : List Code :=
  (structsIn .root nodes).map fun (path, fields) ↦ op.definition path fields

def signatures (nodes : List Node) : List String :=
  (structsIn .root nodes).map fun s ↦ op.signature s.1 s.2

def bodies (nodes : List Node) : List String :=
  (structsIn .root nodes).map fun s ↦ s!"return {op.expression s.2};"

def prototypeText (indent : Indent) (level : Nat) (signature : String) : String :=
  indent.margin level ++ signature ++ ";\n"

def definitionText (indent : Indent) (level : Nat) (signature body : String) : String :=
  indent.margin level ++ signature ++ " \x7b\n" ++ indent.margin (level + 1) ++ body ++ "\n" ++
    indent.margin level ++ "\x7d\n"

end Comparison
end CppAst
