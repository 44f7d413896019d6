import CppAst.Code.Basic
import CppAst.Printer.NodeInfo
import CppAst.Printer.Template

namespace CppAst.PrinterSections

variable (sections : PrinterSections)

def declarationOf (info : NodeInfo) : List String :=
  Template.substitute [("$type", info.type)] sections.declaration

def caseOf (info : NodeInfo) (element : String) : List String :=
  Template.substitute [("$type", info.type), ("$name", info.name), ("$variant", element)]
    sections.definitionEnumCase

def fieldOf (name : String) : List String :=
  Template.substitute [("$field_name", name)] sections.field

def definitionOf (info : NodeInfo) : List String :=
  let names := [("$type", info.type), ("$name", info.name)]
  match info.parts with
  | .enum elements =>
    Template.expand [⟨"definition_enum_cases", elements.flatMap (sections.caseOf info)⟩]
      (Template.substitute names sections.definitionEnum)
  | .struct [] => Template.substitute names sections.definitionEmpty
  | .struct fields =>
    Template.expand [⟨"fields", fields.flatMap sections.fieldOf⟩]
      (Template.substitute names sections.definition)

def compile (infos : List NodeInfo) : List String :=
  Template.expand
    [⟨"declarations", infos.flatMap sections.declarationOf⟩,
     ⟨"definitions", infos.flatMap sections.definitionOf⟩] sections.template

def code (nodes : List Node) : Code := .lines (sections.compile (NodeInfo.ofNodes nodes))

end CppAst.PrinterSections
