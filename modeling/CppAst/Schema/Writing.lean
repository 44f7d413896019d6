import CppAst.Document
import CppAst.Schema.Basic

namespace CppAst

def Document.ofTexts (texts : List String) : Document := .list (texts.map string)

def Field.toEntry (f : Field) : String × Document := (f.name, .string f.type)

namespace Node

mutual

/-- A struct is written as the mapping of its nodes and then its fields, an enum as the list of its
elements. -/
def toDocument : Node → Document
  | struct _ subnodes fields => .mapping (toEntries subnodes ++ fields.map Field.toEntry)
  | enum _ elements => .ofTexts elements

def toEntries : List Node → List (String × Document)
  | [] => []
  | node :: rest => (node.name, toDocument node) :: toEntries rest

end

end Node

def PrinterSections.toEntries (s : PrinterSections) : List (String × Document) :=
  [("template", .ofTexts s.template),
   ("declaration", .ofTexts s.declaration),
   ("definition", .ofTexts s.definition),
   ("definition_enum", .ofTexts s.definitionEnum),
   ("definition_enum_case", .ofTexts s.definitionEnumCase),
   ("definition_empty", .ofTexts s.definitionEmpty),
   ("field", .ofTexts s.field)]

def Schema.toDocument (s : Schema) : Document :=
  .mapping
    [("sys_includes", .ofTexts s.sysIncludes),
     ("project_includes", .ofTexts s.projectIncludes),
     ("namespace", .string s.scope),
     ("ast", .mapping (Node.toEntries s.ast)),
     ("printer", .mapping s.printer.toEntries)]

end CppAst
