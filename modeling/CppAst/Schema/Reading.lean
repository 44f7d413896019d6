import CppAst.Document
import CppAst.Schema.Basic
import CppAst.Schema.Error

namespace CppAst

inductive Member where
  | node (node : Node)
  | field (field : Field)

namespace Member

def node? : Member → Option Node
  | node n => some n
  | field _ => none

def field? : Member → Option Field
  | node _ => none
  | field f => some f

end Member

namespace Schema

def below (path key : String) : String := path ++ "." ++ key

/-- The path of `key` in the mapping at `path`, which is empty for the root. -/
def pathOf (path key : String) : String := if path.isEmpty then key else below path key

section Required

variable (entries : List (String × Document)) (path key : String)

def required : Except SchemaError Document :=
  match entries.lookup key with
  | some value => .ok value
  | none => .error (.missingKey (pathOf path key))

def requiredMapping : Except SchemaError (List (String × Document)) := do
  match ← required entries path key with
  | .mapping inner => return inner
  | other => .error (.invalidShape (pathOf path key) "a mapping" other.shape)

def requiredString : Except SchemaError String := do
  match ← required entries path key with
  | .string text => return text
  | other => .error (.invalidShape (pathOf path key) "a string" other.shape)

def requiredStrings : Except SchemaError (List String) := do
  match ← required entries path key with
  | .list items =>
    (Document.texts items).mapError (.invalidShape (pathOf path key) "a list of strings" ·)
  | other => .error (.invalidShape (pathOf path key) "a list of strings" other.shape)

end Required

/-- The struct that a body with these members makes. Nodes and fields keep their own order. -/
def struct (name : String) (members : List Member) : Node :=
  .struct name (members.filterMap Member.node?) (members.filterMap Member.field?)

mutual

/-- The member `name` of a struct body: its value's shape decides what it is. -/
def member (path name : String) : Document → Except SchemaError Member
  | .mapping entries => return .node (struct name (← members path entries))
  | .list items =>
    match Document.texts items with
    | .ok elements => return .node (.enum name elements)
    | .error found => .error (.invalidShape path "a list of strings (enum elements)" found)
  | .string type => return .field ⟨name, type⟩
  | other => .error
    (.invalidShape path "a mapping (struct), list (enum) or string (field type)" other.shape)

def members (path : String) : List (String × Document) → Except SchemaError (List Member)
  | [] => return []
  | (name, value) :: rest => do
    let first ← member (below path name) name value
    return first :: (← members path rest)

end

def topLevel (name : String) : Document → Except SchemaError Node
  | .mapping entries => return struct name (← members name entries)
  | other =>
    .error (.invalidShape name "a mapping (top-level nodes are structs)" other.shape)

def printerSections (entries : List (String × Document)) : Except SchemaError PrinterSections := do
  let lines := requiredStrings entries "printer"
  return {
    template := ← lines "template"
    declaration := ← lines "declaration"
    definition := ← lines "definition"
    definitionEnum := ← lines "definition_enum"
    definitionEnumCase := ← lines "definition_enum_case"
    definitionEmpty := ← lines "definition_empty"
    field := ← lines "field" }

def ofDocument : Document → Except SchemaError Schema
  | .mapping root => do
    let sysIncludes ← requiredStrings root "" "sys_includes"
    let projectIncludes ← requiredStrings root "" "project_includes"
    let scope ← requiredString root "" "namespace"
    let ast ← requiredMapping root "" "ast"
    let printer ← printerSections (← requiredMapping root "" "printer")
    let ast ← ast.mapM fun (name, value) ↦ topLevel name value
    return { sysIncludes, projectIncludes, scope, ast, printer }
  | other => .error (.invalidShape "(document)" "a mapping" other.shape)

end Schema
end CppAst
