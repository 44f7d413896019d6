import CppAst.Schema.Check
import CppAst.Toml.Value

namespace CppAst.Toml

namespace Value

/-- What is read as text. TOML writes dates and times without quotes, and they are read as well. -/
def IsText : Value → Prop
  | string _ | dateTime _ => True
  | integer _ | float _ | boolean _ | array _ | table _ => False

def IsTexts : Value → Prop
  | array items => ∀ item ∈ items, item.IsText
  | string _ | integer _ | float _ | boolean _ | dateTime _ | table _ => False

def IsTable : Value → Prop
  | table _ => True
  | string _ | integer _ | float _ | boolean _ | dateTime _ | array _ => False

def Meets : Demand → Value → Prop
  | .document, value | .mapping, value | .topLevel, value => value.IsTable
  | .string, value => value.IsText
  | .strings, value => value.IsTexts
  | .member, value => value.IsTable ∨ value.IsTexts ∨ value.IsText

def at? : Value → List String → Option Value
  | v, [] => some v
  | table entries, key :: keys => (entries.lookup key).bind (at? · keys)
  | _, _ :: _ => none

end Value

mutual

def Value.IsMember : Value → Prop
  | .table entries => IsBody entries
  | value => value.IsTexts ∨ value.IsText

def IsBody : List (String × Value) → Prop
  | [] => True
  | (_, value) :: rest => value.IsMember ∧ IsBody rest

end

/-- The table has all that a schema needs, and each value is of a kind that can be read. -/
structure DenotesSchema (root : List (String × Value)) : Prop where
  scope : ∃ value, root.lookup "namespace" = some value ∧ value.IsText
  includes : ∀ key ∈ ["sys_includes", "project_includes"],
    ∃ value, root.lookup key = some value ∧ value.IsTexts
  printer : ∃ sections, root.lookup "printer" = some (.table sections) ∧
    ∀ key ∈ Check.sections, ∃ value, sections.lookup key = some value ∧ value.IsTexts
  tree : ∃ nodes, root.lookup "ast" = some (.table nodes) ∧
    ∀ node ∈ nodes, ∃ body, node.2 = .table body ∧ IsBody body

end CppAst.Toml
