namespace CppAst

inductive SchemaError where
  /-- No entry at this dotted path. -/
  | missingKey (key : String)
  /-- The entry at this dotted path has the wrong kind of value. -/
  | invalidShape (path expected found : String)
deriving Repr, DecidableEq

namespace SchemaError

def lastSegment (path : String) : String :=
  .ofList (path.toList.reverse.takeWhile (· ≠ '.')).reverse

/-- The key the error is about, without the path that leads to it. -/
def name : SchemaError → String
  | missingKey key => lastSegment key
  | invalidShape path _ _ => lastSegment path

def message : SchemaError → String
  | missingKey key => s!"missing required key '{key}'"
  | invalidShape path expected found =>
    s!"invalid definition of '{path}': expected {expected}, found {found}"

def code : SchemaError → String
  | missingKey _ => "astgen::missing_key"
  | invalidShape .. => "astgen::invalid_shape"

def help? : SchemaError → Option String
  | missingKey _ => some
    "every schema needs 'sys_includes', 'project_includes', 'namespace', 'ast' and 'printer'"
  | invalidShape .. => none

end SchemaError
end CppAst
