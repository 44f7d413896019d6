import CppAst.FileSystem.Failure
import CppAst.Path
import CppAst.Schema.Error
import CppAst.Source.KeySearch

namespace CppAst

structure SourceText where
  text : String
  name : String
deriving Repr, DecidableEq

structure Label where
  span : Source.Span
  text : String
deriving Repr, DecidableEq

/-- The label takes in one occurrence of `name` in the text, whole characters and nothing else. -/
structure Label.Marks (label : Label) (text name : String) : Prop where
  within : label.span.offset + label.span.length ≤ text.utf8ByteSize
  bytes : text.toUTF8.extract label.span.offset (label.span.offset + label.span.length) =
    name.toUTF8
  between : ∃ before after, text = before ++ name ++ after ∧
    label.span = ⟨before.utf8ByteSize, name.utf8ByteSize⟩

/-- What a parser of JSON tells of a text that it rejects: a reason, and where it stood. -/
structure JsonError where
  reason : String
  position : Source.Position
deriving Repr, DecidableEq

def JsonError.message (e : JsonError) : String :=
  s!"{e.reason} at line {e.position.line} column {e.position.column}"

structure TomlError where
  message : String
  span : Option Source.Span
deriving Repr, DecidableEq

inductive LoadError where
  | unreadable (path : Path) (failure : FileFailure)
  | json (source : SourceText) (span : Option Source.Span) (error : JsonError)
  | toml (source : SourceText) (span : Option Source.Span) (error : TomlError)
  | missingKey (source : SourceText) (key : String)
  | invalidShape (source : SourceText) (span : Option Source.Span) (path expected found : String)
deriving Repr, DecidableEq

namespace SourceText

/-- A syntax error, labelled in this text if its position is one of it. -/
def jsonError (source : SourceText) (error : JsonError) : LoadError :=
  .json source ((Source.offset? source.text.toList error.position).map (⟨·, 1⟩)) error

def tomlError (source : SourceText) (error : TomlError) : LoadError :=
  .toml source error.span error

/-- A fault of the schema that this text denotes. A wrong shape is labelled at its key. -/
def schemaError (source : SourceText) : SchemaError → LoadError
  | .missingKey key => .missingKey source key
  | .invalidShape path expected found =>
    let name := SchemaError.lastSegment path
    .invalidShape source (Source.findKey? source.text.toList name.toList) path expected found

end SourceText

namespace LoadError

def message : LoadError → String
  | unreadable path _ => s!"failed to read '{path.text}'"
  | json .. => "failed to parse JSON schema"
  | toml .. => "failed to parse TOML schema"
  | missingKey _ key => s!"missing required key '{key}'"
  | invalidShape _ _ path _ _ => s!"invalid definition of '{path}'"

def code : LoadError → String
  | unreadable .. => "astgen::io"
  | json .. | toml .. => "astgen::parse_error"
  | missingKey .. => "astgen::missing_key"
  | invalidShape .. => "astgen::invalid_shape"

def help? : LoadError → Option String
  | unreadable .. | json .. | toml .. => none
  | missingKey _ key => some
    s!"add '{key}' to the schema; all printer sections must be present, even if empty"
  | invalidShape .. => some
    ("a node entry must be a mapping (nested struct), a list of strings (enum) " ++
      "or a string (field type)")

def fileName? : LoadError → Option String
  | unreadable .. => none
  | json source _ _ | toml source _ _ | missingKey source _ | invalidShape source _ _ _ _ =>
    some source.name

def label? : LoadError → Option Label
  | unreadable .. | missingKey .. => none
  | json _ span _ | toml _ span _ => span.map (⟨·, "parse error here"⟩)
  | invalidShape _ span _ expected found => span.map (⟨·, s!"expected {expected}, found {found}"⟩)

def cause? : LoadError → Option String
  | unreadable _ failure => some failure.message
  | json _ _ error => some error.message
  | toml _ _ error => some error.message
  | missingKey .. | invalidShape .. => none

def schemaError? : LoadError → Option SchemaError
  | unreadable .. | json .. | toml .. => none
  | missingKey _ key => some (.missingKey key)
  | invalidShape _ _ path expected found => some (.invalidShape path expected found)

def LabelWithin (error : LoadError) (text : String) : Prop :=
  ∀ label ∈ error.label?, label.span.offset + label.span.length ≤ text.utf8ByteSize

end LoadError
end CppAst
