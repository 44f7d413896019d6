import CppAst.FileSystem.System
import CppAst.Json.Machine
import CppAst.Schema.LoadError
import CppAst.Schema.Reading
import CppAst.Toml.Machine

namespace CppAst

structure Readers where
  json : String → Except JsonError Document
  toml : String → Except TomlError (List (String × Toml.Value))

def Json.SyntaxError.report (e : Json.SyntaxError) : JsonError := ⟨e.reason.message, e.position⟩

/-- The parsers of this library. That of TOML does not tell what is wrong with a text. -/
def Readers.standard : Readers where
  json text := (Json.parse text.toList).mapError Json.SyntaxError.report
  toml text :=
    match Toml.parse text.toList with
    | some table => .ok table
    | none => .error ⟨"TOML parse error", none⟩

inductive SchemaFormat where
  | json
  | toml
deriving Repr, DecidableEq

namespace SchemaFormat

/-- A file is TOML if its extension is, in letters of either case, and JSON otherwise. -/
def ofPath (p : Path) : SchemaFormat :=
  match p.extension? with
  | some extension => if extension.map Char.toLower = ['t', 'o', 'm', 'l'] then toml else json
  | none => json

def parse (readers : Readers) (format : SchemaFormat) (source : SourceText) :
    Except LoadError Document :=
  match format with
  | json => (readers.json source.text).mapError source.jsonError
  | toml =>
    ((readers.toml source.text).map fun table ↦ (Toml.Value.table table).toDocument).mapError
      source.tomlError

end SchemaFormat

namespace Schema

def standardName : String := "ast.json"

def parse (readers : Readers) (source : SourceText) (format : SchemaFormat := .json) :
    Except LoadError Schema := do
  (ofDocument (← format.parse readers source)).mapError source.schemaError

end Schema

structure SchemaFile where
  path : Path
  content : String
  schema : Schema

namespace SchemaFile

def read (readers : Readers) (sys : System) (path : Path) (fs : FileSystem) :
    Except LoadError SchemaFile := do
  let content ← (sys.readText path fs).mapError (.unreadable path)
  return ⟨path, content, ← Schema.parse readers ⟨content, path.text⟩ (.ofPath path)⟩

end SchemaFile
end CppAst
