import CppAst.Formatter.Basic
import CppAst.Generator.Basic
import CppAst.Schema.Load
import CppAst.Schema.Statistics

namespace CppAst.CommandLine

/-- What became of the two files: they were written, and formatted by a program or not, or only
shown. -/
inductive Generated where
  | written (directory : Path) (files : List (Path × WriteResult)) (formatter : Option String)
  | shown (files : List Generator.Preview)
deriving Repr, DecidableEq

def unlines (lines : List String) : String := String.join (lines.map (· ++ "\n"))

def divider (text : String) : String := s!"── {text} ──"

def checkReport (file : SchemaFile) : List String :=
  let counts := Statistics.ofTree file.schema.ast
  [s!"✓ {file.path.text} is valid", "",
   s!"Namespace: {file.schema.scope}",
   "Nodes:",
   s!"  top-level: {counts.topLevel}",
   s!"  structs: {counts.structs}",
   s!"  enums: {counts.enums}",
   s!"  fields: {counts.fields}",
   s!"  enum elements: {counts.elements}",
   s!"  max depth: {counts.maxDepth}"]

def fileLine : Path × WriteResult → String
  | (path, .written) => s!"  + {path.text}"
  | (path, .unchanged) => s!"  = {path.text}"

def generateReport (file : SchemaFile) : Generated → List String
  | .written directory files formatter =>
    [s!"Schema: {file.path.text}",
     s!"Namespace: {file.schema.scope}",
     s!"Top-level nodes: {file.schema.ast.length}", "",
     s!"Generated ({directory.text}):"] ++
      files.map fileLine ++
      match formatter with
      | some name => ["", s!"Formatted with: {name}"]
      | none => []
  | .shown files =>
    files.flatMap (fun file ↦ [divider file.name, file.content]) ++
      [divider "Summary", s!"{files.length} files would be generated"]

def warning (path : Path) (error : FormatError) : String :=
  s!"warning: {ClangFormat.name} failed on {path.text}: {error.text}"

end CppAst.CommandLine
