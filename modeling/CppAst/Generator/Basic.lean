import CppAst.Generator.Unit
import CppAst.Output.Batch

namespace CppAst.Generator

structure Preview where
  name : String
  content : String
deriving Repr, DecidableEq

variable (schema : Schema) (options : GeneratorOptions)

def preview : List Preview :=
  CodeUnit.all.map fun unit ↦ ⟨unit.name options, unit.render schema options⟩

def outputFile (base : Path) (rule : WriteRule) (unit : CodeUnit) : OutputFile :=
  ⟨unit.path options base, unit.render schema options, rule⟩

def outputFiles (base : Path) (rule : WriteRule) : List OutputFile :=
  CodeUnit.all.map (outputFile schema options base rule)

structure Report where
  files : List (Path × WriteResult)
deriving Repr, DecidableEq

def Report.written (r : Report) : List Path :=
  (r.files.filter (·.2 = .written)).map Prod.fst

/-- Renders both units, then writes them together. -/
def generate (sys : System) (base : Path) (rule : WriteRule) (fs : FileSystem) :
    Except WriteError Report × FileSystem :=
  let files := outputFiles schema options base rule
  match Batch.write sys files fs with
  | (.ok results, fs) => (.ok ⟨(files.map OutputFile.path).zip results⟩, fs)
  | (.error e, fs) => (.error e, fs)

end CppAst.Generator
