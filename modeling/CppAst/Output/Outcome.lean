import CppAst.FileSystem.Change
import CppAst.Output.Batch

namespace CppAst

namespace Batch

variable (sys : System)

def moved : List Staged → FileSystem → List OutputFile
  | [], _ => []
  | ⟨_, none⟩ :: rest, fs => moved rest fs
  | ⟨file, some temporary⟩ :: rest, fs =>
    match sys.persist temporary file.path fs with
    | .error _ => []
    | .ok fs => file :: moved rest fs

/-- The files whose targets are replaced before the batch succeeds or fails. -/
def replaced (files : List OutputFile) (fs : FileSystem) : List OutputFile :=
  match stageAll sys [] files fs with
  | (.ok staged, fs) => moved sys staged fs
  | (.error _, _) => []

def written (files : List OutputFile) (results : List WriteResult) : List OutputFile :=
  ((files.zip results).filter (·.2 = .written)).map Prod.fst

def IsTarget (files : List OutputFile) (fs : FileSystem) (place : Place) : Prop :=
  ∃ file ∈ files, fs.place file.path = .ok place

def IsAncestor (files : List OutputFile) (fs : FileSystem) (place : Place) : Prop :=
  ∃ file ∈ files, fs.IsNamed file.directory.ancestors place

end Batch
end CppAst
