import CppAst.Output.File

namespace CppAst

/-- A file of a batch, with its temporary file unless it is unchanged. -/
structure Staged where
  file : OutputFile
  temporary : Option Temporary
deriving Repr, DecidableEq

namespace OutputFile

def directory (file : OutputFile) : Path :=
  match file.path.parent? with
  | some parent => if parent.text.isEmpty then ⟨"."⟩ else parent
  | none => ⟨"."⟩

variable (sys : System)

/-- Puts the content into a temporary file in the directory that the file is written to. If the
content cannot be written, the temporary file is removed. -/
def stage (file : OutputFile) (fs : FileSystem) : Except WriteError Temporary × FileSystem :=
  match sys.makeDirectories file.directory fs with
  | (.error _, fs) => (.error (.createDirectory file.directory), fs)
  | (.ok (), fs) =>
    match sys.createTemporary file.directory fs with
    | .error _ => (.error (.stage file.path), fs)
    | .ok (temporary, fs) =>
      match sys.fill temporary.inode file.bytes fs with
      | (.ok (), fs) => (.ok temporary, fs)
      | (.error _, fs) => (.error (.stage file.path), sys.discard temporary fs)

end OutputFile

namespace Batch

variable (sys : System)

def discard (staged : List Staged) (fs : FileSystem) : FileSystem :=
  (staged.filterMap Staged.temporary).foldl (fun fs temporary ↦ sys.discard temporary fs) fs

/-- Stages files in turn, after those that are staged already. If one cannot be staged, all
temporary files are removed. -/
def stageAll : (staged : List Staged) → List OutputFile → FileSystem →
    Except WriteError (List Staged) × FileSystem
  | staged, [], fs => (.ok staged, fs)
  | staged, file :: rest, fs =>
    if file.isUnchanged sys fs then stageAll (staged ++ [⟨file, none⟩]) rest fs
    else match file.stage sys fs with
      | (.error e, fs) => (.error e, discard sys staged fs)
      | (.ok temporary, fs) => stageAll (staged ++ [⟨file, some temporary⟩]) rest fs

/-- Moves the temporary files to their targets in turn. If one cannot be moved, it is removed with
all that follow, and the targets before it stay replaced. -/
def replaceAll : List Staged → FileSystem → Except WriteError (List WriteResult) × FileSystem
  | [], fs => (.ok [], fs)
  | ⟨_, none⟩ :: rest, fs =>
    match replaceAll rest fs with
    | (.ok results, fs) => (.ok (.unchanged :: results), fs)
    | (.error e, fs) => (.error e, fs)
  | ⟨file, some temporary⟩ :: rest, fs =>
    match sys.persist temporary file.path fs with
    | .error _ => (.error (.replace file.path), discard sys (⟨file, some temporary⟩ :: rest) fs)
    | .ok fs =>
      match replaceAll rest fs with
      | (.ok results, fs) => (.ok (.written :: results), fs)
      | (.error e, fs) => (.error e, fs)

/-- Writes files together. All new contents are staged before the first target is replaced. -/
def write (files : List OutputFile) (fs : FileSystem) :
    Except WriteError (List WriteResult) × FileSystem :=
  match stageAll sys [] files fs with
  | (.ok staged, fs) => replaceAll sys staged fs
  | (.error e, fs) => (.error e, fs)

end Batch
end CppAst
