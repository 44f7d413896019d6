import CppAst.FileSystem.System

namespace CppAst

inductive WriteRule where
  | always
  | ifChanged
deriving Repr, DecidableEq

inductive WriteResult where
  | written
  | unchanged
deriving Repr, DecidableEq

inductive WriteError where
  | createDirectory (path : Path)
  | write (path : Path)
  | stage (path : Path)
  | replace (path : Path)
deriving Repr, DecidableEq

def WriteError.message : WriteError → String
  | createDirectory p => s!"failed to create directory '{p.text}'"
  | write p => s!"failed to write '{p.text}'"
  | stage p => s!"failed to stage '{p.text}'"
  | replace p => s!"failed to replace '{p.text}'"

structure OutputFile where
  path : Path
  content : String
  rule : WriteRule := .always
deriving Repr, DecidableEq

namespace OutputFile

def bytes (file : OutputFile) : ByteArray := file.content.toUTF8

variable (sys : System)

def isUnchanged (file : OutputFile) (fs : FileSystem) : Bool :=
  match file.rule, sys.readText file.path fs with
  | .ifChanged, .ok text => text = file.content
  | _, _ => false

def overwrite (file : OutputFile) (fs : FileSystem) : Except WriteError Unit × FileSystem :=
  let inPlace (fs : FileSystem) : Except WriteError Unit × FileSystem :=
    match sys.writeFile file.path file.bytes fs with
    | (.ok (), fs) => (.ok (), fs)
    | (.error _, fs) => (.error (.write file.path), fs)
  match file.path.parent? with
  | none => inPlace fs
  | some parent =>
    match sys.makeDirectories parent fs with
    | (.ok (), fs) => inPlace fs
    | (.error _, fs) => (.error (.createDirectory parent), fs)

def write (file : OutputFile) (fs : FileSystem) : Except WriteError WriteResult × FileSystem :=
  if file.isUnchanged sys fs then (.ok .unchanged, fs)
  else match file.overwrite sys fs with
    | (.ok (), fs) => (.ok .written, fs)
    | (.error e, fs) => (.error e, fs)

end OutputFile
end CppAst
