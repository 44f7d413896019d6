import CppAst.FileSystem.Basic
import CppAst.FileSystem.Failure

namespace CppAst.FileSystem

inductive Step where
  | stay
  | up
  | into (name : String)
deriving Repr, DecidableEq

/-- The steps of a path. A slash at the end asks for a directory. -/
def steps (p : Path) : List Step :=
  p.pieces.map fun
    | [] | ['.'] => .stay
    | ['.', '.'] => .up
    | name => .into (.ofList name)

def lastName? (p : Path) : Option String :=
  match (steps p).getLast? with
  | some (.into name) => some name
  | some .stay | some .up | none => none

def longestPath : Nat := 4095

def longestName : Nat := 255

def mostLinks : Nat := 40

def check (p : Path) : Except FileFailure Unit :=
  if p.text.isEmpty then .error .notFound
  else if p.text.toList.contains '\x00' then .error .nulInPath
  else if longestPath < p.text.utf8ByteSize then .error .nameTooLong
  else .ok ()

variable (fs : FileSystem)

def isDirectoryAt (inode : Inode) : Bool := (fs.object inode).any FileObject.isDirectory

/-- What a step leads to, together with its inode. It is made in a directory. -/
def enter (here : Inode) (step : Step) : Except FileFailure (Inode × FileObject) :=
  match fs.object here with
  | none => .error .notFound
  | some (.directory parent) =>
    match step with
    | .stay => .ok (here, .directory parent)
    | .up =>
      match fs.object parent with
      | some (.directory above) => .ok (parent, .directory above)
      | _ => .error .notFound
    | .into name =>
      if longestName < name.utf8ByteSize then .error .nameTooLong
      else match fs.entry ⟨here, name⟩ with
        | none => .error .notFound
        | some inode =>
          match fs.object inode with
          | none => .error .notFound
          | some o => .ok (inode, o)
  | some _ => .error .notDirectory

/-- Follows steps, where `onward` follows those that a symbolic link stands for. -/
def walkWith (onward : Inode → List Step → Except FileFailure Inode) :
    (here : Inode) → List Step → Except FileFailure Inode
  | here, [] => .ok here
  | here, step :: rest =>
    match fs.enter here step with
    | .error e => .error e
    | .ok (_, .link target) =>
      onward (if target.isAbsolute then fs.root else here) (steps target ++ rest)
    | .ok (next, _) => walkWith onward next rest

def walk : (links : Nat) → (here : Inode) → List Step → Except FileFailure Inode
  | 0 => fs.walkWith fun _ _ ↦ .error .tooManyLinks
  | links + 1 => fs.walkWith (walk links)

def origin (p : Path) : Inode := if p.isAbsolute then fs.root else fs.workingDirectory

def find (p : Path) : Except FileFailure Inode := do
  check p
  fs.walk mostLinks (fs.origin p) (steps p)

def exists? (p : Path) : Bool := (fs.find p).isOk

def isDirectory (p : Path) : Bool :=
  match fs.find p with
  | .ok inode => fs.isDirectoryAt inode
  | .error _ => false

def nameIn (directory : Inode) (name : String) : Except FileFailure Place :=
  match fs.object directory with
  | none => .error .notFound
  | some (.directory _) =>
    if longestName < name.utf8ByteSize then .error .nameTooLong else .ok ⟨directory, name⟩
  | some _ => .error .notDirectory

/-- The place that a path names, where there may be nothing yet, or a symbolic link. -/
def place (p : Path) : Except FileFailure Place := do
  check p
  match lastName? p with
  | none => throw .invalidPath
  | some name => fs.nameIn (← fs.walk mostLinks (fs.origin p) (steps p).dropLast) name

def placeIn (directory : Path) (name : String) : Except FileFailure Place := do
  fs.nameIn (← fs.find directory) name

def readBytes (p : Path) : Except FileFailure ByteArray := do
  match fs.object (← fs.find p) with
  | some (.file content _) | some (.device content) => return content
  | some (.directory _) => throw .isDirectory
  | some (.link _) | none => throw .notFound

def readText (p : Path) : Except FileFailure String := do
  match String.fromUTF8? (← fs.readBytes p) with
  | some text => return text
  | none => throw .notText

end CppAst.FileSystem
