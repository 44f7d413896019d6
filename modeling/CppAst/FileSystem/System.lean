import CppAst.FileSystem.Resolution

namespace CppAst

inductive Call where
  | read (path : Path)
  | makeDirectory (path : Path)
  /-- Opens a file to be written in place, and empties it. -/
  | overwrite (path : Path)
  | createTemporary (directory : Path) (name : String)
  | persist (directory : Path) (name : String) (target : Path)
  | removeTemporary (directory : Path) (name : String)
deriving Repr, DecidableEq

/-- What files alone do not decide. The operating system may refuse a call, for want of permission
or of space, because something is mounted at a path, and so on, and writing to an open file can fail
part way. The names of temporary files are drawn at random. -/
structure System where
  refuses : Call → FileSystem → Option FileFailure
  /-- How many bytes are written to a file before writing fails, and why it does. -/
  stops : Inode → ByteArray → FileSystem → Option (Nat × FileFailure)
  /-- The name for a temporary file in a directory. -/
  draw : (directory : Path) → FileSystem → String

structure Temporary where
  directory : Path
  name : String
  inode : Inode
deriving Repr, DecidableEq

namespace FileSystem

/-- The path without the slashes at its end, which do not matter for a directory to be made. -/
def withoutSlashes (p : Path) : Path :=
  match (p.text.toList.reverse.dropWhile (· = '/')).reverse with
  | [] => p
  | text => ⟨.ofList text⟩

def makeDirectory (fs : FileSystem) (p : Path) : Except FileFailure FileSystem :=
  match lastName? (withoutSlashes p) with
  | none => do
    let _ ← fs.find (withoutSlashes p)
    throw .alreadyExists
  | some _ => do
    let place ← fs.place (withoutSlashes p)
    match fs.entry place with
    | none => return fs.create place (.directory place.directory)
    | some _ => throw .alreadyExists

/-- The place at which steps end where nothing is yet, where `onward` follows those that a symbolic
link stands for. -/
def vacancyWith (fs : FileSystem) (onward : Inode → List Step → Except FileFailure Place)
    (here : Inode) (path : List Step) : Except FileFailure Place :=
  match path.getLast? with
  | some (.into name) => do
    let place ← fs.nameIn (← fs.walk mostLinks here path.dropLast) name
    match fs.at? place with
    | none => return place
    | some (.link target) =>
      onward (if target.isAbsolute then fs.root else place.directory) (steps target)
    | some _ => throw .alreadyExists
  | some .stay | some .up | none => .error .isDirectory

def vacancy (fs : FileSystem) :
    (links : Nat) → (here : Inode) → List Step → Except FileFailure Place
  | 0 => fs.vacancyWith fun _ _ ↦ .error .tooManyLinks
  | links + 1 => fs.vacancyWith (fs.vacancy links)

def openFile (fs : FileSystem) (p : Path) : Except FileFailure (Inode × FileSystem) :=
  match fs.find p with
  | .ok inode =>
    match fs.object inode with
    | some (.directory _) => .error .isDirectory
    | some o => .ok (inode, fs.store inode (o.withContent .empty))
    | none => .error .notFound
  | .error .notFound => do
    let place ← fs.vacancy mostLinks (fs.origin p) (steps p)
    return (fs.fresh, fs.create place (.file .empty false))
  | .error e => .error e

/-- Gives another name to what has one, in place of what had the new name unless that is a
directory. Two names of the same file stay. -/
def rename (fs : FileSystem) (source target : Place) : Except FileFailure FileSystem :=
  match fs.entry source with
  | none => .error .notFound
  | some inode =>
    if fs.entry target = some inode then .ok fs
    else match fs.at? target with
      | some (.directory _) => .error .isDirectory
      | _ => .ok ((fs.unlink source).link target inode)

end FileSystem

namespace System

variable (sys : System)

def call {α : Type} (c : Call) (fs : FileSystem) (result : Except FileFailure α) :
    Except FileFailure α :=
  match sys.refuses c fs with
  | some failure => .error failure
  | none => result

def readText (p : Path) (fs : FileSystem) : Except FileFailure String :=
  sys.call (.read p) fs (fs.readText p)

def makeDirectory (p : Path) (fs : FileSystem) : Except FileFailure FileSystem :=
  sys.call (.makeDirectory p) fs (fs.makeDirectory p)

/-- Makes the first of these paths a directory, where each path is followed by its ancestors. What
is missing of them is made too, and stays if a later step fails. -/
def makeAll : List Path → FileSystem → Except FileFailure Unit × FileSystem
  | [], fs => (.error .notFound, fs)
  | p :: outer, fs =>
    if p.text.isEmpty then (.ok (), fs)
    else match sys.makeDirectory p fs with
      | .ok fs => (.ok (), fs)
      | .error .notFound =>
        match makeAll outer fs with
        | (.error e, fs) => (.error e, fs)
        | (.ok (), fs) =>
          match sys.makeDirectory p fs with
          | .ok fs => (.ok (), fs)
          | .error e => (if fs.isDirectory p then .ok () else .error e, fs)
      | .error e => (if fs.isDirectory p then .ok () else .error e, fs)

@[irreducible]
def makeDirectories (p : Path) (fs : FileSystem) : Except FileFailure Unit × FileSystem :=
  sys.makeAll p.ancestors fs

def fill (inode : Inode) (content : ByteArray) (fs : FileSystem) :
    Except FileFailure Unit × FileSystem :=
  let put (content : ByteArray) :=
    match fs.object inode with
    | some o => fs.store inode (o.withContent content)
    | none => fs
  match sys.stops inode content fs with
  | none => (.ok (), put content)
  | some (n, failure) => (.error failure, put (content.extract 0 n))

def writeFile (p : Path) (content : ByteArray) (fs : FileSystem) :
    Except FileFailure Unit × FileSystem :=
  match sys.call (.overwrite p) fs (fs.openFile p) with
  | .ok (inode, fs) => sys.fill inode content fs
  | .error e => (.error e, fs)

/-- Removes a temporary file. If that cannot be done, it stays. -/
def discard (t : Temporary) (fs : FileSystem) : FileSystem :=
  match sys.call (.removeTemporary t.directory t.name) fs (fs.placeIn t.directory t.name) with
  | .ok place => if (fs.at? place).any FileObject.isDirectory then fs else fs.unlink place
  | .error _ => fs

def createTemporary (directory : Path) (fs : FileSystem) :
    Except FileFailure (Temporary × FileSystem) :=
  let name := sys.draw directory fs
  sys.call (.createTemporary directory name) fs <| do
    let place ← fs.placeIn directory name
    match fs.entry place with
    | none => return (⟨directory, name, fs.fresh⟩, fs.create place (.file .empty false))
    | some _ => throw .alreadyExists

def persist (t : Temporary) (target : Path) (fs : FileSystem) : Except FileFailure FileSystem :=
  sys.call (.persist t.directory t.name target) fs <| do
    let source ← fs.placeIn t.directory t.name
    fs.rename source (← fs.place target)

end System
end CppAst
