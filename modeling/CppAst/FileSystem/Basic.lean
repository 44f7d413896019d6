import CppAst.Path

namespace CppAst

abbrev Inode := Nat

inductive FileObject where
  | file (content : ByteArray) (executable : Bool)
  | directory (parent : Inode)
  | link (target : Path)
  /-- A device, from which always the same is read, whatever is written to it. -/
  | device (content : ByteArray)

namespace FileObject

def isDirectory : FileObject → Bool
  | directory _ => true
  | file .. | link _ | device _ => false

def isLink : FileObject → Bool
  | link _ => true
  | file .. | directory _ | device _ => false

def isPassable (o : FileObject) : Bool := o.isDirectory || o.isLink

def content? : FileObject → Option ByteArray
  | file content _ | device content => some content
  | directory _ | link _ => none

def withContent (content : ByteArray) : FileObject → FileObject
  | file _ executable => file content executable
  | o => o

end FileObject

structure Place where
  directory : Inode
  name : String
deriving Repr, DecidableEq

/-- Files that can have several names, directories, symbolic links and devices. -/
structure FileSystem where
  entries : List (Place × Inode)
  objects : List (Inode × FileObject)
  root : Inode
  /-- Where relative paths start. -/
  workingDirectory : Inode

namespace FileSystem

variable (fs : FileSystem)

def entry (place : Place) : Option Inode := fs.entries.lookup place

def object (inode : Inode) : Option FileObject := fs.objects.lookup inode

def at? (place : Place) : Option FileObject := (fs.entry place).bind fs.object

def unlink (place : Place) : FileSystem :=
  { fs with entries := fs.entries.filter (·.1 ≠ place) }

def link (place : Place) (inode : Inode) : FileSystem :=
  { fs with entries := (place, inode) :: fs.entries.filter (·.1 ≠ place) }

def store (inode : Inode) (o : FileObject) : FileSystem :=
  { fs with objects := (inode, o) :: fs.objects.filter (·.1 ≠ inode) }

def inodes : List Inode :=
  fs.root :: fs.workingDirectory ::
    (fs.objects.map Prod.fst ++ fs.entries.flatMap fun (place, inode) ↦ [place.directory, inode])

def fresh : Inode := fs.inodes.foldr max 0 + 1

def create (place : Place) (o : FileObject) : FileSystem := (fs.store fs.fresh o).link place fs.fresh

end FileSystem
end CppAst
