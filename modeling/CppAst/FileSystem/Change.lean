import CppAst.FileSystem.System

namespace CppAst

namespace System

variable (sys : System)

/-- No file that may be read is kept from the program. -/
def Reads : Prop := ∀ path fs, sys.refuses (.read path) fs = none

/-- Temporary files can always be removed again. -/
def Removes : Prop := ∀ directory name fs, sys.refuses (.removeTemporary directory name) fs = none

end System

namespace FileSystem

/-- One file system becomes the other. All objects stay. So do all names but those at the replaced
places, and there are no new names elsewhere but those of the directories that are made. -/
structure Changes (fs fs' : FileSystem) (replaced made : Place → Prop) : Prop where
  root : fs'.root = fs.root
  workingDirectory : fs'.workingDirectory = fs.workingDirectory
  object {inode : Inode} {o : FileObject} :
    fs.object inode = some o → fs'.object inode = some o
  entry {place : Place} {inode : Inode} : fs.entry place = some inode → ¬ replaced place →
    fs'.entry place = some inode ∧ fs'.object inode = fs.object inode
  vacant {place : Place} : fs.entry place = none → ¬ replaced place →
    fs'.entry place = none ∨ made place ∧ ∃ parent, fs'.at? place = some (.directory parent)

/-- The place of a directory that one of these paths names. -/
def IsNamed (fs : FileSystem) (paths : List Path) (place : Place) : Prop :=
  ∃ p ∈ paths, fs.place (withoutSlashes p) = .ok place

end FileSystem
end CppAst
