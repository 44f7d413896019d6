import CppAst.Output.Agreement
import CppAst.Proofs.FileSystem.Ways

namespace CppAst.FileSystem

variable {fs fs' fs₁ fs₂ : FileSystem} {here : Inode} {place : Place} {content : ByteArray}
  {inode inode₁ inode₂ : Inode} {executable executable₁ executable₂ : Bool} {name : String}
  {rest : List String}

/-- A place has been given a file that is found nowhere else. -/
structure Puts (fs fs' : FileSystem) (place : Place) (content : ByteArray) (inode : Inode)
    (executable : Bool) : Prop where
  root : fs'.root = fs.root
  workingDirectory : fs'.workingDirectory = fs.workingDirectory
  entry (other : Place) :
    fs'.entry other = if other = place then some inode else fs.entry other
  object (other : Inode) :
    fs'.object other = if other = inode then some (.file content executable) else fs.object other
  sole (other : Place) : fs.entry other = some inode → other = place
  noDirectory (parent : Inode) : fs.object inode ≠ some (.directory parent)

theorem puts_create (fs : FileSystem) (place : Place) (content : ByteArray) :
    Puts fs ((fs.create place (.file .empty false)).store fs.fresh (.file content false)) place
      content fs.fresh false where
  root := rfl
  workingDirectory := rfl
  entry other := by rw [entry_store, entry_create]
  object other := by
    rw [object_store, object_create]
    split <;> rfl
  sole other he := absurd rfl (entry_ne_fresh he)
  noDirectory parent h := object_ne_fresh h rfl

theorem Puts.keepsWays_back (h : Puts fs fs' place content inode executable) : KeepsWays fs' fs where
  root := h.root.symm
  workingDirectory := h.workingDirectory.symm
  object {other o} ho hk := by
    rw [h.object] at ho
    split at ho
    next => cases ho; cases hk
    next => exact ho
  entry {other next o} he ho hk := by
    rw [h.entry] at he
    split at he
    next =>
      obtain rfl := Option.some.inj he
      rw [h.object, if_pos rfl] at ho
      cases ho
      cases hk
    next => exact he

theorem Puts.object_eq_directory (h : Puts fs fs' place content inode executable)
    {parent : Inode} :
    fs'.object here = some (.directory parent) ↔ fs.object here = some (.directory parent) := by
  rw [h.object]
  split
  next he =>
    subst he
    exact iff_of_false nofun (h.noDirectory parent)
  next => rfl

end CppAst.FileSystem
