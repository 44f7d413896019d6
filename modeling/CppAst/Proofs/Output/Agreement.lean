import CppAst.Proofs.FileSystem.Detour
import CppAst.Proofs.Output.Direct
import CppAst.Proofs.Output.WrittenBatch

namespace CppAst

open FileSystem Outcome

variable {sys : System} {fs fs' now : FileSystem} {place source : Place} {file : OutputFile}
  {t : Temporary} {content : ByteArray} {inode : Inode} {executable : Bool} {e : WriteError}

namespace FileSystem

theorem Puts.rename (h : Puts fs fs' source content inode executable)
    (hs : fs.entry source = none) (hd : ∀ parent, fs.at? place ≠ some (.directory parent)) :
    ∃ fs'', fs'.rename source place = .ok fs'' ∧
      Puts fs fs'' place content inode executable := by
  have hunused (other : Place) : fs.entry other ≠ some inode := by
    intro he
    rw [h.sole other he, hs] at he
    cases he
  have hsource : fs'.entry source = some inode := by rw [h.entry, if_pos rfl]
  by_cases hsame : place = source
  · subst hsame
    exact ⟨fs', by simp [FileSystem.rename, hsource], h⟩
  have hplace : fs'.entry place = fs.entry place := by rw [h.entry, if_neg hsame]
  have hdirectory (parent : Inode) : fs'.at? place ≠ some (.directory parent) := by
    intro hat
    obtain ⟨other, he, ho⟩ := at?_eq_some.mp hat
    rw [hplace] at he
    exact hd parent (at?_eq_some.mpr ⟨other, he, h.object_eq_directory.mp ho⟩)
  have hne : fs'.entry place ≠ some inode := hplace ▸ hunused place
  refine ⟨_, (rename_eq_ok hsource hne).mpr ⟨hdirectory, rfl⟩, h.root, h.workingDirectory, ?_,
    h.object, ?_, h.noDirectory⟩
  · intro other
    rw [entry_link, entry_unlink, h.entry]
    split
    next => rfl
    next =>
      split
      next ho => rw [ho, hs]
      next => rfl
  · exact fun other he ↦ absurd he (hunused other)

end FileSystem

namespace Batch

end Batch

def Seen.content? : Seen → Option ByteArray
  | .file content | .device content => some content
  | .directory | .link _ => none

namespace OutputFile

end OutputFile

def System.permissive : System := { System.standard with refuses := fun _ _ ↦ none }

def System.full : System :=
  { System.permissive with stops := fun _ _ _ ↦ some (0, .noSpace) }

namespace OutputFile

end OutputFile

end CppAst
