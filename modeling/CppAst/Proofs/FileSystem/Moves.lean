import CppAst.FileSystem.System
import CppAst.Proofs.FileSystem.Ways

namespace CppAst

namespace Outcome

theorem toOption_eq_some {ε α : Type} {x : Except ε α} {a : α} :
    x.toOption = some a ↔ x = .ok a := by
  cases x <;> simp [Except.toOption]

end Outcome

namespace FileSystem

variable {fs fs' : FileSystem} {moves : List (Place × Inode)} {gone : List Place}
  {place source target : Place} {inode : Inode} {kept : FileObject → Bool}

theorem rename_eq_ok (he : fs.entry source = some inode) (hn : fs.entry target ≠ some inode) :
    fs.rename source target = .ok fs' ↔ (∀ parent, fs.at? target ≠ some (.directory parent)) ∧
      fs' = (fs.unlink source).link target inode := by
  simp only [rename, he, if_neg hn]
  split
  next parent hd => simp [hd]
  next hd =>
    have hnone : ∀ parent, fs.at? target ≠ some (.directory parent) := fun parent h ↦ hd parent h
    simp [hnone, eq_comm]

/-- Names have been given to objects, the last one first, and names have been taken away. -/
structure Moves (fs fs' : FileSystem) (moves : List (Place × Inode)) (gone : List Place) :
    Prop where
  root : fs'.root = fs.root
  workingDirectory : fs'.workingDirectory = fs.workingDirectory
  object (inode : Inode) : fs'.object inode = fs.object inode
  entry (place : Place) : fs'.entry place =
    if place ∈ gone then none else (moves.lookup place).or (fs.entry place)

namespace Moves

theorem refl (fs : FileSystem) : Moves fs fs [] [] := by
  constructor <;> simp

theorem unlink (h : Moves fs fs' moves gone) (place : Place) :
    Moves fs (fs'.unlink place) moves (place :: gone) where
  root := h.root
  workingDirectory := h.workingDirectory
  object := h.object
  entry other := by
    rw [entry_unlink, h.entry]
    by_cases hp : other = place <;> simp [hp]

theorem link (h : Moves fs fs' moves gone) (hp : place ∉ gone) (inode : Inode) :
    Moves fs (fs'.link place inode) ((place, inode) :: moves) gone where
  root := h.root
  workingDirectory := h.workingDirectory
  object := h.object
  entry other := by
    rw [entry_link, h.entry, lookup_cons]
    by_cases ho : other = place
    · simp [ho, hp]
    · simp [ho]

theorem rename (h : Moves fs fs' moves gone) (hs : target ≠ source) (hg : target ∉ gone)
    (inode : Inode) :
    Moves fs ((fs'.unlink source).link target inode) ((target, inode) :: moves)
      (source :: gone) :=
  (h.unlink source).link (by simp [hs, hg]) inode

theorem entry_of_not_moved (h : Moves fs fs' moves gone) (hg : place ∉ gone)
    (hm : ∀ inode, (place, inode) ∉ moves) : fs'.entry place = fs.entry place := by
  have hl : moves.lookup place = none := by
    cases hl : moves.lookup place with
    | none => rfl
    | some inode => exact absurd (mem_of_lookup hl) (hm inode)
  rw [h.entry, if_neg hg, hl, Option.none_or]

theorem entry_cases (h : Moves fs fs' moves gone) (he : fs'.entry place = some inode) :
    place ∉ gone ∧ ((place, inode) ∈ moves ∨ fs.entry place = some inode) := by
  rw [h.entry] at he
  split at he
  next => cases he
  next hg =>
    refine ⟨hg, ?_⟩
    cases hl : moves.lookup place with
    | none =>
      rw [hl, Option.none_or] at he
      exact .inr he
    | some other =>
      rw [hl, Option.some_or] at he
      exact .inl (Option.some.inj he ▸ mem_of_lookup hl)

theorem keepsWays_back (h : Moves fs fs' moves gone)
    (hm : ∀ m ∈ moves, ∀ o, fs.object m.2 = some o → o.isPassable = false) : KeepsWays fs' fs where
  root := h.root.symm
  workingDirectory := h.workingDirectory.symm
  object {inode o} ho _ := (h.object inode).symm.trans ho
  entry {place inode o} he ho hk := by
    rw [h.object] at ho
    obtain ⟨-, hmoved | hold⟩ := h.entry_cases he
    · have hn := hm _ hmoved o ho
      simp [hn] at hk
    · exact hold

theorem keeps (h : Moves fs fs' moves gone)
    (hg : ∀ place ∈ gone, ∀ o, fs.at? place = some o → kept o = false)
    (hm : ∀ m ∈ moves, ∀ o, fs.at? m.1 = some o → kept o = false) : Keeps kept fs fs' where
  root := h.root
  workingDirectory := h.workingDirectory
  object {inode o} ho _ := (h.object inode).trans ho
  entry {place inode o} he ho hk := by
    have hat : fs.at? place = some o := at?_eq_some.mpr ⟨inode, he, ho⟩
    rw [h.entry_of_not_moved, he]
    · intro hp
      have hn := hg place hp o hat
      simp [hn] at hk
    · intro other hp
      have hn := hm _ hp o hat
      simp [hn] at hk

end Moves

end FileSystem
end CppAst
