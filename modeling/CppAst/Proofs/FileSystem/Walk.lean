import CppAst.FileSystem.Resolution
import CppAst.Proofs.FileSystem.Basic
import CppAst.Proofs.Outcome
import CppAst.Text

namespace CppAst.FileSystem

open Outcome

variable {fs fs' : FileSystem} {here next inode : Inode} {o : FileObject} {step : Step}
  {rest : List Step} {links : Nat} {p : Path} {place : Place} {name : String}

theorem isDirectoryAt_iff :
    fs.isDirectoryAt inode ↔ ∃ parent, fs.object inode = some (.directory parent) := by
  rw [isDirectoryAt]
  cases h : fs.object inode with
  | none => simp
  | some o => cases o <;> simp [FileObject.isDirectory]

/-- What a step leads to is something that is there, and it starts in a directory. -/
theorem enter_cases (h : fs.enter here step = .ok (next, o)) :
    ∃ parent, fs.object here = some (.directory parent) ∧ fs.object next = some o ∧
      (step = .stay ∧ next = here ∨ step = .up ∧ next = parent ∧ o.isDirectory ∨
        ∃ name, step = .into name ∧ name.utf8ByteSize ≤ longestName ∧
          fs.entry ⟨here, name⟩ = some next) := by
  unfold enter at h
  split at h
  case h_1 => cases h
  case h_3 => cases h
  case h_2 parent hh =>
    refine ⟨parent, hh, ?_⟩
    split at h
    · cases h
      exact ⟨hh, .inl ⟨rfl, rfl⟩⟩
    · split at h
      · next hp =>
        cases h
        exact ⟨hp, .inr (.inl ⟨rfl, rfl, rfl⟩)⟩
      · cases h
    · next name =>
      split at h
      · cases h
      · next hn =>
        split at h
        · cases h
        · next inode he =>
          split at h
          · cases h
          · next ho =>
            cases h
            exact ⟨ho, .inr (.inr ⟨name, rfl, Nat.le_of_not_lt hn, he⟩)⟩

section

variable {parent : Inode} (hh : fs.object here = some (.directory parent))
include hh

theorem enter_stay : fs.enter here .stay = .ok (here, .directory parent) := by
  simp [enter, hh]

theorem enter_up {above : Inode} (hp : fs.object parent = some (.directory above)) :
    fs.enter here .up = .ok (parent, .directory above) := by
  simp [enter, hh, hp]

theorem enter_into (hn : name.utf8ByteSize ≤ longestName)
    (he : fs.entry ⟨here, name⟩ = some next) (ho : fs.object next = some o) :
    fs.enter here (.into name) = .ok (next, o) := by
  simp [enter, hh, Nat.not_lt.mpr hn, he, ho]

end

inductive Walks (fs : FileSystem) : Nat → Inode → List Step → Inode → Prop
  | nil (links : Nat) (here : Inode) : Walks fs links here [] here
  | step {links : Nat} {here next inode : Inode} {o : FileObject} {step : Step} {rest : List Step} :
      fs.enter here step = .ok (next, o) → o.isLink = false → Walks fs links next rest inode →
      Walks fs links here (step :: rest) inode
  | link {links : Nat} {here next inode : Inode} {target : Path} {step : Step} {rest : List Step} :
      fs.enter here step = .ok (next, .link target) →
      Walks fs links (if target.isAbsolute then fs.root else here) (steps target ++ rest) inode →
      Walks fs (links + 1) here (step :: rest) inode

theorem walk_nil : fs.walk links here [] = .ok here := by
  cases links <;> rfl

theorem walk_of_enter_error {e : FileFailure} (h : fs.enter here step = .error e) :
    fs.walk links here (step :: rest) = .error e := by
  cases links <;> simp [walk, walkWith, h]

theorem walk_of_enter (h : fs.enter here step = .ok (next, o)) (ho : o.isLink = false) :
    fs.walk links here (step :: rest) = fs.walk links next rest := by
  cases o with
  | link target => cases ho
  | _ => cases links <;> simp [walk, walkWith, h]

theorem walk_of_enter_link {target : Path} (h : fs.enter here step = .ok (next, .link target)) :
    fs.walk (links + 1) here (step :: rest) =
      fs.walk links (if target.isAbsolute then fs.root else here) (steps target ++ rest) := by
  simp [walk, walkWith, h]

theorem walks_of_walk {path : List Step} (h : fs.walk links here path = .ok inode) :
    fs.Walks links here path inode := by
  induction links generalizing here path with
  | zero =>
    induction path generalizing here with
    | nil =>
      cases walk_nil.symm.trans h
      exact .nil 0 _
    | cons step rest ih =>
      cases he : fs.enter here step with
      | error e => cases (walk_of_enter_error he).symm.trans h
      | ok result =>
        obtain ⟨next, o⟩ := result
        cases hl : o.isLink with
        | false => exact .step he hl (ih ((walk_of_enter he hl).symm.trans h))
        | true =>
          cases o with
          | link target => simp [walk, walkWith, he] at h
          | _ => cases hl
  | succ links ihl =>
    induction path generalizing here with
    | nil =>
      cases walk_nil.symm.trans h
      exact .nil _ _
    | cons step rest ih =>
      cases he : fs.enter here step with
      | error e => cases (walk_of_enter_error he).symm.trans h
      | ok result =>
        obtain ⟨next, o⟩ := result
        cases hl : o.isLink with
        | false => exact .step he hl (ih ((walk_of_enter he hl).symm.trans h))
        | true =>
          cases o with
          | link target => exact .link he (ihl ((walk_of_enter_link he).symm.trans h))
          | _ => cases hl

namespace Walks

variable {path more : List Step}

theorem walk (h : fs.Walks links here path inode) : fs.walk links here path = .ok inode := by
  induction h with
  | nil => exact walk_nil
  | step he hl _ ih => exact (walk_of_enter he hl).trans ih
  | link he _ ih => exact (walk_of_enter_link he).trans ih

theorem isDirectoryAt_start (h : fs.Walks links here path inode) (hp : path ≠ []) :
    fs.isDirectoryAt here := by
  cases h with
  | nil => exact absurd rfl hp
  | step he | link he =>
    obtain ⟨parent, hh, -⟩ := enter_cases he
    exact isDirectoryAt_iff.mpr ⟨parent, hh⟩

theorem of_append (h : fs.Walks links here (path ++ more) inode) :
    ∃ middle left, fs.Walks links here path middle ∧ fs.Walks left middle more inode := by
  generalize hw : path ++ more = whole at h
  induction h generalizing path with
  | nil links here =>
    obtain ⟨rfl, rfl⟩ := List.append_eq_nil_iff.mp hw
    exact ⟨here, links, .nil links here, .nil links here⟩
  | @step links here next inode o step rest he hl hrest ih =>
    cases path with
    | nil =>
      obtain rfl : more = step :: rest := hw
      exact ⟨here, links, .nil links here, .step he hl hrest⟩
    | cons first path =>
      obtain ⟨rfl, rfl⟩ := List.cons.inj hw
      obtain ⟨middle, left, hm, hi⟩ := ih rfl
      exact ⟨middle, left, .step he hl hm, hi⟩
  | @link links here next inode target step rest he hrest ih =>
    cases path with
    | nil =>
      obtain rfl : more = step :: rest := hw
      exact ⟨here, links + 1, .nil _ here, .link he hrest⟩
    | cons first path =>
      obtain ⟨rfl, rfl⟩ := List.cons.inj hw
      obtain ⟨middle, left, hm, hi⟩ := ih (List.append_assoc (steps target) path more)
      exact ⟨middle, left, .link he hm, hi⟩

end Walks

end CppAst.FileSystem
