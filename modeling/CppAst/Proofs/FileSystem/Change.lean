import CppAst.FileSystem.Change
import CppAst.Proofs.FileSystem.Ways

namespace CppAst

open Outcome

namespace FileSystem

variable {fs fs' fs'' : FileSystem} {replaced replaced' made made' : Place → Prop} {place : Place}
  {o : FileObject} {kept : FileObject → Bool} {paths paths' : List Path} {p : Path}

namespace Changes

theorem refl (fs : FileSystem) : Changes fs fs replaced made :=
  ⟨rfl, rfl, id, fun h _ ↦ ⟨h, rfl⟩, fun h _ ↦ .inl h⟩

theorem mono (h : Changes fs fs' replaced made) (hr : ∀ place, replaced place → replaced' place)
    (hm : ∀ place, made place → made' place) : Changes fs fs' replaced' made' where
  root := h.root
  workingDirectory := h.workingDirectory
  object := h.object
  entry he hn := h.entry he (mt (hr _) hn)
  vacant he hn := (h.vacant he (mt (hr _) hn)).imp_right fun hd ↦ ⟨hm _ hd.1, hd.2⟩

theorem trans (h : Changes fs fs' replaced made) (h' : Changes fs' fs'' replaced made) :
    Changes fs fs'' replaced made where
  root := h'.root.trans h.root
  workingDirectory := h'.workingDirectory.trans h.workingDirectory
  object ho := h'.object (h.object ho)
  entry he hn := by
    obtain ⟨he', ho'⟩ := h.entry he hn
    obtain ⟨he'', ho''⟩ := h'.entry he' hn
    exact ⟨he'', ho''.trans ho'⟩
  vacant he hn := by
    obtain he' | ⟨hm, parent, hd⟩ := h.vacant he hn
    · exact h'.vacant he' hn
    · obtain ⟨inode, hi, ho⟩ := at?_eq_some.mp hd
      exact .inr ⟨hm, parent, at?_eq_some.mpr ⟨inode, (h'.entry hi hn).1, h'.object ho⟩⟩

theorem keeps (h : Changes fs fs' replaced made)
    (hr : ∀ place o, replaced place → fs.at? place = some o → kept o = false) :
    Keeps kept fs fs' where
  root := h.root
  workingDirectory := h.workingDirectory
  object ho _ := h.object ho
  entry {place inode o} he ho hk := by
    refine (h.entry he ?_).1
    intro hp
    have hn := hr place o hp (at?_eq_some.mpr ⟨inode, he, ho⟩)
    simp [hn] at hk

theorem grows (h : Changes fs fs' (fun _ ↦ False) made) : Grows fs fs' :=
  h.keeps fun _ _ ↦ False.elim

theorem grows_of_vacant (h : Changes fs fs' replaced made)
    (hv : ∀ place, replaced place → fs.entry place = none) : Grows fs fs' := by
  refine h.keeps ?_
  intro place o hp ho
  obtain ⟨inode, he, -⟩ := at?_eq_some.mp ho
  rw [hv place hp] at he
  cases he

theorem object_eq_none (h : Changes fs fs' replaced made) {inode : Inode}
    (ho : fs'.object inode = none) : fs.object inode = none := by
  cases hold : fs.object inode with
  | none => rfl
  | some o =>
    rw [h.object hold] at ho
    cases ho

/-- What is there and is no directory has been there before, unless it has replaced something. -/
theorem entry_back (h : Changes fs fs' replaced made) (hn : ¬ replaced place) {inode : Inode}
    (he : fs'.entry place = some inode) (ho : fs'.object inode = some o)
    (hd : o.isDirectory = false) : fs.entry place = some inode ∧ fs.object inode = some o := by
  cases hold : fs.entry place with
  | some other =>
    obtain ⟨he', ho'⟩ := h.entry hold hn
    obtain rfl : other = inode := Option.some.inj (he'.symm.trans he)
    exact ⟨rfl, ho'.symm.trans ho⟩
  | none =>
    obtain hnone | ⟨-, parent, hdirectory⟩ := h.vacant hold hn
    · rw [hnone] at he
      cases he
    · rw [at?, he, Option.bind_some, ho] at hdirectory
      cases hdirectory
      cases hd

end Changes

theorem changes_create (he : fs.entry place = none)
    (h : replaced place ∨ made place ∧ ∃ parent, o = .directory parent) :
    Changes fs (fs.create place o) replaced made where
  root := rfl
  workingDirectory := rfl
  object ho := by rw [object_create, if_neg (object_ne_fresh ho), ho]
  entry {other inode} hi _ := by
    have hne : other ≠ place := by
      intro h
      rw [h, he] at hi
      cases hi
    rw [entry_create, if_neg hne, object_create, if_neg (entry_ne_fresh hi)]
    exact ⟨hi, rfl⟩
  vacant {other} hv hn := by
    by_cases hp : other = place
    · subst hp
      obtain ⟨hm, parent, rfl⟩ := h.resolve_left hn
      refine .inr ⟨hm, parent, at?_eq_some.mpr ⟨fs.fresh, ?_, ?_⟩⟩
      · rw [entry_create, if_pos rfl]
      · rw [object_create, if_pos rfl]
    · rw [entry_create, if_neg hp]
      exact .inl hv

theorem IsNamed.mono (h : fs.IsNamed paths place) (hk : KeepsWays fs fs') (hp : paths ⊆ paths') :
    fs'.IsNamed paths' place := by
  obtain ⟨p, hm, hn⟩ := h
  exact ⟨p, hp hm, hk.place_ok hn⟩

theorem makeDirectory_eq_ok : fs.makeDirectory p = .ok fs' ↔ ∃ place,
    fs.place (withoutSlashes p) = .ok place ∧ fs.entry place = none ∧
      fs' = fs.create place (.directory place.directory) := by
  unfold makeDirectory
  cases hl : lastName? (withoutSlashes p) with
  | none =>
    constructor
    · intro h
      obtain ⟨_, -, h⟩ := bind_eq_ok.mp h
      exact absurd h throw_ne_ok
    · intro ⟨place, hp, _⟩
      obtain ⟨-, hn, -⟩ := place_eq_ok.mp hp
      rw [hl] at hn
      cases hn
  | some name =>
    rw [bind_eq_ok]
    refine exists_congr fun place ↦ and_congr_right fun _ ↦ ?_
    cases fs.entry place with
    | none => simp [pure, Except.pure, eq_comm]
    | some inode => simp [throw, throwThe, MonadExceptOf.throw]

end FileSystem

namespace System

open FileSystem

variable {sys : System} {fs fs' : FileSystem} {p : Path} {paths : List Path}

theorem call_eq_ok {α : Type} {c : Call} {result : Except FileFailure α} {a : α} :
    sys.call c fs result = .ok a ↔ sys.refuses c fs = none ∧ result = .ok a := by
  rw [call]
  cases sys.refuses c fs with
  | none => simp
  | some failure => simp

theorem makeDirectory_changes (h : sys.makeDirectory p fs = .ok fs') (hp : p ∈ paths) :
    Changes fs fs' (fun _ ↦ False) (fs'.IsNamed paths) := by
  obtain ⟨place, hplace, he, rfl⟩ := makeDirectory_eq_ok.mp (call_eq_ok.mp h).2
  have hc : Changes fs (fs.create place (.directory place.directory)) (fun _ ↦ False)
      fun other ↦ other = place :=
    changes_create he (.inr ⟨rfl, _, rfl⟩)
  refine hc.mono (fun _ ↦ id) ?_
  intro _ h
  subst h
  exact ⟨p, hp, hc.grows.keepsWays.place_ok hplace⟩

/-- Only directories on the way are made, also if not all of them can be made. -/
theorem makeAll_changes (sys : System) (paths : List Path) (fs : FileSystem) :
    Changes fs (sys.makeAll paths fs).2 (fun _ ↦ False) ((sys.makeAll paths fs).2.IsNamed paths) := by
  induction paths generalizing fs with
  | nil => exact .refl fs
  | cons p outer ih =>
    rw [makeAll]
    split
    · exact .refl fs
    · split
      next fs₁ hd => exact makeDirectory_changes hd List.mem_cons_self
      next =>
        have hm := ih fs
        split
        next e fs₁ ho =>
          rw [ho] at hm
          exact hm.mono (fun _ ↦ id) fun _ h ↦ h.mono (.refl fs₁) (List.subset_cons_self _ _)
        next fs₁ ho =>
          rw [ho] at hm
          split
          next fs₂ hd =>
            have hd' : Changes fs₁ fs₂ (fun _ ↦ False) (fs₂.IsNamed (p :: outer)) :=
              makeDirectory_changes hd List.mem_cons_self
            refine (hm.mono (fun _ ↦ id) fun _ h ↦ ?_).trans hd'
            exact h.mono hd'.grows.keepsWays (List.subset_cons_self _ _)
          next =>
            exact hm.mono (fun _ ↦ id) fun _ h ↦ h.mono (.refl fs₁) (List.subset_cons_self _ _)
      next => exact .refl fs

theorem makeDirectories_changes {result : Except FileFailure Unit}
    (h : sys.makeDirectories p fs = (result, fs')) :
    Changes fs fs' (fun _ ↦ False) (fs'.IsNamed p.ancestors) := by
  have hc := makeAll_changes sys p.ancestors fs
  rw [makeDirectories] at h
  rwa [h] at hc

end System
end CppAst
