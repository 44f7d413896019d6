import CppAst.Proofs.FileSystem.Walk

namespace CppAst

theorem Text.splitOn_ne_nil (separator : Char) (text : List Char) :
    Text.splitOn separator text ≠ [] := by
  cases text with
  | nil => simp [Text.splitOn]
  | cons c rest =>
    rw [Text.splitOn]
    split
    · simp
    · split <;> simp

namespace FileSystem

open Outcome

variable {fs fs' fs'' : FileSystem} {here next inode : Inode} {o : FileObject} {step : Step}
  {path rest : List Step} {links : Nat} {p : Path} {place : Place} {name : String}
  {kept : FileObject → Bool}

/-- Objects of some kinds stay what they are, under the names that they have. -/
structure Keeps (kept : FileObject → Bool) (fs fs' : FileSystem) : Prop where
  root : fs'.root = fs.root
  workingDirectory : fs'.workingDirectory = fs.workingDirectory
  object {inode : Inode} {o : FileObject} :
    fs.object inode = some o → kept o → fs'.object inode = some o
  entry {place : Place} {inode : Inode} {o : FileObject} :
    fs.entry place = some inode → fs.object inode = some o → kept o → fs'.entry place = some inode

abbrev Grows (fs fs' : FileSystem) : Prop := Keeps (fun _ ↦ true) fs fs'

abbrev KeepsWays (fs fs' : FileSystem) : Prop := Keeps FileObject.isPassable fs fs'

theorem Keeps.refl (fs : FileSystem) : Keeps kept fs fs :=
  ⟨rfl, rfl, fun h _ ↦ h, fun h _ _ ↦ h⟩

theorem Keeps.trans (h : Keeps kept fs fs') (h' : Keeps kept fs' fs'') : Keeps kept fs fs'' where
  root := h'.root.trans h.root
  workingDirectory := h'.workingDirectory.trans h.workingDirectory
  object ho hk := h'.object (h.object ho hk) hk
  entry he ho hk := h'.entry (h.entry he ho hk) (h.object ho hk) hk

theorem Grows.keepsWays (h : Grows fs fs') : KeepsWays fs fs' where
  root := h.root
  workingDirectory := h.workingDirectory
  object ho _ := h.object ho rfl
  entry he ho _ := h.entry he ho rfl

theorem Keeps.enter (h : Keeps kept fs fs') (hp : ∀ o, FileObject.isPassable o → kept o)
    (he : fs.enter here step = .ok (next, o)) (ho : kept o) :
    fs'.enter here step = .ok (next, o) := by
  obtain ⟨parent, hh, hn, ⟨rfl, rfl⟩ | ⟨rfl, rfl, hd⟩ | ⟨name, rfl, hl, hentry⟩⟩ := enter_cases he
  · obtain rfl : o = .directory parent := Option.some.inj (hn.symm.trans hh)
    exact enter_stay (h.object hh (hp _ rfl))
  · cases o with
    | directory above => exact enter_up (h.object hh (hp _ rfl)) (h.object hn ho)
    | _ => cases hd
  · exact enter_into (h.object hh (hp _ rfl)) hl (h.entry hentry hn ho) (h.object hn ho)

theorem isPassable_of_isDirectoryAt (h : fs.isDirectoryAt inode) (ho : fs.object inode = some o) :
    o.isPassable := by
  obtain ⟨parent, hp⟩ := isDirectoryAt_iff.mp h
  cases hp.symm.trans ho
  rfl

/-- A way stays, if what it leads to does. -/
theorem Walks.keeps (h : fs.Walks links here path inode) (hk : Keeps kept fs fs')
    (hp : ∀ o, FileObject.isPassable o → kept o)
    (ho : ∀ o, fs.object inode = some o → kept o) : fs'.Walks links here path inode := by
  induction h with
  | nil links here => exact .nil links here
  | @step links here next inode o step rest he hl hw ih =>
    refine .step (hk.enter hp he ?_) hl (ih ho)
    obtain ⟨-, -, hn, -⟩ := enter_cases he
    cases rest with
    | nil =>
      cases hw
      exact ho o hn
    | cons first rest =>
      exact hp o (isPassable_of_isDirectoryAt (hw.isDirectoryAt_start (List.cons_ne_nil _ _)) hn)
  | @link links here next inode target step rest he hw ih =>
    rw [← hk.root] at ih
    exact .link (hk.enter hp he (hp _ rfl)) (ih ho)

theorem Walks.grows (h : fs.Walks links here path inode) (hg : Grows fs fs') :
    fs'.Walks links here path inode :=
  h.keeps hg (fun _ _ ↦ rfl) fun _ _ ↦ rfl

theorem Walks.keepsWays (h : fs.Walks links here path inode) (hk : KeepsWays fs fs')
    (hd : fs.isDirectoryAt inode) : fs'.Walks links here path inode :=
  h.keeps hk (fun _ h ↦ h) fun _ ↦ isPassable_of_isDirectoryAt hd

theorem steps_ne_nil (p : Path) : steps p ≠ [] := by
  simp [steps, Path.pieces, Text.splitOn_ne_nil]

/-- A way that does not lead to a directory ends with a name, and leads to whatever is given this
name instead. -/
theorem Walks.ends (h : fs.Walks links here path inode) (hd : ¬ fs.isDirectoryAt inode)
    (hne : path ≠ []) :
    ∃ place o, fs.entry place = some inode ∧ fs.object inode = some o ∧ o.isLink = false ∧
      ∀ fs', KeepsWays fs fs' → ∀ other o', fs'.entry place = some other →
        fs'.object other = some o' → o'.isLink = false → fs'.Walks links here path other := by
  induction h with
  | nil => exact absurd rfl hne
  | @step links here next inode o step rest he hl hw ih =>
    by_cases hr : rest = []
    · subst hr
      cases hw
      obtain ⟨parent, hh, hn, ⟨rfl, rfl⟩ | ⟨rfl, rfl, ho⟩ | ⟨name, rfl, hlength, hentry⟩⟩ :=
        enter_cases he
      · exact absurd (isDirectoryAt_iff.mpr ⟨_, hh⟩) hd
      · refine absurd ?_ hd
        rw [isDirectoryAt, hn]
        exact ho
      · refine ⟨_, o, hentry, hn, hl, ?_⟩
        intro fs' hk other o' hentry' ho' hl'
        exact .step (enter_into (hk.object hh rfl) hlength hentry' ho') hl' (.nil links other)
    · obtain ⟨place, last, hentry, ho, hlast, hends⟩ := ih hd hr
      obtain ⟨-, -, hn, -⟩ := enter_cases he
      have hpass := isPassable_of_isDirectoryAt (hw.isDirectoryAt_start hr) hn
      refine ⟨place, last, hentry, ho, hlast, ?_⟩
      intro fs' hk other o' hentry' ho' hl'
      exact .step (hk.enter (fun _ h ↦ h) he hpass) hl (hends fs' hk other o' hentry' ho' hl')
  | @link links here next inode target step rest he hw ih =>
    obtain ⟨place, last, hentry, ho, hlast, hends⟩ := ih hd (by simp [steps_ne_nil])
    refine ⟨place, last, hentry, ho, hlast, ?_⟩
    intro fs' hk other o' hentry' ho' hl'
    have hw' := hends fs' hk other o' hentry' ho' hl'
    rw [← hk.root] at hw'
    exact .link (hk.enter (fun _ h ↦ h) he rfl) hw'

theorem find_eq_ok : fs.find p = .ok inode ↔
    check p = .ok () ∧ fs.Walks mostLinks (fs.origin p) (steps p) inode := by
  rw [find, bind_eq_ok]
  constructor
  · rintro ⟨⟨⟩, hc, hw⟩
    exact ⟨hc, walks_of_walk hw⟩
  · rintro ⟨hc, hw⟩
    exact ⟨(), hc, hw.walk⟩

theorem nameIn_eq_ok : fs.nameIn here name = .ok place ↔
    fs.isDirectoryAt here ∧ name.utf8ByteSize ≤ longestName ∧ place = ⟨here, name⟩ := by
  rw [nameIn, isDirectoryAt]
  cases fs.object here with
  | none => simp
  | some o =>
    cases o with
    | directory parent =>
      dsimp only
      split <;> simp [FileObject.isDirectory, eq_comm] <;> omega
    | _ => simp [FileObject.isDirectory]

theorem place_eq_ok : fs.place p = .ok place ↔ check p = .ok () ∧ lastName? p = some place.name ∧
    fs.Walks mostLinks (fs.origin p) (steps p).dropLast place.directory ∧
    fs.isDirectoryAt place.directory ∧ place.name.utf8ByteSize ≤ longestName := by
  obtain ⟨directory, name⟩ := place
  rw [FileSystem.place, bind_eq_ok]
  constructor
  · rintro ⟨⟨⟩, hc, h⟩
    cases hl : lastName? p with
    | none =>
      rw [hl] at h
      exact absurd h throw_ne_ok
    | some last =>
      rw [hl] at h
      obtain ⟨found, hw, h⟩ := bind_eq_ok.mp h
      obtain ⟨hd, hn, he⟩ := nameIn_eq_ok.mp h
      cases he
      exact ⟨hc, rfl, walks_of_walk hw, hd, hn⟩
  · rintro ⟨hc, hl, hw, hd, hn⟩
    refine ⟨(), hc, ?_⟩
    rw [hl]
    exact bind_eq_ok.mpr ⟨directory, hw.walk, nameIn_eq_ok.mpr ⟨hd, hn, rfl⟩⟩

theorem placeIn_eq_ok : fs.placeIn p name = .ok place ↔ fs.find p = .ok place.directory ∧
    fs.isDirectoryAt place.directory ∧ name.utf8ByteSize ≤ longestName ∧ place.name = name := by
  obtain ⟨directory, other⟩ := place
  rw [placeIn, bind_eq_ok]
  constructor
  · rintro ⟨found, hf, h⟩
    obtain ⟨hd, hn, he⟩ := nameIn_eq_ok.mp h
    cases he
    exact ⟨hf, hd, hn, rfl⟩
  · rintro ⟨hf, hd, hn, rfl⟩
    exact ⟨directory, hf, nameIn_eq_ok.mpr ⟨hd, hn, rfl⟩⟩

section

variable (hk : KeepsWays fs fs')
include hk

theorem KeepsWays.origin (p : Path) : fs'.origin p = fs.origin p := by
  rw [FileSystem.origin, FileSystem.origin, hk.root, hk.workingDirectory]

theorem KeepsWays.isDirectoryAt (h : fs.isDirectoryAt inode) : fs'.isDirectoryAt inode := by
  obtain ⟨parent, hp⟩ := isDirectoryAt_iff.mp h
  exact isDirectoryAt_iff.mpr ⟨parent, hk.object hp rfl⟩

theorem KeepsWays.find_ok (h : fs.find p = .ok inode) (hd : fs.isDirectoryAt inode) :
    fs'.find p = .ok inode := by
  obtain ⟨hc, hw⟩ := find_eq_ok.mp h
  rw [← hk.origin] at hw
  exact find_eq_ok.mpr ⟨hc, hw.keepsWays hk hd⟩

theorem KeepsWays.place_ok (h : fs.place p = .ok place) : fs'.place p = .ok place := by
  obtain ⟨hc, hl, hw, hd, hn⟩ := place_eq_ok.mp h
  rw [← hk.origin] at hw
  exact place_eq_ok.mpr ⟨hc, hl, hw.keepsWays hk hd, hk.isDirectoryAt hd, hn⟩

theorem KeepsWays.placeIn_ok (h : fs.placeIn p name = .ok place) : fs'.placeIn p name = .ok place := by
  obtain ⟨hf, hd, hn, hname⟩ := placeIn_eq_ok.mp h
  exact placeIn_eq_ok.mpr ⟨hk.find_ok hf hd, hk.isDirectoryAt hd, hn, hname⟩

end

theorem Grows.find_ok (hg : Grows fs fs') (h : fs.find p = .ok inode) : fs'.find p = .ok inode := by
  obtain ⟨hc, hw⟩ := find_eq_ok.mp h
  rw [← hg.keepsWays.origin] at hw
  exact find_eq_ok.mpr ⟨hc, hw.grows hg⟩

end FileSystem
end CppAst
