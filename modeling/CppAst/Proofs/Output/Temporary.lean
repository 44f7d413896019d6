import CppAst.Output.Outcome
import CppAst.Proofs.FileSystem.Change
import CppAst.Proofs.FileSystem.View

namespace CppAst

open FileSystem Outcome

variable {sys : System} {fs fs' now : FileSystem} {t : Temporary} {content : ByteArray}
  {place : Place} {replaced made : Place → Prop} {directory : Path} {file : OutputFile}

/-- A temporary file is in its place, and nowhere else. -/
structure Temporary.Ready (fs : FileSystem) (t : Temporary) (content : ByteArray) (place : Place) :
    Prop where
  placeIn : fs.placeIn t.directory t.name = .ok place
  entry : fs.entry place = some t.inode
  object : fs.object t.inode = some (.file content false)
  sole : ∀ other, fs.entry other = some t.inode → other = place

theorem Temporary.Ready.changes (h : t.Ready fs content place) (hc : Changes fs fs' replaced made)
    (hr : ∀ other, replaced other → fs.entry other = none ∧ fs'.entry other ≠ some t.inode) :
    t.Ready fs' content place := by
  have hk := (hc.grows_of_vacant fun other hother ↦ (hr other hother).1).keepsWays
  have hn : ¬ replaced place := by
    intro hp
    have he := (hr place hp).1
    rw [h.entry] at he
    cases he
  refine ⟨hk.placeIn_ok h.placeIn, (hc.entry h.entry hn).1, hc.object h.object, ?_⟩
  intro other he
  by_cases hother : replaced other
  · exact absurd he (hr other hother).2
  · exact h.sole other (hc.entry_back hother he (hc.object h.object) rfl).1

namespace System

theorem createTemporary_eq_ok : sys.createTemporary directory fs = .ok (t, fs') ↔
    sys.refuses (.createTemporary directory (sys.draw directory fs)) fs = none ∧
      ∃ place, fs.placeIn directory (sys.draw directory fs) = .ok place ∧
        fs.entry place = none ∧ t = ⟨directory, sys.draw directory fs, fs.fresh⟩ ∧
        fs' = fs.create place (.file .empty false) := by
  rw [createTemporary, call_eq_ok, bind_eq_ok]
  refine and_congr_right fun _ ↦ exists_congr fun place ↦ and_congr_right fun _ ↦ ?_
  cases fs.entry place with
  | none => simp [pure, Except.pure, eq_comm]
  | some inode => simp [throw, throwThe, MonadExceptOf.throw]

theorem fill_cases {inode : Inode} {old : ByteArray} {executable : Bool}
    (h : fs.object inode = some (.file old executable)) (sys : System) (content : ByteArray) :
    ∃ written, (sys.fill inode content fs).2 = fs.store inode (.file written executable) ∧
      ((sys.fill inode content fs).1 = .ok () → written = content) := by
  rw [fill]
  cases sys.stops inode content fs with
  | none => exact ⟨content, by simp [h, FileObject.withContent], fun _ ↦ rfl⟩
  | some failure =>
    exact ⟨content.extract 0 failure.1, by simp [h, FileObject.withContent], nofun⟩

theorem changes_temporary (he : fs.entry place = none) (content : ByteArray) :
    Changes fs ((fs.create place (.file .empty false)).store fs.fresh (.file content false))
      (fun other ↦ other = place) made := by
  have hc : Changes fs (fs.create place (.file .empty false)) (fun other ↦ other = place) made :=
    changes_create he (.inl rfl)
  refine ⟨rfl, rfl, ?_, ?_, ?_⟩
  · intro inode o ho
    rw [object_store, if_neg (object_ne_fresh ho)]
    exact hc.object ho
  · intro other inode hi hn
    rw [object_store, if_neg (entry_ne_fresh hi)]
    exact hc.entry hi hn
  · intro other hv hn
    rw [entry_store, entry_create, if_neg hn]
    exact .inl hv

theorem grows_temporary (he : fs.entry place = none) (content : ByteArray) :
    Grows fs ((fs.create place (.file .empty false)).store fs.fresh (.file content false)) := by
  have hc : Changes fs
      ((fs.create place (.file .empty false)).store fs.fresh (.file content false))
      (fun other ↦ other = place) fun _ ↦ False := changes_temporary he content
  exact hc.grows_of_vacant fun _ hp ↦ hp ▸ he

theorem ready_temporary {name : String} (hp : fs.placeIn directory name = .ok place)
    (he : fs.entry place = none) (content : ByteArray) :
    Temporary.Ready ((fs.create place (.file .empty false)).store fs.fresh (.file content false))
      ⟨directory, name, fs.fresh⟩ content place := by
  have hk := grows_temporary he content
  refine ⟨hk.keepsWays.placeIn_ok hp, ?_, ?_, ?_⟩
  · rw [entry_store, entry_create, if_pos rfl]
  · rw [object_store, if_pos rfl]
  · intro other h
    by_contra hne
    rw [entry_store, entry_create, if_neg hne] at h
    exact entry_ne_fresh h rfl

theorem discard_eq_unlink (hs : sys.Removes) (hp : fs.placeIn t.directory t.name = .ok place)
    (hd : ∀ parent, fs.at? place ≠ some (.directory parent)) :
    sys.discard t fs = fs.unlink place := by
  have hc : sys.call (.removeTemporary t.directory t.name) fs (fs.placeIn t.directory t.name) =
      .ok place := call_eq_ok.mpr ⟨hs _ _ _, hp⟩
  rw [discard, hc]
  cases ho : fs.at? place with
  | none => simp [ho]
  | some o =>
    cases o with
    | directory parent => exact absurd ho (hd parent)
    | _ => simp [ho, FileObject.isDirectory]

end System

theorem FileSystem.Changes.unlink
    (h : Changes fs fs' (fun other ↦ other = place ∨ replaced other) made)
    (hv : fs.entry place = none) : Changes fs (fs'.unlink place) replaced made where
  root := h.root
  workingDirectory := h.workingDirectory
  object := h.object
  entry {other inode} he hn := by
    have hne : other ≠ place := by
      intro hp
      rw [hp, hv] at he
      cases he
    rw [entry_unlink, if_neg hne]
    exact h.entry he (not_or.mpr ⟨hne, hn⟩)
  vacant {other} he hn := by
    by_cases hp : other = place
    · rw [entry_unlink, if_pos hp]
      exact .inl rfl
    · rw [at?, entry_unlink, if_neg hp]
      exact h.vacant he (not_or.mpr ⟨hp, hn⟩)

namespace OutputFile

/-- A file that is staged has its whole content in a temporary file, under a name that was drawn. -/
theorem stage_eq_ok (h : file.stage sys fs = (.ok t, fs')) :
    ∃ now place, sys.makeDirectories file.directory fs = (.ok (), now) ∧
      t.directory = file.directory ∧ t.name = sys.draw file.directory now ∧
      now.entry place = none ∧ now.object t.inode = none ∧
      t.Ready fs' file.bytes place ∧ Changes now fs' (fun other ↦ other = place) (fun _ ↦ False) ∧
      Puts now fs' place file.bytes t.inode false := by
  rw [stage] at h
  split at h
  next => cases h
  next now hm =>
    split at h
    next => cases h
    next temporary created ht =>
      obtain ⟨-, place, hp, he, rfl, rfl⟩ := System.createTemporary_eq_ok.mp ht
      have ho : (now.create place (.file .empty false)).object now.fresh =
          some (.file .empty false) := by
        rw [object_create, if_pos rfl]
      obtain ⟨written, hfs, hw⟩ := System.fill_cases ho sys file.bytes
      split at h
      next filled hf =>
        rw [hf] at hfs hw
        dsimp only at hfs hw
        cases h
        obtain rfl := hw rfl
        subst hfs
        exact ⟨now, place, hm, rfl, rfl, he, object_fresh, System.ready_temporary hp he _,
          System.changes_temporary he _, puts_create now place _⟩
      next => cases h

end OutputFile
end CppAst
