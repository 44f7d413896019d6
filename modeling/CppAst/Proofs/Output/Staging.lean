import CppAst.Proofs.Output.Temporary

namespace CppAst

open FileSystem

variable {sys : System} {fs fs' now : FileSystem} {staged : List Staged} {place : Place}
  {tried rest files files' : List OutputFile} {file : OutputFile} {t : Temporary}

namespace Batch

def IsStaged (fs : FileSystem) (staged : List Staged) (place : Place) : Prop :=
  ∃ s ∈ staged, ∃ t ∈ s.temporary, fs.placeIn t.directory t.name = .ok place

/-- Of one file system another one has been made by staging files, for some of which directories
had to be there. -/
structure Prepared (sys : System) (fs fs' : FileSystem) (staged : List Staged)
    (tried : List OutputFile) : Prop where
  changes : Changes fs fs' (IsStaged fs' staged) (IsAncestor tried fs')
  ready : ∀ s ∈ staged, ∀ t ∈ s.temporary, ∃ place, t.Ready fs' s.file.bytes place ∧
    fs.entry place = none ∧ fs.object t.inode = none
  drawn : ∀ s ∈ staged, ∀ t ∈ s.temporary, ∃ directory now, t.name = sys.draw directory now
  apart : staged.Pairwise fun s s' ↦ ∀ t ∈ s.temporary, ∀ t' ∈ s'.temporary, t.inode ≠ t'.inode
  judged : ∀ s ∈ staged, ∃ now, Grows fs now ∧ Grows now fs' ∧
    (s.temporary = none ↔ s.file.isUnchanged sys now = true)

theorem IsAncestor.mono (h : IsAncestor files fs place) (hk : KeepsWays fs fs')
    (hf : files ⊆ files') : IsAncestor files' fs' place := by
  obtain ⟨file, hm, hn⟩ := h
  exact ⟨file, hf hm, hn.mono hk fun _ ↦ id⟩

theorem IsStaged.mono {staged' : List Staged} (h : IsStaged fs staged place)
    (hk : KeepsWays fs fs') (hs : staged ⊆ staged') : IsStaged fs' staged' place := by
  obtain ⟨s, hm, t, ht, hp⟩ := h
  exact ⟨s, hs hm, t, ht, hk.placeIn_ok hp⟩

theorem Prepared.nil (sys : System) (fs : FileSystem) : Prepared sys fs fs [] [] where
  changes := .refl fs
  ready := nofun
  drawn := nofun
  apart := .nil
  judged := nofun

theorem Prepared.vacant (h : Prepared sys fs fs' staged tried) (hp : IsStaged fs' staged place) :
    fs.entry place = none := by
  obtain ⟨s, hs, t, ht, hplace⟩ := hp
  obtain ⟨other, hr, hv, -⟩ := h.ready s hs t ht
  rw [hr.placeIn] at hplace
  exact Except.ok.inj hplace ▸ hv

theorem Prepared.used (h : Prepared sys fs fs' staged tried) (hp : IsStaged fs' staged place) :
    fs'.entry place ≠ none := by
  obtain ⟨s, hs, t, ht, hplace⟩ := hp
  obtain ⟨other, hr, -⟩ := h.ready s hs t ht
  rw [hr.placeIn] at hplace
  rw [← Except.ok.inj hplace, hr.entry]
  nofun

theorem Prepared.grows (h : Prepared sys fs fs' staged tried) : Grows fs fs' :=
  h.changes.grows_of_vacant fun _ hp ↦ h.vacant hp

theorem Prepared.entry_eq_none (h : Prepared sys fs fs' staged tried)
    (hv : fs'.entry place = none) : fs.entry place = none := by
  cases he : fs.entry place with
  | none => rfl
  | some inode =>
    have hn : ¬ IsStaged fs' staged place := fun hp ↦ h.used hp hv
    rw [(h.changes.entry he hn).1] at hv
    cases hv

theorem Prepared.directories (h : Prepared sys fs now staged tried)
    (hc : Changes now fs' (fun _ ↦ False) (fs'.IsNamed file.directory.ancestors)) :
    Prepared sys fs fs' staged (tried ++ [file]) where
  changes := by
    have hk := hc.grows.keepsWays
    refine (h.changes.mono ?_ ?_).trans (hc.mono (fun _ ↦ False.elim) ?_)
    · exact fun _ hp ↦ hp.mono hk fun _ ↦ id
    · exact fun _ hp ↦ hp.mono hk (List.subset_append_left _ _)
    · exact fun _ hp ↦ ⟨file, by simp, hp⟩
  ready s hs t ht := by
    obtain ⟨place, hr, hv, ho⟩ := h.ready s hs t ht
    exact ⟨place, hr.changes hc fun _ ↦ False.elim, hv, ho⟩
  drawn := h.drawn
  apart := h.apart
  judged s hs := by
    obtain ⟨turn, hb, ha, hu⟩ := h.judged s hs
    exact ⟨turn, hb, ha.trans hc.grows, hu⟩

theorem Prepared.unchanged (h : Prepared sys fs fs' staged tried)
    (hu : file.isUnchanged sys fs' = true) :
    Prepared sys fs fs' (staged ++ [⟨file, none⟩]) tried where
  changes := h.changes.mono
    (fun _ hp ↦ hp.mono (.refl fs') (List.subset_append_left _ _)) fun _ ↦ id
  ready s hs t ht := by
    rcases List.mem_append.mp hs with hs | hs
    · exact h.ready s hs t ht
    · cases List.mem_singleton.mp hs
      cases ht
  drawn s hs t ht := by
    rcases List.mem_append.mp hs with hs | hs
    · exact h.drawn s hs t ht
    · cases List.mem_singleton.mp hs
      cases ht
  apart := by
    refine List.pairwise_append.mpr ⟨h.apart, List.pairwise_singleton _ _, ?_⟩
    intro s _ s' hs' t _ t' ht'
    cases List.mem_singleton.mp hs'
    cases ht'
  judged s hs := by
    rcases List.mem_append.mp hs with hs | hs
    · exact h.judged s hs
    · cases List.mem_singleton.mp hs
      exact ⟨fs', h.grows, .refl fs', iff_of_true rfl hu⟩

theorem Prepared.temporary (h : Prepared sys fs now staged tried)
    (hc : Changes now fs' (fun other ↦ other = place) fun _ ↦ False)
    (hr : t.Ready fs' file.bytes place) (hv : now.entry place = none)
    (ho : now.object t.inode = none)
    (hd : ∃ directory turn, t.name = sys.draw directory turn)
    (hu : ∃ turn, Grows fs turn ∧ Grows turn now ∧ file.isUnchanged sys turn = false) :
    Prepared sys fs fs' (staged ++ [⟨file, some t⟩]) tried := by
  have hg : Grows now fs' := hc.grows_of_vacant fun _ hp ↦ hp ▸ hv
  have hother {s : Staged} {t' : Temporary} (hs : s ∈ staged) (ht' : t' ∈ s.temporary) :
      t'.inode ≠ t.inode := by
    obtain ⟨other, hr', -⟩ := h.ready s hs t' ht'
    intro he
    rw [← he, hr'.object] at ho
    cases ho
  refine ⟨?_, ?_, ?_, ?_, ?_⟩
  · refine (h.changes.mono ?_ ?_).trans (hc.mono ?_ fun _ ↦ False.elim)
    · exact fun _ hp ↦ hp.mono hg.keepsWays (List.subset_append_left _ _)
    · exact fun _ hp ↦ hp.mono hg.keepsWays fun _ ↦ id
    · intro other hp
      subst hp
      exact ⟨⟨file, some t⟩, by simp, t, rfl, hr.placeIn⟩
  · intro s hs t' ht'
    rcases List.mem_append.mp hs with hs | hs
    · obtain ⟨other, hr', hv', ho'⟩ := h.ready s hs t' ht'
      refine ⟨other, hr'.changes hc ?_, hv', ho'⟩
      intro another hp
      subst hp
      refine ⟨hv, ?_⟩
      rw [hr.entry]
      exact fun he ↦ hother hs ht' (Option.some.inj he).symm
    · cases List.mem_singleton.mp hs
      cases ht'
      exact ⟨place, hr, h.entry_eq_none hv, h.changes.object_eq_none ho⟩
  · intro s hs t' ht'
    rcases List.mem_append.mp hs with hs | hs
    · exact h.drawn s hs t' ht'
    · cases List.mem_singleton.mp hs
      cases ht'
      exact hd
  · refine List.pairwise_append.mpr ⟨h.apart, List.pairwise_singleton _ _, ?_⟩
    intro s hs s' hs' t₁ ht₁ t₂ ht₂
    cases List.mem_singleton.mp hs'
    cases ht₂
    exact hother hs ht₁
  · intro s hs
    rcases List.mem_append.mp hs with hs | hs
    · obtain ⟨turn, hb, ha, hj⟩ := h.judged s hs
      exact ⟨turn, hb, ha.trans hg, hj⟩
    · cases List.mem_singleton.mp hs
      obtain ⟨turn, hb, ha, hj⟩ := hu
      exact ⟨turn, hb, ha.trans hg, iff_of_false nofun (by simp [hj])⟩

theorem Prepared.stage (h : Prepared sys fs now staged tried)
    (hu : file.isUnchanged sys now = false) (hs : file.stage sys now = (.ok t, fs')) :
    Prepared sys fs fs' (staged ++ [⟨file, some t⟩]) (tried ++ [file]) := by
  obtain ⟨made, place, hm, -, hn, hv, ho, hr, hc, -⟩ := OutputFile.stage_eq_ok hs
  have hd := System.makeDirectories_changes hm
  exact (h.directories hd).temporary hc hr hv ho ⟨_, _, hn⟩ ⟨now, h.grows, hd.grows, hu⟩

def pending (staged : List Staged) : List OutputFile :=
  (staged.filter (·.temporary.isSome)).map Staged.file

theorem mem_pending {s : Staged} (hs : s ∈ staged) (ht : t ∈ s.temporary) :
    s.file ∈ pending staged := by
  refine List.mem_map_of_mem (List.mem_filter.mpr ⟨hs, ?_⟩)
  exact Option.isSome_iff_exists.mpr ⟨t, ht⟩

end Batch
end CppAst
