import CppAst.Proofs.FileSystem.Moves
import CppAst.Proofs.Output.Staging

namespace CppAst

open FileSystem Outcome

variable {sys : System} {fs fs' now : FileSystem} {s : Staged} {staged done gone rest : List Staged}
  {place : Place} {inode : Inode} {file : OutputFile} {t : Temporary} {tried : List OutputFile}

def Staged.result (s : Staged) : WriteResult :=
  match s.temporary with
  | none => .unchanged
  | some _ => .written

namespace Batch

def sources (fs : FileSystem) (staged : List Staged) : List Place :=
  staged.filterMap fun s ↦ s.temporary.bind fun t ↦ (fs.placeIn t.directory t.name).toOption

def targets (fs : FileSystem) (staged : List Staged) : List (Place × Inode) :=
  staged.filterMap fun s ↦
    s.temporary.bind fun t ↦ (fs.place s.file.path).toOption.map fun place ↦ (place, t.inode)

theorem mem_sources : place ∈ sources fs staged ↔ IsStaged fs staged place := by
  simp only [sources, List.mem_filterMap, Option.bind_eq_some_iff, toOption_eq_some]
  rfl

theorem mem_targets : (place, inode) ∈ targets fs staged ↔
    ∃ s ∈ staged, ∃ t ∈ s.temporary, fs.place s.file.path = .ok place ∧ t.inode = inode := by
  simp only [targets, List.mem_filterMap, Option.bind_eq_some_iff, Option.map_eq_some_iff,
    toOption_eq_some, Prod.mk.injEq]
  constructor
  · intro ⟨s, hs, t, ht, other, hp, he, hi⟩
    exact ⟨s, hs, t, ht, he ▸ hp, hi⟩
  · intro ⟨s, hs, t, ht, hp, hi⟩
    exact ⟨s, hs, t, ht, place, hp, rfl, hi⟩

theorem sources_append_unchanged (fs : FileSystem) (staged : List Staged) (file : OutputFile) :
    sources fs (staged ++ [⟨file, none⟩]) = sources fs staged := by
  simp [sources]

theorem targets_append_unchanged (fs : FileSystem) (staged : List Staged) (file : OutputFile) :
    targets fs (staged ++ [⟨file, none⟩]) = targets fs staged := by
  simp [targets]

theorem sources_append_temporary (hp : fs.placeIn t.directory t.name = .ok place)
    (staged : List Staged) (file : OutputFile) :
    sources fs (staged ++ [⟨file, some t⟩]) = sources fs staged ++ [place] := by
  simp [sources, hp, Except.toOption]

theorem targets_append_temporary (hp : fs.place file.path = .ok place) (staged : List Staged)
    (t : Temporary) :
    targets fs (staged ++ [⟨file, some t⟩]) = targets fs staged ++ [(place, t.inode)] := by
  simp [targets, hp, Except.toOption]

def AllReady (fs : FileSystem) (staged : List Staged) : Prop :=
  ∀ s ∈ staged, ∀ t ∈ s.temporary, ∃ place, t.Ready fs s.file.bytes place

structure Movable (fs : FileSystem) (staged : List Staged) : Prop where
  ready : AllReady fs staged
  apart : staged.Pairwise fun s s' ↦ ∀ t ∈ s.temporary, ∀ t' ∈ s'.temporary, t.inode ≠ t'.inode
  names : ∀ s ∈ staged, ∀ s' ∈ staged, ∀ t ∈ s'.temporary, lastName? s.file.path ≠ some t.name

theorem AllReady.object_of_mem_targets (hm : AllReady fs staged) (hd : done ⊆ staged)
    (h : (place, inode) ∈ targets fs done) :
    ∃ content, fs.object inode = some (.file content false) := by
  obtain ⟨s, hs, t, ht, -, rfl⟩ := mem_targets.mp h
  obtain ⟨_, hr⟩ := hm s (hd hs) t ht
  exact ⟨_, hr.object⟩

theorem AllReady.at?_of_isStaged (hm : AllReady fs staged) (hg : gone ⊆ staged)
    (h : IsStaged fs gone place) : ∃ content, fs.at? place = some (.file content false) := by
  obtain ⟨s, hs, t, ht, hp⟩ := h
  obtain ⟨other, hr⟩ := hm s (hg hs) t ht
  rw [hr.placeIn] at hp
  cases hp
  exact ⟨_, at?_eq_some.mpr ⟨_, hr.entry, hr.object⟩⟩

theorem Movable.not_isStaged_of_place (hm : Movable fs staged) (hs : s ∈ staged)
    (hg : gone ⊆ staged) (hp : fs.place s.file.path = .ok place) : ¬ IsStaged fs gone place := by
  intro ⟨s', hs', t, ht, hplace⟩
  obtain ⟨-, hl, -⟩ := place_eq_ok.mp hp
  obtain ⟨-, -, -, hn⟩ := placeIn_eq_ok.mp hplace
  exact hm.names s hs s' (hg hs') t ht (hn ▸ hl)

/-- The temporary files `done` have been moved, in turn, and `gone` are not in their places any
more. -/
structure Midway (fs fs' : FileSystem) (done gone : List Staged) : Prop where
  moves : Moves fs fs' (targets fs done).reverse (sources fs gone).reverse
  settled : ∀ s ∈ done, ∀ t ∈ s.temporary, ∃ place, fs.place s.file.path = .ok place ∧
    ∀ parent, fs.at? place ≠ some (.directory parent)

theorem Midway.nil (fs : FileSystem) : Midway fs fs [] [] :=
  ⟨Moves.refl fs, nofun⟩

theorem Midway.unchanged (h : Midway fs fs' done done) (file : OutputFile) :
    Midway fs fs' (done ++ [⟨file, none⟩]) (done ++ [⟨file, none⟩]) where
  moves := by
    rw [targets_append_unchanged, sources_append_unchanged]
    exact h.moves
  settled s hs t ht := by
    rcases List.mem_append.mp hs with hs | hs
    · exact h.settled s hs t ht
    · cases List.mem_singleton.mp hs
      cases ht

section

variable (hm : AllReady fs staged) (h : Midway fs now done gone)
include hm h

theorem Midway.keepsWays_back (hd : done ⊆ staged) : KeepsWays now fs := by
  refine h.moves.keepsWays_back ?_
  intro m hm' o ho
  obtain ⟨content, hc⟩ := hm.object_of_mem_targets hd (List.mem_reverse.mp hm')
  rw [hc] at ho
  cases ho
  rfl

theorem Midway.keepsWays (hg : gone ⊆ staged) (hl : ∀ place, IsTarget (pending done) fs place →
    ∀ target, fs.at? place ≠ some (.link target)) : KeepsWays fs now := by
  refine h.moves.keeps ?_ ?_
  · intro place hp o ho
    obtain ⟨content, hc⟩ := hm.at?_of_isStaged hg (mem_sources.mp (List.mem_reverse.mp hp))
    rw [hc] at ho
    cases ho
    rfl
  · intro ⟨place, inode⟩ hp o ho
    obtain ⟨s, hs, t, ht, hplace, -⟩ := mem_targets.mp (List.mem_reverse.mp hp)
    obtain ⟨other, hother, hn⟩ := h.settled s hs t ht
    obtain rfl : place = other := Except.ok.inj (hplace.symm.trans hother)
    cases o with
    | directory parent => exact absurd ho (hn parent)
    | link target =>
      exact absurd ho (hl place ⟨s.file, mem_pending hs ht, hplace⟩ target)
    | file | device => rfl

end

/-- A directory is never replaced. -/
theorem Midway.directory_stays (h : Midway fs now done gone) (hg : ¬ IsStaged fs gone place)
    {parent : Inode} (hd : fs.at? place = some (.directory parent)) :
    now.at? place = some (.directory parent) := by
  have hsame : now.entry place = fs.entry place := by
    refine h.moves.entry_of_not_moved ?_ ?_
    · rwa [List.mem_reverse, mem_sources]
    · intro other hmoved
      obtain ⟨s, hs, t, ht, hp, -⟩ := mem_targets.mp (List.mem_reverse.mp hmoved)
      obtain ⟨another, hother, hn⟩ := h.settled s hs t ht
      obtain rfl : place = another := Except.ok.inj (hp.symm.trans hother)
      exact hn parent hd
  obtain ⟨inode, hi, ho⟩ := at?_eq_some.mp hd
  exact at?_eq_some.mpr ⟨inode, hsame.trans hi, (h.moves.object inode).trans ho⟩

section

variable (hm : Movable fs (done ++ ⟨file, some t⟩ :: rest))
include hm

theorem Movable.inode_ne (hs : s ∈ done) {t' : Temporary} (ht : t' ∈ s.temporary) :
    t'.inode ≠ t.inode :=
  (List.pairwise_append.mp hm.apart).2.2 s hs _ List.mem_cons_self t' ht t rfl

theorem Movable.place_ne (hs : s ∈ done ++ ⟨file, some t⟩ :: rest) {target : Place}
    (hp : fs.place s.file.path = .ok target) (hr : t.Ready fs file.bytes place) :
    target ≠ place := by
  have hn : ¬ IsStaged fs [⟨file, some t⟩] target := hm.not_isStaged_of_place hs (by simp) hp
  intro he
  subst he
  exact hn ⟨_, List.mem_singleton_self _, t, rfl, hr.placeIn⟩

/-- The next temporary file is still in its place. -/
theorem Midway.entry_temporary (h : Midway fs now done done) (hr : t.Ready fs file.bytes place) :
    now.entry place = some t.inode := by
  have hsub : done ⊆ done ++ ⟨file, some t⟩ :: rest := List.subset_append_left _ _
  rw [h.moves.entry_of_not_moved, hr.entry]
  · rw [List.mem_reverse, mem_sources]
    intro ⟨s, hs, t', ht', hp⟩
    obtain ⟨other, hr'⟩ := hm.ready s (hsub hs) t' ht'
    obtain rfl : place = other := Except.ok.inj (hp.symm.trans hr'.placeIn)
    exact hm.inode_ne hs ht' (Option.some.inj (hr'.entry.symm.trans hr.entry))
  · intro other hmoved
    obtain ⟨s, hs, -, -, hp, -⟩ := mem_targets.mp (List.mem_reverse.mp hmoved)
    exact hm.place_ne (hsub hs) hp hr rfl

theorem Midway.persist (h : Midway fs now done done)
    (hp : sys.persist t file.path now = .ok fs') :
    Midway fs fs' (done ++ [⟨file, some t⟩]) (done ++ [⟨file, some t⟩]) := by
  have hsub : done ⊆ done ++ ⟨file, some t⟩ :: rest := List.subset_append_left _ _
  have hmem : (⟨file, some t⟩ : Staged) ∈ done ++ ⟨file, some t⟩ :: rest := by simp
  have hback := h.keepsWays_back hm.ready hsub
  obtain ⟨source, hr⟩ := hm.ready _ hmem t rfl
  obtain ⟨source', hs, hp⟩ := bind_eq_ok.mp (System.call_eq_ok.mp hp).2
  obtain ⟨target, ht, hp⟩ := bind_eq_ok.mp hp
  obtain rfl : source = source' :=
    Except.ok.inj (hr.placeIn.symm.trans (hback.placeIn_ok hs))
  have hplace : fs.place file.path = .ok target := hback.place_ok ht
  have hne : target ≠ source := hm.place_ne hmem hplace hr
  have hfree : ¬ IsStaged fs done target := hm.not_isStaged_of_place hmem hsub hplace
  have htarget : now.entry target ≠ some t.inode := by
    intro he
    obtain ⟨-, hmoved | hold⟩ := h.moves.entry_cases he
    · obtain ⟨s, hs', t', ht', -, hi⟩ := mem_targets.mp (List.mem_reverse.mp hmoved)
      exact hm.inode_ne hs' ht' hi
    · exact hne (hr.sole target hold)
  obtain ⟨hnot, rfl⟩ := (rename_eq_ok (h.entry_temporary hm hr) htarget).mp hp
  refine ⟨?_, ?_⟩
  · rw [targets_append_temporary hplace, sources_append_temporary hr.placeIn]
    rw [List.reverse_append, List.reverse_append]
    exact h.moves.rename hne (by rwa [List.mem_reverse, mem_sources]) t.inode
  · intro s hs' t' ht'
    rcases List.mem_append.mp hs' with hs' | hs'
    · exact h.settled s hs' t' ht'
    cases List.mem_singleton.mp hs'
    exact ⟨target, hplace, fun parent hd ↦ hnot parent (h.directory_stays hfree hd)⟩

end

theorem Midway.discard (hremoves : sys.Removes) (hm : AllReady fs staged) (hd : done ⊆ staged)
    (hl : ∀ place, IsTarget (pending done) fs place →
      ∀ target, fs.at? place ≠ some (.link target))
    (h : Midway fs now done gone) (hg : gone ⊆ staged) (hr : rest ⊆ staged) :
    Midway fs (Batch.discard sys rest now) done (gone ++ rest) := by
  induction rest generalizing now gone with
  | nil => simpa [Batch.discard] using h
  | cons s rest ih =>
    obtain ⟨hs, hrest⟩ := List.cons_subset.mp hr
    have hg' : gone ++ [s] ⊆ staged := List.append_subset.mpr ⟨hg, by simpa using hs⟩
    obtain ⟨file, temporary⟩ := s
    rw [List.append_cons]
    cases temporary with
    | none =>
      refine ih ⟨?_, h.settled⟩ hg' hrest
      rw [sources_append_unchanged]
      exact h.moves
    | some t =>
      obtain ⟨place, hready⟩ := hm _ hs t rfl
      have hplace := (h.keepsWays hm hg hl).placeIn_ok hready.placeIn
      have hfile : ∀ parent, now.at? place ≠ some (.directory parent) := by
        intro parent hat
        obtain ⟨inode, he, ho⟩ := at?_eq_some.mp hat
        have hback := h.keepsWays_back hm hd
        have he' := hback.entry he ho rfl
        have ho' := hback.object ho rfl
        rw [hready.entry] at he'
        rw [← Option.some.inj he', hready.object] at ho'
        cases ho'
      have hgone : sys.discard t now = now.unlink place :=
        System.discard_eq_unlink hremoves hplace hfile
      have hfirst : Batch.discard sys (⟨file, some t⟩ :: rest) now =
          Batch.discard sys rest (now.unlink place) := by
        rw [← hgone]
        simp [Batch.discard]
      rw [hfirst]
      refine ih ⟨?_, h.settled⟩ hg' hrest
      rw [sources_append_temporary hready.placeIn, List.reverse_append]
      exact h.moves.unlink place

/-- Once no temporary file is in its place any more, other names than those of the targets have not
changed. -/
theorem Midway.changes (h : Midway fs now done gone) {before : FileSystem}
    (hp : Prepared sys before fs staged tried) (hg : staged ⊆ gone) (hg' : gone ⊆ staged) :
    Changes before now (fun place ↦ ∃ inode, (place, inode) ∈ targets fs done)
      (IsAncestor tried fs) := by
  have hgone {place : Place} :
      place ∈ (sources fs gone).reverse ↔ IsStaged fs staged place := by
    rw [List.mem_reverse, mem_sources]
    exact ⟨fun hs ↦ hs.mono (.refl fs) hg', fun hs ↦ hs.mono (.refl fs) hg⟩
  have hsame {place : Place} (hs : ¬ IsStaged fs staged place)
      (hn : ¬ ∃ inode, (place, inode) ∈ targets fs done) : now.entry place = fs.entry place := by
    refine h.moves.entry_of_not_moved (mt hgone.mp hs) ?_
    intro inode hm
    exact hn ⟨inode, List.mem_reverse.mp hm⟩
  refine ⟨h.moves.root.trans hp.changes.root,
    h.moves.workingDirectory.trans hp.changes.workingDirectory, ?_, ?_, ?_⟩
  · intro inode o ho
    exact (h.moves.object inode).trans (hp.changes.object ho)
  · intro place inode he hn
    have hs : ¬ IsStaged fs staged place := by
      intro hs
      rw [hp.vacant hs] at he
      cases he
    obtain ⟨he', ho'⟩ := hp.changes.entry he hs
    exact ⟨(hsame hs hn).trans he', (h.moves.object inode).trans ho'⟩
  · intro place he hn
    by_cases hs : IsStaged fs staged place
    · left
      rw [h.moves.entry, if_pos (hgone.mpr hs)]
    · rw [at?, hsame hs hn]
      refine (hp.changes.vacant he hs).imp_right ?_
      intro hnew
      obtain ⟨hmade, parent, hdirectory⟩ := hnew
      refine ⟨hmade, parent, ?_⟩
      rw [← hdirectory, at?]
      congr 1
      funext inode
      exact h.moves.object inode

end Batch
end CppAst
