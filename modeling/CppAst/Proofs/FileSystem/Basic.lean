import CppAst.FileSystem.Basic
import CppAst.Proofs.Lookup

namespace CppAst

theorem lookup_filter_ne {α β : Type} [DecidableEq α] {entries : List (α × β)} {key other : α} :
    (entries.filter (·.1 ≠ key)).lookup other =
      if other = key then none else entries.lookup other := by
  induction entries with
  | nil => simp
  | cons entry entries ih =>
    obtain ⟨k, value⟩ := entry
    by_cases hk : k = key
    · subst hk
      rw [List.filter_cons_of_neg (by simp), ih, lookup_cons]
      split <;> rfl
    · rw [List.filter_cons_of_pos (by simpa using hk), lookup_cons, lookup_cons, ih]
      by_cases ho : other = k
      · subst ho
        simp [hk]
      · simp [ho]

namespace FileSystem

variable {fs : FileSystem} {place other : Place} {inode inode' : Inode} {o o' : FileObject}

@[simp] theorem entry_unlink :
    (fs.unlink place).entry other = if other = place then none else fs.entry other :=
  lookup_filter_ne

@[simp] theorem entry_link :
    (fs.link place inode).entry other = if other = place then some inode else fs.entry other := by
  rw [entry, link, lookup_cons, lookup_filter_ne]
  split <;> rfl

@[simp] theorem entry_store : (fs.store inode o).entry other = fs.entry other := rfl

@[simp] theorem object_store :
    (fs.store inode o).object inode' = if inode' = inode then some o else fs.object inode' := by
  rw [object, store, lookup_cons, lookup_filter_ne]
  split <;> rfl

@[simp] theorem entry_create :
    (fs.create place o).entry other = if other = place then some fs.fresh else fs.entry other :=
  entry_link

@[simp] theorem object_create :
    (fs.create place o).object inode = if inode = fs.fresh then some o else fs.object inode :=
  object_store

theorem le_foldr_max {n : Nat} {numbers : List Nat} (h : n ∈ numbers) : n ≤ numbers.foldr max 0 := by
  induction numbers with
  | nil => cases h
  | cons m numbers ih =>
    rcases List.mem_cons.mp h with rfl | h
    · exact Nat.le_max_left _ _
    · exact Nat.le_trans (ih h) (Nat.le_max_right _ _)

theorem ne_fresh (h : inode ∈ fs.inodes) : inode ≠ fs.fresh :=
  Nat.ne_of_lt (Nat.lt_succ_of_le (le_foldr_max h))

theorem entry_ne_fresh (h : fs.entry place = some inode) : inode ≠ fs.fresh := by
  refine ne_fresh (List.mem_cons_of_mem _ (List.mem_cons_of_mem _ (List.mem_append_right _ ?_)))
  exact List.mem_flatMap.mpr ⟨_, mem_of_lookup h, by simp⟩

theorem object_ne_fresh (h : fs.object inode = some o) : inode ≠ fs.fresh := by
  refine ne_fresh (List.mem_cons_of_mem _ (List.mem_cons_of_mem _ (List.mem_append_left _ ?_)))
  exact List.mem_map_of_mem (mem_of_lookup h)

theorem object_fresh : fs.object fs.fresh = none := by
  cases h : fs.object fs.fresh with
  | none => rfl
  | some o => exact absurd rfl (object_ne_fresh h)

theorem at?_eq_some : fs.at? place = some o ↔ ∃ inode, fs.entry place = some inode ∧
    fs.object inode = some o := by
  rw [at?, Option.bind_eq_some_iff]

end FileSystem
end CppAst
