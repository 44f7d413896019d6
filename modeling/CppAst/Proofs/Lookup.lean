import Mathlib.Data.List.Nodup
import Mathlib.Data.List.Perm.Basic

namespace CppAst

variable {α β : Type} [BEq α] [LawfulBEq α] {key other : α} {value : β}
  {entries entries' : List (α × β)}

theorem lookup_cons [DecidableEq α] :
    List.lookup other ((key, value) :: entries) =
      if other = key then some value else entries.lookup other := by
  rw [List.lookup_cons]
  by_cases ho : other = key
  · simp [ho]
  · rw [if_neg ho, beq_false_of_ne ho]

theorem lookup_of_mem (hk : (entries.map Prod.fst).Nodup) (h : (key, value) ∈ entries) :
    entries.lookup key = some value := by
  obtain ⟨before, after, rfl⟩ := List.append_of_mem h
  refine List.lookup_eq_some_iff.mpr ⟨before, after, rfl, fun entry he ↦ ?_⟩
  rw [List.map_append, List.map_cons, List.nodup_append] at hk
  have hne := hk.2.2 _ (List.mem_map_of_mem he) key List.mem_cons_self
  simpa using Ne.symm hne

theorem mem_of_lookup (h : entries.lookup key = some value) : (key, value) ∈ entries := by
  obtain ⟨before, after, rfl, -⟩ := List.lookup_eq_some_iff.mp h
  simp

theorem lookup_of_perm (hk : (entries.map Prod.fst).Nodup) (hp : entries.Perm entries')
    (h : entries.lookup key = some value) : entries'.lookup key = some value :=
  lookup_of_mem ((hp.map Prod.fst).nodup_iff.mp hk) (hp.subset (mem_of_lookup h))

theorem lookup_perm (hk : (entries.map Prod.fst).Nodup) (hp : entries.Perm entries') (key : α) :
    entries.lookup key = entries'.lookup key := by
  refine Option.ext fun value ↦ ⟨lookup_of_perm hk hp, ?_⟩
  exact lookup_of_perm ((hp.map Prod.fst).nodup_iff.mp hk) hp.symm

end CppAst
