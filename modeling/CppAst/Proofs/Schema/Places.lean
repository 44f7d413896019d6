import CppAst.Proofs.Lookup
import CppAst.Schema.Check
import CppAst.Schema.WellFormed

namespace CppAst

namespace Document

@[simp] theorem at?_nil (d : Document) : d.at? [] = some d := by
  cases d <;> rfl

@[simp] theorem at?_mapping {entries : List (String × Document)} (key : String)
    (keys : List String) :
    (mapping entries).at? (key :: keys) = (entries.lookup key).bind (at? · keys) := rfl

theorem at?_key (entries : List (String × Document)) (key : String) :
    (mapping entries).at? [key] = entries.lookup key := by
  rw [at?_mapping]
  cases entries.lookup key with
  | none => rfl
  | some value => exact at?_nil value

theorem at?_append (d : Document) (keys more : List String) :
    d.at? (keys ++ more) = (d.at? keys).bind (at? · more) := by
  induction keys generalizing d with
  | nil => simp
  | cons key keys ih =>
    cases d with
    | mapping entries =>
      rw [List.cons_append, at?_mapping, at?_mapping]
      cases entries.lookup key with
      | none => rfl
      | some value => exact ih value
    | null | bool _ | number _ | string _ | list _ => rfl

theorem at?_entries {d : Document} {place : List String} {entries : List (String × Document)}
    (h : d.at? place = some (mapping entries)) (hk : (entries.map Prod.fst).Nodup) :
    ∀ entry ∈ entries, d.at? (place ++ [entry.1]) = some entry.2 := by
  intro entry he
  rw [at?_append, h, Option.bind_some, at?_key, lookup_of_mem hk he]

theorem keysDistinct_at? {d value : Document} {keys : List String} (hk : d.KeysDistinct)
    (h : d.at? keys = some value) : value.KeysDistinct := by
  induction keys generalizing d with
  | nil =>
    obtain rfl := Option.some_inj.mp ((at?_nil d).symm.trans h)
    exact hk
  | cons key keys ih =>
    cases d with
    | mapping entries =>
      obtain ⟨inner, hl, hi⟩ := Option.bind_eq_some_iff.mp h
      obtain ⟨before, after, rfl, -⟩ := List.lookup_eq_some_iff.mp hl
      exact ih (keysDistinctBelow_iff.mp hk.2 (key, inner) (by simp)) hi
    | null | bool _ | number _ | string _ | list _ => cases h

theorem nil_notMem_placesIn (entries : List (String × Document)) : [] ∉ placesIn entries := by
  induction entries with
  | nil => simp [placesIn]
  | cons entry rest ih => simp [placesIn, ih]

mutual

/-- The places of a document are the key sequences that lead to a value in it. -/
theorem mem_places {keys : List String} : ∀ {d : Document}, d.KeysDistinct →
    (keys ∈ d.places ↔ keys ≠ [] ∧ (d.at? keys).isSome)
  | mapping entries, hk => by
    cases keys with
    | nil => simpa [places] using nil_notMem_placesIn entries
    | cons key keys => simpa [places] using mem_placesIn hk.1 hk.2
  | null, _ | .bool _, _ | number _, _ | string _, _ | list _, _ => by
    cases keys <;> simp [places, at?]

theorem mem_placesIn {key : String} {more : List String} :
    ∀ {entries : List (String × Document)}, (entries.map Prod.fst).Nodup →
      KeysDistinctBelow entries →
      (key :: more ∈ placesIn entries ↔ ((entries.lookup key).bind (at? · more)).isSome)
  | [], _, _ => by simp [placesIn]
  | (name, value) :: rest, hn, hk => by
    rw [List.map_cons, List.nodup_cons] at hn
    have hrest : key :: more ∈ placesIn rest ↔ _ := mem_placesIn hn.2 hk.2
    have hvalue : more ∈ value.places ↔ _ := mem_places hk.1
    simp only [placesIn, List.cons_append, List.mem_cons, List.mem_append, List.mem_map, hrest,
      List.cons.injEq]
    by_cases he : key = name
    · subst he
      have hnone : rest.lookup key = none := by
        refine List.lookup_eq_none_iff.mpr fun entry hm ↦ ?_
        have hne : entry.1 ≠ key := fun h ↦ hn.1 (h ▸ List.mem_map.mpr ⟨entry, hm, rfl⟩)
        simpa using Ne.symm hne
      rw [List.lookup_cons_self, hnone]
      by_cases hm : more = [] <;> simp [hm, hvalue]
    · rw [List.lookup_cons, beq_false_of_ne he]
      simp [he, Ne.symm he]

end

end Document
end CppAst
