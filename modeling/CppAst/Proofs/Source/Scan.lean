import CppAst.Proofs.Source.KeyMatch
import CppAst.Source.Scan

namespace CppAst

namespace Text

theorem from?_append (before rest : List Char) :
    from? (before ++ rest) (width before) = some rest := by
  induction before with
  | nil => cases rest <;> rfl
  | cons c before ih =>
    have hp := c.utf8Size_pos
    rw [List.cons_append, from?, width, if_neg (by omega), if_neg (by omega),
      Nat.add_sub_cancel_left, ih]

theorem eq_append_of_from? {text rest : List Char} {n : Nat} (h : from? text n = some rest) :
    ∃ before, text = before ++ rest ∧ n = width before := by
  induction text generalizing n with
  | nil =>
    rw [from?] at h
    split at h
    next hn => exact ⟨[], Option.some_inj.mp h, hn⟩
    next => cases h
  | cons c text ih =>
    rw [from?] at h
    split at h
    next hn => exact ⟨[], Option.some_inj.mp h, hn⟩
    next =>
      split at h
      next => cases h
      next hle =>
        obtain ⟨before, rfl, hw⟩ := ih h
        exact ⟨c :: before, rfl, by rw [width, ← hw]; omega⟩

end Text

namespace Source

open Text

variable {name text rest : List Char} {n : Nat}

theorem findQuoted?_of_absent {pattern : List Char} (h : find? pattern text = none) :
    findQuoted? pattern 0 text = none := by
  induction text with
  | nil => rfl
  | cons c text ih =>
    rw [find?] at h
    split at h
    next => cases h
    next hp =>
      rw [List.isPrefixOf_iff_prefix] at hp
      rw [findQuoted?_cons hp, ih (Option.map_eq_none_iff.mp h)]
      rfl

theorem findQuoted?_of_found (h : find? (inQuotes name) text = some n) :
    ∃ before after, text = before ++ (inQuotes name ++ after) ∧ n = width before ∧
      findQuoted? (inQuotes name) 0 text =
        if (trimStart after).head? = some ':' then some (width before)
        else (findQuoted? (inQuotes name) 0 after).map (width (before ++ inQuotes name) + ·) := by
  induction text generalizing n with
  | nil => cases h
  | cons c text ih =>
    rw [find?] at h
    split at h
    next hp =>
      obtain ⟨after, ha⟩ := List.isPrefixOf_iff_prefix.mp hp
      cases h
      exact ⟨[], after, ha.symm, rfl, ha ▸ findQuoted?_occurrence after⟩
    next hp =>
      rw [List.isPrefixOf_iff_prefix] at hp
      obtain ⟨m, hm, rfl⟩ := Option.map_eq_some_iff.mp h
      obtain ⟨before, after, rfl, rfl, hf⟩ := ih hm
      refine ⟨c :: before, after, rfl, rfl, ?_⟩
      rw [findQuoted?_cons hp, hf]
      split
      · rfl
      · exact map_width_append _ [c] (before ++ inQuotes name)

theorem turn?_absent (before : List Char) (h : find? (inQuotes name) rest = none) :
    turn? (before ++ rest) (inQuotes name) (width before) = some .absent := by
  simp [turn?, from?_append, h]

theorem turn?_present (before skipped after : List Char)
    (h : find? (inQuotes name) (skipped ++ (inQuotes name ++ after)) = some (width skipped)) :
    turn? (before ++ (skipped ++ (inQuotes name ++ after))) (inQuotes name) (width before) =
      if (trimStart after).head? = some ':' then some (.found (width (before ++ skipped) + 1))
      else some (.onwards (width (before ++ (skipped ++ inQuotes name)))) := by
  have ht : before ++ (skipped ++ (inQuotes name ++ after)) =
      before ++ (skipped ++ inQuotes name) ++ after := by simp
  have hw : width before + width skipped + width (inQuotes name) =
      width (before ++ (skipped ++ inQuotes name)) := by simp [Nat.add_assoc]
  have hcut : from? (before ++ (skipped ++ (inQuotes name ++ after)))
      (width (before ++ (skipped ++ inQuotes name))) = some after := by
    rw [ht, from?_append]
  simp only [turn?, from?_append, Option.bind_eq_bind, Option.bind_some, h, hw, hcut]
  rw [width_append before skipped]
  rfl

/-- The search comes to an end from every place between characters, and finds what is the first
occurrence behind it. -/
theorem scans_findQuoted? (name before rest : List Char) :
    Scans (before ++ rest) (inQuotes name) (width before)
      ((findQuoted? (inQuotes name) 0 rest).map (width before + · + 1)) := by
  -- Every turn leaves a shorter rest.
  induction hl : rest.length using Nat.strongRecOn generalizing before rest with
  | ind l ih =>
    cases hf : find? (inQuotes name) rest with
    | none =>
      rw [findQuoted?_of_absent hf]
      exact .absent (turn?_absent before hf)
    | some n =>
      obtain ⟨skipped, after, rfl, rfl, hq⟩ := findQuoted?_of_found hf
      have hturn := turn?_present before skipped after hf
      rw [hq]
      split at hturn
      next hcolon =>
        rw [if_pos hcolon, Option.map_some, ← width_append]
        exact .found hturn
      next hcolon =>
        have hshort : after.length < l := by
          rw [← hl, inQuotes_append]
          simp
          omega
        have hlater := ih _ hshort (before ++ (skipped ++ inQuotes name)) after rfl
        have ht : before ++ (skipped ++ inQuotes name) ++ after =
            before ++ (skipped ++ (inQuotes name ++ after)) := by simp
        have he : (width before + · + 1) ∘ (width (skipped ++ inQuotes name) + ·) =
            (width (before ++ (skipped ++ inQuotes name)) + · + 1) :=
          funext fun k ↦ by
            simp only [Function.comp_apply, width_append, Nat.add_assoc]
        rw [ht] at hlater
        rw [if_neg hcolon, Option.map_map, he]
        exact .onwards hturn hlater

theorem lt_of_onwards {start next : Nat}
    (h : turn? text (inQuotes name) start = some (.onwards next)) :
    start < next ∧ next ≤ width text := by
  obtain ⟨rest, -, h⟩ := Option.bind_eq_some_iff.mp h
  cases hf : find? (inQuotes name) rest with
  | none => simp [hf] at h
  | some distance =>
    simp only [hf] at h
    obtain ⟨after, hcut, h⟩ := Option.bind_eq_some_iff.mp h
    split at h
    next => cases h
    next =>
      cases Option.some_inj.mp h
      obtain ⟨before, ht, hw⟩ := eq_append_of_from? hcut
      have hquote : width (inQuotes name) = 1 + width (name ++ ['"']) := rfl
      rw [ht, width_append]
      omega

theorem Scans.unique {quoted : List Char} {start : Nat} {result result' : Option Nat}
    (h : Scans text quoted start result) (h' : Scans text quoted start result') :
    result = result' := by
  induction h with
  | found ht =>
    cases h' with
    | found ht' => cases ht.symm.trans ht'; rfl
    | absent ht' | onwards ht' _ => cases ht.symm.trans ht'
  | absent ht =>
    cases h' with
    | absent _ => rfl
    | found ht' | onwards ht' _ => cases ht.symm.trans ht'
  | onwards ht _ ih =>
    cases h' with
    | found ht' | absent ht' => cases ht.symm.trans ht'
    | onwards ht' hlater =>
      cases ht.symm.trans ht'
      exact ih hlater

/-- The search ends, in the same way however it is run. -/
theorem finds_iff {span? : Option Span} :
    Finds text name span? ↔ span? = findKey? text name := by
  have hscans := scans_findQuoted? name [] text
  have hkey : findKey? text name =
      ((((findQuoted? (inQuotes name) 0 text).map (width [] + · + 1)).or (findBare? text name)).or
        (if startsWithKey text name then some 0 else none)).map (⟨·, width name⟩) := by
    have hquotes : '"' :: name ++ ['"'] = inQuotes name := rfl
    rw [findKey?, hquotes]
    cases findQuoted? (inQuotes name) 0 text with
    | some offset => simp [width]
    | none => cases findBare? text name <;> rfl
  constructor
  · rintro ⟨offset?, h, rfl⟩
    rw [hkey, h.unique hscans]
  · rintro rfl
    exact ⟨_, hscans, hkey⟩

end Source

end CppAst
