import CppAst.Proofs.Source.KeySearch

namespace CppAst.Source

open Text

def InQuotes (before after : List Char) : Prop :=
  ∃ outer rest, before = outer ++ ['"'] ∧ after = '"' :: rest ∧ (trimStart rest).head? = some ':'

/-- A name between signs that end a key without quotes. It may stand at the start of a text. -/
def BetweenSigns (before after : List Char) : Prop :=
  (∀ c ∈ before.getLast?, c = '.' ∨ c = '\n' ∨ c = ' ') ∧
    ∃ c rest, after = c :: rest ∧ (c = ']' ∨ c = '.' ∨ c = ' ' ∨ c = '=')

def LooksLikeKey (before after : List Char) : Prop :=
  InQuotes before after ∨ BetweenSigns before after

variable {pattern name text : List Char} {n : Nat}

theorem findQuoted?_sound {skip : Nat} (h : findQuoted? pattern skip text = some n) :
    ∃ before rest, text = before ++ (pattern ++ rest) ∧ n = width before ∧
      (trimStart rest).head? = some ':' := by
  induction text generalizing skip n with
  | nil => cases skip <;> cases h
  | cons c text ih =>
    have hlater {skip : Nat} (h : (findQuoted? pattern skip text).map (c.utf8Size + ·) = some n) :
        ∃ before rest, c :: text = before ++ (pattern ++ rest) ∧ n = width before ∧
          (trimStart rest).head? = some ':' := by
      obtain ⟨m, hm, rfl⟩ := Option.map_eq_some_iff.mp h
      obtain ⟨before, rest, rfl, rfl, hr⟩ := ih hm
      exact ⟨c :: before, rest, rfl, rfl, hr⟩
    cases skip with
    | succ skip => exact hlater h
    | zero =>
      rw [findQuoted?] at h
      split at h
      · next hp =>
        obtain ⟨rest, hrest⟩ := List.isPrefixOf_iff_prefix.mp hp
        split at h
        · next hcolon =>
          cases h
          rw [← hrest, List.drop_left] at hcolon
          exact ⟨[], rest, hrest.symm, rfl, hcolon⟩
        · exact hlater h
      · exact hlater h

theorem find?_sound (h : find? pattern text = some n) :
    ∃ before rest, text = before ++ (pattern ++ rest) ∧ n = width before := by
  induction text generalizing n with
  | nil =>
    rw [find?] at h
    split at h
    · next hp =>
      cases h
      exact ⟨[], [], by rw [List.isEmpty_iff.mp hp]; rfl, rfl⟩
    · cases h
  | cons c text ih =>
    rw [find?] at h
    split at h
    · next hp =>
      obtain ⟨rest, hrest⟩ := List.isPrefixOf_iff_prefix.mp hp
      cases h
      exact ⟨[], rest, hrest.symm, rfl⟩
    · obtain ⟨m, hm, rfl⟩ := Option.map_eq_some_iff.mp h
      obtain ⟨before, rest, rfl, rfl⟩ := ih hm
      exact ⟨c :: before, rest, rfl, rfl⟩

theorem surroundings_signs : ∀ surrounding ∈ surroundings,
    (∃ c ∈ surrounding.1.getLast?, c = '.' ∨ c = '\n' ∨ c = ' ') ∧
    (∃ c ∈ surrounding.2.head?, c = ']' ∨ c = '.' ∨ c = ' ' ∨ c = '=') ∧
    width surrounding.1 = surrounding.1.length := by
  intro surrounding h
  simp only [surroundings, List.mem_cons, List.not_mem_nil, or_false] at h
  rcases h with rfl | rfl | rfl | rfl | rfl | rfl <;>
    exact ⟨⟨_, rfl, by decide⟩, ⟨_, rfl, by decide⟩, rfl⟩

theorem findBare?_sound (h : findBare? text name = some n) :
    ∃ before after, text = before ++ (name ++ after) ∧ n = width before ∧
      BetweenSigns before after := by
  obtain ⟨⟨b, a⟩, hmem, h⟩ := List.exists_of_findSome?_eq_some h
  obtain ⟨m, hm, rfl⟩ := Option.map_eq_some_iff.mp h
  obtain ⟨before, rest, rfl, rfl⟩ := find?_sound hm
  obtain ⟨⟨c, hc, hsign⟩, ⟨d, hd, hend⟩, hw⟩ := surroundings_signs (b, a) hmem
  refine ⟨before ++ b, a ++ rest, by simp, ?_, ?_, ?_⟩
  · rw [width_append, hw, Nat.add_comm]
  · intro e he
    rw [List.getLast?_append, Option.mem_def.mp hc, Option.some_or] at he
    rw [← Option.mem_some_iff.mp he]
    exact hsign
  · obtain ⟨a', rfl⟩ := List.head?_eq_some_iff.mp hd
    exact ⟨d, a' ++ rest, rfl, hend⟩

theorem startsWithKey_sound (h : startsWithKey text name = true) :
    ∃ after, text = name ++ after ∧ BetweenSigns [] after := by
  rw [startsWithKey, Bool.or_eq_true, List.isPrefixOf_iff_prefix, List.isPrefixOf_iff_prefix] at h
  rcases h with ⟨rest, rfl⟩ | ⟨rest, rfl⟩
  · exact ⟨' ' :: '=' :: rest, by simp, nofun, _, _, rfl, by simp⟩
  · exact ⟨'=' :: rest, by simp, nofun, _, _, rfl, by simp⟩

theorem findKey?_sound {span : Span} (h : findKey? text name = some span) :
    ∃ before after, text = before ++ (name ++ after) ∧ span = ⟨width before, width name⟩ ∧
      LooksLikeKey before after := by
  obtain ⟨offset, ho, rfl⟩ := Option.map_eq_some_iff.mp h
  split at ho
  · next m hm =>
    cases ho
    obtain ⟨before, rest, rfl, rfl, hcolon⟩ := findQuoted?_sound hm
    refine ⟨before ++ ['"'], '"' :: rest, by simp, ?_, .inl ⟨before, rest, rfl, rfl, hcolon⟩⟩
    rw [width_append]
    rfl
  · split at ho
    · next m hm =>
      cases ho
      obtain ⟨before, after, rfl, rfl, hs⟩ := findBare?_sound hm
      exact ⟨before, after, rfl, rfl, .inr hs⟩
    · split at ho
      · next hk =>
        cases ho
        obtain ⟨after, rfl, hs⟩ := startsWithKey_sound hk
        exact ⟨[], after, rfl, rfl, .inr hs⟩
      · cases ho

end CppAst.Source
