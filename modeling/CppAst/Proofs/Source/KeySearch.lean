import CppAst.Proofs.Source.Position
import CppAst.Source.KeySearch

namespace CppAst

namespace Text

theorem trimStart_blanks_append {blanks : List Char} (h : ∀ c ∈ blanks, isBlank c)
    (rest : List Char) : trimStart (blanks ++ rest) = trimStart rest := List.dropWhile_append_of_pos h

theorem head?_trimStart {c : Char} (h : ¬ isBlank c) (rest : List Char) :
    (trimStart (c :: rest)).head? = some c := by
  rw [trimStart, List.dropWhile_cons_of_neg h]
  rfl

theorem append_inj_of_width {a a' b b' : List Char} (h : a ++ b = a' ++ b')
    (hw : width a = width a') : a = a' ∧ b = b' := by
  induction a generalizing a' with
  | nil =>
    obtain rfl := width_eq_zero.mp hw.symm
    exact ⟨rfl, h⟩
  | cons c a ih =>
    cases a' with
    | nil => exact absurd (width_eq_zero.mp hw) (List.cons_ne_nil c a)
    | cons d a' =>
      obtain ⟨rfl, hrest⟩ := List.cons.inj h
      obtain ⟨rfl, rfl⟩ := ih hrest (Nat.add_left_cancel hw)
      exact ⟨rfl, rfl⟩

end Text

namespace Source

open Text

theorem map_width_append (found : Option Nat) (a b : List Char) :
    (found.map (width b + ·)).map (width a + ·) = found.map (width (a ++ b) + ·) := by
  rw [Option.map_map, width_append]
  exact congrArg (Option.map · found) (funext fun n ↦ (Nat.add_assoc _ _ _).symm)

theorem map_width_nil (found : Option Nat) : found.map (width [] + ·) = found := by
  simp [width]

section Quoted

variable {pattern name : List Char}

theorem findQuoted?_skip (text rest : List Char) :
    findQuoted? pattern text.length (text ++ rest) =
      (findQuoted? pattern 0 rest).map (width text + ·) := by
  induction text with
  | nil => exact (map_width_nil _).symm
  | cons c text ih =>
    have hw : width [c] = c.utf8Size := Nat.add_zero _
    have h := map_width_append (findQuoted? pattern 0 rest) [c] text
    rw [hw] at h
    rw [List.length_cons, List.cons_append, findQuoted?, ih, h]
    rfl

theorem findQuoted?_cons {c : Char} {rest : List Char} (h : ¬ pattern <+: c :: rest) :
    findQuoted? pattern 0 (c :: rest) =
      (findQuoted? pattern 0 rest).map (width [c] + ·) := by
  rw [findQuoted?, if_neg (mt List.isPrefixOf_iff_prefix.mp h)]
  rfl

def inQuotes (text : List Char) : List Char := '"' :: (text ++ ['"'])

theorem inQuotes_append (text rest : List Char) :
    inQuotes text ++ rest = '"' :: (text ++ '"' :: rest) := by
  simp [inQuotes]

theorem findQuoted?_occurrence (rest : List Char) :
    findQuoted? (inQuotes name) 0 (inQuotes name ++ rest) =
      if (trimStart rest).head? = some ':' then some 0
      else (findQuoted? (inQuotes name) 0 rest).map (width (inQuotes name) + ·) := by
  have hp : (inQuotes name).isPrefixOf (inQuotes name ++ rest) = true :=
    List.isPrefixOf_iff_prefix.mpr (List.prefix_append _ _)
  have hd : (inQuotes name ++ rest).drop (inQuotes name).length = rest := List.drop_left
  have hs : findQuoted? (inQuotes name) ((inQuotes name).length - 1) (name ++ ['"'] ++ rest) =
      (findQuoted? (inQuotes name) 0 rest).map (width (name ++ ['"']) + ·) :=
    findQuoted?_skip (name ++ ['"']) rest
  have he : inQuotes name ++ rest = '"' :: (name ++ ['"'] ++ rest) := rfl
  rw [he] at hp hd ⊢
  rw [findQuoted?, if_pos hp, hd, hs]
  split
  · rfl
  · exact map_width_append _ ['"'] (name ++ ['"'])

theorem findQuoted?_unquoted {text : List Char} (h : '"' ∉ text) (rest : List Char) :
    findQuoted? (inQuotes name) 0 (text ++ rest) =
      (findQuoted? (inQuotes name) 0 rest).map (width text + ·) := by
  induction text with
  | nil => exact (map_width_nil _).symm
  | cons c text ih =>
    rw [List.mem_cons, not_or] at h
    have hp : ¬ inQuotes name <+: c :: (text ++ rest) := fun hp ↦
      h.1 (List.cons_prefix_cons.mp hp).1
    rw [List.cons_append, findQuoted?_cons hp, ih h.2]
    exact map_width_append _ [c] text

theorem eq_of_append_quote {a b rest rest' : List Char} (ha : '"' ∉ a) (hb : '"' ∉ b)
    (h : a ++ '"' :: rest = b ++ '"' :: rest') : a = b := by
  induction a generalizing b with
  | nil =>
    cases b with
    | nil => rfl
    | cons c b =>
      obtain ⟨rfl, -⟩ := List.cons.inj h
      exact absurd List.mem_cons_self hb
  | cons c a ih =>
    cases b with
    | nil =>
      obtain ⟨rfl, -⟩ := List.cons.inj h
      exact absurd List.mem_cons_self ha
    | cons d b =>
      obtain ⟨rfl, hr⟩ := List.cons.inj h
      rw [List.mem_cons, not_or] at ha hb
      rw [ih ha.2 hb.2 hr]

/-- Before the first quote, if there is one, stands a comma or a colon. -/
def Fenced : List Char → Prop
  | [] => True
  | c :: rest => c = ',' ∨ c = ':' ∨ c ≠ '"' ∧ Fenced rest

theorem Fenced.not_prefix {text : List Char} (h : Fenced text)
    (hn : ∀ c ∈ name, c ≠ ',' ∧ c ≠ ':') : ¬ name ++ ['"'] <+: text := by
  induction name generalizing text with
  | nil =>
    rintro ⟨rest, rfl⟩
    simp [Fenced] at h
  | cons d name ih =>
    rw [List.forall_mem_cons] at hn
    rintro ⟨rest, rfl⟩
    rcases h with rfl | rfl | ⟨-, hf⟩
    · exact hn.1.1 rfl
    · exact hn.1.2 rfl
    · exact ih hf hn.2 ⟨rest, rfl⟩

theorem findQuoted?_other {chars rest : List Char} (hn : ∀ c ∈ name, c ≠ '"' ∧ c ≠ ',' ∧ c ≠ ':')
    (hc : '"' ∉ chars) (hne : chars ≠ name) (hf : Fenced rest) :
    findQuoted? (inQuotes name) 0 (inQuotes chars ++ rest) =
      (findQuoted? (inQuotes name) 0 rest).map (width (inQuotes chars) + ·) := by
  have hq : '"' ∉ name := fun h ↦ (hn '"' h).1 rfl
  have hopen : ¬ inQuotes name <+: '"' :: (chars ++ '"' :: rest) := by
    rintro ⟨more, h⟩
    rw [inQuotes_append] at h
    exact hne (eq_of_append_quote hq hc (List.cons.inj h).2).symm
  have hclose : ¬ inQuotes name <+: '"' :: rest := fun h ↦
    hf.not_prefix (fun c hm ↦ (hn c hm).2) (List.cons_prefix_cons.mp h).2
  rw [inQuotes_append, findQuoted?_cons hopen, findQuoted?_unquoted hc, findQuoted?_cons hclose,
    map_width_append, map_width_append]
  rfl

end Quoted

end Source
end CppAst
