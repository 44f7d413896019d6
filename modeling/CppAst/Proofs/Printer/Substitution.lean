import CppAst.Printer.Expansion
import Mathlib.Data.List.TakeWhile

namespace CppAst.Text

/-- Each token is a `$` with letters after it, and none is the start of another. -/
def Apart (tokens : List (List Char)) : Prop :=
  ∀ token ∈ tokens, (token.head? = some '$' ∧ '$' ∉ token.tail) ∧
    ∀ other ∈ tokens, token <+: other → token = other

instance (tokens : List (List Char)) : Decidable (Apart tokens) :=
  inferInstanceAs (Decidable (∀ token ∈ tokens, _))

theorem Apart.eq_cons {tokens : List (List Char)} (ha : Apart tokens) {token : List Char}
    (h : token ∈ tokens) : ∃ letters, token = '$' :: letters ∧ '$' ∉ letters := by
  obtain ⟨hd, hl⟩ := (ha token h).1
  obtain ⟨letters, rfl⟩ := List.head?_eq_some_iff.mp hd
  exact ⟨letters, rfl, hl⟩

theorem Apart.not_prefix {tokens : List (List Char)} (ha : Apart tokens) {token : List Char}
    (h : token ∈ tokens) {c : Char} (hc : c ≠ '$') (rest : List Char) : ¬ token <+: c :: rest := by
  obtain ⟨letters, rfl, -⟩ := ha.eq_cons h
  intro hp
  exact hc (List.cons_prefix_cons.mp hp).1.symm

theorem Apart.eq_of_prefix {tokens : List (List Char)} (ha : Apart tokens) {token other : List Char}
    (h : token ∈ tokens) (ho : other ∈ tokens) {rest : List Char} (hp : token <+: other ++ rest) :
    token = other := by
  rcases List.prefix_or_prefix_of_prefix hp (List.prefix_append _ _) with hp | hp
  · exact (ha token h).2 other ho hp
  · exact ((ha other ho).2 token h hp).symm

section Single

variable {token value : List Char}

theorem replaceFrom_skip (text rest : List Char) :
    replaceFrom token value text.length (text ++ rest) = replaceFrom token value 0 rest := by
  induction text with
  | nil => rfl
  | cons c text ih => exact ih

theorem replaceFrom_token (ht : token ≠ []) (rest : List Char) :
    replaceFrom token value 0 (token ++ rest) = value ++ replaceFrom token value 0 rest := by
  obtain ⟨c, letters, rfl⟩ := List.exists_cons_of_ne_nil ht
  have hp : (c :: letters).isPrefixOf (c :: (letters ++ rest)) = true :=
    List.isPrefixOf_iff_prefix.mpr ⟨rest, rfl⟩
  rw [List.cons_append, replaceFrom, if_pos hp]
  exact congrArg _ (replaceFrom_skip letters rest)

theorem replaceFrom_cons {c : Char} {rest : List Char} (h : ¬ token <+: c :: rest) :
    replaceFrom token value 0 (c :: rest) = c :: replaceFrom token value 0 rest := by
  rw [replaceFrom, if_neg (mt List.isPrefixOf_iff_prefix.mp h)]

theorem replaceFrom_append {tokens : List (List Char)} (ha : Apart tokens) (hm : token ∈ tokens)
    {text : List Char} (h : '$' ∉ text) (rest : List Char) :
    replaceFrom token value 0 (text ++ rest) = text ++ replaceFrom token value 0 rest := by
  induction text with
  | nil => rfl
  | cons c text ih =>
    rw [List.mem_cons, not_or] at h
    have hp := ha.not_prefix hm (Ne.symm h.1) (text ++ rest)
    rw [List.cons_append, replaceFrom_cons hp, ih h.2, List.cons_append]

end Single

def Settled (tokens : List (List Char)) (substitutions : List (List Char × List Char)) : Prop :=
  ∀ s ∈ substitutions, s.1 ∈ tokens ∧ '$' ∉ s.2

variable {tokens : List (List Char)} {substitutions : List (List Char × List Char)}

theorem replaceAllFrom_skip (text rest : List Char) :
    replaceAllFrom substitutions text.length (text ++ rest) =
      replaceAllFrom substitutions 0 rest := by
  induction text with
  | nil => rfl
  | cons c text ih => exact ih

theorem replaceAllFrom_cons {c : Char} {rest : List Char}
    (h : ∀ s ∈ substitutions, ¬ s.1 <+: c :: rest) :
    replaceAllFrom substitutions 0 (c :: rest) = c :: replaceAllFrom substitutions 0 rest := by
  have hn : substitutions.find? (fun s ↦ s.1.isPrefixOf (c :: rest)) = none := by
    rw [List.find?_eq_none]
    exact fun s hs hp ↦ h s hs (List.isPrefixOf_iff_prefix.mp hp)
  rw [replaceAllFrom, hn]

theorem replaceAllFrom_nil (text : List Char) : replaceAllFrom [] 0 text = text := by
  induction text with
  | nil => rfl
  | cons c text ih => rw [replaceAllFrom_cons (by simp), ih]

section AtOnce

variable (ha : Apart tokens) (hs : Settled tokens substitutions)
include ha hs

theorem replaceAllFrom_append {text : List Char} (h : '$' ∉ text) (rest : List Char) :
    replaceAllFrom substitutions 0 (text ++ rest) =
      text ++ replaceAllFrom substitutions 0 rest := by
  induction text with
  | nil => rfl
  | cons c text ih =>
    rw [List.mem_cons, not_or] at h
    have hc : ∀ s ∈ substitutions, ¬ s.1 <+: c :: (text ++ rest) :=
      fun s hm ↦ ha.not_prefix (hs s hm).1 (Ne.symm h.1) _
    rw [List.cons_append, replaceAllFrom_cons hc, ih h.2, List.cons_append]

theorem replaceAllFrom_eq_self {text : List Char} (h : '$' ∉ text) :
    replaceAllFrom substitutions 0 text = text := by
  have he := replaceAllFrom_append ha hs h []
  rwa [List.append_nil, replaceAllFrom, List.append_nil] at he

theorem replaceAllFrom_token {token : List Char} (hm : token ∈ tokens) (rest : List Char) :
    replaceAllFrom substitutions 0 (token ++ rest) =
      (substitutions.lookup token).getD token ++ replaceAllFrom substitutions 0 rest := by
  have hbegins : ∀ s ∈ substitutions, s.1 <+: token ++ rest → s.1 = token :=
    fun s hsm ↦ ha.eq_of_prefix (hs s hsm).1 hm
  obtain ⟨letters, rfl, hl⟩ := ha.eq_cons hm
  cases hv : substitutions.lookup ('$' :: letters) with
  | none =>
    have hn : ∀ s ∈ substitutions, ¬ s.1 <+: '$' :: (letters ++ rest) := fun s hsm hp ↦ by
      have hne := List.lookup_eq_none_iff.mp hv s hsm
      exact bne_iff_ne.mp hne (hbegins s hsm hp).symm
    rw [List.cons_append, replaceAllFrom_cons hn, replaceAllFrom_append ha hs hl]
    rfl
  | some value =>
    obtain ⟨before, after, he, hb⟩ := List.lookup_eq_some_iff.mp hv
    have hf : substitutions.find? (fun s ↦ s.1.isPrefixOf ('$' :: (letters ++ rest))) =
        some ('$' :: letters, value) := by
      refine List.find?_eq_some_iff_append.mpr
        ⟨List.isPrefixOf_iff_prefix.mpr (List.prefix_append _ _), before, after, he, fun s hsb ↦ ?_⟩
      rw [Bool.not_eq_true', Bool.eq_false_iff, ne_eq, List.isPrefixOf_iff_prefix]
      intro hp
      have hsm : s ∈ substitutions := he ▸ List.mem_append_left _ hsb
      exact bne_iff_ne.mp (hb s hsb) (hbegins s hsm hp).symm
    rw [List.cons_append, replaceAllFrom, hf]
    exact congrArg _ (replaceAllFrom_skip letters rest)

end AtOnce

theorem Unbroken.of_append {text rest : List Char} (h : Unbroken tokens (text ++ rest)) :
    Unbroken tokens rest := by
  induction text with
  | nil => exact h
  | cons c text ih => exact ih h.2

section InTurn

variable (ha : Apart tokens) (hs : Settled tokens substitutions)
include ha hs

theorem not_prefix_replaceAllFrom {token rest : List Char} (hm : token ∈ tokens)
    (hu : Unbroken tokens ('$' :: rest)) (hn : ∀ token ∈ tokens, ¬ token <+: '$' :: rest) :
    ¬ token <+: '$' :: replaceAllFrom substitutions 0 rest := by
  intro hp
  let part := rest.takeWhile (· ≠ '$')
  have hpart : '$' ∉ part := fun h ↦ by simpa using List.mem_takeWhile_imp h
  -- The part up to the next `$` stays; the token could reach beyond it only if it starts with it.
  obtain ⟨after, hr⟩ : ∃ after, rest = part ++ after :=
    ⟨_, (List.takeWhile_append_dropWhile).symm⟩
  have hshort : ¬ token <+: '$' :: part := fun h ↦ by
    refine hn token hm (h.trans ?_)
    rw [hr]
    exact List.cons_prefix_cons.mpr ⟨rfl, List.prefix_append _ _⟩
  have hkept : '$' :: part <+: '$' :: replaceAllFrom substitutions 0 rest := by
    rw [hr, replaceAllFrom_append ha hs hpart]
    exact List.cons_prefix_cons.mpr ⟨rfl, List.prefix_append _ _⟩
  have hlong := (List.prefix_or_prefix_of_prefix hp hkept).resolve_left hshort
  by_cases hd : '$' ∈ rest
  · refine hu.1 rfl hn hd token hm ⟨hlong, ?_⟩
    rintro he
    exact hshort (he ▸ List.prefix_refl _)
  · have hall : part = rest := List.takeWhile_eq_self_iff.mpr fun c hc ↦ by
      simpa using fun he : c = '$' ↦ hd (he ▸ hc)
    rw [replaceAllFrom_eq_self ha hs hd, ← hall] at hp
    exact hshort hp

/-- Where a token begins, it makes no difference whether one more token is replaced after the others
or with them, if it makes none behind it. -/
theorem replaceFrom_token_replaceAllFrom {token begun value : List Char} (hm : token ∈ tokens)
    (hb : begun ∈ tokens) {rest : List Char}
    (hr : replaceFrom token value 0 (replaceAllFrom substitutions 0 rest) =
      replaceAllFrom (substitutions ++ [(token, value)]) 0 rest) (hv : '$' ∉ value) :
    replaceFrom token value 0 (replaceAllFrom substitutions 0 (begun ++ rest)) =
      replaceAllFrom (substitutions ++ [(token, value)]) 0 (begun ++ rest) := by
  have hs' : Settled tokens (substitutions ++ [(token, value)]) :=
    List.forall_mem_append.mpr ⟨hs, List.forall_mem_singleton.mpr ⟨hm, hv⟩⟩
  rw [replaceAllFrom_token ha hs hb, replaceAllFrom_token ha hs' hb, List.lookup_append, ← hr]
  cases hl : substitutions.lookup begun with
  | some old =>
    obtain ⟨before, after, he, -⟩ := List.lookup_eq_some_iff.mp hl
    have hold : '$' ∉ old := (hs (begun, old) (by simp [he])).2
    exact replaceFrom_append ha hm hold _
  | none =>
    obtain ⟨letters, rfl, hletters⟩ := ha.eq_cons hb
    by_cases ht : '$' :: letters = token
    · subst ht
      simpa using replaceFrom_token (List.cons_ne_nil _ _) _
    · have hp : ¬ token <+: '$' :: (letters ++ replaceAllFrom substitutions 0 rest) :=
        fun hp ↦ ht (ha.eq_of_prefix hm hb hp).symm
      have hne : ('$' :: letters == token) = false := beq_false_of_ne ht
      simp only [Option.getD_none, List.cons_append, replaceFrom_cons hp,
        replaceFrom_append ha hm hletters, List.lookup_cons, hne, List.lookup_nil, Option.none_or]

theorem replaceFrom_replaceAllFrom {token value : List Char} (hm : token ∈ tokens)
    (hv : '$' ∉ value) {text : List Char} (hu : Unbroken tokens text) :
    replaceFrom token value 0 (replaceAllFrom substitutions 0 text) =
      replaceAllFrom (substitutions ++ [(token, value)]) 0 text := by
  induction hl : text.length using Nat.strong_induction_on generalizing text with
  | _ n ih =>
    subst hl
    by_cases hbegins : ∃ begun ∈ tokens, begun <+: text
    · obtain ⟨begun, hb, rest, rfl⟩ := hbegins
      obtain ⟨letters, rfl, -⟩ := ha.eq_cons hb
      have hlt : rest.length < ('$' :: letters ++ rest).length := by
        rw [List.length_append, List.length_cons]
        omega
      exact replaceFrom_token_replaceAllFrom ha hs hm hb (ih rest.length hlt hu.of_append rfl) hv
    · have hn : ∀ begun ∈ tokens, ¬ begun <+: text := by simpa using hbegins
      cases text with
      | nil => rfl
      | cons c rest =>
        have hr := ih rest.length (by simp) hu.2 rfl
        have hkept : ¬ token <+: c :: replaceAllFrom substitutions 0 rest := by
          by_cases hc : c = '$'
          · subst hc
            exact not_prefix_replaceAllFrom ha hs hm hu hn
          · exact ha.not_prefix hm hc _
        rw [replaceAllFrom_cons fun s hsm ↦ hn s.1 (hs s hsm).1, replaceFrom_cons hkept, hr,
          replaceAllFrom_cons]
        rw [List.forall_mem_append, List.forall_mem_singleton]
        exact ⟨fun s hsm ↦ hn s.1 (hs s hsm).1, hn token hm⟩

end InTurn

/-- All replacements in turn, after those of some tokens at once, are all of them at once. -/
theorem foldl_replace (ha : Apart tokens) (done : List (List Char × List Char))
    {todo : List (List Char × List Char)} (hs : Settled tokens (done ++ todo)) {text : List Char}
    (hu : Unbroken tokens text) :
    todo.foldl (fun text s ↦ replace s.1 s.2 text) (replaceAllFrom done 0 text) =
      replaceAllFrom (done ++ todo) 0 text := by
  induction todo generalizing done with
  | nil => rw [List.foldl_nil, List.append_nil]
  | cons s todo ih =>
    obtain ⟨hdone, hrest⟩ := List.forall_mem_append.mp hs
    obtain ⟨hm, hv⟩ := (List.forall_mem_cons.mp hrest).1
    obtain ⟨letters, hl, -⟩ := ha.eq_cons hm
    have hone : replace s.1 s.2 (replaceAllFrom done 0 text) =
        replaceAllFrom (done ++ [s]) 0 text := by
      rw [← replaceFrom_replaceAllFrom ha hdone hm hv hu, replace, if_neg (by simp [hl])]
    rw [List.foldl_cons, hone, ih _ (by simpa using hs), List.append_assoc, List.singleton_append]

end CppAst.Text
