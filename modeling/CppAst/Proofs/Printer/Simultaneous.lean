import CppAst.Printer.Passes
import CppAst.Proofs.Lookup
import CppAst.Proofs.Printer.Substitution

namespace CppAst.Template

open Text

variable {tokens : List String} {substitutions order : List (String × String)} {line : String}

abbrev spelled (substitutions : List (String × String)) : List (List Char × List Char) :=
  substitutions.map fun s ↦ (s.1.toList, s.2.toList)

theorem lookup_spelled (substitutions : List (String × String)) (name : String) :
    (spelled substitutions).lookup name.toList = (substitutions.lookup name).map String.toList := by
  induction substitutions with
  | nil => rfl
  | cons s rest ih =>
    obtain ⟨token, value⟩ := s
    rw [spelled, List.map_cons, lookup_cons, ih, lookup_cons]
    by_cases h : name = token
    · rw [if_pos h, if_pos (congrArg String.toList h)]
      rfl
    · rw [if_neg h, if_neg (mt String.toList_inj.mp h)]

theorem settled_spelled (ht : ∀ s ∈ substitutions, s.1 ∈ tokens)
    (hv : ∀ s ∈ substitutions, '$' ∉ s.2.toList) :
    Settled (tokens.map String.toList) (spelled substitutions) :=
  List.forall_mem_map.mpr fun s hs ↦ ⟨List.mem_map_of_mem (ht s hs), hv s hs⟩

theorem exists_divides (ha : Apart (tokens.map String.toList)) (text : List Char) :
    ∃ pieces, Divides tokens pieces text := by
  induction hl : text.length using Nat.strong_induction_on generalizing text with
  | _ n ih =>
    subst hl
    by_cases hbegins : ∃ name ∈ tokens, name.toList <+: text
    · obtain ⟨name, hm, rest, rfl⟩ := hbegins
      obtain ⟨letters, he, -⟩ := ha.eq_cons (List.mem_map_of_mem hm)
      have hlt : rest.length < (name.toList ++ rest).length := by
        rw [he, List.length_append, List.length_cons]
        omega
      obtain ⟨pieces, hp⟩ := ih rest.length hlt rest rfl
      exact ⟨_, .token hm hp⟩
    · cases text with
      | nil => exact ⟨[], .nil⟩
      | cons c rest =>
        obtain ⟨pieces, hp⟩ := ih rest.length (by simp) rest rfl
        exact ⟨_, .plain (fun name hm h ↦ hbegins ⟨name, hm, h⟩) hp⟩

/-- Replacing all tokens at once fills the pieces. -/
theorem Divides.replaceAllFrom {pieces : List Piece} {text : List Char}
    (h : Divides tokens pieces text) (ha : Apart (tokens.map String.toList))
    (hs : Settled (tokens.map String.toList) (spelled substitutions)) :
    replaceAllFrom (spelled substitutions) 0 text =
      pieces.flatMap (Piece.filled substitutions) := by
  induction h with
  | nil => rfl
  | @token name pieces rest hm _ ih =>
    rw [replaceAllFrom_token ha hs (List.mem_map_of_mem hm), ih, lookup_spelled, List.flatMap_cons,
      Piece.filled]
    cases substitutions.lookup name <;> rfl
  | @plain c pieces rest hn _ ih =>
    rw [replaceAllFrom_cons, ih, List.flatMap_cons, Piece.filled, List.singleton_append]
    intro s hm
    obtain ⟨name, hname, he⟩ := List.mem_map.mp (hs s hm).1
    exact he ▸ hn name hname

theorem substituteLine_eq_fillLine (ha : Apart (tokens.map String.toList))
    (hs : Settled (tokens.map String.toList) (spelled substitutions))
    (hu : Unbroken (tokens.map String.toList) line.toList) :
    substituteLine substitutions line = fillLine substitutions line := by
  have h := foldl_replace ha [] hs hu
  rw [List.nil_append, replaceAllFrom_nil, List.foldl_map] at h
  exact congrArg String.ofList h

theorem filled_perm (hk : (substitutions.map Prod.fst).Nodup) (hp : order.Perm substitutions) :
    Piece.filled order = Piece.filled substitutions := by
  funext piece
  cases piece with
  | plain c => rfl
  | token name => rw [Piece.filled, Piece.filled, lookup_perm hk hp.symm]

theorem apart_of_mem_tokenLists :
    ∀ tokens ∈ PrinterSections.tokenLists, Apart (tokens.map String.toList) ∧ tokens.Nodup := by
  decide

/-- Where no `$` of the line can become the start of a token, and no value has one, replacing the
tokens in turn, in any order, fills the pieces of the line with the values, which is to replace them
in one pass from left to right. The pieces are the same for all values. -/
theorem substitute_fills_pieces (ht : tokens ∈ PrinterSections.tokenLists)
    (hu : Unbroken (tokens.map String.toList) line.toList) :
    ∃ pieces, Divides tokens pieces line.toList ∧
      ∀ substitutions : List (String × String), substitutions.map Prod.fst = tokens →
        (∀ s ∈ substitutions, '$' ∉ s.2.toList) →
        (∀ order : List (String × String), order.Perm substitutions →
          substitute order [line] = [fillLine substitutions line]) ∧
        (fillLine substitutions line).toList = pieces.flatMap (Piece.filled substitutions) := by
  obtain ⟨ha, hd⟩ := apart_of_mem_tokenLists tokens ht
  obtain ⟨pieces, hp⟩ := exists_divides ha line.toList
  refine ⟨pieces, hp, fun substitutions hk hv ↦ ?_⟩
  have hm : ∀ s ∈ substitutions, s.1 ∈ tokens := fun s hs ↦ hk ▸ List.mem_map_of_mem hs
  have hfill : fillLine substitutions line =
      .ofList (pieces.flatMap (Piece.filled substitutions)) :=
    congrArg String.ofList (hp.replaceAllFrom ha (settled_spelled hm hv))
  refine ⟨fun order ho ↦ ?_, by rw [hfill, String.toList_ofList]⟩
  have hs : Settled (tokens.map String.toList) (spelled order) :=
    settled_spelled (fun s hs ↦ hm s (ho.subset hs)) fun s hs ↦ hv s (ho.subset hs)
  have horder : fillLine order line = .ofList (pieces.flatMap (Piece.filled order)) :=
    congrArg String.ofList (hp.replaceAllFrom ha hs)
  rw [hfill, ← filled_perm (hk ▸ hd) ho, ← horder, ← substituteLine_eq_fillLine ha hs hu]
  rfl

theorem substitute_fills_priceLine :
    ["$type", "$name"] ∈ PrinterSections.tokenLists ∧
    Unbroken (["$type", "$name"].map String.toList) "$names cost $5$type$name each, $typ".toList ∧
    substitute [("$name", "name"), ("$type", "")] ["$names cost $5$type$name each, $typ"] =
      ["names cost $5name each, $typ"] := by
  have hu : Unbroken (["$type", "$name"].map String.toList)
      "$names cost $5$type$name each, $typ".toList := by decide
  obtain ⟨_, -, h⟩ := substitute_fills_pieces (by decide) hu
  refine ⟨by decide, hu, ?_⟩
  rw [(h [("$type", ""), ("$name", "name")] rfl (by decide)).1 _ (.swap _ _ [])]
  decide

end CppAst.Template
