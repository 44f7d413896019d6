import CppAst.Proofs.Comparison.Operators
import CppAst.Proofs.Schema.RoundTrip
import CppAst.Schema.Lookup
import Mathlib.Data.List.Nodup

namespace CppAst

open Node

namespace TypePath

theorem split_cons {c : Char} (h : c ≠ ':') (rest : List Char) :
    split (c :: rest) =
      match split rest with
      | [] => [[c]]
      | part :: parts => (c :: part) :: parts :=
  split.eq_3 c rest fun _ hc _ ↦ h hc

theorem split_part {part : List Char} (h : ':' ∉ part) : split part = [part] := by
  induction part with
  | nil => rfl
  | cons c rest ih =>
    rw [List.mem_cons, not_or] at h
    rw [split_cons (Ne.symm h.1), ih h.2]

theorem split_append {part : List Char} (h : ':' ∉ part) (rest : List Char) :
    split (part ++ ':' :: ':' :: rest) = part :: split rest := by
  induction part with
  | nil => rfl
  | cons c part ih =>
    rw [List.mem_cons, not_or] at h
    rw [List.cons_append, split_cons (Ne.symm h.1), ih h.2]

theorem split_intercalate {parts : List (List Char)} (hne : parts ≠ [])
    (h : ∀ part ∈ parts, ':' ∉ part) : split ([':', ':'].intercalate parts) = parts := by
  induction parts with
  | nil => exact absurd rfl hne
  | cons part rest ih =>
    rw [List.forall_mem_cons] at h
    cases rest with
    | nil => rw [List.intercalate_singleton, split_part h.1]
    | cons next rest =>
      rw [List.intercalate_cons_cons, List.append_assoc, List.cons_append, List.cons_append,
        List.nil_append, split_append h.1, ih (List.cons_ne_nil _ _) h.2]

theorem ofQualified_qualified {path : TypePath} (hne : path.segments ≠ [])
    (h : ∀ segment ∈ path.segments, ':' ∉ segment.toList) :
    ofQualified path.qualified = path := by
  have hs : split ([':', ':'].intercalate (path.segments.map String.toList)) =
      path.segments.map String.toList :=
    split_intercalate (by simpa using hne) (by simpa using h)
  rw [ofQualified, qualified, String.toList_intercalate]
  change (⟨(split ([':', ':'].intercalate _)).map String.ofList⟩ : TypePath) = path
  rw [hs, List.map_map]
  simp [Function.comp_def]

end TypePath

namespace NodeInfo

def ofChain? (parent : TypePath) (chain : List Node) : Option NodeInfo :=
  chain.getLast?.map fun node ↦
    ⟨(⟨parent.segments ++ chain.map Node.name⟩ : TypePath).qualified, node.name, node.parts⟩

theorem ofChain?_cons (parent : TypePath) (node : Node) {chain : List Node} (h : chain ≠ []) :
    ofChain? parent (node :: chain) = ofChain? (parent.child node.name) chain := by
  have hl := List.getLast?_eq_some_getLast h
  simp [ofChain?, List.getLast?_cons, hl, TypePath.child]

theorem collects_infos : Collects ofChain? ofNode ofNodesIn where
  inner parent node _ h := ofChain?_cons parent node h
  node parent node := by
    cases node with
    | struct name nodes fields => rfl
    | enum name elements => exact (List.append_nil _).symm
  nil _ := rfl
  cons _ _ _ := rfl

end NodeInfo

namespace Node

theorem subnodes_distinct {node : Node} (h : node.NamesDistinct) :
    (node.subnodes.map name).Nodup ∧ NamesDistinctIn node.subnodes := by
  cases node with
  | struct _ nodes fields => exact ⟨(List.nodup_append.mp h.1).1, h.2⟩
  | enum _ elements => exact ⟨List.nodup_nil, trivial⟩

theorem findIdx?_name {nodes : List Node} {i : Nat} {node : Node} (hn : (nodes.map name).Nodup)
    (h : nodes[i]? = some node) : nodes.findIdx? (·.name = node.name) = some i := by
  obtain ⟨hi, rfl⟩ := List.getElem?_eq_some_iff.mp h
  refine List.findIdx?_eq_some_iff_getElem.mpr ⟨hi, by simp, fun j hj ↦ ?_⟩
  have hne := List.pairwise_iff_getElem.mp hn j i (by simp; omega) (by simpa) hj
  simpa using hne

/-- The names on the way to a node lead to it where they are not used twice. -/
theorem locate?_names {p : List Nat} {chain nodes : List Node}
    (hn : (nodes.map name).Nodup) (hd : NamesDistinctIn nodes) (h : chain? p nodes = some chain) :
    locate? (chain.map name) nodes = some p := by
  induction p generalizing nodes chain with
  | nil =>
    cases h
    rfl
  | cons i rest ih =>
    obtain ⟨node, inner, hi, hc, rfl⟩ := chain?_cons_eq_some.mp h
    -- The first node of that name is the one on the way, and the names below it are distinct too.
    obtain ⟨hsn, hsd⟩ := subnodes_distinct (namesDistinctIn_iff.mp hd node (List.mem_of_getElem? hi))
    rw [List.map_cons, locate?, findIdx?_name hn hi]
    change (nodes[i]?.bind fun node ↦ _) = _
    rw [hi]
    change ((locate? (inner.map name) node.subnodes).bind fun rest ↦ some (i :: rest)) = _
    rw [ih hsn hsd hc]
    rfl

theorem at?_of_mem_chain {p : List Nat} {chain nodes : List Node} {node : Node}
    (h : chain? p nodes = some chain) (hm : node ∈ chain) : ∃ q, at? nodes q = some node := by
  induction p generalizing nodes chain with
  | nil =>
    cases h
    cases hm
  | cons i rest ih =>
    obtain ⟨first, inner, hi, hc, rfl⟩ := chain?_cons_eq_some.mp h
    rcases List.mem_cons.mp hm with rfl | hm
    · exact ⟨[i], by simp [at?, chain?, hi]⟩
    · obtain ⟨q, hq⟩ := ih hc hm
      obtain ⟨below, hb, hl⟩ := Option.bind_eq_some_iff.mp hq
      exact ⟨i :: q, by simp [at?, chain?, hi, hb, List.getLast?_cons, hl]⟩

theorem forall_at? {nodes : List Node} {P : Node → Prop}
    (h : ∀ w ∈ walkFrom 0 nodes, ∀ node ∈ w.2, P node) :
    ∀ position node, at? nodes position = some node → P node := by
  intro p node ha
  obtain ⟨chain, hc, hl⟩ := Option.bind_eq_some_iff.mp ha
  have hne : p ≠ [] := by
    rintro rfl
    cases hc
    cases hl
  exact h _ (mem_walkFrom_zero.mpr ⟨hne, hc⟩) node (List.mem_of_getLast? hl)

section Resolved

variable {nodes : List Node} {p : List Nat} (hn : (nodes.map name).Nodup)
  (hd : NamesDistinctIn nodes)
  (hc : ∀ q inner, at? nodes q = some inner → ':' ∉ inner.name.toList)
include hn hd hc

theorem locate?_qualified {chain : List Node} {node : Node}
    (h : chain? p nodes = some chain) (hl : chain.getLast? = some node) :
    locate? (TypePath.ofQualified (pathOf chain).qualified).segments nodes = some p := by
  have hne : chain ≠ [] := by
    rintro rfl
    cases hl
  have hsegments : ∀ segment ∈ (pathOf chain).segments, ':' ∉ segment.toList := by
    intro segment hs
    obtain ⟨inner, hi, rfl⟩ := List.mem_map.mp hs
    obtain ⟨q, hq⟩ := at?_of_mem_chain h hi
    exact hc q inner hq
  rw [TypePath.ofQualified_qualified (by simpa [pathOf] using hne) hsegments]
  exact locate?_names hn hd h

theorem locate?_info {info : NodeInfo}
    (h : (chain? p nodes).bind (NodeInfo.ofChain? .root) = some info) :
    locate? (TypePath.ofQualified info.type).segments nodes = some p ∧
      ∃ node, at? nodes p = some node ∧ info.Describes node := by
  obtain ⟨chain, hp, hi⟩ := Option.bind_eq_some_iff.mp h
  obtain ⟨node, hl, rfl⟩ := Option.map_eq_some_iff.mp hi
  refine ⟨locate?_qualified hn hd hc hp hl, node, ?_, rfl, rfl⟩
  rw [at?, hp, Option.bind_some, hl]

theorem locate?_struct {t : TypePath × List Field} (h : structAt? nodes p = some t) :
    locate? (TypePath.ofQualified t.1.qualified).segments nodes = some p := by
  obtain ⟨chain, hp, ht⟩ := Option.bind_eq_some_iff.mp h
  unfold structOf? at ht
  split at ht
  case h_1 name subnodes fields hl =>
    cases ht
    exact locate?_qualified hn hd hc hp hl
  all_goals cases ht

end Resolved

theorem forall₂_of_map_some {α β : Type} {f : α → Option β} {as : List α} {bs : List β}
    (h : bs.map some = as.map f) : List.Forall₂ (fun a b ↦ f a = some b) as bs := by
  have he : List.Forall₂ Eq (as.map f) (bs.map some) := List.forall₂_eq_eq_eq ▸ h.symm
  rwa [List.forall₂_map_left_iff, List.forall₂_map_right_iff] at he

/-- Things at different positions have different names if the names lead back to the positions. -/
theorem nodup_of_locate? {α : Type} {nodes : List Node} {xs : List α} {positions : List (List Nat)}
    {key : α → String} (hs : positions.Pairwise (· < ·))
    (hl : List.Forall₂ (fun p x ↦
      locate? (TypePath.ofQualified (key x)).segments nodes = some p) positions xs) :
    (xs.map key).Nodup := by
  -- Locating the names gives the positions back, and these are in order.
  have he : positions.map some =
      (xs.map key).map fun text ↦ locate? (TypePath.ofQualified text).segments nodes := by
    rw [List.map_map, ← List.forall₂_eq_eq_eq, List.forall₂_map_left_iff,
      List.forall₂_map_right_iff]
    exact hl.imp fun _ _ h ↦ h.symm
  have hn : positions.Nodup := List.Pairwise.imp (fun hlt he ↦ by
    subst he
    exact List.lt_irrefl _ hlt) hs
  exact List.Nodup.of_map _ (he ▸ hn.map fun _ _ h ↦ Option.some_inj.mp h)

end Node

namespace Comparison

variable (op : Comparison)

def mark (fields : List Field) : String := if fields.isEmpty then "[[maybe_unused]] " else ""

theorem signature_eq (path : TypePath) (fields : List Field) :
    op.signature path fields =
      "bool operator" ++ op.operator ++ "(" ++ mark fields ++ "const " ++ path.qualified ++ "& l, " ++
        mark fields ++ "const " ++ path.qualified ++ "& r)" := rfl

theorem mark_of_append {fields fields' : List Field} {rest rest' : List Char}
    (h : (mark fields).toList ++ ("const ".toList ++ rest) =
      (mark fields').toList ++ ("const ".toList ++ rest')) : mark fields = mark fields' := by
  have hh := congrArg List.head? h
  unfold mark at hh ⊢
  generalize fields.isEmpty = empty at hh ⊢
  generalize fields'.isEmpty = empty' at hh ⊢
  cases empty <;> cases empty' <;> simp at hh ⊢

/-- In a text with two operands of one type, the type can be told if the marks before it can. -/
theorem type_of_operands {before mark mark' word type type' between after : String}
    (h : before ++ mark ++ word ++ type ++ between ++ mark ++ word ++ type ++ after =
      before ++ mark' ++ word ++ type' ++ between ++ mark' ++ word ++ type' ++ after)
    (hm : ∀ {rest rest' : List Char}, mark.toList ++ (word.toList ++ rest) =
      mark'.toList ++ (word.toList ++ rest') → mark = mark') : type = type' := by
  have hl := congrArg String.toList h
  simp only [String.toList_append, List.append_assoc, List.append_cancel_left_eq] at hl
  obtain rfl := hm hl
  simp only [List.append_cancel_left_eq] at hl
  -- The type stands twice and the rest is the same, so that both types have one length.
  have hlen := congrArg List.length hl
  simp only [List.length_append] at hlen
  exact String.toList_inj.mp (List.append_inj_left hl (by omega))

theorem qualified_of_signature {path path' : TypePath} {fields fields' : List Field}
    (h : op.signature path fields = op.signature path' fields') :
    path.qualified = path'.qualified := by
  rw [signature_eq, signature_eq] at h
  exact type_of_operands h mark_of_append

end Comparison

namespace Schema

/-- The qualified names of a schema's types are different, and each leads from the first level of
the tree to the node that it was told of. Every node is told of once and before those in it, and no
operator is emitted twice. -/
theorem type_names_resolve {d : Document} {s : Schema} (hk : d.KeysDistinct)
    (h : ofDocument d = .ok s)
    (hc : ∀ position node, Node.at? s.ast position = some node → ':' ∉ node.name.toList) :
    ((NodeInfo.ofNodes s.ast).map NodeInfo.type).Nodup ∧
    (∃ positions : List (List Nat), positions.Pairwise (· < ·) ∧
      (∀ position, position ∈ positions ↔ (Node.at? s.ast position).isSome) ∧
      List.Forall₂ (fun position info ↦
        Node.locate? (TypePath.ofQualified info.type).segments s.ast = some position ∧
          ∃ node, Node.at? s.ast position = some node ∧ info.Describes node)
        positions (NodeInfo.ofNodes s.ast)) ∧
    ∀ op : Comparison, (op.signatures s.ast).Nodup ∧
      op.prototypes s.ast = (op.signatures s.ast).map (fun signature ↦ .line s!"{signature};") ∧
      op.definitions s.ast =
        List.zipWith (fun signature body ↦ .block s!"{signature} \x7b" "\x7d" [.line body])
          (op.signatures s.ast) (op.bodies s.ast) := by
  have hw := wellFormed_of_ofDocument hk h
  obtain ⟨positions, hs, hmem, hx⟩ := NodeInfo.collects_infos.exists_positions rfl s.ast
  have hinfos := (forall₂_of_map_some hx).imp fun p info hp ↦
    locate?_info hw.names hw.inner hc hp
  refine ⟨nodup_of_locate? hs (hinfos.imp fun _ _ hp ↦ hp.1), ⟨positions, hs, fun p ↦ ?_, hinfos⟩,
    fun op ↦ ⟨?_, op.prototypes_eq s.ast, op.definitions_eq s.ast⟩⟩
  · rw [hmem p, Node.at?]
    cases chain? p s.ast <;> simp [NodeInfo.ofChain?]
  · obtain ⟨positions, hs, -, hx⟩ := Comparison.structsIn_root s.ast
    have htypes : ((Comparison.structsIn .root s.ast).map fun t ↦ t.1.qualified).Nodup :=
      nodup_of_locate? hs ((forall₂_of_map_some hx).imp fun p t hp ↦
        locate?_struct hw.names hw.inner hc hp)
    rw [List.Nodup, List.pairwise_map] at htypes
    rw [List.Nodup, Comparison.signatures, List.pairwise_map]
    exact htypes.imp fun hne he ↦ hne (op.qualified_of_signature he)

theorem type_names_of_sample :
    sampleDocument.KeysDistinct ∧ ofDocument sampleDocument = .ok sample ∧
    (∀ position node, Node.at? sample.ast position = some node → ':' ∉ node.name.toList) ∧
    ((NodeInfo.ofNodes sample.ast).map NodeInfo.type).Nodup ∧
    ∀ op : Comparison, (op.signatures sample.ast).Nodup ∧
      op.prototypes sample.ast =
        (op.signatures sample.ast).map (fun signature ↦ .line s!"{signature};") := by
  have hk : sampleDocument.KeysDistinct := by decide
  have hc : ∀ w ∈ walkFrom 0 sample.ast, ∀ node ∈ w.2, ':' ∉ node.name.toList := by decide
  have h := type_names_resolve hk rfl (Node.forall_at? hc)
  exact ⟨hk, rfl, Node.forall_at? hc, h.1, fun op ↦ ⟨(h.2.2 op).1, (h.2.2 op).2.1⟩⟩

end Schema
end CppAst
