import CppAst.Proofs.Printer.Markers
import CppAst.Proofs.Printer.Simultaneous
import CppAst.Proofs.Printer.TypeNames

namespace CppAst

namespace Text

theorem trimStart_append {blanks : List Char} (hb : ∀ c ∈ blanks, isBlank c) {c : Char}
    (hc : ¬ isBlank c) (rest : List Char) : trimStart (blanks ++ c :: rest) = c :: rest := by
  rw [trimStart, List.dropWhile_append_of_pos hb, List.dropWhile_cons_of_neg hc]

theorem head?_trim (text : List Char) : (trim text).head? = (trimStart text).head? := by
  rw [trim]
  cases h : trimStart text with
  | nil => rfl
  | cons c rest =>
    have hc : ¬ isBlank c := by
      have hd := List.head?_dropWhile_not isBlank text
      rw [trimStart] at h
      simpa [h] using hd
    rw [trimStart, List.reverse_cons, List.dropWhile_append]
    split
    · rw [List.dropWhile_cons_of_neg hc]
      rfl
    · rw [List.reverse_append]
      rfl

theorem exists_trimStart {text : List Char} {c : Char} (h : c ∈ text) (hc : ¬ isBlank c) :
    ∃ blanks d rest, text = blanks ++ d :: rest ∧ (∀ b ∈ blanks, isBlank b) ∧ ¬ isBlank d := by
  have hb : ∀ b ∈ text.takeWhile isBlank, isBlank b := fun b hm ↦ List.mem_takeWhile_imp hm
  cases hr : text.dropWhile isBlank with
  | nil =>
    have hall := List.dropWhile_eq_nil_iff.mp hr
    exact absurd (hall c h) hc
  | cons d rest =>
    have hd := List.head?_dropWhile_not isBlank text
    refine ⟨text.takeWhile isBlank, d, rest, ?_, hb, by simpa [hr] using hd⟩
    rw [← hr, List.takeWhile_append_dropWhile]

end Text

namespace Template

open Text

variable {tokens : List String} {substitutions : List (String × String)} {line : String}

def Fits (tokens : List String) (substitutions : List (String × String)) : Prop :=
  ∀ s ∈ substitutions, s.1 ∈ tokens ∧ Inert s.2

theorem Fits.settled (h : Fits tokens substitutions) :
    Settled (tokens.map String.toList) (spelled substitutions) :=
  settled_spelled (fun s hs ↦ (h s hs).1) fun s hs hd ↦ ((h s hs).2.2 '$' hd).2.1 rfl

section Line

variable (ha : Apart (tokens.map String.toList)) (hf : Fits tokens substitutions)
include ha hf

theorem replaceAllFrom_head {c : Char} (hc : ¬ isBlank c) (hn : c ≠ '#') (rest : List Char) :
    ∃ d rest', replaceAllFrom (spelled substitutions) 0 (c :: rest) = d :: rest' ∧
      ¬ isBlank d ∧ d ≠ '#' := by
  by_cases hbegins : ∃ token ∈ tokens.map String.toList, token <+: c :: rest
  · obtain ⟨token, hm, after, he⟩ := hbegins
    rw [← he, replaceAllFrom_token ha hf.settled hm]
    cases hl : (spelled substitutions).lookup token with
    | none =>
      obtain ⟨letters, rfl, -⟩ := ha.eq_cons hm
      exact ⟨'$', _, rfl, by decide, by decide⟩
    | some value =>
      obtain ⟨before, after', hs, -⟩ := List.lookup_eq_some_iff.mp hl
      have hv : (token, value) ∈ spelled substitutions := by simp [hs]
      obtain ⟨s, hsm, hsv⟩ := List.mem_map.mp hv
      obtain ⟨rfl, rfl⟩ := Prod.mk.inj hsv
      obtain ⟨hne, hchars⟩ := (hf s hsm).2
      obtain ⟨d, value, hd⟩ := List.exists_cons_of_ne_nil (mt String.toList_eq_nil_iff.mp hne)
      have hinert := hchars d (by simp [hd])
      exact ⟨d, _, by rw [hd]; rfl, hinert.1, hinert.2.2⟩
  · have hstays : ∀ s ∈ spelled substitutions, ¬ s.1 <+: c :: rest :=
      fun s hs hp ↦ hbegins ⟨s.1, (hf.settled s hs).1, hp⟩
    exact ⟨c, _, replaceAllFrom_cons hstays, hc, hn⟩

/-- The replacement makes no line a marker and takes no marker away. -/
theorem isMarker_fillLine (hc : (trim line.toList).head? = some '#' → '$' ∉ line.toList)
    (name : String) : isMarker name (fillLine substitutions line) = isMarker name line := by
  by_cases hd : '$' ∈ line.toList
  · -- Neither of the two starts with the sign of a marker.
    have hother {text : String} (h : (trimStart text.toList).head? ≠ some '#') :
        isMarker name text = false := by
      rw [isMarker, decide_eq_false_iff_not]
      intro he
      rw [← head?_trim, he] at h
      exact h rfl
    have hnot : (trimStart line.toList).head? ≠ some '#' := fun h ↦ hc (head?_trim _ ▸ h) hd
    obtain ⟨blanks, c, rest, hl, hb, hnb⟩ := exists_trimStart hd (by decide)
    have hcn : c ≠ '#' := by
      rintro rfl
      rw [hl, trimStart_append hb hnb] at hnot
      exact hnot rfl
    have hblanks : '$' ∉ blanks := fun hm ↦ absurd (hb '$' hm) (by decide)
    obtain ⟨d, rest', hr, hdb, hdn⟩ := replaceAllFrom_head ha hf hnb hcn rest
    rw [hother hnot, hother]
    rw [fillLine, String.toList_ofList, hl, replaceAllFrom_append ha hf.settled hblanks, hr,
      trimStart_append hb hdb]
    simpa using hdn
  · rw [fillLine, replaceAllFrom_eq_self ha hf.settled hd, String.ofList_toList]

end Line

section Lines

variable {lines : List String} (ha : Apart (tokens.map String.toList))
  (hf : Fits tokens substitutions) (hc : Clear tokens lines)
include ha hf hc

theorem substitute_eq_fill : substitute substitutions lines = fill substitutions lines :=
  List.map_congr_left fun line hl ↦ substituteLine_eq_fillLine ha hf.settled (hc line hl).1

theorem expand_substitute (name : String) (content : List String) :
    expand [⟨name, content⟩] (substitute substitutions lines) =
      fillAround ("#" ++ name) content substitutions lines := by
  rw [expand, substitute, List.flatMap_map, fillAround]
  refine List.flatMap_congr fun line hl ↦ ?_
  rw [substituteLine_eq_fillLine ha hf.settled (hc line hl).1, expandLine_cons,
    isMarker_fillLine ha hf (hc line hl).2]
  exact if_congr isMarker_iff rfl rfl

end Lines

end Template

section Names

theorem forall_mem_intercalate {α : Type} {P : α → Prop} {separator : List α} {parts : List (List α)}
    (hs : ∀ a ∈ separator, P a) (h : ∀ part ∈ parts, ∀ a ∈ part, P a) :
    ∀ a ∈ separator.intercalate parts, P a := by
  induction parts with
  | nil => simp
  | cons part rest ih =>
    rw [List.forall_mem_cons] at h
    cases rest with
    | nil => simpa using h.1
    | cons next rest =>
      rw [List.intercalate_cons_cons]
      simp only [List.forall_mem_append]
      exact ⟨⟨h.1, hs⟩, ih h.2⟩

theorem Template.inert_of_identifier {name : String} (hne : name ≠ "")
    (h : ∀ c ∈ name.toList, c.isAlphanum ∨ c = '_') : Inert name := by
  refine ⟨hne, fun c hc ↦ ?_⟩
  rcases h c hc with ha | rfl
  · -- Letters and digits lie in ranges of their own.
    have hr : 65 ≤ c.toNat ∧ c.toNat ≤ 90 ∨ 97 ≤ c.toNat ∧ c.toNat ≤ 122 ∨
        48 ≤ c.toNat ∧ c.toNat ≤ 57 := by
      change (decide (65 ≤ c.val ∧ c.val ≤ 90) || (decide (97 ≤ c.val) && decide (c.val ≤ 122)) ||
        (decide (48 ≤ c.val) && decide (c.val ≤ 57))) = true at ha
      simpa [or_assoc, UInt32.le_iff_toNat_le] using ha
    refine ⟨?_, ?_, ?_⟩
    · simp only [Text.isBlank, Bool.or_eq_true, Bool.and_eq_true, decide_eq_true_eq]
      omega
    · rintro rfl
      simp at hr
    · rintro rfl
      simp at hr
  · decide

theorem Template.inert_qualified {path : TypePath} (hne : path.segments ≠ [])
    (h : ∀ segment ∈ path.segments, Inert segment) : Inert path.qualified := by
  have hl : path.qualified.toList = [':', ':'].intercalate (path.segments.map String.toList) := by
    rw [TypePath.qualified, String.toList_intercalate]
    rfl
  constructor
  · obtain ⟨first, rest, hs⟩ := List.exists_cons_of_ne_nil hne
    have hfirst : first ≠ "" := (h first (by simp [hs])).1
    rw [ne_eq, ← String.toList_eq_nil_iff, hl, hs]
    cases rest with
    | nil => simpa using hfirst
    | cons next rest => simp
  · have hcolon : ¬ Text.isBlank ':' ∧ ':' ≠ '$' ∧ ':' ≠ '#' := by decide
    rw [hl]
    refine forall_mem_intercalate
      (List.forall_mem_cons.mpr ⟨hcolon, List.forall_mem_singleton.mpr hcolon⟩) ?_
    exact List.forall_mem_map.mpr fun segment hs ↦ (h segment hs).2

end Names

namespace Node

theorem ofNodes_eq (nodes : List Node) :
    NodeInfo.ofNodes nodes = (preorder nodes).map fun (path, node) ↦
      ⟨path.qualified, node.name, node.parts⟩ := by
  rw [NodeInfo.ofNodes, NodeInfo.collects_infos.eq_filterMap_walkFrom .root 0 nodes, preorder,
    List.map_filterMap]
  refine List.filterMap_congr fun w _ ↦ ?_
  rw [NodeInfo.ofChain?, Option.map_map]
  rfl

theorem Inert.name {node : Node} (h : node.Inert) : Template.Inert node.name :=
  h _ List.mem_cons_self

theorem Inert.part {node : Node} (h : node.Inert) {name : String} (hn : name ∈ node.parts.names) :
    Template.Inert name :=
  h _ (List.mem_cons_of_mem _ hn)

theorem inert_of_mem_preorder {nodes : List Node} {path : TypePath} {node : Node}
    (h : (path, node) ∈ preorder nodes)
    (hi : ∀ position node, at? nodes position = some node → node.Inert) :
    node.Inert ∧ Template.Inert path.qualified := by
  obtain ⟨⟨position, chain⟩, hw, he⟩ := List.mem_filterMap.mp h
  obtain ⟨last, hl, he⟩ := Option.map_eq_some_iff.mp he
  obtain ⟨rfl, rfl⟩ := Prod.mk.inj he
  have hc := (mem_walkFrom_zero.mp hw).2
  refine ⟨hi position last (by rw [at?, hc]; exact hl), Template.inert_qualified ?_ ?_⟩
  · simpa using chain_ne_nil hw
  · intro segment hs
    obtain ⟨inner, hm, rfl⟩ := List.mem_map.mp hs
    obtain ⟨q, hq⟩ := at?_of_mem_chain hc hm
    exact (hi q inner hq).name

end Node

namespace PrinterSections

open Template

section Fragments

variable {sections : PrinterSections} (hc : sections.Clear) {type : String} (ht : Inert type)
include hc ht

theorem declarationOf_eq (name : String) (parts : NodeParts) :
    sections.declarationOf ⟨type, name, parts⟩ = sections.declarationFragment type := by
  refine substitute_eq_fill (by decide) ?_ hc.declaration
  simpa [Fits] using ht

omit ht in
theorem fieldOf_eq {name : String} (hn : Inert name) :
    sections.fieldOf name = fill [("$field_name", name)] sections.field := by
  refine substitute_eq_fill (by decide) ?_ hc.field
  simpa [Fits] using hn

theorem caseOf_eq {name element : String} {parts : NodeParts} (hn : Inert name)
    (he : Inert element) :
    sections.caseOf ⟨type, name, parts⟩ element =
      fill [("$type", type), ("$name", name), ("$variant", element)]
        sections.definitionEnumCase := by
  refine substitute_eq_fill (by decide) ?_ hc.definitionEnumCase
  simpa [Fits] using ⟨ht, hn, he⟩

theorem definitionOf_eq {node : Node} (hn : node.Inert) :
    sections.definitionOf ⟨type, node.name, node.parts⟩ =
      sections.definitionFragment type node := by
  have hnames : Fits ["$type", "$name"] [("$type", type), ("$name", node.name)] := by
    simpa [Fits] using ⟨ht, hn.name⟩
  cases node with
  | enum name elements =>
    have hcases : elements.flatMap (sections.caseOf ⟨type, name, .enum elements⟩) = _ :=
      List.flatMap_congr fun element he ↦ caseOf_eq hc ht hn.name (hn.part he)
    rw [definitionFragment, ← hcases]
    exact expand_substitute (by decide) hnames hc.definitionEnum _ _
  | struct name subnodes fields =>
    cases fields with
    | nil => exact substitute_eq_fill (by decide) hnames hc.definitionEmpty
    | cons f fields =>
      have hfields : (f :: fields).flatMap (fun f ↦ sections.fieldOf f.name) = _ :=
        List.flatMap_congr fun g hg ↦ fieldOf_eq hc (hn.part (List.mem_map_of_mem hg))
      rw [definitionFragment, ← hfields, ← List.flatMap_map]
      · exact expand_substitute (by decide) hnames hc.definition _ _
      · exact nofun

end Fragments

/-- Where the names in a tree are inert and the sections keep tokens and markers apart, the printer
that is compiled for the tree is the expansion of the template. -/
theorem compile_eq_expansion {sections : PrinterSections} {nodes : List Node}
    (hn : ∀ position node, Node.at? nodes position = some node → node.Inert)
    (hc : sections.Clear) :
    sections.compile (NodeInfo.ofNodes nodes) = sections.expansion nodes := by
  have hinert {entry : TypePath × Node} (he : entry ∈ Node.preorder nodes) :=
    Node.inert_of_mem_preorder he hn
  have hdeclarations : (NodeInfo.ofNodes nodes).flatMap sections.declarationOf =
      (Node.preorder nodes).flatMap fun (path, _) ↦
        sections.declarationFragment path.qualified := by
    rw [Node.ofNodes_eq, List.flatMap_map]
    exact List.flatMap_congr fun entry he ↦ declarationOf_eq hc (hinert he).2 _ _
  have hdefinitions : (NodeInfo.ofNodes nodes).flatMap sections.definitionOf =
      (Node.preorder nodes).flatMap fun (path, node) ↦
        sections.definitionFragment path.qualified node := by
    rw [Node.ofNodes_eq, List.flatMap_map]
    exact List.flatMap_congr fun entry he ↦ definitionOf_eq hc (hinert he).2 (hinert he).1
  rw [compile, expand, expansion, hdeclarations, hdefinitions]
  refine List.flatMap_congr fun line _ ↦ ?_
  rw [expandLine_cons, expandLine_cons]
  exact if_congr isMarker_iff rfl (if_congr isMarker_iff rfl rfl)

/-- Lines with all that looks like a token or a marker but is none. -/
def busySections : PrinterSections where
  template := ["// begin", " #declarations\t", "#definitions // all", "#definitions"]
  declaration := ["#definitions", "void print(const $type&);"]
  definition := ["$names cost $5 in $type", "  #fields", "#fields;"]
  definitionEnum := ["$name#definition_enum_cases", "#definition_enum_cases", "$variant"]
  definitionEnumCase := ["case $type::$variant: // $name"]
  definitionEmpty := ["#fields", "$type#fields"]
  field := ["#fields", "print(n.$field_name);"]

def busyNodes : List Node :=
  [.struct "type" [.enum "name" ["variant", "fields"], .struct "fields" [] []]
    [⟨"name", "int"⟩, ⟨"field_name", "int"⟩]]

theorem compile_busySections :
    (∀ position node, Node.at? busyNodes position = some node → node.Inert) ∧
    busySections.Clear ∧
    busySections.compile (NodeInfo.ofNodes busyNodes) =
      ["// begin",
        "#definitions", "void print(const type&);",
        "#definitions", "void print(const type::name&);",
        "#definitions", "void print(const type::fields&);",
        "#definitions // all",
        "types cost $5 in type", "#fields", "print(n.name);", "#fields", "print(n.field_name);",
        "#fields;",
        "name#definition_enum_cases",
        "case type::name::variant: // name", "case type::name::fields: // name", "$variant",
        "#fields", "type::fields#fields"] := by
  have hn : ∀ position node, Node.at? busyNodes position = some node → node.Inert := by
    have hi : ∀ w ∈ Node.walkFrom 0 busyNodes, ∀ node ∈ w.2, ∀ name ∈ node.name :: node.parts.names,
        name ≠ "" ∧ name.toList.all (fun c ↦ c.isAlphanum || c = '_') = true := by decide
    refine Node.forall_at? fun w hw node hm name hname ↦ ?_
    obtain ⟨hne, hall⟩ := hi w hw node hm name hname
    exact inert_of_identifier hne (by simpa using hall)
  have hc : busySections.Clear :=
    ⟨by decide, by decide, by decide, by decide, by decide, by decide⟩
  refine ⟨hn, hc, ?_⟩
  rw [compile_eq_expansion hn hc]
  decide

end PrinterSections

end CppAst
