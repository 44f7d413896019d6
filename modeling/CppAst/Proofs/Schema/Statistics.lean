import CppAst.Proofs.Printer.TypeNames
import CppAst.Schema.Statistics

namespace CppAst

open Node

namespace NodeInfo

theorem struct?_ofChain? (parent : TypePath) (chain : List Node) :
    (ofChain? parent chain).bind struct? =
      (structOf? parent chain).map fun s ↦ (s.1.qualified, s.2.map Field.name) := by
  unfold ofChain? structOf?
  cases h : chain.getLast? with
  | none => rfl
  | some node => cases node <;> rfl

theorem filterMap_struct? (parent : TypePath) (nodes : List Node) :
    (ofNodesIn parent nodes).filterMap struct? =
      (Comparison.structsIn parent nodes).map fun s ↦ (s.1.qualified, s.2.map Field.name) := by
  rw [collects_infos.eq_filterMap_walkFrom parent 0,
    Comparison.collects_structs.eq_filterMap_walkFrom parent 0, List.filterMap_filterMap,
    List.map_filterMap]
  exact List.filterMap_congr fun w _ ↦ struct?_ofChain? parent w.2

theorem map_type (nodes : List Node) :
    (ofNodes nodes).map type = (walkFrom 0 nodes).map fun w ↦ (pathOf w.2).qualified := by
  rw [ofNodes, collects_infos.eq_filterMap_walkFrom .root 0, List.map_filterMap,
    ← List.filterMap_eq_map]
  refine List.filterMap_congr fun w hw ↦ ?_
  have hl := List.getLast?_eq_some_getLast (chain_ne_nil hw)
  simp [ofChain?, hl, TypePath.root, pathOf]

end NodeInfo

namespace Statistics

open NodeInfo

mutual

/-- What is collected from a node is its sum. Since the nodes around it have been counted, no depth
up to its own is new. -/
theorem collect_eq {depth : Nat} {stats : Statistics} (h : depth ≤ stats.maxDepth) :
    ∀ node : Node, collect (depth + 1) stats node = stats.add ((ofNode node).below depth)
  | .struct own subnodes fields => by
    rw [collect, collectAll_eq (Nat.le_max_right _ _) subnodes, ofNode]
    simp only [add, below, mk.injEq, true_and]
    omega
  | .enum own elements => by
    simp only [collect, ofNode, add, below, mk.injEq, true_and, and_true]
    omega

theorem collectAll_eq {depth : Nat} {stats : Statistics} (h : depth ≤ stats.maxDepth) :
    ∀ nodes : List Node, collectAll (depth + 1) stats nodes = stats.add ((ofNodes nodes).below depth)
  | [] => by
    simp only [collectAll, ofNodes, add, below, Nat.add_zero]
    rw [Nat.max_eq_left h]
  | node :: rest => by
    have hn := collect_eq h node
    have hle : depth ≤ (collect (depth + 1) stats node).maxDepth := by
      rw [hn]
      exact Nat.le_trans h (Nat.le_max_left _ _)
    rw [collectAll, collectAll_eq hle rest, hn, ofNodes]
    simp only [add, below, mk.injEq]
    omega

end

mutual

theorem topLevel_ofNode : ∀ node : Node, (ofNode node).topLevel = 0
  | .struct _ subnodes _ => topLevel_ofNodes subnodes
  | .enum .. => rfl

theorem topLevel_ofNodes : ∀ nodes : List Node, (ofNodes nodes).topLevel = 0
  | [] => rfl
  | node :: rest => by rw [ofNodes, add, topLevel_ofNode node, topLevel_ofNodes rest]

end

theorem ofTree_eq (nodes : List Node) :
    ofTree nodes = { ofNodes nodes with topLevel := nodes.length } := by
  rw [ofTree, collectAll_eq (Nat.le_refl 0) nodes]
  simp only [add, below, mk.injEq]
  have ht := topLevel_ofNodes nodes
  omega

structure Counts (s : Statistics) (infos : List NodeInfo) : Prop where
  structs : s.structs = (infos.filterMap struct?).length
  enums : s.enums = (infos.filterMap elements?).length
  fields : s.fields = ((infos.filterMap struct?).flatMap Prod.snd).length
  elements : s.elements = (infos.filterMap elements?).flatten.length

theorem Counts.add {s s' : Statistics} {infos infos' : List NodeInfo} (h : s.Counts infos)
    (h' : s'.Counts infos') : (s.add s').Counts (infos ++ infos') where
  structs := by simp [Statistics.add, h.structs, h'.structs]
  enums := by simp [Statistics.add, h.enums, h'.enums]
  fields := by simp [Statistics.add, h.fields, h'.fields]
  elements := by simp [Statistics.add, h.elements, h'.elements]

mutual

theorem counts_ofNode (parent : TypePath) : ∀ node : Node,
    (ofNode node).Counts (NodeInfo.ofNode parent node)
  | .struct own subnodes fields => by
    have h := counts_ofNodes (parent.child own) subnodes
    exact
      { structs := by simp [ofNode, NodeInfo.ofNode, struct?, h.structs]
        enums := by simp [ofNode, NodeInfo.ofNode, List.filterMap_cons, elements?, h.enums]
        fields := by simp [ofNode, NodeInfo.ofNode, struct?, h.fields, Nat.add_comm]
        elements := by simp [ofNode, NodeInfo.ofNode, List.filterMap_cons, elements?, h.elements] }
  | .enum own elements => by
    constructor <;> simp [ofNode, NodeInfo.ofNode, List.filterMap_cons, struct?, elements?]

theorem counts_ofNodes (parent : TypePath) : ∀ nodes : List Node,
    (ofNodes nodes).Counts (ofNodesIn parent nodes)
  | [] => by constructor <;> rfl
  | node :: rest => (counts_ofNode parent node).add (counts_ofNodes parent rest)

end

theorem maxDepth_ofNode (node : Node) :
    (ofNode node).maxDepth = (ofNodes node.subnodes).maxDepth + 1 := by
  cases node <;> rfl

theorem maxDepth_le_of_mem {node : Node} {nodes : List Node} (h : node ∈ nodes) :
    (ofNode node).maxDepth ≤ (ofNodes nodes).maxDepth := by
  induction nodes with
  | nil => cases h
  | cons first rest ih =>
    rw [ofNodes, add]
    rcases List.mem_cons.mp h with rfl | hr
    · exact Nat.le_max_left _ _
    · exact Nat.le_trans (ih hr) (Nat.le_max_right _ _)

theorem length_le_maxDepth {position : List Nat} {nodes chain : List Node}
    (h : chain? position nodes = some chain) : chain.length ≤ (ofNodes nodes).maxDepth := by
  induction position generalizing nodes chain with
  | nil =>
    cases h
    exact Nat.zero_le _
  | cons i rest ih =>
    obtain ⟨node, inner, hi, hc, rfl⟩ := chain?_cons_eq_some.mp h
    have hin := ih hc
    have hle := maxDepth_le_of_mem (List.mem_of_getElem? hi)
    rw [maxDepth_ofNode] at hle
    rw [List.length_cons]
    omega

mutual

theorem exists_deepest_below : ∀ node : Node, ∃ position chain,
    chain? position node.subnodes = some chain ∧ chain.length + 1 = (ofNode node).maxDepth
  | .struct own nodes fields => by
    obtain ⟨position, chain, hc, hl⟩ := exists_deepest nodes
    exact ⟨position, chain, hc, by rw [hl, maxDepth_ofNode, subnodes]⟩
  | .enum own elements => ⟨[], [], rfl, rfl⟩

theorem exists_deepest : ∀ nodes : List Node, ∃ position chain,
    chain? position nodes = some chain ∧ chain.length = (ofNodes nodes).maxDepth
  | [] => ⟨[], [], rfl, rfl⟩
  | node :: rest => by
    have hm : (ofNodes (node :: rest)).maxDepth =
        max (ofNode node).maxDepth (ofNodes rest).maxDepth := rfl
    rcases Nat.le_total (ofNodes rest).maxDepth (ofNode node).maxDepth with hle | hle
    · obtain ⟨position, chain, hc, hl⟩ := exists_deepest_below node
      refine ⟨0 :: position, node :: chain, ?_, ?_⟩
      · rw [chain?_zero, hc, Option.map_some]
      · rw [List.length_cons, hl, hm, Nat.max_eq_left hle]
    · obtain ⟨position, chain, hc, hl⟩ := exists_deepest rest
      rw [hm, Nat.max_eq_right hle, ← hl]
      cases position with
      | nil =>
        cases hc
        exact ⟨[], [], rfl, rfl⟩
      | cons i position => exact ⟨(i + 1) :: position, chain, by rw [chain?_succ, hc], rfl⟩

end

theorem maxDepth_eq_zero {nodes : List Node} : (ofNodes nodes).maxDepth = 0 ↔ nodes = [] := by
  cases nodes with
  | nil => exact ⟨fun _ ↦ rfl, fun _ ↦ rfl⟩
  | cons node rest =>
    have h := maxDepth_le_of_mem (List.mem_cons_self : node ∈ node :: rest)
    rw [maxDepth_ofNode] at h
    simp only [reduceCtorEq, iff_false]
    omega

end Statistics

/-- The structs to be compared are those that the printer is told of, with the same types and fields
in the same order. The counts of a tree are those of the nodes told of, and of the prototypes in the
header and the definitions in the source file. Its depth is the largest number of segments in the
path of a node, and zero if there is none. -/
theorem walks_agree (schema : Schema) (options : GeneratorOptions) :
    let counts := Statistics.ofTree schema.ast
    let infos := NodeInfo.ofNodes schema.ast
    let prototypes (op : Comparison) :=
      (op.signatures schema.ast).map (Comparison.prototypeText options.indent 1)
    let definitions (op : Comparison) :=
      List.zipWith (Comparison.definitionText options.indent 1)
        (op.signatures schema.ast) (op.bodies schema.ast)
    ((Comparison.structsIn .root schema.ast).map fun s ↦ (s.1.qualified, s.2.map Field.name)) =
      infos.filterMap NodeInfo.struct? ∧
    counts.topLevel = schema.ast.length ∧
    counts.structs = (infos.filterMap NodeInfo.struct?).length ∧
    counts.structs = (prototypes .equal).length ∧
    CodeUnit.header.render schema options =
      CodeUnit.header.opening schema options ++
        (String.join (prototypes .equal) ++ String.join (prototypes .notEqual)) ++
        CodeUnit.header.closing schema options ∧
    counts.structs = (definitions .notEqual).length ∧
    CodeUnit.source.render schema options =
      CodeUnit.source.opening schema options ++
        (String.join (definitions .equal) ++ String.join (definitions .notEqual)) ++
        CodeUnit.source.closing schema options ∧
    counts.enums = (infos.filterMap NodeInfo.elements?).length ∧
    counts.fields = ((infos.filterMap NodeInfo.struct?).flatMap Prod.snd).length ∧
    counts.elements = (infos.filterMap NodeInfo.elements?).flatten.length ∧
    infos.map NodeInfo.type = (walkFrom 0 schema.ast).map (fun w ↦ (pathOf w.2).qualified) ∧
    (∀ position chain, chain? position schema.ast = some chain →
      (pathOf chain).segments.length ≤ counts.maxDepth) ∧
    (∃ position chain, chain? position schema.ast = some chain ∧
      (pathOf chain).segments.length = counts.maxDepth) ∧
    (counts.maxDepth = 0 ↔ schema.ast = []) := by
  intro counts infos prototypes definitions
  have hc : counts = { Statistics.ofNodes schema.ast with topLevel := schema.ast.length } :=
    Statistics.ofTree_eq schema.ast
  have hstructs := NodeInfo.filterMap_struct? .root schema.ast
  have hcounts := Statistics.counts_ofNodes .root schema.ast
  have hlength : counts.structs = (Comparison.structsIn .root schema.ast).length := by
    rw [← List.length_map, ← hstructs, hc]
    exact hcounts.structs
  have hsegments (chain : List Node) : (pathOf chain).segments.length = chain.length :=
    List.length_map _
  rw [hc] at hlength ⊢
  refine ⟨hstructs.symm, rfl, hcounts.structs, ?_, CodeUnit.render_header schema options, ?_,
    CodeUnit.render_source schema options, hcounts.enums, hcounts.fields, hcounts.elements,
    NodeInfo.map_type schema.ast, ?_, ?_, Statistics.maxDepth_eq_zero⟩
  · simpa [prototypes, Comparison.signatures] using hlength
  · simpa [definitions, Comparison.signatures, Comparison.bodies] using hlength
  · intro position chain h
    rw [hsegments]
    exact Statistics.length_le_maxDepth h
  · obtain ⟨position, chain, h, hl⟩ := Statistics.exists_deepest schema.ast
    exact ⟨position, chain, h, by rw [hsegments, hl]⟩

end CppAst
