import CppAst.Comparison
import CppAst.Generator.Unit
import CppAst.Proofs.Code.Rendering
import CppAst.Proofs.Schema.Preorder

namespace CppAst

open Node

namespace Comparison

theorem structOf?_cons (parent : TypePath) (node : Node) {chain : List Node} (h : chain ≠ []) :
    structOf? parent (node :: chain) = structOf? (parent.child node.name) chain := by
  have hl := List.getLast?_eq_some_getLast h
  simp [structOf?, List.getLast?_cons, hl, TypePath.child]

theorem collects_structs : Collects structOf? structs structsIn where
  inner parent node _ h := structOf?_cons parent node h
  node parent node := by cases node <;> rfl
  nil _ := rfl
  cons _ _ _ := rfl

theorem structsIn_root (nodes : List Node) :
    ∃ positions : List (List Nat), positions.Pairwise (· < ·) ∧
      (∀ p, p ∈ positions ↔ (structAt? nodes p).isSome) ∧
      (structsIn .root nodes).map some = positions.map (structAt? nodes) := by
  exact collects_structs.exists_positions rfl nodes

theorem mem_structsIn_root {nodes : List Node} {position : List Nat}
    {s : TypePath × List Field} (h : structAt? nodes position = some s) :
    s ∈ structsIn .root nodes := by
  obtain ⟨positions, -, hmem, hs⟩ := structsIn_root nodes
  have hp : position ∈ positions := (hmem position).mpr (by simp [h])
  have hm : some s ∈ positions.map (structAt? nodes) := List.mem_map.mpr ⟨position, hp, h⟩
  rw [← hs] at hm
  simpa using hm

section Emitted

variable (op : Comparison) (nodes : List Node)

theorem length_bodies : (op.bodies nodes).length = (op.signatures nodes).length := by
  simp [bodies, signatures]

theorem render_prototypes (indent : Indent) (level : Nat) :
    Code.render indent level (op.prototypes nodes) =
      String.join ((op.signatures nodes).map (prototypeText indent level)) := by
  rw [prototypes, Code.render_map, signatures, List.map_map]
  refine congrArg String.join (List.map_congr_left fun s _ ↦ ?_)
  simp [prototype, Code.render_line, prototypeText, String.append_assoc, toString]

theorem render_definition (indent : Indent) (level : Nat) (path : TypePath)
    (fields : List Field) :
    Code.render indent level [op.definition path fields] =
      definitionText indent level (op.signature path fields)
        s!"return {op.expression fields};" := by
  simp [definition, Code.render_block, Code.render_line, definitionText, String.append_assoc,
    toString]

theorem render_definitions (indent : Indent) (level : Nat) :
    Code.render indent level (op.definitions nodes) =
      String.join (List.zipWith (definitionText indent level) (op.signatures nodes)
        (op.bodies nodes)) := by
  rw [definitions, Code.render_map, signatures, bodies, List.zipWith_map, List.zipWith_self]
  exact congrArg String.join
    (List.map_congr_left fun s _ ↦ op.render_definition indent level s.1 s.2)

theorem prototypes_eq :
    op.prototypes nodes =
      (op.signatures nodes).map fun signature ↦ .line s!"{signature};" := by
  rw [signatures, List.map_map]
  rfl

theorem definitions_eq :
    op.definitions nodes =
      List.zipWith (fun signature body ↦ .block s!"{signature} \x7b" "\x7d" [.line body])
        (op.signatures nodes) (op.bodies nodes) := by
  rw [signatures, bodies, List.zipWith_map, List.zipWith_self]
  rfl

end Emitted

end Comparison

namespace CodeUnit

variable (schema : Schema) (options : GeneratorOptions)

theorem render_inNamespace (indent : Indent) (name : String) (body : List Code) :
    Code.render indent 0 (inNamespace name body) =
      Code.render indent 0 [.line s!"namespace {name} \x7b", .blank] ++ Code.render indent 1 body ++
        "\n\x7d\n" := by
  have h : inNamespace name body =
      [.line s!"namespace {name} \x7b", .blank] ++ [.indented body] ++ [.blank, .line "\x7d"] := rfl
  have he : Code.render indent 0 [.blank, .line "\x7d"] = "\n\x7d\n" := rfl
  rw [h, Code.render_append, Code.render_append, Code.render_indented, he]

theorem render_header :
    header.render schema options =
      header.opening schema options ++
        (String.join ((Comparison.signatures .equal schema.ast).map
            (Comparison.prototypeText options.indent 1)) ++
          String.join ((Comparison.signatures .notEqual schema.ast).map
            (Comparison.prototypeText options.indent 1))) ++
        header.closing schema options := by
  simp only [render, code, opening, closing, headerBody, Comparison.all, List.flatMap_cons,
    List.flatMap_nil, List.append_nil, Code.render_append, render_inNamespace,
    Comparison.render_prototypes, String.append_assoc]

theorem render_source :
    source.render schema options =
      source.opening schema options ++
        (String.join (List.zipWith (Comparison.definitionText options.indent 1)
            (Comparison.signatures .equal schema.ast) (Comparison.bodies .equal schema.ast)) ++
          String.join (List.zipWith (Comparison.definitionText options.indent 1)
            (Comparison.signatures .notEqual schema.ast)
            (Comparison.bodies .notEqual schema.ast))) ++
        source.closing schema options := by
  simp only [render, code, opening, closing, sourceBody, Comparison.all, List.flatMap_cons,
    List.flatMap_nil, List.append_nil, Code.render_append, render_inNamespace,
    Comparison.render_definitions, String.append_assoc]

end CodeUnit

/-- For each operator there is one list of signatures, that of the structs of the tree in pre-order.
Its prototypes are the lines with these signatures and its definitions the blocks with them, and so
the header declares, first for one operator and then for the other, just what the source file
defines. -/
theorem operators_declared_and_defined :
    (∀ nodes : List Node, ∃ positions : List (List Nat), positions.Pairwise (· < ·) ∧
      (∀ p, p ∈ positions ↔ (structAt? nodes p).isSome) ∧
      ∀ op : Comparison,
        (op.signatures nodes).map some =
          positions.map (fun p ↦ (structAt? nodes p).map fun s ↦ op.signature s.1 s.2) ∧
        (op.bodies nodes).map some = positions.map (fun p ↦
          (structAt? nodes p).map fun s ↦ s!"return {op.expression s.2};")) ∧
    (∀ (op : Comparison) (nodes : List Node) (indent : Indent) (level : Nat),
      (op.bodies nodes).length = (op.signatures nodes).length ∧
      Code.render indent level (op.prototypes nodes) =
        String.join ((op.signatures nodes).map (Comparison.prototypeText indent level)) ∧
      Code.render indent level (op.definitions nodes) =
        String.join (List.zipWith (Comparison.definitionText indent level) (op.signatures nodes)
          (op.bodies nodes))) ∧
    (∀ (schema : Schema) (options : GeneratorOptions),
      let signatures :=
        Comparison.signatures .equal schema.ast ++ Comparison.signatures .notEqual schema.ast
      let bodies := Comparison.bodies .equal schema.ast ++ Comparison.bodies .notEqual schema.ast
      bodies.length = signatures.length ∧
      CodeUnit.header.render schema options =
        CodeUnit.header.opening schema options ++
          String.join (signatures.map (Comparison.prototypeText options.indent 1)) ++
          CodeUnit.header.closing schema options ∧
      CodeUnit.source.render schema options =
        CodeUnit.source.opening schema options ++
          String.join (List.zipWith (Comparison.definitionText options.indent 1) signatures
            bodies) ++
          CodeUnit.source.closing schema options) := by
  refine ⟨fun nodes ↦ ?_, fun op nodes indent level ↦ ?_, fun schema options ↦ ?_⟩
  · obtain ⟨positions, hsort, hmem, hs⟩ := Comparison.structsIn_root nodes
    have hmap (text : TypePath × List Field → String) :
        ((Comparison.structsIn .root nodes).map text).map some =
          positions.map fun p ↦ (structAt? nodes p).map text := by
      have h := congrArg (List.map (Option.map text)) hs
      rw [List.map_map, List.map_map] at h
      rw [List.map_map]
      exact h
    exact ⟨positions, hsort, hmem, fun op ↦ ⟨hmap _, hmap _⟩⟩
  · exact ⟨op.length_bodies nodes, op.render_prototypes nodes indent level,
      op.render_definitions nodes indent level⟩
  · intro signatures bodies
    have hl := Comparison.length_bodies .equal schema.ast
    refine ⟨?_, ?_, ?_⟩
    · simp [bodies, signatures, Comparison.length_bodies]
    · rw [CodeUnit.render_header, List.map_append, String.join_append]
    · rw [CodeUnit.render_source, List.zipWith_append hl.symm, String.join_append]

end CppAst
