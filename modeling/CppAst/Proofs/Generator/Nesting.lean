import CppAst.Generator.Unit
import CppAst.Proofs.Code.Nesting
import CppAst.Proofs.Printer.Expansion

namespace CppAst

open Code CodeRow

variable {depth : Nat}

theorem bare_intercalate {separator : String} {parts : List String} (hs : Bare separator)
    (h : ∀ part ∈ parts, Bare part) : Bare (separator.intercalate parts) := by
  rw [Bare, String.toList_intercalate]
  exact forall_mem_intercalate hs (List.forall_mem_map.mpr h)

theorem leads_around (start stop : String) {text : String} (hs : Bare start ∧ Visible start)
    (hb : Bare text) (he : Bare stop) :
    Leads depth ((Code.line (start ++ text ++ stop)).rows depth) depth :=
  leads_line (bare_append.mpr ⟨bare_append.mpr ⟨hs.1, hb⟩, he⟩) ((hs.2.append text).append stop)

namespace Node

theorem Bare.name {node : Node} (h : node.Bare) : CppAst.Bare node.name := by
  cases node <;> exact h.1

theorem bareIn_iff {nodes : List Node} : BareIn nodes ↔ ∀ node ∈ nodes, node.Bare := by
  induction nodes with
  | nil => simp [BareIn]
  | cons node rest ih => simp [BareIn, ih]

theorem leads_forwardDeclaration {node : Node} (h : node.Bare) :
    Leads depth (node.forwardDeclaration.rows depth) depth := by
  have hn := h.name
  cases node with
  | struct name subnodes fields => exact leads_around "struct " ";" (by decide) hn (by decide)
  | enum name elements => exact leads_around "enum class " ";" (by decide) hn (by decide)

theorem leads_field {f : Field} (ht : CppAst.Bare f.type ∧ Visible f.type)
    (hn : CppAst.Bare f.name) : Leads depth (f.declaration.rows depth) depth := by
  have hb : CppAst.Bare s!"{f.type} {f.name};" := by
    simp only [toString, bare_append, ht.1, hn]
    decide
  exact leads_line hb (((ht.2.append _).append _).append _)

mutual

theorem leads_declaration : ∀ (node : Node) (depth : Nat), node.Bare →
    Leads depth (node.declaration.rows depth) depth
  | .struct name subnodes fields, depth, h => by
    have hv : Visible "struct " := by decide
    refine leads_block s!"struct {name}" ";" ?_ (hv.append _) (by decide) ?_
    · exact bare_append.mpr ⟨by decide, h.1⟩
    · rw [rowsIn_append]
      exact (leads_declarations subnodes (depth + 1) h.2.1).append
        (leads_map fun f hf ↦ leads_field (h.2.2 f hf).1 (h.2.2 f hf).2)
  | .enum name elements, depth, h => by
    have hv : Visible "enum class " := by decide
    refine leads_block s!"enum class {name}" ";" ?_ (hv.append _) (by decide) ?_
    · exact bare_append.mpr ⟨by decide, h.1⟩
    · refine leads_map fun e he ↦ ?_
      have hb : CppAst.Bare s!"{e}," := bare_append.mpr ⟨(h.2 e he).1, by decide⟩
      exact leads_line hb ((h.2 e he).2.append _)

theorem leads_declarations : ∀ (nodes : List Node) (depth : Nat), BareIn nodes →
    Leads depth (rowsIn depth (declarations nodes)) depth
  | [], _, _ => .nil
  | node :: rest, depth, h =>
    (leads_declaration node depth h.1).append (leads_declarations rest depth h.2)

end

end Node

namespace Comparison

variable (op : Comparison)

mutual

theorem bare_structs {parent : TypePath} (hp : ∀ segment ∈ parent.segments, Bare segment) :
    ∀ node : Node, node.Bare → ∀ s ∈ structs parent node,
      (∀ segment ∈ s.1.segments, Bare segment) ∧ ∀ f ∈ s.2, Bare f.name
  | .struct name subnodes fields, h => by
    have hc : ∀ segment ∈ (parent.child name).segments, Bare segment :=
      List.forall_mem_append.mpr ⟨hp, List.forall_mem_singleton.mpr h.1⟩
    rw [structs, List.forall_mem_cons]
    exact ⟨⟨hc, fun f hf ↦ (h.2.2 f hf).2⟩, bare_structsIn hc subnodes h.2.1⟩
  | .enum _ _, _ => List.forall_mem_nil _

theorem bare_structsIn {parent : TypePath} (hp : ∀ segment ∈ parent.segments, Bare segment) :
    ∀ nodes : List Node, Node.BareIn nodes → ∀ s ∈ structsIn parent nodes,
      (∀ segment ∈ s.1.segments, Bare segment) ∧ ∀ f ∈ s.2, Bare f.name
  | [], _ => List.forall_mem_nil _
  | node :: rest, h => by
    rw [structsIn, List.forall_mem_append]
    exact ⟨bare_structs hp node h.1, bare_structsIn hp rest h.2⟩

end

variable {path : TypePath} {fields : List Field}

theorem bare_signature (h : ∀ segment ∈ path.segments, Bare segment) :
    Bare (op.signature path fields) := by
  have hq : Bare path.qualified := bare_intercalate (by decide) h
  have ho : Bare op.operator := by cases op <;> decide
  have hm : Bare (mark fields) := by
    unfold mark
    split <;> decide
  simp only [signature_eq, bare_append, hq, ho, hm]
  decide

theorem visible_signature : Visible (op.signature path fields) := by
  have hv : Visible "bool operator" := by decide
  rw [signature_eq]
  simp only [String.append_assoc]
  exact hv.append _

theorem bare_expression (h : ∀ f ∈ fields, Bare f.name) : Bare (op.expression fields) := by
  have ho : Bare op.operator := by cases op <;> decide
  rw [expression]
  split
  · cases op <;> decide
  · refine bare_intercalate (by cases op <;> decide) (List.forall_mem_map.mpr fun f hf ↦ ?_)
    simp only [toString, bare_append, h f hf, ho]
    decide

theorem leads_prototype (h : ∀ segment ∈ path.segments, Bare segment) :
    Leads depth ((op.prototype path fields).rows depth) depth :=
  leads_line (bare_append.mpr ⟨op.bare_signature h, by decide⟩) (op.visible_signature.append _)

theorem leads_definition (h : ∀ segment ∈ path.segments, Bare segment)
    (hf : ∀ f ∈ fields, Bare f.name) :
    Leads depth ((op.definition path fields).rows depth) depth := by
  have hreturn : Leads (depth + 1) ((Code.line s!"return {op.expression fields};").rows (depth + 1))
      (depth + 1) := leads_around "return " ";" (by decide) (op.bare_expression hf) (by decide)
  exact leads_block _ "" (op.bare_signature h) op.visible_signature (by decide)
    (hreturn.append .nil)

variable {nodes : List Node}

theorem leads_prototypes (h : Node.BareIn nodes) :
    Leads depth (rowsIn depth (op.prototypes nodes)) depth :=
  leads_map fun s hs ↦ op.leads_prototype (bare_structsIn (List.forall_mem_nil _) nodes h s hs).1

theorem leads_definitions (h : Node.BareIn nodes) :
    Leads depth (rowsIn depth (op.definitions nodes)) depth :=
  leads_map fun s hs ↦
    have hb := bare_structsIn (List.forall_mem_nil _) nodes h s hs
    op.leads_definition hb.1 hb.2

end Comparison

namespace CodeUnit

variable (schema : Schema) (options : GeneratorOptions)

def preamble : CodeUnit → List Code
  | header =>
    banner ++ [.line "#pragma once", .blank] ++
      schema.sysIncludes.map (fun name ↦ .line s!"#include <{name}>") ++ [.blank] ++
      schema.projectIncludes.map (fun name ↦ .line s!"#include \"{name}\"") ++ [.blank]
  | source => banner ++ [.line s!"#include \"{options.headerName}\"", .blank]

def declared : List Code :=
  schema.ast.map Node.forwardDeclaration ++ Node.declarations schema.ast ++
    Comparison.all.flatMap (·.prototypes schema.ast)

def openNamespace (name : String) (body : List Code) : List Code :=
  [.line s!"namespace {name} \x7b", .blank, .indented body]

theorem code_header :
    header.code schema options = preamble schema options header ++
      (openNamespace schema.scope (declared schema ++ [schema.printer.code schema.ast]) ++
        [.blank, .line "\x7d"]) := rfl

theorem code_source :
    source.code schema options = preamble schema options source ++
      (openNamespace schema.scope (sourceBody schema) ++ [.blank, .line "\x7d"]) := rfl

def declaredText : String :=
  Code.render options.indent 0
    (preamble schema options header ++ openNamespace schema.scope (declared schema))

theorem render_header_declared :
    header.render schema options = declaredText schema options ++
      (Code.render options.indent 1 [schema.printer.code schema.ast] ++ "\n\x7d\n") := by
  have hopen (body : List Code) : openNamespace schema.scope body =
      [.line s!"namespace {schema.scope} \x7b", .blank] ++ [.indented body] := rfl
  have hclose : Code.render options.indent 0 [.blank, .line "\x7d"] = "\n\x7d\n" := rfl
  simp only [render, code_header, declaredText, hopen, Code.render_append, Code.render_indented,
    hclose, String.append_assoc]

section Leads

variable {schema options} (h : schema.Bare) (hn : Bare options.headerName)

include h hn in
theorem leads_preamble (unit : CodeUnit) : Leads 0 (rowsIn 0 (preamble schema options unit)) 0 := by
  have hbanner : Leads 0 (rowsIn 0 banner) 0 := by
    refine (leads_lines ?_).append (.one (.blank 0))
    decide
  have hquoted {name : String} (hb : Bare name) :
      Leads 0 ((Code.line s!"#include \"{name}\"").rows 0) 0 :=
    leads_around "#include \"" "\"" (by decide) hb (by decide)
  have hsys {name : String} (hb : Bare name) :
      Leads 0 ((Code.line s!"#include <{name}>").rows 0) 0 :=
    leads_around "#include <" ">" (by decide) hb (by decide)
  have hblank : Leads 0 (rowsIn 0 [.blank]) 0 := .one (.blank 0)
  have honce : Leads 0 (rowsIn 0 [.line "#pragma once", .blank]) 0 :=
    (leads_line (by decide) (by decide)).append hblank
  cases unit with
  | header =>
    simp only [preamble, rowsIn_append]
    have hstart := (hbanner.append honce).append
      (leads_map fun name hm ↦ hsys (h.sysIncludes name hm))
    exact ((hstart.append hblank).append
      (leads_map fun name hm ↦ hquoted (h.projectIncludes name hm))).append hblank
  | source =>
    rw [preamble, rowsIn_append]
    exact hbanner.append ((hquoted hn).append hblank)

include h in
theorem leads_declared : Leads 1 (rowsIn 1 (declared schema)) 1 := by
  have hforward : Leads 1 (rowsIn 1 (schema.ast.map Node.forwardDeclaration)) 1 :=
    leads_map fun node hm ↦ Node.leads_forwardDeclaration (Node.bareIn_iff.mp h.ast node hm)
  simp only [declared, rowsIn_append, Comparison.all, List.flatMap_cons, List.flatMap_nil]
  exact (hforward.append (Node.leads_declarations schema.ast 1 h.ast)).append
    ((Comparison.leads_prototypes .equal h.ast).append
      ((Comparison.leads_prototypes .notEqual h.ast).append .nil))

include h in
theorem leads_sourceBody : Leads 1 (rowsIn 1 (sourceBody schema)) 1 := by
  simp only [sourceBody, rowsIn_append, Comparison.all, List.flatMap_cons, List.flatMap_nil]
  exact (Comparison.leads_definitions .equal h.ast).append
    ((Comparison.leads_definitions .notEqual h.ast).append .nil)

theorem leads_openNamespace {name : String} {body : List Code} (hb : Bare name)
    (h : Leads 1 (rowsIn 1 body) 1) : Leads 0 (rowsIn 0 (openNamespace name body)) 1 := by
  have hv : Visible "namespace " := by decide
  have hopen : Leads 0 ((Code.line s!"namespace {name} \x7b").rows 0) 1 :=
    leads_opening s!"namespace {name}" (bare_append.mpr ⟨by decide, hb⟩) (hv.append _)
  exact hopen.append (.cons (.blank 1) (h.append .nil))

theorem leads_closing : Leads 1 (rowsIn 0 [.blank, .line "\x7d"]) 0 :=
  have hempty : Bare "" := by decide
  .cons (.blank 1) (.one (.closing hempty))

end Leads

end CodeUnit

/-- If no text of a schema contains braces or goes over several lines, and no type or element starts
with a blank, then in the source file and in the header up to the printer every line stands as deep
as it is nested in braces, and in the end of the source file all braces are closed. The same holds
for the whole header if the printer is empty. -/
theorem generated_lines_nested {schema : Schema} (options : GeneratorOptions) (h : schema.Bare)
    (hn : Bare options.headerName) :
    (Nested options.indent (CodeUnit.source.render schema options).toList ∧
      braceDepth (CodeUnit.source.render schema options).toList = 0) ∧
    (∃ declared : String,
      CodeUnit.header.render schema options = declared ++
        (Code.render options.indent 1 [schema.printer.code schema.ast] ++ "\n\x7d\n") ∧
      Nested options.indent declared.toList) ∧
    (schema.printer.compile (NodeInfo.ofNodes schema.ast) = [] →
      Nested options.indent (CodeUnit.header.render schema options).toList ∧
      braceDepth (CodeUnit.header.render schema options).toList = 0) := by
  refine ⟨?_, ⟨_, CodeUnit.render_header_declared schema options, ?_⟩, fun hp ↦ ?_⟩
  · rw [CodeUnit.render, Code.render_eq, CodeUnit.code_source, rowsIn_append, rowsIn_append]
    exact Leads.nested options.indent <| (CodeUnit.leads_preamble h hn _).append <|
      (CodeUnit.leads_openNamespace h.scope (CodeUnit.leads_sourceBody h)).append
        CodeUnit.leads_closing
  · rw [CodeUnit.declaredText, Code.render_eq, rowsIn_append]
    exact (Leads.nested options.indent <| (CodeUnit.leads_preamble h hn _).append <|
      CodeUnit.leads_openNamespace h.scope (CodeUnit.leads_declared h)).1
  · have hprinter : Leads 1 (rowsIn 1 [schema.printer.code schema.ast]) 1 := by
      rw [PrinterSections.code, hp]
      exact .nil
    have hbody := (CodeUnit.leads_declared h).append hprinter
    rw [← rowsIn_append] at hbody
    rw [CodeUnit.render, Code.render_eq, CodeUnit.code_header, rowsIn_append, rowsIn_append]
    exact Leads.nested options.indent <| (CodeUnit.leads_preamble h hn _).append <|
      (CodeUnit.leads_openNamespace h.scope hbody).append CodeUnit.leads_closing

def nestedSample : Schema where
  sysIncludes := ["vector"]
  projectIncludes := ["demo.hpp"]
  scope := "demo"
  ast :=
    [.struct "Expr" [.enum "Kind" ["Lit", "Sum"], .struct "Unit" [.struct "" [] []] []]
      [⟨"kind", "Kind"⟩, ⟨"lhs", "Expr*"⟩]]
  printer := ⟨["#declarations"], [], [], [], [], [], []⟩

theorem generated_lines_of_nestedSample :
    nestedSample.Bare ∧ Bare "demo.h" ∧
    nestedSample.printer.compile (NodeInfo.ofNodes nestedSample.ast) = [] ∧
    Nested .tab (CodeUnit.source.render nestedSample ⟨.tab, "demo.h", "demo.cpp"⟩).toList ∧
    Nested .tab (CodeUnit.header.render nestedSample ⟨.tab, "demo.h", "demo.cpp"⟩).toList ∧
    braceDepth (CodeUnit.header.render nestedSample ⟨.tab, "demo.h", "demo.cpp"⟩).toList = 0 := by
  have h : nestedSample.Bare := ⟨by decide, by decide, by decide, by decide⟩
  have hn : Bare "demo.h" := by decide
  have hp : nestedSample.printer.compile (NodeInfo.ofNodes nestedSample.ast) = [] := rfl
  obtain ⟨hsource, -, hheader⟩ :=
    generated_lines_nested ⟨.tab, "demo.h", "demo.cpp"⟩ h hn
  exact ⟨h, hn, hp, hsource.1, hheader hp⟩

end CppAst
