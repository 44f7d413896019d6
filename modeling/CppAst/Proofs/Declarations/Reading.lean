import CppAst.Declarations.Reading
import CppAst.Proofs.Code.Rendering
import Mathlib.Data.List.Basic

namespace CppAst

namespace Indent

variable (indent : Indent) (level : Nat)

theorem text_eq_cons :
    ∃ c rest, indent.text.toList = c :: rest ∧ (c = ' ' ∨ c = '\t') := by
  cases indent with
  | spaces width =>
    obtain ⟨n, hn⟩ : ∃ n, (if 1 ≤ width && width ≤ 8 then width else 4) = n + 1 := by
      refine Nat.exists_eq_succ_of_ne_zero ?_
      split
      next h => simp only [Bool.and_eq_true, decide_eq_true_eq] at h; omega
      next => decide
    refine ⟨' ', List.replicate n ' ', ?_, .inl rfl⟩
    rw [text, hn, String.toList_ofList, List.replicate_succ]
  | tab => exact ⟨'\t', [], rfl, .inr rfl⟩

theorem lineFeed_not_mem_margin : '\n' ∉ (indent.margin level).toList := by
  rw [margin, String.toList_join]
  intro h
  obtain ⟨text, ht, hc⟩ := List.mem_flatMap.mp h
  obtain rfl := (List.mem_replicate.mp ht).2
  cases indent with
  | spaces width => simp [Indent.text] at hc
  | tab => simp [Indent.text] at hc

theorem margin_succ_isPrefixOf? {c : Char} (rest : List Char) (hs : c ≠ ' ') (ht : c ≠ '\t') :
    (indent.margin (level + 1)).toList.isPrefixOf? ((indent.margin level).toList ++ c :: rest) =
      none := by
  obtain ⟨d, text, hd, hblank⟩ := text_eq_cons indent
  rw [Option.eq_none_iff_forall_ne_some]
  intro inner h
  have he := List.isPrefixOf?_eq_some_iff_append_eq.mp h
  simp only [margin, List.replicate_succ', String.toList_join, List.flatMap_append,
    List.append_assoc, List.append_cancel_left_eq, List.flatMap_singleton, hd, List.cons_append,
    List.cons.injEq] at he
  obtain ⟨rfl, -⟩ := he
  exact hblank.elim hs ht

end Indent

section Texts

theorem isPrefixOf?_append (start rest : List Char) :
    start.isPrefixOf? (start ++ rest) = some rest :=
  List.isPrefixOf?_eq_some_iff_append_eq.mpr rfl

theorem isSuffixOf?_append (rest stop : List Char) :
    stop.isSuffixOf? (rest ++ stop) = some rest :=
  List.isSuffixOf?_eq_some_iff_append_eq.mpr rfl

theorem Node.headerName?_header (keyword name : String) :
    headerName? keyword (keyword.toList ++ (name.toList ++ " \x7b".toList)) = some name.toList := by
  rw [headerName?, isPrefixOf?_append, Option.bind_some, isSuffixOf?_append]

theorem Node.ofHeader?_struct (name : String) :
    ofHeader? s!"struct {name} \x7b".toList = some (.struct name [] []) := by
  have ht : s!"struct {name} \x7b".toList = "struct ".toList ++ (name.toList ++ " \x7b".toList) := by
    simp [toString]
  rw [ofHeader?, ht, headerName?_header]
  simp

theorem Node.ofHeader?_enum (name : String) :
    ofHeader? s!"enum class {name} \x7b".toList = some (.enum name []) := by
  have ht : s!"enum class {name} \x7b".toList =
      "enum class ".toList ++ (name.toList ++ " \x7b".toList) := by
    simp [toString]
  have hs (rest : List Char) : headerName? "struct " ("enum class ".toList ++ rest) = none := rfl
  rw [ofHeader?, ht, hs, headerName?_header]
  simp

theorem Node.headerName?_declared (keyword : String) (text : List Char) :
    headerName? keyword (text ++ ";".toList) = none := by
  rw [headerName?, Option.eq_none_iff_forall_ne_some]
  intro name h
  obtain ⟨rest, hp, hs⟩ := Option.bind_eq_some_iff.mp h
  have hp := List.isPrefixOf?_eq_some_iff_append_eq.mp hp
  have hs := List.isSuffixOf?_eq_some_iff_append_eq.mp hs
  have hl := congrArg List.getLast? hp
  simp [← hs] at hl

theorem Node.ofHeader?_declared (text : List Char) : ofHeader? (text ++ ";".toList) = none := by
  rw [ofHeader?, headerName?_declared, headerName?_declared]
  rfl

theorem Field.ofDeclaration?_declared {f : Field} (h : ' ' ∉ f.name.toList) :
    ofDeclaration? s!"{f.type} {f.name};".toList = some f := by
  have ht : s!"{f.type} {f.name};".toList =
      f.type.toList ++ (' ' :: f.name.toList) ++ ";".toList := by simp [toString]
  have hn : ((f.type.toList ++ ' ' :: f.name.toList).reverse.takeWhile (· ≠ ' ')).reverse =
      f.name.toList := by
    rw [List.reverse_append, List.reverse_cons, List.append_assoc, List.takeWhile_append_of_pos]
    · simp
    · intro c hc
      simp only [ne_eq, decide_eq_true_eq]
      rintro rfl
      exact h (List.mem_reverse.mp hc)
  simp only [ofDeclaration?, ht, isSuffixOf?_append, bind, Option.bind_some, hn]
  simp

end Texts

namespace DeclarationReader

variable (indent : Indent) (level : Nat) {name : String} {subnodes : List Node}
  {fields : List Field} {outer : List Node}

theorem line?_member (r : DeclarationReader) (text : String) :
    r.line? indent level ((CodeRow.text r.outer.length text).line indent level) =
      r.member? text.toList := by
  rw [line?, CodeRow.line, isPrefixOf?_append]

theorem line?_close (r : DeclarationReader) {around : Node} (h : r.outer = around :: outer) :
    r.line? indent level ((CodeRow.text outer.length "\x7d;").line indent level) = r.close? := by
  have hp := Indent.margin_succ_isPrefixOf? (c := '\x7d') indent (level + outer.length) [';']
    (by decide) (by decide)
  have hl : level + r.outer.length = level + outer.length + 1 := by simp [h, Nat.add_assoc]
  have ht : (CodeRow.text outer.length "\x7d;").line indent level =
      (indent.margin (level + outer.length)).toList ++ '\x7d' :: [';'] := rfl
  rw [line?, hl, ht, hp]
  exact if_pos rfl

theorem lines?_cons (r : DeclarationReader) (line : List Char) (rest : List (List Char)) :
    r.lines? indent level (line :: rest) =
      (r.line? indent level line).bind (lines? indent level · rest) := List.foldlM_cons

theorem lines?_append (r : DeclarationReader) (lines rest : List (List Char)) :
    r.lines? indent level (lines ++ rest) =
      (r.lines? indent level lines).bind (lines? indent level · rest) := List.foldlM_append

/-- A block adds the node that it declares to the struct around it. -/
theorem lines?_block {header : String} {body : List Code} {opened closed : Node}
    (hh : Node.ofHeader? header.toList = some opened)
    (hb : lines? indent level ⟨opened, .struct name subnodes fields :: outer⟩
        ((Code.rowsIn (outer.length + 1) body).map (CodeRow.line indent level)) =
      some ⟨closed, .struct name subnodes fields :: outer⟩) :
    lines? indent level ⟨.struct name subnodes fields, outer⟩
        (((Code.block header "\x7d;" body).rows outer.length).map (CodeRow.line indent level)) =
      some ⟨.struct name (subnodes ++ [closed]) fields, outer⟩ := by
  have hopen : member? ⟨.struct name subnodes fields, outer⟩ header.toList =
      some ⟨opened, .struct name subnodes fields :: outer⟩ := by
    simp only [member?, hh]
  have hline := line?_member indent level ⟨.struct name subnodes fields, outer⟩ header
  have hclose := line?_close indent level ⟨closed, .struct name subnodes fields :: outer⟩ rfl
  rw [Code.rows, List.cons_append, List.map_cons, lines?_cons, hline, hopen, Option.bind_some,
    List.map_append, lines?_append, hb, Option.bind_some, List.map_singleton, lines?_cons, hclose]
  rfl

theorem lines?_elements (elements read : List String) :
    lines? indent level ⟨.enum name read, outer⟩
        ((Code.rowsIn outer.length (elements.map fun e ↦ .line s!"{e},")).map
          (CodeRow.line indent level)) =
      some ⟨.enum name (read ++ elements), outer⟩ := by
  induction elements generalizing read with
  | nil => simp [Code.rowsIn, lines?]
  | cons e elements ih =>
    have hm : member? ⟨.enum name read, outer⟩ s!"{e},".toList =
        some ⟨.enum name (read ++ [e]), outer⟩ := by
      have ht : s!"{e},".toList = e.toList ++ ",".toList := by simp [toString]
      simp [member?, ht, isSuffixOf?_append]
    have hline := line?_member indent level ⟨.enum name read, outer⟩ s!"{e},"
    rw [List.map_cons, Code.rowsIn, Code.rows, List.singleton_append, List.map_cons, lines?_cons,
      hline, hm, Option.bind_some, ih, List.append_assoc, List.singleton_append]

theorem lines?_fields (outer : List Node) (name : String) (subnodes : List Node)
    (declared : List Field) (h : ∀ f ∈ declared, ' ' ∉ f.name.toList) (read : List Field) :
    lines? indent level ⟨.struct name subnodes read, outer⟩
        ((Code.rowsIn outer.length (declared.map Field.declaration)).map
          (CodeRow.line indent level)) =
      some ⟨.struct name subnodes (read ++ declared), outer⟩ := by
  induction declared generalizing read with
  | nil => simp [Code.rowsIn, lines?]
  | cons f declared ih =>
    rw [List.forall_mem_cons] at h
    have hh : Node.ofHeader? s!"{f.type} {f.name};".toList = none := by
      have ht : s!"{f.type} {f.name};".toList =
          (f.type.toList ++ ' ' :: f.name.toList) ++ ";".toList := by simp [toString]
      rw [ht, Node.ofHeader?_declared]
    have hm : member? ⟨.struct name subnodes read, outer⟩ s!"{f.type} {f.name};".toList =
        some ⟨.struct name subnodes (read ++ [f]), outer⟩ := by
      simp only [member?, hh, Field.ofDeclaration?_declared h.1, Option.map_some]
    have hline := line?_member indent level ⟨.struct name subnodes read, outer⟩
      s!"{f.type} {f.name};"
    rw [List.map_cons, Code.rowsIn, Field.declaration, Code.rows, List.singleton_append,
      List.map_cons, lines?_cons, hline, hm, Option.bind_some, ih h.2, List.append_assoc,
      List.singleton_append]

mutual

theorem lines?_declaration (outer : List Node) (name : String) (read : List Node)
    (fields : List Field) : ∀ node : Node, node.Plain →
    lines? indent level ⟨.struct name read fields, outer⟩
        ((node.declaration.rows outer.length).map (CodeRow.line indent level)) =
      some ⟨.struct name (read ++ [node]) fields, outer⟩
  | .struct inner nodes members, h => by
    refine lines?_block indent level (Node.ofHeader?_struct inner) ?_
    have hn := lines?_declarations (.struct name read fields :: outer) inner [] [] nodes h.2.1
    have hf := lines?_fields indent level (.struct name read fields :: outer) inner nodes members
      (fun f hf ↦ (h.2.2 f hf).2.2) []
    rw [Code.rowsIn_append, List.map_append, lines?_append]
    rw [List.length_cons] at hn hf
    rw [hn, Option.bind_some, List.nil_append, hf, List.nil_append]
  | .enum inner elements, h => by
    refine lines?_block indent level (Node.ofHeader?_enum inner) ?_
    exact lines?_elements indent level elements []

theorem lines?_declarations (outer : List Node) (name : String) (read : List Node)
    (fields : List Field) : ∀ nodes : List Node, Node.PlainIn nodes →
    lines? indent level ⟨.struct name read fields, outer⟩
        ((Code.rowsIn outer.length (Node.declarations nodes)).map (CodeRow.line indent level)) =
      some ⟨.struct name (read ++ nodes) fields, outer⟩
  | [], _ => by simp [Node.declarations, Code.rowsIn, lines?]
  | node :: rest, h => by
    rw [Node.declarations, Code.rowsIn, List.map_append, lines?_append,
      lines?_declaration outer name read fields node h.1, Option.bind_some,
      lines?_declarations outer name (read ++ [node]) fields rest h.2, List.append_assoc,
      List.singleton_append]

end

end DeclarationReader

section Lines

variable (indent : Indent) (level : Nat)

theorem splitOn_renderAll {rows : List CodeRow}
    (h : ∀ row ∈ rows, '\n' ∉ row.line indent level) :
    (CodeRow.renderAll indent level rows).toList.splitOn '\n' =
      rows.map (CodeRow.line indent level) ++ [[]] := by
  induction rows with
  | nil => rfl
  | cons row rows ih =>
    rw [List.forall_mem_cons] at h
    have hr : (row.render indent level).toList = row.line indent level ++ ['\n'] := by
      cases row <;> simp [CodeRow.render, CodeRow.line]
    have ht : (CodeRow.renderAll indent level (row :: rows)).toList =
        row.line indent level ++ '\n' :: (CodeRow.renderAll indent level rows).toList := by
      simp [CodeRow.renderAll, hr]
    rw [ht, List.splitOn_eq_splitOnP, List.splitOnP_append_cons _ _ (by simp),
      ← List.splitOn_eq_splitOnP, ← List.splitOn_eq_splitOnP, ih h.2,
      List.splitOn_eq_singleton h.1]
    rfl

theorem lineFeed_not_mem_line {depth : Nat} {content : String} (h : '\n' ∉ content.toList) :
    '\n' ∉ (CodeRow.text depth content).line indent level := by
  simp [CodeRow.line, h, Indent.lineFeed_not_mem_margin]

theorem Code.rowsIn_lines {α : Type} (depth : Nat) (f : α → String) (l : List α) :
    rowsIn depth (l.map fun a ↦ .line (f a)) = l.map fun a ↦ .text depth (f a) := by
  induction l with
  | nil => rfl
  | cons a l ih => rw [List.map_cons, rowsIn, ih, rows, List.map_cons, List.singleton_append]

theorem block_oneLine {depth : Nat} {header : String} {body : List Code}
    (hh : '\n' ∉ header.toList)
    (hb : ∀ row ∈ Code.rowsIn (depth + 1) body, '\n' ∉ row.line indent level) :
    ∀ row ∈ (Code.block header "\x7d;" body).rows depth, '\n' ∉ row.line indent level := by
  rw [Code.rows, List.cons_append, List.forall_mem_cons, List.forall_mem_append,
    List.forall_mem_singleton]
  exact ⟨lineFeed_not_mem_line indent level hh, hb, lineFeed_not_mem_line indent level (by decide)⟩

mutual

theorem declaration_oneLine (depth : Nat) : ∀ node : Node, node.Plain →
    ∀ row ∈ node.declaration.rows depth, '\n' ∉ row.line indent level
  | .struct name nodes fields, h => by
    have hd : fields.map Field.declaration = fields.map fun f ↦ .line s!"{f.type} {f.name};" := rfl
    rw [Node.declaration]
    refine block_oneLine indent level (by simpa [toString] using h.1) ?_
    rw [Code.rowsIn_append, List.forall_mem_append, hd, Code.rowsIn_lines, List.forall_mem_map]
    refine ⟨declarations_oneLine (depth + 1) nodes h.2.1, ?_⟩
    intro f hf
    have hp := h.2.2 f hf
    exact lineFeed_not_mem_line indent level (by simp [toString, hp.1, hp.2.1])
  | .enum name elements, h => by
    rw [Node.declaration]
    refine block_oneLine indent level (by simpa [toString] using h.1) ?_
    rw [Code.rowsIn_lines, List.forall_mem_map]
    intro e he
    exact lineFeed_not_mem_line indent level (by simpa [toString] using h.2 e he)

theorem declarations_oneLine (depth : Nat) : ∀ nodes : List Node, Node.PlainIn nodes →
    ∀ row ∈ Code.rowsIn depth (Node.declarations nodes), '\n' ∉ row.line indent level
  | [], _ => by simp [Node.declarations, Code.rowsIn]
  | node :: rest, h => by
    rw [Node.declarations, Code.rowsIn, List.forall_mem_append]
    exact ⟨declaration_oneLine depth node h.1, declarations_oneLine depth rest h.2⟩

end

end Lines

theorem DeclarationReader.read?_declarations (indent : Indent) (level : Nat) {nodes : List Node}
    (h : Node.PlainIn nodes) :
    read? indent level (Code.render indent level (Node.declarations nodes)) = some nodes := by
  have hr := lines?_declarations indent level [] "" [] [] nodes h
  rw [List.length_nil] at hr
  rw [read?, Code.render_eq, splitOn_renderAll indent level (declarations_oneLine indent level 0 nodes h),
    List.dropLast_concat, start, hr]
  rfl

/-- The tree is read back from the text of its declarations, at any level and with any indentation.
So two trees whose declarations are written alike are the same one. -/
theorem declarations_determine_nodes :
    (∀ (indent : Indent) (level : Nat) (nodes : List Node), Node.PlainIn nodes →
      DeclarationReader.read? indent level
        (Code.render indent level (Node.declarations nodes)) = some nodes) ∧
    ∀ (b : CodeBuilder) (nodes nodes' : List Node), Node.PlainIn nodes → Node.PlainIn nodes' →
      (b.writeAll (Node.declarations nodes)).text = (b.writeAll (Node.declarations nodes')).text →
      nodes = nodes' := by
  refine ⟨fun indent level nodes h ↦ DeclarationReader.read?_declarations indent level h, ?_⟩
  intro b nodes nodes' h h' ht
  -- What was written before is the same, so that the declarations are.
  have hw (code : List Code) :
      (b.writeAll code).text = b.text ++ Code.render b.indent b.level code := by
    have hb : b.level = b.level + 0 := rfl
    rw [CodeBuilder.writeAll_eq hb, Code.render_eq]
    rfl
  rw [hw, hw, String.append_right_inj] at ht
  have hr := DeclarationReader.read?_declarations b.indent b.level h
  rw [ht, DeclarationReader.read?_declarations b.indent b.level h'] at hr
  exact (Option.some.inj hr).symm

/-- Types and elements that look like lines of declarations themselves. -/
def disguised : List Node :=
  [.struct "Expr" [.enum "Kind" ["\x7d;", "Add,"], .struct "" [] []]
    [⟨"left", "struct Expr \x7b"⟩, ⟨"", "enum class Kind \x7b int"⟩]]

def flattened : List Node :=
  [.struct "Expr" [.enum "Kind" ["\x7d;", "Add,"]]
    [⟨"left", "struct Expr \x7b"⟩, ⟨"", "enum class Kind \x7b int"⟩], .struct "" [] []]

theorem declarations_of_disguised :
    Node.PlainIn disguised ∧ Node.PlainIn flattened ∧
    DeclarationReader.read? .tab 2 (Code.render .tab 2 (Node.declarations disguised)) =
      some disguised ∧
    (CodeBuilder.writeAll { indent := .tab, level := 2 } (Node.declarations disguised)).text ≠
      (CodeBuilder.writeAll { indent := .tab, level := 2 } (Node.declarations flattened)).text := by
  have hd : Node.PlainIn disguised := by decide
  have hf : Node.PlainIn flattened := by decide
  obtain ⟨hread, hinjective⟩ := declarations_determine_nodes
  refine ⟨hd, hf, hread _ _ _ hd, fun h ↦ ?_⟩
  have he := hinjective _ disguised flattened hd hf h
  simp [disguised, flattened] at he

end CppAst
