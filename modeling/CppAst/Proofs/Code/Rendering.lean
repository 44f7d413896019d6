import CppAst.Code.Layout

namespace CppAst

theorem CodeRow.renderAll_append (indent : Indent) (level : Nat) (rows rest : List CodeRow) :
    renderAll indent level (rows ++ rest) =
      renderAll indent level rows ++ renderAll indent level rest := by
  simp [renderAll]

namespace CodeBuilder

open CodeRow

def append (b : CodeBuilder) (text : String) : CodeBuilder := { b with text := b.text ++ text }

theorem append_append (b : CodeBuilder) (s t : String) :
    (b.append s).append t = b.append (s ++ t) := by
  simp [append, String.append_assoc]

theorem line_eq {b : CodeBuilder} {level depth : Nat} (h : b.level = level + depth)
    (text : String) : b.line text = b.append (render b.indent level (.text depth text)) := by
  simp [line, append, margin, render, Indent.margin, h, String.append_assoc]

theorem lines_eq {b : CodeBuilder} {level depth : Nat} (h : b.level = level + depth)
    (texts : List String) :
    b.lines texts = b.append (renderAll b.indent level (texts.map (.text depth))) := by
  induction texts generalizing b with
  | nil => simp [lines, append, renderAll]
  | cons text rest ih =>
    have hr := ih (b := b.line text) (by simpa [line] using h)
    rw [lines] at hr
    rw [lines, List.foldl_cons, hr, line_eq h, append_append]
    simp [renderAll, append]

mutual

theorem write_eq {b : CodeBuilder} {level depth : Nat} (h : b.level = level + depth) :
    ∀ code : Code, b.write code = b.append (renderAll b.indent level (code.rows depth))
  | .line text => by
    rw [write, line_eq h]
    simp [Code.rows, renderAll]
  | .lines texts => by rw [write, lines_eq h, Code.rows]
  | .blank => by simp [write, blank, append, Code.rows, renderAll, render]
  | .indented body => by
    have hd : b.deeper.level = level + (depth + 1) := by simp [deeper, h, Nat.add_assoc]
    rw [write, writeAll_eq hd body, Code.rows]
    simp [resume, append, deeper]
  | .block header close body => by
    have hd : (b.line header).deeper.level = level + (depth + 1) := by
      simp [deeper, line, h, Nat.add_assoc]
    have hw : ((b.resume ((b.line header).deeper.writeAll body)).line close) = _ :=
      line_eq (by simpa [resume] using h) close
    rw [write, hw, writeAll_eq hd body, line_eq h]
    simp [resume, append, deeper, Code.rows, renderAll, String.append_assoc]

theorem writeAll_eq {b : CodeBuilder} {level depth : Nat} (h : b.level = level + depth) :
    ∀ code : List Code, b.writeAll code = b.append (renderAll b.indent level (Code.rowsIn depth code))
  | [] => by simp [writeAll, append, Code.rowsIn, renderAll]
  | code :: rest => by
    have hw := write_eq h code
    have hr := writeAll_eq (b := b.write code) (by simpa [hw, append] using h) rest
    rw [writeAll, hr, hw, append_append, Code.rowsIn, renderAll_append]
    simp [append]

end

end CodeBuilder

theorem Code.render_eq (indent : Indent) (level : Nat) (code : List Code) :
    Code.render indent level code = CodeRow.renderAll indent level (rowsIn 0 code) := by
  have h : ({ indent, level } : CodeBuilder).level = level + 0 := rfl
  rw [Code.render, CodeBuilder.writeAll_eq h code]
  simp [CodeBuilder.append]

namespace Code

theorem rowsIn_append (depth : Nat) (code rest : List Code) :
    rowsIn depth (code ++ rest) = rowsIn depth code ++ rowsIn depth rest := by
  induction code with
  | nil => rfl
  | cons c code ih => simp [rowsIn, ih, List.append_assoc]

theorem render_append (indent : Indent) (level : Nat) (code rest : List Code) :
    Code.render indent level (code ++ rest) =
      Code.render indent level code ++ Code.render indent level rest := by
  rw [render_eq, render_eq, render_eq, rowsIn_append, CodeRow.renderAll_append]

theorem render_map {α : Type} (indent : Indent) (level : Nat) (f : α → Code) (l : List α) :
    Code.render indent level (l.map f) =
      String.join (l.map fun a ↦ Code.render indent level [f a]) := by
  induction l with
  | nil => rfl
  | cons a l ih =>
    rw [List.map_cons, ← List.singleton_append, render_append, ih, List.map_cons, String.join_cons]

mutual

theorem renderAll_rows (indent : Indent) (level k depth : Nat) : ∀ code : Code,
    CodeRow.renderAll indent level (code.rows (k + depth)) =
      CodeRow.renderAll indent (level + k) (code.rows depth)
  | .line text => by simp [rows, CodeRow.renderAll, CodeRow.render, Nat.add_assoc]
  | .lines texts => by
    simp [rows, CodeRow.renderAll, CodeRow.render, Nat.add_assoc, Function.comp_def]
  | .blank => by simp [rows, CodeRow.renderAll, CodeRow.render]
  | .indented body => by
    simpa only [rows, Nat.add_assoc] using renderAll_rowsIn indent level k (depth + 1) body
  | .block header close body => by
    have h := renderAll_rowsIn indent level k (depth + 1) body
    simp only [CodeRow.renderAll] at h
    simp [rows, CodeRow.renderAll, CodeRow.render, Nat.add_assoc, h]

theorem renderAll_rowsIn (indent : Indent) (level k depth : Nat) : ∀ code : List Code,
    CodeRow.renderAll indent level (rowsIn (k + depth) code) =
      CodeRow.renderAll indent (level + k) (rowsIn depth code)
  | [] => rfl
  | code :: rest => by
    rw [rowsIn, rowsIn, CodeRow.renderAll_append, CodeRow.renderAll_append,
      renderAll_rows indent level k depth code, renderAll_rowsIn indent level k depth rest]

end

theorem render_line (indent : Indent) (level : Nat) (text : String) :
    Code.render indent level [.line text] = indent.margin level ++ text ++ "\n" := by
  simp [render_eq, rowsIn, rows, CodeRow.renderAll, CodeRow.render]

theorem render_indented (indent : Indent) (level : Nat) (body : List Code) :
    Code.render indent level [.indented body] = Code.render indent (level + 1) body := by
  have h := renderAll_rowsIn indent level 1 0 body
  rw [render_eq, render_eq, ← h]
  simp [rowsIn, rows]

theorem render_block (indent : Indent) (level : Nat) (header close : String) (body : List Code) :
    Code.render indent level [.block header close body] =
      indent.margin level ++ header ++ "\n" ++ Code.render indent (level + 1) body ++
        indent.margin level ++ close ++ "\n" := by
  have h := renderAll_rowsIn indent level 1 0 body
  rw [render_eq, render_eq, ← h]
  simp [rowsIn, rows, CodeRow.renderAll, CodeRow.render, String.append_assoc]

end Code
end CppAst
