import CppAst.Code.Steps
import CppAst.Generator.Unit
import CppAst.Proofs.Code.Rendering

namespace CppAst

namespace CodeWriter

variable {w w' : CodeWriter}

theorem step?_appends (h : w.step? = some w') :
    ∃ more, w'.builder.text = w.builder.text ++ more := by
  obtain ⟨b, tasks⟩ := w
  cases tasks with
  | nil => cases h
  | cons task tasks =>
    cases task with
    | append text =>
      cases h
      exact ⟨text, rfl⟩
    | setLevel level =>
      cases h
      exact ⟨"", by simp⟩
    | write code =>
      -- What code consists of is only put on the list.
      cases code <;> cases h <;> exact ⟨"", by simp [CodeBuilder.deeper]⟩

theorem Reaches.appends (h : w.Reaches w') : ∃ more, w'.builder.text = w.builder.text ++ more := by
  induction h with
  | refl => exact ⟨"", by simp⟩
  | tail _ hs ih =>
    obtain ⟨more, hm⟩ := ih
    obtain ⟨last, hl⟩ := step?_appends hs
    exact ⟨more ++ last, by rw [hl, hm, String.append_assoc]⟩

theorem Reaches.step {next : CodeWriter} (hs : w.step? = some next) (h : next.Reaches w') :
    w.Reaches w' := Relation.ReflTransGen.head hs h

theorem Reaches.trans {w'' : CodeWriter} (h : w.Reaches w') (h' : w'.Reaches w'') :
    w.Reaches w'' := Relation.ReflTransGen.trans h h'

section Write

variable (b : CodeBuilder) (tasks : List CodeTask)

theorem reaches_appended (texts : List String) :
    (⟨b, texts.map .append ++ tasks⟩ : CodeWriter).Reaches
      ⟨{ b with text := b.text ++ String.join texts }, tasks⟩ := by
  induction texts generalizing b with
  | nil =>
    rw [String.join_nil, String.append_empty]
    exact .refl
  | cons text texts ih =>
    have h := ih { b with text := b.text ++ text }
    rw [String.append_assoc, ← String.join_cons] at h
    exact .step rfl h

theorem reaches_line (text : String) :
    (⟨b, .write (.line text) :: tasks⟩ : CodeWriter).Reaches ⟨b.line text, tasks⟩ := by
  have h := reaches_appended b tasks (List.replicate b.level b.indent.text ++ [text, "\n"])
  have hj : b.text ++ String.join (List.replicate b.level b.indent.text ++ [text, "\n"]) =
      (b.line text).text := by
    simp [CodeBuilder.line, CodeBuilder.margin, String.append_assoc]
  rw [hj, List.map_append, List.map_replicate, List.append_assoc] at h
  exact .step rfl h

theorem reaches_lines (texts : List String) :
    (⟨b, texts.map (.write <| .line ·) ++ tasks⟩ : CodeWriter).Reaches ⟨b.lines texts, tasks⟩ := by
  induction texts generalizing b with
  | nil => exact .refl
  | cons text texts ih => exact (reaches_line b _ text).trans (ih (b.line text))

end Write

mutual

theorem reaches_write (b : CodeBuilder) (tasks : List CodeTask) : ∀ code : Code,
    (⟨b, .write code :: tasks⟩ : CodeWriter).Reaches ⟨b.write code, tasks⟩
  | .line text => reaches_line b tasks text
  | .lines texts => .step rfl (reaches_lines b tasks texts)
  | .blank => .step rfl (reaches_appended b tasks ["\n"])
  | .indented body =>
    .step rfl <| (reaches_writeAll b.deeper (.setLevel b.level :: tasks) body).trans <|
      .step rfl .refl
  | .block header close body => by
    have hbody := reaches_writeAll (b.line header).deeper
      (.setLevel b.level :: .write (.line close) :: tasks) body
    exact .step rfl <| (reaches_line b _ header).trans <| .step rfl <| hbody.trans <|
      .step rfl <| reaches_line _ tasks close

theorem reaches_writeAll (b : CodeBuilder) (tasks : List CodeTask) : ∀ program : List Code,
    (⟨b, program.map .write ++ tasks⟩ : CodeWriter).Reaches ⟨b.writeAll program, tasks⟩
  | [] => .refl
  | code :: rest =>
    (reaches_write b _ code).trans (reaches_writeAll (b.write code) tasks rest)

end

theorem Reaches.finishes {b : CodeBuilder} {program : List Code}
    (h : (start b program).Reaches w) : w.Reaches ⟨b.writeAll program, []⟩ := by
  have hend := reaches_writeAll b [] program
  rw [List.append_nil] at hend
  have hunique : Relator.RightUnique fun w w' : CodeWriter ↦ w.step? = some w' :=
    fun _ _ _ h h' ↦ Option.some_inj.mp (h.symm.trans h')
  rcases Relation.ReflTransGen.total_of_right_unique hunique h hend with h | h
  · exact h
  · -- Nothing comes after the end.
    rcases Relation.ReflTransGen.cases_head h with rfl | ⟨next, hs, -⟩
    · exact .refl
    · cases hs

mutual

theorem reaches_history (b : CodeBuilder) (tasks : List CodeTask) : ∀ (code : Code),
    ∀ b' ∈ b.history code, ∃ tasks', (⟨b, .write code :: tasks⟩ : CodeWriter).Reaches ⟨b', tasks'⟩
  | .indented body, b', h => by
    rw [CodeBuilder.history, List.mem_append, List.mem_singleton] at h
    rcases h with h | rfl
    · obtain ⟨tasks', hr⟩ := reaches_historyAll b.deeper (.setLevel b.level :: tasks) body b' h
      exact ⟨tasks', .step rfl hr⟩
    · exact ⟨tasks, reaches_write b tasks _⟩
  | .block header close body, b', h => by
    rw [CodeBuilder.history, List.mem_append, List.mem_singleton] at h
    rcases h with h | rfl
    · obtain ⟨tasks', hr⟩ := reaches_historyAll (b.line header).deeper
        (.setLevel b.level :: .write (.line close) :: tasks) body b' h
      exact ⟨tasks', .step rfl <| (reaches_line b _ header).trans <| .step rfl hr⟩
    · exact ⟨tasks, reaches_write b tasks _⟩
  | .line _, _, h | .lines _, _, h | .blank, _, h =>
    ⟨tasks, List.mem_singleton.mp h ▸ reaches_write b tasks _⟩

theorem reaches_historyAll (b : CodeBuilder) (tasks : List CodeTask) : ∀ (program : List Code),
    ∀ b' ∈ b.historyAll program, ∃ tasks',
      (⟨b, program.map .write ++ tasks⟩ : CodeWriter).Reaches ⟨b', tasks'⟩
  | [], _, h => by cases h
  | code :: rest, b', h => by
    rw [CodeBuilder.historyAll, List.mem_append] at h
    rcases h with h | h
    · exact reaches_history b _ code b' h
    · obtain ⟨tasks', hr⟩ := reaches_historyAll (b.write code) tasks rest b' h
      exact ⟨tasks', (reaches_write b _ code).trans hr⟩

end

end CodeWriter

open CodeRow in
/-- Writing code appends its rows, a blank line or a text at a depth each, and comes back to the
level at which it started. The rows are those of the code alone. On the way there the text only ever
grows, at every single step and so also between the builders of the history. The rows of the two
units, too, do not depend on the indentation. -/
theorem writing_appends_rows :
    (∀ (b : CodeBuilder) (program : List Code),
      b.writeAll program =
        { b with text := b.text ++ renderAll b.indent b.level (Code.rowsIn 0 program) } ∧
      (CodeWriter.start b program).Reaches ⟨b.writeAll program, []⟩ ∧
      (∀ w w', (CodeWriter.start b program).Reaches w → w.Reaches w' →
        (∃ more, w'.builder.text = w.builder.text ++ more) ∧
          w'.Reaches ⟨b.writeAll program, []⟩) ∧
      ∀ b' ∈ b.historyAll program, ∃ tasks, (CodeWriter.start b program).Reaches ⟨b', tasks⟩) ∧
    ∀ (schema : Schema) (headerName sourceName : String) (unit : CodeUnit),
      ∃ rows : List CodeRow, ∀ indent : Indent,
        unit.render schema ⟨indent, headerName, sourceName⟩ = renderAll indent 0 rows := by
  refine ⟨fun b program ↦ ?_, fun schema headerName sourceName unit ↦ ?_⟩
  · have hend := CodeWriter.reaches_writeAll b [] program
    rw [List.append_nil] at hend
    refine ⟨CodeBuilder.writeAll_eq rfl program, hend, fun w w' h h' ↦ ?_, fun b' h ↦ ?_⟩
    · exact ⟨h'.appends, (h.trans h').finishes⟩
    · have hr := CodeWriter.reaches_historyAll b [] program b' h
      rwa [List.append_nil] at hr
  · -- What stands in a unit is code before the indentation is known.
    refine ⟨Code.rowsIn 0 (unit.code schema ⟨.standard, headerName, sourceName⟩), fun indent ↦ ?_⟩
    rw [CodeUnit.render, Code.render_eq]
    cases unit <;> rfl

def fieldStruct : List Code := [.block "struct Expr \x7b" "\x7d;" [.line "Expr* lhs;"]]

def tabbed : CodeBuilder := { indent := .tab, level := 1 }

def withinBlock : CodeWriter where
  builder := { indent := .tab, level := 2, text := "\tstruct Expr \x7b\n\t\tExpr* lhs;" }
  tasks := [.append "\n", .setLevel 1, .write (.line "\x7d;")]

def afterField : CodeBuilder :=
  { indent := .tab, level := 2, text := "\tstruct Expr \x7b\n\t\tExpr* lhs;\n" }

theorem writing_within_block :
    (CodeWriter.start tabbed fieldStruct).Reaches withinBlock ∧
    withinBlock.Reaches
      ⟨{ indent := .tab, level := 1,
         text := "\tstruct Expr \x7b\n\t\tExpr* lhs;\n\t\x7d;\n" }, []⟩ ∧
    ∃ tasks, (CodeWriter.start tabbed fieldStruct).Reaches ⟨afterField, tasks⟩ := by
  have hstart : (CodeWriter.start tabbed fieldStruct).Reaches withinBlock := by
    iterate 10 refine .step rfl ?_
    exact .refl
  have hfield : afterField ∈ tabbed.historyAll fieldStruct := by decide
  obtain ⟨-, -, hgrows, hhistory⟩ := writing_appends_rows.1 tabbed fieldStruct
  exact ⟨hstart, (hgrows _ _ hstart .refl).2, hhistory afterField hfield⟩

end CppAst
