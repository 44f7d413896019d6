import Mathlib.Data.List.TakeWhile
import CppAst.Proofs.Source.Scan
import CppAst.Schema.Load

namespace CppAst

open Source

theorem SchemaError.path_eq_append_lastSegment (path : String) :
    ∃ before : String, path = before ++ lastSegment path ∧ '.' ∉ (lastSegment path).toList ∧
      (before = "" ∨ before.toList.getLast? = some '.') := by
  let isInner (c : Char) : Bool := c ≠ '.'
  have hsplit : path.toList =
      (path.toList.reverse.dropWhile isInner).reverse ++
        (path.toList.reverse.takeWhile isInner).reverse := by
    rw [← List.reverse_append, List.takeWhile_append_dropWhile, List.reverse_reverse]
  refine ⟨.ofList (path.toList.reverse.dropWhile isInner).reverse, ?_, ?_, ?_⟩
  · rw [lastSegment, ← String.ofList_append, ← hsplit, String.ofList_toList]
  · rw [lastSegment, String.toList_ofList, List.mem_reverse]
    intro h
    simpa using List.mem_takeWhile_imp h
  · rw [String.toList_ofList, List.getLast?_reverse]
    cases hd : path.toList.reverse.dropWhile isInner with
    | nil => exact .inl rfl
    | cons c rest =>
      have hc := List.head?_dropWhile_not isInner path.toList.reverse
      rw [hd] at hc
      refine .inr ?_
      simpa [isInner] using hc

theorem toUTF8_extract (before part after : String) :
    (before ++ part ++ after).toUTF8.extract before.utf8ByteSize
      (before.utf8ByteSize + part.utf8ByteSize) = part.toUTF8 := by
  have hskip := @ByteArray.extract_append_size_add before.toByteArray
    (part.toByteArray ++ after.toByteArray) 0 part.toByteArray.size
  rw [Nat.add_zero] at hskip
  simp only [String.toUTF8, String.toByteArray_append, ← String.size_toByteArray]
  rw [ByteArray.append_assoc, hskip]
  exact ByteArray.extract_append_eq_left rfl

theorem Label.Marks.of_findKey? {text name : String} {label : Label}
    (h : findKey? text.toList name.toList = some label.span) : label.Marks text name := by
  obtain ⟨before, after, ht, hs, -⟩ := findKey?_sound h
  have htext : text = .ofList before ++ name ++ .ofList after := by
    calc text = .ofList text.toList := String.ofList_toList.symm
      _ = .ofList before ++ name ++ .ofList after := by
        rw [ht, String.ofList_append, String.ofList_append, String.ofList_toList,
          String.append_assoc]
  have hspan : label.span = ⟨(String.ofList before).utf8ByteSize, name.utf8ByteSize⟩ := by
    rw [hs, ← Text.width_toList, ← Text.width_toList, String.toList_ofList]
  refine ⟨?_, ?_, .ofList before, .ofList after, htext, hspan⟩
  · simp only [hspan, htext, String.utf8ByteSize_append]
    omega
  · rw [hspan, htext]
    exact toUTF8_extract ..

theorem label?_schemaError (source : SourceText) (path expected found : String) :
    (source.schemaError (.invalidShape path expected found)).label? =
      (findKey? source.text.toList (SchemaError.lastSegment path).toList).map
        (⟨·, s!"expected {expected}, found {found}"⟩) := rfl

/-- An error keeps the fault that it reports. The label of a wrong shape is the result of a search
that ends and only cuts the text between characters, and it marks the name of the fault. -/
theorem structural_label_exact (source : SourceText) (fault : SchemaError) :
    (source.schemaError fault).schemaError? = some fault ∧
    ∀ path expected found, fault = .invalidShape path expected found →
      (∃ before : String, path = before ++ fault.name ∧ '.' ∉ fault.name.toList ∧
        (before = "" ∨ before.toList.getLast? = some '.')) ∧
      (∀ span?, Finds source.text.toList fault.name.toList span? ↔
        span? = (source.schemaError fault).label?.map (·.span)) ∧
      (∀ start next,
        turn? source.text.toList (inQuotes fault.name.toList) start = some (.onwards next) →
        start < next ∧ next ≤ source.text.utf8ByteSize) ∧
      ∀ label ∈ (source.schemaError fault).label?, label.Marks source.text fault.name := by
  refine ⟨by cases fault <;> rfl, ?_⟩
  rintro path expected found rfl
  have hspan : (source.schemaError (.invalidShape path expected found)).label?.map (·.span) =
      findKey? source.text.toList (SchemaError.lastSegment path).toList := by
    rw [label?_schemaError, Option.map_map]
    exact Option.map_id'
  refine ⟨SchemaError.path_eq_append_lastSegment path, fun span? ↦ ?_, fun start next h ↦ ?_,
    fun label hl ↦ .of_findKey? ?_⟩
  · rw [hspan]
    exact finds_iff
  · rw [← Text.width_toList]
    exact lt_of_onwards h
  · rw [SchemaError.name, ← hspan, Option.mem_def.mp hl, Option.map_some]

def accentedSource : SourceText :=
  ⟨"\x7b\"ast\": \x7b\"é\": \"Süß x\", \"Süß x\" : 3\x7d\x7d", "ast.json"⟩

def accentedFault : SchemaError := .invalidShape "ast.Süß x" "a string" "number"

def accentedLabel : Label := ⟨⟨27, 7⟩, "expected a string, found number"⟩

theorem accentedLabel_marks :
    turn? accentedSource.text.toList (inQuotes accentedFault.name.toList) 0 =
      some (.onwards 24) ∧
    24 ≤ accentedSource.text.utf8ByteSize ∧
    (accentedSource.schemaError accentedFault).label? = some accentedLabel ∧
    accentedLabel.Marks accentedSource.text "Süß x" := by
  have hturn : turn? accentedSource.text.toList (inQuotes accentedFault.name.toList) 0 =
      some (.onwards 24) := by decide
  have hlabel : (accentedSource.schemaError accentedFault).label? = some accentedLabel := by
    decide
  have hname : accentedFault.name = "Süß x" := by decide
  obtain ⟨-, hexact⟩ := structural_label_exact accentedSource accentedFault
  obtain ⟨-, -, hturns, hmarks⟩ := hexact _ _ _ rfl
  exact ⟨hturn, (hturns _ _ hturn).2, hlabel, hname ▸ hmarks _ hlabel⟩

end CppAst
