import CppAst.Proofs.Outcome
import CppAst.Proofs.Toml.KeySpan
import CppAst.Proofs.Toml.Outline
import CppAst.Schema.Load

namespace CppAst

open Outcome

variable {readers : Readers} {source : SourceText} {span : Source.Span}
  {path expected found : String}

theorem invalidShape_of_toml {label : Option Source.Span}
    (h : Schema.parse readers source .toml =
      .error (.invalidShape source label path expected found)) :
    (∃ table, readers.toml source.text = .ok table) ∧
      label = Source.findKey? source.text.toList (SchemaError.lastSegment path).toList := by
  rw [Schema.parse, SchemaFormat.parse] at h
  cases ht : readers.toml source.text with
  | error e =>
    rw [ht] at h
    cases h
  | ok table =>
    rw [ht] at h
    obtain ⟨fault, -, he⟩ := mapError_eq_error.mp h
    cases fault with
    | missingKey key => cases he
    | invalidShape =>
      cases he
      exact ⟨⟨table, rfl⟩, rfl⟩

/-- A TOML text that is no schema is labelled at a key if the name needs no quotes and the label
does not start in a string, a comment or a value without quotes, and at no key otherwise. -/
theorem toml_label_at_key_iff
    (hreads : ∀ text table, readers.toml text = .ok table → Toml.IsDocumentText text.toList)
    (h : Schema.parse readers source .toml =
      .error (.invalidShape source (some span) path expected found)) :
    span ∈ Toml.keySpans source.text.toList ↔
      Toml.isBareName (SchemaError.lastSegment path).toList ∧
      ∀ r ∈ Toml.Reading.ofText source.text.toList,
        r.covers source.text.toList span.offset → r.isContent = false := by
  obtain ⟨⟨table, ht⟩, hf⟩ := invalidShape_of_toml h
  have hp := hreads source.text table ht
  obtain ⟨before, after, htext, rfl, hfound⟩ := Source.findKey?_sound hf.symm
  exact ⟨Toml.bare_of_found hp htext hfound,
    fun ⟨hn, hc⟩ ↦ Toml.found_of_bare hp htext hfound hn hc⟩

theorem Readers.standard_isDocumentText (text : String) (table : List (String × Toml.Value))
    (h : Readers.standard.toml text = .ok table) : Toml.IsDocumentText text.toList := by
  cases hp : Toml.parse text.toList with
  | none =>
    rw [Readers.standard] at h
    simp only [hp] at h
    cases h
  | some read => exact Toml.isDocumentText_of_parse hp

def wrongIncludes : SourceText := ⟨"sys_includes = 3 # not sys_includes\n", "ast.json"⟩

theorem wrongIncludes_labelled :
    Schema.parse .standard wrongIncludes .toml = .error (.invalidShape wrongIncludes (some ⟨0, 12⟩)
      "sys_includes" "a list of strings" "number") ∧
    ⟨0, 12⟩ ∈ Toml.keySpans wrongIncludes.text.toList := by
  have h : Schema.parse .standard wrongIncludes .toml =
      .error (.invalidShape wrongIncludes (some ⟨0, 12⟩)
        "sys_includes" "a list of strings" "number") :=
    error?_eq_some.mp (by decide +kernel)
  exact ⟨h, (toml_label_at_key_iff Readers.standard_isDocumentText h).mpr
    ⟨by decide +kernel, by decide +kernel⟩⟩

def remarkedIncludes : SourceText :=
  ⟨"sys_includes = 3 # was [schema.sys_includes]\n", "ast.json"⟩

theorem remarkedIncludes_labelled :
    Schema.parse .standard remarkedIncludes .toml =
      .error (.invalidShape remarkedIncludes (some ⟨31, 12⟩)
        "sys_includes" "a list of strings" "number") ∧
    ⟨31, 12⟩ ∉ Toml.keySpans remarkedIncludes.text.toList :=
  ⟨error?_eq_some.mp (by decide +kernel), by decide +kernel⟩

end CppAst
