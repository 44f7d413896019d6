import CppAst.Proofs.Json.Fault
import CppAst.Proofs.Outcome
import CppAst.Proofs.Source.Lines
import CppAst.Schema.Load

namespace CppAst

open Source Outcome

variable {readers : Readers} {source : SourceText} {error : JsonError} {read : Nat}

theorem label?_jsonError :
    (source.jsonError error).label? =
      (offset? source.text.toList error.position).map (⟨⟨·, 1⟩, "parse error here"⟩) := by
  rw [SourceText.jsonError, LoadError.label?, Option.map_map]
  rfl

theorem afterLineFeed_size {text : String} :
    (text.utf8ByteSize = 0 ∨ AfterLineFeed text.utf8ByteSize text.toList) ↔
      text = "" ∨ text.toList.getLast? = some '\n' := by
  rw [← Text.width_toList, afterLineFeed_width, Text.width_eq_zero, String.toList_eq_nil_iff]

theorem Readers.standard_position {text : String} (h : Readers.standard.json text = .error error) :
    ∃ read ≤ (bytes text).length, error.position = .ofBytes ((bytes text).take read) := by
  obtain ⟨fault, hf, rfl⟩ := mapError_eq_error.mp h
  obtain ⟨hr, hp⟩ := Json.parse_error hf
  rw [← length_bytes] at hr
  exact ⟨fault.read, hr, hp.trans (positionAfter_toList hr)⟩

/-- A parser that rejects a text when it has read some bytes of it, and reports the position after
them, gets a label of one byte. The byte is one of the text unless the text was read to its end and
is empty or ends with a line feed; then it is the one after the end. -/
theorem label_of_position (h : readers.json source.text = .error error)
    (hr : read ≤ (bytes source.text).length)
    (hp : error.position = .ofBytes ((bytes source.text).take read)) :
    Schema.parse readers source = .error (source.jsonError error) ∧
    (∀ label ∈ (source.jsonError error).label?,
      label.span.offset ≤ source.text.utf8ByteSize ∧ label.span.length = 1) ∧
    ((source.jsonError error).LabelWithin source.text ↔
      ¬ (read = source.text.utf8ByteSize ∧
        (source.text = "" ∨ source.text.toList.getLast? = some '\n'))) := by
  refine ⟨?_, ?_⟩
  · rw [Schema.parse, SchemaFormat.parse, h]
    rfl
  rw [← positionAfter_toList hr] at hp
  rw [length_bytes] at hr
  have hsize : read ≤ source.text.utf8ByteSize := by rwa [← Text.width_toList]
  rw [LoadError.LabelWithin, label?_jsonError, hp, ← afterLineFeed_size]
  rcases offset?_positionAfter hr with ⟨hstart, ho⟩ | ⟨hpos, hstart, ho⟩
  · rw [ho]
    simp only [Option.map_some, Option.mem_some_iff, forall_eq', and_true]
    refine ⟨hsize, fun hlt he ↦ by omega, fun hnot ↦ ?_⟩
    have hne : read ≠ source.text.utf8ByteSize := fun he ↦ hnot ⟨he, he ▸ hstart⟩
    omega
  · rw [ho]
    simp only [Option.map_some, Option.mem_some_iff, forall_eq', and_true]
    refine ⟨by omega, fun _ ⟨he, hend⟩ ↦ ?_, fun _ ↦ by omega⟩
    rw [← he] at hend
    rcases hend with hzero | hfeed
    · omega
    · exact hstart hfeed

def strayWord : SourceText := ⟨"[\noops]\n", "ast.json"⟩

theorem label_of_strayWord :
    Readers.standard.json strayWord.text = .error ⟨"expected value", ⟨2, 1⟩⟩ ∧
      3 ≤ (bytes strayWord.text).length ∧
      (⟨2, 1⟩ : Position) = .ofBytes ((bytes strayWord.text).take 3) ∧
      (strayWord.jsonError ⟨"expected value", ⟨2, 1⟩⟩).LabelWithin strayWord.text := by
  have h : Readers.standard.json strayWord.text = .error ⟨"expected value", ⟨2, 1⟩⟩ := by rfl
  have hr : 3 ≤ (bytes strayWord.text).length := by decide
  have hp : (⟨2, 1⟩ : Position) = .ofBytes ((bytes strayWord.text).take 3) := by decide
  exact ⟨h, hr, hp, (label_of_position h hr hp).2.2.mpr (by decide)⟩

theorem empty_text_label_outside :
    let source : SourceText := ⟨"", Schema.standardName⟩
    let error : JsonError := ⟨"EOF while parsing a value", ⟨1, 0⟩⟩
    Schema.parse .standard source = .error (source.jsonError error) ∧
      ¬ (source.jsonError error).LabelWithin source.text := by
  refine ⟨rfl, fun h ↦ ?_⟩
  have hl := h ⟨⟨0, 1⟩, "parse error here"⟩ rfl
  exact absurd hl (by decide)

end CppAst
