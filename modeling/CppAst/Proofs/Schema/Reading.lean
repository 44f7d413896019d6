import CppAst.Proofs.Outcome
import CppAst.Schema.Reading
import CppAst.Schema.Writing

namespace CppAst

open Outcome

namespace Document

theorem texts_eq_ok {items : List Document} {ts : List String} :
    texts items = .ok ts ↔ items = ts.map string := by
  induction items generalizing ts with
  | nil => cases ts <;> simp [texts]
  | cons item rest ih =>
    cases item with
    | string text =>
      simp only [texts, map_eq_ok]
      constructor
      · rintro ⟨us, hu, rfl⟩
        simp [ih.mp hu]
      · intro h
        cases ts with
        | nil => simp at h
        | cons t ts =>
          simp only [List.map_cons, List.cons.injEq, string.injEq] at h
          exact ⟨ts, ih.mpr h.2, by rw [h.1]⟩
    | null | bool _ | number _ | list _ | mapping _ => cases ts <;> simp [texts]

end Document

namespace Schema

open Document

section Required

variable {entries : List (String × Document)} {path key : String}

theorem required_eq_ok {value : Document} :
    required entries path key = .ok value ↔ entries.lookup key = some value := by
  unfold required
  cases entries.lookup key <;> simp

theorem requiredMapping_eq_ok {inner : List (String × Document)} :
    requiredMapping entries path key = .ok inner ↔ entries.lookup key = some (mapping inner) := by
  simp only [requiredMapping, bind_eq_ok, required_eq_ok]
  constructor
  · rintro ⟨value, hv, h⟩
    cases value <;> simp_all [pure_eq_ok]
  · intro h
    exact ⟨_, h, rfl⟩

theorem requiredString_eq_ok {text : String} :
    requiredString entries path key = .ok text ↔ entries.lookup key = some (string text) := by
  simp only [requiredString, bind_eq_ok, required_eq_ok]
  constructor
  · rintro ⟨value, hv, h⟩
    cases value <;> simp_all [pure_eq_ok]
  · intro h
    exact ⟨_, h, rfl⟩

theorem requiredStrings_eq_ok {ts : List String} :
    requiredStrings entries path key = .ok ts ↔ entries.lookup key = some (ofTexts ts) := by
  simp only [requiredStrings, bind_eq_ok, required_eq_ok]
  constructor
  · rintro ⟨value, hv, h⟩
    cases value with
    | list items =>
      rw [mapError_eq_ok, texts_eq_ok] at h
      rw [hv, h, ofTexts]
    | null | bool _ | number _ | string _ | mapping _ => simp at h
  · intro h
    refine ⟨_, h, ?_⟩
    rw [ofTexts]
    exact mapError_eq_ok.mpr (texts_eq_ok.mpr rfl)

end Required

theorem printerSections_eq_ok {entries : List (String × Document)} {sections : PrinterSections} :
    printerSections entries = .ok sections ↔
      ∀ entry ∈ sections.toEntries, entries.lookup entry.1 = some entry.2 := by
  cases sections
  simp only [printerSections, bind_eq_ok, requiredStrings_eq_ok, pure_eq_ok,
    PrinterSections.mk.injEq, PrinterSections.toEntries, List.forall_mem_cons]
  constructor
  · rintro ⟨_, h₁, _, h₂, _, h₃, _, h₄, _, h₅, _, h₆, _, h₇, rfl, rfl, rfl, rfl, rfl, rfl, rfl⟩
    exact ⟨h₁, h₂, h₃, h₄, h₅, h₆, h₇, by simp⟩
  · rintro ⟨h₁, h₂, h₃, h₄, h₅, h₆, h₇, -⟩
    exact ⟨_, h₁, _, h₂, _, h₃, _, h₄, _, h₅, _, h₆, _, h₇, rfl, rfl, rfl, rfl, rfl, rfl, rfl⟩

section Members

variable {path name : String} {found : List Member}

theorem member_mapping_eq_ok {entries : List (String × Document)} {m : Member} :
    member path name (mapping entries) = .ok m ↔
      ∃ found, members path entries = .ok found ∧ m = .node (struct name found) := by
  simp only [member, bind_eq_ok, pure_eq_ok]
  exact exists_congr fun _ ↦ and_congr_right fun _ ↦ eq_comm

theorem member_list_eq_ok {items : List Document} {m : Member} :
    member path name (list items) = .ok m ↔
      ∃ elements, items = elements.map string ∧ m = .node (.enum name elements) := by
  simp only [member, ← texts_eq_ok]
  cases texts items with
  | error found => simp
  | ok elements =>
    simp only [pure_eq_ok, Except.ok.injEq]
    exact ⟨fun h ↦ ⟨_, rfl, h.symm⟩, fun ⟨_, he, h⟩ ↦ by rw [he, h]⟩

theorem members_cons_eq_ok {value : Document} {rest : List (String × Document)} :
    members path ((name, value) :: rest) = .ok found ↔
      ∃ first later, member (below path name) name value = .ok first ∧
        members path rest = .ok later ∧ found = first :: later := by
  simp only [members, bind_eq_ok, pure_eq_ok]
  constructor
  · rintro ⟨first, h, later, h', rfl⟩
    exact ⟨first, later, h, h', rfl⟩
  · rintro ⟨first, later, h, h', rfl⟩
    exact ⟨first, h, later, h', rfl⟩

theorem members_append {entries rest : List (String × Document)} {later : List Member}
    (h : members path entries = .ok found) (h' : members path rest = .ok later) :
    members path (entries ++ rest) = .ok (found ++ later) := by
  induction entries generalizing found with
  | nil =>
    simp only [members, pure_eq_ok] at h
    simpa [← h] using h'
  | cons entry entries ih =>
    obtain ⟨first, others, hf, ho, rfl⟩ := members_cons_eq_ok.mp h
    exact members_cons_eq_ok.mpr ⟨first, _, hf, ih ho, rfl⟩

end Members

theorem topLevel_eq_ok {name : String} {value : Document} {node : Node} :
    topLevel name value = .ok node ↔
      ∃ entries found, value = mapping entries ∧ members name entries = .ok found ∧
        node = struct name found := by
  cases value with
  | mapping entries =>
    simp only [topLevel, bind_eq_ok, pure_eq_ok, mapping.injEq]
    constructor
    · rintro ⟨found, h, rfl⟩
      exact ⟨_, _, rfl, h, rfl⟩
    · rintro ⟨_, found, rfl, h, rfl⟩
      exact ⟨found, h, rfl⟩
  | null | bool _ | number _ | string _ | list _ => simp [topLevel]

theorem ofDocument_eq_ok {d : Document} {s : Schema} :
    ofDocument d = .ok s ↔
      ∃ root ast printer, d = mapping root ∧
        root.lookup "sys_includes" = some (ofTexts s.sysIncludes) ∧
        root.lookup "project_includes" = some (ofTexts s.projectIncludes) ∧
        root.lookup "namespace" = some (string s.scope) ∧
        root.lookup "ast" = some (mapping ast) ∧
        root.lookup "printer" = some (mapping printer) ∧
        printerSections printer = .ok s.printer ∧
        (ast.mapM fun (name, value) ↦ topLevel name value) = .ok s.ast := by
  cases s
  cases d with
  | mapping root =>
    simp only [ofDocument, bind_eq_ok, requiredStrings_eq_ok, requiredString_eq_ok,
      requiredMapping_eq_ok, pure_eq_ok, Schema.mk.injEq, mapping.injEq]
    constructor
    · rintro ⟨_, h₁, _, h₂, _, h₃, ast, h₄, printer, h₅, _, h₆, _, h₇, rfl, rfl, rfl, rfl, rfl⟩
      exact ⟨_, ast, printer, rfl, h₁, h₂, h₃, h₄, h₅, h₆, h₇⟩
    · rintro ⟨_, ast, printer, rfl, h₁, h₂, h₃, h₄, h₅, h₆, h₇⟩
      exact ⟨_, h₁, _, h₂, _, h₃, ast, h₄, printer, h₅, _, h₆, _, h₇, rfl, rfl, rfl, rfl, rfl⟩
  | null | bool _ | number _ | string _ | list _ => simp [ofDocument]

end Schema
end CppAst
