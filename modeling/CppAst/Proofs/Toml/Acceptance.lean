import CppAst.Proofs.Schema.FirstFault
import CppAst.Toml.Acceptance

namespace CppAst

open Outcome

namespace Toml

section Values

variable {value : Value} {items : List Value} {entries : List (String × Value)} {key : String}

theorem listToDocument_eq_map (items : List Value) :
    listToDocument items = items.map Value.toDocument := by
  induction items with
  | nil => rfl
  | cons item rest ih => rw [listToDocument, ih, List.map_cons]

theorem lookup_entriesToDocument (entries : List (String × Value)) (key : String) :
    (entriesToDocument entries).lookup key = (entries.lookup key).map Value.toDocument := by
  induction entries with
  | nil => rfl
  | cons entry rest ih =>
    obtain ⟨name, value⟩ := entry
    rw [entriesToDocument, List.lookup_cons, List.lookup_cons, ih]
    cases key == name <;> rfl

theorem at?_toDocument (value : Value) (keys : List String) :
    value.toDocument.at? keys = (value.at? keys).map Value.toDocument := by
  induction keys generalizing value with
  | nil => cases value <;> simp [Value.at?]
  | cons key keys ih =>
    cases value with
    | table entries =>
      rw [Value.toDocument, Document.at?_mapping, lookup_entriesToDocument, Value.at?,
        Option.bind_map, Option.map_bind]
      exact congrArg _ (funext fun value ↦ ih value)
    | float value => cases value <;> rfl
    | string _ | integer _ | boolean _ | dateTime _ | array _ => rfl

theorem isString_toDocument : value.toDocument.isString = true ↔ value.IsText := by
  cases value with
  | float value => cases value <;> simp [Value.toDocument, Document.isString, Value.IsText]
  | string _ | integer _ | boolean _ | dateTime _ | array _ | table _ =>
    simp [Value.toDocument, Document.isString, Value.IsText]

theorem forall_isString_toDocument {items : List Value} :
    (∀ item ∈ listToDocument items, item.isString) ↔ ∀ item ∈ items, item.IsText := by
  rw [listToDocument_eq_map, List.forall_mem_map]
  exact forall₂_congr fun _ _ ↦ isString_toDocument

theorem refusal?_toDocument (demand : Demand) (value : Value) :
    demand.refusal? value.toDocument = none ↔ value.Meets demand := by
  cases value with
  | array items =>
    have hn : ¬ (Value.array items).IsText := id
    cases demand <;>
      simp [Demand.refusal?, Value.toDocument, Value.Meets, Value.IsTable, Value.IsTexts, hn,
        ← forall_isString_toDocument]
  | float value =>
    cases value <;> cases demand <;>
      simp [Demand.refusal?, Value.toDocument, Value.Meets, Value.IsTable, Value.IsTexts,
        Value.IsText]
  | string _ | integer _ | boolean _ | dateTime _ | table _ =>
    cases demand <;>
      simp [Demand.refusal?, Value.toDocument, Value.Meets, Value.IsTable, Value.IsTexts,
        Value.IsText]

end Values

end Toml

namespace Schema

open Document Toml

section Accepted

variable {value : Value} {items : List Value}

theorem exists_texts_iff {items : List Document} :
    (∃ ts : List String, items = ts.map string) ↔ ∀ item ∈ items, item.isString := by
  induction items with
  | nil => exact ⟨fun _ ↦ List.forall_mem_nil _, fun _ ↦ ⟨[], rfl⟩⟩
  | cons item rest ih =>
    rw [List.forall_mem_cons, ← ih]
    constructor
    · rintro ⟨ts, h⟩
      cases ts with
      | nil => cases h
      | cons t ts =>
        obtain ⟨rfl, rfl⟩ := List.cons.inj h
        exact ⟨rfl, ts, rfl⟩
    · rintro ⟨hs, ts, rfl⟩
      cases item with
      | string t => exact ⟨t :: ts, rfl⟩
      | null | bool _ | number _ | list _ | mapping _ => cases hs

theorem exists_ofTexts_iff : (∃ ts, value.toDocument = ofTexts ts) ↔ value.IsTexts := by
  cases value with
  | array items =>
    simp only [Value.toDocument, ofTexts, list.injEq, Value.IsTexts, exists_texts_iff,
      forall_isString_toDocument]
  | float value => cases value <;> simp [Value.toDocument, ofTexts, Value.IsTexts]
  | string _ | integer _ | boolean _ | dateTime _ | table _ =>
    simp [Value.toDocument, ofTexts, Value.IsTexts]

theorem exists_string_iff : (∃ text, value.toDocument = .string text) ↔ value.IsText := by
  cases value with
  | float value => cases value <;> simp [Value.toDocument, Value.IsText]
  | string _ | integer _ | boolean _ | dateTime _ | array _ | table _ =>
    simp [Value.toDocument, Value.IsText]

mutual

theorem exists_member_iff (path name : String) : ∀ value : Value,
    (∃ m, member path name value.toDocument = .ok m) ↔ value.IsMember
  | .table entries => by
    rw [Value.toDocument, Value.IsMember, ← exists_members_iff path entries]
    simp only [member_mapping_eq_ok]
    exact ⟨fun ⟨_, found, h, _⟩ ↦ ⟨found, h⟩, fun ⟨found, h⟩ ↦ ⟨_, found, h, rfl⟩⟩
  | .array items => by
    have ht : _ ↔ (Value.array items).IsTexts := exists_ofTexts_iff
    simp only [Value.toDocument, member_list_eq_ok, Value.IsMember, Value.IsText, or_false, ← ht,
      ofTexts, list.injEq]
    exact ⟨fun ⟨_, elements, h, _⟩ ↦ ⟨elements, h⟩, fun ⟨elements, h⟩ ↦ ⟨_, elements, h, rfl⟩⟩
  | .float (some _) | .float none | .string _ | .integer _ | .boolean _ | .dateTime _ => by
    simp [Value.toDocument, member, Value.IsMember, Value.IsText, Value.IsTexts, pure_eq_ok]

theorem exists_members_iff (path : String) : ∀ entries : List (String × Value),
    (∃ found, members path (entriesToDocument entries) = .ok found) ↔ IsBody entries
  | [] => ⟨fun _ ↦ trivial, fun _ ↦ ⟨[], rfl⟩⟩
  | (name, value) :: rest => by
    rw [entriesToDocument, IsBody, ← exists_member_iff (below path name) name value,
      ← exists_members_iff path rest]
    simp only [members_cons_eq_ok]
    constructor
    · rintro ⟨_, first, later, hf, hl, -⟩
      exact ⟨⟨first, hf⟩, later, hl⟩
    · rintro ⟨⟨first, hf⟩, later, hl⟩
      exact ⟨_, first, later, hf, hl, rfl⟩

end

theorem exists_topLevel_iff (name : String) :
    (∃ node, topLevel name value.toDocument = .ok node) ↔
      ∃ body, value = .table body ∧ IsBody body := by
  cases value with
  | table body =>
    simp only [topLevel_eq_ok, Value.toDocument, mapping.injEq, Value.table.injEq,
      exists_eq_left', ← exists_members_iff name]
    constructor
    · rintro ⟨_, _, found, rfl, h, -⟩
      exact ⟨found, h⟩
    · rintro ⟨found, h⟩
      exact ⟨_, _, found, rfl, h, rfl⟩
  | float value => cases value <;> simp [Value.toDocument, topLevel]
  | string _ | integer _ | boolean _ | dateTime _ | array _ => simp [Value.toDocument, topLevel]

theorem exists_nodes_iff {nodes : List (String × Value)} :
    (∃ read, ((entriesToDocument nodes).mapM fun (name, value) ↦ topLevel name value) = .ok read) ↔
      ∀ node ∈ nodes, ∃ body, node.2 = .table body ∧ IsBody body := by
  induction nodes with
  | nil => exact ⟨fun _ ↦ List.forall_mem_nil _, fun _ ↦ ⟨[], rfl⟩⟩
  | cons entry rest ih =>
    obtain ⟨name, value⟩ := entry
    rw [List.forall_mem_cons, ← ih, ← exists_topLevel_iff name]
    simp only [entriesToDocument, List.mapM_cons, bind_eq_ok, pure_eq_ok]
    constructor
    · rintro ⟨_, node, hn, later, hl, -⟩
      exact ⟨⟨node, hn⟩, later, hl⟩
    · rintro ⟨⟨node, hn⟩, later, hl⟩
      exact ⟨_, node, hn, later, hl, rfl⟩

end Accepted

section Root

variable {entries : List (String × Value)} {key : String}

theorem exists_lookup_texts_iff :
    (∃ ts, (entriesToDocument entries).lookup key = some (ofTexts ts)) ↔
      ∃ value, entries.lookup key = some value ∧ value.IsTexts := by
  simp only [lookup_entriesToDocument, Option.map_eq_some_iff, ← exists_ofTexts_iff]
  exact ⟨fun ⟨ts, value, hl, he⟩ ↦ ⟨value, hl, ts, he⟩,
    fun ⟨value, hl, ts, he⟩ ↦ ⟨ts, value, hl, he⟩⟩

theorem exists_lookup_string_iff :
    (∃ text, (entriesToDocument entries).lookup key = some (.string text)) ↔
      ∃ value, entries.lookup key = some value ∧ value.IsText := by
  simp only [lookup_entriesToDocument, Option.map_eq_some_iff, ← exists_string_iff]
  exact ⟨fun ⟨t, value, hl, he⟩ ↦ ⟨value, hl, t, he⟩,
    fun ⟨value, hl, t, he⟩ ↦ ⟨t, value, hl, he⟩⟩

theorem lookup_mapping_iff {inner : List (String × Document)} :
    (entriesToDocument entries).lookup key = some (mapping inner) ↔
      ∃ body, entries.lookup key = some (.table body) ∧ entriesToDocument body = inner := by
  rw [lookup_entriesToDocument, Option.map_eq_some_iff]
  constructor
  · rintro ⟨value, hl, he⟩
    cases value with
    | table body => exact ⟨body, hl, mapping.inj he⟩
    | float value => cases value <;> cases he
    | string _ | integer _ | boolean _ | dateTime _ | array _ => cases he
  · rintro ⟨body, hl, rfl⟩
    exact ⟨_, hl, rfl⟩

theorem exists_sections_iff :
    (∃ sections, printerSections (entriesToDocument entries) = .ok sections) ↔
      ∀ key ∈ Check.sections, ∃ value, entries.lookup key = some value ∧ value.IsTexts := by
  simp only [printerSections_eq_ok, ← exists_lookup_texts_iff, Check.sections,
    PrinterSections.toEntries, List.forall_mem_cons]
  constructor
  · rintro ⟨s, h₁, h₂, h₃, h₄, h₅, h₆, h₇, -⟩
    exact ⟨⟨_, h₁⟩, ⟨_, h₂⟩, ⟨_, h₃⟩, ⟨_, h₄⟩, ⟨_, h₅⟩, ⟨_, h₆⟩, ⟨_, h₇⟩, List.forall_mem_nil _⟩
  · rintro ⟨⟨_, h₁⟩, ⟨_, h₂⟩, ⟨_, h₃⟩, ⟨_, h₄⟩, ⟨_, h₅⟩, ⟨_, h₆⟩, ⟨_, h₇⟩, -⟩
    exact ⟨⟨_, _, _, _, _, _, _⟩, h₁, h₂, h₃, h₄, h₅, h₆, h₇, List.forall_mem_nil _⟩

/-- Which tables are read as a schema can be told from the kinds of their values. -/
theorem exists_schema_iff (root : List (String × Value)) :
    (∃ s, ofDocument (Value.table root).toDocument = .ok s) ↔ DenotesSchema root := by
  simp only [ofDocument_eq_ok, Value.toDocument, mapping.injEq]
  constructor
  · rintro ⟨s, _, ast, printer, rfl, hsys, hproject, hscope, hast, hprinter, hsections, hnodes⟩
    obtain ⟨nodes, hl, rfl⟩ := lookup_mapping_iff.mp hast
    obtain ⟨sections, hl', rfl⟩ := lookup_mapping_iff.mp hprinter
    exact {
      scope := exists_lookup_string_iff.mp ⟨_, hscope⟩
      includes := by
        rw [List.forall_mem_cons, List.forall_mem_singleton]
        exact ⟨exists_lookup_texts_iff.mp ⟨_, hsys⟩, exists_lookup_texts_iff.mp ⟨_, hproject⟩⟩
      printer := ⟨sections, hl', exists_sections_iff.mp ⟨_, hsections⟩⟩
      tree := ⟨nodes, hl, exists_nodes_iff.mp ⟨_, hnodes⟩⟩ }
  · rintro ⟨hscope, hincludes, ⟨sections, hl', hsections⟩, nodes, hl, hnodes⟩
    rw [List.forall_mem_cons, List.forall_mem_singleton] at hincludes
    obtain ⟨sys, hsys⟩ := exists_lookup_texts_iff.mpr hincludes.1
    obtain ⟨project, hproject⟩ := exists_lookup_texts_iff.mpr hincludes.2
    obtain ⟨scope, hscope⟩ := exists_lookup_string_iff.mpr hscope
    obtain ⟨printer, hsections⟩ := exists_sections_iff.mpr hsections
    obtain ⟨ast, hnodes⟩ := exists_nodes_iff.mpr hnodes
    exact ⟨⟨sys, project, scope, ast, printer⟩, _, _, _, rfl, hsys, hproject, hscope,
      lookup_mapping_iff.mpr ⟨nodes, hl, rfl⟩, lookup_mapping_iff.mpr ⟨sections, hl', rfl⟩,
      hsections, hnodes⟩

end Root

theorem mem_fixed_of_absent {d : Document} {check : Check} (hk : d.KeysDistinct)
    (hc : check ∈ d.checks) (h : d.at? check.place = none) : check ∈ Check.fixed := by
  refine (List.mem_append.mp hc).resolve_right fun hm ↦ ?_
  obtain ⟨keys, hkeys, rfl⟩ := List.mem_map.mp hm
  cases ha : d.at? ["ast"] with
  | none => simp [ha] at hkeys
  | some ast =>
    rw [ha, Option.elim_some, mem_places (keysDistinct_at? hk ha)] at hkeys
    have hplace : d.at? ("ast" :: keys) = ast.at? keys := by
      rw [← List.singleton_append, at?_append, ha, Option.bind_some]
    rw [Check.ofEntry, hplace] at h
    simp [h] at hkeys

/-- A TOML table is read as a schema just if the namespace is a text, the include lists and the
printer sections are arrays of texts, and the tree is made of tables, in which arrays of texts and
texts stand; a text is a string or a date or time. Every other table fails the first check that it
does not pass: a required key is absent, or the value at a place is of another kind, as numbers and
booleans are everywhere. -/
theorem toml_kinds_accepted (root : List (String × Value)) :
    ((∃ s, ofDocument (Value.table root).toDocument = .ok s) ↔ DenotesSchema root) ∧
    ((Value.table root).toDocument.KeysDistinct → ¬ DenotesSchema root → ∃ check e,
      ofDocument (Value.table root).toDocument = .error e ∧
      Check.FirstFailed (Value.table root).toDocument e check ∧
      (((Value.table root).at? check.place = none ∧ check ∈ Check.fixed ∧
          e = .missingKey (Check.dotted check.place)) ∨
        ∃ value expected found, (Value.table root).at? check.place = some value ∧
          ¬ value.Meets check.demand ∧ e = .invalidShape check.path expected found)) := by
  refine ⟨exists_schema_iff root, fun hk hn ↦ ?_⟩
  cases ho : ofDocument (Value.table root).toDocument with
  | ok s => exact absurd ((exists_schema_iff root).mp ⟨s, ho⟩) hn
  | error e =>
    obtain ⟨check, hf⟩ := firstFailed_of_error hk ho
    refine ⟨check, e, rfl, hf, ?_⟩
    rcases hf.told with ⟨habsent, -, he⟩ | ⟨d, expected, found, hd, hr, he⟩
    · obtain ⟨before, after, hc, -⟩ := hf.first
      have hmem : check ∈ (Value.table root).toDocument.checks := by simp [hc]
      refine .inl ⟨?_, mem_fixed_of_absent hk hmem habsent, he⟩
      rwa [at?_toDocument, Option.map_eq_none_iff] at habsent
    · rw [at?_toDocument, Option.map_eq_some_iff] at hd
      obtain ⟨value, hv, rfl⟩ := hd
      have hm : ¬ value.Meets check.demand := by
        simp [← refusal?_toDocument, hr]
      exact .inr ⟨value, expected, found, hv, hm, he⟩

def tableWith (scope entry : Value) : List (String × Value) :=
  [("namespace", scope),
   ("sys_includes", .array [.string "vector", .dateTime (.time ⟨7, 32, 0, 0⟩)]),
   ("project_includes", .array []),
   ("ast", .table
    [("Expr", .table
      [("Kind", .array [.string "Lit", .string "Sum"]), ("Sum", .table [("lhs", entry)])])]),
   ("printer", .table (Check.sections.map fun key ↦ (key, .array [])))]

def dated : List (String × Value) :=
  tableWith (.dateTime (.date ⟨2020, 1, 1⟩))
    (.dateTime (.dateTime ⟨1979, 5, 27⟩ ⟨7, 32, 0, 0⟩ (some .zulu)))

def datedSchema : Schema where
  sysIncludes := ["vector", "07:32:00"]
  projectIncludes := []
  scope := "2020-01-01"
  ast := [.struct "Expr"
    [.enum "Kind" ["Lit", "Sum"], .struct "Sum" [] [⟨"lhs", "1979-05-27T07:32:00Z"⟩]] []]
  printer := ⟨[], [], [], [], [], [], []⟩

def numbered : List (String × Value) := tableWith (.string "demo") (.float none)

theorem toml_kinds_of_dated :
    DenotesSchema dated ∧ (Value.table numbered).toDocument.KeysDistinct ∧
    ¬ DenotesSchema numbered ∧
    ∃ check, Check.FirstFailed (Value.table numbered).toDocument
      (.invalidShape "Expr.Sum.lhs" "a mapping (struct), list (enum) or string (field type)"
        "null") check := by
  have hk : (Value.table numbered).toDocument.KeysDistinct := by decide
  have he : ofDocument (Value.table numbered).toDocument =
      .error (.invalidShape "Expr.Sum.lhs"
        "a mapping (struct), list (enum) or string (field type)" "null") := rfl
  have hn : ¬ DenotesSchema numbered := fun h ↦ by
    obtain ⟨s, hs⟩ := (toml_kinds_accepted numbered).1.mpr h
    cases he.symm.trans hs
  obtain ⟨check, e, he', hf, -⟩ := (toml_kinds_accepted numbered).2 hk hn
  cases he.symm.trans he'
  exact ⟨(toml_kinds_accepted dated).1.mp ⟨datedSchema, rfl⟩, hk, hn, check, hf⟩

/-- A date is accepted as a namespace, and a number in its place is not what a table is refused for
if a key that is looked up before is absent. -/
theorem dated_is_accepted :
    ofDocument (Value.table dated).toDocument = .ok datedSchema ∧
    (∀ text, dated.lookup "namespace" ≠ some (.string text)) ∧
    ofDocument (Value.table [("namespace", .integer 3)]).toDocument =
      .error (.missingKey "sys_includes") :=
  ⟨rfl, nofun, rfl⟩

end Schema

end CppAst
