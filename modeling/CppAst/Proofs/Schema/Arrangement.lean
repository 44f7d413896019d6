import CppAst.Generator.Unit
import CppAst.Proofs.Schema.Places
import CppAst.Proofs.Schema.RoundTrip
import CppAst.Schema.Arrangement
import CppAst.Toml.Content

namespace CppAst

open Outcome

namespace Toml

mutual

theorem toDocument_of_ofDocument? : ∀ {d : Document} {t : Value},
    Value.ofDocument? d = some t → t.toDocument = d
  | .bool _, _, h | .string _, _, h => by
    cases h
    rfl
  | .number ⟨digits, exponent⟩, _, h => by
    rw [Value.ofDocument?] at h
    split at h
    next hn =>
      cases h
      rw [Value.toDocument, hn.1]
    next => cases h
  | .list items, _, h => by
    obtain ⟨values, hv, rfl⟩ := Option.map_eq_some_iff.mp h
    rw [Value.toDocument, toDocument_of_arrayOf? hv]
  | .mapping entries, _, h => by
    obtain ⟨rows, hr, rfl⟩ := Option.map_eq_some_iff.mp h
    rw [Value.toDocument, toDocument_of_tableOf? hr]

theorem toDocument_of_arrayOf? : ∀ {items : List Document} {values : List Value},
    arrayOf? items = some values → listToDocument values = items
  | [], _, h => by
    cases h
    rfl
  | item :: rest, _, h => by
    obtain ⟨value, hv, h⟩ := Option.bind_eq_some_iff.mp h
    obtain ⟨values, hr, h⟩ := Option.bind_eq_some_iff.mp h
    cases h
    rw [listToDocument, toDocument_of_ofDocument? hv, toDocument_of_arrayOf? hr]

theorem toDocument_of_tableOf? : ∀ {entries : List (String × Document)}
    {rows : List (String × Value)}, tableOf? entries = some rows → entriesToDocument rows = entries
  | [], _, h => by
    cases h
    rfl
  | (key, item) :: rest, _, h => by
    obtain ⟨value, hv, h⟩ := Option.bind_eq_some_iff.mp h
    obtain ⟨rows, hr, h⟩ := Option.bind_eq_some_iff.mp h
    cases h
    rw [entriesToDocument, toDocument_of_ofDocument? hv, toDocument_of_tableOf? hr]

end

end Toml

def Member.isField : Member → Bool
  | node _ => false
  | field _ => true

namespace Schema

open Document

section Bodies

variable {path : String} {entries : List (String × Document)} {found : List Member}

theorem member_isText {name : String} {value : Document} {m : Member}
    (h : member path name value = .ok m) : m.isField = isText (name, value) := by
  cases value with
  | mapping entries =>
    obtain ⟨inner, -, rfl⟩ := member_mapping_eq_ok.mp h
    rfl
  | list items =>
    obtain ⟨elements, -, rfl⟩ := member_list_eq_ok.mp h
    rfl
  | string type =>
    simp only [member, pure_eq_ok] at h
    subst h
    rfl
  | null | bool _ | number _ => simp [member] at h

theorem members_cons_of_ok {name : String} {value : Document} {first : Member}
    (hf : member (below path name) name value = .ok first)
    (h : members path entries = .ok found) :
    members path ((name, value) :: entries) = .ok (first :: found) :=
  members_cons_eq_ok.mpr ⟨first, found, hf, h, rfl⟩

theorem members_apart (h : members path entries = .ok found) :
    members path (entries.filter isText) = .ok (found.filter Member.isField) ∧
      members path (entries.filter (!isText ·)) = .ok (found.filter (!Member.isField ·)) := by
  induction entries generalizing found with
  | nil =>
    simp only [members, pure_eq_ok] at h
    subst h
    exact ⟨rfl, rfl⟩
  | cons entry rest ih =>
    obtain ⟨first, later, hf, hl, rfl⟩ := members_cons_eq_ok.mp h
    obtain ⟨hfields, hnodes⟩ := ih hl
    have ht := member_isText hf
    cases hi : isText entry with
    | true =>
      simp only [List.filter_cons, hi, ht]
      exact ⟨members_cons_of_ok hf hfields, hnodes⟩
    | false =>
      simp only [List.filter_cons, hi, ht]
      exact ⟨hfields, members_cons_of_ok hf hnodes⟩

theorem members_together {fields nodes : List Member}
    (hfields : members path (entries.filter isText) = .ok fields)
    (hnodes : members path (entries.filter (!isText ·)) = .ok nodes) :
    ∃ found, members path entries = .ok found ∧ found.filter Member.isField = fields ∧
      found.filter (!Member.isField ·) = nodes := by
  induction entries generalizing fields nodes with
  | nil =>
    simp only [List.filter_nil, members, pure_eq_ok] at hfields hnodes
    exact ⟨[], rfl, hfields, hnodes⟩
  | cons entry rest ih =>
    cases hi : isText entry with
    | true =>
      simp only [List.filter_cons, hi] at hfields hnodes
      obtain ⟨first, later, hf, hl, rfl⟩ := members_cons_eq_ok.mp hfields
      obtain ⟨found, hm, hof, hon⟩ := ih hl hnodes
      have ht := (member_isText hf).trans hi
      exact ⟨first :: found, members_cons_of_ok hf hm, by simp [ht, hof], by simp [ht, hon]⟩
    | false =>
      simp only [List.filter_cons, hi] at hfields hnodes
      obtain ⟨first, later, hf, hl, rfl⟩ := members_cons_eq_ok.mp hnodes
      obtain ⟨found, hm, hof, hon⟩ := ih hfields hl
      have ht := (member_isText hf).trans hi
      exact ⟨first :: found, members_cons_of_ok hf hm, by simp [ht, hof], by simp [ht, hon]⟩

theorem struct_eq (name : String) (found : List Member) :
    struct name found =
      .struct name ((found.filter (!Member.isField ·)).filterMap Member.node?)
        ((found.filter Member.isField).filterMap Member.field?) := by
  rw [struct, List.filterMap_filter, List.filterMap_filter]
  congr 1 <;> exact List.filterMap_congr fun m _ ↦ by cases m <;> rfl

mutual

/-- Bodies that are mixed in another way make the same struct. -/
theorem SameBody.members {body body' : List (String × Document)} (h : SameBody body body')
    {path : String} {found : List Member} (hm : members path body = .ok found) :
    ∃ found', members path body' = .ok found' ∧ ∀ name, struct name found' = struct name found :=
  match h with
  | .intro hfields hnodes => by
    obtain ⟨hf, hn⟩ := members_apart hm
    have hn' := hnodes.members hn
    obtain ⟨found', hm', hof, hon⟩ := members_together (hfields ▸ hf) hn'
    refine ⟨found', hm', fun name ↦ ?_⟩
    rw [struct_eq, struct_eq, hof, hon]

theorem SameNodes.members {nodes nodes' : List (String × Document)} (h : SameNodes nodes nodes')
    {path : String} {found : List Member} (hm : members path nodes = .ok found) :
    members path nodes' = .ok found :=
  match h with
  | .nil => hm
  | .struct name hbody hrest => by
    obtain ⟨first, later, hf, hl, rfl⟩ := members_cons_eq_ok.mp hm
    obtain ⟨inner, hi, rfl⟩ := member_mapping_eq_ok.mp hf
    obtain ⟨inner', hi', he⟩ := hbody.members hi
    have hf' : member (below path name) name _ = .ok (.node (struct name inner)) :=
      member_mapping_eq_ok.mpr ⟨inner', hi', by rw [he name]⟩
    exact members_cons_of_ok hf' (hrest.members hl)
  | .same entry hrest => by
    obtain ⟨first, later, hf, hl, rfl⟩ := members_cons_eq_ok.mp hm
    exact members_cons_of_ok hf (hrest.members hl)

end

end Bodies

section Root

theorem topLevel_sameNodes {nodes nodes' : List (String × Document)} (h : SameNodes nodes nodes')
    {read : List Node} (hm : (nodes.mapM fun (name, value) ↦ topLevel name value) = .ok read) :
    (nodes'.mapM fun (name, value) ↦ topLevel name value) = .ok read := by
  induction nodes generalizing nodes' read with
  | nil =>
    cases h
    exact hm
  | cons entry rest ih =>
    cases h with
    | struct name hbody hrest =>
      simp only [List.mapM_cons, bind_eq_ok, pure_eq_ok] at hm ⊢
      obtain ⟨node, hn, later, hl, rfl⟩ := hm
      obtain ⟨_, found, hv, hf, rfl⟩ := topLevel_eq_ok.mp hn
      cases hv
      obtain ⟨found', hf', he⟩ := hbody.members hf
      exact ⟨_, topLevel_eq_ok.mpr ⟨_, found', rfl, hf', (he name).symm⟩, later, ih hrest hl, rfl⟩
    | same entry hrest =>
      simp only [List.mapM_cons, bind_eq_ok, pure_eq_ok] at hm ⊢
      obtain ⟨node, hn, later, hl, rfl⟩ := hm
      exact ⟨node, hn, later, ih hrest hl, rfl⟩

variable {entries entries' : List (String × Document)} {key : String} {value : Document}

theorem SameEntry.fst_eq {entry entry' : String × Document} (h : SameEntry entry entry') :
    entry.1 = entry'.1 := by
  cases h <;> rfl

theorem lookup_sameEntry (h : List.Forall₂ SameEntry entries entries')
    (hl : entries.lookup key = some value) :
    ∃ value', entries'.lookup key = some value' ∧ SameEntry (key, value) (key, value') := by
  induction h with
  | nil => cases hl
  | @cons entry entry' rest rest' he _ ih =>
    obtain ⟨name, inner⟩ := entry
    obtain ⟨name', inner'⟩ := entry'
    obtain rfl : name = name' := he.fst_eq
    rw [List.lookup_cons] at hl ⊢
    cases hk : key == name with
    | true =>
      rw [hk] at hl
      obtain rfl := eq_of_beq hk
      obtain rfl := Option.some_inj.mp hl
      exact ⟨inner', rfl, he⟩
    | false =>
      rw [hk] at hl
      exact ih hl

theorem SameEntry.cases_value {value' : Document} (h : SameEntry (key, value) (key, value')) :
    value' = value ∨
    (∃ nodes nodes', value = mapping nodes ∧ value' = mapping nodes' ∧ key = "ast" ∧
      SameNodes nodes nodes') ∨
    ∃ sections sections', value = mapping sections ∧ value' = mapping sections' ∧
      key = "printer" ∧ sections.Perm sections' := by
  generalize he : (key, value) = entry at h
  generalize he' : (key, value') = entry' at h
  cases h with
  | ast hn =>
    cases he
    cases he'
    exact .inr (.inl ⟨_, _, rfl, rfl, rfl, hn⟩)
  | printer hp =>
    cases he
    cases he'
    exact .inr (.inr ⟨_, _, rfl, rfl, rfl, hp⟩)
  | same =>
    cases he
    cases he'
    exact .inl rfl

/-- Documents with the same contents in another order read as the same schema. -/
theorem ofDocument_rearranged {d d' : Document} {s : Schema} (hk : d.KeysDistinct)
    (hr : Rearranged d d') (h : ofDocument d = .ok s) : ofDocument d' = .ok s := by
  obtain ⟨root, moved, root', rfl, rfl, hp, hs⟩ := hr
  obtain ⟨_, ast, printer, he, hsys, hproject, hscope, hast, hprinter, hsections, hnodes⟩ :=
    ofDocument_eq_ok.mp h
  cases he
  have hfind {key : String} {value : Document} (hl : root.lookup key = some value) :
      ∃ value', root'.lookup key = some value' ∧ SameEntry (key, value) (key, value') :=
    lookup_sameEntry hs (lookup_of_perm hk.1 hp hl)
  -- Only the tree and the printer sections are mappings that may have been changed inside.
  have hkept {key : String} {value : Document} (hv : ∀ inner, value ≠ mapping inner)
      (hl : root.lookup key = some value) : root'.lookup key = some value := by
    obtain ⟨value', hl', he⟩ := hfind hl
    rcases he.cases_value with rfl | ⟨inner, _, rfl, -⟩ | ⟨inner, _, rfl, -⟩
    · exact hl'
    · exact absurd rfl (hv inner)
    · exact absurd rfl (hv inner)
  have htree : ∃ ast', root'.lookup "ast" = some (mapping ast') ∧
      (ast'.mapM fun (name, value) ↦ topLevel name value) = .ok s.ast := by
    obtain ⟨value', hl', he⟩ := hfind hast
    rcases he.cases_value with rfl | ⟨nodes, nodes', hv, rfl, -, hn⟩ | ⟨_, _, _, _, hne, _⟩
    · exact ⟨ast, hl', hnodes⟩
    · cases hv
      exact ⟨nodes', hl', topLevel_sameNodes hn hnodes⟩
    · exact absurd hne (by decide)
  have hlines : ∃ printer', root'.lookup "printer" = some (mapping printer') ∧
      printerSections printer' = .ok s.printer := by
    obtain ⟨value', hl', he⟩ := hfind hprinter
    rcases he.cases_value with rfl | ⟨_, _, _, _, hne, _⟩ | ⟨sections, sections', hv, rfl, -, hp'⟩
    · exact ⟨printer, hl', hsections⟩
    · exact absurd hne (by decide)
    · cases hv
      have hd := keysDistinct_at? hk ((at?_key root "printer").trans hprinter)
      refine ⟨sections', hl', printerSections_eq_ok.mpr fun entry hm ↦ ?_⟩
      exact lookup_of_perm hd.1 hp' (printerSections_eq_ok.mp hsections entry hm)
  obtain ⟨ast', hast', hnodes'⟩ := htree
  obtain ⟨printer', hprinter', hsections'⟩ := hlines
  exact ofDocument_eq_ok.mpr ⟨root', ast', printer', rfl, hkept nofun hsys, hkept nofun hproject,
    hkept nofun hscope, hast', hprinter', hsections', hnodes'⟩

end Root

/-- A TOML value is the document with its contents, so that both read as the same schema or fail
with the same error. If a document reads as a schema, so does a TOML value with the same contents in
which the fields and the nodes of each body keep their own order and the keys of the root and of the
printer sections have any, and the same files are generated from it. -/
theorem toml_reads_as_document :
    (∀ (d : Document) (t : Toml.Value), Toml.Value.ofDocument? d = some t →
      t.toDocument = d ∧ ofDocument t.toDocument = ofDocument d) ∧
    (∀ (d d' : Document) (t : Toml.Value) (s : Schema), d.KeysDistinct → Rearranged d d' →
      Toml.Value.ofDocument? d' = some t → ofDocument d = .ok s →
      ofDocument t.toDocument = .ok s ∧
      ∀ (unit : CodeUnit) (options : GeneratorOptions),
        (ofDocument t.toDocument).map (fun read ↦ unit.render read options) =
          (ofDocument d).map (fun read ↦ unit.render read options)) := by
  refine ⟨fun d t ht ↦ ?_, fun d d' t s hk hr ht h ↦ ?_⟩
  · have he := Toml.toDocument_of_ofDocument? ht
    exact ⟨he, by rw [he]⟩
  · have he := Toml.toDocument_of_ofDocument? ht
    have hs := ofDocument_rearranged hk hr h
    rw [he, hs, h]
    exact ⟨rfl, fun unit options ↦ rfl⟩

def sampleToml : Toml.Value :=
  .table
    [("sys_includes", .array [.string "vector"]),
     ("project_includes", .array []),
     ("namespace", .string "demo"),
     ("printer", .table
      [("field", .array [.string "f"]), ("definition_empty", .array []),
       ("definition_enum_case", .array []), ("definition_enum", .array []),
       ("definition", .array []), ("declaration", .array []),
       ("template", .array [.string "#definitions"])]),
     ("ast", .table
      [("Expr", .table
        [("kind", .string "Kind"), ("Kind", .array [.string "Lit", .string "Sum"]),
         ("Sum", .table [("lhs", .string "Expr*"), ("Kind", .table [])])]),
       ("Stmt", .table [])])]

theorem sampleToml_rearranged : Rearranged sample.toDocument sampleToml.toDocument := by
  refine ⟨_, _, _, rfl, rfl, .cons _ (.cons _ (.cons _ (.swap _ _ []))), ?_⟩
  have hsum : SameBody [("Kind", mapping []), ("lhs", .string "Expr*")]
      [("lhs", .string "Expr*"), ("Kind", mapping [])] := .intro rfl (.same _ .nil)
  refine .cons (.same _) <| .cons (.same _) <| .cons (.same _) <| .cons (.printer ?_) <|
    .cons (.ast ?_) .nil
  · exact (List.reverse_perm _).symm
  · exact .struct "Expr" (.intro rfl (.same _ (.struct "Sum" hsum .nil))) (.same _ .nil)

theorem sampleToml_reads_as_sample :
    sample.toDocument.KeysDistinct ∧ Rearranged sample.toDocument sampleToml.toDocument ∧
    Toml.Value.ofDocument? sampleToml.toDocument = some sampleToml ∧
    ofDocument sample.toDocument = .ok sample ∧
    ofDocument sampleToml.toDocument = .ok sample := by
  have hk : sample.toDocument.KeysDistinct := by decide
  have h := toml_reads_as_document.2 _ _ sampleToml sample hk sampleToml_rearranged rfl rfl
  exact ⟨hk, sampleToml_rearranged, rfl, rfl, h.1⟩

end Schema
end CppAst
