import CppAst.Proofs.Schema.Reading
import CppAst.Schema.WellFormed
import Mathlib.Data.List.Perm.Basic

namespace CppAst

open Outcome

def Member.name : Member → String
  | node n => n.name
  | field f => f.name

def Member.NamesDistinct : Member → Prop
  | node n => n.NamesDistinct
  | field _ => True

namespace Schema

open Document

section Written

theorem members_fields (path : String) (fields : List Field) :
    members path (fields.map Field.toEntry) = .ok (fields.map Member.field) := by
  induction fields with
  | nil => rfl
  | cons f fields ih => exact members_cons_eq_ok.mpr ⟨_, _, rfl, ih, rfl⟩

theorem struct_nodes_fields (name : String) (nodes : List Node) (fields : List Field) :
    struct name (nodes.map Member.node ++ fields.map Member.field) =
      .struct name nodes fields := by
  simp [struct, List.filterMap_append, List.filterMap_map, Function.comp_def, Member.node?,
    Member.field?]

mutual

theorem member_toDocument (path : String) : ∀ node : Node,
    member path node.name node.toDocument = .ok (.node node)
  | .struct name subnodes fields => by
    have h := members_append (members_toEntries path subnodes) (members_fields path fields)
    exact member_mapping_eq_ok.mpr ⟨_, h, by rw [Node.name, struct_nodes_fields]⟩
  | .enum name elements => member_list_eq_ok.mpr ⟨elements, rfl, rfl⟩

theorem members_toEntries (path : String) : ∀ nodes : List Node,
    members path (Node.toEntries nodes) = .ok (nodes.map Member.node)
  | [] => rfl
  | node :: rest => members_cons_eq_ok.mpr
    ⟨_, _, member_toDocument _ node, members_toEntries path rest, rfl⟩

end

theorem topLevel_toDocument (node : Node) (h : node.isStruct) :
    topLevel node.name node.toDocument = .ok node := by
  cases node with
  | struct name subnodes fields =>
    have h := members_append (members_toEntries name subnodes) (members_fields name fields)
    exact topLevel_eq_ok.mpr ⟨_, _, rfl, h, (struct_nodes_fields name subnodes fields).symm⟩
  | enum => simp [Node.isStruct] at h

theorem mapM_topLevel_toEntries (nodes : List Node) (h : ∀ node ∈ nodes, node.isStruct) :
    ((Node.toEntries nodes).mapM fun (name, value) ↦ topLevel name value) = .ok nodes := by
  induction nodes with
  | nil => rfl
  | cons node rest ih =>
    rw [List.forall_mem_cons] at h
    simp only [Node.toEntries, List.mapM_cons, bind_eq_ok, pure_eq_ok]
    exact ⟨node, topLevel_toDocument node h.1, rest, ih h.2, rfl⟩

theorem ofDocument_toDocument {s : Schema} (h : ∀ node ∈ s.ast, node.isStruct) :
    ofDocument s.toDocument = .ok s := by
  refine ofDocument_eq_ok.mpr ⟨_, _, _, rfl, rfl, rfl, rfl, rfl, rfl, ?_,
    mapM_topLevel_toEntries s.ast h⟩
  rw [printerSections_eq_ok]
  simp [PrinterSections.toEntries, List.lookup_cons]

theorem map_fst_toEntries (nodes : List Node) :
    (Node.toEntries nodes).map Prod.fst = nodes.map Node.name := by
  induction nodes with
  | nil => rfl
  | cons node rest ih => simp [Node.toEntries, ih]

theorem keysDistinct_ofTexts (texts : List String) : (ofTexts texts).KeysDistinct := by
  rw [ofTexts, KeysDistinct, keysDistinctIn_iff]
  simp [KeysDistinct]

mutual

theorem keysDistinct_toDocument : ∀ {node : Node}, node.NamesDistinct → node.toDocument.KeysDistinct
  | .struct name subnodes fields, h => by
    obtain ⟨hn, hs⟩ := h
    have hb := keysDistinctBelow_toEntries hs
    rw [keysDistinctBelow_iff] at hb
    rw [Node.toDocument, KeysDistinct, keysDistinctBelow_iff]
    refine ⟨?_, ?_⟩
    · simpa [map_fst_toEntries, Function.comp_def, Field.toEntry] using hn
    · intro entry he
      rcases List.mem_append.mp he with he | he
      · exact hb entry he
      · obtain ⟨f, -, rfl⟩ := List.mem_map.mp he
        simp [Field.toEntry, KeysDistinct]
  | .enum name elements, _ => keysDistinct_ofTexts elements

theorem keysDistinctBelow_toEntries : ∀ {nodes : List Node}, Node.NamesDistinctIn nodes →
    KeysDistinctBelow (Node.toEntries nodes)
  | [], _ => trivial
  | _ :: _, h => ⟨keysDistinct_toDocument h.1, keysDistinctBelow_toEntries h.2⟩

end

theorem WellFormed.keysDistinct {s : Schema} (h : s.WellFormed) : s.toDocument.KeysDistinct := by
  have ht : (ofTexts s.sysIncludes).KeysDistinct ∧ (ofTexts s.projectIncludes).KeysDistinct :=
    ⟨keysDistinct_ofTexts _, keysDistinct_ofTexts _⟩
  have ha : (mapping (Node.toEntries s.ast)).KeysDistinct := by
    refine ⟨?_, keysDistinctBelow_toEntries h.inner⟩
    rw [map_fst_toEntries]
    exact h.names
  have hp : (mapping s.printer.toEntries).KeysDistinct := by
    rw [KeysDistinct, keysDistinctBelow_iff]
    refine ⟨by simp [PrinterSections.toEntries], ?_⟩
    simp [PrinterSections.toEntries, keysDistinct_ofTexts]
  rw [toDocument, KeysDistinct]
  exact ⟨by simp, ht.1, ht.2, trivial, ha, hp, trivial⟩

end Written

section Read

theorem member_name {path name : String} {value : Document} {m : Member}
    (h : member path name value = .ok m) : m.name = name := by
  cases value with
  | mapping entries =>
    obtain ⟨found, -, rfl⟩ := member_mapping_eq_ok.mp h
    rfl
  | list items =>
    obtain ⟨elements, -, rfl⟩ := member_list_eq_ok.mp h
    rfl
  | string type =>
    simp only [member, pure_eq_ok] at h
    rw [← h, Member.name]
  | null | bool _ | number _ => simp [member] at h

theorem members_names {path : String} {entries : List (String × Document)} {found : List Member}
    (h : members path entries = .ok found) : found.map Member.name = entries.map Prod.fst := by
  induction entries generalizing found with
  | nil =>
    simp only [members, pure_eq_ok] at h
    simp [← h]
  | cons entry rest ih =>
    obtain ⟨first, later, hf, hl, rfl⟩ := members_cons_eq_ok.mp h
    rw [List.map_cons, List.map_cons, member_name hf, ih hl]

theorem perm_names (found : List Member) :
    ((found.filterMap Member.node?).map Node.name ++
      (found.filterMap Member.field?).map Field.name).Perm (found.map Member.name) := by
  induction found with
  | nil => rfl
  | cons m found ih =>
    cases m with
    | node n => exact ih.cons n.name
    | field f => exact List.perm_middle.trans (ih.cons f.name)

theorem struct_namesDistinct (name : String) {found : List Member}
    (h : (found.map Member.name).Nodup) (hm : ∀ m ∈ found, m.NamesDistinct) :
    (struct name found).NamesDistinct := by
  refine ⟨(perm_names found).nodup_iff.mpr h, Node.namesDistinctIn_iff.mpr ?_⟩
  intro node hn
  obtain ⟨m, hm', he⟩ := List.mem_filterMap.mp hn
  cases m with
  | node n =>
    cases he
    exact hm _ hm'
  | field f => cases he

mutual

theorem member_namesDistinct : ∀ {path name : String} {value : Document} {m : Member},
    value.KeysDistinct → member path name value = .ok m → m.NamesDistinct
  | _, name, mapping entries, _, hk, h => by
    obtain ⟨found, hf, rfl⟩ := member_mapping_eq_ok.mp h
    have hn : (found.map Member.name).Nodup := members_names hf ▸ hk.1
    exact struct_namesDistinct name hn (members_namesDistinct hk.2 hf)
  | _, _, list items, _, _, h => by
    obtain ⟨elements, -, rfl⟩ := member_list_eq_ok.mp h
    trivial
  | _, _, string type, _, _, h => by
    simp only [member, pure_eq_ok] at h
    rw [← h]
    trivial

theorem members_namesDistinct : ∀ {path : String} {entries : List (String × Document)}
    {found : List Member}, KeysDistinctBelow entries → members path entries = .ok found →
      ∀ m ∈ found, m.NamesDistinct
  | _, [], _, _, h => by
    simp only [members, pure_eq_ok] at h
    simp [← h]
  | _, (_, _) :: _, _, hk, h => by
    obtain ⟨first, later, hf, hl, rfl⟩ := members_cons_eq_ok.mp h
    exact List.forall_mem_cons.mpr ⟨member_namesDistinct hk.1 hf, members_namesDistinct hk.2 hl⟩

end

theorem topLevel_struct {name : String} {value : Document} {node : Node}
    (hk : value.KeysDistinct) (h : topLevel name value = .ok node) :
    node.isStruct ∧ node.name = name ∧ node.NamesDistinct := by
  obtain ⟨entries, found, rfl, hf, rfl⟩ := topLevel_eq_ok.mp h
  have hn : (found.map Member.name).Nodup := members_names hf ▸ hk.1
  exact ⟨rfl, rfl, struct_namesDistinct _ hn (members_namesDistinct hk.2 hf)⟩

theorem mapM_topLevel {entries : List (String × Document)} {nodes : List Node}
    (hk : ∀ entry ∈ entries, entry.2.KeysDistinct)
    (h : (entries.mapM fun (name, value) ↦ topLevel name value) = .ok nodes) :
    nodes.map Node.name = entries.map Prod.fst ∧
      ∀ node ∈ nodes, node.isStruct ∧ node.NamesDistinct := by
  induction entries generalizing nodes with
  | nil =>
    simp only [List.mapM_nil, pure_eq_ok] at h
    simp [← h]
  | cons entry rest ih =>
    rw [List.forall_mem_cons] at hk
    simp only [List.mapM_cons, bind_eq_ok, pure_eq_ok] at h
    obtain ⟨node, hn, nodes, hr, rfl⟩ := h
    obtain ⟨hs, hname, hd⟩ := topLevel_struct hk.1 hn
    obtain ⟨hnames, hall⟩ := ih hk.2 hr
    exact ⟨by simp [hname, hnames], List.forall_mem_cons.mpr ⟨⟨hs, hd⟩, hall⟩⟩

theorem wellFormed_of_ofDocument {d : Document} {s : Schema} (hk : d.KeysDistinct)
    (h : ofDocument d = .ok s) : s.WellFormed := by
  obtain ⟨root, ast, printer, rfl, -, -, -, ha, -, -, hm⟩ := ofDocument_eq_ok.mp h
  have hast : (mapping ast).KeysDistinct := by
    obtain ⟨before, after, rfl, -⟩ := List.lookup_eq_some_iff.mp ha
    exact keysDistinctBelow_iff.mp hk.2 ("ast", mapping ast) (by simp)
  obtain ⟨hn, hs⟩ := mapM_topLevel (keysDistinctBelow_iff.mp hast.2) hm
  exact
    { structs := fun node hmem ↦ (hs node hmem).1
      names := hn ▸ hast.1
      inner := Node.namesDistinctIn_iff.mpr fun node hmem ↦ (hs node hmem).2 }

end Read

/-- Writing and reading go back and forth between the well-formed schemas and documents without
repeated keys: what is written is such a document and reads as the schema it came from, and what is
read is well-formed, so that it can be written and read again. -/
theorem read_write_inverse :
    (∀ s : Schema, s.WellFormed → s.toDocument.KeysDistinct ∧ ofDocument s.toDocument = .ok s) ∧
    (∀ (d : Document) (s : Schema), d.KeysDistinct → ofDocument d = .ok s →
      s.WellFormed ∧ ofDocument s.toDocument = .ok s) := by
  refine ⟨fun s h ↦ ⟨h.keysDistinct, ofDocument_toDocument h.structs⟩, fun d s hk h ↦ ?_⟩
  have hw := wellFormed_of_ofDocument hk h
  exact ⟨hw, ofDocument_toDocument hw.structs⟩

def sample : Schema where
  sysIncludes := ["vector"]
  projectIncludes := []
  scope := "demo"
  ast :=
    [.struct "Expr"
      [.enum "Kind" ["Lit", "Sum"], .struct "Sum" [.struct "Kind" [] []] [⟨"lhs", "Expr*"⟩]]
      [⟨"kind", "Kind"⟩],
     .struct "Stmt" [] []]
  printer := ⟨["#definitions"], [], [], [], [], [], ["f"]⟩

def sampleDocument : Document :=
  .mapping
    [("version", .null),
     ("printer", .mapping (("unused", .bool true) :: sample.printer.toEntries.reverse)),
     ("ast", .mapping
      [("Expr", .mapping
        [("kind", .string "Kind"), ("Kind", .list [.string "Lit", .string "Sum"]),
         ("Sum", .mapping [("lhs", .string "Expr*"), ("Kind", .mapping [])])]),
       ("Stmt", .mapping [])]),
     ("namespace", .string "demo"),
     ("project_includes", .list []),
     ("sys_includes", .list [.string "vector"])]

theorem read_write_sample :
    (sample.toDocument.KeysDistinct ∧ ofDocument sample.toDocument = .ok sample) ∧
    (sample.WellFormed ∧ ofDocument sample.toDocument = .ok sample) :=
  ⟨read_write_inverse.1 sample (by decide),
    read_write_inverse.2 sampleDocument sample (by decide) rfl⟩

end Schema
end CppAst
