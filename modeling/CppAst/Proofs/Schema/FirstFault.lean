import CppAst.Proofs.Schema.Places
import CppAst.Proofs.Schema.Reading

namespace CppAst

open Outcome

namespace Schema

open Document

theorem error?_texts (items : List Document) :
    error? (texts items) = (items.find? (!·.isString)).map shape := by
  induction items with
  | nil => rfl
  | cons item rest ih =>
    cases item with
    | string text =>
      rw [texts, List.find?_cons_of_neg (by simp [isString]), ← ih]
      cases texts rest <;> rfl
    | null | bool _ | number _ | list _ | mapping _ => rfl

section Required

variable {d : Document} {entries : List (String × Document)} {path key : String}
  {place : List String}

/-- A required entry is one check if what is done with its value refuses what the demand refuses. -/
theorem error?_required {α : Type} {demand : Demand} {f : Document → Except SchemaError α}
    (hl : d.at? place = entries.lookup key) (hp : pathOf path key = Check.path ⟨place, demand⟩)
    (hf : ∀ value, error? (f value) = (demand.refusal? value).map fun (expected, found) ↦
      .invalidShape (pathOf path key) expected found) :
    error? (required entries path key >>= f) = Check.fault? d ⟨place, demand⟩ := by
  rw [Check.fault?, hl, ← hp, required]
  cases entries.lookup key with
  | none => rfl
  | some value => exact hf value

theorem error?_requiredMapping (hl : d.at? place = entries.lookup key)
    (hp : pathOf path key = Check.dotted place) :
    error? (requiredMapping entries path key) = Check.fault? d ⟨place, .mapping⟩ :=
  error?_required hl hp fun value ↦ by cases value <;> rfl

theorem error?_requiredString (hl : d.at? place = entries.lookup key)
    (hp : pathOf path key = Check.dotted place) :
    error? (requiredString entries path key) = Check.fault? d ⟨place, .string⟩ :=
  error?_required hl hp fun value ↦ by cases value <;> rfl

theorem error?_requiredStrings (hl : d.at? place = entries.lookup key)
    (hp : pathOf path key = Check.dotted place) :
    error? (requiredStrings entries path key) = Check.fault? d ⟨place, .strings⟩ := by
  refine error?_required hl hp fun value ↦ ?_
  cases value with
  | list items =>
    rw [error?_mapError, error?_texts]
    change _ = Option.map _ (Option.map _ _)
    rw [Option.map_map, Option.map_map]
    rfl
  | null | bool _ | number _ | string _ | mapping _ => rfl

end Required

theorem error?_check {α β : Type} {d : Document} {x : Except SchemaError α}
    {f : α → Except SchemaError β} {check : Check} {later : List Check}
    (hx : error? x = check.fault? d)
    (hf : ∀ a, x = .ok a → error? (f a) = later.findSome? (Check.fault? d)) :
    error? (x >>= f) = (check :: later).findSome? (Check.fault? d) := by
  rw [error?_bind hf, hx, List.findSome?_cons]
  cases check.fault? d <;> rfl

section Tree

variable {d : Document} {keys : List String} {value : Document}

theorem below_dotted (h : keys ≠ []) (name : String) :
    below (Check.dotted keys) name = Check.dotted (keys ++ [name]) := by
  rw [Check.dotted, Check.dotted, String.intercalate_append_of_ne_nil h (List.cons_ne_nil _ _),
    String.intercalate_singleton, below]

theorem ofEntry_first (name : String) : Check.ofEntry [name] = ⟨["ast", name], .topLevel⟩ := rfl

theorem ofEntry_inner (h : 1 < keys.length) : Check.ofEntry keys = ⟨"ast" :: keys, .member⟩ := by
  rw [Check.ofEntry, if_neg (by omega)]

theorem error?_leaf (name : String) (hl : 1 < keys.length)
    (hv : d.at? ("ast" :: keys) = some value) (hm : ∀ entries, value ≠ mapping entries) :
    error? (member (Check.dotted keys) name value) = (Check.ofEntry keys).fault? d := by
  rw [ofEntry_inner hl, Check.fault?, hv]
  cases value with
  | mapping entries => exact absurd rfl (hm entries)
  | list items =>
    have ht := error?_texts items
    rw [member]
    change _ = Option.map _ (Option.map _ _)
    cases hx : texts items with
    | ok elements =>
      rw [hx] at ht
      rw [Option.map_eq_none_iff.mp ht.symm]
      rfl
    | error found =>
      rw [hx] at ht
      obtain ⟨item, hi, rfl⟩ := Option.map_eq_some_iff.mp ht.symm
      rw [hi]
      rfl
  | null | bool _ | number _ | string _ => rfl

mutual

theorem error?_member (name : String) : ∀ {keys : List String} {value : Document},
    1 < keys.length → d.at? ("ast" :: keys) = some value → value.KeysDistinct →
    error? (member (Check.dotted keys) name value) =
      ((keys :: value.places.map (keys ++ ·)).map Check.ofEntry).findSome? (Check.fault? d)
  | keys, mapping entries, hl, hv, hk => by
    have hne : keys ≠ [] := List.ne_nil_of_length_pos (by omega)
    have hfault : (Check.ofEntry keys).fault? d = none := by
      rw [ofEntry_inner hl, Check.fault?, hv]
      rfl
    rw [member, error?_bind (fun _ _ ↦ error?_pure _), Option.or_none, List.map_cons,
      List.findSome?_cons, hfault]
    exact error?_members hne (at?_entries hv hk.1) hk.2
  | keys, null, hl, hv, _ | keys, .bool _, hl, hv, _ | keys, number _, hl, hv, _
  | keys, string _, hl, hv, _ | keys, list _, hl, hv, _ => by
    rw [error?_leaf name hl hv (by simp), places, List.map_nil, List.map_singleton,
      List.findSome?_singleton]

theorem error?_members : ∀ {keys : List String} {entries : List (String × Document)},
    keys ≠ [] → (∀ entry ∈ entries, d.at? ("ast" :: keys ++ [entry.1]) = some entry.2) →
    KeysDistinctBelow entries →
    error? (members (Check.dotted keys) entries) =
      (((placesIn entries).map (keys ++ ·)).map Check.ofEntry).findSome? (Check.fault? d)
  | keys, [], _, _, _ => rfl
  | keys, (name, value) :: rest, hne, hv, hk => by
    -- The entries that are left need no place of their own: each is known by where it stands.
    rw [List.forall_mem_cons] at hv
    have hl : 1 < (keys ++ [name]).length := by
      have := List.length_pos_iff.mpr hne
      simp
      omega
    rw [members, below_dotted hne, error?_bind fun _ _ ↦ error?_bind fun _ _ ↦ error?_pure _,
      error?_member name hl hv.1 hk.1, Option.or_none, error?_members hne hv.2 hk.2,
      ← List.findSome?_append, ← List.map_append]
    simp [placesIn, Function.comp_def]

end

theorem error?_topLevel {name : String} (hv : d.at? ["ast", name] = some value)
    (hk : value.KeysDistinct) :
    error? (topLevel name value) =
      (([name] :: value.places.map (name :: ·)).map Check.ofEntry).findSome? (Check.fault? d) := by
  cases value with
  | mapping entries =>
    have hfault : (Check.ofEntry [name]).fault? d = none := by
      rw [ofEntry_first, Check.fault?, hv]
      rfl
    rw [topLevel, error?_bind fun _ _ ↦ error?_pure _, Option.or_none, List.map_cons,
      List.findSome?_cons, hfault]
    exact error?_members (List.cons_ne_nil name []) (at?_entries hv hk.1) hk.2
  | null | bool _ | number _ | string _ | list _ =>
    rw [places, List.map_nil, List.map_singleton, List.findSome?_singleton, ofEntry_first,
      Check.fault?, hv]
    rfl

theorem error?_mapM_topLevel {entries : List (String × Document)}
    (hv : ∀ entry ∈ entries, d.at? ["ast", entry.1] = some entry.2)
    (hk : KeysDistinctBelow entries) :
    error? (entries.mapM fun (name, value) ↦ topLevel name value) =
      ((placesIn entries).map Check.ofEntry).findSome? (Check.fault? d) := by
  induction entries with
  | nil => rfl
  | cons entry rest ih =>
    rw [List.forall_mem_cons] at hv
    rw [List.mapM_cons, error?_bind fun _ _ ↦ error?_bind fun _ _ ↦ error?_pure _,
      error?_topLevel hv.1 hk.1, Option.or_none, ih hv.2 hk.2, ← List.findSome?_append,
      ← List.map_append]
    rfl

end Tree

theorem error?_printerSections {d : Document} {entries : List (String × Document)}
    (h : d.at? ["printer"] = some (mapping entries)) :
    error? (printerSections entries) =
      (Check.sections.map fun key ↦ ⟨["printer", key], .strings⟩).findSome? (Check.fault? d) := by
  have hs (key : String) : error? (requiredStrings entries "printer" key) =
      Check.fault? d ⟨["printer", key], .strings⟩ := by
    refine error?_requiredStrings ?_ ?_
    · rw [← List.singleton_append, at?_append, h, Option.bind_some, at?_key]
    · rw [← List.singleton_append, ← below_dotted (List.cons_ne_nil _ _)]
      rfl
  exact error?_check (hs _) fun _ _ ↦ error?_check (hs _) fun _ _ ↦ error?_check (hs _) fun _ _ ↦
    error?_check (hs _) fun _ _ ↦ error?_check (hs _) fun _ _ ↦ error?_check (hs _) fun _ _ ↦
    error?_check (hs _) fun _ _ ↦ rfl

/-- A document fails to denote a schema with the fault of the first check that it does not pass. -/
theorem error?_ofDocument {d : Document} (hk : d.KeysDistinct) :
    error? (ofDocument d) = d.checks.findSome? (Check.fault? d) := by
  cases d with
  | mapping root =>
    have hp (key : String) : pathOf "" key = Check.dotted [key] := by
      rw [Check.dotted, String.intercalate_singleton]
      rfl
    rw [checks, Check.fixed, List.append_assoc, List.cons_append, List.findSome?_cons]
    change error? (ofDocument (mapping root)) = _
    -- The readers make the fixed checks one by one, up to the tree with the entries' own checks.
    refine error?_check (error?_requiredStrings (at?_key _ _) (hp _)) fun _ _ ↦
      error?_check (error?_requiredStrings (at?_key _ _) (hp _)) fun _ _ ↦
      error?_check (error?_requiredString (at?_key _ _) (hp _)) fun _ _ ↦
      error?_check (error?_requiredMapping (at?_key _ _) (hp _)) fun ast ha ↦
      error?_check (error?_requiredMapping (at?_key _ _) (hp _)) fun printer hpr ↦ ?_
    rw [requiredMapping_eq_ok, ← at?_key] at ha hpr
    rw [List.append_eq, List.nil_append, List.findSome?_append, ← error?_printerSections hpr, ha]
    refine error?_bind fun sections _ ↦ ?_
    have hast : (mapping ast).KeysDistinct := keysDistinct_at? hk ha
    rw [error?_bind fun _ _ ↦ error?_pure _, Option.or_none]
    exact error?_mapM_topLevel (at?_entries ha hast.1) hast.2
  | null | bool _ | number _ | string _ | list _ => rfl

end Schema

namespace SchemaError

open Check

theorem lastSegment_dotted (keys : List String) {key : String} (h : '.' ∉ key.toList) :
    lastSegment (dotted (keys ++ [key])) = key := by
  -- What comes before the key, read backwards, is nothing or starts with a dot.
  obtain ⟨before, hb, hd⟩ : ∃ before : List Char, before.takeWhile (· ≠ '.') = [] ∧
      (dotted (keys ++ [key])).toList.reverse = key.toList.reverse ++ before := by
    cases keys with
    | nil => exact ⟨[], rfl, by simp [dotted]⟩
    | cons first rest =>
      refine ⟨'.' :: (dotted (first :: rest)).toList.reverse, by simp, ?_⟩
      rw [dotted, String.intercalate_append_of_ne_nil (List.cons_ne_nil _ _)
        (List.cons_ne_nil _ _), dotted]
      simp
  have hk : ∀ c ∈ key.toList.reverse, decide (c ≠ '.') = true := by
    intro c hc
    have hne : c ≠ '.' := fun he ↦ h (he ▸ List.mem_reverse.mp hc)
    simpa using hne
  rw [lastSegment, hd, List.takeWhile_append_of_pos hk, hb, List.append_nil, List.reverse_reverse,
    String.ofList_toList]

theorem getLast?_dotted {keys : List String} (hne : keys ≠ [])
    (h : ∀ key ∈ keys, '.' ∉ key.toList) : keys.getLast? = some (lastSegment (dotted keys)) := by
  obtain ⟨before, last, rfl⟩ := List.eq_nil_or_concat keys |>.resolve_left hne
  rw [List.concat_eq_append, List.getLast?_concat, lastSegment_dotted before (h last (by simp))]

end SchemaError

namespace Check

open Document

variable {d : Document} {check : Check} {e : SchemaError}

theorem mem_fixed {c : Check} (h : c ∈ fixed) :
    c = ⟨[], .document⟩ ∨ c.place ≠ [] ∧ c.path = dotted c.place := by
  revert h
  revert c
  simp [fixed, sections, path]

theorem outer_before {before after : List Check} (h : fixed = before ++ check :: after)
    (hne : check.place ≠ []) : ∃ outer ∈ before, outer.place = check.place.dropLast ∧
      (outer.demand = .document ∨ outer.demand = .mapping) := by
  -- The fixed checks are few, so that this can be looked up for each of them.
  have all : ∀ i < fixed.length, ∀ c ∈ fixed[i]?, c.place ≠ [] →
      ∃ outer ∈ fixed.take i, outer.place = c.place.dropLast ∧
        (outer.demand = .document ∨ outer.demand = .mapping) := by
    decide
  have := all before.length (by rw [h]; simp) check (by rw [h]; simp) hne
  rwa [h, List.take_left] at this

theorem mapping_of_passed {outer : Check} (h : outer.fault? d = none)
    (hd : outer.demand = .document ∨ outer.demand = .mapping) :
    ∃ entries, d.at? outer.place = some (.mapping entries) := by
  rw [fault?] at h
  cases hv : d.at? outer.place with
  | none => simp [hv] at h
  | some value =>
    rw [hv] at h
    rcases hd with hd | hd <;> cases value <;> simp [hd, Demand.refusal?] at h ⊢

theorem fault?_eq_some : check.fault? d = some e ↔
    (d.at? check.place = none ∧ e = .missingKey check.path) ∨
      ∃ value expected found, d.at? check.place = some value ∧
        check.demand.refusal? value = some (expected, found) ∧
        e = .invalidShape check.path expected found := by
  rw [fault?]
  cases d.at? check.place with
  | none => simp [eq_comm]
  | some value =>
    simp only [Option.map_eq_some_iff, Prod.exists]
    constructor
    · rintro ⟨expected, found, hr, rfl⟩
      exact .inr ⟨value, expected, found, rfl, hr, rfl⟩
    · rintro (⟨h, -⟩ | ⟨_, expected, found, h, hr, rfl⟩)
      · cases h
      · exact ⟨expected, found, Option.some_inj.mp h ▸ hr, rfl⟩

theorem name_of_fault? (h : check.fault? d = some e) :
    e.name = SchemaError.lastSegment check.path := by
  rcases fault?_eq_some.mp h with ⟨-, rfl⟩ | ⟨_, _, _, -, -, rfl⟩ <;> rfl

theorem fixed_noDots : ∀ c ∈ fixed, ∀ key ∈ c.place, '.' ∉ key.toList := by
  simp [fixed, sections]

theorem firstFailed_fixed {before after : List Check} (h : fixed = before ++ check :: after)
    (hb : ∀ earlier ∈ before, earlier.fault? d = none) (hf : check.fault? d = some e) :
    FirstFailed d e check := by
  have hmem : check ∈ fixed := h ▸ List.mem_append_right before List.mem_cons_self
  refine ⟨⟨before, after ++ ((d.at? ["ast"]).elim [] places).map ofEntry, ?_, hb⟩, hf, ?_, ?_⟩
  · rw [checks, h, List.append_assoc, List.cons_append]
  · rcases fault?_eq_some.mp hf with ⟨hn, rfl⟩ | hv
    · rcases mem_fixed hmem with rfl | ⟨hne, hp⟩
      · simp at hn
      · obtain ⟨outer, ho, hplace, hd⟩ := outer_before h hne
        exact .inl ⟨hn, hplace ▸ mapping_of_passed (hb outer ho) hd, by rw [hp]⟩
    · exact .inr hv
  · rintro ⟨root, rfl⟩ -
    rcases mem_fixed hmem with rfl | ⟨hne, hp⟩
    · cases hf
    · rw [name_of_fault? hf, hp]
      exact SchemaError.getLast?_dotted hne (fixed_noDots check hmem)

theorem path_ofEntry (keys : List String) : (ofEntry keys).path = dotted keys := by
  by_cases h : keys.length = 1 <;> simp [path, ofEntry, h]

theorem firstFailed_entry {before after : List Check} {ast : Document} (hk : d.KeysDistinct)
    (ha : d.at? ["ast"] = some ast) (h : ast.places.map ofEntry = before ++ check :: after)
    (hp : ∀ earlier ∈ fixed, earlier.fault? d = none)
    (hb : ∀ earlier ∈ before, earlier.fault? d = none) (hf : check.fault? d = some e) :
    FirstFailed d e check := by
  have hmem : check ∈ ast.places.map ofEntry := h ▸ List.mem_append_right before List.mem_cons_self
  obtain ⟨keys, hkeys, rfl⟩ := List.mem_map.mp hmem
  obtain ⟨hne, hsome⟩ := (mem_places (keysDistinct_at? hk ha)).mp hkeys
  have hplace : d.at? ("ast" :: keys) = ast.at? keys := by
    rw [← List.singleton_append, at?_append, ha, Option.bind_some]
  refine ⟨⟨fixed ++ before, after, ?_, ?_⟩, hf, ?_, ?_⟩
  · rw [checks, ha, Option.elim_some, h, List.append_assoc]
  · exact fun earlier he ↦ (List.mem_append.mp he).elim (hp earlier) (hb earlier)
  · -- The value is there, since its place is one of the tree.
    refine .inr ((fault?_eq_some.mp hf).resolve_left fun hn ↦ ?_)
    have hnone : d.at? ("ast" :: keys) = none := hn.1
    rw [hplace] at hnone
    simp [hnone] at hsome
  · intro _ hdots
    have hin : "ast" :: keys ∈ d.places := (mem_places hk).mpr ⟨List.cons_ne_nil _ _, hplace ▸ hsome⟩
    rw [name_of_fault? hf, path_ofEntry, ← SchemaError.getLast?_dotted hne fun key hm ↦
      hdots _ hin key (List.mem_cons_of_mem _ hm)]
    exact List.getLast?_cons_of_ne_nil hne

end Check

namespace Schema

/-- An error of reading is that of the first check that the document does not pass, and tells it. -/
theorem firstFailed_of_error {d : Document} {e : SchemaError} (hk : d.KeysDistinct)
    (h : ofDocument d = .error e) : ∃ check, Check.FirstFailed d e check := by
  have hfault := (error?_ofDocument hk).symm.trans (error?_eq_some.mpr h)
  rw [Document.checks, List.findSome?_append, Option.or_eq_some_iff] at hfault
  rcases hfault with hfault | ⟨hpassed, hfault⟩
  · obtain ⟨before, check, after, hc, hf, hb⟩ := List.findSome?_eq_some_iff.mp hfault
    exact ⟨check, Check.firstFailed_fixed hc hb hf⟩
  · rw [List.findSome?_eq_none_iff] at hpassed
    cases ha : d.at? ["ast"] with
    | none => simp [ha] at hfault
    | some ast =>
      rw [ha] at hfault
      obtain ⟨before, check, after, hc, hf, hb⟩ := List.findSome?_eq_some_iff.mp hfault
      exact ⟨check, Check.firstFailed_entry hk ha hc hpassed hb hf⟩

def faultyDocument : Document :=
  .mapping
    [("ast", .mapping
      [("Expr", .mapping
        [("lhs", .string "Expr*"),
         ("Sum", .mapping [("Kind", .list [.string "Plus", .number ⟨3, 0⟩])]),
         ("rhs", .null)]),
       ("Stmt", .bool true)]),
     ("printer", .mapping (PrinterSections.toEntries ⟨[], [], [], [], [], [], []⟩)),
     ("namespace", .string "demo"),
     ("project_includes", .list [.string "demo.hpp"]),
     ("sys_includes", .list [])]

theorem firstFailed_of_faultyDocument :
    faultyDocument.KeysDistinct ∧
      ofDocument faultyDocument =
        .error (.invalidShape "Expr.Sum.Kind" "a list of strings (enum elements)" "number") ∧
      ∃ check, Check.FirstFailed faultyDocument
        (.invalidShape "Expr.Sum.Kind" "a list of strings (enum elements)" "number") check :=
  ⟨by decide, rfl, firstFailed_of_error (by decide) rfl⟩

end Schema
end CppAst
