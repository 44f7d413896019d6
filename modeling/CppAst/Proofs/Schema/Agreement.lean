import CppAst.Proofs.Lookup
import CppAst.Proofs.Schema.Reading
import CppAst.Schema.Agreement

namespace CppAst

theorem Document.AgreeAt.of_perm {keys : List String}
    {entries entries' unknown : List (String × Document)} (hp : (entries ++ unknown).Perm entries')
    (hk : (entries'.map Prod.fst).Nodup) (hu : ∀ entry ∈ unknown, entry.1 ∉ keys) :
    AgreeAt keys entries entries' := by
  intro key hm
  have hn : unknown.lookup key = none := List.lookup_eq_none_iff.mpr fun entry he ↦
    bne_iff_ne.mpr fun hkey ↦ hu entry he (hkey ▸ hm)
  rw [← lookup_perm ((hp.map _).nodup_iff.mpr hk) hp, List.lookup_append, hn, Option.or_none]

namespace Schema

open Document

section Required

variable {entries entries' : List (String × Document)} {key : String}
  (h : entries.lookup key = entries'.lookup key) (path : String)

include h

theorem required_congr : required entries path key = required entries' path key := by
  rw [required, required, h]

theorem requiredMapping_congr :
    requiredMapping entries path key = requiredMapping entries' path key := by
  rw [requiredMapping, requiredMapping, required_congr h]

theorem requiredString_congr :
    requiredString entries path key = requiredString entries' path key := by
  rw [requiredString, requiredString, required_congr h]

theorem requiredStrings_congr :
    requiredStrings entries path key = requiredStrings entries' path key := by
  rw [requiredStrings, requiredStrings, required_congr h]

end Required

theorem printerSections_congr {sections sections' : List (String × Document)}
    (h : AgreeAt Check.sections sections sections') :
    printerSections sections = printerSections sections' := by
  have hs (key : String) (hm : key ∈ Check.sections) := requiredStrings_congr (h key hm) "printer"
  rw [printerSections, printerSections, hs "template" (by decide), hs "declaration" (by decide),
    hs "definition" (by decide), hs "definition_enum" (by decide),
    hs "definition_enum_case" (by decide), hs "definition_empty" (by decide),
    hs "field" (by decide)]

variable {root root' : List (String × Document)}

theorem Agree.printer_congr {α : Type} (h : Agree root root')
    (next : PrinterSections → Except SchemaError α) :
    (do next (← printerSections (← requiredMapping root "" "printer"))) =
      (do next (← printerSections (← requiredMapping root' "" "printer"))) := by
  rcases h.printer with hsame | ⟨sections, sections', hl, hl', hs⟩
  · rw [requiredMapping_congr (hsame "printer" List.mem_cons_self)]
  · rw [requiredMapping_eq_ok.mpr hl, requiredMapping_eq_ok.mpr hl']
    exact congrArg (· >>= next) (printerSections_congr hs)

/-- Documents that tell the same of a schema are read as the same schema, or fail with the same
error. -/
theorem ofDocument_eq_of_agree (h : Agree root root') :
    ofDocument (.mapping root) = ofDocument (.mapping root') := by
  have hkey (key : String) (hm : key ∈ ["sys_includes", "project_includes", "namespace", "ast"]) :=
    h.plain key hm
  rw [ofDocument, ofDocument, requiredStrings_congr (hkey "sys_includes" (by decide)),
    requiredStrings_congr (hkey "project_includes" (by decide)),
    requiredString_congr (hkey "namespace" (by decide)),
    requiredMapping_congr (hkey "ast" (by decide))]
  refine bind_congr fun sysIncludes ↦ bind_congr fun projectIncludes ↦ bind_congr fun scope ↦
    bind_congr fun ast ↦ ?_
  exact h.printer_congr _

def faultyRoot : List (String × Document) :=
  [("namespace", .null), ("project_includes", .string "demo.hpp"),
   ("printer", .mapping [("field", .list [])]), ("sys_includes", .list [])]

def faultyRootMoved : List (String × Document) :=
  [("remark", .bool true), ("sys_includes", .list []),
   ("printer", .mapping [("fields", .null), ("field", .list [])]),
   ("project_includes", .string "demo.hpp"), ("namespace", .null)]

theorem ofDocument_faultyRootMoved :
    Agree faultyRoot faultyRootMoved ∧
      ofDocument (.mapping faultyRootMoved) =
        .error (.invalidShape "project_includes" "a list of strings" "string") := by
  have hp : ([("field", .list [])] ++ [("fields", .null)] : List (String × Document)).Perm
      [("fields", .null), ("field", .list [])] := .swap _ _ []
  have hsections : AgreeAt Check.sections [("field", .list [])]
      [("fields", .null), ("field", .list [])] := .of_perm hp (by decide) (by decide)
  have h : Agree faultyRoot faultyRootMoved := by
    refine ⟨?_, .inr ⟨_, _, rfl, rfl, hsections⟩⟩
    simp only [AgreeAt, List.forall_mem_cons]
    exact ⟨rfl, rfl, rfl, rfl, List.forall_mem_nil _⟩
  exact ⟨h, (ofDocument_eq_of_agree h).symm⟩

end Schema
end CppAst
