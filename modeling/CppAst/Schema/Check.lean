import CppAst.Document
import CppAst.Schema.Error

namespace CppAst

namespace Document

def isString : Document → Bool
  | string _ => true
  | null | bool _ | number _ | list _ | mapping _ => false

def at? : Document → List String → Option Document
  | d, [] => some d
  | mapping entries, key :: keys => (entries.lookup key).bind (at? · keys)
  | _, _ :: _ => none

mutual

/-- The sequences of keys that lead to a value inside, in the order of the document. Each comes right
before those that go on from it. -/
def places : Document → List (List String)
  | mapping entries => placesIn entries
  | null | bool _ | number _ | string _ | list _ => []

def placesIn : List (String × Document) → List (List String)
  | [] => []
  | (key, value) :: rest => [key] :: (places value).map (key :: ·) ++ placesIn rest

end

end Document

inductive Demand where
  | document
  | mapping
  | string
  | strings
  | topLevel
  | member
deriving Repr, DecidableEq

namespace Demand

def expected : Demand → String
  | document | mapping => "a mapping"
  | string => "a string"
  | strings => "a list of strings"
  | topLevel => "a mapping (top-level nodes are structs)"
  | member => "a mapping (struct), list (enum) or string (field type)"

/-- What a value that does not meet the demand is told: what is expected, and the shape that was
found. A list that may only hold strings is told the shape of its first item that is none. -/
def refusal? : Demand → Document → Option (String × String)
  | document, .mapping _ | mapping, .mapping _ | topLevel, .mapping _ | member, .mapping _ => none
  | string, .string _ | member, .string _ => none
  | strings, .list items =>
    (items.find? (!·.isString)).map fun item ↦ (strings.expected, item.shape)
  | member, .list items =>
    (items.find? (!·.isString)).map fun item ↦ ("a list of strings (enum elements)", item.shape)
  | demand, value => some (demand.expected, value.shape)

end Demand

/-- Something asked of the value at a place, which must be there. -/
structure Check where
  place : List String
  demand : Demand
deriving Repr, DecidableEq

namespace Check

def dotted (keys : List String) : String := ".".intercalate keys

/-- What an error calls the place. The places of the tree are told from its root on. -/
def path (c : Check) : String :=
  match c.demand with
  | .document => "(document)"
  | .mapping | .string | .strings => dotted c.place
  | .topLevel | .member => dotted c.place.tail

def fault? (d : Document) (c : Check) : Option SchemaError :=
  match d.at? c.place with
  | none => some (.missingKey c.path)
  | some value => (c.demand.refusal? value).map fun (expected, found) ↦
    .invalidShape c.path expected found

def ofEntry (keys : List String) : Check :=
  ⟨"ast" :: keys, if keys.length = 1 then .topLevel else .member⟩

def sections : List String :=
  ["template", "declaration", "definition", "definition_enum", "definition_enum_case",
    "definition_empty", "field"]

def fixed : List Check :=
  [⟨[], .document⟩, ⟨["sys_includes"], .strings⟩, ⟨["project_includes"], .strings⟩,
    ⟨["namespace"], .string⟩, ⟨["ast"], .mapping⟩, ⟨["printer"], .mapping⟩] ++
  sections.map fun key ↦ ⟨["printer", key], .strings⟩

end Check

/-- All checks of a document: the fixed ones and then one for each entry of the tree. -/
def Document.checks (d : Document) : List Check :=
  Check.fixed ++ ((d.at? ["ast"]).elim [] places).map Check.ofEntry

/-- The check is the first one that the document does not pass, and the error tells where and why. -/
structure Check.FirstFailed (d : Document) (e : SchemaError) (c : Check) : Prop where
  first : ∃ before after, d.checks = before ++ c :: after ∧
    ∀ earlier ∈ before, earlier.fault? d = none
  fault : c.fault? d = some e
  /-- Either a mapping has no such key, or the value that the keys lead to is refused. -/
  told :
    (d.at? c.place = none ∧ (∃ entries, d.at? c.place.dropLast = some (.mapping entries)) ∧
      e = .missingKey (dotted c.place)) ∨
    ∃ value expected found, d.at? c.place = some value ∧
      c.demand.refusal? value = some (expected, found) ∧ e = .invalidShape c.path expected found
  /-- Without dots in the keys of the document, the name of the error is the last key. -/
  name : (∃ root, d = .mapping root) → (∀ keys ∈ d.places, ∀ key ∈ keys, '.' ∉ key.toList) →
    c.place.getLast? = some e.name

end CppAst
