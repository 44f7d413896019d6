import CppAst.Document
import CppAst.Schema.Basic

namespace CppAst

namespace Document

mutual

def KeysDistinct : Document → Prop
  | list items => KeysDistinctIn items
  | mapping entries => (entries.map Prod.fst).Nodup ∧ KeysDistinctBelow entries
  | null | bool _ | number _ | string _ => True

def KeysDistinctIn : List Document → Prop
  | [] => True
  | item :: rest => KeysDistinct item ∧ KeysDistinctIn rest

def KeysDistinctBelow : List (String × Document) → Prop
  | [] => True
  | (_, value) :: rest => KeysDistinct value ∧ KeysDistinctBelow rest

end

mutual

def decideKeysDistinct : (d : Document) → Decidable d.KeysDistinct
  | list items => decideKeysDistinctIn items
  | mapping entries =>
    have := decideKeysDistinctBelow entries
    inferInstanceAs (Decidable (_ ∧ _))
  | null | bool _ | number _ | string _ => .isTrue trivial

def decideKeysDistinctIn : (items : List Document) → Decidable (KeysDistinctIn items)
  | [] => .isTrue trivial
  | item :: rest =>
    have := decideKeysDistinct item
    have := decideKeysDistinctIn rest
    inferInstanceAs (Decidable (_ ∧ _))

def decideKeysDistinctBelow :
    (entries : List (String × Document)) → Decidable (KeysDistinctBelow entries)
  | [] => .isTrue trivial
  | (_, value) :: rest =>
    have := decideKeysDistinct value
    have := decideKeysDistinctBelow rest
    inferInstanceAs (Decidable (_ ∧ _))

end

instance (d : Document) : Decidable d.KeysDistinct := decideKeysDistinct d

theorem keysDistinctIn_iff {items : List Document} :
    KeysDistinctIn items ↔ ∀ item ∈ items, item.KeysDistinct := by
  induction items with
  | nil => simp [KeysDistinctIn]
  | cons item rest ih => simp [KeysDistinctIn, ih]

theorem keysDistinctBelow_iff {entries : List (String × Document)} :
    KeysDistinctBelow entries ↔ ∀ entry ∈ entries, entry.2.KeysDistinct := by
  induction entries with
  | nil => simp [KeysDistinctBelow]
  | cons entry rest ih => simp [KeysDistinctBelow, ih]

end Document

namespace Node

def isStruct : Node → Bool
  | struct .. => true
  | enum .. => false

mutual

def NamesDistinct : Node → Prop
  | struct _ subnodes fields =>
    (subnodes.map name ++ fields.map Field.name).Nodup ∧ NamesDistinctIn subnodes
  | enum .. => True

def NamesDistinctIn : List Node → Prop
  | [] => True
  | node :: rest => NamesDistinct node ∧ NamesDistinctIn rest

end

mutual

def decideNamesDistinct : (n : Node) → Decidable n.NamesDistinct
  | struct _ subnodes _ =>
    have := decideNamesDistinctIn subnodes
    inferInstanceAs (Decidable (_ ∧ _))
  | enum .. => .isTrue trivial

def decideNamesDistinctIn : (nodes : List Node) → Decidable (NamesDistinctIn nodes)
  | [] => .isTrue trivial
  | node :: rest =>
    have := decideNamesDistinct node
    have := decideNamesDistinctIn rest
    inferInstanceAs (Decidable (_ ∧ _))

end

instance (nodes : List Node) : Decidable (NamesDistinctIn nodes) := decideNamesDistinctIn nodes

theorem namesDistinctIn_iff {nodes : List Node} :
    NamesDistinctIn nodes ↔ ∀ node ∈ nodes, node.NamesDistinct := by
  induction nodes with
  | nil => simp [NamesDistinctIn]
  | cons node rest ih => simp [NamesDistinctIn, ih]

end Node

/-- What every schema that has been read satisfies. -/
structure Schema.WellFormed (s : Schema) : Prop where
  structs : ∀ node ∈ s.ast, node.isStruct
  names : (s.ast.map Node.name).Nodup
  inner : Node.NamesDistinctIn s.ast

instance (s : Schema) : Decidable s.WellFormed :=
  decidable_of_iff
    ((∀ node ∈ s.ast, node.isStruct) ∧ (s.ast.map Node.name).Nodup ∧ Node.NamesDistinctIn s.ast)
    ⟨fun ⟨h₁, h₂, h₃⟩ ↦ ⟨h₁, h₂, h₃⟩, fun ⟨h₁, h₂, h₃⟩ ↦ ⟨h₁, h₂, h₃⟩⟩

end CppAst
