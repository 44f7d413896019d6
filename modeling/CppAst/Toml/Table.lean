import CppAst.Toml.Literal

namespace CppAst.Toml

structure Header where
  path : List String
  isElement : Bool
deriving Repr, DecidableEq

structure Assignment where
  path : List String
  value : Literal

inductive Statement where
  | header (header : Header)
  | assign (assignment : Assignment)

/-- What brought a table into being, which decides what may still be added to it. -/
inductive Origin where
  /-- Its own header. -/
  | header
  /-- The header of a table below it. -/
  | implied
  /-- A key with dots. -/
  | dotted
deriving Repr, DecidableEq

inductive Item where
  | value (value : Literal)
  | table (origin : Origin) (entries : List (String × Item))
  /-- An array that headers add tables to, the last one first. -/
  | tables (elements : List Item)

namespace Item

abbrev Entries := List (String × Item)

mutual

def toLiteral : Item → Literal
  | .value v => v
  | .table _ entries => .table (toEntries entries)
  | .tables elements => .array (toArray elements).reverse

def toEntries : Entries → List (String × Literal)
  | [] => []
  | (key, item) :: rest => (key, item.toLiteral) :: toEntries rest

def toArray : List Item → List Literal
  | [] => []
  | item :: rest => item.toLiteral :: toArray rest

end

def update (key : String) (item : Item) (entries : Entries) : Entries :=
  entries.map fun (k, old) ↦ if k = key then (k, item) else (k, old)

/-- Assigns to a path. The parent of the last key must be the table that the assignment stands in,
or one that came from a key with dots. -/
def assign (value : Literal) : (parent : Option Origin) → (path : List String) → Entries →
    Option Entries
  | _, [], _ => none
  | parent, [key], entries =>
    if parent = some .header || parent = some .implied || (entries.lookup key).isSome then none
    else some (entries ++ [(key, .value value)])
  | _, key :: next :: path, entries =>
    match entries.lookup key with
    | none => do
      let inner ← assign value (some .dotted) (next :: path) []
      return entries ++ [(key, .table .dotted inner)]
    | some (.table .header _) => none
    | some (.table origin inner) => do
      let inner ← assign value (some origin) (next :: path) inner
      return update key (.table origin inner) entries
    | some (.tables (.table origin inner :: earlier)) => do
      let inner ← assign value (some .header) (next :: path) inner
      return update key (.tables (.table origin inner :: earlier)) entries
    | some _ => none

/-- Changes the entries of the table at a path, where tables that are missing are implied. An array
of tables stands for its last element. -/
def modifyAt (f : Entries → Option Entries) : (path : List String) → Entries → Option Entries
  | [], entries => f entries
  | key :: path, entries =>
    match entries.lookup key with
    | none => do
      let inner ← modifyAt f path []
      return entries ++ [(key, .table .implied inner)]
    | some (.table origin inner) => do
      let inner ← modifyAt f path inner
      return update key (.table origin inner) entries
    | some (.tables (.table origin inner :: earlier)) => do
      let inner ← modifyAt f path inner
      return update key (.tables (.table origin inner :: earlier)) entries
    | some _ => none

def assignAll (assignments : List Assignment) (entries : Entries) : Option Entries :=
  assignments.foldlM (fun entries a ↦ assign a.value none a.path entries) entries

/-- The table that a header names, with what the lines below the header assign. If it was only
implied so far, it keeps its entries and moves to the end. -/
def defineTable (key : String) (assignments : List Assignment) (parent : Entries) :
    Option Entries := do
  let old ← match parent.lookup key with
    | none => some []
    | some (.table .implied entries) => some entries
    | some _ => none
  let entries ← assignAll assignments old
  return parent.filter (·.1 ≠ key) ++ [(key, .table .header entries)]

def appendTable (key : String) (assignments : List Assignment) (parent : Entries) :
    Option Entries := do
  let entries ← assignAll assignments []
  match parent.lookup key with
  | none => return parent ++ [(key, .tables [.table .header entries])]
  | some (.tables elements) =>
    return update key (.tables (.table .header entries :: elements)) parent
  | some _ => none

def blocks : List Statement → List Assignment × List (Header × List Assignment)
  | [] => ([], [])
  | .assign assignment :: rest =>
    let (first, later) := blocks rest
    (assignment :: first, later)
  | .header header :: rest =>
    let (first, later) := blocks rest
    ([], (header, first) :: later)

def addBlock (entries : Entries) : Header × List Assignment → Option Entries
  | (header, assignments) => do
    let key ← header.path.getLast?
    let add := if header.isElement then appendTable else defineTable
    modifyAt (add key assignments) header.path.dropLast entries

def ofStatements (statements : List Statement) : Option (List (String × Literal)) := do
  let (first, later) := blocks statements
  let entries ← later.foldlM addBlock (← assignAll first [])
  return toEntries entries

end Item
end CppAst.Toml
