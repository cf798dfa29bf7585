/-!
TOML documents as trees that grow line by line. A table remembers how it came about, because that
decides whether a later line may add to it.
-/

namespace ElfInspect

/-- A TOML value. Numbers and dates are left out: no setting has one. -/
inductive Toml where
  | string (s : String)
  | boolean (b : Bool)
  | array (items : List Toml)
  | table (entries : List (String × Toml))

namespace Toml

/-- How a table came about: only as part of a longer path, and if so, of a dotted key. -/
structure Mark where
  implicit : Bool
  dotted : Bool
  deriving DecidableEq, Repr

/-- The mark of a table that has a line or braces of its own. -/
def Mark.explicit : Mark := ⟨false, false⟩

inductive Node where
  | value (v : Toml)
  | table (mark : Mark) (entries : List (String × Node))
  /-- An array of tables, each with a line of its own. -/
  | tables (elements : List (List (String × Node)))

abbrev Entries := List (String × Node)

/-- Changes the entry of `key`, which may be missing. -/
def alter (key : String) (change : Option Node → Option Node) : Entries → Option Entries
  | [] => do return [(key, ← change none)]
  | (k, node) :: rest =>
    if k = key then do return (k, ← change (some node)) :: rest
    else do return (k, node) :: (← alter key change rest)

/-- Changes the table at the end of `path`. Missing tables are made on the way; of an array of
tables the last one counts. A dotted key passes only through tables made implicitly. -/
def descend (dotted : Bool) (change : Mark → Entries → Option Entries) :
    List String → Mark → Entries → Option Entries
  | [], mark, entries => change mark entries
  | key :: path, _, entries =>
    entries |> alter key fun
      | none => do
        let mark : Mark := ⟨true, dotted⟩
        return .table mark (← descend dotted change path mark [])
      | some (.value _) => none
      | some (.table mark inner) => do
        guard (!dotted || mark.implicit)
        return .table mark (← descend dotted change path mark inner)
      | some (.tables elements) => do
        let last ← elements.getLast?
        return .tables
          (elements.dropLast ++ [← descend dotted change path .explicit last])

/-- Adds a value to a table under a dotted key, whose last part is `key`. A table made by dotted
keys takes values through dotted keys only, any other table through plain ones. -/
def insert (path : List String) (key : String) (v : Toml) (mark : Mark) (entries : Entries) :
    Option Entries :=
  descend true (fun mark entries => do
    guard (mark.dotted == !path.isEmpty)
    entries |> alter key fun
      | none => some (.value v)
      | some _ => none) path mark entries

/-- Opens the table `key`: a new one, or one that so far is only part of longer paths. -/
def openTable (key : String) (_ : Mark) (entries : Entries) : Option Entries :=
  entries |> alter key fun
    | none => some (.table .explicit [])
    | some (.table ⟨true, false⟩ inner) => some (.table .explicit inner)
    | some _ => none

/-- Opens one more table of the array of tables `key`. -/
def openElement (key : String) (_ : Mark) (entries : Entries) : Option Entries :=
  entries |> alter key fun
    | none => some (.tables [[]])
    | some (.tables elements) => some (.tables (elements ++ [[]]))
    | some _ => none

mutual

/-- The value that a node stands for. -/
def Node.toToml : Node → Toml
  | .value v => v
  | .table _ entries => .table (entriesToToml entries)
  | .tables elements => .array (elementsToToml elements)

def entriesToToml : List (String × Node) → List (String × Toml)
  | [] => []
  | (key, node) :: rest => (key, node.toToml) :: entriesToToml rest

def elementsToToml : List (List (String × Node)) → List Toml
  | [] => []
  | entries :: rest => .table (entriesToToml entries) :: elementsToToml rest

end

/-- A line of a document, or the part of an inline table between commas. -/
inductive Statement where
  | table (path : List String) (key : String)
  | element (path : List String) (key : String)
  | pair (path : List String) (key : String) (v : Toml)

/-- A document in the making: the table that lines add to, and all tables. -/
structure Draft where
  current : List String
  root : Entries

def Draft.empty : Draft := ⟨[], []⟩

def Draft.add (d : Draft) : Statement → Option Draft
  | .table path key => do
    return ⟨path ++ [key], ← descend false (openTable key) path .explicit d.root⟩
  | .element path key => do
    return ⟨path ++ [key], ← descend false (openElement key) path .explicit d.root⟩
  | .pair path key v => do
    return { d with root := ← descend false (insert path key v) d.current .explicit d.root }

/-- The entries of a document or an inline table with the given lines. -/
def ofStatements? (statements : List Statement) : Option (List (String × Toml)) :=
  (statements.foldlM Draft.add .empty).map fun d => entriesToToml d.root

end Toml

end ElfInspect
