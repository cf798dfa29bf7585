import ElfInspect.Libraries.Toml.Document
import ElfInspect.Program.Invocation

/-!
How a TOML document states settings. It may leave any of them out; a key that is no setting makes it
invalid.
-/

namespace ElfInspect

namespace Settings

/-- Nothing: an empty table or an empty array. -/
def isVoid : Toml → Bool
  | .table [] => true
  | .array [] => true
  | _ => false

/-- One of the words of `spellings`, either as a string or as the only key of a table, with nothing
as its value. -/
def word? {α : Type} (spellings : List (String × α)) : Toml → Option α
  | .string s => spelled? spellings s
  | .table [(s, v)] => if isVoid v then spelled? spellings s else none
  | _ => none

def words? {α : Type} (spellings : List (String × α)) : Toml → Option (List α)
  | .array items => items.mapM (word? spellings)
  | _ => none

def boolean? : Toml → Option Bool
  | .boolean b => some b
  | _ => none

def addSymbols (s : Settings) : String × Toml → Option Settings
  | ("tables", v) => do return { s with tables := ← words? TableKind.spellings v }
  | ("kind", v) => do return { s with type := ← word? TypeFilter.spellings v }
  | ("binding", v) => do return { s with binding := ← word? BindingFilter.spellings v }
  | ("demangle", v) => do return { s with demangle := ← boolean? v }
  | _ => none

def addOutput (s : Settings) : String × Toml → Option Settings
  | ("format", v) => do return { s with format := ← word? OutputFormat.spellings v }
  | _ => none

def addTable (s : Settings) : String × Toml → Option Settings
  | ("symbols", .table entries) => entries.foldlM addSymbols s
  | ("output", .table entries) => entries.foldlM addOutput s
  | _ => none

/-- The settings that a document states. -/
def parse? (text : String) : Option Settings := do
  (← Toml.parse? text).foldlM addTable {}

end Settings

end ElfInspect
