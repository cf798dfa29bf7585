import ElfInspect.Section
import ElfInspect.Symbol

/-!
Which symbols a listing shows: those of the wanted tables that have the wanted type and binding.
-/

namespace ElfInspect

inductive TableKind where
  | symtab
  | dynsym
  deriving DecidableEq, Repr

inductive TypeFilter where
  | notype
  | object
  | func
  | sectionSymbol
  | file
  | tls
  | any
  deriving DecidableEq, Repr

inductive BindingFilter where
  | localSymbol
  | global
  | weak
  | any
  deriving DecidableEq, Repr

/-- The value that a table of spellings gives a word. -/
def spelled? {α : Type} (spellings : List (String × α)) (word : String) : Option α :=
  spellings.lookup word

namespace TableKind

/-- The section type of such a table. -/
def sectionType : TableKind → Nat
  | .symtab => SectionEntry.symtab
  | .dynsym => SectionEntry.dynsym

def name : TableKind → String
  | .symtab => "symtab"
  | .dynsym => "dynsym"

def spellings : List (String × TableKind) := [symtab, dynsym].map fun k => (k.name, k)

end TableKind

namespace TypeFilter

/-- The symbol type that passes, if not all do. -/
def wanted? : TypeFilter → Option Nat
  | .notype => some 0
  | .object => some 1
  | .func => some 2
  | .sectionSymbol => some 3
  | .file => some 4
  | .tls => some 6
  | .any => none

def accepts (f : TypeFilter) (type : Nat) : Bool := f.wanted?.all (· == type)

def name : TypeFilter → String
  | .notype => "notype"
  | .object => "object"
  | .func => "func"
  | .sectionSymbol => "section"
  | .file => "file"
  | .tls => "tls"
  | .any => "any"

def spellings : List (String × TypeFilter) :=
  [notype, object, func, sectionSymbol, file, tls, any].map fun f => (f.name, f)

end TypeFilter

namespace BindingFilter

/-- The binding that passes, if not all do. -/
def wanted? : BindingFilter → Option Nat
  | .localSymbol => some 0
  | .global => some 1
  | .weak => some 2
  | .any => none

def accepts (f : BindingFilter) (binding : Nat) : Bool := f.wanted?.all (· == binding)

def name : BindingFilter → String
  | .localSymbol => "local"
  | .global => "global"
  | .weak => "weak"
  | .any => "any"

def spellings : List (String × BindingFilter) :=
  [localSymbol, global, weak, any].map fun f => (f.name, f)

end BindingFilter

structure Selection where
  tables : List TableKind
  type : TypeFilter
  binding : BindingFilter
  deriving DecidableEq, Repr

namespace Selection

/-- Sections of this type are walked. -/
def wantsTable (s : Selection) (sectionType : Nat) : Bool :=
  s.tables.any (·.sectionType == sectionType)

def accepts (s : Selection) (symbol : SymbolEntry) : Bool :=
  s.type.accepts symbol.type && s.binding.accepts symbol.binding

end Selection

end ElfInspect
