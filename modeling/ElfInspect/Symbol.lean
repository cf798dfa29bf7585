import ElfInspect.Record

/-!
Entries of symbol tables. With four-byte words value and size come before the information byte,
with eight-byte words they come last.
-/

namespace ElfInspect

/-- A symbol. `name` is an offset into the string table that the symbol table links to. -/
structure SymbolEntry where
  name : Nat
  value : Nat
  size : Nat
  info : Nat
  other : Nat
  sectionIndex : Nat
  deriving DecidableEq, Repr

namespace SymbolEntry

def layout : FileClass → Layout
  | .elf32 => [.word, .address, .address, .byte, .byte, .half]
  | .elf64 => [.word, .byte, .byte, .half, .address, .address]

def ofFields : (k : FileClass) → Fields (layout k) → SymbolEntry
  | .elf32, (name, value, size, info, other, sectionIndex, ()) =>
    ⟨name, value, size, info, other, sectionIndex⟩
  | .elf64, (name, info, other, sectionIndex, value, size, ()) =>
    ⟨name, value, size, info, other, sectionIndex⟩

def toFields : (k : FileClass) → SymbolEntry → Fields (layout k)
  | .elf32, ⟨name, value, size, info, other, sectionIndex⟩ =>
    (name, value, size, info, other, sectionIndex, ())
  | .elf64, ⟨name, value, size, info, other, sectionIndex⟩ =>
    (name, info, other, sectionIndex, value, size, ())

instance : Record SymbolEntry where
  layout := layout
  ofFields := ofFields
  toFields := toFields
  ofFields_toFields k _ := by cases k <;> rfl
  toFields_ofFields k _ := by cases k <;> rfl

/-- The entry that every symbol table starts with. -/
def null : SymbolEntry := ⟨0, 0, 0, 0, 0, 0⟩

/-- The information byte of a binding and a type, of which it keeps four bits each. -/
def infoOf (binding type : Nat) : Nat := binding % 16 * 16 + type % 16

def type (s : SymbolEntry) : Nat := s.info % 16

def binding (s : SymbolEntry) : Nat := s.info / 16

def visibility (s : SymbolEntry) : Nat := s.other % 4

/-- The address lies in the range that starts at the symbol's value and has its size. -/
def contains (s : SymbolEntry) (address : Nat) : Bool :=
  s.value ≤ address && address - s.value < s.size

/-- The name of a symbol type. -/
def typeName? : Nat → Option String
  | 0 => some "NOTYPE"
  | 1 => some "OBJECT"
  | 2 => some "FUNC"
  | 3 => some "SECTION"
  | 4 => some "FILE"
  | 5 => some "COMMON"
  | 6 => some "TLS"
  | _ => none

/-- The name of a symbol binding. -/
def bindingName? : Nat → Option String
  | 0 => some "LOCAL"
  | 1 => some "GLOBAL"
  | 2 => some "WEAK"
  | _ => none

theorem contains_iff (s : SymbolEntry) (address : Nat) :
    s.contains address = true ↔ s.value ≤ address ∧ address < s.value + s.size := by
  simp [contains]
  omega

end SymbolEntry

end ElfInspect
