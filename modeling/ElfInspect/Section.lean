import ElfInspect.Record
import ElfInspect.StringTable

/-!
Entries of the section header table.
-/

namespace ElfInspect

/-- A section header. `name` is an offset into the section name table. -/
structure SectionEntry where
  name : Nat
  type : Nat
  flags : Nat
  address : Nat
  offset : Nat
  size : Nat
  link : Nat
  info : Nat
  align : Nat
  entrySize : Nat
  deriving DecidableEq, Repr

namespace SectionEntry

/-- Both classes keep the fields in this order. -/
def layout : Layout :=
  [.word, .word, .address, .address, .address, .address, .word, .word, .address, .address]

def ofFields : Fields layout → SectionEntry
  | (name, type, flags, address, offset, size, link, info, align, entrySize, ()) =>
    ⟨name, type, flags, address, offset, size, link, info, align, entrySize⟩

def toFields : SectionEntry → Fields layout
  | ⟨name, type, flags, address, offset, size, link, info, align, entrySize⟩ =>
    (name, type, flags, address, offset, size, link, info, align, entrySize, ())

instance : Record SectionEntry where
  layout _ := layout
  ofFields _ := ofFields
  toFields _ := toFields
  ofFields_toFields _ _ := rfl
  toFields_ofFields _ _ := rfl

/-- The type of a section that takes no room in the file. -/
def nobits : Nat := 8

def symtab : Nat := 2

def strtab : Nat := 3

def dynamic : Nat := 6

def dynsym : Nat := 11

/-- The bytes of the section. -/
def data (s : SectionEntry) (bytes : ByteArray) : Except Fault ByteArray :=
  if s.type = nobits then .ok .empty else slice bytes s.offset s.size

/-- How many entries of the stated size the section has; none without a size or without bytes. -/
def entryCount (s : SectionEntry) : Nat :=
  if s.entrySize = 0 ∨ s.type = nobits then 0 else s.size / s.entrySize

/-- The attribute bits that have a name, lowest first. -/
def flagNames : List (Nat × String) :=
  [(0x1, "WRITE"), (0x2, "ALLOC"), (0x4, "EXECINSTR"), (0x10, "MERGE"), (0x20, "STRINGS"),
    (0x40, "INFO_LINK"), (0x80, "LINK_ORDER"), (0x200, "GROUP"), (0x400, "TLS")]

/-- The name of a section type. -/
def typeName? : Nat → Option String
  | 0 => some "NULL"
  | 1 => some "PROGBITS"
  | 2 => some "SYMTAB"
  | 3 => some "STRTAB"
  | 4 => some "RELA"
  | 5 => some "HASH"
  | 6 => some "DYNAMIC"
  | 7 => some "NOTE"
  | 8 => some "NOBITS"
  | 9 => some "REL"
  | 10 => some "SHLIB"
  | 11 => some "DYNSYM"
  | 14 => some "INIT_ARRAY"
  | 15 => some "FINI_ARRAY"
  | 16 => some "PREINIT_ARRAY"
  | 17 => some "GROUP"
  | 18 => some "SYMTAB_SHNDX"
  | _ => none

end SectionEntry

/-- The names of the bits of `names` that are set in `flags`. -/
def setFlags (names : List (Nat × String)) (flags : Nat) : List String :=
  (names.filter fun f => flags &&& f.1 ≠ 0).map Prod.snd

/-- What is left of `flags` without the bits of `names`. -/
def unnamedFlags (names : List (Nat × String)) (flags : Nat) : Nat :=
  names.foldl (fun rest f => if rest &&& f.1 ≠ 0 then rest ^^^ f.1 else rest) flags

end ElfInspect
