/-!
The two choices that an ELF file makes for all of its numbers: how wide an address is, and
which byte of a number comes first.
-/

namespace ElfInspect

/-- Whether addresses and offsets take four bytes or eight. -/
inductive FileClass where
  | elf32
  | elf64
  deriving DecidableEq, Repr

/-- The size in bytes of an address, an offset or another number of the class's word size. -/
def FileClass.wordSize : FileClass → Nat
  | .elf32 => 4
  | .elf64 => 8

/-- The byte that marks the class in the identification block. -/
def FileClass.mark : FileClass → UInt8
  | .elf32 => 1
  | .elf64 => 2

def FileClass.ofMark? : UInt8 → Option FileClass
  | 1 => some .elf32
  | 2 => some .elf64
  | _ => none

def FileClass.label : FileClass → String
  | .elf32 => "Elf32"
  | .elf64 => "Elf64"

/-- Whether the least or the most significant byte of a number comes first. -/
inductive ByteOrder where
  | lsb
  | msb
  deriving DecidableEq, Repr

/-- The byte that marks the byte order in the identification block. -/
def ByteOrder.mark : ByteOrder → UInt8
  | .lsb => 1
  | .msb => 2

def ByteOrder.ofMark? : UInt8 → Option ByteOrder
  | 1 => some .lsb
  | 2 => some .msb
  | _ => none

def ByteOrder.label : ByteOrder → String
  | .lsb => "Lsb"
  | .msb => "Msb"

structure Format where
  fileClass : FileClass
  order : ByteOrder
  deriving DecidableEq, Repr

theorem FileClass.ofMark?_mark (k : FileClass) : ofMark? k.mark = some k := by
  cases k <;> rfl

theorem ByteOrder.ofMark?_mark (o : ByteOrder) : ofMark? o.mark = some o := by
  cases o <;> rfl

end ElfInspect
