import ElfInspect.Section

/-!
Entries of the program header table. The two classes keep the fields in different orders: with
eight-byte words the flags follow the type.
-/

namespace ElfInspect

/-- A program header. -/
structure SegmentEntry where
  type : Nat
  flags : Nat
  offset : Nat
  virtualAddress : Nat
  physicalAddress : Nat
  fileSize : Nat
  memorySize : Nat
  align : Nat
  deriving DecidableEq, Repr

namespace SegmentEntry

def layout : FileClass → Layout
  | .elf32 => [.word, .address, .address, .address, .address, .address, .word, .address]
  | .elf64 => [.word, .word, .address, .address, .address, .address, .address, .address]

def ofFields : (k : FileClass) → Fields (layout k) → SegmentEntry
  | .elf32, (type, offset, virt, phys, fileSize, memorySize, flags, align, ()) =>
    ⟨type, flags, offset, virt, phys, fileSize, memorySize, align⟩
  | .elf64, (type, flags, offset, virt, phys, fileSize, memorySize, align, ()) =>
    ⟨type, flags, offset, virt, phys, fileSize, memorySize, align⟩

def toFields : (k : FileClass) → SegmentEntry → Fields (layout k)
  | .elf32, ⟨type, flags, offset, virt, phys, fileSize, memorySize, align⟩ =>
    (type, offset, virt, phys, fileSize, memorySize, flags, align, ())
  | .elf64, ⟨type, flags, offset, virt, phys, fileSize, memorySize, align⟩ =>
    (type, flags, offset, virt, phys, fileSize, memorySize, align, ())

instance : Record SegmentEntry where
  layout := layout
  ofFields := ofFields
  toFields := toFields
  ofFields_toFields k _ := by cases k <;> rfl
  toFields_ofFields k _ := by cases k <;> rfl

/-- The type of the segment that holds the path of the program interpreter. -/
def interp : Nat := 3

/-- The bytes of the segment. -/
def data (p : SegmentEntry) (bytes : ByteArray) : Except Fault ByteArray :=
  slice bytes p.offset p.fileSize

/-- `bs` without its last byte if that is zero. -/
def dropFinalZero (bs : List UInt8) : List UInt8 :=
  if bs.getLast? = some 0 then bs.dropLast else bs

/-- The interpreter path, if this is the segment that holds it. -/
def interpreter (p : SegmentEntry) (bytes : ByteArray) : Except Fault (Option String) :=
  if p.type = interp then
    match p.data bytes with
    | .ok part => .ok (some (lossyText (dropFinalZero part.data.toList)))
    | .error fault => .error fault
  else .ok none

/-- The permission bits, lowest first. -/
def flagNames : List (Nat × String) := [(0x1, "X"), (0x2, "W"), (0x4, "R")]

/-- The name of a segment type. -/
def typeName? : Nat → Option String
  | 0 => some "NULL"
  | 1 => some "LOAD"
  | 2 => some "DYNAMIC"
  | 3 => some "INTERP"
  | 4 => some "NOTE"
  | 5 => some "SHLIB"
  | 6 => some "PHDR"
  | 7 => some "TLS"
  | 0x6474e550 => some "GNU_EH_FRAME"
  | 0x6474e551 => some "GNU_STACK"
  | 0x6474e552 => some "GNU_RELRO"
  | _ => none

end SegmentEntry

end ElfInspect
