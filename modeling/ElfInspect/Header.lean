import ElfInspect.Record

/-!
The file header: sixteen bytes of identification, then thirteen numbers. `Header.parse` checks the
identification first and the two numbers with a reserved value as soon as each is read.
-/

namespace ElfInspect

/-- The file header. Tables are given by file offset, entry size and number of entries. -/
structure Header where
  format : Format
  osAbi : Nat
  abiVersion : Nat
  objectType : Nat
  machine : Nat
  version : Nat
  entry : Nat
  segmentTable : Nat
  sectionTable : Nat
  flags : Nat
  headerSize : Nat
  segmentEntrySize : Nat
  segmentCount : Nat
  sectionEntrySize : Nat
  sectionCount : Nat
  /-- The index of the section that holds the section names, 0 if there is none. -/
  nameSection : Nat
  deriving DecidableEq, Repr

namespace Header

def magic : List UInt8 := [0x7f, 0x45, 0x4c, 0x46]

def identSize : Nat := 16

/-- The only version of the identification block. -/
def currentVersion : UInt8 := 1

/-- The numbers up to the section count, in file order. -/
def leadLayout : Layout :=
  [.half, .half, .word, .address, .address, .address, .word,
    .half, .half, .half, .half, .half]

/-- All numbers behind the identification block. -/
def bodyLayout : Layout := leadLayout ++ [.half]

/-- The size of the header in bytes. -/
def size (k : FileClass) : Nat := identSize + bodyLayout.size k

def body (h : Header) : Fields bodyLayout :=
  (h.objectType, h.machine, h.version, h.entry, h.segmentTable, h.sectionTable, h.flags,
    h.headerSize, h.segmentEntrySize, h.segmentCount, h.sectionEntrySize, h.sectionCount,
    h.nameSection, ())

/-- The identification block, filled up with zeros. -/
def ident (h : Header) : List UInt8 :=
  magic ++ [h.format.fileClass.mark, h.format.order.mark, currentVersion,
    UInt8.ofNat h.osAbi, UInt8.ofNat h.abiVersion] ++ List.replicate 7 0

def Fits (h : Header) : Prop := Fields.Fit h.format.fileClass bodyLayout h.body

instance (h : Header) : Decidable h.Fits :=
  inferInstanceAs (Decidable (Fields.Fit h.format.fileClass bodyLayout h.body))

/-- The written form of a header. -/
def encode (h : Header) : List UInt8 := h.ident ++ Fields.encode h.format bodyLayout h.body

/-- The byte at an index, 0 behind the end. -/
def byteAt (bytes : ByteArray) (i : Nat) : UInt8 := bytes.data.getD i 0

/-- The section count that stands for a count kept elsewhere. -/
def extendedCount : Nat := 0

/-- The section index that stands for an index kept elsewhere. -/
def extendedIndex : Nat := 0xffff

/-- The format that the identification block names. -/
def parseIdent (bytes : ByteArray) : Except Fault Format := do
  if bytes.size < magic.length then throw (.truncatedInput 0 magic.length)
  let found := window bytes 0 magic.length
  if found ≠ magic then throw (.malformedHeader (.badMagic found))
  if bytes.size < identSize then throw (.truncatedInput 0 identSize)
  let some fileClass := FileClass.ofMark? (byteAt bytes 4)
    | throw (.malformedHeader (.badClass (byteAt bytes 4)))
  let some order := ByteOrder.ofMark? (byteAt bytes 5)
    | throw (.malformedHeader (.badEncoding (byteAt bytes 5)))
  if byteAt bytes 6 ≠ currentVersion then
    throw (.malformedHeader (.badVersion (byteAt bytes 6)))
  return ⟨fileClass, order⟩

/-- The numbers behind the identification block. -/
def parseBody (bytes : ByteArray) (format : Format) : Except Fault (Fields bodyLayout) := do
  let (lead, c) ← Fields.read leadLayout ⟨bytes, format, identSize⟩
  let (t, m, v, entry, ph, sh, flags, ehsize, phsize, phnum, shsize, shnum, ()) := lead
  if shnum = extendedCount then throw (.unsupportedFeature .extendedSectionCount)
  let ((names, ()), _) ← Fields.read [.half] c
  if names = extendedIndex then throw (.unsupportedFeature .extendedStringIndex)
  return (t, m, v, entry, ph, sh, flags, ehsize, phsize, phnum, shsize, shnum, names, ())

/-- The header at the start of `bytes`. -/
def parse (bytes : ByteArray) : Except Fault Header := do
  let format ← parseIdent bytes
  let (t, m, v, entry, ph, sh, flags, ehsize, phsize, phnum, shsize, shnum, names, ()) ←
    parseBody bytes format
  return {
    format
    osAbi := (byteAt bytes 7).toNat
    abiVersion := (byteAt bytes 8).toNat
    objectType := t
    machine := m
    version := v
    entry
    segmentTable := ph
    sectionTable := sh
    flags
    headerSize := ehsize
    segmentEntrySize := phsize
    segmentCount := phnum
    sectionEntrySize := shsize
    sectionCount := shnum
    nameSection := names }

end Header

/-- The object file types that have a name. -/
inductive ObjectType where
  | none
  | relocatable
  | executable
  | sharedObject
  | core
  | other (code : Nat)
  deriving DecidableEq, Repr

namespace ObjectType

def ofCode : Nat → ObjectType
  | 0 => .none
  | 1 => .relocatable
  | 2 => .executable
  | 3 => .sharedObject
  | 4 => .core
  | code => .other code

/-- The short name, or the code in four hexadecimal digits. -/
def text : ObjectType → String
  | .none => "NONE"
  | .relocatable => "REL"
  | .executable => "EXEC"
  | .sharedObject => "DYN"
  | .core => "CORE"
  | .other code => hexFixed 4 code

/-- The name of the alternative, with the code of an unnamed one in decimal. -/
def label : ObjectType → String
  | .none => "None"
  | .relocatable => "Relocatable"
  | .executable => "Executable"
  | .sharedObject => "SharedObject"
  | .core => "Core"
  | .other code => "Other(" ++ toString code ++ ")"

end ObjectType

/-- The name of a target architecture. -/
def machineName? : Nat → Option String
  | 0 => some "none"
  | 1 => some "AT&T WE 32100"
  | 2 => some "SPARC"
  | 3 => some "x86"
  | 4 => some "m68k"
  | 5 => some "m88k"
  | 7 => some "i860"
  | 8 => some "MIPS"
  | 0x28 => some "ARM"
  | 0x3e => some "x86-64"
  | 0xb7 => some "AArch64"
  | 0xf3 => some "RISC-V"
  | _ => none

/-- The name of a target architecture, or its code in four hexadecimal digits. -/
def machineText (code : Nat) : String := (machineName? code).getD (hexFixed 4 code)

namespace Header

/-- The header in words, all numbers in decimal. -/
def describe (h : Header) : String :=
  let field (name : String) (n : Nat) := ", " ++ name ++ ": " ++ toString n
  "ElfHeader \x7b class: " ++ h.format.fileClass.label ++ ", encoding: " ++ h.format.order.label ++
    field "os_abi" h.osAbi ++ field "abi_version" h.abiVersion ++
    field "e_type" h.objectType ++ field "e_machine" h.machine ++
    field "e_version" h.version ++ field "e_entry" h.entry ++
    field "e_phoff" h.segmentTable ++ field "e_shoff" h.sectionTable ++
    field "e_flags" h.flags ++ field "e_ehsize" h.headerSize ++
    field "e_phentsize" h.segmentEntrySize ++ field "e_phnum" h.segmentCount ++
    field "e_shentsize" h.sectionEntrySize ++ field "e_shnum" h.sectionCount ++
    field "e_shstrndx" h.nameSection ++ " \x7d"

end Header

end ElfInspect
