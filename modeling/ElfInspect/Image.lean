import ElfInspect.Header
import ElfInspect.Scan
import ElfInspect.Section
import ElfInspect.Segment
import ElfInspect.Symbol

/-!
An ELF image and what can be asked of it, each answer computed from the bytes alone. Only the header
is read up front; a damaged table is the fault of the questions that touch it.
-/

namespace ElfInspect

structure Image where
  bytes : ByteArray
  header : Header
  deriving DecidableEq

/-- A section together with its index. -/
structure SectionHit where
  index : Nat
  entry : SectionEntry
  deriving DecidableEq, Repr

/-- A symbol together with its table's section index and its index in the table. -/
structure SymbolHit where
  table : Nat
  index : Nat
  entry : SymbolEntry
  deriving DecidableEq, Repr

/-- The sections that a file has at most one of, found by their type. -/
inductive WellKnown where
  | symbolTable
  | dynamicSymbols
  | dynamicLink
  deriving DecidableEq, Repr, Hashable

def WellKnown.type : WellKnown → Nat
  | .symbolTable => SectionEntry.symtab
  | .dynamicSymbols => SectionEntry.dynsym
  | .dynamicLink => SectionEntry.dynamic

/-- The conventional name of the static symbols' string table. -/
def staticStringsName : String := ".strtab"

/-- The conventional name of the dynamic symbols' string table. -/
def dynamicStringsName : String := ".dynstr"

/-- One more than the largest file offset. -/
def offsetLimit : Nat := 0x1_0000_0000_0000_0000

/-- Where entry `index` of a table of `count` entries starts. -/
def entryOffset (base entrySize count index : Nat) : Except Fault Nat :=
  if base + index * entrySize < offsetLimit then .ok (base + index * entrySize)
  else .error (.outOfRange index count)

/-- How many symbols the bytes of a section hold. -/
def SectionEntry.symbolCount (s : SectionEntry) (bytes : ByteArray) : Except Fault Nat :=
  if s.entryCount = 0 then .ok 0
  else match s.data bytes with
    | .ok part => .ok (part.size / s.entrySize)
    | .error fault => .error fault

namespace Image

/-- Reads the header of `bytes`. -/
def ofBytes (bytes : ByteArray) : Except Fault Image :=
  match Header.parse bytes with
  | .ok header => .ok ⟨bytes, header⟩
  | .error fault => .error fault

def format (img : Image) : Format := img.header.format

/-- Where section header `i` starts. -/
def sectionOffset (img : Image) (i : Nat) : Except Fault Nat :=
  let h := img.header
  if i < h.sectionCount then entryOffset h.sectionTable h.sectionEntrySize h.sectionCount i
  else .error (.outOfRange i h.sectionCount)

/-- Where program header `i` starts. -/
def segmentOffset (img : Image) (i : Nat) : Except Fault Nat :=
  let h := img.header
  if i < h.segmentCount then entryOffset h.segmentTable h.segmentEntrySize h.segmentCount i
  else .error (.outOfRange i h.segmentCount)

/-- Where symbol `j` of a section that holds `count` symbols starts. -/
def symbolOffset (s : SectionEntry) (count j : Nat) : Except Fault Nat :=
  if j < count then entryOffset s.offset s.entrySize count j else .error (.outOfRange j count)

def sectionAt (img : Image) (i : Nat) : Except Fault SectionEntry := do
  Record.decodeAt img.bytes img.format (← img.sectionOffset i)

def segmentAt (img : Image) (i : Nat) : Except Fault SegmentEntry := do
  Record.decodeAt img.bytes img.format (← img.segmentOffset i)

/-- Symbol `j` of the table that is section `i`. -/
def symbolAt (img : Image) (i j : Nat) : Except Fault SymbolEntry := do
  let s ← img.sectionAt i
  let count ← s.symbolCount img.bytes
  Record.decodeAt img.bytes img.format (← symbolOffset s count j)

/-- The bytes of section `i` as a string table. -/
def stringTable (img : Image) (i : Nat) : Except Fault StringTable := do
  let s ← img.sectionAt i
  return ⟨← s.data img.bytes⟩

/-- The table of the section names, if the file has one. -/
def nameTable (img : Image) : Except Fault (Option StringTable) :=
  if img.header.nameSection = 0 then .ok none
  else return some (← img.stringTable img.header.nameSection)

/-- The name of section `i`, empty in a file without section names. -/
def sectionName (img : Image) (i : Nat) : Except Fault String := do
  let s ← img.sectionAt i
  match ← img.nameTable with
  | some table => table.lookup s.name
  | none => return ""

/-- The name of symbol `j` of section `i`, from the table which that section links to. -/
def symbolName (img : Image) (i j : Nat) : Except Fault String := do
  let s ← img.sectionAt i
  let symbol ← img.symbolAt i j
  (← img.stringTable s.link).lookup symbol.name

/-- The first section behind section 0 that has the given name. -/
def sectionNamed (img : Image) (name : String) : Except Fault (Option SectionHit) :=
  firstHit (fun i => do
    let s ← img.sectionAt i
    return if (← img.sectionName i) = name then some ⟨i, s⟩ else none)
    1 (img.header.sectionCount - 1)

/-- The string table of the given name. -/
def stringsNamed (img : Image) (name : String) : Except Fault (Option StringTable) := do
  match ← img.sectionNamed name with
  | some hit => return some (← img.stringTable hit.index)
  | none => return none

/-- The index of the first section behind section 0 that has the given type. -/
def indexOfType (img : Image) (type : Nat) : Except Fault (Option Nat) :=
  firstHit (fun i => do
    return if (← img.sectionAt i).type = type then some i else none)
    1 (img.header.sectionCount - 1)

def wellKnown (img : Image) (w : WellKnown) : Except Fault (Option SectionHit) := do
  match ← img.indexOfType w.type with
  | some i => return some ⟨i, ← img.sectionAt i⟩
  | none => return none

/-- The path in the first segment that holds an interpreter path. -/
def interpreterPath (img : Image) : Except Fault (Option String) :=
  firstHit (fun i => do (← img.segmentAt i).interpreter img.bytes) 0 img.header.segmentCount

/-- A search in the dynamic symbols and, if that finds nothing, in the static ones. -/
def searchSymbols (img : Image) (search : SectionHit → Except Fault (Option SymbolHit)) :
    Except Fault (Option SymbolHit) :=
  firstSome (searchIn (img.wellKnown .dynamicSymbols) search)
    (searchIn (img.wellKnown .symbolTable) search)

/-- The first symbol of the given name; a table is searched from both ends in turn. -/
def symbolNamed (img : Image) (name : String) : Except Fault (Option SymbolHit) :=
  img.searchSymbols fun table =>
    let n := table.entry.entryCount
    firstHit (fun k => do
      let j := twoEnded n k
      let symbol ← img.symbolAt table.index j
      return if (← img.symbolName table.index j) = name then some ⟨table.index, j, symbol⟩
        else none) 0 n

/-- The first symbol whose range holds the given address. -/
def symbolContaining (img : Image) (address : Nat) : Except Fault (Option SymbolHit) :=
  img.searchSymbols fun table =>
    firstHit (fun j => do
      let symbol ← img.symbolAt table.index j
      return if symbol.contains address then some ⟨table.index, j, symbol⟩ else none)
      0 table.entry.entryCount

/-- The image in words. -/
def describe (img : Image) : String :=
  "ElfFile \x7b header: " ++ img.header.describe ++ ", len: " ++ toString img.bytes.size ++
    ", section_count: " ++ toString img.header.sectionCount ++ ", program_header_count: " ++
    toString img.header.segmentCount ++ ", .. \x7d"

end Image

end ElfInspect
