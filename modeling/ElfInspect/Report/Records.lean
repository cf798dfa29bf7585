import ElfInspect.Failure
import ElfInspect.Selection
import ElfInspect.Session

/-!
What reports say about an image: the symbols of a selection, the result of a lookup, and the three
kinds of header. Nothing is said unless all of it can be.
-/

namespace ElfInspect

/-- Reports are made within a session and fail as a whole. -/
abbrev ReportM := ExceptT Failure (StateM Session)

namespace ReportM

/-- A question whose fault becomes the report's failure. -/
def question {α : Type} (failure : Fault → Failure) (q : SessionM α) : ReportM α :=
  ExceptT.mk do
    match ← q.run with
    | .ok a => return .ok a
    | .error fault => return .error (failure fault)

end ReportM

/-- The name of a code, or the code in hexadecimal. -/
def nameOrHex (name? : Nat → Option String) (code : Nat) : String := (name? code).getD (hex code)

/-! ## Symbols -/

/-- A symbol in a report. `table` is the name of its table's section, where that is said. -/
structure SymbolRecord where
  name : String
  table : Option String
  value : Nat
  size : Nat
  type : String
  binding : String
  deriving DecidableEq, Repr

/-- What gives readable forms of names. -/
abbrev Demangler := String → String

/-- A symbol name as a report shows it. -/
def displayName (demangler : Demangler) (name : String) (demangle : Bool) : String :=
  if demangle then demangler name else name

/-- The record of a symbol. -/
def SymbolRecord.ofHit (demangler : Demangler) (img : Image) (hit : SymbolHit)
    (table : Option String) (demangle : Bool) : ReportM SymbolRecord := do
  let name ← .question (.nameSymbol hit.entry.name)
    (SessionM.symbolName img hit.table hit.index)
  return {
    name := displayName demangler name demangle
    table
    value := hit.entry.value
    size := hit.entry.size
    type := nameOrHex SymbolEntry.typeName? hit.entry.type
    binding := nameOrHex SymbolEntry.bindingName? hit.entry.binding }

/-- The records of the selected symbols of the table that is section `i`. -/
def tableRecords (demangler : Demangler) (img : Image) (selection : Selection) (demangle : Bool)
    (i : Nat) : ReportM (List SymbolRecord) := do
  let s ← .question (.readSection i) (SessionM.sectionAt img i)
  if selection.wantsTable s.type then
    let table ← .question (.nameSection i) (SessionM.sectionName img i)
    modify fun session => { session with log := session.log.push (.walking table s.entryCount) }
    gather (fun j => do
      let symbol ← .question (.readSymbol j table) (SessionM.symbolAt img i j)
      if selection.accepts symbol then
        return [← SymbolRecord.ofHit demangler img ⟨i, j, symbol⟩ (some table) demangle]
      else return []) 0 s.entryCount
  else return []

/-- The records of the selected symbols, in the order of the sections and of their entries. -/
def selectedRecords (demangler : Demangler) (img : Image) (selection : Selection)
    (demangle : Bool) : ReportM (List SymbolRecord) :=
  gather (tableRecords demangler img selection demangle) 0 img.header.sectionCount

/-! ## Lookups -/

def Target.find (img : Image) : Target → SessionM (Option SymbolHit)
  | .name wanted => SessionM.symbolNamed img wanted
  | .address wanted => SessionM.symbolContaining img wanted

/-- The record of the symbol that is looked for; without a target there is none. -/
def lookupRecord (demangler : Demangler) (img : Image) (target? : Option Target)
    (demangle : Bool) : ReportM SymbolRecord := do
  let some target := target? | throw .noTarget
  let some hit ← .question (.search target) (target.find img) | throw (.noSymbol target)
  SymbolRecord.ofHit demangler img hit none demangle

/-! ## Headers -/

structure SectionRecord where
  index : Nat
  name : String
  type : String
  address : Nat
  offset : Nat
  size : Nat
  entries : Nat
  deriving DecidableEq, Repr

/-- A segment in a report; the permissions are the letters `RWX` with dashes for the missing. -/
structure SegmentRecord where
  index : Nat
  type : String
  offset : Nat
  address : Nat
  fileSize : Nat
  memorySize : Nat
  permissions : String
  deriving DecidableEq, Repr

structure HeaderReport where
  fileClass : String
  order : String
  type : String
  machine : String
  entry : Nat
  sections : List SectionRecord
  segments : List SegmentRecord
  interpreter : Option String
  deriving DecidableEq, Repr

def sectionRecord (img : Image) (i : Nat) : ReportM SectionRecord := do
  let s ← .question (.readSection i) (SessionM.sectionAt img i)
  let name ← .question (.nameSection i) (SessionM.sectionName img i)
  return {
    index := i
    name
    type := nameOrHex SectionEntry.typeName? s.type
    address := s.address
    offset := s.offset
    size := s.size
    entries := s.entryCount }

/-- The permission letters of segment flags. -/
def permissionLetters (flags : Nat) : String :=
  let letter (bit : Nat) (c : Char) : Char := if flags &&& bit = bit then c else '-'
  String.ofList [letter 0x4 'R', letter 0x2 'W', letter 0x1 'X']

def segmentRecord (img : Image) (i : Nat) : ReportM SegmentRecord := do
  let p ← .question (.readSegment i) (SessionM.segmentAt img i)
  return {
    index := i
    type := nameOrHex SegmentEntry.typeName? p.type
    offset := p.offset
    address := p.virtualAddress
    fileSize := p.fileSize
    memorySize := p.memorySize
    permissions := permissionLetters p.flags }

def classText : FileClass → String
  | .elf32 => "ELF32"
  | .elf64 => "ELF64"

def orderText : ByteOrder → String
  | .lsb => "little-endian"
  | .msb => "big-endian"

/-- The report on all headers. -/
def headerReport (img : Image) : ReportM HeaderReport := do
  let h := img.header
  let sections ← gather (fun i => do return [← sectionRecord img i]) 0 h.sectionCount
  let segments ← gather (fun i => do return [← segmentRecord img i]) 0 h.segmentCount
  let interpreter ← .question .readInterpreter (SessionM.interpreterPath img)
  return {
    fileClass := classText h.format.fileClass
    order := orderText h.format.order
    type := (ObjectType.ofCode h.objectType).text
    machine := machineText h.machine
    entry := h.entry
    sections
    segments
    interpreter }

end ElfInspect
