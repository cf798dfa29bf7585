import ElfInspect.Section
import ElfInspect.Segment
import ElfInspect.Symbol
import ElfInspect.Header

/-!
Building images. A blueprint lists sections and segments; `Blueprint.assemble` lays them out as file
header, program header table, segment contents, section contents, section names and section header
table, with contents and the last table at multiples of eight.
-/

namespace ElfInspect

/-! ## String tables -/

/-- A zero byte, then each string with a zero byte behind it. -/
def joinStrings (strings : List String) : List UInt8 :=
  0 :: strings.flatMap fun s => s.toUTF8.data.toList ++ [0]

/-- Where each string starts if the first one starts at `offset`. -/
def stringOffsets : Nat → List String → List Nat
  | _, [] => []
  | offset, s :: rest => offset :: stringOffsets (offset + s.utf8ByteSize + 1) rest

theorem stringOffsets_length (offset : Nat) (strings : List String) :
    (stringOffsets offset strings).length = strings.length := by
  induction strings generalizing offset with
  | nil => rfl
  | cons s rest ih => simp [stringOffsets, ih]

/-! ## Placement -/

/-- The least multiple of eight that is not below `offset`. -/
def aligned (offset : Nat) : Nat := (offset + 7) / 8 * 8

def zeros (n : Nat) : List UInt8 := List.replicate n 0

theorem length_zeros (n : Nat) : (zeros n).length = n := List.length_replicate

/-- Where each chunk starts when they follow each other from `offset` on, each one aligned. -/
def place : Nat → List (List UInt8) → List Nat
  | _, [] => []
  | offset, chunk :: rest => aligned offset :: place (aligned offset + chunk.length) rest

/-- Where the last of the placed chunks ends. -/
def placeEnd : Nat → List (List UInt8) → Nat
  | offset, [] => offset
  | offset, chunk :: rest => placeEnd (aligned offset + chunk.length) rest

/-- The placed chunks with the zeros before each. -/
def pack : Nat → List (List UInt8) → List UInt8
  | _, [] => []
  | offset, chunk :: rest =>
    zeros (aligned offset - offset) ++ chunk ++ pack (aligned offset + chunk.length) rest

theorem le_aligned (offset : Nat) : offset ≤ aligned offset := by
  unfold aligned
  omega

theorem aligned_lt (offset : Nat) : aligned offset < offset + 8 := by
  unfold aligned
  omega

theorem place_length (offset : Nat) (chunks : List (List UInt8)) :
    (place offset chunks).length = chunks.length := by
  induction chunks generalizing offset with
  | nil => rfl
  | cons chunk rest ih => simp [place, ih]

theorem pack_length (offset : Nat) (chunks : List (List UInt8)) :
    offset + (pack offset chunks).length = placeEnd offset chunks := by
  induction chunks generalizing offset with
  | nil => rfl
  | cons chunk rest ih =>
    have := ih (aligned offset + chunk.length)
    have := le_aligned offset
    simp only [pack, placeEnd, List.length_append, length_zeros]
    omega

/-! ## Blueprints -/

/-- A section to lay out; a stated offset or size is written instead of the real one. -/
structure SectionPlan where
  name : String
  type : Nat
  contents : List UInt8
  flags : Nat := 0
  address : Nat := 0
  link : Nat := 0
  info : Nat := 0
  align : Nat := 1
  entrySize : Nat := 0
  statedOffset : Option Nat := none
  statedSize : Option Nat := none
  deriving DecidableEq, Repr

/-- A segment to lay out. It takes as much memory as file if no memory size is given. -/
structure SegmentPlan where
  type : Nat
  contents : List UInt8
  flags : Nat := 0
  address : Nat := 0
  align : Nat := 1
  memorySize : Option Nat := none
  statedFileSize : Option Nat := none
  deriving DecidableEq, Repr

/-- An image to build. The optional numbers are written into the header instead of the real ones. -/
structure Blueprint where
  format : Format
  objectType : Nat := 2
  machine : Nat := 0x3e
  entry : Nat := 0x401000
  flags : Nat := 0
  sections : List SectionPlan := []
  segments : List SegmentPlan := []
  statedSegmentTable : Option Nat := none
  statedSegmentCount : Option Nat := none
  statedSectionTable : Option Nat := none
  statedSectionCount : Option Nat := none
  statedNameSection : Option Nat := none
  deriving DecidableEq, Repr

/-- The header of a section whose contents are placed at `offset`. -/
def SectionPlan.entry (s : SectionPlan) (name offset : Nat) : SectionEntry where
  name
  type := s.type
  flags := s.flags
  address := s.address
  offset := s.statedOffset.getD offset
  size := s.statedSize.getD s.contents.length
  link := s.link
  info := s.info
  align := s.align
  entrySize := s.entrySize

/-- The header of a segment that is placed at `offset` and has `fileSize` bytes. -/
def SegmentPlan.entry (p : SegmentPlan) (offset fileSize : Nat) : SegmentEntry where
  type := p.type
  flags := p.flags
  offset
  virtualAddress := p.address
  physicalAddress := p.address
  fileSize
  memorySize := p.memorySize.getD fileSize
  align := p.align

namespace Blueprint

/-- The name of the section that holds the section names. -/
def namesName : String := ".shstrtab"

/-- The null section, the planned ones and the section names. -/
def sectionCount (b : Blueprint) : Nat := b.sections.length + 2

def sectionNames (b : Blueprint) : List String := b.sections.map (·.name) ++ [namesName]

def segmentChunks (b : Blueprint) : List (List UInt8) := b.segments.map (·.contents)

/-- The contents of the planned sections and the section names. -/
def sectionChunks (b : Blueprint) : List (List UInt8) :=
  b.sections.map (·.contents) ++ [joinStrings b.sectionNames]

/-- The section that holds the section names. -/
def namesPlan (b : Blueprint) : SectionPlan where
  name := namesName
  type := SectionEntry.strtab
  contents := joinStrings b.sectionNames

/-- Where the contents may start: behind the two tables at the front. -/
def contentStart (b : Blueprint) : Nat :=
  Header.size b.format.fileClass + b.segments.length * Record.size SegmentEntry b.format.fileClass

def segmentEnd (b : Blueprint) : Nat := placeEnd b.contentStart b.segmentChunks

def contentEnd (b : Blueprint) : Nat := placeEnd b.segmentEnd b.sectionChunks

def sectionTable (b : Blueprint) : Nat := aligned b.contentEnd

/-- The program headers in order. -/
def segmentEntries (b : Blueprint) : List SegmentEntry :=
  List.zipWith (fun p offset => p.entry offset (p.statedFileSize.getD p.contents.length))
    b.segments (place b.contentStart b.segmentChunks)

/-- The section headers in order. -/
def sectionEntries (b : Blueprint) : List SectionEntry :=
  ⟨0, 0, 0, 0, 0, 0, 0, 0, 0, 0⟩ ::
    List.zipWith (fun s (name, offset) => s.entry name offset) (b.sections ++ [b.namesPlan])
      ((stringOffsets 1 b.sectionNames).zip (place b.segmentEnd b.sectionChunks))

def header (b : Blueprint) : Header where
  format := b.format
  osAbi := 0
  abiVersion := 0
  objectType := b.objectType
  machine := b.machine
  version := Header.currentVersion.toNat
  entry := b.entry
  segmentTable :=
    b.statedSegmentTable.getD
      (if b.segments.isEmpty then 0 else Header.size b.format.fileClass)
  sectionTable := b.statedSectionTable.getD b.sectionTable
  flags := b.flags
  headerSize := Header.size b.format.fileClass
  segmentEntrySize := Record.size SegmentEntry b.format.fileClass
  segmentCount := b.statedSegmentCount.getD b.segments.length
  sectionEntrySize := Record.size SectionEntry b.format.fileClass
  sectionCount := b.statedSectionCount.getD b.sectionCount
  nameSection := b.statedNameSection.getD (b.sectionCount - 1)

/-- One more than the most entries that a table can have. -/
def countLimit : Nat := 0x1_0000

/-- One more than the most bytes that fit into memory. -/
def sizeLimit : Nat := 0x8000_0000_0000_0000

/-- The written forms of records, if all of them fit their fields. -/
def encodeAll? {α : Type} [Record α] (format : Format) (records : List α) :
    Option (List UInt8) :=
  (records.mapM (Record.encode? format)).map List.flatten

/-- The image, if every number fits the field it is written to and the whole fits into memory. -/
def assemble (b : Blueprint) : Option (List UInt8) := do
  guard (b.sectionCount < countLimit ∧ b.segments.length < countLimit)
  guard b.header.Fits
  let segmentTable ← encodeAll? b.format b.segmentEntries
  let sectionTable ← encodeAll? b.format b.sectionEntries
  let image := b.header.encode ++ segmentTable ++ pack b.contentStart b.segmentChunks ++
    pack b.segmentEnd b.sectionChunks ++ zeros (b.sectionTable - b.contentEnd) ++ sectionTable
  guard (image.length < sizeLimit)
  return image

/-! ## Parts -/

/-- Something to add to a blueprint. -/
inductive Part where
  | plain (plan : SectionPlan)
  | strings (name : String) (strings : List String)
  | symbols (name : String) (type link : Nat) (symbols : List SymbolEntry)
  | segment (plan : SegmentPlan)
  deriving DecidableEq, Repr

/-- What an added part can be referred to by. -/
inductive Added where
  | index (i : Nat)
  | strings (index : Nat) (offsets : List Nat)
  deriving DecidableEq, Repr

/-- Adds a section; its index counts the null section. -/
def addSection (b : Blueprint) (plan : SectionPlan) : Blueprint × Nat :=
  let sections := b.sections ++ [plan]
  ({ b with sections }, sections.length)

/-- Adds a part, unless it holds a number that does not fit its field. -/
def add (b : Blueprint) : Part → Option (Blueprint × Added)
  | .plain plan =>
    let (next, i) := b.addSection plan
    some (next, .index i)
  | .strings name strings =>
    let (next, i) := b.addSection
      { name, type := SectionEntry.strtab, contents := joinStrings strings }
    some (next, .strings i (stringOffsets 1 strings))
  | .symbols name type link symbols => do
    let contents ← encodeAll? b.format symbols
    let (next, i) := b.addSection
      { name, type, contents, link, info := 1, align := 8,
        entrySize := Record.size SymbolEntry b.format.fileClass }
    return (next, .index i)
  | .segment plan =>
    some ({ b with segments := b.segments ++ [plan] }, .index b.segments.length)

/-- Adds parts in order. -/
def addAll (b : Blueprint) : List Part → Option (Blueprint × List Added)
  | [] => some (b, [])
  | p :: rest => do
    let (next, added) ← b.add p
    let (last, more) ← next.addAll rest
    return (last, added :: more)

end Blueprint

end ElfInspect
