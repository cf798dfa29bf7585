import ElfInspect.Blueprint

/-!
Writing an image step by step. A draft only grows, so the contents are laid out first, behind a gap
that is as long as the header and the program headers; these state where the contents are, and are
written over the gap once that is known.
-/

namespace ElfInspect

/-- A four-byte address field refuses a number that it would have to cut off. -/
def FileClass.Refuses (k : FileClass) (w : Width) (n : Nat) : Prop :=
  k = .elf32 ∧ w = .address ∧ 0x1_0000_0000 ≤ n

instance (k : FileClass) (w : Width) (n : Nat) : Decidable (k.Refuses w n) :=
  inferInstanceAs (Decidable (_ ∧ _))

/-- What is written so far, and the format of the numbers in it. -/
structure Draft where
  format : Format
  bytes : Array UInt8
  deriving DecidableEq, Repr

namespace Draft

def ofBytes (format : Format) (bytes : List UInt8) : Draft := ⟨format, bytes.toArray⟩

/-- Where the next byte goes. -/
def offset (d : Draft) : Nat := d.bytes.size

def append (d : Draft) (part : List UInt8) : Draft := { d with bytes := d.bytes ++ part }

/-- Appends zeros up to the next multiple of eight. -/
def align (d : Draft) : Draft := d.append (zeros (aligned d.offset - d.offset))

/-- Appends chunks, each one aligned; says where each starts. -/
def lay (d : Draft) : List (List UInt8) → Draft × List Nat
  | [] => (d, [])
  | chunk :: rest =>
    let start := d.align.offset
    let (last, starts) := (d.align.append chunk).lay rest
    (last, start :: starts)

/-- Appends a number, unless it is refused. What is too large for a field of another width loses its
high digits. -/
def field (d : Draft) (w : Width) (n : Nat) : Option Draft :=
  if d.format.fileClass.Refuses w n then none
  else some (d.append (d.format.order.digits (w.size d.format.fileClass) n))

/-- Appends the fields of a layout in order. -/
def fields (d : Draft) : (ws : Layout) → Fields ws → Option Draft
  | [], _ => some d
  | w :: ws, (n, rest) => do
    let next ← d.field w n
    next.fields ws rest

/-- Appends records in order. -/
def records {α : Type} [Record α] (d : Draft) : List α → Option Draft
  | [] => some d
  | a :: rest => do
    let next ← d.fields (Record.layout α d.format.fileClass) (Record.toFields d.format.fileClass a)
    next.records rest

/-- Writes over the first bytes, of which there have to be enough. -/
def overwrite (d : Draft) (front : Array UInt8) : Option Draft :=
  if front.size ≤ d.bytes.size then
    some { d with bytes := front ++ d.bytes.extract front.size d.bytes.size }
  else none

end Draft

namespace Blueprint

/-- The contents behind a gap for the front of the image, and where each segment and each section
starts. -/
def layContents (b : Blueprint) : Draft × List Nat × List Nat :=
  let gap := Draft.ofBytes b.format (zeros b.contentStart)
  let (segments, segmentStarts) := gap.lay b.segmentChunks
  let (contents, sectionStarts) := segments.lay b.sectionChunks
  (contents.align, segmentStarts, sectionStarts)

/-- The section headers, the null section's first. -/
def writeSections (b : Blueprint) (starts : List Nat) : Option Draft :=
  let null := Draft.ofBytes b.format (zeros (Record.size SectionEntry b.format.fileClass))
  null.records (List.zipWith (fun s (name, start) => s.entry name start)
    (b.sections ++ [b.namesPlan]) ((stringOffsets 1 b.sectionNames).zip starts))

/-- The file header. -/
def writeHeader (b : Blueprint) (sectionTable : Nat) : Option Draft := do
  let k := b.format.fileClass
  let mark := Header.magic ++ [k.mark, b.format.order.mark, Header.currentVersion]
  let ident := Draft.ofBytes b.format (mark ++ zeros (Header.identSize - mark.length))
  let header ← ident.fields Header.bodyLayout
    (b.objectType, b.machine, Header.currentVersion.toNat, b.entry,
      b.statedSegmentTable.getD (if b.segments.isEmpty then 0 else Header.size k),
      b.statedSectionTable.getD sectionTable, b.flags, Header.size k,
      Record.size SegmentEntry k, b.statedSegmentCount.getD b.segments.length,
      Record.size SectionEntry k, b.statedSectionCount.getD b.sectionCount,
      b.statedNameSection.getD (b.sectionCount - 1), ())
  guard (header.offset = Header.size k)
  return header

/-- The program headers behind the file header. -/
def writeSegments (b : Blueprint) (header : Draft) (starts : List Nat) : Option Draft :=
  header.records (List.zipWith
    (fun p start => p.entry start (p.statedFileSize.getD p.contents.length)) b.segments starts)

/-- The image, unless an address is refused or a table has too many entries. Memory is taken to be
large enough. -/
def build (b : Blueprint) : Option (List UInt8) := do
  let (contents, segmentStarts, sectionStarts) := b.layContents
  let sections ← b.writeSections sectionStarts
  guard (b.sectionCount < countLimit)
  guard (b.segments.length < countLimit)
  let header ← b.writeHeader contents.offset
  let front ← b.writeSegments header segmentStarts
  let image ← contents.overwrite front.bytes
  return image.bytes.toList ++ sections.bytes.toList

end Blueprint

end ElfInspect
