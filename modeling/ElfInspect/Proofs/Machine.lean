import Mathlib
import ElfInspect.Query

/-!
The questions as a machine with 64-bit words works them out. Here an operation need not have a
result: a difference below zero, a sum or product that is no word, a quotient by zero, a part or an
index outside of its bytes, a cursor behind the end, and a branch that nothing should reach are
traps. A trap, unlike a fault, is no answer. The operations are written out where the machine
performs them; all else is as in `ElfInspect.Session`.
-/

namespace ElfInspect.Machine

/-! ## Operations -/

/-- An operation without a result. -/
inductive Trap where
  | difference (a b : Nat)
  | sum (a b : Nat)
  | product (a b : Nat)
  | quotient (a : Nat)
  /-- The bytes or entries from `start` to `stop`, of `size` in all. -/
  | part (start stop size : Nat)
  | position (pos size : Nat)
  | unreachable
  deriving DecidableEq, Repr

/-- Operations, which may trap. -/
abbrev Op := Except Trap

/-- Calculations, which may trap or end in a fault. -/
abbrev Calc := ExceptT Fault Op

/-- One more than the largest word. -/
def wordLimit : Nat := 2 ^ 64

def sub (a b : Nat) : Op Nat := if b ≤ a then .ok (a - b) else .error (.difference a b)

def add (a b : Nat) : Op Nat := if a + b < wordLimit then .ok (a + b) else .error (.sum a b)

def mul (a b : Nat) : Op Nat := if a * b < wordLimit then .ok (a * b) else .error (.product a b)

def div (a b : Nat) : Op Nat := if b = 0 then .error (.quotient a) else .ok (a / b)

/-- A result that is checked before it is used, and so does not trap. -/
def checked (n : Nat) : Option Nat := if n < wordLimit then some n else none

def part (bytes : ByteArray) (start stop : Nat) : Op ByteArray :=
  if start ≤ stop ∧ stop ≤ bytes.size then .ok (bytes.extract start stop)
  else .error (.part start stop bytes.size)

/-- Index `i` of `count` entries. -/
def index (i count : Nat) : Op Nat := if i < count then .ok i else .error (.part i (i + 1) count)

def byte (bytes : ByteArray) (i : Nat) : Op UInt8 := do
  return Header.byteAt bytes (← index i bytes.size)

/-! ## Reading -/

def moveTo (c : Cursor) (pos : Nat) : Op Cursor :=
  if pos ≤ c.bytes.size then .ok { c with pos } else .error (.position pos c.bytes.size)

def seek (c : Cursor) (offset : Nat) : Calc Cursor := do
  if c.bytes.size < offset then throw (.outOfRange offset c.bytes.size)
  moveTo c offset

def take (c : Cursor) (length : Nat) : Calc (ByteArray × Cursor) := do
  let remaining ← sub c.bytes.size c.pos
  if remaining < length then throw (.truncatedInput c.pos length)
  let stop ← add c.pos length
  let found ← part c.bytes c.pos stop
  return (found, ← moveTo c stop)

def number (c : Cursor) (n : Nat) : Calc (Nat × Cursor) := do
  let (found, next) ← take c n
  if found.size ≠ n then throw (.truncatedInput c.pos n)
  return (c.format.order.number found.data.toList, next)

def readFields : (ws : Layout) → Cursor → Calc (Fields ws × Cursor)
  | [], c => return ((), c)
  | w :: ws, c => do
    let (n, next) ← number c (w.size c.format.fileClass)
    let (rest, last) ← readFields ws next
    return ((n, rest), last)

def decodeAt {α : Type} [Record α] (bytes : ByteArray) (format : Format) (offset : Nat) :
    Calc α := do
  let c ← seek (.start bytes format) offset
  let (f, _) ← readFields (Record.layout α format.fileClass) c
  return Record.ofFields format.fileClass f

def slice (bytes : ByteArray) (format : Format) (offset length : Nat) : Calc ByteArray := do
  let c ← seek (.start bytes format) offset
  return (← take c length).1

/-! ## Headers -/

def parseIdent (bytes : ByteArray) : Calc Format := do
  if bytes.size < Header.magic.length then throw (.truncatedInput 0 Header.magic.length)
  let found ← part bytes 0 Header.magic.length
  if found.data.toList ≠ Header.magic then
    throw (.malformedHeader (.badMagic found.data.toList))
  if bytes.size < Header.identSize then throw (.truncatedInput 0 Header.identSize)
  let classMark ← byte bytes 4
  let some fileClass := FileClass.ofMark? classMark
    | throw (.malformedHeader (.badClass classMark))
  let orderMark ← byte bytes 5
  let some order := ByteOrder.ofMark? orderMark
    | throw (.malformedHeader (.badEncoding orderMark))
  let version ← byte bytes 6
  if version ≠ Header.currentVersion then throw (.malformedHeader (.badVersion version))
  return ⟨fileClass, order⟩

def parseBody (bytes : ByteArray) (format : Format) : Calc (Fields Header.bodyLayout) := do
  let start ← seek (.start bytes format) Header.identSize
  let (lead, c) ← readFields Header.leadLayout start
  let (t, m, v, entry, ph, sh, flags, ehsize, phsize, phnum, shsize, shnum, ()) := lead
  if shnum = Header.extendedCount then throw (.unsupportedFeature .extendedSectionCount)
  let ((names, ()), _) ← readFields [.half] c
  if names = Header.extendedIndex then throw (.unsupportedFeature .extendedStringIndex)
  return (t, m, v, entry, ph, sh, flags, ehsize, phsize, phnum, shsize, shnum, names, ())

def parse (bytes : ByteArray) : Calc Header := do
  let format ← parseIdent bytes
  let (t, m, v, entry, ph, sh, flags, ehsize, phsize, phnum, shsize, shnum, names, ()) ←
    parseBody bytes format
  return {
    format
    osAbi := (← byte bytes 7).toNat
    abiVersion := (← byte bytes 8).toNat
    objectType := t
    machine := m
    version := v
    entry
    segmentTable := ph
    sectionTable := sh
    flags
    headerSize := ehsize
    segmentEntrySize := phsize
    segmentCount := phnum
    sectionEntrySize := shsize
    sectionCount := shnum
    nameSection := names }

/-! ## Entries -/

/-- Where entry `i` of a table starts. Both results are checked, so a table that lies beyond all
offsets is a fault. -/
def entryOffset (base entrySize count i : Nat) : Except Fault Nat :=
  match (checked (i * entrySize)).bind fun relative => checked (base + relative) with
  | some offset => .ok offset
  | none => .error (.outOfRange i count)

def sectionOffset (img : Image) (i : Nat) : Except Fault Nat :=
  let h := img.header
  if i < h.sectionCount then entryOffset h.sectionTable h.sectionEntrySize h.sectionCount i
  else .error (.outOfRange i h.sectionCount)

def segmentOffset (img : Image) (i : Nat) : Except Fault Nat :=
  let h := img.header
  if i < h.segmentCount then entryOffset h.segmentTable h.segmentEntrySize h.segmentCount i
  else .error (.outOfRange i h.segmentCount)

def data (s : SectionEntry) (bytes : ByteArray) (format : Format) : Calc ByteArray :=
  if s.type = SectionEntry.nobits then return .empty else slice bytes format s.offset s.size

def entryCount (s : SectionEntry) : Op Nat :=
  if s.entrySize = 0 ∨ s.type = SectionEntry.nobits then .ok 0 else div s.size s.entrySize

def symbolCount (s : SectionEntry) (bytes : ByteArray) (format : Format) : Calc Nat := do
  if (← entryCount s) = 0 then return 0
  let held ← data s bytes format
  div held.size s.entrySize

/-- Where symbol `j` starts. Only the sum is checked, and the check never fails. -/
def symbolOffset (s : SectionEntry) (count j : Nat) : Calc Nat := do
  if count ≤ j then throw (.outOfRange j count)
  let relative ← mul j s.entrySize
  match checked (s.offset + relative) with
  | some offset => return offset
  | none => (.error .unreachable : Op Nat)

def lookup (table : StringTable) (offset : Nat) : Calc String := do
  if table.size ≤ offset then throw (.outOfRange offset table.size)
  let remaining ← part table.bytes offset table.size
  let found ← part remaining 0 (remaining.data.toList.findIdx (· == 0))
  return lossyText found.data.toList

def interpreter (p : SegmentEntry) (bytes : ByteArray) (format : Format) :
    Calc (Option String) := do
  if p.type = SegmentEntry.interp then
    let held ← slice bytes format p.offset p.fileSize
    return some (lossyText (SegmentEntry.dropFinalZero held.data.toList))
  return none

def contains (symbol : SymbolEntry) (address : Nat) : Op Bool := do
  if symbol.value ≤ address then
    return (← sub address symbol.value) < symbol.size
  return false

/-! ## Questions in a session -/

/-- Questions that may trap. A trap ends the whole session. -/
abbrev MachineM := ExceptT Fault (StateT Session Op)

instance : MonadLift Calc MachineM := ⟨fun c => ExceptT.mk (monadLift c.run)⟩

def report (e : Event) : MachineM Unit := modify fun s => { s with log := s.log.push e }

def once (slot : Slot) (produce : MachineM slot.Content) : MachineM slot.Content :=
  getOrMake (do return (← get).slots.get? slot)
    (fun content => modify fun s => { s with slots := s.slots.insert slot content }) produce

def sectionAt (img : Image) (i : Nat) : MachineM SectionEntry :=
  once (.sectionEntry i) do
    let offset ← sectionOffset img i
    report (.resolvingSection i offset)
    decodeAt (α := SectionEntry) img.bytes img.format offset

def segmentAt (img : Image) (i : Nat) : MachineM SegmentEntry :=
  once (.segmentEntry i) do
    let offset ← segmentOffset img i
    report (.resolvingSegment i offset)
    decodeAt (α := SegmentEntry) img.bytes img.format offset

def symbolAt (img : Image) (i j : Nat) : MachineM SymbolEntry := do
  let s ← sectionAt img i
  let count ← once (.symbolCount i) (symbolCount s img.bytes img.format)
  once (.symbol i j) do
    let offset ← symbolOffset s count j
    report (.resolvingSymbol i j offset)
    decodeAt (α := SymbolEntry) img.bytes img.format offset

def stringTable (img : Image) (i : Nat) : MachineM StringTable := do
  let s ← sectionAt img i
  once (.stringTable i) do return ⟨← data s img.bytes img.format⟩

def nameTable (img : Image) : MachineM (Option StringTable) := do
  if img.header.nameSection = 0 then return none
  return some (← stringTable img img.header.nameSection)

def sectionName (img : Image) (i : Nat) : MachineM String := do
  let s ← sectionAt img i
  once (.sectionName i) do
    match ← nameTable img with
    | some table => lookup table s.name
    | none => return ""

def symbolName (img : Image) (i j : Nat) : MachineM String := do
  let s ← sectionAt img i
  let symbol ← symbolAt img i j
  once (.symbolName i j) do lookup (← stringTable img s.link) symbol.name

def sectionNamed (img : Image) (name : String) : MachineM (Option SectionHit) :=
  firstHit (fun i => do
    let s ← sectionAt img i
    return if (← sectionName img i) = name then some ⟨i, s⟩ else none)
    1 (img.header.sectionCount - 1)

def stringsNamed (img : Image) (name : String) : MachineM (Option StringTable) := do
  match ← sectionNamed img name with
  | some hit => return some (← stringTable img hit.index)
  | none => return none

def indexOf (img : Image) (w : WellKnown) : MachineM (Option Nat) :=
  once (.indexOf w) <| firstHit (fun i => do
    if (← sectionAt img i).type = w.type then
      report (.foundType w.type i)
      return some i
    return none) 1 (img.header.sectionCount - 1)

def wellKnown (img : Image) (w : WellKnown) : MachineM (Option SectionHit) := do
  match ← indexOf img w with
  | some i => return some ⟨i, ← sectionAt img i⟩
  | none => return none

def interpreterPath (img : Image) : MachineM (Option String) :=
  firstHit (fun i => do interpreter (← segmentAt img i) img.bytes img.format)
    0 img.header.segmentCount

def searchSymbols (img : Image) (search : SectionHit → MachineM (Option SymbolHit)) :
    MachineM (Option SymbolHit) :=
  firstSome (searchIn (wellKnown img .dynamicSymbols) search)
    (searchIn (wellKnown img .symbolTable) search)

/-- One step of a search from both ends: index `low`, then its counterpart from the other end. -/
def bothEnds {β : Type} (visit : Nat → MachineM (Option β)) (count low : Nat) :
    MachineM (Option β) := do
  let high ← sub (← sub count 1) low
  match ← visit (← index low count) with
  | some hit => return some hit
  | none => if high ≠ low then visit (← index high count) else return none

def symbolNamed (img : Image) (name : String) : MachineM (Option SymbolHit) :=
  searchSymbols img fun table => do
    let count ← entryCount table.entry
    firstHit (bothEnds (fun j => do
      let symbol ← symbolAt img table.index j
      return if (← symbolName img table.index j) = name then some ⟨table.index, j, symbol⟩
        else none) count) 0 (count / 2 + count % 2)

def symbolContaining (img : Image) (address : Nat) : MachineM (Option SymbolHit) :=
  searchSymbols img fun table => do
    let count ← entryCount table.entry
    firstHit (fun j => do
      let symbol ← symbolAt img table.index j
      return if (← contains symbol address) then some ⟨table.index, j, symbol⟩ else none)
      0 count

def list {α : Type} (question : Nat → MachineM α) (start n : Nat) : MachineM (Listing α) :=
  (listing (fun i => (question i).run) start n : StateT Session Op (Listing α))

def ask (img : Image) : Query → MachineM Answer
  | .sectionEntry i => return .sectionEntry (← sectionAt img i)
  | .sectionName i => return .text (← sectionName img i)
  | .sectionData i => do
    let s ← sectionAt img i
    return .bytes (← data s img.bytes img.format)
  | .sectionStrings i => return .strings (← stringTable img i)
  | .sectionString i offset => do
    let table ← stringTable img i
    return .text (← lookup table offset)
  | .entryCount i => do
    let s ← sectionAt img i
    return .count (← entryCount s)
  | .symbol i j => return .symbol (← symbolAt img i j)
  | .symbolName i j => return .text (← symbolName img i j)
  | .symbolContains i j addresses => do
    let symbol ← symbolAt img i j
    return .flags (← (addresses.mapM (contains symbol) : Op (List Bool)))
  | .symbols i => do
    let s ← sectionAt img i
    return .symbols (← list (symbolAt img i) 0 (← entryCount s))
  | .symbolNames i => do
    let s ← sectionAt img i
    return .texts (← list (symbolName img i) 0 (← entryCount s))
  | .sections => return .sections (← list (sectionAt img) 0 img.header.sectionCount)
  | .sectionNames => return .texts (← list (sectionName img) 0 img.header.sectionCount)
  | .segment i => return .segment (← segmentAt img i)
  | .segmentData i => do
    let p ← segmentAt img i
    return .bytes (← slice img.bytes img.format p.offset p.fileSize)
  | .segmentInterpreter i => do
    let p ← segmentAt img i
    return .optional .text (← interpreter p img.bytes img.format)
  | .segments => return .segments (← list (segmentAt img) 0 img.header.segmentCount)
  | .nameTable => return .optional .strings (← nameTable img)
  | .stringsNamed name => return .optional .strings (← stringsNamed img name)
  | .sectionNamed name =>
    return .optional (fun hit => .sectionEntry hit.entry) (← sectionNamed img name)
  | .wellKnown w =>
    return .optional (fun hit => .sectionEntry hit.entry) (← wellKnown img w)
  | .interpreterPath => return .optional .text (← interpreterPath img)
  | .symbolNamed name =>
    return .optional (fun hit => .symbol hit.entry) (← symbolNamed img name)
  | .symbolContaining address =>
    return .optional (fun hit => .symbol hit.entry) (← symbolContaining img address)

def askAll (img : Image) : List Query → StateT Session Op (List (Except Fault Answer))
  | [] => return []
  | q :: rest => do
    let answer ← (ask img q).run
    return answer :: (← askAll img rest)

/-- Opens the image in `bytes` and asks the given questions in one session, unless there is a
trap. -/
def answers (bytes : ByteArray) (queries : List Query) :
    Op (Except Fault (List (Except Fault Answer))) := do
  match ← (parse bytes).run with
  | .error fault => return .error fault
  | .ok header =>
    let img : Image := ⟨bytes, header⟩
    let (given, _) ← (askAll img queries).run (Session.start img)
    return .ok given

end ElfInspect.Machine
