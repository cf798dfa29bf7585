import Std.Data.DHashMap
import ElfInspect.Event
import ElfInspect.Image
import ElfInspect.OnceCell

/-!
Questions to one image in a row. Whatever is decoded or found is kept in a slot and never decoded or
looked for again; faults are not kept. Each question here has its memory-less twin in
`ElfInspect.Image`.
-/

namespace ElfInspect

/-- The things that are kept once known. -/
inductive Slot where
  | sectionEntry (i : Nat)
  | segmentEntry (i : Nat)
  | sectionName (i : Nat)
  | stringTable (i : Nat)
  | symbolCount (i : Nat)
  | symbol (i j : Nat)
  | symbolName (i j : Nat)
  | indexOf (w : WellKnown)
  deriving DecidableEq, Repr, Hashable

/-- What a slot holds. A well-known section may be known to be absent. -/
@[reducible]
def Slot.Content : Slot → Type
  | .sectionEntry _ => SectionEntry
  | .segmentEntry _ => SegmentEntry
  | .sectionName _ => String
  | .stringTable _ => StringTable
  | .symbolCount _ => Nat
  | .symbol _ _ => SymbolEntry
  | .symbolName _ _ => String
  | .indexOf _ => Option Nat

structure Session where
  slots : Std.DHashMap Slot Slot.Content
  log : Array Event

/-- The session in which nothing but the header has been read. -/
def Session.start (img : Image) : Session := ⟨∅, #[.parsedHeader img.header]⟩

/-- Questions that read and fill slots and report events. A fault leaves both as they are. -/
abbrev SessionM := ExceptT Fault (StateM Session)

namespace SessionM

def report (e : Event) : SessionM Unit := modify fun s => { s with log := s.log.push e }

/-- The content of a slot, which is made if the slot is empty. -/
def once (slot : Slot) (produce : SessionM slot.Content) : SessionM slot.Content :=
  getOrMake (do return (← get).slots.get? slot)
    (fun content => modify fun s => { s with slots := s.slots.insert slot content }) produce

def sectionAt (img : Image) (i : Nat) : SessionM SectionEntry :=
  once (.sectionEntry i) do
    let offset ← img.sectionOffset i
    report (.resolvingSection i offset)
    Record.decodeAt (α := SectionEntry) img.bytes img.format offset

def segmentAt (img : Image) (i : Nat) : SessionM SegmentEntry :=
  once (.segmentEntry i) do
    let offset ← img.segmentOffset i
    report (.resolvingSegment i offset)
    Record.decodeAt (α := SegmentEntry) img.bytes img.format offset

def symbolAt (img : Image) (i j : Nat) : SessionM SymbolEntry := do
  let s ← sectionAt img i
  let count ← once (.symbolCount i) (s.symbolCount img.bytes)
  once (.symbol i j) do
    let offset ← Image.symbolOffset s count j
    report (.resolvingSymbol i j offset)
    Record.decodeAt (α := SymbolEntry) img.bytes img.format offset

def stringTable (img : Image) (i : Nat) : SessionM StringTable := do
  let s ← sectionAt img i
  once (.stringTable i) do return ⟨← s.data img.bytes⟩

def nameTable (img : Image) : SessionM (Option StringTable) := do
  if img.header.nameSection = 0 then return none
  return some (← stringTable img img.header.nameSection)

def sectionName (img : Image) (i : Nat) : SessionM String := do
  let s ← sectionAt img i
  once (.sectionName i) do
    match ← nameTable img with
    | some table => table.lookup s.name
    | none => return ""

def symbolName (img : Image) (i j : Nat) : SessionM String := do
  let s ← sectionAt img i
  let symbol ← symbolAt img i j
  once (.symbolName i j) do (← stringTable img s.link).lookup symbol.name

def sectionNamed (img : Image) (name : String) : SessionM (Option SectionHit) :=
  firstHit (fun i => do
    let s ← sectionAt img i
    return if (← sectionName img i) = name then some ⟨i, s⟩ else none)
    1 (img.header.sectionCount - 1)

def stringsNamed (img : Image) (name : String) : SessionM (Option StringTable) := do
  match ← sectionNamed img name with
  | some hit => return some (← stringTable img hit.index)
  | none => return none

def indexOf (img : Image) (w : WellKnown) : SessionM (Option Nat) :=
  once (.indexOf w) <| firstHit (fun i => do
    if (← sectionAt img i).type = w.type then
      report (.foundType w.type i)
      return some i
    return none) 1 (img.header.sectionCount - 1)

def wellKnown (img : Image) (w : WellKnown) : SessionM (Option SectionHit) := do
  match ← indexOf img w with
  | some i => return some ⟨i, ← sectionAt img i⟩
  | none => return none

def interpreterPath (img : Image) : SessionM (Option String) :=
  firstHit (fun i => do (← segmentAt img i).interpreter img.bytes) 0 img.header.segmentCount

def searchSymbols (img : Image) (search : SectionHit → SessionM (Option SymbolHit)) :
    SessionM (Option SymbolHit) :=
  firstSome (searchIn (wellKnown img .dynamicSymbols) search)
    (searchIn (wellKnown img .symbolTable) search)

def symbolNamed (img : Image) (name : String) : SessionM (Option SymbolHit) :=
  searchSymbols img fun table =>
    let n := table.entry.entryCount
    firstHit (fun k => do
      let j := twoEnded n k
      let symbol ← symbolAt img table.index j
      return if (← symbolName img table.index j) = name then some ⟨table.index, j, symbol⟩
        else none) 0 n

def symbolContaining (img : Image) (address : Nat) : SessionM (Option SymbolHit) :=
  searchSymbols img fun table =>
    firstHit (fun j => do
      let symbol ← symbolAt img table.index j
      return if symbol.contains address then some ⟨table.index, j, symbol⟩ else none)
      0 table.entry.entryCount

/-- The results of `n` questions from `start` on, up to the first fault. -/
def list {α : Type} (question : Nat → SessionM α) (start n : Nat) : SessionM (Listing α) :=
  (listing (fun i => (question i).run) start n : StateM Session (Listing α))

end SessionM

end ElfInspect
