import ElfInspect.Session

/-!
The questions to an image as data, with two ways to answer them: `Query.fresh` from the bytes alone
and `SessionM.ask` within a session. `SessionM.askAll` asks many in a row.
-/

namespace ElfInspect

inductive Query where
  | sectionEntry (i : Nat)
  | sectionName (i : Nat)
  | sectionData (i : Nat)
  | sectionStrings (i : Nat)
  | sectionString (i offset : Nat)
  | entryCount (i : Nat)
  | symbol (i j : Nat)
  | symbolName (i j : Nat)
  | symbolContains (i j : Nat) (addresses : List Nat)
  | symbols (i : Nat)
  | symbolNames (i : Nat)
  | sections
  | sectionNames
  | segment (i : Nat)
  | segmentData (i : Nat)
  | segmentInterpreter (i : Nat)
  | segments
  | nameTable
  | stringsNamed (name : String)
  | sectionNamed (name : String)
  | wellKnown (w : WellKnown)
  | interpreterPath
  | symbolNamed (name : String)
  | symbolContaining (address : Nat)
  deriving DecidableEq, Repr

inductive Answer where
  | absent
  | sectionEntry (entry : SectionEntry)
  | segment (entry : SegmentEntry)
  | symbol (entry : SymbolEntry)
  | text (words : String)
  | bytes (part : ByteArray)
  | strings (table : StringTable)
  | count (n : Nat)
  | flags (each : List Bool)
  | sections (list : Listing SectionEntry)
  | segments (list : Listing SegmentEntry)
  | symbols (list : Listing SymbolEntry)
  | texts (list : Listing String)

namespace Answer

/-- The answer for what may be absent. -/
def optional {α : Type} (present : α → Answer) : Option α → Answer
  | some a => present a
  | none => absent

end Answer

namespace Query

/-- The answer computed from the bytes alone. -/
def fresh (img : Image) : Query → Except Fault Answer
  | .sectionEntry i => return .sectionEntry (← img.sectionAt i)
  | .sectionName i => return .text (← img.sectionName i)
  | .sectionData i => do return .bytes (← (← img.sectionAt i).data img.bytes)
  | .sectionStrings i => return .strings (← img.stringTable i)
  | .sectionString i offset => do return .text (← (← img.stringTable i).lookup offset)
  | .entryCount i => return .count (← img.sectionAt i).entryCount
  | .symbol i j => return .symbol (← img.symbolAt i j)
  | .symbolName i j => return .text (← img.symbolName i j)
  | .symbolContains i j addresses => do
    return .flags (addresses.map (← img.symbolAt i j).contains)
  | .symbols i => do
    return .symbols (Id.run (listing (img.symbolAt i) 0 (← img.sectionAt i).entryCount))
  | .symbolNames i => do
    return .texts (Id.run (listing (img.symbolName i) 0 (← img.sectionAt i).entryCount))
  | .sections => return .sections (Id.run (listing img.sectionAt 0 img.header.sectionCount))
  | .sectionNames => return .texts (Id.run (listing img.sectionName 0 img.header.sectionCount))
  | .segment i => return .segment (← img.segmentAt i)
  | .segmentData i => do return .bytes (← (← img.segmentAt i).data img.bytes)
  | .segmentInterpreter i => do
    return .optional .text (← (← img.segmentAt i).interpreter img.bytes)
  | .segments => return .segments (Id.run (listing img.segmentAt 0 img.header.segmentCount))
  | .nameTable => return .optional .strings (← img.nameTable)
  | .stringsNamed name => return .optional .strings (← img.stringsNamed name)
  | .sectionNamed name =>
    return .optional (fun hit => .sectionEntry hit.entry) (← img.sectionNamed name)
  | .wellKnown w => return .optional (fun hit => .sectionEntry hit.entry) (← img.wellKnown w)
  | .interpreterPath => return .optional .text (← img.interpreterPath)
  | .symbolNamed name =>
    return .optional (fun hit => .symbol hit.entry) (← img.symbolNamed name)
  | .symbolContaining address =>
    return .optional (fun hit => .symbol hit.entry) (← img.symbolContaining address)

end Query

namespace SessionM

/-- The answer within a session. -/
def ask (img : Image) : Query → SessionM Answer
  | .sectionEntry i => return .sectionEntry (← sectionAt img i)
  | .sectionName i => return .text (← sectionName img i)
  | .sectionData i => do
    let s ← sectionAt img i
    return .bytes (← s.data img.bytes)
  | .sectionStrings i => return .strings (← stringTable img i)
  | .sectionString i offset => do
    let table ← stringTable img i
    return .text (← table.lookup offset)
  | .entryCount i => return .count (← sectionAt img i).entryCount
  | .symbol i j => return .symbol (← symbolAt img i j)
  | .symbolName i j => return .text (← symbolName img i j)
  | .symbolContains i j addresses => do
    return .flags (addresses.map (← symbolAt img i j).contains)
  | .symbols i => do
    return .symbols (← list (symbolAt img i) 0 (← sectionAt img i).entryCount)
  | .symbolNames i => do
    return .texts (← list (symbolName img i) 0 (← sectionAt img i).entryCount)
  | .sections => return .sections (← list (sectionAt img) 0 img.header.sectionCount)
  | .sectionNames => return .texts (← list (sectionName img) 0 img.header.sectionCount)
  | .segment i => return .segment (← segmentAt img i)
  | .segmentData i => do
    let p ← segmentAt img i
    return .bytes (← p.data img.bytes)
  | .segmentInterpreter i => do
    let p ← segmentAt img i
    return .optional .text (← p.interpreter img.bytes)
  | .segments => return .segments (← list (segmentAt img) 0 img.header.segmentCount)
  | .nameTable => return .optional .strings (← nameTable img)
  | .stringsNamed name => return .optional .strings (← stringsNamed img name)
  | .sectionNamed name =>
    return .optional (fun hit => .sectionEntry hit.entry) (← sectionNamed img name)
  | .wellKnown w =>
    return .optional (fun hit => .sectionEntry hit.entry) (← wellKnown img w)
  | .interpreterPath => return .optional .text (← interpreterPath img)
  | .symbolNamed name =>
    return .optional (fun hit => .symbol hit.entry) (← symbolNamed img name)
  | .symbolContaining address =>
    return .optional (fun hit => .symbol hit.entry) (← symbolContaining img address)

/-- The answers to questions asked one after the other. A fault ends its own question only. -/
def askAll (img : Image) : List Query → StateM Session (List (Except Fault Answer))
  | [] => return []
  | q :: rest => do
    let answer ← (ask img q).run
    return answer :: (← askAll img rest)

end SessionM

namespace Session

/-- The session in which the given questions have been asked. -/
def after (img : Image) (asked : List Query) : Session :=
  ((SessionM.askAll img asked).run (start img)).2

/-- Opens the image in `bytes` and asks the given questions in one session. -/
def answers (bytes : ByteArray) (queries : List Query) :
    Except Fault (List (Except Fault Answer)) := do
  let img ← Image.ofBytes bytes
  return ((SessionM.askAll img queries).run (start img)).1

end Session

namespace Query

/-- The answer of an image to which the questions `asked` have been put before. -/
def answerAfter (img : Image) (asked : List Query) (q : Query) : Except Fault Answer :=
  ((SessionM.ask img q).run.run (Session.after img asked)).1

/-- The answer for which `bytes` are decoded from the header on, for this question alone. -/
def reference (bytes : ByteArray) (q : Query) : Except Fault Answer := do
  q.fresh (← Image.ofBytes bytes)

end Query

end ElfInspect
