import ElfInspect.Report.Records
import ElfInspect.Text.Column

/-!
Reports as lines of text and as JSON documents. What is written of a report is a list of pieces, in
the order in which they are written.
-/

namespace ElfInspect

inductive OutputFormat where
  | text
  | json
  deriving DecidableEq, Repr

namespace OutputFormat

def name : OutputFormat → String
  | .text => "text"
  | .json => "json"

def spellings : List (String × OutputFormat) := [text, json].map fun f => (f.name, f)

end OutputFormat

/-- Lines are written one by one, each with its end. -/
def linePieces (lines : List String) : List String := lines.map (· ++ "\n")

inductive Json where
  | number (n : Nat)
  | string (s : String)
  | array (items : List Json)
  | object (fields : List (String × Json))

/-- A document is written with a line end behind it. -/
def Json.pieces (text : Json → String) (j : Json) : List String := [text j, "\n"]

/-- A field that is left out when there is no value. -/
def Json.field? (name : String) (value : Option String) : List (String × Json) :=
  (value.map fun s => (name, Json.string s)).toList

namespace SymbolRecord

def json (r : SymbolRecord) : Json :=
  .object ([("name", .string r.name)] ++ Json.field? "section" r.table ++
    [("value", .number r.value), ("size", .number r.size), ("type", .string r.type),
      ("binding", .string r.binding)])

/-- The line of a listing. -/
def line (r : SymbolRecord) : String :=
  match r.table with
  | some table => r.name ++ " " ++ table
  | none => r.name

/-- The line that answers a lookup. -/
def detail (r : SymbolRecord) : String :=
  " ".intercalate [hexFixed 16 r.value, rightAligned 8 (toString r.size), leftAligned 7 r.type,
    leftAligned 6 r.binding, r.name]

end SymbolRecord

/-- A listing of symbols. -/
def renderSymbols (jsonText : Json → String) (records : List SymbolRecord) :
    OutputFormat → List String
  | .text => linePieces (records.map SymbolRecord.line)
  | .json => (Json.array (records.map SymbolRecord.json)).pieces jsonText

/-- The answer to a lookup. -/
def renderLookup (jsonText : Json → String) (record : SymbolRecord) : OutputFormat → List String
  | .text => linePieces [record.detail]
  | .json => record.json.pieces jsonText

def SectionRecord.json (r : SectionRecord) : Json :=
  .object [("index", .number r.index), ("name", .string r.name), ("type", .string r.type),
    ("address", .number r.address), ("offset", .number r.offset), ("size", .number r.size),
    ("entries", .number r.entries)]

def SegmentRecord.json (r : SegmentRecord) : Json :=
  .object [("index", .number r.index), ("type", .string r.type), ("offset", .number r.offset),
    ("vaddr", .number r.address), ("filesz", .number r.fileSize),
    ("memsz", .number r.memorySize), ("flags", .string r.permissions)]

def SectionRecord.line (r : SectionRecord) : String :=
  " ".intercalate ["  [" ++ rightAligned 2 (toString r.index) ++ "]", leftAligned 20 r.name,
    leftAligned 12 r.type, hexFixed 16 r.address, hexFixed 8 r.offset, hexFixed 8 r.size,
    toString r.entries]

def SegmentRecord.line (r : SegmentRecord) : String :=
  " ".intercalate ["  " ++ leftAligned 12 r.type, hexFixed 8 r.offset, hexFixed 16 r.address,
    hexFixed 8 r.fileSize, hexFixed 8 r.memorySize, r.permissions]

namespace HeaderReport

def json (r : HeaderReport) : Json :=
  .object ([("class", .string r.fileClass), ("encoding", .string r.order),
    ("type", .string r.type), ("machine", .string r.machine), ("entry", .number r.entry),
    ("sections", .array (r.sections.map SectionRecord.json)),
    ("segments", .array (r.segments.map SegmentRecord.json))] ++
      Json.field? "interpreter" r.interpreter)

/-- The lines about the file header. -/
def summary (r : HeaderReport) : List String :=
  ["Class:       " ++ r.fileClass, "Encoding:    " ++ r.order, "Type:        " ++ r.type,
    "Machine:     " ++ r.machine, "Entry:       " ++ hex r.entry] ++
      (r.interpreter.map ("Interpreter: " ++ ·)).toList

def sectionLines (r : HeaderReport) : List String :=
  ["", "Sections:", " ".intercalate ["  [Nr]", leftAligned 20 "Name", leftAligned 12 "Type",
    leftAligned 18 "Address", leftAligned 10 "Offset", leftAligned 10 "Size", "Entries"]] ++
      r.sections.map SectionRecord.line

/-- The lines about the segments, none without segments. -/
def segmentLines (r : HeaderReport) : List String :=
  if r.segments.isEmpty then []
  else
    ["", "Program headers:", " ".intercalate ["  " ++ leftAligned 12 "Type",
      leftAligned 10 "Offset", leftAligned 18 "VirtAddr", leftAligned 10 "FileSiz",
      leftAligned 10 "MemSiz", "Flags"]] ++ r.segments.map SegmentRecord.line

def render (jsonText : Json → String) (r : HeaderReport) : OutputFormat → List String
  | .text => linePieces (r.summary ++ r.sectionLines ++ r.segmentLines)
  | .json => r.json.pieces jsonText

end HeaderReport

end ElfInspect
