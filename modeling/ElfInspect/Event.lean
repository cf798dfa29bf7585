import ElfInspect.Header

/-!
What questions to an image report while they are being answered, and its wording.
-/

namespace ElfInspect

inductive Event where
  | parsedHeader (header : Header)
  | resolvingSection (index offset : Nat)
  | resolvingSegment (index offset : Nat)
  /-- Symbol `index` of the table that is section `table`. -/
  | resolvingSymbol (table index offset : Nat)
  | foundType (type index : Nat)
  | walking (table : String) (entries : Nat)
  deriving DecidableEq, Repr

namespace Event

def resolving (what : String) (index offset : Nat) : String :=
  "resolving " ++ what ++ " " ++ toString index ++ " at " ++ hex offset

def message : Event → String
  | .parsedHeader h =>
    "parsed " ++ h.format.fileClass.label ++ "/" ++ h.format.order.label ++ " " ++
      (ObjectType.ofCode h.objectType).text ++ " header for " ++ machineText h.machine ++ ": " ++
      toString h.sectionCount ++ " sections, " ++ toString h.segmentCount ++ " program headers"
  | .resolvingSection index offset => resolving "section header" index offset
  | .resolvingSegment index offset => resolving "program header" index offset
  | .resolvingSymbol _ index offset => resolving "symbol" index offset
  | .foundType type index =>
    "section type " ++ toString type ++ " found at index " ++ toString index
  | .walking table entries => "walking " ++ table ++ " (" ++ toString entries ++ " entries)"

end Event

end ElfInspect
