/-!
Columns of text. Widths count characters.
-/

namespace ElfInspect

/-- `s` and as many spaces behind it as `width` needs. -/
def leftAligned (width : Nat) (s : String) : String :=
  String.ofList (s.toList.rightpad width ' ')

/-- `s` and as many spaces before it as `width` needs. -/
def rightAligned (width : Nat) (s : String) : String :=
  String.ofList (s.toList.leftpad width ' ')

end ElfInspect
