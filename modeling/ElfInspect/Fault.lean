import ElfInspect.Radix

/-!
What can be wrong with an image. A fault keeps the numbers it is about; its wording is one
function, `Fault.message`.
-/

namespace ElfInspect

/-- What is wrong with an identification block. -/
inductive HeaderDefect where
  | badMagic (found : List UInt8)
  | badClass (found : UInt8)
  | badEncoding (found : UInt8)
  | badVersion (found : UInt8)
  deriving DecidableEq, Repr

/-- Numbering schemes that keep a header field in section 0 instead. -/
inductive Unsupported where
  | extendedSectionCount
  | extendedStringIndex
  deriving DecidableEq, Repr

inductive Fault where
  | malformedHeader (defect : HeaderDefect)
  | unsupportedFeature (feature : Unsupported)
  /-- The bytes end before the `needed` ones at `offset` do. -/
  | truncatedInput (offset needed : Nat)
  /-- An index or offset `value` is not below, or not within, `limit`. -/
  | outOfRange (value limit : Nat)
  deriving DecidableEq, Repr

def HeaderDefect.message : HeaderDefect → String
  | .badMagic found => "bad magic number [" ++ ", ".intercalate (found.map byteHex) ++ "]"
  | .badClass found => "invalid object size class " ++ toString found.toNat
  | .badEncoding found => "invalid data encoding " ++ toString found.toNat
  | .badVersion found => "invalid ELF version " ++ toString found.toNat

def Unsupported.message : Unsupported → String
  | .extendedSectionCount =>
    "e_shnum is SHN_UNDEF (section count stored in section 0 is not supported)"
  | .extendedStringIndex =>
    "e_shstrndx is SHN_XINDEX (string table index stored in section 0 is not supported)"

def Fault.message : Fault → String
  | .malformedHeader defect => "malformed ELF header: " ++ defect.message
  | .unsupportedFeature feature => "unsupported ELF feature: " ++ feature.message
  | .truncatedInput offset needed =>
    "input truncated: needed " ++ toString needed ++ " bytes at offset " ++ hex offset
  | .outOfRange value limit => "value " ++ hex value ++ " out of range (limit " ++ hex limit ++ ")"

end ElfInspect
