/-!
Numbers as text: hexadecimal digits, the `0x` form, and zero filling.
-/

namespace ElfInspect

/-- The lower-case hexadecimal digits of `n`, most significant first; zero has one digit. -/
def hexDigits (n : Nat) : List Char := Nat.toDigits 16 n

/-- `cs` filled up on the left with zeros to `width` characters. -/
def zeroFilled (width : Nat) (cs : List Char) : List Char :=
  List.replicate (width - cs.length) '0' ++ cs

/-- `0x` and the hexadecimal digits of `n`. -/
def hex (n : Nat) : String := "0x" ++ String.ofList (hexDigits n)

/-- `0x` and at least `digits` hexadecimal digits of `n`. -/
def hexFixed (digits n : Nat) : String :=
  "0x" ++ String.ofList (zeroFilled digits (hexDigits n))

/-- The two hexadecimal digits of a byte. -/
def byteHex (b : UInt8) : String := String.ofList (zeroFilled 2 (hexDigits b.toNat))

end ElfInspect
