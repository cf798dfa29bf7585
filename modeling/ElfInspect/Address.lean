import ElfInspect.Text.Blank
import ElfInspect.Radix

/-!
Addresses as people write them: decimal, or hexadecimal behind `0x`, with white space around.
-/

namespace ElfInspect

/-- Why a text is no number. -/
inductive NumeralFault where
  | empty
  | invalidDigit
  | tooLarge
  deriving DecidableEq, Repr

def NumeralFault.message : NumeralFault → String
  | .empty => "cannot parse integer from empty string"
  | .invalidDigit => "invalid digit found in string"
  | .tooLarge => "number too large to fit in target type"

/-- The value of a digit in a radix of at most 16; letters count in either case. -/
def digitValue? (radix : Nat) (c : Char) : Option Nat :=
  let n := c.toNat
  let value :=
    if '0'.toNat ≤ n ∧ n ≤ '9'.toNat then some (n - '0'.toNat)
    else if 'a'.toNat ≤ n ∧ n ≤ 'f'.toNat then some (n - 'a'.toNat + 10)
    else if 'A'.toNat ≤ n ∧ n ≤ 'F'.toNat then some (n - 'A'.toNat + 10)
    else none
  value.filter (· < radix)

/-- One more than the largest address. -/
def addressLimit : Nat := 0x1_0000_0000_0000_0000

/-- Reads digits behind those that have the value `n`; the first problem met decides. -/
def digitsBehind (radix n : Nat) : List Char → Except NumeralFault Nat
  | [] => .ok n
  | c :: cs =>
    match digitValue? radix c with
    | none => .error .invalidDigit
    | some d =>
      if radix * n + d < addressLimit then digitsBehind radix (radix * n + d) cs
      else .error .tooLarge

/-- Reads a numeral: at least one digit, perhaps behind a plus sign. -/
def numeral (radix : Nat) : List Char → Except NumeralFault Nat
  | [] => .error .empty
  | ['+'] => .error .invalidDigit
  | '+' :: digits => digitsBehind radix 0 digits
  | digits => digitsBehind radix 0 digits

/-- A text that is no address, and why. -/
structure AddressFault where
  text : String
  reason : NumeralFault
  deriving DecidableEq, Repr

def AddressFault.message (f : AddressFault) : String :=
  "invalid address `" ++ f.text ++ "`: " ++ f.reason.message

/-- Reads the characters of an address that has no white space around it. -/
def trimmedAddress : List Char → Except NumeralFault Nat
  | '0' :: 'x' :: digits => numeral 16 digits
  | '0' :: 'X' :: digits => numeral 16 digits
  | digits => numeral 10 digits

/-- Reads an address. -/
def parseAddress (text : String) : Except AddressFault Nat :=
  let trimmed := trimBlank text.toList
  (trimmedAddress trimmed).mapError (⟨String.ofList trimmed, ·⟩)

end ElfInspect
