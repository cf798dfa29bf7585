/-!
Text from bytes that may not be UTF-8. A character begun but not completed, and a byte that begins
none, each become one replacement character, so every byte is accounted for exactly once.
-/

namespace ElfInspect.Lossy

/-- Stands for bytes that are no character. -/
def replacement : Char := '\ufffd'

/-- A character begun: the bits so far, the bytes still owed, and the bounds of the next one. -/
structure Begun where
  bits : Nat
  owed : Nat
  low : Nat
  high : Nat
  deriving DecidableEq, Repr

/-- What a byte between two characters says, and the character it begins. The bounds of the second
byte leave out overlong forms, surrogates and numbers beyond the last code point. -/
def opening (b : UInt8) : List Char × Option Begun :=
  let n := b.toNat
  if n < 0x80 then ([Char.ofNat n], none)
  else if n < 0xc2 then ([replacement], none)
  else if n < 0xe0 then ([], some ⟨n - 0xc0, 1, 0x80, 0xbf⟩)
  else if n < 0xf0 then
    ([], some ⟨n - 0xe0, 2, if n = 0xe0 then 0xa0 else 0x80, if n = 0xed then 0x9f else 0xbf⟩)
  else if n < 0xf5 then
    ([], some ⟨n - 0xf0, 3, if n = 0xf0 then 0x90 else 0x80, if n = 0xf4 then 0x8f else 0xbf⟩)
  else ([replacement], none)

/-- The characters complete after one more byte, and the character then begun. -/
def step : Option Begun → UInt8 → List Char × Option Begun
  | none, b => opening b
  | some s, b =>
    if s.low ≤ b.toNat ∧ b.toNat ≤ s.high then
      let bits := 64 * s.bits + (b.toNat - 0x80)
      if s.owed = 1 then ([Char.ofNat bits], none)
      else ([], some ⟨bits, s.owed - 1, 0x80, 0xbf⟩)
    else
      let (cs, next) := opening b
      (replacement :: cs, next)

/-- What is left to say at the end of the bytes. -/
def finish : Option Begun → List Char
  | none => []
  | some _ => [replacement]

def decodeFrom : Option Begun → List UInt8 → List Char
  | state, [] => finish state
  | state, b :: rest =>
    let (cs, next) := step state b
    cs ++ decodeFrom next rest

/-- The characters of `bytes`. -/
def decode (bytes : List UInt8) : List Char := decodeFrom none bytes

theorem decodeFrom_cons (state : Option Begun) (b : UInt8) (rest : List UInt8) :
    decodeFrom state (b :: rest) = (step state b).1 ++ decodeFrom (step state b).2 rest := rfl

end ElfInspect.Lossy

namespace ElfInspect

/-- The text of `bytes`, with replacement characters where they are not UTF-8. -/
def lossyText (bytes : List UInt8) : String := String.ofList (Lossy.decode bytes)

end ElfInspect
