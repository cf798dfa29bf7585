import ElfInspect.Address
import ElfInspect.Report.Records

/-!
Readable forms of compiler-made symbol names. A mangled name is `_ZN`, elements written as their
length and their text, and `E`; the last element is usually a hash. Any other name stays as it is.
-/

namespace ElfInspect.MangledName

/-! ## The suffix of a cloned symbol -/

/-- What comes before and behind the first occurrence of `part`, which is not empty. -/
def splitFirst (part : List Char) : List Char → Option (List Char × List Char)
  | [] => none
  | c :: cs =>
    if part.isPrefixOf (c :: cs) then some ([], (c :: cs).drop part.length)
    else (splitFirst part cs).map fun (before, behind) => (c :: before, behind)

/-- The characters that follow the mark of a cloned symbol. -/
def isCloneDigit (c : Char) : Bool := c.isDigit || ('A' ≤ c && c ≤ 'F') || c == '@'

def cloneMark : List Char := ".llvm.".toList

/-- The name without the suffix of a cloned symbol. -/
def dropClone (name : List Char) : List Char :=
  match splitFirst cloneMark name with
  | some (before, behind) => if behind.all isCloneDigit then before else name
  | none => name

/-! ## Elements -/

/-- The part of a mangled name behind its prefix. -/
def inner? : List Char → Option (List Char)
  | '_' :: 'Z' :: 'N' :: rest => some rest
  | 'Z' :: 'N' :: rest => some rest
  | '_' :: '_' :: 'Z' :: 'N' :: rest => some rest
  | _ => none

/-- The number that decimal digits write. -/
def decimalValue (digits : List Char) : Nat :=
  digits.foldl (fun n c => 10 * n + (c.toNat - '0'.toNat)) 0

/-- Reads elements up to the `E` and returns them with what follows it. An element has to be
followed by something. -/
def elements? (cs : List Char) : Option (List (List Char) × List Char) :=
  match cs with
  | [] => none
  | c :: rest =>
    if c = 'E' then some ([], rest)
    else if c.isDigit then
      let length := decimalValue ((c :: rest).takeWhile Char.isDigit)
      let behind := rest.dropWhile Char.isDigit
      if (behind.drop length).isEmpty then none
      else (elements? (behind.drop length)).map fun (more, last) =>
        (behind.take length :: more, last)
    else none
termination_by cs.length
decreasing_by
  have := (List.dropWhile_sublist (l := rest) Char.isDigit).length_le
  simp only [List.length_drop, List.length_cons]
  omega

/-! ## Text of an element -/

/-- Control characters, the only ones that an escape cannot stand for. -/
def isControl (c : Char) : Bool := c.toNat < 0x20 || (0x7f ≤ c.toNat && c.toNat < 0xa0)

def isLowerHex (c : Char) : Bool := c.isDigit || ('a' ≤ c && c ≤ 'f')

/-- The character with a code given in lower-case hexadecimal digits. -/
def codePoint? (digits : List Char) : Option Char :=
  if digits.all isLowerHex then
    match numeral 16 digits with
    | .ok n =>
      if n.isValidChar then
        let c := Char.ofNat n
        if isControl c then none else some c
      else none
    | .error _ => none
  else none

/-- What the text between two dollar signs stands for. -/
def escaped? : List Char → Option Char
  | ['S', 'P'] => some '@'
  | ['B', 'P'] => some '*'
  | ['R', 'F'] => some '&'
  | ['L', 'T'] => some '<'
  | ['G', 'T'] => some '>'
  | ['L', 'P'] => some '('
  | ['R', 'P'] => some ')'
  | ['C'] => some ','
  | 'u' :: digits => codePoint? digits
  | _ => none

/-- A character that stands for itself wherever it comes. -/
def isVerbatim (c : Char) : Bool := c ≠ '.' && c ≠ '$'

/-- The pieces of a text in which escapes and pairs of dots are resolved. From an escape that is
none on, all is one verbatim piece. -/
def pieces (cs : List Char) : List (List Char) :=
  match cs with
  | [] => []
  | '.' :: '.' :: rest => [':', ':'] :: pieces rest
  | '.' :: rest => ['.'] :: pieces rest
  | '$' :: rest =>
    match _ : rest.dropWhile (· ≠ '$') with
    | _ :: behind =>
      match escaped? (rest.takeWhile (· ≠ '$')) with
      | some c => [c] :: pieces behind
      | none => ['$' :: rest]
    | [] => ['$' :: rest]
  | c :: rest => (c :: rest.takeWhile isVerbatim) :: pieces (rest.dropWhile isVerbatim)
termination_by cs.length
decreasing_by
  all_goals simp only [List.length_cons]
  · omega
  · omega
  · rename_i h
    have := (List.dropWhile_sublist (l := rest) (· ≠ '$')).length_le
    rw [h, List.length_cons] at this
    omega
  · have := (List.dropWhile_sublist (l := rest) isVerbatim).length_le
    omega

/-- The pieces of an element. -/
def elementPieces : List Char → List (List Char)
  | '_' :: '$' :: rest => pieces ('$' :: rest)
  | element => pieces element

/-- An `h` and hexadecimal digits. -/
def isHash : List Char → Bool
  | 'h' :: digits => digits.all fun c => (digitValue? 16 c).isSome
  | _ => false

/-- The elements without a hash at the end. -/
def dropHash (elements : List (List Char)) : List (List Char) :=
  if elements.getLast?.any isHash then elements.dropLast else elements

/-! ## Names -/

/-- The most bytes that the pieces of a name may take together. -/
def sizeLimit : Nat := 1000000

/-- Stands for the first piece that goes beyond the limit and for all behind it. -/
def limitMark : List Char := "\x7bsize limit reached\x7d".toList

/-- The pieces as one text of at most `room` bytes. -/
def joinPieces (room : Nat) : List (List Char) → List Char
  | [] => []
  | piece :: rest =>
    let size := (piece.map Char.utf8Size).sum
    if size ≤ room then piece ++ joinPieces (room - size) rest else limitMark

/-- What may follow the `E`: nothing, or words each behind a full stop. -/
def isSuffix : List Char → Bool
  | [] => true
  | '.' :: rest => rest.all fun c => '!' ≤ c && c ≤ '~'
  | _ => false

/-- The readable form of a mangled name that has no clone suffix. -/
def readable? (name : List Char) : Option (List Char) := do
  let inner ← inner? name
  guard (inner.all fun c => c.toNat < 0x80)
  let (elements, suffix) ← elements? inner
  guard (isSuffix suffix)
  return joinPieces sizeLimit ([[':', ':']].intercalate ((dropHash elements).map elementPieces)) ++
    suffix

def demangle (name : List Char) : List Char :=
  let core := dropClone name
  (readable? core).getD core

def demangler : Demangler := fun name => String.ofList (demangle name.toList)

end ElfInspect.MangledName
