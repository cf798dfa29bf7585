import ElfInspect.Libraries.Toml.Text
import ElfInspect.Libraries.Toml.Tree

/-!
The grammar of TOML documents. The readers that call each other take fuel; a document of n
characters never needs more than 2 n + 2.
-/

namespace ElfInspect.Toml

/-- The parts of a dotted key, with blanks around each. -/
def keyParts : Nat → List Char → Option (List String × List Char)
  | 0, _ => none
  | fuel + 1, cs => do
    let (part, rest) ← keyPart (skipTabs cs)
    match skipTabs rest with
    | '.' :: more =>
      let (parts, last) ← keyParts fuel more
      return (part :: parts, last)
    | last => return ([part], last)

/-- A dotted key as the path before its last part, and that part. -/
def dottedKey (cs : List Char) : Option ((List String × String) × List Char) := do
  let (parts, rest) ← keyParts (cs.length + 1) cs
  return ((parts.dropLast, ← parts.getLast?), rest)

mutual

/-- A value at the very start of the text. -/
def readValue : Nat → List Char → Option (Toml × List Char)
  | 0, _ => none
  | fuel + 1, cs =>
    match cs with
    | 't' :: 'r' :: 'u' :: 'e' :: rest => some (.boolean true, rest)
    | 'f' :: 'a' :: 'l' :: 's' :: 'e' :: rest => some (.boolean false, rest)
    | '[' :: rest => do
      let (items, last) ← readItems fuel rest
      return (.array items, last)
    | '\x7b' :: rest => do
      let (pairs, last) ←
        match skipTabs rest with
        | '\x7d' :: last => some ([], last)
        | _ => readPairs fuel rest
      return (.table (← ofStatements? pairs), last)
    | _ => do
      let (s, rest) ← stringValue cs
      return (.string s, rest)

/-- The items of an array and its closing bracket. -/
def readItems : Nat → List Char → Option (List Toml × List Char)
  | 0, _ => none
  | fuel + 1, cs => do
    match ← skipBlank false cs with
    | ']' :: rest => return ([], rest)
    | start =>
      let (item, behind) ← readValue fuel start
      match ← skipBlank false behind with
      | ',' :: more =>
        let (items, last) ← readItems fuel more
        return (item :: items, last)
      | ']' :: rest => return ([item], rest)
      | _ => none

/-- A key, the equals sign and a value. -/
def readPair : Nat → List Char → Option (Statement × List Char)
  | 0, _ => none
  | fuel + 1, cs => do
    match ← dottedKey cs with
    | ((path, key), '=' :: rest) =>
      let (v, last) ← readValue fuel (skipTabs rest)
      return (.pair path key v, last)
    | _ => none

/-- The pairs of an inline table and its closing brace. -/
def readPairs : Nat → List Char → Option (List Statement × List Char)
  | 0, _ => none
  | fuel + 1, cs => do
    let (pair, behind) ← readPair fuel cs
    match skipTabs behind with
    | ',' :: more =>
      let (pairs, last) ← readPairs fuel more
      return (pair :: pairs, last)
    | '\x7d' :: rest => return ([pair], rest)
    | _ => none

end

/-- One statement without the end of its line. -/
def readStatement (fuel : Nat) : List Char → Option (Statement × List Char)
  | '[' :: '[' :: rest => do
    match ← dottedKey rest with
    | ((path, key), ']' :: ']' :: last) => return (.element path key, last)
    | _ => none
  | '[' :: rest => do
    match ← dottedKey rest with
    | ((path, key), ']' :: last) => return (.table path key, last)
    | _ => none
  | cs => readPair fuel cs

/-- The statements of a document. -/
def readStatements : Nat → List Char → Option (List Statement)
  | 0, _ => none
  | fuel + 1, cs => do
    match ← skipBlank false cs with
    | [] => return []
    | start =>
      let (statement, behind) ← readStatement fuel start
      return statement :: (← readStatements fuel (← skipLineEnd behind))

/-- The characters of a text without the mark that may tell its encoding. -/
def dropByteOrderMark : List Char → List Char
  | '\ufeff' :: rest => rest
  | cs => cs

/-- The entries of a document. -/
def parse? (text : String) : Option (List (String × Toml)) := do
  let cs ← normalizeLines (dropByteOrderMark text.toList)
  ofStatements? (← readStatements (2 * cs.length + 2) cs)

end ElfInspect.Toml
