import ElfInspect.Address

/-!
The lexical rules of TOML: line ends, blanks, comments and strings. Each reader returns what it read
and the rest of the text.
-/

namespace ElfInspect.Toml

/-- The text with all line ends written as line feeds; a carriage return alone is no line end. -/
def normalizeLines : List Char → Option (List Char)
  | [] => some []
  | '\r' :: '\n' :: rest => do return '\n' :: (← normalizeLines rest)
  | c :: rest => if c = '\r' then none else do return c :: (← normalizeLines rest)

def isTab (c : Char) : Bool := c == ' ' || c == '\t'

/-- Characters of comments and strings: no control characters but the tab. -/
def isPrintable (c : Char) : Bool := c == '\t' || (0x20 ≤ c.toNat && c.toNat ≠ 0x7f)

def isBareKey (c : Char) : Bool := c.isAlphanum || c == '-' || c == '_'

def skipTabs (cs : List Char) : List Char := cs.dropWhile isTab

/-- Skips blanks, line ends and comments. `comment` says whether the text starts within one. -/
def skipBlank (comment : Bool) : List Char → Option (List Char)
  | [] => some []
  | c :: rest =>
    if comment then
      if c = '\n' then skipBlank false rest
      else if isPrintable c then skipBlank true rest
      else none
    else if isTab c || c == '\n' then skipBlank false rest
    else if c = '#' then skipBlank true rest
    else some (c :: rest)

/-- Skips what may stand behind a statement, and the end of its line. -/
def skipLineEnd (cs : List Char) : Option (List Char) :=
  match skipTabs cs with
  | [] => some []
  | '\n' :: rest => some rest
  | '#' :: rest =>
    match rest.dropWhile isPrintable with
    | [] => some []
    | '\n' :: behind => some behind
    | _ => none
  | _ => none

/-! ## Strings -/

def consChar (c : Char) (r : Option (List Char × List Char)) : Option (List Char × List Char) :=
  r.map fun (cs, rest) => (c :: cs, rest)

/-- The character that a letter behind a backslash stands for. -/
def letterEscape? : Char → Option Char
  | 'b' => some '\x08'
  | 't' => some '\t'
  | 'n' => some '\n'
  | 'f' => some '\x0c'
  | 'r' => some '\r'
  | '"' => some '"'
  | '\\' => some '\\'
  | _ => none

/-- The character with the code that hexadecimal digits write. -/
def codeEscape? (digits : List Char) : Option Char := do
  let values ← digits.mapM (digitValue? 16)
  let n := values.foldl (fun n d => 16 * n + d) 0
  if n.isValidChar then some (Char.ofNat n) else none

/-- A string behind its opening quotation mark. -/
def basicString : List Char → Option (List Char × List Char)
  | [] => none
  | '"' :: rest => some ([], rest)
  | '\\' :: 'u' :: a :: b :: c :: d :: rest => do
    consChar (← codeEscape? [a, b, c, d]) (basicString rest)
  | '\\' :: 'U' :: a :: b :: c :: d :: e :: f :: g :: h :: rest => do
    consChar (← codeEscape? [a, b, c, d, e, f, g, h]) (basicString rest)
  | '\\' :: c :: rest => do consChar (← letterEscape? c) (basicString rest)
  | c :: rest => if isPrintable c && c ≠ '\\' then consChar c (basicString rest) else none

/-- A string behind its opening apostrophe. -/
def literalString : List Char → Option (List Char × List Char)
  | [] => none
  | '\'' :: rest => some ([], rest)
  | c :: rest => if isPrintable c then consChar c (literalString rest) else none

/-- A closing run of three to five marks; those beyond three belong to the string. -/
def closing? (mark : Char) (cs : List Char) : Option (List Char × List Char) :=
  let run := (cs.takeWhile (· == mark)).length
  if run < 3 then none
  else
    let extra := min (run - 3) 2
    some (List.replicate extra mark, cs.drop (extra + 3))

/-- Where a string over several lines stands with respect to a backslash at the end of a line. -/
inductive Fold where
  | none
  /-- Behind the backslash, where only the line end may follow. -/
  | before
  /-- Behind the line end, where blanks are skipped. -/
  | after
  deriving DecidableEq, Repr

/-- A string over several lines behind its opening marks. -/
def longBasicString (fold : Fold) : List Char → Option (List Char × List Char)
  | [] => none
  | c :: rest =>
    if fold = .before then
      if c = '\n' then longBasicString .after rest
      else if isTab c then longBasicString .before rest
      else none
    else if fold = .after ∧ (isTab c ∨ c = '\n') then longBasicString .after rest
    else if c = '"' then
      match closing? '"' (c :: rest) with
      | some done => some done
      | none => consChar c (longBasicString .none rest)
    else if c = '\\' then
      match rest with
      | 'u' :: a :: b :: c :: d :: more => do
        consChar (← codeEscape? [a, b, c, d]) (longBasicString .none more)
      | 'U' :: a :: b :: c :: d :: e :: f :: g :: h :: more => do
        consChar (← codeEscape? [a, b, c, d, e, f, g, h]) (longBasicString .none more)
      | e :: more =>
        if e = '\n' then longBasicString .after more
        else if isTab e then longBasicString .before more
        else do consChar (← letterEscape? e) (longBasicString .none more)
      | [] => none
    else if isPrintable c || c == '\n' then consChar c (longBasicString .none rest)
    else none

/-- A literal string over several lines behind its opening marks. -/
def longLiteralString : List Char → Option (List Char × List Char)
  | [] => none
  | c :: rest =>
    if c = '\'' then
      match closing? '\'' (c :: rest) with
      | some done => some done
      | none => consChar c (longLiteralString rest)
    else if isPrintable c || c == '\n' then consChar c (longLiteralString rest)
    else none

/-- The text behind opening marks without the line end that may follow them. -/
def dropFirstLineEnd : List Char → List Char
  | '\n' :: rest => rest
  | cs => cs

def asText (r : Option (List Char × List Char)) : Option (String × List Char) :=
  r.map fun (cs, rest) => (String.ofList cs, rest)

/-- A string value in any of the four forms. -/
def stringValue : List Char → Option (String × List Char)
  | '"' :: '"' :: '"' :: rest => asText (longBasicString .none (dropFirstLineEnd rest))
  | '"' :: rest => asText (basicString rest)
  | '\'' :: '\'' :: '\'' :: rest => asText (longLiteralString (dropFirstLineEnd rest))
  | '\'' :: rest => asText (literalString rest)
  | _ => none

/-- One part of a key: a quoted string or a bare word. -/
def keyPart : List Char → Option (String × List Char)
  | '"' :: rest => asText (basicString rest)
  | '\'' :: rest => asText (literalString rest)
  | cs =>
    let word := cs.takeWhile isBareKey
    if word.isEmpty then none else some (String.ofList word, cs.dropWhile isBareKey)

end ElfInspect.Toml
