import ElfInspect.Fault

/-!
Why a report or a run could not be made. `Failure.chain` words it, the outermost cause first.
-/

namespace ElfInspect

/-- What a lookup looks for. -/
inductive Target where
  | name (name : String)
  | address (address : Nat)
  deriving DecidableEq, Repr

def Target.text : Target → String
  | .name wanted => "`" ++ wanted ++ "`"
  | .address wanted => hex wanted

/-- Why a file cannot be read or made. -/
inductive FileFault where
  | notFound
  | notDirectory
  | isDirectory
  | nameTooLong
  /-- The contents are not text. -/
  | notText
  | other (words : String)
  deriving DecidableEq, Repr

def FileFault.message : FileFault → String
  | .notFound => "No such file or directory (os error 2)"
  | .notDirectory => "Not a directory (os error 20)"
  | .isDirectory => "Is a directory (os error 21)"
  | .nameTooLong => "File name too long (os error 36)"
  | .notText => "stream did not contain valid UTF-8"
  | .other words => words

inductive Failure where
  | readFile (path : String) (reason : FileFault)
  | parseSettings (path words : String)
  | notElf (path : String) (reason : Fault)
  | readSection (index : Nat) (reason : Fault)
  | nameSection (index : Nat) (reason : Fault)
  | readSymbol (index : Nat) (table : String) (reason : Fault)
  | nameSymbol (offset : Nat) (reason : Fault)
  | readSegment (index : Nat) (reason : Fault)
  | readInterpreter (reason : Fault)
  | search (target : Target) (reason : Fault)
  | noSymbol (target : Target)
  | noTarget
  | createFile (path : String) (reason : FileFault)
  | write (reason : FileFault)
  deriving DecidableEq, Repr

namespace Failure

def chain : Failure → List String
  | .readFile path reason => ["Failed to read " ++ path, reason.message]
  | .parseSettings path words => ["Failed to parse " ++ path, words]
  | .notElf path reason => [path ++ " is not a readable ELF file", reason.message]
  | .readSection index reason =>
    ["Failed to read section header " ++ toString index, reason.message]
  | .nameSection index reason =>
    ["Failed to resolve the name of section " ++ toString index, reason.message]
  | .readSymbol index table reason =>
    ["Failed to read symbol " ++ toString index ++ " of " ++ table, reason.message]
  | .nameSymbol offset reason =>
    ["Failed to resolve symbol name at offset " ++ toString offset, reason.message]
  | .readSegment index reason =>
    ["Failed to read program header " ++ toString index, reason.message]
  | .readInterpreter reason => ["Failed to read the interpreter path", reason.message]
  | .search target reason => ["Failed to search for " ++ target.text, reason.message]
  | .noSymbol (.name wanted) => ["no symbol named `" ++ wanted ++ "`"]
  | .noSymbol (.address wanted) => ["no symbol contains address " ++ hex wanted]
  | .noTarget => ["either --name or --address is required"]
  | .createFile path reason => ["Failed to create " ++ path, reason.message]
  | .write reason => [reason.message]

end Failure

end ElfInspect
