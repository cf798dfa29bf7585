import ElfInspect.Address
import ElfInspect.Libraries.OptionList
import ElfInspect.Program.System

/-!
A reader of command lines. General options may stand before or behind the name of a command;
repetitions and conflicts are looked for on each side alone.
-/

namespace ElfInspect

/-- What an option or operand contributes. -/
inductive Given where
  | quiet
  | verbose
  | settingsFile (path : String)
  | file (path : String)
  | table (kind : TableKind)
  | type (filter : TypeFilter)
  | binding (filter : BindingFilter)
  | demangle
  | format (f : OutputFormat)
  | output (path : String)
  | name (name : String)
  | address (n : Nat)
  deriving DecidableEq, Repr

namespace CommandLine

/-! ## Values -/

def path (make : String → Given) (text : String) : Except UsageFault Given :=
  if text.isEmpty then .error .invalidValue else .ok (make text)

def word {α : Type} (spellings : List (String × α)) (make : α → Given) (text : String) :
    Except UsageFault Given :=
  match spelled? spellings text with
  | some a => .ok (make a)
  | none => .error .invalidValue

def address (text : String) : Except UsageFault Given :=
  match parseAddress text with
  | .ok n => .ok (.address n)
  | .error _ => .error .rejectedValue

/-! ## Options -/

def generalOptions : List (OptionSpec Given) :=
  [⟨"quiet", some 'q', .flag .quiet⟩, ⟨"verbose", some 'v', .flag .verbose⟩,
    ⟨"config", some 'c', .value (path .settingsFile)⟩, ⟨"help", some 'h', .stop .help⟩]

def formatOption : OptionSpec Given :=
  ⟨"format", none, .value (word OutputFormat.spellings .format)⟩

def demangleOption : OptionSpec Given := ⟨"demangle", none, .flag .demangle⟩

def symbolsOptions : List (OptionSpec Given) :=
  [⟨"table", none, .values (word TableKind.spellings .table)⟩,
    ⟨"type", none, .value (word TypeFilter.spellings .type)⟩,
    ⟨"binding", none, .value (word BindingFilter.spellings .binding)⟩,
    demangleOption, formatOption, ⟨"output", some 'o', .value (path .output)⟩]

def lookupOptions : List (OptionSpec Given) :=
  [⟨"name", none, .value fun text => .ok (.name text)⟩, ⟨"address", none, .value address⟩,
    demangleOption, formatOption]

def helpCommand : String := "help"

/-- The commands that do something, each with the options of its own. -/
def commandOptions : List (String × List (OptionSpec Given)) :=
  [("symbols", symbolsOptions), ("headers", [formatOption]), ("lookup", lookupOptions)]

def topForm : CommandForm Given where
  options := generalOptions ++ [⟨"version", some 'V', .stop .version⟩]
  operand := none
  commands := commandOptions.map Prod.fst ++ [helpCommand]

def commandForm (options : List (OptionSpec Given)) : CommandForm Given where
  options := options ++ generalOptions
  operand := some (path .file)
  commands := []

/-! ## Checks -/

/-- Names that may not both be given on one side. -/
def checkConflict (s : Scan Given) (a b : String) : Except UsageFault Unit :=
  if s.has a && s.has b then .error .conflict else .ok ()

def checkCommand (command : String) (s : Scan Given) : Except UsageFault Unit := do
  checkConflict s "quiet" "verbose"
  checkConflict s "name" "address"
  unless s.has Scan.operandKey do throw .missingArgument
  if command = "lookup" then
    unless s.has "name" || s.has "address" do throw .missingArgument

/-- What `help` with further words asks for. -/
def helpFault : List String → UsageFault
  | [] => .help
  | [command] => if topForm.commands.contains command then .help else .unknownCommand
  | _ => .unknownCommand

/-! ## Reading -/

/-- The first result that `pick` takes. -/
def pick {α : Type} (results : List Given) (f : Given → Option α) : Option α :=
  results.findSome? f

def formatOf (results : List Given) : Option OutputFormat :=
  pick results fun | .format f => some f | _ => none

def symbolsArgs (file : String) (results : List Given) : SymbolsArgs where
  file
  tables := results.filterMap fun | .table kind => some kind | _ => none
  type := pick results fun | .type f => some f | _ => none
  binding := pick results fun | .binding f => some f | _ => none
  demangle := results.contains .demangle
  format := formatOf results
  output := pick results fun | .output p => some p | _ => none

def lookupArgs (file : String) (results : List Given) : LookupArgs where
  file
  name := pick results fun | .name n => some n | _ => none
  address := pick results fun | .address n => some n | _ => none
  demangle := results.contains .demangle
  format := formatOf results

/-- The command of the given name with the results of its arguments. -/
def command? (name file : String) (results : List Given) : Option Command :=
  match name with
  | "symbols" => some (.symbols (symbolsArgs file results))
  | "headers" => some (.headers ⟨file, formatOf results⟩)
  | "lookup" => some (.lookup (lookupArgs file results))
  | _ => none

def settingsFileOf (results : List Given) : Option String :=
  pick results fun | .settingsFile p => some p | _ => none

def fileOf (results : List Given) : Option String :=
  pick results fun | .file p => some p | _ => none

/-- Reads an argument list without the program's name. -/
def parse (args : List String) : Except UsageFault Invocation := do
  let (top, found) ← Scan.run topForm .empty args
  let some (name, rest) := found
    | let top ← top.settle
      throw (if top.given.isEmpty then .nothingGiven else .missingCommand)
  let some options := commandOptions.lookup name | throw (helpFault rest)
  let (inner, _) ← Scan.run (commandForm options) .empty rest
  let inner ← inner.settle
  checkCommand name inner
  let top ← top.settle
  checkConflict top "quiet" "verbose"
  let results := inner.results ++ top.results
  let some file := fileOf results | throw .missingArgument
  let some command := command? name file results | throw .unknownCommand
  return {
    command
    settingsFile := settingsFileOf results
    verbosity := .ofFlags (results.contains .quiet) (results.contains .verbose) }

end CommandLine

end ElfInspect
