import ElfInspect.Program.Notice
import ElfInspect.Program.System

/-!
A whole run: argument list, settings, input file, report, output. A report is written to a file or
to the standard output, piece by piece.
-/

namespace ElfInspect

/-- What a run works with, and how much it is to say. -/
structure Env (σ : Type) (m : Type → Type) where
  libraries : Libraries
  system : System σ m
  verbosity : Verbosity

/-- Runs may fail. -/
abbrev RunM (m : Type → Type) := ExceptT Failure m

namespace Program

variable {σ : Type} {m : Type → Type} [Monad m]

/-- What the system is asked to do; its fault becomes the run's failure. -/
def attempt {α : Type} (failure : FileFault → Failure) (action : m (Except FileFault α)) :
    RunM m α :=
  ExceptT.mk do return (← action).mapError failure

def notice (env : Env σ m) (n : Notice) : RunM m Unit :=
  if env.verbosity.shows n then liftM (env.system.complain n.text) else return

/-! ## Input -/

/-- The settings file that is used when none is named, and that need not exist. -/
def defaultSettingsFile : String := "elfin.toml"

/-- What has been read as text. -/
def textOf (contents : Except FileFault ByteArray) : Except FileFault String := do
  match String.fromUTF8? (← contents) with
  | some text => return text
  | none => throw .notText

/-- The settings of a named file, or those of the default file if that exists. -/
def loadSettings (env : Env σ m) (named : Option String) : RunM m Settings := do
  let path := named.getD defaultSettingsFile
  match textOf (← (env.system.read path : m _)) with
  | .ok text =>
    let parsed := (env.libraries.settings text).mapError (.parseSettings path)
    let settings ← MonadExcept.ofExcept parsed
    notice env (.settingsLoaded path)
    return settings
  | .error fault =>
    if named.isNone ∧ fault = .notFound then
      notice env (.settingsAbsent path)
      return {}
    throw (.readFile path fault)

/-- Reads an image from a file. -/
def openImage (env : Env σ m) (path : String) : RunM m Image := do
  let contents ← (env.system.read path : m _)
  notice env (.finished "read input")
  let bytes ← MonadExcept.ofExcept (contents.mapError (.readFile path))
  MonadExcept.ofExcept ((Image.ofBytes bytes).mapError (.notElf path))

/-- Makes a report in a session of its own and notices its events. -/
def report {α : Type} (env : Env σ m) (img : Image) (r : ReportM α) :
    RunM m (Except Failure α) := do
  let (result, session) := r.run (Session.start img)
  session.log.forM fun e => notice env (.event e)
  return result

/-! ## Output -/

/-- What the output is written to: a file that is made for it, or the standard output. -/
def openSink (env : Env σ m) : Option String → RunM m σ
  | some path => attempt (.createFile path) (env.system.create path)
  | none => liftM env.system.standardOutput

/-- Writes pieces one after the other, and then what the sink has held back of them. -/
def writeAll (env : Env σ m) (sink : σ) : List String → RunM m Unit
  | [] => attempt .write (env.system.flush sink)
  | piece :: rest => do
    attempt .write (env.system.write sink piece)
    writeAll env sink rest

/-! ## Commands -/

/-- The selection that arguments and settings ask for. -/
def selection (args : SymbolsArgs) (settings : Settings) : Selection where
  tables := if args.tables.isEmpty then settings.tables else args.tables
  type := args.type.getD settings.type
  binding := args.binding.getD settings.binding

/-- What a lookup looks for; a name comes before an address. -/
def target (args : LookupArgs) : Option Target :=
  (args.name.map Target.name).or (args.address.map Target.address)

def runSymbols (env : Env σ m) (args : SymbolsArgs) (settings : Settings) : RunM m Unit := do
  let img ← openImage env args.file
  let demangle := args.demangle || settings.demangle
  let result ← report env img
    (selectedRecords env.libraries.demangler img (selection args settings) demangle)
  notice env (.finished "symbol walk")
  let records ← MonadExcept.ofExcept result
  let sink ← openSink env args.output
  writeAll env sink
    (renderSymbols env.libraries.jsonText records (args.format.getD settings.format))
  match args.output with
  | some path => notice env (.wroteSymbols records.length path)
  | none => return

def runHeaders (env : Env σ m) (args : HeadersArgs) (settings : Settings) : RunM m Unit := do
  let img ← openImage env args.file
  let r ← MonadExcept.ofExcept (← report env img (headerReport img))
  let sink ← openSink env none
  writeAll env sink (r.render env.libraries.jsonText (args.format.getD settings.format))

def runLookup (env : Env σ m) (args : LookupArgs) (settings : Settings) : RunM m Unit := do
  let img ← openImage env args.file
  let demangle := args.demangle || settings.demangle
  let result ← report env img (lookupRecord env.libraries.demangler img (target args) demangle)
  let record ← MonadExcept.ofExcept result
  let sink ← openSink env none
  writeAll env sink
    (renderLookup env.libraries.jsonText record (args.format.getD settings.format))

def execute (env : Env σ m) (settings : Settings) : Command → RunM m Unit
  | .symbols args => runSymbols env args settings
  | .headers args => runHeaders env args settings
  | .lookup args => runLookup env args settings

/-! ## Runs -/

/-- The lines that report a failure: the outermost cause, then the others. -/
def failureLines (f : Failure) : List String :=
  match f.chain with
  | [] => []
  | [outer] => ["Error: " ++ outer]
  | [outer, cause] => ["Error: " ++ outer, "", "Caused by:", "    " ++ cause]
  | outer :: causes =>
    ["Error: " ++ outer, "", "Caused by:"] ++
      causes.zipIdx.map fun (cause, i) => "    " ++ toString i ++ ": " ++ cause

/-- Runs the program on an argument list without the program's name and returns the exit code. -/
def run (libraries : Libraries) (system : System σ m) (args : List String) : m Nat := do
  match libraries.arguments args with
  | .error usage =>
    let _ ← system.write (← system.standardOutput) usage.output
    usage.errors.forM system.complain
    return usage.exitCode
  | .ok call =>
    let env : Env σ m := ⟨libraries, system, call.verbosity⟩
    let action : RunM m Unit := do
      execute env (← loadSettings env call.settingsFile) call.command
    match ← action.run with
    | .ok _ => return 0
    | .error f =>
      (failureLines f).forM system.complain
      return 1

end Program

end ElfInspect
