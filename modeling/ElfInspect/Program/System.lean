import ElfInspect.Failure
import ElfInspect.Program.Invocation

/-!
What a run relies on: libraries, and a system with files and two streams. `FileStore.system` makes
systems of which everything is known.
-/

namespace ElfInspect

/-! ## Libraries -/

/-- What is said to an argument list that does not ask for a run. -/
structure Usage where
  exitCode : Nat
  output : String
  errors : List String
  deriving DecidableEq, Repr

/-- What the program takes from libraries. -/
structure Libraries where
  /-- Reads an argument list without the program's name. -/
  arguments : List String → Except Usage Invocation
  /-- Reads settings from the text of a file, or says what is wrong with it. -/
  settings : String → Except String Settings
  jsonText : Json → String
  demangler : Demangler

/-! ## Systems -/

/-- A system as a run sees it. Values of `σ` are sinks: open files, and the standard output. -/
structure System (σ : Type) (m : Type → Type) where
  read : String → m (Except FileFault ByteArray)
  /-- Opens a file that is to be written: makes it, or empties it if it is there. -/
  create : String → m (Except FileFault σ)
  standardOutput : m σ
  /-- Writes behind what has been written to a sink before. -/
  write : σ → String → m (Except FileFault Unit)
  /-- Writes what a sink has held back. -/
  flush : σ → m (Except FileFault Unit)
  /-- A message to the error stream. -/
  complain : String → m Unit

/-! ## Worlds -/

/-- The files of a system alone. Values of `φ` are open files. -/
structure FileStore (φ : Type) (m : Type → Type) where
  read : String → m (Except FileFault ByteArray)
  create : String → m (Except FileFault φ)
  append : φ → String → m (Except FileFault Unit)
  flush : φ → m (Except FileFault Unit)

inductive Sink (φ : Type) where
  | standardOutput
  | file (handle : φ)

/-- Files, and what has gone to the two streams. -/
structure World (D : Type) where
  files : D
  output : String
  errors : List String

namespace World

variable {D α : Type}

def onFiles (action : StateM D α) : StateM (World D) α := do
  let w ← get
  let (result, files) := action.run w.files
  set { w with files }
  return result

/-- The world with more on the standard output. -/
def print (w : World D) (text : String) : World D := { w with output := w.output ++ text }

/-- The world with more messages. -/
def say (w : World D) (messages : List String) : World D :=
  { w with errors := w.errors ++ messages }

end World

/-- The system with the given files whose streams keep what goes to them. -/
def FileStore.system {φ D : Type} (store : FileStore φ (StateM D)) :
    System (Sink φ) (StateM (World D)) where
  read path := World.onFiles (store.read path)
  create path := do return (← World.onFiles (store.create path)).map Sink.file
  standardOutput := return .standardOutput
  write
    | .standardOutput, text => do
      modify (·.print text)
      return .ok ()
    | .file handle, text => World.onFiles (store.append handle text)
  flush
    | .standardOutput => return .ok ()
    | .file handle => World.onFiles (store.flush handle)
  complain message := modify (·.say [message])

end ElfInspect
