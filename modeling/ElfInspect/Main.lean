import ElfInspect.Libraries.Standard
import ElfInspect.Program.Run

/-!
The command line.
-/

namespace ElfInspect

/-- The number of an error. Some calls report it negated. -/
def errorNumber (code : UInt32) : Nat := min code.toNat (0 - code).toNat

/-- What an error of the operating system means here. -/
def fileFault : IO.Error → FileFault
  | .noFileOrDirectory .. => .notFound
  | .inappropriateType _ code words =>
    match errorNumber code with
    | 20 => .notDirectory
    | 21 => .isDirectory
    | _ => .other words
  | .invalidArgument _ code words => if errorNumber code = 36 then .nameTooLong else .other words
  | error => .other (toString error)

/-- What an action gives, or the fault that it ends in. -/
def attempted {α : Type} (action : IO α) : IO (Except FileFault α) := do
  try
    return .ok (← action)
  catch error => return .error (fileFault error)

/-- The operating system. -/
def operatingSystem : System IO.FS.Stream IO where
  read path := attempted (IO.FS.readBinFile path)
  create path := attempted (return .ofHandle (← IO.FS.Handle.mk path .write))
  standardOutput := IO.getStdout
  write sink text := attempted (sink.putStr text)
  flush sink := attempted sink.flush
  complain message := IO.eprintln message

end ElfInspect

def main (args : List String) : IO UInt32 := do
  let exitCode ← ElfInspect.Program.run .standard ElfInspect.operatingSystem args
  return exitCode.toUInt32
