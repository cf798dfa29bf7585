import ElfInspect.Libraries.CommandLine
import ElfInspect.Libraries.JsonText
import ElfInspect.Libraries.MangledName
import ElfInspect.Libraries.SettingsText

/-!
The libraries that the program is run with.
-/

namespace ElfInspect

def programName : String := "elfin-dump"

def versionText : String := programName ++ " 0.1.0"

def usageText : String :=
  "usage: " ++ programName ++ " [-q | -v] [-c FILE] symbols | headers | lookup FILE [OPTIONS]"

/-- What is said to an argument list that cannot be used or asks for help. -/
def UsageFault.usage : UsageFault → Usage
  | .help => ⟨0, usageText ++ "\n", []⟩
  | .version => ⟨0, versionText ++ "\n", []⟩
  | _ => ⟨2, "", [usageText]⟩

def Libraries.standard : Libraries where
  arguments args := (CommandLine.parse args).mapError UsageFault.usage
  settings text := (Settings.parse? text).elim (.error "invalid settings") .ok
  jsonText := Json.render 0
  demangler := MangledName.demangler

end ElfInspect
