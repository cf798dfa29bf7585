import ElfInspect.Event
import ElfInspect.Program.Invocation

/-!
What a run says about itself on the error stream, and how much of it each verbosity shows.
-/

namespace ElfInspect

inductive Notice where
  | event (e : Event)
  | settingsAbsent (path : String)
  | settingsLoaded (path : String)
  /-- The end of a stretch of work whose duration is of interest. -/
  | finished (work : String)
  | wroteSymbols (count : Nat) (path : String)
  deriving DecidableEq, Repr

namespace Notice

/-- The part of the program that an event comes from. -/
def eventSource : Event → String
  | .parsedHeader _ | .resolvingSection _ _ | .resolvingSegment _ _ | .foundType _ _ =>
    "elfin::file"
  | .resolvingSymbol _ _ _ => "elfin::section"
  | .walking _ _ => "elfin_dump"

private def traced (source words : String) : String := "  [" ++ source ++ "] " ++ words

/-- The notice as it is shown. -/
def text : Notice → String
  | .event e => traced (eventSource e) e.message
  | .settingsAbsent path =>
    traced "elfin_dump::config" ("no " ++ path ++ " found, using built-in defaults")
  | .settingsLoaded path => traced "elfin_dump::config" ("loaded configuration from " ++ path)
  | .finished work => traced "elfin_dump::verbose" (work ++ ":")
  | .wroteSymbols count path => "wrote " ++ toString count ++ " symbols to " ++ path

/-- The notice is of interest to those who did not ask for details. -/
def isProgress : Notice → Bool
  | .wroteSymbols _ _ => true
  | _ => false

end Notice

/-- The notice is shown at this verbosity. -/
def Verbosity.shows : Verbosity → Notice → Bool
  | .quiet, _ => false
  | .normal, n => n.isProgress
  | .verbose, _ => true

end ElfInspect
