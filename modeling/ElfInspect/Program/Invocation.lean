import ElfInspect.Report.Render

/-!
What a run is told: the command, with its arguments, and the settings that stand for options not
given on the command line.
-/

namespace ElfInspect

/-- How much a run says about what it does. -/
inductive Verbosity where
  | quiet
  | normal
  | verbose
  deriving DecidableEq, Repr

/-- Quiet wins when both are asked for. -/
def Verbosity.ofFlags (quiet verbose : Bool) : Verbosity :=
  if quiet then .quiet else if verbose then .verbose else .normal

structure SymbolsArgs where
  file : String
  tables : List TableKind
  type : Option TypeFilter
  binding : Option BindingFilter
  demangle : Bool
  format : Option OutputFormat
  output : Option String
  deriving DecidableEq, Repr

structure HeadersArgs where
  file : String
  format : Option OutputFormat
  deriving DecidableEq, Repr

structure LookupArgs where
  file : String
  name : Option String
  address : Option Nat
  demangle : Bool
  format : Option OutputFormat
  deriving DecidableEq, Repr

inductive Command where
  | symbols (args : SymbolsArgs)
  | headers (args : HeadersArgs)
  | lookup (args : LookupArgs)
  deriving DecidableEq, Repr

/-- A complete command line. -/
structure Invocation where
  command : Command
  settingsFile : Option String
  verbosity : Verbosity
  deriving DecidableEq, Repr

structure Settings where
  tables : List TableKind := [.dynsym]
  type : TypeFilter := .func
  binding : BindingFilter := .global
  demangle : Bool := false
  format : OutputFormat := .text
  deriving DecidableEq, Repr

end ElfInspect
