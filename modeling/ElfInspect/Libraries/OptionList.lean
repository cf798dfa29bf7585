/-!
The syntax of option lists: `--name value`, `--name=value`, `-n value`, `-nvalue`, `-n=value`,
joined flags `-ab`, and `--`, behind which nothing is an option. A value given apart from its option
is taken up late, when the next option or operand comes or the list ends, and that is when its
faults show.
-/

namespace ElfInspect

/-- Why an argument list cannot be used, and the requests that end a run early. -/
inductive UsageFault where
  | help
  | version
  | nothingGiven
  | unknownCommand
  | missingCommand
  | missingArgument
  | unknownArgument
  | conflict
  | invalidValue
  | tooManyValues
  | rejectedValue
  deriving DecidableEq, Repr

/-- What an option does; results of type `α` are what it contributes. -/
inductive Role (α : Type) where
  | flag (result : α)
  | value (read : String → Except UsageFault α)
  | values (read : String → Except UsageFault α)
  /-- Ends the run, whatever else is given. -/
  | stop (why : UsageFault)

structure OptionSpec (α : Type) where
  long : String
  short : Option Char
  role : Role α

/-- What one command accepts. -/
structure CommandForm (α : Type) where
  options : List (OptionSpec α)
  /-- Reads the operand, if the command takes one. -/
  operand : Option (String → Except UsageFault α)
  commands : List String

/-- A value that is still to be taken up, and the text given for it, if any. -/
structure Pending (α : Type) where
  key : String
  repeatable : Bool
  read : String → Except UsageFault α
  text : Option String

/-- What has been read of an argument list. -/
structure Scan (α : Type) where
  /-- The results in order, each with the name of what gave it. -/
  given : List (String × α)
  pending : Option (Pending α)
  /-- The next argument is the value of the pending option, unless it looks like an option. -/
  expecting : Bool
  /-- Behind `--`. -/
  operandsOnly : Bool
  operandSeen : Bool

namespace Scan

variable {α : Type}

def empty : Scan α := ⟨[], none, false, false, false⟩

def has (s : Scan α) (key : String) : Bool := s.given.any (·.1 == key)

def results (s : Scan α) : List α := s.given.map Prod.snd

/-- The key of the operand, which no option has. -/
def operandKey : String := ""

/-- Records a result; only some keys may have more than one. -/
def record (s : Scan α) (key : String) (repeatable : Bool) (result : Except UsageFault α) :
    Except UsageFault (Scan α) := do
  if s.has key && !repeatable then throw .conflict
  return { s with given := s.given ++ [(key, ← result)] }

/-- Takes up the pending value. -/
def settle (s : Scan α) : Except UsageFault (Scan α) :=
  match s.pending with
  | none => .ok s
  | some p =>
    match p.text with
    | none => .error .invalidValue
    | some text => Scan.record { s with pending := none } p.key p.repeatable (p.read text)

/-- An option that takes a value, with the value if it is attached. -/
def useValue (s : Scan α) (key : String) (repeatable : Bool)
    (read : String → Except UsageFault α) (attached : Option String) :
    Except UsageFault (Scan α) := do
  let s ← s.settle
  match attached with
  | some text => Scan.record { s with expecting := false } key repeatable (read text)
  | none => return { s with pending := some ⟨key, repeatable, read, none⟩, expecting := true }

/-- An option that takes no value. -/
def useFlag (s : Scan α) (key : String) (result : α) : Except UsageFault (Scan α) := do
  let s ← s.settle
  Scan.record { s with expecting := false } key false (.ok result)

/-- A long option. -/
def useLong (s : Scan α) (o : OptionSpec α) (attached : Option String) :
    Except UsageFault (Scan α) :=
  match o.role, attached with
  | .value read, _ => s.useValue o.long false read attached
  | .values read, _ => s.useValue o.long true read attached
  | .flag _, some _ => .error .tooManyValues
  | .stop _, some _ => .error .tooManyValues
  | .flag result, none => s.useFlag o.long result
  | .stop why, none => do
    let _ ← s.settle
    throw why

/-- The value attached to a short option. -/
def attachedShort : List Char → Option String
  | [] => none
  | '=' :: text => some (String.ofList text)
  | text => some (String.ofList text)

/-- The letters of an argument that starts with one dash. -/
def useShorts (options : List (OptionSpec α)) (s : Scan α) :
    List Char → Except UsageFault (Scan α)
  | [] => .ok s
  | letter :: rest =>
    match options.find? (·.short == some letter) with
    | none => .error .unknownArgument
    | some o =>
      match o.role with
      | .value read => s.useValue o.long false read (attachedShort rest)
      | .values read => s.useValue o.long true read (attachedShort rest)
      | .flag result => do useShorts options (← s.useFlag o.long result) rest
      | .stop why => do
        let _ ← s.settle
        throw why

/-- The name and the attached value of an argument that starts with two dashes. -/
def splitLong (cs : List Char) : String × Option String :=
  match cs.dropWhile (· ≠ '=') with
  | [] => (String.ofList cs, none)
  | _ :: text => (String.ofList (cs.takeWhile (· ≠ '=')), some (String.ofList text))

/-- An argument that is neither an option nor a value. -/
def useOperand (x : CommandForm α) (s : Scan α) (text : String) : Except UsageFault (Scan α) :=
  match x.operand with
  | some read =>
    if s.operandSeen then .error .unknownArgument
    else do
      let s ← s.settle
      return { s with
        pending := some ⟨operandKey, false, read, some text⟩
        expecting := false
        operandSeen := true }
  | none =>
    if s.operandsOnly && x.commands.contains text then .error .unknownArgument
    else .error .unknownCommand

/-- An argument that is not an option: the value that is expected, or an operand. -/
def usePlain (x : CommandForm α) (s : Scan α) (text : String) : Except UsageFault (Scan α) :=
  match s.expecting, s.pending with
  | true, some p =>
    .ok { s with pending := some { p with text := some text }, expecting := false }
  | _, _ => s.useOperand x text

/-- One argument that is no command. -/
def use (x : CommandForm α) (s : Scan α) (arg : String) : Except UsageFault (Scan α) :=
  if s.operandsOnly then s.useOperand x arg
  else
    match arg.toList with
    | ['-', '-'] => .ok { s with operandsOnly := true }
    | '-' :: '-' :: cs =>
      let (name, attached) := splitLong cs
      match x.options.find? (·.long == name) with
      | some o => s.useLong o attached
      | none => .error .unknownArgument
    | ['-'] => s.usePlain x arg
    | '-' :: letters => useShorts x.options s letters
    | _ => s.usePlain x arg

/-- Reads arguments up to the first that names a command, and returns what follows that. -/
def run (x : CommandForm α) (s : Scan α) :
    List String → Except UsageFault (Scan α × Option (String × List String))
  | [] => .ok (s, none)
  | arg :: rest =>
    if !s.operandsOnly && !s.expecting && x.commands.contains arg then .ok (s, some (arg, rest))
    else do run x (← s.use x arg) rest

end Scan

end ElfInspect
