/-!
Slots that are filled at most once. `getOrMake` is the one access rule, for any place that can hold
a value. `Cell.perform` lets producers use the very cell that they are to fill.
-/

namespace ElfInspect

/-- The value held; if there is none, the one that `produce` makes, which is stored. If a producer
filled the slot on its way, that value stays and its own is lost; one that fails stores nothing. -/
@[specialize]
def getOrMake {m : Type → Type} [Monad m] {α : Type} (held : m (Option α)) (store : α → m Unit)
    (produce : m α) : m α := do
  match ← held with
  | some value => return value
  | none =>
    let made ← produce
    match ← held with
    | some value => return value
    | none =>
      store made
      return made

/-- One use of a cell that holds an integer. -/
inductive CellStep where
  | read
  | isResolved
  | describe
  | init (made : Int)
  /-- The producer takes the steps in `inner` on the same cell before it ends in `outcome`. -/
  | tryInit (inner : List CellStep) (outcome : Except String Int)

/-- What a use of a cell answers; `ran` says whether its producer was called. -/
inductive CellReply where
  | value (held : Option Int)
  | resolved (yes : Bool)
  | text (words : String)
  | made (value : Int) (ran : Bool)
  | tried (outcome : Except String Int) (ran : Bool) (inner : List CellReply)

namespace Cell

/-- The cell in words. -/
def describe : Option Int → String
  | some n => "LazyCache(" ++ toString n ++ ")"
  | none => "LazyCache(<unresolved>)"

/-- An access under way, which may fail. It keeps the replies to the steps that the producer took,
if that was called. -/
abbrev AccessM := ExceptT String (StateT (Option (List CellReply)) (StateM (Option Int)))

/-- An access to the cell, and the replies to the producer's own steps if it was called. -/
def access (produce : StateM (Option Int) (Except String Int × List CellReply)) :
    StateM (Option Int) (Except String Int × Option (List CellReply)) :=
  let held : AccessM (Option Int) := liftM (get : StateM (Option Int) (Option Int))
  let store (n : Int) : AccessM Unit := liftM (set (some n) : StateM (Option Int) Unit)
  let fill : AccessM Int := do
    let (outcome, replies) ← produce
    set (some replies)
    MonadExcept.ofExcept outcome
  (getOrMake held store fill).run.run none

mutual

/-- Takes a step on the cell that holds the state. -/
def perform : CellStep → StateM (Option Int) CellReply
  | .read => return .value (← get)
  | .isResolved => return .resolved (← get).isSome
  | .describe => return .text (describe (← get))
  | .init n => do
    let (answer, replies) ← access (pure (.ok n, []))
    return .made (answer.toOption.getD n) replies.isSome
  | .tryInit inner outcome => do
    let (answer, replies) ← access (do return (outcome, ← performAll inner))
    return .tried answer replies.isSome (replies.getD [])

/-- Takes the steps in order. -/
def performAll : List CellStep → StateM (Option Int) (List CellReply)
  | [] => return []
  | s :: rest => do
    let reply ← perform s
    return reply :: (← performAll rest)

end

end Cell

end ElfInspect
