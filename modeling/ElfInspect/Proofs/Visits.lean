import Mathlib
import ElfInspect.Query

/-!
What a question does to the slots of a session, step by step. An `Observed` question is a question
of `ElfInspect.Session` together with the visits that it pays to slots, in order; dropping the
visits gives the question back: `Observed.ask_plain`.
-/

namespace ElfInspect

/-- What happens to a slot. -/
inductive Visit where
  /-- It is found filled. -/
  | held (slot : Slot)
  /-- It is found empty, and its producer starts. -/
  | opened (slot : Slot)
  /-- Its producer came to its end. -/
  | made (slot : Slot)
  /-- Its producer ended in a fault. -/
  | failed (slot : Slot) (fault : Fault)
  deriving DecidableEq, Repr

/-- A question, and the visits that it pays to slots when it is asked in a session. -/
structure Observed (α : Type) where
  plain : SessionM α
  visits : Session → List Visit

namespace Observed

/-- A question that visits no slot. -/
def silent {α : Type} (m : SessionM α) : Observed α := ⟨m, fun _ => []⟩

instance : Monad Observed where
  pure a := silent (pure a)
  bind m f := {
    plain := m.plain >>= fun a => (f a).plain
    visits := fun s => m.visits s ++
      match m.plain.run.run s with
      | (.ok a, next) => (f a).visits next
      | (.error _, _) => [] }

instance : MonadLift (Except Fault) Observed := ⟨fun r => silent (liftM r)⟩

theorem bind_visits {α β : Type} (m : Observed α) (f : α → Observed β) (s : Session) :
    (m >>= f).visits s = m.visits s ++
      match m.plain.run.run s with
      | (.ok a, next) => (f a).visits next
      | (.error _, _) => [] := rfl

def report (e : Event) : Observed Unit := silent (SessionM.report e)

/-- How the producer of a slot ended. -/
def ending {α : Type} (slot : Slot) : Except Fault α → Visit
  | .ok _ => .made slot
  | .error fault => .failed slot fault

def once (slot : Slot) (produce : Observed slot.Content) : Observed slot.Content where
  plain := SessionM.once slot produce.plain
  visits s :=
    match s.slots.get? slot with
    | some _ => [.held slot]
    | none =>
      .opened slot :: (produce.visits s ++ [ending slot (produce.plain.run.run s).1])

theorem once_visits (slot : Slot) (produce : Observed slot.Content) (s : Session) :
    (once slot produce).visits s =
      match s.slots.get? slot with
      | some _ => [.held slot]
      | none =>
        .opened slot :: (produce.visits s ++ [ending slot (produce.plain.run.run s).1]) := rfl

def sectionAt (img : Image) (i : Nat) : Observed SectionEntry :=
  once (.sectionEntry i) do
    let offset ← img.sectionOffset i
    report (.resolvingSection i offset)
    Record.decodeAt (α := SectionEntry) img.bytes img.format offset

def segmentAt (img : Image) (i : Nat) : Observed SegmentEntry :=
  once (.segmentEntry i) do
    let offset ← img.segmentOffset i
    report (.resolvingSegment i offset)
    Record.decodeAt (α := SegmentEntry) img.bytes img.format offset

def symbolAt (img : Image) (i j : Nat) : Observed SymbolEntry := do
  let s ← sectionAt img i
  let count ← once (.symbolCount i) (s.symbolCount img.bytes)
  once (.symbol i j) do
    let offset ← Image.symbolOffset s count j
    report (.resolvingSymbol i j offset)
    Record.decodeAt (α := SymbolEntry) img.bytes img.format offset

def stringTable (img : Image) (i : Nat) : Observed StringTable := do
  let s ← sectionAt img i
  once (.stringTable i) do return ⟨← s.data img.bytes⟩

def nameTable (img : Image) : Observed (Option StringTable) := do
  if img.header.nameSection = 0 then return none
  return some (← stringTable img img.header.nameSection)

def sectionName (img : Image) (i : Nat) : Observed String := do
  let s ← sectionAt img i
  once (.sectionName i) do
    match ← nameTable img with
    | some table => table.lookup s.name
    | none => return ""

def symbolName (img : Image) (i j : Nat) : Observed String := do
  let s ← sectionAt img i
  let symbol ← symbolAt img i j
  once (.symbolName i j) do (← stringTable img s.link).lookup symbol.name

def sectionNamed (img : Image) (name : String) : Observed (Option SectionHit) :=
  firstHit (fun i => do
    let s ← sectionAt img i
    return if (← sectionName img i) = name then some ⟨i, s⟩ else none)
    1 (img.header.sectionCount - 1)

def stringsNamed (img : Image) (name : String) : Observed (Option StringTable) := do
  match ← sectionNamed img name with
  | some hit => return some (← stringTable img hit.index)
  | none => return none

/-- One try of `indexOf`. -/
def typeTest (img : Image) (w : WellKnown) (i : Nat) : Observed (Option Nat) := do
  if (← sectionAt img i).type = w.type then
    report (.foundType w.type i)
    return some i
  return none

def indexOf (img : Image) (w : WellKnown) : Observed (Option Nat) :=
  once (.indexOf w) <| firstHit (typeTest img w) 1 (img.header.sectionCount - 1)

def wellKnown (img : Image) (w : WellKnown) : Observed (Option SectionHit) := do
  match ← indexOf img w with
  | some i => return some ⟨i, ← sectionAt img i⟩
  | none => return none

def interpreterPath (img : Image) : Observed (Option String) :=
  firstHit (fun i => do (← segmentAt img i).interpreter img.bytes) 0 img.header.segmentCount

def searchSymbols (img : Image) (search : SectionHit → Observed (Option SymbolHit)) :
    Observed (Option SymbolHit) :=
  firstSome (searchIn (wellKnown img .dynamicSymbols) search)
    (searchIn (wellKnown img .symbolTable) search)

def symbolNamed (img : Image) (name : String) : Observed (Option SymbolHit) :=
  searchSymbols img fun table =>
    let n := table.entry.entryCount
    firstHit (fun k => do
      let j := twoEnded n k
      let symbol ← symbolAt img table.index j
      return if (← symbolName img table.index j) = name then some ⟨table.index, j, symbol⟩
        else none) 0 n

def symbolContaining (img : Image) (address : Nat) : Observed (Option SymbolHit) :=
  searchSymbols img fun table =>
    firstHit (fun j => do
      let symbol ← symbolAt img table.index j
      return if symbol.contains address then some ⟨table.index, j, symbol⟩ else none)
      0 table.entry.entryCount

/-- The visits of `n` questions from `start` on, up to the first that ends in a fault. -/
def listVisits {α : Type} (question : Nat → Observed α) : Nat → Nat → Session → List Visit
  | _, 0, _ => []
  | start, n + 1, s =>
    (question start).visits s ++
      match (question start).plain.run.run s with
      | (.ok _, next) => listVisits question (start + 1) n next
      | (.error _, _) => []

def list {α : Type} (question : Nat → Observed α) (start n : Nat) : Observed (Listing α) where
  plain := SessionM.list (fun i => (question i).plain) start n
  visits := listVisits question start n

def ask (img : Image) : Query → Observed Answer
  | .sectionEntry i => return .sectionEntry (← sectionAt img i)
  | .sectionName i => return .text (← sectionName img i)
  | .sectionData i => do
    let s ← sectionAt img i
    return .bytes (← s.data img.bytes)
  | .sectionStrings i => return .strings (← stringTable img i)
  | .sectionString i offset => do
    let table ← stringTable img i
    return .text (← table.lookup offset)
  | .entryCount i => return .count (← sectionAt img i).entryCount
  | .symbol i j => return .symbol (← symbolAt img i j)
  | .symbolName i j => return .text (← symbolName img i j)
  | .symbolContains i j addresses => do
    return .flags (addresses.map (← symbolAt img i j).contains)
  | .symbols i => do
    return .symbols (← list (symbolAt img i) 0 (← sectionAt img i).entryCount)
  | .symbolNames i => do
    return .texts (← list (symbolName img i) 0 (← sectionAt img i).entryCount)
  | .sections => return .sections (← list (sectionAt img) 0 img.header.sectionCount)
  | .sectionNames => return .texts (← list (sectionName img) 0 img.header.sectionCount)
  | .segment i => return .segment (← segmentAt img i)
  | .segmentData i => do
    let p ← segmentAt img i
    return .bytes (← p.data img.bytes)
  | .segmentInterpreter i => do
    let p ← segmentAt img i
    return .optional .text (← p.interpreter img.bytes)
  | .segments => return .segments (← list (segmentAt img) 0 img.header.segmentCount)
  | .nameTable => return .optional .strings (← nameTable img)
  | .stringsNamed name => return .optional .strings (← stringsNamed img name)
  | .sectionNamed name =>
    return .optional (fun hit => .sectionEntry hit.entry) (← sectionNamed img name)
  | .wellKnown w =>
    return .optional (fun hit => .sectionEntry hit.entry) (← wellKnown img w)
  | .interpreterPath => return .optional .text (← interpreterPath img)
  | .symbolNamed name =>
    return .optional (fun hit => .symbol hit.entry) (← symbolNamed img name)
  | .symbolContaining address =>
    return .optional (fun hit => .symbol hit.entry) (← symbolContaining img address)

/-! ## Without the visits -/

section Plain

variable {α β : Type} (img : Image)

theorem bind_plain {m : Observed α} {m' : SessionM α} {f : α → Observed β} {f' : α → SessionM β}
    (hm : m.plain = m') (hf : ∀ a, (f a).plain = f' a) : (m >>= f).plain = m' >>= f' := by
  rw [← hm]
  exact congrArg (m.plain >>= ·) (funext hf)

theorem firstHit_plain {f : Nat → Observed (Option α)} {f' : Nat → SessionM (Option α)}
    (h : ∀ i, (f i).plain = f' i) (start n : Nat) :
    (firstHit f start n).plain = firstHit f' start n := by
  induction n generalizing start with
  | zero => rfl
  | succ n ih =>
    refine bind_plain (h start) fun hit => ?_
    cases hit with
    | some a => rfl
    | none => exact ih (start + 1)

theorem firstSome_plain {a b : Observed (Option α)} {a' b' : SessionM (Option α)}
    (ha : a.plain = a') (hb : b.plain = b') : (firstSome a b).plain = firstSome a' b' := by
  refine bind_plain ha fun hit => ?_
  cases hit with
  | some x => rfl
  | none => exact hb

theorem searchIn_plain {place : Observed (Option α)} {place' : SessionM (Option α)}
    {search : α → Observed (Option β)} {search' : α → SessionM (Option β)}
    (hplace : place.plain = place') (h : ∀ a, (search a).plain = search' a) :
    (searchIn place search).plain = searchIn place' search' := by
  refine bind_plain hplace fun found => ?_
  cases found with
  | some a => exact h a
  | none => rfl

theorem sectionAt_plain (i : Nat) : (sectionAt img i).plain = SessionM.sectionAt img i := rfl

theorem segmentAt_plain (i : Nat) : (segmentAt img i).plain = SessionM.segmentAt img i := rfl

theorem nameTable_plain : (nameTable img).plain = SessionM.nameTable img := by
  unfold nameTable SessionM.nameTable
  split <;> rfl

theorem nameSlot_plain (i offset : Nat) :
    (once (.sectionName i) do
        match ← nameTable img with
        | some table => table.lookup offset
        | none => return "").plain =
      SessionM.once (.sectionName i) do
        match ← SessionM.nameTable img with
        | some table => table.lookup offset
        | none => return "" := by
  refine congrArg (SessionM.once (.sectionName i)) ?_
  refine bind_plain (nameTable_plain img) fun table => ?_
  cases table <;> rfl

theorem sectionName_plain (i : Nat) : (sectionName img i).plain = SessionM.sectionName img i :=
  bind_plain (sectionAt_plain img i) fun s => nameSlot_plain img i s.name

theorem sectionNamed_plain (name : String) :
    (sectionNamed img name).plain = SessionM.sectionNamed img name := by
  refine firstHit_plain (fun i => ?_) _ _
  refine bind_plain (sectionAt_plain img i) fun s => ?_
  exact bind_plain (sectionName_plain img i) fun found => rfl

theorem stringsNamed_plain (name : String) :
    (stringsNamed img name).plain = SessionM.stringsNamed img name := by
  refine bind_plain (sectionNamed_plain img name) fun hit => ?_
  cases hit <;> rfl

theorem typeTest_plain (w : WellKnown) (i : Nat) :
    (typeTest img w i).plain = do
      if (← SessionM.sectionAt img i).type = w.type then
        SessionM.report (.foundType w.type i)
        return some i
      return none := by
  refine bind_plain (sectionAt_plain img i) fun s => ?_
  split <;> rfl

theorem indexOf_plain (w : WellKnown) : (indexOf img w).plain = SessionM.indexOf img w :=
  congrArg (SessionM.once (.indexOf w)) (firstHit_plain (typeTest_plain img w) _ _)

theorem wellKnown_plain (w : WellKnown) : (wellKnown img w).plain = SessionM.wellKnown img w := by
  refine bind_plain (indexOf_plain img w) fun found => ?_
  cases found <;> rfl

theorem interpreterPath_plain : (interpreterPath img).plain = SessionM.interpreterPath img :=
  firstHit_plain (fun _ => rfl) _ _

theorem searchSymbols_plain {search : SectionHit → Observed (Option SymbolHit)}
    {search' : SectionHit → SessionM (Option SymbolHit)}
    (h : ∀ table, (search table).plain = search' table) :
    (searchSymbols img search).plain = SessionM.searchSymbols img search' :=
  firstSome_plain (searchIn_plain (wellKnown_plain img _) h)
    (searchIn_plain (wellKnown_plain img _) h)

theorem symbolNamed_plain (name : String) :
    (symbolNamed img name).plain = SessionM.symbolNamed img name :=
  searchSymbols_plain img fun _ => firstHit_plain (fun _ => rfl) _ _

theorem symbolContaining_plain (address : Nat) :
    (symbolContaining img address).plain = SessionM.symbolContaining img address :=
  searchSymbols_plain img fun _ => firstHit_plain (fun _ => rfl) _ _

theorem list_plain {question : Nat → Observed α} {question' : Nat → SessionM α}
    (h : ∀ i, (question i).plain = question' i) (start n : Nat) :
    (list question start n).plain = SessionM.list question' start n := by
  rw [← funext h]
  rfl

/-- Observing changes neither the answer nor the session. -/
theorem ask_plain (q : Query) : (ask img q).plain = SessionM.ask img q := by
  cases q with
  | sectionName i => exact bind_plain (sectionName_plain img i) fun _ => rfl
  | sectionNames =>
    exact bind_plain (list_plain (sectionName_plain img) _ _) fun _ => rfl
  | nameTable => exact bind_plain (nameTable_plain img) fun _ => rfl
  | stringsNamed name => exact bind_plain (stringsNamed_plain img name) fun _ => rfl
  | sectionNamed name => exact bind_plain (sectionNamed_plain img name) fun _ => rfl
  | wellKnown w => exact bind_plain (wellKnown_plain img w) fun _ => rfl
  | interpreterPath => exact bind_plain (interpreterPath_plain img) fun _ => rfl
  | symbolNamed name => exact bind_plain (symbolNamed_plain img name) fun _ => rfl
  | symbolContaining address => exact bind_plain (symbolContaining_plain img address) fun _ => rfl
  -- No other question has a case split or a walk to the first hit in it.
  | _ => rfl

end Plain

end Observed

end ElfInspect
