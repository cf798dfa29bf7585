import ElfInspect.Proofs.Laziness
import ElfInspect.Report.Records

/-!
What reports on symbols say is a matter of the image alone. Each of them has a twin here that is
made from the fresh answers of the image, and comes out the same within any sound session:
`Reports`.
-/

namespace ElfInspect

/-! ## Reports made from fresh answers -/

/-- The record of a symbol that has the given name. -/
def SymbolEntry.record (symbol : SymbolEntry) (name : String) (table : Option String) :
    SymbolRecord where
  name
  table
  value := symbol.value
  size := symbol.size
  type := nameOrHex typeName? symbol.type
  binding := nameOrHex bindingName? symbol.binding

namespace Image

/-- The record of the symbol at some place of a table. -/
def recordOf (img : Image) (demangler : Demangler) (hit : SymbolHit) (table : Option String)
    (demangle : Bool) : Except Failure SymbolRecord := do
  let name ← (img.symbolName hit.table hit.index).mapError (.nameSymbol hit.entry.name)
  return hit.entry.record (displayName demangler name demangle) table

/-- The record of symbol `j` of section `i`, if it is selected. -/
def selectedRecord (img : Image) (demangler : Demangler) (selection : Selection) (demangle : Bool)
    (table : String) (i j : Nat) : Except Failure (List SymbolRecord) := do
  let symbol ← (img.symbolAt i j).mapError (.readSymbol j table)
  if selection.accepts symbol then
    return [← img.recordOf demangler ⟨i, j, symbol⟩ (some table) demangle]
  else return []

/-- The records of the selected symbols of the table that is section `i`. -/
def tableRecords (img : Image) (demangler : Demangler) (selection : Selection) (demangle : Bool)
    (i : Nat) : Except Failure (List SymbolRecord) := do
  let s ← (img.sectionAt i).mapError (.readSection i)
  if selection.wantsTable s.type then
    let table ← (img.sectionName i).mapError (.nameSection i)
    gather (img.selectedRecord demangler selection demangle table i) 0 s.entryCount
  else return []

/-- The records of the selected symbols, in the order of the sections and of their entries. -/
def selectedRecords (img : Image) (demangler : Demangler) (selection : Selection)
    (demangle : Bool) : Except Failure (List SymbolRecord) :=
  gather (img.tableRecords demangler selection demangle) 0 img.header.sectionCount

def find (img : Image) : Target → Except Fault (Option SymbolHit)
  | .name wanted => img.symbolNamed wanted
  | .address wanted => img.symbolContaining wanted

/-- The record of the symbol that is looked for; without a target there is none. -/
def lookupRecord (img : Image) (demangler : Demangler) (target? : Option Target)
    (demangle : Bool) : Except Failure SymbolRecord := do
  let some target := target? | throw .noTarget
  let some hit ← (img.find target).mapError (.search target) | throw (.noSymbol target)
  img.recordOf demangler hit none demangle

end Image

/-! ## Agreement, one construction at a time -/

/-- From every sound session `m` gives `r`, and it leaves a sound session. -/
def Reports (img : Image) {α : Type} (m : ReportM α) (r : Except Failure α) : Prop :=
  ∀ s : Session, s.Sound img → (m.run.run s).1 = r ∧ (m.run.run s).2.Sound img

variable {img : Image} {α β : Type}

theorem reports_pure (a : α) : Reports img (pure a) (pure a) :=
  fun _ hs => ⟨rfl, hs⟩

theorem reports_throw (failure : Failure) :
    Reports img (throw failure : ReportM α) (throw failure) :=
  fun _ hs => ⟨rfl, hs⟩

theorem reports_question (failure : Fault → Failure) {q : SessionM α} {r : Except Fault α}
    (h : Agrees img q r) : Reports img (.question failure q) (r.mapError failure) := by
  intro s hs
  obtain ⟨hr, hs'⟩ := h s hs
  have hrun : (ReportM.question failure q).run.run s =
      ((q.run.run s).1.mapError failure, (q.run.run s).2) := by
    change (q.run >>= _ : StateM Session (Except Failure α)).run s = _
    rw [StateT.run_bind]
    generalize q.run.run s = outcome
    rcases outcome with ⟨_ | _, next⟩ <;> rfl
  rw [hrun, hr]
  exact ⟨rfl, hs'⟩

theorem reports_bind {m : ReportM α} {r : Except Failure α} {f : α → ReportM β}
    {g : α → Except Failure β} (hm : Reports img m r) (hf : ∀ a, Reports img (f a) (g a)) :
    Reports img (m >>= f) (r >>= g) := by
  intro s hs
  obtain ⟨hr, hs'⟩ := hm s hs
  rw [ExceptT.run_bind, StateT.run_bind]
  generalize m.run.run s = outcome at hr hs'
  obtain ⟨result, next⟩ := outcome
  subst hr
  cases result with
  | error failure => exact ⟨rfl, hs'⟩
  | ok a => exact hf a next hs'

theorem reports_after_log (e : Event) {m : ReportM α} {r : Except Failure α}
    (h : Reports img m r) :
    Reports img (do
      modify fun s => { s with log := s.log.push e }
      m) r :=
  fun s hs => h { s with log := s.log.push e } hs

theorem reports_gather {f : Nat → ReportM (List α)} {g : Nat → Except Failure (List α)}
    (h : ∀ i, Reports img (f i) (g i)) (start n : Nat) :
    Reports img (gather f start n) (gather g start n) := by
  suffices hfrom : ∀ (found : List α) start,
      Reports img (gatherFrom f found start n) (gatherFrom g found start n) from hfrom [] start
  induction n with
  | zero => exact fun found start => reports_pure found.reverse
  | succ n ih => exact fun found start => reports_bind (h start) fun more => ih _ (start + 1)

/-! ## Agreement of the reports -/

variable (demangler : Demangler)

theorem recordOf_reports (img : Image) (hit : SymbolHit) (table : Option String)
    (demangle : Bool) :
    Reports img (SymbolRecord.ofHit demangler img hit table demangle)
      (img.recordOf demangler hit table demangle) :=
  reports_bind (reports_question _ (SessionM.symbolName_agrees img _ _)) fun _ => reports_pure _

theorem selectedRecord_reports (img : Image) (selection : Selection) (demangle : Bool)
    (table : String) (i j : Nat) :
    Reports img (do
        let symbol ← .question (.readSymbol j table) (SessionM.symbolAt img i j)
        if selection.accepts symbol then
          return [← SymbolRecord.ofHit demangler img ⟨i, j, symbol⟩ (some table) demangle]
        else return [])
      (img.selectedRecord demangler selection demangle table i j) := by
  refine reports_bind (reports_question _ (SessionM.symbolAt_agrees img i j)) fun symbol => ?_
  by_cases haccepts : selection.accepts symbol
  · simp only [haccepts, ↓reduceIte]
    exact reports_bind (recordOf_reports demangler img _ _ demangle)
      fun record => reports_pure [record]
  · simp only [haccepts]
    exact reports_pure []

theorem tableRecords_reports (img : Image) (selection : Selection) (demangle : Bool) (i : Nat) :
    Reports img (tableRecords demangler img selection demangle i)
      (img.tableRecords demangler selection demangle i) := by
  refine reports_bind (reports_question _ (SessionM.sectionAt_agrees img i)) fun s => ?_
  by_cases hwanted : selection.wantsTable s.type
  · simp only [hwanted, ↓reduceIte]
    refine reports_bind (reports_question _ (SessionM.sectionName_agrees img i)) fun table => ?_
    refine reports_after_log _ (reports_gather (fun j => ?_) _ _)
    exact selectedRecord_reports demangler img selection demangle table i j
  · simp only [hwanted]
    exact reports_pure []

theorem selectedRecords_reports (img : Image) (selection : Selection) (demangle : Bool) :
    Reports img (selectedRecords demangler img selection demangle)
      (img.selectedRecords demangler selection demangle) :=
  reports_gather (tableRecords_reports demangler img selection demangle) _ _

theorem find_agrees (img : Image) (target : Target) :
    Agrees img (target.find img) (img.find target) := by
  cases target with
  | name wanted => exact SessionM.symbolNamed_agrees img wanted
  | address wanted => exact SessionM.symbolContaining_agrees img wanted

theorem lookupRecord_reports (img : Image) (target? : Option Target) (demangle : Bool) :
    Reports img (lookupRecord demangler img target? demangle)
      (img.lookupRecord demangler target? demangle) := by
  cases target? with
  | none => exact reports_throw .noTarget
  | some target =>
    refine reports_bind (reports_question _ (find_agrees img target)) fun found => ?_
    cases found with
    | none => exact reports_throw (.noSymbol target)
    | some hit => exact recordOf_reports demangler img hit none demangle

/-! ## Within a session -/

/-- What a report says after the given questions. -/
def Session.resultAfter (img : Image) (asked : List Query) {ε α : Type}
    (m : ExceptT ε (StateM Session) α) : Except ε α :=
  (m.run.run (Session.after img asked)).1

theorem Reports.resultAfter {α : Type} {m : ReportM α} {r : Except Failure α} (h : Reports img m r)
    (asked : List Query) : Session.resultAfter img asked m = r :=
  (h _ (Session.after_sound img asked)).1

theorem Agrees.resultAfter {α : Type} {m : SessionM α} {r : Except Fault α} (h : Agrees img m r)
    (asked : List Query) : Session.resultAfter img asked m = r :=
  (h _ (Session.after_sound img asked)).1

end ElfInspect
