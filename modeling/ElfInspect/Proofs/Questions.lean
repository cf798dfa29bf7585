import ElfInspect.Proofs.Laziness
import ElfInspect.Proofs.Visits

/-!
What all questions are put together from. A property of observed questions that the accesses to
slots have, and that sequences and walks pass on, is one of every question: `Observed.Rule.ask`.
-/

namespace ElfInspect.Observed

/-- Either the first part ends in a fault and no more is asked, or the second part goes on in the
session that the first one leaves. -/
theorem bind_cases {α β : Type} (m : Observed α) (f : α → Observed β) (s : Session) :
    (∃ fault next, m.plain.run.run s = (.error fault, next) ∧
      (m >>= f).visits s = m.visits s ∧ (m >>= f).plain.run.run s = (.error fault, next)) ∨
    ∃ a next, m.plain.run.run s = (.ok a, next) ∧
      (m >>= f).visits s = m.visits s ++ (f a).visits next ∧
      (m >>= f).plain.run.run s = (f a).plain.run.run next := by
  have hrun : (m >>= f).plain.run.run s = _ :=
    SessionM.run_bind m.plain (fun a => (f a).plain) s
  rw [hrun, bind_visits]
  rcases hend : m.plain.run.run s with ⟨fault | a, next⟩
  · exact .inl ⟨fault, next, rfl, List.append_nil _, rfl⟩
  · exact .inr ⟨a, next, rfl, rfl, rfl⟩

/-- A property that the accesses to slots have, and that putting questions together passes on. -/
structure Rule (img : Image) (P : {α : Type} → Observed α → Prop) : Prop where
  pure : ∀ {α : Type} (a : α), P (pure a : Observed α)
  lift : ∀ {α : Type} (r : Except Fault α), P (liftM r : Observed α)
  bind : ∀ {α β : Type} {m : Observed α} {f : α → Observed β}, P m → (∀ a, P (f a)) → P (m >>= f)
  list : ∀ {α : Type} {question : Nat → Observed α}, (∀ i, P (question i)) →
    ∀ start n, P (list question start n)
  sectionAt : ∀ i, P (sectionAt img i)
  segmentAt : ∀ i, P (segmentAt img i)
  symbolAt : ∀ i j, P (symbolAt img i j)
  stringTable : ∀ i, P (stringTable img i)
  sectionName : ∀ i, P (sectionName img i)
  symbolName : ∀ i j, P (symbolName img i j)
  indexOf : ∀ w, P (indexOf img w)

namespace Rule

variable {img : Image} {P : {α : Type} → Observed α → Prop} {α β : Type} (h : Rule img P)
include h

theorem firstHit {f : Nat → Observed (Option α)} (hf : ∀ i, P (f i)) (start n : Nat) :
    P (firstHit f start n) := by
  induction n generalizing start with
  | zero => exact h.pure none
  | succ n ih =>
    refine h.bind (hf start) fun hit => ?_
    cases hit with
    | some a => exact h.pure (some a)
    | none => exact ih (start + 1)

theorem firstSome {a b : Observed (Option α)} (ha : P a) (hb : P b) : P (firstSome a b) := by
  refine h.bind ha fun hit => ?_
  cases hit with
  | some x => exact h.pure (some x)
  | none => exact hb

theorem searchIn {place : Observed (Option α)} {search : α → Observed (Option β)}
    (hplace : P place) (hsearch : ∀ a, P (search a)) : P (searchIn place search) := by
  refine h.bind hplace fun found => ?_
  cases found with
  | some a => exact hsearch a
  | none => exact h.pure none

theorem nameTable : P (nameTable img) := by
  unfold Observed.nameTable
  split
  · exact h.pure none
  · exact h.bind (h.stringTable _) fun table => h.pure (some table)

theorem sectionNamed (name : String) : P (sectionNamed img name) := by
  refine h.firstHit (fun i => ?_) _ _
  refine h.bind (h.sectionAt i) fun s => ?_
  exact h.bind (h.sectionName i) fun found => h.pure _

theorem stringsNamed (name : String) : P (stringsNamed img name) := by
  refine h.bind (h.sectionNamed name) fun hit => ?_
  cases hit with
  | some hit => exact h.bind (h.stringTable _) fun table => h.pure (some table)
  | none => exact h.pure none

theorem wellKnown (w : WellKnown) : P (wellKnown img w) := by
  refine h.bind (h.indexOf w) fun found => ?_
  cases found with
  | some i => exact h.bind (h.sectionAt i) fun s => h.pure _
  | none => exact h.pure none

theorem interpreterPath : P (interpreterPath img) :=
  h.firstHit (fun i => h.bind (h.segmentAt i) fun _ => h.lift _) _ _

theorem searchSymbols {search : SectionHit → Observed (Option SymbolHit)}
    (hsearch : ∀ table, P (search table)) : P (searchSymbols img search) :=
  h.firstSome (h.searchIn (h.wellKnown _) hsearch) (h.searchIn (h.wellKnown _) hsearch)

theorem symbolNamed (name : String) : P (symbolNamed img name) := by
  refine h.searchSymbols fun table => h.firstHit (fun k => ?_) _ _
  refine h.bind (h.symbolAt _ _) fun symbol => ?_
  exact h.bind (h.symbolName _ _) fun found => h.pure _

theorem symbolContaining (address : Nat) : P (symbolContaining img address) := by
  refine h.searchSymbols fun table => h.firstHit (fun j => ?_) _ _
  exact h.bind (h.symbolAt _ j) fun symbol => h.pure _

theorem ask (q : Query) : P (ask img q) := by
  cases q with
  | sectionEntry i | entryCount i => exact h.bind (h.sectionAt i) fun _ => h.pure _
  | sectionName i => exact h.bind (h.sectionName i) fun _ => h.pure _
  | sectionData i =>
    refine h.bind (h.sectionAt i) fun s => ?_
    exact h.bind (h.lift _) fun _ => h.pure _
  | sectionStrings i => exact h.bind (h.stringTable i) fun _ => h.pure _
  | sectionString i offset =>
    refine h.bind (h.stringTable i) fun table => ?_
    exact h.bind (h.lift _) fun _ => h.pure _
  | symbol i j | symbolContains i j addresses =>
    exact h.bind (h.symbolAt i j) fun _ => h.pure _
  | symbolName i j => exact h.bind (h.symbolName i j) fun _ => h.pure _
  | symbols i =>
    refine h.bind (h.sectionAt i) fun s => ?_
    exact h.bind (h.list (h.symbolAt i) _ _) fun _ => h.pure _
  | symbolNames i =>
    refine h.bind (h.sectionAt i) fun s => ?_
    exact h.bind (h.list (h.symbolName i) _ _) fun _ => h.pure _
  | sections => exact h.bind (h.list h.sectionAt _ _) fun _ => h.pure _
  | sectionNames => exact h.bind (h.list h.sectionName _ _) fun _ => h.pure _
  | segment i => exact h.bind (h.segmentAt i) fun _ => h.pure _
  | segmentData i | segmentInterpreter i =>
    refine h.bind (h.segmentAt i) fun p => ?_
    exact h.bind (h.lift _) fun _ => h.pure _
  | segments => exact h.bind (h.list h.segmentAt _ _) fun _ => h.pure _
  | nameTable => exact h.bind h.nameTable fun _ => h.pure _
  | stringsNamed name => exact h.bind (h.stringsNamed name) fun _ => h.pure _
  | sectionNamed name => exact h.bind (h.sectionNamed name) fun _ => h.pure _
  | wellKnown w => exact h.bind (h.wellKnown w) fun _ => h.pure _
  | interpreterPath => exact h.bind h.interpreterPath fun _ => h.pure _
  | symbolNamed name => exact h.bind (h.symbolNamed name) fun _ => h.pure _
  | symbolContaining address => exact h.bind (h.symbolContaining address) fun _ => h.pure _

end Rule

end ElfInspect.Observed
