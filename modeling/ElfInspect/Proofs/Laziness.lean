import Mathlib
import ElfInspect.Query

/-!
A session keeps what it has found, and nobody can tell. The invariant is `Session.Sound`: a filled
slot holds what the image says about it. `Agrees` compares a question within a session with an
answer from the image; each question keeps the invariant, also when it ends in a fault halfway.
-/

namespace ElfInspect

/-- What the image itself says about the thing that a slot keeps. -/
def Slot.value (img : Image) : (slot : Slot) → Except Fault slot.Content
  | .sectionEntry i => img.sectionAt i
  | .segmentEntry i => img.segmentAt i
  | .sectionName i => img.sectionName i
  | .stringTable i => img.stringTable i
  | .symbolCount i => do (← img.sectionAt i).symbolCount img.bytes
  | .symbol i j => img.symbolAt i j
  | .symbolName i j => img.symbolName i j
  | .indexOf w => img.indexOfType w.type

/-- Every filled slot holds what the image says. -/
def Session.Sound (img : Image) (s : Session) : Prop :=
  ∀ slot content, s.slots.get? slot = some content → slot.value img = .ok content

/-- From every sound session `m` gives `r`, and it leaves a sound session. -/
def Agrees (img : Image) {α : Type} (m : SessionM α) (r : Except Fault α) : Prop :=
  ∀ s, s.Sound img → (m.run.run s).1 = r ∧ (m.run.run s).2.Sound img

variable {img : Image} {α β : Type}

theorem Slot.symbolCount_value {i : Nat} {s : SectionEntry} (hs : img.sectionAt i = .ok s) :
    Slot.value img (.symbolCount i) = s.symbolCount img.bytes := by
  rw [Slot.value, hs]
  rfl

/-! ## How a session runs -/

theorem Session.start_sound (img : Image) : (Session.start img).Sound img := by
  intro slot content h
  simp [Session.start] at h

theorem Session.Sound.insert {s : Session} (hs : s.Sound img) {slot : Slot}
    {content : slot.Content} (h : slot.value img = .ok content) :
    Session.Sound img { s with slots := s.slots.insert slot content } := by
  intro other held hget
  rw [Std.DHashMap.get?_insert] at hget
  split at hget
  case isTrue heq =>
    obtain rfl := eq_of_beq heq
    simp only [cast_eq, Option.some.injEq] at hget
    rw [h, hget]
  case isFalse => exact hs other held hget

theorem SessionM.run_bind (m : SessionM α) (f : α → SessionM β) (s : Session) :
    (m >>= f).run.run s =
      match m.run.run s with
      | (.ok a, next) => (f a).run.run next
      | (.error fault, next) => (.error fault, next) := by
  rw [ExceptT.run_bind, StateT.run_bind]
  generalize m.run.run s = outcome
  rcases outcome with ⟨_ | _, next⟩ <;> rfl

/-- An access to a slot: the content held, or what the producer makes. -/
theorem SessionM.run_once (slot : Slot) (produce : SessionM slot.Content) (s : Session) :
    (once slot produce).run.run s =
      match s.slots.get? slot with
      | some content => (.ok content, s)
      | none =>
        match produce.run.run s with
        | (.error fault, next) => (.error fault, next)
        | (.ok made, next) =>
          match next.slots.get? slot with
          | some content => (.ok content, next)
          | none => (.ok made, { next with slots := next.slots.insert slot made }) := by
  have held : ∀ s, (do return (← get).slots.get? slot : SessionM (Option slot.Content)).run.run s =
      (.ok (s.slots.get? slot), s) := fun _ => rfl
  unfold once getOrMake
  rw [run_bind, held]
  cases s.slots.get? slot with
  | some content => rfl
  | none =>
    change (produce >>= _).run.run s = _
    rw [run_bind]
    generalize produce.run.run s = outcome
    obtain ⟨_ | made, next⟩ := outcome
    · rfl
    · change ((do return (← get).slots.get? slot : SessionM _) >>= _).run.run next = _
      rw [run_bind, held]
      dsimp only
      cases next.slots.get? slot <;> rfl

/-! ## Agreement, one construction at a time -/

theorem agrees_pure (a : α) : Agrees img (pure a) (pure a) := by
  intro s hs
  exact ⟨rfl, hs⟩

theorem agrees_lift (r : Except Fault α) : Agrees img (liftM r) r := by
  intro s hs
  cases r <;> exact ⟨rfl, hs⟩

theorem agrees_report (e : Event) : Agrees img (SessionM.report e) (pure ()) := by
  intro s hs
  exact ⟨rfl, hs⟩

theorem agrees_bind {m : SessionM α} {r : Except Fault α} {f : α → SessionM β}
    {g : α → Except Fault β} (hm : Agrees img m r)
    (hf : ∀ a, r = .ok a → Agrees img (f a) (g a)) : Agrees img (m >>= f) (r >>= g) := by
  intro s hs
  obtain ⟨hr, hs'⟩ := hm s hs
  rw [SessionM.run_bind]
  generalize m.run.run s = outcome at hr hs'
  obtain ⟨result, next⟩ := outcome
  subst hr
  cases result with
  | error fault => exact ⟨rfl, hs'⟩
  | ok a => exact hf a rfl next hs'

/-- The producer of an entry: its place, a report and the bytes there. -/
theorem agrees_entry (place : Except Fault Nat) (e : Nat → Event)
    (decode : Nat → Except Fault α) :
    Agrees img (do
      let offset ← place
      SessionM.report (e offset)
      decode offset) (place >>= decode) := by
  apply agrees_bind (agrees_lift place)
  intro offset _
  exact agrees_bind (agrees_report _) fun _ _ => agrees_lift _

/-- A question that starts with a smaller one, whose fault is then its own. -/
theorem agrees_after {m : SessionM α} {r : Except Fault α} {f : α → SessionM β}
    {whole : Except Fault β} (hm : Agrees img m r)
    (hok : ∀ a, r = .ok a → Agrees img (f a) whole)
    (herr : ∀ fault, r = .error fault → whole = .error fault) : Agrees img (m >>= f) whole := by
  have h : Agrees img (m >>= f) (r >>= fun _ => whole) := agrees_bind hm hok
  cases r with
  | error fault => rw [herr fault rfl]; exact h
  | ok a => exact h

theorem agrees_once (slot : Slot) {produce : SessionM slot.Content}
    (h : Agrees img produce (slot.value img)) :
    Agrees img (SessionM.once slot produce) (slot.value img) := by
  intro s hs
  obtain ⟨hr, hs'⟩ := h s hs
  rw [SessionM.run_once]
  cases hold : s.slots.get? slot with
  | some content => exact ⟨(hs slot content hold).symm, hs⟩
  | none =>
    generalize produce.run.run s = outcome at hr hs'
    obtain ⟨result, next⟩ := outcome
    cases result with
    | error fault => exact ⟨hr, hs'⟩
    | ok made =>
      dsimp only
      cases refilled : next.slots.get? slot with
      | some content => exact ⟨(hs' slot content refilled).symm, hs'⟩
      | none => exact ⟨hr, hs'.insert hr.symm⟩

theorem agrees_firstHit {f : Nat → SessionM (Option α)} {g : Nat → Except Fault (Option α)}
    (h : ∀ i, Agrees img (f i) (g i)) (start n : Nat) :
    Agrees img (firstHit f start n) (firstHit g start n) := by
  induction n generalizing start with
  | zero => exact agrees_pure none
  | succ n ih =>
    apply agrees_bind (h start)
    intro hit _
    cases hit with
    | some a => exact agrees_pure (some a)
    | none => exact ih (start + 1)

theorem agrees_firstSome {m m' : SessionM (Option α)} {r r' : Except Fault (Option α)}
    (h : Agrees img m r) (h' : Agrees img m' r') :
    Agrees img (firstSome m m') (firstSome r r') := by
  apply agrees_bind h
  intro hit _
  cases hit with
  | some a => exact agrees_pure (some a)
  | none => exact h'

theorem agrees_searchIn {m : SessionM (Option α)} {r : Except Fault (Option α)}
    {f : α → SessionM (Option β)} {g : α → Except Fault (Option β)} (h : Agrees img m r)
    (hf : ∀ a, Agrees img (f a) (g a)) : Agrees img (searchIn m f) (searchIn r g) := by
  apply agrees_bind h
  intro place _
  cases place with
  | some a => exact hf a
  | none => exact agrees_pure none

/-- A fault ends a walk, but it is no fault of the question that walks. -/
theorem agrees_list {question : Nat → SessionM α} {r : Nat → Except Fault α}
    (h : ∀ i, Agrees img (question i) (r i)) (start n : Nat) :
    Agrees img (SessionM.list question start n) (pure (Id.run (listing r start n))) := by
  suffices hfrom : ∀ (found : List α) start s, s.Sound img →
      let outcome := (listingFrom (fun i => (question i).run) found start n).run s
      outcome.1 = Id.run (listingFrom r found start n) ∧ outcome.2.Sound img by
    intro s hs
    obtain ⟨hl, hs'⟩ := hfrom [] start s hs
    exact ⟨congrArg Except.ok hl, hs'⟩
  induction n with
  | zero => exact fun found start s hs => ⟨rfl, hs⟩
  | succ n ih =>
    intro found start s hs
    obtain ⟨hr, hs'⟩ := h start s hs
    dsimp only [listingFrom]
    rw [StateT.run_bind]
    generalize (question start).run.run s = outcome at hr hs'
    obtain ⟨result, next⟩ := outcome
    rw [← hr]
    cases result with
    | error fault => exact ⟨rfl, hs'⟩
    | ok a => exact ih (a :: found) (start + 1) next hs'

/-! ## Agreement of the questions -/

namespace SessionM

theorem sectionAt_agrees (img : Image) (i : Nat) :
    Agrees img (sectionAt img i) (img.sectionAt i) := by
  exact agrees_once (.sectionEntry i) (agrees_entry _ _ _)

theorem segmentAt_agrees (img : Image) (i : Nat) :
    Agrees img (segmentAt img i) (img.segmentAt i) := by
  exact agrees_once (.segmentEntry i) (agrees_entry _ _ _)

/-- Under the section's own entry, the count kept in its slot is the one of that entry. -/
theorem symbolCount_agrees {i : Nat} {s : SectionEntry} (hs : img.sectionAt i = .ok s) :
    Agrees img (once (.symbolCount i) (s.symbolCount img.bytes)) (s.symbolCount img.bytes) := by
  rw [← Slot.symbolCount_value hs]
  exact agrees_once _ (Slot.symbolCount_value hs ▸ agrees_lift _)

/-- The slot of a symbol, under the entry and the count of its table. -/
theorem symbolSlot_agrees {i : Nat} {s : SectionEntry} {count : Nat}
    (hs : img.sectionAt i = .ok s) (hcount : s.symbolCount img.bytes = .ok count) (j : Nat) :
    Agrees img
      (once (.symbol i j) do
        let offset ← Image.symbolOffset s count j
        report (.resolvingSymbol i j offset)
        Record.decodeAt (α := SymbolEntry) img.bytes img.format offset)
      (img.symbolAt i j) := by
  refine agrees_once (.symbol i j) ?_
  have hvalue : img.symbolAt i j = (do
      Record.decodeAt img.bytes img.format (← Image.symbolOffset s count j)) := by
    rw [Image.symbolAt, hs]
    change (s.symbolCount img.bytes >>= _) = _
    rw [hcount]
    rfl
  rw [Slot.value, hvalue]
  exact agrees_entry _ _ _

theorem symbolAt_agrees (img : Image) (i j : Nat) :
    Agrees img (symbolAt img i j) (img.symbolAt i j) := by
  refine agrees_after (sectionAt_agrees img i) (fun s hs => ?_) fun fault h => ?_
  · refine agrees_after (symbolCount_agrees hs) (fun count hcount => ?_) fun fault h => ?_
    · exact symbolSlot_agrees hs hcount j
    · rw [Image.symbolAt, hs]
      change (s.symbolCount img.bytes >>= _) = _
      rw [h]
      rfl
  · rw [Image.symbolAt, h]
    rfl

theorem stringSlot_agrees {i : Nat} {s : SectionEntry} (hs : img.sectionAt i = .ok s) :
    Agrees img (once (.stringTable i) do return ⟨← s.data img.bytes⟩) (img.stringTable i) := by
  refine agrees_once (.stringTable i) ?_
  have hvalue : img.stringTable i = (do return ⟨← s.data img.bytes⟩) := by
    rw [Image.stringTable, hs]
    rfl
  rw [Slot.value, hvalue]
  exact agrees_bind (agrees_lift _) fun _ _ => agrees_pure _

theorem stringTable_agrees (img : Image) (i : Nat) :
    Agrees img (stringTable img i) (img.stringTable i) := by
  refine agrees_after (sectionAt_agrees img i) (fun s hs => ?_) fun fault h => ?_
  · exact stringSlot_agrees hs
  · rw [Image.stringTable, h]
    rfl

theorem nameTable_agrees (img : Image) : Agrees img (nameTable img) img.nameTable := by
  unfold nameTable Image.nameTable
  split
  · exact agrees_pure none
  · exact agrees_bind (stringTable_agrees img _) fun table _ => agrees_pure (some table)

theorem nameSlot_agrees {i : Nat} {s : SectionEntry} (hs : img.sectionAt i = .ok s) :
    Agrees img
      (once (.sectionName i) do
        match ← nameTable img with
        | some table => table.lookup s.name
        | none => return "")
      (img.sectionName i) := by
  refine agrees_once (.sectionName i) ?_
  have hvalue : img.sectionName i = (do
      match ← img.nameTable with
      | some table => table.lookup s.name
      | none => return "") := by
    rw [Image.sectionName, hs]
    rfl
  rw [Slot.value, hvalue]
  apply agrees_bind (nameTable_agrees img)
  intro table _
  cases table with
  | some table => exact agrees_lift _
  | none => exact agrees_pure ""

theorem sectionName_agrees (img : Image) (i : Nat) :
    Agrees img (sectionName img i) (img.sectionName i) := by
  refine agrees_after (sectionAt_agrees img i) (fun s hs => ?_) fun fault h => ?_
  · exact nameSlot_agrees hs
  · rw [Image.sectionName, h]
    rfl

theorem symbolNameSlot_agrees {i j : Nat} {s : SectionEntry} {symbol : SymbolEntry}
    (hs : img.sectionAt i = .ok s) (hsymbol : img.symbolAt i j = .ok symbol) :
    Agrees img (once (.symbolName i j) do (← stringTable img s.link).lookup symbol.name)
      (img.symbolName i j) := by
  refine agrees_once (.symbolName i j) ?_
  have hvalue : img.symbolName i j = (do (← img.stringTable s.link).lookup symbol.name) := by
    rw [Image.symbolName, hs, hsymbol]
    rfl
  rw [Slot.value, hvalue]
  exact agrees_bind (stringTable_agrees img _) fun table _ => agrees_lift _

theorem symbolName_agrees (img : Image) (i j : Nat) :
    Agrees img (symbolName img i j) (img.symbolName i j) := by
  refine agrees_after (sectionAt_agrees img i) (fun s hs => ?_) fun fault h => ?_
  · refine agrees_after (symbolAt_agrees img i j) (fun symbol hsymbol => ?_) fun fault h => ?_
    · exact symbolNameSlot_agrees hs hsymbol
    · rw [Image.symbolName, hs, h]
      rfl
  · rw [Image.symbolName, h]
    rfl

/-- One try of `sectionNamed`. -/
theorem sectionTest_agrees (img : Image) (name : String) (i : Nat) :
    Agrees img (do
        let s ← sectionAt img i
        return if (← sectionName img i) = name then some (⟨i, s⟩ : SectionHit) else none)
      (do
        let s ← img.sectionAt i
        return if (← img.sectionName i) = name then some ⟨i, s⟩ else none) := by
  apply agrees_bind (sectionAt_agrees img i)
  intro s _
  apply agrees_bind (sectionName_agrees img i)
  intro found _
  exact agrees_pure _

theorem sectionNamed_agrees (img : Image) (name : String) :
    Agrees img (sectionNamed img name) (img.sectionNamed name) :=
  agrees_firstHit (sectionTest_agrees img name) _ _

theorem stringsNamed_agrees (img : Image) (name : String) :
    Agrees img (stringsNamed img name) (img.stringsNamed name) := by
  apply agrees_bind (sectionNamed_agrees img name)
  intro hit _
  cases hit with
  | some hit => exact agrees_bind (stringTable_agrees img _) fun table _ => agrees_pure (some table)
  | none => exact agrees_pure none

/-- One try of `indexOf`. -/
theorem typeTest_agrees (img : Image) (w : WellKnown) (i : Nat) :
    Agrees img (do
        if (← sectionAt img i).type = w.type then
          report (.foundType w.type i)
          return some i
        return none)
      (do return if (← img.sectionAt i).type = w.type then some i else none) := by
  apply agrees_bind (sectionAt_agrees img i)
  intro s _
  by_cases htype : s.type = w.type
  · simp only [htype, ↓reduceIte]
    exact agrees_bind (agrees_report _) fun _ _ => agrees_pure (some i)
  · simp only [htype, ↓reduceIte]
    exact agrees_pure none

theorem indexOf_agrees (img : Image) (w : WellKnown) :
    Agrees img (indexOf img w) (img.indexOfType w.type) :=
  agrees_once (.indexOf w) (agrees_firstHit (typeTest_agrees img w) _ _)

theorem wellKnown_agrees (img : Image) (w : WellKnown) :
    Agrees img (wellKnown img w) (img.wellKnown w) := by
  apply agrees_bind (indexOf_agrees img w)
  intro found _
  cases found with
  | some i => exact agrees_bind (sectionAt_agrees img i) fun s _ => agrees_pure _
  | none => exact agrees_pure none

theorem interpreterPath_agrees (img : Image) :
    Agrees img (interpreterPath img) img.interpreterPath := by
  apply agrees_firstHit
  intro i
  apply agrees_bind (segmentAt_agrees img i)
  intro p _
  exact agrees_lift _

theorem searchSymbols_agrees (img : Image) {search : SectionHit → SessionM (Option SymbolHit)}
    {r : SectionHit → Except Fault (Option SymbolHit)}
    (h : ∀ table, Agrees img (search table) (r table)) :
    Agrees img (searchSymbols img search) (img.searchSymbols r) :=
  agrees_firstSome (agrees_searchIn (wellKnown_agrees img _) h)
    (agrees_searchIn (wellKnown_agrees img _) h)

/-- One try of `symbolNamed`. -/
theorem nameTest_agrees (img : Image) (name : String) (i j : Nat) :
    Agrees img (do
        let symbol ← symbolAt img i j
        return if (← symbolName img i j) = name then some (⟨i, j, symbol⟩ : SymbolHit) else none)
      (do
        let symbol ← img.symbolAt i j
        return if (← img.symbolName i j) = name then some ⟨i, j, symbol⟩ else none) := by
  apply agrees_bind (symbolAt_agrees img i j)
  intro symbol _
  apply agrees_bind (symbolName_agrees img i j)
  intro found _
  exact agrees_pure _

theorem symbolNamed_agrees (img : Image) (name : String) :
    Agrees img (symbolNamed img name) (img.symbolNamed name) := by
  apply searchSymbols_agrees
  intro table
  apply agrees_firstHit
  intro k
  exact nameTest_agrees img name table.index _

/-- One try of `symbolContaining`. -/
theorem rangeTest_agrees (img : Image) (address i j : Nat) :
    Agrees img (do
        let symbol ← symbolAt img i j
        return if symbol.contains address then some (⟨i, j, symbol⟩ : SymbolHit) else none)
      (do
        let symbol ← img.symbolAt i j
        return if symbol.contains address then some ⟨i, j, symbol⟩ else none) := by
  apply agrees_bind (symbolAt_agrees img i j)
  intro symbol _
  exact agrees_pure _

theorem symbolContaining_agrees (img : Image) (address : Nat) :
    Agrees img (symbolContaining img address) (img.symbolContaining address) := by
  apply searchSymbols_agrees
  intro table
  exact agrees_firstHit (rangeTest_agrees img address table.index) _ _

/-- Every question, within any sound session, has the answer that the image gives afresh. -/
theorem ask_agrees (img : Image) (q : Query) : Agrees img (ask img q) (q.fresh img) := by
  cases q with
  | sectionEntry i => exact agrees_bind (sectionAt_agrees img i) fun _ _ => agrees_pure _
  | sectionName i => exact agrees_bind (sectionName_agrees img i) fun _ _ => agrees_pure _
  | sectionData i =>
    exact agrees_bind (sectionAt_agrees img i) fun _ _ =>
      agrees_bind (agrees_lift _) fun _ _ => agrees_pure _
  | sectionStrings i => exact agrees_bind (stringTable_agrees img i) fun _ _ => agrees_pure _
  | sectionString i offset =>
    exact agrees_bind (stringTable_agrees img i) fun _ _ =>
      agrees_bind (agrees_lift _) fun _ _ => agrees_pure _
  | entryCount i => exact agrees_bind (sectionAt_agrees img i) fun _ _ => agrees_pure _
  | symbol i j => exact agrees_bind (symbolAt_agrees img i j) fun _ _ => agrees_pure _
  | symbolName i j => exact agrees_bind (symbolName_agrees img i j) fun _ _ => agrees_pure _
  | symbolContains i j addresses =>
    exact agrees_bind (symbolAt_agrees img i j) fun _ _ => agrees_pure _
  | symbols i =>
    exact agrees_bind (sectionAt_agrees img i) fun _ _ =>
      agrees_bind (agrees_list (symbolAt_agrees img i) _ _) fun _ _ => agrees_pure _
  | symbolNames i =>
    exact agrees_bind (sectionAt_agrees img i) fun _ _ =>
      agrees_bind (agrees_list (symbolName_agrees img i) _ _) fun _ _ => agrees_pure _
  | sections =>
    exact agrees_bind (agrees_list (sectionAt_agrees img) _ _) fun _ _ => agrees_pure _
  | sectionNames =>
    exact agrees_bind (agrees_list (sectionName_agrees img) _ _) fun _ _ => agrees_pure _
  | segment i => exact agrees_bind (segmentAt_agrees img i) fun _ _ => agrees_pure _
  | segmentData i =>
    exact agrees_bind (segmentAt_agrees img i) fun _ _ =>
      agrees_bind (agrees_lift _) fun _ _ => agrees_pure _
  | segmentInterpreter i =>
    exact agrees_bind (segmentAt_agrees img i) fun _ _ =>
      agrees_bind (agrees_lift _) fun _ _ => agrees_pure _
  | segments =>
    exact agrees_bind (agrees_list (segmentAt_agrees img) _ _) fun _ _ => agrees_pure _
  | nameTable => exact agrees_bind (nameTable_agrees img) fun _ _ => agrees_pure _
  | stringsNamed name => exact agrees_bind (stringsNamed_agrees img name) fun _ _ => agrees_pure _
  | sectionNamed name => exact agrees_bind (sectionNamed_agrees img name) fun _ _ => agrees_pure _
  | wellKnown w => exact agrees_bind (wellKnown_agrees img w) fun _ _ => agrees_pure _
  | interpreterPath => exact agrees_bind (interpreterPath_agrees img) fun _ _ => agrees_pure _
  | symbolNamed name => exact agrees_bind (symbolNamed_agrees img name) fun _ _ => agrees_pure _
  | symbolContaining address =>
    exact agrees_bind (symbolContaining_agrees img address) fun _ _ => agrees_pure _

/-- A run of questions: each answer is the one given afresh, and the session stays sound. -/
theorem askAll_sound (img : Image) (queries : List Query) (s : Session) (hs : s.Sound img) :
    ((askAll img queries).run s).1 = queries.map (Query.fresh img) ∧
      ((askAll img queries).run s).2.Sound img := by
  induction queries generalizing s with
  | nil => exact ⟨rfl, hs⟩
  | cons q rest ih =>
    obtain ⟨hanswer, hnext⟩ := ask_agrees img q s hs
    obtain ⟨hrest, hlast⟩ := ih _ hnext
    exact ⟨List.cons_eq_cons.2 ⟨hanswer, hrest⟩, hlast⟩

end SessionM

theorem Session.after_sound (img : Image) (asked : List Query) :
    (Session.after img asked).Sound img :=
  (SessionM.askAll_sound img asked _ (Session.start_sound img)).2

/-- What has been asked before makes no difference to an answer. -/
theorem Query.answerAfter_eq_fresh (img : Image) (asked : List Query) (q : Query) :
    q.answerAfter img asked = q.fresh img :=
  (SessionM.ask_agrees img q _ (Session.after_sound img asked)).1

/-- Laziness is unobservable: the questions of a session, in whatever order and with whatever
repetitions and faults among them, are answered as if the bytes were decoded anew for each. -/
theorem Session.answers_eq_reference (bytes : ByteArray) (queries : List Query) :
    Session.answers bytes queries =
      (Image.ofBytes bytes).map fun _ => queries.map (Query.reference bytes) := by
  unfold Session.answers Query.reference
  cases Image.ofBytes bytes with
  | error fault => rfl
  | ok img =>
    exact congrArg Except.ok (SessionM.askAll_sound img queries _ (Session.start_sound img)).1

end ElfInspect
