import ElfInspect.Proofs.Calculations

/-!
A session on the machine does not trap, whatever the bytes and the questions are. `Runs` compares a
question on the machine with the one of `ElfInspect.Session`, from sound sessions only: where a
symbol starts is worked out unchecked from a count that another slot keeps, and only in a sound
session is that the count of the section at hand.
-/

namespace ElfInspect.Machine

variable {img : Image} {α β : Type}

/-- From every sound session `m` runs as `m'` does, without a trap. -/
def Runs (img : Image) (m : MachineM α) (m' : SessionM α) : Prop :=
  ∀ s, s.Sound img → m.run.run s = .ok (m'.run.run s)

/-! ## Runs, one construction at a time -/

theorem run_bind (m : MachineM α) (f : α → MachineM β) (s : Session) :
    (m >>= f).run.run s =
      match m.run.run s with
      | .error trap => .error trap
      | .ok (.ok a, next) => (f a).run.run next
      | .ok (.error fault, next) => .ok (.error fault, next) := by
  rw [ExceptT.run_bind, StateT.run_bind]
  generalize m.run.run s = outcome
  rcases outcome with _ | ⟨_ | _, next⟩ <;> rfl

theorem runs_pure (a : α) : Runs img (pure a) (pure a) := by
  intro s _
  rfl

theorem runs_report (e : Event) : Runs img (report e) (SessionM.report e) := by
  intro s _
  rfl

theorem runs_lift {c : Calc α} {r : Except Fault α} (h : Gives c r) :
    Runs img (liftM c) (liftM r) := by
  intro s _
  change (do let a ← c.run; pure (a, s) : Op _) = _
  rw [h]
  cases r <;> rfl

theorem runs_offset (r : Except Fault α) : Runs img (liftM r) (liftM r) := by
  intro s _
  cases r <;> rfl

theorem runs_step {op : Op α} {a : α} {f : α → MachineM β} {m : SessionM β} (hop : op = .ok a)
    (hf : Runs img (f a) m) : Runs img (liftM op >>= f) m := by
  subst hop
  exact hf

theorem runs_bind {m : MachineM α} {m' : SessionM α} {r : Except Fault α} {f : α → MachineM β}
    {f' : α → SessionM β} (hm : Runs img m m') (ha : Agrees img m' r)
    (hf : ∀ a, r = .ok a → Runs img (f a) (f' a)) : Runs img (m >>= f) (m' >>= f') := by
  intro s hs
  obtain ⟨hr, hs'⟩ := ha s hs
  rw [run_bind, hm s hs, SessionM.run_bind]
  generalize m'.run.run s = outcome at hr hs'
  obtain ⟨result, next⟩ := outcome
  subst hr
  cases result with
  | error fault => rfl
  | ok a => exact hf a rfl next hs'

theorem run_once (slot : Slot) (produce : MachineM slot.Content) (s : Session) :
    (once slot produce).run.run s =
      match s.slots.get? slot with
      | some content => .ok (.ok content, s)
      | none =>
        match produce.run.run s with
        | .error trap => .error trap
        | .ok (.error fault, next) => .ok (.error fault, next)
        | .ok (.ok made, next) =>
          match next.slots.get? slot with
          | some content => .ok (.ok content, next)
          | none => .ok (.ok made, { next with slots := next.slots.insert slot made }) := by
  have held : ∀ s, (do return (← get).slots.get? slot : MachineM (Option slot.Content)).run.run s =
      .ok (.ok (s.slots.get? slot), s) := fun _ => rfl
  unfold once getOrMake
  rw [run_bind, held]
  cases s.slots.get? slot with
  | some content => rfl
  | none =>
    change (produce >>= _).run.run s = _
    rw [run_bind]
    generalize produce.run.run s = outcome
    obtain _ | ⟨_ | made, next⟩ := outcome
    · rfl
    · rfl
    · change ((do return (← get).slots.get? slot : MachineM _) >>= _).run.run next = _
      rw [run_bind, held]
      dsimp only
      cases next.slots.get? slot <;> rfl

theorem runs_once (slot : Slot) {produce : MachineM slot.Content}
    {produce' : SessionM slot.Content} (h : Runs img produce produce') :
    Runs img (once slot produce) (SessionM.once slot produce') := by
  intro s hs
  rw [run_once, SessionM.run_once]
  cases s.slots.get? slot with
  | some content => rfl
  | none =>
    rw [h s hs]
    generalize produce'.run.run s = outcome
    obtain ⟨_ | made, next⟩ := outcome
    · rfl
    · dsimp only
      cases next.slots.get? slot <;> rfl

theorem runs_firstHit {f : Nat → MachineM (Option α)} {f' : Nat → SessionM (Option α)}
    {r : Nat → Except Fault (Option α)} (h : ∀ i, Runs img (f i) (f' i))
    (ha : ∀ i, Agrees img (f' i) (r i)) (start n : Nat) :
    Runs img (firstHit f start n) (firstHit f' start n) := by
  induction n generalizing start with
  | zero => exact runs_pure none
  | succ n ih =>
    apply runs_bind (h start) (ha start)
    intro hit _
    cases hit with
    | some a => exact runs_pure (some a)
    | none => exact ih (start + 1)

theorem runs_firstSome {m n : MachineM (Option α)} {m' n' : SessionM (Option α)}
    {r : Except Fault (Option α)} (h : Runs img m m') (ha : Agrees img m' r) (hn : Runs img n n') :
    Runs img (firstSome m n) (firstSome m' n') := by
  apply runs_bind h ha
  intro hit _
  cases hit with
  | some a => exact runs_pure (some a)
  | none => exact hn

theorem runs_searchIn {m : MachineM (Option α)} {m' : SessionM (Option α)}
    {r : Except Fault (Option α)} {f : α → MachineM (Option β)} {f' : α → SessionM (Option β)}
    (h : Runs img m m') (ha : Agrees img m' r) (hf : ∀ a, Runs img (f a) (f' a)) :
    Runs img (searchIn m f) (searchIn m' f') := by
  apply runs_bind h ha
  intro place _
  cases place with
  | some a => exact hf a
  | none => exact runs_pure none

theorem runs_list {question : Nat → MachineM α} {question' : Nat → SessionM α}
    {r : Nat → Except Fault α} (h : ∀ i, Runs img (question i) (question' i))
    (ha : ∀ i, Agrees img (question' i) (r i)) (start n : Nat) :
    Runs img (list question start n) (SessionM.list question' start n) := by
  suffices hfrom : ∀ (found : List α) start s, s.Sound img →
      (listingFrom (fun i => (question i).run) found start n).run s =
        .ok ((listingFrom (fun i => (question' i).run) found start n).run s) by
    intro s hs
    change ((listingFrom (fun i => (question i).run) [] start n).run s >>= fun r =>
      pure (Except.ok r.1, r.2) : Op (Except Fault (Listing α) × Session)) = _
    rw [hfrom [] start s hs]
    rfl
  induction n with
  | zero => exact fun found start s hs => rfl
  | succ n ih =>
    intro found start s hs
    obtain ⟨-, hs'⟩ := ha start s hs
    dsimp only [listingFrom]
    rw [StateT.run_bind, StateT.run_bind]
    rw [h start s hs]
    generalize (question' start).run.run s = outcome at hs'
    obtain ⟨result, next⟩ := outcome
    cases result with
    | error fault => rfl
    | ok a => exact ih (a :: found) (start + 1) next hs'

/-! ## The search from both ends -/

/-- Two indices a step are visited in the order of `twoEnded`; both lie below the count. -/
theorem runs_bothEnds {visit : Nat → MachineM (Option β)} {visit' : Nat → SessionM (Option β)}
    {r : Nat → Except Fault (Option β)} (h : ∀ j, Runs img (visit j) (visit' j))
    (ha : ∀ j, Agrees img (visit' j) (r j)) (n low steps : Nat)
    (hsteps : low + steps = n / 2 + n % 2) :
    Runs img (firstHit (bothEnds visit n) low steps)
      (firstHit (fun k => visit' (twoEnded n k)) (2 * low) (n - 2 * low)) := by
  -- one step of the machine is two tries of the session, or one for the middle index
  induction steps generalizing low with
  | zero =>
    rw [show n - 2 * low = 0 by omega]
    exact runs_pure none
  | succ steps ih =>
    have hlow : twoEnded n (2 * low) = low := by
      unfold twoEnded
      split <;> omega
    have hhigh : twoEnded n (2 * low + 1) = n - 1 - low := by
      unfold twoEnded
      split <;> omega
    have hrest := ih (low + 1) (by omega)
    rw [firstHit, bothEnds, bind_assoc]
    refine runs_step (sub_ok (by omega)) ?_
    rw [bind_assoc]
    refine runs_step (sub_ok (by omega)) ?_
    rw [bind_assoc]
    refine runs_step (index_ok (by omega)) ?_
    rw [bind_assoc]
    by_cases hmiddle : n - 1 - low = low
    · rw [show n - 2 * low = 0 + 1 by omega, firstHit, hlow]
      apply runs_bind (h low) (ha low)
      intro hit _
      cases hit with
      | some b => exact runs_pure (some b)
      | none =>
        rw [show n - 2 * (low + 1) = 0 by omega] at hrest
        simp only [hmiddle, ne_eq, not_true_eq_false, ↓reduceIte]
        exact hrest
    · rw [show n - 2 * low = n - 2 * (low + 1) + 1 + 1 by omega, firstHit, hlow]
      apply runs_bind (h low) (ha low)
      intro hit _
      cases hit with
      | some b => exact runs_pure (some b)
      | none =>
        dsimp only
        rw [firstHit, hhigh, if_pos hmiddle, bind_assoc]
        refine runs_step (index_ok (by omega)) ?_
        apply runs_bind (h _) (ha _)
        intro hit _
        cases hit with
        | some b => exact runs_pure (some b)
        | none => exact hrest

/-! ## The questions -/

section Questions

variable (hw : img.bytes.size < wordLimit)
include hw

theorem sectionAt_runs (i : Nat) : Runs img (sectionAt img i) (SessionM.sectionAt img i) := by
  refine runs_once (.sectionEntry i) ?_
  rw [sectionOffset_eq]
  apply runs_bind (runs_offset _) (agrees_lift _)
  intro offset _
  apply runs_bind (runs_report _) (agrees_report _)
  intro _ _
  exact runs_lift (decodeAt_gives hw _ _)

theorem segmentAt_runs (i : Nat) : Runs img (segmentAt img i) (SessionM.segmentAt img i) := by
  refine runs_once (.segmentEntry i) ?_
  rw [segmentOffset_eq]
  apply runs_bind (runs_offset _) (agrees_lift _)
  intro offset _
  apply runs_bind (runs_report _) (agrees_report _)
  intro _ _
  exact runs_lift (decodeAt_gives hw _ _)

theorem symbolAt_runs (i j : Nat) : Runs img (symbolAt img i j) (SessionM.symbolAt img i j) := by
  apply runs_bind (sectionAt_runs hw i) (SessionM.sectionAt_agrees img i)
  intro s hs
  apply runs_bind (runs_once (.symbolCount i) (runs_lift (symbolCount_gives hw img.format s)))
    (SessionM.symbolCount_agrees hs)
  intro count hcount
  -- `hcount` is about the section's own entry, so symbol `j` lies within the file
  refine runs_once (.symbol i j) ?_
  apply runs_bind (runs_lift (symbolOffset_gives hw hcount j)) (agrees_lift _)
  intro offset _
  apply runs_bind (runs_report _) (agrees_report _)
  intro _ _
  exact runs_lift (decodeAt_gives hw _ _)

theorem stringTable_runs (i : Nat) :
    Runs img (stringTable img i) (SessionM.stringTable img i) := by
  apply runs_bind (sectionAt_runs hw i) (SessionM.sectionAt_agrees img i)
  intro s _
  refine runs_once (.stringTable i) ?_
  exact runs_bind (runs_lift (data_gives hw _ s)) (agrees_lift _) fun held _ => runs_pure _

theorem nameTable_runs : Runs img (nameTable img) (SessionM.nameTable img) := by
  unfold nameTable SessionM.nameTable
  split
  · exact runs_pure none
  · exact runs_bind (stringTable_runs hw _) (SessionM.stringTable_agrees img _) fun table _ =>
      runs_pure (some table)

theorem sectionName_runs (i : Nat) :
    Runs img (sectionName img i) (SessionM.sectionName img i) := by
  apply runs_bind (sectionAt_runs hw i) (SessionM.sectionAt_agrees img i)
  intro s _
  refine runs_once (.sectionName i) ?_
  apply runs_bind (nameTable_runs hw) (SessionM.nameTable_agrees img)
  intro table _
  cases table with
  | some table => exact runs_lift (lookup_gives table s.name)
  | none => exact runs_pure ""

theorem symbolName_runs (i j : Nat) :
    Runs img (symbolName img i j) (SessionM.symbolName img i j) := by
  apply runs_bind (sectionAt_runs hw i) (SessionM.sectionAt_agrees img i)
  intro s _
  apply runs_bind (symbolAt_runs hw i j) (SessionM.symbolAt_agrees img i j)
  intro symbol _
  refine runs_once (.symbolName i j) ?_
  apply runs_bind (stringTable_runs hw _) (SessionM.stringTable_agrees img _)
  intro table _
  exact runs_lift (lookup_gives table symbol.name)

theorem sectionNamed_runs (name : String) :
    Runs img (sectionNamed img name) (SessionM.sectionNamed img name) := by
  refine runs_firstHit (fun i => ?_)
    (fun i => agrees_bind (SessionM.sectionAt_agrees img i) fun s _ =>
      agrees_bind (SessionM.sectionName_agrees img i) fun found _ => agrees_pure _) _ _
  apply runs_bind (sectionAt_runs hw i) (SessionM.sectionAt_agrees img i)
  intro s _
  apply runs_bind (sectionName_runs hw i) (SessionM.sectionName_agrees img i)
  intro found _
  exact runs_pure _

theorem stringsNamed_runs (name : String) :
    Runs img (stringsNamed img name) (SessionM.stringsNamed img name) := by
  apply runs_bind (sectionNamed_runs hw name) (SessionM.sectionNamed_agrees img name)
  intro hit _
  cases hit with
  | some hit =>
    exact runs_bind (stringTable_runs hw _) (SessionM.stringTable_agrees img _) fun table _ =>
      runs_pure (some table)
  | none => exact runs_pure none

theorem indexOf_runs (w : WellKnown) : Runs img (indexOf img w) (SessionM.indexOf img w) := by
  refine runs_once (.indexOf w) (runs_firstHit (fun i => ?_) (SessionM.typeTest_agrees img w) _ _)
  apply runs_bind (sectionAt_runs hw i) (SessionM.sectionAt_agrees img i)
  intro s _
  by_cases htype : s.type = w.type
  · simp only [htype, ↓reduceIte]
    exact runs_bind (runs_report _) (agrees_report _) fun _ _ => runs_pure (some i)
  · simp only [htype, ↓reduceIte]
    exact runs_pure none

theorem wellKnown_runs (w : WellKnown) :
    Runs img (wellKnown img w) (SessionM.wellKnown img w) := by
  apply runs_bind (indexOf_runs hw w) (SessionM.indexOf_agrees img w)
  intro found _
  cases found with
  | some i =>
    exact runs_bind (sectionAt_runs hw i) (SessionM.sectionAt_agrees img i) fun s _ => runs_pure _
  | none => exact runs_pure none

theorem interpreterPath_runs :
    Runs img (interpreterPath img) (SessionM.interpreterPath img) := by
  refine runs_firstHit (fun i => ?_)
    (fun i => agrees_bind (SessionM.segmentAt_agrees img i) fun p _ => agrees_lift _) _ _
  apply runs_bind (segmentAt_runs hw i) (SessionM.segmentAt_agrees img i)
  intro p _
  exact runs_lift (interpreter_gives hw _ p)

theorem searchSymbols_runs {search : SectionHit → MachineM (Option SymbolHit)}
    {search' : SectionHit → SessionM (Option SymbolHit)}
    {r : SectionHit → Except Fault (Option SymbolHit)}
    (h : ∀ table, Runs img (search table) (search' table))
    (ha : ∀ table, Agrees img (search' table) (r table)) :
    Runs img (searchSymbols img search) (SessionM.searchSymbols img search') := by
  have hplace : ∀ w, Runs img (searchIn (wellKnown img w) search)
      (searchIn (SessionM.wellKnown img w) search') := fun w =>
    runs_searchIn (wellKnown_runs hw w) (SessionM.wellKnown_agrees img w) h
  exact runs_firstSome (hplace _) (agrees_searchIn (SessionM.wellKnown_agrees img _) ha) (hplace _)

theorem symbolNamed_runs (name : String) :
    Runs img (symbolNamed img name) (SessionM.symbolNamed img name) := by
  refine searchSymbols_runs hw (fun table => ?_) fun table =>
    agrees_firstHit (fun _ => SessionM.nameTest_agrees img name table.index _) 0 _
  refine runs_step (entryCount_ok table.entry) ?_
  refine runs_bothEnds (fun j => ?_) (SessionM.nameTest_agrees img name table.index)
    table.entry.entryCount 0 _ (Nat.zero_add _)
  apply runs_bind (symbolAt_runs hw _ j) (SessionM.symbolAt_agrees img _ j)
  intro symbol _
  apply runs_bind (symbolName_runs hw _ j) (SessionM.symbolName_agrees img _ j)
  intro found _
  exact runs_pure _

theorem symbolContaining_runs (address : Nat) :
    Runs img (symbolContaining img address) (SessionM.symbolContaining img address) := by
  refine searchSymbols_runs hw (fun table => ?_) fun table =>
    agrees_firstHit (SessionM.rangeTest_agrees img address table.index) 0 _
  refine runs_step (entryCount_ok table.entry) ?_
  refine runs_firstHit (fun j => ?_) (SessionM.rangeTest_agrees img address table.index) _ _
  apply runs_bind (symbolAt_runs hw _ j) (SessionM.symbolAt_agrees img _ j)
  intro symbol _
  exact runs_step (contains_ok symbol address) (runs_pure _)

theorem ask_runs (q : Query) : Runs img (ask img q) (SessionM.ask img q) := by
  cases q with
  | sectionEntry i =>
    exact runs_bind (sectionAt_runs hw i) (SessionM.sectionAt_agrees img i) fun _ _ => runs_pure _
  | sectionName i =>
    exact runs_bind (sectionName_runs hw i) (SessionM.sectionName_agrees img i) fun _ _ =>
      runs_pure _
  | sectionData i =>
    apply runs_bind (sectionAt_runs hw i) (SessionM.sectionAt_agrees img i)
    intro s _
    exact runs_bind (runs_lift (data_gives hw _ s)) (agrees_lift _) fun _ _ => runs_pure _
  | sectionStrings i =>
    exact runs_bind (stringTable_runs hw i) (SessionM.stringTable_agrees img i) fun _ _ =>
      runs_pure _
  | sectionString i offset =>
    apply runs_bind (stringTable_runs hw i) (SessionM.stringTable_agrees img i)
    intro table _
    exact runs_bind (runs_lift (lookup_gives table offset)) (agrees_lift _) fun _ _ => runs_pure _
  | entryCount i =>
    apply runs_bind (sectionAt_runs hw i) (SessionM.sectionAt_agrees img i)
    intro s _
    exact runs_step (entryCount_ok s) (runs_pure _)
  | symbol i j =>
    exact runs_bind (symbolAt_runs hw i j) (SessionM.symbolAt_agrees img i j) fun _ _ => runs_pure _
  | symbolName i j =>
    exact runs_bind (symbolName_runs hw i j) (SessionM.symbolName_agrees img i j) fun _ _ =>
      runs_pure _
  | symbolContains i j addresses =>
    apply runs_bind (symbolAt_runs hw i j) (SessionM.symbolAt_agrees img i j)
    intro symbol _
    exact runs_step (mapM_contains_ok symbol addresses) (runs_pure _)
  | symbols i =>
    apply runs_bind (sectionAt_runs hw i) (SessionM.sectionAt_agrees img i)
    intro s _
    refine runs_step (entryCount_ok s) ?_
    have hagrees := agrees_list (SessionM.symbolAt_agrees img i) 0 s.entryCount
    exact runs_bind (runs_list (symbolAt_runs hw i) (SessionM.symbolAt_agrees img i) _ _) hagrees
      fun _ _ => runs_pure _
  | symbolNames i =>
    apply runs_bind (sectionAt_runs hw i) (SessionM.sectionAt_agrees img i)
    intro s _
    refine runs_step (entryCount_ok s) ?_
    have hagrees := agrees_list (SessionM.symbolName_agrees img i) 0 s.entryCount
    exact runs_bind (runs_list (symbolName_runs hw i) (SessionM.symbolName_agrees img i) _ _)
      hagrees fun _ _ => runs_pure _
  | sections =>
    have hagrees := agrees_list (SessionM.sectionAt_agrees img) 0 img.header.sectionCount
    exact runs_bind (runs_list (sectionAt_runs hw) (SessionM.sectionAt_agrees img) _ _) hagrees
      fun _ _ => runs_pure _
  | sectionNames =>
    have hagrees := agrees_list (SessionM.sectionName_agrees img) 0 img.header.sectionCount
    exact runs_bind (runs_list (sectionName_runs hw) (SessionM.sectionName_agrees img) _ _) hagrees
      fun _ _ => runs_pure _
  | segment i =>
    exact runs_bind (segmentAt_runs hw i) (SessionM.segmentAt_agrees img i) fun _ _ => runs_pure _
  | segmentData i =>
    apply runs_bind (segmentAt_runs hw i) (SessionM.segmentAt_agrees img i)
    intro p _
    exact runs_bind (runs_lift (slice_gives hw _ _ _)) (agrees_lift _) fun _ _ => runs_pure _
  | segmentInterpreter i =>
    apply runs_bind (segmentAt_runs hw i) (SessionM.segmentAt_agrees img i)
    intro p _
    exact runs_bind (runs_lift (interpreter_gives hw _ p)) (agrees_lift _) fun _ _ => runs_pure _
  | segments =>
    have hagrees := agrees_list (SessionM.segmentAt_agrees img) 0 img.header.segmentCount
    exact runs_bind (runs_list (segmentAt_runs hw) (SessionM.segmentAt_agrees img) _ _) hagrees
      fun _ _ => runs_pure _
  | nameTable =>
    exact runs_bind (nameTable_runs hw) (SessionM.nameTable_agrees img) fun _ _ => runs_pure _
  | stringsNamed name =>
    exact runs_bind (stringsNamed_runs hw name) (SessionM.stringsNamed_agrees img name) fun _ _ =>
      runs_pure _
  | sectionNamed name =>
    exact runs_bind (sectionNamed_runs hw name) (SessionM.sectionNamed_agrees img name) fun _ _ =>
      runs_pure _
  | wellKnown w =>
    exact runs_bind (wellKnown_runs hw w) (SessionM.wellKnown_agrees img w) fun _ _ => runs_pure _
  | interpreterPath =>
    exact runs_bind (interpreterPath_runs hw) (SessionM.interpreterPath_agrees img) fun _ _ =>
      runs_pure _
  | symbolNamed name =>
    exact runs_bind (symbolNamed_runs hw name) (SessionM.symbolNamed_agrees img name) fun _ _ =>
      runs_pure _
  | symbolContaining address =>
    exact runs_bind (symbolContaining_runs hw address)
      (SessionM.symbolContaining_agrees img address) fun _ _ => runs_pure _

/-- A run of questions; faults on the way end neither the session nor its soundness. -/
theorem askAll_runs (queries : List Query) (s : Session) (hs : s.Sound img) :
    (askAll img queries).run s = .ok ((SessionM.askAll img queries).run s) := by
  induction queries generalizing s with
  | nil => rfl
  | cons q rest ih =>
    obtain ⟨-, hnext⟩ := SessionM.ask_agrees img q s hs
    rw [askAll, StateT.run_bind, ask_runs hw q s hs]
    change ((askAll img rest).run _ >>= fun r => pure (_ :: r.1, r.2) :
      Op (List (Except Fault Answer) × Session)) = _
    rw [ih _ hnext]
    rfl

end Questions

/-- On a machine with 64-bit words every question about every file of up to 2⁶³ bytes is answered
or ends in a fault: nothing is lost in a sum or product, no difference falls below zero, no quotient
is by zero, and all parts and indices lie within their bounds. -/
theorem answers_never_trap (bytes : ByteArray) (queries : List Query) (h : bytes.size < 2 ^ 63) :
    answers bytes queries = .ok (Session.answers bytes queries) := by
  have hw : bytes.size < wordLimit := Nat.lt_trans h (by decide)
  unfold answers
  rw [parse_gives hw]
  unfold Session.answers Image.ofBytes
  cases Header.parse bytes with
  | error fault => rfl
  | ok header =>
    have hs := Session.start_sound ⟨bytes, header⟩
    change ((askAll ⟨bytes, header⟩ queries).run _ >>= fun r => pure (Except.ok r.1) : Op _) = _
    rw [askAll_runs hw queries _ hs]
    rfl

/-- An image whose section 1 makes the whole file a table of one-byte symbols, so that the last ones
reach beyond the end. -/
def overlappingSymbols : ByteArray :=
  ⟨(twoSections.encode ++ List.replicate 40 0 ++
    Record.encode ⟨.elf32, .lsb⟩
      (⟨0, SectionEntry.symtab, 0, 0, 0, 132, 1, 0, 0, 1⟩ : SectionEntry)).toArray⟩

theorem answers_never_trap_overlapping :
    answers overlappingSymbols [.symbolNamed "main", .symbol 1 131, .symbols 1] =
      .ok (Session.answers overlappingSymbols [.symbolNamed "main", .symbol 1 131, .symbols 1]) :=
  answers_never_trap overlappingSymbols _ (by cbv)

end ElfInspect.Machine
