import ElfInspect.Proofs.Questions
import ElfInspect.Proofs.Slots
import ElfInspect.Proofs.Walks

/-!
The log of a session tells its visits to slots. `Replays` follows the set of the filled slots
through a list of visits, `Visit.event?` is what a visit leaves in the log, `Visit.Leaves` in words,
and `Observed.Told` says of a question that its visits and the log go together. An entry is
announced whenever its slot is found empty, so never again once it is read, and each time anew as
long as it cannot be.
-/

namespace ElfInspect

/-! ## Visits and what they leave in the log -/

def Visit.slot : Visit → Slot
  | .held slot => slot
  | .opened slot => slot
  | .made slot => slot
  | .failed slot _ => slot

/-- The announcement of an entry that is about to be read: of one that its table has, and whose
place in the file is a file offset. -/
def announced (base entrySize count index : Nat) (e : Nat → Event) : Option Event :=
  let place := base + index * entrySize
  if index < count ∧ place < offsetLimit then some (e place) else none

theorem announced_eq (base entrySize count index : Nat) (e : Nat → Event) :
    announced base entrySize count index e =
      (if index < count then entryOffset base entrySize count index
        else .error (.outOfRange index count)).toOption.map e := by
  unfold announced entryOffset
  by_cases hindex : index < count
  · by_cases hplace : base + index * entrySize < offsetLimit
    · rw [if_pos ⟨hindex, hplace⟩, if_pos hindex, if_pos hplace]
      rfl
    · rw [if_neg (mt And.right hplace), if_pos hindex, if_neg hplace]
      rfl
  · rw [if_neg (mt And.left hindex), if_neg hindex]
    rfl

def Slot.announcement? (img : Image) : Slot → Option Event
  | .sectionEntry i =>
    let h := img.header
    announced h.sectionTable h.sectionEntrySize h.sectionCount i (.resolvingSection i)
  | .segmentEntry i =>
    let h := img.header
    announced h.segmentTable h.segmentEntrySize h.segmentCount i (.resolvingSegment i)
  | .symbol i j =>
    match img.sectionAt i with
    | .ok s => announced s.offset s.entrySize s.entryCount j (.resolvingSymbol i j)
    | .error _ => none
  | _ => none

/-- The report of a search by type that has found a section. -/
def WellKnown.finding? (w : WellKnown) : Except Fault (Option Nat) → Option Event
  | .ok (some k) => some (.foundType w.type k)
  | .ok none => none
  | .error _ => none

/-- What is reported of a slot once its producer has come to its end. -/
def Slot.finding? (img : Image) : Slot → Option Event
  | .indexOf w => w.finding? (img.indexOfType w.type)
  | _ => none

/-- What a visit leaves in the log. -/
def Visit.event? (img : Image) : Visit → Option Event
  | .opened slot => slot.announcement? img
  | .made slot => slot.finding? img
  | .held _ => none
  | .failed _ _ => none

/-- The slot of the entry whose reading an event announces. -/
def Event.slot? : Event → Option Slot
  | .resolvingSection i _ => some (.sectionEntry i)
  | .resolvingSegment i _ => some (.segmentEntry i)
  | .resolvingSymbol i j _ => some (.symbol i j)
  | _ => none

/-- The section type that a search reports to have found. -/
def Event.found? : Event → Option Nat
  | .foundType type _ => some type
  | _ => none

/-- How far a slot is from the bytes. A producer visits only slots that are nearer. -/
def Slot.rank : Slot → Nat
  | .sectionEntry _ => 0
  | .segmentEntry _ => 0
  | .stringTable _ => 1
  | .symbolCount _ => 1
  | .symbol _ _ => 1
  | .indexOf _ => 1
  | .sectionName _ => 2
  | .symbolName _ _ => 2

/-- The slot whose producer came to its end. -/
def Visit.made? : Visit → Option Slot
  | .made slot => some slot
  | _ => none

/-- The filled slots after a visit. -/
def Visit.fill (filled : Set Slot) : Visit → Set Slot
  | .made slot => insert slot filled
  | _ => filled

theorem Visit.mem_fill_iff {filled : Set Slot} {v : Visit} {slot : Slot} :
    slot ∈ v.fill filled ↔ slot ∈ filled ∨ v = .made slot := by
  cases v <;> simp [fill, or_comm, eq_comm]

/-- The visits lead from one set of filled slots to another. On each, the slot is found filled if
and only if it is. -/
inductive Replays : Set Slot → List Visit → Set Slot → Prop
  | nil (filled : Set Slot) : Replays filled [] filled
  | cons {filled last : Set Slot} {v : Visit} {later : List Visit}
    (hv : v = .held v.slot ↔ v.slot ∈ filled) (h : Replays (v.fill filled) later last) :
    Replays filled (v :: later) last

namespace Replays

variable {filled middle last : Set Slot} {visits later : List Visit}

theorem append (h : Replays filled visits middle) (h' : Replays middle later last) :
    Replays filled (visits ++ later) last := by
  induction h with
  | nil => exact h'
  | cons hv _ ih => exact .cons hv (ih h')

/-- In the end the slots are filled that were so before, and those that were made. -/
theorem mem_last_iff (h : Replays filled visits last) (slot : Slot) :
    slot ∈ last ↔ slot ∈ filled ∨ .made slot ∈ visits := by
  induction h with
  | nil => simp
  | cons hv _ ih => rw [ih, Visit.mem_fill_iff, List.mem_cons, or_assoc, eq_comm]

/-- A slot is found filled exactly where it was so before or has been made since. -/
theorem held_iff {before : List Visit} {v : Visit}
    (h : Replays filled (before ++ v :: later) last) :
    v = .held v.slot ↔ v.slot ∈ filled ∨ .made v.slot ∈ before := by
  induction before generalizing filled with
  | nil =>
    cases h with
    | cons hv _ => simpa using hv
  | cons first before ih =>
    cases h with
    | cons _ hrest =>
      rw [ih hrest, Visit.mem_fill_iff, List.mem_cons, or_assoc, eq_comm (a := first)]

/-- Once a slot has been made it is found filled. -/
theorem held_after_made {before : List Visit} {slot : Slot} {v : Visit}
    (h : Replays filled (before ++ .made slot :: later) last) (hv : v ∈ later)
    (hslot : v.slot = slot) : v = .held slot := by
  obtain ⟨between, rest, rfl⟩ := List.append_of_mem hv
  have hsplit : Replays filled ((before ++ .made slot :: between) ++ v :: rest) last := by
    simpa using h
  rw [← hslot]
  exact hsplit.held_iff.2 (.inr (by simp [hslot]))

/-- A slot that is found filled and was not so before has been made. -/
theorem made_of_held {slot : Slot} (h : Replays filled visits last) (hmem : .held slot ∈ visits)
    (hempty : slot ∉ filled) : .made slot ∈ visits := by
  obtain ⟨before, later, rfl⟩ := List.append_of_mem hmem
  exact List.mem_append_left _ ((h.held_iff.1 rfl).resolve_left hempty)

/-- No slot is made that is filled, and none is made twice. -/
theorem made_nodup (h : Replays filled visits last) :
    (visits.filterMap Visit.made?).Nodup ∧
      ∀ slot ∈ visits.filterMap Visit.made?, slot ∉ filled := by
  induction h with
  | nil => simp
  | @cons filled last v later hv _ ih =>
    obtain ⟨hnodup, hfresh⟩ := ih
    cases v with
    | held slot | opened slot | failed slot fault => exact ⟨hnodup, hfresh⟩
    | made slot =>
      have hslot : slot ∉ filled := fun hmem => by simpa [Visit.slot] using hv.2 hmem
      refine ⟨List.nodup_cons.2 ⟨fun hmem => ?_, hnodup⟩, fun other hmem => ?_⟩
      · exact hfresh slot hmem (Set.mem_insert slot filled)
      · rcases List.mem_cons.1 hmem with rfl | hmem
        · exact hslot
        · exact fun hother => hfresh other hmem (Set.mem_insert_of_mem slot hother)

end Replays

/-! ## Stretches of a session -/

/-- The slots that are filled. -/
def Session.filled (s : Session) : Set Slot := {slot | (s.slots.get? slot).isSome}

/-- A stretch of a session from `s` to `next`: its visits, which stay below a rank, and the events
that it leaves in the log. -/
structure Session.Passes (img : Image) (rank : Nat) (s : Session) (visits : List Visit)
    (events : List Event) (next : Session) : Prop where
  sound : next.Sound img
  replays : Replays s.filled visits next.filled
  below : ∀ v ∈ visits, v.slot.rank < rank
  log : next.log.toList = s.log.toList ++ events

variable {img : Image} {α β : Type} {s next : Session}

namespace Session

theorem mem_filled_iff {slot : Slot} :
    slot ∈ s.filled ↔ ∃ content, s.slots.get? slot = some content :=
  Option.isSome_iff_exists

theorem not_mem_filled_iff {slot : Slot} : slot ∉ s.filled ↔ s.slots.get? slot = none := by
  rw [mem_filled_iff, Option.eq_none_iff_forall_ne_some, not_exists]

theorem filled_insert (slot : Slot) (content : slot.Content) :
    filled { s with slots := s.slots.insert slot content } = insert slot s.filled := by
  ext other
  rw [Set.mem_insert_iff]
  by_cases heq : other = slot
  · subst heq
    simp [filled]
  · simp only [heq, false_or]
    simp only [filled, Set.mem_ofPred_eq, get?_insert_of_ne content (Ne.symm heq)]

namespace Passes

variable {rank : Nat} {visits later : List Visit} {events : List Event}

theorem refl (hs : s.Sound img) : s.Passes img rank [] [] s where
  sound := hs
  replays := .nil _
  below := by rintro _ ⟨⟩
  log := (List.append_nil _).symm

theorem trans {last : Session} {more : List Event} (h : s.Passes img rank visits events next)
    (h' : next.Passes img rank later more last) :
    s.Passes img rank (visits ++ later) (events ++ more) last where
  sound := h'.sound
  replays := h.replays.append h'.replays
  below v hv := (List.mem_append.1 hv).elim (h.below v) (h'.below v)
  log := by rw [h'.log, h.log, List.append_assoc]

theorem mono {rank' : Nat} (h : s.Passes img rank visits events next) (hle : rank ≤ rank') :
    s.Passes img rank' visits events next :=
  { h with below := fun v hv => Nat.lt_of_lt_of_le (h.below v hv) hle }

/-- A slot that is not below the rank is not made. -/
theorem empty {slot : Slot} (h : s.Passes img slot.rank visits events next)
    (hempty : s.slots.get? slot = none) : next.slots.get? slot = none := by
  rw [← not_mem_filled_iff] at hempty ⊢
  rw [h.replays.mem_last_iff]
  rintro (hmem | hmade)
  · exact hempty hmem
  · exact absurd (h.below _ hmade) (Nat.lt_irrefl _)

/-- A producer's stretch, and around it the visits in which its slot is opened and closed. -/
theorem around {slot : Slot} {last : Session} {closing : Visit}
    (h : s.Passes img slot.rank visits events next) (hopened : slot ∉ s.filled)
    (hslot : closing.slot = slot) (hclosing : closing ≠ .held slot)
    (hfilled : closing.fill next.filled = last.filled) (hlast : last.Sound img)
    (hlog : last.log = next.log) :
    s.Passes img (slot.rank + 1) (.opened slot :: (visits ++ [closing])) events last := by
  have hempty : slot ∉ next.filled := by
    rw [not_mem_filled_iff] at hopened ⊢
    exact h.empty hopened
  subst hslot
  constructor
  · exact hlast
  · refine .cons (by simpa [Visit.slot] using hopened) (h.replays.append ?_)
    rw [← hfilled]
    exact .cons (iff_of_false hclosing hempty) (.nil _)
  · intro v hv
    rcases List.mem_cons.1 hv with rfl | hv
    · exact Nat.lt_succ_self _
    · rcases List.mem_append.1 hv with hv | hv
      · exact Nat.lt_succ_of_lt (h.below v hv)
      · rw [List.mem_singleton.1 hv]
        exact Nat.lt_succ_self _
  · rw [hlog, h.log]

end Passes

end Session

/-! ## Questions that tell -/

theorem filterMap_event_cons (v : Visit) (visits : List Visit) :
    (v :: visits).filterMap (Visit.event? img) =
      (v.event? img).toList ++ visits.filterMap (Visit.event? img) := by
  cases h : v.event? img <;> simp [h]

namespace Observed

/-- A question whose visits tell what it leaves in the log. -/
def Told (img : Image) (rank : Nat) (w : Observed α) : Prop :=
  ∀ s : Session, s.Sound img → s.Passes img rank (w.visits s)
    ((w.visits s).filterMap (Visit.event? img)) (w.plain.run.run s).2

theorem Told.mono {w : Observed α} {rank rank' : Nat} (h : w.Told img rank) (hle : rank ≤ rank') :
    w.Told img rank' :=
  fun s hs => (h s hs).mono hle

theorem told_pure {rank : Nat} (a : α) : (pure a : Observed α).Told img rank :=
  fun _ hs => .refl hs

theorem told_lift {rank : Nat} (r : Except Fault α) : (liftM r : Observed α).Told img rank := by
  intro s hs
  cases r <;> exact .refl hs

theorem told_bind {rank : Nat} {m : Observed α} {f : α → Observed β} (hm : m.Told img rank)
    (hf : ∀ s : Session, s.Sound img → ∀ a, (m.plain.run.run s).1 = .ok a → (f a).Told img rank) :
    (m >>= f).Told img rank := by
  intro s hs
  have hfirst := hm s hs
  rcases bind_cases m f s with ⟨_, next, hend, hvisits, hrun⟩ | ⟨a, next, hend, hvisits, hrun⟩
  · rw [hend] at hfirst
    rw [hvisits, hrun]
    exact hfirst
  · have hsecond := hf s hs a (by rw [hend])
    rw [hend] at hfirst
    rw [hvisits, hrun, List.filterMap_append]
    exact hfirst.trans (hsecond next hfirst.sound)

/-- A question that starts with a smaller one, whose answer is the image's. -/
theorem told_after {rank : Nat} {m : Observed α} {r : Except Fault α} {f : α → Observed β}
    (hm : m.Told img rank) (hr : Agrees img m.plain r)
    (hf : ∀ a, r = .ok a → (f a).Told img rank) : (m >>= f).Told img rank :=
  told_bind hm fun s hs a ha => hf a ((hr s hs).1.symm.trans ha)

theorem told_list {rank : Nat} {question : Nat → Observed α}
    (h : ∀ i, (question i).Told img rank) (start n : Nat) :
    (list question start n).Told img rank := by
  suffices hfrom : ∀ (found : List α) (start : Nat) (s : Session), s.Sound img →
      s.Passes img rank (listVisits question start n s)
        ((listVisits question start n s).filterMap (Visit.event? img))
        ((listingFrom (fun i => (question i).plain.run) found start n).run s).2 from
    fun s hs => hfrom [] start s hs
  induction n with
  | zero => exact fun found start s hs => .refl hs
  | succ n ih =>
    intro found start s hs
    have hfirst := h start s hs
    dsimp only [listingFrom, listVisits]
    rw [StateT.run_bind, List.filterMap_append]
    generalize (question start).plain.run.run s = outcome at hfirst ⊢
    rcases outcome with ⟨fault | a, next⟩
    · exact hfirst.trans (.refl hfirst.sound)
    · exact hfirst.trans (ih (a :: found) (start + 1) next hfirst.sound)

/-- A producer that stays below its slot. The slot is announced before any visit, and what has been
found is reported after all. -/
def Tells (img : Image) (slot : Slot) (produce : Observed slot.Content) : Prop :=
  ∀ s : Session, s.Sound img →
    let outcome := produce.plain.run.run s
    s.Passes img slot.rank (produce.visits s)
      ((slot.announcement? img).toList ++ (produce.visits s).filterMap (Visit.event? img) ++
        ((ending slot outcome.1).event? img).toList) outcome.2

theorem told_once (slot : Slot) {produce : Observed slot.Content} {m : SessionM slot.Content}
    (hplain : (once slot produce).plain = m) (hagrees : Agrees img m (slot.value img))
    (hproduce : produce.Tells img slot) : (once slot produce).Told img (slot.rank + 1) := by
  intro s hs
  have hsound : ((once slot produce).plain.run.run s).2.Sound img := by
    rw [hplain]
    exact (hagrees s hs).2
  have hrun : (once slot produce).plain.run.run s = _ := SessionM.run_once slot produce.plain s
  rw [hrun] at hsound ⊢
  rw [once_visits]
  cases hold : s.slots.get? slot with
  | some content =>
    have hmem : slot ∈ s.filled := Session.mem_filled_iff.2 ⟨content, hold⟩
    refine ⟨hs, .cons (by simpa [Visit.slot] using hmem) (.nil _), ?_, (List.append_nil _).symm⟩
    simp [Visit.slot]
  | none =>
    have hopened : slot ∉ s.filled := Session.not_mem_filled_iff.2 hold
    have hinner := hproduce s hs
    -- The producer stays below the slot, so it has not filled it on its way.
    have hempty := hinner.empty hold
    simp only [hold] at hsound ⊢
    rw [filterMap_event_cons, List.filterMap_append, ← List.append_assoc,
      filterMap_event_cons _ [], List.filterMap_nil, List.append_nil]
    generalize produce.plain.run.run s = outcome at hinner hempty hsound ⊢
    rcases outcome with ⟨fault | made, next⟩
    · exact hinner.around hopened rfl nofun rfl hsound rfl
    · simp only [hempty] at hsound ⊢
      exact hinner.around hopened rfl nofun (Session.filled_insert slot made).symm hsound rfl

/-- A report, and then something that visits no slot. -/
theorem tells_report {slot : Slot} {e : Event} (r : Except Fault slot.Content)
    (hopened : slot.announcement? img = some e) (hmade : slot.finding? img = none) :
    Tells img slot (do
      report e
      r) := by
  intro s hs
  have hreport : s.Passes img slot.rank [] [e] { s with log := s.log.push e } :=
    { Session.Passes.refl hs with log := Array.toList_push }
  dsimp only
  rw [hopened]
  cases r with
  | error fault => exact hreport
  | ok content =>
    have hending : (Visit.made slot).event? img = none := hmade
    change s.Passes img slot.rank [] ([e] ++ ((Visit.made slot).event? img).toList) _
    rw [hending]
    exact hreport

/-- The producer of an entry: its place, a report and the bytes there. -/
theorem tells_entry {slot : Slot} {place : Except Fault Nat} {e : Nat → Event}
    {decode : Nat → Except Fault slot.Content}
    (hopened : slot.announcement? img = place.toOption.map e)
    (hmade : slot.finding? img = none) :
    Tells img slot (do
      let offset ← place
      report (e offset)
      decode offset) := by
  intro s hs
  cases place with
  | error fault =>
    dsimp only
    rw [hopened]
    exact .refl hs
  | ok offset => exact tells_report (decode offset) hopened hmade s hs

/-- A producer that is not announced, and that reports nothing. -/
theorem Told.tells {slot : Slot} {produce : Observed slot.Content}
    (h : produce.Told img slot.rank) (hopened : slot.announcement? img = none)
    (hmade : slot.finding? img = none) : produce.Tells img slot := by
  intro s hs
  have hending : (ending slot (produce.plain.run.run s).1).event? img = none := by
    cases (produce.plain.run.run s).1 with
    | error fault => rfl
    | ok content => exact hmade
  dsimp only
  rw [hopened, hending, Option.toList_none, List.nil_append, List.append_nil]
  exact h s hs

/-! ## What the questions tell -/

theorem sectionAt_told (img : Image) (i : Nat) : (sectionAt img i).Told img 1 :=
  told_once (.sectionEntry i) (sectionAt_plain img i) (SessionM.sectionAt_agrees img i)
    (tells_entry (announced_eq ..) rfl)

theorem segmentAt_told (img : Image) (i : Nat) : (segmentAt img i).Told img 1 :=
  told_once (.segmentEntry i) (segmentAt_plain img i) (SessionM.segmentAt_agrees img i)
    (tells_entry (announced_eq ..) rfl)

/-- The count of a symbol table, under the entry of its section. -/
theorem symbolCount_told {i : Nat} {t : SectionEntry} (ht : img.sectionAt i = .ok t) :
    (once (.symbolCount i) (t.symbolCount img.bytes)).Told img 2 := by
  refine told_once (.symbolCount i) rfl ?_ ((told_lift _).tells rfl rfl)
  rw [Slot.symbolCount_value ht]
  exact SessionM.symbolCount_agrees ht

theorem symbolAt_told (img : Image) (i j : Nat) : (symbolAt img i j).Told img 2 := by
  have hsection : (sectionAt img i).Told img 2 := (sectionAt_told img i).mono (by decide)
  refine told_after hsection (SessionM.sectionAt_agrees img i) fun t ht => ?_
  refine told_after (symbolCount_told ht) (SessionM.symbolCount_agrees ht) fun count hcount => ?_
  refine told_once (.symbol i j) rfl (SessionM.symbolSlot_agrees ht hcount j) (tells_entry ?_ rfl)
  obtain ⟨rfl, -⟩ := SectionEntry.symbolCount_ok hcount
  rw [Slot.announcement?, ht]
  exact announced_eq ..

theorem stringTable_told (img : Image) (i : Nat) : (stringTable img i).Told img 2 := by
  have hsection : (sectionAt img i).Told img 2 := (sectionAt_told img i).mono (by decide)
  refine told_after hsection (SessionM.sectionAt_agrees img i) fun t ht => ?_
  refine told_once (.stringTable i) rfl (SessionM.stringSlot_agrees ht) (Told.tells ?_ rfl rfl)
  exact told_bind (told_lift _) fun _ _ data _ => told_pure _

theorem nameTable_told (img : Image) : (nameTable img).Told img 2 := by
  unfold nameTable
  split
  · exact told_pure none
  · exact told_bind (stringTable_told img _) fun _ _ table _ => told_pure (some table)

theorem sectionName_told (img : Image) (i : Nat) : (sectionName img i).Told img 3 := by
  have hsection : (sectionAt img i).Told img 3 := (sectionAt_told img i).mono (by decide)
  refine told_after hsection (SessionM.sectionAt_agrees img i) fun t ht => ?_
  have hplain := nameSlot_plain img i t.name
  have hagrees := SessionM.nameSlot_agrees ht
  refine told_once (.sectionName i) hplain hagrees (Told.tells ?_ rfl rfl)
  refine told_bind (nameTable_told img) fun _ _ table _ => ?_
  cases table with
  | some table => exact told_lift _
  | none => exact told_pure ""

theorem symbolName_told (img : Image) (i j : Nat) : (symbolName img i j).Told img 3 := by
  have hsection : (sectionAt img i).Told img 3 := (sectionAt_told img i).mono (by decide)
  refine told_after hsection (SessionM.sectionAt_agrees img i) fun t ht => ?_
  have hsymbol : (symbolAt img i j).Told img 3 := (symbolAt_told img i j).mono (by decide)
  refine told_after hsymbol (SessionM.symbolAt_agrees img i j) fun symbol hvalue => ?_
  have hagrees := SessionM.symbolNameSlot_agrees ht hvalue
  refine told_once (.symbolName i j) rfl hagrees (Told.tells ?_ rfl rfl)
  exact told_bind (stringTable_told img _) fun _ _ table _ => told_lift _

/-- A search for a section type, which has not reported before what it finds. -/
def Finds (img : Image) (w : WellKnown) (m : Observed (Option Nat)) : Prop :=
  ∀ s : Session, s.Sound img → s.Passes img 1 (m.visits s)
    ((m.visits s).filterMap (Visit.event? img) ++ (w.finding? (m.plain.run.run s).1).toList)
    (m.plain.run.run s).2

theorem finds_bind {w : WellKnown} {m : Observed α} {f : α → Observed (Option Nat)}
    (hm : m.Told img 1) (hf : ∀ a, (f a).Finds img w) : (m >>= f).Finds img w := by
  intro s hs
  have hfirst := hm s hs
  rcases bind_cases m f s with ⟨_, next, hend, hvisits, hrun⟩ | ⟨a, next, hend, hvisits, hrun⟩
  · rw [hend] at hfirst
    rw [hvisits, hrun]
    simpa only [WellKnown.finding?, Option.toList_none, List.append_nil] using hfirst
  · rw [hend] at hfirst
    rw [hvisits, hrun, List.filterMap_append, List.append_assoc]
    exact hfirst.trans (hf a next hfirst.sound)

/-- One search, and if that finds nothing another. -/
theorem finds_orElse {w : WellKnown} {m : Observed (Option Nat)}
    {f : Option Nat → Observed (Option Nat)} (hm : m.Finds img w)
    (hsome : ∀ k, f (some k) = pure (some k)) (hnone : (f none).Finds img w) :
    (m >>= f).Finds img w := by
  intro s hs
  have hfirst := hm s hs
  rcases bind_cases m f s with ⟨_, next, hend, hvisits, hrun⟩ | ⟨hit, next, hend, hvisits, hrun⟩
  · rw [hend] at hfirst
    rw [hvisits, hrun]
    exact hfirst
  · rw [hend] at hfirst
    rw [hvisits, hrun]
    cases hit with
    | some k =>
      have hpure : m.visits s ++ (pure (some k) : Observed (Option Nat)).visits next = m.visits s :=
        List.append_nil _
      rw [hsome k, hpure]
      exact hfirst
    | none =>
      simp only [WellKnown.finding?, Option.toList_none, List.append_nil] at hfirst
      rw [List.filterMap_append, List.append_assoc]
      exact hfirst.trans (hnone next hfirst.sound)

theorem typeTest_finds (img : Image) (w : WellKnown) (i : Nat) :
    (typeTest img w i).Finds img w := by
  refine finds_bind (sectionAt_told img i) fun t => ?_
  by_cases htype : t.type = w.type
  · simp only [htype, ↓reduceIte]
    exact fun s hs => { Session.Passes.refl hs with log := Array.toList_push }
  · simp only [htype, ↓reduceIte]
    exact fun s hs => .refl hs

theorem firstHit_finds {w : WellKnown} {f : Nat → Observed (Option Nat)}
    (h : ∀ i, (f i).Finds img w) (start n : Nat) : (firstHit f start n).Finds img w := by
  induction n generalizing start with
  | zero => exact fun s hs => .refl hs
  | succ n ih => exact finds_orElse (h start) (fun _ => rfl) (ih (start + 1))

theorem indexOf_told (img : Image) (w : WellKnown) : (indexOf img w).Told img 2 := by
  refine told_once (.indexOf w) (indexOf_plain img w) (SessionM.indexOf_agrees img w) fun s hs => ?_
  have hfinds := firstHit_finds (typeTest_finds img w) 1 (img.header.sectionCount - 1) s hs
  have hvalue : ((firstHit (typeTest img w) 1 (img.header.sectionCount - 1)).plain.run.run s).1 =
      img.indexOfType w.type := by
    rw [firstHit_plain (typeTest_plain img w)]
    exact (agrees_firstHit (SessionM.typeTest_agrees img w) _ _ s hs).1
  have hending (r : Except Fault (Option Nat)) (hr : r = img.indexOfType w.type) :
      (ending (.indexOf w) r).event? img = w.finding? r := by
    cases r with
    | error fault => rfl
    | ok hit => exact congrArg w.finding? hr.symm
  dsimp only
  rw [hending _ hvalue]
  exact hfinds

theorem told_rule (img : Image) : Rule img (Told img 3) where
  pure := told_pure
  lift := told_lift
  bind hm hf := told_bind hm fun _ _ a _ => hf a
  list h := told_list h
  sectionAt i := (sectionAt_told img i).mono (by decide)
  segmentAt i := (segmentAt_told img i).mono (by decide)
  symbolAt i j := (symbolAt_told img i j).mono (by decide)
  stringTable i := (stringTable_told img i).mono (by decide)
  sectionName := sectionName_told img
  symbolName := symbolName_told img
  indexOf w := (indexOf_told img w).mono (by decide)

end Observed

/-! ## Whole sessions -/

/-- The visits of questions asked one after the other. -/
def Session.visitsFrom (img : Image) : List Query → Session → List Visit
  | [], _ => []
  | q :: rest, s =>
    (Observed.ask img q).visits s ++ visitsFrom img rest ((SessionM.ask img q).run.run s).2

/-- The visits over the run of the given questions. -/
def Session.visits (img : Image) (asked : List Query) : List Visit :=
  visitsFrom img asked (start img)

theorem Session.visitsFrom_passes (img : Image) (asked : List Query) (hs : s.Sound img) :
    s.Passes img 3 (visitsFrom img asked s) ((visitsFrom img asked s).filterMap (Visit.event? img))
      ((SessionM.askAll img asked).run s).2 := by
  induction asked generalizing s with
  | nil => exact .refl hs
  | cons q rest ih =>
    have hfirst := (Observed.told_rule img).ask q s hs
    rw [Observed.ask_plain] at hfirst
    rw [visitsFrom, List.filterMap_append]
    exact hfirst.trans (ih hfirst.sound)

theorem Session.visits_passes (img : Image) (asked : List Query) :
    (start img).Passes img 3 (visits img asked) ((visits img asked).filterMap (Visit.event? img))
      (after img asked) :=
  visitsFrom_passes img asked (start_sound img)

theorem Session.visits_replays (img : Image) (asked : List Query) :
    Replays ∅ (visits img asked) (after img asked).filled := by
  have hempty : (start img).filled = ∅ := by
    ext slot
    simp [filled, start]
  exact hempty ▸ (visits_passes img asked).replays

/-- The slots that are filled in the end have been made. -/
theorem Session.mem_filled_after_iff (img : Image) (asked : List Query) (slot : Slot) :
    slot ∈ (after img asked).filled ↔ .made slot ∈ visits img asked := by
  rw [(visits_replays img asked).mem_last_iff]
  simp

theorem Session.visitsFrom_faults (img : Image) (asked : List Query) (hs : s.Orderly img)
    {slot : Slot} {fault : Fault} (h : .failed slot fault ∈ visitsFrom img asked s) :
    slot.value img = .error fault := by
  induction asked generalizing s with
  | nil => cases h
  | cons q rest ih =>
    have hkeeps := Observed.ask_keeps img q s hs
    rcases List.mem_append.1 h with h | h
    · exact hkeeps.faults slot fault h
    · rw [← Observed.ask_plain] at h
      exact ih hkeeps.leads.orderly h

/-- A producer that fails once fails on every access, and in the same way. -/
theorem Session.visits_of_failed {asked : List Query} {slot : Slot} {fault : Fault}
    (h : .failed slot fault ∈ visits img asked) {v : Visit} (hv : v ∈ visits img asked)
    (hslot : v.slot = slot) : v = .opened slot ∨ v = .failed slot fault := by
  have hvalue := visitsFrom_faults img asked (start_orderly img) h
  have hnever : .made slot ∉ visits img asked := by
    rw [← mem_filled_after_iff, not_mem_filled_iff]
    exact (after_orderly img asked).empty_of_fault hvalue
  subst hslot
  cases v with
  | held slot => exact absurd ((visits_replays img asked).made_of_held hv (by simp)) hnever
  | opened slot => exact .inl rfl
  | made slot => exact absurd hv hnever
  | failed slot fault' =>
    have hvalue' := visitsFrom_faults img asked (start_orderly img) hv
    rw [Except.error.inj (hvalue'.symm.trans hvalue)]
    exact .inr rfl

/-! ## Events and their slots -/

theorem WellKnown.type_inj {w w' : WellKnown} (h : w.type = w'.type) : w = w' := by
  revert h
  cases w <;> cases w' <;> decide

theorem announced_eq_some {base entrySize count index : Nat} {e : Nat → Event} {event : Event}
    (h : announced base entrySize count index e = some event) :
    event = e (base + index * entrySize) := by
  unfold announced at h
  dsimp only at h
  split at h
  · exact (Option.some.inj h).symm
  · cases h

theorem Slot.announcement?_slot {slot : Slot} {e : Event} (h : slot.announcement? img = some e) :
    e.slot? = some slot ∧ e.found? = none := by
  cases slot with
  | sectionEntry i | segmentEntry i =>
    rw [announced_eq_some h]
    exact ⟨rfl, rfl⟩
  | symbol i j =>
    cases hs : img.sectionAt i with
    | error fault => simp [announcement?, hs] at h
    | ok s =>
      simp only [announcement?, hs] at h
      rw [announced_eq_some h]
      exact ⟨rfl, rfl⟩
  | _ => cases h

theorem Slot.finding?_eq_some {slot : Slot} {e : Event} (h : slot.finding? img = some e) :
    ∃ w k, slot = .indexOf w ∧ e = .foundType w.type k ∧
      img.indexOfType w.type = .ok (some k) := by
  cases slot with
  | indexOf w =>
    change w.finding? (img.indexOfType w.type) = some e at h
    cases hindex : img.indexOfType w.type with
    | error fault => simp [WellKnown.finding?, hindex] at h
    | ok hit =>
      cases hit with
      | none => simp [WellKnown.finding?, hindex] at h
      | some k =>
        simp only [WellKnown.finding?, hindex, Option.some.injEq] at h
        exact ⟨w, k, rfl, h.symm, hindex⟩
  | _ => cases h

/-! ## Words of the log -/

/-- The words before entry `index` of its kind is read at a place of the file. -/
def readingText (what : String) (index place : Nat) : String :=
  "resolving " ++ what ++ " " ++ toString index ++ " at 0x" ++
    String.ofList (Nat.toDigits 16 place)

/-- The words that a visit leaves in the log. An entry that its table has is announced when its slot
is opened, if its place is below `2 ^ 64`; a section found by its type is told at the end. -/
inductive Visit.Leaves (img : Image) : Visit → String → Prop
  | sectionEntry {i : Nat} (hi : i < img.header.sectionCount)
    (hplace : img.header.sectionTable + i * img.header.sectionEntrySize < 2 ^ 64) :
    Leaves img (.opened (.sectionEntry i)) (readingText "section header" i
      (img.header.sectionTable + i * img.header.sectionEntrySize))
  | segmentEntry {i : Nat} (hi : i < img.header.segmentCount)
    (hplace : img.header.segmentTable + i * img.header.segmentEntrySize < 2 ^ 64) :
    Leaves img (.opened (.segmentEntry i)) (readingText "program header" i
      (img.header.segmentTable + i * img.header.segmentEntrySize))
  | symbol {i j : Nat} {s : SectionEntry} (hs : img.sectionAt i = .ok s) (hj : s.HasEntry j)
    (hplace : s.offset + j * s.entrySize < 2 ^ 64) :
    Leaves img (.opened (.symbol i j)) (readingText "symbol" j (s.offset + j * s.entrySize))
  | found {w : WellKnown} {k : Nat} (h : img.indexOfType w.type = .ok (some k)) :
    Leaves img (.made (.indexOf w))
      ("section type " ++ toString w.type ++ " found at index " ++ toString k)

theorem Event.resolving_eq (what : String) (index place : Nat) :
    resolving what index place = readingText what index place := by
  have hmark : " at 0x" = " at " ++ "0x" := rfl
  rw [resolving, readingText, hmark, hex, hexDigits, ← String.append_assoc, ← String.append_assoc]

theorem Event.message_resolvingSection (i place : Nat) :
    (resolvingSection i place).message = readingText "section header" i place :=
  resolving_eq _ _ _

theorem Event.message_resolvingSegment (i place : Nat) :
    (resolvingSegment i place).message = readingText "program header" i place :=
  resolving_eq _ _ _

theorem Event.message_resolvingSymbol (i j place : Nat) :
    (resolvingSymbol i j place).message = readingText "symbol" j place :=
  resolving_eq _ _ _

theorem announced_message_iff {base entrySize count index : Nat} {e : Nat → Event}
    {text : String} :
    (announced base entrySize count index e).map Event.message = some text ↔
      index < count ∧ base + index * entrySize < 2 ^ 64 ∧
        (e (base + index * entrySize)).message = text := by
  simp only [announced, Option.map_eq_some_iff, Option.ite_none_right_eq_some, Option.some.injEq,
    and_assoc]
  simp [offsetLimit]

/-- The log has the words that the visits leave in it. -/
theorem Visit.leaves_iff {v : Visit} {text : String} :
    (v.event? img).map Event.message = some text ↔ v.Leaves img text := by
  constructor
  · intro h
    cases v with
    | opened slot =>
      cases slot with
      | sectionEntry i =>
        obtain ⟨hi, hplace, rfl⟩ := announced_message_iff.1 h
        rw [Event.message_resolvingSection]
        exact .sectionEntry hi hplace
      | segmentEntry i =>
        obtain ⟨hi, hplace, rfl⟩ := announced_message_iff.1 h
        rw [Event.message_resolvingSegment]
        exact .segmentEntry hi hplace
      | symbol i j =>
        -- the header of the table says where its symbols are
        cases hs : img.sectionAt i with
        | error fault => simp [event?, Slot.announcement?, hs] at h
        | ok s =>
          simp only [event?, Slot.announcement?, hs, announced_message_iff] at h
          obtain ⟨hj, hplace, rfl⟩ := h
          rw [Event.message_resolvingSymbol]
          exact .symbol hs (SectionEntry.hasEntry_iff.2 hj) hplace
      | _ => cases h
    | made slot =>
      obtain ⟨e, he, rfl⟩ := Option.map_eq_some_iff.1 h
      obtain ⟨w, k, rfl, rfl, hindex⟩ := Slot.finding?_eq_some he
      exact .found hindex
    | _ => cases h
  · intro h
    cases h with
    | @sectionEntry i hi hplace =>
      exact announced_message_iff.2 ⟨hi, hplace, Event.message_resolvingSection _ _⟩
    | @segmentEntry i hi hplace =>
      exact announced_message_iff.2 ⟨hi, hplace, Event.message_resolvingSegment _ _⟩
    | @symbol i j s hs hj hplace =>
      simp only [event?, Slot.announcement?, hs, announced_message_iff]
      exact ⟨SectionEntry.hasEntry_iff.1 hj, hplace, Event.message_resolvingSymbol _ _ _⟩
    | found hindex =>
      simp only [event?, Slot.finding?, hindex, WellKnown.finding?]
      rfl

/-- An event that announces an entry is left where its slot is opened. -/
theorem Visit.opened_of_event? {v : Visit} {e : Event} {slot : Slot} (h : v.event? img = some e)
    (hslot : e.slot? = some slot) : v = .opened slot := by
  cases v with
  | opened other =>
    rw [(Slot.announcement?_slot h).1] at hslot
    rw [Option.some.inj hslot]
  | made other =>
    obtain ⟨w, k, -, rfl, -⟩ := Slot.finding?_eq_some h
    cases hslot
  | _ => cases h

/-- What is reported as found is what the image finds. -/
theorem Visit.index_of_foundType {v : Visit} {type k : Nat}
    (h : v.event? img = some (.foundType type k)) : img.indexOfType type = .ok (some k) := by
  cases v with
  | opened slot => cases (Slot.announcement?_slot h).2
  | made slot =>
    obtain ⟨w, k', -, heq, hindex⟩ := Slot.finding?_eq_some h
    obtain ⟨rfl, rfl⟩ := Event.foundType.inj heq
    exact hindex
  | _ => cases h

/-- The type that a visit reports to have found is the one of the slot that is made. -/
theorem Visit.found?_eq (v : Visit) :
    (v.event? img).bind Event.found? =
      v.made?.bind fun slot => (slot.finding? img).bind Event.found? := by
  cases v with
  | opened slot =>
    change (slot.announcement? img).bind Event.found? = none
    cases h : slot.announcement? img with
    | none => rfl
    | some e => exact (Slot.announcement?_slot h).2
  | _ => rfl

/-- A type is reported as found at most once. -/
theorem found_nodup {filled last : Set Slot} {visits : List Visit}
    (h : Replays filled visits last) :
    ((visits.filterMap (Visit.event? img)).filterMap Event.found?).Nodup := by
  rw [List.filterMap_filterMap]
  simp only [Visit.found?_eq]
  rw [← List.filterMap_filterMap]
  refine List.Nodup.filterMap (fun slot other type hslot hother => ?_) h.made_nodup.1
  obtain ⟨e, he, htype⟩ := Option.bind_eq_some_iff.1 hslot
  obtain ⟨e', he', htype'⟩ := Option.bind_eq_some_iff.1 hother
  obtain ⟨w, k, rfl, rfl, -⟩ := Slot.finding?_eq_some he
  obtain ⟨w', k', rfl, rfl, -⟩ := Slot.finding?_eq_some he'
  exact congrArg Slot.indexOf (WellKnown.type_inj ((Option.some.inj htype).trans
    (Option.some.inj htype').symm))

/-- The log over a whole run of questions, in events and in words. An entry is announced whenever
its slot is found empty, which is until it has been made; one that cannot be made is announced on
every access. A type is reported as found at most once, with the first section that has it. -/
theorem Session.log_follows_visits (img : Image) (asked : List Query) :
    let visits := Session.visits img asked
    let log := (Session.after img asked).log.toList
    log = .parsedHeader img.header :: visits.filterMap (Visit.event? img) ∧
      (∀ (v : Visit) text, (v.event? img).map Event.message = some text ↔ v.Leaves img text) ∧
      (∀ slot, (∃ content, (Session.after img asked).slots.get? slot = some content) ↔
        .made slot ∈ visits) ∧
      (∀ before v later, visits = before ++ v :: later →
        (v = .held v.slot ↔ .made v.slot ∈ before)) ∧
      (∀ before slot later, visits = before ++ .made slot :: later →
        ∀ e ∈ later.filterMap (Visit.event? img), e.slot? ≠ some slot) ∧
      (∀ slot fault, .failed slot fault ∈ visits →
        ∀ v ∈ visits, v.slot = slot → v = .opened slot ∨ v = .failed slot fault) ∧
      (log.filterMap Event.found?).Nodup ∧
      ∀ type k, .foundType type k ∈ log →
        1 ≤ k ∧ k < img.header.sectionCount ∧ (∃ t, img.sectionAt k = .ok t ∧ t.type = type) ∧
          ∀ i, 1 ≤ i → i < k → ∃ t, img.sectionAt i = .ok t ∧ t.type ≠ type := by
  intro visits log
  have hlog : log = .parsedHeader img.header :: visits.filterMap (Visit.event? img) :=
    (visits_passes img asked).log
  have hreplays : Replays ∅ visits (after img asked).filled := visits_replays img asked
  refine ⟨hlog, fun v text => Visit.leaves_iff, fun slot => ?_, fun before v later hsplit => ?_,
    fun before slot later hsplit e he hslot => ?_, fun slot fault hmem v => visits_of_failed hmem,
    ?_, fun type k hmem => ?_⟩
  · rw [← mem_filled_iff]
    exact mem_filled_after_iff img asked slot
  · have hsplitted : Replays ∅ (before ++ v :: later) _ := hsplit ▸ hreplays
    rw [hsplitted.held_iff]
    simp
  · obtain ⟨v, hv, hevent⟩ := List.mem_filterMap.1 he
    obtain rfl := Visit.opened_of_event? hevent hslot
    have hsplitted : Replays ∅ (before ++ .made slot :: later) _ := hsplit ▸ hreplays
    cases hsplitted.held_after_made hv rfl
  · rw [hlog]
    exact found_nodup hreplays
  · rw [hlog] at hmem
    obtain ⟨v, -, hevent⟩ := List.mem_filterMap.1 ((List.mem_cons.1 hmem).resolve_left nofun)
    exact Image.indexOfType_eq_some_iff.1 (Visit.index_of_foundType hevent)

/-- A file that is all header, although it announces two sections: section 1 is announced to each of
two searches. -/
example :
    let header : Header := ⟨⟨.elf32, .lsb⟩, 0, 0, 2, 3, 1, 0, 0, 52, 0, 52, 32, 0, 40, 2, 0⟩
    let img : Image := ⟨⟨header.encode.toArray⟩, header⟩
    (Session.after img [.wellKnown .symbolTable, .wellKnown .dynamicSymbols]).log.toList =
      [.parsedHeader header, .resolvingSection 1 92, .resolvingSection 1 92] := by
  cbv

end ElfInspect
