import ElfInspect.Proofs.Questions
import ElfInspect.Proofs.Records

/-!
What the slots of a session hold. A filled slot stays as it is, and it rests on others that are
filled: a symbol on the count of its table, the index of a well-known section on every section in
front of it. `Observed.Upholds` says that a question keeps this up, also when it ends in a fault
halfway, and that a producer fails only where the image itself has the fault, so that nothing can
have filled its slot.
-/

namespace ElfInspect

/-- The slots that are filled in `s` hold the same in `next`. -/
def Session.Fills (s next : Session) : Prop :=
  ∀ slot content, s.slots.get? slot = some content → next.slots.get? slot = some content

/-- Every section behind section 0 and in front of `stop` is known, and of another type. -/
def Session.Passed (s : Session) (type stop : Nat) : Prop :=
  ∀ i, 1 ≤ i → i < stop → ∃ t, s.slots.get? (.sectionEntry i) = some t ∧ t.type ≠ type

/-- What else is filled when a slot holds `content`. -/
def Slot.Rests (img : Image) (s : Session) : (slot : Slot) → slot.Content → Prop
  | .sectionEntry _, _ => True
  | .segmentEntry _, _ => True
  | .sectionName i, _ => ∃ t, s.slots.get? (.sectionEntry i) = some t
  | .stringTable i, _ => ∃ t, s.slots.get? (.sectionEntry i) = some t
  | .symbolCount i, _ => ∃ t, s.slots.get? (.sectionEntry i) = some t
  | .symbol i j, _ => ∃ count, s.slots.get? (.symbolCount i) = some count ∧ j < count
  | .symbolName i j, _ => ∃ symbol, s.slots.get? (.symbol i j) = some symbol
  | .indexOf w, some k =>
    1 ≤ k ∧ s.Passed w.type k ∧ ∃ t, s.slots.get? (.sectionEntry k) = some t ∧ t.type = w.type
  | .indexOf w, none => s.Passed w.type img.header.sectionCount

/-- A session whose filled slots hold what the image says, each with what it rests on. -/
structure Session.Orderly (img : Image) (s : Session) : Prop where
  sound : s.Sound img
  rests : ∀ slot content, s.slots.get? slot = some content → slot.Rests img s content

variable {img : Image} {α β : Type} {s next : Session}

/-! ## Filling slots -/

namespace Session

theorem Fills.refl (s : Session) : s.Fills s := fun _ _ h => h

theorem Fills.trans {last : Session} (h : s.Fills next) (h' : next.Fills last) : s.Fills last :=
  fun slot content hget => h' slot content (h slot content hget)

theorem get?_insert_self (slot : Slot) (content : slot.Content) :
    (s.slots.insert slot content).get? slot = some content :=
  Std.DHashMap.get?_insert_self

theorem get?_insert_of_ne {slot other : Slot} (content : slot.Content) (h : slot ≠ other) :
    (s.slots.insert slot content).get? other = s.slots.get? other := by
  rw [Std.DHashMap.get?_insert, dif_neg (by simpa using h)]

/-- Filling an empty slot leaves the filled ones as they are. -/
theorem Fills.insert {slot : Slot} (content : slot.Content) (hempty : s.slots.get? slot = none) :
    s.Fills { s with slots := s.slots.insert slot content } := by
  intro other held hget
  have hne : slot ≠ other := by
    rintro rfl
    rw [hempty] at hget
    cases hget
  exact (get?_insert_of_ne content hne).trans hget

theorem Passed.mono {type stop : Nat} (h : s.Passed type stop) (hfills : s.Fills next) :
    next.Passed type stop := by
  intro i hpos hlt
  obtain ⟨t, hget, htype⟩ := h i hpos hlt
  exact ⟨t, hfills _ t hget, htype⟩

end Session

theorem Slot.Rests.mono {slot : Slot} {content : slot.Content} (h : slot.Rests img s content)
    (hfills : s.Fills next) : slot.Rests img next content := by
  match slot, content with
  | .sectionEntry _, _ => trivial
  | .segmentEntry _, _ => trivial
  | .sectionName _, _ => exact h.imp fun t hget => hfills _ t hget
  | .stringTable _, _ => exact h.imp fun t hget => hfills _ t hget
  | .symbolCount _, _ => exact h.imp fun t hget => hfills _ t hget
  | .symbol _ _, _ => exact h.imp fun count hcount => hcount.imp_left (hfills _ count)
  | .symbolName _ _, _ => exact h.imp fun symbol hget => hfills _ symbol hget
  | .indexOf _, some _ =>
    obtain ⟨hpos, hpassed, t, hget, htype⟩ := h
    exact ⟨hpos, hpassed.mono hfills, t, hfills _ t hget, htype⟩
  | .indexOf _, none => exact Session.Passed.mono h hfills

theorem Session.start_orderly (img : Image) : (Session.start img).Orderly img where
  sound := Session.start_sound img
  rests slot content h := by simp [Session.start] at h

/-- Filling an empty slot with what the image says, once what it rests on is there. -/
theorem Session.Orderly.insert (hs : s.Orderly img) {slot : Slot} {content : slot.Content}
    (hempty : s.slots.get? slot = none) (hvalue : slot.value img = .ok content)
    (hrests : slot.Rests img s content) :
    Session.Orderly img { s with slots := s.slots.insert slot content } where
  sound := hs.sound.insert hvalue
  rests other held hget := by
    refine Slot.Rests.mono ?_ (Session.Fills.insert content hempty)
    by_cases heq : slot = other
    · subst heq
      obtain rfl : content = held := by simpa [get?_insert_self] using hget
      exact hrests
    · exact hs.rests other held (by rwa [get?_insert_of_ne content heq] at hget)

/-! ## Upholding, one construction at a time -/

/-- The end of a run that started in `s`: the filled slots have stayed, order is kept, and an
answer `a` comes with `post a` about the session then. -/
structure Session.Leads (img : Image) (s : Session) (outcome : Except Fault α × Session)
    (post : α → Session → Prop) : Prop where
  fills : s.Fills outcome.2
  orderly : outcome.2.Orderly img
  yields : ∀ a, outcome.1 = .ok a → post a outcome.2

theorem Session.Leads.error (hs : s.Fills next) (hnext : next.Orderly img) (fault : Fault)
    (post : α → Session → Prop) : s.Leads img (.error fault, next) post :=
  ⟨hs, hnext, by rintro _ ⟨⟩⟩

theorem Session.Leads.ok (hs : s.Fills next) (hnext : next.Orderly img) {a : α}
    {post : α → Session → Prop} (ha : post a next) : s.Leads img (.ok a, next) post :=
  ⟨hs, hnext, by rintro _ ⟨⟩; exact ha⟩

namespace Observed

/-- What a question does in the session `s`; the producers that failed on its way had to. -/
structure Upholds (img : Image) (s : Session) (w : Observed α) (post : α → Session → Prop) :
    Prop where
  leads : s.Leads img (w.plain.run.run s) post
  faults : ∀ slot fault, .failed slot fault ∈ w.visits s → slot.value img = .error fault

/-- A question after which order is kept, whatever it answers. -/
abbrev Keeps (img : Image) (w : Observed α) : Prop :=
  ∀ s, s.Orderly img → w.Upholds img s fun _ _ => True

theorem Upholds.mono {w : Observed α} {post post' : α → Session → Prop}
    (h : w.Upholds img s post) (himp : ∀ a next, post a next → post' a next) :
    w.Upholds img s post' where
  leads := { h.leads with yields := fun a ha => himp a _ (h.leads.yields a ha) }
  faults := h.faults

theorem Upholds.forget {w : Observed α} {post : α → Session → Prop} (h : w.Upholds img s post) :
    w.Upholds img s fun _ _ => True :=
  h.mono fun _ _ _ => trivial

theorem upholds_pure (hs : s.Orderly img) {post : α → Session → Prop} {a : α} (h : post a s) :
    (pure a : Observed α).Upholds img s post where
  leads := .ok (.refl s) hs h
  faults := by simp [pure, silent]

theorem upholds_lift (hs : s.Orderly img) {r : Except Fault α} {post : α → Session → Prop}
    (h : ∀ a, r = .ok a → post a s) : (liftM r : Observed α).Upholds img s post where
  leads := by
    cases r with
    | error fault => exact .error (.refl s) hs fault post
    | ok a => exact .ok (.refl s) hs (h a rfl)
  faults := by rintro _ _ ⟨⟩

theorem upholds_report (hs : s.Orderly img) (e : Event) :
    (report e).Upholds img s fun _ next => s.Fills next := by
  have hfills : s.Fills { s with log := s.log.push e } := fun _ _ hget => hget
  constructor
  · refine .ok hfills ?_ hfills
    constructor
    · exact hs.sound
    · intro slot content hget
      exact (hs.rests slot content hget).mono hfills
  · rintro _ _ ⟨⟩

theorem upholds_bind {m : Observed α} {f : α → Observed β} {post : α → Session → Prop}
    {post' : β → Session → Prop} (hm : m.Upholds img s post)
    (hf : ∀ a next, s.Fills next → next.Orderly img → post a next →
      (f a).Upholds img next post') : (m >>= f).Upholds img s post' := by
  obtain ⟨hleads, hfaults⟩ := hm
  rcases bind_cases m f s with ⟨fault, next, hend, hvisits, hrun⟩ | ⟨a, next, hend, hvisits, hrun⟩
  · rw [hend] at hleads
    constructor
    · rw [hrun]
      exact .error hleads.fills hleads.orderly fault post'
    · rwa [hvisits]
  · rw [hend] at hleads
    have hrest := hf a next hleads.fills hleads.orderly (hleads.yields a rfl)
    constructor
    · rw [hrun]
      exact { hrest.leads with fills := hleads.fills.trans hrest.leads.fills }
    · intro slot fault hmem
      rw [hvisits, List.mem_append] at hmem
      rcases hmem with hmem | hmem
      · exact hfaults slot fault hmem
      · exact hrest.faults slot fault hmem

/-- The producers that fail on an access to an empty slot: those that its own one uses, and that
one if it ends in a fault. -/
theorem failed_mem_once {slot other : Slot} {produce : Observed slot.Content} {fault : Fault} :
    .failed other fault ∈ (once slot produce).visits s ↔
      s.slots.get? slot = none ∧
        (.failed other fault ∈ produce.visits s ∨
          other = slot ∧ (produce.plain.run.run s).1 = .error fault) := by
  cases hold : s.slots.get? slot with
  | some content => simp [once, hold]
  | none => cases hend : (produce.plain.run.run s).1 <;> simp [once, hold, ending, hend, eq_comm]

/-- An access to a slot. The producer brings what the slot rests on. -/
theorem upholds_once (hs : s.Orderly img) {slot : Slot} {produce : Observed slot.Content}
    {m : SessionM slot.Content} (hplain : (once slot produce).plain = m)
    (hagrees : Agrees img m (slot.value img))
    (hproduce : produce.Upholds img s fun content next => slot.Rests img next content) :
    (once slot produce).Upholds img s
      fun content next => next.slots.get? slot = some content := by
  have hrun : (once slot produce).plain.run.run s = _ := SessionM.run_once slot produce.plain s
  have hvalue : ((once slot produce).plain.run.run s).1 = slot.value img := by
    rw [hplain]
    exact (hagrees s hs.sound).1
  obtain ⟨⟨hfills, horderly, hyields⟩, hfaults⟩ := hproduce
  constructor
  · cases hold : s.slots.get? slot with
    | some content =>
      simp only [hold] at hrun
      rw [hrun]
      exact .ok (.refl s) hs hold
    | none =>
      simp only [hold] at hrun
      generalize produce.plain.run.run s = outcome at hfills horderly hyields hrun
      rcases outcome with ⟨fault | made, next⟩
      · rw [hrun]
        exact .error hfills horderly fault _
      · cases hfilled : next.slots.get? slot with
        | some content =>
          simp only [hfilled] at hrun
          rw [hrun]
          exact .ok hfills horderly hfilled
        | none =>
          simp only [hfilled] at hrun
          rw [hrun] at hvalue ⊢
          exact .ok (hfills.trans (.insert made hfilled))
            (horderly.insert hfilled hvalue.symm (hyields made rfl)) (Session.get?_insert_self _ _)
  · intro other fault hmem
    obtain ⟨hempty, hinner | ⟨rfl, hfault⟩⟩ := failed_mem_once.1 hmem
    · exact hfaults other fault hinner
    · rcases hend : produce.plain.run.run s with ⟨result, next⟩
      obtain rfl : result = .error fault := by simpa [hend] using hfault
      rw [← hvalue, hrun, hempty, hend]

/-- A walk to the first hit. What holds when index `i` is reached is carried to the next one, or it
ends the walk. -/
theorem upholds_firstHit {f : Nat → Observed (Option α)} {post : Option α → Session → Prop}
    (reached : Nat → Session → Prop)
    (hf : ∀ i s, s.Orderly img → reached i s → (f i).Upholds img s fun hit next =>
      hit.elim (reached (i + 1) next) fun a => post (some a) next)
    (start n : Nat) (hend : ∀ s, reached (start + n) s → post none s) (hs : s.Orderly img)
    (h : reached start s) : (firstHit f start n).Upholds img s post := by
  induction n generalizing start s with
  | zero => exact upholds_pure hs (hend s h)
  | succ n ih =>
    refine upholds_bind (hf start s hs h) fun hit next _ hnext hhit => ?_
    cases hit with
    | some a => exact upholds_pure hnext hhit
    | none =>
      have hend' : ∀ s, reached (start + 1 + n) s → post none s := by
        rwa [show start + 1 + n = start + (n + 1) by omega]
      exact ih (start + 1) hend' hnext hhit

theorem keeps_pure (a : α) : (pure a : Observed α).Keeps img :=
  fun _ hs => upholds_pure hs trivial

theorem keeps_lift (r : Except Fault α) : (liftM r : Observed α).Keeps img :=
  fun _ hs => upholds_lift hs fun _ _ => trivial

theorem keeps_bind {m : Observed α} {f : α → Observed β} (hm : m.Keeps img)
    (hf : ∀ a, (f a).Keeps img) : (m >>= f).Keeps img :=
  fun s hs => upholds_bind (hm s hs) fun a next _ hnext _ => hf a next hnext

theorem keeps_list {question : Nat → Observed α} (h : ∀ i, (question i).Keeps img)
    (start n : Nat) : (list question start n).Keeps img := by
  suffices hfrom : ∀ (found : List α) start s, s.Orderly img →
      let last := ((listingFrom (fun i => (question i).plain.run) found start n).run s).2
      (s.Fills last ∧ last.Orderly img) ∧
        ∀ slot fault, .failed slot fault ∈ listVisits question start n s →
          slot.value img = .error fault by
    intro s hs
    obtain ⟨⟨hfills, horderly⟩, hfaults⟩ := hfrom [] start s hs
    exact ⟨⟨hfills, horderly, fun _ _ => trivial⟩, hfaults⟩
  induction n with
  | zero => exact fun found start s hs => ⟨⟨.refl s, hs⟩, by rintro _ _ ⟨⟩⟩
  | succ n ih =>
    intro found start s hs
    obtain ⟨⟨hfills, horderly, -⟩, hfaults⟩ := h start s hs
    dsimp only [listingFrom, listVisits]
    rw [StateT.run_bind]
    generalize (question start).plain.run.run s = outcome at hfills horderly
    rcases outcome with ⟨fault | a, next⟩
    · exact ⟨⟨hfills, horderly⟩, by simpa using hfaults⟩
    · obtain ⟨⟨hfills', horderly'⟩, hfaults'⟩ := ih (a :: found) (start + 1) next horderly
      refine ⟨⟨hfills.trans hfills', horderly'⟩, fun slot fault hmem => ?_⟩
      rcases List.mem_append.1 hmem with hmem | hmem
      · exact hfaults slot fault hmem
      · exact hfaults' slot fault hmem

/-! ## What the questions uphold -/

/-- The producer of an entry: its place, a report and the bytes there. -/
theorem upholds_entry (hs : s.Orderly img) {place : Except Fault Nat} {e : Nat → Event}
    {decode : Nat → Except Fault α} {post : α → Session → Prop}
    (h : ∀ offset a next, place = .ok offset → s.Fills next → post a next) :
    (do
      let offset ← place
      report (e offset)
      decode offset : Observed α).Upholds img s post := by
  have hoffset : (liftM place : Observed Nat).Upholds img s fun offset _ => place = .ok offset :=
    upholds_lift hs fun _ hplace => hplace
  refine upholds_bind hoffset fun offset next hfills hnext hplace => ?_
  refine upholds_bind (upholds_report hnext _) fun _ last hfills' hlast _ => ?_
  exact upholds_lift hlast fun a _ => h offset a last hplace (hfills.trans hfills')

theorem sectionAt_upholds (hs : s.Orderly img) (i : Nat) :
    (sectionAt img i).Upholds img s fun t next => next.slots.get? (.sectionEntry i) = some t :=
  upholds_once hs (sectionAt_plain img i) (SessionM.sectionAt_agrees img i)
    (upholds_entry hs fun _ _ _ _ _ => trivial)

theorem segmentAt_keeps (img : Image) (i : Nat) : (segmentAt img i).Keeps img := by
  intro s hs
  have hentry : (segmentAt img i).Upholds img s _ :=
    upholds_once hs (segmentAt_plain img i) (SessionM.segmentAt_agrees img i)
      (upholds_entry hs fun _ _ _ _ _ => trivial)
  exact hentry.forget

theorem sectionAt_keeps (img : Image) (i : Nat) : (sectionAt img i).Keeps img :=
  fun _ hs => (sectionAt_upholds hs i).forget

/-- The count of a symbol table, once the entry of the table is known. -/
theorem symbolCount_upholds (hs : s.Orderly img) {i : Nat} {t : SectionEntry}
    (ht : s.slots.get? (.sectionEntry i) = some t) :
    (once (.symbolCount i) (t.symbolCount img.bytes)).Upholds img s fun count next =>
      next.slots.get? (.symbolCount i) = some count := by
  have hsection : img.sectionAt i = .ok t := hs.sound _ _ ht
  refine upholds_once hs rfl ?_ ?_
  · rw [Slot.symbolCount_value hsection]
    exact SessionM.symbolCount_agrees hsection
  · exact upholds_lift hs fun _ _ => ⟨t, ht⟩

theorem symbolAt_upholds (hs : s.Orderly img) (i j : Nat) :
    (symbolAt img i j).Upholds img s fun y next => next.slots.get? (.symbol i j) = some y := by
  refine upholds_bind (sectionAt_upholds hs i) fun t known _ hknown ht => ?_
  refine upholds_bind (symbolCount_upholds hknown ht) fun count counted hfills hcounted hcount => ?_
  have hsection : img.sectionAt i = .ok t := hknown.sound _ _ ht
  have hvalue : t.symbolCount img.bytes = .ok count := by
    rw [← Slot.symbolCount_value hsection]
    exact hcounted.sound _ _ hcount
  refine upholds_once hcounted rfl (SessionM.symbolSlot_agrees hsection hvalue j) ?_
  refine upholds_entry hcounted fun offset _ next hplace hfills' => ?_
  exact ⟨count, hfills' _ _ hcount, (Image.symbolOffset_ok_iff.1 hplace).1⟩

theorem symbolAt_keeps (img : Image) (i j : Nat) : (symbolAt img i j).Keeps img :=
  fun _ hs => (symbolAt_upholds hs i j).forget

theorem stringTable_keeps (img : Image) (i : Nat) : (stringTable img i).Keeps img := by
  intro s hs
  refine upholds_bind (sectionAt_upholds hs i) fun t known _ hknown ht => ?_
  have hsection : img.sectionAt i = .ok t := hknown.sound _ _ ht
  have hagrees := SessionM.stringSlot_agrees hsection
  refine Upholds.forget (upholds_once hknown rfl hagrees ?_)
  have hdata := keeps_lift (t.data img.bytes) known hknown
  exact upholds_bind hdata fun _ next hfills hnext _ => upholds_pure hnext ⟨t, hfills _ _ ht⟩

theorem nameTable_keeps (img : Image) : (nameTable img).Keeps img := by
  unfold nameTable
  split
  · exact keeps_pure none
  · exact keeps_bind (stringTable_keeps img _) fun table => keeps_pure (some table)

theorem sectionName_keeps (img : Image) (i : Nat) : (sectionName img i).Keeps img := by
  intro s hs
  refine upholds_bind (sectionAt_upholds hs i) fun t known _ hknown ht => ?_
  have hsection : img.sectionAt i = .ok t := hknown.sound _ _ ht
  have hagrees := SessionM.nameSlot_agrees hsection
  have hplain := nameSlot_plain img i t.name
  refine Upholds.forget (upholds_once hknown hplain hagrees ?_)
  refine upholds_bind (nameTable_keeps img known hknown) fun table next hfills hnext _ => ?_
  cases table with
  | some table => exact upholds_lift hnext fun _ _ => ⟨t, hfills _ _ ht⟩
  | none => exact upholds_pure hnext ⟨t, hfills _ _ ht⟩

theorem symbolName_keeps (img : Image) (i j : Nat) : (symbolName img i j).Keeps img := by
  intro s hs
  refine upholds_bind (sectionAt_upholds hs i) fun t known _ hknown ht => ?_
  refine upholds_bind (symbolAt_upholds hknown i j) fun symbol found _ hfound hsymbol => ?_
  have hagrees := SessionM.symbolNameSlot_agrees (hknown.sound _ _ ht) (hfound.sound _ _ hsymbol)
  refine Upholds.forget (upholds_once hfound rfl hagrees ?_)
  have htable := stringTable_keeps img t.link found hfound
  refine upholds_bind htable fun table next hfills hnext _ => ?_
  exact upholds_lift hnext fun _ _ => ⟨symbol, hfills _ _ hsymbol⟩

/-- A section of another type is passed. -/
theorem typeTest_upholds (hs : s.Orderly img) (w : WellKnown) {i : Nat} (hpos : 1 ≤ i)
    (hpassed : s.Passed w.type i) :
    (typeTest img w i).Upholds img s fun hit next =>
      hit.elim (1 ≤ i + 1 ∧ next.Passed w.type (i + 1)) fun k =>
        Slot.Rests img next (.indexOf w) (some k) := by
  refine upholds_bind (sectionAt_upholds hs i) fun t next hfills hnext ht => ?_
  by_cases htype : t.type = w.type
  · simp only [htype, ↓reduceIte]
    refine upholds_bind (upholds_report hnext _) fun _ last hlast horderly _ => ?_
    have hpassed' := hpassed.mono (hfills.trans hlast)
    exact upholds_pure horderly ⟨hpos, hpassed', t, hlast _ _ ht, htype⟩
  · simp only [htype, ↓reduceIte]
    refine upholds_pure hnext ⟨by omega, fun k hk hlt => ?_⟩
    rcases Nat.lt_succ_iff_lt_or_eq.1 hlt with hlt | rfl
    · exact hpassed.mono hfills k hk hlt
    · exact ⟨t, ht, htype⟩

theorem indexOf_keeps (img : Image) (w : WellKnown) : (indexOf img w).Keeps img := by
  intro s hs
  have hsearch : (firstHit (typeTest img w) 1 (img.header.sectionCount - 1)).Upholds img s
      fun found next => Slot.Rests img next (.indexOf w) found := by
    refine upholds_firstHit (fun i next => 1 ≤ i ∧ next.Passed w.type i)
      (fun i s hs h => typeTest_upholds hs w h.1 h.2) _ _ ?_ hs ?_
    · exact fun s h i hpos hlt => h.2 i hpos (by omega)
    · exact ⟨Nat.le_refl 1, fun i hpos hlt => by omega⟩
  have hindex : (indexOf img w).Upholds img s _ :=
    upholds_once hs (indexOf_plain img w) (SessionM.indexOf_agrees img w) hsearch
  exact hindex.forget

theorem keeps_rule (img : Image) : Rule img (Keeps img) where
  pure := keeps_pure
  lift := keeps_lift
  bind := keeps_bind
  list h := keeps_list h
  sectionAt := sectionAt_keeps img
  segmentAt := segmentAt_keeps img
  symbolAt := symbolAt_keeps img
  stringTable := stringTable_keeps img
  sectionName := sectionName_keeps img
  symbolName := symbolName_keeps img
  indexOf := indexOf_keeps img

/-- Every question leaves the filled slots as they are and keeps order. -/
theorem ask_keeps (img : Image) (q : Query) : (ask img q).Keeps img := (keeps_rule img).ask q

end Observed

/-! ## Whole sessions -/

/-- One more question to a session. -/
theorem Session.after_concat (img : Image) (asked : List Query) (q : Query) :
    Session.after img (asked ++ [q]) =
      ((SessionM.ask img q).run.run (Session.after img asked)).2 := by
  suffices hfrom : ∀ s, ((SessionM.askAll img (asked ++ [q])).run s).2 =
      ((SessionM.ask img q).run.run ((SessionM.askAll img asked).run s).2).2 from
    hfrom (Session.start img)
  induction asked with
  | nil => exact fun s => rfl
  | cons first rest ih => exact fun s => ih ((SessionM.ask img first).run.run s).2

theorem Session.after_orderly (img : Image) (asked : List Query) :
    (Session.after img asked).Orderly img := by
  induction asked using List.reverseRecOn with
  | nil => exact Session.start_orderly img
  | append_singleton asked q ih =>
    rw [Session.after_concat, ← Observed.ask_plain]
    exact (Observed.ask_keeps img q _ ih).leads.orderly

/-- What the slots of a session hold, read off the image and off each other. -/
structure Session.Coherent (img : Image) (s : Session) : Prop where
  /-- A known section is the record at its place in the section header table. -/
  sections : ∀ i t, s.slots.get? (.sectionEntry i) = some t →
    i < img.header.sectionCount ∧
      Record.decodeAt img.bytes img.format
        (img.header.sectionTable + i * img.header.sectionEntrySize) = .ok t
  segments : ∀ i p, s.slots.get? (.segmentEntry i) = some p →
    i < img.header.segmentCount ∧
      Record.decodeAt img.bytes img.format
        (img.header.segmentTable + i * img.header.segmentEntrySize) = .ok p
  /-- A known symbol is the record at its place in a table that is known too. -/
  symbols : ∀ i j symbol, s.slots.get? (.symbol i j) = some symbol →
    ∃ t count, s.slots.get? (.sectionEntry i) = some t ∧
      s.slots.get? (.symbolCount i) = some count ∧ j < count ∧
      Record.decodeAt img.bytes img.format (t.offset + j * t.entrySize) = .ok symbol
  /-- A table has room for the symbols that its entry states. -/
  counts : ∀ i count, s.slots.get? (.symbolCount i) = some count →
    ∃ t, s.slots.get? (.sectionEntry i) = some t ∧
      count = t.entryCount ∧ count ≤ img.bytes.size
  /-- A section that was found has the type, and all in front of it are known to have another. -/
  found : ∀ w k, s.slots.get? (.indexOf w) = some (some k) →
    1 ≤ k ∧ s.Passed w.type k ∧
      ∃ t, s.slots.get? (.sectionEntry k) = some t ∧ t.type = w.type
  /-- Where no section was found, all are known, and none has the type. -/
  absent : ∀ w, s.slots.get? (.indexOf w) = some none → s.Passed w.type img.header.sectionCount

theorem Session.Orderly.counts (hs : s.Orderly img) {i count : Nat}
    (h : s.slots.get? (.symbolCount i) = some count) :
    ∃ t, s.slots.get? (.sectionEntry i) = some t ∧ t.symbolCount img.bytes = .ok count := by
  obtain ⟨t, ht⟩ := hs.rests _ _ h
  refine ⟨t, ht, ?_⟩
  rw [← Slot.symbolCount_value (hs.sound _ _ ht)]
  exact hs.sound _ _ h

theorem Session.Orderly.coherent (hs : s.Orderly img) : s.Coherent img where
  sections i t h := Image.sectionAt_ok (hs.sound _ t h)
  segments i p h := Image.segmentAt_ok (hs.sound _ p h)
  symbols i j symbol h := by
    obtain ⟨count, hcount, hj⟩ := hs.rests _ _ h
    obtain ⟨t, ht, hvalue⟩ := hs.counts hcount
    obtain ⟨-, -, -, hdecode⟩ := Image.symbolAt_ok (hs.sound _ _ ht) (hs.sound _ _ h)
    exact ⟨t, count, ht, hcount, hj, hdecode⟩
  counts i count h := by
    obtain ⟨t, ht, hvalue⟩ := hs.counts h
    exact ⟨t, ht, SectionEntry.symbolCount_ok hvalue⟩
  found w k h := hs.rests _ _ h
  absent w h := hs.rests _ _ h

/-- What the image has a fault for is in no slot. -/
theorem Session.Orderly.empty_of_fault (hs : s.Orderly img) {slot : Slot} {fault : Fault}
    (h : slot.value img = .error fault) : s.slots.get? slot = none := by
  cases hget : s.slots.get? slot with
  | none => rfl
  | some content =>
    have hfilled := hs.sound slot content hget
    rw [h] at hfilled
    cases hfilled

/-- The slots over a whole run of questions. With each question the filled ones stay as they are,
what they hold fits the image and each other, and a producer that fails does so with the fault that
the image has for its slot, and leaves it empty. -/
theorem Session.slots_invariant (img : Image) (asked : List Query) (q : Query) :
    let before := Session.after img asked
    let next := Session.after img (asked ++ [q])
    (∀ slot content, before.slots.get? slot = some content →
        next.slots.get? slot = some content) ∧
      next.Coherent img ∧
      (Observed.ask img q).plain = SessionM.ask img q ∧
      ∀ slot fault, .failed slot fault ∈ (Observed.ask img q).visits before →
        slot.value img = .error fault ∧ next.slots.get? slot = none := by
  intro before next
  have hkeeps := Observed.ask_keeps img q before (Session.after_orderly img asked)
  have hnext : ((Observed.ask img q).plain.run.run before).2 = next := by
    rw [Observed.ask_plain]
    exact (Session.after_concat img asked q).symm
  have horderly : next.Orderly img := Session.after_orderly img (asked ++ [q])
  refine ⟨?_, horderly.coherent, Observed.ask_plain img q, fun slot fault hmem => ?_⟩
  · rw [← hnext]
    exact hkeeps.leads.fills
  · have hvalue := hkeeps.faults slot fault hmem
    exact ⟨hvalue, horderly.empty_of_fault hvalue⟩

/-- A file that is all header, although it announces two sections: the search for the symbol table
fails at section 1, and so do two producers. -/
example :
    let header : Header := ⟨⟨.elf32, .lsb⟩, 0, 0, 2, 3, 1, 0, 0, 52, 0, 52, 32, 0, 40, 2, 0⟩
    let img : Image := ⟨⟨header.encode.toArray⟩, header⟩
    (Observed.ask img (.wellKnown .symbolTable)).visits (Session.start img) =
      [.opened (.indexOf .symbolTable), .opened (.sectionEntry 1),
        .failed (.sectionEntry 1) (.outOfRange 92 52),
        .failed (.indexOf .symbolTable) (.outOfRange 92 52)] := by
  cbv

end ElfInspect
