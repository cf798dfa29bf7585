import ElfInspect.Proofs.TableEntries

/-!
Symbols of a section. The count of a symbol table is stated by its entry, and the bytes of the
section have to be in the file before any symbol is read; the end of a symbol is looked for in the
file and not in the section. `symbols_read_where_held` says what each index gives, and that a walk
ends early where the stated size is absurd.
-/

namespace ElfInspect

/-! ## What reading a symbol gives -/

namespace SectionEntry

/-- The section holds no symbol, whatever the file holds. -/
def Entryless (s : SectionEntry) : Prop :=
  s.entrySize = 0 ∨ s.type = nobits ∨ s.size < s.entrySize

/-- What reading symbol `j` of the section gives. -/
inductive SymbolReads (s : SectionEntry) (img : Image) (j : Nat) : Except Fault SymbolEntry → Prop
  | entryless (h : s.Entryless) : SymbolReads s img j (.error (.outOfRange j 0))
  | missing (h : ¬ s.Entryless) (hout : img.bytes.size < s.offset + s.size) {fault : Fault}
    (hdata : s.data img.bytes = .error fault) : SymbolReads s img j (.error fault)
  | behind (h : ¬ s.Entryless) (hin : s.offset + s.size ≤ img.bytes.size)
    (hj : s.entryCount ≤ j) : SymbolReads s img j (.error (.outOfRange j s.entryCount))
  | cut (h : ¬ s.Entryless) (hin : s.offset + s.size ≤ img.bytes.size) (hj : j < s.entryCount)
    (hend : img.bytes.size <
      s.offset + j * s.entrySize + img.format.fileClass.choose 16 24) {offset needed : Nat}
    (hread : (SymbolEntry.form img.format).ReadsAt img.bytes (s.offset + j * s.entrySize)
      (.error (.truncatedInput offset needed))) :
    SymbolReads s img j (.error (.truncatedInput offset needed))
  | whole (h : ¬ s.Entryless) (hin : s.offset + s.size ≤ img.bytes.size) (hj : j < s.entryCount)
    (hend : s.offset + j * s.entrySize + img.format.fileClass.choose 16 24 ≤ img.bytes.size) :
    SymbolReads s img j
      (.ok ((SymbolEntry.form img.format).foundAt img.bytes (s.offset + j * s.entrySize)))

theorem entryCount_eq_zero_iff (s : SectionEntry) : s.entryCount = 0 ↔ s.Entryless := by
  unfold entryCount Entryless
  split
  case isTrue h =>
    rw [← or_assoc]
    exact iff_of_true rfl (.inl h)
  case isFalse h =>
    obtain ⟨hsize, htype⟩ := not_or.1 h
    rw [Nat.div_eq_zero_iff]
    simp only [hsize, htype, false_or]

section Entries

variable {s : SectionEntry} {bytes : ByteArray} {j : Nat} (h : ¬ s.Entryless)
include h

theorem data_eq_slice : s.data bytes = slice bytes s.offset s.size :=
  if_neg fun htype => h (.inr (.inl htype))

/-- Symbols are counted by the size that the entry states, if the bytes are there. -/
theorem symbolCount_of_entries :
    s.symbolCount bytes = (s.data bytes).map fun _ => s.entryCount := by
  rw [symbolCount_eq, if_neg (mt s.entryCount_eq_zero_iff.1 h), data_eq_slice h]

theorem entryCount_mul_le : s.entryCount * s.entrySize ≤ s.size := by
  have hcount : s.entryCount = s.size / s.entrySize :=
    if_neg fun hnone => h (hnone.imp_right .inl)
  rw [hcount]
  exact Nat.div_mul_le_self _ _

/-- A symbol of the section starts an entry before the section's end, or earlier. -/
theorem entry_le (hj : j < s.entryCount) : j * s.entrySize + s.entrySize ≤ s.size := by
  rw [← Nat.succ_mul]
  exact Nat.le_trans (Nat.mul_le_mul_right _ hj) (entryCount_mul_le h)

theorem entryCount_le_size : s.entryCount ≤ s.size := by
  have hpos : 0 < s.entrySize := Nat.pos_of_ne_zero fun hzero => h (.inl hzero)
  exact Nat.le_trans (Nat.le_mul_of_pos_right _ hpos) (entryCount_mul_le h)

end Entries

end SectionEntry

namespace Image

variable {img : Image} {i j : Nat} {s : SectionEntry}

theorem symbolAt_eq (hs : img.sectionAt i = .ok s) :
    img.symbolAt i j = (do
      let count ← s.symbolCount img.bytes
      Record.decodeAt img.bytes img.format (← symbolOffset s count j)) := by
  rw [symbolAt, hs]
  rfl

theorem symbolAt_of_entryless (hs : img.sectionAt i = .ok s) (h : s.Entryless) :
    img.symbolAt i j = .error (.outOfRange j 0) := by
  have hcount : s.symbolCount img.bytes = .ok 0 := if_pos (s.entryCount_eq_zero_iff.2 h)
  rw [symbolAt_eq hs, hcount]
  rfl

theorem symbolAt_of_missing (hs : img.sectionAt i = .ok s) (h : ¬ s.Entryless) {fault : Fault}
    (hdata : s.data img.bytes = .error fault) : img.symbolAt i j = .error fault := by
  rw [symbolAt_eq hs, SectionEntry.symbolCount_of_entries h, hdata]
  rfl

section Inside

variable (hs : img.sectionAt i = .ok s) (h : ¬ s.Entryless)
  (hin : s.offset + s.size ≤ img.bytes.size)
include hs h hin

theorem symbolAt_of_behind (hj : s.entryCount ≤ j) :
    img.symbolAt i j = .error (.outOfRange j s.entryCount) := by
  have hdata : s.data img.bytes = .ok (img.bytes.extract s.offset (s.offset + s.size)) := by
    rw [SectionEntry.data_eq_slice h, slice_ok_iff]
    exact ⟨hin, rfl⟩
  have hplace : symbolOffset s s.entryCount j = .error (.outOfRange j s.entryCount) :=
    if_neg (Nat.not_lt.2 hj)
  rw [symbolAt_eq hs, SectionEntry.symbolCount_of_entries h, hdata]
  change (symbolOffset s s.entryCount j >>= _) = _
  rw [hplace]
  rfl

/-- No symbol that the section counts starts behind the file, so none lacks a place. -/
theorem symbolAt_of_entry (hsize : img.bytes.size < offsetLimit) (hj : j < s.entryCount) :
    img.symbolAt i j = Record.decodeAt img.bytes img.format (s.offset + j * s.entrySize) := by
  have hentry := SectionEntry.entry_le h hj
  have hdata : s.data img.bytes = .ok (img.bytes.extract s.offset (s.offset + s.size)) := by
    rw [SectionEntry.data_eq_slice h, slice_ok_iff]
    exact ⟨hin, rfl⟩
  have hplace : symbolOffset s s.entryCount j = .ok (s.offset + j * s.entrySize) :=
    symbolOffset_ok_iff.2 ⟨hj, by omega, rfl⟩
  rw [symbolAt_eq hs, SectionEntry.symbolCount_of_entries h, hdata]
  change (symbolOffset s s.entryCount j >>= _) = _
  rw [hplace]
  rfl

end Inside

end Image

theorem SymbolEntry.form_size (f : Format) : (form f).size = f.fileClass.choose 16 24 := by
  obtain ⟨k, o⟩ := f
  cases k <;> rfl

namespace SectionEntry.SymbolReads

variable {img : Image} {i j : Nat} {s : SectionEntry} {r : Except Fault SymbolEntry}

theorem symbolAt_eq (hs : img.sectionAt i = .ok s) (hsize : img.bytes.size < offsetLimit)
    (h : s.SymbolReads img j r) : img.symbolAt i j = r := by
  have hform := SymbolEntry.form_describes img.format
  cases h with
  | entryless h => exact Image.symbolAt_of_entryless hs h
  | missing h _ hdata => exact Image.symbolAt_of_missing hs h hdata
  | behind h hin hj => exact Image.symbolAt_of_behind hs h hin hj
  | cut h hin hj _ hread =>
    rw [Image.symbolAt_of_entry hs h hin hsize hj]
    exact hread.decodeAt_eq hform
  | whole h hin hj hend =>
    rw [Image.symbolAt_of_entry hs h hin hsize hj]
    rw [← SymbolEntry.form_size] at hend
    exact (RecordForm.ReadsAt.whole hend).decodeAt_eq hform

/-- Reading a symbol always gives something. -/
theorem exists_reads (s : SectionEntry) (img : Image) (j : Nat) : ∃ r, s.SymbolReads img j r := by
  by_cases h : s.Entryless
  case pos => exact ⟨_, .entryless h⟩
  by_cases hin : s.offset + s.size ≤ img.bytes.size
  case neg =>
    have hout := Nat.lt_of_not_le hin
    cases hdata : s.data img.bytes with
    | error fault => exact ⟨_, .missing h hout hdata⟩
    | ok part =>
      rw [data_eq_slice h, slice_ok_iff] at hdata
      exact absurd hdata.1 hin
  by_cases hj : j < s.entryCount
  case neg => exact ⟨_, .behind h hin (Nat.le_of_not_lt hj)⟩
  have hentry := entry_le h hj
  obtain ⟨r, hr⟩ := RecordForm.exists_readsAt (SymbolEntry.form_describes img.format) img.bytes
    (s.offset + j * s.entrySize)
  have hread := hr
  cases hr with
  | outside hout => omega
  | cut _ hend _ _ _ =>
    rw [SymbolEntry.form_size] at hend
    exact ⟨_, .cut h hin hj hend hread⟩
  | whole hend =>
    rw [SymbolEntry.form_size] at hend
    exact ⟨_, .whole h hin hj hend⟩

theorem symbolAt_eq_iff (hs : img.sectionAt i = .ok s) (hsize : img.bytes.size < offsetLimit) :
    img.symbolAt i j = r ↔ s.SymbolReads img j r := by
  refine ⟨?_, symbolAt_eq hs hsize⟩
  rintro rfl
  obtain ⟨r, hr⟩ := exists_reads s img j
  rwa [hr.symbolAt_eq hs hsize]

end SectionEntry.SymbolReads

/-! ## Counted walks -/

/-- A question of which each use is counted. -/
def counted {α : Type} (question : SessionM α) : StateT Nat (StateM Session) (Except Fault α) := do
  modify (· + 1)
  monadLift question.run

/-- How many tries a walk has made that ended so. -/
def Listing.tries {α : Type} (l : Listing α) : Nat :=
  l.items.length + if l.fault.isSome then 1 else 0

section Walks

variable {α : Type}

theorem counted_once (question : SessionM α) (calls : Nat) (s : Session) :
    ((counted question).run calls).run s =
      (((question.run.run s).1, calls + 1), (question.run.run s).2) := rfl

/-- Counting changes neither what a walk collects nor the session, and counts the tries. -/
theorem counted_run (question : Nat → SessionM α) (found : List α) (start n calls : Nat)
    (s : Session) :
    let plain := (listingFrom (fun i => (question i).run) found start n : StateM Session _).run s
    ∃ total, ((listingFrom (fun i => counted (question i)) found start n).run calls).run s =
        ((plain.1, total), plain.2) ∧
      total + found.length = calls + plain.1.tries := by
  induction n generalizing found start calls s with
  | zero =>
    refine ⟨calls, rfl, ?_⟩
    change calls + found.length = calls + (found.reverse.length + 0)
    rw [List.length_reverse, Nat.add_zero]
  | succ n ih =>
    have hcount := counted_once (question start) calls s
    dsimp only [listingFrom]
    rw [StateT.run_bind, StateT.run_bind, StateT.run_bind, hcount]
    generalize (question start).run.run s = outcome
    obtain ⟨result, next⟩ := outcome
    cases result with
    | error fault =>
      refine ⟨calls + 1, rfl, ?_⟩
      change calls + 1 + found.length = calls + (found.reverse.length + 1)
      rw [List.length_reverse]
      omega
    | ok a =>
      obtain ⟨total, hrun, htotal⟩ := ih (a :: found) (start + 1) (calls + 1) next
      refine ⟨total, hrun, ?_⟩
      rw [List.length_cons] at htotal
      exact (by omega : total + found.length = calls + Listing.tries
        ((listingFrom (fun i => (question i).run) (a :: found) (start + 1) n :
          StateM Session _).run next).1)

/-- The walk that a question lists, counted. -/
theorem counted_list {img : Image} {question : Nat → SessionM α} {r : Nat → Except Fault α}
    (h : ∀ i, Agrees img (question i) (r i)) (start n : Nat) {s : Session} (hs : s.Sound img) :
    ∃ next, ((listing (fun i => counted (question i)) start n).run 0).run s =
        ((Id.run (listing r start n), (Id.run (listing r start n)).tries), next) ∧
      (SessionM.list question start n).run.run s = (.ok (Id.run (listing r start n)), next) := by
  obtain ⟨total, hrun, htotal⟩ := counted_run question [] start n 0 s
  have hanswer : ((listingFrom (fun i => (question i).run) [] start n : StateM Session _).run s).1 =
      Id.run (listing r start n) := Except.ok.inj (agrees_list h start n s hs).1
  rw [hanswer] at hrun htotal
  rw [List.length_nil, Nat.add_zero, Nat.zero_add] at htotal
  rw [htotal] at hrun
  refine ⟨_, hrun, ?_⟩
  rw [← hanswer]
  rfl

/-- A walk makes no more tries than it is given. -/
theorem listing_tries_le (r : Nat → Except Fault α) (start n : Nat) :
    (Id.run (listing r start n)).tries ≤ n := by
  suffices hfrom : ∀ (found : List α) start,
      (Id.run (listingFrom r found start n)).tries ≤ found.length + n by
    have h := hfrom [] start
    rwa [List.length_nil, Nat.zero_add] at h
  induction n with
  | zero =>
    intro found start
    change found.reverse.length + 0 ≤ _
    exact Nat.le_of_eq (by rw [List.length_reverse])
  | succ n ih =>
    intro found start
    dsimp only [listingFrom]
    cases r start with
    | error fault =>
      change found.reverse.length + 1 ≤ _
      rw [List.length_reverse]
      omega
    | ok a =>
      have hrest := ih (a :: found) (start + 1)
      rw [List.length_cons] at hrest
      exact Nat.le_trans hrest (by omega)

/-- A walk whose first try fails ends there. -/
theorem listing_tries_of_error {r : Nat → Except Fault α} {start : Nat} {fault : Fault}
    (h : r start = .error fault) (n : Nat) : (Id.run (listing r start n)).tries ≤ 1 := by
  cases n with
  | zero => exact Nat.le_trans (listing_tries_le r start 0) (Nat.zero_le 1)
  | succ n =>
    dsimp only [listing, listingFrom]
    rw [h]
    exact Nat.le_refl 1

end Walks

/-! ## Symbols of a section -/

/-- What each index gives in a section that has been read, whatever has been asked before. A stated
count that the file cannot hold is the fault of every index, so that a walk makes no more tries than
the file has bytes, or a single one. -/
theorem symbols_read_where_held {img : Image} (hsize : img.bytes.size < offsetLimit)
    {earlier : List Query} {i : Nat} {s : SectionEntry}
    (hs : Session.resultAfter img earlier (SessionM.sectionAt img i) = .ok s)
    (asked : List Query) :
    (∀ j r, Session.resultAfter img asked (SessionM.symbolAt img i j) = r ↔
        s.SymbolReads img j r) ∧
      (¬ s.Entryless → s.offset + s.size ≤ img.bytes.size → s.entryCount ≤ img.bytes.size) ∧
      (img.format.fileClass.choose 16 24 ≤ s.entrySize →
        s.offset + s.size ≤ img.bytes.size → ∀ j < s.entryCount,
          ∃ symbol, Session.resultAfter img asked (SessionM.symbolAt img i j) = .ok symbol) ∧
      (img.bytes.size < s.entryCount → ∀ j,
        ∃ fault, Session.resultAfter img asked (SessionM.symbolAt img i j) = .error fault) ∧
      ∃ symbols calls next,
        ((listing (fun j => counted (SessionM.symbolAt img i j)) 0 s.entryCount).run 0).run
            (Session.after img asked) = ((symbols, calls), next) ∧
          (SessionM.list (SessionM.symbolAt img i) 0 s.entryCount).run.run
            (Session.after img asked) = (.ok symbols, next) ∧
          calls ≤ max 1 img.bytes.size := by
  rw [(SessionM.sectionAt_agrees img i).resultAfter] at hs
  have hreads (j : Nat) (r : Except Fault SymbolEntry) :
      img.symbolAt i j = r ↔ s.SymbolReads img j r :=
    SectionEntry.SymbolReads.symbolAt_eq_iff hs hsize
  have hroom (h : ¬ s.Entryless) (hin : s.offset + s.size ≤ img.bytes.size) :
      s.entryCount ≤ img.bytes.size := by
    have hle := SectionEntry.entryCount_le_size h
    omega
  -- A table that counts more symbols than the file has bytes does not lie in the file.
  have hlost (hmany : img.bytes.size < s.entryCount) (j : Nat) :
      ∃ fault, img.symbolAt i j = .error fault := by
    have h : ¬ s.Entryless := by
      rw [← s.entryCount_eq_zero_iff]
      omega
    obtain ⟨r, hr⟩ := SectionEntry.SymbolReads.exists_reads s img j
    have hanswer := (hreads j r).2 hr
    cases hr with
    | whole _ hin _ _ => exact absurd (hroom h hin) (Nat.not_le.2 hmany)
    | _ => exact ⟨_, hanswer⟩
  simp only [(SessionM.symbolAt_agrees img i _).resultAfter]
  refine ⟨hreads, hroom, fun hrecord hin j hj => ?_, hlost, ?_⟩
  · have h : ¬ s.Entryless := by
      rw [← s.entryCount_eq_zero_iff]
      omega
    have hentry := SectionEntry.entry_le h hj
    exact ⟨_, (hreads j _).2 (.whole h hin hj (by omega))⟩
  · obtain ⟨next, hcounted, hplain⟩ := counted_list (SessionM.symbolAt_agrees img i) 0 s.entryCount
      (Session.after_sound img asked)
    refine ⟨_, _, next, hcounted, hplain, ?_⟩
    by_cases hmany : img.bytes.size < s.entryCount
    · obtain ⟨fault, hfault⟩ := hlost hmany 0
      exact Nat.le_trans (listing_tries_of_error hfault _) (Nat.le_max_left _ _)
    · exact Nat.le_trans (listing_tries_le _ _ _)
        (Nat.le_trans (Nat.le_of_not_lt hmany) (Nat.le_max_right _ _))

/-- Section 1 makes the whole file a table of symbols that start at every byte. -/
def crowdedTable : SectionEntry := ⟨0, SectionEntry.symtab, 0, 0, 0, 172, 2, 0, 0, 1⟩

def crowded : Image where
  header := threeSections
  bytes := ⟨(threeSections.encode ++ List.replicate 40 0 ++
    crowdedTable.written ⟨.elf32, .lsb⟩ ++ List.replicate 40 0).toArray⟩

/-- The last symbols start in the file, but end behind it. -/
theorem symbols_read_where_held_crowded :
    crowded.bytes.size < offsetLimit ∧
      Session.resultAfter crowded [] (SessionM.sectionAt crowded 1) = .ok crowdedTable ∧
      Session.resultAfter crowded [.symbols 1] (SessionM.symbolAt crowded 1 160) =
        .error (.truncatedInput 172 1) ∧
      Session.resultAfter crowded [.symbols 1] (SessionM.symbolAt crowded 1 172) =
        .error (.outOfRange 172 172) := by
  have hsize : crowded.bytes.size = 172 := by cbv
  have hlimit : crowded.bytes.size < offsetLimit := by
    rw [hsize]
    decide
  have htable : Session.resultAfter crowded [] (SessionM.sectionAt crowded 1) =
      .ok crowdedTable := by
    rw [(SessionM.sectionAt_agrees crowded 1).resultAfter]
    exact ok_of_toOption (by decide +kernel)
  have hentries : ¬ crowdedTable.Entryless := by
    rw [← crowdedTable.entryCount_eq_zero_iff]
    decide
  have hin : crowdedTable.offset + crowdedTable.size ≤ crowded.bytes.size := by
    rw [hsize]
    decide
  obtain ⟨hreads, -⟩ := symbols_read_where_held hlimit htable [.symbols 1]
  refine ⟨hlimit, htable, (hreads 160 _).2 ?_, (hreads 172 _).2 ?_⟩
  · refine .cut hentries hin (by decide) (by rw [hsize]; decide) ?_
    have hplaces : (SymbolEntry.form crowded.format).places =
        [⟨0, 4⟩, ⟨4, 4⟩, ⟨8, 4⟩] ++ ⟨12, 1⟩ :: [⟨13, 1⟩, ⟨14, 2⟩] := rfl
    have hstart : crowdedTable.offset + 160 * crowdedTable.entrySize = 160 := by decide
    rw [hstart]
    refine .cut ?_ ?_ hplaces ?_ ?_ <;> rw [hsize] <;> decide
  · exact .behind hentries hin (by decide)

end ElfInspect
