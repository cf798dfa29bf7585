import ElfInspect.Proofs.Footprint
import ElfInspect.Proofs.Reports

/-!
How entries of tables are read. A `RecordForm` says where the fields of a kind of record stand;
`RecordForm.ReadsAt` is what reading at an offset gives, down to the field that a short file cuts.
An entry of a header table starts at the table's base plus a multiple of the entry size, whatever
that size is: `header_entries_read`.
-/

namespace ElfInspect

/-! ## Forms of records -/

/-- How a kind of record lies in a file: its size, where in it the fields are, in the order of the
file, and the record that starts at an offset. -/
structure RecordForm (α : Type) where
  size : Nat
  places : List Extent
  foundAt : ByteArray → Nat → α

/-- The number in the given part of the file. -/
def Format.numberAt (f : Format) (bytes : ByteArray) (offset width : Nat) : Nat :=
  f.order.number (window bytes offset width)

def SectionEntry.form (f : Format) : RecordForm SectionEntry :=
  match f.fileClass with
  | .elf32 => {
    size := 40
    places := [⟨0, 4⟩, ⟨4, 4⟩, ⟨8, 4⟩, ⟨12, 4⟩, ⟨16, 4⟩, ⟨20, 4⟩, ⟨24, 4⟩, ⟨28, 4⟩, ⟨32, 4⟩,
      ⟨36, 4⟩]
    foundAt bytes p := {
      name := f.numberAt bytes p 4
      type := f.numberAt bytes (p + 4) 4
      flags := f.numberAt bytes (p + 8) 4
      address := f.numberAt bytes (p + 12) 4
      offset := f.numberAt bytes (p + 16) 4
      size := f.numberAt bytes (p + 20) 4
      link := f.numberAt bytes (p + 24) 4
      info := f.numberAt bytes (p + 28) 4
      align := f.numberAt bytes (p + 32) 4
      entrySize := f.numberAt bytes (p + 36) 4 } }
  | .elf64 => {
    size := 64
    places := [⟨0, 4⟩, ⟨4, 4⟩, ⟨8, 8⟩, ⟨16, 8⟩, ⟨24, 8⟩, ⟨32, 8⟩, ⟨40, 4⟩, ⟨44, 4⟩, ⟨48, 8⟩,
      ⟨56, 8⟩]
    foundAt bytes p := {
      name := f.numberAt bytes p 4
      type := f.numberAt bytes (p + 4) 4
      flags := f.numberAt bytes (p + 8) 8
      address := f.numberAt bytes (p + 16) 8
      offset := f.numberAt bytes (p + 24) 8
      size := f.numberAt bytes (p + 32) 8
      link := f.numberAt bytes (p + 40) 4
      info := f.numberAt bytes (p + 44) 4
      align := f.numberAt bytes (p + 48) 8
      entrySize := f.numberAt bytes (p + 56) 8 } }

/-- The flags stand behind the sizes or behind the type. -/
def SegmentEntry.form (f : Format) : RecordForm SegmentEntry :=
  match f.fileClass with
  | .elf32 => {
    size := 32
    places := [⟨0, 4⟩, ⟨4, 4⟩, ⟨8, 4⟩, ⟨12, 4⟩, ⟨16, 4⟩, ⟨20, 4⟩, ⟨24, 4⟩, ⟨28, 4⟩]
    foundAt bytes p := {
      type := f.numberAt bytes p 4
      offset := f.numberAt bytes (p + 4) 4
      virtualAddress := f.numberAt bytes (p + 8) 4
      physicalAddress := f.numberAt bytes (p + 12) 4
      fileSize := f.numberAt bytes (p + 16) 4
      memorySize := f.numberAt bytes (p + 20) 4
      flags := f.numberAt bytes (p + 24) 4
      align := f.numberAt bytes (p + 28) 4 } }
  | .elf64 => {
    size := 56
    places := [⟨0, 4⟩, ⟨4, 4⟩, ⟨8, 8⟩, ⟨16, 8⟩, ⟨24, 8⟩, ⟨32, 8⟩, ⟨40, 8⟩, ⟨48, 8⟩]
    foundAt bytes p := {
      type := f.numberAt bytes p 4
      flags := f.numberAt bytes (p + 4) 4
      offset := f.numberAt bytes (p + 8) 8
      virtualAddress := f.numberAt bytes (p + 16) 8
      physicalAddress := f.numberAt bytes (p + 24) 8
      fileSize := f.numberAt bytes (p + 32) 8
      memorySize := f.numberAt bytes (p + 40) 8
      align := f.numberAt bytes (p + 48) 8 } }

/-- Value and size stand before the two bytes and the section index or behind them. -/
def SymbolEntry.form (f : Format) : RecordForm SymbolEntry :=
  match f.fileClass with
  | .elf32 => {
    size := 16
    places := [⟨0, 4⟩, ⟨4, 4⟩, ⟨8, 4⟩, ⟨12, 1⟩, ⟨13, 1⟩, ⟨14, 2⟩]
    foundAt bytes p := {
      name := f.numberAt bytes p 4
      value := f.numberAt bytes (p + 4) 4
      size := f.numberAt bytes (p + 8) 4
      info := f.numberAt bytes (p + 12) 1
      other := f.numberAt bytes (p + 13) 1
      sectionIndex := f.numberAt bytes (p + 14) 2 } }
  | .elf64 => {
    size := 24
    places := [⟨0, 4⟩, ⟨4, 1⟩, ⟨5, 1⟩, ⟨6, 2⟩, ⟨8, 8⟩, ⟨16, 8⟩]
    foundAt bytes p := {
      name := f.numberAt bytes p 4
      info := f.numberAt bytes (p + 4) 1
      other := f.numberAt bytes (p + 5) 1
      sectionIndex := f.numberAt bytes (p + 6) 2
      value := f.numberAt bytes (p + 8) 8
      size := f.numberAt bytes (p + 16) 8 } }

/-- What reading a record at `p` gives. In a file that ends within the record the fault names the
first field that is not all there. -/
inductive RecordForm.ReadsAt {α : Type} (form : RecordForm α) (bytes : ByteArray) (p : Nat) :
    Except Fault α → Prop
  | outside (h : bytes.size < p) : ReadsAt form bytes p (.error (.outOfRange p bytes.size))
  | cut {before after : List Extent} {e : Extent} (hstart : p ≤ bytes.size)
    (hend : bytes.size < p + form.size) (hplaces : form.places = before ++ e :: after)
    (hbefore : ∀ e' ∈ before, p + e'.offset + e'.length ≤ bytes.size)
    (hcut : bytes.size < p + e.offset + e.length) :
    ReadsAt form bytes p (.error (.truncatedInput (p + e.offset) e.length))
  | whole (h : p + form.size ≤ bytes.size) : ReadsAt form bytes p (.ok (form.foundAt bytes p))

/-! ## Fields at their places -/

/-- The places of fields, of which the first is at `start`. -/
def Layout.places (k : FileClass) : Nat → Layout → List Extent
  | _, [] => []
  | start, w :: ws => ⟨start, w.size k⟩ :: places k (start + w.size k) ws

/-- In fields that the file cuts there is a first one that is cut. -/
theorem Layout.exists_cut (k : FileClass) (ws : Layout) {p start length : Nat}
    (hstart : p + start ≤ length) (hend : length < p + start + Layout.size k ws) :
    ∃ before e after, Layout.places k start ws = before ++ e :: after ∧
      (∀ e' ∈ before, p + e'.offset + e'.length ≤ length) ∧
      length < p + e.offset + e.length := by
  induction ws generalizing start with
  | nil =>
    rw [Layout.size] at hend
    omega
  | cons w ws ih =>
    rw [Layout.size] at hend
    by_cases hcut : length < p + start + w.size k
    · exact ⟨[], ⟨start, w.size k⟩, places k (start + w.size k) ws, rfl, by simp, hcut⟩
    · obtain ⟨before, e, after, hplaces, hbefore, hcut'⟩ :=
        @ih (start + w.size k) (by omega) (by omega)
      refine ⟨⟨start, w.size k⟩ :: before, e, after, ?_, ?_, hcut'⟩
      · rw [Layout.places, hplaces, List.cons_append]
      · intro e' he'
        rcases List.mem_cons.1 he' with rfl | he'
        · exact Nat.le_of_not_lt hcut
        · exact hbefore e' he'

namespace Fields

/-- The numbers of fields that stand one after the other from `p` on. -/
def foundAt (f : Format) (bytes : ByteArray) : (ws : Layout) → Nat → Fields ws
  | [], _ => ()
  | w :: ws, p =>
    (f.numberAt bytes p (w.size f.fileClass), foundAt f bytes ws (p + w.size f.fileClass))

theorem decode_window (f : Format) (bytes : ByteArray) (ws : Layout) (p : Nat) :
    decode f ws (window bytes p (Layout.size f.fileClass ws)) = foundAt f bytes ws p := by
  induction ws generalizing p with
  | nil => rfl
  | cons w ws ih =>
    have hfirst : (window bytes p (Layout.size f.fileClass (w :: ws))).take (w.size f.fileClass) =
        window bytes p (w.size f.fileClass) := by
      rw [window_eq, window_eq, Layout.size, List.take_take,
        Nat.min_eq_left (Nat.le_add_right _ _)]
    have hrest : (window bytes p (Layout.size f.fileClass (w :: ws))).drop (w.size f.fileClass) =
        window bytes (p + w.size f.fileClass) (Layout.size f.fileClass ws) := by
      rw [window_eq, window_eq, Layout.size, List.drop_take, List.drop_drop,
        Nat.add_sub_cancel_left]
    rw [decode, hfirst, hrest, ih]
    rfl

/-- The fault of the first field that is cut. -/
theorem read_of_cut (f : Format) (bytes : ByteArray) (ws : Layout) {p start : Nat}
    {before after : List Extent} {e : Extent}
    (hplaces : Layout.places f.fileClass start ws = before ++ e :: after)
    (hbefore : ∀ e' ∈ before, p + e'.offset + e'.length ≤ bytes.size)
    (hcut : bytes.size < p + e.offset + e.length) :
    read ws ⟨bytes, f, p + start⟩ = .error (.truncatedInput (p + e.offset) e.length) := by
  induction ws generalizing start before with
  | nil => simp [Layout.places] at hplaces
  | cons w ws ih =>
    cases before with
    | nil =>
      obtain ⟨rfl, -⟩ := List.cons_eq_cons.1 hplaces
      have htake := Cursor.take_of_lt (c := ⟨bytes, f, p + start⟩) hcut
      simp only [read, Cursor.number, htake]
    | cons first before =>
      obtain ⟨rfl, hrest⟩ := List.cons_eq_cons.1 hplaces
      have hfirst : p + start + w.size f.fileClass ≤ bytes.size :=
        hbefore _ List.mem_cons_self
      have htake := Cursor.take_of_le (c := ⟨bytes, f, p + start⟩) hfirst
      have hread := ih hrest fun e' he' => hbefore e' (List.mem_cons_of_mem _ he')
      rw [← Nat.add_assoc] at hread
      simp only [read, Cursor.number, htake, hread]

end Fields

namespace RecordForm

variable {α : Type} [Record α] {form : RecordForm α} {f : Format} {bytes : ByteArray} {p : Nat}

/-- The form is that of the fields that are read. -/
structure Describes (form : RecordForm α) (f : Format) : Prop where
  size_eq : form.size = Record.size α f.fileClass
  places_eq : form.places = Layout.places f.fileClass 0 (Record.layout α f.fileClass)
  foundAt_eq : ∀ bytes p, form.foundAt bytes p =
    Record.ofFields f.fileClass (Fields.foundAt f bytes (Record.layout α f.fileClass) p)

theorem exists_readsAt (hform : form.Describes f) (bytes : ByteArray) (p : Nat) :
    ∃ r, form.ReadsAt bytes p r := by
  by_cases hstart : p ≤ bytes.size
  case neg => exact ⟨_, .outside (Nat.lt_of_not_le hstart)⟩
  by_cases hwhole : p + form.size ≤ bytes.size
  case pos => exact ⟨_, .whole hwhole⟩
  have hend := Nat.lt_of_not_le hwhole
  have hfields : bytes.size < p + 0 + Layout.size f.fileClass (Record.layout α f.fileClass) := by
    rw [hform.size_eq] at hend
    exact hend
  obtain ⟨before, e, after, hplaces, hbefore, hcut⟩ := Layout.exists_cut _ _ hstart hfields
  rw [← hform.places_eq] at hplaces
  exact ⟨_, .cut hstart hend hplaces hbefore hcut⟩

theorem ReadsAt.decodeAt_eq (hform : form.Describes f) {r : Except Fault α}
    (h : form.ReadsAt bytes p r) : Record.decodeAt bytes f p = r := by
  cases h with
  | outside h => exact Record.decodeAt_of_lt h
  | cut hstart _ hplaces hbefore hcut =>
    rw [hform.places_eq] at hplaces
    have hread := Fields.read_of_cut f bytes _ hplaces hbefore hcut
    rw [Record.decodeAt_of_le hstart]
    rw [Nat.add_zero] at hread
    rw [hread]
  | whole h =>
    rw [hform.size_eq] at h
    rw [Record.decodeAt_ok_iff, hform.foundAt_eq, ← Fields.decode_window]
    exact ⟨h, rfl⟩

/-- A record is read just as its form says. -/
theorem decodeAt_eq_iff (hform : form.Describes f) {r : Except Fault α} :
    Record.decodeAt bytes f p = r ↔ form.ReadsAt bytes p r := by
  refine ⟨?_, ReadsAt.decodeAt_eq hform⟩
  rintro rfl
  obtain ⟨r, hr⟩ := exists_readsAt hform bytes p
  rwa [hr.decodeAt_eq hform]

end RecordForm

theorem SectionEntry.form_describes (f : Format) : (form f).Describes f := by
  obtain ⟨k, o⟩ := f
  cases k <;> exact ⟨rfl, rfl, fun _ _ => rfl⟩

theorem SegmentEntry.form_describes (f : Format) : (form f).Describes f := by
  obtain ⟨k, o⟩ := f
  cases k <;> exact ⟨rfl, rfl, fun _ _ => rfl⟩

theorem SymbolEntry.form_describes (f : Format) : (form f).Describes f := by
  obtain ⟨k, o⟩ := f
  cases k <;> exact ⟨rfl, rfl, fun _ _ => rfl⟩

/-! ## Header tables -/

/-- A table of a file, as the header gives it. -/
structure EntryTable where
  base : Nat
  entrySize : Nat
  count : Nat

namespace EntryTable

/-- Where entry `i` starts, if no file offset is too large. -/
def start (t : EntryTable) (i : Nat) : Nat := t.base + i * t.entrySize

/-- What reading entry `i` gives. -/
inductive Reads {α : Type} (t : EntryTable) (form : RecordForm α) (bytes : ByteArray) (i : Nat) :
    Except Fault α → Prop
  | behind (h : t.count ≤ i) : Reads t form bytes i (.error (.outOfRange i t.count))
  | far (hi : i < t.count) (h : 2 ^ 64 ≤ t.start i) :
    Reads t form bytes i (.error (.outOfRange i t.count))
  | entry {r : Except Fault α} (hi : i < t.count) (hnear : t.start i < 2 ^ 64)
    (h : form.ReadsAt bytes (t.start i) r) : Reads t form bytes i r

/-- The place of entry `i`, or why it has none. -/
def place (t : EntryTable) (i : Nat) : Except Fault Nat :=
  if i < t.count then entryOffset t.base t.entrySize t.count i
  else .error (.outOfRange i t.count)

variable {t : EntryTable} {i : Nat}

theorem place_of_behind (h : t.count ≤ i) : t.place i = .error (.outOfRange i t.count) :=
  if_neg (Nat.not_lt.2 h)

theorem place_of_far (hi : i < t.count) (h : 2 ^ 64 ≤ t.start i) :
    t.place i = .error (.outOfRange i t.count) := by
  have hfar : ¬ t.base + i * t.entrySize < offsetLimit := Nat.not_lt.2 h
  rw [place, if_pos hi, entryOffset, if_neg hfar]

theorem place_of_near (hi : i < t.count) (h : t.start i < 2 ^ 64) :
    t.place i = .ok (t.start i) := by
  have hnear : t.base + i * t.entrySize < offsetLimit := h
  rw [place, if_pos hi, entryOffset, if_pos hnear, start]

/-- An entry is decoded at its place. -/
theorem decode_eq_iff {α : Type} [Record α] {form : RecordForm α} {f : Format}
    (hform : form.Describes f) {bytes : ByteArray} {r : Except Fault α} :
    (t.place i >>= Record.decodeAt bytes f) = r ↔ t.Reads form bytes i r := by
  constructor
  · rintro rfl
    by_cases hi : i < t.count
    case neg =>
      rw [place_of_behind (Nat.le_of_not_lt hi)]
      exact .behind (Nat.le_of_not_lt hi)
    by_cases hnear : t.start i < 2 ^ 64
    case neg =>
      rw [place_of_far hi (Nat.le_of_not_lt hnear)]
      exact .far hi (Nat.le_of_not_lt hnear)
    rw [place_of_near hi hnear]
    exact .entry hi hnear ((RecordForm.decodeAt_eq_iff hform).1 rfl)
  · intro h
    cases h with
    | behind h => rw [place_of_behind h]; rfl
    | far hi h => rw [place_of_far hi h]; rfl
    | entry hi hnear h =>
      rw [place_of_near hi hnear]
      exact (RecordForm.decodeAt_eq_iff hform).2 h

end EntryTable

namespace Image

def sectionHeaders (img : Image) : EntryTable :=
  ⟨img.header.sectionTable, img.header.sectionEntrySize, img.header.sectionCount⟩

def programHeaders (img : Image) : EntryTable :=
  ⟨img.header.segmentTable, img.header.segmentEntrySize, img.header.segmentCount⟩

end Image

/-- Whatever has been asked before, section and program headers are read as entries of their tables:
an index below the count leads to a place, the place into the file, and there are the fields, or the
first of them that the file has not wholly. -/
theorem header_entries_read (img : Image) (asked : List Query) (i : Nat) :
    (∀ r, Session.resultAfter img asked (SessionM.sectionAt img i) = r ↔
        img.sectionHeaders.Reads (SectionEntry.form img.format) img.bytes i r) ∧
      ∀ r, Session.resultAfter img asked (SessionM.segmentAt img i) = r ↔
        img.programHeaders.Reads (SegmentEntry.form img.format) img.bytes i r := by
  constructor
  · intro r
    rw [(SessionM.sectionAt_agrees img i).resultAfter]
    have hform := SectionEntry.form_describes img.format
    exact EntryTable.decode_eq_iff (t := img.sectionHeaders) hform
  · intro r
    rw [(SessionM.segmentAt_agrees img i).resultAfter]
    have hform := SegmentEntry.form_describes img.format
    exact EntryTable.decode_eq_iff (t := img.programHeaders) hform

end ElfInspect
