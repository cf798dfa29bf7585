import ElfInspect.Proofs.Laziness
import ElfInspect.Proofs.WrittenForms

/-!
Which bytes an answer depends on. `Query.footprint` lists the parts of a file that a question names:
the entries on its way and the bytes that these entries point to. Two files of one size and with the
same header that agree there give the same answer or the same fault, whatever else is damaged in
either of them and whatever has been asked before.
-/

namespace ElfInspect

/-- A part of a file; what lies behind the end of the file belongs to no part. -/
structure Extent where
  offset : Nat
  length : Nat
  deriving DecidableEq, Repr

/-- Both byte sequences hold the same bytes in the given part. -/
def AgreeOn (bytes bytes' : ByteArray) (e : Extent) : Prop :=
  window bytes e.offset e.length = window bytes' e.offset e.length

instance (bytes bytes' : ByteArray) (e : Extent) : Decidable (AgreeOn bytes bytes' e) :=
  inferInstanceAs (Decidable (_ = _))

/-! ## Footprints -/

/-- The bytes of the section in the file. -/
def SectionEntry.extent (s : SectionEntry) : Extent := ⟨s.offset, s.size⟩

def SegmentEntry.extent (p : SegmentEntry) : Extent := ⟨p.offset, p.fileSize⟩

namespace Image

variable (img : Image)

/-- The entry of section `i` in the section header table. -/
def sectionExtent (i : Nat) : Extent :=
  ⟨img.header.sectionTable + i * img.header.sectionEntrySize,
    Record.size SectionEntry img.format.fileClass⟩

/-- The entry of segment `i` in the program header table. -/
def segmentExtent (i : Nat) : Extent :=
  ⟨img.header.segmentTable + i * img.header.segmentEntrySize,
    Record.size SegmentEntry img.format.fileClass⟩

/-- Entry `j` of the symbol table that is section `s`. -/
def symbolExtent (s : SectionEntry) (j : Nat) : Extent :=
  ⟨s.offset + j * s.entrySize, Record.size SymbolEntry img.format.fileClass⟩

/-- Parts that an entry points to, if there is one. -/
def pointedTo {α : Type} (entry : Except Fault α) (parts : α → List Extent) : List Extent :=
  match entry with
  | .ok a => parts a
  | .error _ => []

/-- The entry of section `i` and the bytes of the section. -/
def sectionFootprint (i : Nat) : List Extent :=
  img.sectionExtent i :: pointedTo (img.sectionAt i) fun s => [s.extent]

/-- The entry of section `i` and that of symbol `j` in it. -/
def symbolFootprint (i j : Nat) : List Extent :=
  img.sectionExtent i :: pointedTo (img.sectionAt i) fun s => [img.symbolExtent s j]

/-- The entry of segment `i` and the bytes of the segment. -/
def segmentFootprint (i : Nat) : List Extent :=
  img.segmentExtent i :: pointedTo (img.segmentAt i) fun p => [p.extent]

end Image

/-- The parts of the file that a question names. One that walks over a table may name any part. -/
def Query.footprint (img : Image) : Query → List Extent
  | .sectionEntry i | .entryCount i => [img.sectionExtent i]
  | .sectionData i | .sectionStrings i | .sectionString i _ => img.sectionFootprint i
  | .sectionName i => img.sectionExtent i :: img.sectionFootprint img.header.nameSection
  | .symbol i j | .symbolContains i j _ => img.symbolFootprint i j
  | .symbolName i j =>
    img.symbolFootprint i j ++
      Image.pointedTo (img.sectionAt i) fun s => img.sectionFootprint s.link
  | .segment i => [img.segmentExtent i]
  | .segmentData i | .segmentInterpreter i => img.segmentFootprint i
  | .nameTable => img.sectionFootprint img.header.nameSection
  | _ => [⟨0, img.bytes.size⟩]

/-! ## Reading where two files agree -/

section Reading

variable {bytes bytes' : ByteArray}

theorem slice_agree (hsize : bytes'.size = bytes.size) {offset length : Nat}
    (h : AgreeOn bytes bytes' ⟨offset, length⟩) :
    slice bytes' offset length = slice bytes offset length := by
  have hextract : bytes'.extract offset (offset + length) =
      bytes.extract offset (offset + length) := by
    rw [ByteArray.ext_iff, ← Array.toList_inj]
    exact h.symm
  unfold slice
  rw [hsize, hextract]

theorem Fields.read_agree (hsize : bytes'.size = bytes.size) (format : Format) (ws : Layout)
    {pos : Nat} (h : AgreeOn bytes bytes' ⟨pos, Layout.size format.fileClass ws⟩) :
    (read ws ⟨bytes', format, pos⟩).map Prod.fst = (read ws ⟨bytes, format, pos⟩).map Prod.fst := by
  induction ws generalizing pos with
  | nil => rfl
  | cons w ws ih =>
    by_cases hin : pos + w.size format.fileClass ≤ bytes.size
    · have hin' : pos + w.size format.fileClass ≤ bytes'.size := by omega
      simp only [AgreeOn, Layout.size, window_add] at h
      obtain ⟨hfirst, hrest⟩ := List.append_inj h (by rw [window_length hin, window_length hin'])
      have hread := ih hrest
      have htake := Cursor.take_of_le (c := ⟨bytes, format, pos⟩) hin
      have htake' := Cursor.take_of_le (c := ⟨bytes', format, pos⟩) hin'
      simp only [read, Cursor.number, htake, htake', hfirst]
      generalize read ws ⟨bytes, format, pos + w.size format.fileClass⟩ = r at hread ⊢
      generalize read ws ⟨bytes', format, pos + w.size format.fileClass⟩ = r' at hread ⊢
      rcases r with fault | ⟨rest, c⟩ <;> rcases r' with fault' | ⟨rest', c'⟩ <;>
        simp_all [Except.map]
    · have htake := Cursor.take_of_lt (c := ⟨bytes, format, pos⟩) (Nat.lt_of_not_le hin)
      have htake' := Cursor.take_of_lt (c := ⟨bytes', format, pos⟩)
        (hsize ▸ Nat.lt_of_not_le hin)
      simp only [read, Cursor.number, htake, htake', Except.map]

theorem Record.decodeAt_agree {α : Type} [Record α] (hsize : bytes'.size = bytes.size)
    (format : Format) {offset : Nat}
    (h : AgreeOn bytes bytes' ⟨offset, size α format.fileClass⟩) :
    decodeAt (α := α) bytes' format offset = decodeAt bytes format offset := by
  by_cases hle : offset ≤ bytes.size
  · have hread := Fields.read_agree hsize format (layout α format.fileClass) h
    rw [decodeAt_of_le hle, decodeAt_of_le (by omega)]
    generalize Fields.read (layout α format.fileClass) ⟨bytes, format, offset⟩ = r at hread ⊢
    generalize Fields.read (layout α format.fileClass) ⟨bytes', format, offset⟩ = r' at hread ⊢
    rcases r with fault | ⟨f, c⟩ <;> rcases r' with fault' | ⟨f', c'⟩ <;> simp_all [Except.map]
  · rw [decodeAt_of_lt (Nat.lt_of_not_le hle), decodeAt_of_lt (by omega), hsize]

namespace SectionEntry

theorem data_agree (s : SectionEntry) (hsize : bytes'.size = bytes.size)
    (h : AgreeOn bytes bytes' s.extent) : s.data bytes' = s.data bytes := by
  unfold data
  rw [slice_agree hsize h]

/-- How many symbols a section holds is a matter of the size of the file. -/
theorem symbolCount_size (s : SectionEntry) (hsize : bytes'.size = bytes.size) :
    s.symbolCount bytes' = s.symbolCount bytes := by
  rw [symbolCount_eq, symbolCount_eq]
  unfold slice
  rw [hsize]
  split
  · rfl
  · split
    · rfl
    · split <;> rfl

end SectionEntry

theorem SegmentEntry.data_agree (p : SegmentEntry) (hsize : bytes'.size = bytes.size)
    (h : AgreeOn bytes bytes' p.extent) : p.data bytes' = p.data bytes :=
  slice_agree hsize h

theorem SegmentEntry.interpreter_agree (p : SegmentEntry) (hsize : bytes'.size = bytes.size)
    (h : AgreeOn bytes bytes' p.extent) : p.interpreter bytes' = p.interpreter bytes := by
  unfold interpreter
  rw [p.data_agree hsize h]

end Reading

/-! ## Asking where two files agree -/

theorem bind_congr_of_ok {α β : Type} {r : Except Fault α} {f f' : α → Except Fault β}
    (h : ∀ a, r = .ok a → f' a = f a) : (r >>= f') = (r >>= f) := by
  cases r with
  | error fault => rfl
  | ok a => exact h a rfl

namespace Image

variable {img img' : Image} {i j : Nat}

theorem mem_pointedTo {α : Type} {r : Except Fault α} {a : α} {parts : α → List Extent}
    {e : Extent} (h : r = .ok a) (he : e ∈ parts a) : e ∈ pointedTo r parts := by
  rw [h]
  exact he

section Asking

variable (hheader : img'.header = img.header) (hsize : img'.bytes.size = img.bytes.size)
include hheader

theorem format_agree : img'.format = img.format := congrArg Header.format hheader

include hsize

theorem sectionAt_agree (h : AgreeOn img.bytes img'.bytes (img.sectionExtent i)) :
    img'.sectionAt i = img.sectionAt i := by
  have hoffset : img'.sectionOffset i = img.sectionOffset i := by rw [sectionOffset, hheader]; rfl
  unfold sectionAt
  rw [hoffset, format_agree hheader]
  apply bind_congr_of_ok
  intro offset hat
  obtain ⟨-, -, rfl⟩ := sectionOffset_ok_iff.1 hat
  exact Record.decodeAt_agree hsize img.format h

theorem segmentAt_agree (h : AgreeOn img.bytes img'.bytes (img.segmentExtent i)) :
    img'.segmentAt i = img.segmentAt i := by
  have hoffset : img'.segmentOffset i = img.segmentOffset i := by rw [segmentOffset, hheader]; rfl
  unfold segmentAt
  rw [hoffset, format_agree hheader]
  apply bind_congr_of_ok
  intro offset hat
  obtain ⟨-, -, rfl⟩ := segmentOffset_ok_iff.1 hat
  exact Record.decodeAt_agree hsize img.format h

/-- The entry of a symbol's table counts, and the size of the file, but no byte of the table other
than those of the symbol. -/
theorem symbolAt_agree (h : ∀ e ∈ img.symbolFootprint i j, AgreeOn img.bytes img'.bytes e) :
    img'.symbolAt i j = img.symbolAt i j := by
  unfold symbolAt
  rw [sectionAt_agree hheader hsize (h _ List.mem_cons_self), format_agree hheader]
  apply bind_congr_of_ok
  intro s hs
  have hsymbol : AgreeOn img.bytes img'.bytes (img.symbolExtent s j) :=
    h _ (List.mem_cons_of_mem _ (mem_pointedTo hs List.mem_cons_self))
  rw [s.symbolCount_size hsize]
  apply bind_congr_of_ok
  intro count _
  apply bind_congr_of_ok
  intro offset hat
  obtain ⟨-, -, rfl⟩ := symbolOffset_ok_iff.1 hat
  exact Record.decodeAt_agree hsize img.format hsymbol

/-- A question about a section's entry and bytes. -/
theorem section_agree {β : Type} {f f' : SectionEntry → Except Fault β}
    (h : ∀ e ∈ img.sectionFootprint i, AgreeOn img.bytes img'.bytes e)
    (hf : ∀ s : SectionEntry, s.data img'.bytes = s.data img.bytes → f' s = f s) :
    (img'.sectionAt i >>= f') = (img.sectionAt i >>= f) := by
  rw [sectionAt_agree hheader hsize (h _ List.mem_cons_self)]
  apply bind_congr_of_ok
  intro s hs
  exact hf s (s.data_agree hsize
    (h _ (List.mem_cons_of_mem _ (mem_pointedTo hs List.mem_cons_self))))

/-- A question about a segment's entry and bytes. -/
theorem segment_agree {β : Type} {f f' : SegmentEntry → Except Fault β}
    (h : ∀ e ∈ img.segmentFootprint i, AgreeOn img.bytes img'.bytes e)
    (hf : ∀ p : SegmentEntry, AgreeOn img.bytes img'.bytes p.extent → f' p = f p) :
    (img'.segmentAt i >>= f') = (img.segmentAt i >>= f) := by
  rw [segmentAt_agree hheader hsize (h _ List.mem_cons_self)]
  apply bind_congr_of_ok
  intro p hp
  exact hf p (h _ (List.mem_cons_of_mem _ (mem_pointedTo hp List.mem_cons_self)))

theorem stringTable_agree (h : ∀ e ∈ img.sectionFootprint i, AgreeOn img.bytes img'.bytes e) :
    img'.stringTable i = img.stringTable i :=
  section_agree hheader hsize h fun _ hdata => by rw [hdata]

theorem nameTable_agree
    (h : ∀ e ∈ img.sectionFootprint img.header.nameSection, AgreeOn img.bytes img'.bytes e) :
    img'.nameTable = img.nameTable := by
  unfold nameTable
  rw [hheader, stringTable_agree hheader hsize h]

theorem sectionName_agree (hentry : AgreeOn img.bytes img'.bytes (img.sectionExtent i))
    (h : ∀ e ∈ img.sectionFootprint img.header.nameSection, AgreeOn img.bytes img'.bytes e) :
    img'.sectionName i = img.sectionName i := by
  unfold sectionName
  rw [sectionAt_agree hheader hsize hentry, nameTable_agree hheader hsize h]

theorem symbolName_agree (h : ∀ e ∈ img.symbolFootprint i j, AgreeOn img.bytes img'.bytes e)
    (hlinked : ∀ e ∈ pointedTo (img.sectionAt i) fun s => img.sectionFootprint s.link,
      AgreeOn img.bytes img'.bytes e) :
    img'.symbolName i j = img.symbolName i j := by
  unfold symbolName
  rw [sectionAt_agree hheader hsize (h _ List.mem_cons_self), symbolAt_agree hheader hsize h]
  apply bind_congr_of_ok
  intro s hs
  rw [stringTable_agree hheader hsize fun e he => hlinked e (mem_pointedTo hs he)]

/-- Files that agree from the start to the end are the same. -/
theorem eq_of_agree (h : AgreeOn img.bytes img'.bytes ⟨0, img.bytes.size⟩) : img' = img := by
  have hbytes : img'.bytes = img.bytes := by
    have hextract : img'.bytes.extract 0 (0 + img.bytes.size) =
        img.bytes.extract 0 (0 + img.bytes.size) := by
      rw [ByteArray.ext_iff, ← Array.toList_inj]
      exact h.symm
    rwa [Nat.zero_add, ByteArray.extract_zero_size, ← hsize, ByteArray.extract_zero_size]
      at hextract
  cases img
  cases img'
  simp_all

end Asking

end Image

theorem Query.fresh_agree {img img' : Image} (hheader : img'.header = img.header)
    (hsize : img'.bytes.size = img.bytes.size) (q : Query)
    (h : ∀ e ∈ q.footprint img, AgreeOn img.bytes img'.bytes e) :
    q.fresh img' = q.fresh img := by
  have whole : ∀ q : Query, AgreeOn img.bytes img'.bytes ⟨0, img.bytes.size⟩ →
      q.fresh img' = q.fresh img := fun q hwhole => by
    rw [Image.eq_of_agree hheader hsize hwhole]
  cases q
  case sectionEntry i | entryCount i =>
    have hentry := Image.sectionAt_agree hheader hsize (h _ List.mem_cons_self)
    simp only [fresh, hentry]
  case sectionData i =>
    exact Image.section_agree hheader hsize h fun _ hdata => by rw [hdata]
  case sectionStrings i | sectionString i offset =>
    have htable := Image.stringTable_agree hheader hsize h
    simp only [fresh, htable]
  case sectionName i =>
    have hname := Image.sectionName_agree hheader hsize (h _ List.mem_cons_self)
      fun e he => h e (List.mem_cons_of_mem _ he)
    simp only [fresh, hname]
  case symbol i j | symbolContains i j addresses =>
    have hsymbol := Image.symbolAt_agree hheader hsize h
    simp only [fresh, hsymbol]
  case symbolName i j =>
    have hname := Image.symbolName_agree hheader hsize
      (fun e he => h e (List.mem_append_left _ he)) fun e he => h e (List.mem_append_right _ he)
    simp only [fresh, hname]
  case segment i =>
    have hentry := Image.segmentAt_agree hheader hsize (h _ List.mem_cons_self)
    simp only [fresh, hentry]
  case segmentData i =>
    exact Image.segment_agree hheader hsize h fun p hp => by rw [p.data_agree hsize hp]
  case segmentInterpreter i =>
    exact Image.segment_agree hheader hsize h fun p hp => by rw [p.interpreter_agree hsize hp]
  case nameTable =>
    have htable := Image.nameTable_agree hheader hsize h
    simp only [fresh, htable]
  all_goals exact whole _ (h _ List.mem_cons_self)

/-- An answer depends only on the bytes that the question names: two files of one size and with the
same header that agree there give the same answer, or the same fault, after any questions. -/
theorem answer_depends_on_footprint {img img' : Image} (hheader : img'.header = img.header)
    (hsize : img'.bytes.size = img.bytes.size) (q : Query)
    (hagree : ∀ e ∈ q.footprint img, AgreeOn img.bytes img'.bytes e)
    (asked asked' : List Query) :
    q.answerAfter img' asked' = q.answerAfter img asked := by
  rw [Query.answerAfter_eq_fresh, Query.answerAfter_eq_fresh]
  exact q.fresh_agree hheader hsize hagree

/-- A header that announces three sections. -/
def threeSections : Header where
  format := ⟨.elf32, .lsb⟩
  osAbi := 0
  abiVersion := 0
  objectType := 1
  machine := 3
  version := 1
  entry := 0
  segmentTable := 0
  sectionTable := 52
  flags := 0
  headerSize := 52
  segmentEntrySize := 32
  segmentCount := 0
  sectionEntrySize := 40
  sectionCount := 3
  nameSection := 0

/-- Section 1 is a table of two symbols with names in section 2. The first entries of the section
table and of the symbol table are the given bytes. -/
def symbolsBehind (entry symbol : List UInt8) : Image where
  header := threeSections
  bytes := ⟨(threeSections.encode ++ entry ++
    SectionEntry.written ⟨.elf32, .lsb⟩ ⟨0, SectionEntry.symtab, 0, 0, 172, 32, 2, 1, 4, 16⟩ ++
    SectionEntry.written ⟨.elf32, .lsb⟩ ⟨0, SectionEntry.strtab, 0, 0, 204, 4, 0, 0, 1, 0⟩ ++
    symbol ++ SymbolEntry.written ⟨.elf32, .lsb⟩ ⟨1, 0x1000, 2, 0x12, 0, 1⟩ ++
    [0, 0x61, 0x62, 0]).toArray⟩

/-- The name of symbol 1 is the same in a file whose section 0 and symbol 0 are damaged. -/
theorem answer_depends_on_footprint_damaged :
    Query.answerAfter (symbolsBehind (List.replicate 40 0xff) (List.replicate 16 0xff))
        [.sectionNames, .symbolNames 1] (.symbolName 1 1) =
      Query.answerAfter (symbolsBehind (List.replicate 40 0) (List.replicate 16 0)) []
        (.symbolName 1 1) := by
  have hheader : ∀ entry symbol, (symbolsBehind entry symbol).header = threeSections :=
    fun _ _ => rfl
  have hfootprint : Query.footprint (symbolsBehind (List.replicate 40 0) (List.replicate 16 0))
      (.symbolName 1 1) = [⟨92, 40⟩, ⟨188, 16⟩, ⟨132, 40⟩, ⟨204, 4⟩] := by decide +kernel
  refine answer_depends_on_footprint ((hheader _ _).trans (hheader _ _).symm) (by decide +kernel)
    _ ?_ _ _
  rw [hfootprint]
  decide +kernel

end ElfInspect
