import ElfInspect.Proofs.Placement

/-!
The entries of the three tables and their bytes. `written` puts the fields of an entry down one
after the other, in the order of the class; `Record.Bijective` says that this is the inverse of
reading: every window of the right size is an entry, and no byte of it is lost or read twice.
-/

namespace ElfInspect

/-! ## Written forms -/

def Format.byte (f : Format) (n : Nat) : List UInt8 := f.order.digits 1 n

def Format.half (f : Format) (n : Nat) : List UInt8 := f.order.digits 2 n

def Format.word (f : Format) (n : Nat) : List UInt8 := f.order.digits 4 n

/-- The bytes of an address, an offset or a size, four or eight by the class. -/
def Format.address (f : Format) (n : Nat) : List UInt8 := f.order.digits f.fileClass.wordSize n

def SectionEntry.written (f : Format) (s : SectionEntry) : List UInt8 :=
  f.word s.name ++ f.word s.type ++ f.address s.flags ++ f.address s.address ++
    f.address s.offset ++ f.address s.size ++ f.word s.link ++ f.word s.info ++
    f.address s.align ++ f.address s.entrySize

/-- The flags stand behind the type or behind the sizes. -/
def SegmentEntry.written (f : Format) (p : SegmentEntry) : List UInt8 :=
  match f.fileClass with
  | .elf32 =>
    f.word p.type ++ f.address p.offset ++ f.address p.virtualAddress ++
      f.address p.physicalAddress ++ f.address p.fileSize ++ f.address p.memorySize ++
      f.word p.flags ++ f.address p.align
  | .elf64 =>
    f.word p.type ++ f.word p.flags ++ f.address p.offset ++ f.address p.virtualAddress ++
      f.address p.physicalAddress ++ f.address p.fileSize ++ f.address p.memorySize ++
      f.address p.align

/-- Value and size stand before the two bytes and the section index or behind them. -/
def SymbolEntry.written (f : Format) (s : SymbolEntry) : List UInt8 :=
  match f.fileClass with
  | .elf32 =>
    f.word s.name ++ f.address s.value ++ f.address s.size ++ f.byte s.info ++
      f.byte s.other ++ f.half s.sectionIndex
  | .elf64 =>
    f.word s.name ++ f.byte s.info ++ f.byte s.other ++
      f.half s.sectionIndex ++ f.address s.value ++ f.address s.size

theorem SectionEntry.encode_eq (f : Format) (s : SectionEntry) :
    Record.encode f s = s.written f := by
  simp only [Record.encode, Record.layout, Record.toFields, layout, toFields, Fields.encode,
    Width.size, written, Format.word, Format.address, List.append_assoc, List.append_nil]

theorem SegmentEntry.encode_eq (f : Format) (p : SegmentEntry) :
    Record.encode f p = p.written f := by
  obtain ⟨k, o⟩ := f
  cases k <;>
    simp only [Record.encode, Record.layout, Record.toFields, layout, toFields, Fields.encode,
      Width.size, written, Format.word, Format.address, List.append_assoc, List.append_nil]

theorem SymbolEntry.encode_eq (f : Format) (s : SymbolEntry) :
    Record.encode f s = s.written f := by
  obtain ⟨k, o⟩ := f
  cases k <;>
    simp only [Record.encode, Record.layout, Record.toFields, layout, toFields, Fields.encode,
      Width.size, written, Format.byte, Format.half, Format.word, Format.address,
      List.append_assoc, List.append_nil]

/-! ## Reading and writing -/

namespace Record

variable {α : Type} [Record α]

/-- Entries and byte sequences of the given size are the same thing, seen through `written`. -/
structure Bijective (α : Type) [Record α] (format : Format) (size : Nat)
    (written : α → List UInt8) : Prop where
  written_decodeAt : ∀ bytes offset, offset + size ≤ bytes.size →
    ∃ a : α, decodeAt bytes format offset = .ok a ∧ Fits format.fileClass a ∧
      written a = window bytes offset size
  decodeAt_written : ∀ a : α, Fits format.fileClass a → ∀ before after,
    decodeAt (before ++ written a ++ after).toByteArray format before.length = .ok a
  written_length : ∀ a, (written a).length = size

/-- Every window of the size of a record is the written form of the record that is read there. -/
theorem encode_decodeAt {bytes : ByteArray} {format : Format} {offset : Nat}
    (h : offset + size α format.fileClass ≤ bytes.size) :
    ∃ a : α, decodeAt bytes format offset = .ok a ∧ Fits format.fileClass a ∧
      encode format a = window bytes offset (size α format.fileClass) := by
  refine ⟨_, decodeAt_ok_iff.2 ⟨h, rfl⟩, ?_, ?_⟩
  · rw [Fits, toFields_ofFields]
    exact Fields.decode_fit _ _ _
  · rw [encode, toFields_ofFields]
    exact Fields.encode_decode _ _ _ (window_length h)

theorem bijective_of_encode {format : Format} {n : Nat} {written : α → List UInt8}
    (hsize : size α format.fileClass = n) (hwritten : ∀ a, encode format a = written a) :
    Bijective α format n written := by
  subst hsize
  obtain rfl : encode format = written := funext hwritten
  constructor
  case written_decodeAt => exact fun bytes offset h => encode_decodeAt h
  case decodeAt_written =>
    exact fun a hfits before after => (holdsAt_middle before _ after).decodeAt_eq hfits
  case written_length => exact encode_length format

/-- Entries that fit are written one after the other. -/
theorem encodeAll_of_fits {format : Format} {entries : List α}
    (h : ∀ a ∈ entries, Fits format.fileClass a) :
    Blueprint.encodeAll? format entries = some (entries.flatMap (encode format)) := by
  induction entries with
  | nil => rfl
  | cons a entries ih =>
    have hfirst : encode? format a = some (encode format a) := if_pos (h a List.mem_cons_self)
    have hrest := ih fun b hb => h b (List.mem_cons_of_mem a hb)
    rw [Blueprint.encodeAll?, Option.map_eq_some_iff] at hrest ⊢
    obtain ⟨parts, hparts, hflat⟩ := hrest
    refine ⟨encode format a :: parts, ?_, ?_⟩
    · rw [List.mapM_cons, hfirst, hparts]
      rfl
    · rw [List.flatten_cons, hflat, List.flatMap_cons]

end Record

/-- How many bytes an entry takes in the two classes. -/
def FileClass.choose (k : FileClass) (small large : Nat) : Nat :=
  match k with
  | .elf32 => small
  | .elf64 => large

/-- Table entries of every format are read from any bytes of their size, and written as they were
read; the writers of symbol tables and of program headers put down these written forms. -/
theorem tables_bijective (format : Format) :
    Record.Bijective SectionEntry format (format.fileClass.choose 40 64)
        (SectionEntry.written format) ∧
      Record.Bijective SegmentEntry format (format.fileClass.choose 32 56)
        (SegmentEntry.written format) ∧
      Record.Bijective SymbolEntry format (format.fileClass.choose 16 24)
        (SymbolEntry.written format) ∧
      (∀ symbols : List SymbolEntry, (∀ s ∈ symbols, Record.Fits format.fileClass s) →
        Blueprint.encodeAll? format symbols =
          some (symbols.flatMap (SymbolEntry.written format))) ∧
      ∀ (plan : SegmentPlan) (offset fileSize : Nat),
        let p : SegmentEntry := {
          type := plan.type
          flags := plan.flags
          offset
          virtualAddress := plan.address
          physicalAddress := plan.address
          fileSize
          memorySize := plan.memorySize.getD fileSize
          align := plan.align }
        Record.Fits format.fileClass p →
          Record.encode? format (plan.entry offset fileSize) = some (p.written format) := by
  obtain ⟨k, o⟩ := format
  refine ⟨?_, ?_, ?_, ?_, ?_⟩
  · exact Record.bijective_of_encode (by cases k <;> rfl) (SectionEntry.encode_eq _)
  · exact Record.bijective_of_encode (by cases k <;> rfl) (SegmentEntry.encode_eq _)
  · exact Record.bijective_of_encode (by cases k <;> rfl) (SymbolEntry.encode_eq _)
  · intro symbols hfits
    have hwritten : Record.encode ⟨k, o⟩ = SymbolEntry.written ⟨k, o⟩ :=
      funext (SymbolEntry.encode_eq _)
    rw [Record.encodeAll_of_fits hfits, hwritten]
  · intro plan offset fileSize p hfits
    rw [← SegmentEntry.encode_eq]
    exact if_pos hfits

/-- A symbol among other bytes, a program header that is no segment's, and what the writers make of
a symbol and of a segment whose memory is larger than its contents. -/
theorem tables_bijective_sample :
    Record.decodeAt ([0xff] ++ SymbolEntry.written ⟨.elf32, .msb⟩ ⟨1, 0x1000, 2, 0x12, 3, 4⟩ ++
        [0xff]).toByteArray ⟨.elf32, .msb⟩ 1 = .ok (⟨1, 0x1000, 2, 0x12, 3, 4⟩ : SymbolEntry) ∧
      (∃ p : SegmentEntry,
        Record.decodeAt ⟨Array.replicate 33 0xee⟩ ⟨.elf32, .msb⟩ 1 = .ok p ∧
          p.written ⟨.elf32, .msb⟩ = window ⟨Array.replicate 33 0xee⟩ 1 32) ∧
      Blueprint.encodeAll? ⟨.elf32, .msb⟩ [(⟨1, 0x1000, 2, 0x12, 3, 4⟩ : SymbolEntry)] =
        some (SymbolEntry.written ⟨.elf32, .msb⟩ ⟨1, 0x1000, 2, 0x12, 3, 4⟩) ∧
      Record.encode? ⟨.elf32, .msb⟩
          (SegmentPlan.entry
            { type := 1, contents := [0x90], flags := 5, memorySize := some 8 } 64 1) =
        some (SegmentEntry.written ⟨.elf32, .msb⟩ ⟨1, 5, 64, 0, 0, 1, 8, 1⟩) := by
  obtain ⟨-, hsegments, hsymbols, hall, hplan⟩ := tables_bijective ⟨.elf32, .msb⟩
  obtain ⟨p, hread, -, hwritten⟩ :=
    hsegments.written_decodeAt ⟨Array.replicate 33 0xee⟩ 1 (by decide)
  exact ⟨hsymbols.decodeAt_written _ (by decide) [0xff] [0xff], ⟨p, hread, hwritten⟩,
    hall _ (by decide), hplan _ _ _ (by decide)⟩

example : SymbolEntry.written ⟨.elf64, .lsb⟩ ⟨1, 0x1000, 2, 0x12, 3, 4⟩ =
    [1, 0, 0, 0, 0x12, 3, 4, 0, 0, 0x10, 0, 0, 0, 0, 0, 0, 2, 0, 0, 0, 0, 0, 0, 0] := by decide

end ElfInspect
