import ElfInspect.Draft
import ElfInspect.Proofs.Assembly
import ElfInspect.Proofs.WrittenForms

/-!
What the steps of a draft come to. Each step appends what it writes, unless an address among it is
refused, and so does each run of steps. Hence the image that is built step by step is made of the
parts that the blueprint has names for: `Blueprint.build_eq`.
-/

namespace ElfInspect

/-! ## Addresses -/

/-- Addresses have four bytes, and one of the numbers does not fit them. -/
def FileClass.Overflows (k : FileClass) (addresses : List Nat) : Prop :=
  k = .elf32 ∧ ∃ n ∈ addresses, 0x1_0000_0000 ≤ n

instance (k : FileClass) (addresses : List Nat) : Decidable (k.Overflows addresses) :=
  inferInstanceAs (Decidable (_ ∧ _))

theorem FileClass.overflows_append {k : FileClass} {ns ms : List Nat} :
    k.Overflows (ns ++ ms) ↔ k.Overflows ns ∨ k.Overflows ms := by
  simp only [Overflows, List.mem_append, or_and_right, exists_or, and_or_left]

theorem FileClass.not_overflows_nil (k : FileClass) : ¬ k.Overflows [] := by
  simp [Overflows]

/-- The numbers in the address fields. -/
def Fields.addresses : (ws : Layout) → Fields ws → List Nat
  | [], _ => []
  | w :: ws, (n, rest) => (if w = .address then [n] else []) ++ addresses ws rest

/-- The numbers in the address fields of a record. -/
def Record.addresses {α : Type} [Record α] (k : FileClass) (a : α) : List Nat :=
  Fields.addresses (layout α k) (toFields k a)

/-- The address-sized numbers of a file header. -/
def Header.addresses (h : Header) : List Nat := [h.entry, h.segmentTable, h.sectionTable]

def SegmentEntry.addresses (p : SegmentEntry) : List Nat :=
  [p.offset, p.virtualAddress, p.physicalAddress, p.fileSize, p.memorySize, p.align]

def SectionEntry.addresses (s : SectionEntry) : List Nat :=
  [s.flags, s.address, s.offset, s.size, s.align, s.entrySize]

theorem Header.addresses_eq (h : Header) :
    Fields.addresses Header.bodyLayout h.body = h.addresses := rfl

theorem SegmentEntry.addresses_eq (k : FileClass) : Record.addresses k = addresses := by
  funext p
  cases k <;> rfl

namespace Draft

/-! ## Steps -/

/-- The draft with more bytes, unless one of the addresses among them is refused. -/
def written (d : Draft) (addresses : List Nat) (part : List UInt8) : Option Draft :=
  if d.format.fileClass.Overflows addresses then none else some (d.append part)

variable {d : Draft}

theorem toList_append (p : List UInt8) : (d.append p).bytes.toList = d.bytes.toList ++ p :=
  Array.toList_appendList

theorem offset_eq : d.offset = d.bytes.toList.length := Array.length_toList.symm

theorem offset_ofBytes (format : Format) (bs : List UInt8) :
    (ofBytes format bs).offset = bs.length := rfl

theorem toList_ofBytes (format : Format) (bs : List UInt8) :
    (ofBytes format bs).bytes.toList = bs := rfl

theorem append_ofBytes (format : Format) (p q : List UInt8) :
    (ofBytes format p).append q = ofBytes format (p ++ q) := by
  simp only [append, ofBytes, Draft.mk.injEq, true_and, ← Array.toList_inj,
    Array.toList_appendList]

theorem offset_append (p : List UInt8) : (d.append p).offset = d.offset + p.length := by
  rw [offset_eq, toList_append, List.length_append, offset_eq]

theorem append_nil : d.append [] = d := by
  rw [append, Array.appendList_nil]

theorem append_append (p q : List UInt8) : (d.append p).append q = d.append (p ++ q) := by
  simp only [append, Draft.mk.injEq, true_and, ← Array.toList_inj, Array.toList_appendList,
    List.append_assoc]

theorem written_nil : d.written [] [] = some d := by
  rw [written, if_neg (FileClass.not_overflows_nil _), append_nil]

theorem written_ofBytes (format : Format) (p q : List UInt8) (ns : List Nat) :
    (ofBytes format p).written ns q =
      if format.fileClass.Overflows ns then none else some (ofBytes format (p ++ q)) := by
  rw [written, append_ofBytes]
  rfl

/-- A run of steps goes on from where the one before it ends. -/
theorem written_bind {next : Draft → Option Draft} {ns ms : List Nat} {p q : List UInt8}
    (h : next (d.append p) = (d.append p).written ms q) :
    (d.written ns p).bind next = d.written (ns ++ ms) (p ++ q) := by
  have happend : d.format.fileClass.Overflows (ns ++ ms) ↔ _ := FileClass.overflows_append
  rw [written, written]
  split
  case isTrue hns => rw [if_pos (happend.2 (.inl hns)), Option.bind_none]
  case isFalse hns =>
    rw [Option.bind_some, h, written, append_append]
    refine if_congr ?_ rfl rfl
    rw [happend, or_iff_right hns]
    rfl

theorem field_eq (w : Width) (n : Nat) :
    d.field w n = d.written (if w = .address then [n] else [])
      (d.format.order.digits (w.size d.format.fileClass) n) := by
  refine if_congr ?_ rfl rfl
  by_cases hw : w = .address <;> simp [FileClass.Refuses, FileClass.Overflows, hw]

/-! ## Runs -/

theorem lay_eq (d : Draft) (chunks : List (List UInt8)) :
    d.lay chunks = (d.append (pack d.offset chunks), place d.offset chunks) := by
  induction chunks generalizing d with
  | nil => rw [lay, pack, place, append_nil]
  | cons chunk rest ih =>
    have halign : d.align.offset = aligned d.offset := by
      have hle := le_aligned d.offset
      rw [align, offset_append, length_zeros]
      omega
    simp only [lay, ih, offset_append, halign, pack, place]
    rw [align, append_append, append_append, List.append_assoc]

theorem fields_eq (d : Draft) (ws : Layout) (f : Fields ws) :
    d.fields ws f = d.written (Fields.addresses ws f) (Fields.encode d.format ws f) := by
  induction ws generalizing d with
  | nil => exact written_nil.symm
  | cons w ws ih =>
    obtain ⟨n, rest⟩ := f
    rw [fields, field_eq]
    exact written_bind (ih _ rest)

theorem records_eq {α : Type} [Record α] (d : Draft) (records : List α) :
    d.records records =
      d.written (records.flatMap (Record.addresses d.format.fileClass))
        (records.flatMap (Record.encode d.format)) := by
  induction records generalizing d with
  | nil => exact written_nil.symm
  | cons a rest ih =>
    rw [Draft.records, fields_eq]
    exact written_bind (ih _)

/-- Bytes that take the place of a gap of their length. -/
theorem overwrite_ofBytes {format : Format} {front gap : List UInt8}
    (h : front.length = gap.length) (rest : List UInt8) :
    (ofBytes format (gap ++ rest)).overwrite (ofBytes format front).bytes =
      some (ofBytes format (front ++ rest)) := by
  have hsize : (ofBytes format front).bytes.size ≤ (ofBytes format (gap ++ rest)).bytes.size := by
    simp only [ofBytes, List.size_toArray, List.length_append]
    omega
  rw [overwrite, if_pos hsize]
  simp [ofBytes, h]

end Draft

/-! ## Images -/

namespace Blueprint

/-- The address-sized numbers that the image states. -/
def addresses (b : Blueprint) : List Nat :=
  b.header.addresses ++ b.segmentEntries.flatMap SegmentEntry.addresses ++
    b.sectionEntries.flatMap SectionEntry.addresses

/-- The file header and the program headers. -/
def front (b : Blueprint) : List UInt8 :=
  b.header.encode ++ b.segmentEntries.flatMap (Record.encode b.format)

/-- Everything between the tables. -/
def contents (b : Blueprint) : List UInt8 :=
  pack b.contentStart b.segmentChunks ++ pack b.segmentEnd b.sectionChunks ++
    zeros (b.sectionTable - b.contentEnd)

/-- The section headers. -/
def back (b : Blueprint) : List UInt8 := b.sectionEntries.flatMap (Record.encode b.format)

theorem layContents_eq (b : Blueprint) :
    b.layContents =
      (.ofBytes b.format (zeros b.contentStart ++ b.contents),
        place b.contentStart b.segmentChunks, place b.segmentEnd b.sectionChunks) := by
  have hsegments : b.contentStart + (pack b.contentStart b.segmentChunks).length = b.segmentEnd :=
    pack_length _ _
  have hsections : b.segmentEnd + (pack b.segmentEnd b.sectionChunks).length = b.contentEnd :=
    pack_length _ _
  simp only [layContents, Draft.lay_eq, Draft.align, Draft.append_ofBytes, Draft.offset_ofBytes,
    List.length_append, length_zeros, hsegments, hsections]
  simp only [contents, sectionTable, List.append_assoc]

theorem encode_null (format : Format) :
    Record.encode format (⟨0, 0, 0, 0, 0, 0, 0, 0, 0, 0⟩ : SectionEntry) =
      zeros (Record.size SectionEntry format.fileClass) := by
  obtain ⟨k, o⟩ := format
  cases k <;> cases o <;> rfl

theorem writeSections_eq (b : Blueprint) :
    b.writeSections (place b.segmentEnd b.sectionChunks) =
      if b.format.fileClass.Overflows (b.sectionEntries.flatMap SectionEntry.addresses) then none
      else some (.ofBytes b.format b.back) := by
  rw [writeSections, Draft.records_eq, Draft.written_ofBytes, back, sectionEntries,
    List.flatMap_cons, List.flatMap_cons, encode_null]
  refine if_congr ?_ rfl rfl
  rw [FileClass.overflows_append, or_iff_right]
  · rfl
  · simp [FileClass.Overflows, SectionEntry.addresses]

theorem writeHeader_eq (b : Blueprint) :
    b.writeHeader b.sectionTable =
      if b.format.fileClass.Overflows b.header.addresses then none
      else some (.ofBytes b.format b.header.encode) := by
  have hsize : (Draft.ofBytes b.format b.header.encode).offset = Header.size b.format.fileClass :=
    Header.encode_length _
  have hwrite : b.writeHeader b.sectionTable =
      ((Draft.ofBytes b.format b.header.ident).fields Header.bodyLayout b.header.body).bind
        fun header => do
          guard (header.offset = Header.size b.format.fileClass)
          return header := rfl
  rw [hwrite, Draft.fields_eq, Draft.written_ofBytes, Header.addresses_eq]
  change Option.bind (if _ then none else some (Draft.ofBytes b.format b.header.encode)) _ = _
  split
  · rfl
  · rw [Option.bind_some, guard, if_pos hsize]
    rfl

theorem writeSegments_eq (b : Blueprint) :
    b.writeSegments (.ofBytes b.format b.header.encode) (place b.contentStart b.segmentChunks) =
      if b.format.fileClass.Overflows (b.segmentEntries.flatMap SegmentEntry.addresses) then none
      else some (.ofBytes b.format b.front) := by
  rw [writeSegments, Draft.records_eq, SegmentEntry.addresses_eq, Draft.written_ofBytes]
  rfl

theorem front_length (b : Blueprint) : b.front.length = b.contentStart := by
  rw [front, List.length_append, Header.encode_length, length_flatMap_encode,
    segmentEntries_length]
  rfl

theorem back_length (b : Blueprint) :
    b.back.length = b.sectionCount * Record.size SectionEntry b.format.fileClass := by
  rw [back, length_flatMap_encode, sectionEntries_length]

theorem contents_end (b : Blueprint) : b.contentStart + b.contents.length = b.sectionTable := by
  have hle := le_aligned b.contentEnd
  rw [contents, List.length_append, List.length_append, ← Nat.add_assoc, ← Nat.add_assoc,
    pack_length, ← segmentEnd, pack_length, ← contentEnd, length_zeros, sectionTable]
  omega

theorem guard_bind {α : Type} {p : Prop} [Decidable p] (rest : Option α) :
    ((guard p : Option Unit).bind fun _ => rest) = if p then rest else none := by
  by_cases h : p <;> simp [guard, h]

theorem overflows_addresses {k : FileClass} {b : Blueprint} :
    k.Overflows b.addresses ↔
      k.Overflows b.header.addresses ∨
        k.Overflows (b.segmentEntries.flatMap SegmentEntry.addresses) ∨
        k.Overflows (b.sectionEntries.flatMap SectionEntry.addresses) := by
  rw [addresses, FileClass.overflows_append, FileClass.overflows_append, or_assoc]

/-- Building gives the parts one behind the other, just if the tables have few enough entries and no
address overflows. -/
theorem build_eq (b : Blueprint) :
    b.build =
      if b.sectionCount < countLimit ∧ b.segments.length < countLimit ∧
        ¬ b.format.fileClass.Overflows b.addresses then some (b.front ++ b.contents ++ b.back)
      else none := by
  have hgap : b.front.length = (zeros b.contentStart).length := by
    rw [front_length, length_zeros]
  have hoffset : (Draft.ofBytes b.format (zeros b.contentStart ++ b.contents)).offset =
      b.sectionTable := by
    rw [Draft.offset_ofBytes, List.length_append, ← hgap, front_length, contents_end]
  rw [build, layContents_eq]
  dsimp only
  rw [writeSections_eq, hoffset, writeHeader_eq]
  -- each writer stops at the first address that it refuses
  by_cases hback : b.format.fileClass.Overflows (b.sectionEntries.flatMap SectionEntry.addresses)
  · simp [overflows_addresses, hback]
  by_cases hheader : b.format.fileClass.Overflows b.header.addresses
  · simp [overflows_addresses, hheader, hback]
  by_cases hsegments :
      b.format.fileClass.Overflows (b.segmentEntries.flatMap SegmentEntry.addresses)
  · simp [overflows_addresses, hheader, hback, hsegments, writeSegments_eq]
  · simp [overflows_addresses, hheader, hback, hsegments, writeSegments_eq,
      Draft.overwrite_ofBytes hgap, guard_bind, Draft.toList_ofBytes, ite_and]

/-! ## Numbers that fit -/

/-- Every number of the three tables fits its field. -/
structure Fits (b : Blueprint) : Prop where
  header : b.header.Fits
  segments : ∀ p ∈ b.segmentEntries, Record.Fits b.format.fileClass p
  sections : ∀ s ∈ b.sectionEntries, Record.Fits b.format.fileClass s

theorem not_overflows_of_fit {k : FileClass} (ws : Layout) (f : Fields ws)
    (h : Fields.Fit k ws f) : ¬ k.Overflows (Fields.addresses ws f) := by
  induction ws with
  | nil => exact k.not_overflows_nil
  | cons w ws ih =>
    obtain ⟨n, rest⟩ := f
    obtain ⟨hn, hrest⟩ := h
    rw [Fields.addresses, FileClass.overflows_append, not_or]
    refine ⟨?_, ih rest hrest⟩
    rintro ⟨rfl, m, hm, hlarge⟩
    split at hm
    case isTrue hw =>
      rw [hw, Width.size, FileClass.wordSize] at hn
      rw [List.mem_singleton.1 hm] at hlarge
      exact absurd hn (Nat.not_lt.2 hlarge)
    case isFalse => cases hm

theorem overflows_flatMap {α : Type} {k : FileClass} {addresses : α → List Nat} {records : List α} :
    k.Overflows (records.flatMap addresses) ↔ ∃ a ∈ records, k.Overflows (addresses a) := by
  simp only [FileClass.Overflows, List.mem_flatMap]
  constructor
  · rintro ⟨hk, n, ⟨a, ha, hn⟩, hlarge⟩
    exact ⟨a, ha, hk, n, hn, hlarge⟩
  · rintro ⟨a, ha, hk, n, hn, hlarge⟩
    exact ⟨hk, n, ⟨a, ha, hn⟩, hlarge⟩

theorem Fits.not_overflows {b : Blueprint} (h : b.Fits) :
    ¬ b.format.fileClass.Overflows b.addresses := by
  rw [overflows_addresses, overflows_flatMap, overflows_flatMap]
  rintro (hheader | ⟨p, hp, hsegment⟩ | ⟨s, hs, hsection⟩)
  · exact not_overflows_of_fit _ _ h.header hheader
  · rw [← SegmentEntry.addresses_eq b.format.fileClass] at hsegment
    exact not_overflows_of_fit _ _ (h.segments p hp) hsegment
  · exact not_overflows_of_fit _ _ (h.sections s hs) hsection

theorem encodeAll_eq_some_iff {α : Type} [Record α] {format : Format} {records : List α}
    {bs : List UInt8} :
    encodeAll? format records = some bs ↔
      (∀ a ∈ records, Record.Fits format.fileClass a) ∧
        bs = records.flatMap (Record.encode format) := by
  constructor
  · intro h
    refine ⟨fun a ha => ?_, encodeAll_eq h⟩
    obtain ⟨k, hk⟩ := List.mem_iff_getElem?.1 ha
    exact (encodeAll_holdsAt h hk).1
  · rintro ⟨hfits, rfl⟩
    exact Record.encodeAll_of_fits hfits

/-- Assembling gives what is built if every number fits its field and the whole fits into memory. -/
theorem assemble_eq_some_iff {b : Blueprint} {bytes : List UInt8} :
    b.assemble = some bytes ↔ b.build = some bytes ∧ b.Fits ∧ bytes.length < sizeLimit := by
  have himage : b.header.encode ++ b.segmentEntries.flatMap (Record.encode b.format) ++
      pack b.contentStart b.segmentChunks ++ pack b.segmentEnd b.sectionChunks ++
      zeros (b.sectionTable - b.contentEnd) ++ b.sectionEntries.flatMap (Record.encode b.format) =
      b.front ++ b.contents ++ b.back := by
    simp only [front, contents, back, List.append_assoc]
  constructor
  · intro h
    obtain ⟨hsections, hsegments, hheader, hsize, front, back, hfront, hback, rfl⟩ :=
      assemble_cases h
    obtain ⟨hsegmentFits, rfl⟩ := encodeAll_eq_some_iff.1 hfront
    obtain ⟨hsectionFits, rfl⟩ := encodeAll_eq_some_iff.1 hback
    have hfits : b.Fits := ⟨hheader, hsegmentFits, hsectionFits⟩
    refine ⟨?_, hfits, hsize⟩
    rw [build_eq, if_pos ⟨hsections, hsegments, hfits.not_overflows⟩, himage]
  · rintro ⟨hbuild, hfits, hsize⟩
    rw [build_eq, Option.ite_none_right_eq_some] at hbuild
    obtain ⟨⟨hsections, hsegments, -⟩, hbytes⟩ := hbuild
    cases hbytes
    rw [assemble, encodeAll_eq_some_iff.2 ⟨hfits.segments, rfl⟩,
      encodeAll_eq_some_iff.2 ⟨hfits.sections, rfl⟩]
    simp only [Option.bind_eq_bind, guard_bind, Option.bind_some, himage]
    rw [if_pos ⟨hsections, hsegments⟩, if_pos hfits.header, if_pos hsize]
    rfl

end Blueprint

end ElfInspect
