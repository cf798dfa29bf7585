import ElfInspect.Proofs.Headers

/-!
What an assembled image holds, and where: the header, the two tables and the contents. Where no
number is stated in place of the real one, the readers find all of them there.
-/

namespace ElfInspect

/-! ## Answers from their parts -/

theorem Image.sectionAt_of_offset {img : Image} {i offset : Nat}
    (h : img.sectionOffset i = .ok offset) :
    img.sectionAt i = Record.decodeAt img.bytes img.format offset := by
  rw [sectionAt, h]
  rfl

theorem Image.segmentAt_of_offset {img : Image} {i offset : Nat}
    (h : img.segmentOffset i = .ok offset) :
    img.segmentAt i = Record.decodeAt img.bytes img.format offset := by
  rw [segmentAt, h]
  rfl

theorem Image.stringTable_of_data {img : Image} {i : Nat} {s : SectionEntry} {part : ByteArray}
    (h : img.sectionAt i = .ok s) (hdata : s.data img.bytes = .ok part) :
    img.stringTable i = .ok ⟨part⟩ := by
  rw [stringTable, h]
  change (s.data img.bytes >>= _) = _
  rw [hdata]
  rfl

theorem Image.symbolAt_of_offset {img : Image} {i j count offset : Nat} {s : SectionEntry}
    (h : img.sectionAt i = .ok s) (hcount : s.symbolCount img.bytes = .ok count)
    (hoffset : symbolOffset s count j = .ok offset) :
    img.symbolAt i j = Record.decodeAt img.bytes img.format offset := by
  rw [symbolAt, h]
  change (s.symbolCount img.bytes >>= _) = _
  rw [hcount]
  change (symbolOffset s count j >>= _) = _
  rw [hoffset]
  rfl

namespace Blueprint

/-! ## Plans and entries -/

/-- The planned sections and the one with the section names, in the order of the file. -/
def plans (b : Blueprint) : List SectionPlan := b.sections ++ [b.namesPlan]

/-- All numbers in the header are the real ones. -/
structure Unstated (b : Blueprint) : Prop where
  segmentTable : b.statedSegmentTable = none
  segmentCount : b.statedSegmentCount = none
  sectionTable : b.statedSectionTable = none
  sectionCount : b.statedSectionCount = none
  nameSection : b.statedNameSection = none

/-- The image that is read from the bytes of an assembled blueprint. -/
def image (b : Blueprint) (bytes : List UInt8) : Image := ⟨bytes.toByteArray, b.header⟩

variable {b : Blueprint} {bytes : List UInt8}

theorem sectionNames_eq (b : Blueprint) : b.sectionNames = b.plans.map (·.name) := by
  rw [sectionNames, plans, List.map_append]
  rfl

theorem sectionChunks_eq (b : Blueprint) : b.sectionChunks = b.plans.map (·.contents) := by
  rw [sectionChunks, plans, List.map_append]
  rfl

theorem plans_length (b : Blueprint) : b.plans.length = b.sections.length + 1 := by
  rw [plans, List.length_append, List.length_singleton]

theorem segmentEntries_length (b : Blueprint) : b.segmentEntries.length = b.segments.length := by
  rw [segmentEntries, List.length_zipWith, place_length, segmentChunks, List.length_map,
    Nat.min_self]

theorem sectionEntries_length (b : Blueprint) : b.sectionEntries.length = b.sectionCount := by
  rw [sectionEntries, List.length_cons, List.length_zipWith, List.length_zip, stringOffsets_length,
    place_length, sectionNames_eq, sectionChunks_eq, List.length_map, List.length_map, ← plans,
    Nat.min_self, Nat.min_self, plans_length, sectionCount]

/-! ### What belongs to part `k` -/

theorem segmentChunk_at {k : Nat} {plan : SegmentPlan} (h : b.segments[k]? = some plan) :
    b.segmentChunks[k]? = some plan.contents := by
  rw [segmentChunks, List.getElem?_map, h, Option.map_some]

theorem sectionChunk_at {k : Nat} {plan : SectionPlan} (h : b.plans[k]? = some plan) :
    b.sectionChunks[k]? = some plan.contents := by
  rw [sectionChunks_eq, List.getElem?_map, h, Option.map_some]

theorem segmentEntry_at {k start : Nat} {plan : SegmentPlan} (h : b.segments[k]? = some plan)
    (hstart : (place b.contentStart b.segmentChunks)[k]? = some start) :
    b.segmentEntries[k]? =
      some (plan.entry start (plan.statedFileSize.getD plan.contents.length)) := by
  rw [segmentEntries, List.getElem?_zipWith, h, hstart]

/-- The null section's header comes before that of the first plan. -/
theorem sectionEntry_at {k start : Nat} {plan : SectionPlan} (h : b.plans[k]? = some plan)
    (hstart : (place b.segmentEnd b.sectionChunks)[k]? = some start) :
    ∃ name, (stringOffsets 1 b.sectionNames)[k]? = some name ∧
      b.sectionEntries[k + 1]? = some (plan.entry name start) := by
  have hlen : k < (stringOffsets 1 b.sectionNames).length := by
    rw [stringOffsets_length, sectionNames_eq, List.length_map]
    exact (List.getElem?_eq_some_iff.1 h).1
  have hname := List.getElem?_eq_getElem hlen
  refine ⟨_, hname, ?_⟩
  rw [sectionEntries, List.getElem?_cons_succ, List.getElem?_zipWith, ← plans, h, List.zip,
    List.getElem?_zipWith, hname, hstart]

/-! ## The parts of an assembled image -/

theorem of_guard {p : Prop} [Decidable p] (h : (guard p : Option Unit) = some ()) : p := by
  unfold guard at h
  split at h
  · assumption
  · cases h

theorem assemble_cases (h : b.assemble = some bytes) :
    b.sectionCount < countLimit ∧ b.segments.length < countLimit ∧ b.header.Fits ∧
      bytes.length < sizeLimit ∧
      ∃ segmentTable sectionTable, encodeAll? b.format b.segmentEntries = some segmentTable ∧
        encodeAll? b.format b.sectionEntries = some sectionTable ∧
        bytes = b.header.encode ++ segmentTable ++ pack b.contentStart b.segmentChunks ++
          pack b.segmentEnd b.sectionChunks ++ zeros (b.sectionTable - b.contentEnd) ++
          sectionTable := by
  rw [assemble] at h
  obtain ⟨⟨⟩, hcounts, h⟩ := Option.bind_eq_some_iff.1 h
  obtain ⟨⟨⟩, hheader, h⟩ := Option.bind_eq_some_iff.1 h
  obtain ⟨segmentTable, hsegments, h⟩ := Option.bind_eq_some_iff.1 h
  obtain ⟨sectionTable, hsections, h⟩ := Option.bind_eq_some_iff.1 h
  obtain ⟨⟨⟩, hsize, h⟩ := Option.bind_eq_some_iff.1 h
  cases h
  obtain ⟨hsectionCount, hsegmentCount⟩ := of_guard hcounts
  exact ⟨hsectionCount, hsegmentCount, of_guard hheader, of_guard hsize, segmentTable,
    sectionTable, hsegments, hsections, rfl⟩

/-- Everything that an assembled image holds lies where the blueprint says. -/
structure Holds (b : Blueprint) (bytes : List UInt8) : Prop where
  header : ∃ rest, bytes = b.header.encode ++ rest
  segmentEntry : ∀ (k : Nat) (p : SegmentEntry), b.segmentEntries[k]? = some p →
    Record.Fits b.format.fileClass p ∧
      HoldsAt bytes
        (Header.size b.format.fileClass + k * Record.size SegmentEntry b.format.fileClass)
        (Record.encode b.format p)
  segment : ∀ (k : Nat) (plan : SegmentPlan), b.segments[k]? = some plan →
    ∃ start, (place b.contentStart b.segmentChunks)[k]? = some start ∧
      HoldsAt bytes start plan.contents
  contents : ∀ (k : Nat) (plan : SectionPlan), b.plans[k]? = some plan →
    ∃ start, (place b.segmentEnd b.sectionChunks)[k]? = some start ∧
      HoldsAt bytes start plan.contents
  sectionEntry : ∀ (k : Nat) (s : SectionEntry), b.sectionEntries[k]? = some s →
    Record.Fits b.format.fileClass s ∧
      HoldsAt bytes (b.sectionTable + k * Record.size SectionEntry b.format.fileClass)
        (Record.encode b.format s)

theorem assemble_holds (h : b.assemble = some bytes) : b.Holds bytes := by
  obtain ⟨-, -, -, -, segmentTable, sectionTable, hsegments, hsections, rfl⟩ := assemble_cases h
  have hheader : b.header.encode.length = Header.size b.format.fileClass := b.header.encode_length
  have hfront : (b.header.encode ++ segmentTable).length = b.contentStart := by
    rw [List.length_append, hheader, encodeAll_length hsegments, segmentEntries_length,
      contentStart]
  have hmiddle : (b.header.encode ++ segmentTable ++ pack b.contentStart b.segmentChunks).length =
      b.segmentEnd := by
    rw [List.length_append, hfront, pack_length, segmentEnd]
  have hcontent : (b.header.encode ++ segmentTable ++ pack b.contentStart b.segmentChunks ++
      pack b.segmentEnd b.sectionChunks).length = b.contentEnd := by
    rw [List.length_append, hmiddle, pack_length, contentEnd]
  have hlast : (b.header.encode ++ segmentTable ++ pack b.contentStart b.segmentChunks ++
      pack b.segmentEnd b.sectionChunks ++ zeros (b.sectionTable - b.contentEnd)).length =
      b.sectionTable := by
    have hle := le_aligned b.contentEnd
    rw [List.length_append, hcontent, length_zeros, Blueprint.sectionTable]
    omega
  constructor
  case header => exact ⟨_, by simp only [List.append_assoc]; rfl⟩
  case segmentEntry =>
    intro k p hp
    obtain ⟨hfits, hholds⟩ := encodeAll_holdsAt hsegments hp
    have htable := (holdsAt_end hheader segmentTable).trans hholds
    exact ⟨hfits, (((htable.append _).append _).append _).append _⟩
  case segment =>
    intro k plan hplan
    obtain ⟨start, hstart, hholds⟩ :=
      place_holdsAt (segmentChunk_at hplan) (b.header.encode ++ segmentTable)
    rw [hfront] at hstart hholds
    exact ⟨start, hstart, ((hholds.append _).append _).append _⟩
  case contents =>
    intro k plan hplan
    obtain ⟨start, hstart, hholds⟩ := place_holdsAt (sectionChunk_at hplan)
      (b.header.encode ++ segmentTable ++ pack b.contentStart b.segmentChunks)
    rw [hmiddle] at hstart hholds
    exact ⟨start, hstart, (hholds.append _).append _⟩
  case sectionEntry =>
    intro k s hs
    obtain ⟨hfits, hholds⟩ := encodeAll_holdsAt hsections hs
    exact ⟨hfits, (holdsAt_end hlast sectionTable).trans hholds⟩

/-! ## Headers and contents -/

section Assembled

variable (h : b.assemble = some bytes)
include h

theorem size_lt_offsetLimit {offset : Nat} {part : List UInt8}
    (hholds : HoldsAt bytes offset part) : offset < offsetLimit := by
  obtain ⟨-, -, -, hsize, -⟩ := assemble_cases h
  have hle := hholds.length_le
  have hlimit : sizeLimit < offsetLimit := by decide
  omega

/-- A segment's header and contents, whose offset the header states. -/
theorem segment_placed {k : Nat} {plan : SegmentPlan} (hplan : b.segments[k]? = some plan) :
    ∃ start, b.segmentEntries[k]? =
        some (plan.entry start (plan.statedFileSize.getD plan.contents.length)) ∧
      HoldsAt bytes start plan.contents := by
  obtain ⟨start, hstart, hholds⟩ := (assemble_holds h).segment k plan hplan
  exact ⟨start, segmentEntry_at hplan hstart, hholds⟩

/-- A section's header and contents, whose offset the header states unless the plan does. -/
theorem plan_placed {k : Nat} {plan : SectionPlan} (hplan : b.plans[k]? = some plan) :
    ∃ name start, b.sectionEntries[k + 1]? = some (plan.entry name start) ∧
      (stringOffsets 1 b.sectionNames)[k]? = some name ∧ HoldsAt bytes start plan.contents := by
  obtain ⟨start, hstart, hholds⟩ := (assemble_holds h).contents k plan hplan
  obtain ⟨name, hname, hentry⟩ := sectionEntry_at hplan hstart
  exact ⟨name, start, hentry, hname, hholds⟩

end Assembled

/-! ## Reading it back -/

namespace Unstated

variable (hb : b.Unstated)
include hb

theorem header_sectionCount : b.header.sectionCount = b.sectionCount := by
  rw [header, hb.sectionCount, Option.getD_none]

theorem header_segmentCount : b.header.segmentCount = b.segments.length := by
  rw [header, hb.segmentCount, Option.getD_none]

theorem header_sectionTable : b.header.sectionTable = b.sectionTable := by
  rw [header, hb.sectionTable, Option.getD_none]

theorem header_segmentTable (hsome : b.segments ≠ []) :
    b.header.segmentTable = Header.size b.format.fileClass := by
  rw [header, hb.segmentTable, Option.getD_none, List.isEmpty_eq_false_iff.2 hsome]
  rfl

theorem header_nameSection : b.header.nameSection = b.sections.length + 1 := by
  rw [header, hb.nameSection, Option.getD_none]
  rfl

variable (h : b.assemble = some bytes)
include h

theorem ofBytes_assemble : Image.ofBytes bytes.toByteArray = .ok (b.image bytes) := by
  obtain ⟨hcount, -, hfits, -⟩ := assemble_cases h
  obtain ⟨rest, rfl⟩ := (assemble_holds h).header
  have hzero : b.header.sectionCount ≠ Header.extendedCount := by
    rw [hb.header_sectionCount, Blueprint.sectionCount, Header.extendedCount]
    omega
  have hextended : b.header.nameSection ≠ Header.extendedIndex := by
    rw [hb.header_nameSection, Header.extendedIndex]
    rw [Blueprint.sectionCount, countLimit] at hcount
    omega
  rw [Image.ofBytes, Header.parse_encode hfits (Nat.zero_lt_succ _) (Nat.zero_lt_succ _) hzero
    hextended]
  rfl

theorem sectionAt_assemble {k : Nat} {s : SectionEntry} (hs : b.sectionEntries[k]? = some s) :
    (b.image bytes).sectionAt k = .ok s := by
  obtain ⟨hfits, hholds⟩ := (assemble_holds h).sectionEntry k s hs
  have hk : k < b.header.sectionCount := by
    rw [hb.header_sectionCount, ← sectionEntries_length]
    exact (List.getElem?_eq_some_iff.1 hs).1
  have hoffset : (b.image bytes).sectionOffset k =
      .ok (b.sectionTable + k * Record.size SectionEntry b.format.fileClass) := by
    have hlimit := size_lt_offsetLimit h hholds
    rw [← hb.header_sectionTable] at hlimit ⊢
    exact (if_pos hk).trans (if_pos hlimit)
  rw [Image.sectionAt_of_offset hoffset]
  exact hholds.decodeAt_eq hfits

theorem segmentAt_assemble {k : Nat} {p : SegmentEntry} (hp : b.segmentEntries[k]? = some p) :
    (b.image bytes).segmentAt k = .ok p := by
  obtain ⟨hfits, hholds⟩ := (assemble_holds h).segmentEntry k p hp
  have hlen : k < b.segments.length := by
    rw [← segmentEntries_length]
    exact (List.getElem?_eq_some_iff.1 hp).1
  have hk : k < b.header.segmentCount := by
    rwa [hb.header_segmentCount]
  have hoffset : (b.image bytes).segmentOffset k =
      .ok (Header.size b.format.fileClass + k * Record.size SegmentEntry b.format.fileClass) := by
    have hlimit := size_lt_offsetLimit h hholds
    rw [← hb.header_segmentTable (List.ne_nil_of_length_pos (Nat.zero_lt_of_lt hlen))] at hlimit ⊢
    exact (if_pos hk).trans (if_pos hlimit)
  rw [Image.segmentAt_of_offset hoffset]
  exact hholds.decodeAt_eq hfits

end Unstated

end Blueprint

end ElfInspect
