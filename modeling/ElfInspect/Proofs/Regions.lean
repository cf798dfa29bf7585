import ElfInspect.Proofs.Drafts

/-!
The regions of a built image. `Filled` puts regions down one behind the other, with zeros up to the
next multiple of eight before those that are aligned; whatever is filled like that is partitioned
into its regions and short runs of zeros, and a built image is: `Blueprint.build_partitions`.
-/

namespace ElfInspect

/-- A part of an image: where it starts, and its bytes. -/
structure Region where
  start : Nat
  bytes : List UInt8
  deriving DecidableEq, Repr

namespace Region

/-- Where the next byte behind the region is. -/
def stop (r : Region) : Nat := r.start + r.bytes.length

/-- The byte at `i` belongs to the region. -/
def Covers (r : Region) (i : Nat) : Prop := r.start ≤ i ∧ i < r.stop

end Region

/-- The byte at `i` belongs to one of the regions. -/
def Covered (regions : List Region) (i : Nat) : Prop := ∃ r ∈ regions, r.Covers i

/-- The regions of chunks that follow each other from `offset` on, each one aligned. -/
def placed (offset : Nat) (chunks : List (List UInt8)) : List Region :=
  List.zipWith Region.mk (place offset chunks) chunks

theorem placed_length (offset : Nat) (chunks : List (List UInt8)) :
    (placed offset chunks).length = chunks.length := by
  rw [placed, List.length_zipWith, place_length, Nat.min_self]

theorem dvd_of_mem_placed {offset : Nat} {chunks : List (List UInt8)} {r : Region}
    (h : r ∈ placed offset chunks) : 8 ∣ r.start := by
  induction chunks generalizing offset with
  | nil => cases h
  | cons chunk rest ih =>
    rcases List.mem_cons.1 h with rfl | h
    · exact Nat.dvd_mul_left 8 _
    · exact ih h

/-- Chunk `k` makes up region `k`. -/
theorem placed_at (offset : Nat) {k : Nat} {chunks : List (List UInt8)} {chunk : List UInt8}
    (h : chunks[k]? = some chunk) :
    ∃ start, (place offset chunks)[k]? = some start ∧
      (placed offset chunks)[k]? = some ⟨start, chunk⟩ := by
  have hk : k < (place offset chunks).length := by
    rw [place_length]
    exact (List.getElem?_eq_some_iff.1 h).1
  have hstart := List.getElem?_eq_getElem hk
  exact ⟨_, hstart, by rw [placed, List.getElem?_zipWith, hstart, h]⟩

/-- An image is made of regions that follow each other, and of runs of up to seven zeros. -/
structure Partition (image : List UInt8) (regions : List Region) : Prop where
  holds : ∀ r ∈ regions, HoldsAt image r.start r.bytes
  ordered : regions.Pairwise fun r s => r.stop ≤ s.start
  disjoint : regions.Pairwise fun r s => ∀ i, ¬ (r.Covers i ∧ s.Covers i)
  zero : ∀ i < image.length, ¬ Covered regions i → image[i]? = some 0
  short : ∀ i, i + 8 ≤ image.length → ∃ j, i ≤ j ∧ j < i + 8 ∧ Covered regions j

/-- Two images have the same length, and the same bytes outside of the regions. -/
structure AgreeOutside (regions : List Region) (image image' : List UInt8) : Prop where
  length : image'.length = image.length
  agree : ∀ i, ¬ Covered regions i → image'[i]? = image[i]?

/-! ## Filling -/

/-- The bytes from `offset` on are the regions in order, each at once or aligned. -/
inductive Filled : Nat → List UInt8 → List Region → Prop
  | done {offset : Nat} : Filled offset [] []
  | region {offset start : Nat} {part rest : List UInt8} {regions : List Region}
      (hstart : start = offset ∨ start = aligned offset)
      (h : Filled (start + part.length) rest regions) :
      Filled offset (zeros (start - offset) ++ part ++ rest) (⟨start, part⟩ :: regions)

theorem aligned_aligned (offset : Nat) : aligned (aligned offset) = aligned offset := by
  unfold aligned
  omega

theorem not_covered_cons {r : Region} {regions : List Region} {i : Nat} :
    ¬ Covered (r :: regions) i ↔ ¬ r.Covers i ∧ ¬ Covered regions i := by
  simp only [Covered, List.mem_cons, exists_eq_or_imp, not_or]

namespace Filled

variable {offset start i : Nat} {bytes part rest more : List UInt8} {regions others : List Region}

/-! ### One region -/

theorem le_start (hstart : start = offset ∨ start = aligned offset) : offset ≤ start := by
  rcases hstart with rfl | rfl
  · exact Nat.le_refl _
  · exact le_aligned offset

theorem length_gap (hstart : start = offset ∨ start = aligned offset) {before : List UInt8}
    (hbefore : before.length = offset) : (before ++ zeros (start - offset)).length = start := by
  rw [List.length_append, length_zeros, hbefore, Nat.add_sub_of_le (le_start hstart)]

theorem length_region (hstart : start = offset ∨ start = aligned offset) :
    offset + (zeros (start - offset) ++ part ++ rest).length =
      start + part.length + rest.length := by
  have hle := le_start hstart
  simp only [List.length_append, length_zeros]
  omega

/-- What a region does not cover is before or behind it. -/
theorem behind_of_free (hgap : ¬ i < start) (hfree : ¬ Region.Covers ⟨start, part⟩ i) :
    start + part.length ≤ i :=
  Nat.le_of_not_lt fun hinside => hfree ⟨Nat.le_of_not_lt hgap, hinside⟩

theorem single (hstart : start = offset ∨ start = aligned offset) (part : List UInt8) :
    Filled offset (zeros (start - offset) ++ part) [⟨start, part⟩] := by
  rw [← List.append_nil (zeros (start - offset) ++ part)]
  exact .region hstart .done

/-! ### All regions -/

theorem append (h : Filled offset bytes regions) (h' : Filled (offset + bytes.length) more others) :
    Filled offset (bytes ++ more) (regions ++ others) := by
  induction h with
  | done => exact h'
  | region hstart h ih =>
    rw [length_region hstart] at h'
    rw [List.append_assoc]
    exact .region hstart (ih h')

theorem pack (offset : Nat) (chunks : List (List UInt8)) :
    Filled offset (ElfInspect.pack offset chunks) (placed offset chunks) := by
  induction chunks generalizing offset with
  | nil => exact .done
  | cons chunk rest ih => exact .region (.inr rfl) (ih _)

theorem start_le (h : Filled offset bytes regions) : ∀ r ∈ regions, offset ≤ r.start := by
  induction h with
  | done => exact fun _ hr => nomatch hr
  | region hstart h ih =>
    have hle := le_start hstart
    intro r hr
    rcases List.mem_cons.1 hr with rfl | hr
    · exact hle
    · have := ih r hr
      omega

theorem ordered (h : Filled offset bytes regions) :
    regions.Pairwise fun r s => r.stop ≤ s.start := by
  induction h with
  | done => exact .nil
  | region hstart h ih => exact .cons h.start_le ih

-- In the next two, what is filled already stands in `before`.
theorem holds (h : Filled offset bytes regions) (before : List UInt8)
    (hbefore : before.length = offset) :
    ∀ r ∈ regions, HoldsAt (before ++ bytes) r.start r.bytes := by
  induction h generalizing before with
  | done => exact fun _ hr => nomatch hr
  | @region offset start part rest regions hstart h ih =>
    have hgap := length_gap hstart hbefore
    intro r hr
    rw [← List.append_assoc, ← List.append_assoc]
    rcases List.mem_cons.1 hr with rfl | hr
    · exact (holdsAt_end hgap part).append rest
    · exact ih _ (by rw [List.length_append, hgap]) r hr

theorem zero (h : Filled offset bytes regions) (before : List UInt8)
    (hbefore : before.length = offset) (hle : offset ≤ i) (hlt : i < offset + bytes.length)
    (hfree : ¬ Covered regions i) : (before ++ bytes)[i]? = some 0 := by
  induction h generalizing before with
  | done => exact absurd hlt (Nat.not_lt.2 hle)
  | @region offset start part rest regions hstart h ih =>
    have hgap := length_gap hstart hbefore
    rw [length_region hstart] at hlt
    obtain ⟨hpart, hrest⟩ := not_covered_cons.1 hfree
    rw [← List.append_assoc, ← List.append_assoc]
    by_cases hi : i < start
    · rw [List.append_assoc, List.getElem?_append_left (by rwa [hgap]),
        List.getElem?_append_right (by rwa [hbefore])]
      exact List.getElem?_replicate_of_lt (by omega)
    · exact ih _ (by rw [List.length_append, hgap]) (behind_of_free hi hpart) hlt hrest

/-- A byte that no region covers lies before the first multiple of eight behind a byte that one
does, or behind where filling began. -/
theorem near (h : Filled offset bytes regions) (hle : offset ≤ i)
    (hlt : i < offset + bytes.length) (hfree : ¬ Covered regions i) :
    i < aligned offset ∨ ∃ j < i, Covered regions j ∧ i < aligned (j + 1) := by
  induction h with
  | done => exact absurd hlt (Nat.not_lt.2 hle)
  | @region offset start part rest regions hstart h ih =>
    rw [length_region hstart] at hlt
    obtain ⟨hpart, hrest⟩ := not_covered_cons.1 hfree
    by_cases hi : i < start
    · left
      rcases hstart with rfl | rfl
      · exact absurd hle (Nat.not_le.2 hi)
      · exact hi
    · have hbehind := behind_of_free hi hpart
      rcases ih hbehind hlt hrest with hfirst | ⟨j, hj, ⟨r, hr, hcovers⟩, hnear⟩
      · by_cases hempty : part.length = 0
        · -- an empty region adds nothing, and it is not aligned twice
          left
          rw [hempty, Nat.add_zero] at hfirst
          rcases hstart with rfl | rfl
          · exact hfirst
          · rwa [aligned_aligned] at hfirst
        · right
          refine ⟨start + part.length - 1, by omega, ⟨_, List.mem_cons_self, ?_, ?_⟩, ?_⟩
          · simp only
            omega
          · simp only [Region.stop]
            omega
          · rwa [show start + part.length - 1 + 1 = start + part.length by omega]
      · exact .inr ⟨j, hj, ⟨r, List.mem_cons_of_mem _ hr, hcovers⟩, hnear⟩

theorem short (h : Filled offset bytes regions) (hle : offset ≤ i)
    (hlt : i + 8 ≤ offset + bytes.length) : ∃ j, i ≤ j ∧ j < i + 8 ∧ Covered regions j := by
  by_cases hlast : Covered regions (i + 7)
  · exact ⟨i + 7, by omega, by omega, hlast⟩
  · rcases h.near (by omega) (by omega) hlast with hfirst | ⟨j, hj, hcovered, hnear⟩
    · have := aligned_lt offset
      omega
    · have := aligned_lt (j + 1)
      exact ⟨j, by omega, by omega, hcovered⟩

/-- What is filled from the start is partitioned. -/
theorem partition (h : Filled 0 bytes regions) : Partition bytes regions where
  holds := h.holds [] rfl
  ordered := h.ordered
  disjoint := h.ordered.imp fun hle i hi => by
    have := hi.1.2
    have := hi.2.1
    omega
  zero i hi hfree := h.zero [] rfl (Nat.zero_le i) (by omega) hfree
  short i hi := h.short (Nat.zero_le i) (by omega)

end Filled

/-! ## The regions of an image -/

namespace Blueprint

def headerRegion (b : Blueprint) : Region := ⟨0, b.header.encode⟩

def segmentTableRegion (b : Blueprint) : Region :=
  ⟨Header.size b.format.fileClass, b.segmentEntries.flatMap (Record.encode b.format)⟩

def segmentRegions (b : Blueprint) : List Region := placed b.contentStart b.segmentChunks

/-- The contents of the sections, and the section names. -/
def sectionRegions (b : Blueprint) : List Region := placed b.segmentEnd b.sectionChunks

def sectionTableRegion (b : Blueprint) : Region :=
  ⟨b.sectionTable, b.sectionEntries.flatMap (Record.encode b.format)⟩

/-- The regions of the image in order. -/
def regions (b : Blueprint) : List Region :=
  [b.headerRegion, b.segmentTableRegion] ++ b.segmentRegions ++ b.sectionRegions ++
    [b.sectionTableRegion]

theorem front_filled (b : Blueprint) :
    Filled 0 b.front [b.headerRegion, b.segmentTableRegion] := by
  have hheader : Filled 0 b.header.encode [b.headerRegion] := .single (.inl rfl) _
  have htable : Filled (0 + b.header.encode.length)
      (b.segmentEntries.flatMap (Record.encode b.format)) [b.segmentTableRegion] := by
    rw [Nat.zero_add, Header.encode_length]
    have h : Filled (Header.size b.format.fileClass) _ [b.segmentTableRegion] :=
      .single (.inl rfl) (b.segmentEntries.flatMap (Record.encode b.format))
    rwa [Nat.sub_self] at h
  exact hheader.append htable

theorem image_filled (b : Blueprint) : Filled 0 (b.front ++ b.contents ++ b.back) b.regions := by
  have hsegments : (b.front ++ pack b.contentStart b.segmentChunks).length = b.segmentEnd := by
    rw [List.length_append, front_length, pack_length, segmentEnd]
  have hsections : (b.front ++ pack b.contentStart b.segmentChunks ++
      pack b.segmentEnd b.sectionChunks).length = b.contentEnd := by
    rw [List.length_append, hsegments, pack_length, contentEnd]
  have hmiddle : Filled 0 (b.front ++ pack b.contentStart b.segmentChunks)
      ([b.headerRegion, b.segmentTableRegion] ++ b.segmentRegions) := by
    refine b.front_filled.append ?_
    rw [Nat.zero_add, front_length]
    exact .pack b.contentStart b.segmentChunks
  have hcontents : Filled 0
      (b.front ++ pack b.contentStart b.segmentChunks ++ pack b.segmentEnd b.sectionChunks)
      ([b.headerRegion, b.segmentTableRegion] ++ b.segmentRegions ++ b.sectionRegions) := by
    refine hmiddle.append ?_
    rw [Nat.zero_add, hsegments]
    exact .pack b.segmentEnd b.sectionChunks
  have hall : Filled 0
      (b.front ++ pack b.contentStart b.segmentChunks ++ pack b.segmentEnd b.sectionChunks ++
        (zeros (b.sectionTable - b.contentEnd) ++ b.back)) b.regions := by
    refine hcontents.append ?_
    rw [Nat.zero_add, hsections]
    exact .single (.inr rfl) b.back
  simpa only [contents, List.append_assoc] using hall

/-- What the regions are, and what the headers say of them. -/
structure Outlined (b : Blueprint) : Prop where
  segmentTable : b.segmentTableRegion.start = b.headerRegion.stop
  aligned : ∀ r ∈ b.segmentRegions ++ b.sectionRegions ++ [b.sectionTableRegion], 8 ∣ r.start
  segmentCount : b.segmentRegions.length = b.segments.length ∧
    b.segmentEntries.length = b.segments.length
  sectionCount : b.sectionRegions.length = b.sections.length + 1 ∧
    b.sectionEntries.length = b.sections.length + 2
  segment : ∀ (k : Nat) (plan : SegmentPlan), b.segments[k]? = some plan → ∃ start,
    b.segmentRegions[k]? = some ⟨start, plan.contents⟩ ∧
      b.segmentEntries[k]? =
        some (plan.entry start (plan.statedFileSize.getD plan.contents.length))
  contents : ∀ (k : Nat) (plan : SectionPlan), b.plans[k]? = some plan → ∃ name start,
    b.sectionRegions[k]? = some ⟨start, plan.contents⟩ ∧
      (stringOffsets 1 b.sectionNames)[k]? = some name ∧
      b.sectionEntries[k + 1]? = some (plan.entry name start)

theorem headerRegion_stop (b : Blueprint) :
    b.headerRegion.stop = Header.size b.format.fileClass := by
  rw [Region.stop, headerRegion, Nat.zero_add, Header.encode_length]
  rfl

theorem segmentTableRegion_stop (b : Blueprint) : b.segmentTableRegion.stop = b.contentStart := by
  rw [← front_length, front, List.length_append, Header.encode_length]
  rfl

theorem sectionTableRegion_stop (b : Blueprint) :
    b.sectionTableRegion.stop =
      b.sectionTable + b.sectionCount * Record.size SectionEntry b.format.fileClass := by
  rw [← back_length]
  rfl

theorem outlined (b : Blueprint) : b.Outlined := by
  constructor
  case segmentTable => exact b.headerRegion_stop.symm
  case aligned =>
    intro r hr
    rw [List.mem_append, List.mem_append, List.mem_singleton] at hr
    rcases hr with (hr | hr) | rfl
    · exact dvd_of_mem_placed hr
    · exact dvd_of_mem_placed hr
    · exact Nat.dvd_mul_left 8 _
  case segmentCount =>
    refine ⟨?_, b.segmentEntries_length⟩
    rw [segmentRegions, placed_length, segmentChunks, List.length_map]
  case sectionCount =>
    refine ⟨?_, b.sectionEntries_length⟩
    rw [sectionRegions, placed_length, sectionChunks_eq, List.length_map, plans_length]
  case segment =>
    intro k plan hplan
    obtain ⟨start, hstart, hregion⟩ := placed_at b.contentStart (segmentChunk_at hplan)
    exact ⟨start, hregion, segmentEntry_at hplan hstart⟩
  case contents =>
    intro k plan hplan
    obtain ⟨start, hstart, hregion⟩ := placed_at b.segmentEnd (sectionChunk_at hplan)
    obtain ⟨name, hname, hentry⟩ := sectionEntry_at hplan hstart
    exact ⟨name, start, hregion, hname, hentry⟩

end Blueprint

/-! ## Stated numbers -/

/-- The section without numbers that are written in place of the real ones. -/
def SectionPlan.unstated (s : SectionPlan) : SectionPlan :=
  { s with statedOffset := none, statedSize := none }

def SegmentPlan.unstated (p : SegmentPlan) : SegmentPlan := { p with statedFileSize := none }

/-- The section header with the stated numbers of the plan. -/
def SectionPlan.restate (s : SectionPlan) (e : SectionEntry) : SectionEntry :=
  { e with offset := s.statedOffset.getD e.offset, size := s.statedSize.getD e.size }

/-- The program header with the stated file size of the plan, which is the memory size as well if
the plan has none. -/
def SegmentPlan.restate (p : SegmentPlan) (e : SegmentEntry) : SegmentEntry :=
  { e with
    fileSize := p.statedFileSize.getD e.fileSize
    memorySize :=
      if p.memorySize.isNone then p.statedFileSize.getD e.memorySize else e.memorySize }

theorem SegmentPlan.restate_entry (p : SegmentPlan) (start : Nat) :
    p.restate (p.unstated.entry start
        (p.unstated.statedFileSize.getD p.unstated.contents.length)) =
      p.entry start (p.statedFileSize.getD p.contents.length) := by
  obtain ⟨type, contents, flags, address, align, memorySize, statedFileSize⟩ := p
  cases memorySize <;> rfl

theorem SectionPlan.restate_entry (s : SectionPlan) (name start : Nat) :
    s.restate (s.unstated.entry name start) = s.entry name start := rfl

namespace Blueprint

variable {b : Blueprint} {image : List UInt8}

/-- The blueprint without numbers that are written in place of the real ones. -/
def unstated (b : Blueprint) : Blueprint :=
  { b with
    sections := b.sections.map SectionPlan.unstated
    segments := b.segments.map SegmentPlan.unstated
    statedSegmentTable := none
    statedSegmentCount := none
    statedSectionTable := none
    statedSectionCount := none
    statedNameSection := none }

/-- The file header with the stated numbers of the blueprint. -/
def restate (b : Blueprint) (h : Header) : Header :=
  { h with
    segmentTable := b.statedSegmentTable.getD h.segmentTable
    segmentCount := b.statedSegmentCount.getD h.segmentCount
    sectionTable := b.statedSectionTable.getD h.sectionTable
    sectionCount := b.statedSectionCount.getD h.sectionCount
    nameSection := b.statedNameSection.getD h.nameSection }

/-! ### What stays -/

theorem segmentChunks_unstated (b : Blueprint) : b.unstated.segmentChunks = b.segmentChunks := by
  rw [segmentChunks, unstated, List.map_map]
  rfl

theorem sectionNames_unstated (b : Blueprint) : b.unstated.sectionNames = b.sectionNames := by
  rw [sectionNames, unstated, List.map_map]
  rfl

theorem plans_unstated (b : Blueprint) :
    b.unstated.plans = b.plans.map SectionPlan.unstated := by
  rw [plans, plans, List.map_append, namesPlan, sectionNames_unstated]
  rfl

theorem sectionChunks_unstated (b : Blueprint) : b.unstated.sectionChunks = b.sectionChunks := by
  rw [sectionChunks_eq, plans_unstated, List.map_map, sectionChunks_eq]
  rfl

theorem contentStart_unstated (b : Blueprint) : b.unstated.contentStart = b.contentStart := by
  rw [contentStart, unstated, List.length_map]
  rfl

theorem sectionCount_unstated (b : Blueprint) : b.unstated.sectionCount = b.sectionCount :=
  congrArg (· + 2) (List.length_map _)

theorem segmentEnd_unstated (b : Blueprint) : b.unstated.segmentEnd = b.segmentEnd := by
  rw [segmentEnd, contentStart_unstated, segmentChunks_unstated, segmentEnd]

theorem contentEnd_unstated (b : Blueprint) : b.unstated.contentEnd = b.contentEnd := by
  rw [contentEnd, segmentEnd_unstated, sectionChunks_unstated, contentEnd]

theorem sectionTable_unstated (b : Blueprint) : b.unstated.sectionTable = b.sectionTable := by
  rw [sectionTable, contentEnd_unstated, sectionTable]

theorem contents_unstated (b : Blueprint) : b.unstated.contents = b.contents := by
  simp only [contents, contentStart_unstated, segmentChunks_unstated, segmentEnd_unstated,
    sectionChunks_unstated, contentEnd_unstated, sectionTable_unstated]

theorem segmentRegions_unstated (b : Blueprint) : b.unstated.segmentRegions = b.segmentRegions := by
  rw [segmentRegions, contentStart_unstated, segmentChunks_unstated, segmentRegions]

theorem sectionRegions_unstated (b : Blueprint) : b.unstated.sectionRegions = b.sectionRegions := by
  rw [sectionRegions, segmentEnd_unstated, sectionChunks_unstated, sectionRegions]

/-! ### What is restated -/

theorem header_eq_restate (b : Blueprint) : b.header = b.restate b.unstated.header := by
  have hempty : b.unstated.segments.isEmpty = b.segments.isEmpty := List.isEmpty_map
  have hsegments : b.unstated.segments.length = b.segments.length := List.length_map _
  simp only [header, restate, sectionTable_unstated, hempty, hsegments, sectionCount_unstated]
  rfl

theorem segmentEntries_eq_restate (b : Blueprint) :
    b.segmentEntries =
      List.zipWith SegmentPlan.restate b.segments b.unstated.segmentEntries := by
  have hsegments : b.unstated.segments = b.segments.map SegmentPlan.unstated := rfl
  simp only [segmentEntries, hsegments, contentStart_unstated, segmentChunks_unstated,
    List.zipWith_map_left, List.zipWith_zipWith_right, List.zipWith3_same_left,
    SegmentPlan.restate_entry]

theorem sectionEntries_eq_restate (b : Blueprint) :
    b.sectionEntries = ⟨0, 0, 0, 0, 0, 0, 0, 0, 0, 0⟩ ::
      List.zipWith SectionPlan.restate b.plans b.unstated.sectionEntries.tail := by
  have hplans : b.sections ++ [b.namesPlan] = b.plans := rfl
  have hunstated : b.unstated.sections ++ [b.unstated.namesPlan] =
      b.plans.map SectionPlan.unstated := b.plans_unstated
  simp only [sectionEntries, hplans, hunstated, sectionNames_unstated, segmentEnd_unstated,
    sectionChunks_unstated, List.tail_cons, List.zipWith_map_left, List.zipWith_zipWith_right,
    List.zipWith3_same_left, SectionPlan.restate_entry]

/-- Stated numbers are written in the place of those with the same meaning, and change nothing
else. -/
structure Restated (b : Blueprint) : Prop where
  header : b.header = b.restate b.unstated.header
  segmentEntries :
    b.segmentEntries = List.zipWith SegmentPlan.restate b.segments b.unstated.segmentEntries
  sectionEntries : b.sectionEntries =
    ⟨0, 0, 0, 0, 0, 0, 0, 0, 0, 0⟩ ::
      List.zipWith SectionPlan.restate b.plans b.unstated.sectionEntries.tail
  segmentRegions : b.unstated.segmentRegions = b.segmentRegions
  sectionRegions : b.unstated.sectionRegions = b.sectionRegions
  places : (b.unstated.regions.map fun r => (r.start, r.stop)) =
    b.regions.map fun r => (r.start, r.stop)

theorem restated (b : Blueprint) : b.Restated := by
  constructor
  case header => exact b.header_eq_restate
  case segmentEntries => exact b.segmentEntries_eq_restate
  case sectionEntries => exact b.sectionEntries_eq_restate
  case segmentRegions => exact b.segmentRegions_unstated
  case sectionRegions => exact b.sectionRegions_unstated
  case places =>
    simp only [regions, List.map_append, List.map_cons, List.map_nil, headerRegion_stop,
      segmentTableRegion_stop, sectionTableRegion_stop, contentStart_unstated,
      segmentRegions_unstated, sectionRegions_unstated, sectionCount_unstated]
    simp only [headerRegion, segmentTableRegion, sectionTableRegion, sectionTable_unstated]
    rfl

/-! ## Building -/

theorem build_cases (h : b.build = some image) : image = b.front ++ b.contents ++ b.back := by
  rw [build_eq, Option.ite_none_right_eq_some] at h
  exact (Option.some.inj h.2).symm

theorem build_eq_none_iff :
    b.build = none ↔ 65533 < b.sections.length ∨ 65535 < b.segments.length ∨
      b.format.fileClass.Overflows b.addresses := by
  have hsections : b.sectionCount < countLimit ↔ ¬ 65533 < b.sections.length := by
    rw [sectionCount, countLimit]
    omega
  have hsegments : b.segments.length < countLimit ↔ ¬ 65535 < b.segments.length := by
    rw [countLimit]
    omega
  rw [build_eq, ite_eq_right_iff, hsections, hsegments]
  simp only [reduceCtorEq, imp_false, not_and_or, not_not]

example : ({ format := ⟨.elf32, .lsb⟩, entry := 0x1_0000_0000 } : Blueprint).build = none := by
  decide +kernel

/-- Stated numbers change bytes of the file header and of the two tables only. -/
theorem build_agree {b' : Blueprint} {image' : List UInt8} (hsame : b'.unstated = b.unstated)
    (h : b.build = some image) (h' : b'.build = some image') :
    AgreeOutside [b.headerRegion, b.segmentTableRegion, b.sectionTableRegion] image image' := by
  have hfront : b'.front.length = b.front.length := by
    rw [front_length, front_length, ← contentStart_unstated, hsame, contentStart_unstated]
  have hcontents : b'.contents = b.contents := by
    rw [← contents_unstated, hsame, contents_unstated]
  have hback : b'.back.length = b.back.length := by
    have hformat : b'.unstated.format = b.unstated.format := by rw [hsame]
    change b'.format = b.format at hformat
    rw [back_length, back_length, ← sectionCount_unstated, hsame, sectionCount_unstated, hformat]
  obtain rfl := build_cases h
  obtain rfl := build_cases h'
  constructor
  case length => simp only [List.length_append, hfront, hcontents, hback]
  case agree =>
    intro i hfree
    simp only [not_covered_cons] at hfree
    obtain ⟨hheader, htable, hlast, -⟩ := hfree
    have hbehind : b.front.length ≤ i := by
      rw [front_length, ← segmentTableRegion_stop]
      refine Nat.le_of_not_lt fun hi => ?_
      rcases Nat.lt_or_ge i b.headerRegion.stop with hin | hin
      · exact hheader ⟨Nat.zero_le i, hin⟩
      · exact htable ⟨by rwa [b.headerRegion_stop] at hin, hi⟩
    rw [List.append_assoc, List.append_assoc, List.getElem?_append_right (by rwa [hfront]),
      List.getElem?_append_right hbehind, hfront, hcontents]
    by_cases hinside : i - b.front.length < b.contents.length
    · rw [List.getElem?_append_left hinside, List.getElem?_append_left hinside]
    · have hend := b.contents_end
      rw [← front_length] at hend
      have hstop : b.sectionTable + b.back.length ≤ i :=
        Nat.le_of_not_lt fun hi => hlast ⟨by change b.sectionTable ≤ i; omega, hi⟩
      rw [List.getElem?_eq_none (by rw [List.length_append, hback]; omega),
        List.getElem?_eq_none (by rw [List.length_append]; omega)]

/-- Building partitions the image into its regions, in order and aligned, and the headers say where
they are. Stated numbers change the fields they stand for and no place or contents. Only too many
parts or, where addresses have four bytes, an address that is too large keep it from building. -/
theorem build_partitions (b : Blueprint) :
    (∀ image, b.build = some image →
      Partition image b.regions ∧ image.length = b.sectionTableRegion.stop) ∧
    b.Outlined ∧ b.Restated ∧
    (∀ (b' : Blueprint) (image image' : List UInt8), b'.unstated = b.unstated →
      b.build = some image → b'.build = some image' →
        AgreeOutside [b.headerRegion, b.segmentTableRegion, b.sectionTableRegion] image image') ∧
    (b.build = none ↔ 65533 < b.sections.length ∨ 65535 < b.segments.length ∨
      b.format.fileClass.Overflows b.addresses) := by
  refine ⟨fun image h => ?_, b.outlined, b.restated,
    fun _ _ _ hsame h h' => build_agree hsame h h', build_eq_none_iff⟩
  obtain rfl := build_cases h
  refine ⟨b.image_filled.partition, ?_⟩
  rw [List.length_append, List.length_append, front_length, contents_end]
  rfl

/-- A file with four-byte addresses, a segment, and a section whose stated place is far behind. -/
def small : Blueprint where
  format := ⟨.elf32, .msb⟩
  segments := [{ type := 1, contents := [1, 2, 3], statedFileSize := some 9 }]
  sections := [{ name := "a", type := 1, contents := [], statedOffset := some 0xffff_ffff }]

theorem build_partitions_small : ∃ image, small.build = some image ∧
    Partition image small.regions ∧
    (small.regions.map fun r => (r.start, r.stop)) =
      [(0, 52), (52, 84), (88, 91), (96, 96), (96, 109), (112, 232)] := by
  have hbuild : small.build.isSome := by decide +kernel
  obtain ⟨image, himage⟩ := Option.isSome_iff_exists.1 hbuild
  exact ⟨image, himage, ((build_partitions small).1 image himage).1, by decide +kernel⟩

end Blueprint

end ElfInspect
