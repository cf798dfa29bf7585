import ElfInspect.Proofs.Drafts

/-!
Widths of numbers. The numbers of a blueprint are given as wide as the widest fields for them, and
an address that is too wide for its field is refused; so in an image that is built every number fits
its field: `Blueprint.assemble_eq_of_build`.
-/

namespace ElfInspect

/-! ## Fields -/

/-- Numbers that fit the wider fields fit those of the class at hand unless an address among them
overflows. -/
theorem fit_of_not_overflows {k : FileClass} (ws : Layout) (f : Fields ws)
    (hwide : Fields.Fit .elf64 ws f) (h : ¬ k.Overflows (Fields.addresses ws f)) :
    Fields.Fit k ws f := by
  induction ws with
  | nil => trivial
  | cons w ws ih =>
    obtain ⟨n, rest⟩ := f
    obtain ⟨hn, hrest⟩ := hwide
    rw [Fields.addresses, FileClass.overflows_append, not_or] at h
    refine ⟨?_, ih rest hrest h.2⟩
    -- only addresses are narrower in the small class
    cases k with
    | elf64 => exact hn
    | elf32 =>
      cases w with
      | address =>
        by_contra hlarge
        exact h.1 ⟨rfl, n, List.mem_singleton.2 rfl, Nat.not_lt.1 hlarge⟩
      | _ => exact hn

/-! ## Plans -/

/-- The numbers of a planned section are no wider than the widest fields for them. -/
structure SectionPlan.Sized (plan : SectionPlan) : Prop where
  type : plan.type < 0x1_0000_0000
  flags : plan.flags < 0x1_0000_0000_0000_0000
  address : plan.address < 0x1_0000_0000_0000_0000
  link : plan.link < 0x1_0000_0000
  info : plan.info < 0x1_0000_0000
  align : plan.align < 0x1_0000_0000_0000_0000
  entrySize : plan.entrySize < 0x1_0000_0000_0000_0000
  statedOffset : ∀ n ∈ plan.statedOffset, n < 0x1_0000_0000_0000_0000
  statedSize : ∀ n ∈ plan.statedSize, n < 0x1_0000_0000_0000_0000

structure SegmentPlan.Sized (plan : SegmentPlan) : Prop where
  type : plan.type < 0x1_0000_0000
  flags : plan.flags < 0x1_0000_0000
  address : plan.address < 0x1_0000_0000_0000_0000
  align : plan.align < 0x1_0000_0000_0000_0000
  memorySize : ∀ n ∈ plan.memorySize, n < 0x1_0000_0000_0000_0000
  statedFileSize : ∀ n ∈ plan.statedFileSize, n < 0x1_0000_0000_0000_0000

/-- A table of strings is planned with small numbers. -/
theorem SectionPlan.Sized.strings (name : String) (contents : List UInt8) :
    SectionPlan.Sized { name, type := SectionEntry.strtab, contents } := by
  have htype : SectionEntry.strtab < 0x1_0000_0000 := by decide
  have hword : 0 < 0x1_0000_0000 := by decide
  have haddress : 1 < 0x1_0000_0000_0000_0000 := by decide
  have hzero := Nat.zero_lt_of_lt haddress
  exact ⟨htype, hzero, hzero, hword, hword, haddress, hzero, nofun, nofun⟩

theorem getD_lt {stated : Option Nat} {n limit : Nat} (hstated : ∀ m ∈ stated, m < limit)
    (h : n < limit) : stated.getD n < limit := by
  cases stated with
  | none => exact h
  | some m => exact hstated m rfl

theorem SectionPlan.Sized.entry {plan : SectionPlan} (h : plan.Sized) {name start : Nat}
    (hname : name < 0x1_0000_0000) (hstop : start + plan.contents.length < Blueprint.sizeLimit) :
    Fields.Fit .elf64 (Record.layout SectionEntry .elf64)
      (Record.toFields .elf64 (plan.entry name start)) := by
  have hlimit : Blueprint.sizeLimit < 0x1_0000_0000_0000_0000 := by decide
  have hoffset := getD_lt h.statedOffset (n := start) (by omega)
  have hsize := getD_lt h.statedSize (n := plan.contents.length) (by omega)
  exact ⟨hname, h.type, h.flags, h.address, hoffset, hsize, h.link, h.info, h.align, h.entrySize,
    trivial⟩

theorem SegmentPlan.Sized.entry {plan : SegmentPlan} (h : plan.Sized) (k : FileClass) {start : Nat}
    (hstop : start + plan.contents.length < Blueprint.sizeLimit) :
    Fields.Fit .elf64 (Record.layout SegmentEntry k)
      (Record.toFields k
        (plan.entry start (plan.statedFileSize.getD plan.contents.length))) := by
  have hlimit : Blueprint.sizeLimit < 0x1_0000_0000_0000_0000 := by decide
  have hstart : start < 0x1_0000_0000_0000_0000 := by omega
  have hfile := getD_lt h.statedFileSize (n := plan.contents.length) (by omega)
  have hmemory := getD_lt h.memorySize hfile
  cases k with
  | elf32 =>
    exact ⟨h.type, hstart, h.address, h.address, hfile, hmemory, h.flags, h.align, trivial⟩
  | elf64 =>
    exact ⟨h.type, h.flags, hstart, h.address, h.address, hfile, hmemory, h.align, trivial⟩

namespace Blueprint

/-! ## Blueprints -/

/-- The numbers of a blueprint are no wider than the widest fields for them. -/
structure Sized (b : Blueprint) : Prop where
  objectType : b.objectType < 0x1_0000
  machine : b.machine < 0x1_0000
  entry : b.entry < 0x1_0000_0000_0000_0000
  flags : b.flags < 0x1_0000_0000
  sections : ∀ plan ∈ b.sections, plan.Sized
  segments : ∀ plan ∈ b.segments, plan.Sized

/-- Four bytes can say where each section name starts. -/
def NamesInReach (b : Blueprint) : Prop :=
  ∀ offset ∈ stringOffsets 1 b.sectionNames, offset < 0x1_0000_0000

instance (b : Blueprint) : Decidable b.NamesInReach :=
  inferInstanceAs (Decidable (∀ offset ∈ _, _))

variable {b : Blueprint} {bytes : List UInt8}

theorem segmentEnd_le (b : Blueprint) : b.segmentEnd ≤ b.sectionTable := by
  have hcontents : b.segmentEnd ≤ b.contentEnd := by
    rw [contentEnd, ← pack_length]
    exact Nat.le_add_right _ _
  exact hcontents.trans (le_aligned _)

/-- What is placed ends before the section headers. -/
theorem Sized.segmentEntries (h : b.Sized) (hsize : b.sectionTable < sizeLimit)
    {p : SegmentEntry} (hp : p ∈ b.segmentEntries) :
    Fields.Fit .elf64 (Record.layout SegmentEntry b.format.fileClass)
      (Record.toFields b.format.fileClass p) := by
  obtain ⟨k, hk⟩ := List.mem_iff_getElem?.1 hp
  have hlength := (List.getElem?_eq_some_iff.1 hk).1
  rw [segmentEntries_length] at hlength
  have hplan := List.getElem?_eq_getElem hlength
  obtain ⟨start, hstart, -⟩ := place_holdsAt (segmentChunk_at hplan) (zeros b.contentStart)
  rw [length_zeros] at hstart
  have hstop := place_add_length_le (segmentChunk_at hplan) hstart
  rw [segmentEntry_at hplan hstart] at hk
  cases hk
  have hend := b.segmentEnd_le
  exact (h.segments _ (List.getElem_mem hlength)).entry _ (by rw [segmentEnd] at hend; omega)

theorem Sized.sectionEntries (h : b.Sized) (hnames : b.NamesInReach)
    (hsize : b.sectionTable < sizeLimit) {s : SectionEntry} (hs : s ∈ b.sectionEntries) :
    Fields.Fit .elf64 (Record.layout SectionEntry .elf64) (Record.toFields .elf64 s) := by
  obtain ⟨k, hk⟩ := List.mem_iff_getElem?.1 hs
  cases k with
  | zero =>
    cases hk
    decide
  | succ k =>
    have hlength := (List.getElem?_eq_some_iff.1 hk).1
    rw [sectionEntries_length] at hlength
    have hplans : k < b.plans.length := by
      rw [plans_length]
      rw [sectionCount] at hlength
      omega
    have hplan := List.getElem?_eq_getElem hplans
    obtain ⟨start, hstart, -⟩ := place_holdsAt (sectionChunk_at hplan) (zeros b.segmentEnd)
    rw [length_zeros] at hstart
    have hstop := place_add_length_le (sectionChunk_at hplan) hstart
    obtain ⟨name, hname, hentry⟩ := sectionEntry_at hplan hstart
    rw [hentry] at hk
    cases hk
    have hsized : b.plans[k].Sized := by
      rcases List.mem_append.1 (List.getElem_mem hplans) with hmem | hmem
      · exact h.sections _ hmem
      · rw [List.mem_singleton.1 hmem]
        exact .strings _ _
    have hend := le_aligned b.contentEnd
    rw [← contentEnd] at hstop
    rw [sectionTable] at hsize
    exact hsized.entry (hnames _ (List.mem_of_getElem? hname)) (by omega)

theorem Sized.header (h : b.Sized) (hb : b.Unstated) (hsections : b.sectionCount < countLimit)
    (hsegments : b.segments.length < countLimit) (hsize : b.sectionTable < sizeLimit) :
    Fields.Fit .elf64 Header.bodyLayout b.header.body := by
  have hlimit : sizeLimit < 0x1_0000_0000_0000_0000 := by decide
  have hsizes (k : FileClass) : Header.size k < 0x1_0000 ∧ Record.size SegmentEntry k < 0x1_0000 ∧
      Record.size SectionEntry k < 0x1_0000 := by
    cases k <;> decide
  obtain ⟨hheader, hsegment, hsection⟩ := hsizes b.format.fileClass
  have htable : b.header.segmentTable < 0x1_0000_0000_0000_0000 := by
    rw [Blueprint.header, hb.segmentTable, Option.getD_none]
    dsimp only
    split <;> omega
  have hsectionTable : b.header.sectionTable < 0x1_0000_0000_0000_0000 := by
    rw [hb.header_sectionTable]
    omega
  have hnames : b.header.nameSection < 0x1_0000 := by
    rw [hb.header_nameSection]
    rw [sectionCount, countLimit] at hsections
    omega
  have hversion : b.header.version < 0x1_0000_0000 := by
    change Header.currentVersion.toNat < _
    decide
  exact ⟨h.objectType, h.machine, hversion, h.entry, htable, hsectionTable, h.flags, hheader,
    hsegment, hb.header_segmentCount.trans_lt hsegments, hsection,
    hb.header_sectionCount.trans_lt hsections, hnames, trivial⟩

/-- The image that is built, if it fits into memory. -/
theorem assemble_eq_of_build (h : b.Sized) (hnames : b.NamesInReach) (hb : b.Unstated)
    (hbuild : b.build = some bytes) (hsize : bytes.length < sizeLimit) :
    b.assemble = some bytes := by
  refine assemble_eq_some_iff.2 ⟨hbuild, ?_, hsize⟩
  rw [build_eq, Option.ite_none_right_eq_some] at hbuild
  obtain ⟨⟨hsections, hsegments, haddresses⟩, hbytes⟩ := hbuild
  rw [overflows_addresses, not_or, not_or, overflows_flatMap, overflows_flatMap] at haddresses
  obtain ⟨hheader, hsegment, hsection⟩ := haddresses
  have htable : b.sectionTable < sizeLimit := by
    rw [← Option.some.inj hbytes, List.length_append, List.length_append, front_length,
      contents_end] at hsize
    omega
  constructor
  case header => exact fit_of_not_overflows _ _ (h.header hb hsections hsegments htable) hheader
  case segments =>
    intro p hp
    refine fit_of_not_overflows _ _ (h.segmentEntries htable hp) fun hover => hsegment ⟨p, hp, ?_⟩
    rwa [← SegmentEntry.addresses_eq b.format.fileClass]
  case sections =>
    intro s hs
    have hfit := h.sectionEntries hnames htable hs
    exact fit_of_not_overflows _ _ hfit fun hover => hsection ⟨s, hs, hover⟩

end Blueprint

end ElfInspect
