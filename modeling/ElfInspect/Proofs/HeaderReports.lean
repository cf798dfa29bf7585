import ElfInspect.Proofs.InterpreterPaths
import ElfInspect.Proofs.Listings

/-!
Reports on the headers. Such a report has one record for each section and each segment, or it fails
for the first of them that cannot be shown; and an image on which it is made answers the questions
for a section by name or type and for the interpreter: `headerReport_complete`.
-/

namespace ElfInspect

variable {img : Image}

/-! ## What reports say -/

/-- The record of section `i`. -/
def SectionEntry.record (s : SectionEntry) (i : Nat) (name : String) : SectionRecord where
  index := i
  name
  type := nameOrHex typeName? s.type
  address := s.address
  offset := s.offset
  size := s.size
  entries := s.entryCount

/-- The letters of the permissions to read, write and execute, which are the bits 2, 1 and 0. -/
def SegmentEntry.letters (p : SegmentEntry) : String :=
  String.ofList [if p.flags.testBit 2 then 'R' else '-', if p.flags.testBit 1 then 'W' else '-',
    if p.flags.testBit 0 then 'X' else '-']

/-- The record of segment `i`. -/
def SegmentEntry.record (p : SegmentEntry) (i : Nat) : SegmentRecord where
  index := i
  type := nameOrHex typeName? p.type
  offset := p.offset
  address := p.virtualAddress
  fileSize := p.fileSize
  memorySize := p.memorySize
  permissions := p.letters

namespace Image

/-- Section `i` can be read, and it has a name. -/
def NamesEntry (img : Image) (i : Nat) : Prop :=
  ∃ s name, img.sectionAt i = .ok s ∧ img.sectionName i = .ok name

/-- All that a report on the headers shows can be read, and the first segment of an interpreter is
within the file. -/
structure Reportable (img : Image) : Prop where
  sections : ∀ i < img.header.sectionCount, img.NamesEntry i
  segments : ∀ i < img.header.segmentCount, ∃ p, img.segmentAt i = .ok p
  interpreter : ∀ i p, img.HoldsPath i p → p.offset + p.fileSize ≤ img.bytes.size

/-- Why a report on the headers is not made: what cannot be shown and comes first, of the sections,
then of the segments, then the path of the interpreter. -/
inductive KeepsFromReport (img : Image) : Failure → Prop
  | sectionUnread {i : Nat} {fault : Fault} (hi : i < img.header.sectionCount)
    (hbefore : ∀ j < i, img.NamesEntry j) (h : img.sectionAt i = .error fault) :
    KeepsFromReport img (.readSection i fault)
  | sectionUnnamed {i : Nat} {s : SectionEntry} {fault : Fault}
    (hi : i < img.header.sectionCount) (hbefore : ∀ j < i, img.NamesEntry j)
    (hs : img.sectionAt i = .ok s) (h : img.sectionName i = .error fault) :
    KeepsFromReport img (.nameSection i fault)
  | segmentUnread {i : Nat} {fault : Fault}
    (hsections : ∀ j < img.header.sectionCount, img.NamesEntry j)
    (hi : i < img.header.segmentCount) (hbefore : ∀ j < i, ∃ p, img.segmentAt j = .ok p)
    (h : img.segmentAt i = .error fault) : KeepsFromReport img (.readSegment i fault)
  | interpreterUnread {i : Nat} {p : SegmentEntry} {fault : Fault}
    (hsections : ∀ j < img.header.sectionCount, img.NamesEntry j)
    (hsegments : ∀ j < img.header.segmentCount, ∃ p, img.segmentAt j = .ok p)
    (hholds : img.HoldsPath i p)
    (h : SliceReads img.bytes p.offset p.fileSize (.error fault)) :
    KeepsFromReport img (.readInterpreter fault)

/-- The report has the records of all sections and segments, in order. -/
structure Recorded (img : Image) (report : HeaderReport) : Prop where
  sectionCount : report.sections.length = img.header.sectionCount
  sections : ∀ k r, report.sections[k]? = some r →
    ∃ s name, img.sectionAt k = .ok s ∧ img.sectionName k = .ok name ∧ r = s.record k name
  segmentCount : report.segments.length = img.header.segmentCount
  segments : ∀ k r, report.segments[k]? = some r →
    ∃ p, img.segmentAt k = .ok p ∧ r = p.record k

/-- What a search for a name finds, by the records behind the first one. -/
inductive FoundBy (img : Image) (records : List SectionRecord) (name : String) :
    Option SectionHit → Prop
  | found {k : Nat} {r : SectionRecord} {s : SectionEntry} (hpos : 1 ≤ k)
    (hr : records[k]? = some r) (hname : r.name = name)
    (hbefore : ∀ j r, 1 ≤ j → j < k → records[j]? = some r → r.name ≠ name)
    (hs : img.sectionAt k = .ok s) : FoundBy img records name (some ⟨k, s⟩)
  | absent (h : ∀ k r, 1 ≤ k → records[k]? = some r → r.name ≠ name) :
    FoundBy img records name none

/-! ## Reports made from fresh answers -/

def sectionRecord (img : Image) (i : Nat) : Except Failure SectionRecord := do
  let s ← (img.sectionAt i).mapError (.readSection i)
  let name ← (img.sectionName i).mapError (.nameSection i)
  return s.record i name

def segmentRecord (img : Image) (i : Nat) : Except Failure SegmentRecord := do
  let p ← (img.segmentAt i).mapError (.readSegment i)
  return p.record i

def sectionRecords (img : Image) : Except Failure (List SectionRecord) :=
  gather (fun i => do return [← img.sectionRecord i]) 0 img.header.sectionCount

def segmentRecords (img : Image) : Except Failure (List SegmentRecord) :=
  gather (fun i => do return [← img.segmentRecord i]) 0 img.header.segmentCount

/-- The report on all headers. -/
def headerReport (img : Image) : Except Failure HeaderReport := do
  let sections ← img.sectionRecords
  let segments ← img.segmentRecords
  let interpreter ← img.interpreterPath.mapError .readInterpreter
  return {
    fileClass := classText img.header.format.fileClass
    order := orderText img.header.format.order
    type := (ObjectType.ofCode img.header.objectType).text
    machine := machineText img.header.machine
    entry := img.header.entry
    sections
    segments
    interpreter }

end Image

theorem letter_eq (flags i : Nat) (c : Char) :
    (if flags &&& 2 ^ i = 2 ^ i then c else '-') = if flags.testBit i then c else '-' := by
  have hbit : flags &&& 2 ^ i = 2 ^ i ↔ flags.testBit i = true := by
    rw [Nat.and_two_pow]
    have hpos : 0 ≠ 2 ^ i := (Nat.two_pow_pos i).ne
    cases flags.testBit i <;> simp [hpos]
  simp only [hbit]

theorem permissionLetters_eq (p : SegmentEntry) : permissionLetters p.flags = p.letters := by
  have hread := letter_eq p.flags 2 'R'
  have hwrite := letter_eq p.flags 1 'W'
  have hexecute := letter_eq p.flags 0 'X'
  rw [SegmentEntry.letters, ← hread, ← hwrite, ← hexecute]
  rfl

theorem sectionRecord_reports (img : Image) (i : Nat) :
    Reports img (sectionRecord img i) (img.sectionRecord i) := by
  refine reports_bind (reports_question _ (SessionM.sectionAt_agrees img i)) fun s => ?_
  exact reports_bind (reports_question _ (SessionM.sectionName_agrees img i)) fun name =>
    reports_pure _

theorem segmentRecord_reports (img : Image) (i : Nat) :
    Reports img (segmentRecord img i) (img.segmentRecord i) := by
  refine reports_bind (reports_question _ (SessionM.segmentAt_agrees img i)) fun p => ?_
  rw [SegmentEntry.record, ← permissionLetters_eq]
  exact reports_pure _

theorem headerReport_reports (img : Image) :
    Reports img (headerReport img) img.headerReport := by
  refine reports_bind (reports_gather (fun i => ?_) _ _) fun sections => ?_
  · exact reports_bind (sectionRecord_reports img i) fun r => reports_pure [r]
  refine reports_bind (reports_gather (fun i => ?_) _ _) fun segments => ?_
  · exact reports_bind (segmentRecord_reports img i) fun r => reports_pure [r]
  exact reports_bind (reports_question _ (SessionM.interpreterPath_agrees img)) fun path =>
    reports_pure _

namespace Image

/-! ## Records -/

theorem sectionRecord_ok_iff {i : Nat} {r : SectionRecord} :
    img.sectionRecord i = .ok r ↔
      ∃ s name, img.sectionAt i = .ok s ∧ img.sectionName i = .ok name ∧ r = s.record i name := by
  unfold sectionRecord
  simp only [bind_ok_iff, mapError_ok_iff]
  constructor
  · rintro ⟨s, hs, name, hname, h⟩
    exact ⟨s, name, hs, hname, (Except.ok.inj h).symm⟩
  · rintro ⟨s, name, hs, hname, rfl⟩
    exact ⟨s, hs, name, hname, rfl⟩

theorem segmentRecord_ok_iff {i : Nat} {r : SegmentRecord} :
    img.segmentRecord i = .ok r ↔ ∃ p, img.segmentAt i = .ok p ∧ r = p.record i := by
  unfold segmentRecord
  simp only [bind_ok_iff, mapError_ok_iff]
  refine exists_congr fun p => and_congr_right fun _ => ?_
  exact ⟨fun h => (Except.ok.inj h).symm, fun h => congrArg Except.ok h.symm⟩

theorem exists_sectionRecord {i : Nat} :
    (∃ r, img.sectionRecord i = .ok r) ↔ img.NamesEntry i := by
  simp only [sectionRecord_ok_iff]
  constructor
  · rintro ⟨r, s, name, hs, hname, -⟩
    exact ⟨s, name, hs, hname⟩
  · rintro ⟨s, name, hs, hname⟩
    exact ⟨_, s, name, hs, hname, rfl⟩

theorem exists_segmentRecord {i : Nat} :
    (∃ r, img.segmentRecord i = .ok r) ↔ ∃ p, img.segmentAt i = .ok p := by
  simp only [segmentRecord_ok_iff]
  constructor
  · rintro ⟨r, p, hp, -⟩
    exact ⟨p, hp⟩
  · rintro ⟨p, hp⟩
    exact ⟨_, p, hp, rfl⟩

theorem sectionRecord_error_iff {i : Nat} {failure : Failure} :
    img.sectionRecord i = .error failure ↔
      (∃ fault, img.sectionAt i = .error fault ∧ .readSection i fault = failure) ∨
      ∃ s fault, img.sectionAt i = .ok s ∧ img.sectionName i = .error fault ∧
        .nameSection i fault = failure := by
  unfold sectionRecord
  simp only [bind_error_iff, mapError_ok_iff, mapError_error_iff]
  refine or_congr_right (exists_congr fun s => ?_)
  constructor
  · rintro ⟨hs, ⟨fault, hfault, rfl⟩ | ⟨name, -, h⟩⟩
    · exact ⟨fault, hs, hfault, rfl⟩
    · cases h
  · rintro ⟨fault, hs, hfault, rfl⟩
    exact ⟨hs, .inl ⟨fault, hfault, rfl⟩⟩

theorem segmentRecord_error_iff {i : Nat} {failure : Failure} :
    img.segmentRecord i = .error failure ↔
      ∃ fault, img.segmentAt i = .error fault ∧ .readSegment i fault = failure := by
  unfold segmentRecord
  rw [bind_error_iff, mapError_error_iff]
  refine or_iff_left ?_
  rintro ⟨p, -, h⟩
  cases h

theorem exists_sectionRecords :
    (∃ records, img.sectionRecords = .ok records) ↔
      ∀ i < img.header.sectionCount, img.NamesEntry i := by
  simp only [sectionRecords, exists_gather_each, exists_sectionRecord]

theorem exists_segmentRecords :
    (∃ records, img.segmentRecords = .ok records) ↔
      ∀ i < img.header.segmentCount, ∃ p, img.segmentAt i = .ok p := by
  simp only [segmentRecords, exists_gather_each, exists_segmentRecord]

theorem sectionRecords_error_iff {failure : Failure} :
    img.sectionRecords = .error failure ↔
      ∃ i < img.header.sectionCount, img.sectionRecord i = .error failure ∧
        ∀ j < i, img.NamesEntry j := by
  simp only [sectionRecords, gather_each_error_iff, exists_sectionRecord]

theorem segmentRecords_error_iff {failure : Failure} :
    img.segmentRecords = .error failure ↔
      ∃ i < img.header.segmentCount, img.segmentRecord i = .error failure ∧
        ∀ j < i, ∃ p, img.segmentAt j = .ok p := by
  simp only [segmentRecords, gather_each_error_iff, exists_segmentRecord]

/-! ## Reports that are made, and those that fail -/

theorem of_headerReport_ok {report : HeaderReport} (h : img.headerReport = .ok report) :
    img.Recorded report ∧ img.interpreterPath = .ok report.interpreter := by
  obtain ⟨sections, hsections, h⟩ := bind_ok_iff.1 h
  obtain ⟨segments, hsegments, h⟩ := bind_ok_iff.1 h
  obtain ⟨path, hpath, h⟩ := bind_ok_iff.1 h
  obtain rfl := Except.ok.inj h
  obtain ⟨hsectionCount, hsections⟩ := of_gather_each hsections
  obtain ⟨hsegmentCount, hsegments⟩ := of_gather_each hsegments
  exact ⟨⟨hsectionCount, fun k r hr => sectionRecord_ok_iff.1 (hsections k r hr), hsegmentCount,
    fun k r hr => segmentRecord_ok_iff.1 (hsegments k r hr)⟩, mapError_ok_iff.1 hpath⟩

theorem keepsFromReport_of_error {failure : Failure} (h : img.headerReport = .error failure) :
    img.KeepsFromReport failure := by
  rcases bind_error_iff.1 h with hfails | ⟨sections, hsections, h⟩
  · obtain ⟨i, hi, hrecord, hbefore⟩ := sectionRecords_error_iff.1 hfails
    rcases sectionRecord_error_iff.1 hrecord with ⟨fault, hs, rfl⟩ | ⟨s, fault, hs, hname, rfl⟩
    · exact .sectionUnread hi hbefore hs
    · exact .sectionUnnamed hi hbefore hs hname
  have hsections := exists_sectionRecords.1 ⟨sections, hsections⟩
  rcases bind_error_iff.1 h with hfails | ⟨segments, hsegments, h⟩
  · obtain ⟨i, hi, hrecord, hbefore⟩ := segmentRecords_error_iff.1 hfails
    obtain ⟨fault, hp, rfl⟩ := segmentRecord_error_iff.1 hrecord
    exact .segmentUnread hsections hi hbefore hp
  have hsegments := exists_segmentRecords.1 ⟨segments, hsegments⟩
  rcases bind_error_iff.1 h with hfails | ⟨path, -, h⟩
  · obtain ⟨fault, hpath, rfl⟩ := mapError_error_iff.1 hfails
    -- The segments have been read by now, so that only the bytes of the path can be at fault.
    rcases interpreterPath_error_iff.1 hpath with ⟨i, hi, hunread, -⟩ | ⟨i, p, hholds, hdata⟩
    · obtain ⟨p, hp⟩ := hsegments i hi
      cases hp.symm.trans hunread
    · exact .interpreterUnread hsections hsegments hholds hdata
  · cases h

theorem KeepsFromReport.headerReport_eq {failure : Failure} (h : img.KeepsFromReport failure) :
    img.headerReport = .error failure := by
  cases h with
  | sectionUnread hi hbefore h =>
    have hrecord := sectionRecord_error_iff.2 (.inl ⟨_, h, rfl⟩)
    exact bind_error_iff.2 (.inl (sectionRecords_error_iff.2 ⟨_, hi, hrecord, hbefore⟩))
  | sectionUnnamed hi hbefore hs h =>
    have hrecord := sectionRecord_error_iff.2 (.inr ⟨_, _, hs, h, rfl⟩)
    exact bind_error_iff.2 (.inl (sectionRecords_error_iff.2 ⟨_, hi, hrecord, hbefore⟩))
  | segmentUnread hsections hi hbefore h =>
    obtain ⟨sections, hsections⟩ := exists_sectionRecords.2 hsections
    have hrecord := segmentRecord_error_iff.2 ⟨_, h, rfl⟩
    refine bind_error_iff.2 (.inr ⟨sections, hsections, ?_⟩)
    exact bind_error_iff.2 (.inl (segmentRecords_error_iff.2 ⟨_, hi, hrecord, hbefore⟩))
  | interpreterUnread hsections hsegments hholds h =>
    obtain ⟨sections, hsections⟩ := exists_sectionRecords.2 hsections
    obtain ⟨segments, hsegments⟩ := exists_segmentRecords.2 hsegments
    have hpath := interpreterPath_error_iff.2 (.inr ⟨_, _, hholds, h⟩)
    refine bind_error_iff.2 (.inr ⟨sections, hsections, ?_⟩)
    refine bind_error_iff.2 (.inr ⟨segments, hsegments, ?_⟩)
    exact bind_error_iff.2 (.inl (mapError_error_iff.2 ⟨_, hpath, rfl⟩))

theorem headerReport_error_iff {failure : Failure} :
    img.headerReport = .error failure ↔ img.KeepsFromReport failure :=
  ⟨keepsFromReport_of_error, KeepsFromReport.headerReport_eq⟩

/-- A report is made exactly where all that it shows can be read. -/
theorem exists_headerReport : (∃ report, img.headerReport = .ok report) ↔ img.Reportable := by
  constructor
  · rintro ⟨report, h⟩
    obtain ⟨sections, hsections, h⟩ := bind_ok_iff.1 h
    obtain ⟨segments, hsegments, h⟩ := bind_ok_iff.1 h
    obtain ⟨path, hpath, -⟩ := bind_ok_iff.1 h
    rw [mapError_ok_iff] at hpath
    refine ⟨exists_sectionRecords.1 ⟨sections, hsections⟩,
      exists_segmentRecords.1 ⟨segments, hsegments⟩, fun i p hholds => ?_⟩
    by_contra houtside
    obtain ⟨fault, hdata⟩ := sliceReads_error_iff.2 (Nat.lt_of_not_le houtside)
    cases hpath.symm.trans (interpreterPath_error_iff.2 (.inr ⟨i, p, hholds, hdata⟩))
  · intro h
    cases hreport : img.headerReport with
    | ok report => exact ⟨report, rfl⟩
    | error failure =>
      cases keepsFromReport_of_error hreport with
      | sectionUnread hi _ hunread =>
        obtain ⟨s, _, hs, -⟩ := h.sections _ hi
        cases hs.symm.trans hunread
      | sectionUnnamed hi _ _ hunnamed =>
        obtain ⟨_, name, -, hname⟩ := h.sections _ hi
        cases hname.symm.trans hunnamed
      | segmentUnread _ hi _ hunread =>
        obtain ⟨p, hp⟩ := h.segments _ hi
        cases hp.symm.trans hunread
      | interpreterUnread _ _ hholds hdata =>
        have hinside := h.interpreter _ _ hholds
        have houtside := sliceReads_error_iff.1 ⟨_, hdata⟩
        omega

/-! ## Questions to an image on which a report is made -/

namespace Recorded

variable {report : HeaderReport} (h : img.Recorded report)
include h

theorem exists_record {k : Nat} (hk : k < img.header.sectionCount) :
    ∃ r s, report.sections[k]? = some r ∧ img.sectionAt k = .ok s ∧
      img.sectionName k = .ok r.name := by
  have hlt : k < report.sections.length := h.sectionCount ▸ hk
  have hr := List.getElem?_eq_getElem hlt
  obtain ⟨s, name, hs, hname, heq⟩ := h.sections k _ hr
  exact ⟨_, s, hr, hs, heq ▸ hname⟩

theorem name_eq {k : Nat} {r : SectionRecord} {name : String}
    (hr : report.sections[k]? = some r) (hname : img.sectionName k = .ok name) : r.name = name := by
  obtain ⟨s, name', -, hname', rfl⟩ := h.sections k r hr
  exact Except.ok.inj (hname'.symm.trans hname)

/-- A search for a name finds the first record behind section 0 that has it. -/
theorem sectionNamed (name : String) :
    ∃ found, img.sectionNamed name = .ok found ∧ img.FoundBy report.sections name found := by
  have hscan := img.sectionNamed_scan name
  have hother {k : Nat} (hpassed : Passed img.sectionName name k) (j : Nat) (r : SectionRecord)
      (hpos : 1 ≤ j) (hlt : j < k) (hr : report.sections[j]? = some r) : r.name ≠ name := by
    obtain ⟨other, hname, hne⟩ := hpassed j hpos hlt
    exact h.name_eq hr hname ▸ hne
  cases hanswer : img.sectionNamed name with
  | error fault =>
    obtain ⟨k, -, hk, hunnamed, -⟩ := (hscan.failed fault).1 hanswer
    obtain ⟨r, _, -, -, hname⟩ := h.exists_record hk
    cases hname.symm.trans hunnamed
  | ok found =>
    refine ⟨found, rfl, ?_⟩
    cases found with
    | none =>
      have hpassed := hscan.absent.1 hanswer
      refine .absent fun k r hpos hr => hother hpassed k r hpos ?_ hr
      rw [← h.sectionCount]
      exact (List.getElem?_eq_some_iff.1 hr).1
    | some hit =>
      obtain ⟨hpos, hlt, hs, hname, hpassed⟩ := (hscan.found hit).1 hanswer
      obtain ⟨r, _, hr, -, -⟩ := h.exists_record hlt
      exact .found hpos hr (h.name_eq hr hname) (hother hpassed) hs

theorem wellKnown (w : WellKnown) : ∃ found, img.wellKnown w = .ok found := by
  cases hanswer : img.wellKnown w with
  | ok found => exact ⟨found, rfl⟩
  | error fault =>
    obtain ⟨k, -, hk, htype, -⟩ := ((img.wellKnown_scan w).failed fault).1 hanswer
    obtain ⟨_, s, -, hs, -⟩ := h.exists_record hk
    rw [Image.typeAt, hs] at htype
    cases htype

theorem exists_segment {i : Nat} (hi : i < img.header.segmentCount) :
    ∃ p, img.segmentAt i = .ok p := by
  have hlt : i < report.segments.length := h.segmentCount ▸ hi
  obtain ⟨p, hp, -⟩ := h.segments i _ (List.getElem?_eq_getElem hlt)
  exact ⟨p, hp⟩

/-- There is a path exactly where there is a segment of an interpreter. -/
theorem interpreter_isSome_iff (hpath : img.interpreterPath = .ok report.interpreter) :
    report.interpreter.isSome ↔ ∃ i p, img.segmentAt i = .ok p ∧ p.type = 3 := by
  have hnone : report.interpreter = none ↔ ∀ i < img.header.segmentCount, img.PassesOver i := by
    rw [← interpreterPath_eq_none_iff, hpath, Except.ok.injEq]
  rw [Option.isSome_iff_ne_none, Ne, hnone]
  constructor
  · intro hsome
    obtain ⟨i, hi, hholds⟩ := not_forall₂.1 hsome
    obtain ⟨p, hp⟩ := h.exists_segment hi
    exact ⟨i, p, hp, by_contra fun htype => hholds ⟨p, hp, htype⟩⟩
  · rintro ⟨i, p, hp, htype⟩ hall
    obtain ⟨q, hq, hother⟩ := hall i (segmentAt_ok hp).1
    obtain rfl := Except.ok.inj (hp.symm.trans hq)
    exact hother htype

end Recorded

end Image

/-- After any questions, a report on the headers is made exactly where all sections can be read and
named, all segments can be read and the first segment of an interpreter is within the file;
otherwise the first section, the first segment or else the interpreter is what it fails for. In a
report there is one record for each section and segment. Then any later search for a name finds the
first record behind section 0 that has it, the searches by type succeed, and so does the one for the
interpreter, whose path is that of the report. -/
theorem headerReport_complete (img : Image) (asked : List Query) :
    let answer := Session.resultAfter img asked (headerReport img)
    ((∃ report, answer = .ok report) ↔ img.Reportable) ∧
      (∀ failure, answer = .error failure ↔ img.KeepsFromReport failure) ∧
      ∀ report, answer = .ok report →
        img.Recorded report ∧
          (report.interpreter.isSome ↔ ∃ i p, img.segmentAt i = .ok p ∧ p.type = 3) ∧
          ∀ later,
            (∀ name, ∃ found,
              Session.resultAfter img later (SessionM.sectionNamed img name) = .ok found ∧
                img.FoundBy report.sections name found) ∧
            (∀ w, ∃ found, Session.resultAfter img later (SessionM.wellKnown img w) = .ok found) ∧
            Session.resultAfter img later (SessionM.interpreterPath img) =
              .ok report.interpreter := by
  intro answer
  have hanswer : answer = img.headerReport := (headerReport_reports img).resultAfter asked
  rw [hanswer]
  refine ⟨Image.exists_headerReport, fun failure => Image.headerReport_error_iff,
    fun report h => ?_⟩
  obtain ⟨hrecorded, hpath⟩ := Image.of_headerReport_ok h
  refine ⟨hrecorded, hrecorded.interpreter_isSome_iff hpath, fun later => ⟨fun name => ?_,
    fun w => ?_, ?_⟩⟩
  · rw [(SessionM.sectionNamed_agrees img name).resultAfter later]
    exact hrecorded.sectionNamed name
  · rw [(SessionM.wellKnown_agrees img w).resultAfter later]
    exact hrecorded.wellKnown w
  · rw [(SessionM.interpreterPath_agrees img).resultAfter later]
    exact hpath

end ElfInspect
