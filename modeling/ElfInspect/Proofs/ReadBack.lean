import ElfInspect.Proofs.FieldWidths
import ElfInspect.Proofs.Laziness

/-!
What was added to a blueprint is read back from its image, part by part, whatever else has been
added and whatever has been asked before.
-/

namespace ElfInspect

/-- Whatever has been asked before, the answer to `q` is `a`. -/
def Image.Says (img : Image) (q : Query) (a : Answer) : Prop :=
  ∀ asked, q.answerAfter img asked = .ok a

theorem Image.says_of_fresh {img : Image} {q : Query} {a : Answer} (h : q.fresh img = .ok a) :
    img.Says q a := by
  intro asked
  rw [Query.answerAfter_eq_fresh, h]

/-! ## What is read back -/

/-- The bytes that a planned section has in the file. -/
def SectionPlan.held (plan : SectionPlan) : ByteArray :=
  if plan.type = SectionEntry.nobits then .empty else plan.contents.toByteArray

/-- Section `i` is as it was planned. -/
structure SectionPlan.ReadAt (plan : SectionPlan) (img : Image) (i : Nat) : Prop where
  entry : ∃ s : SectionEntry, img.Says (.sectionEntry i) (.sectionEntry s) ∧
    s.type = plan.type ∧ s.flags = plan.flags ∧ s.address = plan.address ∧
    s.size = plan.contents.length ∧ s.link = plan.link ∧ s.info = plan.info ∧
    s.align = plan.align ∧ s.entrySize = plan.entrySize
  name : img.Says (.sectionName i) (.text plan.name)
  data : img.Says (.sectionData i) (.bytes plan.held)

/-- Segment `i` is as it was planned. -/
structure SegmentPlan.ReadAt (plan : SegmentPlan) (img : Image) (i : Nat) : Prop where
  entry : ∃ p : SegmentEntry, img.Says (.segment i) (.segment p) ∧
    p.type = plan.type ∧ p.flags = plan.flags ∧ p.virtualAddress = plan.address ∧
    p.physicalAddress = plan.address ∧ p.fileSize = plan.contents.length ∧
    p.memorySize = plan.memorySize.getD plan.contents.length ∧ p.align = plan.align
  data : img.Says (.segmentData i) (.bytes plan.contents.toByteArray)

namespace Blueprint

/-- The section of an added string table. -/
def stringsPlan (name : String) (strings : List String) : SectionPlan where
  name
  type := SectionEntry.strtab
  contents := joinStrings strings

/-- The section of an added symbol table. -/
def symbolsPlan (format : Format) (name : String) (type link : Nat) (symbols : List SymbolEntry) :
    SectionPlan where
  name
  type
  contents := symbols.flatMap (Record.encode format)
  link
  info := 1
  align := 8
  entrySize := Record.size SymbolEntry format.fileClass

/-- The part can be read from the image by what its addition returned. -/
def Part.ReadBack (img : Image) : Part → Added → Prop
  | .plain plan, .index i => plan.ReadAt img i
  | .strings name texts, .strings i offsets =>
    (stringsPlan name texts).ReadAt img i ∧ offsets.length = texts.length ∧
      ∀ x ∈ texts.zip offsets, img.Says (.sectionString i x.2) (.text x.1)
  | .symbols name type link entries, .index i =>
    (symbolsPlan img.format name type link entries).ReadAt img i ∧
      img.Says (.entryCount i) (.count entries.length) ∧
      ∀ j symbol, entries[j]? = some symbol → img.Says (.symbol i j) (.symbol symbol)
  | .segment plan, .index i => plan.ReadAt img i
  | _, _ => False

/-- Nothing else is stated than what is laid out, and no text holds a zero character. -/
def Part.Plain : Part → Prop
  | .plain plan => plan.statedOffset = none ∧ plan.statedSize = none ∧ '\x00' ∉ plan.name.toList
  | .strings name texts => '\x00' ∉ name.toList ∧ ∀ s ∈ texts, '\x00' ∉ s.toList
  | .symbols name type _ _ => '\x00' ∉ name.toList ∧ type ≠ SectionEntry.nobits
  | .segment plan => plan.statedFileSize = none

/-- The numbers of the part are no wider than the widest fields for them. Symbols are refused when
they are added if theirs are. -/
def Part.Sized : Part → Prop
  | .plain plan => plan.Sized
  | .strings _ _ => True
  | .symbols _ type link _ => type < 0x1_0000_0000 ∧ link < 0x1_0000_0000
  | .segment plan => plan.Sized

def Part.isSegment : Part → Bool
  | .segment _ => true
  | _ => false

/-- The image has what the blueprint `start` says and all the parts that were added to it. -/
structure ReadBack (start : Blueprint) (parts : List Part) (added : List Added) (img : Image) :
    Prop where
  format : img.header.format = start.format
  objectType : img.header.objectType = start.objectType
  machine : img.header.machine = start.machine
  entry : img.header.entry = start.entry
  flags : img.header.flags = start.flags
  segmentCount : img.header.segmentCount = parts.countP (·.isSegment)
  sectionCount : img.header.sectionCount = parts.countP (!·.isSegment) + 2
  nameSection : img.header.nameSection = img.header.sectionCount - 1
  nullEntry : img.Says (.sectionEntry 0) (.sectionEntry ⟨0, 0, 0, 0, 0, 0, 0, 0, 0, 0⟩)
  nullName : img.Says (.sectionName 0) (.text "")
  lastName : img.Says (.sectionName (img.header.sectionCount - 1)) (.text ".shstrtab")
  added_length : added.length = parts.length
  parts : ∀ x ∈ parts.zip added, x.1.ReadBack img x.2

/-! ## Sections -/

variable {b : Blueprint} {bytes : List UInt8}

theorem namesPlan_at (b : Blueprint) : b.plans[b.sections.length]? = some b.namesPlan := by
  rw [plans, List.getElem?_concat_length]

namespace Unstated

variable (hb : b.Unstated) (h : b.assemble = some bytes)
include hb h

/-- A planned section with its header, its bytes, its name's offset and its place. -/
theorem section_cases {k : Nat} {plan : SectionPlan} (hplan : b.plans[k]? = some plan)
    (hoffset : plan.statedOffset = none) (hsize : plan.statedSize = none) :
    ∃ name start, (b.image bytes).sectionAt (k + 1) = .ok (plan.entry name start) ∧
      (plan.entry name start).data bytes.toByteArray = .ok plan.held ∧
      (stringOffsets 1 b.sectionNames)[k]? = some name ∧
      (plan.entry name start).offset = start ∧ HoldsAt bytes start plan.contents := by
  obtain ⟨name, start, hentry, hname, hholds⟩ := plan_placed h hplan
  have hstart : (plan.entry name start).offset = start := by
    rw [SectionPlan.entry, hoffset, Option.getD_none]
  have hlength : (plan.entry name start).size = plan.contents.length := by
    rw [SectionPlan.entry, hsize, Option.getD_none]
  refine ⟨name, start, hb.sectionAt_assemble h hentry, ?_, hname, hstart, hholds⟩
  rw [SectionEntry.data, SectionPlan.held, hstart, hlength, hholds.slice_eq]
  split <;> rename_i htype
  · rw [if_pos (by exact htype)]
  · rw [if_neg (by exact htype)]

theorem nameTable_assemble :
    (b.image bytes).nameTable = .ok (some ⟨(joinStrings b.sectionNames).toByteArray⟩) := by
  obtain ⟨name, start, hentry, hdata, -⟩ := hb.section_cases h (namesPlan_at b) rfl rfl
  have hnames : (b.image bytes).header.nameSection = b.sections.length + 1 := hb.header_nameSection
  have htable := Image.stringTable_of_data hentry hdata
  rw [Image.nameTable, hnames, if_neg (Nat.succ_ne_zero _), htable]
  rfl

theorem sectionName_assemble {i : Nat} {s : SectionEntry} {name : String}
    (hs : (b.image bytes).sectionAt i = .ok s)
    (hname : StringTable.lookup ⟨(joinStrings b.sectionNames).toByteArray⟩ s.name = .ok name) :
    (b.image bytes).sectionName i = .ok name := by
  rw [Image.sectionName, hs]
  change ((b.image bytes).nameTable >>= _) = _
  rw [hb.nameTable_assemble h]
  exact hname

theorem section_readAt {k : Nat} {plan : SectionPlan} (hplan : b.plans[k]? = some plan)
    (hoffset : plan.statedOffset = none) (hsize : plan.statedSize = none)
    (hname : '\x00' ∉ plan.name.toList) : plan.ReadAt (b.image bytes) (k + 1) := by
  obtain ⟨name, start, hentry, hdata, hnameAt, -, -⟩ := hb.section_cases h hplan hoffset hsize
  constructor
  case entry =>
    refine ⟨plan.entry name start, Image.says_of_fresh ?_, rfl, rfl, rfl, ?_, rfl, rfl, rfl, rfl⟩
    · rw [Query.fresh, hentry]
      rfl
    · rw [SectionPlan.entry, hsize, Option.getD_none]
  case name =>
    apply Image.says_of_fresh
    have hnames : b.sectionNames[k]? = some plan.name := by
      rw [sectionNames_eq, List.getElem?_map, hplan, Option.map_some]
    obtain ⟨name', hname', hlookup⟩ := lookup_joinStrings hnames hname
    obtain rfl : name = name' := Option.some.inj (hnameAt.symm.trans hname')
    rw [Query.fresh, hb.sectionName_assemble h hentry hlookup]
    rfl
  case data =>
    apply Image.says_of_fresh
    rw [Query.fresh, hentry]
    change ((plan.entry name start).data bytes.toByteArray >>= _) = _
    rw [hdata]
    rfl

theorem strings_readBack {k : Nat} {name : String} {texts : List String}
    (hplan : b.plans[k]? = some (stringsPlan name texts)) (hname : '\x00' ∉ name.toList)
    (htexts : ∀ s ∈ texts, '\x00' ∉ s.toList) :
    Part.ReadBack (b.image bytes) (.strings name texts)
      (.strings (k + 1) (stringOffsets 1 texts)) := by
  obtain ⟨offset, start, hentry, hdata, -⟩ := hb.section_cases h hplan rfl rfl
  refine ⟨hb.section_readAt h hplan rfl rfl hname, stringOffsets_length 1 texts, ?_⟩
  rintro ⟨text, at'⟩ hmem
  apply Image.says_of_fresh
  obtain ⟨j, hj⟩ := List.mem_iff_getElem?.1 hmem
  rw [List.getElem?_zip_eq_some] at hj
  obtain ⟨htext, hat⟩ := hj
  obtain ⟨at'', hat'', hlookup⟩ :=
    lookup_joinStrings htext (htexts text (List.mem_of_getElem? htext))
  obtain rfl : at' = at'' := Option.some.inj (hat.symm.trans hat'')
  have htable := Image.stringTable_of_data hentry hdata
  rw [Query.fresh, htable]
  change (StringTable.lookup ⟨(joinStrings texts).toByteArray⟩ at' >>= _) = _
  rw [hlookup]
  rfl

/-- The section of an added symbol table counts the symbols that were added. -/
theorem symbols_cases {k : Nat} {name : String} {type link : Nat} {entries : List SymbolEntry}
    (hplan : b.plans[k]? = some (symbolsPlan b.format name type link entries))
    (hentries : encodeAll? b.format entries = some (entries.flatMap (Record.encode b.format)))
    (htype : type ≠ SectionEntry.nobits) :
    ∃ s, (b.image bytes).sectionAt (k + 1) = .ok s ∧ s.entryCount = entries.length ∧
      s.symbolCount bytes.toByteArray = .ok entries.length ∧
      s.entrySize = Record.size SymbolEntry b.format.fileClass ∧
      HoldsAt bytes s.offset (entries.flatMap (Record.encode b.format)) := by
  obtain ⟨offset, start, hentry, hdata, -, hstart, hholds⟩ := hb.section_cases h hplan rfl rfl
  have hsize : Record.size SymbolEntry b.format.fileClass ≠ 0 := by
    cases b.format.fileClass <;> decide
  have hdivision : (entries.flatMap (Record.encode b.format)).length /
      Record.size SymbolEntry b.format.fileClass = entries.length := by
    rw [encodeAll_length hentries, Nat.mul_div_cancel _ (Nat.pos_of_ne_zero hsize)]
  have hcount : ((symbolsPlan b.format name type link entries).entry offset start).entryCount =
      entries.length := (if_neg (not_or.2 ⟨hsize, htype⟩)).trans hdivision
  have hheld : (symbolsPlan b.format name type link entries).held =
      (entries.flatMap (Record.encode b.format)).toByteArray := if_neg htype
  refine ⟨_, hentry, hcount, ?_, rfl, by rw [hstart]; exact hholds⟩
  rw [SectionEntry.symbolCount, hcount]
  split
  · rename_i hzero
    rw [hzero]
  · rw [hdata, hheld]
    dsimp only
    rw [List.size_toByteArray]
    exact congrArg Except.ok hdivision

theorem symbols_readBack {k : Nat} {name : String} {type link : Nat} {entries : List SymbolEntry}
    (hplan : b.plans[k]? = some (symbolsPlan b.format name type link entries))
    (hentries : encodeAll? b.format entries = some (entries.flatMap (Record.encode b.format)))
    (hname : '\x00' ∉ name.toList) (htype : type ≠ SectionEntry.nobits) :
    Part.ReadBack (b.image bytes) (.symbols name type link entries) (.index (k + 1)) := by
  obtain ⟨s, hs, hcount, hsymbols, hentrySize, hholds⟩ := hb.symbols_cases h hplan hentries htype
  refine ⟨hb.section_readAt h hplan rfl rfl hname, Image.says_of_fresh ?_, fun j symbol hj => ?_⟩
  · rw [Query.fresh, hs]
    exact congrArg (fun n => Except.ok (Answer.count n)) hcount
  · apply Image.says_of_fresh
    obtain ⟨hfits, hsymbol⟩ := encodeAll_holdsAt hentries hj
    have hat := hholds.trans hsymbol
    have hoffset : Image.symbolOffset s entries.length j =
        .ok (s.offset + j * Record.size SymbolEntry b.format.fileClass) := by
      rw [Image.symbolOffset, if_pos (List.getElem?_eq_some_iff.1 hj).1, entryOffset, hentrySize,
        if_pos (size_lt_offsetLimit h hat)]
    have hdecode : Record.decodeAt (b.image bytes).bytes (b.image bytes).format
        (s.offset + j * Record.size SymbolEntry b.format.fileClass) = .ok symbol :=
      hat.decodeAt_eq hfits
    rw [Query.fresh, Image.symbolAt_of_offset hs hsymbols hoffset, hdecode]
    rfl

theorem segment_readAt {k : Nat} {plan : SegmentPlan} (hplan : b.segments[k]? = some plan)
    (hsize : plan.statedFileSize = none) : plan.ReadAt (b.image bytes) k := by
  obtain ⟨start, hentry, hholds⟩ := segment_placed h hplan
  rw [hsize, Option.getD_none] at hentry
  have hat := hb.segmentAt_assemble h hentry
  constructor
  case entry =>
    refine ⟨plan.entry start plan.contents.length, Image.says_of_fresh ?_, rfl, rfl, rfl, rfl, rfl,
      rfl, rfl⟩
    rw [Query.fresh, hat]
    rfl
  case data =>
    apply Image.says_of_fresh
    rw [Query.fresh, hat]
    change (slice bytes.toByteArray start plan.contents.length >>= _) = _
    rw [hholds.slice_eq]
    rfl

theorem null_assemble :
    (b.image bytes).Says (.sectionEntry 0) (.sectionEntry ⟨0, 0, 0, 0, 0, 0, 0, 0, 0, 0⟩) ∧
      (b.image bytes).Says (.sectionName 0) (.text "") := by
  have hentry : (b.image bytes).sectionAt 0 = .ok ⟨0, 0, 0, 0, 0, 0, 0, 0, 0, 0⟩ :=
    hb.sectionAt_assemble h rfl
  have hname : StringTable.lookup ⟨(joinStrings b.sectionNames).toByteArray⟩ 0 = .ok "" :=
    HoldsAt.lookup_eq ⟨[], _, rfl, rfl⟩ (by decide)
  constructor <;> apply Image.says_of_fresh
  · rw [Query.fresh, hentry]
    rfl
  · rw [Query.fresh, hb.sectionName_assemble h hentry hname]
    rfl

end Unstated

/-! ## Parts -/

/-- The blueprint has the part where its addition put it. -/
def Part.PlacedIn (b : Blueprint) : Part → Added → Prop
  | .plain plan, .index i => ∃ k, i = k + 1 ∧ b.sections[k]? = some plan
  | .strings name texts, .strings i offsets =>
    offsets = stringOffsets 1 texts ∧
      ∃ k, i = k + 1 ∧ b.sections[k]? = some (stringsPlan name texts)
  | .symbols name type link entries, .index i =>
    encodeAll? b.format entries = some (entries.flatMap (Record.encode b.format)) ∧
      ∃ k, i = k + 1 ∧ b.sections[k]? = some (symbolsPlan b.format name type link entries)
  | .segment plan, .index i => b.segments[i]? = some plan
  | _, _ => False

/-- The second blueprint is the first with more sections and segments behind its own. -/
def Grows (b next : Blueprint) : Prop :=
  ∃ sections segments,
    next = { b with sections := b.sections ++ sections, segments := b.segments ++ segments }

variable {next last : Blueprint}

theorem Grows.refl (b : Blueprint) : b.Grows b := ⟨[], [], by simp only [List.append_nil]⟩

theorem Grows.trans (h : b.Grows next) (h' : next.Grows last) : b.Grows last := by
  obtain ⟨sections, segments, rfl⟩ := h
  obtain ⟨sections', segments', rfl⟩ := h'
  exact ⟨sections ++ sections', segments ++ segments', by simp only [List.append_assoc]⟩

theorem Grows.section_at (h : b.Grows next) {k : Nat} {plan : SectionPlan}
    (hplan : b.sections[k]? = some plan) : next.sections[k]? = some plan := by
  obtain ⟨sections, segments, rfl⟩ := h
  rw [List.getElem?_append_left (List.getElem?_eq_some_iff.1 hplan).1, hplan]

theorem Grows.segment_at (h : b.Grows next) {k : Nat} {plan : SegmentPlan}
    (hplan : b.segments[k]? = some plan) : next.segments[k]? = some plan := by
  obtain ⟨sections, segments, rfl⟩ := h
  rw [List.getElem?_append_left (List.getElem?_eq_some_iff.1 hplan).1, hplan]

theorem Grows.format_eq (h : b.Grows next) : next.format = b.format := by
  obtain ⟨sections, segments, rfl⟩ := h
  rfl

theorem Part.PlacedIn.grows {p : Part} {a : Added} (hp : p.PlacedIn b a) (h : b.Grows next) :
    p.PlacedIn next a := by
  cases p <;> cases a
  case plain.index =>
    obtain ⟨k, hk, hplan⟩ := hp
    exact ⟨k, hk, h.section_at hplan⟩
  case strings.strings =>
    obtain ⟨hoffsets, k, hk, hplan⟩ := hp
    exact ⟨hoffsets, k, hk, h.section_at hplan⟩
  case symbols.index =>
    obtain ⟨hentries, k, hk, hplan⟩ := hp
    rw [← h.format_eq] at hentries hplan
    exact ⟨hentries, k, hk, h.section_at hplan⟩
  case segment.index => exact h.segment_at hp
  all_goals exact hp

theorem addSection_cases (b : Blueprint) (plan : SectionPlan) :
    b.Grows (b.addSection plan).1 ∧ (b.addSection plan).2 = b.sections.length + 1 ∧
      (b.addSection plan).1.sections[b.sections.length]? = some plan ∧
      (b.addSection plan).1.sections.length = b.sections.length + 1 :=
  ⟨⟨[plan], [], by rw [List.append_nil]; rfl⟩, List.length_append, List.getElem?_concat_length,
    List.length_append⟩

theorem add_cases {p : Part} {a : Added} (h : b.add p = some (next, a)) :
    b.Grows next ∧ p.PlacedIn next a ∧
      next.sections.length = b.sections.length + [p].countP (!·.isSegment) ∧
      next.segments.length = b.segments.length + [p].countP (·.isSegment) := by
  cases p with
  | plain plan =>
    cases h
    obtain ⟨hgrows, hindex, hplan, hlength⟩ := b.addSection_cases plan
    exact ⟨hgrows, ⟨_, hindex, hplan⟩, hlength, rfl⟩
  | strings name texts =>
    cases h
    obtain ⟨hgrows, hindex, hplan, hlength⟩ := b.addSection_cases (stringsPlan name texts)
    exact ⟨hgrows, ⟨rfl, _, hindex, hplan⟩, hlength, rfl⟩
  | symbols name type link entries =>
    obtain ⟨contents, hcontents, h⟩ := Option.bind_eq_some_iff.1 h
    obtain rfl := encodeAll_eq hcontents
    cases h
    obtain ⟨hgrows, hindex, hplan, hlength⟩ :=
      b.addSection_cases (symbolsPlan b.format name type link entries)
    exact ⟨hgrows, ⟨hcontents, _, hindex, hplan⟩, hlength, rfl⟩
  | segment plan =>
    cases h
    exact ⟨⟨[], [plan], by rw [List.append_nil]⟩, List.getElem?_concat_length, rfl,
      List.length_append⟩

theorem addAll_cases {parts : List Part} {added : List Added}
    (h : b.addAll parts = some (last, added)) :
    b.Grows last ∧ added.length = parts.length ∧ (∀ x ∈ parts.zip added, x.1.PlacedIn last x.2) ∧
      last.sections.length = b.sections.length + parts.countP (!·.isSegment) ∧
      last.segments.length = b.segments.length + parts.countP (·.isSegment) := by
  induction parts generalizing b added with
  | nil =>
    cases h
    refine ⟨.refl _, rfl, ?_, rfl, rfl⟩
    intro x hx
    cases hx
  | cons p parts ih =>
    obtain ⟨⟨next, a⟩, hadd, h⟩ := Option.bind_eq_some_iff.1 h
    obtain ⟨⟨last', more⟩, hrest, h⟩ := Option.bind_eq_some_iff.1 h
    cases h
    obtain ⟨hgrows, hplaced, hsections, hsegments⟩ := add_cases hadd
    obtain ⟨hgrows', hlength, hplaced', hsections', hsegments'⟩ := ih hrest
    refine ⟨hgrows.trans hgrows', congrArg (· + 1) hlength, ?_, ?_, ?_⟩
    · intro x hx
      rw [List.zip_cons_cons, List.mem_cons] at hx
      obtain rfl | hx := hx
      · exact hplaced.grows hgrows'
      · exact hplaced' x hx
    · rw [hsections', hsections, List.countP_cons, List.countP_cons, List.countP_nil]
      omega
    · rw [hsegments', hsegments, List.countP_cons, List.countP_cons, List.countP_nil]
      omega

theorem Sized.addSection (h : b.Sized) {plan : SectionPlan} (hplan : plan.Sized) :
    (b.addSection plan).1.Sized := by
  refine { h with sections := fun plan' hplan' => ?_ }
  rcases List.mem_append.1 hplan' with hold | hnew
  · exact h.sections plan' hold
  · rwa [List.mem_singleton.1 hnew]

theorem symbolsPlan_sized {format : Format} {name : String} {type link : Nat}
    {entries : List SymbolEntry} (htype : type < 0x1_0000_0000) (hlink : link < 0x1_0000_0000) :
    (symbolsPlan format name type link entries).Sized := by
  have hinfo : 1 < 0x1_0000_0000 := by decide
  have halign : 8 < 0x1_0000_0000_0000_0000 := by decide
  have hzero := Nat.zero_lt_of_lt halign
  have hentry : Record.size SymbolEntry format.fileClass < 0x1_0000_0000_0000_0000 := by
    cases format.fileClass <;> decide
  exact ⟨htype, hzero, hzero, hlink, hinfo, halign, hentry, nofun, nofun⟩

theorem Sized.add (h : b.Sized) {p : Part} {a : Added} (hp : p.Sized)
    (hadd : b.add p = some (next, a)) : next.Sized := by
  cases p with
  | plain plan =>
    cases hadd
    exact h.addSection hp
  | strings name texts =>
    cases hadd
    exact h.addSection (.strings name _)
  | symbols name type link entries =>
    obtain ⟨contents, hcontents, hadd⟩ := Option.bind_eq_some_iff.1 hadd
    obtain rfl := encodeAll_eq hcontents
    cases hadd
    exact h.addSection (symbolsPlan_sized hp.1 hp.2)
  | segment plan =>
    cases hadd
    refine { h with segments := fun plan' hplan' => ?_ }
    rcases List.mem_append.1 hplan' with hold | hnew
    · exact h.segments plan' hold
    · rwa [List.mem_singleton.1 hnew]

theorem Sized.addAll (h : b.Sized) {parts : List Part} {added : List Added}
    (hparts : ∀ p ∈ parts, p.Sized) (hadd : b.addAll parts = some (last, added)) : last.Sized := by
  induction parts generalizing b added with
  | nil =>
    cases hadd
    exact h
  | cons p parts ih =>
    obtain ⟨⟨next, a⟩, hnext, hadd⟩ := Option.bind_eq_some_iff.1 hadd
    obtain ⟨⟨last', more⟩, hrest, hadd⟩ := Option.bind_eq_some_iff.1 hadd
    cases hadd
    have hnextSized := h.add (hparts p List.mem_cons_self) hnext
    exact ih hnextSized (fun p hp => hparts p (List.mem_cons_of_mem _ hp)) hrest

/-- What a plain part was placed as is read back from there. -/
theorem Part.PlacedIn.readBack {p : Part} {a : Added} (hp : p.PlacedIn b a) (hplain : p.Plain)
    (hb : b.Unstated) (h : b.assemble = some bytes) : p.ReadBack (b.image bytes) a := by
  have hplans : ∀ {k : Nat} {plan : SectionPlan}, b.sections[k]? = some plan →
      b.plans[k]? = some plan := by
    intro k plan hplan
    rw [plans, List.getElem?_append_left (List.getElem?_eq_some_iff.1 hplan).1, hplan]
  cases p <;> cases a
  case plain.index plan i =>
    obtain ⟨k, rfl, hplan⟩ := hp
    obtain ⟨hoffset, hsize, hname⟩ := hplain
    exact hb.section_readAt h (hplans hplan) hoffset hsize hname
  case strings.strings name texts i offsets =>
    obtain ⟨rfl, k, rfl, hplan⟩ := hp
    obtain ⟨hname, htexts⟩ := hplain
    exact hb.strings_readBack h (hplans hplan) hname htexts
  case symbols.index name type link entries i =>
    obtain ⟨hentries, k, rfl, hplan⟩ := hp
    obtain ⟨hname, htype⟩ := hplain
    exact hb.symbols_readBack h (hplans hplan) hentries hname htype
  case segment.index plan i => exact hb.segment_readAt h hp hplain
  all_goals exact hp

/-- Whatever is added to an empty blueprint is read back from the image that is built: the header,
the null section, the section names, and every part at what its addition returned. -/
theorem build_readBack {format : Format} {objectType machine entry flags : Nat} {b : Blueprint}
    {parts : List Part} {added : List Added} {bytes : List UInt8}
    (hstart : Sized { format, objectType, machine, entry, flags })
    (hparts : ∀ p ∈ parts, p.Plain ∧ p.Sized)
    (hadd : addAll { format, objectType, machine, entry, flags } parts = some (b, added))
    (hnames : b.NamesInReach) (hbuild : b.build = some bytes) (hsize : bytes.length < sizeLimit) :
    ∃ img, Image.ofBytes bytes.toByteArray = .ok img ∧
      ReadBack { format, objectType, machine, entry, flags } parts added img := by
  obtain ⟨⟨sections, segments, hlast⟩, hlength, hplaced, hsections, hsegments⟩ := addAll_cases hadd
  have hb : b.Unstated := by
    rw [hlast]
    exact ⟨rfl, rfl, rfl, rfl, rfl⟩
  have hsized : b.Sized := hstart.addAll (fun p hp => (hparts p hp).2) hadd
  have hassemble := assemble_eq_of_build hsized hnames hb hbuild hsize
  have hcount : b.header.sectionCount = b.sections.length + 2 := hb.header_sectionCount
  obtain ⟨hnull, hnullName⟩ := hb.null_assemble hassemble
  have hzero : '\x00' ∉ namesName.toList := by decide
  have hlastName := (hb.section_readAt hassemble (namesPlan_at b) rfl rfl hzero).name
  refine ⟨b.image bytes, hb.ofBytes_assemble hassemble, ?_⟩
  constructor
  case format => rw [hlast]; rfl
  case objectType => rw [hlast]; rfl
  case machine => rw [hlast]; rfl
  case entry => rw [hlast]; rfl
  case flags => rw [hlast]; rfl
  case segmentCount =>
    exact hb.header_segmentCount.trans (hsegments.trans (Nat.zero_add _))
  case sectionCount =>
    rw [image, hcount, hsections]
    exact congrArg (· + 2) (Nat.zero_add _)
  case nameSection =>
    rw [image, hcount]
    exact hb.header_nameSection
  case nullEntry => exact hnull
  case nullName => exact hnullName
  case lastName =>
    rw [show (b.image bytes).header.sectionCount = b.sections.length + 2 from hcount]
    exact hlastName
  case added_length => exact hlength
  case parts =>
    intro x hx
    have hpart : x.1 ∈ parts := (List.of_mem_zip (by exact hx)).1
    exact (hplaced x hx).readBack (hparts x.1 hpart).1 hb hassemble

/-- A blueprint with the most significant byte first and nothing added yet. -/
def sample : Blueprint where
  format := ⟨.elf64, .msb⟩
  objectType := 3
  machine := 0x15
  entry := 0x1000

/-- A segment, a section without bytes in the file, a table of strings and a table of symbols. -/
def sampleParts : List Part :=
  [.segment { type := 1, contents := [0x90, 0xc3], address := 0x1000 },
    .plain { name := ".bss", type := SectionEntry.nobits, contents := [0, 0, 0, 0] },
    .strings ".strtab" ["main", "größe"],
    .symbols ".symtab" SectionEntry.symtab 2 [.null, ⟨1, 0x1000, 2, 0x12, 0, 1⟩]]

theorem sample_sized : sample.Sized :=
  ⟨by decide, by decide, by decide, by decide, nofun, nofun⟩

theorem sampleParts_plain_sized : ∀ p ∈ sampleParts, p.Plain ∧ p.Sized := by
  have hword : 1 < 0x1_0000_0000 := by decide
  have haddress : 1 < 0x1_0000_0000_0000_0000 := by decide
  have hzero := Nat.zero_lt_of_lt hword
  have hzero' := Nat.zero_lt_of_lt haddress
  have hsegment : SegmentPlan.Sized { type := 1, contents := [0x90, 0xc3], address := 0x1000 } :=
    ⟨hword, hzero, by decide, haddress, nofun, nofun⟩
  have hplain : SectionPlan.Sized { name := ".bss", type := 8, contents := [0, 0, 0, 0] } :=
    ⟨by decide, hzero', hzero', hzero, hzero, haddress, hzero', nofun, nofun⟩
  simp [sampleParts, Part.Plain, Part.Sized, hsegment, hplain, SectionEntry.symtab,
    SectionEntry.nobits]

theorem build_readBack_sample :
    ∃ b added bytes img, sample.Sized ∧ (∀ p ∈ sampleParts, p.Plain ∧ p.Sized) ∧
      sample.addAll sampleParts = some (b, added) ∧ b.NamesInReach ∧ b.build = some bytes ∧
      bytes.length < sizeLimit ∧ Image.ofBytes bytes.toByteArray = .ok img ∧
      ReadBack sample sampleParts added img := by
  have hchecked : ((sample.addAll sampleParts).bind fun x =>
      x.1.build.filter fun bytes => x.1.NamesInReach ∧ bytes.length < sizeLimit).isSome = true := by
    decide +kernel
  obtain ⟨bytes, hbytes⟩ := Option.isSome_iff_exists.1 hchecked
  obtain ⟨⟨b, added⟩, hadd, hbytes⟩ := Option.bind_eq_some_iff.1 hbytes
  obtain ⟨hbuild, hlimits⟩ := Option.filter_eq_some_iff.1 hbytes
  obtain ⟨hnames, hsize⟩ := of_decide_eq_true hlimits
  obtain ⟨img, himg, hread⟩ := build_readBack sample_sized sampleParts_plain_sized (by exact hadd)
    hnames hbuild hsize
  exact ⟨b, added, bytes, img, sample_sized, sampleParts_plain_sized, hadd, hnames, hbuild, hsize,
    himg, hread⟩

end Blueprint

end ElfInspect
