import ElfInspect.Proofs.HeaderGrammar
import ElfInspect.Proofs.Laziness

/-!
What the faults of an image that has a header say is true. `Image.Justifies` lists what there is to
say: bytes that end too early, a number that is not below its limit, and the one exception, an entry
of a header table that would start behind the largest file offset.
-/

namespace ElfInspect

/-- What a fault says is so. -/
inductive Image.Justifies (img : Image) : Fault → Prop
  | truncated {offset needed : Nat} (hstart : offset ≤ img.bytes.size)
    (hend : img.bytes.size < offset + needed) : Justifies img (.truncatedInput offset needed)
  | outOfRange {value limit : Nat} (h : limit ≤ value) : Justifies img (.outOfRange value limit)
  /-- The section is one of the table, but no file offset leads to its entry. -/
  | farSection {i : Nat} (hclass : img.format.fileClass = .elf64)
    (hi : i < img.header.sectionCount)
    (hfar : offsetLimit ≤ img.header.sectionTable + i * img.header.sectionEntrySize) :
    Justifies img (.outOfRange i img.header.sectionCount)
  | farSegment {i : Nat} (hclass : img.format.fileClass = .elf64)
    (hi : i < img.header.segmentCount)
    (hfar : offsetLimit ≤ img.header.segmentTable + i * img.header.segmentEntrySize) :
    Justifies img (.outOfRange i img.header.segmentCount)

/-- If the result is a fault, what it says is so. -/
def Honest (img : Image) {α : Type} (r : Except Fault α) : Prop :=
  ∀ fault, r = .error fault → img.Justifies fault

variable {img : Image} {α β : Type}

/-! ## Honest results, one construction at a time -/

theorem honest_ok (a : α) : Honest img (.ok a : Except Fault α) := by
  rintro _ ⟨⟩

theorem honest_bind {r : Except Fault α} {f : α → Except Fault β} (hr : Honest img r)
    (hf : ∀ a, r = .ok a → Honest img (f a)) : Honest img (r >>= f) := by
  cases r with
  | error fault =>
    rintro other ⟨⟩
    exact hr fault rfl
  | ok a => exact hf a rfl

theorem honest_firstHit {f : Nat → Except Fault (Option α)} (h : ∀ i, Honest img (f i))
    (start n : Nat) : Honest img (firstHit f start n) := by
  induction n generalizing start with
  | zero => exact honest_ok none
  | succ n ih =>
    refine honest_bind (h start) fun hit _ => ?_
    cases hit with
    | some a => exact honest_ok (some a)
    | none => exact ih (start + 1)

theorem honest_firstSome {r r' : Except Fault (Option α)} (h : Honest img r)
    (h' : Honest img r') : Honest img (firstSome r r') := by
  refine honest_bind h fun hit _ => ?_
  cases hit with
  | some a => exact honest_ok (some a)
  | none => exact h'

theorem honest_searchIn {r : Except Fault (Option α)} {f : α → Except Fault (Option β)}
    (h : Honest img r) (hf : ∀ a, Honest img (f a)) : Honest img (searchIn r f) := by
  refine honest_bind h fun place _ => ?_
  cases place with
  | some a => exact hf a
  | none => exact honest_ok none

/-- The fault that ends a walk is the one of a question on its way. -/
theorem listing_fault {f : Nat → Except Fault α} {start n : Nat} {fault : Fault}
    (h : (Id.run (listing f start n)).fault = some fault) : ∃ i, f i = .error fault := by
  suffices hfrom : ∀ (found : List α) start,
      (Id.run (listingFrom f found start n)).fault = some fault → ∃ i, f i = .error fault from
    hfrom [] start h
  clear h
  induction n with
  | zero =>
    intro found start h
    cases h
  | succ n ih =>
    intro found start h
    dsimp only [listingFrom] at h
    cases hf : f start with
    | error other =>
      rw [hf] at h
      obtain rfl : other = fault := Option.some.inj h
      exact ⟨start, hf⟩
    | ok a =>
      rw [hf] at h
      exact ih (a :: found) (start + 1) h

/-! ## Bytes and records -/

theorem slice_honest (offset length : Nat) : Honest img (slice img.bytes offset length) := by
  intro fault h
  unfold slice at h
  split at h
  case isTrue hfar =>
    cases h
    exact .outOfRange (Nat.le_of_lt hfar)
  case isFalse hstart =>
    split at h
    case isTrue hend =>
      cases h
      exact .truncated (Nat.le_of_not_lt hstart) hend
    case isFalse => cases h

/-- The fault of fields is that of a field that the bytes end within. -/
theorem Fields.read_honest (ws : Layout) {c : Cursor} (hbytes : c.bytes = img.bytes)
    (hpos : c.pos ≤ img.bytes.size) : Honest img (read ws c) := by
  induction ws generalizing c with
  | nil => exact honest_ok _
  | cons w ws ih =>
    by_cases hw : c.pos + w.size c.format.fileClass ≤ c.bytes.size
    · have hrest := ih (c := { c with pos := c.pos + w.size c.format.fileClass }) hbytes
        (hbytes ▸ hw)
      simp only [read, Cursor.number, Cursor.take_of_le hw]
      generalize read ws _ = r at hrest ⊢
      cases r with
      | error fault =>
        rintro other ⟨⟩
        exact hrest fault rfl
      | ok rest => exact honest_ok _
    · have hcut : c.bytes.size < c.pos + w.size c.format.fileClass := Nat.lt_of_not_le hw
      simp only [read, Cursor.number, Cursor.take_of_lt hcut]
      rintro other ⟨⟩
      exact .truncated hpos (hbytes ▸ hcut)

theorem Record.decodeAt_honest [Record α] (offset : Nat) :
    Honest img (decodeAt (α := α) img.bytes img.format offset) := by
  by_cases hle : offset ≤ img.bytes.size
  · have hread : Honest img
        (Fields.read (layout α img.format.fileClass) ⟨img.bytes, img.format, offset⟩) :=
      Fields.read_honest _ rfl hle
    rw [decodeAt_of_le hle]
    generalize Fields.read (layout α img.format.fileClass) _ = r at hread ⊢
    cases r with
    | error fault =>
      rintro other ⟨⟩
      exact hread fault rfl
    | ok f => exact honest_ok _
  · rw [decodeAt_of_lt (Nat.lt_of_not_le hle)]
    rintro other ⟨⟩
    exact .outOfRange (by omega)

theorem StringTable.lookup_honest (t : StringTable) (offset : Nat) :
    Honest img (t.lookup offset) := by
  intro fault h
  unfold lookup at h
  split at h
  case isTrue => cases h
  case isFalse hout =>
    cases h
    exact .outOfRange (Nat.le_of_not_lt hout)

theorem SectionEntry.data_honest (s : SectionEntry) : Honest img (s.data img.bytes) := by
  unfold data
  split
  · exact honest_ok _
  · exact slice_honest _ _

theorem SectionEntry.symbolCount_honest (s : SectionEntry) :
    Honest img (s.symbolCount img.bytes) := by
  intro fault h
  unfold symbolCount at h
  split at h
  case isTrue => cases h
  case isFalse =>
    cases hdata : s.data img.bytes with
    | error other =>
      rw [hdata] at h
      cases h
      exact s.data_honest _ hdata
    | ok part =>
      rw [hdata] at h
      cases h

theorem SegmentEntry.interpreter_honest (p : SegmentEntry) :
    Honest img (p.interpreter img.bytes) := by
  intro fault h
  unfold interpreter at h
  split at h
  case isFalse => cases h
  case isTrue =>
    cases hdata : p.data img.bytes with
    | error other =>
      rw [hdata] at h
      cases h
      exact slice_honest _ _ _ hdata
    | ok part =>
      rw [hdata] at h
      cases h

/-! ## Places of entries -/

/-- What is read as a header is one. -/
theorem Header.accepts_of_parse {bytes : ByteArray} {h : Header} (hparse : parse bytes = .ok h) :
    Accepts bytes h := by
  rcases rejects_or_accepts bytes with ⟨fault, hfault⟩ | ⟨other, hother⟩
  · rw [hfault.parse_eq] at hparse
    cases hparse
  · rw [hother.parse_eq, Except.ok.injEq] at hparse
    exact hparse ▸ hother

theorem Image.fits_of_ofBytes {bytes : ByteArray} (h : ofBytes bytes = .ok img) :
    img.bytes = bytes ∧ img.header.Fits := by
  unfold ofBytes at h
  cases hparse : Header.parse bytes with
  | error fault =>
    rw [hparse] at h
    cases h
  | ok header =>
    rw [hparse] at h
    cases h
    exact ⟨rfl, (Header.accepts_of_parse hparse).fits⟩

/-- Why entry `index` of a table has no place. -/
theorem place_fault {base entrySize count index : Nat} {fault : Fault}
    (h : (if index < count then entryOffset base entrySize count index
      else .error (.outOfRange index count)) = .error fault) :
    fault = .outOfRange index count ∧
      (count ≤ index ∨ index < count ∧ offsetLimit ≤ base + index * entrySize) := by
  split at h
  case isFalse hout =>
    cases h
    exact ⟨rfl, .inl (Nat.le_of_not_lt hout)⟩
  case isTrue hin =>
    unfold entryOffset at h
    split at h
    case isTrue => cases h
    case isFalse hfar =>
      cases h
      exact ⟨rfl, .inr ⟨hin, Nat.le_of_not_lt hfar⟩⟩

/-- Only offsets of eight bytes can leave no room for an entry of a header table. -/
theorem eightBytes_of_far {k : FileClass} {base entrySize count index : Nat}
    (hbase : base < 256 ^ k.wordSize) (hsize : entrySize < 256 ^ 2) (hcount : count < 256 ^ 2)
    (hindex : index < count) (hfar : offsetLimit ≤ base + index * entrySize) : k = .elf64 := by
  cases k with
  | elf64 => rfl
  | elf32 =>
    have hroom : index * entrySize ≤ 256 ^ 2 * 256 ^ 2 := Nat.mul_le_mul (by omega) (by omega)
    simp only [FileClass.wordSize, offsetLimit] at hbase hfar
    omega

/-- The numbers about the two tables in a header that fits. -/
theorem Header.Fits.tables {h : Header} (hfits : h.Fits) :
    (h.segmentTable < 256 ^ h.format.fileClass.wordSize ∧ h.segmentEntrySize < 256 ^ 2 ∧
        h.segmentCount < 256 ^ 2) ∧
      h.sectionTable < 256 ^ h.format.fileClass.wordSize ∧ h.sectionEntrySize < 256 ^ 2 ∧
        h.sectionCount < 256 ^ 2 := by
  obtain ⟨-, -, -, -, hph, hsh, -, -, hphsize, hphnum, hshsize, hshnum, -⟩ := hfits
  exact ⟨⟨hph, hphsize, hphnum⟩, hsh, hshsize, hshnum⟩

namespace Image

theorem sectionOffset_honest (hfits : img.header.Fits) (i : Nat) :
    Honest img (img.sectionOffset i) := by
  intro fault h
  obtain ⟨rfl, hout | ⟨hi, hfar⟩⟩ := place_fault h
  · exact .outOfRange hout
  · obtain ⟨-, hbase, hsize, hcount⟩ := hfits.tables
    exact .farSection (eightBytes_of_far hbase hsize hcount hi hfar) hi hfar

theorem segmentOffset_honest (hfits : img.header.Fits) (i : Nat) :
    Honest img (img.segmentOffset i) := by
  intro fault h
  obtain ⟨rfl, hout | ⟨hi, hfar⟩⟩ := place_fault h
  · exact .outOfRange hout
  · obtain ⟨⟨hbase, hsize, hcount⟩, -⟩ := hfits.tables
    exact .farSegment (eightBytes_of_far hbase hsize hcount hi hfar) hi hfar

/-- A symbol that its section counts has a place, so only the index can be wrong. -/
theorem symbolOffset_fault (hsize : img.bytes.size < offsetLimit) {s : SectionEntry} {count j : Nat}
    {fault : Fault} (hcount : s.symbolCount img.bytes = .ok count)
    (h : symbolOffset s count j = .error fault) : count ≤ j ∧ fault = .outOfRange j count := by
  obtain ⟨rfl, hout | ⟨hj, hfar⟩⟩ := place_fault h
  · exact ⟨hout, rfl⟩
  · have hroom := SectionEntry.symbolCount_room hcount hj
    omega

/-! ## Honest questions -/

section Questions

variable (hfits : img.header.Fits) (hsize : img.bytes.size < offsetLimit)
include hfits

theorem sectionAt_honest (i : Nat) : Honest img (img.sectionAt i) :=
  honest_bind (sectionOffset_honest hfits i) fun offset _ => Record.decodeAt_honest offset

theorem segmentAt_honest (i : Nat) : Honest img (img.segmentAt i) :=
  honest_bind (segmentOffset_honest hfits i) fun offset _ => Record.decodeAt_honest offset

theorem stringTable_honest (i : Nat) : Honest img (img.stringTable i) := by
  refine honest_bind (sectionAt_honest hfits i) fun s _ => ?_
  exact honest_bind s.data_honest fun _ _ => honest_ok _

theorem nameTable_honest : Honest img img.nameTable := by
  unfold nameTable
  split
  · exact honest_ok none
  · exact honest_bind (stringTable_honest hfits _) fun _ _ => honest_ok _

theorem sectionName_honest (i : Nat) : Honest img (img.sectionName i) := by
  refine honest_bind (sectionAt_honest hfits i) fun s _ => ?_
  refine honest_bind (nameTable_honest hfits) fun table _ => ?_
  cases table with
  | some table => exact table.lookup_honest s.name
  | none => exact honest_ok ""

theorem sectionNamed_honest (name : String) : Honest img (img.sectionNamed name) := by
  refine honest_firstHit (fun i => ?_) _ _
  refine honest_bind (sectionAt_honest hfits i) fun s _ => ?_
  exact honest_bind (sectionName_honest hfits i) fun _ _ => honest_ok _

theorem stringsNamed_honest (name : String) : Honest img (img.stringsNamed name) := by
  refine honest_bind (sectionNamed_honest hfits name) fun hit _ => ?_
  cases hit with
  | some hit => exact honest_bind (stringTable_honest hfits _) fun _ _ => honest_ok _
  | none => exact honest_ok none

theorem wellKnown_honest (w : WellKnown) : Honest img (img.wellKnown w) := by
  have hindex : Honest img (img.indexOfType w.type) :=
    honest_firstHit (fun i => honest_bind (sectionAt_honest hfits i) fun _ _ => honest_ok _) _ _
  refine honest_bind hindex fun found _ => ?_
  cases found with
  | some i => exact honest_bind (sectionAt_honest hfits i) fun _ _ => honest_ok _
  | none => exact honest_ok none

theorem interpreterPath_honest : Honest img img.interpreterPath := by
  refine honest_firstHit (fun i => ?_) _ _
  exact honest_bind (segmentAt_honest hfits i) fun p _ => p.interpreter_honest

theorem searchSymbols_honest {search : SectionHit → Except Fault (Option SymbolHit)}
    (h : ∀ table, Honest img (search table)) : Honest img (img.searchSymbols search) :=
  honest_firstSome (honest_searchIn (wellKnown_honest hfits _) h)
    (honest_searchIn (wellKnown_honest hfits _) h)

include hsize

theorem symbolAt_honest (i j : Nat) : Honest img (img.symbolAt i j) := by
  refine honest_bind (sectionAt_honest hfits i) fun s _ => ?_
  refine honest_bind s.symbolCount_honest fun count hcount => ?_
  refine honest_bind (fun fault h => ?_) fun offset _ => Record.decodeAt_honest offset
  obtain ⟨hout, rfl⟩ := symbolOffset_fault hsize hcount h
  exact .outOfRange hout

theorem symbolName_honest (i j : Nat) : Honest img (img.symbolName i j) := by
  refine honest_bind (sectionAt_honest hfits i) fun s _ => ?_
  refine honest_bind (symbolAt_honest hfits hsize i j) fun symbol _ => ?_
  exact honest_bind (stringTable_honest hfits _) fun table _ => table.lookup_honest _

theorem symbolNamed_honest (name : String) : Honest img (img.symbolNamed name) := by
  refine searchSymbols_honest hfits fun table => honest_firstHit (fun k => ?_) _ _
  refine honest_bind (symbolAt_honest hfits hsize _ _) fun symbol _ => ?_
  exact honest_bind (symbolName_honest hfits hsize _ _) fun _ _ => honest_ok _

theorem symbolContaining_honest (address : Nat) : Honest img (img.symbolContaining address) := by
  refine searchSymbols_honest hfits fun table => honest_firstHit (fun j => ?_) _ _
  exact honest_bind (symbolAt_honest hfits hsize _ j) fun _ _ => honest_ok _

end Questions

end Image

/-! ## Honest answers -/

/-- The fault that cut a walk short. -/
def Answer.cut? : Answer → Option Fault
  | .sections l => l.fault
  | .segments l => l.fault
  | .symbols l => l.fault
  | .texts l => l.fault
  | _ => none

/-- A question ends in a fault: there is no answer, or the answer is a walk that is cut short. -/
def EndsIn (r : Except Fault Answer) (fault : Fault) : Prop :=
  r = .error fault ∨ ∃ a, r = .ok a ∧ a.cut? = some fault

/-- Whatever fault the question ends in is honest. -/
def HonestEnd (img : Image) (r : Except Fault Answer) : Prop :=
  ∀ fault, EndsIn r fault → img.Justifies fault

theorem honestEnd_pure {a : Answer} (h : ∀ fault, a.cut? = some fault → img.Justifies fault) :
    HonestEnd img (pure a) := by
  rintro fault (hfault | ⟨a', ha, hcut⟩)
  · cases hfault
  · cases ha
    exact h fault hcut

/-- An answer that is no walk is not cut short. -/
theorem honestEnd_whole {a : Answer} (h : a.cut? = none) : HonestEnd img (pure a) := by
  refine honestEnd_pure fun fault hcut => ?_
  rw [h] at hcut
  cases hcut

theorem honestEnd_optional {present : α → Answer} (h : ∀ a, (present a).cut? = none)
    (found : Option α) : HonestEnd img (pure (.optional present found)) := by
  cases found with
  | some a => exact honestEnd_whole (h a)
  | none => exact honestEnd_whole rfl

theorem honestEnd_bind {r : Except Fault α} {f : α → Except Fault Answer} (hr : Honest img r)
    (hf : ∀ a, HonestEnd img (f a)) : HonestEnd img (r >>= f) := by
  cases r with
  | ok a => exact hf a
  | error fault =>
    rintro other (hother | ⟨a, ha, -⟩)
    · cases hother
      exact hr fault rfl
    · cases ha

theorem honestEnd_walk {f : Nat → Except Fault α} (h : ∀ i, Honest img (f i)) (start n : Nat)
    {present : Listing α → Answer} (hcut : ∀ l, (present l).cut? = l.fault) :
    HonestEnd img (pure (present (Id.run (listing f start n)))) := by
  refine honestEnd_pure fun fault hfault => ?_
  rw [hcut] at hfault
  obtain ⟨i, hi⟩ := listing_fault hfault
  exact h i fault hi

theorem Query.fresh_honest (hfits : img.header.Fits) (hsize : img.bytes.size < offsetLimit)
    (q : Query) : HonestEnd img (q.fresh img) := by
  cases q with
  | sectionEntry i | entryCount i =>
    exact honestEnd_bind (Image.sectionAt_honest hfits i) fun _ => honestEnd_whole rfl
  | sectionName i =>
    exact honestEnd_bind (Image.sectionName_honest hfits i) fun _ => honestEnd_whole rfl
  | sectionData i =>
    refine honestEnd_bind (Image.sectionAt_honest hfits i) fun s => ?_
    exact honestEnd_bind s.data_honest fun _ => honestEnd_whole rfl
  | sectionStrings i =>
    exact honestEnd_bind (Image.stringTable_honest hfits i) fun _ => honestEnd_whole rfl
  | sectionString i offset =>
    refine honestEnd_bind (Image.stringTable_honest hfits i) fun table => ?_
    exact honestEnd_bind (table.lookup_honest offset) fun _ => honestEnd_whole rfl
  | symbol i j | symbolContains i j addresses =>
    exact honestEnd_bind (Image.symbolAt_honest hfits hsize i j) fun _ => honestEnd_whole rfl
  | symbolName i j =>
    exact honestEnd_bind (Image.symbolName_honest hfits hsize i j) fun _ => honestEnd_whole rfl
  | symbols i =>
    refine honestEnd_bind (Image.sectionAt_honest hfits i) fun s => ?_
    exact honestEnd_walk (Image.symbolAt_honest hfits hsize i) _ _ fun _ => rfl
  | symbolNames i =>
    refine honestEnd_bind (Image.sectionAt_honest hfits i) fun s => ?_
    exact honestEnd_walk (Image.symbolName_honest hfits hsize i) _ _ fun _ => rfl
  | sections => exact honestEnd_walk (Image.sectionAt_honest hfits) _ _ fun _ => rfl
  | sectionNames => exact honestEnd_walk (Image.sectionName_honest hfits) _ _ fun _ => rfl
  | segment i =>
    exact honestEnd_bind (Image.segmentAt_honest hfits i) fun _ => honestEnd_whole rfl
  | segmentData i =>
    refine honestEnd_bind (Image.segmentAt_honest hfits i) fun p => ?_
    exact honestEnd_bind (slice_honest _ _) fun _ => honestEnd_whole rfl
  | segmentInterpreter i =>
    refine honestEnd_bind (Image.segmentAt_honest hfits i) fun p => ?_
    exact honestEnd_bind p.interpreter_honest fun _ => honestEnd_optional (fun _ => rfl) _
  | segments => exact honestEnd_walk (Image.segmentAt_honest hfits) _ _ fun _ => rfl
  | nameTable =>
    exact honestEnd_bind (Image.nameTable_honest hfits) fun _ =>
      honestEnd_optional (fun _ => rfl) _
  | stringsNamed name =>
    exact honestEnd_bind (Image.stringsNamed_honest hfits name) fun _ =>
      honestEnd_optional (fun _ => rfl) _
  | sectionNamed name =>
    exact honestEnd_bind (Image.sectionNamed_honest hfits name) fun _ =>
      honestEnd_optional (fun _ => rfl) _
  | wellKnown w =>
    exact honestEnd_bind (Image.wellKnown_honest hfits w) fun _ =>
      honestEnd_optional (fun _ => rfl) _
  | interpreterPath =>
    exact honestEnd_bind (Image.interpreterPath_honest hfits) fun _ =>
      honestEnd_optional (fun _ => rfl) _
  | symbolNamed name =>
    exact honestEnd_bind (Image.symbolNamed_honest hfits hsize name) fun _ =>
      honestEnd_optional (fun _ => rfl) _
  | symbolContaining address =>
    exact honestEnd_bind (Image.symbolContaining_honest hfits hsize address) fun _ =>
      honestEnd_optional (fun _ => rfl) _

/-- An entry of a header table without a place is refused by its index. -/
theorem far_refused {base entrySize count index : Nat} (hindex : index < count)
    (hfar : offsetLimit ≤ base + index * entrySize) :
    (if index < count then entryOffset base entrySize count index
      else .error (.outOfRange index count)) = .error (.outOfRange index count) := by
  rw [if_pos hindex, entryOffset, if_neg (Nat.not_lt.2 hfar)]

/-- Whatever question about a file that has a header ends in a fault, and whatever has been asked
before, the fault says what is so. An index below its limit is out of range exactly where an entry
of a header table has no place, and a symbol that its table counts always has one. -/
theorem answers_fail_honestly {bytes : ByteArray} {img : Image}
    (himg : Image.ofBytes bytes = .ok img) (hsize : bytes.size < offsetLimit)
    (asked : List Query) :
    (∀ q fault, EndsIn (Query.answerAfter img asked q) fault → img.Justifies fault) ∧
      (∀ i, i < img.header.sectionCount →
        offsetLimit ≤ img.header.sectionTable + i * img.header.sectionEntrySize →
          Query.answerAfter img asked (.sectionEntry i) =
            .error (.outOfRange i img.header.sectionCount)) ∧
      (∀ i, i < img.header.segmentCount →
        offsetLimit ≤ img.header.segmentTable + i * img.header.segmentEntrySize →
          Query.answerAfter img asked (.segment i) =
            .error (.outOfRange i img.header.segmentCount)) ∧
      ∀ i j s count fault,
        (Session.after img asked).slots.get? (.sectionEntry i) = some s →
          (Session.after img asked).slots.get? (.symbolCount i) = some count →
            Image.symbolOffset s count j = .error fault →
              count ≤ j ∧ fault = .outOfRange j count := by
  obtain ⟨rfl, hfits⟩ := Image.fits_of_ofBytes himg
  refine ⟨fun q fault h => ?_, fun i hi hfar => ?_, fun i hi hfar => ?_,
    fun i j s count fault hs hcount h => ?_⟩
  · rw [Query.answerAfter_eq_fresh] at h
    exact q.fresh_honest hfits hsize fault h
  · have hplace : img.sectionOffset i = .error (.outOfRange i img.header.sectionCount) :=
      far_refused hi hfar
    rw [Query.answerAfter_eq_fresh, Query.fresh, Image.sectionAt, hplace]
    rfl
  · have hplace : img.segmentOffset i = .error (.outOfRange i img.header.segmentCount) :=
      far_refused hi hfar
    rw [Query.answerAfter_eq_fresh, Query.fresh, Image.segmentAt, hplace]
    rfl
  · have hsound := Session.after_sound img asked
    have hvalue := hsound (.symbolCount i) count hcount
    rw [Slot.symbolCount_value (hsound (.sectionEntry i) s hs)] at hvalue
    exact Image.symbolOffset_fault hsize hvalue h

/-- A header whose second section would start behind the largest file offset. -/
def farTable : Header where
  format := ⟨.elf64, .msb⟩
  osAbi := 0
  abiVersion := 0
  objectType := 2
  machine := 62
  version := 1
  entry := 0
  segmentTable := 0
  sectionTable := 2 ^ 64 - 64
  flags := 0
  headerSize := 64
  segmentEntrySize := 56
  segmentCount := 0
  sectionEntrySize := 64
  sectionCount := 2
  nameSection := 1

/-- The search for a section name ends in the exception. -/
theorem answers_fail_honestly_far :
    let img : Image := ⟨farTable.encode.toByteArray, farTable⟩
    Image.ofBytes farTable.encode.toByteArray = .ok img ∧
      EndsIn (Query.answerAfter img [.nameTable] (.sectionNamed ".text")) (.outOfRange 1 2) ∧
        img.Justifies (.outOfRange 1 2) := by
  intro img
  have himg : Image.ofBytes farTable.encode.toByteArray = .ok img := by cbv
  have hend : EndsIn (Query.answerAfter img [.nameTable] (.sectionNamed ".text"))
      (.outOfRange 1 2) := by
    rw [Query.answerAfter_eq_fresh]
    exact .inl (by cbv)
  exact ⟨himg, hend, (answers_fail_honestly himg (by decide +kernel) _).1 _ _ hend⟩

end ElfInspect
