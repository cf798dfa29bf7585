import Mathlib
import ElfInspect.Image

/-!
What the readers of numbers and records read. Reading fields succeeds exactly where the bytes hold
all of them, and then depends on their window only: `Fields.read_ok_iff`, `Record.decodeAt_ok_iff`.
What was written is read back: `Fields.decode_encode`, `Record.decodeAt_encode`.
-/

namespace ElfInspect

/-! ## Windows and slices -/

theorem window_add (bytes : ByteArray) (offset m n : Nat) :
    window bytes offset (m + n) = window bytes offset m ++ window bytes (offset + m) n := by
  simp only [window_eq, List.take_add, List.drop_drop]

theorem extract_append_of_le {bytes : ByteArray} {stop : Nat} (h : stop ≤ bytes.size)
    (more : ByteArray) (start : Nat) :
    (bytes ++ more).extract start stop = bytes.extract start stop := by
  rw [ByteArray.extract_append, Nat.sub_eq_zero_of_le h]
  have hempty : more.extract (start - bytes.size) 0 = .empty := by
    rw [ByteArray.extract_eq_empty_iff]
    omega
  rw [hempty, ByteArray.append_empty]

/-- A window inside the first part of a byte sequence does not see the second part. -/
theorem window_append {bytes : ByteArray} {offset length : Nat}
    (h : offset + length ≤ bytes.size) (more : ByteArray) :
    window (bytes ++ more) offset length = window bytes offset length := by
  rw [window, extract_append_of_le h, window]

theorem slice_ok_iff {bytes part : ByteArray} {offset length : Nat} :
    slice bytes offset length = .ok part ↔
      offset + length ≤ bytes.size ∧ part = bytes.extract offset (offset + length) := by
  unfold slice
  by_cases hoffset : bytes.size < offset
  · have hend : ¬ offset + length ≤ bytes.size := by omega
    simp [hoffset, hend]
  · by_cases hend : bytes.size < offset + length
    · simp [hoffset, hend, Nat.not_le.2 hend]
    · simp only [hoffset, hend, ↓reduceIte, Except.ok.injEq, Nat.le_of_not_lt hend, true_and]
      exact eq_comm

/-- What reading `length` bytes from `offset` on gives. -/
inductive SliceReads (bytes : ByteArray) (offset length : Nat) :
    Except Fault (List UInt8) → Prop
  | behind (h : bytes.size < offset) :
    SliceReads bytes offset length (.error (.outOfRange offset bytes.size))
  | cut (hstart : offset ≤ bytes.size) (hend : bytes.size < offset + length) :
    SliceReads bytes offset length (.error (.truncatedInput offset length))
  | whole (h : offset + length ≤ bytes.size) :
    SliceReads bytes offset length (.ok (window bytes offset length))

theorem exists_sliceReads (bytes : ByteArray) (offset length : Nat) :
    SliceReads bytes offset length ((slice bytes offset length).map (·.data.toList)) := by
  unfold slice
  by_cases hstart : bytes.size < offset
  · rw [if_pos hstart]
    exact .behind hstart
  rw [if_neg hstart]
  by_cases hend : bytes.size < offset + length
  · rw [if_pos hend]
    exact .cut (Nat.le_of_not_lt hstart) hend
  · rw [if_neg hend]
    exact .whole (Nat.le_of_not_lt hend)

/-- There is one outcome of reading bytes. -/
theorem SliceReads.unique {bytes : ByteArray} {offset length : Nat}
    {r r' : Except Fault (List UInt8)} (h : SliceReads bytes offset length r)
    (h' : SliceReads bytes offset length r') : r = r' := by
  cases h <;> cases h' <;> first | rfl | omega

theorem sliceReads_error_iff {bytes : ByteArray} {offset length : Nat} :
    (∃ fault, SliceReads bytes offset length (.error fault)) ↔ bytes.size < offset + length := by
  constructor
  · rintro ⟨fault, h⟩
    cases h <;> omega
  · intro h
    by_cases hstart : bytes.size < offset
    · exact ⟨_, .behind hstart⟩
    · exact ⟨_, .cut (Nat.le_of_not_lt hstart) h⟩

theorem slice_eq_iff {bytes : ByteArray} {offset length : Nat}
    {r : Except Fault (List UInt8)} :
    (slice bytes offset length).map (·.data.toList) = r ↔ SliceReads bytes offset length r := by
  constructor
  · rintro rfl
    exact exists_sliceReads bytes offset length
  · exact (exists_sliceReads bytes offset length).unique

/-! ## Fields -/

namespace Fields

/-- The fields whose written form is `bs`. -/
def decode (format : Format) : (ws : Layout) → List UInt8 → Fields ws
  | [], _ => ()
  | w :: ws, bs =>
    (format.order.number (bs.take (w.size format.fileClass)),
      decode format ws (bs.drop (w.size format.fileClass)))

theorem decode_encode (format : Format) (ws : Layout) (f : Fields ws)
    (h : Fit format.fileClass ws f) : decode format ws (encode format ws f) = f := by
  induction ws with
  | nil => rfl
  | cons w ws ih =>
    obtain ⟨n, rest⟩ := f
    obtain ⟨hn, hrest⟩ := h
    have hlen := digits_length format.order (w.size format.fileClass) n
    simp only [encode, decode, List.take_left' hlen, List.drop_left' hlen, ih rest hrest,
      number_digits _ _ _ hn]
    rfl

/-- Bytes that are as many as the fields take are the written form of what is read from them. -/
theorem encode_decode (format : Format) (ws : Layout) (bs : List UInt8)
    (h : bs.length = Layout.size format.fileClass ws) :
    encode format ws (decode format ws bs) = bs := by
  induction ws generalizing bs with
  | nil => exact (List.eq_nil_of_length_eq_zero h).symm
  | cons w ws ih =>
    rw [Layout.size] at h
    have htake : (bs.take (w.size format.fileClass)).length = w.size format.fileClass := by
      rw [List.length_take]
      omega
    have hdrop : (bs.drop (w.size format.fileClass)).length = Layout.size format.fileClass ws := by
      rw [List.length_drop]
      omega
    have hdigits := digits_number format.order (bs.take (w.size format.fileClass))
    rw [htake] at hdigits
    rw [decode, encode, hdigits, ih _ hdrop, List.take_append_drop]

/-- What is read from bytes fits the fields that it is read from. -/
theorem decode_fit (format : Format) (ws : Layout) (bs : List UInt8) :
    Fit format.fileClass ws (decode format ws bs) := by
  induction ws generalizing bs with
  | nil => trivial
  | cons w ws ih =>
    refine ⟨Nat.lt_of_lt_of_le (number_lt _ _) ?_, ih _⟩
    exact Nat.pow_le_pow_right (by decide) (List.length_take_le _ _)

theorem read_of_le (ws : Layout) (c : Cursor)
    (h : c.pos + Layout.size c.format.fileClass ws ≤ c.bytes.size) :
    read ws c = .ok (decode c.format ws (window c.bytes c.pos (Layout.size c.format.fileClass ws)),
      { c with pos := c.pos + Layout.size c.format.fileClass ws }) := by
  induction ws generalizing c with
  | nil => rfl
  | cons w ws ih =>
    rw [Layout.size] at h
    have hw : c.pos + w.size c.format.fileClass ≤ c.bytes.size := by omega
    have hlen := window_length hw
    have hrest := ih { c with pos := c.pos + w.size c.format.fileClass } (by dsimp only; omega)
    simp only [read, Cursor.number, Cursor.take_of_le hw, hrest, Layout.size, decode, window_add,
      List.take_left' hlen, List.drop_left' hlen, Nat.add_assoc]

/-- Where the bytes end before the fields do, the fault is the one of a field that is cut. -/
theorem read_of_lt (ws : Layout) (c : Cursor) (hpos : c.pos ≤ c.bytes.size)
    (h : c.bytes.size < c.pos + Layout.size c.format.fileClass ws) :
    ∃ offset needed, read ws c = .error (.truncatedInput offset needed) := by
  induction ws generalizing c with
  | nil =>
    rw [Layout.size] at h
    omega
  | cons w ws ih =>
    rw [Layout.size] at h
    by_cases hw : c.pos + w.size c.format.fileClass ≤ c.bytes.size
    · obtain ⟨offset, needed, hread⟩ :=
        ih { c with pos := c.pos + w.size c.format.fileClass } hw (by dsimp only; omega)
      refine ⟨offset, needed, ?_⟩
      simp only [read, Cursor.number, Cursor.take_of_le hw, hread]
    · refine ⟨c.pos, w.size c.format.fileClass, ?_⟩
      simp only [read, Cursor.number, Cursor.take_of_lt (Nat.lt_of_not_le hw)]

theorem read_ok_iff {ws : Layout} {c : Cursor} (hpos : c.pos ≤ c.bytes.size)
    {r : Fields ws × Cursor} :
    read ws c = .ok r ↔
      c.pos + Layout.size c.format.fileClass ws ≤ c.bytes.size ∧
        r = (decode c.format ws (window c.bytes c.pos (Layout.size c.format.fileClass ws)),
          { c with pos := c.pos + Layout.size c.format.fileClass ws }) := by
  by_cases h : c.pos + Layout.size c.format.fileClass ws ≤ c.bytes.size
  · rw [read_of_le ws c h]
    simp only [Except.ok.injEq, h, true_and]
    exact eq_comm
  · obtain ⟨offset, needed, hread⟩ := read_of_lt ws c hpos (Nat.lt_of_not_le h)
    simp [hread, h]

end Fields

/-! ## Records -/

namespace Record

variable {α : Type} [Record α]

theorem decodeAt_of_lt {bytes : ByteArray} {format : Format} {offset : Nat}
    (h : bytes.size < offset) :
    decodeAt (α := α) bytes format offset = .error (.outOfRange offset bytes.size) := by
  rw [decodeAt, Cursor.seek_of_lt (by exact h)]
  rfl

theorem decodeAt_of_le {bytes : ByteArray} {format : Format} {offset : Nat}
    (h : offset ≤ bytes.size) :
    decodeAt (α := α) bytes format offset =
      match Fields.read (layout α format.fileClass) ⟨bytes, format, offset⟩ with
      | .ok (f, _) => .ok (ofFields format.fileClass f)
      | .error fault => .error fault := by
  rw [decodeAt, Cursor.seek_of_le (by exact h)]
  dsimp only [Cursor.start]
  cases Fields.read (layout α format.fileClass) ⟨bytes, format, offset⟩ <;> rfl

/-- A record is read exactly where the bytes hold all of it, and from its window alone. -/
theorem decodeAt_ok_iff {bytes : ByteArray} {format : Format} {offset : Nat} {a : α} :
    decodeAt bytes format offset = .ok a ↔
      offset + size α format.fileClass ≤ bytes.size ∧
        a = ofFields format.fileClass (Fields.decode format (layout α format.fileClass)
          (window bytes offset (size α format.fileClass))) := by
  by_cases hle : offset ≤ bytes.size
  · rw [decodeAt_of_le hle]
    by_cases h : offset + size α format.fileClass ≤ bytes.size
    · rw [Fields.read_of_le _ _ h]
      simp only [Except.ok.injEq, h, true_and]
      exact eq_comm
    · obtain ⟨at', needed, hread⟩ := Fields.read_of_lt (layout α format.fileClass)
        ⟨bytes, format, offset⟩ hle (Nat.lt_of_not_le h)
      simp [hread, h]
  · rw [decodeAt_of_lt (Nat.lt_of_not_le hle)]
    have h : ¬ offset + size α format.fileClass ≤ bytes.size := by omega
    simp [h]

/-- A record is read back from where it was written. -/
theorem decodeAt_encode {bytes : ByteArray} {format : Format} {offset : Nat} {a : α}
    (hfits : Fits format.fileClass a) (hle : offset + size α format.fileClass ≤ bytes.size)
    (hw : window bytes offset (size α format.fileClass) = encode format a) :
    decodeAt bytes format offset = .ok a := by
  rw [decodeAt_ok_iff, hw, encode, Fields.decode_encode format _ _ hfits, ofFields_toFields]
  exact ⟨hle, rfl⟩

end Record

/-! ## Places of entries -/

theorem entryOffset_ok_iff {base entrySize count index offset : Nat} :
    entryOffset base entrySize count index = .ok offset ↔
      base + index * entrySize < offsetLimit ∧ offset = base + index * entrySize := by
  by_cases h : base + index * entrySize < offsetLimit
  · simp [entryOffset, h, eq_comm]
  · simp [entryOffset, h]

namespace Image

variable {img : Image} {i j offset : Nat}

theorem sectionOffset_ok_iff :
    img.sectionOffset i = .ok offset ↔
      i < img.header.sectionCount ∧
        img.header.sectionTable + i * img.header.sectionEntrySize < offsetLimit ∧
        offset = img.header.sectionTable + i * img.header.sectionEntrySize := by
  by_cases h : i < img.header.sectionCount
  · simp [sectionOffset, h, entryOffset_ok_iff]
  · simp [sectionOffset, h]

theorem segmentOffset_ok_iff :
    img.segmentOffset i = .ok offset ↔
      i < img.header.segmentCount ∧
        img.header.segmentTable + i * img.header.segmentEntrySize < offsetLimit ∧
        offset = img.header.segmentTable + i * img.header.segmentEntrySize := by
  by_cases h : i < img.header.segmentCount
  · simp [segmentOffset, h, entryOffset_ok_iff]
  · simp [segmentOffset, h]

theorem symbolOffset_ok_iff {s : SectionEntry} {count : Nat} :
    symbolOffset s count j = .ok offset ↔
      j < count ∧ s.offset + j * s.entrySize < offsetLimit ∧
        offset = s.offset + j * s.entrySize := by
  by_cases h : j < count
  · simp [symbolOffset, h, entryOffset_ok_iff]
  · simp [symbolOffset, h]

end Image

/-! ## Entries of tables -/

theorem bind_ok_iff {ε α β : Type} {r : Except ε α} {f : α → Except ε β} {b : β} :
    (r >>= f) = .ok b ↔ ∃ a, r = .ok a ∧ f a = .ok b := by
  cases r with
  | error fault => simp [bind, Except.bind]
  | ok a => simp [bind, Except.bind]

theorem bind_error_iff {ε α β : Type} {r : Except ε α} {f : α → Except ε β} {e : ε} :
    (r >>= f) = .error e ↔ r = .error e ∨ ∃ a, r = .ok a ∧ f a = .error e := by
  cases r with
  | error fault => simp [bind, Except.bind]
  | ok a => simp [bind, Except.bind]

theorem map_ok_iff {ε α β : Type} {r : Except ε α} {f : α → β} {b : β} :
    r.map f = .ok b ↔ ∃ a, r = .ok a ∧ f a = b := by
  cases r <;> simp [Except.map]

theorem map_error_iff {ε α β : Type} {r : Except ε α} {f : α → β} {e : ε} :
    r.map f = .error e ↔ r = .error e := by
  cases r <;> simp [Except.map]

theorem ok_of_toOption {ε α : Type} {r : Except ε α} {a : α} (h : r.toOption = some a) :
    r = .ok a := by
  cases r with
  | error e => cases h
  | ok b => exact congrArg Except.ok (Option.some.inj h)

namespace Image

variable {img : Image} {i j : Nat}

theorem sectionAt_ok {t : SectionEntry} (h : img.sectionAt i = .ok t) :
    i < img.header.sectionCount ∧
      Record.decodeAt img.bytes img.format
        (img.header.sectionTable + i * img.header.sectionEntrySize) = .ok t := by
  obtain ⟨offset, hoffset, hdecode⟩ := bind_ok_iff.1 h
  obtain ⟨hi, -, rfl⟩ := sectionOffset_ok_iff.1 hoffset
  exact ⟨hi, hdecode⟩

theorem segmentAt_ok {p : SegmentEntry} (h : img.segmentAt i = .ok p) :
    i < img.header.segmentCount ∧
      Record.decodeAt img.bytes img.format
        (img.header.segmentTable + i * img.header.segmentEntrySize) = .ok p := by
  obtain ⟨offset, hoffset, hdecode⟩ := bind_ok_iff.1 h
  obtain ⟨hi, -, rfl⟩ := segmentOffset_ok_iff.1 hoffset
  exact ⟨hi, hdecode⟩

/-- A symbol is the record at its place in the table that the section's entry describes. -/
theorem symbolAt_ok {t : SectionEntry} {symbol : SymbolEntry} (ht : img.sectionAt i = .ok t)
    (h : img.symbolAt i j = .ok symbol) :
    ∃ count, t.symbolCount img.bytes = .ok count ∧ j < count ∧
      Record.decodeAt img.bytes img.format (t.offset + j * t.entrySize) = .ok symbol := by
  obtain ⟨t', ht', h⟩ := bind_ok_iff.1 h
  obtain rfl : t = t' := by simpa [ht] using ht'
  obtain ⟨count, hcount, h⟩ := bind_ok_iff.1 h
  obtain ⟨offset, hoffset, hdecode⟩ := bind_ok_iff.1 h
  obtain ⟨hj, -, rfl⟩ := symbolOffset_ok_iff.1 hoffset
  exact ⟨count, hcount, hj, hdecode⟩

end Image

/-! ## Symbol tables -/

namespace SectionEntry

/-- How many entries the section has by its header: its bytes over the size of an entry. It has none
if entries have no size, or if it takes no room in the file. -/
inductive Counts (s : SectionEntry) : Nat → Prop
  | nothing (h : s.entrySize = 0 ∨ s.type = 8) : Counts s 0
  | entries (hsize : s.entrySize ≠ 0) (htype : s.type ≠ 8) : Counts s (s.size / s.entrySize)

/-- Entry `j` is one of those that the section has. -/
def HasEntry (s : SectionEntry) (j : Nat) : Prop := ∃ n, s.Counts n ∧ j < n

theorem counts_iff {s : SectionEntry} {n : Nat} : s.Counts n ↔ n = s.entryCount := by
  unfold entryCount
  constructor
  · rintro (h | ⟨hsize, htype⟩)
    · exact (if_pos h).symm
    · exact (if_neg (not_or.2 ⟨hsize, htype⟩)).symm
  · rintro rfl
    split
    case isTrue h => exact .nothing h
    case isFalse h => exact .entries (not_or.1 h).1 (not_or.1 h).2

theorem exists_counts_and {s : SectionEntry} {p : Nat → Prop} :
    (∃ n, s.Counts n ∧ p n) ↔ p s.entryCount := by
  simp only [counts_iff, exists_eq_left]

theorem hasEntry_iff {s : SectionEntry} {j : Nat} : s.HasEntry j ↔ j < s.entryCount :=
  exists_counts_and

theorem exists_counts (s : SectionEntry) : ∃ n, s.Counts n := ⟨s.entryCount, counts_iff.2 rfl⟩

theorem Counts.unique {s : SectionEntry} {m n : Nat} (h : s.Counts m) (h' : s.Counts n) : m = n :=
  (counts_iff.1 h).trans (counts_iff.1 h').symm

theorem Counts.lt_of_hasEntry {s : SectionEntry} {j n : Nat} (h : s.Counts n)
    (hj : s.HasEntry j) : j < n :=
  counts_iff.1 h ▸ hasEntry_iff.1 hj

/-- A section that has entries of its own size takes room in the file. -/
theorem entryCount_ne_zero {s : SectionEntry} (h : s.entryCount ≠ 0) :
    s.entrySize ≠ 0 ∧ s.type ≠ nobits := by
  unfold entryCount at h
  split at h
  · exact absurd rfl h
  · rename_i hnone
    exact ⟨fun hsize => hnone (.inl hsize), fun htype => hnone (.inr htype)⟩

/-- The symbols that the bytes hold are those that the entry states, if the bytes are there. -/
theorem symbolCount_eq (s : SectionEntry) (bytes : ByteArray) :
    s.symbolCount bytes =
      if s.entryCount = 0 then .ok 0
      else (slice bytes s.offset s.size).map fun _ => s.entryCount := by
  by_cases hcount : s.entryCount = 0
  · rw [symbolCount, if_pos hcount, if_pos hcount]
  · obtain ⟨hsize, htype⟩ := entryCount_ne_zero hcount
    have hstated : s.entryCount = s.size / s.entrySize := if_neg (not_or.2 ⟨hsize, htype⟩)
    rw [symbolCount, if_neg hcount, if_neg hcount, data, if_neg htype]
    cases hslice : slice bytes s.offset s.size with
    | error fault => rfl
    | ok part =>
      obtain ⟨hle, rfl⟩ := slice_ok_iff.1 hslice
      have hpart : (bytes.extract s.offset (s.offset + s.size)).size = s.size := by
        rw [ByteArray.size_extract]
        omega
      simp only [Except.map, hpart, hstated]

/-- A section counts what its entry states, and no more than the file has bytes. -/
theorem symbolCount_ok {s : SectionEntry} {bytes : ByteArray} {count : Nat}
    (h : s.symbolCount bytes = .ok count) : count = s.entryCount ∧ count ≤ bytes.size := by
  rw [symbolCount_eq] at h
  split at h
  · rename_i hzero
    cases h
    exact ⟨hzero.symm, Nat.zero_le _⟩
  · cases hslice : slice bytes s.offset s.size with
    | error fault =>
      rw [hslice] at h
      cases h
    | ok part =>
      simp only [hslice, Except.map, Except.ok.injEq] at h
      subst h
      have hle := (slice_ok_iff.1 hslice).1
      have hcount : s.entryCount ≤ s.size := by
        unfold entryCount
        split
        · exact Nat.zero_le _
        · exact Nat.div_le_self _ _
      exact ⟨rfl, by omega⟩

/-- Every symbol that a section counts starts within the file. -/
theorem symbolCount_room {s : SectionEntry} {bytes : ByteArray} {count j : Nat}
    (h : s.symbolCount bytes = .ok count) (hj : j < count) :
    s.offset + j * s.entrySize ≤ bytes.size := by
  unfold symbolCount at h
  split at h
  · cases h
    omega
  rename_i hcount
  obtain ⟨-, htype⟩ := entryCount_ne_zero hcount
  cases hdata : s.data bytes with
  | error fault =>
    rw [hdata] at h
    cases h
  | ok part =>
    rw [hdata] at h
    cases h
    rw [data, if_neg htype, slice_ok_iff] at hdata
    obtain ⟨hle, rfl⟩ := hdata
    have hsize : (bytes.extract s.offset (s.offset + s.size)).size = s.size := by
      rw [ByteArray.size_extract]
      omega
    rw [hsize] at hj
    have hroom : j * s.entrySize ≤ s.size / s.entrySize * s.entrySize :=
      Nat.mul_le_mul_right _ (Nat.le_of_lt hj)
    have hdiv := Nat.div_mul_le_self s.size s.entrySize
    omega

end SectionEntry

end ElfInspect
