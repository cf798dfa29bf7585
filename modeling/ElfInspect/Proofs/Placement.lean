import ElfInspect.Blueprint
import ElfInspect.Proofs.Records
import ElfInspect.Proofs.Utf8

/-!
Where the writers put what they write. `HoldsAt bs offset part` says that `part` lies in `bs` from
`offset` on; the placed chunks, the joined strings and the encoded records do, and the readers find
them there.
-/

namespace ElfInspect

/-- The bytes of `bs` from `offset` on are those of `part`, and maybe more. -/
def HoldsAt (bs : List UInt8) (offset : Nat) (part : List UInt8) : Prop :=
  ∃ before after, bs = before ++ part ++ after ∧ before.length = offset

theorem holdsAt_middle (before part after : List UInt8) :
    HoldsAt (before ++ part ++ after) before.length part := ⟨before, after, rfl, rfl⟩

theorem holdsAt_end {before : List UInt8} {offset : Nat} (h : before.length = offset)
    (part : List UInt8) : HoldsAt (before ++ part) offset part :=
  ⟨before, [], by rw [List.append_nil], h⟩

namespace HoldsAt

variable {bs part inner : List UInt8} {offset inside : Nat}

theorem append (h : HoldsAt bs offset part) (more : List UInt8) :
    HoldsAt (bs ++ more) offset part := by
  obtain ⟨before, after, rfl, hlen⟩ := h
  exact ⟨before, after ++ more, by simp only [List.append_assoc], hlen⟩

theorem trans (h : HoldsAt bs offset part) (h' : HoldsAt part inside inner) :
    HoldsAt bs (offset + inside) inner := by
  obtain ⟨before, after, rfl, rfl⟩ := h
  obtain ⟨before', after', rfl, rfl⟩ := h'
  exact ⟨before ++ before', after' ++ after, by simp only [List.append_assoc],
    List.length_append⟩

theorem length_le (h : HoldsAt bs offset part) : offset + part.length ≤ bs.length := by
  obtain ⟨before, after, rfl, rfl⟩ := h
  simp only [List.length_append]
  omega

theorem size_le (h : HoldsAt bs offset part) :
    offset + part.length ≤ bs.toByteArray.size := by
  rw [List.size_toByteArray]
  exact h.length_le

theorem window_eq (h : HoldsAt bs offset part) :
    window bs.toByteArray offset part.length = part := by
  obtain ⟨before, after, rfl, rfl⟩ := h
  rw [ElfInspect.window_eq, List.toList_data_toByteArray, List.append_assoc, List.drop_left,
    List.take_left]

theorem slice_eq (h : HoldsAt bs offset part) :
    slice bs.toByteArray offset part.length = .ok part.toByteArray := by
  refine slice_ok_iff.2 ⟨h.size_le, ?_⟩
  have hwindow : (bs.toByteArray.extract offset (offset + part.length)).data.toList = part :=
    h.window_eq
  rw [ByteArray.ext_iff, List.data_toByteArray]
  exact (congrArg List.toArray hwindow).symm

/-- Fields are read back from where their written form lies. -/
theorem read_eq {format : Format} {ws : Layout} {f : Fields ws}
    (h : HoldsAt bs offset (Fields.encode format ws f)) (hfit : Fields.Fit format.fileClass ws f) :
    Fields.read ws ⟨bs.toByteArray, format, offset⟩ =
      .ok (f, ⟨bs.toByteArray, format, offset + Layout.size format.fileClass ws⟩) := by
  have hle := h.size_le
  have hwindow := h.window_eq
  rw [Fields.encode_length] at hle hwindow
  rw [Fields.read_of_le ws ⟨bs.toByteArray, format, offset⟩ hle]
  dsimp only
  rw [hwindow, Fields.decode_encode format ws f hfit]

/-- A record is read back from where its written form lies. -/
theorem decodeAt_eq {α : Type} [Record α] {format : Format} {a : α}
    (h : HoldsAt bs offset (Record.encode format a)) (hfits : Record.Fits format.fileClass a) :
    Record.decodeAt bs.toByteArray format offset = .ok a := by
  have hlen := Record.encode_length format a
  refine Record.decodeAt_encode hfits ?_ ?_
  · rw [← hlen]
    exact h.size_le
  · rw [← hlen]
    exact h.window_eq

/-- A string is looked up where it lies with a zero byte behind it. -/
theorem lookup_eq {s : String} (h : HoldsAt bs offset (s.toUTF8.data.toList ++ [0]))
    (hs : '\x00' ∉ s.toList) : StringTable.lookup ⟨bs.toByteArray⟩ offset = .ok s := by
  have hin : offset < StringTable.size ⟨bs.toByteArray⟩ := by
    have hle := h.size_le
    rw [List.length_append, List.length_singleton] at hle
    exact Nat.lt_of_lt_of_le (by omega) hle
  obtain ⟨before, after, rfl, rfl⟩ := h
  have hne : ∀ b ∈ s.toUTF8.data.toList, decide (b ≠ 0) = true := by
    intro b hb
    have hb0 : b ≠ 0 := fun h0 => zero_not_mem_toUTF8 hs (h0 ▸ hb)
    exact decide_eq_true hb0
  rw [StringTable.lookup, if_pos hin, untilZero_eq,
    List.toList_data_toByteArray, List.append_assoc, List.drop_left, List.append_assoc,
    List.takeWhile_append_of_pos hne]
  simp only [List.singleton_append, ne_eq, not_true_eq_false, decide_false, Bool.false_eq_true,
    not_false_eq_true, List.takeWhile_cons_of_neg, List.append_nil, lossyText_toUTF8]

end HoldsAt

/-! ## Chunks -/

/-- Each chunk lies where `place` says, whatever stands before the first one. -/
theorem place_holdsAt {chunks : List (List UInt8)} {k : Nat} {chunk : List UInt8}
    (h : chunks[k]? = some chunk) (before : List UInt8) :
    ∃ start, (place before.length chunks)[k]? = some start ∧
      HoldsAt (before ++ pack before.length chunks) start chunk := by
  -- the chunks already packed stand in `before`, with the zeros between them
  induction chunks generalizing k before with
  | nil => cases h
  | cons first rest ih =>
    have hle := le_aligned before.length
    have hlen : (before ++ zeros (aligned before.length - before.length)).length =
        aligned before.length := by
      rw [List.length_append, length_zeros]
      omega
    cases k with
    | zero =>
      obtain rfl : first = chunk := by simpa using h
      refine ⟨aligned before.length, rfl, ?_⟩
      have hmiddle := holdsAt_middle
        (before ++ zeros (aligned before.length - before.length)) first
        (pack (aligned before.length + first.length) rest)
      rw [hlen] at hmiddle
      simpa only [pack, List.append_assoc] using hmiddle
    | succ k =>
      obtain ⟨start, hstart, hholds⟩ := ih (by simpa using h)
        (before ++ zeros (aligned before.length - before.length) ++ first)
      rw [List.length_append, hlen] at hstart hholds
      refine ⟨start, by simpa only [place, List.getElem?_cons_succ] using hstart, ?_⟩
      simpa only [pack, List.append_assoc] using hholds

theorem place_add_length_le {offset k start : Nat} {chunks : List (List UInt8)}
    {chunk : List UInt8} (hchunk : chunks[k]? = some chunk)
    (hstart : (place offset chunks)[k]? = some start) :
    start + chunk.length ≤ placeEnd offset chunks := by
  obtain ⟨start', hstart', hholds⟩ := place_holdsAt hchunk (zeros offset)
  rw [length_zeros] at hstart' hholds
  obtain rfl : start = start' := Option.some.inj (hstart.symm.trans hstart')
  have hle := hholds.length_le
  rwa [List.length_append, length_zeros, pack_length] at hle

/-! ## Strings -/

theorem length_toUTF8 (s : String) : s.toUTF8.data.toList.length = s.utf8ByteSize :=
  Array.length_toList

theorem stringOffsets_holdsAt {strings : List String} {k : Nat} {s : String}
    (h : strings[k]? = some s) (before : List UInt8) :
    ∃ start, (stringOffsets before.length strings)[k]? = some start ∧
      HoldsAt (before ++ strings.flatMap fun s => s.toUTF8.data.toList ++ [0]) start
        (s.toUTF8.data.toList ++ [0]) := by
  induction strings generalizing k before with
  | nil => cases h
  | cons first rest ih =>
    cases k with
    | zero =>
      obtain rfl : first = s := by simpa using h
      refine ⟨before.length, rfl, ?_⟩
      rw [List.flatMap_cons, ← List.append_assoc]
      exact holdsAt_middle before _ _
    | succ k =>
      obtain ⟨start, hstart, hholds⟩ := ih (by simpa using h)
        (before ++ (first.toUTF8.data.toList ++ [0]))
      have hlen : (before ++ (first.toUTF8.data.toList ++ [0])).length =
          before.length + first.utf8ByteSize + 1 := by
        rw [List.length_append, List.length_append, length_toUTF8, List.length_singleton]
        omega
      rw [hlen] at hstart
      refine ⟨start, by simpa only [stringOffsets, List.getElem?_cons_succ] using hstart, ?_⟩
      simpa only [List.flatMap_cons, List.append_assoc] using hholds

/-- Each string can be looked up where `stringOffsets` says. -/
theorem lookup_joinStrings {strings : List String} {k : Nat} {s : String}
    (h : strings[k]? = some s) (hs : '\x00' ∉ s.toList) :
    ∃ start, (stringOffsets 1 strings)[k]? = some start ∧
      StringTable.lookup ⟨(joinStrings strings).toByteArray⟩ start = .ok s := by
  obtain ⟨start, hstart, hholds⟩ := stringOffsets_holdsAt h [0]
  exact ⟨start, hstart, hholds.lookup_eq hs⟩

/-! ## Records -/

namespace Blueprint

variable {α : Type} [Record α] {format : Format} {records : List α} {bs : List UInt8}

theorem encodeAll_cons {a : α} (h : encodeAll? format (a :: records) = some bs) :
    Record.Fits format.fileClass a ∧
      ∃ rest, encodeAll? format records = some rest ∧ bs = Record.encode format a ++ rest := by
  rw [encodeAll?, List.mapM_cons, Option.map_eq_some_iff] at h
  obtain ⟨parts, hparts, rfl⟩ := h
  obtain ⟨first, hfirst, hparts⟩ := Option.bind_eq_some_iff.1 hparts
  obtain ⟨rest, hrest, hparts⟩ := Option.bind_eq_some_iff.1 hparts
  cases hparts
  rw [Record.encode?] at hfirst
  split at hfirst
  · cases hfirst
    refine ⟨‹_›, rest.flatten, ?_, List.flatten_cons⟩
    rw [encodeAll?, hrest]
    rfl
  · cases hfirst

theorem encodeAll_eq (h : encodeAll? format records = some bs) :
    bs = records.flatMap (Record.encode format) := by
  induction records generalizing bs with
  | nil =>
    cases h
    rfl
  | cons a records ih =>
    obtain ⟨-, rest, hrest, rfl⟩ := encodeAll_cons h
    rw [List.flatMap_cons, ih hrest]

theorem length_flatMap_encode (format : Format) (records : List α) :
    (records.flatMap (Record.encode format)).length =
      records.length * Record.size α format.fileClass := by
  induction records with
  | nil => exact (Nat.zero_mul _).symm
  | cons a rest ih =>
    rw [List.flatMap_cons, List.length_append, Record.encode_length, ih, List.length_cons,
      Nat.succ_mul, Nat.add_comm]

theorem encodeAll_length (h : encodeAll? format records = some bs) :
    bs.length = records.length * Record.size α format.fileClass := by
  rw [encodeAll_eq h, length_flatMap_encode]

/-- Record `k` fits its fields and lies `k` records behind the first. -/
theorem encodeAll_holdsAt (h : encodeAll? format records = some bs) {k : Nat} {a : α}
    (ha : records[k]? = some a) :
    Record.Fits format.fileClass a ∧
      HoldsAt bs (k * Record.size α format.fileClass) (Record.encode format a) := by
  induction records generalizing bs k with
  | nil => cases ha
  | cons first records ih =>
    obtain ⟨hfits, rest, hrest, rfl⟩ := encodeAll_cons h
    cases k with
    | zero =>
      obtain rfl : first = a := by simpa using ha
      rw [Nat.zero_mul]
      exact ⟨hfits, holdsAt_middle [] _ _⟩
    | succ k =>
      obtain ⟨hfits', hholds⟩ := ih hrest (by simpa using ha)
      refine ⟨hfits', ?_⟩
      rw [Nat.succ_mul, Nat.add_comm]
      exact (holdsAt_end (Record.encode_length format first) rest).trans hholds

end Blueprint

end ElfInspect
