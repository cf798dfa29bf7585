import ElfInspect.Proofs.Laziness
import ElfInspect.Proofs.Machine
import ElfInspect.Proofs.Records
import ElfInspect.Proofs.Truncation

/-!
The machine's calculations do not trap. `Gives m r` says so of a calculation and names its result;
there is one rule per construction and one lemma per calculation. All that is asked of the bytes is
that their number is a word.
-/

namespace ElfInspect.Machine

variable {α β : Type}

/-! ## Calculations -/

/-- The calculation does not trap, and its result is `r`. -/
def Gives (m : Calc α) (r : Except Fault α) : Prop := m.run = .ok r

theorem gives_pure (a : α) : Gives (pure a) (pure a) := rfl

theorem gives_after {m : Calc α} {a : α} {f : α → Calc β} {r : Except Fault β}
    (hm : Gives m (.ok a)) (hf : Gives (f a) r) : Gives (m >>= f) r := by
  unfold Gives at hm ⊢
  rw [ExceptT.run_bind, hm]
  exact hf

theorem gives_fault {m : Calc α} {fault : Fault} {f : α → Calc β}
    (hm : Gives m (.error fault)) : Gives (m >>= f) (.error fault) := by
  unfold Gives at hm ⊢
  rw [ExceptT.run_bind, hm]
  rfl

theorem gives_bind {m : Calc α} {r : Except Fault α} {f : α → Calc β} {g : α → Except Fault β}
    (hm : Gives m r) (hf : ∀ a, r = .ok a → Gives (f a) (g a)) :
    Gives (m >>= f) (r >>= g) := by
  cases r with
  | error fault => exact gives_fault hm
  | ok a => exact gives_after hm (hf a rfl)

theorem gives_op {op : Op α} {a : α} (hop : op = .ok a) : Gives (liftM op) (.ok a) := by
  subst hop
  rfl

theorem gives_ite (c : Prop) [Decidable c] {m m' : Calc α} {r r' : Except Fault α}
    (h : Gives m r) (h' : Gives m' r') : Gives (if c then m else m') (if c then r else r') := by
  split
  · exact h
  · exact h'

/-- An operation that has a result is a step of a calculation. -/
theorem gives_step {op : Op α} {a : α} {f : α → Calc β} {r : Except Fault β} (hop : op = .ok a)
    (hf : Gives (f a) r) : Gives (liftM op >>= f) r := by
  subst hop
  exact hf

theorem sub_ok {a b : Nat} (h : b ≤ a) : sub a b = .ok (a - b) := if_pos h

theorem add_ok {a b : Nat} (h : a + b < wordLimit) : add a b = .ok (a + b) := if_pos h

theorem mul_ok {a b : Nat} (h : a * b < wordLimit) : mul a b = .ok (a * b) := if_pos h

theorem div_ok {a b : Nat} (h : b ≠ 0) : div a b = .ok (a / b) := if_neg h

theorem part_ok {bytes : ByteArray} {start stop : Nat} (h : start ≤ stop)
    (hstop : stop ≤ bytes.size) : part bytes start stop = .ok (bytes.extract start stop) :=
  if_pos ⟨h, hstop⟩

theorem index_ok {i count : Nat} (h : i < count) : index i count = .ok i := if_pos h

theorem byte_ok {bytes : ByteArray} {i : Nat} (h : i < bytes.size) :
    byte bytes i = .ok (Header.byteAt bytes i) := by
  rw [byte, index_ok h]
  rfl

theorem moveTo_ok {c : Cursor} {pos : Nat} (h : pos ≤ c.bytes.size) :
    moveTo c pos = .ok { c with pos } := if_pos h

theorem seek_gives (c : Cursor) (offset : Nat) : Gives (seek c offset) (c.seek offset) := by
  unfold seek
  by_cases h : offset ≤ c.bytes.size
  · rw [if_neg (Nat.not_lt.2 h), Cursor.seek_of_le h]
    exact gives_op (moveTo_ok h)
  · rw [if_pos (Nat.lt_of_not_le h), Cursor.seek_of_lt (Nat.lt_of_not_le h)]
    rfl

theorem take_of_le {c : Cursor} {n : Nat} (hw : c.bytes.size < wordLimit)
    (h : c.pos + n ≤ c.bytes.size) :
    Gives (take c n) (.ok (c.bytes.extract c.pos (c.pos + n), { c with pos := c.pos + n })) := by
  unfold take
  refine gives_step (sub_ok (by omega)) ?_
  rw [if_neg (by omega)]
  refine gives_step (add_ok (by omega)) ?_
  refine gives_step (part_ok (by omega) h) ?_
  exact gives_step (moveTo_ok h) rfl

theorem take_of_lt {c : Cursor} {n : Nat} (hpos : c.pos ≤ c.bytes.size)
    (h : c.bytes.size < c.pos + n) : Gives (take c n) (.error (.truncatedInput c.pos n)) := by
  unfold take
  refine gives_step (sub_ok hpos) ?_
  rw [if_pos (by omega)]
  rfl

theorem number_gives {c : Cursor} (hw : c.bytes.size < wordLimit) (hpos : c.pos ≤ c.bytes.size)
    (n : Nat) : Gives (number c n) (c.number n) := by
  unfold number Cursor.number
  by_cases h : c.pos + n ≤ c.bytes.size
  · rw [Cursor.take_of_le h]
    refine gives_after (take_of_le hw h) ?_
    have hsize : (c.bytes.extract c.pos (c.pos + n)).size = n := by
      rw [ByteArray.size_extract]
      omega
    dsimp only
    rw [if_neg (fun hne => hne hsize)]
    rfl
  · rw [Cursor.take_of_lt (Nat.lt_of_not_le h)]
    exact gives_fault (take_of_lt hpos (Nat.lt_of_not_le h))

theorem number_moves {c next : Cursor} {n value : Nat} (h : c.number n = .ok (value, next)) :
    c.pos + n ≤ c.bytes.size ∧ next = { c with pos := c.pos + n } := by
  unfold Cursor.number at h
  by_cases hle : c.pos + n ≤ c.bytes.size
  · rw [Cursor.take_of_le hle] at h
    cases h
    exact ⟨hle, rfl⟩
  · rw [Cursor.take_of_lt (Nat.lt_of_not_le hle)] at h
    cases h

theorem readFields_gives (ws : Layout) {c : Cursor} (hw : c.bytes.size < wordLimit)
    (hpos : c.pos ≤ c.bytes.size) : Gives (readFields ws c) (Fields.read ws c) := by
  induction ws generalizing c with
  | nil => exact gives_pure _
  | cons w ws ih =>
    unfold readFields Fields.read
    have hnumber := number_gives hw hpos (w.size c.format.fileClass)
    cases hn : c.number (w.size c.format.fileClass) with
    | error fault =>
      rw [hn] at hnumber
      exact gives_fault hnumber
    | ok read =>
      obtain ⟨n, next⟩ := read
      rw [hn] at hnumber
      refine gives_after hnumber ?_
      obtain ⟨hle, rfl⟩ := number_moves hn
      have hrest := ih (c := { c with pos := c.pos + w.size c.format.fileClass }) hw hle
      dsimp only
      cases hr : Fields.read ws { c with pos := c.pos + w.size c.format.fileClass } with
      | error fault =>
        rw [hr] at hrest
        exact gives_fault hrest
      | ok read =>
        rw [hr] at hrest
        exact gives_after hrest rfl

theorem decodeAt_gives {α : Type} [Record α] {bytes : ByteArray} (hw : bytes.size < wordLimit)
    (format : Format) (offset : Nat) :
    Gives (decodeAt (α := α) bytes format offset) (Record.decodeAt bytes format offset) := by
  have hseek := seek_gives (.start bytes format) offset
  by_cases h : offset ≤ bytes.size
  · rw [Cursor.seek_of_le (by exact h)] at hseek
    rw [Record.decodeAt_of_le h]
    refine gives_after hseek ?_
    have hread := readFields_gives (Record.layout α format.fileClass)
      (c := ⟨bytes, format, offset⟩) hw h
    dsimp only [Cursor.start]
    cases hr : Fields.read (Record.layout α format.fileClass) ⟨bytes, format, offset⟩ with
    | error fault =>
      rw [hr] at hread
      exact gives_fault hread
    | ok read =>
      rw [hr] at hread
      exact gives_after hread rfl
  · rw [Cursor.seek_of_lt (Nat.lt_of_not_le h)] at hseek
    rw [Record.decodeAt_of_lt (Nat.lt_of_not_le h)]
    exact gives_fault hseek

theorem slice_gives {bytes : ByteArray} (hw : bytes.size < wordLimit) (format : Format)
    (offset length : Nat) :
    Gives (slice bytes format offset length) (ElfInspect.slice bytes offset length) := by
  unfold ElfInspect.slice
  have hseek := seek_gives (.start bytes format) offset
  by_cases h : bytes.size < offset
  · rw [if_pos h]
    rw [Cursor.seek_of_lt h] at hseek
    exact gives_fault hseek
  rw [if_neg h]
  rw [Cursor.seek_of_le (Nat.le_of_not_lt h)] at hseek
  refine gives_after hseek ?_
  by_cases hend : bytes.size < offset + length
  · rw [if_pos hend]
    exact gives_fault (take_of_lt (Nat.le_of_not_lt h) hend)
  · rw [if_neg hend]
    exact gives_after (take_of_le hw (Nat.le_of_not_lt hend)) rfl

/-! ## Headers -/

theorem parseIdent_gives (bytes : ByteArray) :
    Gives (parseIdent bytes) (Header.parseIdent bytes) := by
  unfold parseIdent Header.parseIdent
  by_cases hmagic : bytes.size < Header.magic.length
  · rw [if_pos hmagic, if_pos hmagic]
    rfl
  rw [if_neg hmagic, if_neg hmagic]
  refine gives_step (part_ok (Nat.zero_le _) (Nat.le_of_not_lt hmagic)) ?_
  have hfound : (bytes.extract 0 Header.magic.length).data.toList =
      window bytes 0 Header.magic.length := by rw [window, Nat.zero_add]
  rw [hfound]
  dsimp only
  by_cases hwrong : window bytes 0 Header.magic.length ≠ Header.magic
  · rw [if_pos hwrong, if_pos hwrong]
    rfl
  rw [if_neg hwrong, if_neg hwrong]
  by_cases hident : bytes.size < Header.identSize
  · rw [if_pos hident, if_pos hident]
    rfl
  rw [if_neg hident, if_neg hident]
  have hin : ∀ i, i < Header.identSize → i < bytes.size := fun i hi => by omega
  refine gives_step (byte_ok (hin 4 (by decide))) ?_
  cases FileClass.ofMark? (Header.byteAt bytes 4) with
  | none => rfl
  | some fileClass =>
    refine gives_step (byte_ok (hin 5 (by decide))) ?_
    cases ByteOrder.ofMark? (Header.byteAt bytes 5) with
    | none => rfl
    | some order =>
      refine gives_step (byte_ok (hin 6 (by decide))) ?_
      dsimp only
      split <;> rfl

theorem parseBody_gives {bytes : ByteArray} (hw : bytes.size < wordLimit)
    (hident : Header.identSize ≤ bytes.size) (format : Format) :
    Gives (parseBody bytes format) (Header.parseBody bytes format) := by
  unfold parseBody Header.parseBody
  have hseek := seek_gives (.start bytes format) Header.identSize
  rw [Cursor.seek_of_le hident] at hseek
  refine gives_after hseek (gives_bind (readFields_gives _ hw hident) ?_)
  rintro ⟨⟨t, m, v, entry, ph, sh, flags, ehsize, phsize, phnum, shsize, shnum, ⟨⟩⟩, c⟩ hread
  obtain ⟨hle, hread⟩ := (Fields.read_ok_iff hident).1 hread
  obtain ⟨-, rfl⟩ := Prod.mk.inj hread
  dsimp only
  split
  · rfl
  refine gives_bind (readFields_gives _ hw hle) ?_
  rintro ⟨⟨names, ⟨⟩⟩, _⟩ -
  exact gives_ite (names = Header.extendedIndex) rfl rfl

theorem parse_gives {bytes : ByteArray} (hw : bytes.size < wordLimit) :
    Gives (parse bytes) (Header.parse bytes) := by
  apply gives_bind (parseIdent_gives bytes)
  intro format hformat
  have hident := Header.size_of_parseIdent hformat
  have hin : ∀ i, i < Header.identSize → i < bytes.size := fun i hi => by omega
  refine gives_bind (parseBody_gives hw hident format) ?_
  rintro ⟨t, m, v, entry, ph, sh, flags, ehsize, phsize, phnum, shsize, shnum, names, ⟨⟩⟩ -
  refine gives_step (byte_ok (hin 7 (by decide))) ?_
  exact gives_step (byte_ok (hin 8 (by decide))) rfl

/-! ## Entries -/

theorem entryOffset_eq (base entrySize count i : Nat) :
    entryOffset base entrySize count i = ElfInspect.entryOffset base entrySize count i := by
  unfold entryOffset ElfInspect.entryOffset checked
  rw [show wordLimit = offsetLimit from rfl]
  by_cases hsum : base + i * entrySize < offsetLimit
  · have hproduct : i * entrySize < offsetLimit := by omega
    simp only [hproduct, hsum, ↓reduceIte, Option.bind_some]
  · by_cases hproduct : i * entrySize < offsetLimit <;>
      simp only [hproduct, hsum, ↓reduceIte, Option.bind_some, Option.bind_none]

theorem data_gives {bytes : ByteArray} (hw : bytes.size < wordLimit) (format : Format)
    (s : SectionEntry) : Gives (data s bytes format) (s.data bytes) := by
  unfold data SectionEntry.data
  split
  · exact gives_pure _
  · exact slice_gives hw format _ _

theorem entryCount_ok (s : SectionEntry) : entryCount s = .ok s.entryCount := by
  unfold entryCount SectionEntry.entryCount
  by_cases hnone : s.entrySize = 0 ∨ s.type = SectionEntry.nobits
  · rw [if_pos hnone, if_pos hnone]
  · rw [if_neg hnone, if_neg hnone]
    exact div_ok fun hzero => hnone (.inl hzero)

theorem symbolCount_gives {bytes : ByteArray} (hw : bytes.size < wordLimit) (format : Format)
    (s : SectionEntry) : Gives (symbolCount s bytes format) (s.symbolCount bytes) := by
  unfold symbolCount SectionEntry.symbolCount
  refine gives_step (entryCount_ok s) ?_
  by_cases hnone : s.entryCount = 0
  · rw [if_pos hnone, if_pos hnone]
    rfl
  · rw [if_neg hnone, if_neg hnone]
    have hsize : s.entrySize ≠ 0 := by
      intro hzero
      apply hnone
      simp [SectionEntry.entryCount, hzero]
    have hdata := data_gives hw format s
    cases hd : s.data bytes with
    | error fault =>
      rw [hd] at hdata
      exact gives_fault hdata
    | ok held =>
      rw [hd] at hdata
      exact gives_after hdata (gives_op (div_ok hsize))

/-- The check of the sum never fails: a symbol that is counted starts within the file. -/
theorem symbolOffset_gives {bytes : ByteArray} (hw : bytes.size < wordLimit) {s : SectionEntry}
    {count : Nat} (hcount : s.symbolCount bytes = .ok count) (j : Nat) :
    Gives (symbolOffset s count j) (Image.symbolOffset s count j) := by
  unfold symbolOffset Image.symbolOffset
  by_cases hj : j < count
  · have hroom := SectionEntry.symbolCount_room hcount hj
    have hsum : s.offset + j * s.entrySize < wordLimit := Nat.lt_of_le_of_lt hroom hw
    rw [if_neg (Nat.not_le.2 hj), if_pos hj]
    refine gives_step (mul_ok (Nat.lt_of_le_of_lt (Nat.le_add_left _ _) hsum)) ?_
    rw [checked, if_pos hsum, ElfInspect.entryOffset, if_pos (by exact hsum)]
    exact gives_pure _
  · rw [if_pos (Nat.le_of_not_lt hj), if_neg hj]
    rfl

theorem lookup_gives (table : StringTable) (offset : Nat) :
    Gives (lookup table offset) (table.lookup offset) := by
  unfold lookup StringTable.lookup
  by_cases hoffset : offset < table.size
  · rw [if_neg (Nat.not_le.2 hoffset), if_pos hoffset]
    refine gives_step (part_ok (Nat.le_of_lt hoffset) (Nat.le_refl table.size)) ?_
    generalize hremaining : table.bytes.extract offset table.size = remaining
    have hend : remaining.data.toList.findIdx (· == 0) ≤ remaining.size := by
      have hlength : remaining.data.toList.length = remaining.size := Array.length_toList
      rw [← hlength]
      exact List.findIdx_le_length
    refine gives_step (part_ok (Nat.zero_le _) hend) ?_
    have hrest : remaining.data.toList = table.bytes.data.toList.drop offset := by
      have hsize : table.bytes.data.toList.length = table.size := Array.length_toList
      rw [← hremaining, ByteArray.data_extract, Array.toList_extract, List.extract_eq_take_drop,
        List.take_of_length_le (Nat.le_of_eq (by rw [List.length_drop, hsize]))]
    have hfound : (remaining.extract 0 (remaining.data.toList.findIdx (· == 0))).data.toList =
        untilZero table.bytes offset := by
      rw [untilZero_eq, ← hrest, List.takeWhile_eq_take_findIdx_not, ByteArray.data_extract,
        Array.toList_extract, List.extract_eq_take_drop]
      simp only [ne_eq, decide_not, Bool.not_not, Nat.sub_zero, List.drop_zero]
      rfl
    rw [hfound]
    exact gives_pure _
  · rw [if_pos (Nat.le_of_not_lt hoffset), if_neg hoffset]
    rfl

theorem interpreter_gives {bytes : ByteArray} (hw : bytes.size < wordLimit) (format : Format)
    (p : SegmentEntry) : Gives (interpreter p bytes format) (p.interpreter bytes) := by
  unfold interpreter SegmentEntry.interpreter
  by_cases htype : p.type = SegmentEntry.interp
  · rw [if_pos htype, if_pos htype]
    have hslice := slice_gives hw format p.offset p.fileSize
    rw [← SegmentEntry.data] at hslice
    cases hd : p.data bytes with
    | error fault =>
      rw [hd] at hslice
      exact gives_fault hslice
    | ok part =>
      rw [hd] at hslice
      exact gives_after hslice (gives_pure _)
  · rw [if_neg htype, if_neg htype]
    exact gives_pure _

/-- A difference is taken only from an address that is not below the symbol. -/
theorem contains_ok (symbol : SymbolEntry) (address : Nat) :
    contains symbol address = .ok (symbol.contains address) := by
  unfold contains SymbolEntry.contains
  by_cases hle : symbol.value ≤ address
  · rw [if_pos hle, sub_ok hle]
    simp only [hle, decide_true, Bool.true_and]
    rfl
  · rw [if_neg hle]
    simp only [hle, decide_false, Bool.false_and]
    rfl

theorem mapM_contains_ok (symbol : SymbolEntry) (addresses : List Nat) :
    addresses.mapM (contains symbol) = .ok (addresses.map symbol.contains) := by
  induction addresses with
  | nil => rfl
  | cons address rest ih =>
    rw [List.mapM_cons, contains_ok, ih]
    rfl

theorem sectionOffset_eq (img : Image) (i : Nat) : sectionOffset img i = img.sectionOffset i := by
  simp only [sectionOffset, Image.sectionOffset, entryOffset_eq]

theorem segmentOffset_eq (img : Image) (i : Nat) : segmentOffset img i = img.segmentOffset i := by
  simp only [segmentOffset, Image.segmentOffset, entryOffset_eq]

end ElfInspect.Machine
