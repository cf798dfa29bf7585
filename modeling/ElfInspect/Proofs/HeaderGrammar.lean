import ElfInspect.Proofs.Headers

/-!
Which bytes start with a header, and what is wrong with the others. `Header.Rejects` lists the
faults in the order in which they are looked for, `Header.Accepts` says what a header has to do with
its bytes; `Header.parse_grammar` says that reading a header is exactly that.
-/

namespace ElfInspect

/-! ## One field of many -/

/-- A part of a window is a window. -/
theorem window_part (bytes : ByteArray) (offset : Nat) {length inside n : Nat}
    (h : inside + n ≤ length) :
    ((window bytes offset length).drop inside).take n = window bytes (offset + inside) n := by
  simp only [window_eq, List.drop_take, List.take_take, List.drop_drop]
  congr 1
  omega

namespace Fields

/-- The number in field `n`, 0 behind the last one. -/
def get : (ws : Layout) → Fields ws → Nat → Nat
  | [], _, _ => 0
  | _ :: _, (m, _), 0 => m
  | _ :: ws, (_, rest), n + 1 => get ws rest n

/-- A field is read from its own bytes. -/
theorem get_decode (format : Format) (ws : Layout) (bs : List UInt8) {n : Nat} {w : Width}
    (hn : ws[n]? = some w) :
    get ws (decode format ws bs) n =
      format.order.number
        ((bs.drop (Layout.size format.fileClass (ws.take n))).take (w.size format.fileClass)) := by
  induction ws generalizing bs n with
  | nil => simp at hn
  | cons first ws ih =>
    cases n with
    | zero =>
      obtain rfl : first = w := by simpa using hn
      rfl
    | succ n =>
      have hrest := ih (bs.drop (first.size format.fileClass)) (by simpa using hn)
      rw [List.drop_drop] at hrest
      exact hrest

/-- The fault of the first field that does not lie within the bytes. -/
theorem read_cut (ws : Layout) (c : Cursor) {n : Nat} {w : Width} (hn : ws[n]? = some w)
    (hbefore : c.pos + Layout.size c.format.fileClass (ws.take n) ≤ c.bytes.size)
    (hcut : c.bytes.size <
      c.pos + Layout.size c.format.fileClass (ws.take n) + w.size c.format.fileClass) :
    read ws c = .error (.truncatedInput (c.pos + Layout.size c.format.fileClass (ws.take n))
      (w.size c.format.fileClass)) := by
  induction ws generalizing c n with
  | nil => simp at hn
  | cons first ws ih =>
    cases n with
    | zero =>
      obtain rfl : first = w := by simpa using hn
      simp only [List.take_zero, Layout.size, Nat.add_zero] at hcut ⊢
      simp only [read, Cursor.number, Cursor.take_of_lt hcut]
    | succ n =>
      simp only [List.take_succ_cons, Layout.size] at hbefore hcut ⊢
      have hfirst : c.pos + first.size c.format.fileClass ≤ c.bytes.size := by omega
      have hrest := ih { c with pos := c.pos + first.size c.format.fileClass } (by simpa using hn)
        (by dsimp only; omega) (by dsimp only; omega)
      simp only [read, Cursor.number, Cursor.take_of_le hfirst, hrest, Nat.add_assoc]

end Fields

namespace Header

/-! ## The grammar -/

/-- The identification block is that of a file with the given format. -/
structure Identifies (bytes : ByteArray) (format : Format) : Prop where
  size_le : 16 ≤ bytes.size
  magic : window bytes 0 4 = [0x7f, 0x45, 0x4c, 0x46]
  fileClass : byteAt bytes 4 = format.fileClass.mark
  order : byteAt bytes 5 = format.order.mark
  version : byteAt bytes 6 = 1

/-- Where number `n` behind the identification block starts. -/
def fieldOffset (k : FileClass) (n : Fin bodyLayout.length) : Nat :=
  identSize + Layout.size k (bodyLayout.take n)

/-- How many bytes number `n` takes. -/
def fieldWidth (k : FileClass) (n : Fin bodyLayout.length) : Nat := bodyLayout[n].size k

example : (List.finRange 13).map (fieldOffset .elf32) =
    [16, 18, 20, 24, 28, 32, 36, 40, 42, 44, 46, 48, 50] := by decide

example : (List.finRange 13).map (fieldOffset .elf64) =
    [16, 18, 20, 24, 32, 40, 48, 52, 54, 56, 58, 60, 62] := by decide

section Grammar

variable (bytes : ByteArray) (format : Format)

/-- Number `n` lies within the bytes. -/
def FieldInside (n : Fin bodyLayout.length) : Prop :=
  fieldOffset format.fileClass n + fieldWidth format.fileClass n ≤ bytes.size

instance (n : Fin bodyLayout.length) : Decidable (FieldInside bytes format n) :=
  inferInstanceAs (Decidable (_ ≤ _))

/-- Number `n` as it is written. -/
def fieldNumber (n : Fin bodyLayout.length) : Nat :=
  format.order.number
    (window bytes (fieldOffset format.fileClass n) (fieldWidth format.fileClass n))

/-- The number that counts the sections. -/
def countField : Fin bodyLayout.length := ⟨11, by decide⟩

/-- The number of the section that holds the section names. -/
def namesField : Fin bodyLayout.length := ⟨12, by decide⟩

/-- What can be wrong with a number. -/
inductive FieldFault : Fin bodyLayout.length → Fault → Prop
  | cut {n : Fin bodyLayout.length} (h : ¬ FieldInside bytes format n) :
    FieldFault n
      (.truncatedInput (fieldOffset format.fileClass n) (fieldWidth format.fileClass n))
  | extendedCount (h : FieldInside bytes format countField)
    (hzero : fieldNumber bytes format countField = 0) :
    FieldFault countField (.unsupportedFeature .extendedSectionCount)
  | extendedIndex (h : FieldInside bytes format namesField)
    (hreserved : fieldNumber bytes format namesField = 0xffff) :
    FieldFault namesField (.unsupportedFeature .extendedStringIndex)

/-- Why bytes do not start with a header. Each fault is that of the first thing that is wrong. -/
inductive Rejects : Fault → Prop
  | noMagic (h : bytes.size < 4) : Rejects (.truncatedInput 0 4)
  | badMagic (h : 4 ≤ bytes.size) (hmagic : window bytes 0 4 ≠ [0x7f, 0x45, 0x4c, 0x46]) :
    Rejects (.malformedHeader (.badMagic (window bytes 0 4)))
  | noIdent (h : bytes.size < 16) (hmagic : window bytes 0 4 = [0x7f, 0x45, 0x4c, 0x46]) :
    Rejects (.truncatedInput 0 16)
  | badClass (h : 16 ≤ bytes.size) (hmagic : window bytes 0 4 = [0x7f, 0x45, 0x4c, 0x46])
    (hclass : byteAt bytes 4 ∉ [1, 2]) :
    Rejects (.malformedHeader (.badClass (byteAt bytes 4)))
  | badEncoding (h : 16 ≤ bytes.size) (hmagic : window bytes 0 4 = [0x7f, 0x45, 0x4c, 0x46])
    (hclass : byteAt bytes 4 ∈ [1, 2]) (horder : byteAt bytes 5 ∉ [1, 2]) :
    Rejects (.malformedHeader (.badEncoding (byteAt bytes 5)))
  | badVersion (h : 16 ≤ bytes.size) (hmagic : window bytes 0 4 = [0x7f, 0x45, 0x4c, 0x46])
    (hclass : byteAt bytes 4 ∈ [1, 2]) (horder : byteAt bytes 5 ∈ [1, 2])
    (hversion : byteAt bytes 6 ≠ 1) :
    Rejects (.malformedHeader (.badVersion (byteAt bytes 6)))
  | field {format : Format} (h : Identifies bytes format) {n : Fin bodyLayout.length}
    {fault : Fault} (hn : FieldFault bytes format n fault)
    (hfirst : ∀ m < n, ∀ earlier, ¬ FieldFault bytes format m earlier) : Rejects fault

/-- The bytes start with the header `h`. -/
structure Accepts (h : Header) : Prop where
  identifies : Identifies bytes h.format
  faultless : ∀ n fault, ¬ FieldFault bytes h.format n fault
  size_le : size h.format.fileClass ≤ bytes.size
  osAbi : h.osAbi = (byteAt bytes 7).toNat
  abiVersion : h.abiVersion = (byteAt bytes 8).toNat
  fits : h.Fits
  written : Fields.encode h.format bodyLayout h.body =
    window bytes 16 (size h.format.fileClass - 16)

end Grammar

example : size .elf32 = 52 ∧ size .elf64 = 64 := by decide

/-! ## The identification block -/

variable {bytes : ByteArray} {format : Format} {fault : Fault}

theorem fileClass_ofMark?_eq_none {b : UInt8} (h : b ∉ [1, 2]) : FileClass.ofMark? b = none := by
  unfold FileClass.ofMark?
  split <;> simp_all

theorem order_ofMark?_eq_none {b : UInt8} (h : b ∉ [1, 2]) : ByteOrder.ofMark? b = none := by
  unfold ByteOrder.ofMark?
  split <;> simp_all

/-- A byte that marks a class, and as well a byte order. -/
theorem exists_mark {b : UInt8} (h : b ∈ [1, 2]) :
    (∃ k : FileClass, b = k.mark) ∧ ∃ o : ByteOrder, b = o.mark := by
  simp only [List.mem_cons, List.not_mem_nil, or_false] at h
  rcases h with rfl | rfl
  · exact ⟨⟨.elf32, rfl⟩, ⟨.lsb, rfl⟩⟩
  · exact ⟨⟨.elf64, rfl⟩, ⟨.msb, rfl⟩⟩

section Ident

variable (h : 16 ≤ bytes.size) (hmagic : window bytes 0 4 = [0x7f, 0x45, 0x4c, 0x46])
include h hmagic

/-- Behind a magic number that is right, the three marks decide. -/
theorem parseIdent_of_magic :
    parseIdent bytes =
      match FileClass.ofMark? (byteAt bytes 4), ByteOrder.ofMark? (byteAt bytes 5) with
      | none, _ => .error (.malformedHeader (.badClass (byteAt bytes 4)))
      | some _, none => .error (.malformedHeader (.badEncoding (byteAt bytes 5)))
      | some k, some o =>
        if byteAt bytes 6 = 1 then .ok ⟨k, o⟩
        else .error (.malformedHeader (.badVersion (byteAt bytes 6))) := by
  have hshort : ¬ bytes.size < magic.length := by simp [magic]; omega
  have hident : ¬ bytes.size < identSize := by simp [identSize]; omega
  have hfound : window bytes 0 magic.length = magic := hmagic
  unfold parseIdent
  simp only [hshort, hident, hfound, ↓reduceIte, ne_eq, not_true_eq_false, currentVersion]
  cases FileClass.ofMark? (byteAt bytes 4) with
  | none => rfl
  | some k =>
    cases ByteOrder.ofMark? (byteAt bytes 5) with
    | none => rfl
    | some o =>
      by_cases hversion : byteAt bytes 6 = 1
      · simp [hversion, pure, Except.pure]
      · simp [hversion]
        rfl

end Ident

theorem Identifies.parseIdent_eq (h : Identifies bytes format) : parseIdent bytes = .ok format := by
  rw [parseIdent_of_magic h.size_le h.magic, h.fileClass, h.order, FileClass.ofMark?_mark,
    ByteOrder.ofMark?_mark]
  exact if_pos h.version

theorem parse_of_parseIdent (h : parseIdent bytes = .error fault) :
    parse bytes = .error fault := by
  rw [parse, h]
  rfl

/-! ## The numbers behind it -/

theorem fieldOffset_succ (k : FileClass) (n : Fin bodyLayout.length)
    (h : n.val + 1 < bodyLayout.length) :
    fieldOffset k ⟨n.val + 1, h⟩ = fieldOffset k n + fieldWidth k n := by
  revert h
  revert n
  cases k <;> decide

/-- The fields before one that is faultless so far lie within the bytes, so it starts there. -/
theorem fieldOffset_le (h : 16 ≤ bytes.size) {n : Fin bodyLayout.length}
    (hbefore : ∀ m < n, FieldInside bytes format m) :
    fieldOffset format.fileClass n ≤ bytes.size := by
  obtain ⟨n, hn⟩ := n
  cases n with
  | zero => exact h
  | succ n =>
    have hlast := hbefore ⟨n, by omega⟩ (Nat.lt_succ_self n)
    rw [fieldOffset_succ format.fileClass ⟨n, by omega⟩ hn]
    exact hlast

/-- The numbers up to the section count, as they are read. -/
def leadOf (bytes : ByteArray) (format : Format) : Fields leadLayout :=
  Fields.decode format leadLayout
    (window bytes identSize (Layout.size format.fileClass leadLayout))

theorem get_leadOf (bytes : ByteArray) (format : Format) :
    Fields.get leadLayout (leadOf bytes format) 11 = fieldNumber bytes format countField := by
  rw [leadOf, Fields.get_decode (w := .half) _ _ _ rfl, window_part]
  · rfl
  · cases format.fileClass <;> decide

/-- The numbers up to the section count end where it does. -/
theorem fieldOffset_lead (k : FileClass) :
    fieldOffset k countField + fieldWidth k countField =
      identSize + Layout.size k leadLayout := by
  cases k <;> decide

theorem fieldWidth_names (k : FileClass) : fieldWidth k namesField = Width.size k .half := by
  cases k <;> rfl

/-- If the section count lies within the bytes, it decides, and then the last number does. -/
theorem parseBody_of_lead (h : FieldInside bytes format countField) :
    parseBody bytes format =
      if fieldNumber bytes format countField = 0 then
        .error (.unsupportedFeature .extendedSectionCount)
      else
        match Fields.read [.half]
            ⟨bytes, format, fieldOffset format.fileClass namesField⟩ with
        | .error fault => .error fault
        | .ok ((names, ()), _) =>
          if names = 0xffff then .error (.unsupportedFeature .extendedStringIndex)
          else
            let (t, m, v, entry, ph, sh, flags, ehsize, phsize, phnum, shsize, shnum, ()) :=
              leadOf bytes format
            .ok (t, m, v, entry, ph, sh, flags, ehsize, phsize, phnum, shsize, shnum, names,
              ()) := by
  have hend : identSize + Layout.size format.fileClass leadLayout ≤ bytes.size := by
    rw [← fieldOffset_lead]
    exact h
  have hlead := Fields.read_of_le leadLayout ⟨bytes, format, identSize⟩ hend
  have hcount := get_leadOf bytes format
  change Fields.read _ _ = .ok (leadOf bytes format, _) at hlead
  rw [parseBody, hlead]
  generalize leadOf bytes format = lead at hcount
  obtain ⟨t, m, v, entry, ph, sh, flags, ehsize, phsize, phnum, shsize, shnum, ⟨⟩⟩ := lead
  rw [← hcount]
  change (if shnum = 0 then _ else _) = (if shnum = 0 then _ else _)
  split
  · rfl
  · have hstart : (⟨bytes, format, identSize + Layout.size format.fileClass leadLayout⟩ : Cursor) =
        ⟨bytes, format, fieldOffset format.fileClass namesField⟩ := rfl
    dsimp only
    rw [hstart]
    generalize Fields.read [.half] ⟨bytes, format, fieldOffset format.fileClass namesField⟩ = last
    rcases last with fault | ⟨⟨names, ⟨⟩⟩, c⟩
    · rfl
    · rfl

/-- A field that is cut off among the numbers before the last one. -/
theorem parseBody_cut {n : Fin bodyLayout.length} (hn : n < namesField)
    (hstart : fieldOffset format.fileClass n ≤ bytes.size)
    (hcut : ¬ FieldInside bytes format n) :
    parseBody bytes format = .error
      (.truncatedInput (fieldOffset format.fileClass n) (fieldWidth format.fileClass n)) := by
  have hlt : n.val < leadLayout.length := hn
  have htake : bodyLayout.take n = leadLayout.take n :=
    List.take_append_of_le_length (Nat.le_of_lt hlt)
  have hget : leadLayout[n.val]? = some bodyLayout[n] := by
    have happend : bodyLayout[n.val]? = leadLayout[n.val]? := List.getElem?_append_left hlt
    rw [← happend]
    exact List.getElem?_eq_getElem n.isLt
  have hread := Fields.read_cut leadLayout ⟨bytes, format, identSize⟩ hget
  rw [← htake] at hread
  rw [parseBody, hread hstart (Nat.lt_of_not_le hcut)]
  rfl

theorem names_read_of_inside (h : FieldInside bytes format namesField) :
    Fields.read [.half] ⟨bytes, format, fieldOffset format.fileClass namesField⟩ =
      .ok ((fieldNumber bytes format namesField, ()),
        ⟨bytes, format, fieldOffset format.fileClass namesField + 2⟩) := by
  have hread := Fields.read_of_le [.half]
    ⟨bytes, format, fieldOffset format.fileClass namesField⟩ h
  have hwindow : (window bytes (fieldOffset format.fileClass namesField) 2).take 2 =
      window bytes (fieldOffset format.fileClass namesField) 2 :=
    List.take_of_length_le (Nat.le_of_eq (window_length h))
  rw [hread]
  change Except.ok ((format.order.number (List.take 2 (window _ _ 2)), ()), _) = _
  rw [hwindow]
  rfl

theorem names_read_of_cut (hcut : ¬ FieldInside bytes format namesField) :
    Fields.read [.half] ⟨bytes, format, fieldOffset format.fileClass namesField⟩ =
      .error (.truncatedInput (fieldOffset format.fileClass namesField)
        (fieldWidth format.fileClass namesField)) := by
  have hpast : bytes.size <
      fieldOffset format.fileClass namesField + Width.size format.fileClass .half := by
    rw [← fieldWidth_names]
    exact Nat.lt_of_not_le hcut
  have htake := Cursor.take_of_lt
    (c := ⟨bytes, format, fieldOffset format.fileClass namesField⟩) hpast
  rw [fieldWidth_names]
  simp only [Fields.read, Cursor.number, htake]

/-- The first fault of a number is the fault of all. -/
theorem parseBody_fault (hsize : 16 ≤ bytes.size) {n : Fin bodyLayout.length}
    (hn : FieldFault bytes format n fault)
    (hfirst : ∀ m < n, ∀ earlier, ¬ FieldFault bytes format m earlier) :
    parseBody bytes format = .error fault := by
  have hinside : ∀ m < n, FieldInside bytes format m := by
    intro m hm
    exact Decidable.byContradiction fun hcut => hfirst m hm _ (.cut hcut)
  -- Behind the section count, that number was there and did not decide.
  have hcount : n = namesField →
      FieldInside bytes format countField ∧ fieldNumber bytes format countField ≠ 0 := by
    rintro rfl
    have hin := hinside countField (by decide)
    exact ⟨hin, fun hzero => hfirst countField (by decide) _ (.extendedCount hin hzero)⟩
  cases hn with
  | cut hcut =>
    by_cases hlead : n < namesField
    · exact parseBody_cut hlead (fieldOffset_le hsize hinside) hcut
    · obtain rfl : n = namesField := by
        have hlt := n.isLt
        ext
        exact Nat.le_antisymm (Nat.le_of_lt_succ hlt) (Nat.le_of_not_lt hlead)
      obtain ⟨hin, hne⟩ := hcount rfl
      rw [parseBody_of_lead hin, if_neg hne, names_read_of_cut hcut]
  | extendedCount hin hzero => rw [parseBody_of_lead hin, if_pos hzero]
  | extendedIndex hin hreserved =>
    obtain ⟨hcounted, hne⟩ := hcount rfl
    rw [parseBody_of_lead hcounted, if_neg hne, names_read_of_inside hin]
    exact if_pos hreserved

/-! ## What is refused and what is read -/

theorem Rejects.parse_eq (h : Rejects bytes fault) : parse bytes = .error fault := by
  cases h with
  | noMagic h =>
    apply parse_of_parseIdent
    exact if_pos h
  | badMagic h hmagic =>
    apply parse_of_parseIdent
    have hshort : ¬ bytes.size < magic.length := Nat.not_lt.2 h
    unfold parseIdent
    rw [if_neg hshort]
    exact if_pos hmagic
  | noIdent h hmagic =>
    apply parse_of_parseIdent
    have hshort : ¬ bytes.size < magic.length := by
      have hlen : (window bytes 0 4).length = magic.length := congrArg List.length hmagic
      have : bytes.data.toList.length = bytes.size := Array.length_toList
      rw [window_eq, List.length_take, List.length_drop] at hlen
      omega
    have hfound : window bytes 0 magic.length = magic := hmagic
    unfold parseIdent
    rw [if_neg hshort, hfound]
    exact if_pos h
  | badClass h hmagic hclass =>
    apply parse_of_parseIdent
    rw [parseIdent_of_magic h hmagic, fileClass_ofMark?_eq_none hclass]
  | badEncoding h hmagic hclass horder =>
    apply parse_of_parseIdent
    obtain ⟨⟨k, hk⟩, -⟩ := exists_mark hclass
    rw [parseIdent_of_magic h hmagic, hk, FileClass.ofMark?_mark, order_ofMark?_eq_none horder]
  | badVersion h hmagic hclass horder hversion =>
    apply parse_of_parseIdent
    obtain ⟨⟨k, hk⟩, -⟩ := exists_mark hclass
    obtain ⟨-, o, ho⟩ := exists_mark horder
    rw [parseIdent_of_magic h hmagic, hk, ho, FileClass.ofMark?_mark, ByteOrder.ofMark?_mark]
    exact if_neg hversion
  | field hident hn hfirst =>
    rw [parse, hident.parseIdent_eq]
    change (parseBody bytes _ >>= _) = _
    rw [parseBody_fault hident.size_le hn hfirst]
    rfl

namespace Accepts

variable {h : Header} (ha : Accepts bytes h)
include ha

theorem inside (n : Fin bodyLayout.length) : FieldInside bytes h.format n :=
  Decidable.byContradiction fun hcut => ha.faultless n _ (.cut hcut)

/-- The written numbers of the header stand at their places. -/
theorem windows :
    window bytes identSize (Layout.size h.format.fileClass leadLayout) =
        Fields.encode h.format leadLayout h.lead ∧
      window bytes (fieldOffset h.format.fileClass namesField) 2 =
        Fields.encode h.format [.half] (h.nameSection, ()) := by
  have hwritten := ha.written
  have hsize : size h.format.fileClass - 16 =
      Layout.size h.format.fileClass leadLayout + 2 := by
    cases h.format.fileClass <;> decide
  rw [hsize, window_add, encode_body] at hwritten
  refine (List.append_inj hwritten.symm ?_)
  rw [Fields.encode_length, window_length]
  exact Nat.le_trans (by cases h.format.fileClass <;> decide) ha.size_le

theorem leadOf_eq : leadOf bytes h.format = h.lead := by
  rw [leadOf, ha.windows.1, Fields.decode_encode _ _ _ ha.fits.lead]

theorem fieldNumber_names : fieldNumber bytes h.format namesField = h.nameSection := by
  have hfit : h.nameSection < 256 ^ 2 := ha.fits.names.1
  have hwindow : window bytes (fieldOffset h.format.fileClass namesField) 2 =
      h.format.order.digits 2 h.nameSection := ha.windows.2.trans (List.append_nil _)
  change h.format.order.number
    (window bytes (fieldOffset h.format.fileClass namesField) 2) = h.nameSection
  rw [hwindow]
  exact number_digits _ _ _ hfit

theorem parse_eq : parse bytes = .ok h := by
  have hcount : fieldNumber bytes h.format countField ≠ 0 := fun hzero =>
    ha.faultless _ _ (.extendedCount (ha.inside _) hzero)
  have hnames : fieldNumber bytes h.format namesField ≠ 0xffff := fun hreserved =>
    ha.faultless _ _ (.extendedIndex (ha.inside _) hreserved)
  have hbody : parseBody bytes h.format = .ok h.body := by
    rw [parseBody_of_lead (ha.inside countField), if_neg hcount,
      names_read_of_inside (ha.inside _), ha.leadOf_eq]
    dsimp only
    rw [if_neg hnames, ha.fieldNumber_names]
    rfl
  rw [parse, ha.identifies.parseIdent_eq]
  change (parseBody bytes h.format >>= _) = _
  rw [hbody]
  change Except.ok _ = Except.ok h
  rw [← ha.osAbi, ← ha.abiVersion]

end Accepts

/-- The header with the given identification and numbers. -/
def ofBody (format : Format) (osAbi abiVersion : Nat) : Fields bodyLayout → Header
  | (objectType, machine, version, entry, segmentTable, sectionTable, flags, headerSize,
      segmentEntrySize, segmentCount, sectionEntrySize, sectionCount, nameSection, ()) =>
    { format, osAbi, abiVersion, objectType, machine, version, entry, segmentTable, sectionTable,
      flags, headerSize, segmentEntrySize, segmentCount, sectionEntrySize, sectionCount,
      nameSection }

theorem exists_accepts (hident : Identifies bytes format)
    (hfaultless : ∀ n fault, ¬ FieldFault bytes format n fault) : ∃ h, Accepts bytes h := by
  have hsize : size format.fileClass ≤ bytes.size := by
    have hlast : FieldInside bytes format namesField :=
      Decidable.byContradiction fun hcut => hfaultless _ _ (.cut hcut)
    exact Nat.le_trans (by cases format.fileClass <;> decide) hlast
  have hlength : (window bytes 16 (size format.fileClass - 16)).length =
      Layout.size format.fileClass bodyLayout := by
    have hsixteen : 16 ≤ size format.fileClass := Nat.le_add_right _ _
    rw [window_length (by omega), size, identSize, Nat.add_sub_cancel_left]
  let h := ofBody format (byteAt bytes 7).toNat (byteAt bytes 8).toNat
    (Fields.decode format bodyLayout (window bytes 16 (size format.fileClass - 16)))
  exact ⟨h, hident, hfaultless, hsize, rfl, rfl, Fields.decode_fit _ _ _,
    Fields.encode_decode _ _ _ hlength⟩

/-- Bytes are refused for the first thing that is wrong, or nothing is. -/
theorem rejects_or_accepts (bytes : ByteArray) :
    (∃ fault, Rejects bytes fault) ∨ ∃ h, Accepts bytes h := by
  by_cases hfour : bytes.size < 4
  · exact .inl ⟨_, .noMagic hfour⟩
  by_cases hmagic : window bytes 0 4 = [0x7f, 0x45, 0x4c, 0x46]
  case neg => exact .inl ⟨_, .badMagic (Nat.le_of_not_lt hfour) hmagic⟩
  by_cases hshort : bytes.size < 16
  · exact .inl ⟨_, .noIdent hshort hmagic⟩
  have hsize := Nat.le_of_not_lt hshort
  by_cases hclass : byteAt bytes 4 ∈ [1, 2]
  case neg => exact .inl ⟨_, .badClass hsize hmagic hclass⟩
  by_cases horder : byteAt bytes 5 ∈ [1, 2]
  case neg => exact .inl ⟨_, .badEncoding hsize hmagic hclass horder⟩
  by_cases hversion : byteAt bytes 6 = 1
  case neg => exact .inl ⟨_, .badVersion hsize hmagic hclass horder hversion⟩
  obtain ⟨⟨k, hk⟩, -⟩ := exists_mark hclass
  obtain ⟨-, o, ho⟩ := exists_mark horder
  have hident : Identifies bytes ⟨k, o⟩ := ⟨hsize, hmagic, hk, ho, hversion⟩
  by_cases hclean : ∃ n fault, FieldFault bytes ⟨k, o⟩ n fault
  · obtain ⟨n, ⟨fault, hn⟩, hleast⟩ :=
      (measure fun n : Fin bodyLayout.length => n.val).wf.has_min
        {n | ∃ fault, FieldFault bytes ⟨k, o⟩ n fault} hclean
    exact .inl ⟨fault, .field hident hn fun m hm earlier hm' => hleast m ⟨earlier, hm'⟩ hm⟩
  · exact .inr (exists_accepts hident fun n fault hn => hclean ⟨n, fault, hn⟩)

/-- A header is read exactly from the bytes that start with one. All other bytes are refused, each
for the first thing that is wrong. -/
theorem parse_grammar (bytes : ByteArray) :
    (∀ fault, parse bytes = .error fault ↔ Rejects bytes fault) ∧
      (∀ h, parse bytes = .ok h ↔ Accepts bytes h) ∧
      ((∃ h, parse bytes = .ok h) ↔ ∀ fault, ¬ Rejects bytes fault) := by
  have herror : ∀ fault, parse bytes = .error fault ↔ Rejects bytes fault := by
    refine fun fault => ⟨fun hparse => ?_, Rejects.parse_eq⟩
    rcases rejects_or_accepts bytes with ⟨other, hother⟩ | ⟨h, ha⟩
    · rw [hother.parse_eq, Except.error.injEq] at hparse
      exact hparse ▸ hother
    · rw [ha.parse_eq] at hparse
      cases hparse
  have hok : ∀ h, parse bytes = .ok h ↔ Accepts bytes h := by
    refine fun h => ⟨fun hparse => ?_, Accepts.parse_eq⟩
    rcases rejects_or_accepts bytes with ⟨fault, hfault⟩ | ⟨other, hother⟩
    · rw [hfault.parse_eq] at hparse
      cases hparse
    · rw [hother.parse_eq, Except.ok.injEq] at hparse
      exact hparse ▸ hother
  refine ⟨herror, hok, ?_⟩
  constructor
  · rintro ⟨h, hparse⟩ fault hfault
    rw [hfault.parse_eq] at hparse
    cases hparse
  · intro hnone
    rcases rejects_or_accepts bytes with ⟨fault, hfault⟩ | ⟨h, ha⟩
    · exact absurd hfault (hnone fault)
    · exact ⟨h, ha.parse_eq⟩

end Header

end ElfInspect
