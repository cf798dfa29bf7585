import ElfInspect.Proofs.Placement

/-!
A written header is read back from the start of a file: `Header.parse_encode`.
-/

namespace ElfInspect.Header

/-- The numbers before the index of the section names. -/
def lead (h : Header) : Fields leadLayout :=
  (h.objectType, h.machine, h.version, h.entry, h.segmentTable, h.sectionTable, h.flags,
    h.headerSize, h.segmentEntrySize, h.segmentCount, h.sectionEntrySize, h.sectionCount, ())

theorem encode_body (h : Header) :
    Fields.encode h.format bodyLayout h.body =
      Fields.encode h.format leadLayout h.lead ++
        Fields.encode h.format [.half] (h.nameSection, ()) := by
  simp only [bodyLayout, leadLayout, body, lead, Fields.encode, List.cons_append, List.nil_append,
    List.append_assoc]

theorem Fits.lead {h : Header} (hfits : h.Fits) :
    Fields.Fit h.format.fileClass leadLayout h.lead := by
  obtain ⟨h1, h2, h3, h4, h5, h6, h7, h8, h9, h10, h11, h12, -⟩ := hfits
  exact ⟨h1, h2, h3, h4, h5, h6, h7, h8, h9, h10, h11, h12, trivial⟩

theorem Fits.names {h : Header} (hfits : h.Fits) :
    Fields.Fit h.format.fileClass [.half] (h.nameSection, ()) := by
  obtain ⟨-, -, -, -, -, -, -, -, -, -, -, -, h13, -⟩ := hfits
  exact ⟨h13, trivial⟩

theorem ident_length (h : Header) : h.ident.length = identSize := rfl

theorem encode_length (h : Header) : h.encode.length = size h.format.fileClass := by
  rw [encode, List.length_append, ident_length, Fields.encode_length, size]

theorem byteAt_toByteArray (bs : List UInt8) (i : Nat) :
    byteAt bs.toByteArray i = bs[i]?.getD 0 := by
  rw [byteAt, List.data_toByteArray, Array.getD_eq_getD_getElem?, List.getElem?_toArray]

theorem byteAt_encode (h : Header) (rest : List UInt8) {i : Nat} (hi : i < identSize) :
    byteAt (h.encode ++ rest).toByteArray i = h.ident[i]?.getD 0 := by
  rw [byteAt_toByteArray, encode, List.append_assoc, List.getElem?_append_left hi]

theorem parseIdent_encode (h : Header) (rest : List UInt8) :
    parseIdent (h.encode ++ rest).toByteArray = .ok h.format := by
  have hsize : identSize ≤ (h.encode ++ rest).toByteArray.size := by
    rw [List.size_toByteArray, encode, List.append_assoc, List.length_append, ident_length]
    exact Nat.le_add_right _ _
  have hmagic : window (h.encode ++ rest).toByteArray 0 magic.length = magic := by
    refine HoldsAt.window_eq
      ⟨[], h.ident.drop 4 ++ Fields.encode h.format bodyLayout h.body ++ rest, ?_, rfl⟩
    rfl
  have hclass : byteAt (h.encode ++ rest).toByteArray 4 = h.format.fileClass.mark :=
    h.byteAt_encode rest (by decide)
  have horder : byteAt (h.encode ++ rest).toByteArray 5 = h.format.order.mark :=
    h.byteAt_encode rest (by decide)
  have hversion : byteAt (h.encode ++ rest).toByteArray 6 = currentVersion :=
    h.byteAt_encode rest (by decide)
  rw [parseIdent, hmagic, hclass, horder, hversion, FileClass.ofMark?_mark, ByteOrder.ofMark?_mark,
    if_neg (Nat.not_lt.2 (Nat.le_trans (by decide) hsize))]
  dsimp only
  rw [if_neg (fun hne => hne rfl), if_neg (Nat.not_lt.2 hsize), if_neg (fun hne => hne rfl)]
  rfl

theorem parseBody_encode {h : Header} (hfits : h.Fits) (hcount : h.sectionCount ≠ extendedCount)
    (hnames : h.nameSection ≠ extendedIndex) (rest : List UInt8) :
    parseBody (h.encode ++ rest).toByteArray h.format = .ok h.body := by
  have hlead : HoldsAt (h.encode ++ rest) identSize (Fields.encode h.format leadLayout h.lead) := by
    refine ⟨h.ident, Fields.encode h.format [.half] (h.nameSection, ()) ++ rest, ?_, h.ident_length⟩
    rw [encode, encode_body]
    simp only [List.append_assoc]
  have hlast : HoldsAt (h.encode ++ rest)
      (identSize + Layout.size h.format.fileClass leadLayout)
      (Fields.encode h.format [.half] (h.nameSection, ())) := by
    refine ⟨h.ident ++ Fields.encode h.format leadLayout h.lead, rest, ?_, ?_⟩
    · rw [encode, encode_body]
      simp only [List.append_assoc]
    · rw [List.length_append, h.ident_length, Fields.encode_length]
  rw [parseBody, hlead.read_eq hfits.lead]
  dsimp only [bind, Except.bind, lead]
  rw [if_neg hcount, hlast.read_eq hfits.names]
  exact if_neg hnames

/-- A header that fits its fields is read back from the bytes that start with its written form. -/
theorem parse_encode {h : Header} (hfits : h.Fits) (hos : h.osAbi < 256)
    (habi : h.abiVersion < 256) (hcount : h.sectionCount ≠ extendedCount)
    (hnames : h.nameSection ≠ extendedIndex) (rest : List UInt8) :
    parse (h.encode ++ rest).toByteArray = .ok h := by
  rw [parse, parseIdent_encode]
  change (parseBody _ h.format >>= _) = _
  rw [parseBody_encode hfits hcount hnames]
  have hosAbi : (byteAt (h.encode ++ rest).toByteArray 7).toNat = h.osAbi := by
    rw [h.byteAt_encode rest (by decide)]
    exact UInt8.toNat_ofNat_of_lt' hos
  have habiVersion : (byteAt (h.encode ++ rest).toByteArray 8).toNat = h.abiVersion := by
    rw [h.byteAt_encode rest (by decide)]
    exact UInt8.toNat_ofNat_of_lt' habi
  dsimp only [bind, Except.bind, body]
  rw [hosAbi, habiVersion]
  rfl

end ElfInspect.Header
