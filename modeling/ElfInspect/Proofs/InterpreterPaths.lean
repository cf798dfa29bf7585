import ElfInspect.Proofs.SectionScans
import ElfInspect.Proofs.Utf8

/-!
The path of the program interpreter. The first program header that cannot be read or is of the
interpreter's type decides, and those behind it do not matter; a single zero at the end of its
segment is not part of the path: `interpreterPath_decided`.
-/

namespace ElfInspect

/-- What is kept of bytes when a zero at their end, if there is one, is left out. -/
inductive KeepsBeforeZero : List UInt8 → List UInt8 → Prop
  | zero {bs : List UInt8} : KeepsBeforeZero (bs ++ [0]) bs
  | all {bs : List UInt8} (h : bs.getLast? ≠ some 0) : KeepsBeforeZero bs bs

namespace Image

/-- Program header `i` can be read and is not the one of an interpreter. -/
def PassesOver (img : Image) (i : Nat) : Prop := ∃ p, img.segmentAt i = .ok p ∧ p.type ≠ 3

/-- What looking at program header `i` for the path of the interpreter gives. -/
inductive PathTry (img : Image) (i : Nat) : Except Fault (Option String) → Prop
  | unread {fault : Fault} (h : img.segmentAt i = .error fault) : PathTry img i (.error fault)
  | other {p : SegmentEntry} (h : img.segmentAt i = .ok p) (htype : p.type ≠ 3) :
    PathTry img i (.ok none)
  | outside {p : SegmentEntry} {fault : Fault} (h : img.segmentAt i = .ok p) (htype : p.type = 3)
    (hdata : SliceReads img.bytes p.offset p.fileSize (.error fault)) :
    PathTry img i (.error fault)
  | path {p : SegmentEntry} {bs kept : List UInt8} (h : img.segmentAt i = .ok p)
    (htype : p.type = 3) (hdata : SliceReads img.bytes p.offset p.fileSize (.ok bs))
    (hkept : KeepsBeforeZero bs kept) : PathTry img i (.ok (some (lossyText kept)))

/-- Program header `i` is the first one that is not passed over. -/
structure DecidesPath (img : Image) (i : Nat) : Prop where
  lt : i < img.header.segmentCount
  before : ∀ j < i, img.PassesOver j
  here : ¬ img.PassesOver i

/-- Program header `i` is the first one of an interpreter, and those before it can be read. -/
structure HoldsPath (img : Image) (i : Nat) (p : SegmentEntry) : Prop where
  lt : i < img.header.segmentCount
  entry : img.segmentAt i = .ok p
  type : p.type = 3
  before : ∀ j < i, img.PassesOver j

/-- In both images there are the same program headers up to `i`, and the same bytes in the segment
of that one. -/
structure SameUpTo (img img' : Image) (i : Nat) : Prop where
  lt : i < img'.header.segmentCount
  segmentAt : ∀ j ≤ i, img'.segmentAt j = img.segmentAt j
  data : ∀ p, img.segmentAt i = .ok p → p.data img'.bytes = p.data img.bytes

end Image

/-! ## One segment -/

theorem dropFinalZero_keeps (bs : List UInt8) :
    KeepsBeforeZero bs (SegmentEntry.dropFinalZero bs) := by
  unfold SegmentEntry.dropFinalZero
  by_cases h : bs.getLast? = some 0
  · rw [if_pos h]
    obtain ⟨front, rfl⟩ := List.getLast?_eq_some_iff.1 h
    rw [List.dropLast_concat]
    exact .zero
  · rw [if_neg h]
    exact .all h

theorem KeepsBeforeZero.dropFinalZero_eq {bs kept : List UInt8} (h : KeepsBeforeZero bs kept) :
    SegmentEntry.dropFinalZero bs = kept := by
  cases h with
  | zero => rw [SegmentEntry.dropFinalZero, List.getLast?_concat, if_pos rfl, List.dropLast_concat]
  | all h => exact if_neg h

namespace SegmentEntry

variable {p : SegmentEntry} {bytes : ByteArray}

theorem interpreter_of_other (h : p.type ≠ 3) : p.interpreter bytes = .ok none := if_neg h

/-- The path is made of the bytes of the segment. -/
theorem interpreter_of_interp (h : p.type = 3) :
    p.interpreter bytes =
      ((p.data bytes).map (·.data.toList)).map fun bs => some (lossyText (dropFinalZero bs)) := by
  have hinterp : p.type = interp := h
  unfold interpreter
  rw [if_pos hinterp]
  cases p.data bytes <;> rfl

end SegmentEntry

namespace Image

variable {img img' : Image} {i : Nat}

theorem pathTry_iff {r : Except Fault (Option String)} :
    (do (← img.segmentAt i).interpreter img.bytes) = r ↔ img.PathTry i r := by
  constructor
  · rintro rfl
    cases h : img.segmentAt i with
    | error fault => exact .unread h
    | ok p =>
      change img.PathTry i (p.interpreter img.bytes)
      by_cases htype : p.type = 3
      · rw [SegmentEntry.interpreter_of_interp htype]
        have hdata := exists_sliceReads img.bytes p.offset p.fileSize
        rw [SegmentEntry.data]
        cases hread : (slice img.bytes p.offset p.fileSize).map (·.data.toList) with
        | error fault => exact .outside h htype (hread ▸ hdata)
        | ok bs => exact .path h htype (hread ▸ hdata) (dropFinalZero_keeps bs)
      · rw [SegmentEntry.interpreter_of_other htype]
        exact .other h htype
  · intro htry
    cases htry with
    | unread h => rw [h]; rfl
    | other h htype => rw [h]; exact SegmentEntry.interpreter_of_other htype
    | outside h htype hdata =>
      rw [h]
      refine (SegmentEntry.interpreter_of_interp htype).trans ?_
      rw [SegmentEntry.data, slice_eq_iff.2 hdata]
      rfl
    | path h htype hdata hkept =>
      rw [h]
      refine (SegmentEntry.interpreter_of_interp htype).trans ?_
      rw [SegmentEntry.data, slice_eq_iff.2 hdata, ← hkept.dropFinalZero_eq]
      rfl

theorem pathTry_none_iff : img.PathTry i (.ok none) ↔ img.PassesOver i := by
  constructor
  · rintro (_ | ⟨h, htype⟩)
    exact ⟨_, h, htype⟩
  · rintro ⟨p, h, htype⟩
    exact .other h htype

/-! ## The first one that decides -/

theorem interpreterPath_eq_iff {r : Except Fault (Option String)} :
    img.interpreterPath = r ↔ FirstEvent img.PathTry (List.range img.header.segmentCount) r := by
  rw [List.range_eq_range']
  exact firstHit_eq_iff fun i r => pathTry_iff

theorem interpreterPath_eq_none_iff :
    img.interpreterPath = .ok none ↔ ∀ i < img.header.segmentCount, img.PassesOver i := by
  rw [interpreterPath_eq_iff, firstEvent_none_iff]
  simp only [List.mem_range, pathTry_none_iff]

theorem interpreterPath_eq_iff_decided {r : Except Fault (Option String)} (hr : r ≠ .ok none) :
    img.interpreterPath = r ↔
      ∃ i < img.header.segmentCount, img.PathTry i r ∧ ∀ j < i, img.PassesOver j := by
  rw [interpreterPath, firstHit_eq_iff_decided hr]
  simp only [pathTry_iff, pathTry_none_iff, Nat.zero_add, Nat.zero_le, true_and, forall_const]

/-- The first program header that is not passed over decides. -/
theorem DecidesPath.interpreterPath_eq (h : img.DecidesPath i) :
    img.interpreterPath = (do (← img.segmentAt i).interpreter img.bytes) := by
  have hpass := mt (pathTry_iff.trans pathTry_none_iff).1 h.here
  exact (interpreterPath_eq_iff_decided hpass).2 ⟨i, h.lt, pathTry_iff.1 rfl, h.before⟩

theorem DecidesPath.interpreterPath_eq_iff (h : img.DecidesPath i)
    {r : Except Fault (Option String)} : img.interpreterPath = r ↔ img.PathTry i r := by
  rw [h.interpreterPath_eq]
  exact pathTry_iff

theorem HoldsPath.decides {p : SegmentEntry} (h : img.HoldsPath i p) : img.DecidesPath i := by
  refine ⟨h.lt, h.before, ?_⟩
  rintro ⟨q, hq, htype⟩
  obtain rfl := Except.ok.inj (h.entry.symm.trans hq)
  exact htype h.type

/-- A fault is that of a program header, or of the bytes of the first segment of an interpreter. -/
theorem interpreterPath_error_iff {fault : Fault} :
    img.interpreterPath = .error fault ↔
      (∃ i < img.header.segmentCount, img.segmentAt i = .error fault ∧
        ∀ j < i, img.PassesOver j) ∨
      ∃ i p, img.HoldsPath i p ∧ SliceReads img.bytes p.offset p.fileSize (.error fault) := by
  have hfault : (.error fault : Except Fault (Option String)) ≠ .ok none := nofun
  rw [interpreterPath_eq_iff_decided hfault]
  constructor
  · rintro ⟨i, hi, htry, hbefore⟩
    cases htry with
    | unread h => exact .inl ⟨i, hi, h, hbefore⟩
    | outside h htype hdata => exact .inr ⟨i, _, ⟨hi, h, htype, hbefore⟩, hdata⟩
  · rintro (⟨i, hi, h, hbefore⟩ | ⟨i, p, h, hdata⟩)
    · exact ⟨i, hi, .unread h, hbefore⟩
    · exact ⟨i, h.lt, .outside h.entry h.type hdata, h.before⟩

/-- What is behind the one that decides does not matter. -/
theorem DecidesPath.interpreterPath_congr (h : img.DecidesPath i) (hsame : img.SameUpTo img' i) :
    img'.interpreterPath = img.interpreterPath := by
  have hpass (j : Nat) (hle : j ≤ i) : img'.PassesOver j ↔ img.PassesOver j := by
    unfold PassesOver
    rw [hsame.segmentAt j hle]
  have h' : img'.DecidesPath i :=
    ⟨hsame.lt, fun j hlt => (hpass j (Nat.le_of_lt hlt)).2 (h.before j hlt),
      mt (hpass i (Nat.le_refl i)).1 h.here⟩
  rw [h.interpreterPath_eq, h'.interpreterPath_eq, hsame.segmentAt i (Nat.le_refl i)]
  cases hp : img.segmentAt i with
  | error fault => rfl
  | ok p =>
    change p.interpreter img'.bytes = p.interpreter img.bytes
    unfold SegmentEntry.interpreter
    rw [hsame.data p hp]

/-! ## Paths that are written -/

/-- A text that does not end in a zero character is not written with a zero byte at its end. -/
theorem getLast?_toUTF8_ne_zero {text : String} (h : text.toList.getLast? ≠ some '\x00') :
    text.toUTF8.data.toList.getLast? ≠ some 0 := by
  rw [toUTF8_toList]
  rcases List.eq_nil_or_concat' text.toList with hnil | ⟨front, c, hcons⟩
  · rw [hnil]
    exact nofun
  · rw [hcons, List.getLast?_concat] at h
    rw [hcons, List.flatMap_append, List.flatMap_singleton, List.getLast?_append_of_ne_nil _
      (String.utf8EncodeChar_ne_nil)]
    intro hlast
    have hzero := Lossy.eq_zero_of_zero_mem_utf8EncodeChar (List.mem_of_getLast? hlast)
    exact h (by rw [← Char.ofNat_toNat c, hzero])

/-- The path that is written in a segment, with or without a zero at its end, is read back. -/
theorem HoldsPath.interpreterPath_written {p : SegmentEntry} (h : img.HoldsPath i p)
    (hinside : p.offset + p.fileSize ≤ img.bytes.size) {text : String}
    (htext : text.toList.getLast? ≠ some '\x00') {zeros : List UInt8}
    (hzeros : zeros = [] ∨ zeros = [0])
    (hbytes : window img.bytes p.offset p.fileSize = text.toUTF8.data.toList ++ zeros) :
    img.interpreterPath = .ok (some text) := by
  have hdata : SliceReads img.bytes p.offset p.fileSize
      (.ok (text.toUTF8.data.toList ++ zeros)) := hbytes ▸ .whole hinside
  have hkept : KeepsBeforeZero (text.toUTF8.data.toList ++ zeros) text.toUTF8.data.toList := by
    rcases hzeros with rfl | rfl
    · rw [List.append_nil]
      exact .all (getLast?_toUTF8_ne_zero htext)
    · exact .zero
  rw [h.decides.interpreterPath_eq_iff, ← lossyText_toUTF8 text]
  exact .path h.entry h.type hdata hkept

end Image

/-! ## What is looked at -/

theorem Observed.segmentAt_staysIn (img : Image) {p : Slot → Prop} {i : Nat}
    (h : p (.segmentEntry i)) : (segmentAt img i).StaysIn p :=
  staysIn_entry h _ _ _

theorem Observed.interpreterPath_visits {img : Image} {s : Session} (hs : s.Sound img) :
    ∀ v ∈ (interpreterPath img).visits s,
      ∃ i < img.header.segmentCount, (∀ j < i, img.PassesOver j) ∧ v.slot = .segmentEntry i := by
  intro v hv
  let test (i : Nat) : Observed (Option String) := do (← segmentAt img i).interpreter img.bytes
  have hagrees (i : Nat) :
      Agrees img (test i).plain (do (← img.segmentAt i).interpreter img.bytes) :=
    agrees_bind (SessionM.segmentAt_agrees img i) fun p _ => agrees_lift _
  have hstays (i : Nat) : (test i).StaysIn (· = .segmentEntry i) :=
    staysIn_bind (segmentAt_staysIn img rfl) fun p => staysIn_silent _
  obtain ⟨i, -, hlt, hbefore, hslot⟩ := firstHit_visits hagrees hstays hs v hv
  refine ⟨i, by omega, fun j hj => ?_, hslot⟩
  exact Image.pathTry_none_iff.1 (Image.pathTry_iff.1 (hbefore j (Nat.zero_le j) hj))

/-- After any questions, the path of the interpreter is what the first event among the program
headers makes of it, and there is none where all of them are passed over. Nothing behind the one
that decides is looked at, and nothing there matters. A path that is written in the deciding
segment, with or without a zero at its end, is the answer. -/
theorem interpreterPath_decided (img : Image) (asked : List Query) :
    let path := Session.resultAfter img asked (SessionM.interpreterPath img)
    (∀ r, path = r ↔ FirstEvent img.PathTry (List.range img.header.segmentCount) r) ∧
      (path = .ok none ↔ ∀ i < img.header.segmentCount, img.PassesOver i) ∧
      ((Observed.interpreterPath img).plain = SessionM.interpreterPath img ∧
        ∀ v ∈ (Observed.interpreterPath img).visits (Session.after img asked),
          ∃ i < img.header.segmentCount, (∀ j < i, img.PassesOver j) ∧ v.slot = .segmentEntry i) ∧
      (∀ i, img.DecidesPath i → ∀ img' asked', img.SameUpTo img' i →
        Session.resultAfter img' asked' (SessionM.interpreterPath img') = path) ∧
      ∀ i p text zeros, img.HoldsPath i p → p.offset + p.fileSize ≤ img.bytes.size →
        text.toList.getLast? ≠ some '\x00' → zeros = [] ∨ zeros = [0] →
        window img.bytes p.offset p.fileSize = text.toUTF8.data.toList ++ zeros →
        path = .ok (some text) := by
  intro path
  have hpath (img : Image) (asked : List Query) :
      Session.resultAfter img asked (SessionM.interpreterPath img) = img.interpreterPath :=
    (SessionM.interpreterPath_agrees img).resultAfter asked
  simp only [path, hpath]
  exact ⟨fun r => Image.interpreterPath_eq_iff, Image.interpreterPath_eq_none_iff,
    ⟨Observed.interpreterPath_plain img,
      Observed.interpreterPath_visits (Session.after_sound img asked)⟩,
    fun i h img' _ hsame => h.interpreterPath_congr hsame,
    fun i p text zeros h hinside htext hzeros hbytes =>
      h.interpreterPath_written hinside htext hzeros hbytes⟩

end ElfInspect
