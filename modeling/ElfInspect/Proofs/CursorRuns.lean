import ElfInspect.Proofs.Records

/-!
Runs of a cursor. Whether a step succeeds depends on its position and the size of the bytes, and
only a number that is read or a seek within the bytes moves the cursor: `Cursor.Takes`. A number is
the sum of its bytes, each times its place value: `Cursor.run_exact`.
-/

namespace ElfInspect

/-! ## Numbers -/

/-- What byte `k` of a number of `width` bytes is multiplied by. -/
def ByteOrder.placeValue : ByteOrder → Nat → Nat → Nat
  | .lsb, _, k => 256 ^ k
  | .msb, width, k => 256 ^ (width - 1 - k)

/-- The sum of the bytes, each times its place value. -/
def ByteOrder.sumOf (o : ByteOrder) (bs : List UInt8) : Nat :=
  ∑ k ∈ Finset.range bs.length, (bs.getD k 0).toNat * o.placeValue bs.length k

def ByteOrder.reversed : ByteOrder → ByteOrder
  | .lsb => .msb
  | .msb => .lsb

/-- The same class with the other byte order. -/
def Format.reversed (f : Format) : Format := ⟨f.fileClass, f.order.reversed⟩

/-- The number of a kind whose bytes make `n`. Signed ones are in two's complement, and those of the
word size are extended to 64 bits. -/
def NumberKind.valueOf (k : FileClass) (n : Nat) : NumberKind → Int
  | .u8 | .u16 | .u32 | .u64 => n
  | .i32 => (BitVec.ofNat 32 n).toInt
  | .i64 => (BitVec.ofNat 64 n).toInt
  | .word => ((BitVec.ofNat (8 * k.wordSize) n).zeroExtend 64).toNat
  | .sword => ((BitVec.ofNat (8 * k.wordSize) n).signExtend 64).toInt

theorem sumOf_lsb (bs : List UInt8) : ByteOrder.lsb.sumOf bs = ByteOrder.lsb.number bs := by
  induction bs with
  | nil => rfl
  | cons b bs ih =>
    have hrest (k : Nat) : ((b :: bs).getD (k + 1) 0).toNat * 256 ^ (k + 1) =
        256 * ((bs.getD k 0).toNat * 256 ^ k) := by
      rw [List.getD_cons_succ, pow_succ]
      ring
    calc ByteOrder.lsb.sumOf (b :: bs)
        = 256 * ByteOrder.lsb.sumOf bs + b.toNat * 256 ^ 0 := by
          simp only [ByteOrder.sumOf, ByteOrder.placeValue, List.length_cons,
            Finset.sum_range_succ', hrest, ← Finset.mul_sum, List.getD_cons_zero]
      _ = b.toNat + 256 * ByteOrder.lsb.number bs := by rw [ih, pow_zero]; omega
      _ = ByteOrder.lsb.number (b :: bs) := rfl

/-- What is written the other way round comes to the same with the other byte order. -/
theorem sumOf_reverse (o : ByteOrder) (bs : List UInt8) :
    o.reversed.sumOf bs.reverse = o.sumOf bs := by
  unfold ByteOrder.sumOf
  rw [List.length_reverse, ← Finset.sum_range_reflect]
  refine Finset.sum_congr rfl fun k hk => ?_
  have hlt : k < bs.length := Finset.mem_range.1 hk
  have hback : bs.length - 1 - (bs.length - 1 - k) = k := by omega
  have hbyte : bs.reverse.getD (bs.length - 1 - k) 0 = bs.getD k 0 := by
    rw [List.getD_eq_getElem?_getD, List.getElem?_reverse (by omega), hback,
      ← List.getD_eq_getElem?_getD]
  rw [hbyte]
  cases o with
  | lsb => rw [ByteOrder.reversed, ByteOrder.placeValue, ByteOrder.placeValue, hback]
  | msb => rfl

theorem sumOf_eq_number (o : ByteOrder) (bs : List UInt8) : o.sumOf bs = o.number bs := by
  cases o with
  | lsb => exact sumOf_lsb bs
  | msb =>
    have hback := number_reverse bs.reverse
    rw [List.reverse_reverse] at hback
    rw [hback, ← sumOf_lsb]
    exact (sumOf_reverse .msb bs).symm

theorem two_pow_eq (width : Nat) : 2 ^ (8 * width) = 256 ^ width := by
  rw [pow_mul]
  norm_num

theorem signedValue_eq (width n : Nat) :
    signedValue width n = (BitVec.ofNat (8 * width) n).toInt := by
  rw [BitVec.toInt_ofNat', two_pow_eq, signedValue]

/-- What a cursor makes of the bytes of a number is the value of its kind. -/
theorem NumberKind.valueOf_eq (k : FileClass) (kind : NumberKind) {n : Nat}
    (hn : n < 256 ^ kind.width k) :
    (if kind.isSigned then signedValue (kind.width k) n else n) = kind.valueOf k n := by
  have hwide : 8 * k.wordSize ≤ 64 := by cases k <;> decide
  cases kind with
  | u8 | u16 | u32 | u64 => rfl
  | i32 => exact (if_pos rfl).trans (signedValue_eq 4 n)
  | i64 => exact (if_pos rfl).trans (signedValue_eq 8 n)
  | word =>
    have hfits : n < 2 ^ (8 * k.wordSize) := by
      rw [two_pow_eq]
      exact hn
    rw [valueOf, BitVec.toNat_setWidth_of_le hwide, BitVec.toNat_ofNat, Nat.mod_eq_of_lt hfits]
    exact if_neg Bool.false_ne_true
  | sword =>
    rw [valueOf, BitVec.toInt_signExtend_of_le hwide]
    exact (if_pos rfl).trans (signedValue_eq k.wordSize n)

/-! ## What steps yield -/

namespace Cursor

/-- How many bytes a number of the given kind takes. -/
def widthOf (c : Cursor) (kind : NumberKind) : Nat := kind.width c.format.fileClass

/-- The number of the given kind whose bytes come next. -/
def nextValue (c : Cursor) (kind : NumberKind) : Int :=
  kind.valueOf c.format.fileClass (c.format.order.sumOf (window c.bytes c.pos (c.widthOf kind)))

/-- What a step answers, and the cursor after it. -/
inductive Takes (c : Cursor) : Step → Except Fault Yield → Cursor → Prop
  | number {kind : NumberKind} (h : c.pos + c.widthOf kind ≤ c.bytes.size) :
    Takes c (.read kind) (.ok (.number (c.nextValue kind)))
      ⟨c.bytes, c.format, c.pos + c.widthOf kind⟩
  | cut {kind : NumberKind} (h : c.bytes.size < c.pos + c.widthOf kind) :
    Takes c (.read kind) (.error (.truncatedInput c.pos (c.widthOf kind))) c
  | moved {offset : Nat} (h : offset ≤ c.bytes.size) :
    Takes c (.seek offset) (.ok .moved) ⟨c.bytes, c.format, offset⟩
  | behind {offset : Nat} (h : c.bytes.size < offset) :
    Takes c (.seek offset) (.error (.outOfRange offset c.bytes.size)) c
  | bytes {offset length : Nat} {part : ByteArray}
    (h : SliceReads c.bytes offset length (.ok part.data.toList)) :
    Takes c (.slice offset length) (.ok (.bytes part)) c
  | noBytes {offset length : Nat} {fault : Fault}
    (h : SliceReads c.bytes offset length (.error fault)) :
    Takes c (.slice offset length) (.error fault) c

/-- The answers to steps, each taken from where the one before leaves the cursor. -/
inductive Follows : Cursor → List Step → List (Except Fault Yield × Cursor) → Prop
  | nil {c : Cursor} : Follows c [] []
  | cons {c next : Cursor} {s : Step} {answer : Except Fault Yield} {steps : List Step}
    {answers : List (Except Fault Yield × Cursor)} (h : c.Takes s answer next)
    (hrest : Follows next steps answers) : Follows c (s :: steps) ((answer, next) :: answers)

variable {c c' next : Cursor} {kind : NumberKind}

/-! ## One step -/

theorem read_of_le (h : c.pos + c.widthOf kind ≤ c.bytes.size) :
    c.read kind = .ok (c.nextValue kind, ⟨c.bytes, c.format, c.pos + c.widthOf kind⟩) := by
  have hlt := number_lt c.format.order (window c.bytes c.pos (c.widthOf kind))
  rw [window_length h] at hlt
  have hvalue := kind.valueOf_eq c.format.fileClass hlt
  have htake := take_of_le h
  unfold widthOf at *
  simp only [read, number, htake, hvalue, nextValue, sumOf_eq_number, widthOf]

theorem read_of_lt (h : c.bytes.size < c.pos + c.widthOf kind) :
    c.read kind = .error (.truncatedInput c.pos (c.widthOf kind)) := by
  have htake := take_of_lt h
  unfold widthOf at *
  simp only [read, number, htake]

theorem step_takes (c : Cursor) (s : Step) : c.Takes s (c.step s).1 (c.step s).2 := by
  cases s with
  | read kind =>
    by_cases h : c.pos + c.widthOf kind ≤ c.bytes.size
    · rw [step, read_of_le h]
      exact .number h
    · rw [step, read_of_lt (Nat.lt_of_not_le h)]
      exact .cut (Nat.lt_of_not_le h)
  | seek offset =>
    by_cases h : offset ≤ c.bytes.size
    · rw [step, seek_of_le h]
      exact .moved h
    · rw [step, seek_of_lt (Nat.lt_of_not_le h)]
      exact .behind (Nat.lt_of_not_le h)
  | slice offset length =>
    have hreads := exists_sliceReads c.bytes offset length
    rw [step]
    cases hslice : ElfInspect.slice c.bytes offset length with
    | error fault =>
      rw [hslice] at hreads
      exact .noBytes hreads
    | ok part =>
      rw [hslice] at hreads
      exact .bytes hreads

theorem Takes.step_eq {s : Step} {answer : Except Fault Yield} (h : c.Takes s answer next) :
    c.step s = (answer, next) := by
  cases h with
  | number h => rw [step, read_of_le h]
  | cut h => rw [step, read_of_lt h]
  | moved h => rw [step, seek_of_le h]
  | behind h => rw [step, seek_of_lt h]
  | bytes h =>
    obtain ⟨part, hpart, hlist⟩ := map_ok_iff.1 (slice_eq_iff.2 h)
    rw [step, hpart, ByteArray.ext (Array.toList_inj.1 hlist)]
  | noBytes h => rw [step, map_error_iff.1 (slice_eq_iff.2 h)]

/-- A step keeps the position within the bytes. -/
theorem Takes.pos_le {s : Step} {answer : Except Fault Yield} (h : c.Takes s answer next)
    (hpos : c.pos ≤ c.bytes.size) :
    next.bytes = c.bytes ∧ next.format = c.format ∧ next.pos ≤ c.bytes.size := by
  cases h with
  | number h => exact ⟨rfl, rfl, h⟩
  | moved h => exact ⟨rfl, rfl, h⟩
  | cut | behind | bytes | noBytes => exact ⟨rfl, rfl, hpos⟩

/-! ## Runs -/

theorem run_follows (c : Cursor) (steps : List Step) : Follows c steps (c.run steps) := by
  induction steps generalizing c with
  | nil => exact .nil
  | cons s steps ih => exact .cons (c.step_takes s) (ih (c.step s).2)

theorem Follows.run_eq {steps : List Step} {answers : List (Except Fault Yield × Cursor)}
    (h : Follows c steps answers) : c.run steps = answers := by
  induction h with
  | nil => rfl
  | cons hstep _ ih => rw [run, hstep.step_eq, ih]

theorem Follows.pos_le {steps : List Step} {answers : List (Except Fault Yield × Cursor)}
    (h : Follows c steps answers) (hpos : c.pos ≤ c.bytes.size) :
    ∀ answer ∈ answers, answer.2.bytes = c.bytes ∧ answer.2.format = c.format ∧
      answer.2.pos ≤ c.bytes.size := by
  induction h with
  | nil => simp
  | cons hstep _ ih =>
    obtain ⟨hbytes, hformat, hnext⟩ := hstep.pos_le hpos
    rw [hbytes, hformat] at ih
    exact List.forall_mem_cons.2 ⟨⟨hbytes, hformat, hnext⟩, ih hnext⟩

/-! ## The other byte order -/

theorem read_ok_iff {n : Int} :
    (∃ next, c.read kind = .ok (n, next)) ↔
      c.pos + c.widthOf kind ≤ c.bytes.size ∧ c.nextValue kind = n := by
  by_cases h : c.pos + c.widthOf kind ≤ c.bytes.size
  · simp [read_of_le h, h]
  · simp [read_of_lt (Nat.lt_of_not_le h), h]

theorem widthOf_pos (c : Cursor) (kind : NumberKind) : 0 < c.widthOf kind := by
  obtain ⟨bytes, ⟨k, o⟩, pos⟩ := c
  cases kind <;> cases k <;> exact Nat.succ_pos _

/-- A window is as long as asked for exactly where the bytes are all there. -/
theorem window_length_iff {bytes : ByteArray} {offset length : Nat} (hlength : 0 < length) :
    (window bytes offset length).length = length ↔ offset + length ≤ bytes.size := by
  have hsize : bytes.data.toList.length = bytes.size := Array.length_toList
  rw [window_eq, List.length_take, List.length_drop, hsize]
  omega

/-- What stands the other way round is read alike with the other byte order. -/
theorem read_reversed (hformat : c'.format = c.format.reversed)
    (hwindow : window c'.bytes c'.pos (c.widthOf kind) =
      (window c.bytes c.pos (c.widthOf kind)).reverse) {n : Int} :
    (∃ next, c'.read kind = .ok (n, next)) ↔ ∃ next, c.read kind = .ok (n, next) := by
  have hwidth : c'.widthOf kind = c.widthOf kind := by rw [widthOf, hformat]; rfl
  have hvalue : c'.nextValue kind = c.nextValue kind := by
    rw [nextValue, hwidth, hwindow, hformat]
    exact congrArg (kind.valueOf c.format.fileClass ·) (sumOf_reverse c.format.order _)
  rw [read_ok_iff, read_ok_iff, hwidth, hvalue, ← window_length_iff (c.widthOf_pos kind), hwindow,
    List.length_reverse, window_length_iff (c.widthOf_pos kind)]

/-- The answers to steps are just those that their places determine, and no step leaves the bytes.
Numbers that stand the other way round are read alike with the other byte order. -/
theorem run_exact (bytes : ByteArray) (f : Format) (steps : List Step) :
    (∀ answers, (start bytes f).run steps = answers ↔ Follows (start bytes f) steps answers) ∧
      (∀ answer ∈ (start bytes f).run steps,
        answer.2.bytes = bytes ∧ answer.2.format = f ∧ answer.2.pos ≤ bytes.size) ∧
      (∀ k, [NumberKind.u8, .u16, .u32, .u64, .i32, .i64].map (·.width k) = [1, 2, 4, 8, 4, 8]) ∧
      (∀ kind ∈ [NumberKind.word, .sword], kind.width .elf32 = 4 ∧ kind.width .elf64 = 8) ∧
      ∀ (c c' : Cursor) (kind : NumberKind) (n : Int), c'.format = c.format.reversed →
        window c'.bytes c'.pos (c.widthOf kind) =
          (window c.bytes c.pos (c.widthOf kind)).reverse →
        ((∃ next, c'.read kind = .ok (n, next)) ↔ ∃ next, c.read kind = .ok (n, next)) := by
  have hfollows := (start bytes f).run_follows steps
  refine ⟨fun answers => ⟨?_, Follows.run_eq⟩, hfollows.pos_le (Nat.zero_le _), fun k => rfl, ?_,
    fun c c' kind n hformat hwindow => read_reversed hformat hwindow⟩
  · rintro rfl
    exact hfollows
  · decide

end Cursor

end ElfInspect
