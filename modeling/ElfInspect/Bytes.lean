import ElfInspect.Format

/-!
Windows of a byte sequence and the numbers written in them. `ByteOrder.number` reads what
`ByteOrder.digits` writes, and the other way round.
-/

namespace ElfInspect

-- Other libraries have instances of their own for these two; this one keeps to the language's.
instance decidableEqBytes : DecidableEq ByteArray := ByteArray.instDecidableEq

local instance powNumbers : Pow Nat Nat := instPowNat

/-- The `length` bytes from `offset` on; fewer where `bytes` ends before. -/
def window (bytes : ByteArray) (offset length : Nat) : List UInt8 :=
  (bytes.extract offset (offset + length)).data.toList

/-- The number whose digits to the base 256 are the given bytes. -/
def ByteOrder.number : ByteOrder → List UInt8 → Nat
  | .lsb, bs => bs.foldr (fun b n => b.toNat + 256 * n) 0
  | .msb, bs => bs.foldl (fun n b => 256 * n + b.toNat) 0

/-- The low `width` digits of `n` to the base 256, least significant first. -/
def lowDigits : Nat → Nat → List UInt8
  | 0, _ => []
  | width + 1, n => UInt8.ofNat n :: lowDigits width (n / 256)

def ByteOrder.digits : ByteOrder → Nat → Nat → List UInt8
  | .lsb, width, n => lowDigits width n
  | .msb, width, n => (lowDigits width n).reverse

/-- The two's-complement value of an unsigned number of `width` bytes. -/
def signedValue (width n : Nat) : Int := Int.bmod n (256 ^ width)

theorem window_eq (bytes : ByteArray) (offset length : Nat) :
    window bytes offset length = (bytes.data.toList.drop offset).take length := by
  simp [window, ByteArray.data_extract, Array.toList_extract]

theorem window_length {bytes : ByteArray} {offset length : Nat}
    (h : offset + length ≤ bytes.size) : (window bytes offset length).length = length := by
  have : bytes.data.toList.length = bytes.size := Array.length_toList
  rw [window_eq, List.length_take, List.length_drop]
  omega

theorem lowDigits_length (width n : Nat) : (lowDigits width n).length = width := by
  induction width generalizing n with
  | zero => rfl
  | succ width ih => simp [lowDigits, ih]

theorem digits_length (o : ByteOrder) (width n : Nat) : (o.digits width n).length = width := by
  cases o <;> simp [ByteOrder.digits, lowDigits_length]

theorem number_lsb_lowDigits (width n : Nat) (h : n < 256 ^ width) :
    ByteOrder.lsb.number (lowDigits width n) = n := by
  induction width generalizing n with
  | zero => simp [lowDigits, ByteOrder.number]; omega
  | succ width ih =>
    have hq : n / 256 < 256 ^ width := by rw [Nat.pow_succ] at h; omega
    have := ih (n / 256) hq
    simp only [ByteOrder.number, lowDigits, List.foldr_cons, UInt8.toNat_ofNat'] at *
    omega

theorem number_reverse (bs : List UInt8) :
    ByteOrder.msb.number bs.reverse = ByteOrder.lsb.number bs := by
  simp only [ByteOrder.number, List.foldl_reverse]
  congr 1
  funext b n
  omega

theorem number_digits (o : ByteOrder) (width n : Nat) (h : n < 256 ^ width) :
    o.number (o.digits width n) = n := by
  cases o with
  | lsb => exact number_lsb_lowDigits width n h
  | msb => rw [ByteOrder.digits, number_reverse, number_lsb_lowDigits width n h]

theorem number_lsb_lt (bs : List UInt8) : ByteOrder.lsb.number bs < 256 ^ bs.length := by
  induction bs with
  | nil => simp [ByteOrder.number]
  | cons b bs ih =>
    have hb : b.toNat < 256 := b.toNat_lt
    simp only [ByteOrder.number, List.foldr_cons, List.length_cons, Nat.pow_succ] at ih ⊢
    omega

theorem lowDigits_number (bs : List UInt8) :
    lowDigits bs.length (ByteOrder.lsb.number bs) = bs := by
  induction bs with
  | nil => rfl
  | cons b bs ih =>
    have hb : b.toNat < 256 := b.toNat_lt
    have hlow : UInt8.ofNat (b.toNat + 256 * ByteOrder.lsb.number bs) = b := by
      rw [← UInt8.toNat_inj, UInt8.toNat_ofNat']
      omega
    have hhigh : (b.toNat + 256 * ByteOrder.lsb.number bs) / 256 = ByteOrder.lsb.number bs := by
      omega
    change UInt8.ofNat (b.toNat + 256 * ByteOrder.lsb.number bs) ::
      lowDigits bs.length ((b.toNat + 256 * ByteOrder.lsb.number bs) / 256) = b :: bs
    rw [hlow, hhigh, ih]

theorem number_lt (o : ByteOrder) (bs : List UInt8) : o.number bs < 256 ^ bs.length := by
  cases o with
  | lsb => exact number_lsb_lt bs
  | msb =>
    have h := number_lsb_lt bs.reverse
    rwa [← number_reverse, List.reverse_reverse, List.length_reverse] at h

theorem digits_number (o : ByteOrder) (bs : List UInt8) :
    o.digits bs.length (o.number bs) = bs := by
  cases o with
  | lsb => exact lowDigits_number bs
  | msb =>
    have h := lowDigits_number bs.reverse
    rw [← number_reverse, List.reverse_reverse, List.length_reverse] at h
    rw [ByteOrder.digits, h, List.reverse_reverse]

end ElfInspect
