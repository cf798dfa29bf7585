import ElfInspect.Bytes
import ElfInspect.Fault
import ElfInspect.Text.Lossy

/-!
Tables of strings that end in a zero byte. `untilZero_eq` says what a lookup reads: the bytes from
the offset to the next zero or the end of the table, and none behind it.
-/

namespace ElfInspect

/-- The bytes from `offset` up to the first zero byte or the end. -/
def untilZero (bytes : ByteArray) (offset : Nat) : List UInt8 :=
  if h : offset < bytes.size then
    if bytes[offset] = 0 then [] else bytes[offset] :: untilZero bytes (offset + 1)
  else []
termination_by bytes.size - offset

theorem untilZero_eq (bytes : ByteArray) (offset : Nat) :
    untilZero bytes offset = (bytes.data.toList.drop offset).takeWhile (· ≠ 0) := by
  fun_induction untilZero bytes offset with
  | case1 offset h hz =>
    have hl : offset < bytes.data.toList.length := by simpa using h
    rw [List.drop_eq_getElem_cons hl, List.takeWhile_cons]
    have : bytes.data.toList[offset] = 0 := hz
    simp [this]
  | case2 offset h hz ih =>
    have hl : offset < bytes.data.toList.length := by simpa using h
    rw [List.drop_eq_getElem_cons hl, List.takeWhile_cons, ih]
    have hne : ¬ bytes.data.toList[offset] = 0 := hz
    simp only [ne_eq, hne, not_false_eq_true, decide_true, ↓reduceIte]
    rfl
  | case3 offset h =>
    have hl : bytes.data.toList.length ≤ offset := by
      have : bytes.data.toList.length = bytes.size := Array.length_toList
      omega
    simp [List.drop_eq_nil_of_le hl]

structure StringTable where
  bytes : ByteArray
  deriving DecidableEq

namespace StringTable

def size (t : StringTable) : Nat := t.bytes.size

def isEmpty (t : StringTable) : Bool := t.size == 0

/-- The string at `offset`, which may be in the middle of a longer one. -/
def lookup (t : StringTable) (offset : Nat) : Except Fault String :=
  if offset < t.size then .ok (lossyText (untilZero t.bytes offset))
  else .error (.outOfRange offset t.size)

end StringTable

end ElfInspect
