import ElfInspect.Bytes
import ElfInspect.Fault

/-!
Reading numbers from a position in a byte sequence. A read that fails moves nothing, because the
new cursor is part of the answer only when there is one.
-/

namespace ElfInspect

structure Cursor where
  bytes : ByteArray
  format : Format
  pos : Nat
  deriving DecidableEq

namespace Cursor

/-- The start of `bytes`. -/
def start (bytes : ByteArray) (format : Format) : Cursor := ⟨bytes, format, 0⟩

/-- The cursor at `offset`; the end of the bytes is still a position. -/
def seek (c : Cursor) (offset : Nat) : Except Fault Cursor :=
  if offset ≤ c.bytes.size then .ok { c with pos := offset }
  else .error (.outOfRange offset c.bytes.size)

/-- The next `n` bytes and the cursor behind them. -/
def take (c : Cursor) (n : Nat) : Except Fault (List UInt8 × Cursor) :=
  if c.pos + n ≤ c.bytes.size then .ok (window c.bytes c.pos n, { c with pos := c.pos + n })
  else .error (.truncatedInput c.pos n)

/-- The next unsigned number of `n` bytes. -/
def number (c : Cursor) (n : Nat) : Except Fault (Nat × Cursor) :=
  match c.take n with
  | .ok (bs, next) => .ok (c.format.order.number bs, next)
  | .error fault => .error fault

theorem seek_of_le {c : Cursor} {offset : Nat} (h : offset ≤ c.bytes.size) :
    c.seek offset = .ok { c with pos := offset } := if_pos h

theorem seek_of_lt {c : Cursor} {offset : Nat} (h : c.bytes.size < offset) :
    c.seek offset = .error (.outOfRange offset c.bytes.size) := if_neg (Nat.not_le.2 h)

theorem take_of_le {c : Cursor} {n : Nat} (h : c.pos + n ≤ c.bytes.size) :
    c.take n = .ok (window c.bytes c.pos n, { c with pos := c.pos + n }) := if_pos h

theorem take_of_lt {c : Cursor} {n : Nat} (h : c.bytes.size < c.pos + n) :
    c.take n = .error (.truncatedInput c.pos n) := if_neg (Nat.not_le.2 h)

end Cursor

/-- The part of `bytes` that starts at `offset` and has `length` bytes. -/
def slice (bytes : ByteArray) (offset length : Nat) : Except Fault ByteArray :=
  if bytes.size < offset then .error (.outOfRange offset bytes.size)
  else if bytes.size < offset + length then .error (.truncatedInput offset length)
  else .ok (bytes.extract offset (offset + length))

/-- The kinds of number that a cursor reads. -/
inductive NumberKind where
  | u8
  | u16
  | u32
  | u64
  | i32
  | i64
  /-- An unsigned number of the class's word size. -/
  | word
  /-- A signed number of the class's word size. -/
  | sword
  deriving DecidableEq, Repr

namespace NumberKind

def width (k : FileClass) : NumberKind → Nat
  | .u8 => 1
  | .u16 => 2
  | .u32 | .i32 => 4
  | .u64 | .i64 => 8
  | .word | .sword => k.wordSize

def isSigned : NumberKind → Bool
  | .i32 | .i64 | .sword => true
  | _ => false

end NumberKind

namespace Cursor

/-- The next number of the given kind. -/
def read (c : Cursor) (kind : NumberKind) : Except Fault (Int × Cursor) :=
  let width := kind.width c.format.fileClass
  match c.number width with
  | .ok (n, next) => .ok (if kind.isSigned then signedValue width n else n, next)
  | .error fault => .error fault

/-- One use of a cursor. -/
inductive Step where
  | read (kind : NumberKind)
  | seek (offset : Nat)
  | slice (offset length : Nat)
  deriving DecidableEq, Repr

/-- What a step yields. -/
inductive Yield where
  | number (value : Int)
  | moved
  | bytes (part : ByteArray)
  deriving DecidableEq

/-- Takes one step; the cursor stays where it is unless a read or a seek succeeds. -/
def step (c : Cursor) : Step → Except Fault Yield × Cursor
  | .read kind =>
    match c.read kind with
    | .ok (n, next) => (.ok (.number n), next)
    | .error fault => (.error fault, c)
  | .seek offset =>
    match c.seek offset with
    | .ok next => (.ok .moved, next)
    | .error fault => (.error fault, c)
  | .slice offset length =>
    (match ElfInspect.slice c.bytes offset length with
      | .ok part => .ok (.bytes part)
      | .error fault => .error fault, c)

/-- Takes the steps in order and keeps each answer with the cursor after it. -/
def run (c : Cursor) : List Step → List (Except Fault Yield × Cursor)
  | [] => []
  | s :: rest =>
    let answer := c.step s
    answer :: run answer.2 rest

/-- The cursor in words: the size of its bytes, their format and the position. -/
def describe (c : Cursor) : String :=
  "ByteReader \x7b len: " ++ toString c.bytes.size ++ ", class: " ++ c.format.fileClass.label ++
    ", encoding: " ++ c.format.order.label ++ ", pos: " ++ toString c.pos ++ " \x7d"

end Cursor

end ElfInspect
