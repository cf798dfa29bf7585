import ElfInspect.Cursor

/-!
Fixed-size records as lists of fields. A kind of record states its fields once per class, in the
order of the file, and one reader and one writer serve all kinds.
-/

namespace ElfInspect

-- The power that `number_lt` speaks of.
attribute [local instance] powNumbers

/-- How wide a field is; an address is as wide as the class's words. -/
inductive Width where
  | byte
  | half
  | word
  | address
  deriving DecidableEq, Repr

def Width.size (k : FileClass) : Width → Nat
  | .byte => 1
  | .half => 2
  | .word => 4
  | .address => k.wordSize

abbrev Layout := List Width

/-- The number of bytes that the fields of a layout take. -/
def Layout.size (k : FileClass) : Layout → Nat
  | [] => 0
  | w :: ws => w.size k + size k ws

/-- One number for each field of a layout. -/
def Fields : Layout → Type
  | [] => Unit
  | _ :: ws => Nat × Fields ws

namespace Fields

/-- Reads the fields one after the other; the first that does not fit decides the fault. -/
def read : (ws : Layout) → Cursor → Except Fault (Fields ws × Cursor)
  | [], c => .ok ((), c)
  | w :: ws, c =>
    match c.number (w.size c.format.fileClass) with
    | .error fault => .error fault
    | .ok (n, next) =>
      match read ws next with
      | .error fault => .error fault
      | .ok (rest, last) => .ok ((n, rest), last)

def encode (format : Format) : (ws : Layout) → Fields ws → List UInt8
  | [], _ => []
  | w :: ws, (n, rest) =>
    format.order.digits (w.size format.fileClass) n ++ encode format ws rest

/-- Every number fits into its field. -/
def Fit (k : FileClass) : (ws : Layout) → Fields ws → Prop
  | [], _ => True
  | w :: ws, (n, rest) => n < 256 ^ w.size k ∧ Fit k ws rest

instance decidableFit (k : FileClass) : (ws : Layout) → (f : Fields ws) → Decidable (Fit k ws f)
  | [], _ => .isTrue trivial
  | w :: ws, (n, rest) =>
    have := decidableFit k ws rest
    inferInstanceAs (Decidable (n < 256 ^ w.size k ∧ Fit k ws rest))

theorem encode_length (format : Format) (ws : Layout) (f : Fields ws) :
    (encode format ws f).length = Layout.size format.fileClass ws := by
  induction ws with
  | nil => rfl
  | cons w ws ih =>
    obtain ⟨n, rest⟩ := f
    simp [encode, Layout.size, digits_length, ih]

end Fields

/-- A kind of record: its fields in file order, and what they mean. -/
class Record (α : Type) where
  layout : FileClass → Layout
  ofFields : (k : FileClass) → Fields (layout k) → α
  toFields : (k : FileClass) → α → Fields (layout k)
  ofFields_toFields : ∀ k a, ofFields k (toFields k a) = a
  toFields_ofFields : ∀ k f, toFields k (ofFields k f) = f

namespace Record

variable {α : Type} [Record α]

/-- The number of bytes of one record. -/
def size (α : Type) [Record α] (k : FileClass) : Nat := (layout α k).size k

/-- The record whose first byte is at `offset`. -/
def decodeAt (bytes : ByteArray) (format : Format) (offset : Nat) : Except Fault α :=
  match (Cursor.start bytes format).seek offset with
  | .error fault => .error fault
  | .ok c =>
    match Fields.read (layout α format.fileClass) c with
    | .error fault => .error fault
    | .ok (f, _) => .ok (ofFields format.fileClass f)

/-- The record's fields fit their widths. -/
def Fits (k : FileClass) (a : α) : Prop := Fields.Fit k (layout α k) (toFields k a)

instance (k : FileClass) (a : α) : Decidable (Fits k a) :=
  inferInstanceAs (Decidable (Fields.Fit k (layout α k) (toFields k a)))

/-- The written form of a record. -/
def encode (format : Format) (a : α) : List UInt8 :=
  Fields.encode format (layout α format.fileClass) (toFields format.fileClass a)

/-- The written form of a record whose numbers fit. -/
def encode? (format : Format) (a : α) : Option (List UInt8) :=
  if Fits format.fileClass a then some (encode format a) else none

theorem encode_length (format : Format) (a : α) :
    (encode format a).length = size α format.fileClass := Fields.encode_length ..

end Record

end ElfInspect
