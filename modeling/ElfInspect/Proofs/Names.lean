import ElfInspect.Proofs.Records
import ElfInspect.Proofs.Reports
import ElfInspect.Proofs.Utf8

/-!
Where names come from. A section has its name from the table that the header points to, a symbol
from the table that its own table links to. A name ends at a zero byte or with its table, whatever
the file holds behind that: `names_resolved`.
-/

namespace ElfInspect

variable {img : Image} {i j table offset : Nat}

/-! ## Strings of a table -/

/-- What a lookup in a table of the given bytes gives. -/
inductive NameReads (data : List UInt8) (offset : Nat) : Except Fault String → Prop
  | behind (h : data.length ≤ offset) :
    NameReads data offset (.error (.outOfRange offset data.length))
  | found {before name rest : List UInt8} (hdata : data = before ++ (name ++ rest))
    (hbefore : before.length = offset) (hinside : offset < data.length) (hname : 0 ∉ name)
    (hrest : rest = [] ∨ rest.head? = some 0) : NameReads data offset (.ok (lossyText name))

theorem takeWhile_eq_of_end {name rest : List UInt8} (hname : 0 ∉ name)
    (hrest : rest = [] ∨ rest.head? = some 0) : (name ++ rest).takeWhile (· ≠ 0) = name := by
  have hin : ∀ b ∈ name, decide (b ≠ 0) = true := fun b hb =>
    decide_eq_true fun h => hname (h ▸ hb)
  rw [List.takeWhile_append_of_pos hin]
  rcases hrest with rfl | hzero
  · rw [List.takeWhile_nil, List.append_nil]
  · cases rest with
    | nil => rw [List.takeWhile_nil, List.append_nil]
    | cons b rest =>
      obtain rfl : b = 0 := Option.some.inj hzero
      rw [List.takeWhile_cons_of_neg (by decide), List.append_nil]

theorem takeWhile_end (bs : List UInt8) :
    ∃ name rest, bs = name ++ rest ∧ bs.takeWhile (· ≠ 0) = name ∧ 0 ∉ name ∧
      (rest = [] ∨ rest.head? = some 0) := by
  refine ⟨bs.takeWhile (· ≠ 0), bs.dropWhile (· ≠ 0), List.takeWhile_append_dropWhile.symm, rfl,
    fun hzero => ?_, ?_⟩
  · have := List.mem_takeWhile_imp hzero
    simp at this
  · cases hrest : bs.dropWhile (· ≠ 0) with
    | nil => exact .inl rfl
    | cons b rest =>
      have hstop := List.head?_dropWhile_not (· ≠ 0) bs
      rw [hrest] at hstop
      right
      simpa using hstop

/-- A lookup reads up to a zero byte or to the end of the table. -/
theorem lookup_eq_iff {part : ByteArray} {r : Except Fault String} :
    (⟨part⟩ : StringTable).lookup offset = r ↔ NameReads part.data.toList offset r := by
  have hlength : part.data.toList.length = part.size := Array.length_toList
  have hlookup : (⟨part⟩ : StringTable).lookup offset =
      if offset < part.size then .ok (lossyText ((part.data.toList.drop offset).takeWhile (· ≠ 0)))
      else .error (.outOfRange offset part.size) := by
    rw [← untilZero_eq]
    rfl
  rw [hlookup]
  constructor
  · rintro rfl
    by_cases h : offset < part.size
    · obtain ⟨name, rest, hdrop, htake, hname, hrest⟩ :=
        takeWhile_end (part.data.toList.drop offset)
      have hsplit : part.data.toList = part.data.toList.take offset ++ (name ++ rest) := by
        rw [← hdrop, List.take_append_drop]
      have hbefore : (part.data.toList.take offset).length = offset := by
        rw [List.length_take, hlength]
        omega
      rw [if_pos h, htake]
      exact .found hsplit hbefore (hlength ▸ h) hname hrest
    · rw [if_neg h, ← hlength]
      exact .behind (by omega)
  · intro h
    cases h with
    | behind h => rw [if_neg (by omega), hlength]
    | found hdata hbefore hinside hname hrest =>
      rw [if_pos (by omega), hdata, ← hbefore, List.drop_left, takeWhile_eq_of_end hname hrest]

theorem NameReads.zero_free {data : List UInt8} {text : String}
    (h : NameReads data offset (.ok text)) : '\x00' ∉ text.toList := by
  cases h with
  | found _ _ _ hname _ => exact lossyText_zero_free hname

/-! ## Tables -/

namespace SectionEntry

/-- What reading the bytes of a section gives. -/
inductive DataReads (t : SectionEntry) (bytes : ByteArray) : Except Fault (List UInt8) → Prop
  | unstored (htype : t.type = nobits) : DataReads t bytes (.ok [])
  | outside (htype : t.type ≠ nobits) (hstart : bytes.size < t.offset) :
    DataReads t bytes (.error (.outOfRange t.offset bytes.size))
  | cut (htype : t.type ≠ nobits) (hstart : t.offset ≤ bytes.size)
    (hend : bytes.size < t.offset + t.size) :
    DataReads t bytes (.error (.truncatedInput t.offset t.size))
  | stored (htype : t.type ≠ nobits) (hend : t.offset + t.size ≤ bytes.size) :
    DataReads t bytes (.ok (window bytes t.offset t.size))

/-- How many bytes of the file a section has. -/
def fileSize (t : SectionEntry) : Nat := if t.type = nobits then 0 else t.size

variable {t : SectionEntry} {bytes : ByteArray}

theorem dataReads_iff_of_nobits (htype : t.type = nobits) {r : Except Fault (List UInt8)} :
    t.DataReads bytes r ↔ .ok [] = r := by
  constructor
  · rintro (_ | ⟨hstored, -⟩ | ⟨hstored, -, -⟩ | ⟨hstored, -⟩)
    · rfl
    all_goals exact absurd htype hstored
  · rintro rfl
    exact .unstored htype

/-- The bytes of a section that has some are read like any part of the file. -/
theorem dataReads_iff_sliceReads (htype : t.type ≠ nobits) {r : Except Fault (List UInt8)} :
    t.DataReads bytes r ↔ SliceReads bytes t.offset t.size r := by
  constructor
  · intro h
    cases h with
    | unstored hnone => exact absurd hnone htype
    | outside _ hstart => exact .behind hstart
    | cut _ hstart hend => exact .cut hstart hend
    | stored _ hend => exact .whole hend
  · intro h
    cases h with
    | behind hstart => exact .outside htype hstart
    | cut hstart hend => exact .cut htype hstart hend
    | whole hend => exact .stored htype hend

theorem data_eq_iff {r : Except Fault (List UInt8)} :
    (t.data bytes).map (·.data.toList) = r ↔ t.DataReads bytes r := by
  by_cases htype : t.type = nobits
  · have hdata : t.data bytes = .ok .empty := if_pos htype
    rw [hdata, dataReads_iff_of_nobits htype]
    rfl
  · have hdata : t.data bytes = slice bytes t.offset t.size := if_neg htype
    rw [hdata, slice_eq_iff, dataReads_iff_sliceReads htype]

/-- There is one outcome of reading the bytes of a section. -/
theorem DataReads.unique {r r' : Except Fault (List UInt8)} (h : t.DataReads bytes r)
    (h' : t.DataReads bytes r') : r = r' :=
  (data_eq_iff.2 h).symm.trans (data_eq_iff.2 h')

theorem data_error_iff {fault : Fault} :
    t.data bytes = .error fault ↔ t.DataReads bytes (.error fault) := by
  rw [← data_eq_iff, map_error_iff]

theorem data_ok_iff {data : List UInt8} :
    (∃ part, t.data bytes = .ok part ∧ part.data.toList = data) ↔ t.DataReads bytes (.ok data) := by
  rw [← data_eq_iff, map_ok_iff]

theorem DataReads.length {part : List UInt8} (h : t.DataReads bytes (.ok part)) :
    part.length = t.fileSize := by
  cases h with
  | unstored htype => exact (if_pos htype).symm
  | stored htype hend => exact (window_length hend).trans (if_neg htype).symm

theorem dataReads_error_iff :
    (∃ fault, t.DataReads bytes (.error fault)) ↔
      t.type ≠ nobits ∧ bytes.size < t.offset + t.size := by
  by_cases htype : t.type = nobits
  · have hread (fault : Fault) : ¬ t.DataReads bytes (.error fault) :=
      mt (dataReads_iff_of_nobits htype).1 nofun
    exact iff_of_false (fun ⟨fault, h⟩ => hread fault h) fun h => h.1 htype
  · simp only [dataReads_iff_sliceReads htype, sliceReads_error_iff, htype, ne_eq,
      not_false_eq_true, true_and]

end SectionEntry

namespace Image

/-- What looking up a name in the table that is section `table` gives. -/
inductive TableName (img : Image) (table offset : Nat) : Except Fault String → Prop
  | unread {fault : Fault} (h : img.sectionAt table = .error fault) :
    TableName img table offset (.error fault)
  | lost {t : SectionEntry} {fault : Fault} (h : img.sectionAt table = .ok t)
    (hdata : t.DataReads img.bytes (.error fault)) : TableName img table offset (.error fault)
  | looked {t : SectionEntry} {data : List UInt8} {r : Except Fault String}
    (h : img.sectionAt table = .ok t) (hdata : t.DataReads img.bytes (.ok data))
    (hname : NameReads data offset r) : TableName img table offset r

/-- What the name of section `i` is. -/
inductive NamesSection (img : Image) (i : Nat) : Except Fault String → Prop
  | unread {fault : Fault} (h : img.sectionAt i = .error fault) :
    NamesSection img i (.error fault)
  | nameless {s : SectionEntry} (h : img.sectionAt i = .ok s)
    (htable : img.header.nameSection = 0) : NamesSection img i (.ok "")
  | named {s : SectionEntry} {r : Except Fault String} (h : img.sectionAt i = .ok s)
    (htable : img.header.nameSection ≠ 0) (hr : img.TableName img.header.nameSection s.name r) :
    NamesSection img i r

/-- What the name of symbol `j` of section `i` is. -/
inductive NamesSymbol (img : Image) (i j : Nat) : Except Fault String → Prop
  | unread {fault : Fault} (h : img.symbolAt i j = .error fault) :
    NamesSymbol img i j (.error fault)
  | named {s : SectionEntry} {symbol : SymbolEntry} {r : Except Fault String}
    (h : img.sectionAt i = .ok s) (hsymbol : img.symbolAt i j = .ok symbol)
    (hr : img.TableName s.link symbol.name r) : NamesSymbol img i j r

variable {r : Except Fault String}

theorem TableName.lookup_eq (h : img.TableName table offset r) :
    (do (← img.stringTable table).lookup offset) = r := by
  cases h with
  | unread h =>
    rw [stringTable, h]
    rfl
  | lost h hdata =>
    rw [stringTable, h]
    change ((SectionEntry.data _ _ >>= _) >>= _) = _
    rw [SectionEntry.data_error_iff.2 hdata]
    rfl
  | looked h hdata hname =>
    obtain ⟨part, hpart, rfl⟩ := SectionEntry.data_ok_iff.2 hdata
    rw [stringTable, h]
    change ((SectionEntry.data _ _ >>= _) >>= _) = _
    rw [hpart]
    exact lookup_eq_iff.2 hname

theorem exists_tableName (img : Image) (table offset : Nat) :
    ∃ r, img.TableName table offset r := by
  cases hs : img.sectionAt table with
  | error fault => exact ⟨_, .unread hs⟩
  | ok t =>
    cases hdata : t.data img.bytes with
    | error fault => exact ⟨_, .lost hs (SectionEntry.data_error_iff.1 hdata)⟩
    | ok part =>
      exact ⟨_, .looked hs (SectionEntry.data_ok_iff.1 ⟨part, hdata, rfl⟩) (lookup_eq_iff.1 rfl)⟩

theorem tableName_iff :
    (do (← img.stringTable table).lookup offset) = r ↔ img.TableName table offset r := by
  refine ⟨?_, TableName.lookup_eq⟩
  rintro rfl
  obtain ⟨r, hr⟩ := img.exists_tableName table offset
  rwa [hr.lookup_eq]

/-- No name is found exactly where the table is not there or the offset is not in it. -/
theorem tableName_error_iff :
    (∃ fault, img.TableName table offset (.error fault)) ↔
      (∃ fault, img.sectionAt table = .error fault) ∨
        ∃ t, img.sectionAt table = .ok t ∧
          (t.type ≠ SectionEntry.nobits ∧ img.bytes.size < t.offset + t.size ∨
            t.fileSize ≤ offset) := by
  constructor
  · rintro ⟨fault, h⟩
    cases h with
    | unread h => exact .inl ⟨fault, h⟩
    | lost h hdata => exact .inr ⟨_, h, .inl (SectionEntry.dataReads_error_iff.1 ⟨fault, hdata⟩)⟩
    | looked h hdata hname =>
      cases hname with
      | behind hbehind => exact .inr ⟨_, h, .inr (hdata.length ▸ hbehind)⟩
  · rintro (⟨fault, h⟩ | ⟨t, h, hout⟩)
    · exact ⟨fault, .unread h⟩
    cases hdata : t.data img.bytes with
    | error fault => exact ⟨fault, .lost h (SectionEntry.data_error_iff.1 hdata)⟩
    | ok part =>
      have hreads := SectionEntry.data_ok_iff.1 ⟨part, hdata, rfl⟩
      rcases hout with hlost | hbehind
      · obtain ⟨fault, hfault⟩ := SectionEntry.dataReads_error_iff.2 hlost
        cases hfault.unique hreads
      · exact ⟨_, .looked h hreads (.behind (hreads.length.symm ▸ hbehind))⟩

theorem TableName.zero_free {text : String} (h : img.TableName table offset (.ok text)) :
    '\x00' ∉ text.toList := by
  cases h with
  | looked _ _ hname => exact hname.zero_free

/-! ## Sections and symbols -/

theorem sectionName_iff : img.sectionName i = r ↔ img.NamesSection i r := by
  unfold sectionName nameTable
  constructor
  · rintro rfl
    cases hs : img.sectionAt i with
    | error fault => exact .unread hs
    | ok s =>
      by_cases htable : img.header.nameSection = 0
      · rw [if_pos htable]
        exact .nameless hs htable
      · rw [if_neg htable]
        refine .named hs htable (tableName_iff.1 ?_)
        cases img.stringTable img.header.nameSection <;> rfl
  · intro h
    cases h with
    | unread h =>
      rw [h]
      rfl
    | nameless h htable =>
      rw [h, if_pos htable]
      rfl
    | named h htable hr =>
      rw [h, if_neg htable, ← tableName_iff.2 hr]
      cases img.stringTable img.header.nameSection <;> rfl

theorem symbolName_iff : img.symbolName i j = r ↔ img.NamesSymbol i j r := by
  unfold symbolName
  constructor
  · rintro rfl
    cases hs : img.sectionAt i with
    | error fault => exact .unread (by rw [symbolAt, hs]; rfl)
    | ok s =>
      cases hsymbol : img.symbolAt i j with
      | error fault => exact .unread hsymbol
      | ok symbol => exact .named hs hsymbol (tableName_iff.1 rfl)
  · intro h
    cases h with
    | unread h =>
      cases hs : img.sectionAt i with
      | error fault =>
        rw [symbolAt, hs] at h
        cases h
        rfl
      | ok s =>
        rw [h]
        rfl
    | named h hsymbol hr =>
      rw [h, hsymbol]
      exact tableName_iff.2 hr

theorem NamesSection.zero_free {text : String} (h : img.NamesSection i (.ok text)) :
    '\x00' ∉ text.toList := by
  cases h with
  | nameless => exact List.not_mem_nil
  | named _ _ hr => exact hr.zero_free

theorem NamesSymbol.zero_free {text : String} (h : img.NamesSymbol i j (.ok text)) :
    '\x00' ∉ text.toList := by
  cases h with
  | named _ _ hr => exact hr.zero_free

end Image

/-- Whatever has been asked before, names come from the right table: that of the header for
sections, that of their own table's link for symbols. A table gives no name only where it is not in
the file or the offset is not in it. Names are free of zero characters, and what is UTF-8 is not
changed. -/
theorem names_resolved (img : Image) (asked : List Query) :
    let ofSection (i : Nat) := Session.resultAfter img asked (SessionM.sectionName img i)
    let ofSymbol (i j : Nat) := Session.resultAfter img asked (SessionM.symbolName img i j)
    (∀ i r, ofSection i = r ↔ img.NamesSection i r) ∧
      (∀ i j r, ofSymbol i j = r ↔ img.NamesSymbol i j r) ∧
      (∀ table offset, (∃ fault, img.TableName table offset (.error fault)) ↔
        (∃ fault, img.sectionAt table = .error fault) ∨
          ∃ t, img.sectionAt table = .ok t ∧
            (t.type ≠ SectionEntry.nobits ∧ img.bytes.size < t.offset + t.size ∨
              t.fileSize ≤ offset)) ∧
      (∀ i text, ofSection i = .ok text → '\x00' ∉ text.toList) ∧
      (∀ i j text, ofSymbol i j = .ok text → '\x00' ∉ text.toList) ∧
      ∀ text : String, lossyText text.toUTF8.data.toList = text := by
  intro ofSection ofSymbol
  have hsection (i : Nat) (r : Except Fault String) : ofSection i = r ↔ img.NamesSection i r := by
    rw [← Image.sectionName_iff, ← (SessionM.sectionName_agrees img i).resultAfter asked]
  have hsymbol (i j : Nat) (r : Except Fault String) :
      ofSymbol i j = r ↔ img.NamesSymbol i j r := by
    rw [← Image.symbolName_iff, ← (SessionM.symbolName_agrees img i j).resultAfter asked]
  exact ⟨hsection, hsymbol, fun _ _ => Image.tableName_error_iff,
    fun i text h => ((hsection i _).1 h).zero_free,
    fun i j text h => ((hsymbol i j _).1 h).zero_free, lossyText_toUTF8⟩

end ElfInspect
