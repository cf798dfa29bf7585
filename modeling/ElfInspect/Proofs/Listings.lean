import ElfInspect.Proofs.Records
import ElfInspect.Proofs.Reports
import ElfInspect.Proofs.Walks

/-!
Listings of symbols. A listing walks the sections in order and in each wanted table the symbols in
order; it gives one record for each symbol that is selected, or fails for a section, for a symbol of
a wanted table or for the name of what it would show: `selectedRecords_lists`.
-/

namespace ElfInspect

variable {img : Image} {selection : Selection} {demangler : Demangler} {demangle : Bool}

/-! ## What is selected -/

/-- A section like this one is walked: the types 2 and 11 are those of static and of dynamic symbol
tables. -/
def Selection.Walks (selection : Selection) (s : SectionEntry) : Prop :=
  s.type = 2 ∧ .symtab ∈ selection.tables ∨ s.type = 11 ∧ .dynsym ∈ selection.tables

/-- The symbol types that a filter lets pass. -/
inductive TypeFilter.Passes : TypeFilter → Nat → Prop
  | notype : Passes .notype 0
  | object : Passes .object 1
  | func : Passes .func 2
  | sectionSymbol : Passes .sectionSymbol 3
  | file : Passes .file 4
  | tls : Passes .tls 6
  | any (type : Nat) : Passes .any type

/-- The bindings that a filter lets pass. -/
inductive BindingFilter.Passes : BindingFilter → Nat → Prop
  | localSymbol : Passes .localSymbol 0
  | global : Passes .global 1
  | weak : Passes .weak 2
  | any (binding : Nat) : Passes .any binding

/-- The symbol has a type and a binding that pass, the low and the high half of its information
byte. -/
structure Selection.Passes (selection : Selection) (symbol : SymbolEntry) : Prop where
  type : selection.type.Passes (symbol.info % 16)
  binding : selection.binding.Passes (symbol.info / 16)

/-- What a record says for the type that passes, if not all do. -/
def TypeFilter.word? : TypeFilter → Option String
  | .notype => some "NOTYPE"
  | .object => some "OBJECT"
  | .func => some "FUNC"
  | .sectionSymbol => some "SECTION"
  | .file => some "FILE"
  | .tls => some "TLS"
  | .any => none

/-- What a record says for the binding that passes, if not all do. -/
def BindingFilter.word? : BindingFilter → Option String
  | .localSymbol => some "LOCAL"
  | .global => some "GLOBAL"
  | .weak => some "WEAK"
  | .any => none

/-- The record says a type and a binding that pass. -/
def Selection.keeps (selection : Selection) (r : SymbolRecord) : Bool :=
  selection.type.word?.all (· == r.type) && selection.binding.word?.all (· == r.binding)

/-- All symbols of the given tables. -/
def Selection.all (tables : List TableKind) : Selection := ⟨tables, .any, .any⟩

/-- The order of listings: by the table, then by the place in it. -/
def SymbolHit.Before (a b : SymbolHit) : Prop :=
  a.table < b.table ∨ a.table = b.table ∧ a.index < b.index

namespace Image

/-- The symbol is one of a table that is walked, and it has the wanted type and binding. -/
structure Selects (img : Image) (selection : Selection) (hit : SymbolHit) : Prop where
  table : ∃ s, img.sectionAt hit.table = .ok s ∧ selection.Walks s ∧ s.HasEntry hit.index
  entry : img.symbolAt hit.table hit.index = .ok hit.entry
  passes : selection.Passes hit.entry

/-- The record is that of the symbol, with the name of its table. If names are to be made readable,
it has what the demangler makes of the symbol's name, and else that name itself. -/
def Shows (img : Image) (demangler : Demangler) (demangle : Bool) (hit : SymbolHit)
    (r : SymbolRecord) : Prop :=
  ∃ name table, img.symbolName hit.table hit.index = .ok name ∧
    img.sectionName hit.table = .ok table ∧
    r = hit.entry.record (if demangle then demangler name else name) (some table)

/-- What keeps a listing from being made. -/
inductive Hinders (img : Image) (selection : Selection) : Failure → Prop
  | sectionUnread {i : Nat} {fault : Fault} (hi : i < img.header.sectionCount)
    (h : img.sectionAt i = .error fault) : Hinders img selection (.readSection i fault)
  | tableUnnamed {i : Nat} {s : SectionEntry} {fault : Fault} (hs : img.sectionAt i = .ok s)
    (hwalked : selection.Walks s) (h : img.sectionName i = .error fault) :
    Hinders img selection (.nameSection i fault)
  | symbolUnread {i j : Nat} {s : SectionEntry} {table : String} {fault : Fault}
    (hs : img.sectionAt i = .ok s) (hwalked : selection.Walks s)
    (htable : img.sectionName i = .ok table) (hj : s.HasEntry j)
    (h : img.symbolAt i j = .error fault) : Hinders img selection (.readSymbol j table fault)
  | symbolUnnamed {hit : SymbolHit} {fault : Fault} (hselected : img.Selects selection hit)
    (h : img.symbolName hit.table hit.index = .error fault) :
    Hinders img selection (.nameSymbol hit.entry.name fault)

end Image

/-! ## Filters -/

theorem Selection.walks_iff {s : SectionEntry} :
    selection.Walks s ↔ ∃ kind ∈ selection.tables, s.type = kind.sectionType := by
  constructor
  · rintro (⟨htype, hkind⟩ | ⟨htype, hkind⟩)
    · exact ⟨.symtab, hkind, htype⟩
    · exact ⟨.dynsym, hkind, htype⟩
  · rintro ⟨kind, hkind, htype⟩
    cases kind with
    | symtab => exact .inl ⟨htype, hkind⟩
    | dynsym => exact .inr ⟨htype, hkind⟩

theorem Selection.wantsTable_iff {s : SectionEntry} :
    selection.wantsTable s.type = true ↔ selection.Walks s := by
  rw [walks_iff, wantsTable, List.any_eq_true]
  simp only [beq_iff_eq, eq_comm (a := s.type)]

theorem TypeFilter.accepts_iff {f : TypeFilter} {type : Nat} :
    f.accepts type = true ↔ f.Passes type := by
  constructor
  · intro h
    cases f with
    | any => exact .any type
    | _ =>
      obtain rfl := beq_iff_eq.1 h
      constructor
  · rintro ⟨⟩ <;> rfl

theorem BindingFilter.accepts_iff {f : BindingFilter} {binding : Nat} :
    f.accepts binding = true ↔ f.Passes binding := by
  constructor
  · intro h
    cases f with
    | any => exact .any binding
    | _ =>
      obtain rfl := beq_iff_eq.1 h
      constructor
  · rintro ⟨⟩ <;> rfl

theorem Selection.accepts_iff {symbol : SymbolEntry} :
    selection.accepts symbol = true ↔ selection.Passes symbol := by
  rw [accepts, Bool.and_eq_true, TypeFilter.accepts_iff, BindingFilter.accepts_iff]
  exact ⟨fun h => ⟨h.1, h.2⟩, fun h => ⟨h.type, h.binding⟩⟩

theorem Selection.Passes.all (tables : List TableKind) (symbol : SymbolEntry) :
    (Selection.all tables).Passes symbol :=
  ⟨.any _, .any _⟩

/-- The hexadecimal text of a number is no name. -/
theorem hex_ne {n : Nat} {word : String} (hword : word.toList.head? ≠ some '0') :
    hex n ≠ word := by
  rintro rfl
  rw [hex, String.toList_append] at hword
  exact hword rfl

/-- With names that are all different, a text that is a name stands for one code. -/
theorem nameOrHex_eq_iff {name? : Nat → Option String} {names : List String}
    (hnames : ∀ n, name? n = names[n]?) (hdistinct : names.Nodup)
    (hwords : ∀ word ∈ names, word.toList.head? ≠ some '0') {m n : Nat} (hn : n < names.length) :
    nameOrHex name? m = nameOrHex name? n ↔ m = n := by
  refine ⟨fun h => ?_, fun h => h ▸ rfl⟩
  rw [nameOrHex, nameOrHex, hnames, hnames, List.getElem?_eq_getElem hn, Option.getD_some] at h
  by_cases hm : m < names.length
  · rw [List.getElem?_eq_getElem hm, Option.getD_some] at h
    exact (hdistinct.getElem_inj_iff).1 h
  · rw [List.getElem?_eq_none (Nat.le_of_not_lt hm), Option.getD_none] at h
    exact absurd h (hex_ne (hwords _ (List.getElem_mem hn)))

theorem typeName?_eq : ∀ n, SymbolEntry.typeName? n =
    ["NOTYPE", "OBJECT", "FUNC", "SECTION", "FILE", "COMMON", "TLS"][n]?
  | 0 | 1 | 2 | 3 | 4 | 5 | 6 => rfl
  | _ + 7 => rfl

theorem bindingName?_eq : ∀ n, SymbolEntry.bindingName? n = ["LOCAL", "GLOBAL", "WEAK"][n]?
  | 0 | 1 | 2 => rfl
  | _ + 3 => rfl

theorem typeText_eq_iff {f : TypeFilter} {m n : Nat} (hn : f.wanted? = some n) :
    nameOrHex SymbolEntry.typeName? m = nameOrHex SymbolEntry.typeName? n ↔ m = n := by
  refine nameOrHex_eq_iff typeName?_eq (by decide) (by decide) ?_
  cases f <;> cases hn <;> decide

theorem bindingText_eq_iff {f : BindingFilter} {m n : Nat} (hn : f.wanted? = some n) :
    nameOrHex SymbolEntry.bindingName? m = nameOrHex SymbolEntry.bindingName? n ↔ m = n := by
  refine nameOrHex_eq_iff bindingName?_eq (by decide) (by decide) ?_
  cases f <;> cases hn <;> decide

theorem all_text_eq {name? : Nat → Option String} {wanted? : Option Nat} {code : Nat}
    (h : ∀ n, wanted? = some n → (nameOrHex name? code = nameOrHex name? n ↔ code = n)) :
    wanted?.all ((· == nameOrHex name? code) ∘ nameOrHex name?) = wanted?.all (· == code) := by
  cases wanted? with
  | none => rfl
  | some n =>
    rw [Option.all_some, Option.all_some, Function.comp_apply, Bool.eq_iff_iff, beq_iff_eq,
      beq_iff_eq, eq_comm, h n rfl]
    exact eq_comm

theorem TypeFilter.word?_eq (f : TypeFilter) :
    f.word? = f.wanted?.map (nameOrHex SymbolEntry.typeName?) := by
  cases f <;> rfl

theorem BindingFilter.word?_eq (f : BindingFilter) :
    f.word? = f.wanted?.map (nameOrHex SymbolEntry.bindingName?) := by
  cases f <;> rfl

/-- The record of a symbol tells whether the symbol passes. -/
theorem Selection.keeps_record (symbol : SymbolEntry) (name : String) (table : Option String) :
    selection.keeps (symbol.record name table) = selection.accepts symbol := by
  rw [keeps, TypeFilter.word?_eq, BindingFilter.word?_eq, Option.all_map, Option.all_map]
  exact congrArg₂ and (all_text_eq fun _ => typeText_eq_iff)
    (all_text_eq fun _ => bindingText_eq_iff)

/-! ## Records -/

theorem mapError_ok_iff {ε ε' α : Type} {r : Except ε α} {f : ε → ε'} {a : α} :
    r.mapError f = .ok a ↔ r = .ok a := by
  cases r <;> simp [Except.mapError]

theorem mapError_error_iff {ε ε' α : Type} {r : Except ε α} {f : ε → ε'} {e : ε'} :
    r.mapError f = .error e ↔ ∃ fault, r = .error fault ∧ f fault = e := by
  cases r <;> simp [Except.mapError]

theorem Image.recordOf_ok_iff {hit : SymbolHit} {table : Option String} {demangle : Bool}
    {r : SymbolRecord} :
    img.recordOf demangler hit table demangle = .ok r ↔
      ∃ name, img.symbolName hit.table hit.index = .ok name ∧
        r = hit.entry.record (displayName demangler name demangle) table := by
  rw [recordOf, bind_ok_iff]
  simp only [mapError_ok_iff]
  constructor
  · rintro ⟨name, hname, h⟩
    exact ⟨name, hname, (Except.ok.inj h).symm⟩
  · rintro ⟨name, hname, rfl⟩
    exact ⟨name, hname, rfl⟩

namespace Image

variable {i j : Nat} {s : SectionEntry} {part records : List SymbolRecord}

/-- What is listed of one symbol: its record, if the symbol is accepted. -/
theorem selectedRecord_ok_iff {table : String} {j : Nat} :
    img.selectedRecord demangler selection demangle table i j = .ok part ↔
      ∃ symbol, img.symbolAt i j = .ok symbol ∧
        (selection.accepts symbol = true ∧ (∃ name, img.symbolName i j = .ok name ∧
            part = [symbol.record (displayName demangler name demangle) (some table)]) ∨
          selection.accepts symbol = false ∧ part = []) := by
  rw [selectedRecord, bind_ok_iff]
  refine exists_congr fun symbol => ?_
  rw [mapError_ok_iff]
  refine and_congr_right fun _ => ?_
  cases haccepts : selection.accepts symbol with
  | false => simp [pure, Except.pure, eq_comm]
  | true =>
    simp only [↓reduceIte, bind_ok_iff, recordOf_ok_iff]
    constructor
    · rintro ⟨_, ⟨name, hname, rfl⟩, h⟩
      exact .inl ⟨trivial, name, hname, (Except.ok.inj h).symm⟩
    · rintro (⟨-, name, hname, rfl⟩ | ⟨hother, -⟩)
      · exact ⟨_, ⟨name, hname, rfl⟩, rfl⟩
      · cases hother

/-- The records of one section: of its accepted symbols if the section is a table of a wanted
kind. -/
theorem tableRecords_ok_iff :
    img.tableRecords demangler selection demangle i = .ok part ↔
      ∃ s, img.sectionAt i = .ok s ∧
        (selection.Walks s → ∃ table, img.sectionName i = .ok table ∧
          gather (img.selectedRecord demangler selection demangle table i) 0 s.entryCount =
            .ok part) ∧
        (¬ selection.Walks s → part = []) := by
  rw [tableRecords, bind_ok_iff]
  refine exists_congr fun s => ?_
  rw [mapError_ok_iff]
  refine and_congr_right fun _ => ?_
  by_cases hwalks : selection.Walks s
  · have hwants := Selection.wantsTable_iff.2 hwalks
    simp only [hwants, ↓reduceIte, bind_ok_iff, mapError_ok_iff, hwalks]
    simp
  · have hwants := mt Selection.wantsTable_iff.1 hwalks
    simp only [hwants, hwalks]
    simp [pure, Except.pure, eq_comm]

/-- A symbol has one record. -/
theorem Shows.unique (hit : SymbolHit) (r r' : SymbolRecord)
    (h : img.Shows demangler demangle hit r) (h' : img.Shows demangler demangle hit r') : r = r' := by
  obtain ⟨name, table, hname, htable, rfl⟩ := h
  obtain ⟨name', table', hname', htable', rfl⟩ := h'
  obtain rfl := Except.ok.inj (hname.symm.trans hname')
  obtain rfl := Except.ok.inj (htable.symm.trans htable')
  rfl

/-! ## Listings that are made -/

/-- What is listed of one symbol. -/
theorem selectedRecord_inOrder {table : String} (hs : img.sectionAt i = .ok s)
    (hwalks : selection.Walks s) (htable : img.sectionName i = .ok table) (hj : s.HasEntry j)
    (h : img.selectedRecord demangler selection demangle table i j = .ok part) :
    InOrder SymbolHit.Before
      (fun hit => hit.table = i ∧ hit.index = j ∧ img.Selects selection hit)
      (img.Shows demangler demangle) part := by
  obtain ⟨symbol, hsymbol, hlisted⟩ := selectedRecord_ok_iff.1 h
  have hentry {hit : SymbolHit} (hselected : img.Selects selection hit) (htable : hit.table = i)
      (hindex : hit.index = j) : hit.entry = symbol := by
    have hsymbol' := hselected.entry
    rw [htable, hindex, hsymbol] at hsymbol'
    exact (Except.ok.inj hsymbol').symm
  rcases hlisted with ⟨haccepts, name, hname, rfl⟩ | ⟨haccepts, rfl⟩
  · refine .single (b := ⟨i, j, symbol⟩) (fun hit => ?_) ⟨name, table, hname, htable, rfl⟩
    constructor
    · rintro ⟨rfl, rfl, hselected⟩
      exact congrArg (SymbolHit.mk hit.table hit.index) (hentry hselected rfl rfl)
    · rintro rfl
      exact ⟨rfl, rfl, ⟨s, hs, hwalks, hj⟩, hsymbol, Selection.accepts_iff.1 haccepts⟩
  · refine .nil fun hit => ?_
    rintro ⟨htable, hindex, hselected⟩
    have hpasses := Selection.accepts_iff.2 hselected.passes
    rw [hentry hselected htable hindex, haccepts] at hpasses
    cases hpasses

/-- What is listed of one section. -/
theorem tableRecords_inOrder (h : img.tableRecords demangler selection demangle i = .ok part) :
    InOrder SymbolHit.Before (fun hit => hit.table = i ∧ img.Selects selection hit)
      (img.Shows demangler demangle) part := by
  obtain ⟨s, hs, hwalked, hunwalked⟩ := tableRecords_ok_iff.1 h
  have hsection {hit : SymbolHit} (htable : hit.table = i) (hselected : img.Selects selection hit) :
      selection.Walks s ∧ s.HasEntry hit.index := by
    obtain ⟨s', hs', hwalks, hindex⟩ := hselected.table
    rw [htable, hs] at hs'
    obtain rfl := Except.ok.inj hs'
    exact ⟨hwalks, hindex⟩
  by_cases hwalks : selection.Walks s
  · obtain ⟨table, htable, hsymbols⟩ := hwalked hwalks
    have hparts (j : Nat) (hj : j < s.entryCount) (one : List SymbolRecord)
        (hone : img.selectedRecord demangler selection demangle table i j = .ok one) :=
      selectedRecord_inOrder hs hwalks htable (SectionEntry.hasEntry_iff.2 hj) hone
    have hbefore (j k : Nat) (a b : SymbolHit) (hlt : j < k)
        (ha : a.table = i ∧ a.index = j ∧ img.Selects selection a)
        (hb : b.table = i ∧ b.index = k ∧ img.Selects selection b) : a.Before b :=
      .inr ⟨ha.1.trans hb.1.symm, by omega⟩
    refine (InOrder.gather hparts hbefore hsymbols).congr fun hit => ?_
    constructor
    · rintro ⟨j, -, htable, -, hselected⟩
      exact ⟨htable, hselected⟩
    · rintro ⟨htable, hselected⟩
      have hindex := SectionEntry.hasEntry_iff.1 (hsection htable hselected).2
      exact ⟨hit.index, hindex, htable, rfl, hselected⟩
  · rw [hunwalked hwalks]
    exact .nil fun hit hhit => hwalks (hsection hhit.1 hhit.2).1

/-- A listing that is made has the records of the selected symbols, in order. -/
theorem selectedRecords_inOrder
    (h : img.selectedRecords demangler selection demangle = .ok records) :
    InOrder SymbolHit.Before (img.Selects selection) (img.Shows demangler demangle) records := by
  have hparts (i : Nat) (_ : i < img.header.sectionCount) (part : List SymbolRecord)
      (hpart : img.tableRecords demangler selection demangle i = .ok part) :=
    tableRecords_inOrder hpart
  have hbefore (i j : Nat) (a b : SymbolHit) (hlt : i < j)
      (ha : a.table = i ∧ img.Selects selection a) (hb : b.table = j ∧ img.Selects selection b) :
      a.Before b := .inl (by omega)
  refine (InOrder.gather hparts hbefore h).congr fun hit => ?_
  constructor
  · rintro ⟨i, -, -, hselected⟩
    exact hselected
  · intro hselected
    obtain ⟨s, hs, -⟩ := hselected.table
    exact ⟨hit.table, (sectionAt_ok hs).1, rfl, hselected⟩

/-! ## Listings that fail -/

theorem recordOf_hinders {hit : SymbolHit} {table : Option String} {failure : Failure}
    (hselected : img.Selects selection hit)
    (h : img.recordOf demangler hit table demangle = .error failure) :
    img.Hinders selection failure := by
  rcases bind_error_iff.1 h with hfails | ⟨name, -, hrecord⟩
  · obtain ⟨fault, hname, rfl⟩ := mapError_error_iff.1 hfails
    exact .symbolUnnamed hselected hname
  · cases hrecord

theorem selectedRecord_hinders {table : String} {failure : Failure} (hs : img.sectionAt i = .ok s)
    (hwalks : selection.Walks s) (htable : img.sectionName i = .ok table) (hj : s.HasEntry j)
    (h : img.selectedRecord demangler selection demangle table i j = .error failure) :
    img.Hinders selection failure := by
  rcases bind_error_iff.1 h with hfails | ⟨symbol, hsymbol, hlisted⟩
  · obtain ⟨fault, hunread, rfl⟩ := mapError_error_iff.1 hfails
    exact .symbolUnread hs hwalks htable hj hunread
  rw [mapError_ok_iff] at hsymbol
  cases haccepts : selection.accepts symbol with
  | false =>
    simp only [haccepts] at hlisted
    cases hlisted
  | true =>
    simp only [haccepts, ↓reduceIte] at hlisted
    have hselected : img.Selects selection ⟨i, j, symbol⟩ :=
      ⟨⟨s, hs, hwalks, hj⟩, hsymbol, Selection.accepts_iff.1 haccepts⟩
    rcases bind_error_iff.1 hlisted with hrecord | ⟨record, -, hlast⟩
    · exact recordOf_hinders hselected hrecord
    · cases hlast

theorem tableRecords_hinders {failure : Failure} (hi : i < img.header.sectionCount)
    (h : img.tableRecords demangler selection demangle i = .error failure) :
    img.Hinders selection failure := by
  rcases bind_error_iff.1 h with hfails | ⟨s, hs, hlisted⟩
  · obtain ⟨fault, hunread, rfl⟩ := mapError_error_iff.1 hfails
    exact .sectionUnread hi hunread
  rw [mapError_ok_iff] at hs
  by_cases hwants : selection.wantsTable s.type = true
  · have hwalks := Selection.wantsTable_iff.1 hwants
    simp only [hwants, ↓reduceIte] at hlisted
    rcases bind_error_iff.1 hlisted with hfails | ⟨table, htable, hsymbols⟩
    · obtain ⟨fault, hunnamed, rfl⟩ := mapError_error_iff.1 hfails
      exact .tableUnnamed hs hwalks hunnamed
    · rw [mapError_ok_iff] at htable
      obtain ⟨j, hj, hfailed⟩ := of_gather_error hsymbols
      exact selectedRecord_hinders hs hwalks htable (SectionEntry.hasEntry_iff.2 hj) hfailed
  · simp only [hwants] at hlisted
    cases hlisted

/-- A listing fails for a cause. -/
theorem selectedRecords_hinders {failure : Failure}
    (h : img.selectedRecords demangler selection demangle = .error failure) :
    img.Hinders selection failure := by
  obtain ⟨i, hi, hfailed⟩ := of_gather_error h
  exact tableRecords_hinders hi hfailed

theorem section_of_selectedRecords_ok
    (h : img.selectedRecords demangler selection demangle = .ok records)
    (hi : i < img.header.sectionCount) : ∃ s, img.sectionAt i = .ok s := by
  obtain ⟨part, hpart⟩ := (of_gather_ok h).1 i hi
  obtain ⟨s, hs, -⟩ := tableRecords_ok_iff.1 hpart
  exact ⟨s, hs⟩

/-- In a listing that is made, the tables and what is selected of them can be read and named. -/
theorem of_selectedRecords_ok (h : img.selectedRecords demangler selection demangle = .ok records)
    (hs : img.sectionAt i = .ok s) (hwalks : selection.Walks s) :
    (∃ table, img.sectionName i = .ok table) ∧ ∀ j, s.HasEntry j →
      ∃ symbol, img.symbolAt i j = .ok symbol ∧
        (selection.Passes symbol → ∃ name, img.symbolName i j = .ok name) := by
  obtain ⟨part, hpart⟩ := (of_gather_ok h).1 i (sectionAt_ok hs).1
  obtain ⟨s', hs', hwalked, -⟩ := tableRecords_ok_iff.1 hpart
  obtain rfl := Except.ok.inj (hs.symm.trans hs')
  obtain ⟨table, htable, hsymbols⟩ := hwalked hwalks
  refine ⟨⟨table, htable⟩, fun j hj => ?_⟩
  obtain ⟨one, hone⟩ := (of_gather_ok hsymbols).1 j (SectionEntry.hasEntry_iff.1 hj)
  obtain ⟨symbol, hsymbol, hlisted⟩ := selectedRecord_ok_iff.1 hone
  refine ⟨symbol, hsymbol, fun hpasses => ?_⟩
  rcases hlisted with ⟨-, name, hname, -⟩ | ⟨hrejected, -⟩
  · exact ⟨name, hname⟩
  · rw [Selection.accepts_iff.2 hpasses] at hrejected
    cases hrejected

/-- Where there is a cause, no listing is made. -/
theorem not_hinders_of_ok {failure : Failure}
    (h : img.selectedRecords demangler selection demangle = .ok records) :
    ¬ img.Hinders selection failure := by
  intro hhinders
  cases hhinders with
  | sectionUnread hi hunread =>
    obtain ⟨s, hs⟩ := section_of_selectedRecords_ok h hi
    cases hs.symm.trans hunread
  | tableUnnamed hs hwalks hunnamed =>
    obtain ⟨⟨table, htable⟩, -⟩ := of_selectedRecords_ok h hs hwalks
    cases htable.symm.trans hunnamed
  | symbolUnread hs hwalks _ hj hunread =>
    obtain ⟨symbol, hsymbol, -⟩ := (of_selectedRecords_ok h hs hwalks).2 _ hj
    cases hsymbol.symm.trans hunread
  | symbolUnnamed hselected hunnamed =>
    obtain ⟨s, hs, hwalks, hindex⟩ := hselected.table
    obtain ⟨symbol, hsymbol, hnamed⟩ := (of_selectedRecords_ok h hs hwalks).2 _ hindex
    obtain rfl := Except.ok.inj (hsymbol.symm.trans hselected.entry)
    obtain ⟨name, hname⟩ := hnamed hselected.passes
    cases hname.symm.trans hunnamed

/-! ## Other selections -/

/-- What a listing says of a section depends on which kinds of table are wanted, not on how often
and in which order they are named. -/
theorem selectedRecords_tables {tables : List TableKind}
    (h : ∀ kind, kind ∈ tables ↔ kind ∈ selection.tables) :
    img.selectedRecords demangler { selection with tables } demangle =
      img.selectedRecords demangler selection demangle := by
  have hwants (type : Nat) :
      Selection.wantsTable { selection with tables } type = selection.wantsTable type := by
    rw [Bool.eq_iff_iff, Selection.wantsTable, Selection.wantsTable, List.any_eq_true,
      List.any_eq_true]
    exact exists_congr fun kind => and_congr_left fun _ => h kind
  have hsections : img.tableRecords demangler { selection with tables } demangle =
      img.tableRecords demangler selection demangle := by
    funext i
    unfold tableRecords
    simp only [hwants]
    rfl
  rw [selectedRecords, hsections, selectedRecords]

/-- From the record of a symbol a narrower selection makes its own. -/
theorem selectedRecord_filter {table : String}
    (h : img.selectedRecord demangler (.all selection.tables) demangle table i j = .ok part) :
    img.selectedRecord demangler selection demangle table i j =
      .ok (part.filter selection.keeps) := by
  rw [selectedRecord_ok_iff] at h ⊢
  obtain ⟨symbol, hsymbol, ⟨-, name, hname, rfl⟩ | ⟨hrejected, -⟩⟩ := h
  · refine ⟨symbol, hsymbol, ?_⟩
    rw [List.filter_singleton, Selection.keeps_record]
    cases selection.accepts symbol with
    | false => exact .inr ⟨rfl, rfl⟩
    | true => exact .inl ⟨rfl, name, hname, rfl⟩
  · cases hrejected

theorem tableRecords_filter
    (h : img.tableRecords demangler (.all selection.tables) demangle i = .ok part) :
    img.tableRecords demangler selection demangle i = .ok (part.filter selection.keeps) := by
  rw [tableRecords_ok_iff] at h ⊢
  obtain ⟨s, hs, hwalked, hunwalked⟩ := h
  refine ⟨s, hs, fun hwalks => ?_, fun hwalks => ?_⟩
  · obtain ⟨table, htable, hsymbols⟩ := hwalked hwalks
    exact ⟨table, htable, gather_filter (fun _ _ => selectedRecord_filter) hsymbols⟩
  · rw [hunwalked hwalks, List.filter_nil]

/-- Of a listing of all symbols of some tables a narrower one keeps the records that pass. -/
theorem selectedRecords_filter
    (h : img.selectedRecords demangler (.all selection.tables) demangle = .ok records) :
    img.selectedRecords demangler selection demangle = .ok (records.filter selection.keeps) :=
  gather_filter (fun _ _ => tableRecords_filter) h

end Image

/-- Listings, whatever has been asked before. One that is made has one record for each selected
symbol, in the order of the tables and of their entries. One fails exactly where a section cannot be
read, a walked one or one of its symbols cannot be read or named, or a selected symbol has no name;
other names do not matter. Which tables are wanted counts as a set, and a narrower type or binding
leaves the records that pass. -/
theorem selectedRecords_lists (demangler : Demangler) (img : Image) (asked : List Query)
    (selection : Selection) (demangle : Bool) :
    let answer (selection : Selection) :=
      Session.resultAfter img asked (selectedRecords demangler img selection demangle)
    (∀ records, answer selection = .ok records →
        InOrder SymbolHit.Before (img.Selects selection) (img.Shows demangler demangle) records) ∧
      (∀ failure, answer selection = .error failure → img.Hinders selection failure) ∧
      ((∃ failure, answer selection = .error failure) ↔
        ∃ failure, img.Hinders selection failure) ∧
      (∀ tables : List TableKind, (∀ kind, kind ∈ tables ↔ kind ∈ selection.tables) →
        answer { selection with tables } = answer selection) ∧
      (∀ hit r, img.Shows demangler demangle hit r →
        (selection.keeps r ↔ selection.Passes hit.entry)) ∧
      ∀ records, answer (.all selection.tables) = .ok records →
        answer selection = .ok (records.filter selection.keeps) := by
  simp only [(selectedRecords_reports demangler img _ _).resultAfter]
  refine ⟨fun _ => Image.selectedRecords_inOrder, fun _ => Image.selectedRecords_hinders,
    ⟨?_, ?_⟩, fun _ => Image.selectedRecords_tables, fun hit r hshows => ?_,
    fun _ => Image.selectedRecords_filter⟩
  · rintro ⟨failure, h⟩
    exact ⟨failure, Image.selectedRecords_hinders h⟩
  · rintro ⟨failure, hhinders⟩
    cases hanswer : img.selectedRecords demangler selection demangle with
    | error failure => exact ⟨failure, rfl⟩
    | ok records => exact absurd hhinders (Image.not_hinders_of_ok hanswer)
  · obtain ⟨name, table, -, -, rfl⟩ := hshows
    rw [Selection.keeps_record, Selection.accepts_iff]

end ElfInspect
