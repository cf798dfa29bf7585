import ElfInspect.Libraries.MangledName
import ElfInspect.Proofs.Listings
import ElfInspect.Proofs.WrittenForms

/-!
Lookups against listings. A listing walks every section in order, a lookup only the first section
of each type that holds symbols, by name from both ends. What a lookup finds is in the listing; it
finds all that is listed in a file with one table of each type.
-/

namespace ElfInspect

variable {img : Image} {target : Target} {demangler : Demangler}

/-! ## What is looked for -/

/-- The section by whose type a lookup finds such a table. -/
def TableKind.wellKnown : TableKind → WellKnown
  | .symtab => .symbolTable
  | .dynsym => .dynamicSymbols

theorem TableKind.wellKnown_type (kind : TableKind) : kind.wellKnown.type = kind.sectionType := by
  cases kind <;> rfl

/-- The record says what is looked for. -/
def Target.Fits : Target → SymbolRecord → Prop
  | .name wanted, r => r.name = wanted
  | .address wanted, r => r.value ≤ wanted ∧ wanted < r.value + r.size

/-- The symbol is one of those that are looked for. -/
def Target.Matches (img : Image) : Target → SymbolHit → Prop
  | .name wanted, hit => img.symbolName hit.table hit.index = .ok wanted
  | .address wanted, hit =>
    hit.entry.value ≤ wanted ∧ wanted < hit.entry.value + hit.entry.size

namespace Image

/-- A symbol of a table of the given kind. -/
structure Holds (img : Image) (kind : TableKind) (hit : SymbolHit) : Prop where
  table : ∃ s, img.sectionAt hit.table = .ok s ∧ s.type = kind.sectionType ∧
    s.HasEntry hit.index
  entry : img.symbolAt hit.table hit.index = .ok hit.entry

/-- There is at most one table of each kind, and section 0 is none. -/
structure SoleTables (img : Image) : Prop where
  sole : ∀ (kind : TableKind) {i j : Nat} {s t : SectionEntry},
    img.sectionAt i = .ok s → s.type = kind.sectionType →
      img.sectionAt j = .ok t → t.type = kind.sectionType → i = j
  behind : ∀ (kind : TableKind) {s : SectionEntry},
    img.sectionAt 0 = .ok s → s.type ≠ kind.sectionType

/-- The section headers can be read, and so can all that a listing of the given tables says. -/
def Readable (img : Image) (tables : List TableKind) : Prop :=
  ∀ i < img.header.sectionCount, ∃ s, img.sectionAt i = .ok s ∧
    ∀ kind ∈ tables, s.type = kind.sectionType →
      (∃ table, img.sectionName i = .ok table) ∧
        ∀ j, s.HasEntry j → ∃ symbol, img.symbolAt i j = .ok symbol ∧
          ∃ name, img.symbolName i j = .ok name

/-- The records are those of all symbols of the given tables. -/
structure ListedBy (img : Image) (tables : List TableKind) (records : List SymbolRecord) :
    Prop where
  readable : img.Readable tables
  mem_iff : ∀ r, r ∈ records ↔ ∃ kind ∈ tables, ∃ hit, img.Holds kind hit ∧
    ∃ table name, img.sectionName hit.table = .ok table ∧
      img.symbolName hit.table hit.index = .ok name ∧ r = hit.entry.record name (some table)

end Image

/-! ## Records -/

/-- A record fits if its symbol is looked for. -/
theorem Target.fits_record_iff {hit : SymbolHit} {table : Option String} {name : String}
    (hname : img.symbolName hit.table hit.index = .ok name) :
    target.Fits (hit.entry.record name table) ↔ target.Matches img hit := by
  cases target with
  | name wanted => simp only [Fits, Matches, hname, Except.ok.injEq, SymbolEntry.record]
  | address wanted => exact Iff.rfl

/-! ## Listings -/

namespace Image

variable {tables : List TableKind} {records : List SymbolRecord}

theorem selects_all_iff {hit : SymbolHit} :
    img.Selects (.all tables) hit ↔ ∃ kind ∈ tables, img.Holds kind hit := by
  constructor
  · rintro ⟨⟨s, hs, hwalks, hindex⟩, hentry, -⟩
    obtain ⟨kind, hkind, htype⟩ := Selection.walks_iff.1 hwalks
    exact ⟨kind, hkind, ⟨s, hs, htype, hindex⟩, hentry⟩
  · rintro ⟨kind, hkind, ⟨s, hs, htype, hindex⟩, hentry⟩
    exact ⟨⟨s, hs, Selection.walks_iff.2 ⟨kind, hkind, htype⟩, hindex⟩, hentry,
      .all tables hit.entry⟩

/-- A listing of all symbols of some tables needs all that it says, and says it of each. -/
theorem listedBy_of_ok (h : img.selectedRecords demangler (.all tables) false = .ok records) :
    img.ListedBy tables records := by
  constructor
  · intro i hi
    obtain ⟨s, hs⟩ := section_of_selectedRecords_ok h hi
    refine ⟨s, hs, fun kind hkind htype => ?_⟩
    obtain ⟨hnamed, hsymbols⟩ :=
      of_selectedRecords_ok h hs (Selection.walks_iff.2 ⟨kind, hkind, htype⟩)
    refine ⟨hnamed, fun j hj => ?_⟩
    obtain ⟨symbol, hsymbol, hname⟩ := hsymbols j hj
    exact ⟨symbol, hsymbol, hname (.all tables symbol)⟩
  · intro r
    rw [(selectedRecords_inOrder h).mem_iff Shows.unique]
    constructor
    · rintro ⟨hit, hselected, name, table, hname, htable, rfl⟩
      obtain ⟨kind, hkind, hholds⟩ := selects_all_iff.1 hselected
      exact ⟨kind, hkind, hit, hholds, table, name, htable, hname, rfl⟩
    · rintro ⟨kind, hkind, hit, hholds, table, name, htable, hname, rfl⟩
      exact ⟨hit, selects_all_iff.2 ⟨kind, hkind, hholds⟩, name, table, hname, htable, rfl⟩

/-- What can be read of a table. -/
theorem Readable.table (h : img.Readable tables) {kind : TableKind} (hkind : kind ∈ tables)
    {i : Nat} {s : SectionEntry} (hs : img.sectionAt i = .ok s)
    (htype : s.type = kind.sectionType) :
    (∃ table, img.sectionName i = .ok table) ∧ ∀ j, s.HasEntry j →
      ∃ symbol, img.symbolAt i j = .ok symbol ∧ ∃ name, img.symbolName i j = .ok name := by
  obtain ⟨s', hs', hwanted⟩ := h i (sectionAt_ok hs).1
  obtain rfl : s = s' := Except.ok.inj (hs.symm.trans hs')
  exact hwanted kind hkind htype

theorem selectedRecords_ok (h : img.Readable tables) :
    ∃ records, img.selectedRecords demangler (.all tables) false = .ok records := by
  cases hanswer : img.selectedRecords demangler (.all tables) false with
  | ok records => exact ⟨records, rfl⟩
  | error failure =>
    cases selectedRecords_hinders hanswer with
    | sectionUnread hi hunread =>
      obtain ⟨s, hs, -⟩ := h _ hi
      cases hs.symm.trans hunread
    | tableUnnamed hs hwalks hunnamed =>
      obtain ⟨kind, hkind, htype⟩ := Selection.walks_iff.1 hwalks
      obtain ⟨⟨table, htable⟩, -⟩ := h.table hkind hs htype
      cases htable.symm.trans hunnamed
    | symbolUnread hs hwalks _ hj hunread =>
      obtain ⟨kind, hkind, htype⟩ := Selection.walks_iff.1 hwalks
      obtain ⟨symbol, hsymbol, -⟩ := (h.table hkind hs htype).2 _ hj
      cases hsymbol.symm.trans hunread
    | symbolUnnamed hselected hunnamed =>
      obtain ⟨s, hs, hwalks, hindex⟩ := hselected.table
      obtain ⟨kind, hkind, htype⟩ := Selection.walks_iff.1 hwalks
      obtain ⟨-, -, name, hname⟩ := (h.table hkind hs htype).2 _ hindex
      cases hname.symm.trans hunnamed

theorem Readable.mono {fewer : List TableKind} (h : img.Readable tables) (hsub : fewer ⊆ tables) :
    img.Readable fewer := by
  intro i hi
  obtain ⟨s, hs, hwanted⟩ := h i hi
  exact ⟨s, hs, fun kind hkind => hwanted kind (hsub hkind)⟩

/-- A symbol of the tables has a name, and its record is listed. -/
theorem ListedBy.record_mem (h : img.ListedBy tables records) {kind : TableKind} {hit : SymbolHit}
    (hkind : kind ∈ tables) (hholds : img.Holds kind hit) :
    ∃ table name, img.symbolName hit.table hit.index = .ok name ∧
      hit.entry.record name (some table) ∈ records := by
  obtain ⟨s, hs, htype, hindex⟩ := hholds.table
  obtain ⟨⟨table, htable⟩, hsymbols⟩ := h.readable.table hkind hs htype
  obtain ⟨-, -, name, hname⟩ := hsymbols hit.index hindex
  exact ⟨table, name, hname,
    (h.mem_iff _).2 ⟨kind, hkind, hit, hholds, table, name, htable, hname, rfl⟩⟩

/-- A record that fits is one of a symbol that is looked for. -/
theorem ListedBy.fits_iff (h : img.ListedBy tables records) :
    (∃ r ∈ records, target.Fits r) ↔
      ∃ kind ∈ tables, ∃ hit, img.Holds kind hit ∧ target.Matches img hit := by
  constructor
  · rintro ⟨r, hr, hfits⟩
    obtain ⟨kind, hkind, hit, hholds, table, name, -, hname, rfl⟩ := (h.mem_iff r).1 hr
    exact ⟨kind, hkind, hit, hholds, (Target.fits_record_iff hname).1 hfits⟩
  · rintro ⟨kind, hkind, hit, hholds, hmatches⟩
    obtain ⟨table, name, hname, hr⟩ := h.record_mem hkind hholds
    exact ⟨_, hr, (Target.fits_record_iff hname).2 hmatches⟩

end Image

/-! ## Searches -/

/-- The order in which a table of `n` symbols is searched. -/
def Target.order : Target → Nat → Nat → Nat
  | .name _, n, k => twoEnded n k
  | .address _, _, k => k

/-- One try of a search. -/
def Target.test (img : Image) (i j : Nat) : Target → Except Fault (Option SymbolHit)
  | .name wanted => do
    let symbol ← img.symbolAt i j
    return if (← img.symbolName i j) = wanted then some ⟨i, j, symbol⟩ else none
  | .address wanted => do
    let symbol ← img.symbolAt i j
    return if symbol.contains wanted then some ⟨i, j, symbol⟩ else none

/-- The search in one table. -/
def Target.search (img : Image) (target : Target) (table : SectionHit) :
    Except Fault (Option SymbolHit) :=
  let n := table.entry.entryCount
  firstHit (fun k => target.test img table.index (target.order n k)) 0 n

namespace Target

theorem order_lt {n k : Nat} (h : k < n) : target.order n k < n := by
  cases target with
  | name wanted => exact twoEnded_lt h
  | address wanted => exact h

theorem order_surj {n j : Nat} (h : j < n) : ∃ k < n, target.order n k = j := by
  cases target with
  | name wanted => exact twoEnded_surj h
  | address wanted => exact ⟨j, h, rfl⟩

theorem test_ok {i j : Nat} {symbol : SymbolEntry} {name : String}
    (hsymbol : img.symbolAt i j = .ok symbol) (hname : img.symbolName i j = .ok name) :
    ∃ hit, target.test img i j = .ok hit := by
  cases target <;> simp only [test, hsymbol, hname] <;> exact ⟨_, rfl⟩

theorem of_test_some {i j : Nat} {hit : SymbolHit}
    (h : target.test img i j = .ok (some hit)) :
    hit.table = i ∧ hit.index = j ∧ img.symbolAt i j = .ok hit.entry ∧ target.Matches img hit := by
  cases target with
  | name wanted =>
    obtain ⟨symbol, hsymbol, h⟩ := bind_ok_iff.1 h
    obtain ⟨name, hname, h⟩ := bind_ok_iff.1 h
    obtain ⟨rfl, hhit⟩ := Option.ite_none_right_eq_some.1 (Except.ok.inj h)
    obtain rfl := Option.some.inj hhit
    exact ⟨rfl, rfl, hsymbol, hname⟩
  | address wanted =>
    obtain ⟨symbol, hsymbol, h⟩ := bind_ok_iff.1 h
    obtain ⟨hcontains, hhit⟩ := Option.ite_none_right_eq_some.1 (Except.ok.inj h)
    obtain rfl := Option.some.inj hhit
    exact ⟨rfl, rfl, hsymbol, (symbol.contains_iff wanted).1 hcontains⟩

theorem of_test_none {i j : Nat} {symbol : SymbolEntry} (h : target.test img i j = .ok none)
    (hsymbol : img.symbolAt i j = .ok symbol) : ¬target.Matches img ⟨i, j, symbol⟩ := by
  intro hmatches
  cases target with
  | name wanted =>
    have hname : img.symbolName i j = .ok wanted := hmatches
    simp [test, hsymbol, hname, bind, Except.bind, pure, Except.pure] at h
  | address wanted =>
    have hcontains : symbol.contains wanted := (symbol.contains_iff wanted).2 hmatches
    simp [test, hsymbol, hcontains, bind, Except.bind, pure, Except.pure] at h

/-- A search finds a symbol of its table that is looked for. -/
theorem of_search_some {table : SectionHit} {hit : SymbolHit}
    (h : target.search img table = .ok (some hit)) :
    hit.table = table.index ∧ table.entry.HasEntry hit.index ∧
      img.symbolAt hit.table hit.index = .ok hit.entry ∧ target.Matches img hit := by
  obtain ⟨k, -, hk, htest, -⟩ := firstHit_eq_some_iff.1 h
  obtain ⟨htable, hindex, hsymbol, hmatches⟩ := of_test_some htest
  rw [← htable, ← hindex] at hsymbol
  have hplace : hit.index < table.entry.entryCount := hindex ▸ order_lt (by omega)
  exact ⟨htable, SectionEntry.hasEntry_iff.2 hplace, hsymbol, hmatches⟩

/-- A search that finds nothing has tried every symbol of its table. -/
theorem of_search_none {table : SectionHit} (h : target.search img table = .ok none) {j : Nat}
    {symbol : SymbolEntry} (hj : table.entry.HasEntry j)
    (hsymbol : img.symbolAt table.index j = .ok symbol) :
    ¬target.Matches img ⟨table.index, j, symbol⟩ := by
  obtain ⟨k, hk, rfl⟩ : ∃ k < table.entry.entryCount,
      target.order table.entry.entryCount k = j :=
    order_surj (SectionEntry.hasEntry_iff.1 hj)
  exact of_test_none (firstHit_eq_none_iff.1 h k (Nat.zero_le k) (by omega)) hsymbol

end Target

namespace Image

variable {tables : List TableKind} {kind : TableKind} {hit : SymbolHit}

theorem wellKnown_eq_some_iff {w : WellKnown} {table : SectionHit} :
    img.wellKnown w = .ok (some table) ↔
      img.indexOfType w.type = .ok (some table.index) ∧
        img.sectionAt table.index = .ok table.entry := by
  rw [wellKnown, bind_ok_iff]
  constructor
  · rintro ⟨_ | i, hindex, h⟩
    · cases h
    · obtain ⟨s, hs, h⟩ := bind_ok_iff.1 h
      cases h
      exact ⟨hindex, hs⟩
  · rintro ⟨hindex, hs⟩
    exact ⟨some table.index, hindex, bind_ok_iff.2 ⟨table.entry, hs, rfl⟩⟩

/-- The table that a lookup searches. -/
theorem of_wellKnown_some {table : SectionHit}
    (h : img.wellKnown kind.wellKnown = .ok (some table)) :
    img.sectionAt table.index = .ok table.entry ∧ table.entry.type = kind.sectionType := by
  obtain ⟨hindex, hs⟩ := wellKnown_eq_some_iff.1 h
  obtain ⟨-, -, ⟨t, ht, htype⟩, -⟩ := indexOfType_eq_some_iff.1 hindex
  obtain rfl : table.entry = t := Except.ok.inj (hs.symm.trans ht)
  exact ⟨hs, htype.trans kind.wellKnown_type⟩

theorem wellKnown_ok (h : img.Readable tables) (w : WellKnown) :
    ∃ found, img.wellKnown w = .ok found := by
  have hindex : ∃ hit, img.indexOfType w.type = .ok hit := by
    refine firstHit_ok fun i hle hlt => ?_
    obtain ⟨s, hs, -⟩ := h i (by omega)
    exact ⟨_, by rw [hs]; rfl⟩
  obtain ⟨_ | i, hindex⟩ := hindex
  · exact ⟨none, by rw [wellKnown, hindex]; rfl⟩
  · obtain ⟨-, -, ⟨s, hs, -⟩, -⟩ := indexOfType_eq_some_iff.1 hindex
    exact ⟨some ⟨i, s⟩, wellKnown_eq_some_iff.2 ⟨hindex, hs⟩⟩

/-- In a file with one table of each kind the search for its section type finds it. -/
theorem wellKnown_of_sole (hsole : img.SoleTables) (hread : img.Readable tables) {i : Nat}
    {s : SectionEntry} (hs : img.sectionAt i = .ok s) (htype : s.type = kind.sectionType) :
    img.wellKnown kind.wellKnown = .ok (some ⟨i, s⟩) := by
  have hi : i < img.header.sectionCount := (sectionAt_ok hs).1
  refine wellKnown_eq_some_iff.2 ⟨?_, hs⟩
  rw [kind.wellKnown_type, indexOfType_eq_some_iff]
  refine ⟨?_, hi, ⟨s, hs, htype⟩, fun j _ hlt => ?_⟩
  -- The search leaves out section 0, and nothing in front of the table has its type.
  · rcases Nat.eq_zero_or_pos i with rfl | hpos
    · exact absurd htype (hsole.behind kind hs)
    · exact hpos
  · obtain ⟨t, ht, -⟩ := hread j (Nat.lt_trans hlt hi)
    exact ⟨t, ht, fun hother => absurd (hsole.sole kind ht hother hs htype) (Nat.ne_of_lt hlt)⟩

/-- The search in the tables of one kind. -/
def tableSearch (img : Image) (target : Target) (kind : TableKind) :
    Except Fault (Option SymbolHit) :=
  searchIn (img.wellKnown kind.wellKnown) (target.search img)

theorem tableSearch_ok (hread : img.Readable tables) (hkind : kind ∈ tables) :
    ∃ found, img.tableSearch target kind = .ok found := by
  obtain ⟨_ | ⟨i, s⟩, hplace⟩ := wellKnown_ok hread kind.wellKnown
  · exact ⟨none, searchIn_ok_iff.2 (.inl ⟨hplace, rfl⟩)⟩
  · obtain ⟨hs, htype⟩ := of_wellKnown_some hplace
    have hsearch : ∃ found, target.search img ⟨i, s⟩ = .ok found := by
      refine firstHit_ok fun k _ hk => ?_
      have hj : target.order s.entryCount k < s.entryCount := Target.order_lt (by simpa using hk)
      obtain ⟨symbol, hsymbol, name, hname⟩ :=
        (hread.table hkind hs htype).2 _ (SectionEntry.hasEntry_iff.2 hj)
      exact Target.test_ok hsymbol hname
    obtain ⟨found, hfound⟩ := hsearch
    exact ⟨found, searchIn_ok_iff.2 (.inr ⟨⟨i, s⟩, hplace, hfound⟩)⟩

theorem of_tableSearch_some (h : img.tableSearch target kind = .ok (some hit)) :
    img.Holds kind hit ∧ target.Matches img hit := by
  rcases searchIn_ok_iff.1 h with ⟨-, hnone⟩ | ⟨table, hplace, hsearch⟩
  · cases hnone
  · obtain ⟨hs, htype⟩ := of_wellKnown_some hplace
    obtain ⟨htable, hindex, hsymbol, hmatches⟩ := Target.of_search_some hsearch
    rw [← htable] at hs
    exact ⟨⟨⟨table.entry, hs, htype, hindex⟩, hsymbol⟩, hmatches⟩

/-- In a file with one table of each kind a search that finds nothing has tried all symbols. -/
theorem of_tableSearch_none (hsole : img.SoleTables) (hread : img.Readable tables)
    (h : img.tableSearch target kind = .ok none) (hholds : img.Holds kind hit) :
    ¬target.Matches img hit := by
  obtain ⟨⟨s, hs, htype, hindex⟩, hsymbol⟩ := hholds
  have hplace := wellKnown_of_sole hsole hread hs htype
  rcases searchIn_ok_iff.1 h with ⟨hnone, -⟩ | ⟨table, hsome, hsearch⟩
  · rw [hplace] at hnone
    cases hnone
  · obtain rfl : ⟨hit.table, s⟩ = table := by
      rw [hplace] at hsome
      exact Option.some.inj (Except.ok.inj hsome)
    exact Target.of_search_none hsearch hindex hsymbol

theorem find_eq :
    img.find target =
      firstSome (img.tableSearch target .dynsym) (img.tableSearch target .symtab) := by
  cases target <;> rfl

theorem find_ok (hread : img.Readable tables) (htables : ∀ kind, kind ∈ tables)
    (target : Target) : ∃ found, img.find target = .ok found := by
  obtain ⟨dynamic, hdynamic⟩ : ∃ found, img.tableSearch target .dynsym = .ok found :=
    tableSearch_ok hread (htables .dynsym)
  obtain ⟨static, hstatic⟩ : ∃ found, img.tableSearch target .symtab = .ok found :=
    tableSearch_ok hread (htables .symtab)
  rw [find_eq, hdynamic, hstatic]
  cases dynamic with
  | some hit => exact ⟨some hit, rfl⟩
  | none => exact ⟨static, rfl⟩

/-- A lookup finds a symbol that is looked for, a static one only if it has found no dynamic one. -/
theorem of_find_some (h : img.find target = .ok (some hit)) :
    target.Matches img hit ∧ ∃ kind, img.Holds kind hit ∧
      (kind = .dynsym ∨ img.tableSearch target .dynsym = .ok none) := by
  rw [find_eq] at h
  rcases firstSome_eq_some_iff.1 h with hdynamic | ⟨hnone, hstatic⟩
  · obtain ⟨hholds, hmatches⟩ := of_tableSearch_some hdynamic
    exact ⟨hmatches, .dynsym, hholds, .inl rfl⟩
  · obtain ⟨hholds, hmatches⟩ := of_tableSearch_some hstatic
    exact ⟨hmatches, .symtab, hholds, .inr hnone⟩

theorem of_find_none (hsole : img.SoleTables) (hread : img.Readable tables)
    (h : img.find target = .ok none) (hholds : img.Holds kind hit) :
    ¬target.Matches img hit := by
  rw [find_eq] at h
  obtain ⟨hdynamic, hstatic⟩ := firstSome_eq_none_iff.1 h
  cases kind with
  | dynsym => exact of_tableSearch_none hsole hread hdynamic hholds
  | symtab => exact of_tableSearch_none hsole hread hstatic hholds

theorem lookupRecord_ok {target? : Option Target} {r : SymbolRecord}
    (h : img.lookupRecord demangler target? false = .ok r) :
    ∃ target hit, target? = some target ∧ img.find target = .ok (some hit) ∧
      img.recordOf demangler hit none false = .ok r := by
  cases target? with
  | none => cases h
  | some target =>
    obtain ⟨found, hfound, h⟩ := bind_ok_iff.1 h
    rw [mapError_ok_iff] at hfound
    cases found with
    | none => cases h
    | some hit => exact ⟨target, hit, rfl, hfound, h⟩

end Image

/-! ## Lookups against listings -/

/-- Where all symbols of both kinds of tables can be listed, no lookup fails, and the record that
one gives is in the listing, but for the table. With one table of each kind a lookup finds something
if and only if a record of the listing fits, and it finds it among the dynamic symbols if one of
theirs does. -/
theorem lookups_agree_with_listing (demangler : Demangler) (img : Image) {tables : List TableKind}
    (htables : ∀ kind, kind ∈ tables) {earlier : List Query} {records : List SymbolRecord}
    (hlisting : Session.resultAfter img earlier
      (selectedRecords demangler img (.all tables) false) = .ok records) (asked : List Query) :
    (∀ target : Target, ∃ found, Session.resultAfter img asked (target.find img) = .ok found) ∧
      (∀ target? r,
        Session.resultAfter img asked (lookupRecord demangler img target? false) = .ok r →
        (∃ listed ∈ records, r = { listed with table := none }) ∧
          ∃ target, target? = some target ∧ target.Fits r) ∧
      (img.SoleTables → ∃ dynamic,
        Session.resultAfter img asked (selectedRecords demangler img (.all [.dynsym]) false) =
          .ok dynamic ∧
          ∀ (target : Target) found,
            Session.resultAfter img asked (target.find img) = .ok found →
              (found.isSome ↔ ∃ r ∈ records, target.Fits r) ∧
                ∀ hit, found = some hit →
                  (img.Holds .dynsym hit ↔ ∃ r ∈ dynamic, target.Fits r)) := by
  rw [(selectedRecords_reports demangler img _ _).resultAfter] at hlisting
  simp only [(selectedRecords_reports demangler img _ _).resultAfter,
    (find_agrees img _).resultAfter, (lookupRecord_reports demangler img _ _).resultAfter]
  have hlisted := Image.listedBy_of_ok hlisting
  have hread := hlisted.readable
  refine ⟨Image.find_ok hread htables, fun target? r hr => ?_, fun hsole => ?_⟩
  · obtain ⟨target, hit, rfl, hfind, hrecord⟩ := Image.lookupRecord_ok hr
    obtain ⟨hmatches, kind, hholds, -⟩ := Image.of_find_some hfind
    obtain ⟨table, name, hname, hmem⟩ := hlisted.record_mem (htables kind) hholds
    obtain ⟨name', hname', rfl⟩ := Image.recordOf_ok_iff.1 hrecord
    obtain rfl : name = name' := Except.ok.inj (hname.symm.trans hname')
    exact ⟨⟨_, hmem, rfl⟩, target, rfl, (Target.fits_record_iff hname).2 hmatches⟩
  · have hfewer : img.Readable [.dynsym] := hread.mono fun kind _ => htables kind
    obtain ⟨dynamic, hdynamic⟩ := Image.selectedRecords_ok hfewer
    refine ⟨dynamic, hdynamic, fun target found hfind => ⟨?_, ?_⟩⟩
    · rw [hlisted.fits_iff]
      cases found with
      | some hit =>
        obtain ⟨hmatches, kind, hholds, -⟩ := Image.of_find_some hfind
        exact iff_of_true rfl ⟨kind, htables kind, hit, hholds, hmatches⟩
      | none =>
        refine iff_of_false Bool.false_ne_true ?_
        rintro ⟨kind, -, hit, hholds, hmatches⟩
        exact Image.of_find_none hsole hread hfind hholds hmatches
    -- A static symbol has been found only after the dynamic ones, none of which is looked for.
    · rintro hit rfl
      obtain ⟨hmatches, kind, hholds, hpreferred⟩ := Image.of_find_some hfind
      rw [(Image.listedBy_of_ok hdynamic).fits_iff]
      constructor
      · exact fun hdynsym => ⟨.dynsym, List.mem_singleton.2 rfl, hit, hdynsym, hmatches⟩
      · rintro ⟨kind', hkind', hit', hholds', hmatches'⟩
        obtain rfl := List.mem_singleton.1 hkind'
        rcases hpreferred with rfl | hnone
        · exact hholds
        · exact absurd hmatches' (Image.of_tableSearch_none hsole hread hnone hholds')

/-- The symbol `ab` twice: section 1 holds the dynamic one and section 2 the static one. -/
def bothTables : Image :=
  let header : Header := ⟨⟨.elf32, .lsb⟩, 0, 0, 1, 3, 1, 0, 0, 52, 0, 52, 32, 0, 40, 4, 0⟩
  { header
    bytes := ⟨(header.encode ++ List.replicate 40 0 ++
      SectionEntry.written ⟨.elf32, .lsb⟩ ⟨0, SectionEntry.dynsym, 0, 0, 212, 16, 3, 1, 4, 16⟩ ++
      SectionEntry.written ⟨.elf32, .lsb⟩ ⟨0, SectionEntry.symtab, 0, 0, 228, 16, 3, 1, 4, 16⟩ ++
      SectionEntry.written ⟨.elf32, .lsb⟩ ⟨0, SectionEntry.strtab, 0, 0, 244, 4, 0, 0, 1, 0⟩ ++
      SymbolEntry.written ⟨.elf32, .lsb⟩ ⟨1, 0x1000, 2, 0x12, 0, 1⟩ ++
      SymbolEntry.written ⟨.elf32, .lsb⟩ ⟨1, 0x2000, 4, 0x12, 0, 1⟩ ++
      [0, 0x61, 0x62, 0]).toArray⟩ }

theorem bothTables_sole : bothTables.SoleTables := by
  let types (i : Nat) : Nat :=
    [0, SectionEntry.dynsym, SectionEntry.symtab, SectionEntry.strtab].getD i 0
  have htypes {i : Nat} {s : SectionEntry} (hs : bothTables.sectionAt i = .ok s) :
      i < 4 ∧ s.type = types i := by
    have hi : i < 4 := (Image.sectionAt_ok hs).1
    have hall : ∀ i < 4, (bothTables.sectionAt i).toOption.map SectionEntry.type =
        some (types i) := by
      decide +kernel
    have hat := hall i hi
    rw [hs] at hat
    exact ⟨hi, Option.some.inj hat⟩
  have hkinds (kind : TableKind) : (∀ i < 4, ∀ j < 4, types i = kind.sectionType →
      types j = kind.sectionType → i = j) ∧ types 0 ≠ kind.sectionType := by
    cases kind <;> decide
  constructor
  · intro kind i j s t hs hstype ht httype
    obtain ⟨hi, hi'⟩ := htypes hs
    obtain ⟨hj, hj'⟩ := htypes ht
    exact (hkinds kind).1 i hi j hj (hi' ▸ hstype) (hj' ▸ httype)
  · intro kind s hs htype
    exact (hkinds kind).2 ((htypes hs).2 ▸ htype)

/-- Of the two symbols the lookup finds the dynamic one. -/
theorem lookups_agree_with_listing_bothTables :
    let listing (tables : List TableKind) :=
      selectedRecords MangledName.demangler bothTables (.all tables) false
    let records : List SymbolRecord :=
      [⟨"ab", some "", 0x1000, 2, "FUNC", "GLOBAL"⟩, ⟨"ab", some "", 0x2000, 4, "FUNC", "GLOBAL"⟩]
    let tables : List TableKind := [.symtab, .dynsym]
    (∀ kind, kind ∈ tables) ∧
      Session.resultAfter bothTables [] (listing tables) = .ok records ∧
      bothTables.SoleTables ∧
      ∃ hit, bothTables.Holds .dynsym hit ∧
        Session.resultAfter bothTables [.sectionNames] ((Target.name "ab").find bothTables) =
          .ok (some hit) := by
  intro listing records tables
  have htables : ∀ kind, kind ∈ tables := by
    intro kind
    cases kind <;> decide
  have hlisting : Session.resultAfter bothTables [] (listing tables) = .ok records := by
    rw [(selectedRecords_reports MangledName.demangler bothTables _ _).resultAfter]
    exact ok_of_toOption (by decide +kernel)
  refine ⟨htables, hlisting, bothTables_sole, ?_⟩
  obtain ⟨hfinds, -, hsole⟩ :=
    lookups_agree_with_listing MangledName.demangler bothTables htables hlisting [.sectionNames]
  obtain ⟨found, hfound⟩ := hfinds (.name "ab")
  obtain ⟨dynamic, hdynamic, hagree⟩ := hsole bothTables_sole
  obtain ⟨hsome, hpreferred⟩ := hagree _ found hfound
  have hfirst : Session.resultAfter bothTables [.sectionNames] (listing [.dynsym]) =
      .ok (records.take 1) := by
    rw [(selectedRecords_reports MangledName.demangler bothTables _ _).resultAfter]
    exact ok_of_toOption (by decide +kernel)
  obtain rfl : records.take 1 = dynamic := Except.ok.inj (hfirst.symm.trans hdynamic)
  obtain ⟨hit, rfl⟩ := Option.isSome_iff_exists.1 (hsome.2 ⟨_, List.mem_cons_self, rfl⟩)
  exact ⟨hit, (hpreferred hit rfl).2 ⟨_, List.mem_cons_self, rfl⟩, hfound⟩

end ElfInspect
