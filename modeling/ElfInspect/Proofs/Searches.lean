import ElfInspect.Proofs.Reports
import ElfInspect.Proofs.SessionLog

/-!
Searches for a symbol by name and by address. Both look into the first table of dynamic symbols and,
only if that has nothing for them, into the first table of static ones; within a table the first try
that hits or fails decides, by name from both ends in turn and by address from the lowest index on:
`symbolNamed_searches`, `symbolContaining_searches`.
-/

namespace ElfInspect

variable {img : Image} {α β : Type}

/-! ## From both ends -/

/-- The `n` indices from `low` on, from both ends in turn: the lowest, the highest, and then those
between them. -/
def fromEnds : Nat → Nat → List Nat
  | _, 0 => []
  | low, 1 => [low]
  | low, n + 2 => low :: (low + n + 1) :: fromEnds (low + 1) n

/-- The indices below `n` from both ends in turn. -/
def endsFirst (n : Nat) : List Nat := fromEnds 0 n

/-- Index `i` is nearer to an end than `j`, or as near and at the lower one. -/
def NearerEnd (n i j : Nat) : Prop :=
  min i (n - 1 - i) < min j (n - 1 - j) ∨ min i (n - 1 - i) = min j (n - 1 - j) ∧ i < j

theorem fromEnds_perm (low n : Nat) : (fromEnds low n).Perm (List.range' low n) := by
  fun_induction fromEnds low n with
  | case1 low => exact .refl _
  | case2 low => exact .refl _
  | case3 low n ih =>
    have hlast : List.range' low (n + 2) = low :: (List.range' (low + 1) n ++ [low + n + 1]) := by
      rw [List.range'_succ, List.range'_concat, Nat.one_mul, Nat.add_right_comm]
    rw [hlast]
    exact .cons low ((ih.cons _).trans (List.perm_append_singleton _ _).symm)

theorem twoEnded_add_two {n k : Nat} (h : k < n) : twoEnded (n + 2) (k + 2) = twoEnded n k + 1 := by
  unfold twoEnded
  split <;> split <;> omega

/-- The `k`-th of them in closed form. -/
theorem fromEnds_eq (low n : Nat) :
    fromEnds low n = (List.range n).map fun k => low + twoEnded n k := by
  fun_induction fromEnds low n with
  | case1 low => rfl
  | case2 low => rfl
  | case3 low n ih =>
    have hrest : fromEnds (low + 1) n =
        (List.range n).map fun k => low + twoEnded (n + 2) (2 + k) := by
      rw [ih]
      refine List.map_congr_left fun k hk => ?_
      rw [Nat.add_comm 2 k, twoEnded_add_two (List.mem_range.1 hk)]
      omega
    have hsplit : List.range (n + 2) = 0 :: 1 :: (List.range n).map (2 + ·) := by
      rw [Nat.add_comm n 2, List.range_add]
      rfl
    change _ = (List.range (n + 2)).map fun k => low + twoEnded (n + 2) k
    rw [hsplit, List.map_cons, List.map_cons, List.map_map, hrest]
    rfl

theorem endsFirst_eq (n : Nat) : endsFirst n = (List.range n).map (twoEnded n) := by
  rw [endsFirst, fromEnds_eq]
  simp

theorem endsFirst_perm (n : Nat) : (endsFirst n).Perm (List.range n) := by
  rw [List.range_eq_range']
  exact fromEnds_perm 0 n

theorem mem_endsFirst_iff {n j : Nat} : j ∈ endsFirst n ↔ j < n := by
  rw [(endsFirst_perm n).mem_iff, List.mem_range]

theorem endsFirst_pairwise (n : Nat) : (endsFirst n).Pairwise (NearerEnd n) := by
  rw [endsFirst_eq, List.pairwise_map]
  refine List.Pairwise.imp_of_mem (fun {k l} _ hl hlt => ?_) List.pairwise_lt_range
  rw [List.mem_range] at hl
  unfold NearerEnd twoEnded
  split <;> split <;> omega

/-- The middle one of an odd number of indices comes last. -/
theorem endsFirst_middle (n : Nat) : (endsFirst (2 * n + 1)).getLast? = some n := by
  rw [endsFirst_eq, List.range_succ, List.map_append, List.map_singleton, List.getLast?_append]
  simp [twoEnded]

example : endsFirst 5 = [0, 4, 1, 3, 2] := rfl

/-! ## Tries -/

/-- The types of the tables in the order in which they are searched: dynamic symbols, and then
static ones. -/
def searchedTypes : List Nat := [11, 2]

namespace Image

/-- What looking at section `i` gives in a search for a section type. -/
inductive TypeTry (img : Image) (type i : Nat) : Except Fault (Option SectionHit) → Prop
  | unread {fault : Fault} (h : img.sectionAt i = .error fault) :
    TypeTry img type i (.error fault)
  | hit {s : SectionEntry} (h : img.sectionAt i = .ok s) (htype : s.type = type) :
    TypeTry img type i (.ok (some ⟨i, s⟩))
  | other {s : SectionEntry} (h : img.sectionAt i = .ok s) (htype : s.type ≠ type) :
    TypeTry img type i (.ok none)

/-- What looking at symbol `j` of the section `table` gives in a search for a name. -/
inductive NameTry (img : Image) (wanted : String) (table j : Nat) :
    Except Fault (Option SymbolHit) → Prop
  | unread {fault : Fault} (h : img.symbolAt table j = .error fault) :
    NameTry img wanted table j (.error fault)
  | unnamed {symbol : SymbolEntry} {fault : Fault} (h : img.symbolAt table j = .ok symbol)
    (hname : img.symbolName table j = .error fault) : NameTry img wanted table j (.error fault)
  | hit {symbol : SymbolEntry} (h : img.symbolAt table j = .ok symbol)
    (hname : img.symbolName table j = .ok wanted) :
    NameTry img wanted table j (.ok (some ⟨table, j, symbol⟩))
  | other {symbol : SymbolEntry} {name : String} (h : img.symbolAt table j = .ok symbol)
    (hname : img.symbolName table j = .ok name) (hne : name ≠ wanted) :
    NameTry img wanted table j (.ok none)

/-- What looking at symbol `j` of the section `table` gives in a search for an address. -/
inductive AddressTry (img : Image) (address table j : Nat) :
    Except Fault (Option SymbolHit) → Prop
  | unread {fault : Fault} (h : img.symbolAt table j = .error fault) :
    AddressTry img address table j (.error fault)
  | hit {symbol : SymbolEntry} (h : img.symbolAt table j = .ok symbol)
    (hin : symbol.value ≤ address ∧ address < symbol.value + symbol.size) :
    AddressTry img address table j (.ok (some ⟨table, j, symbol⟩))
  | other {symbol : SymbolEntry} (h : img.symbolAt table j = .ok symbol)
    (hout : ¬ (symbol.value ≤ address ∧ address < symbol.value + symbol.size)) :
    AddressTry img address table j (.ok none)

/-- Where the first section behind section 0 is that has the type. -/
def Locates (img : Image) (type : Nat) : Except Fault (Option SectionHit) → Prop :=
  FirstEvent (img.TypeTry type) (List.range' 1 (img.header.sectionCount - 1))

/-- What a search gives in the table that is found by its type. -/
inductive TableSearch (img : Image)
    (inTable : SectionHit → Except Fault (Option SymbolHit) → Prop) (type : Nat) :
    Except Fault (Option SymbolHit) → Prop
  | lost {fault : Fault} (h : img.Locates type (.error fault)) :
    TableSearch img inTable type (.error fault)
  | absent (h : img.Locates type (.ok none)) : TableSearch img inTable type (.ok none)
  | searched {table : SectionHit} {r : Except Fault (Option SymbolHit)}
    (h : img.Locates type (.ok (some table))) (hr : inTable table r) :
    TableSearch img inTable type r

/-- What a search for a name gives in a table. -/
def NameSearch (img : Image) (wanted : String) (table : SectionHit)
    (r : Except Fault (Option SymbolHit)) : Prop :=
  ∃ n, table.entry.Counts n ∧ FirstEvent (img.NameTry wanted table.index) (endsFirst n) r

/-- What a search for an address gives in a table. -/
def AddressSearch (img : Image) (address : Nat) (table : SectionHit)
    (r : Except Fault (Option SymbolHit)) : Prop :=
  ∃ n, table.entry.Counts n ∧ FirstEvent (img.AddressTry address table.index) (List.range n) r

theorem typeTry_iff {type i : Nat} {r : Except Fault (Option SectionHit)} :
    (do
      let s ← img.sectionAt i
      return if s.type = type then some ⟨i, s⟩ else none) = r ↔ img.TypeTry type i r := by
  constructor
  · rintro rfl
    cases hs : img.sectionAt i with
    | error fault => exact .unread hs
    | ok s =>
      by_cases htype : s.type = type
      · simpa [htype, bind, Except.bind, pure, Except.pure] using TypeTry.hit hs htype
      · simpa [htype, bind, Except.bind, pure, Except.pure] using TypeTry.other hs htype
  · rintro (hs | ⟨hs, htype⟩ | ⟨hs, htype⟩)
    · rw [hs]
      rfl
    · simp [hs, htype, bind, Except.bind, pure, Except.pure]
    · simp [hs, htype, bind, Except.bind, pure, Except.pure]

theorem nameTry_iff {wanted : String} {table j : Nat} {r : Except Fault (Option SymbolHit)} :
    (do
      let symbol ← img.symbolAt table j
      return if (← img.symbolName table j) = wanted then some ⟨table, j, symbol⟩ else none) = r ↔
      img.NameTry wanted table j r := by
  constructor
  · rintro rfl
    cases hsymbol : img.symbolAt table j with
    | error fault => exact .unread hsymbol
    | ok symbol =>
      cases hname : img.symbolName table j with
      | error fault => exact .unnamed hsymbol hname
      | ok name =>
        by_cases heq : name = wanted
        · subst heq
          simpa [bind, Except.bind, pure, Except.pure] using NameTry.hit hsymbol hname
        · simpa [heq, bind, Except.bind, pure, Except.pure] using NameTry.other hsymbol hname heq
  · rintro (hsymbol | ⟨hsymbol, hname⟩ | ⟨hsymbol, hname⟩ | ⟨hsymbol, hname, hne⟩)
    · rw [hsymbol]
      rfl
    · rw [hsymbol, hname]
      rfl
    · simp [hsymbol, hname, bind, Except.bind, pure, Except.pure]
    · simp [hsymbol, hname, hne, bind, Except.bind, pure, Except.pure]

theorem addressTry_iff {address table j : Nat} {r : Except Fault (Option SymbolHit)} :
    (do
      let symbol ← img.symbolAt table j
      return if symbol.contains address then some ⟨table, j, symbol⟩ else none) = r ↔
      img.AddressTry address table j r := by
  simp only [SymbolEntry.contains_iff]
  constructor
  · rintro rfl
    cases hsymbol : img.symbolAt table j with
    | error fault => exact .unread hsymbol
    | ok symbol =>
      by_cases hin : symbol.value ≤ address ∧ address < symbol.value + symbol.size
      · simpa [hin, bind, Except.bind, pure, Except.pure] using AddressTry.hit hsymbol hin
      · simpa only [hin, bind, Except.bind, pure, Except.pure, if_false] using
          AddressTry.other hsymbol hin
  · rintro (hsymbol | ⟨hsymbol, hin⟩ | ⟨hsymbol, hout⟩)
    · rw [hsymbol]
      rfl
    · simp [hsymbol, hin, bind, Except.bind, pure, Except.pure]
    · simp only [hsymbol, hout, bind, Except.bind, pure, Except.pure, if_false]

/-! ## Searches -/

/-- A search by type for a section, and the section itself. -/
theorem wellKnown_eq_firstHit (w : WellKnown) :
    img.wellKnown w = firstHit (fun i => do
      let s ← img.sectionAt i
      return if s.type = w.type then some ⟨i, s⟩ else none) 1 (img.header.sectionCount - 1) := by
  unfold wellKnown indexOfType
  generalize img.header.sectionCount - 1 = n
  generalize 1 = start
  induction n generalizing start with
  | zero => rfl
  | succ n ih =>
    rw [firstHit_succ, firstHit_succ, ← ih]
    cases hs : img.sectionAt start with
    | error fault => rfl
    | ok s =>
      by_cases htype : s.type = w.type
      · simp [htype, hs, bind, Except.bind, pure, Except.pure]
      · simp [htype, bind, Except.bind, pure, Except.pure]

theorem typeHit_eq_iff {type : Nat} {r : Except Fault (Option SectionHit)} :
    firstHit (fun i => do
      let s ← img.sectionAt i
      return if s.type = type then some ⟨i, s⟩ else none) 1 (img.header.sectionCount - 1) = r ↔
      img.Locates type r :=
  firstHit_eq_iff fun _ _ => typeTry_iff

theorem wellKnown_eq_iff {w : WellKnown} {r : Except Fault (Option SectionHit)} :
    img.wellKnown w = r ↔ img.Locates w.type r := by
  rw [wellKnown_eq_firstHit]
  exact typeHit_eq_iff

theorem Locates.unique {type : Nat} {r r' : Except Fault (Option SectionHit)}
    (h : img.Locates type r) (h' : img.Locates type r') : r = r' :=
  (typeHit_eq_iff.2 h).symm.trans (typeHit_eq_iff.2 h')

section Tables

variable {search : SectionHit → Except Fault (Option SymbolHit)}
  {inTable : SectionHit → Except Fault (Option SymbolHit) → Prop}
  {r : Except Fault (Option SymbolHit)} {w : WellKnown} {type : Nat} {table : SectionHit}

theorem searchIn_eq_iff (h : ∀ table r, search table = r ↔ inTable table r) :
    searchIn (img.wellKnown w) search = r ↔ img.TableSearch inTable w.type r := by
  constructor
  · rintro rfl
    cases hplace : img.wellKnown w with
    | error fault => exact .lost (wellKnown_eq_iff.1 hplace)
    | ok found =>
      cases found with
      | none => exact .absent (wellKnown_eq_iff.1 hplace)
      | some table => exact .searched (wellKnown_eq_iff.1 hplace) ((h table _).1 rfl)
  · rintro (hplace | hplace | ⟨hplace, hr⟩) <;> rw [searchIn, wellKnown_eq_iff.2 hplace]
    · rfl
    · rfl
    · exact (h _ _).2 hr

/-- The dynamic table decides, or it has nothing and the static one does. -/
theorem searchSymbols_eq_iff (h : ∀ table r, search table = r ↔ inTable table r) :
    img.searchSymbols search = r ↔ FirstEvent (img.TableSearch inTable) searchedTypes r :=
  firstSome_eq_iff_firstEvent (fun _ => searchIn_eq_iff h) fun _ => searchIn_eq_iff h

/-- A search by type finds one table. -/
theorem TableSearch.in_located (h : img.TableSearch inTable type r)
    (hplace : img.Locates type (.ok (some table))) : inTable table r := by
  cases h with
  | lost hlost => cases hlost.unique hplace
  | absent habsent => cases habsent.unique hplace
  | searched hother hr =>
    cases hother.unique hplace
    exact hr

end Tables

/-- The two-ended walk of a table. -/
theorem nameSearch_iff {name : String} (table : SectionHit)
    (r : Except Fault (Option SymbolHit)) :
    firstHit (fun k => do
      let j := twoEnded table.entry.entryCount k
      let symbol ← img.symbolAt table.index j
      return if (← img.symbolName table.index j) = name then some ⟨table.index, j, symbol⟩
        else none) 0 table.entry.entryCount = r ↔ img.NameSearch name table r := by
  rw [NameSearch, SectionEntry.exists_counts_and, endsFirst_eq, firstEvent_map_iff,
    List.range_eq_range']
  exact firstHit_eq_iff fun k r => nameTry_iff

/-- The walk of a table from the lowest index on. -/
theorem addressSearch_iff {address : Nat} (table : SectionHit)
    (r : Except Fault (Option SymbolHit)) :
    firstHit (fun j => do
      let symbol ← img.symbolAt table.index j
      return if symbol.contains address then some ⟨table.index, j, symbol⟩ else none)
      0 table.entry.entryCount = r ↔ img.AddressSearch address table r := by
  rw [AddressSearch, SectionEntry.exists_counts_and, List.range_eq_range']
  exact firstHit_eq_iff fun j r => addressTry_iff

theorem symbolNamed_eq_iff {name : String} {r : Except Fault (Option SymbolHit)} :
    img.symbolNamed name = r ↔
      FirstEvent (img.TableSearch (img.NameSearch name)) searchedTypes r :=
  searchSymbols_eq_iff nameSearch_iff

theorem symbolContaining_eq_iff {address : Nat} {r : Except Fault (Option SymbolHit)} :
    img.symbolContaining address = r ↔
      FirstEvent (img.TableSearch (img.AddressSearch address)) searchedTypes r :=
  searchSymbols_eq_iff addressSearch_iff

end Image

/-! ## Slots that a search keeps to -/

namespace Observed

/-- All visits are to slots that have the property. -/
def StaysIn (p : Slot → Prop) (w : Observed α) : Prop := ∀ s, ∀ v ∈ w.visits s, p v.slot

section StaysIn

variable {p : Slot → Prop}

theorem staysIn_silent (m : SessionM α) : (silent m).StaysIn p :=
  fun _ _ hv => absurd hv List.not_mem_nil

theorem staysIn_bind {m : Observed α} {f : α → Observed β} (hm : m.StaysIn p)
    (hf : ∀ a, (f a).StaysIn p) : (m >>= f).StaysIn p := by
  intro s v hv
  rcases bind_cases m f s with ⟨_, _, -, hvisits, -⟩ | ⟨a, next, -, hvisits, -⟩
  · rw [hvisits] at hv
    exact hm s v hv
  · rw [hvisits] at hv
    exact (List.mem_append.1 hv).elim (hm s v) (hf a next v)

/-- An access visits its own slot and what its producer visits. -/
theorem mem_once_visits {slot : Slot} {produce : Observed slot.Content} {s : Session} {v : Visit}
    (hv : v ∈ (once slot produce).visits s) : v.slot = slot ∨ v ∈ produce.visits s := by
  rw [once_visits] at hv
  split at hv
  · rw [List.mem_singleton.1 hv]
    exact .inl rfl
  · rcases List.mem_cons.1 hv with rfl | hv
    · exact .inl rfl
    · refine (List.mem_append.1 hv).symm.imp_left fun hv => ?_
      rw [List.mem_singleton.1 hv]
      cases (produce.plain.run.run s).1 <;> rfl

theorem staysIn_once {slot : Slot} {produce : Observed slot.Content} (hslot : p slot)
    (h : produce.StaysIn p) : (once slot produce).StaysIn p := fun s v hv =>
  (mem_once_visits hv).elim (fun heq => heq ▸ hslot) (h s v)

theorem staysIn_entry {slot : Slot} (hslot : p slot) (place : Except Fault Nat)
    (e : Nat → Event) (decode : Nat → Except Fault slot.Content) :
    (once slot do
      let offset ← place
      report (e offset)
      decode offset).StaysIn p := by
  refine staysIn_once hslot (staysIn_bind (staysIn_silent _) fun offset => ?_)
  exact staysIn_bind (staysIn_silent _) fun _ => staysIn_silent _

theorem staysIn_firstHit {f : Nat → Observed (Option α)} (h : ∀ i, (f i).StaysIn p)
    (start n : Nat) : (firstHit f start n).StaysIn p := by
  induction n generalizing start with
  | zero => exact staysIn_silent _
  | succ n ih =>
    refine staysIn_bind (h start) fun hit => ?_
    cases hit with
    | some a => exact staysIn_silent _
    | none => exact ih (start + 1)

theorem staysIn_firstSome {a b : Observed (Option α)} (ha : a.StaysIn p) (hb : b.StaysIn p) :
    (firstSome a b).StaysIn p := by
  refine staysIn_bind ha fun hit => ?_
  cases hit with
  | some x => exact staysIn_silent _
  | none => exact hb

theorem staysIn_searchIn {place : Observed (Option α)} {search : α → Observed (Option β)}
    (hplace : place.StaysIn p) (h : ∀ a, (search a).StaysIn p) :
    (searchIn place search).StaysIn p := by
  refine staysIn_bind hplace fun found => ?_
  cases found with
  | some a => exact h a
  | none => exact staysIn_silent _

variable (img : Image)

theorem sectionAt_staysIn {i : Nat} (h : p (.sectionEntry i)) : (sectionAt img i).StaysIn p :=
  staysIn_entry h _ _ _

variable (hsections : ∀ i, p (.sectionEntry i))
include hsections

theorem wellKnown_staysIn {w : WellKnown} (hindex : p (.indexOf w)) :
    (wellKnown img w).StaysIn p := by
  have hsection (i : Nat) := sectionAt_staysIn img (hsections i)
  refine staysIn_bind (staysIn_once hindex (staysIn_firstHit (fun i => ?_) _ _)) fun found => ?_
  · refine staysIn_bind (hsection i) fun s => ?_
    split
    · exact staysIn_bind (staysIn_silent _) fun _ => staysIn_silent _
    · exact staysIn_silent _
  · cases found with
    | some i => exact staysIn_bind (hsection i) fun s => staysIn_silent _
    | none => exact staysIn_silent _

variable (hcounts : ∀ i, p (.symbolCount i)) (hsymbols : ∀ i j, p (.symbol i j))
include hcounts hsymbols

theorem symbolAt_staysIn (i j : Nat) : (symbolAt img i j).StaysIn p := by
  refine staysIn_bind (sectionAt_staysIn img (hsections i)) fun s => ?_
  refine staysIn_bind (staysIn_once (hcounts i) (staysIn_silent _)) fun count => ?_
  exact staysIn_entry (hsymbols i j) _ _ _

theorem symbolName_staysIn (hstrings : ∀ i, p (.stringTable i))
    (hnames : ∀ i j, p (.symbolName i j)) (i j : Nat) : (symbolName img i j).StaysIn p := by
  have hsection (i : Nat) := sectionAt_staysIn img (hsections i)
  have hdata (t : SectionEntry) :
      (do return ⟨← t.data img.bytes⟩ : Observed StringTable).StaysIn p :=
    staysIn_bind (staysIn_silent _) fun _ => staysIn_silent _
  refine staysIn_bind (hsection i) fun s => ?_
  refine staysIn_bind (symbolAt_staysIn img hsections hcounts hsymbols i j) fun symbol => ?_
  refine staysIn_once (hnames i j) (staysIn_bind ?_ fun table => staysIn_silent _)
  exact staysIn_bind (hsection s.link) fun t => staysIn_once (hstrings s.link) (hdata t)

end StaysIn

/-- Where the first of two searches is decided, no more is visited. -/
theorem firstSome_visits {a b : Observed (Option α)} {s : Session}
    (h : (a.plain.run.run s).1 ≠ .ok none) : (firstSome a b).visits s = a.visits s := by
  rcases bind_cases a _ s with ⟨_, _, -, hvisits, -⟩ | ⟨hit, next, hend, hvisits, -⟩
  · exact hvisits
  · rw [hend] at h
    cases hit with
    | none => exact absurd rfl h
    | some x => exact hvisits.trans (List.append_nil _)

end Observed

/-! ## Searches in a session -/

/-- A name, or the strings that names are taken from. -/
def Slot.isText : Slot → Bool
  | .sectionName _ | .stringTable _ | .symbolName _ _ => true
  | _ => false

namespace Image

/-- The table is one of those that are searched. -/
def Searched (img : Image) (table : SectionHit) : Prop :=
  ∃ type ∈ searchedTypes, img.Locates type (.ok (some table))

/-- Symbol `j` of the table has the name. -/
def Bears (img : Image) (name : String) (table : SectionHit) (j : Nat) : Prop :=
  table.entry.HasEntry j ∧ img.symbolName table.index j = .ok name

/-- Nothing fails that a search by name may come across. -/
structure NamesReadable (img : Image) : Prop where
  located : ∀ type ∈ searchedTypes, ∃ found, img.Locates type (.ok found)
  named : ∀ table, img.Searched table → ∀ j, table.entry.HasEntry j →
    ∃ name, img.symbolName table.index j = .ok name

/-- Of the symbols of the table that have the name, the hit is the one nearest to an end. -/
structure NearestNamed (img : Image) (name : String) (table : SectionHit) (hit : SymbolHit) :
    Prop where
  inTable : hit.table = table.index
  entry : img.symbolAt table.index hit.index = .ok hit.entry
  bears : img.Bears name table hit.index
  nearest : ∀ n, table.entry.Counts n → ∀ j, img.Bears name table j →
    j = hit.index ∨ NearerEnd n hit.index j

variable {name : String} {table : SectionHit} {hit : SymbolHit}
  {inTable : SectionHit → Except Fault (Option SymbolHit) → Prop}

theorem symbolAt_of_symbolName {i j : Nat} (h : img.symbolName i j = .ok name) :
    ∃ symbol, img.symbolAt i j = .ok symbol := by
  cases hs : img.sectionAt i with
  | error fault => simp [symbolName, hs, bind, Except.bind] at h
  | ok s =>
    cases hsymbol : img.symbolAt i j with
    | error fault => simp [symbolName, hs, hsymbol, bind, Except.bind] at h
    | ok symbol => exact ⟨symbol, rfl⟩

/-- A search that finds something finds it in one of the tables. -/
theorem searched_of_some
    (h : FirstEvent (img.TableSearch inTable) searchedTypes (.ok (some hit))) :
    ∃ table, img.Searched table ∧ inTable table (.ok (some hit)) := by
  cases h with
  | @event before after type _ horder _ htype _ =>
    have hmem : type ∈ searchedTypes := horder ▸ List.mem_append_right _ List.mem_cons_self
    cases htype with
    | searched hplace hr => exact ⟨_, ⟨type, hmem, hplace⟩, hr⟩

/-- A search that finds nothing finds it in none of the tables. -/
theorem searched_of_none (h : FirstEvent (img.TableSearch inTable) searchedTypes (.ok none))
    (htable : img.Searched table) : inTable table (.ok none) := by
  obtain ⟨type, htype, hplace⟩ := htable
  exact (firstEvent_none_iff.1 h type htype).in_located hplace

theorem NameSearch.nearest (h : img.NameSearch name table (.ok (some hit))) :
    img.NearestNamed name table hit := by
  obtain ⟨n, hcount, hfirst⟩ := h
  obtain ⟨j, hj, htry, hothers⟩ := FirstEvent.decided (endsFirst_pairwise n) hfirst nofun
  rw [mem_endsFirst_iff] at hj
  cases htry with
  | hit hsymbol hname =>
    refine ⟨rfl, hsymbol, ⟨⟨n, hcount, hj⟩, hname⟩, fun m hm k hk => ?_⟩
    obtain rfl : m = n := hm.unique hcount
    rcases hothers k (mem_endsFirst_iff.2 (hcount.lt_of_hasEntry hk.1)) with htry | hlater
    · cases htry with
      | other _ hother hne =>
        rw [hk.2] at hother
        exact absurd (Except.ok.inj hother).symm hne
    · exact hlater

theorem NameSearch.not_bears (h : img.NameSearch name table (.ok none)) (j : Nat) :
    ¬ img.Bears name table j := by
  rintro ⟨hj, hname⟩
  obtain ⟨n, hcount, hfirst⟩ := h
  cases firstEvent_none_iff.1 hfirst j (mem_endsFirst_iff.2 (hcount.lt_of_hasEntry hj)) with
  | other _ hother hne =>
    rw [hname] at hother
    exact hne (Except.ok.inj hother).symm

theorem AddressSearch.holds {address : Nat}
    (h : img.AddressSearch address table (.ok (some hit))) :
    hit.entry.value ≤ address ∧ address < hit.entry.value + hit.entry.size := by
  obtain ⟨n, -, hfirst⟩ := h
  obtain ⟨j, -, htry, -⟩ := FirstEvent.decided List.pairwise_lt_range hfirst nofun
  cases htry with
  | hit _ hin => exact hin

/-- A table in which no symbol holds the address. -/
theorem addressSearch_none_iff {address type : Nat} :
    img.TableSearch (img.AddressSearch address) type (.ok none) ↔ img.Locates type (.ok none) ∨
      ∃ table, img.Locates type (.ok (some table)) ∧ ∀ j, table.entry.HasEntry j →
        ∃ symbol, img.symbolAt table.index j = .ok symbol ∧
          ¬ (symbol.value ≤ address ∧ address < symbol.value + symbol.size) := by
  constructor
  · intro h
    cases h with
    | absent hplace => exact .inl hplace
    | @searched table _ hplace hr =>
      obtain ⟨n, hcount, hfirst⟩ := hr
      refine .inr ⟨table, hplace, fun j hj => ?_⟩
      cases firstEvent_none_iff.1 hfirst j (List.mem_range.2 (hcount.lt_of_hasEntry hj)) with
      | other hsymbol hout => exact ⟨_, hsymbol, hout⟩
  · rintro (hplace | ⟨table, hplace, hall⟩)
    · exact .absent hplace
    · obtain ⟨n, hcount⟩ := table.entry.exists_counts
      refine .searched hplace ⟨n, hcount, .nothing fun j hj => ?_⟩
      obtain ⟨symbol, hsymbol, hout⟩ := hall j ⟨n, hcount, List.mem_range.1 hj⟩
      exact .other hsymbol hout

theorem NamesReadable.search_ok (h : img.NamesReadable) (name : String) :
    ∃ found, img.symbolNamed name = .ok found := by
  simp only [symbolNamed_eq_iff]
  refine exists_firstEvent_ok fun type htype => ?_
  obtain ⟨_ | table, hplace⟩ := h.located type htype
  · exact ⟨none, .absent hplace⟩
  · obtain ⟨n, hcount⟩ := table.entry.exists_counts
    have hfirst : ∃ found,
        FirstEvent (img.NameTry name table.index) (endsFirst n) (.ok found) := by
      refine exists_firstEvent_ok fun j hj => ?_
      obtain ⟨found, hfound⟩ :=
        h.named table ⟨type, htype, hplace⟩ j ⟨n, hcount, mem_endsFirst_iff.1 hj⟩
      obtain ⟨symbol, hsymbol⟩ := symbolAt_of_symbolName hfound
      by_cases heq : found = name
      · exact ⟨_, .hit hsymbol (heq ▸ hfound)⟩
      · exact ⟨none, .other hsymbol hfound heq⟩
    obtain ⟨found, hfound⟩ := hfirst
    exact ⟨found, .searched hplace ⟨n, hcount, hfound⟩⟩

end Image

namespace Observed

/-- What the dynamic table decides is decided there, and nothing else is visited. -/
theorem searchSymbols_visits {search : SectionHit → Observed (Option SymbolHit)}
    {found : SectionHit → Except Fault (Option SymbolHit)}
    {inTable : SectionHit → Except Fault (Option SymbolHit) → Prop}
    {r : Except Fault (Option SymbolHit)} {s : Session} (hs : s.Sound img)
    (hsearch : ∀ table, Agrees img (search table).plain (found table))
    (hfound : ∀ table r, found table = r ↔ inTable table r)
    (h : img.TableSearch inTable 11 r) (hr : r ≠ .ok none) :
    (searchSymbols img search).visits s =
      (searchIn (wellKnown img .dynamicSymbols) search).visits s := by
  refine firstSome_visits ?_
  rw [searchIn_plain (wellKnown_plain img _) fun _ => rfl,
    (agrees_searchIn (SessionM.wellKnown_agrees img _) hsearch s hs).1,
    (Image.searchIn_eq_iff hfound).2 h]
  exact hr

/-- A search by name in the dynamic table does not look for the static one. -/
theorem dynamicNamed_staysIn (img : Image) (name : String) :
    (searchIn (wellKnown img .dynamicSymbols) fun table =>
      firstHit (fun k => do
        let j := twoEnded table.entry.entryCount k
        let symbol ← symbolAt img table.index j
        return if (← symbolName img table.index j) = name then
          some (⟨table.index, j, symbol⟩ : SymbolHit)
        else none) 0 table.entry.entryCount).StaysIn (· ≠ .indexOf .symbolTable) := by
  refine staysIn_searchIn (wellKnown_staysIn img (fun _ => nofun) nofun) fun table => ?_
  refine staysIn_firstHit (fun k => ?_) _ _
  refine staysIn_bind ?_ fun symbol => staysIn_bind ?_ fun found => staysIn_silent _
  · exact symbolAt_staysIn img (fun _ => nofun) (fun _ => nofun) (fun _ _ => nofun) _ _
  · exact symbolName_staysIn img (fun _ => nofun) (fun _ => nofun) (fun _ _ => nofun)
      (fun _ => nofun) (fun _ _ => nofun) _ _

/-- A search by name that the dynamic table decides does not look for the static one. -/
theorem symbolNamed_visits {name : String} {r : Except Fault (Option SymbolHit)} {s : Session}
    (hs : s.Sound img) (h : img.TableSearch (img.NameSearch name) 11 r)
    (hr : r ≠ .ok none) :
    ∀ v ∈ (symbolNamed img name).visits s, v.slot ≠ .indexOf .symbolTable := by
  unfold symbolNamed
  rw [searchSymbols_visits hs (fun table => ?_) Image.nameSearch_iff h hr]
  · exact dynamicNamed_staysIn img name s
  · rw [firstHit_plain fun _ => rfl]
    exact agrees_firstHit (fun k => SessionM.nameTest_agrees img name table.index _) _ _

/-- A search by address keeps away from names. -/
theorem symbolContaining_staysIn (img : Image) (address : Nat) :
    (symbolContaining img address).StaysIn (·.isText = false) := by
  have hwalk (table : SectionHit) : (firstHit (fun j => do
      let symbol ← symbolAt img table.index j
      return if symbol.contains address then some (⟨table.index, j, symbol⟩ : SymbolHit) else none)
      0 table.entry.entryCount).StaysIn (·.isText = false) := by
    refine staysIn_firstHit (fun j => staysIn_bind ?_ fun symbol => staysIn_silent _) _ _
    exact symbolAt_staysIn img (fun _ => rfl) (fun _ => rfl) (fun _ _ => rfl) _ j
  have hplace (w : WellKnown) : (wellKnown img w).StaysIn (·.isText = false) :=
    wellKnown_staysIn img (fun _ => rfl) rfl
  exact staysIn_firstSome (staysIn_searchIn (hplace _) hwalk) (staysIn_searchIn (hplace _) hwalk)

end Observed

/-- The search by name, whatever has been asked before. The first symbol in the order from both ends
that has the name, or that fails, decides in a table, and what the dynamic table decides is the
answer without a look for the static one. -/
theorem symbolNamed_searches (img : Image) (asked : List Query) (name : String) :
    let answer := Session.resultAfter img asked (SessionM.symbolNamed img name)
    (∀ r, answer = r ↔ FirstEvent (img.TableSearch (img.NameSearch name)) searchedTypes r) ∧
      (∀ n, (endsFirst n).Perm (List.range n) ∧ (endsFirst n).Pairwise (NearerEnd n) ∧
        (endsFirst (2 * n + 1)).getLast? = some n) ∧
      (∀ found, answer = .ok found →
        (found.isSome ↔ ∃ table, img.Searched table ∧ ∃ j, img.Bears name table j)) ∧
      (img.NamesReadable → ∃ found, answer = .ok found) ∧
      (∀ hit, answer = .ok (some hit) →
        ∃ table, img.Searched table ∧ img.NearestNamed name table hit) ∧
      (Observed.symbolNamed img name).plain = SessionM.symbolNamed img name ∧
      ∀ r, r ≠ .ok none → img.TableSearch (img.NameSearch name) 11 r →
        answer = r ∧ ∀ v ∈ (Observed.symbolNamed img name).visits (Session.after img asked),
          v.slot ≠ .indexOf .symbolTable := by
  intro answer
  have hanswer : answer = img.symbolNamed name :=
    (SessionM.symbolNamed_agrees img name).resultAfter asked
  have hsearch (r : Except Fault (Option SymbolHit)) :
      answer = r ↔ FirstEvent (img.TableSearch (img.NameSearch name)) searchedTypes r := by
    rw [hanswer]
    exact Image.symbolNamed_eq_iff
  have hnearest (hit : SymbolHit) (h : answer = .ok (some hit)) :
      ∃ table, img.Searched table ∧ img.NearestNamed name table hit := by
    obtain ⟨table, htable, hin⟩ := Image.searched_of_some ((hsearch _).1 h)
    exact ⟨table, htable, Image.NameSearch.nearest hin⟩
  refine ⟨hsearch, fun n => ⟨endsFirst_perm n, endsFirst_pairwise n, endsFirst_middle n⟩,
    fun found h => ?_, fun h => hanswer ▸ h.search_ok name, hnearest,
    Observed.symbolNamed_plain img name, fun r hr h => ⟨?_, ?_⟩⟩
  · cases found with
    | some hit =>
      obtain ⟨table, htable, hin⟩ := hnearest hit h
      exact iff_of_true rfl ⟨table, htable, hit.index, hin.bears⟩
    | none =>
      refine iff_of_false nofun ?_
      rintro ⟨table, htable, j, hj⟩
      exact (Image.searched_of_none ((hsearch _).1 h) htable).not_bears j hj
  · exact (hsearch r).2 (firstEvent_cons_iff.2 (.inl ⟨h, hr⟩))
  · exact Observed.symbolNamed_visits (Session.after_sound img asked) h hr

/-- The search by address, whatever has been asked before. The first symbol that holds the address,
or that fails, decides in a table; no name is looked at. -/
theorem symbolContaining_searches (img : Image) (asked : List Query) (address : Nat) :
    let answer := Session.resultAfter img asked (SessionM.symbolContaining img address)
    (∀ r, answer = r ↔
        FirstEvent (img.TableSearch (img.AddressSearch address)) searchedTypes r) ∧
      (answer = .ok none ↔ ∀ type ∈ searchedTypes, img.Locates type (.ok none) ∨
        ∃ table, img.Locates type (.ok (some table)) ∧ ∀ j, table.entry.HasEntry j →
          ∃ symbol, img.symbolAt table.index j = .ok symbol ∧
            ¬ (symbol.value ≤ address ∧ address < symbol.value + symbol.size)) ∧
      (∀ hit, answer = .ok (some hit) → 0 < hit.entry.size ∧ hit.entry.value ≤ address ∧
        address < hit.entry.value + hit.entry.size) ∧
      (∀ table j symbol, img.symbolAt table j = .ok symbol →
        2 ^ 64 ≤ symbol.value + symbol.size → address < 2 ^ 64 → symbol.value ≤ address →
          img.AddressTry address table j (.ok (some ⟨table, j, symbol⟩))) ∧
      (Observed.symbolContaining img address).plain = SessionM.symbolContaining img address ∧
      ∀ v ∈ (Observed.symbolContaining img address).visits (Session.after img asked),
        v.slot.isText = false := by
  intro answer
  have hsearch (r : Except Fault (Option SymbolHit)) : answer = r ↔
      FirstEvent (img.TableSearch (img.AddressSearch address)) searchedTypes r := by
    have hanswer : answer = img.symbolContaining address :=
      (SessionM.symbolContaining_agrees img address).resultAfter asked
    rw [hanswer]
    exact Image.symbolContaining_eq_iff
  refine ⟨hsearch, ?_, fun hit h => ?_, fun table j symbol hsymbol hend hlt hle => ?_,
    Observed.symbolContaining_plain img address,
    Observed.symbolContaining_staysIn img address (Session.after img asked)⟩
  · rw [hsearch, firstEvent_none_iff]
    exact forall₂_congr fun type _ => Image.addressSearch_none_iff
  · obtain ⟨table, -, hin⟩ := Image.searched_of_some ((hsearch _).1 h)
    obtain ⟨hle, hlt⟩ := hin.holds
    exact ⟨by omega, hle, hlt⟩
  · exact .hit hsymbol ⟨hle, by omega⟩

end ElfInspect
