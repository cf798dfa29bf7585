import ElfInspect.Proofs.Searches

/-!
Scans of the sections for a name or a type. Section 0 is left out; of the others the first one that
is wanted or cannot be looked at decides, and the scan does not get to those behind it:
`sections_scanned`.
-/

namespace ElfInspect

variable {img img' : Image} {α β : Type}

/-- Each section from 1 to below `k` can be looked at, and none is the wanted one. -/
def Passed (looks : Nat → Except Fault β) (wanted : β) (k : Nat) : Prop :=
  ∀ i, 1 ≤ i → i < k → ∃ b, looks i = .ok b ∧ b ≠ wanted

namespace Image

/-- The type of section `i`. -/
def typeAt (img : Image) (i : Nat) : Except Fault Nat := (img.sectionAt i).map (·.type)

/-- The answer of a scan for the first section behind section 0 of which `looks` says `wanted`. -/
structure Scan (img : Image) (looks : Nat → Except Fault β) (wanted : β)
    (answer : Except Fault (Option SectionHit)) : Prop where
  found : ∀ hit, answer = .ok (some hit) ↔
    1 ≤ hit.index ∧ hit.index < img.header.sectionCount ∧
      img.sectionAt hit.index = .ok hit.entry ∧ looks hit.index = .ok wanted ∧
      Passed looks wanted hit.index
  absent : answer = .ok none ↔ Passed looks wanted img.header.sectionCount
  failed : ∀ fault, answer = .error fault ↔
    ∃ k, 1 ≤ k ∧ k < img.header.sectionCount ∧ looks k = .error fault ∧ Passed looks wanted k

/-- The slots that looking at the name of section `i` may touch. -/
inductive ServesName (img : Image) (i : Nat) : Slot → Prop
  | entry : ServesName img i (.sectionEntry i)
  | name : ServesName img i (.sectionName i)
  | tableEntry (h : img.header.nameSection ≠ 0) :
    ServesName img i (.sectionEntry img.header.nameSection)
  | table (h : img.header.nameSection ≠ 0) :
    ServesName img i (.stringTable img.header.nameSection)

/-- The images have the same header and, behind section 0, the same sections. -/
structure SameBehindFirst (img img' : Image) : Prop where
  header : img'.header = img.header
  sectionAt : ∀ i, 1 ≤ i → img'.sectionAt i = img.sectionAt i
  stringTable : ∀ i, 1 ≤ i → img'.stringTable i = img.stringTable i

/-! ## One try -/

section Tries

variable [DecidableEq β] {looks : Nat → Except Fault β} {wanted : β} {i : Nat}

/-- One try of a scan. -/
def scanTest (img : Image) (looks : Nat → Except Fault β) (wanted : β) (i : Nat) :
    Except Fault (Option SectionHit) := do
  let s ← img.sectionAt i
  return if (← looks i) = wanted then some ⟨i, s⟩ else none

theorem sectionName_of_unread {fault : Fault} (h : img.sectionAt i = .error fault) :
    img.sectionName i = .error fault := by
  rw [sectionName, h]
  rfl

theorem typeAt_eq_ok_iff {type : Nat} :
    img.typeAt i = .ok type ↔ ∃ s, img.sectionAt i = .ok s ∧ s.type = type :=
  map_ok_iff

theorem typeAt_of_unread {fault : Fault} (h : img.sectionAt i = .error fault) :
    img.typeAt i = .error fault :=
  map_error_iff.2 h

variable (hunread : ∀ fault, img.sectionAt i = .error fault → looks i = .error fault)
include hunread

/-- A try looks at the section, which is read by then. -/
theorem scanTest_cases (wanted : β) :
    (∃ fault, looks i = .error fault ∧ img.scanTest looks wanted i = .error fault) ∨
      ∃ s b, img.sectionAt i = .ok s ∧ looks i = .ok b ∧
        img.scanTest looks wanted i = .ok (if b = wanted then some ⟨i, s⟩ else none) := by
  cases hs : img.sectionAt i with
  | error fault => exact .inl ⟨fault, hunread fault hs, by rw [scanTest, hs]; rfl⟩
  | ok s =>
    cases hlooks : looks i with
    | error fault => exact .inl ⟨fault, rfl, by rw [scanTest, hs, hlooks]; rfl⟩
    | ok b => exact .inr ⟨s, b, rfl, rfl, by rw [scanTest, hs, hlooks]; rfl⟩

theorem scanTest_none_iff :
    img.scanTest looks wanted i = .ok none ↔ ∃ b, looks i = .ok b ∧ b ≠ wanted := by
  rcases scanTest_cases hunread wanted with
    ⟨fault, hlooks, htest⟩ | ⟨s, b, -, hlooks, htest⟩ <;>
  simp [hlooks, htest]

theorem scanTest_some_iff {hit : SectionHit} :
    img.scanTest looks wanted i = .ok (some hit) ↔
      hit.index = i ∧ img.sectionAt i = .ok hit.entry ∧ looks i = .ok wanted := by
  rcases scanTest_cases hunread wanted with
    ⟨fault, hlooks, htest⟩ | ⟨s, b, hs, hlooks, htest⟩
  · simp [hlooks, htest]
  · obtain ⟨index, entry⟩ := hit
    simp only [hs, hlooks, htest, Except.ok.injEq, Option.ite_none_right_eq_some,
      Option.some.injEq, SectionHit.mk.injEq]
    tauto

theorem scanTest_error_iff {fault : Fault} :
    img.scanTest looks wanted i = .error fault ↔ looks i = .error fault := by
  rcases scanTest_cases hunread wanted with
    ⟨fault, hlooks, htest⟩ | ⟨s, b, -, hlooks, htest⟩ <;>
  simp [hlooks, htest]

end Tries

/-! ## Scans -/

section Scans

variable {looks looks' : Nat → Except Fault β} {wanted : β}
  {answer answer' : Except Fault (Option SectionHit)}

theorem scan_firstHit [DecidableEq β]
    (hunread : ∀ i fault, img.sectionAt i = .error fault → looks i = .error fault) :
    img.Scan looks wanted
      (firstHit (img.scanTest looks wanted) 1 (img.header.sectionCount - 1)) := by
  have hpassed (k : Nat) : (∀ i, 1 ≤ i → i < k → img.scanTest looks wanted i = .ok none) ↔
      Passed looks wanted k :=
    forall₃_congr fun i _ _ => scanTest_none_iff (hunread i)
  refine ⟨fun hit => ?_, ?_, fun fault => ?_⟩
  · rw [firstHit_eq_some_iff]
    simp only [hpassed, scanTest_some_iff (hunread _)]
    constructor
    · rintro ⟨i, hpos, hlt, ⟨rfl, hs, hlooks⟩, hpass⟩
      exact ⟨hpos, by omega, hs, hlooks, hpass⟩
    · rintro ⟨hpos, hlt, hs, hlooks, hpass⟩
      exact ⟨hit.index, hpos, by omega, ⟨rfl, hs, hlooks⟩, hpass⟩
  · rw [firstHit_eq_none_iff, ← hpassed]
    exact forall₂_congr fun i hpos => ⟨fun h hlt => h (by omega), fun h hlt => h (by omega)⟩
  · have hfault : (.error fault : Except Fault (Option SectionHit)) ≠ .ok none := nofun
    rw [firstHit_eq_iff_decided hfault]
    simp only [hpassed, scanTest_error_iff (hunread _)]
    refine exists_congr fun k => and_congr_right fun hpos => ?_
    exact ⟨fun h => ⟨by omega, h.2⟩, fun h => ⟨by omega, h.2⟩⟩

/-- What there is behind section 0 decides a scan. -/
theorem Scan.congr (h : img.Scan looks wanted answer) (h' : img'.Scan looks' wanted answer')
    (hcount : img'.header.sectionCount = img.header.sectionCount)
    (hsection : ∀ i, 1 ≤ i → img'.sectionAt i = img.sectionAt i)
    (hlooks : ∀ i, 1 ≤ i → looks' i = looks i) : answer' = answer := by
  have hpassed {k : Nat} (hpass : Passed looks wanted k) : Passed looks' wanted k :=
    fun i hpos hlt => by rw [hlooks i hpos]; exact hpass i hpos hlt
  rcases answer with fault | _ | hit
  · obtain ⟨k, hpos, hlt, hk, hpass⟩ := (h.failed fault).1 rfl
    exact (h'.failed fault).2 ⟨k, hpos, hcount ▸ hlt, (hlooks k hpos).trans hk, hpassed hpass⟩
  · exact h'.absent.2 (hcount ▸ hpassed (h.absent.1 rfl))
  · obtain ⟨hpos, hlt, hs, hk, hpass⟩ := (h.found hit).1 rfl
    exact (h'.found hit).2 ⟨hpos, hcount ▸ hlt, (hsection _ hpos).trans hs,
      (hlooks _ hpos).trans hk, hpassed hpass⟩

end Scans

theorem sectionNamed_scan (img : Image) (name : String) :
    img.Scan img.sectionName name (img.sectionNamed name) :=
  scan_firstHit fun _ _ => sectionName_of_unread

theorem wellKnown_scan (img : Image) (w : WellKnown) :
    img.Scan img.typeAt w.type (img.wellKnown w) := by
  have htest : (fun i => do
      let s ← img.sectionAt i
      return if s.type = w.type then some ⟨i, s⟩ else none) = img.scanTest img.typeAt w.type := by
    funext i
    unfold scanTest typeAt
    cases img.sectionAt i <;> rfl
  rw [wellKnown_eq_firstHit, htest]
  exact scan_firstHit fun _ _ => typeAt_of_unread

/-- The names behind section 0 come from there too. -/
theorem SameBehindFirst.sectionName (h : img.SameBehindFirst img') {i : Nat} (hpos : 1 ≤ i) :
    img'.sectionName i = img.sectionName i := by
  have htable : img'.nameTable = img.nameTable := by
    unfold nameTable
    rw [h.header]
    split
    · rfl
    case isFalse hnamed => rw [h.stringTable _ (Nat.one_le_iff_ne_zero.2 hnamed)]
  unfold Image.sectionName
  rw [h.sectionAt i hpos, htable]

theorem SameBehindFirst.typeAt (h : img.SameBehindFirst img') {i : Nat} (hpos : 1 ≤ i) :
    img'.typeAt i = img.typeAt i := by
  unfold Image.typeAt
  rw [h.sectionAt i hpos]

theorem ServesName.ne_first {i : Nat} {slot : Slot} (h : img.ServesName i slot) (hpos : 1 ≤ i) :
    slot ≠ .sectionEntry 0 := by
  cases h with
  | entry => exact fun h => absurd (Slot.sectionEntry.inj h) (by omega)
  | tableEntry hnamed => exact fun h => hnamed (Slot.sectionEntry.inj h)
  | name => exact nofun
  | table => exact nofun

end Image

/-! ## Slots that a scan touches -/

namespace Observed

/-- A walk touches what its tries touch, up to the one that decides. -/
theorem firstHit_visits {f : Nat → Observed (Option α)} {g : Nat → Except Fault (Option α)}
    {p : Nat → Slot → Prop} (hagrees : ∀ i, Agrees img (f i).plain (g i))
    (hstays : ∀ i, (f i).StaysIn (p i)) {start n : Nat} {s : Session} (hs : s.Sound img) :
    ∀ v ∈ (firstHit f start n).visits s, ∃ i, start ≤ i ∧ i < start + n ∧
      (∀ j, start ≤ j → j < i → g j = .ok none) ∧ p i v.slot := by
  induction n generalizing start s with
  | zero => exact fun v hv => absurd hv List.not_mem_nil
  | succ n ih =>
    intro v hv
    have hfirst (hv : v ∈ (f start).visits s) : ∃ i, start ≤ i ∧ i < start + (n + 1) ∧
        (∀ j, start ≤ j → j < i → g j = .ok none) ∧ p i v.slot :=
      ⟨start, Nat.le_refl start, by omega, fun j _ _ => by omega, hstays start s v hv⟩
    rw [firstHit] at hv
    rcases bind_cases (f start) _ s with ⟨_, _, -, hvisits, -⟩ | ⟨hit, next, hend, hvisits, -⟩
    · exact hfirst (hvisits ▸ hv)
    · rw [hvisits] at hv
      rcases List.mem_append.1 hv with hv | hv
      · exact hfirst hv
      · obtain ⟨hpass, hnext⟩ := hagrees start s hs
        rw [hend] at hpass hnext
        cases hit with
        | some a => exact absurd hv List.not_mem_nil
        | none =>
          obtain ⟨i, hle, hlt, hbefore, hslot⟩ := ih hnext v hv
          refine ⟨i, by omega, by omega, fun j hle' hlt' => ?_, hslot⟩
          rcases Nat.eq_or_lt_of_le hle' with rfl | hlater
          · exact hpass.symm
          · exact hbefore j hlater hlt'

theorem sectionName_staysIn (img : Image) (i : Nat) :
    (sectionName img i).StaysIn (img.ServesName i) := by
  have htable : (nameTable img).StaysIn (img.ServesName i) := by
    unfold nameTable
    split
    · exact staysIn_silent _
    case isFalse hnamed =>
      refine staysIn_bind (staysIn_bind (sectionAt_staysIn img (.tableEntry hnamed)) fun s => ?_)
        fun table => staysIn_silent _
      exact staysIn_once (.table hnamed) (staysIn_bind (staysIn_silent _) fun _ => staysIn_silent _)
  refine staysIn_bind (sectionAt_staysIn img .entry) fun s => staysIn_once .name ?_
  refine staysIn_bind htable fun found => ?_
  cases found <;> exact staysIn_silent _

/-- A scan for a name touches no section behind the one that decides, but for the table of the
names. -/
theorem sectionNamed_visits {name : String} {s : Session} (hs : s.Sound img) :
    ∀ v ∈ (sectionNamed img name).visits s, ∃ i, 1 ≤ i ∧ i < img.header.sectionCount ∧
      Passed img.sectionName name i ∧ img.ServesName i v.slot := by
  intro v hv
  let test (i : Nat) : Observed (Option SectionHit) := do
    let s ← sectionAt img i
    return if (← sectionName img i) = name then some ⟨i, s⟩ else none
  have hagrees (i : Nat) : Agrees img (test i).plain (img.scanTest img.sectionName name i) := by
    rw [bind_plain (sectionAt_plain img i) fun s =>
      bind_plain (sectionName_plain img i) fun found => rfl]
    exact SessionM.sectionTest_agrees img name i
  have hstays (i : Nat) : (test i).StaysIn (img.ServesName i) :=
    staysIn_bind (sectionAt_staysIn img .entry) fun s =>
      staysIn_bind (sectionName_staysIn img i) fun found => staysIn_silent _
  obtain ⟨i, hpos, hlt, hbefore, hslot⟩ := firstHit_visits hagrees hstays hs v hv
  refine ⟨i, hpos, by omega, fun j hpos' hlt' => ?_, hslot⟩
  exact (Image.scanTest_none_iff fun _ => Image.sectionName_of_unread).1 (hbefore j hpos' hlt')

/-- The slot is that of a section which a scan for the type of `w` gets to. -/
def Reaches (img : Image) (w : WellKnown) (slot : Slot) : Prop :=
  ∃ i, 1 ≤ i ∧ i < img.header.sectionCount ∧ Passed img.typeAt w.type i ∧ slot = .sectionEntry i

theorem indexOf_visits {w : WellKnown} {s : Session} (hs : s.Sound img) :
    ∀ v ∈ (indexOf img w).visits s, v.slot = .indexOf w ∨ Reaches img w v.slot := by
  intro v hv
  have hagrees (i : Nat) : Agrees img (typeTest img w i).plain
      (do return if (← img.sectionAt i).type = w.type then some i else none) :=
    typeTest_plain img w i ▸ SessionM.typeTest_agrees img w i
  have hstays (i : Nat) : (typeTest img w i).StaysIn (· = .sectionEntry i) := by
    refine staysIn_bind (sectionAt_staysIn img rfl) fun s => ?_
    split
    · exact staysIn_bind (staysIn_silent _) fun _ => staysIn_silent _
    · exact staysIn_silent _
  refine (mem_once_visits hv).imp_right fun hv => ?_
  obtain ⟨i, hpos, hlt, hbefore, hslot⟩ := firstHit_visits hagrees hstays hs v hv
  refine ⟨i, hpos, by omega, fun j hpos' hlt' => ?_, hslot⟩
  obtain ⟨t, ht, htest⟩ := Image.typeTest_eq_ok_iff.1 (hbefore j hpos' hlt')
  exact ⟨t.type, Image.typeAt_eq_ok_iff.2 ⟨t, ht, rfl⟩, fun htype => by simp [htype] at htest⟩

/-- A scan for a type touches no section behind the one that decides, whether it is made afresh or
its outcome is kept. -/
theorem wellKnown_visits {w : WellKnown} {s : Session} (hs : s.Sound img) :
    ∀ v ∈ (wellKnown img w).visits s, v.slot = .indexOf w ∨ Reaches img w v.slot := by
  intro v hv
  obtain ⟨hindex, -⟩ := SessionM.indexOf_agrees img w s hs
  rw [← indexOf_plain] at hindex
  rcases bind_cases (indexOf img w) _ s with ⟨_, _, -, hvisits, -⟩ | ⟨found, next, hend, hvisits, -⟩
  · exact indexOf_visits hs v (hvisits ▸ hv)
  · rw [wellKnown, hvisits] at hv
    rcases List.mem_append.1 hv with hv | hv
    · exact indexOf_visits hs v hv
    · rw [hend] at hindex
      cases found with
      | none => exact absurd hv List.not_mem_nil
      | some k =>
        obtain ⟨hpos, hlt, -, hbefore⟩ := Image.indexOfType_eq_some_iff.1 hindex.symm
        have hstays : (do return some ⟨k, ← sectionAt img k⟩ :
            Observed (Option SectionHit)).StaysIn (· = .sectionEntry k) :=
          staysIn_bind (sectionAt_staysIn img rfl) fun _ => staysIn_silent _
        refine .inr ⟨k, hpos, hlt, fun i hpos' hlt' => ?_, hstays next v hv⟩
        obtain ⟨t, ht, htype⟩ := hbefore i hpos' hlt'
        exact ⟨t.type, Image.typeAt_eq_ok_iff.2 ⟨t, ht, rfl⟩, htype⟩

end Observed

/-- The scans, whatever has been asked before. The first section behind section 0 that is wanted or
cannot be looked at decides. No scan gets to those behind it or to section 0, on which no answer
depends. The string tables with a name of their own are those of the sections found by that name. -/
theorem sections_scanned (img : Image) (asked : List Query) :
    let named (name : String) := Session.resultAfter img asked (SessionM.sectionNamed img name)
    let ofType (w : WellKnown) := Session.resultAfter img asked (SessionM.wellKnown img w)
    (∀ name, img.Scan img.sectionName name (named name)) ∧
      (∀ w, img.Scan img.typeAt w.type (ofType w)) ∧
      (∀ i fault, img.sectionAt i = .error fault →
        img.sectionName i = .error fault ∧ img.typeAt i = .error fault) ∧
      (∀ name, (Observed.sectionNamed img name).plain = SessionM.sectionNamed img name ∧
        ∀ v ∈ (Observed.sectionNamed img name).visits (Session.after img asked),
          v.slot ≠ .sectionEntry 0 ∧ ∃ i, 1 ≤ i ∧ i < img.header.sectionCount ∧
            Passed img.sectionName name i ∧ img.ServesName i v.slot) ∧
      (∀ w, (Observed.wellKnown img w).plain = SessionM.wellKnown img w ∧
        ∀ v ∈ (Observed.wellKnown img w).visits (Session.after img asked), v.slot = .indexOf w ∨
          ∃ i, 1 ≤ i ∧ i < img.header.sectionCount ∧ Passed img.typeAt w.type i ∧
            v.slot = .sectionEntry i) ∧
      (∀ img' asked', img.SameBehindFirst img' →
        (∀ name, Session.resultAfter img' asked' (SessionM.sectionNamed img' name) = named name) ∧
          ∀ w, Session.resultAfter img' asked' (SessionM.wellKnown img' w) = ofType w) ∧
      (WellKnown.symbolTable.type = 2 ∧ WellKnown.dynamicSymbols.type = 11 ∧
        WellKnown.dynamicLink.type = 6) ∧
      (staticStringsName = ".strtab" ∧ dynamicStringsName = ".dynstr") ∧
      ∀ name, Session.resultAfter img asked (SessionM.stringsNamed img name) = do
        match ← named name with
        | some hit => return some (← Session.resultAfter img asked
            (SessionM.stringTable img hit.index))
        | none => return none := by
  intro named ofType
  have hnamed (img : Image) (asked : List Query) (name : String) :
      Session.resultAfter img asked (SessionM.sectionNamed img name) = img.sectionNamed name :=
    (SessionM.sectionNamed_agrees img name).resultAfter asked
  have hofType (img : Image) (asked : List Query) (w : WellKnown) :
      Session.resultAfter img asked (SessionM.wellKnown img w) = img.wellKnown w :=
    (SessionM.wellKnown_agrees img w).resultAfter asked
  have hstrings (i : Nat) :
      Session.resultAfter img asked (SessionM.stringTable img i) = img.stringTable i :=
    (SessionM.stringTable_agrees img i).resultAfter asked
  have hsound := Session.after_sound img asked
  simp only [named, ofType, hnamed, hofType, hstrings]
  refine ⟨img.sectionNamed_scan, img.wellKnown_scan,
    fun i fault h => ⟨Image.sectionName_of_unread h, Image.typeAt_of_unread h⟩,
    fun name => ⟨Observed.sectionNamed_plain img name, fun v hv => ?_⟩,
    fun w => ⟨Observed.wellKnown_plain img w, Observed.wellKnown_visits hsound⟩,
    fun img' _ h => ⟨fun name => ?_, fun w => ?_⟩, ⟨rfl, rfl, rfl⟩, ⟨rfl, rfl⟩,
    fun name => ?_⟩
  · obtain ⟨i, hpos, hlt, hpass, hserves⟩ := Observed.sectionNamed_visits hsound v hv
    exact ⟨hserves.ne_first hpos, i, hpos, hlt, hpass, hserves⟩
  · exact (img.sectionNamed_scan name).congr (img'.sectionNamed_scan name)
      (congrArg Header.sectionCount h.header) h.sectionAt fun i hpos => h.sectionName hpos
  · exact (img.wellKnown_scan w).congr (img'.wellKnown_scan w)
      (congrArg Header.sectionCount h.header) h.sectionAt fun i hpos => h.typeAt hpos
  · exact (SessionM.stringsNamed_agrees img name).resultAfter asked

end ElfInspect
