import ElfInspect.Libraries.MangledName
import ElfInspect.Proofs.Listings

/-!
How symbol names are shown. Making names readable is left to a demangler, of which `Demangler.Works`
says what is known. A name that no scheme of mangling takes up is then shown without the suffix of a
clone, and else as it is: `displayName_foreign`.
-/

namespace ElfInspect

/-! ## The suffix of a clone -/

/-- `part` comes first behind `before` in `text`, and `behind` is what follows it there. -/
structure FirstSplit (part text before behind : List Char) : Prop where
  eq : text = before ++ (part ++ behind)
  first : ∀ front rest, text = front ++ (part ++ rest) → before.length ≤ front.length

def CloneDigit (c : Char) : Prop := 'A' ≤ c ∧ c ≤ 'F' ∨ '0' ≤ c ∧ c ≤ '9' ∨ c = '@'

/-- The name is `core` with the mark of a clone behind it and nothing but clone digits after the
mark. -/
def Cloned (name core : List Char) : Prop :=
  ∃ digits, FirstSplit ".llvm.".toList name core digits ∧ ∀ d ∈ digits, CloneDigit d

/-- What is left of a name without the suffix of a clone. -/
inductive CutTo (name : List Char) : List Char → Prop
  | core {core : List Char} (h : Cloned name core) : CutTo name core
  | whole (h : ∀ core, ¬ Cloned name core) : CutTo name name

variable {part text before behind front rest : List Char}
variable {name other core core' left left' : List Char}

theorem FirstSplit.unique {before' behind' : List Char} (h : FirstSplit part text before behind)
    (h' : FirstSplit part text before' behind') : before = before' ∧ behind = behind' := by
  have hlength := Nat.le_antisymm (h.first _ _ h'.eq) (h'.first _ _ h.eq)
  obtain ⟨hbefore, hrest⟩ := List.append_inj (h.eq.symm.trans h'.eq) hlength
  exact ⟨hbefore, List.append_cancel_left hrest⟩

theorem Cloned.length_lt (h : Cloned name core) : core.length < name.length := by
  obtain ⟨digits, hfirst, -⟩ := h
  have hmark : 0 < ".llvm.".toList.length := by decide
  rw [hfirst.eq, List.length_append, List.length_append]
  omega

theorem Cloned.unique (h : Cloned name core) (h' : Cloned name core') : core = core' := by
  obtain ⟨digits, hfirst, -⟩ := h
  obtain ⟨digits', hfirst', -⟩ := h'
  exact (hfirst.unique hfirst').1

theorem exists_cutTo (name : List Char) : ∃ left, CutTo name left := by
  by_cases h : ∃ core, Cloned name core
  · obtain ⟨core, hcore⟩ := h
    exact ⟨core, .core hcore⟩
  · exact ⟨name, .whole (not_exists.1 h)⟩

theorem CutTo.unique (h : CutTo name left) (h' : CutTo name left') : left = left' := by
  cases h with
  | core h =>
    cases h' with
    | core h' => exact h.unique h'
    | whole h' => exact absurd h (h' _)
  | whole h =>
    cases h' with
    | core h' => exact absurd h' (h _)
    | whole h' => rfl

theorem CutTo.prefix_name (h : CutTo name left) : left <+: name := by
  cases h with
  | core h =>
    obtain ⟨digits, hfirst, -⟩ := h
    rw [hfirst.eq]
    exact List.prefix_append _ _
  | whole h => exact List.prefix_rfl

/-- All of a name is left just if it has not the suffix of a clone. -/
theorem cutTo_self_iff : CutTo name name ↔ ∀ core, ¬ Cloned name core := by
  refine ⟨fun h core hcore => ?_, .whole⟩
  have hlt := hcore.length_lt
  rw [← h.unique (.core hcore)] at hlt
  exact Nat.lt_irrefl _ hlt

/-! ## Demanglers -/

/-- How the mangled names of the two schemes begin. -/
def legacyStarts : List String := ["_ZN", "ZN", "__ZN"]

def v0Starts : List String := ["_R", "R", "__R"]

/-- The name begins in one of the given ways. -/
def Begins (starts : List String) (name : List Char) : Prop :=
  ∃ start ∈ starts, start.toList <+: name

instance (starts : List String) (name : List Char) : Decidable (Begins starts name) :=
  inferInstanceAs (Decidable (∃ start ∈ starts, start.toList <+: name))

/-- The name does not begin as a mangled one does. -/
def Foreign (name : List Char) : Prop := ¬ Begins legacyStarts name ∧ ¬ Begins v0Starts name

instance (name : List Char) : Decidable (Foreign name) :=
  inferInstanceAs (Decidable (_ ∧ _))

/-- The demangler first cuts the suffix of a clone. On what is left it tries the legacy scheme and
then the later one, and it gives back what is left if neither takes it up. -/
structure Demangler.Works (demangler : Demangler) (legacy? v0? : String → Option String) :
    Prop where
  legacy_begins : ∀ name shown, legacy? name = some shown → Begins legacyStarts name.toList
  v0_begins : ∀ name shown, v0? name = some shown → Begins v0Starts name.toList
  demangles : ∀ name left, CutTo name.toList left.toList →
    demangler name = ((legacy? left).or (v0? left)).getD left

theorem Begins.mono {starts : List String} (h : Begins starts left) (hfront : left <+: name) :
    Begins starts name := by
  obtain ⟨start, hstart, hleft⟩ := h
  exact ⟨start, hstart, hleft.trans hfront⟩

theorem Foreign.of_cutTo (h : Foreign name) (hcut : CutTo name left) : Foreign left :=
  ⟨mt (·.mono hcut.prefix_name) h.1, mt (·.mono hcut.prefix_name) h.2⟩

end ElfInspect

/-! ## Names of other origin -/

namespace ElfInspect

variable {demangler : Demangler} {legacy? v0? : String → Option String} {name other : String}

/-- Neither scheme takes up a name of other origin. -/
theorem Demangler.Works.untouched (h : demangler.Works legacy? v0?) (hname : Foreign name.toList) :
    (legacy? name).or (v0? name) = none := by
  have hlegacy : legacy? name = none :=
    Option.eq_none_iff_forall_ne_some.2 fun shown hshown =>
      hname.1 (h.legacy_begins name shown hshown)
  have hv0 : v0? name = none :=
    Option.eq_none_iff_forall_ne_some.2 fun shown hshown => hname.2 (h.v0_begins name shown hshown)
  rw [hlegacy, hv0]
  rfl

theorem Demangler.Works.cutTo (h : demangler.Works legacy? v0?) (hname : Foreign name.toList) :
    CutTo name.toList (demangler name).toList := by
  obtain ⟨left, hcut⟩ := exists_cutTo name.toList
  obtain ⟨left, rfl⟩ : ∃ text : String, left = text.toList := ⟨.ofList left, by simp⟩
  rw [h.demangles name left hcut, h.untouched (hname.of_cutTo hcut)]
  exact hcut

theorem displayName_iff (hworks : demangler.Works legacy? v0?) (hname : Foreign name.toList)
    {shown : String} :
    displayName demangler name true = shown ↔ CutTo name.toList shown.toList := by
  have hcut := hworks.cutTo hname
  constructor
  · rintro rfl
    exact hcut
  · intro h
    rw [← String.toList_inj]
    exact hcut.unique h

theorem displayName_eq_self_iff (hworks : demangler.Works legacy? v0?)
    (hname : Foreign name.toList) :
    displayName demangler name true = name ↔ ∀ core, ¬ Cloned name.toList core :=
  (displayName_iff hworks hname).trans cutTo_self_iff

theorem displayName_eq_iff (hworks : demangler.Works legacy? v0?) (hname : Foreign name.toList)
    (hother : Foreign other.toList) :
    displayName demangler name true = displayName demangler other true ↔
      ∃ left, CutTo name.toList left ∧ CutTo other.toList left := by
  rw [displayName_iff hworks hname]
  have hcut : CutTo other.toList (displayName demangler other true).toList := hworks.cutTo hother
  refine ⟨fun h => ⟨_, h, hcut⟩, ?_⟩
  rintro ⟨left, h, hcut'⟩
  rwa [hcut.unique hcut']

/-- In a session, the record of a symbol has the displayed form of the symbol's name. -/
theorem ofHit_resultAfter (demangler : Demangler) {img : Image} {asked : List Query}
    {hit : SymbolHit}
    (h : Session.resultAfter img asked (SessionM.symbolName img hit.table hit.index) = .ok name)
    (table : Option String) (demangle : Bool) :
    Session.resultAfter img asked (SymbolRecord.ofHit demangler img hit table demangle) =
      .ok (hit.entry.record (displayName demangler name demangle) table) := by
  rw [(SessionM.symbolName_agrees img _ _).resultAfter] at h
  rw [(recordOf_reports demangler img hit table demangle).resultAfter]
  exact Image.recordOf_ok_iff.2 ⟨name, h, rfl⟩

/-- A name that no scheme of mangling takes up is shown as it is, unless it has the suffix of a
clone, which is not shown; then so is the name in the symbol's record. Two of them are shown alike
just if the same is left of both, and if neither has the suffix, just if they are equal. -/
theorem displayName_foreign (hworks : demangler.Works legacy? v0?) (hname : Foreign name.toList)
    (hother : Foreign other.toList) :
    (∀ shown, displayName demangler name true = shown ↔ CutTo name.toList shown.toList) ∧
      (displayName demangler name true = name ↔ ∀ core, ¬ Cloned name.toList core) ∧
      (displayName demangler name true = displayName demangler other true ↔
        ∃ left, CutTo name.toList left ∧ CutTo other.toList left) ∧
      ((∀ core, ¬ Cloned name.toList core) → (∀ core, ¬ Cloned other.toList core) →
        (displayName demangler name true = displayName demangler other true ↔ name = other)) ∧
      ∀ (img : Image) (asked : List Query) (hit : SymbolHit) (table : Option String),
        let record (demangle : Bool) :=
          Session.resultAfter img asked (SymbolRecord.ofHit demangler img hit table demangle)
        Session.resultAfter img asked (SessionM.symbolName img hit.table hit.index) = .ok name →
          record false = .ok (hit.entry.record name table) ∧
          record true = .ok (hit.entry.record (displayName demangler name true) table) ∧
          (record true = record false ↔ ∀ core, ¬ Cloned name.toList core) := by
  refine ⟨fun _ => displayName_iff hworks hname, displayName_eq_self_iff hworks hname,
    displayName_eq_iff hworks hname hother, fun hwhole hwhole' => ?_, ?_⟩
  · rw [(displayName_eq_self_iff hworks hname).2 hwhole,
      (displayName_eq_self_iff hworks hother).2 hwhole']
  · intro img asked hit table record hsymbol
    have hfalse : record false = .ok (hit.entry.record name table) :=
      ofHit_resultAfter demangler hsymbol table false
    have htrue : record true = .ok (hit.entry.record (displayName demangler name true) table) :=
      ofHit_resultAfter demangler hsymbol table true
    refine ⟨hfalse, htrue, ?_⟩
    rw [hfalse, htrue, ← displayName_eq_self_iff hworks hname]
    exact ⟨fun h => congrArg SymbolRecord.name (Except.ok.inj h), fun h => by rw [h]⟩

end ElfInspect

/-! ## A demangler that works so -/

namespace ElfInspect.MangledName

variable {part text before behind front rest name core : List Char}

theorem splitFirst_eq (h : splitFirst part text = some (before, behind)) :
    text = before ++ (part ++ behind) := by
  induction text generalizing before with
  | nil => cases h
  | cons c cs ih =>
    rw [splitFirst] at h
    split at h
    · rename_i hpart
      cases h
      exact (List.prefix_iff_eq_append.1 (List.isPrefixOf_iff_prefix.1 hpart)).symm
    · obtain ⟨⟨later, behind'⟩, hlater, h⟩ := Option.map_eq_some_iff.1 h
      cases h
      rw [ih hlater, List.cons_append]

/-- Where the part comes anywhere, it is found there or before. -/
theorem splitFirst_of_append (hpart : part ≠ []) (h : text = front ++ (part ++ rest)) :
    ∃ before behind, splitFirst part text = some (before, behind) ∧
      before.length ≤ front.length := by
  induction text generalizing front with
  | nil =>
    have hnil := (List.append_eq_nil_iff.1 (List.append_eq_nil_iff.1 h.symm).2).1
    exact absurd hnil hpart
  | cons c cs ih =>
    rw [splitFirst]
    split
    · exact ⟨_, _, rfl, Nat.zero_le _⟩
    · rename_i hhere
      cases front with
      | nil =>
        rw [List.nil_append] at h
        rw [h, List.isPrefixOf_iff_prefix] at hhere
        exact absurd (List.prefix_append part rest) hhere
      | cons c' front =>
        obtain ⟨before, behind, hfound, hle⟩ := ih (List.cons_eq_cons.1 h).2
        exact ⟨c :: before, behind, by rw [hfound]; rfl, Nat.succ_le_succ hle⟩

theorem splitFirst_some (hpart : part ≠ []) (h : splitFirst part text = some (before, behind)) :
    FirstSplit part text before behind := by
  refine ⟨splitFirst_eq h, fun front rest heq => ?_⟩
  obtain ⟨before', behind', hfound, hle⟩ := splitFirst_of_append hpart heq
  rw [h] at hfound
  cases hfound
  exact hle

theorem splitFirst_eq_none (hpart : part ≠ []) (h : splitFirst part text = none) :
    text ≠ front ++ (part ++ rest) := by
  intro heq
  obtain ⟨before, behind, hfound, -⟩ := splitFirst_of_append hpart heq
  rw [h] at hfound
  cases hfound

theorem cloneMark_ne_nil : cloneMark ≠ [] := by decide

theorem isCloneDigit_iff {c : Char} : isCloneDigit c = true ↔ CloneDigit c := by
  simp only [isCloneDigit, CloneDigit, Char.isDigit, Bool.or_eq_true, Bool.and_eq_true,
    decide_eq_true_eq, beq_iff_eq]
  rw [or_assoc, or_left_comm]
  exact Iff.rfl

theorem dropClone_cutTo (name : List Char) : CutTo name (dropClone name) := by
  unfold dropClone
  cases hsplit : splitFirst cloneMark name with
  | none =>
    refine .whole fun core => ?_
    rintro ⟨digits, hfirst, -⟩
    exact splitFirst_eq_none cloneMark_ne_nil hsplit hfirst.eq
  | some found =>
    obtain ⟨before, behind⟩ := found
    have hfirst := splitFirst_some cloneMark_ne_nil hsplit
    dsimp only
    split
    · rename_i hdigits
      exact .core ⟨behind, hfirst, fun d hd => isCloneDigit_iff.1 (List.all_eq_true.1 hdigits d hd)⟩
    · rename_i hother
      refine .whole fun core => ?_
      rintro ⟨digits, hfirst', hdigits⟩
      obtain ⟨-, rfl⟩ := hfirst.unique hfirst'
      exact hother (List.all_eq_true.2 fun d hd => isCloneDigit_iff.2 (hdigits d hd))

/-- What has an inner part begins as the mangled names of the legacy scheme do. -/
theorem begins_of_inner {inner : List Char} (h : inner? name = some inner) :
    Begins legacyStarts name := by
  unfold inner? at h
  split at h
  · exact ⟨"_ZN", by decide, _, rfl⟩
  · exact ⟨"ZN", by decide, _, rfl⟩
  · exact ⟨"__ZN", by decide, _, rfl⟩
  · cases h

/-- What the legacy scheme makes of a name. -/
def legacy? (name : String) : Option String := (readable? name.toList).map String.ofList

theorem demangler_works : demangler.Works legacy? fun _ => none where
  legacy_begins name shown h := by
    obtain ⟨readable, hreadable, -⟩ := Option.map_eq_some_iff.1 h
    obtain ⟨inner, hinner, -⟩ := Option.bind_eq_some_iff.1 hreadable
    exact begins_of_inner hinner
  v0_begins _ _ := nofun
  demangles name left hcut := by
    rw [demangler, demangle, (dropClone_cutTo name.toList).unique hcut, Option.or_none, legacy?]
    cases readable? left.toList with
    | none => exact String.ofList_toList
    | some readable => rfl

end ElfInspect.MangledName

namespace ElfInspect

/-- The suffix of a clone is not shown, and what only looks like one is. -/
theorem displayName_foreign_clone :
    MangledName.demangler.Works MangledName.legacy? (fun _ => none) ∧
      Foreign "memcpy.llvm.1F".toList ∧ Foreign "memcpy.llvm.x".toList ∧
      CutTo "memcpy.llvm.1F".toList "memcpy".toList ∧
      (∀ core, ¬ Cloned "memcpy.llvm.x".toList core) ∧
      ¬ ∃ left, CutTo "memcpy.llvm.1F".toList left ∧ CutTo "memcpy.llvm.x".toList left := by
  have hworks := MangledName.demangler_works
  have hname : Foreign "memcpy.llvm.1F".toList := by decide +kernel
  have hother : Foreign "memcpy.llvm.x".toList := by decide +kernel
  obtain ⟨hshown, -, halike, -⟩ := displayName_foreign hworks hname hother
  obtain ⟨-, hself, -⟩ := displayName_foreign hworks hother hname
  exact ⟨hworks, hname, hother, (hshown "memcpy").1 (by decide +kernel),
    hself.1 (by decide +kernel), mt halike.2 (by decide +kernel)⟩

/-- Two names that no scheme of mangling takes up, both different from what is shown for them. -/
theorem clones_shown_alike :
    MangledName.demangler.Works MangledName.legacy? (fun _ => none) ∧
      Foreign "memcpy.llvm.1F".toList ∧
      displayName MangledName.demangler "memcpy.llvm.1F" true = "memcpy" ∧
      Foreign "memcpy.llvm.2".toList ∧
      displayName MangledName.demangler "memcpy.llvm.2" true = "memcpy" :=
  ⟨MangledName.demangler_works, by decide +kernel⟩

end ElfInspect
