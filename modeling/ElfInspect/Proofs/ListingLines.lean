import ElfInspect.Libraries.Standard
import ElfInspect.Proofs.Listings
import ElfInspect.Proofs.ReadBack
import ElfInspect.Report.Render

/-!
Lines of listings. A listing writes the names as they are, so it has one line for each record just
if no name it shows has a line end in it, whatever makes the names readable: `listing_lines`.
-/

namespace ElfInspect

/-! ## Lines -/

/-- The text consists of the given lines, each with a line end behind it and none inside. -/
def HasLines (text : String) (lines : List String) : Prop :=
  text.toList.splitOn '\n' = lines.map String.toList ++ [[]]

/-- The text that comes of lines when they are written one by one. -/
def unlines (lines : List String) : String := String.join (linePieces lines)

variable {lines : List String} {text : String}

theorem toList_unlines (lines : List String) :
    (unlines lines).toList = lines.flatMap fun line => line.toList ++ ['\n'] := by
  rw [unlines, linePieces, String.toList_join, List.flatMap_map]
  simp only [String.toList_append]
  rfl

theorem toList_unlines_eq_intercalate (lines : List String) :
    (unlines lines).toList = ['\n'].intercalate (lines.map String.toList ++ [[]]) := by
  rw [toList_unlines]
  induction lines with
  | nil => rfl
  | cons line lines ih =>
    rw [List.flatMap_cons, ih]
    cases lines with
    | nil => simp
    | cons next lines => simp [List.intercalate_cons_cons]

theorem length_splitOn {α : Type} [BEq α] [LawfulBEq α] (a : α) (xs : List α) :
    (xs.splitOn a).length = xs.count a + 1 := by
  induction xs with
  | nil => rfl
  | cons x xs ih =>
    rw [List.splitOn, List.splitOnP_cons_eq_if_modifyHead]
    by_cases h : x = a
    · subst h
      simpa [List.splitOn] using ih
    · simpa [List.splitOn, h, List.count_cons] using ih

/-- There is a line end behind each line, besides those inside. -/
theorem count_unlines (lines : List String) :
    (unlines lines).toList.count '\n' =
      lines.length + (lines.map fun line => line.toList.count '\n').sum := by
  rw [toList_unlines]
  induction lines with
  | nil => rfl
  | cons line lines ih =>
    rw [List.flatMap_cons, List.count_append, ih, List.count_append, List.map_cons, List.sum_cons,
      List.length_cons, List.count_singleton_self]
    omega

theorem hasLines_iff :
    HasLines text lines ↔ text = unlines lines ∧ ∀ line ∈ lines, '\n' ∉ line.toList := by
  constructor
  · intro h
    have htext : text = unlines lines := by
      rw [← String.toList_inj, toList_unlines_eq_intercalate, ← h, List.intercalate_splitOn]
    refine ⟨htext, fun line hline => ?_⟩
    -- as many line ends as lines leave none for the inside of a line
    have hlength := length_splitOn '\n' text.toList
    rw [h, htext, count_unlines, List.length_append, List.length_map, List.length_singleton]
      at hlength
    have hnone : (lines.map fun line => line.toList.count '\n').sum = 0 := by omega
    have hcount := List.sum_eq_zero_iff.1 hnone _ (List.mem_map_of_mem hline)
    exact List.count_eq_zero.1 hcount
  · rintro ⟨rfl, hlines⟩
    rw [HasLines, toList_unlines_eq_intercalate]
    have hsome : lines.map String.toList ++ [[]] ≠ [] := by simp
    refine List.splitOn_intercalate '\n' (fun line hline => ?_) hsome
    rcases List.mem_append.1 hline with hline | hline
    · obtain ⟨line', hline', rfl⟩ := List.mem_map.1 hline
      exact hlines line' hline'
    · rw [List.mem_singleton.1 hline]
      exact List.not_mem_nil

/-! ## Lines of a listing -/

variable {demangler : Demangler} {img : Image} {selection : Selection} {demangle : Bool}
variable {records : List SymbolRecord}

/-- The name, a space and the name of the table. -/
def SymbolRecord.plainLine (r : SymbolRecord) : String := r.name ++ " " ++ r.table.getD ""

/-- No name that a listing shows has a line end in it. -/
def Image.ShowsUnbroken (img : Image) (demangler : Demangler) (selection : Selection)
    (demangle : Bool) : Prop :=
  ∀ hit, img.Selects selection hit → ∀ name table,
    img.symbolName hit.table hit.index = .ok name → img.sectionName hit.table = .ok table →
      '\n' ∉ (if demangle then demangler name else name).toList ∧ '\n' ∉ table.toList

theorem SymbolRecord.line_eq {r : SymbolRecord} (h : r.table.isSome) : r.line = r.plainLine := by
  obtain ⟨table, htable⟩ := Option.isSome_iff_exists.1 h
  rw [line, plainLine, htable]
  rfl

theorem unbroken_plainLine_iff {r : SymbolRecord} :
    '\n' ∉ r.plainLine.toList ↔ '\n' ∉ r.name.toList ∧ '\n' ∉ (r.table.getD "").toList := by
  have hspace : '\n' ∉ " ".toList := by decide
  rw [SymbolRecord.plainLine, String.toList_append, String.toList_append, List.mem_append,
    List.mem_append, not_or, not_or]
  exact and_congr_left fun _ => and_iff_left hspace

theorem Image.mem_selectedRecords_iff
    (h : img.selectedRecords demangler selection demangle = .ok records) {r : SymbolRecord} :
    r ∈ records ↔ ∃ hit, img.Selects selection hit ∧ img.Shows demangler demangle hit r :=
  (Image.selectedRecords_inOrder h).mem_iff Image.Shows.unique

theorem Image.unbroken_iff (h : img.selectedRecords demangler selection demangle = .ok records) :
    (∀ r ∈ records, '\n' ∉ r.plainLine.toList) ↔
      img.ShowsUnbroken demangler selection demangle := by
  simp only [Image.mem_selectedRecords_iff h, unbroken_plainLine_iff]
  constructor
  · intro hrecords hit hselected name table hname htable
    exact hrecords _ ⟨hit, hselected, name, table, hname, htable, rfl⟩
  · rintro hnames r ⟨hit, hselected, name, table, hname, htable, rfl⟩
    exact hnames hit hselected name table hname htable

/-- The listing of a selection, whatever has been asked before. It has one line for each record, the
record's name, a space and the name of its table, just if none of the names has a line end in it;
each line end in a name makes one line more. Only the byte 10 of an image is read as a line end. -/
theorem listing_lines (demangler : Demangler) (jsonText : Json → String) (img : Image)
    (asked : List Query) (selection : Selection) (demangle : Bool) {records : List SymbolRecord}
    (h : Session.resultAfter img asked (selectedRecords demangler img selection demangle) =
      .ok records) :
    let listing := String.join (renderSymbols jsonText records .text)
    let lines := records.map SymbolRecord.plainLine
    (HasLines listing lines ↔ img.ShowsUnbroken demangler selection demangle) ∧
      (∀ r ∈ records, r.table.isSome) ∧
      listing.toList = (lines.flatMap fun line => line.toList ++ ['\n']) ∧
      listing.toList.count '\n' =
        records.length + (lines.map fun line => line.toList.count '\n').sum ∧
      ∀ bytes, '\n' ∈ (lossyText bytes).toList ↔ 10 ∈ bytes := by
  intro listing lines
  rw [(selectedRecords_reports demangler img _ _).resultAfter] at h
  have htables : ∀ r ∈ records, r.table.isSome := by
    intro r hr
    obtain ⟨hit, -, name, table, -, -, rfl⟩ := (Image.mem_selectedRecords_iff h).1 hr
    rfl
  have hlisting : listing = unlines lines :=
    congrArg unlines (List.map_congr_left fun r hr => SymbolRecord.line_eq (htables r hr))
  refine ⟨?_, htables, ?_, ?_, fun _ => mem_lossyText_iff (by decide)⟩
  · rw [hasLines_iff, and_iff_right hlisting, ← Image.unbroken_iff h]
    simp only [lines, List.forall_mem_map]
  · rw [hlisting, toList_unlines]
  · rw [hlisting, count_unlines, List.length_map]

instance (text : String) (lines : List String) : Decidable (HasLines text lines) :=
  inferInstanceAs (Decidable (_ = _))

/-- A file with one function of the given name. -/
def oneFunction (name : String) : Blueprint where
  format := ⟨.elf32, .lsb⟩
  sections := [Blueprint.stringsPlan ".dynstr" [name],
    Blueprint.symbolsPlan ⟨.elf32, .lsb⟩ ".dynsym" SectionEntry.dynsym 1
      [.null, ⟨1, 0x1000, 16, 0x12, 0, 1⟩]]

/-- The functions that other files may use. -/
def exported : Selection := ⟨[.dynsym], .func, .global⟩

/-- What is listed of an image without making names readable. -/
def exportedRecords (img : Image) : ReportM (List SymbolRecord) :=
  selectedRecords MangledName.demangler img exported false

def listingText (records : List SymbolRecord) : String :=
  String.join (renderSymbols (Json.render 0) records .text)

/-- What is listed of the file with one function. -/
def oneFunctionRecords (name : String) : Option (List SymbolRecord) := do
  let bytes ← (oneFunction name).assemble
  let img := (oneFunction name).image bytes
  (img.selectedRecords MangledName.demangler exported false).toOption

theorem oneFunction_listed {name : String} {records : List SymbolRecord}
    (h : oneFunctionRecords name = some records) :
    ∃ bytes img, (oneFunction name).build = some bytes ∧
      Image.ofBytes bytes.toByteArray = .ok img ∧
      Session.resultAfter img [] (exportedRecords img) = .ok records := by
  obtain ⟨bytes, hbytes, hrecords⟩ := Option.bind_eq_some_iff.1 h
  have hunstated : (oneFunction name).Unstated := ⟨rfl, rfl, rfl, rfl, rfl⟩
  refine ⟨bytes, _, (Blueprint.assemble_eq_some_iff.1 hbytes).1,
    hunstated.ofBytes_assemble hbytes, ?_⟩
  rw [exportedRecords, (selectedRecords_reports MangledName.demangler _ _ _).resultAfter]
  exact ok_of_toOption hrecords

def mainRecord : SymbolRecord := ⟨"main", some ".dynsym", 0x1000, 16, "FUNC", "GLOBAL"⟩

theorem listing_lines_main :
    ∃ img, Session.resultAfter img [] (exportedRecords img) = .ok [mainRecord] ∧
      HasLines (listingText [mainRecord]) ["main .dynsym"] ∧
      img.ShowsUnbroken MangledName.demangler exported false := by
  have hrecords : oneFunctionRecords "main" = some [mainRecord] := by decide +kernel
  obtain ⟨bytes, img, -, -, hlisting⟩ := oneFunction_listed hrecords
  have hlines : HasLines (listingText [mainRecord]) ["main .dynsym"] := by decide +kernel
  have hunbroken :=
    (listing_lines MangledName.demangler (Json.render 0) img [] exported false hlisting).1
  exact ⟨img, hlisting, hlines, hunbroken.1 hlines⟩

def forgedRecord : SymbolRecord :=
  ⟨"a .dynsym\nb", some ".dynsym", 0x1000, 16, "FUNC", "GLOBAL"⟩

/-- One function whose name is listed on two lines, as two functions would be. -/
theorem forged_line :
    ∃ bytes img, (oneFunction "a .dynsym\nb").build = some bytes ∧
      Image.ofBytes bytes.toByteArray = .ok img ∧
      Session.resultAfter img [] (exportedRecords img) = .ok [forgedRecord] ∧
      HasLines (listingText [forgedRecord]) ["a .dynsym", "b .dynsym"] ∧
      ¬ HasLines (listingText [forgedRecord]) [forgedRecord.plainLine] := by
  have hrecords : oneFunctionRecords "a .dynsym\nb" = some [forgedRecord] := by decide +kernel
  obtain ⟨bytes, img, hbytes, himg, hlisting⟩ := oneFunction_listed hrecords
  exact ⟨bytes, img, hbytes, himg, hlisting, by decide +kernel, by decide +kernel⟩

end ElfInspect
