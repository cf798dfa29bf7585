import ElfInspect.Proofs.Laziness
import ElfInspect.Proofs.Records

/-!
Bytes behind the end of an image change no answer that it gives. `Kept` compares an image with a
longer one: what the shorter one answers, the longer one answers too. A walk that a fault ends in
the shorter image may go on in the longer one.
-/

namespace ElfInspect

variable {α β : Type}

/-! ## Results that stand -/

/-- If the first result is no fault, the second one is the same. -/
def Kept (r r' : Except Fault α) : Prop := ∀ a, r = .ok a → r' = .ok a

theorem kept_refl (r : Except Fault α) : Kept r r := fun _ h => h

theorem kept_bind {r r' : Except Fault α} {f f' : α → Except Fault β} (h : Kept r r')
    (hf : ∀ a, Kept (f a) (f' a)) : Kept (r >>= f) (r' >>= f') := by
  intro b hb
  cases r with
  | error fault => cases hb
  | ok a =>
    rw [h a rfl]
    exact hf a b hb

theorem kept_firstHit {f f' : Nat → Except Fault (Option α)} (h : ∀ i, Kept (f i) (f' i))
    (start n : Nat) : Kept (firstHit f start n) (firstHit f' start n) := by
  induction n generalizing start with
  | zero => exact kept_refl _
  | succ n ih =>
    apply kept_bind (h start)
    intro hit
    cases hit with
    | some a => exact kept_refl _
    | none => exact ih (start + 1)

theorem kept_firstSome {r r' s s' : Except Fault (Option α)} (h : Kept r r') (hs : Kept s s') :
    Kept (firstSome r s) (firstSome r' s') := by
  apply kept_bind h
  intro hit
  cases hit with
  | some a => exact kept_refl _
  | none => exact hs

theorem kept_searchIn {r r' : Except Fault (Option α)} {f f' : α → Except Fault (Option β)}
    (h : Kept r r') (hf : ∀ a, Kept (f a) (f' a)) : Kept (searchIn r f) (searchIn r' f') := by
  apply kept_bind h
  intro place
  cases place with
  | some a => exact hf a
  | none => exact kept_refl _

/-! ## Walks -/

/-- The first walk is the second one, or it was cut off by a fault. -/
def Listing.CutOf (l longer : Listing α) : Prop :=
  l.items <+: longer.items ∧ (l.fault = none → longer = l)

theorem listingFrom_items (f : Nat → Except Fault α) (found : List α) (start n : Nat) :
    found.reverse <+: (Id.run (listingFrom f found start n)).items := by
  induction n generalizing found start with
  | zero => exact List.prefix_refl _
  | succ n ih =>
    dsimp only [listingFrom]
    cases hf : f start with
    | error fault => exact List.prefix_refl _
    | ok a =>
      refine List.IsPrefix.trans ?_ (ih (a :: found) (start + 1))
      rw [List.reverse_cons]
      exact List.prefix_append _ _

theorem listing_cutOf {f f' : Nat → Except Fault α} (h : ∀ i, Kept (f i) (f' i))
    (start n : Nat) :
    Listing.CutOf (Id.run (listing f start n)) (Id.run (listing f' start n)) := by
  suffices hfrom : ∀ (found : List α) start,
      Listing.CutOf (Id.run (listingFrom f found start n))
        (Id.run (listingFrom f' found start n)) from
    hfrom [] start
  induction n with
  | zero => exact fun found start => ⟨List.prefix_refl _, fun _ => rfl⟩
  | succ n ih =>
    intro found start
    cases hf : f start with
    | error fault =>
      have hcut : Id.run (listingFrom f found start (n + 1)) = ⟨found.reverse, some fault⟩ := by
        dsimp only [listingFrom]
        rw [hf]
        rfl
      rw [hcut]
      exact ⟨listingFrom_items f' found start (n + 1), fun hnone => by cases hnone⟩
    | ok a =>
      dsimp only [listingFrom]
      rw [hf, h start a hf]
      exact ih (a :: found) (start + 1)

/-! ## Bytes and records -/

theorem slice_kept (bytes more : ByteArray) (offset length : Nat) :
    Kept (slice bytes offset length) (slice (bytes ++ more) offset length) := by
  intro part h
  rw [slice_ok_iff] at h ⊢
  obtain ⟨hle, hpart⟩ := h
  rw [extract_append_of_le hle, ByteArray.size_append]
  exact ⟨by omega, hpart⟩

theorem Record.decodeAt_kept {α : Type} [Record α] (bytes more : ByteArray) (format : Format)
    (offset : Nat) :
    Kept (decodeAt (α := α) bytes format offset) (decodeAt (bytes ++ more) format offset) := by
  intro a h
  rw [decodeAt_ok_iff] at h ⊢
  obtain ⟨hle, ha⟩ := h
  rw [window_append hle, ByteArray.size_append]
  exact ⟨by omega, ha⟩

namespace SectionEntry

theorem data_kept (s : SectionEntry) (bytes more : ByteArray) :
    Kept (s.data bytes) (s.data (bytes ++ more)) := by
  unfold data
  split
  · exact kept_refl _
  · exact slice_kept bytes more _ _

theorem symbolCount_kept (s : SectionEntry) (bytes more : ByteArray) :
    Kept (s.symbolCount bytes) (s.symbolCount (bytes ++ more)) := by
  unfold symbolCount
  split
  · exact kept_refl _
  · intro count h
    cases hdata : s.data bytes with
    | error fault => rw [hdata] at h; cases h
    | ok part =>
      rw [data_kept s bytes more part hdata]
      rw [hdata] at h
      exact h

end SectionEntry

theorem SegmentEntry.interpreter_kept (p : SegmentEntry) (bytes more : ByteArray) :
    Kept (p.interpreter bytes) (p.interpreter (bytes ++ more)) := by
  unfold interpreter
  split
  · intro path h
    cases hdata : p.data bytes with
    | error fault => rw [hdata] at h; cases h
    | ok part =>
      rw [show p.data (bytes ++ more) = .ok part from slice_kept bytes more _ _ part hdata]
      rw [hdata] at h
      exact h
  · exact kept_refl _

/-! ## Headers -/

/-- How a header is read from bytes (`r`) and from more bytes (`r'`): the results are related by
`R`, the faults are the same, unless the first one is that the bytes end too early. -/
inductive Settled (R : α → α → Prop) : Except Fault α → Except Fault α → Prop
  | ok {a a' : α} (h : R a a') : Settled R (.ok a) (.ok a')
  | fault (fault : Fault) : Settled R (.error fault) (.error fault)
  | truncated (offset needed : Nat) (r' : Except Fault α) :
    Settled R (.error (.truncatedInput offset needed)) r'

theorem settled_bind {R : α → α → Prop} {S : β → β → Prop} {r r' : Except Fault α}
    {f f' : α → Except Fault β} (h : Settled R r r')
    (hf : ∀ a a', r = .ok a → R a a' → Settled S (f a) (f' a')) :
    Settled S (r >>= f) (r' >>= f') := by
  cases h with
  | ok hR => exact hf _ _ rfl hR
  | fault fault => exact .fault fault
  | truncated offset needed => exact .truncated offset needed _

theorem settled_refl (r : Except Fault α) : Settled (fun a a' => a' = a) r r := by
  cases r with
  | ok a => exact .ok rfl
  | error fault => exact .fault fault

/-- The cursor `c'` is at the place of `c`, in bytes that go on behind those of `c`. -/
def Cursor.Longer (more : ByteArray) (c c' : Cursor) : Prop :=
  c.pos ≤ c.bytes.size ∧ c' = { c with bytes := c.bytes ++ more }

theorem Fields.read_settled (ws : Layout) {more : ByteArray} {c c' : Cursor}
    (h : c.Longer more c') :
    Settled (fun x y => y.1 = x.1 ∧ x.2.Longer more y.2) (read ws c) (read ws c') := by
  obtain ⟨hpos, rfl⟩ := h
  by_cases hle : c.pos + Layout.size c.format.fileClass ws ≤ c.bytes.size
  · have hle' : c.pos + Layout.size c.format.fileClass ws ≤ (c.bytes ++ more).size := by
      rw [ByteArray.size_append]
      omega
    rw [read_of_le ws c hle, read_of_le ws { c with bytes := c.bytes ++ more } hle',
      window_append hle]
    exact .ok ⟨rfl, hle, rfl⟩
  · obtain ⟨offset, needed, hread⟩ := read_of_lt ws c hpos (Nat.lt_of_not_le hle)
    rw [hread]
    exact .truncated offset needed _

namespace Header

theorem byteAt_append {bytes : ByteArray} {i : Nat} (h : i < bytes.size) (more : ByteArray) :
    byteAt (bytes ++ more) i = byteAt bytes i := by
  have hi : i < bytes.data.size := h
  simp only [byteAt, ByteArray.data_append, Array.getD_eq_getD_getElem?]
  rw [Array.getElem?_append_left hi]

theorem parseIdent_settled (bytes more : ByteArray) :
    Settled (fun a a' => a' = a) (parseIdent bytes) (parseIdent (bytes ++ more)) := by
  have hsize : (bytes ++ more).size = bytes.size + more.size := ByteArray.size_append
  unfold parseIdent
  by_cases hmagic : bytes.size < magic.length
  · rw [if_pos hmagic]
    exact .truncated 0 magic.length _
  have hmagic' : ¬ (bytes ++ more).size < magic.length := by omega
  rw [if_neg hmagic, if_neg hmagic', window_append (by omega)]
  dsimp only
  split
  · exact settled_refl _
  by_cases hident : bytes.size < identSize
  · rw [if_pos hident]
    exact .truncated 0 identSize _
  have hident' : ¬ (bytes ++ more).size < identSize := by omega
  rw [if_neg hident, if_neg hident']
  have hbyte : ∀ i, i < identSize → byteAt (bytes ++ more) i = byteAt bytes i :=
    fun i hi => byteAt_append (by omega) more
  rw [hbyte 4 (by decide), hbyte 5 (by decide), hbyte 6 (by decide)]
  exact settled_refl _

theorem parseBody_settled {bytes : ByteArray} (h : identSize ≤ bytes.size) (more : ByteArray)
    (format : Format) :
    Settled (fun a a' => a' = a) (parseBody bytes format) (parseBody (bytes ++ more) format) := by
  unfold parseBody
  refine settled_bind (Fields.read_settled leadLayout ⟨h, rfl⟩) ?_
  rintro ⟨⟨t, m, v, entry, ph, sh, flags, ehsize, phsize, phnum, shsize, shnum, ⟨⟩⟩, c⟩ ⟨_, c'⟩
    - ⟨rfl, hc⟩
  dsimp only
  split
  · exact settled_refl _
  refine settled_bind (Fields.read_settled [.half] hc) ?_
  rintro ⟨⟨names, ⟨⟩⟩, _⟩ ⟨_, _⟩ - ⟨rfl, _⟩
  exact settled_refl _

theorem size_of_parseIdent {bytes : ByteArray} {format : Format}
    (h : parseIdent bytes = .ok format) : identSize ≤ bytes.size := by
  refine Nat.le_of_not_lt fun hident => ?_
  unfold parseIdent at h
  by_cases hmagic : bytes.size < magic.length
  · rw [if_pos hmagic] at h
    cases h
  rw [if_neg hmagic] at h
  by_cases hfound : window bytes 0 magic.length ≠ magic
  · rw [if_pos hfound] at h
    cases h
  rw [if_neg hfound, if_pos hident] at h
  cases h

theorem parse_settled (bytes more : ByteArray) :
    Settled (fun a a' => a' = a) (parse bytes) (parse (bytes ++ more)) := by
  unfold parse
  refine settled_bind (parseIdent_settled bytes more) ?_
  rintro _ format hident rfl
  have hsize := size_of_parseIdent hident
  refine settled_bind (parseBody_settled hsize more format) ?_
  rintro _ body - rfl
  have hbyte : ∀ i, i < identSize → byteAt (bytes ++ more) i = byteAt bytes i :=
    fun i hi => byteAt_append (by omega) more
  rw [hbyte 7 (by decide), hbyte 8 (by decide)]
  exact settled_refl _

end Header

/-! ## Questions -/

/-- The image with more bytes behind its end. -/
def Image.extend (img : Image) (more : ByteArray) : Image := { img with bytes := img.bytes ++ more }

namespace Image

variable (img : Image) (more : ByteArray)

theorem sectionAt_kept (i : Nat) : Kept (img.sectionAt i) ((img.extend more).sectionAt i) := by
  apply kept_bind (kept_refl _)
  intro offset
  exact Record.decodeAt_kept _ _ _ _

theorem segmentAt_kept (i : Nat) : Kept (img.segmentAt i) ((img.extend more).segmentAt i) := by
  apply kept_bind (kept_refl _)
  intro offset
  exact Record.decodeAt_kept _ _ _ _

theorem symbolAt_kept (i j : Nat) : Kept (img.symbolAt i j) ((img.extend more).symbolAt i j) := by
  apply kept_bind (img.sectionAt_kept more i)
  intro s
  apply kept_bind (s.symbolCount_kept img.bytes more)
  intro count
  apply kept_bind (kept_refl _)
  intro offset
  exact Record.decodeAt_kept _ _ _ _

theorem stringTable_kept (i : Nat) :
    Kept (img.stringTable i) ((img.extend more).stringTable i) := by
  apply kept_bind (img.sectionAt_kept more i)
  intro s
  exact kept_bind (s.data_kept img.bytes more) fun _ => kept_refl _

theorem nameTable_kept : Kept img.nameTable (img.extend more).nameTable := by
  unfold nameTable
  change Kept _ (if img.header.nameSection = 0 then _ else _)
  split
  · exact kept_refl _
  · exact kept_bind (img.stringTable_kept more _) fun _ => kept_refl _

theorem sectionName_kept (i : Nat) :
    Kept (img.sectionName i) ((img.extend more).sectionName i) := by
  apply kept_bind (img.sectionAt_kept more i)
  intro s
  exact kept_bind (img.nameTable_kept more) fun _ => kept_refl _

theorem symbolName_kept (i j : Nat) :
    Kept (img.symbolName i j) ((img.extend more).symbolName i j) := by
  apply kept_bind (img.sectionAt_kept more i)
  intro s
  apply kept_bind (img.symbolAt_kept more i j)
  intro symbol
  exact kept_bind (img.stringTable_kept more _) fun _ => kept_refl _

theorem sectionNamed_kept (name : String) :
    Kept (img.sectionNamed name) ((img.extend more).sectionNamed name) := by
  apply kept_firstHit
  intro i
  apply kept_bind (img.sectionAt_kept more i)
  intro s
  exact kept_bind (img.sectionName_kept more i) fun _ => kept_refl _

theorem stringsNamed_kept (name : String) :
    Kept (img.stringsNamed name) ((img.extend more).stringsNamed name) := by
  apply kept_bind (img.sectionNamed_kept more name)
  intro hit
  cases hit with
  | some hit => exact kept_bind (img.stringTable_kept more _) fun _ => kept_refl _
  | none => exact kept_refl _

theorem indexOfType_kept (type : Nat) :
    Kept (img.indexOfType type) ((img.extend more).indexOfType type) := by
  apply kept_firstHit
  intro i
  exact kept_bind (img.sectionAt_kept more i) fun _ => kept_refl _

theorem wellKnown_kept (w : WellKnown) :
    Kept (img.wellKnown w) ((img.extend more).wellKnown w) := by
  apply kept_bind (img.indexOfType_kept more w.type)
  intro found
  cases found with
  | some i => exact kept_bind (img.sectionAt_kept more i) fun _ => kept_refl _
  | none => exact kept_refl _

theorem interpreterPath_kept : Kept img.interpreterPath (img.extend more).interpreterPath := by
  apply kept_firstHit
  intro i
  apply kept_bind (img.segmentAt_kept more i)
  intro p
  exact p.interpreter_kept img.bytes more

theorem searchSymbols_kept {search search' : SectionHit → Except Fault (Option SymbolHit)}
    (h : ∀ table, Kept (search table) (search' table)) :
    Kept (img.searchSymbols search) ((img.extend more).searchSymbols search') :=
  kept_firstSome (kept_searchIn (img.wellKnown_kept more _) h)
    (kept_searchIn (img.wellKnown_kept more _) h)

theorem symbolNamed_kept (name : String) :
    Kept (img.symbolNamed name) ((img.extend more).symbolNamed name) := by
  apply img.searchSymbols_kept more
  intro table
  apply kept_firstHit
  intro k
  apply kept_bind (img.symbolAt_kept more table.index _)
  intro symbol
  exact kept_bind (img.symbolName_kept more table.index _) fun _ => kept_refl _

theorem symbolContaining_kept (address : Nat) :
    Kept (img.symbolContaining address) ((img.extend more).symbolContaining address) := by
  apply img.searchSymbols_kept more
  intro table
  apply kept_firstHit
  intro j
  exact kept_bind (img.symbolAt_kept more table.index j) fun _ => kept_refl _

end Image

/-! ## Answers -/

/-- The first answer is the second one, or it is a walk that a fault cut off. -/
def Answer.CutOf : Answer → Answer → Prop
  | .sections l, .sections longer => l.CutOf longer
  | .segments l, .segments longer => l.CutOf longer
  | .symbols l, .symbols longer => l.CutOf longer
  | .texts l, .texts longer => l.CutOf longer
  | a, longer => longer = a

theorem Listing.cutOf_refl (l : Listing α) : l.CutOf l := ⟨List.prefix_refl _, fun _ => rfl⟩

theorem Answer.cutOf_refl (a : Answer) : a.CutOf a := by
  cases a with
  | sections l => exact l.cutOf_refl
  | segments l => exact l.cutOf_refl
  | symbols l => exact l.cutOf_refl
  | texts l => exact l.cutOf_refl
  | _ => rfl

/-- If the first result is an answer, the second one is too, and it cuts nothing off. -/
def Answered (r r' : Except Fault Answer) : Prop :=
  ∀ a, r = .ok a → ∃ longer, r' = .ok longer ∧ a.CutOf longer

theorem answered_of_kept {r r' : Except Fault Answer} (h : Kept r r') : Answered r r' :=
  fun a ha => ⟨a, h a ha, a.cutOf_refl⟩

theorem answered_pure {a longer : Answer} (h : a.CutOf longer) :
    Answered (pure a) (pure longer) := by
  rintro _ ⟨⟩
  exact ⟨longer, rfl, h⟩

theorem answered_bind {r r' : Except Fault α} {f f' : α → Except Fault Answer} (h : Kept r r')
    (hf : ∀ a, Answered (f a) (f' a)) : Answered (r >>= f) (r' >>= f') := by
  intro b hb
  cases r with
  | error fault => cases hb
  | ok a =>
    rw [h a rfl]
    exact hf a b hb

/-- Every question that an image answers is answered by the longer image. -/
theorem Query.fresh_answered (img : Image) (more : ByteArray) (q : Query) :
    Answered (q.fresh img) (q.fresh (img.extend more)) := by
  cases q with
  | sectionEntry i =>
    exact answered_of_kept <| kept_bind (img.sectionAt_kept more i) fun _ => kept_refl _
  | sectionName i =>
    exact answered_of_kept <| kept_bind (img.sectionName_kept more i) fun _ => kept_refl _
  | sectionData i =>
    apply answered_of_kept
    apply kept_bind (img.sectionAt_kept more i)
    intro s
    exact kept_bind (s.data_kept img.bytes more) fun _ => kept_refl _
  | sectionStrings i =>
    exact answered_of_kept <| kept_bind (img.stringTable_kept more i) fun _ => kept_refl _
  | sectionString i offset =>
    exact answered_of_kept <| kept_bind (img.stringTable_kept more i) fun _ => kept_refl _
  | entryCount i =>
    exact answered_of_kept <| kept_bind (img.sectionAt_kept more i) fun _ => kept_refl _
  | symbol i j =>
    exact answered_of_kept <| kept_bind (img.symbolAt_kept more i j) fun _ => kept_refl _
  | symbolName i j =>
    exact answered_of_kept <| kept_bind (img.symbolName_kept more i j) fun _ => kept_refl _
  | symbolContains i j addresses =>
    exact answered_of_kept <| kept_bind (img.symbolAt_kept more i j) fun _ => kept_refl _
  | symbols i =>
    exact answered_bind (img.sectionAt_kept more i) fun _ =>
      answered_pure (listing_cutOf (img.symbolAt_kept more i) _ _)
  | symbolNames i =>
    exact answered_bind (img.sectionAt_kept more i) fun _ =>
      answered_pure (listing_cutOf (img.symbolName_kept more i) _ _)
  | sections => exact answered_pure (listing_cutOf (img.sectionAt_kept more) _ _)
  | sectionNames => exact answered_pure (listing_cutOf (img.sectionName_kept more) _ _)
  | segment i =>
    exact answered_of_kept <| kept_bind (img.segmentAt_kept more i) fun _ => kept_refl _
  | segmentData i =>
    apply answered_of_kept
    apply kept_bind (img.segmentAt_kept more i)
    intro p
    exact kept_bind (slice_kept img.bytes more _ _) fun _ => kept_refl _
  | segmentInterpreter i =>
    apply answered_of_kept
    apply kept_bind (img.segmentAt_kept more i)
    intro p
    exact kept_bind (p.interpreter_kept img.bytes more) fun _ => kept_refl _
  | segments => exact answered_pure (listing_cutOf (img.segmentAt_kept more) _ _)
  | nameTable => exact answered_of_kept <| kept_bind (img.nameTable_kept more) fun _ => kept_refl _
  | stringsNamed name =>
    exact answered_of_kept <| kept_bind (img.stringsNamed_kept more name) fun _ => kept_refl _
  | sectionNamed name =>
    exact answered_of_kept <| kept_bind (img.sectionNamed_kept more name) fun _ => kept_refl _
  | wellKnown w =>
    exact answered_of_kept <| kept_bind (img.wellKnown_kept more w) fun _ => kept_refl _
  | interpreterPath =>
    exact answered_of_kept <| kept_bind (img.interpreterPath_kept more) fun _ => kept_refl _
  | symbolNamed name =>
    exact answered_of_kept <| kept_bind (img.symbolNamed_kept more name) fun _ => kept_refl _
  | symbolContaining address =>
    exact answered_of_kept <| kept_bind (img.symbolContaining_kept more address) fun _ =>
      kept_refl _

/-! ## Images -/

theorem Image.ofBytes_settled (bytes more : ByteArray) :
    Settled (fun img longer => longer = img.extend more) (ofBytes bytes)
      (ofBytes (bytes ++ more)) := by
  unfold ofBytes
  have h := Header.parse_settled bytes more
  generalize Header.parse bytes = r, Header.parse (bytes ++ more) = r' at h
  cases h with
  | ok h => exact .ok (h ▸ rfl)
  | fault fault => exact .fault fault
  | truncated offset needed => exact .truncated offset needed _

/-- Cutting an image short can turn an answer into a fault, never into another answer. -/
theorem answers_survive_more_bytes (bytes more : ByteArray) :
    (∀ img, Image.ofBytes bytes = .ok img →
      ∃ longer, Image.ofBytes (bytes ++ more) = .ok longer ∧ longer.header = img.header ∧
        ∀ asked asked' q a, Query.answerAfter img asked q = .ok a →
          ∃ a', Query.answerAfter longer asked' q = .ok a' ∧ a.CutOf a') ∧
    (∀ fault, Image.ofBytes bytes = .error fault →
      (∀ offset needed, fault ≠ .truncatedInput offset needed) →
        Image.ofBytes (bytes ++ more) = .error fault) := by
  have h := Image.ofBytes_settled bytes more
  constructor
  · intro img himg
    rw [himg] at h
    generalize hr' : Image.ofBytes (bytes ++ more) = r' at h
    cases h with
    | ok hlonger =>
      subst hlonger
      refine ⟨_, rfl, rfl, fun asked asked' q a ha => ?_⟩
      rw [Query.answerAfter_eq_fresh] at ha ⊢
      exact q.fresh_answered img more a ha
  · intro fault hfault hne
    rw [hfault] at h
    generalize hr' : Image.ofBytes (bytes ++ more) = r' at h
    cases h with
    | fault => rfl
    | truncated offset needed => exact absurd rfl (hne offset needed)

/-- A header that announces two sections. -/
def twoSections : Header where
  format := ⟨.elf32, .lsb⟩
  osAbi := 0
  abiVersion := 0
  objectType := 2
  machine := 3
  version := 1
  entry := 0
  segmentTable := 0
  sectionTable := 52
  flags := 0
  headerSize := 52
  segmentEntrySize := 32
  segmentCount := 0
  sectionEntrySize := 40
  sectionCount := 2
  nameSection := 0

/-- An image that ends behind the first of its two sections. -/
def cutImage : ByteArray := ⟨(twoSections.encode ++ List.replicate 40 0).toArray⟩

/-- The walk over the sections, cut off in the short image, goes on in the longer one. -/
theorem answers_survive_more_bytes_cut :
    ∃ longer, Image.ofBytes (cutImage ++ ⟨#[7, 0, 0, 0]⟩) = .ok longer ∧
      longer.header = twoSections ∧
        ∃ a', Query.answerAfter longer [.sectionEntry 1] .sections = .ok a' ∧
          (Answer.sections ⟨[⟨0, 0, 0, 0, 0, 0, 0, 0, 0, 0⟩], some (.truncatedInput 92 4)⟩).CutOf
            a' := by
  have himg : Image.ofBytes cutImage = .ok ⟨cutImage, twoSections⟩ := by cbv
  have hwalk : Query.fresh ⟨cutImage, twoSections⟩ .sections =
      .ok (.sections ⟨[⟨0, 0, 0, 0, 0, 0, 0, 0, 0, 0⟩], some (.truncatedInput 92 4)⟩) := by cbv
  obtain ⟨longer, hlonger, hheader, hanswer⟩ :=
    (answers_survive_more_bytes cutImage ⟨#[7, 0, 0, 0]⟩).1 _ himg
  refine ⟨longer, hlonger, hheader, hanswer [] _ _ _ ?_⟩
  rw [Query.answerAfter_eq_fresh, hwalk]

end ElfInspect
