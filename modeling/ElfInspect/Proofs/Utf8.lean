import Mathlib
import ElfInspect.Text.Lossy

/-!
What is UTF-8 is read as it was written: `lossyText_toUTF8`. A zero byte comes from a zero character
only, so that a zero byte ends no string too early, and whatever bytes are read, a zero character
comes from a zero byte only: `lossyText_zero_free`. The same holds of every character that takes
a single byte: `mem_lossyText_iff`.
-/

namespace ElfInspect.Lossy

/-! ## Steps of the decoder -/

theorem opening_one {b : UInt8} (h : b.toNat < 0x80) :
    opening b = ([Char.ofNat b.toNat], none) := by
  simp only [opening, h, ↓reduceIte]

theorem opening_two {b : UInt8} (h : 0xc2 ≤ b.toNat) (h' : b.toNat < 0xe0) :
    opening b = ([], some ⟨b.toNat - 0xc0, 1, 0x80, 0xbf⟩) := by
  have h1 : ¬ b.toNat < 0x80 := by omega
  have h2 : ¬ b.toNat < 0xc2 := by omega
  simp only [opening, h1, h2, h', ↓reduceIte]

theorem opening_three {b : UInt8} (h : 0xe0 ≤ b.toNat) (h' : b.toNat < 0xf0) :
    opening b = ([], some ⟨b.toNat - 0xe0, 2, if b.toNat = 0xe0 then 0xa0 else 0x80,
      if b.toNat = 0xed then 0x9f else 0xbf⟩) := by
  have h1 : ¬ b.toNat < 0x80 := by omega
  have h2 : ¬ b.toNat < 0xc2 := by omega
  have h3 : ¬ b.toNat < 0xe0 := by omega
  simp only [opening, h1, h2, h3, h', ↓reduceIte]

theorem opening_four {b : UInt8} (h : 0xf0 ≤ b.toNat) (h' : b.toNat < 0xf5) :
    opening b = ([], some ⟨b.toNat - 0xf0, 3, if b.toNat = 0xf0 then 0x90 else 0x80,
      if b.toNat = 0xf4 then 0x8f else 0xbf⟩) := by
  have h1 : ¬ b.toNat < 0x80 := by omega
  have h2 : ¬ b.toNat < 0xc2 := by omega
  have h3 : ¬ b.toNat < 0xe0 := by omega
  have h4 : ¬ b.toNat < 0xf0 := by omega
  simp only [opening, h1, h2, h3, h4, h', ↓reduceIte]

theorem opening_stray {b : UInt8} (h : 0x80 ≤ b.toNat ∧ b.toNat < 0xc2 ∨ 0xf5 ≤ b.toNat) :
    opening b = ([replacement], none) := by
  have h1 : ¬ b.toNat < 0x80 := by omega
  by_cases h2 : b.toNat < 0xc2
  · simp only [opening, h1, h2, ↓reduceIte]
  · have h3 : ¬ b.toNat < 0xe0 := by omega
    have h4 : ¬ b.toNat < 0xf0 := by omega
    have h5 : ¬ b.toNat < 0xf5 := by omega
    simp only [opening, h1, h2, h3, h4, h5, ↓reduceIte]

theorem step_last {bits low high : Nat} {b : UInt8} (h : low ≤ b.toNat ∧ b.toNat ≤ high) :
    step (some ⟨bits, 1, low, high⟩) b = ([Char.ofNat (64 * bits + (b.toNat - 0x80))], none) := by
  simp only [step, h, and_self, ↓reduceIte]

theorem step_inner {bits owed low high : Nat} {b : UInt8} (h : low ≤ b.toNat ∧ b.toNat ≤ high)
    (howed : owed ≠ 1) :
    step (some ⟨bits, owed, low, high⟩) b =
      ([], some ⟨64 * bits + (b.toNat - 0x80), owed - 1, 0x80, 0xbf⟩) := by
  simp only [step, h, and_self, howed, ↓reduceIte]

/-! ## Characters -/

theorem decode_one {a : UInt8} (ha : a.toNat < 0x80) (rest : List UInt8) :
    decode (a :: rest) = Char.ofNat a.toNat :: decode rest := by
  rw [decode, decodeFrom_cons, step, opening_one ha]
  rfl

theorem decode_two {a b : UInt8} (ha : 0xc2 ≤ a.toNat ∧ a.toNat < 0xe0)
    (hb : 0x80 ≤ b.toNat ∧ b.toNat ≤ 0xbf) (rest : List UInt8) :
    decode (a :: b :: rest) =
      Char.ofNat (64 * (a.toNat - 0xc0) + (b.toNat - 0x80)) :: decode rest := by
  rw [decode, decodeFrom_cons, step, opening_two ha.1 ha.2, decodeFrom_cons, step_last hb]
  rfl

/-- The bounds of `b` say that the form is not overlong and the character no surrogate. -/
theorem decode_three {a b c : UInt8} (ha : 0xe0 ≤ a.toNat ∧ a.toNat < 0xf0)
    (hb : (if a.toNat = 0xe0 then 0xa0 else 0x80) ≤ b.toNat ∧
      b.toNat ≤ if a.toNat = 0xed then 0x9f else 0xbf)
    (hc : 0x80 ≤ c.toNat ∧ c.toNat ≤ 0xbf) (rest : List UInt8) :
    decode (a :: b :: c :: rest) =
      Char.ofNat (64 * (64 * (a.toNat - 0xe0) + (b.toNat - 0x80)) + (c.toNat - 0x80)) ::
        decode rest := by
  rw [decode, decodeFrom_cons, step, opening_three ha.1 ha.2, decodeFrom_cons,
    step_inner hb (by decide), decodeFrom_cons, step_last hc]
  rfl

/-- The bounds of `b` say that the form is not overlong and the character has a code point. -/
theorem decode_four {a b c d : UInt8} (ha : 0xf0 ≤ a.toNat ∧ a.toNat < 0xf5)
    (hb : (if a.toNat = 0xf0 then 0x90 else 0x80) ≤ b.toNat ∧
      b.toNat ≤ if a.toNat = 0xf4 then 0x8f else 0xbf)
    (hc : 0x80 ≤ c.toNat ∧ c.toNat ≤ 0xbf) (hd : 0x80 ≤ d.toNat ∧ d.toNat ≤ 0xbf)
    (rest : List UInt8) :
    decode (a :: b :: c :: d :: rest) =
      Char.ofNat (64 * (64 * (64 * (a.toNat - 0xf0) + (b.toNat - 0x80)) + (c.toNat - 0x80)) +
        (d.toNat - 0x80)) :: decode rest := by
  rw [decode, decodeFrom_cons, step, opening_four ha.1 ha.2, decodeFrom_cons,
    step_inner hb (by decide), decodeFrom_cons, step_inner hc (by decide), decodeFrom_cons,
    step_last hd]
  rfl

/-- A character is read from its bytes, whatever follows them. -/
theorem decode_utf8EncodeChar (c : Char) (rest : List UInt8) :
    decode (String.utf8EncodeChar c ++ rest) = c :: decode rest := by
  have hvalid : c.toNat < 0xd800 ∨ 0xdfff < c.toNat ∧ c.toNat < 0x110000 := c.valid
  have hchar : ∀ n, n = c.toNat → Char.ofNat n = c := by
    intro n hn
    rw [hn, Char.ofNat_toNat]
  have hbyte : ∀ n, n < 256 → (UInt8.ofNat n).toNat = n := fun n hn =>
    UInt8.toNat_ofNat_of_lt' hn
  unfold String.utf8EncodeChar
  rw [show c.val.toNat = c.toNat from rfl]
  generalize c.toNat = n at hvalid hchar
  dsimp only
  have hlast := hbyte (n % 0x40 + 0x80) (by omega)
  by_cases h1 : n ≤ 0x7f
  · have hfirst := hbyte n (by omega)
    rw [if_pos h1, List.singleton_append, decode_one (by omega), hchar _ (by omega)]
  rw [if_neg h1]
  by_cases h2 : n ≤ 0x7ff
  · have hfirst := hbyte (n / 64 % 0x20 + 0xc0) (by omega)
    rw [if_pos h2, List.cons_append, List.singleton_append, decode_two (by omega) (by omega),
      hchar _ (by omega)]
  rw [if_neg h2]
  have hsecond := hbyte (n / 64 % 0x40 + 0x80) (by omega)
  by_cases h3 : n ≤ 0xffff
  · have hfirst := hbyte (n / 4096 % 0x10 + 0xe0) (by omega)
    rw [if_pos h3, List.cons_append, List.cons_append, List.singleton_append,
      decode_three (by omega) (by constructor <;> split <;> omega) (by omega), hchar _ (by omega)]
  rw [if_neg h3]
  have hthird := hbyte (n / 4096 % 0x40 + 0x80) (by omega)
  have hfirst := hbyte (n / 262144 % 0x08 + 0xf0) (by omega)
  rw [List.cons_append, List.cons_append, List.cons_append, List.singleton_append,
    decode_four (by omega) (by constructor <;> split <;> omega) (by omega) (by omega),
    hchar _ (by omega)]

theorem eq_zero_of_zero_mem_utf8EncodeChar {c : Char} (h : 0 ∈ String.utf8EncodeChar c) :
    c.toNat = 0 := by
  have hbyte : ∀ n, 0 = UInt8.ofNat n → n % 256 = 0 := by
    intro n hn
    rw [← UInt8.toNat_ofNat', ← hn]
    rfl
  unfold String.utf8EncodeChar at h
  rw [show c.val.toNat = c.toNat from rfl] at h
  dsimp only at h
  split at h
  · have := hbyte _ (List.mem_singleton.1 h)
    omega
  split at h
  · simp only [List.mem_cons, List.not_mem_nil, or_false] at h
    rcases h with h | h <;> have := hbyte _ h <;> omega
  split at h
  · simp only [List.mem_cons, List.not_mem_nil, or_false] at h
    rcases h with h | h | h <;> have := hbyte _ h <;> omega
  · simp only [List.mem_cons, List.not_mem_nil, or_false] at h
    rcases h with h | h | h | h <;> have := hbyte _ h <;> omega

theorem decode_flatMap_utf8EncodeChar (cs : List Char) :
    decode (cs.flatMap String.utf8EncodeChar) = cs := by
  induction cs with
  | nil => rfl
  | cons c cs ih => rw [List.flatMap_cons, decode_utf8EncodeChar, ih]

/-! ## Single bytes -/

/-- The least number that a character begun may come to have. -/
def Begun.least (s : Begun) : Nat := (64 * s.bits + (s.low - 0x80)) * 64 ^ (s.owed - 1)

/-- One more than the greatest number that a character begun may come to have. -/
def Begun.limit (s : Begun) : Nat := (64 * s.bits + (s.high - 0x80) + 1) * 64 ^ (s.owed - 1)

/-- However a character begun is completed, it is one, and not one that takes a single byte. -/
structure Begun.Fit (s : Begun) : Prop where
  owed : 1 ≤ s.owed
  low : 0x80 ≤ s.low
  wide : 0x80 ≤ s.least
  scalar : s.limit ≤ 0xd800 ∨ 0xdfff < s.least ∧ s.limit ≤ 0x110000

/-- No character of a single byte can come of what is begun. -/
def StateFit : Option Begun → Prop
  | none => True
  | some s => s.Fit

theorem toNat_ofNat {n : Nat} (h : n < 0xd800 ∨ 0xdfff < n ∧ n < 0x110000) :
    (Char.ofNat n).toNat = n := by
  rw [Char.toNat_ofNat, if_pos h]

/-- Of the characters that are complete with the byte `b`, those below 0x80 are `b` itself. -/
def FromByte (b : UInt8) (cs : List Char) : Prop := ∀ c ∈ cs, c.toNat < 0x80 → c.toNat = b.toNat

theorem fromByte_nil (b : UInt8) : FromByte b [] := nofun

theorem fromByte_singleton {b : UInt8} {c : Char} (h : c.toNat < 0x80 → c.toNat = b.toNat) :
    FromByte b [c] := by
  intro c' hc'
  rw [List.mem_singleton.1 hc']
  exact h

theorem fromByte_replacement (b : UInt8) {cs : List Char} (h : FromByte b cs) :
    FromByte b (replacement :: cs) := by
  intro c hc hlow
  rcases List.mem_cons.1 hc with rfl | hc
  · exact absurd hlow (by decide)
  · exact h c hc hlow

theorem opening_fit (b : UInt8) : FromByte b (opening b).1 ∧ StateFit (opening b).2 := by
  have hkinds : b.toNat < 0x80 ∨ (0x80 ≤ b.toNat ∧ b.toNat < 0xc2 ∨ 0xf5 ≤ b.toNat) ∨
      (0xc2 ≤ b.toNat ∧ b.toNat < 0xe0) ∨ (0xe0 ≤ b.toNat ∧ b.toNat < 0xf0) ∨
      (0xf0 ≤ b.toNat ∧ b.toNat < 0xf5) := by omega
  rcases hkinds with h | h | ⟨h, h'⟩ | ⟨h, h'⟩ | ⟨h, h'⟩
  · rw [opening_one h]
    exact ⟨fromByte_singleton fun _ => toNat_ofNat (.inl (by omega)), trivial⟩
  · rw [opening_stray h]
    exact ⟨fromByte_replacement b (fromByte_nil b), trivial⟩
  · rw [opening_two h h']
    refine ⟨fromByte_nil b, Nat.le_refl _, Nat.le_refl _, ?_, ?_⟩ <;>
    simp only [Begun.least, Begun.limit] <;> omega
  · rw [opening_three h h']
    refine ⟨fromByte_nil b, Nat.succ_pos _, ?_, ?_, ?_⟩ <;>
    simp only [Begun.least, Begun.limit] <;> split <;> (try split) <;> omega
  · rw [opening_four h h']
    refine ⟨fromByte_nil b, Nat.succ_pos _, ?_, ?_, ?_⟩ <;>
    simp only [Begun.least, Begun.limit] <;> split <;> (try split) <;> omega

theorem Begun.least_inner (bits more : Nat) :
    least ⟨bits, more + 1, 0x80, 0xbf⟩ = bits * 64 ^ (more + 1) := by
  simp only [least, Nat.sub_self, Nat.add_zero, Nat.add_sub_cancel, Nat.pow_succ']
  ac_rfl

theorem Begun.limit_inner (bits more : Nat) :
    limit ⟨bits, more + 1, 0x80, 0xbf⟩ = (bits + 1) * 64 ^ (more + 1) := by
  simp only [limit, Nat.reduceSub, Nat.add_assoc, Nat.reduceAdd, Nat.add_sub_cancel, Nat.pow_succ']
  rw [← Nat.mul_add_one, Nat.mul_comm 64, Nat.mul_assoc]

/-- A byte that belongs to a character begun narrows down which one it is. -/
theorem Begun.Fit.next {bits owed low high : Nat} (h : Fit ⟨bits, owed, low, high⟩) {b : UInt8}
    (hb : low ≤ b.toNat ∧ b.toNat ≤ high) (howed : owed ≠ 1) :
    Fit ⟨64 * bits + (b.toNat - 0x80), owed - 1, 0x80, 0xbf⟩ := by
  obtain ⟨hpos, hlow, hleast, hscalar⟩ := h
  dsimp only at hpos
  obtain ⟨more, rfl⟩ : ∃ more, owed = more + 2 := ⟨owed - 2, by omega⟩
  have hfrom : least ⟨bits, more + 2, low, high⟩ ≤
      least ⟨64 * bits + (b.toNat - 0x80), more + 1, 0x80, 0xbf⟩ := by
    rw [least_inner]
    exact Nat.mul_le_mul_right _ (Nat.add_le_add_left (Nat.sub_le_sub_right hb.1 _) _)
  have hto : limit ⟨64 * bits + (b.toNat - 0x80), more + 1, 0x80, 0xbf⟩ ≤
      limit ⟨bits, more + 2, low, high⟩ := by
    rw [limit_inner]
    refine Nat.mul_le_mul_right _ (Nat.succ_le_succ ?_)
    exact Nat.add_le_add_left (Nat.sub_le_sub_right hb.2 _) _
  refine ⟨Nat.succ_pos more, Nat.le_refl _, hleast.trans hfrom, ?_⟩
  exact hscalar.imp hto.trans fun h => ⟨Nat.lt_of_lt_of_le h.1 hfrom, hto.trans h.2⟩

/-- A byte that does not belong to the character begun is read as one between two characters. -/
theorem step_other {bits owed low high : Nat} {b : UInt8} (h : ¬ (low ≤ b.toNat ∧ b.toNat ≤ high)) :
    step (some ⟨bits, owed, low, high⟩) b = (replacement :: (opening b).1, (opening b).2) :=
  if_neg h

theorem step_fit {state : Option Begun} (h : StateFit state) (b : UInt8) :
    FromByte b (step state b).1 ∧ StateFit (step state b).2 := by
  rcases state with _ | ⟨bits, owed, low, high⟩
  · exact opening_fit b
  by_cases hin : low ≤ b.toNat ∧ b.toNat ≤ high
  case neg =>
    obtain ⟨hchars, hnext⟩ := opening_fit b
    rw [step_other hin]
    exact ⟨fromByte_replacement b hchars, hnext⟩
  by_cases howed : owed = 1
  · subst howed
    obtain ⟨-, hlow, hwide, hscalar⟩ := h
    simp only [Begun.least, Begun.limit] at hlow hwide hscalar
    rw [step_last hin]
    refine ⟨fromByte_singleton fun hsmall => ?_, trivial⟩
    rw [toNat_ofNat (by omega)] at hsmall
    omega
  · rw [step_inner hin howed]
    exact ⟨fromByte_nil b, Begun.Fit.next h hin howed⟩

/-- A byte below 0x80 is a character, whatever is begun. -/
theorem ofNat_mem_step {state : Option Begun} (h : StateFit state) {b : UInt8}
    (hb : b.toNat < 0x80) : Char.ofNat b.toNat ∈ (step state b).1 := by
  have hopening : Char.ofNat b.toNat ∈ (opening b).1 := by
    rw [opening_one hb]
    exact List.mem_singleton_self _
  rcases state with _ | ⟨bits, owed, low, high⟩
  · exact hopening
  · have hlow : 0x80 ≤ low := h.low
    rw [step_other (by omega)]
    exact List.mem_cons_of_mem _ hopening

/-- The characters below 0x80 are those of the bytes below 0x80. -/
theorem mem_decodeFrom_iff {state : Option Begun} (h : StateFit state) {bs : List UInt8} {c : Char}
    (hc : c.toNat < 0x80) : c ∈ decodeFrom state bs ↔ ∃ b ∈ bs, b.toNat = c.toNat := by
  induction bs generalizing state with
  | nil =>
    have hreplacement : c ≠ replacement := by
      rintro rfl
      exact absurd hc (by decide)
    cases state with
    | none => exact iff_of_false List.not_mem_nil (by simp)
    | some s => exact iff_of_false (fun hmem => hreplacement (List.mem_singleton.1 hmem)) (by simp)
  | cons b rest ih =>
    obtain ⟨hchars, hnext⟩ := step_fit h b
    rw [decodeFrom_cons, List.mem_append, ih hnext, List.exists_mem_cons_iff]
    refine or_congr_left ⟨fun hmem => (hchars c hmem hc).symm, fun hb => ?_⟩
    have hmem := ofNat_mem_step h (hb ▸ hc)
    rwa [hb, Char.ofNat_toNat] at hmem

end ElfInspect.Lossy

namespace ElfInspect

theorem toUTF8_toList (s : String) :
    s.toUTF8.data.toList = s.toList.flatMap String.utf8EncodeChar := by
  rw [String.toUTF8_eq_toByteArray, ← String.utf8Encode_toList, List.utf8Encode,
    List.toList_data_toByteArray]

/-- What is UTF-8 has no replacement characters. -/
theorem lossyText_toUTF8 (s : String) : lossyText s.toUTF8.data.toList = s := by
  rw [lossyText, toUTF8_toList, Lossy.decode_flatMap_utf8EncodeChar, String.ofList_toList]

/-- Only a zero character is written with a zero byte. -/
theorem zero_not_mem_toUTF8 {s : String} (h : '\x00' ∉ s.toList) :
    0 ∉ s.toUTF8.data.toList := by
  rw [toUTF8_toList, List.mem_flatMap]
  rintro ⟨c, hc, hzero⟩
  have hchar : c = '\x00' := by
    rw [← Char.ofNat_toNat c, Lossy.eq_zero_of_zero_mem_utf8EncodeChar hzero]
  exact h (hchar ▸ hc)

/-- A character below 0x80 comes from its own byte and from no other. -/
theorem mem_lossyText_iff {bs : List UInt8} {c : Char} (hc : c.toNat < 0x80) :
    c ∈ (lossyText bs).toList ↔ UInt8.ofNat c.toNat ∈ bs := by
  have hstart : Lossy.StateFit none := trivial
  have hbyte : (UInt8.ofNat c.toNat).toNat = c.toNat :=
    UInt8.toNat_ofNat_of_lt' (Nat.lt_trans hc (by decide))
  rw [lossyText, String.toList_ofList, Lossy.decode, Lossy.mem_decodeFrom_iff hstart hc]
  constructor
  · rintro ⟨b, hb, hnat⟩
    rwa [UInt8.toNat_inj.1 (hbyte.trans hnat.symm)]
  · exact fun h => ⟨_, h, hbyte⟩

/-- Bytes without a zero give a text without a zero character. -/
theorem lossyText_zero_free {bs : List UInt8} (h : 0 ∉ bs) : '\x00' ∉ (lossyText bs).toList :=
  mt (mem_lossyText_iff (by decide)).1 h

end ElfInspect
