import Mathlib
import ElfInspect.Address

/-!
The grammar of addresses. White space at the ends does not count; `0x` leads to digits of the radix
16, and everything else is read in the radix 10. Of what is wrong with a text the first thing from
the left is reported: `parseAddress_grammar`.
-/

namespace ElfInspect

/-! ## The grammar -/

/-- The code points that Unicode calls white space. -/
def whiteSpace : List Nat :=
  [0x9, 0xa, 0xb, 0xc, 0xd, 0x20, 0x85, 0xa0, 0x1680, 0x2000, 0x2001, 0x2002, 0x2003, 0x2004,
    0x2005, 0x2006, 0x2007, 0x2008, 0x2009, 0x200a, 0x2028, 0x2029, 0x202f, 0x205f, 0x3000]

/-- There is nothing but white space. -/
def Blank (cs : List Char) : Prop := ∀ c ∈ cs, c.toNat ∈ whiteSpace

/-- `inner` is `cs` without the white space at the two ends. -/
structure Trims (cs inner : List Char) : Prop where
  split : ∃ front back, cs = front ++ (inner ++ back) ∧ Blank front ∧ Blank back
  first : ∀ c, inner.head? = some c → c.toNat ∉ whiteSpace
  last : ∀ c, inner.getLast? = some c → c.toNat ∉ whiteSpace

/-- What is read of a text without white space at the ends, and in which radix. -/
inductive InRadix : List Char → Nat → List Char → Prop
  | hexadecimal {x : Char} {digits : List Char} (hx : x = 'x' ∨ x = 'X') :
    InRadix ('0' :: x :: digits) 16 digits
  | decimal {digits : List Char} (hx : ∀ rest, digits ≠ '0' :: 'x' :: rest)
    (hX : ∀ rest, digits ≠ '0' :: 'X' :: rest) : InRadix digits 10 digits

/-- The character is the digit `d` of the radix, a letter in either case. -/
def IsDigit (radix : Nat) (c : Char) (d : Nat) : Prop :=
  d < radix ∧ ("0123456789abcdef".toList[d]? = some c ∨ "0123456789ABCDEF".toList[d]? = some c)

/-- The characters are digits, the most significant one first, and make `n`. -/
def Digits (radix : Nat) (cs : List Char) (n : Nat) : Prop :=
  ∃ ds, List.Forall₂ (IsDigit radix) cs ds ∧ Nat.ofDigits radix ds.reverse = n

/-- Perhaps behind a plus sign there is something that is `P`. -/
def Signed (P : List Char → Prop) (cs : List Char) : Prop :=
  ∃ body, (cs = body ∨ cs = '+' :: body) ∧ P body

/-- There is at least one digit and nothing else, with a value of 64 bits. -/
def SmallDigits (radix n : Nat) (body : List Char) : Prop :=
  body ≠ [] ∧ Digits radix body n ∧ n < 2 ^ 64

/-- Digits in front already make a value of more than 64 bits. -/
def LargeFront (radix : Nat) (body : List Char) : Prop :=
  ∃ front rest n, body = front ++ rest ∧ Digits radix front n ∧ 2 ^ 64 ≤ n

/-- The text is a numeral of the radix for `n`. -/
def Numeral (radix n : Nat) : List Char → Prop := Signed (SmallDigits radix n)

/-- A value of more than 64 bits is met before anything that is no digit. -/
def Overflows (radix : Nat) : List Char → Prop := Signed (LargeFront radix)

/-- What reading a numeral gives. -/
inductive NumeralReads (radix : Nat) (cs : List Char) : Except NumeralFault Nat → Prop
  | value {n : Nat} (h : Numeral radix n cs) : NumeralReads radix cs (.ok n)
  | empty (h : cs = []) : NumeralReads radix cs (.error .empty)
  | tooLarge (h : Overflows radix cs) : NumeralReads radix cs (.error .tooLarge)
  | invalidDigit (hsome : cs ≠ []) (hvalue : ∀ n, ¬ Numeral radix n cs)
    (hlarge : ¬ Overflows radix cs) : NumeralReads radix cs (.error .invalidDigit)

/-- What reading an address gives. -/
inductive AddressReads (text : String) : Except AddressFault Nat → Prop
  | value {inner digits : List Char} {radix n : Nat} (htrims : Trims text.toList inner)
    (hradix : InRadix inner radix digits) (h : NumeralReads radix digits (.ok n)) :
    AddressReads text (.ok n)
  | fault {inner digits : List Char} {radix : Nat} {reason : NumeralFault}
    (htrims : Trims text.toList inner) (hradix : InRadix inner radix digits)
    (h : NumeralReads radix digits (.error reason)) :
    AddressReads text (.error ⟨String.ofList inner, reason⟩)

/-! ## White space -/

theorem isBlank_iff {c : Char} : isBlank c = true ↔ c.toNat ∈ whiteSpace := by
  simp only [isBlank, blankRanges, whiteSpace, List.any_cons, List.any_nil, Bool.or_eq_true,
    Bool.and_eq_true, decide_eq_true_eq, Bool.false_eq_true, List.mem_cons, List.not_mem_nil,
    or_false]
  omega

theorem blank_iff {cs : List Char} : Blank cs ↔ ∀ c ∈ cs, isBlank c = true := by
  simp only [Blank, isBlank_iff]

theorem dropWhile_blank {front rest : List Char} (hfront : Blank front)
    (hrest : ∀ c, rest.head? = some c → c.toNat ∉ whiteSpace) :
    (front ++ rest).dropWhile isBlank = rest := by
  rw [List.dropWhile_append_of_pos (blank_iff.1 hfront)]
  cases rest with
  | nil => rfl
  | cons c rest => exact List.dropWhile_cons_of_neg (mt isBlank_iff.1 (hrest c rfl))

theorem head?_dropWhile_blank {cs : List Char} {c : Char}
    (h : (cs.dropWhile isBlank).head? = some c) : c.toNat ∉ whiteSpace := by
  have hstop := List.head?_dropWhile_not isBlank cs
  rw [h] at hstop
  rw [← isBlank_iff]
  simpa using hstop

theorem trimBlank_trims (cs : List Char) : Trims cs (trimBlank cs) := by
  let rest := cs.dropWhile isBlank
  have hfront : cs = cs.takeWhile isBlank ++ rest := List.takeWhile_append_dropWhile.symm
  have hback : rest = trimBlank cs ++ (rest.reverse.takeWhile isBlank).reverse := by
    rw [trimBlank, ← List.reverse_append, List.takeWhile_append_dropWhile, List.reverse_reverse]
  refine ⟨⟨_, _, hback ▸ hfront, ?_, ?_⟩, fun c hc => ?_, fun c hc => ?_⟩
  · exact blank_iff.2 fun c hc => List.mem_takeWhile_imp hc
  · exact blank_iff.2 fun c hc => List.mem_takeWhile_imp (List.mem_reverse.1 hc)
  · have hhead : rest.head? = some c := by
      rw [hback, List.head?_append, hc]
      rfl
    exact head?_dropWhile_blank hhead
  · rw [trimBlank, List.getLast?_reverse] at hc
    exact head?_dropWhile_blank hc

theorem Trims.trimBlank_eq {cs inner : List Char} (h : Trims cs inner) : trimBlank cs = inner := by
  obtain ⟨⟨front, back, rfl, hfront, hback⟩, hfirst, hlast⟩ := h
  have hturned : Blank back.reverse := fun c hc => hback c (List.mem_reverse.1 hc)
  cases inner with
  | nil =>
    have hall : Blank (front ++ back) := List.forall_mem_append.2 ⟨hfront, hback⟩
    have hnone : (front ++ back).dropWhile isBlank = [] := by
      rw [← List.append_nil (front ++ back)]
      exact dropWhile_blank hall nofun
    rw [List.nil_append, trimBlank, hnone]
    rfl
  | cons c inner =>
    have hhead (d : Char) (hd : (c :: inner ++ back).head? = some d) : d.toNat ∉ whiteSpace :=
      hfirst d hd
    rw [trimBlank, dropWhile_blank hfront hhead, List.reverse_append,
      dropWhile_blank hturned fun d hd => hlast d (List.head?_reverse ▸ hd), List.reverse_reverse]

/-! ## Digits -/

theorem digitValue?_eq_some_iff {radix d : Nat} {c : Char} :
    digitValue? radix c = some d ↔ IsDigit radix c d := by
  have hchar : c = Char.ofNat c.toNat := (Char.ofNat_toNat c).symm
  unfold digitValue? IsDigit
  rw [Option.filter_eq_some_iff, and_comm, decide_eq_true_eq]
  refine and_congr_right fun _ => ?_
  constructor
  · intro h
    rw [hchar]
    generalize c.toNat = n at h
    -- One case for each of the three ranges, and in it one for each of its characters.
    split at h
    case isTrue hn =>
      obtain ⟨hlow, hhigh⟩ := hn
      change 48 ≤ n at hlow
      change n ≤ 57 at hhigh
      interval_cases n <;> cases h <;> decide
    split at h
    case isTrue hn =>
      obtain ⟨hlow, hhigh⟩ := hn
      change 97 ≤ n at hlow
      change n ≤ 102 at hhigh
      interval_cases n <;> cases h <;> decide
    split at h
    case isTrue hn =>
      obtain ⟨hlow, hhigh⟩ := hn
      change 65 ≤ n at hlow
      change n ≤ 70 at hhigh
      interval_cases n <;> cases h <;> decide
    case isFalse => cases h
  · rintro (h | h)
    · have hd : d < 16 := (List.getElem?_eq_some_iff.1 h).1
      interval_cases d <;> cases h <;> rfl
    · have hd : d < 16 := (List.getElem?_eq_some_iff.1 h).1
      interval_cases d <;> cases h <;> rfl

section Digits

variable {radix n m d : Nat} {c : Char} {cs front rest : List Char}

theorem not_isDigit (h : digitValue? radix c = none) : ¬ IsDigit radix c d := by
  rw [← digitValue?_eq_some_iff, h]
  exact nofun

theorem IsDigit.not_blank (h : IsDigit radix c d) : c.toNat ∉ whiteSpace := by
  obtain ⟨-, h | h⟩ := h
  · have hd : d < 16 := (List.getElem?_eq_some_iff.1 h).1
    interval_cases d <;> cases h <;> decide
  · have hd : d < 16 := (List.getElem?_eq_some_iff.1 h).1
    interval_cases d <;> cases h <;> decide

/-- Behind digits that make `n`, the characters are digits that make `m` of it. -/
def DigitsFrom (radix n : Nat) (cs : List Char) (m : Nat) : Prop :=
  ∃ ds, List.Forall₂ (IsDigit radix) cs ds ∧ ds.foldl (fun n d => radix * n + d) n = m

theorem digits_iff : Digits radix cs m ↔ DigitsFrom radix 0 cs m := by
  refine exists_congr fun ds => and_congr_right fun _ => ?_
  rw [Nat.ofDigits_eq_foldr, List.foldr_reverse]
  simp only [Nat.cast_id, add_comm]

theorem digitsFrom_nil : DigitsFrom radix n [] m ↔ n = m := by
  simp [DigitsFrom]

theorem digitsFrom_cons :
    DigitsFrom radix n (c :: cs) m ↔
      ∃ d, IsDigit radix c d ∧ DigitsFrom radix (radix * n + d) cs m := by
  constructor
  · rintro ⟨ds, hds, rfl⟩
    cases hds with
    | @cons _ d _ ds hd hds => exact ⟨d, hd, ds, hds, rfl⟩
  · rintro ⟨d, hd, ds, hds, rfl⟩
    exact ⟨d :: ds, .cons hd hds, rfl⟩

/-- More digits do not make less. -/
theorem DigitsFrom.le (h : DigitsFrom radix n cs m) : n ≤ m := by
  induction cs generalizing n with
  | nil => exact Nat.le_of_eq (digitsFrom_nil.1 h)
  | cons c cs ih =>
    obtain ⟨d, hd, hcs⟩ := digitsFrom_cons.1 h
    have hradix : 1 ≤ radix := by have := hd.1; omega
    calc n ≤ radix * n := Nat.le_mul_of_pos_left n hradix
      _ ≤ radix * n + d := Nat.le_add_right _ d
      _ ≤ m := ih hcs

/-- Behind digits that make `n`, some more digits come to the limit. -/
def OverflowsFrom (radix n : Nat) (cs : List Char) : Prop :=
  ∃ front rest m, cs = front ++ rest ∧ DigitsFrom radix n front m ∧ 2 ^ 64 ≤ m

theorem overflowsFrom_of_le (h : 2 ^ 64 ≤ n) : OverflowsFrom radix n cs :=
  ⟨[], cs, n, rfl, digitsFrom_nil.2 rfl, h⟩

theorem not_overflowsFrom_nil (hn : n < 2 ^ 64) : ¬ OverflowsFrom radix n [] := by
  rintro ⟨front, rest, m, hcs, hfront, hm⟩
  obtain ⟨rfl, -⟩ := List.append_eq_nil_iff.1 hcs.symm
  rw [digitsFrom_nil] at hfront
  omega

theorem overflowsFrom_cons (hn : n < 2 ^ 64) :
    OverflowsFrom radix n (c :: cs) ↔
      ∃ d, IsDigit radix c d ∧ OverflowsFrom radix (radix * n + d) cs := by
  constructor
  · rintro ⟨_ | ⟨c', front⟩, rest, m, hcs, hfront, hm⟩
    · rw [digitsFrom_nil] at hfront
      omega
    · obtain ⟨rfl, hrest⟩ := List.cons_eq_cons.1 hcs
      obtain ⟨d, hd, hfront⟩ := digitsFrom_cons.1 hfront
      exact ⟨d, hd, front, rest, m, hrest, hfront, hm⟩
  · rintro ⟨d, hd, front, rest, m, rfl, hfront, hm⟩
    exact ⟨c :: front, rest, m, rfl, digitsFrom_cons.2 ⟨d, hd, hfront⟩, hm⟩

/-- What reading on behind digits gives: a value below the limit, an overflow, or else an invalid
digit. -/
theorem digitsBehind_iff (hn : n < 2 ^ 64) :
    (∀ m, digitsBehind radix n cs = .ok m ↔ DigitsFrom radix n cs m ∧ m < 2 ^ 64) ∧
      (digitsBehind radix n cs = .error .tooLarge ↔ OverflowsFrom radix n cs) ∧
      digitsBehind radix n cs ≠ .error .empty := by
  induction cs generalizing n with
  | nil =>
    rw [digitsBehind]
    refine ⟨fun m => ?_, iff_of_false nofun (not_overflowsFrom_nil hn), nofun⟩
    rw [digitsFrom_nil, Except.ok.injEq]
    exact ⟨fun h => ⟨h, h ▸ hn⟩, And.left⟩
  | cons c cs ih =>
    rw [digitsBehind, overflowsFrom_cons hn]
    simp only [digitsFrom_cons]
    cases hvalue : digitValue? radix c with
    | none =>
      have hnone (d : Nat) : ¬ IsDigit radix c d := not_isDigit hvalue
      simp [hnone]
    | some d =>
      have hdigit (d' : Nat) : IsDigit radix c d' ↔ d = d' := by
        rw [← digitValue?_eq_some_iff, hvalue, Option.some.injEq]
      simp only [hdigit, exists_eq_left']
      by_cases hbelow : radix * n + d < addressLimit
      · rw [if_pos hbelow]
        exact ih hbelow
      · rw [if_neg hbelow]
        have hlarge : 2 ^ 64 ≤ radix * n + d := Nat.le_of_not_lt hbelow
        refine ⟨fun m => iff_of_false nofun fun ⟨hcs, hm⟩ => ?_,
          iff_of_true rfl (overflowsFrom_of_le hlarge), nofun⟩
        exact absurd hm (Nat.not_lt.2 (hlarge.trans hcs.le))

end Digits

/-! ## Numerals -/

section Numerals

variable {radix n : Nat} {c : Char} {cs : List Char} {P : List Char → Prop}

theorem signed_nil_iff : Signed P [] ↔ P [] := by
  constructor
  · rintro ⟨body, rfl | hbody, h⟩
    · exact h
    · cases hbody
  · exact fun h => ⟨[], .inl rfl, h⟩

theorem signed_plus_iff (hplus : ∀ body, ¬ P ('+' :: body)) : Signed P ('+' :: cs) ↔ P cs := by
  constructor
  · rintro ⟨body, rfl | hbody, h⟩
    · exact absurd h (hplus cs)
    · rwa [(List.cons_eq_cons.1 hbody).2]
  · exact fun h => ⟨cs, .inr rfl, h⟩

theorem signed_iff (hc : c ≠ '+') : Signed P (c :: cs) ↔ P (c :: cs) := by
  constructor
  · rintro ⟨body, rfl | hbody, h⟩
    · exact h
    · exact absurd (List.cons_eq_cons.1 hbody).1 hc
  · exact fun h => ⟨c :: cs, .inl rfl, h⟩

theorem numeral_cons (hc : c ≠ '+') :
    numeral radix (c :: cs) = digitsBehind radix 0 (c :: cs) := by
  unfold numeral
  split
  · contradiction
  case h_2 heq => exact absurd (List.cons_eq_cons.1 heq).1 hc
  case h_3 heq => exact absurd (List.cons_eq_cons.1 heq).1 hc
  · rfl

/-- What is read behind the sign. -/
theorem body_reads (radix : Nat) (cs : List Char) :
    (∀ n, digitsBehind radix 0 cs = .ok n ↔ Digits radix cs n ∧ n < 2 ^ 64) ∧
      (digitsBehind radix 0 cs = .error .tooLarge ↔ LargeFront radix cs) ∧
      digitsBehind radix 0 cs ≠ .error .empty := by
  unfold LargeFront
  simp only [digits_iff]
  exact digitsBehind_iff (by norm_num)

theorem not_smallDigits_plus : ¬ SmallDigits radix n ('+' :: cs) := by
  rintro ⟨-, hdigits, -⟩
  obtain ⟨d, hd, -⟩ := digitsFrom_cons.1 (digits_iff.1 hdigits)
  exact not_isDigit rfl hd

theorem not_largeFront_plus : ¬ LargeFront radix ('+' :: cs) := by
  rw [← (body_reads radix ('+' :: cs)).2.1, digitsBehind]
  exact nofun

theorem not_largeFront_nil : ¬ LargeFront radix [] := by
  rw [← (body_reads radix []).2.1, digitsBehind]
  exact nofun

theorem numeral_iff (radix : Nat) (cs : List Char) :
    (∀ n, numeral radix cs = .ok n ↔ Numeral radix n cs) ∧
      (numeral radix cs = .error .tooLarge ↔ Overflows radix cs) ∧
      (numeral radix cs = .error .empty ↔ cs = []) := by
  unfold Numeral Overflows
  have hnone (n : Nat) : ¬ SmallDigits radix n [] := fun h => h.1 rfl
  have hsome (c : Char) (body : List Char) (n : Nat) : SmallDigits radix n (c :: body) ↔
      Digits radix (c :: body) n ∧ n < 2 ^ 64 := and_iff_right (List.cons_ne_nil c body)
  cases cs with
  | nil =>
    simp only [signed_nil_iff, hnone, not_largeFront_nil]
    simp [numeral]
  | cons c cs =>
    by_cases hc : c = '+'
    · subst hc
      simp only [signed_plus_iff fun _ => not_smallDigits_plus,
        signed_plus_iff fun _ => not_largeFront_plus]
      cases cs with
      | nil =>
        simp only [hnone, not_largeFront_nil]
        simp [numeral]
      | cons c cs =>
        obtain ⟨hvalue, hlarge, hempty⟩ := body_reads radix (c :: cs)
        simp only [hsome]
        exact ⟨hvalue, hlarge, iff_of_false hempty nofun⟩
    · obtain ⟨hvalue, hlarge, hempty⟩ := body_reads radix (c :: cs)
      simp only [signed_iff hc, hsome, numeral_cons hc]
      exact ⟨hvalue, hlarge, iff_of_false hempty nofun⟩

theorem exists_numeralReads (radix : Nat) (cs : List Char) :
    NumeralReads radix cs (numeral radix cs) := by
  obtain ⟨hvalue, hlarge, hempty⟩ := numeral_iff radix cs
  cases h : numeral radix cs with
  | ok n => exact .value ((hvalue n).1 h)
  | error reason =>
    cases reason with
    | empty => exact .empty (hempty.1 h)
    | tooLarge => exact .tooLarge (hlarge.1 h)
    | invalidDigit =>
      rw [h] at hvalue hlarge hempty
      exact .invalidDigit (fun hcs => nomatch hempty.2 hcs) (fun n hn => nomatch (hvalue n).2 hn)
        fun hover => nomatch hlarge.2 hover

/-- A numeral is read as its grammar says. -/
theorem numeral_eq_iff {r : Except NumeralFault Nat} :
    numeral radix cs = r ↔ NumeralReads radix cs r := by
  have hreads := exists_numeralReads radix cs
  obtain ⟨hvalue, hlarge, hempty⟩ := numeral_iff radix cs
  constructor
  · rintro rfl
    exact hreads
  · intro h
    cases h with
    | value h => exact (hvalue _).2 h
    | empty h => exact hempty.2 h
    | tooLarge h => exact hlarge.2 h
    | invalidDigit hsome hno hsmall =>
      generalize numeral radix cs = r at hreads
      cases hreads with
      | value h => exact absurd h (hno _)
      | empty h => exact absurd h hsome
      | tooLarge h => exact absurd h hsmall
      | invalidDigit => rfl

end Numerals

/-! ## Addresses -/

section Addresses

variable {inner digits cs : List Char} {c : Char} {radix n d : Nat}

theorem InRadix.trimmedAddress_eq (h : InRadix inner radix digits) :
    trimmedAddress inner = numeral radix digits := by
  cases h with
  | hexadecimal hx => rcases hx with rfl | rfl <;> rfl
  | decimal hx hX =>
    unfold trimmedAddress
    split
    · exact absurd rfl (hx _)
    · exact absurd rfl (hX _)
    · rfl

theorem exists_inRadix (inner : List Char) : ∃ radix digits, InRadix inner radix digits := by
  by_cases hx : ∃ rest, inner = '0' :: 'x' :: rest
  · obtain ⟨rest, rfl⟩ := hx
    exact ⟨16, rest, .hexadecimal (.inl rfl)⟩
  by_cases hX : ∃ rest, inner = '0' :: 'X' :: rest
  · obtain ⟨rest, rfl⟩ := hX
    exact ⟨16, rest, .hexadecimal (.inr rfl)⟩
  · exact ⟨10, inner, .decimal (fun rest h => hx ⟨rest, h⟩) fun rest h => hX ⟨rest, h⟩⟩

/-- An address is read as its grammar says. -/
theorem parseAddress_eq_iff {text : String} {r : Except AddressFault Nat} :
    parseAddress text = r ↔ AddressReads text r := by
  unfold parseAddress
  constructor
  · rintro rfl
    obtain ⟨radix, digits, hradix⟩ := exists_inRadix (trimBlank text.toList)
    have htrims := trimBlank_trims text.toList
    simp only [hradix.trimmedAddress_eq]
    cases h : numeral radix digits with
    | ok n => exact .value htrims hradix (numeral_eq_iff.1 h)
    | error reason => exact .fault htrims hradix (numeral_eq_iff.1 h)
  · intro h
    cases h with
    | value htrims hradix h =>
      simp only [htrims.trimBlank_eq, hradix.trimmedAddress_eq, numeral_eq_iff.2 h]
      rfl
    | fault htrims hradix h =>
      simp only [htrims.trimBlank_eq, hradix.trimmedAddress_eq, numeral_eq_iff.2 h]
      rfl

example : parseAddress " 0x10000000000000000g" = .error ⟨"0x10000000000000000g", .tooLarge⟩ := by
  decide

/-! ## Written addresses -/

theorem digits_zeros (hradix : 0 < radix) (zeros : Nat) :
    Digits radix (List.replicate zeros '0' ++ cs) n ↔ Digits radix cs n := by
  have hzero (d : Nat) : IsDigit radix '0' d ↔ d = 0 := by
    have hvalue : digitValue? radix '0' = some 0 := digitValue?_eq_some_iff.2 ⟨hradix, .inl rfl⟩
    rw [← digitValue?_eq_some_iff, hvalue, Option.some.injEq, eq_comm]
  induction zeros with
  | zero => rfl
  | succ zeros ih =>
    rw [List.replicate_succ, List.cons_append, digits_iff, digitsFrom_cons]
    simp only [hzero, exists_eq_left, Nat.mul_zero, Nat.add_zero]
    exact digits_iff.symm.trans ih

theorem isDigit_digitChar (hd : d < radix) (hradix : radix ≤ 16) :
    IsDigit radix (Nat.digitChar d) d := by
  have hall : ∀ d < 16, "0123456789abcdef".toList[d]? = some (Nat.digitChar d) := by decide
  exact ⟨hd, .inl (hall d (Nat.lt_of_lt_of_le hd hradix))⟩

theorem Digits.snoc (h : Digits radix cs n) (hc : IsDigit radix c d) :
    Digits radix (cs ++ [c]) (radix * n + d) := by
  rw [digits_iff] at *
  obtain ⟨ds, hds, rfl⟩ := h
  exact ⟨ds ++ [d], List.rel_append hds (.cons hc .nil), by rw [List.foldl_append]; rfl⟩

/-- The written form of a number is made of its digits. -/
theorem digits_toDigits (hradix : 1 < radix) (hradix' : radix ≤ 16) (n : Nat) :
    Digits radix (Nat.toDigits radix n) n := by
  induction n using Nat.strong_induction_on with
  | _ n ih =>
    by_cases hlt : n < radix
    · rw [Nat.toDigits_of_lt_base hlt, digits_iff, digitsFrom_cons]
      exact ⟨n, isDigit_digitChar hlt hradix', digitsFrom_nil.2 (by omega)⟩
    · have hfront := ih (n / radix) (Nat.div_lt_self (by omega) hradix)
      have hlast := isDigit_digitChar (Nat.mod_lt n (by omega)) hradix'
      rw [Nat.toDigits_of_base_le hradix (Nat.le_of_not_lt hlt)]
      have hsnoc := hfront.snoc hlast
      rwa [Nat.div_add_mod] at hsnoc

theorem Digits.solid (h : Digits radix cs n) : ∀ c ∈ cs, c.toNat ∉ whiteSpace := by
  obtain ⟨ds, hds, -⟩ := h
  induction hds with
  | nil => exact nofun
  | cons hd _ ih => exact List.forall_mem_cons.2 ⟨hd.not_blank, ih⟩

/-- Digits of the radix 10 do not look like a prefix of the radix 16. -/
theorem Digits.inRadix (h : Digits 10 cs n) : InRadix cs 10 cs := by
  have hsecond {x : Char} {rest : List Char} (hx : digitValue? 10 x = none) :
      cs ≠ '0' :: x :: rest := by
    rintro rfl
    rw [digits_iff, digitsFrom_cons] at h
    obtain ⟨_, -, h⟩ := h
    obtain ⟨d, hd, -⟩ := digitsFrom_cons.1 h
    exact not_isDigit hx hd
  exact .decimal (fun rest => hsecond rfl) fun rest => hsecond rfl

/-- A text that is a number in digits, with white space around, is that number. -/
theorem parseAddress_digits {front back : String} {word : String} (hfront : Blank front.toList)
    (hback : Blank back.toList) (hsolid : ∀ c ∈ word.toList, c.toNat ∉ whiteSpace)
    (hradix : InRadix word.toList radix digits) (hsome : digits ≠ [])
    (hdigits : Digits radix digits n) (hn : n < 2 ^ 64) :
    parseAddress (front ++ word ++ back) = .ok n := by
  have hsplit : (front ++ word ++ back).toList = front.toList ++ (word.toList ++ back.toList) := by
    rw [String.toList_append, String.toList_append, List.append_assoc]
  have htrims : Trims (front ++ word ++ back).toList word.toList :=
    ⟨⟨front.toList, back.toList, hsplit, hfront, hback⟩,
      fun c hc => hsolid c (List.mem_of_head? hc), fun c hc => hsolid c (List.mem_of_getLast? hc)⟩
  exact parseAddress_eq_iff.2
    (.value htrims hradix (.value ⟨digits, .inl rfl, hsome, hdigits, hn⟩))

/-- The forms in which addresses are written. -/
def addressForms (n : Nat) : List String := [toString n, hex n, hexFixed 16 n]

theorem parseAddress_written {front back : String} (hfront : Blank front.toList)
    (hback : Blank back.toList) (hn : n < 2 ^ 64) :
    ∀ word ∈ addressForms n, parseAddress (front ++ word ++ back) = .ok n := by
  have hten : Digits 10 n.repr.toList n := by
    rw [Nat.toList_repr]
    exact digits_toDigits (by decide) (by decide) n
  have hhex : Digits 16 (hexDigits n) n := digits_toDigits (by decide) (by decide) n
  have hfixed : Digits 16 (zeroFilled 16 (hexDigits n)) n := (digits_zeros (by decide) _).2 hhex
  have hsome : hexDigits n ≠ [] := Nat.toDigits_ne_nil
  have hprefix {digits : List Char} (h : Digits 16 digits n) (hsome : digits ≠ []) :
      parseAddress (front ++ ("0x" ++ String.ofList digits) ++ back) = .ok n := by
    have hlist : ("0x" ++ String.ofList digits).toList = '0' :: 'x' :: digits := by
      rw [String.toList_append, String.toList_ofList, String.toList_ofList]
      rfl
    refine parseAddress_digits hfront hback ?_ (hlist ▸ .hexadecimal (.inl rfl)) hsome h hn
    rw [hlist]
    exact List.forall_mem_cons.2 ⟨by decide, List.forall_mem_cons.2 ⟨by decide, h.solid⟩⟩
  unfold addressForms
  simp only [List.forall_mem_cons, List.not_mem_nil, false_imp_iff, implies_true, and_true]
  refine ⟨?_, hprefix hhex hsome, hprefix hfixed (List.append_ne_nil_of_right_ne_nil _ hsome)⟩
  refine parseAddress_digits hfront hback hten.solid hten.inRadix ?_ hten hn
  rw [Nat.toList_repr]
  exact Nat.toDigits_ne_nil

theorem numeralReads_sign (radix : Nat) :
    NumeralReads radix ['+'] (.error .invalidDigit) ∧
      ∀ digits, NumeralReads radix ('-' :: digits) (.error .invalidDigit) :=
  ⟨numeral_eq_iff.1 rfl, fun _ => numeral_eq_iff.1 rfl⟩

/-- An address is read as the grammar says, and a text that is none is refused for the first thing
wrong with it, in these words. A lone plus sign and a leading minus sign are no digits. Zeros in
front do not change a number. Every address below the limit is read back from each of its written
forms, with any white space around. -/
theorem parseAddress_grammar :
    (∀ text r, parseAddress text = r ↔ AddressReads text r) ∧
      (∀ fault : AddressFault, fault.message =
        "invalid address `" ++ fault.text ++ "`: " ++ fault.reason.message) ∧
      [NumeralFault.empty, .tooLarge, .invalidDigit].map NumeralFault.message =
        ["cannot parse integer from empty string", "number too large to fit in target type",
          "invalid digit found in string"] ∧
      (∀ radix, NumeralReads radix ['+'] (.error .invalidDigit) ∧
        ∀ digits, NumeralReads radix ('-' :: digits) (.error .invalidDigit)) ∧
      (∀ radix cs n zeros, 0 < radix →
        (Digits radix (List.replicate zeros '0' ++ cs) n ↔ Digits radix cs n)) ∧
      ∀ n front back, n < 2 ^ 64 → Blank front.toList → Blank back.toList →
        ∀ word ∈ addressForms n, parseAddress (front ++ word ++ back) = .ok n :=
  ⟨fun _ _ => parseAddress_eq_iff, fun _ => rfl, rfl, numeralReads_sign,
    fun _ _ _ zeros h => digits_zeros h zeros,
    fun _ _ _ hn hfront hback => parseAddress_written hfront hback hn⟩

end Addresses

end ElfInspect
