import Mathlib
import ElfInspect.Image

/-!
What walks find. A walk to the first hit is decided by the first index at which there is a hit or
a fault, its `FirstEvent`: `firstHit_eq_iff`. A walk that puts results together needs all of them:
`of_gather_ok`. With one result for each try they stand in order: `of_gather_each`.
-/

namespace ElfInspect

variable {ε α : Type}

/-! ## The first event -/

/-- What a search finds that tries the members of a list in order: the first try that is a hit or a
fault decides, and without one nothing is found. -/
inductive FirstEvent {β : Type} (tries : β → Except ε (Option α) → Prop) (order : List β) :
    Except ε (Option α) → Prop
  | nothing (h : ∀ j ∈ order, tries j (.ok none)) : FirstEvent tries order (.ok none)
  | event {before after : List β} {j : β} {r : Except ε (Option α)}
    (horder : order = before ++ j :: after) (hbefore : ∀ i ∈ before, tries i (.ok none))
    (hj : tries j r) (hr : r ≠ .ok none) : FirstEvent tries order r

section FirstEvent

variable {β : Type} {tries : β → Except ε (Option α) → Prop} {order : List β} {j : β}
  {r : Except ε (Option α)}

theorem firstEvent_none_iff :
    FirstEvent tries order (.ok none) ↔ ∀ j ∈ order, tries j (.ok none) := by
  refine ⟨fun h => ?_, .nothing⟩
  cases h with
  | nothing h => exact h
  | event _ _ _ hr => exact absurd rfl hr

theorem firstEvent_nil_iff : FirstEvent tries [] r ↔ r = .ok none := by
  constructor
  · rintro (_ | ⟨horder, _, _, _⟩)
    · rfl
    · simp at horder
  · rintro rfl
    exact .nothing (by simp)

/-- The first try decides, or it passes and the others do. -/
theorem firstEvent_cons_iff :
    FirstEvent tries (j :: order) r ↔
      tries j r ∧ r ≠ .ok none ∨ tries j (.ok none) ∧ FirstEvent tries order r := by
  constructor
  · intro h
    cases h with
    | nothing h =>
      exact .inr ⟨h j List.mem_cons_self, .nothing fun i hi => h i (List.mem_cons_of_mem j hi)⟩
    | @event before after i _ horder hbefore hi hr =>
      cases before with
      | nil =>
        obtain ⟨rfl, -⟩ := List.cons_eq_cons.1 horder
        exact .inl ⟨hi, hr⟩
      | cons first before =>
        obtain ⟨rfl, hrest⟩ := List.cons_eq_cons.1 horder
        refine .inr ⟨hbefore _ List.mem_cons_self, .event hrest (fun k hk => ?_) hi hr⟩
        exact hbefore k (List.mem_cons_of_mem _ hk)
  · rintro (⟨hj, hr⟩ | ⟨hj, h⟩)
    · exact .event (List.nil_append _).symm (by simp) hj hr
    · cases h with
      | nothing h => exact .nothing (List.forall_mem_cons.2 ⟨hj, h⟩)
      | @event before after i _ horder hbefore hi hr =>
        have hmore : j :: order = (j :: before) ++ i :: after := congrArg (List.cons j) horder
        exact .event hmore (List.forall_mem_cons.2 ⟨hj, hbefore⟩) hi hr

/-- Trying what indices stand for is trying the indices. -/
theorem firstEvent_map_iff {γ : Type} {place : γ → β} {indices : List γ} :
    FirstEvent tries (indices.map place) r ↔
      FirstEvent (fun k => tries (place k)) indices r := by
  induction indices with
  | nil => rw [List.map_nil, firstEvent_nil_iff, firstEvent_nil_iff]
  | cons k indices ih => rw [List.map_cons, firstEvent_cons_iff, firstEvent_cons_iff, ih]

/-- In a list that is ordered by `R`, what is not tried in vain is the one that decides or behind
it. -/
theorem FirstEvent.decided {R : β → β → Prop} (hR : order.Pairwise R)
    (h : FirstEvent tries order r) (hr : r ≠ .ok none) :
    ∃ j ∈ order, tries j r ∧ ∀ k ∈ order, tries k (.ok none) ∨ k = j ∨ R j k := by
  cases h with
  | nothing => exact absurd rfl hr
  | @event before after j _ horder hbefore hj _ =>
    subst horder
    refine ⟨j, List.mem_append_right _ List.mem_cons_self, hj, fun k hk => ?_⟩
    have hlater : ∀ k ∈ after, R j k := (List.pairwise_cons.1 (List.pairwise_append.1 hR).2.1).1
    rcases List.mem_append.1 hk with hk | hk
    · exact .inl (hbefore k hk)
    · exact .inr ((List.mem_cons.1 hk).imp_right (hlater k))

/-- A search all of whose tries can succeed finds something or nothing. -/
theorem exists_firstEvent_ok (h : ∀ j ∈ order, ∃ found, tries j (.ok found)) :
    ∃ found, FirstEvent tries order (.ok found) := by
  induction order with
  | nil => exact ⟨none, firstEvent_nil_iff.2 rfl⟩
  | cons j order ih =>
    obtain ⟨hj, hrest⟩ := List.forall_mem_cons.1 h
    obtain ⟨_ | a, hj⟩ := hj
    · obtain ⟨found, hfound⟩ := ih hrest
      exact ⟨found, firstEvent_cons_iff.2 (.inr ⟨hj, hfound⟩)⟩
    · exact ⟨some a, firstEvent_cons_iff.2 (.inl ⟨hj, nofun⟩)⟩

end FirstEvent

/-! ## Walks to the first hit -/

/-- What two tries find is decided by the first one, or by the second if the first finds nothing. -/
theorem firstSome_eq_iff {a b r : Except ε (Option α)} :
    firstSome a b = r ↔ a = r ∧ r ≠ .ok none ∨ a = .ok none ∧ b = r := by
  rcases a with e | _ | x
  · constructor
    · rintro rfl
      exact .inl ⟨rfl, nofun⟩
    · rintro (⟨rfl, -⟩ | ⟨⟨⟩, -⟩)
      rfl
  · constructor
    · exact fun h => .inr ⟨rfl, h⟩
    · rintro (⟨rfl, hr⟩ | ⟨-, h⟩)
      · exact absurd rfl hr
      · exact h
  · constructor
    · rintro rfl
      exact .inl ⟨rfl, nofun⟩
    · rintro (⟨rfl, -⟩ | ⟨⟨⟩, -⟩)
      rfl

theorem firstHit_succ (f : Nat → Except ε (Option α)) (start n : Nat) :
    firstHit f start (n + 1) =
      match f start with
      | .ok (some a) => .ok (some a)
      | .ok none => firstHit f (start + 1) n
      | .error e => .error e := by
  rw [firstHit]
  rcases f start with _ | ⟨_ | _⟩ <;> rfl

/-- A walk finds what the first event decides. -/
theorem firstHit_eq_iff {f : Nat → Except ε (Option α)}
    {tries : Nat → Except ε (Option α) → Prop} (h : ∀ k r, f k = r ↔ tries k r) {start n : Nat}
    {r : Except ε (Option α)} :
    firstHit f start n = r ↔ FirstEvent tries (List.range' start n) r := by
  induction n generalizing start with
  | zero =>
    rw [List.range'_zero, firstEvent_nil_iff]
    exact eq_comm
  | succ n ih =>
    have hstep : firstHit f start (n + 1) = firstSome (f start) (firstHit f (start + 1) n) := rfl
    rw [hstep, firstSome_eq_iff, List.range'_succ, firstEvent_cons_iff, ← ih, ← h, ← h]

/-- Nothing is found exactly where every index is tried without a hit. -/
theorem firstHit_eq_none_iff {f : Nat → Except ε (Option α)} {start n : Nat} :
    firstHit f start n = .ok none ↔ ∀ i, start ≤ i → i < start + n → f i = .ok none := by
  rw [firstHit_eq_iff fun _ _ => Iff.rfl, firstEvent_none_iff]
  simp only [List.mem_range'_1, and_imp]

/-- What is not nothing is the outcome at an index before which every one is tried without a
hit. -/
theorem firstHit_eq_iff_decided {f : Nat → Except ε (Option α)} {start n : Nat}
    {r : Except ε (Option α)} (hr : r ≠ .ok none) :
    firstHit f start n = r ↔
      ∃ i, start ≤ i ∧ i < start + n ∧ f i = r ∧ ∀ j, start ≤ j → j < i → f j = .ok none := by
  rw [firstHit_eq_iff fun _ _ => Iff.rfl]
  constructor
  · intro h
    obtain ⟨i, hi, hhit, hothers⟩ := h.decided List.pairwise_lt_range' hr
    rw [List.mem_range'_1] at hi
    refine ⟨i, hi.1, hi.2, hhit, fun j hle hlt => ?_⟩
    exact (hothers j (List.mem_range'_1.2 (by omega))).resolve_right (by omega)
  · rintro ⟨i, hle, hlt, hi, hbefore⟩
    obtain ⟨before, rfl⟩ := Nat.exists_eq_add_of_le hle
    obtain ⟨after, rfl⟩ := Nat.exists_eq_add_of_lt (Nat.lt_of_add_lt_add_left hlt)
    have horder : List.range' start (before + after + 1) = List.range' start before ++
        (start + before) :: List.range' (start + before + 1) after := by
      rw [← List.range'_succ, List.range'_append_1, Nat.add_assoc]
    refine .event horder (fun j hj => ?_) hi hr
    rw [List.mem_range'_1] at hj
    exact hbefore j hj.1 hj.2

/-- What is found is the hit of an index before which every one is tried without a hit. -/
theorem firstHit_eq_some_iff {f : Nat → Except ε (Option α)} {start n : Nat} {a : α} :
    firstHit f start n = .ok (some a) ↔
      ∃ i, start ≤ i ∧ i < start + n ∧ f i = .ok (some a) ∧
        ∀ j, start ≤ j → j < i → f j = .ok none :=
  firstHit_eq_iff_decided nofun

/-- A walk all of whose tries succeed finds something or nothing. -/
theorem firstHit_ok {f : Nat → Except ε (Option α)} {start n : Nat}
    (h : ∀ i, start ≤ i → i < start + n → ∃ hit, f i = .ok hit) :
    ∃ hit, firstHit f start n = .ok hit := by
  simp only [firstHit_eq_iff fun _ _ => Iff.rfl]
  refine exists_firstEvent_ok fun i hi => ?_
  rw [List.mem_range'_1] at hi
  exact h i hi.1 hi.2

/-- What two tries find comes from the first one, or from the second if the first finds nothing. -/
theorem firstSome_eq_some_iff {a b : Except ε (Option α)} {x : α} :
    firstSome a b = .ok (some x) ↔ a = .ok (some x) ∨ a = .ok none ∧ b = .ok (some x) := by
  simp [firstSome_eq_iff]

theorem firstSome_eq_none_iff {a b : Except ε (Option α)} :
    firstSome a b = .ok none ↔ a = .ok none ∧ b = .ok none := by
  simp [firstSome_eq_iff]

theorem searchIn_ok_iff {β : Type} {place : Except ε (Option α)} {f : α → Except ε (Option β)}
    {x : Option β} :
    searchIn place f = .ok x ↔
      place = .ok none ∧ x = none ∨ ∃ a, place = .ok (some a) ∧ f a = .ok x := by
  rcases place with _ | _ | a <;> simp [searchIn, bind, Except.bind, pure, Except.pure, eq_comm]

/-- Two tries in turn find what the first event decides. -/
theorem firstSome_eq_iff_firstEvent {β : Type} {a b : Except ε (Option α)}
    {tries : β → Except ε (Option α) → Prop} {x y : β} (ha : ∀ r, a = r ↔ tries x r)
    (hb : ∀ r, b = r ↔ tries y r) {r : Except ε (Option α)} :
    firstSome a b = r ↔ FirstEvent tries [x, y] r := by
  have hlast : b = r ↔ FirstEvent tries [y] r := by
    rw [firstEvent_cons_iff, firstEvent_nil_iff, ← hb, ← hb]
    by_cases hr : r = .ok none
    · simp [hr]
    · simp [hr]
  rw [firstEvent_cons_iff, firstSome_eq_iff, ← hlast, ← ha, ← ha]

/-! ## Searches by type -/

/-- One try of a search by type. -/
theorem Image.typeTest_eq_ok_iff {img : Image} {type i : Nat} {hit : Option Nat} :
    (do return if (← img.sectionAt i).type = type then some i else none :
        Except Fault (Option Nat)) = .ok hit ↔
      ∃ t, img.sectionAt i = .ok t ∧ (if t.type = type then some i else none) = hit := by
  cases img.sectionAt i with
  | error fault => exact ⟨nofun, nofun⟩
  | ok t =>
    constructor
    · exact fun h => ⟨t, rfl, Except.ok.inj h⟩
    · rintro ⟨_, ⟨⟩, h⟩
      exact congrArg Except.ok h

/-- A search by type finds the first section behind section 0 that has it. -/
theorem Image.indexOfType_eq_some_iff {img : Image} {type k : Nat} :
    img.indexOfType type = .ok (some k) ↔
      1 ≤ k ∧ k < img.header.sectionCount ∧ (∃ t, img.sectionAt k = .ok t ∧ t.type = type) ∧
        ∀ i, 1 ≤ i → i < k → ∃ t, img.sectionAt i = .ok t ∧ t.type ≠ type := by
  rw [indexOfType, firstHit_eq_some_iff]
  simp only [typeTest_eq_ok_iff, ite_eq_right_iff, Option.ite_none_right_eq_some,
    Option.some.injEq, reduceCtorEq, imp_false]
  constructor
  · rintro ⟨i, hpos, hlt, ⟨t, ht, htype, rfl⟩, hbefore⟩
    exact ⟨hpos, by omega, ⟨t, ht, htype⟩, hbefore⟩
  · rintro ⟨hpos, hlt, ⟨t, ht, htype⟩, hbefore⟩
    exact ⟨k, hpos, by omega, ⟨t, ht, htype, rfl⟩, hbefore⟩

/-! ## Walks that put results together -/

theorem gatherFrom_succ (f : Nat → Except ε (List α)) (found : List α) (start n : Nat) :
    gatherFrom f found start (n + 1) = do
      let front ← gatherFrom f found start n
      return front ++ (← f (start + n)) := by
  induction n generalizing found start with
  | zero =>
    rw [gatherFrom, gatherFrom, Nat.add_zero]
    cases f start with
    | error e => rfl
    | ok more =>
      change Except.ok (more.reverse ++ found).reverse = Except.ok (found.reverse ++ more)
      rw [List.reverse_append, List.reverse_reverse]
  | succ n ih =>
    have hlast : start + (n + 1) = start + 1 + n := by omega
    rw [gatherFrom, gatherFrom, hlast]
    cases f start with
    | error e => rfl
    | ok more => exact ih (more.reverse ++ found) (start + 1)

/-- The last try of a walk comes after the others. -/
theorem gather_succ_ok_iff {f : Nat → Except ε (List α)} {xs : List α} {n : Nat} :
    gather f 0 (n + 1) = .ok xs ↔
      ∃ front part, gather f 0 n = .ok front ∧ f n = .ok part ∧ front ++ part = xs := by
  rw [gather, gatherFrom_succ, Nat.zero_add, ← gather]
  rcases gather f 0 n with e | front <;> rcases f n with e' | part <;>
    simp [bind, Except.bind, pure, Except.pure]

theorem gather_succ_error_iff {f : Nat → Except ε (List α)} {e : ε} {n : Nat} :
    gather f 0 (n + 1) = .error e ↔
      gather f 0 n = .error e ∨ (∃ front, gather f 0 n = .ok front) ∧ f n = .error e := by
  rw [gather, gatherFrom_succ, Nat.zero_add, ← gather]
  rcases gather f 0 n with e | front <;> rcases f n with e' | part <;>
    simp [bind, Except.bind, pure, Except.pure]

/-- A walk that succeeds collects what its tries give, all of which succeed. -/
theorem of_gather_ok {f : Nat → Except ε (List α)} {xs : List α} {n : Nat}
    (h : gather f 0 n = .ok xs) :
    (∀ i < n, ∃ part, f i = .ok part) ∧
      ∀ a, a ∈ xs ↔ ∃ i part, i < n ∧ f i = .ok part ∧ a ∈ part := by
  induction n generalizing xs with
  | zero =>
    obtain rfl : [] = xs := Except.ok.inj h
    simp
  | succ n ih =>
    obtain ⟨front, part, hfront, hpart, rfl⟩ := gather_succ_ok_iff.1 h
    obtain ⟨hparts, hmem⟩ := ih hfront
    refine ⟨Nat.forall_lt_succ_right.2 ⟨hparts, part, hpart⟩, fun a => ?_⟩
    rw [List.mem_append, hmem]
    constructor
    · rintro (⟨i, part, hi, hpart, ha⟩ | ha)
      · exact ⟨i, part, by omega, hpart, ha⟩
      · exact ⟨n, part, Nat.lt_succ_self n, hpart, ha⟩
    · rintro ⟨i, other, hi, hother, ha⟩
      rcases Nat.eq_or_lt_of_le (Nat.le_of_lt_succ hi) with rfl | hlt
      · obtain rfl := Except.ok.inj (hpart.symm.trans hother)
        exact .inr ha
      · exact .inl ⟨i, other, hlt, hother, ha⟩

/-- A walk fails as one of its tries does. -/
theorem of_gather_error {f : Nat → Except ε (List α)} {e : ε} {n : Nat}
    (h : gather f 0 n = .error e) : ∃ i < n, f i = .error e := by
  induction n with
  | zero => cases h
  | succ n ih =>
    rcases gather_succ_error_iff.1 h with hfront | ⟨-, hlast⟩
    · obtain ⟨i, hi, hf⟩ := ih hfront
      exact ⟨i, by omega, hf⟩
    · exact ⟨n, Nat.lt_succ_self n, hlast⟩

/-- Tries that keep some of the results make a walk that keeps them. -/
theorem gather_filter {f g : Nat → Except ε (List α)} {keep : α → Bool} {xs : List α} {n : Nat}
    (hkeep : ∀ i part, f i = .ok part → g i = .ok (part.filter keep))
    (h : gather f 0 n = .ok xs) : gather g 0 n = .ok (xs.filter keep) := by
  induction n generalizing xs with
  | zero =>
    obtain rfl : [] = xs := Except.ok.inj h
    rfl
  | succ n ih =>
    obtain ⟨front, part, hfront, hpart, rfl⟩ := gather_succ_ok_iff.1 h
    rw [List.filter_append]
    exact gather_succ_ok_iff.2 ⟨_, _, ih hfront, hkeep n part hpart, rfl⟩

/-! ## Walks with one result for each try -/

section Each

variable {f : Nat → Except ε α} {xs : List α} {e : ε} {n : Nat}

theorem each_ok_iff {i : Nat} {part : List α} :
    (do return [← f i]) = Except.ok part ↔ ∃ x, f i = .ok x ∧ [x] = part := by
  cases f i <;> simp [bind, Except.bind, pure, Except.pure]

theorem each_error_iff {i : Nat} : (do return [← f i]) = Except.error e ↔ f i = .error e := by
  cases f i <;> simp [bind, Except.bind, pure, Except.pure]

/-- A walk whose tries give one result each has them in order. -/
theorem of_gather_each (h : gather (fun i => do return [← f i]) 0 n = .ok xs) :
    xs.length = n ∧ ∀ i x, xs[i]? = some x → f i = .ok x := by
  induction n generalizing xs with
  | zero =>
    obtain rfl : [] = xs := Except.ok.inj h
    exact ⟨rfl, nofun⟩
  | succ n ih =>
    obtain ⟨front, part, hfront, hpart, rfl⟩ := gather_succ_ok_iff.1 h
    obtain ⟨last, hlast, rfl⟩ := each_ok_iff.1 hpart
    obtain ⟨hlength, hresults⟩ := ih hfront
    refine ⟨by rw [List.length_append, hlength]; rfl, fun i x hx => ?_⟩
    -- Before the last place is one of the first tries, and behind it nothing.
    rcases Nat.lt_trichotomy i n with hlt | rfl | hlt
    · rw [List.getElem?_append_left (hlength ▸ hlt)] at hx
      exact hresults i x hx
    · rw [← hlength, List.getElem?_concat_length, Option.some.injEq] at hx
      exact hx ▸ hlast
    · have hbehind : (front ++ [last])[i]? = none :=
        List.getElem?_eq_none (by rw [List.length_append, hlength]; exact hlt)
      cases hbehind.symm.trans hx

theorem exists_gather_each :
    (∃ xs, gather (fun i => do return [← f i]) 0 n = .ok xs) ↔ ∀ i < n, ∃ x, f i = .ok x := by
  induction n with
  | zero => exact iff_of_true ⟨[], rfl⟩ nofun
  | succ n ih =>
    rw [Nat.forall_lt_succ_right, ← ih]
    constructor
    · rintro ⟨xs, h⟩
      obtain ⟨front, part, hfront, hpart, -⟩ := gather_succ_ok_iff.1 h
      obtain ⟨last, hlast, -⟩ := each_ok_iff.1 hpart
      exact ⟨⟨front, hfront⟩, last, hlast⟩
    · rintro ⟨⟨front, hfront⟩, last, hlast⟩
      exact ⟨_, gather_succ_ok_iff.2 ⟨front, [last], hfront, each_ok_iff.2 ⟨last, hlast, rfl⟩, rfl⟩⟩

/-- Such a walk fails as the first of its tries that does. -/
theorem gather_each_error_iff :
    gather (fun i => do return [← f i]) 0 n = .error e ↔
      ∃ i < n, f i = .error e ∧ ∀ j < i, ∃ x, f j = .ok x := by
  induction n with
  | zero => exact iff_of_false nofun fun ⟨i, hi, _⟩ => Nat.not_lt_zero i hi
  | succ n ih =>
    rw [gather_succ_error_iff, ih, exists_gather_each, each_error_iff]
    constructor
    · rintro (⟨i, hi, hfault, hbefore⟩ | ⟨hbefore, hfault⟩)
      · exact ⟨i, Nat.lt_succ_of_lt hi, hfault, hbefore⟩
      · exact ⟨n, Nat.lt_succ_self n, hfault, hbefore⟩
    · rintro ⟨i, hi, hfault, hbefore⟩
      rcases Nat.eq_or_lt_of_le (Nat.le_of_lt_succ hi) with rfl | hlt
      · exact .inr ⟨hbefore, hfault⟩
      · exact .inl ⟨i, hlt, hfault, hbefore⟩

end Each

/-! ## Results in order -/

/-- The results are those of the members, one each, in the order of the members. -/
def InOrder {β : Type} (before : β → β → Prop) (member : β → Prop) (gives : β → α → Prop)
    (xs : List α) : Prop :=
  ∃ members : List β, members.Pairwise before ∧ (∀ b, b ∈ members ↔ member b) ∧
    List.Forall₂ gives members xs

namespace InOrder

variable {β : Type} {before : β → β → Prop} {member other : β → Prop} {gives : β → α → Prop}
  {xs ys : List α}

theorem nil (h : ∀ b, ¬ member b) : InOrder before member gives [] :=
  ⟨[], .nil, fun b => iff_of_false List.not_mem_nil (h b), .nil⟩

theorem single {b : β} {a : α} (h : ∀ b', member b' ↔ b' = b) (hgives : gives b a) :
    InOrder before member gives [a] :=
  ⟨[b], List.pairwise_singleton _ _, fun b' => by rw [List.mem_singleton, h],
    .cons hgives .nil⟩

theorem congr (h : InOrder before member gives xs) (hmember : ∀ b, member b ↔ other b) :
    InOrder before other gives xs := by
  obtain ⟨members, hordered, hmem, hgives⟩ := h
  exact ⟨members, hordered, fun b => (hmem b).trans (hmember b), hgives⟩

theorem append (h : InOrder before member gives xs) (h' : InOrder before other gives ys)
    (hbefore : ∀ a b, member a → other b → before a b) :
    InOrder before (fun b => member b ∨ other b) gives (xs ++ ys) := by
  obtain ⟨members, hordered, hmem, hgives⟩ := h
  obtain ⟨others, hordered', hmem', hgives'⟩ := h'
  refine ⟨members ++ others, List.pairwise_append.2 ⟨hordered, hordered', fun a ha b hb => ?_⟩,
    fun b => ?_, List.rel_append hgives hgives'⟩
  · exact hbefore a b ((hmem a).1 ha) ((hmem' b).1 hb)
  · rw [List.mem_append, hmem, hmem']

/-- With one result for each member the results tell the members. -/
theorem mem_iff (h : InOrder before member gives xs)
    (hunique : ∀ b a a', gives b a → gives b a' → a = a') {a : α} :
    a ∈ xs ↔ ∃ b, member b ∧ gives b a := by
  obtain ⟨members, -, hmem, hgives⟩ := h
  simp only [← hmem]
  clear hmem
  induction hgives with
  | nil => simp
  | @cons b a' members xs hgives _ ih =>
    rw [List.mem_cons, ih]
    constructor
    · rintro (rfl | ⟨b', hb', hgives'⟩)
      · exact ⟨b, List.mem_cons_self, hgives⟩
      · exact ⟨b', List.mem_cons_of_mem b hb', hgives'⟩
    · rintro ⟨b', hb', hgives'⟩
      rcases List.mem_cons.1 hb' with rfl | hb'
      · exact .inl (hunique _ _ _ hgives' hgives)
      · exact .inr ⟨b', hb', hgives'⟩

/-- Tries whose results are in order, each behind those before it, make such a walk. -/
theorem gather {f : Nat → Except ε (List α)} {members : Nat → β → Prop} {n : Nat}
    (hparts : ∀ i < n, ∀ part, f i = .ok part → InOrder before (members i) gives part)
    (hbefore : ∀ i j a b, i < j → members i a → members j b → before a b)
    (h : gather f 0 n = .ok xs) : InOrder before (fun b => ∃ i < n, members i b) gives xs := by
  induction n generalizing xs with
  | zero =>
    obtain rfl : [] = xs := Except.ok.inj h
    exact nil fun b ⟨i, hi, _⟩ => Nat.not_lt_zero i hi
  | succ n ih =>
    obtain ⟨front, part, hfront, hpart, rfl⟩ := gather_succ_ok_iff.1 h
    have hcross (a b : β) (ha : ∃ i < n, members i a) (hb : members n b) : before a b := by
      obtain ⟨i, hi, ha⟩ := ha
      exact hbefore i n a b hi ha hb
    have hfirst := ih (fun i hi => hparts i (Nat.lt_succ_of_lt hi)) hfront
    exact (hfirst.append (hparts n (Nat.lt_succ_self n) part hpart) hcross).congr fun b =>
      Nat.exists_lt_succ_right.symm

end InOrder

end ElfInspect
