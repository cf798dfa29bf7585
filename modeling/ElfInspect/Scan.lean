import ElfInspect.Fault

/-!
Walks over the numbers from a start on, in any monad: to the first hit, or collecting results up to
the first fault.
-/

namespace ElfInspect

universe u v

/-- The first result among `f start`, `f (start + 1)`, … of `n` tries. What is behind it is not
tried. -/
@[specialize]
def firstHit {m : Type u → Type v} [Monad m] {β : Type u} (f : Nat → m (Option β)) :
    Nat → Nat → m (Option β)
  | _, 0 => pure none
  | start, n + 1 => do
    match ← f start with
    | some b => pure (some b)
    | none => firstHit f (start + 1) n

/-- The first result of two tries. -/
def firstSome {m : Type u → Type v} [Monad m] {β : Type u} (a b : m (Option β)) :
    m (Option β) := do
  match ← a with
  | some x => pure (some x)
  | none => b

/-- A search in something that may be absent. -/
def searchIn {m : Type u → Type v} [Monad m] {α β : Type u} (place : m (Option α))
    (search : α → m (Option β)) : m (Option β) := do
  match ← place with
  | some a => search a
  | none => pure none

/-- What a walk collected, and the fault that ended it early, if one did. -/
structure Listing (α : Type u) where
  items : List α
  fault : Option Fault

/-- The results of `f start`, `f (start + 1)`, … of `n` tries, behind those in `found`. -/
@[specialize]
def listingFrom {m : Type → Type v} [Monad m] {α : Type} (f : Nat → m (Except Fault α)) :
    List α → Nat → Nat → m (Listing α)
  | found, _, 0 => pure ⟨found.reverse, none⟩
  | found, start, n + 1 => do
    match ← f start with
    | .ok a => listingFrom f (a :: found) (start + 1) n
    | .error fault => pure ⟨found.reverse, some fault⟩

/-- The results of `n` tries from `start` on, up to the first fault. -/
def listing {m : Type → Type v} [Monad m] {α : Type} (f : Nat → m (Except Fault α))
    (start n : Nat) : m (Listing α) := listingFrom f [] start n

/-- The results of `n` tries from `start` on put together, behind those in `found`. -/
@[specialize]
def gatherFrom {m : Type → Type v} [Monad m] {α : Type} (f : Nat → m (List α)) :
    List α → Nat → Nat → m (List α)
  | found, _, 0 => pure found.reverse
  | found, start, n + 1 => do
    let more ← f start
    gatherFrom f (more.reverse ++ found) (start + 1) n

/-- The results of `n` tries from `start` on put together. -/
def gather {m : Type → Type v} [Monad m] {α : Type} (f : Nat → m (List α)) (start n : Nat) :
    m (List α) := gatherFrom f [] start n

/-- The `k`-th index when `n` indices are visited from both ends in turn: 0, n - 1, 1, n - 2, …
Each comes up once, the middle one of an odd number last. -/
def twoEnded (n k : Nat) : Nat := if k % 2 = 0 then k / 2 else n - 1 - k / 2

theorem twoEnded_lt {n k : Nat} (h : k < n) : twoEnded n k < n := by
  unfold twoEnded
  split <;> omega

theorem twoEnded_surj {n j : Nat} (h : j < n) : ∃ k < n, twoEnded n k = j := by
  by_cases hlow : 2 * j < n
  · refine ⟨2 * j, hlow, ?_⟩
    unfold twoEnded
    split <;> omega
  · refine ⟨2 * (n - 1 - j) + 1, by omega, ?_⟩
    unfold twoEnded
    split <;> omega

end ElfInspect
