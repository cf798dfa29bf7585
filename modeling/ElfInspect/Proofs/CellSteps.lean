import Mathlib
import ElfInspect.OnceCell

/-!
A cell is written at most once, also if producers use the very cell that they are to fill. A watched
run takes the steps of a program and notes of each, at any depth, what the cell held meanwhile;
without the notes it is the run itself, `watchAll_erases`. A stretch of a run keeps what the cell
holds and stores at most one value, `Stretch`, by induction on the steps: `written_once`.
-/

namespace ElfInspect

/-- How the producer of a step ends, if the step has one. -/
def CellStep.outcome? : CellStep → Option (Except String Int)
  | .init n => some (.ok n)
  | .tryInit _ outcome => some outcome
  | _ => none

/-- The steps that the producer takes on the cell. -/
def CellStep.inner : CellStep → List CellStep
  | .tryInit inner _ => inner
  | _ => []

/-- The value that a use of a cell returns, or the fault. -/
def CellReply.result? : CellReply → Option (Except String Int)
  | .value held => held.map .ok
  | .made n _ => some (.ok n)
  | .tried outcome _ _ => some outcome
  | _ => none

namespace Cell

/-! ## Watched runs -/

/-- A step that was taken, and what the cell held meanwhile. -/
structure Taken where
  step : CellStep
  before : Option Int
  /-- What the cell held when the producer came to its end, if it was called. -/
  left : Option (Option Int)
  /-- The steps that were taken on behalf of the producer, at any depth. -/
  inner : List Taken
  /-- What the step itself stored, without the steps of its producer. -/
  stored : List Int
  reply : CellReply
  after : Option Int

/-- A cell that is watched. -/
structure Watch where
  held : Option Int
  /-- What it held when a step began or ended, or a producer came to its end; earliest first. -/
  seen : List (Option Int)
  /-- The steps taken, in the order of their ends. -/
  taken : List Taken

def Watch.fresh : Watch := ⟨none, [], []⟩

def Watch.look (w : Watch) : Watch := { w with seen := w.seen ++ [w.held] }

/-- What is noted of one access. -/
structure Note where
  replies : Option (List CellReply) := none
  left : Option (Option Int) := none
  inner : List Taken := []
  stored : List Int := []

/-- An access under way, watched. -/
abbrev WatchM := ExceptT String (StateT Note (StateM Watch))

/-- An access to the cell, as `access` makes it. -/
def watchAccess (produce : StateM Watch (Except String Int × List CellReply)) :
    StateM Watch (Except String Int × Note) :=
  let now : WatchM Watch := liftM (get : StateM Watch Watch)
  let held : WatchM (Option Int) := do return (← now).held
  let store (n : Int) : WatchM Unit := do
    liftM (modify fun w => { w with held := some n } : StateM Watch Unit)
    modify fun note => { note with stored := note.stored ++ [n] }
  let fill : WatchM Int := do
    let earlier := (← now).taken.length
    let (outcome, replies) ← produce
    let w ← now
    liftM (set w.look : StateM Watch Unit)
    set { replies := some replies, left := some w.held, inner := w.taken.drop earlier : Note }
    MonadExcept.ofExcept outcome
  (getOrMake held store fill).run.run {}

/-- Takes a step and notes what the cell held before and after it. -/
def noted (step : CellStep) (act : StateM Watch (CellReply × Note)) : StateM Watch CellReply := do
  let before := (← get).held
  modify Watch.look
  let (reply, note) ← act
  modify fun w => { w.look with
    taken := w.taken ++ [⟨step, before, note.left, note.inner, note.stored, reply, w.held⟩] }
  return reply

mutual

/-- Takes a step on the cell, watched. -/
def watch : CellStep → StateM Watch CellReply
  | .read => noted .read do return (.value (← get).held, {})
  | .isResolved => noted .isResolved do return (.resolved (← get).held.isSome, {})
  | .describe => noted .describe do return (.text (describe (← get).held), {})
  | .init n => noted (.init n) do
    let (answer, note) ← watchAccess (pure (.ok n, []))
    return (.made (answer.toOption.getD n) note.replies.isSome, note)
  | .tryInit inner outcome => noted (.tryInit inner outcome) do
    let (answer, note) ← watchAccess (do return (outcome, ← watchAll inner))
    return (.tried answer note.replies.isSome (note.replies.getD []), note)

/-- Takes the steps in order, watched. -/
def watchAll : List CellStep → StateM Watch (List CellReply)
  | [] => return []
  | s :: rest => do
    let reply ← watch s
    return reply :: (← watchAll rest)

end

/-! ## What an access does -/

section Access

variable {ε σ ρ α β : Type}

theorem run_bind (m : ExceptT ε (StateT σ (StateM ρ)) α)
    (f : α → ExceptT ε (StateT σ (StateM ρ)) β) (note : σ) (w : ρ) :
    ((m >>= f).run.run note).run w =
      match (m.run.run note).run w with
      | ((.ok a, note'), next) => ((f a).run.run note').run next
      | ((.error e, note'), next) => ((.error e, note'), next) := by
  rw [ExceptT.run_bind, StateT.run_bind, StateT.run_bind]
  generalize (m.run.run note).run w = outcome
  rcases outcome with ⟨⟨_ | _, note'⟩, next⟩ <;> rfl

/-- The access rule, whatever else is noted on the way: a value that is held before or after the
producer is the answer, and only an empty cell is filled. -/
theorem run_getOrMake (cell : ρ → Option α) {held : ExceptT ε (StateT σ (StateM ρ)) (Option α)}
    (hheld : ∀ note w, (held.run.run note).run w = ((.ok (cell w), note), w))
    (store : α → ExceptT ε (StateT σ (StateM ρ)) Unit)
    (produce : ExceptT ε (StateT σ (StateM ρ)) α) (note : σ) (w : ρ) :
    ((getOrMake held store produce).run.run note).run w =
      match cell w with
      | some v => ((.ok v, note), w)
      | none =>
        match (produce.run.run note).run w with
        | ((.error e, note'), next) => ((.error e, note'), next)
        | ((.ok made, note'), next) =>
          match cell next with
          | some v => ((.ok v, note'), next)
          | none => ((store made >>= fun _ => pure made).run.run note').run next := by
  unfold getOrMake
  rw [run_bind, hheld]
  cases cell w with
  | some v => rfl
  | none =>
    dsimp only
    rw [run_bind]
    generalize (produce.run.run note).run w = outcome
    obtain ⟨⟨_ | made, note'⟩, next⟩ := outcome
    · rfl
    · dsimp only
      rw [run_bind, hheld]
      dsimp only
      cases cell next <;> rfl

end Access

theorem run_lift {ε σ ρ α : Type} (m : StateM ρ α) (note : σ) (w : ρ) :
    ((liftM m : ExceptT ε (StateT σ (StateM ρ)) α).run.run note).run w =
      ((.ok (m.run w).1, note), (m.run w).2) := rfl

theorem run_access (produce : StateM (Option Int) (Except String Int × List CellReply))
    (held : Option Int) :
    (access produce).run held =
      match held with
      | some v => ((.ok v, none), some v)
      | none =>
        match produce.run none with
        | ((.error e, replies), left) => ((.error e, some replies), left)
        | ((.ok _, replies), some v) => ((.ok v, some replies), some v)
        | ((.ok n, replies), none) => ((.ok n, some replies), some n) := by
  unfold access
  refine (run_getOrMake id (fun _ _ => rfl) _ _ none held).trans ?_
  cases held with
  | some v => rfl
  | none =>
    dsimp only [id]
    rw [run_bind, run_lift]
    generalize produce.run none = outcome
    obtain ⟨⟨_ | n, replies⟩, _ | v⟩ := outcome <;> rfl

theorem run_watchAccess (produce : StateM Watch (Except String Int × List CellReply))
    (w : Watch) :
    (watchAccess produce).run w =
      match w.held with
      | some v => ((.ok v, {}), w)
      | none =>
        let (made, next) := produce.run w
        let note : Note := ⟨some made.2, some next.held, next.taken.drop w.taken.length, []⟩
        match made.1, next.held with
        | .error e, _ => ((.error e, note), next.look)
        | .ok _, some v => ((.ok v, note), next.look)
        | .ok n, none =>
          ((.ok n, { note with stored := [n] }), { next.look with held := some n }) := by
  unfold watchAccess
  refine (run_getOrMake Watch.held (fun _ _ => rfl) _ _ ({} : Note) w).trans ?_
  cases w.held with
  | some v => rfl
  | none =>
    have hget : (get : StateM Watch Watch).run w = (w, w) := rfl
    dsimp only
    rw [run_bind, run_lift, hget]
    dsimp only
    rw [run_bind, run_lift]
    generalize produce.run w = outcome
    obtain ⟨⟨_ | n, replies⟩, ⟨_ | v, seen, taken⟩⟩ := outcome <;> rfl

theorem run_noted (step : CellStep) (act : StateM Watch (CellReply × Note)) (w : Watch) :
    (noted step act).run w =
      let ((reply, note), next) := act.run w.look
      (reply, { next.look with
        taken := next.taken ++
          [⟨step, w.held, note.left, note.inner, note.stored, reply, next.held⟩] }) := rfl

/-! ## Without the notes -/

/-- The watched program is the other one, but for the notes. -/
def Erases {α : Type} (m : StateM Watch α) (plain : StateM (Option Int) α) : Prop :=
  ∀ w, ((m.run w).1, (m.run w).2.held) = plain.run w.held

theorem erases_pure {α : Type} (a : α) : Erases (pure a) (pure a) := fun _ => rfl

theorem erases_bind {α β : Type} {m : StateM Watch α} {plain : StateM (Option Int) α}
    {f : α → StateM Watch β} {f' : α → StateM (Option Int) β} (hm : Erases m plain)
    (hf : ∀ a, Erases (f a) (f' a)) : Erases (m >>= f) (plain >>= f') := by
  intro w
  have hfirst := hm w
  rw [StateT.run_bind, StateT.run_bind, ← hfirst]
  exact hf _ _

theorem watchAccess_erases {produce : StateM Watch (Except String Int × List CellReply)}
    {plain : StateM (Option Int) (Except String Int × List CellReply)} (h : Erases produce plain) :
    Erases (do return (fun r => (r.1, r.2.replies)) (← watchAccess produce)) (access plain) := by
  intro w
  have hproduce := h w
  change ((((watchAccess produce).run w).1.1, ((watchAccess produce).run w).1.2.replies),
    ((watchAccess produce).run w).2.held) = _
  rw [run_watchAccess, run_access]
  cases hheld : w.held with
  | some v => simp [hheld]
  | none =>
    rw [hheld] at hproduce
    rw [← hproduce]
    generalize produce.run w = outcome
    obtain ⟨⟨_ | n, replies⟩, ⟨_ | v, seen, taken⟩⟩ := outcome <;> rfl

/-- A step that makes an access: its reply is worded from the answer and the producer's replies. -/
theorem noted_erases {produce : StateM Watch (Except String Int × List CellReply)}
    {plain : StateM (Option Int) (Except String Int × List CellReply)} (h : Erases produce plain)
    (step : CellStep) (reply : Except String Int → Option (List CellReply) → CellReply) :
    Erases
      (noted step do
        let (answer, note) ← watchAccess produce
        return (reply answer note.replies, note))
      (do
        let (answer, replies) ← access plain
        return reply answer replies) := by
  intro w
  have haccess := watchAccess_erases h w.look
  change (reply ((watchAccess produce).run w.look).1.1
    ((watchAccess produce).run w.look).1.2.replies,
    ((watchAccess produce).run w.look).2.held) = _
  change _ = (access plain).run w.held at haccess
  change _ = (reply ((access plain).run w.held).1.1 ((access plain).run w.held).1.2,
    ((access plain).run w.held).2)
  rw [← haccess]
  rfl

mutual

theorem watch_erases (s : CellStep) : Erases (watch s) (perform s) :=
  match s with
  | .read => fun _ => rfl
  | .isResolved => fun _ => rfl
  | .describe => fun _ => rfl
  | .init n => by
    rw [watch, perform]
    exact noted_erases (fun _ => rfl) _ fun answer replies =>
      .made (answer.toOption.getD n) replies.isSome
  | .tryInit inner outcome => by
    rw [watch, perform]
    have hproduce : Erases (do return (outcome, ← watchAll inner))
        (do return (outcome, ← performAll inner)) :=
      erases_bind (watchAll_erases inner) fun _ => erases_pure _
    exact noted_erases hproduce _ fun answer replies =>
      .tried answer replies.isSome (replies.getD [])

theorem watchAll_erases (program : List CellStep) :
    Erases (watchAll program) (performAll program) :=
  match program with
  | [] => erases_pure []
  | s :: rest => by
    rw [watchAll, performAll]
    exact erases_bind (watch_erases s) fun _ =>
      erases_bind (watchAll_erases rest) fun _ => erases_pure _

end

/-! ## Stretches of a run -/

/-- What is held at one time is held at another one, too. -/
def Keeps (earlier later : Option Int) : Prop := ∀ v, earlier = some v → later = some v

/-- What the cell holds after values have been stored, if any. -/
inductive Stores : Option Int → List Int → Option Int → Prop
  | nothing (held : Option Int) : Stores held [] held
  | once (n : Int) : Stores none [n] (some n)

/-- The steps of a program were taken one after the other, each of them once. Before a step ends its
producer takes the steps of its own, and nothing else is taken. -/
inductive TakenInTurn : List CellStep → List Taken → Prop
  | nil : TakenInTurn [] []
  | cons (t : Taken) {rest : List CellStep} {later : List Taken} (h : TakenInTurn rest later) :
    TakenInTurn (t.step :: rest) (t.inner ++ t :: later)

theorem TakenInTurn.append {program more : List CellStep} {new new' : List Taken}
    (h : TakenInTurn program new) (h' : TakenInTurn more new') :
    TakenInTurn (program ++ more) (new ++ new') := by
  induction h with
  | nil => exact h'
  | cons t _ ih =>
    rw [List.append_assoc]
    exact .cons t ih

/-- What holds of each step that is taken. -/
structure Taken.Lawful (t : Taken) : Prop where
  kept : Keeps t.before t.after
  called : t.left.isSome ↔ t.step.outcome?.isSome ∧ t.before = none
  /-- The steps of a producer that is called are taken once, one after the other. -/
  ran : t.left.isSome → TakenInTurn t.step.inner t.inner
  idle : t.left = none → t.inner = [] ∧ t.stored = []
  returned : ∀ v, t.reply.result? = some (.ok v) → t.after = some v
  /-- The value of the producer is stored if its steps have left the cell empty, or else lost. -/
  made : ∀ n left, t.step.outcome? = some (.ok n) → t.left = some left →
    (left = none → t.stored = [n] ∧ t.after = some n) ∧
      (left ≠ none → t.stored = [] ∧ t.after = left)
  fails : ∀ e, t.reply.result? = some (.error e) ↔
    t.step.outcome? = some (.error e) ∧ t.left.isSome
  failed : ∀ e, t.reply.result? = some (.error e) → t.left = some t.after ∧ t.stored = [] ∧
    ((∀ i ∈ t.inner, i.stored = []) → t.after = none)

/-- What is seen between two times: a cell that keeps what it holds. -/
def Sees (w next : Watch) : Prop :=
  ∃ glances, next.seen = w.seen ++ glances ∧ (w.held :: (glances ++ [next.held])).Pairwise Keeps

/-- What is noted while the steps of a program are taken. -/
structure Stretch (program : List CellStep) (w next : Watch) (new : List Taken) : Prop where
  taken : next.taken = w.taken ++ new
  complete : TakenInTurn program new
  lawful : ∀ t ∈ new, t.Lawful
  stores : Stores w.held (new.flatMap Taken.stored) next.held
  sees : Sees w next

theorem Keeps.refl (held : Option Int) : Keeps held held := fun _ h => h

theorem Keeps.trans {a b c : Option Int} (h : Keeps a b) (h' : Keeps b c) : Keeps a c :=
  fun v hv => h' v (h v hv)

namespace Sees

variable {w mid next : Watch}

theorem of_keeps (h : Keeps w.held next.held) (hseen : next.seen = w.seen) : Sees w next :=
  ⟨[], by rw [hseen, List.append_nil], by simpa using h⟩

theorem trans (h : Sees w mid) (h' : Sees mid next) : Sees w next := by
  obtain ⟨glances, hseen, hkeeps⟩ := h
  obtain ⟨glances', hseen', hkeeps'⟩ := h'
  refine ⟨glances ++ glances', by rw [hseen', hseen, List.append_assoc], ?_⟩
  rw [← List.cons_append, List.pairwise_append] at hkeeps
  obtain ⟨hearlier, -, hmid⟩ := hkeeps
  obtain ⟨hmid', hlater⟩ := List.pairwise_cons.1 hkeeps'
  rw [List.append_assoc, ← List.cons_append]
  refine List.pairwise_append.2 ⟨hearlier, hlater, fun x hx y hy => ?_⟩
  exact (hmid x hx mid.held (List.mem_singleton.2 rfl)).trans (hmid' y hy)

theorem look (w : Watch) : Sees w w.look :=
  ⟨[w.held], rfl, by simp [Watch.look, Keeps.refl]⟩

end Sees

namespace Stores

variable {a b c : Option Int} {xs ys : List Int}

theorem append (h : Stores a xs b) (h' : Stores b ys c) : Stores a (xs ++ ys) c := by
  cases h with
  | nothing => exact h'
  | once n =>
    cases h' with
    | nothing => exact .once n

theorem length_le_one (h : Stores a xs b) : xs.length ≤ 1 := by
  cases h with
  | nothing => exact Nat.zero_le 1
  | once n => exact Nat.le_refl 1

theorem eq_of_nil (h : Stores a [] b) : b = a := by
  cases h
  rfl

theorem held_iff {v : Int} (h : Stores none xs b) : b = some v ↔ xs = [v] := by
  cases h with
  | nothing => simp
  | once n => simp

end Stores

namespace Stretch

variable {program more : List CellStep} {w mid next : Watch} {new new' : List Taken}

theorem append (h : Stretch program w mid new) (h' : Stretch more mid next new') :
    Stretch (program ++ more) w next (new ++ new') where
  taken := by rw [h'.taken, h.taken, List.append_assoc]
  complete := h.complete.append h'.complete
  lawful t ht := (List.mem_append.1 ht).elim (h.lawful t) (h'.lawful t)
  stores := by
    rw [List.flatMap_append]
    exact h.stores.append h'.stores
  sees := h.sees.trans h'.sees

theorem refl (w : Watch) : Stretch [] w w [] where
  taken := (List.append_nil _).symm
  complete := .nil
  lawful _ ht := absurd ht List.not_mem_nil
  stores := .nothing w.held
  sees := .of_keeps (.refl _) rfl

/-- Steps that store nothing leave the cell as it is. -/
theorem held_eq (h : Stretch program w next new) (hidle : ∀ t ∈ new, t.stored = []) :
    next.held = w.held := by
  have hstores := h.stores
  rw [List.flatMap_eq_nil_iff.2 hidle] at hstores
  exact hstores.eq_of_nil

end Stretch

/-! ## Steps -/

/-- What an access does whose producer takes the steps of `inner` and then ends in `outcome`. -/
inductive Accesses (inner : List CellStep) (outcome : Except String Int) (w : Watch) :
    (Except String Int × Note) × Watch → Prop
  | held {v : Int} (h : w.held = some v) : Accesses inner outcome w ((.ok v, {}), w)
  | failed {e : String} {replies : List CellReply} {next : Watch} {new : List Taken}
    (h : w.held = none) (hend : outcome = .error e) (hsteps : Stretch inner w next new) :
    Accesses inner outcome w ((.error e, ⟨some replies, some next.held, new, []⟩), next.look)
  | lost {n v : Int} {replies : List CellReply} {next : Watch} {new : List Taken}
    (h : w.held = none) (hend : outcome = .ok n) (hsteps : Stretch inner w next new)
    (hfilled : next.held = some v) :
    Accesses inner outcome w ((.ok v, ⟨some replies, some (some v), new, []⟩), next.look)
  | filled {n : Int} {replies : List CellReply} {next : Watch} {new : List Taken}
    (h : w.held = none) (hend : outcome = .ok n) (hsteps : Stretch inner w next new)
    (hempty : next.held = none) :
    Accesses inner outcome w
      ((.ok n, ⟨some replies, some none, new, [n]⟩), { next.look with held := some n })

theorem accesses_watchAccess {produce : StateM Watch (Except String Int × List CellReply)}
    {inner : List CellStep} {outcome : Except String Int} {replies : List CellReply}
    {w next : Watch} {new : List Taken} (hrun : produce.run w = ((outcome, replies), next))
    (hsteps : Stretch inner w next new) :
    Accesses inner outcome w ((watchAccess produce).run w) := by
  rw [run_watchAccess]
  cases hheld : w.held with
  | some v => exact .held hheld
  | none =>
    have hnew : next.taken.drop w.taken.length = new := by rw [hsteps.taken, List.drop_left]
    rw [hrun]
    dsimp only
    rw [hnew]
    cases outcome with
    | error e => exact .failed hheld rfl hsteps
    | ok n =>
      cases hleft : next.held with
      | some v => exact .lost hheld rfl hsteps hleft
      | none => exact .filled hheld rfl hsteps hleft

namespace Accesses

variable {inner : List CellStep} {outcome : Except String Int} {w : Watch}
  {r : (Except String Int × Note) × Watch}

theorem taken (h : Accesses inner outcome w r) : r.2.taken = w.taken ++ r.1.2.inner := by
  cases h with
  | held _ => exact (List.append_nil _).symm
  | failed _ _ hsteps => exact hsteps.taken
  | lost _ _ hsteps _ => exact hsteps.taken
  | filled _ _ hsteps _ => exact hsteps.taken

theorem inner_lawful (h : Accesses inner outcome w r) : ∀ t ∈ r.1.2.inner, t.Lawful := by
  cases h with
  | held _ => exact fun t ht => absurd ht List.not_mem_nil
  | failed _ _ hsteps => exact hsteps.lawful
  | lost _ _ hsteps _ => exact hsteps.lawful
  | filled _ _ hsteps _ => exact hsteps.lawful

/-- The answer is what the cell holds, or how the producer has ended. -/
theorem answer (h : Accesses inner outcome w r) : (∃ v, r.1.1 = .ok v) ∨ r.1.1 = outcome := by
  cases h with
  | held _ => exact .inl ⟨_, rfl⟩
  | failed _ hend _ => exact .inr hend.symm
  | lost _ _ _ _ => exact .inl ⟨_, rfl⟩
  | filled _ _ _ _ => exact .inl ⟨_, rfl⟩

theorem stores (h : Accesses inner outcome w r) :
    Stores w.held (r.1.2.inner.flatMap Taken.stored ++ r.1.2.stored) r.2.held := by
  cases h with
  | held _ => exact .nothing w.held
  | failed _ _ hsteps => exact hsteps.stores.append (.nothing _)
  | lost _ _ hsteps _ => exact hsteps.stores.append (.nothing _)
  | @filled n _ next _ _ _ hsteps hempty =>
    have hstores := hsteps.stores
    rw [hempty] at hstores
    exact hstores.append (.once n)

theorem sees (h : Accesses inner outcome w r) : Sees w r.2 := by
  cases h with
  | held _ => exact .of_keeps (.refl _) rfl
  | failed _ _ hsteps => exact hsteps.sees.trans (.look _)
  | lost _ _ hsteps _ => exact hsteps.sees.trans (.look _)
  | @filled n _ next _ _ _ hsteps hempty =>
    refine (hsteps.sees.trans (.look next)).trans (.of_keeps ?_ rfl)
    rw [Watch.look, hempty]
    nofun

/-- The step that makes the access. -/
theorem lawful {s : CellStep} {reply : CellReply} (h : Accesses s.inner outcome w r)
    (hs : s.outcome? = some outcome) (hreply : reply.result? = some r.1.1) :
    Taken.Lawful ⟨s, w.held, r.1.2.left, r.1.2.inner, r.1.2.stored, reply, r.2.held⟩ := by
  cases h with
  | held h => constructor <;> simp [hs, hreply, h, Keeps.refl]
  | failed h hend hsteps =>
    subst hend
    have hempty := hsteps.held_eq
    rw [h] at hempty
    constructor <;> simp [hs, hreply, h, hsteps.complete, Keeps, Watch.look]
    case failed => exact hempty
  | lost h hend hsteps hfilled =>
    subst hend
    constructor <;> simp [hs, hreply, h, hsteps.complete, Keeps, Watch.look, hfilled]
  | filled h hend hsteps hempty =>
    subst hend
    constructor <;> simp [hs, hreply, h, hsteps.complete, Keeps]

end Accesses

/-- A step and what is noted of it. -/
theorem stretch_noted {s : CellStep} {act : StateM Watch (CellReply × Note)} {w next : Watch}
    {reply : CellReply} {note : Note} (hact : act.run w.look = ((reply, note), next))
    (htaken : next.taken = w.taken ++ note.inner) (hinner : ∀ t ∈ note.inner, t.Lawful)
    (hlawful : Taken.Lawful ⟨s, w.held, note.left, note.inner, note.stored, reply, next.held⟩)
    (hstores : Stores w.held (note.inner.flatMap Taken.stored ++ note.stored) next.held)
    (hsees : Sees w.look next) : ∃ new, Stretch [s] w ((noted s act).run w).2 new := by
  -- what is noted of the step stands behind what its producer's steps have left
  let t : Taken := ⟨s, w.held, note.left, note.inner, note.stored, reply, next.held⟩
  have hturn : TakenInTurn [t.step] (t.inner ++ [t]) := .cons t .nil
  rw [run_noted, hact]
  refine ⟨note.inner ++ [t], ?_⟩
  constructor
  · dsimp only
    rw [htaken, List.append_assoc]
  · exact hturn
  · exact List.forall_mem_append.2 ⟨hinner, List.forall_mem_singleton.2 hlawful⟩
  · rw [List.flatMap_append, List.flatMap_singleton]
    exact hstores
  · exact ((Sees.look w).trans (hsees.trans (.look next))).trans (.of_keeps (.refl _) rfl)

/-- A step without a producer, which may say what the cell holds. -/
theorem stretch_look {s : CellStep} (hs : s.outcome? = none) (reply : Option Int → CellReply)
    (hreply : ∀ held, (reply held).result? = none ∨ (reply held).result? = held.map .ok)
    (w : Watch) :
    ∃ new, Stretch [s] w ((noted s do return (reply (← get).held, {})).run w).2 new := by
  have hact : (do return (reply (← get).held, {}) : StateM Watch (CellReply × Note)).run w.look =
      ((reply w.held, {}), w.look) := rfl
  refine stretch_noted hact (List.append_nil _).symm (fun t ht => absurd ht List.not_mem_nil) ?_
    (.nothing w.held) (.of_keeps (.refl _) rfl)
  have hfault (e : String) : (reply w.held).result? ≠ some (.error e) := by
    rcases hreply w.held with h | h <;> simp [h]
  have hvalue (v : Int) (hv : (reply w.held).result? = some (.ok v)) : w.held = some v := by
    rcases hreply w.held with h | h
    · simp [h] at hv
    · simpa [h] using hv
  constructor <;> simp [hs, hfault, Keeps.refl, Watch.look]
  case returned => exact hvalue

/-- A step with a producer. -/
theorem stretch_access {s : CellStep} {outcome : Except String Int}
    (hs : s.outcome? = some outcome) {produce : StateM Watch (Except String Int × List CellReply)}
    (reply : Except String Int → Option (List CellReply) → CellReply)
    (hreply : ∀ answer replies, (∃ v, answer = .ok v) ∨ answer = outcome →
      (reply answer replies).result? = some answer) {w : Watch}
    (h : Accesses s.inner outcome w.look ((watchAccess produce).run w.look)) :
    ∃ new, Stretch [s] w ((noted s do
      let (answer, note) ← watchAccess produce
      return (reply answer note.replies, note)).run w).2 new := by
  generalize hr : (watchAccess produce).run w.look = r at h
  have hact : (do
      let (answer, note) ← watchAccess produce
      return (reply answer note.replies, note) : StateM Watch (CellReply × Note)).run w.look =
        ((reply r.1.1 r.1.2.replies, r.1.2), r.2) := by
    rw [← hr]
    rfl
  exact stretch_noted hact h.taken h.inner_lawful (h.lawful hs (hreply _ _ h.answer)) h.stores
    h.sees

mutual

theorem watch_stretch (s : CellStep) (w : Watch) : ∃ new, Stretch [s] w ((watch s).run w).2 new :=
  match s with
  | .read => by
    rw [watch]
    exact stretch_look rfl .value (fun _ => .inr rfl) w
  | .isResolved => by
    rw [watch]
    exact stretch_look rfl (fun held => .resolved held.isSome) (fun _ => .inl rfl) w
  | .describe => by
    rw [watch]
    exact stretch_look rfl (fun held => .text (describe held)) (fun _ => .inl rfl) w
  | .init n => by
    have hrun : (pure (.ok n, []) : StateM Watch (Except String Int × List CellReply)).run w.look =
        ((.ok n, []), w.look) := rfl
    have haccess : Accesses (CellStep.init n).inner (.ok n) w.look _ :=
      accesses_watchAccess hrun (.refl w.look)
    rw [watch]
    refine stretch_access rfl (fun answer replies => .made (answer.toOption.getD n) replies.isSome)
      (fun answer replies h => ?_) haccess
    rcases h with ⟨v, rfl⟩ | rfl <;> rfl
  | .tryInit inner outcome => by
    obtain ⟨new, hinner⟩ := watchAll_stretch inner w.look
    have hrun : (do return (outcome, ← watchAll inner) :
        StateM Watch (Except String Int × List CellReply)).run w.look =
          ((outcome, ((watchAll inner).run w.look).1), ((watchAll inner).run w.look).2) := rfl
    have haccess : Accesses (CellStep.tryInit inner outcome).inner outcome w.look _ :=
      accesses_watchAccess hrun hinner
    rw [watch]
    exact stretch_access rfl
      (fun answer replies => .tried answer replies.isSome (replies.getD [])) (fun _ _ _ => rfl)
      haccess

theorem watchAll_stretch (program : List CellStep) (w : Watch) :
    ∃ new, Stretch program w ((watchAll program).run w).2 new :=
  match program with
  | [] => ⟨[], .refl w⟩
  | s :: rest => by
    obtain ⟨new, hfirst⟩ := watch_stretch s w
    obtain ⟨new', hrest⟩ := watchAll_stretch rest ((watch s).run w).2
    rw [watchAll]
    exact ⟨new ++ new', hfirst.append hrest⟩

end

/-- Whatever steps a program takes on an empty cell, with producers that use the cell in their turn:
each step keeps to the law, at any depth; what is seen in the cell once is seen there ever after;
and at most one value is stored, which the cell then holds. -/
theorem written_once (program : List CellStep) :
    let run := (watchAll program).run .fresh
    (performAll program).run none = (run.1, run.2.held) ∧
      TakenInTurn program run.2.taken ∧
      (∀ t ∈ run.2.taken, t.Lawful) ∧
      run.2.seen.Pairwise Keeps ∧ (∀ held ∈ run.2.seen, Keeps held run.2.held) ∧
      (run.2.taken.flatMap Taken.stored).length ≤ 1 ∧
      ∀ v, run.2.held = some v ↔ run.2.taken.flatMap Taken.stored = [v] := by
  intro run
  obtain ⟨new, htaken, hcomplete, hlawful, hstores, glances, hseen, hkeeps⟩ :=
    watchAll_stretch program .fresh
  obtain rfl : new = run.2.taken := htaken.symm
  obtain rfl : glances = run.2.seen := hseen.symm
  obtain ⟨hpairs, -, hlast⟩ := List.pairwise_append.1 (List.pairwise_cons.1 hkeeps).2
  refine ⟨(watchAll_erases program .fresh).symm, hcomplete, hlawful, hpairs, fun held hheld => ?_,
    hstores.length_le_one, fun v => hstores.held_iff⟩
  exact hlast held hheld _ (List.mem_singleton.2 rfl)

/-- A producer that has filled the cell on its way loses its own value. -/
example : (performAll [.tryInit [.init 3] (.ok 4), .tryInit [] (.error "boom")]).run none =
    ([.tried (.ok 3) true [.made 3 true], .tried (.ok 3) false []], some 3) := rfl

end Cell

end ElfInspect
