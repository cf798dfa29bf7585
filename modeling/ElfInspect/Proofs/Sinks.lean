import ElfInspect.Libraries.Standard
import ElfInspect.Program.Disk
import ElfInspect.Program.Run
import ElfInspect.Proofs.Records
import ElfInspect.Proofs.Reports

/-!
Where the output of a run goes. A run reads its files, makes its report and only then opens a sink
and writes to it, piece by piece: `Program.Ends` lists how that can end. Up to the opening nothing
but the error stream changes, which is what `Program.Yields` keeps track of.
-/

namespace ElfInspect

/-! ## What a run is to deliver -/

/-- What the files hold, by their paths. -/
abbrev Files := String → Except FileFault ByteArray

/-- The settings of a named file, or those of the default file if that exists. -/
def Files.settings (files : Files) (libraries : Libraries) (named : Option String) :
    Except Failure Settings :=
  let path := named.getD Program.defaultSettingsFile
  match Program.textOf (files path) with
  | .ok text => (libraries.settings text).mapError (.parseSettings path)
  | .error fault =>
    if named.isNone ∧ fault = .notFound then .ok {} else .error (.readFile path fault)

def Files.image (files : Files) (path : String) : Except Failure Image := do
  let bytes ← (files path).mapError (.readFile path)
  (Image.ofBytes bytes).mapError (.notElf path)

namespace Command

/-- The image that a command is about. -/
def file : Command → String
  | .symbols args => args.file
  | .headers args => args.file
  | .lookup args => args.file

/-- The file that the output goes to, if it does not go to the standard output. -/
def sink? : Command → Option String
  | .symbols args => args.output
  | .headers _ => none
  | .lookup _ => none

/-- The whole output of a command, in pieces. -/
def render (libraries : Libraries) (settings : Settings) (img : Image) :
    Command → Except Failure (List String)
  | .symbols args => do
    let demangle := args.demangle || settings.demangle
    let records ← Session.resultAfter img []
      (selectedRecords libraries.demangler img (Program.selection args settings) demangle)
    return renderSymbols libraries.jsonText records (args.format.getD settings.format)
  | .headers args => do
    let r ← Session.resultAfter img [] (headerReport img)
    return r.render libraries.jsonText (args.format.getD settings.format)
  | .lookup args => do
    let demangle := args.demangle || settings.demangle
    let record ← Session.resultAfter img []
      (lookupRecord libraries.demangler img (Program.target args) demangle)
    return renderLookup libraries.jsonText record (args.format.getD settings.format)

end Command

/-- The whole output of a run, in pieces, or why there is none. -/
def Invocation.rendering (call : Invocation) (libraries : Libraries) (files : Files) :
    Except Failure (List String) := do
  let settings ← files.settings libraries call.settingsFile
  let img ← files.image call.command.file
  call.command.render libraries settings img

namespace World

variable {D : Type} (w : World D)

theorem say_nil : w.say [] = w := by
  rw [say, List.append_nil]

theorem say_say (said more : List String) : (w.say said).say more = w.say (said ++ more) := by
  rw [say, say, say, List.append_assoc]

theorem print_print (text more : String) : (w.print text).print more = w.print (text ++ more) := by
  rw [print, print, print, String.append_assoc]

end World

/-- The files after pieces have been written to one that is open. -/
def FileStore.fill {φ D : Type} (store : FileStore φ (StateM D)) (handle : φ) : List String → D → D
  | [], d => ((store.flush handle).run d).2
  | piece :: rest, d => store.fill handle rest ((store.append handle piece).run d).2

namespace Program

variable {φ D α β : Type} {store : FileStore φ (StateM D)} {w next : World D}

/-- Reading a file changes nothing, and neither does opening one that cannot be made; what is open
can be written to. -/
structure Steady (store : FileStore φ (StateM D)) : Prop where
  read : ∀ path d, ((store.read path).run d).2 = d
  create : ∀ path d fault next, (store.create path).run d = (.error fault, next) → next = d
  append : ∀ handle text d, ((store.append handle text).run d).1 = .ok ()
  flush : ∀ handle d, ((store.flush handle).run d).1 = .ok ()

/-- What the files of a store hold. -/
def filesOf (store : FileStore φ (StateM D)) (d : D) : Files := fun path =>
  ((store.read path).run d).1

/-- How a run ends: the exit code, and the world then. -/
inductive Ends (libraries : Libraries) (store : FileStore φ (StateM D)) (call : Invocation)
    (w : World D) : Nat → World D → Prop
  /-- There is nothing to deliver. -/
  | unmade {failure : Failure} (messages : List String)
    (h : call.rendering libraries (filesOf store w.files) = .error failure) :
    Ends libraries store call w 1 (w.say (messages ++ failureLines failure))
  | shown {pieces : List String} (messages : List String)
    (h : call.rendering libraries (filesOf store w.files) = .ok pieces)
    (hsink : call.command.sink? = none) :
    Ends libraries store call w 0 ((w.print (String.join pieces)).say messages)
  /-- The file cannot be made. -/
  | refused {pieces : List String} {path : String} {fault : FileFault} (messages : List String)
    (h : call.rendering libraries (filesOf store w.files) = .ok pieces)
    (hsink : call.command.sink? = some path)
    (hcreate : ((store.create path).run w.files).1 = .error fault) :
    Ends libraries store call w 1 (w.say (messages ++ failureLines (.createFile path fault)))
  | stored {pieces : List String} {path : String} {handle : φ} {made : D} (messages : List String)
    (h : call.rendering libraries (filesOf store w.files) = .ok pieces)
    (hsink : call.command.sink? = some path)
    (hcreate : (store.create path).run w.files = (.ok handle, made)) :
    Ends libraries store call w 0 ({ w with files := store.fill handle pieces made }.say messages)

/-! ## Actions, one construction at a time -/

/-- Whatever has been said before, the action comes out as `r` and leaves the world `next`, but for
messages. -/
def Yields (m : RunM (StateM (World D)) α) (w : World D) (r : Except Failure α)
    (next : World D) : Prop :=
  ∀ said, ∃ more, m.run.run (w.say said) = (r, next.say more)

theorem yields_pure (a : α) : Yields (pure a : RunM (StateM (World D)) α) w (.ok a) w :=
  fun said => ⟨said, rfl⟩

theorem yields_throw (failure : Failure) :
    Yields (throw failure : RunM (StateM (World D)) α) w (.error failure) w :=
  fun said => ⟨said, rfl⟩

theorem yields_ofExcept (r : Except Failure α) :
    Yields (MonadExcept.ofExcept r : RunM (StateM (World D)) α) w r w := by
  cases r with
  | error failure => exact yields_throw failure
  | ok a => exact yields_pure a

/-- What the system does without a look at the error stream. -/
theorem yields_lift {action : StateM (World D) α} {a : α}
    (h : ∀ said, action.run (w.say said) = (a, next.say said)) :
    Yields (liftM action : RunM (StateM (World D)) α) w (.ok a) next := by
  intro said
  refine ⟨said, ?_⟩
  change (action >>= fun a => pure (Except.ok a) : StateM (World D) _).run (w.say said) = _
  rw [StateT.run_bind, h]
  rfl

theorem yields_attempt {action : StateM (World D) (Except FileFault α)} {r : Except FileFault α}
    (failure : FileFault → Failure) (h : ∀ said, action.run (w.say said) = (r, next.say said)) :
    Yields (attempt failure action) w (r.mapError failure) next := by
  intro said
  refine ⟨said, ?_⟩
  change (action >>= fun r => pure (r.mapError failure) : StateM (World D) _).run (w.say said) = _
  rw [StateT.run_bind, h]
  rfl

theorem yields_notice (env : Env (Sink φ) (StateM (World D))) (n : Notice)
    (hsystem : env.system = store.system) : Yields (notice env n) w (.ok ()) w := by
  intro said
  rw [notice]
  split
  · refine ⟨said ++ [n.text], ?_⟩
    rw [← World.say_say, hsystem]
    rfl
  · exact ⟨said, rfl⟩

theorem run_bind (m : RunM (StateM (World D)) α) (f : α → RunM (StateM (World D)) β)
    (w : World D) :
    (m >>= f).run.run w =
      match m.run.run w with
      | (.ok a, next) => (f a).run.run next
      | (.error failure, next) => (.error failure, next) := by
  rw [ExceptT.run_bind, StateT.run_bind]
  generalize m.run.run w = outcome
  rcases outcome with ⟨_ | _, next⟩ <;> rfl

/-- A part that comes out well, and then the rest. -/
theorem yields_then {m : RunM (StateM (World D)) α} {f : α → RunM (StateM (World D)) β} {a : α}
    {middle : World D} {r : Except Failure β} (hm : Yields m w (.ok a) middle)
    (hf : Yields (f a) middle r next) : Yields (m >>= f) w r next := by
  intro said
  obtain ⟨more, hrun⟩ := hm said
  rw [run_bind, hrun]
  exact hf more

theorem yields_fail {m : RunM (StateM (World D)) α} {failure : Failure}
    (f : α → RunM (StateM (World D)) β) (hm : Yields m w (.error failure) next) :
    Yields (m >>= f) w (.error failure) next := by
  intro said
  obtain ⟨more, hrun⟩ := hm said
  rw [run_bind, hrun]
  exact ⟨more, rfl⟩

/-- Two parts that leave the world as it is. -/
theorem yields_bind {m : RunM (StateM (World D)) α} {r : Except Failure α}
    {f : α → RunM (StateM (World D)) β} {g : α → Except Failure β} (hm : Yields m w r w)
    (hf : ∀ a, Yields (f a) w (g a) w) : Yields (m >>= f) w (r >>= g) w := by
  cases r with
  | ok a => exact yields_then hm (hf a)
  | error failure => exact yields_fail f hm

/-! ## Reading and reporting -/

/-- What a run works with here. -/
def envOf (libraries : Libraries) (store : FileStore φ (StateM D)) (v : Verbosity) :
    Env (Sink φ) (StateM (World D)) :=
  ⟨libraries, store.system, v⟩

variable {libraries : Libraries} {v : Verbosity}

theorem onFiles_run (action : StateM D α) (w : World D) :
    (World.onFiles action).run w =
      ((action.run w.files).1, { w with files := (action.run w.files).2 }) := rfl

theorem read_yields (hstore : Steady store) (path : String) :
    Yields (liftM (store.system.read path) : RunM (StateM (World D)) _) w
      (.ok (filesOf store w.files path)) w := by
  refine yields_lift fun said => ?_
  change (World.onFiles (store.read path)).run (w.say said) = _
  rw [onFiles_run, hstore.read]
  rfl

theorem loadSettings_yields (hstore : Steady store) (named : Option String) :
    Yields (loadSettings (envOf libraries store v) named) w
      ((filesOf store w.files).settings libraries named) w := by
  refine yields_then (read_yields hstore _) ?_
  unfold Files.settings
  dsimp only
  generalize named.getD defaultSettingsFile = path
  cases textOf (filesOf store w.files path) with
  | ok text =>
    have hloaded (settings : Settings) :
        Yields (do
          notice (envOf libraries store v) (.settingsLoaded path)
          return settings) w (pure settings) w :=
      yields_then (yields_notice _ _ rfl) (yields_pure settings)
    have hread := yields_bind
      (yields_ofExcept ((libraries.settings text).mapError (.parseSettings path))) hloaded
    rwa [bind_pure] at hread
  | error fault =>
    by_cases habsent : named.isNone ∧ fault = .notFound
    · simp only [habsent, and_self, ↓reduceIte]
      exact yields_then (yields_notice _ _ rfl) (yields_pure _)
    · simp only [habsent, ↓reduceIte]
      exact yields_throw _

theorem openImage_yields (hstore : Steady store) (path : String) :
    Yields (openImage (envOf libraries store v) path) w ((filesOf store w.files).image path) w := by
  refine yields_then (read_yields hstore path) (yields_then (yields_notice _ _ rfl) ?_)
  exact yields_bind (yields_ofExcept _) fun bytes => yields_ofExcept _

/-- The events of a session are noticed, whatever the report comes to. -/
theorem report_yields (img : Image) (r : ReportM α) :
    Yields (report (envOf libraries store v) img r) w (.ok (Session.resultAfter img [] r)) w := by
  have hevents (events : List Event) :
      Yields (events.foldlM (fun _ e => notice (envOf libraries store v) (.event e)) PUnit.unit) w
        (.ok PUnit.unit) w := by
    induction events with
    | nil => exact yields_pure PUnit.unit
    | cons e events ih => exact yields_then (yields_notice _ _ rfl) ih
  have hlog := hevents (r.run.run (Session.start img)).2.log.toList
  rw [Array.foldlM_toList] at hlog
  exact yields_then hlog (yields_pure _)

/-! ## Delivering -/

theorem writeAll_standardOutput (pieces : List String) (w : World D) :
    Yields (writeAll (envOf libraries store v) .standardOutput pieces) w (.ok ())
      (w.print (String.join pieces)) := by
  induction pieces generalizing w with
  | nil =>
    rw [String.join_nil, World.print, String.append_empty]
    exact yields_attempt (r := .ok ()) .write fun said => rfl
  | cons piece rest ih =>
    rw [String.join_cons, ← World.print_print]
    exact yields_then (yields_attempt (r := .ok ()) .write fun said => rfl) (ih _)

theorem writeAll_file (hstore : Steady store) (handle : φ) (pieces : List String) (w : World D) :
    Yields (writeAll (envOf libraries store v) (.file handle) pieces) w (.ok ())
      { w with files := store.fill handle pieces w.files } := by
  induction pieces generalizing w with
  | nil =>
    refine yields_attempt (r := .ok ()) .write fun said => ?_
    change (World.onFiles (store.flush handle)).run (w.say said) = _
    rw [onFiles_run, hstore.flush]
    rfl
  | cons piece rest ih =>
    refine yields_then (yields_attempt (r := .ok ()) .write fun said => ?_)
      (ih { w with files := ((store.append handle piece).run w.files).2 })
    change (World.onFiles (store.append handle piece)).run (w.say said) = _
    rw [onFiles_run, hstore.append]
    rfl

/-- What comes of a run that delivers what it has made, and the world then. -/
def deliver (store : FileStore φ (StateM D)) (sink? : Option String) (w : World D) :
    Except Failure (List String) → Except Failure Unit × World D
  | .error failure => (.error failure, w)
  | .ok pieces =>
    match sink? with
    | none => (.ok (), w.print (String.join pieces))
    | some path =>
      match (store.create path).run w.files with
      | (.ok handle, made) => (.ok (), { w with files := store.fill handle pieces made })
      | (.error fault, _) => (.error (.createFile path fault), w)

/-- The run delivers `r`. -/
def Delivers (store : FileStore φ (StateM D)) (sink? : Option String)
    (m : RunM (StateM (World D)) Unit) (w : World D) (r : Except Failure (List String)) : Prop :=
  Yields m w (deliver store sink? w r).1 (deliver store sink? w r).2

theorem delivers_bind {sink? : Option String} {m : RunM (StateM (World D)) α}
    {r : Except Failure α} {f : α → RunM (StateM (World D)) Unit}
    {g : α → Except Failure (List String)} (hm : Yields m w r w)
    (hf : ∀ a, Delivers store sink? (f a) w (g a)) :
    Delivers store sink? (m >>= f) w (r >>= g) := by
  cases r with
  | ok a => exact yields_then hm (hf a)
  | error failure => exact yields_fail f hm

/-- Opening a sink and writing to it delivers what is written. -/
theorem openSink_delivers (hstore : Steady store) (sink? : Option String) (pieces : List String) :
    Delivers store sink? (do
      let sink ← openSink (envOf libraries store v) sink?
      writeAll (envOf libraries store v) sink pieces) w (.ok pieces) := by
  cases sink? with
  | none =>
    exact yields_then (yields_lift fun said => rfl) (writeAll_standardOutput pieces w)
  | some path =>
    have hopened : Yields (openSink (envOf libraries store v) (some path)) w
        ((((store.create path).run w.files).1.map Sink.file).mapError (.createFile path))
        { w with files := ((store.create path).run w.files).2 } :=
      yields_attempt _ fun said => rfl
    unfold Delivers deliver
    dsimp only
    rcases hcreate : (store.create path).run w.files with ⟨fault | handle, made⟩
    -- a creation that fails has changed nothing
    · rw [hcreate] at hopened
      obtain rfl := hstore.create path w.files fault made hcreate
      exact yields_fail _ hopened
    · rw [hcreate] at hopened
      exact yields_then hopened (writeAll_file hstore handle pieces _)

/-- What is said when all is delivered. -/
theorem Delivers.then_notice {sink? : Option String} {m : RunM (StateM (World D)) Unit}
    {r : Except Failure (List String)} {f : Unit → RunM (StateM (World D)) Unit}
    (hm : Delivers store sink? m w r) (hf : ∀ w, Yields (f ()) w (.ok ()) w) :
    Delivers store sink? (m >>= f) w r := by
  unfold Delivers at hm ⊢
  generalize deliver store sink? w r = delivered at hm ⊢
  rcases delivered with ⟨failure | _, next⟩
  · exact yields_fail f hm
  · exact yields_then hm (hf next)

theorem runSymbols_delivers (hstore : Steady store) (args : SymbolsArgs) (settings : Settings) :
    Delivers store args.output (runSymbols (envOf libraries store v) args settings) w (do
      let img ← (filesOf store w.files).image args.file
      (Command.symbols args).render libraries settings img) := by
  refine delivers_bind (openImage_yields hstore args.file) fun img => ?_
  refine yields_then (report_yields img _) (yields_then (yields_notice _ _ rfl) ?_)
  refine delivers_bind (yields_ofExcept _) fun records => ?_
  simp only [← bind_assoc]
  refine (openSink_delivers hstore args.output _).then_notice fun w => ?_
  cases args.output with
  | none => exact yields_pure ()
  | some path => exact yields_notice _ _ rfl

theorem runHeaders_delivers (hstore : Steady store) (args : HeadersArgs) (settings : Settings) :
    Delivers store none (runHeaders (envOf libraries store v) args settings) w (do
      let img ← (filesOf store w.files).image args.file
      (Command.headers args).render libraries settings img) := by
  refine delivers_bind (openImage_yields hstore args.file) fun img => ?_
  refine yields_then (report_yields img _) ?_
  exact delivers_bind (yields_ofExcept _) fun r => openSink_delivers hstore none _

theorem runLookup_delivers (hstore : Steady store) (args : LookupArgs) (settings : Settings) :
    Delivers store none (runLookup (envOf libraries store v) args settings) w (do
      let img ← (filesOf store w.files).image args.file
      (Command.lookup args).render libraries settings img) := by
  refine delivers_bind (openImage_yields hstore args.file) fun img => ?_
  refine yields_then (report_yields img _) ?_
  exact delivers_bind (yields_ofExcept _) fun record => openSink_delivers hstore none _

theorem execute_delivers (hstore : Steady store) (libraries : Libraries) (v : Verbosity)
    (call : Invocation) (w : World D) :
    Delivers store call.command.sink? (do
      let settings ← loadSettings (envOf libraries store v) call.settingsFile
      execute (envOf libraries store v) settings call.command) w
      (call.rendering libraries (filesOf store w.files)) := by
  refine delivers_bind (loadSettings_yields hstore _) fun settings => ?_
  cases call.command with
  | symbols args => exact runSymbols_delivers hstore args settings
  | headers args => exact runHeaders_delivers hstore args settings
  | lookup args => exact runLookup_delivers hstore args settings

/-! ## Whole runs -/

theorem complain_run (messages : List String) (w : World D) :
    (messages.forM store.system.complain).run w = ((), w.say messages) := by
  induction messages generalizing w with
  | nil =>
    rw [World.say_nil]
    rfl
  | cons message messages ih =>
    change (messages.forM store.system.complain).run (w.say [message]) = _
    rw [ih, World.say_say]
    rfl

/-- The exit code, and what is said of a failure. -/
def exitCodeOf : Except Failure Unit → Nat
  | .ok _ => 0
  | .error _ => 1

def linesOf : Except Failure Unit → List String
  | .ok _ => []
  | .error failure => failureLines failure

theorem run_delivers (hstore : Steady store) {args : List String} {call : Invocation}
    (hargs : libraries.arguments args = .ok call) (w : World D) :
    ∃ messages, (run libraries store.system args).run w =
      let delivered := deliver store call.command.sink? w
        (call.rendering libraries (filesOf store w.files))
      (exitCodeOf delivered.1, delivered.2.say (messages ++ linesOf delivered.1)) := by
  obtain ⟨messages, hrun⟩ := execute_delivers hstore libraries call.verbosity call w []
  refine ⟨messages, ?_⟩
  rw [World.say_nil] at hrun
  unfold envOf at hrun
  unfold run
  rw [hargs]
  dsimp only
  rw [StateT.run_bind, hrun]
  generalize deliver store call.command.sink? w _ = delivered
  rcases delivered with ⟨failure | _, next⟩
  · change (do
      (failureLines failure).forM store.system.complain
      return 1 : StateM (World D) Nat).run (next.say messages) = _
    rw [StateT.run_bind, complain_run, World.say_say]
    rfl
  · change (0, next.say messages) = (0, next.say (messages ++ []))
    rw [List.append_nil]

theorem run_ends (hstore : Steady store) {args : List String} {call : Invocation}
    (hargs : libraries.arguments args = .ok call) (w : World D) :
    let (exitCode, next) := (run libraries store.system args).run w
    Ends libraries store call w exitCode next := by
  obtain ⟨messages, hrun⟩ := run_delivers hstore hargs w
  rw [hrun]
  cases hrendering : call.rendering libraries (filesOf store w.files) with
  | error failure => exact .unmade messages hrendering
  | ok pieces =>
    cases hsink : call.command.sink? with
    | none =>
      simp only [deliver, exitCodeOf, linesOf, List.append_nil]
      exact .shown messages hrendering hsink
    | some path =>
      simp only [deliver]
      rcases hcreate : (store.create path).run w.files with ⟨fault | handle, made⟩
      · exact .refused messages hrendering hsink (congrArg Prod.fst hcreate)
      · simp only [exitCodeOf, linesOf, List.append_nil]
        exact .stored messages hrendering hsink hcreate

theorem Ends.unchanged {call : Invocation} {exitCode : Nat}
    (h : Ends libraries store call w exitCode next) (hcode : exitCode ≠ 0) :
    next.output = w.output ∧ next.files = w.files := by
  cases h with
  | unmade => exact ⟨rfl, rfl⟩
  | refused => exact ⟨rfl, rfl⟩
  | shown => exact absurd rfl hcode
  | stored => exact absurd rfl hcode

end Program

/-! ## Disks -/

namespace Disk

variable {d next : Disk}

theorem store_create_run (d : Disk) (path : String) :
    (store.create path).run d =
      match d.locate path with
      | .error fault => (.error fault, d)
      | .ok l => (.ok l, d.put l .empty) := by
  change (match d.locate path with
    | .error fault => (pure (.error fault) : StateM Disk (Except FileFault Location))
    | .ok l => do
      modify (Disk.put · l .empty)
      return .ok l).run d = _
  cases d.locate path <;> rfl

theorem store_steady : Program.Steady store where
  read _ _ := rfl
  create path d fault next h := by
    rw [store_create_run] at h
    cases hlocate : d.locate path with
    | ok l =>
      rw [hlocate] at h
      cases h
    | error _ =>
      rw [hlocate] at h
      exact (congrArg Prod.snd h).symm
  append _ _ _ := rfl
  flush _ _ := rfl

theorem lookup_filter_ne {files : List (Location × ByteArray)} {l other : Location}
    (h : other ≠ l) : (files.filter (·.1 ≠ l)).lookup other = files.lookup other := by
  induction files with
  | nil => rfl
  | cons f files ih =>
    by_cases hf : f.1 = l
    · have hne : (other == f.1) = false := by simpa [hf] using h
      rw [List.filter_cons_of_neg (by simpa using hf), ih, List.lookup_cons, hne]
    · rw [List.filter_cons_of_pos (by simpa using hf), List.lookup_cons, List.lookup_cons, ih]

/-- What has been put somewhere is there, except on the null device. -/
theorem contents?_put_self (d : Disk) (l : Location) (bytes : ByteArray) :
    (d.put l bytes).contents? l = some (if l = nullDevice then .empty else bytes) := by
  by_cases hnull : l = nullDevice
  · simp [contents?, hnull]
  · simp [contents?, put, hnull]

theorem contents?_put_of_ne (d : Disk) {l other : Location} (bytes : ByteArray) (h : other ≠ l) :
    (d.put l bytes).contents? other = d.contents? other := by
  unfold put
  split
  · rfl
  · have hne : (other == l) = false := by simpa using h
    simp only [contents?, List.lookup_cons, hne, lookup_filter_ne h]

/-- What is written piece by piece stands in the file behind what it held. -/
theorem contents?_fill_self {l : Location} (pieces : List String) {d : Disk} {held : ByteArray}
    (h : d.contents? l = some (if l = nullDevice then .empty else held)) :
    (store.fill l pieces d).contents? l =
      some (if l = nullDevice then .empty else held ++ (String.join pieces).toUTF8) := by
  induction pieces generalizing d held with
  | nil =>
    change d.contents? l = _
    rw [h, String.join_nil]
    simp
  | cons piece rest ih =>
    have happended : (d.append l piece).contents? l =
        some (if l = nullDevice then .empty else held ++ piece.toUTF8) := by
      rw [append, contents?_put_self, h, Option.getD_some]
      split <;> rfl
    change (store.fill l rest (d.append l piece)).contents? l = _
    rw [ih happended, String.join_cons, ByteArray.append_assoc]
    exact congrArg (fun text => some (if l = nullDevice then .empty else held ++ text))
      String.toByteArray_append.symm

theorem contents?_fill_of_ne {l other : Location} (h : other ≠ l) (pieces : List String)
    (d : Disk) : (store.fill l pieces d).contents? other = d.contents? other := by
  induction pieces generalizing d with
  | nil => rfl
  | cons piece rest ih =>
    change (store.fill l rest (d.append l piece)).contents? other = _
    rw [ih, append, contents?_put_of_ne d _ h]

/-- What a run makes of a disk: nothing, or a file that holds all of its output. -/
inductive Gains (call : Invocation) (rendering : Except Failure (List String)) (d : Disk) :
    Nat → Disk → Prop
  | nothing {exitCode : Nat} (h : exitCode ≠ 0 ∨ call.command.sink? = none) :
    Gains call rendering d exitCode d
  | output {pieces : List String} {path : String} {l : Location} {next : Disk}
    (h : rendering = .ok pieces) (hsink : call.command.sink? = some path)
    (hplace : d.locate path = .ok l)
    (hfile : next.contents? l =
      some (if l = nullDevice then .empty else (String.join pieces).toUTF8))
    (hothers : ∀ other, other ≠ l → next.contents? other = d.contents? other) :
    Gains call rendering d 0 next

theorem gains_of_ends {libraries : Libraries} {call : Invocation} {w next : World Disk}
    {exitCode : Nat} (h : Program.Ends libraries store call w exitCode next) :
    Gains call (call.rendering libraries (Program.filesOf store w.files)) w.files exitCode
      next.files := by
  cases h with
  | unmade messages h => exact .nothing (.inl Nat.one_ne_zero)
  | shown messages h hsink => exact .nothing (.inr hsink)
  | refused messages h hsink hcreate => exact .nothing (.inl Nat.one_ne_zero)
  | @stored pieces path l made messages h hsink hcreate =>
    rw [store_create_run] at hcreate
    cases hplace : w.files.locate path with
    | error fault =>
      rw [hplace] at hcreate
      cases hcreate
    | ok l' =>
      rw [hplace] at hcreate
      cases hcreate
      refine .output h hsink hplace ?_ fun other hne => ?_
      · have hfilled := contents?_fill_self pieces (contents?_put_self w.files l .empty)
        rwa [ByteArray.empty_append] at hfilled
      · exact (contents?_fill_of_ne hne pieces _).trans (contents?_put_of_ne _ _ hne)

end Disk

/-- A run reads and reports first, and then it delivers all of its output to one place. If it fails,
nothing has been printed and all files are as they were. On a disk it makes one file at most, which
then holds all of the output, and the other files are as they were. -/
theorem Program.run_delivers_all_or_nothing {φ D : Type} {store : FileStore φ (StateM D)}
    (hstore : Steady store) {libraries : Libraries} {args : List String} {call : Invocation}
    (hargs : libraries.arguments args = .ok call) (w : World D) (disk : World Disk) :
    let finish := (run libraries store.system args).run w
    let onDisk := (run libraries Disk.store.system args).run disk
    Ends libraries store call w finish.1 finish.2 ∧
      (finish.1 ≠ 0 → finish.2.output = w.output ∧ finish.2.files = w.files) ∧
      Disk.Gains call (call.rendering libraries (filesOf Disk.store disk.files)) disk.files
        onDisk.1 onDisk.2.files := by
  intro finish onDisk
  have hends : Ends libraries store call w finish.1 finish.2 := run_ends hstore hargs w
  have hdisk : Ends libraries Disk.store call disk onDisk.1 onDisk.2 :=
    run_ends Disk.store_steady hargs disk
  exact ⟨hends, hends.unchanged, Disk.gains_of_ends hdisk⟩

/-- A file that is no image: the run fails, and the file named for its output stays. -/
theorem Program.run_delivers_all_or_nothing_unmade :
    let d : Disk := .ofFiles [("c", .empty), ("a", ⟨#[0x78]⟩), ("o", ⟨#[0x6f]⟩)]
    let args := ["symbols", "a", "-o", "o", "-c", "c"]
    let call : Invocation :=
      ⟨.symbols ⟨"a", [], none, none, false, none, some "o"⟩, some "c", .normal⟩
    let finish := (run .standard Disk.store.system args).run ⟨d, "", []⟩
    Steady Disk.store ∧ Libraries.standard.arguments args = .ok call ∧ finish.1 = 1 ∧
      finish.2.output = "" ∧ finish.2.files = d := by
  intro d args call finish
  have hargs : Libraries.standard.arguments args = .ok call := by cbv
  have hrendering : call.rendering .standard (filesOf Disk.store d) =
      .error (.notElf "a" (.truncatedInput 0 4)) := by
    have hsettings : (filesOf Disk.store d).settings .standard (some "c") = .ok {} := by cbv
    have himage : (filesOf Disk.store d).image "a" =
        .error (.notElf "a" (.truncatedInput 0 4)) := by cbv
    rw [Invocation.rendering, hsettings]
    change (filesOf Disk.store d).image "a" >>= _ = _
    rw [himage]
    rfl
  obtain ⟨hends, hunchanged, -⟩ :=
    run_delivers_all_or_nothing Disk.store_steady hargs ⟨d, "", []⟩ ⟨d, "", []⟩
  change Ends .standard Disk.store call ⟨d, "", []⟩ finish.1 finish.2 at hends
  have hcode : finish.1 = 1 := by
    generalize finish.1 = exitCode at hends
    generalize finish.2 = next at hends
    cases hends with
    | unmade messages h => rfl
    | refused messages h => rfl
    | shown messages h =>
      rw [hrendering] at h
      cases h
    | stored messages h =>
      rw [hrendering] at h
      cases h
  obtain ⟨houtput, hfiles⟩ := hunchanged (hcode ▸ Nat.one_ne_zero)
  exact ⟨Disk.store_steady, hargs, hcode, houtput, hfiles⟩

end ElfInspect
