import EnumCodec.Generation

/-!
# Runs that act on a state

What a step of a run gives from a state (`Run.outcome`), for every host that keeps a state.

* `Job.setup` — what is settled before the first type, so that a run is its setup and then one step
  for each type (`Job.run_eq_setup`).  It only reads (`Job.setup_congr`, `Job.keeps_setup`).
* `Setup.delivery` — what is handed over for a type; it depends on no other type
  (`Setup.outcome_generateOne_ok_iff`, `Setup.outcome_generateOne_error_iff`).
* `Setup.outcome_generate_error_iff` — a run fails at one type, when it is done with those before it.
-/

set_option autoImplicit false

namespace EnumCodec

/-! ## Steps -/

namespace Run

variable {σ α β γ : Type} {s s' : σ}

/-- The answer to a question in a state, and the state after it. -/
def answer (s : σ) (question : StateM σ α) : α × σ := question.run s

/-- What a step gives in a state, and the state after it. -/
def outcome (s : σ) (step : Run (StateM σ) α) : Except Failure α × σ :=
  step.run.run s

@[simp] theorem outcome_pure (s : σ) (a : α) : outcome s (pure a) = (.ok a, s) := rfl

@[simp] theorem outcome_throw (s : σ) (e : Failure) :
    outcome s (throw e : Run (StateM σ) α) = (.error e, s) := rfl

@[simp] theorem outcome_settled (s : σ) (x : Except Failure α) :
    outcome s (settled x) = (x, s) := rfl

@[simp] theorem outcome_lift (s : σ) (step : StateM σ α) :
    outcome s (ExceptT.lift step) = (.ok (answer s step).1, (answer s step).2) := rfl

theorem outcome_bind (s : σ) (step : Run (StateM σ) α) (next : α → Run (StateM σ) β) :
    outcome s (step >>= next) =
      match outcome s step with
      | (.ok a, s) => outcome s (next a)
      | (.error e, s) => (.error e, s) := by
  simp only [outcome, ExceptT.run_bind, StateT.run_bind]
  generalize step.run.run s = result
  obtain ⟨x, s⟩ := result
  cases x <;> rfl

/-- Two steps succeed if the first one does, and then the second. -/
theorem outcome_bind_ok_iff {step : Run (StateM σ) α} {next : α → Run (StateM σ) β} {b : β} :
    outcome s (step >>= next) = (.ok b, s') ↔
      ∃ a middle, outcome s step = (.ok a, middle) ∧ outcome middle (next a) = (.ok b, s') := by
  rw [outcome_bind]
  cases h : outcome s step with
  | mk x middle => cases x <;> simp [and_assoc]

/-- Two steps fail if the first one does, or else the second. -/
theorem outcome_bind_error_iff {step : Run (StateM σ) α} {next : α → Run (StateM σ) β}
    {e : Failure} :
    outcome s (step >>= next) = (.error e, s') ↔
      outcome s step = (.error e, s') ∨
        ∃ a middle, outcome s step = (.ok a, middle) ∧
          outcome middle (next a) = (.error e, s') := by
  rw [outcome_bind]
  cases h : outcome s step with
  | mk x middle => cases x <;> simp [and_assoc]

theorem outcome_ask (s : σ) (question : StateM σ (Except SystemError α))
    (blame : SystemError → Failure) :
    outcome s (ask question blame)
      = ((answer s question).1.mapError blame, (answer s question).2) := by
  simp only [outcome, answer, ask, ExceptT.run_mk, StateT.run_bind]
  generalize question.run s = result
  obtain ⟨x, s⟩ := result
  cases x <;> rfl

/-- What is asked for is given. -/
theorem outcome_ask_ok_iff {question : StateM σ (Except SystemError α)}
    {blame : SystemError → Failure} {a : α} :
    outcome s (ask question blame) = (.ok a, s') ↔ answer s question = (.ok a, s') := by
  rw [outcome_ask]
  cases answer s question with
  | mk x after =>
    cases x with
    | error refusal => exact ⟨fun h => (by cases h), fun h => (by cases h)⟩
    | ok a => constructor <;> (intro h; cases h; rfl)

/-- What is asked for is refused. -/
theorem outcome_ask_error_iff {question : StateM σ (Except SystemError α)}
    {blame : SystemError → Failure} {e : Failure} :
    outcome s (ask question blame) = (.error e, s') ↔
      ∃ refusal, answer s question = (.error refusal, s') ∧ e = blame refusal := by
  rw [outcome_ask]
  cases answer s question with
  | mk x after =>
    cases x with
    | ok a => exact ⟨fun h => (by cases h), fun ⟨_, h, _⟩ => (by cases h)⟩
    | error refusal =>
      constructor
      · intro h
        cases h
        exact ⟨refusal, rfl, rfl⟩
      · rintro ⟨_, h, rfl⟩
        cases h
        rfl

/-! ## Steps that keep something -/

/-- Whatever the step gives, nothing changes in a view of the state. -/
def Keeps (view : σ → γ) (step : Run (StateM σ) α) : Prop :=
  ∀ s, view (outcome s step).2 = view s

variable {view : σ → γ}

theorem Keeps.settled (x : Except Failure α) : Keeps view (settled x) := fun _ => rfl

theorem Keeps.ask {question : StateM σ (Except SystemError α)}
    (h : ∀ s, view (answer s question).2 = view s) (blame : SystemError → Failure) :
    Keeps view (ask question blame) := by
  intro s
  rw [outcome_ask]
  exact h s

theorem Keeps.bind {step : Run (StateM σ) α} {next : α → Run (StateM σ) β} (h : Keeps view step)
    (more : ∀ a, Keeps view (next a)) : Keeps view (step >>= next) := by
  intro s
  have first := h s
  rw [outcome_bind]
  cases result : outcome s step with
  | mk x middle =>
    rw [result] at first
    cases x with
    | error e => exact first
    | ok a => exact (more a middle).trans first

end Run

/-! ## What is settled before the first type -/

/-- What is settled before the first type of a job. -/
structure Setup where
  package : Package
  options : Options
  command : String

section Setup

variable {m : Type → Type} [Monad m]

/-- Settles what a job needs for all of its types. -/
def Job.setup (host : Host m) (job : Job) : Run m Setup := do
  if job.types.isEmpty then throw (.usage .noTypes)
  let settings ← Settings.load host job.dir
  let package ← Package.load host job.dir
  return ⟨package, (settings.getD Settings.empty).resolve job.overrides, job.commandText⟩

/-- Writes the file for a type. -/
def Setup.generateOne (host : Host m) (setup : Setup) (typeName : String) : Run m WrittenFile :=
  generateType host setup.package setup.options setup.command typeName

/-- Writes the files for types, up to the first failure. -/
def Setup.generate (host : Host m) (setup : Setup) (typeNames : List String) :
    Run m (List WrittenFile) :=
  generateTypes host setup.package setup.options setup.command typeNames

/-- The report of a job that has written files. -/
def Setup.report (setup : Setup) (files : List WrittenFile) : Report :=
  ⟨setup.package.name, setup.package.dir, files⟩

theorem Job.run_eq_setup [LawfulMonad m] (host : Host m) (job : Job) :
    job.run host = do
      let setup ← job.setup host
      let files ← setup.generate host job.types
      return setup.report files := by
  unfold Job.run Job.setup
  split
  · exact ExceptT.ext (by simp)
  · simp only [Setup.generate, Setup.report, bind_assoc, pure_bind]

/-- Two hosts read the same. -/
structure Host.ReadsAs (host host' : Host m) : Prop where
  hasPath : host.hasPath = host'.hasPath
  list : host.list = host'.list
  read : host.read = host'.read
  readSource : host.readSource = host'.readSource

/-- The setup of a job depends only on what is read. -/
theorem Job.setup_congr {host host' : Host m} (same : host.ReadsAs host') (job : Job) :
    job.setup host = job.setup host' := by
  have sources : ∀ (dir : String) (paths : List String) (files : List SourceFile),
      readSources host dir paths files = readSources host' dir paths files := by
    intro dir paths
    induction paths with
    | nil => exact fun _ => rfl
    | cons path paths ih => simp only [readSources, same.readSource, ih, implies_true]
  simp only [Job.setup, Settings.load, Package.load, listSources, same.hasPath, same.list,
    same.read, sources]

end Setup

/-- The job for one of the types alone, with the same command line in its file. -/
def Job.only (job : Job) (typeName : String) : Job :=
  { job with types := [typeName], command := job.commandText }

theorem Job.commandText_only (job : Job) (typeName : String) :
    (job.only typeName).commandText = job.commandText := by
  have some : job.commandText ≠ "" := by
    unfold commandText
    split
    · simp
    · rename_i given
      simpa using given
  exact if_neg (by simpa [only] using some)

section Reading

variable {σ γ : Type} {host : Host (StateM σ)} {view : σ → γ}

/-- Nothing changes in a view of the state when something is read. -/
structure Host.KeepsToRead (host : Host (StateM σ)) (view : σ → γ) : Prop where
  hasPath : ∀ path s, view (Run.answer s (host.hasPath path)).2 = view s
  list : ∀ path s, view (Run.answer s (host.list path)).2 = view s
  read : ∀ path s, view (Run.answer s (host.read path)).2 = view s
  readSource : ∀ path s, view (Run.answer s (host.readSource path)).2 = view s

open Run

theorem Settings.keeps_load (h : host.KeepsToRead view) (dir : String) :
    Keeps view (Settings.load host dir) := by
  refine Keeps.bind (fun s => h.hasPath _ s) fun there => ?_
  cases there with
  | false => exact Keeps.settled _
  | true =>
    refine Keeps.bind (Keeps.ask (h.read _) _) fun source => ?_
    cases Settings.ofText source with
    | ok settings => exact Keeps.settled _
    | error text => exact Keeps.settled (.error _)

theorem keeps_readSources (h : host.KeepsToRead view) (dir : String) (paths : List String)
    (files : List SourceFile) : Keeps view (readSources host dir paths files) := by
  induction paths generalizing files with
  | nil => exact Keeps.settled _
  | cons path paths ih =>
    exact Keeps.bind (Keeps.ask (h.readSource path) _) fun source =>
      Keeps.bind (Keeps.settled _) ih

theorem Package.keeps_load (h : host.KeepsToRead view) (dir : String) :
    Keeps view (Package.load host dir) :=
  Keeps.bind (Keeps.bind (Keeps.ask (h.list dir) _) fun _ => Keeps.settled _) fun _ =>
    Keeps.bind (keeps_readSources h dir _ _) fun _ => Keeps.settled _

/-- The setup of a job changes nothing but what reading changes. -/
theorem Job.keeps_setup (h : host.KeepsToRead view) (job : Job) :
    Keeps view (job.setup host) := by
  have reads : Keeps view do
      let settings ← Settings.load host job.dir
      let package ← Package.load host job.dir
      return (⟨package, (settings.getD Settings.empty).resolve job.overrides, job.commandText⟩ :
        Setup) :=
    Keeps.bind (Settings.keeps_load h _) fun _ =>
      Keeps.bind (Package.keeps_load h _) fun _ => Keeps.settled _
  unfold Job.setup
  split
  · exact Keeps.bind (Keeps.settled (.error _)) fun _ => reads
  · exact reads

end Reading

/-! ## What is handed over for a type -/

/-- The text that becomes of a text with a formatter, if it is to be asked, and whether it is the
formatter that gave it. -/
def finished (format : String → FormatOutcome) (options : Options) (text : String) :
    String × Bool :=
  if options.format then
    match format text with
    | .formatted text => (text, true)
    | .unavailable | .rejected _ => (text, false)
  else (text, false)

/-- A file that is handed over, with its text. -/
structure Delivery where
  file : WrittenFile
  text : String

/-- The path and the text of a file that is handed over. -/
def Delivery.write (d : Delivery) : String × String := (d.file.path, d.text)

namespace Setup

/-- The text for the table of a type, before it is formatted. -/
def rendered (setup : Setup) (table : ValueTable) : String :=
  (Generated.mk setup.command setup.package.name [table.enumNames]).text

/-- The path of the file for a type. -/
def path (setup : Setup) (typeName : String) : String :=
  Path.join setup.package.dir (outputName setup.options.front typeName setup.options.back)

/-- The file for a type with a table. -/
def deliveryOf (setup : Setup) (format : String → FormatOutcome) (typeName : String)
    (table : ValueTable) : Delivery where
  file := ⟨typeName, setup.path typeName, table,
    (finished format setup.options (setup.rendered table)).2⟩
  text := (finished format setup.options (setup.rendered table)).1

/-- The file for a type, if the type has a table. -/
def delivery (setup : Setup) (format : String → FormatOutcome) (typeName : String) :
    Except Failure Delivery :=
  (setup.package.valueTable typeName setup.options.policy).map (setup.deliveryOf format typeName)

variable {setup : Setup} {format : String → FormatOutcome} {typeName : String} {d : Delivery}
  {e : Failure}

theorem delivery_ok_iff :
    setup.delivery format typeName = .ok d ↔
      ∃ table, setup.package.valueTable typeName setup.options.policy = .ok table ∧
        d = setup.deliveryOf format typeName table := by
  unfold delivery
  cases setup.package.valueTable typeName setup.options.policy <;> simp [Except.map, eq_comm]

theorem delivery_error_iff :
    setup.delivery format typeName = .error e ↔
      setup.package.valueTable typeName setup.options.policy = .error e := by
  unfold delivery
  cases setup.package.valueTable typeName setup.options.policy <;> simp [Except.map]

section Steps

variable {σ : Type} {host : Host (StateM σ)} {s s' : σ}

/-- The state in which a file is handed over: the formatter was asked before. -/
def formattedState (host : Host (StateM σ)) (setup : Setup) (d : Delivery) (s : σ) : σ :=
  (Run.answer s
    (formatted host setup.options d.file.typeName (setup.rendered d.file.table))).2

variable (asks : ∀ text, host.format text = pure (format text))

include asks

theorem fst_answer_formatted (options : Options) (typeName text : String) (s : σ) :
    (Run.answer s (formatted host options typeName text)).1 = finished format options text := by
  unfold formatted finished
  cases options.format with
  | false => rfl
  | true => simp only [if_true, asks, pure_bind]; cases format text <;> rfl

/-- What is done for a type, if it has a table. -/
theorem outcome_generateOne_of_ok (h : setup.delivery format typeName = .ok d) :
    Run.outcome s (setup.generateOne host typeName) =
      Run.outcome (formattedState host setup d s)
        (Run.ask (host.write d.file.path d.text) (.ofFile d.file.path) >>= fun _ =>
          pure d.file) := by
  obtain ⟨table, found, rfl⟩ := delivery_ok_iff.mp h
  rw [generateOne, generateType, Run.outcome_bind, Run.outcome_settled, found]
  dsimp only
  rw [Run.outcome_bind, Run.outcome_lift, fst_answer_formatted asks]
  simp only [formattedState, deliveryOf, path, rendered]

/-- The file for a type is written if the type has a table and the file is taken. -/
theorem outcome_generateOne_ok_iff {file : WrittenFile} :
    Run.outcome s (setup.generateOne host typeName) = (.ok file, s') ↔
      ∃ d, setup.delivery format typeName = .ok d ∧ file = d.file ∧
        Run.answer (formattedState host setup d s) (host.write d.file.path d.text)
          = (.ok (), s') := by
  cases h : setup.delivery format typeName with
  | error e =>
    rw [generateOne, generateType, Run.outcome_bind, Run.outcome_settled, delivery_error_iff.mp h]
    simp
  | ok d =>
    rw [outcome_generateOne_of_ok asks h]
    simp only [Run.outcome_bind_ok_iff, Run.outcome_ask_ok_iff, Run.outcome_pure, Prod.mk.injEq,
      Except.ok.injEq, exists_eq_left']
    constructor
    · rintro ⟨_, _, written, rfl, rfl⟩
      exact ⟨rfl, written⟩
    · rintro ⟨rfl, written⟩
      exact ⟨(), s', written, rfl, rfl⟩

/-- The step for a type fails if the type has no table, or else if the file is refused. -/
theorem outcome_generateOne_error_iff :
    Run.outcome s (setup.generateOne host typeName) = (.error e, s') ↔
      setup.delivery format typeName = .error e ∧ s' = s ∨
        ∃ d refusal, setup.delivery format typeName = .ok d ∧
          Run.answer (formattedState host setup d s) (host.write d.file.path d.text)
            = (.error refusal, s') ∧ e = .ofFile d.file.path refusal := by
  cases h : setup.delivery format typeName with
  | error e' =>
    rw [generateOne, generateType, Run.outcome_bind, Run.outcome_settled, delivery_error_iff.mp h]
    simp [eq_comm]
  | ok d =>
    rw [outcome_generateOne_of_ok asks h]
    simp only [Run.outcome_bind_error_iff, Run.outcome_ask_error_iff, Run.outcome_pure,
      Prod.mk.injEq, Except.ok.injEq, reduceCtorEq, false_and, and_false, exists_false, or_false,
      false_or]
    constructor
    · rintro ⟨refusal, refused, rfl⟩
      exact ⟨d, refusal, rfl, refused, rfl⟩
    · rintro ⟨_, refusal, rfl, refused, rfl⟩
      exact ⟨refusal, refused, rfl⟩

end Steps

end Setup

/-! ## Type by type -/

section Types

variable {σ : Type} {host : Host (StateM σ)} {s s' : σ} {setup : Setup} {job : Job}
  {typeName : String} {typeNames : List String} {files : List WrittenFile} {e : Failure}

open Run

theorem Setup.outcome_generate_nil :
    outcome s (setup.generate host []) = (.ok [], s) := rfl

theorem Setup.outcome_generate_cons_ok_iff :
    outcome s (setup.generate host (typeName :: typeNames)) = (.ok files, s') ↔
      ∃ file middle rest, outcome s (setup.generateOne host typeName) = (.ok file, middle) ∧
        outcome middle (setup.generate host typeNames) = (.ok rest, s') ∧ files = file :: rest := by
  simp only [Setup.generate, Setup.generateOne, generateTypes, outcome_bind_ok_iff, outcome_pure,
    Prod.mk.injEq, Except.ok.injEq]
  constructor
  · rintro ⟨file, middle, first, rest, _, more, rfl, rfl⟩
    exact ⟨file, middle, rest, first, more, rfl⟩
  · rintro ⟨file, middle, rest, first, more, rfl⟩
    exact ⟨file, middle, first, rest, s', more, rfl, rfl⟩

theorem Setup.outcome_generate_cons_error_iff :
    outcome s (setup.generate host (typeName :: typeNames)) = (.error e, s') ↔
      outcome s (setup.generateOne host typeName) = (.error e, s') ∨
        ∃ file middle, outcome s (setup.generateOne host typeName) = (.ok file, middle) ∧
          outcome middle (setup.generate host typeNames) = (.error e, s') := by
  simp only [Setup.generate, Setup.generateOne, generateTypes, outcome_bind_error_iff,
    outcome_pure, Prod.mk.injEq, reduceCtorEq, false_and, and_false, exists_false, or_false]

/-- Types fail at the first one that does, when those before it are done. -/
theorem Setup.outcome_generate_error_iff :
    outcome s (setup.generate host typeNames) = (.error e, s') ↔
      ∃ done typeName rest files middle, typeNames = done ++ typeName :: rest ∧
        outcome s (setup.generate host done) = (.ok files, middle) ∧
        outcome middle (setup.generateOne host typeName) = (.error e, s') := by
  induction typeNames generalizing s with
  | nil => simp [Setup.generate, generateTypes]
  | cons first typeNames ih =>
    rw [outcome_generate_cons_error_iff]
    constructor
    · rintro (failed | ⟨file, middle, made, failed⟩)
      · exact ⟨[], first, typeNames, [], s, rfl, rfl, failed⟩
      · obtain ⟨done, typeName, rest, files, last, rfl, before, failed⟩ := ih.mp failed
        exact ⟨first :: done, typeName, rest, file :: files, last, rfl,
          outcome_generate_cons_ok_iff.mpr ⟨file, middle, files, made, before, rfl⟩, failed⟩
    · rintro ⟨done, typeName, rest, files, last, split, before, failed⟩
      cases done with
      | nil =>
        cases split
        cases before
        exact .inl failed
      | cons first' done =>
        cases split
        obtain ⟨file, middle, files, made, more, rfl⟩ := outcome_generate_cons_ok_iff.mp before
        exact .inr ⟨file, middle, made,
          ih.mpr ⟨done, typeName, rest, files, last, rfl, more, failed⟩⟩

/-- A job is done if its setup succeeds and then all of its types do. -/
theorem Job.outcome_run_ok_iff {report : Report} :
    outcome s (job.run host) = (.ok report, s') ↔
      ∃ setup middle files, outcome s (job.setup host) = (.ok setup, middle) ∧
        outcome middle (setup.generate host job.types) = (.ok files, s') ∧
        report = setup.report files := by
  simp only [Job.run_eq_setup, outcome_bind_ok_iff, outcome_pure, Prod.mk.injEq, Except.ok.injEq]
  constructor
  · rintro ⟨setup, middle, settled, files, _, made, rfl, rfl⟩
    exact ⟨setup, middle, files, settled, made, rfl⟩
  · rintro ⟨setup, middle, files, settled, made, rfl⟩
    exact ⟨setup, middle, settled, files, s', made, rfl, rfl⟩

/-- A job fails in its setup, or at one of its types. -/
theorem Job.outcome_run_error_iff :
    outcome s (job.run host) = (.error e, s') ↔
      outcome s (job.setup host) = (.error e, s') ∨
        ∃ setup middle, outcome s (job.setup host) = (.ok setup, middle) ∧
          outcome middle (setup.generate host job.types) = (.error e, s') := by
  simp only [Job.run_eq_setup, outcome_bind_error_iff, outcome_pure, Prod.mk.injEq, reduceCtorEq,
    false_and, and_false, exists_false, or_false]

end Types

end EnumCodec
