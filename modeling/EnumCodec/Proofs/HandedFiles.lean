import EnumCodec.Host.Rehearsal
import EnumCodec.Proofs.Runs
import Mathlib

/-!
# The files that a job hands over

A job hands its files to a `Sink`, which may refuse any of them.  The answers to all its questions
are those of a rehearsal.

* `Job.run_type_by_type` — a job hands over what the jobs for its types alone hand over, one after
  the other, up to the first type that fails; and it fails as that type does.
* `alike_run` — what a formatter answers changes nothing but the texts, for a sink that does not look
  at them; and every sink answers a job as such a sink does (`exists_answer`).
-/

set_option autoImplicit false

namespace EnumCodec

/-! ## Sinks -/

/-- What takes the files that are handed over.  It may refuse the text for a path, whatever was done
before. -/
abbrev Sink := Record → String → String → Option SystemError

namespace Sink

/-- The sink that takes all files. -/
def takesAll : Sink := fun _ _ _ => none

theorem takesAll_apply (record : Record) (path text : String) : takesAll record path text = none :=
  rfl

/-- The sink that looks at paths only: at those of the files it has taken, and at the next one. -/
def byPaths (answer : List String → String → Option SystemError) : Sink :=
  fun record path _ => answer (record.writes.map Prod.fst) path

end Sink

namespace Rehearsal

/-- Hands over a file, which is taken down unless it is refused. -/
def handOver (sink : Sink) (path text : String) : StateM Record (Except SystemError Unit) := do
  match sink (← get) path text with
  | some e => return .error e
  | none =>
    note (.written path text)
    return .ok ()

/-- The host that gives the answers of a rehearsal, and hands all files to a sink. -/
def hostInto (r : Rehearsal) (sink : Sink) : Host (StateM Record) :=
  { r.host with write := handOver sink }

/-- The host of a rehearsal hands its files to the sink that refuses them by their number. -/
theorem host_eq_hostInto (r : Rehearsal) :
    r.host = r.hostInto fun record _ _ => r.refusal? record.writes.length := rfl

/-- What a job gives that hands its files to a sink, and what it has done. -/
def outcome (r : Rehearsal) (sink : Sink) (job : Job) : Except Failure Report × Record :=
  Run.outcome [] (job.run (r.hostInto sink))

/-! ## What a rehearsal takes down -/

theorem format_hostInto (r : Rehearsal) (sink : Sink) (text : String) :
    (r.hostInto sink).format text = pure (r.format text) := rfl

variable {r : Rehearsal} {sink : Sink} {job : Job} {setup : Setup} {typeName : String}
  {typeNames : List String} {record record' start : Record} {d : Delivery} {e : Failure}

theorem keepsToRead (r : Rehearsal) (sink : Sink) :
    (r.hostInto sink).KeepsToRead Record.writes where
  hasPath _ _ := rfl
  list _ _ := rfl
  read _ _ := rfl
  readSource path s := by
    have step : (Run.answer s ((r.hostInto sink).readSource path)).2 = s ++ [.sourceRead path] := rfl
    simp [step, Record.writes, Event.writing?]

/-- Before a file is handed over, at most one warning is taken down. -/
theorem formattedState_eq (r : Rehearsal) (sink : Sink) (setup : Setup) (d : Delivery)
    (record : Record) :
    setup.formattedState (r.hostInto sink) d record = record ∨
      ∃ message, setup.formattedState (r.hostInto sink) d record = record ++ [.warned message] := by
  unfold Setup.formattedState Run.answer formatted
  cases setup.options.format with
  | false => exact .inl rfl
  | true =>
    cases answer : r.format (setup.rendered d.file.table) with
    | formatted text | unavailable =>
      simp only [hostInto, host, answer]
      exact .inl rfl
    | rejected message =>
      simp only [hostInto, host, answer]
      exact .inr ⟨_, rfl⟩

theorem writes_formattedState (r : Rehearsal) (sink : Sink) (setup : Setup) (d : Delivery)
    (record : Record) :
    Record.writes (setup.formattedState (r.hostInto sink) d record) = record.writes := by
  rcases r.formattedState_eq sink setup d record with eq | ⟨message, eq⟩ <;> rw [eq]
  simp [Record.writes, Event.writing?]

theorem prefix_formattedState (r : Rehearsal) (sink : Sink) (setup : Setup) (d : Delivery)
    (record : Record) : record <+: setup.formattedState (r.hostInto sink) d record := by
  rcases r.formattedState_eq sink setup d record with eq | ⟨message, eq⟩
  · exact ⟨[], by rw [eq, List.append_nil]⟩
  · exact ⟨[.warned message], eq.symm⟩

theorem writes_append_written (record : Record) (path text : String) :
    Record.writes (record ++ [.written path text]) = record.writes ++ [(path, text)] := by
  simp [Record.writes, Event.writing?]

theorem answer_write (record : Record) (path text : String) :
    Run.answer record ((r.hostInto sink).write path text) =
      match sink record path text with
      | some e => (.error e, record)
      | none => (.ok (), record ++ [.written path text]) := by
  unfold Run.answer hostInto handOver
  cases h : sink record path text <;> simp [h] <;> rfl

theorem answer_write_ok_iff {path text : String} :
    Run.answer record ((r.hostInto sink).write path text) = (.ok (), record') ↔
      sink record path text = none ∧ record' = record ++ [.written path text] := by
  rw [answer_write]
  cases sink record path text <;> simp [eq_comm]

theorem answer_write_error_iff {path text : String} {refusal : SystemError} :
    Run.answer record ((r.hostInto sink).write path text) = (.error refusal, record') ↔
      sink record path text = some refusal ∧ record' = record := by
  rw [answer_write]
  cases sink record path text <;> simp [eq_comm]

/-! ## Steps -/

theorem outcome_generateOne_of_noTable (h : setup.delivery r.format typeName = .error e) :
    Run.outcome record (setup.generateOne (r.hostInto sink) typeName) = (.error e, record) :=
  (Setup.outcome_generateOne_error_iff (r.format_hostInto sink)).mpr (.inl ⟨h, rfl⟩)

theorem outcome_generateOne_of_refused (h : setup.delivery r.format typeName = .ok d)
    {refusal : SystemError}
    (refused : sink (setup.formattedState (r.hostInto sink) d record) d.file.path d.text
      = some refusal) :
    Run.outcome record (setup.generateOne (r.hostInto sink) typeName)
      = (.error (.ofFile d.file.path refusal), setup.formattedState (r.hostInto sink) d record) :=
  (Setup.outcome_generateOne_error_iff (r.format_hostInto sink)).mpr
    (.inr ⟨d, refusal, h, answer_write_error_iff.mpr ⟨refused, rfl⟩, rfl⟩)

theorem outcome_generateOne_of_taken (h : setup.delivery r.format typeName = .ok d)
    (taken : sink (setup.formattedState (r.hostInto sink) d record) d.file.path d.text = none) :
    Run.outcome record (setup.generateOne (r.hostInto sink) typeName)
      = (.ok d.file,
        setup.formattedState (r.hostInto sink) d record ++ [.written d.file.path d.text]) :=
  (Setup.outcome_generateOne_ok_iff (r.format_hostInto sink)).mpr
    ⟨d, h, rfl, answer_write_ok_iff.mpr ⟨taken, rfl⟩⟩

/-- A sink took files one after the other, each of them when those before it had been handed over. -/
def TakenInTurn (sink : Sink) (start record : Record) (ds : List Delivery) : Prop :=
  ∀ before d after, ds = before ++ d :: after → ∃ earlier later,
    record = earlier ++ .written d.file.path d.text :: later ∧
      earlier.writes = start.writes ++ before.map Delivery.write ∧
      sink earlier d.file.path d.text = none

theorem takenInTurn_nil (sink : Sink) (start record : Record) : TakenInTurn sink start record [] :=
  fun before _ _ split => by cases before <;> cases split

/-- One file more is taken in front of the others. -/
theorem TakenInTurn.cons {ds : List Delivery} {ready later : Record}
    (h : TakenInTurn sink (ready ++ [.written d.file.path d.text]) record ds)
    (writes : ready.writes = start.writes)
    (follows : record = ready ++ .written d.file.path d.text :: later)
    (taken : sink ready d.file.path d.text = none) : TakenInTurn sink start record (d :: ds) := by
  intro before d' after split
  cases before with
  | nil =>
    cases split
    exact ⟨ready, later, follows, by rw [writes, List.map_nil, List.append_nil], taken⟩
  | cons first before =>
    cases split
    obtain ⟨earlier, rest, here, written, taken⟩ := h before d' after rfl
    refine ⟨earlier, rest, here, ?_, taken⟩
    rw [written, writes_append_written, writes, List.append_assoc]
    rfl

/-- The files for types are handed over in the order of the types. -/
theorem outcome_generate_ok {files : List WrittenFile}
    (h : Run.outcome record (setup.generate (r.hostInto sink) typeNames) = (.ok files, record')) :
    ∃ ds, List.Forall₂ (fun typeName d => setup.delivery r.format typeName = .ok d) typeNames ds ∧
      files = ds.map Delivery.file ∧ record'.writes = record.writes ++ ds.map Delivery.write ∧
      record <+: record' ∧ TakenInTurn sink record record' ds := by
  induction typeNames generalizing record files with
  | nil =>
    cases h
    exact ⟨[], .nil, rfl, (List.append_nil _).symm, List.prefix_rfl, takenInTurn_nil _ _ _⟩
  | cons typeName typeNames ih =>
    obtain ⟨_, middle, rest, made, more, rfl⟩ := Setup.outcome_generate_cons_ok_iff.mp h
    obtain ⟨d, delivery, rfl, handed⟩ :=
      (Setup.outcome_generateOne_ok_iff (r.format_hostInto sink)).mp made
    obtain ⟨taken, rfl⟩ := answer_write_ok_iff.mp handed
    obtain ⟨ds, deliveries, rfl, writes, ⟨later, follows⟩, turns⟩ := ih more
    rw [writes_append_written, writes_formattedState] at writes
    rw [List.append_assoc, List.singleton_append] at follows
    have longer := (prefix_formattedState r sink setup d record).trans ⟨_, follows⟩
    exact ⟨d :: ds, .cons delivery deliveries, rfl, by simpa [Delivery.write] using writes, longer,
      turns.cons (writes_formattedState ..) follows.symm taken⟩

/-- The files for types with a table are handed over, if the sink takes them whatever was done before. -/
theorem outcome_generate_of_taken {ds : List Delivery}
    (deliveries : List.Forall₂ (fun typeName d => setup.delivery r.format typeName = .ok d)
      typeNames ds)
    (taken : ∀ d ∈ ds, ∀ record, sink record d.file.path d.text = none) (record : Record) :
    ∃ record',
      Run.outcome record (setup.generate (r.hostInto sink) typeNames)
        = (.ok (ds.map Delivery.file), record') ∧
      record'.writes = record.writes ++ ds.map Delivery.write := by
  induction deliveries generalizing record with
  | nil => exact ⟨record, Setup.outcome_generate_nil, (List.append_nil _).symm⟩
  | @cons typeName d typeNames ds delivery _ ih =>
    have first := outcome_generateOne_of_taken delivery (taken d List.mem_cons_self
      (setup.formattedState (r.hostInto sink) d record))
    obtain ⟨record', rest, writes⟩ := ih (fun d h => taken d (List.mem_cons_of_mem _ h))
      (setup.formattedState (r.hostInto sink) d record ++ [.written d.file.path d.text])
    refine ⟨record', Setup.outcome_generate_cons_ok_iff.mpr ⟨_, _, _, first, rest, rfl⟩, ?_⟩
    rw [writes, writes_append_written, writes_formattedState, List.append_assoc]
    rfl

/-! ## The job for one type alone -/

/-- The setup does not depend on the sink. -/
theorem setup_hostInto (r : Rehearsal) (sink : Sink) (job : Job) :
    job.setup (r.hostInto sink) = job.setup r.host := by
  have same : (r.hostInto sink).ReadsAs r.host := ⟨rfl, rfl, rfl, rfl⟩
  exact Job.setup_congr same job

theorem writes_setup (r : Rehearsal) (job : Job) :
    Record.writes (Run.outcome [] (job.setup r.host)).2 = [] :=
  job.keeps_setup (r.keepsToRead _) []

theorem types_ne_nil_of_setup (h : Run.outcome [] (job.setup r.host) = (.ok setup, start)) :
    job.types ≠ [] := by
  intro none
  rw [Job.setup, if_pos (by simp [none])] at h
  cases h

theorem setup_only (h : job.types ≠ []) (typeName : String) :
    (job.only typeName).setup r.host = job.setup r.host := by
  have one : (job.only typeName).types.isEmpty ≠ true := by simp [Job.only]
  rw [Job.setup, Job.setup, if_neg one, if_neg (by simpa using h), Job.commandText_only]
  rfl

/-- A file is the one that a job hands over for a type: the job for the type alone hands over this
file and no other, and its text is that for the table of the type, unless the formatter gives
another. -/
structure IsHanded (r : Rehearsal) (job : Job) (setup : Setup) (typeName : String) (d : Delivery) :
    Prop where
  alone : (r.outcome .takesAll (job.only typeName)).1 = .ok (setup.report [d.file])
  handed : (r.outcome .takesAll (job.only typeName)).2.writes = [(d.file.path, d.text)]
  named : d.file.typeName = typeName
  path : d.file.path = setup.path typeName
  table : setup.package.valueTable typeName setup.options.policy = .ok d.file.table
  text : d.text = (finished r.format setup.options (setup.rendered d.file.table)).1

/-- Why a type fails after something was done: its analysis does, as in the job for the type alone, or
the sink refuses the file for it. -/
inductive FailsAt (r : Rehearsal) (sink : Sink) (job : Job) (setup : Setup) (record : Record)
    (typeName : String) : Failure → Prop
  | analysis {e : Failure} (noTable : setup.package.valueTable typeName setup.options.policy = .error e)
      (alone : (r.outcome .takesAll (job.only typeName)).1 = .error e) :
      FailsAt r sink job setup record typeName e
  | write {d : Delivery} {refusal : SystemError} (handed : r.IsHanded job setup typeName d)
      (refused : sink record d.file.path d.text = some refusal) :
      FailsAt r sink job setup record typeName (.ofFile d.file.path refusal)

/-- A job whose setup is settled is done type by type.  The first types have a table, and their files
are taken; then the next one fails, if these are not all. -/
structure DoneInTurn (r : Rehearsal) (sink : Sink) (job : Job) (setup : Setup) (start : Record)
    (done rest : List String) (ds : List Delivery) : Prop where
  split : job.types = done ++ rest
  handed : List.Forall₂ (r.IsHanded job setup) done ds
  writes : (r.outcome sink job).2.writes = ds.map Delivery.write
  taken : TakenInTurn sink start (r.outcome sink job).2 ds
  all : rest = [] → (r.outcome sink job).1 = .ok (setup.report (ds.map Delivery.file))
  failed : ∀ typeName more, rest = typeName :: more → ∃ e,
    (r.outcome sink job).1 = .error e ∧
      r.FailsAt sink job setup (r.outcome sink job).2 typeName e

/-- Where none of the types fails, all of them are done. -/
theorem DoneInTurn.rest_eq_nil {done rest : List String} {ds : List Delivery}
    (h : r.DoneInTurn sink job setup start done rest ds)
    (none : ∀ typeName ∈ rest, ∀ e,
      ¬ r.FailsAt sink job setup (r.outcome sink job).2 typeName e) : rest = [] := by
  cases rest with
  | nil => rfl
  | cons typeName more =>
    obtain ⟨e, -, fails⟩ := h.failed typeName more rfl
    exact absurd fails (none typeName List.mem_cons_self e)

section Alone

variable (settled : Run.outcome [] (job.setup r.host) = (.ok setup, start))

include settled

/-- A job is done whose types have tables, if the sink takes the files. -/
theorem outcome_of_taken (sink : Sink) {ds : List Delivery}
    (deliveries : List.Forall₂ (fun typeName d => setup.delivery r.format typeName = .ok d)
      job.types ds)
    (taken : ∀ d ∈ ds, ∀ record, sink record d.file.path d.text = none) :
    (r.outcome sink job).1 = .ok (setup.report (ds.map Delivery.file)) ∧
      (r.outcome sink job).2.writes = ds.map Delivery.write := by
  have blank : start.writes = [] := by simpa [settled] using writes_setup r job
  obtain ⟨record, made, writes⟩ := outcome_generate_of_taken deliveries taken start
  have ran : r.outcome sink job = (.ok (setup.report (ds.map Delivery.file)), record) :=
    Job.outcome_run_ok_iff.mpr ⟨setup, start, _, by rw [setup_hostInto, settled], made, rfl⟩
  rw [ran]
  exact ⟨rfl, by rw [writes, blank, List.nil_append]⟩

/-- A job fails whose first type has a table, if the sink refuses the file. -/
theorem outcome_of_refused (sink : Sink) {more : List String} (types : job.types = typeName :: more)
    (delivery : setup.delivery r.format typeName = .ok d) {refusal : SystemError}
    (refused : ∀ record, sink record d.file.path d.text = some refusal) :
    (r.outcome sink job).1 = .error (.ofFile d.file.path refusal) := by
  have failed := Setup.outcome_generate_error_iff.mpr ⟨[], typeName, more, [], start, types,
    Setup.outcome_generate_nil, outcome_generateOne_of_refused delivery (refused _)⟩
  have ready : Run.outcome [] (job.setup (r.hostInto sink)) = (.ok setup, start) := by
    rw [setup_hostInto, settled]
  exact congrArg Prod.fst (Job.outcome_run_error_iff.mpr (.inr ⟨setup, start, ready, failed⟩))

theorem isHanded_of_delivery (h : setup.delivery r.format typeName = .ok d) :
    r.IsHanded job setup typeName d := by
  have only : Run.outcome [] ((job.only typeName).setup r.host) = (.ok setup, start) := by
    rw [setup_only (types_ne_nil_of_setup settled), settled]
  obtain ⟨alone, handed⟩ := outcome_of_taken only .takesAll (.cons h .nil) fun _ _ record =>
    Sink.takesAll_apply record _ _
  obtain ⟨table, found, rfl⟩ := Setup.delivery_ok_iff.mp h
  exact {
    alone := alone
    handed := handed
    named := rfl
    path := by simp only [Setup.deliveryOf]
    table := found
    text := rfl }

theorem failsAt_of_noTable (h : setup.delivery r.format typeName = .error e) :
    r.FailsAt sink job setup record typeName e := by
  refine .analysis (Setup.delivery_error_iff.mp h) (congrArg Prod.fst
    (Job.outcome_run_error_iff.mpr (.inr ⟨setup, start, ?_,
      Setup.outcome_generate_error_iff.mpr ⟨[], typeName, [], [], start, rfl,
        Setup.outcome_generate_nil, outcome_generateOne_of_noTable h⟩⟩)))
  rw [setup_hostInto, setup_only (types_ne_nil_of_setup settled), settled]

end Alone

/-! ## Formatters -/

end Rehearsal

/-- A file without what the formatter said. -/
def WrittenFile.unformatted (file : WrittenFile) : WrittenFile := { file with formatted := false }

/-- A report without what the formatter said. -/
def Report.unformatted (report : Report) : Report :=
  { report with files := report.files.map WrittenFile.unformatted }

/-- Two steps give the same, as far as a view shows, and files with the same paths were handed
over. -/
structure Alike {α β : Type} (view : α → β) (x y : Except Failure α × Record) : Prop where
  result : x.1.map view = y.1.map view
  paths : x.2.writes.map Prod.fst = y.2.writes.map Prod.fst

theorem Alike.bind {α β α' β' : Type} {view : α → α'} {view' : β → β'} {s s' : Record}
    {step step' : Run (StateM Record) α} {next next' : α → Run (StateM Record) β}
    (h : Alike view (Run.outcome s step) (Run.outcome s' step'))
    (more : ∀ a a' (t t' : Record), view a = view a' →
      t.writes.map Prod.fst = t'.writes.map Prod.fst →
      Alike view' (Run.outcome t (next a)) (Run.outcome t' (next' a'))) :
    Alike view' (Run.outcome s (step >>= next)) (Run.outcome s' (step' >>= next')) := by
  rw [Run.outcome_bind, Run.outcome_bind]
  obtain ⟨result, paths⟩ := h
  cases first : Run.outcome s step with
  | mk x t =>
    cases second : Run.outcome s' step' with
    | mk x' t' =>
      rw [first, second] at result paths
      cases x with
      | error e =>
        cases x' with
        | error e' => exact ⟨congrArg Except.error (Except.error.inj result), paths⟩
        | ok a' => cases result
      | ok a =>
        cases x' with
        | error e' => cases result
        | ok a' => exact more a a' t t' (Except.ok.inj result) paths

namespace Rehearsal

section Formatters

variable {r : Rehearsal} {job : Job} {setup : Setup} {typeName : String} {typeNames : List String}
  {record record' : Record} (answer : List String → String → Option SystemError)
  (format : String → FormatOutcome)

theorem byPaths_formattedState (r : Rehearsal) (setup : Setup) (d : Delivery) (record : Record)
    (path text : String) :
    Sink.byPaths answer (setup.formattedState (r.hostInto (.byPaths answer)) d record) path text
      = answer (record.writes.map Prod.fst) path := by
  rw [Sink.byPaths, writes_formattedState]

theorem exists_delivery {table : ValueTable}
    (found : setup.package.valueTable typeName setup.options.policy = .ok table)
    (format : String → FormatOutcome) :
    ∃ d, setup.delivery format typeName = .ok d ∧
      d.file.unformatted = ⟨typeName, setup.path typeName, table, false⟩ := by
  refine ⟨_, Setup.delivery_ok_iff.mpr ⟨table, found, rfl⟩, ?_⟩
  simp only [Setup.deliveryOf, WrittenFile.unformatted]

/-- The step for a type depends on the formatter in its text only. -/
theorem alike_generateOne (same : record.writes.map Prod.fst = record'.writes.map Prod.fst) :
    Alike WrittenFile.unformatted
      (Run.outcome record (setup.generateOne (r.hostInto (.byPaths answer)) typeName))
      (Run.outcome record'
        (setup.generateOne ({ r with format := format }.hostInto (.byPaths answer)) typeName)) := by
  cases found : setup.package.valueTable typeName setup.options.policy with
  | error e =>
    rw [outcome_generateOne_of_noTable (Setup.delivery_error_iff.mpr found),
      outcome_generateOne_of_noTable (Setup.delivery_error_iff.mpr found)]
    exact ⟨rfl, same⟩
  | ok table =>
    obtain ⟨d, delivery, file⟩ := exists_delivery found r.format
    obtain ⟨d', delivery', file'⟩ := exists_delivery found format
    have files : d.file.unformatted = d'.file.unformatted := file.trans file'.symm
    have path : d.file.path = d'.file.path := (WrittenFile.mk.inj files).2.1
    cases said : answer (record.writes.map Prod.fst) d.file.path with
    | some refusal =>
      rw [outcome_generateOne_of_refused delivery ((byPaths_formattedState ..).trans said),
        outcome_generateOne_of_refused (r := { r with format := format }) delivery'
          ((byPaths_formattedState ..).trans (same ▸ path ▸ said)), path]
      exact ⟨rfl, by rw [writes_formattedState, writes_formattedState, same]⟩
    | none =>
      rw [outcome_generateOne_of_taken delivery ((byPaths_formattedState ..).trans said),
        outcome_generateOne_of_taken (r := { r with format := format }) delivery'
          ((byPaths_formattedState ..).trans (same ▸ path ▸ said))]
      refine ⟨congrArg Except.ok files, ?_⟩
      simp only [writes_append_written, writes_formattedState, List.map_append, List.map_cons,
        List.map_nil, same, path]

theorem alike_generate (same : record.writes.map Prod.fst = record'.writes.map Prod.fst) :
    Alike (List.map WrittenFile.unformatted)
      (Run.outcome record (setup.generate (r.hostInto (.byPaths answer)) typeNames))
      (Run.outcome record'
        (setup.generate ({ r with format := format }.hostInto (.byPaths answer)) typeNames)) := by
  induction typeNames generalizing record record' with
  | nil => exact ⟨rfl, same⟩
  | cons typeName typeNames ih =>
    exact (alike_generateOne answer format same).bind fun file file' _ _ alike same =>
      (ih same).bind fun files files' _ _ alikes same =>
        ⟨congrArg Except.ok (congrArg₂ List.cons alike alikes), same⟩

/-- The formatter changes nothing but texts, for a sink that looks at paths only. -/
theorem alike_run (r : Rehearsal) (job : Job) :
    Alike Report.unformatted (r.outcome (.byPaths answer) job)
      ({ r with format := format }.outcome (.byPaths answer) job) := by
  unfold outcome
  rw [Job.run_eq_setup, Job.run_eq_setup, setup_hostInto, setup_hostInto]
  have setups : Alike id (Run.outcome [] (job.setup r.host))
      (Run.outcome [] (job.setup { r with format := format }.host)) := by
    have same : r.host.ReadsAs { r with format := format }.host := ⟨rfl, rfl, rfl, rfl⟩
    rw [Job.setup_congr same]
    exact ⟨rfl, rfl⟩
  refine setups.bind fun setup setup' _ _ eq same => ?_
  obtain rfl : setup = setup' := eq
  refine (alike_generate answer format same).bind fun files files' _ _ alike same => ⟨?_, same⟩
  exact congrArg Except.ok (congrArg (Report.mk _ _) alike)

/-- Every sink answers a job as one does that looks at paths only: what a sink refuses ends the job,
so that it is enough to know the number of the file. -/
theorem exists_answer_generate (r : Rehearsal) (sink : Sink) (setup : Setup)
    (typeNames : List String) (record : Record) :
    ∃ answer : List String → String → Option SystemError,
      (∀ paths path, paths.length < record.writes.length → answer paths path = none) ∧
        Run.outcome record (setup.generate (r.hostInto (.byPaths answer)) typeNames)
          = Run.outcome record (setup.generate (r.hostInto sink) typeNames) := by
  induction typeNames generalizing record with
  | nil => exact ⟨fun _ _ => none, fun _ _ _ => rfl, rfl⟩
  | cons typeName typeNames ih =>
    have step : ∀ sink : Sink, setup.generate (r.hostInto sink) (typeName :: typeNames) = do
        let file ← setup.generateOne (r.hostInto sink) typeName
        let files ← setup.generate (r.hostInto sink) typeNames
        return file :: files := fun _ => rfl
    cases delivery : setup.delivery r.format typeName with
    | error e =>
      refine ⟨fun _ _ => none, fun _ _ _ => rfl, ?_⟩
      rw [step, step, Run.outcome_bind, Run.outcome_bind, outcome_generateOne_of_noTable delivery,
        outcome_generateOne_of_noTable delivery]
    | ok d =>
      have number : (record.writes.map Prod.fst).length = record.writes.length := List.length_map ..
      cases said : sink (setup.formattedState (r.hostInto sink) d record) d.file.path d.text with
      | some refusal =>
        refine ⟨fun paths _ => if paths.length = record.writes.length then some refusal else none,
          fun paths _ fewer => if_neg (Nat.ne_of_lt fewer), ?_⟩
        rw [step, step, Run.outcome_bind, Run.outcome_bind,
          outcome_generateOne_of_refused delivery said,
          outcome_generateOne_of_refused delivery
            ((byPaths_formattedState ..).trans (if_pos number))]
        rfl
      | none =>
        obtain ⟨answer, none, more⟩ := ih
          (setup.formattedState (r.hostInto sink) d record ++ [.written d.file.path d.text])
        rw [writes_append_written, writes_formattedState, List.length_append,
          List.length_singleton] at none
        refine ⟨answer, fun paths path fewer => none paths path (by omega), ?_⟩
        rw [step, step, Run.outcome_bind, Run.outcome_bind,
          outcome_generateOne_of_taken delivery said,
          outcome_generateOne_of_taken delivery
            ((byPaths_formattedState ..).trans (none _ _ (by omega)))]
        have state : setup.formattedState (r.hostInto (.byPaths answer)) d record
            = setup.formattedState (r.hostInto sink) d record := rfl
        dsimp only
        rw [state, Run.outcome_bind, Run.outcome_bind, more]

theorem exists_answer (r : Rehearsal) (sink : Sink) (job : Job) :
    ∃ answer, r.outcome (.byPaths answer) job = r.outcome sink job := by
  unfold outcome
  simp only [Job.run_eq_setup, setup_hostInto, Run.outcome_bind _ (job.setup r.host)]
  cases settled : Run.outcome [] (job.setup r.host) with
  | mk x start =>
    cases x with
    | error e => exact ⟨fun _ _ => none, rfl⟩
    | ok setup =>
      obtain ⟨answer, -, same⟩ := r.exists_answer_generate sink setup job.types start
      exact ⟨answer, by dsimp only; rw [Run.outcome_bind, Run.outcome_bind, same]⟩

end Formatters

/-! ## Type by type -/

/-- What a job does when its setup is settled. -/
theorem exists_doneInTurn {r : Rehearsal} {sink : Sink} {job : Job} {setup : Setup}
    {start : Record} (settled : Run.outcome [] (job.setup r.host) = (.ok setup, start)) :
    ∃ done rest ds, r.DoneInTurn sink job setup start done rest ds := by
  have settled' : Run.outcome [] (job.setup (r.hostInto sink)) = (.ok setup, start) := by
    rw [setup_hostInto, settled]
  have blank : start.writes = [] := by simpa [settled] using writes_setup r job
  have handed : ∀ {done ds}, List.Forall₂
      (fun typeName d => setup.delivery r.format typeName = .ok d) done ds →
      List.Forall₂ (r.IsHanded job setup) done ds :=
    fun deliveries => deliveries.imp fun _ _ => isHanded_of_delivery settled
  cases ran : r.outcome sink job with
  | mk result record =>
  cases result with
  | ok report =>
    obtain ⟨setup', start', files, again, made, rfl⟩ := Job.outcome_run_ok_iff.mp ran
    obtain ⟨eq, rfl⟩ := Prod.mk.inj (settled'.symm.trans again)
    obtain rfl := Except.ok.inj eq
    obtain ⟨ds, deliveries, rfl, writes, -, turns⟩ := outcome_generate_ok made
    rw [blank, List.nil_append] at writes
    exact ⟨job.types, [], ds, {
      split := (List.append_nil _).symm
      handed := handed deliveries
      writes := by rw [ran, writes]
      taken := by rw [ran]; exact turns
      all := fun _ => by rw [ran]
      failed := nofun }⟩
  | error e =>
    rcases Job.outcome_run_error_iff.mp ran with failed | ⟨setup', start', again, failed⟩
    · cases settled'.symm.trans failed
    obtain ⟨eq, rfl⟩ := Prod.mk.inj (settled'.symm.trans again)
    obtain rfl := Except.ok.inj eq
    obtain ⟨done, typeName, more, files, middle, split, made, failed⟩ :=
      Setup.outcome_generate_error_iff.mp failed
    obtain ⟨ds, deliveries, -, writes, -, turns⟩ := outcome_generate_ok made
    rw [blank, List.nil_append] at writes
    -- what is taken down at the failing type is a warning at most
    obtain ⟨record_writes, ⟨later, follows⟩, fails⟩ : record.writes = middle.writes ∧
        middle <+: record ∧ r.FailsAt sink job setup record typeName e := by
      rcases (Setup.outcome_generateOne_error_iff (r.format_hostInto sink)).mp failed with
        ⟨noTable, rfl⟩ | ⟨d, refusal, delivery, answered, rfl⟩
      · exact ⟨rfl, List.prefix_rfl, failsAt_of_noTable settled noTable⟩
      · obtain ⟨refused, rfl⟩ := answer_write_error_iff.mp answered
        exact ⟨writes_formattedState .., prefix_formattedState ..,
          .write (isHanded_of_delivery settled delivery) refused⟩
    refine ⟨done, typeName :: more, ds, {
      split := split
      handed := handed deliveries
      writes := by rw [ran, record_writes, writes]
      taken := ?_
      all := nofun
      failed := ?_ }⟩
    · intro before d after eq
      obtain ⟨earlier, rest, here, more⟩ := turns before d after eq
      exact ⟨earlier, rest ++ later, by rw [ran, ← follows, here]; simp, more⟩
    · rintro _ _ ⟨rfl, rfl⟩
      rw [ran]
      exact ⟨e, rfl, fails⟩

end Rehearsal

/-- **A job is done type by type.**  If it fails before the first type, nothing is handed over.  Or
else it hands over, in the order of the types, what the jobs for the first of them alone hand over
with the same command line in their files; and either these are all types, and the report lists their
files, or the next type fails, and the job as it does.  What a formatter answers changes nothing but
texts for a sink that does not look at them, and every sink answers the job as such a sink does. -/
theorem Job.run_type_by_type (r : Rehearsal) (sink : Sink) (job : Job) :
    ((∃ e start, Run.outcome [] (job.setup r.host) = (.error e, start) ∧
        r.outcome sink job = (.error e, start) ∧ Record.writes start = []) ∨
      ∃ setup start, Run.outcome [] (job.setup r.host) = (.ok setup, start) ∧
        ∃ done rest ds, r.DoneInTurn sink job setup start done rest ds ∧
          ((∀ typeName ∈ rest, ∀ e,
            ¬ r.FailsAt sink job setup (r.outcome sink job).2 typeName e) → done = job.types)) ∧
      (∀ answer format, Alike Report.unformatted (r.outcome (.byPaths answer) job)
        ({ r with format := format }.outcome (.byPaths answer) job)) ∧
      ∃ answer, r.outcome (.byPaths answer) job = r.outcome sink job := by
  refine ⟨?_, fun answer format => Rehearsal.alike_run answer format r job,
    r.exists_answer sink job⟩
  cases settled : Run.outcome [] (job.setup r.host) with
  | mk x start =>
    cases x with
    | error e =>
      have blank : Record.writes start = [] := by
        simpa [settled] using Rehearsal.writes_setup r job
      refine .inl ⟨e, start, rfl, Job.outcome_run_error_iff.mpr (.inl ?_), blank⟩
      rw [Rehearsal.setup_hostInto, settled]
    | ok setup =>
      obtain ⟨done, rest, ds, h⟩ := Rehearsal.exists_doneInTurn settled
      refine .inr ⟨setup, start, rfl, done, rest, ds, h, fun none => ?_⟩
      rw [h.split, h.rest_eq_nil none, List.append_nil]

/-! ## A sink that looks at sizes -/

/-- A rehearsal on one source file, which declares two types. -/
def tonesRehearsal (format : String → FormatOutcome) : Rehearsal where
  hasPath _ := false
  list _ := .ok [⟨"tones.go", .file⟩]
  read _ := .error .notFound
  readSource _ := .ok
    "package tones\ntype Color int\nconst Red Color = 1\ntype Tone int\nconst Dark Tone = 2\n"
  refusal? _ := none
  format := format

/-- The package of `tonesRehearsal`. -/
def tonesPackage : Package where
  name := "tones"
  dir := "tones"
  files := ["tones/tones.go"]
  entries := [⟨"Red", "tones/tones.go", ⟨3, 7⟩, some (.own "Color"), .integer "1", 0, 0⟩,
    ⟨"Dark", "tones/tones.go", ⟨5, 7⟩, some (.own "Tone"), .integer "2", 0, 1⟩]
  types := [⟨⟨"Color", ⟨2, 6⟩⟩, false, .named (.own "int")⟩,
    ⟨⟨"Tone", ⟨4, 6⟩⟩, false, .named (.own "int")⟩]

/-- A job for types of `tonesPackage` that gives no command line. -/
def tonesJob (types : List String) : Job := ⟨"tones", types, Settings.empty, ""⟩

/-- The setup of `tonesJob`. -/
def tonesSetup (types : List String) : Setup :=
  ⟨tonesPackage, Settings.defaults, (tonesJob types).commandText⟩

theorem outcome_tonesSetup (format : String → FormatOutcome) {types : List String}
    (asked : types ≠ []) :
    Run.outcome [] ((tonesJob types).setup (tonesRehearsal format).host) =
      (.ok (tonesSetup types), [.sourceRead "tones/tones.go"]) := by
  have same : (tonesRehearsal format).host.ReadsAs (tonesRehearsal fun _ => .unavailable).host :=
    ⟨rfl, rfl, rfl, rfl⟩
  have settings : Run.outcome []
      (Settings.load (tonesRehearsal fun _ => .unavailable).host "tones") = (.ok none, []) := rfl
  have loaded : Run.outcome []
      (Package.load (tonesRehearsal fun _ => .unavailable).host "tones") =
        (.ok tonesPackage, [.sourceRead "tones/tones.go"]) := by with_unfolding_all rfl
  have dir : (tonesJob types).dir = "tones" := rfl
  rw [Job.setup_congr same, Job.setup, if_neg (by simpa [tonesJob] using asked), dir,
    Run.outcome_bind, settings]
  dsimp only
  rw [Run.outcome_bind, loaded]
  rfl

/-- The table of the type `Color` of `tonesPackage`. -/
def redTable : ValueTable := ⟨"Color", .int, [⟨"Red", 1, []⟩]⟩

/-- The table of the type `Tone` of `tonesPackage`. -/
def darkTable : ValueTable := ⟨"Tone", .int, [⟨"Dark", 2, []⟩]⟩

theorem valueTable_color : tonesPackage.valueTable "Color" .lexical = .ok redTable := by cbv

theorem valueTable_tone : tonesPackage.valueTable "Tone" .lexical = .ok darkTable := by cbv

theorem delivery_tonesSetup {typeName : String} {table : ValueTable}
    (found : tonesPackage.valueTable typeName .lexical = .ok table) (format : String → FormatOutcome)
    (types : List String) :
    (tonesSetup types).delivery format typeName =
      .ok ((tonesSetup types).deliveryOf format typeName table) :=
  Setup.delivery_ok_iff.mpr ⟨table, found, rfl⟩

theorem path_color (format : String → FormatOutcome) (types : List String) :
    ((tonesSetup types).deliveryOf format "Color" redTable).file.path
      = "tones/color_yamlenums.go" := by
  have path : Path.join "tones" (outputName "" "Color" "_yamlenums")
      = "tones/color_yamlenums.go" := by decide +kernel
  simp only [Setup.deliveryOf]
  exact path

/-- There is no room for a file. -/
def noSpace : SystemError := .other "No space left on device (os error 28)"

/-- The sink with room for files of the given size. -/
def Sink.roomFor (size : Nat) : Sink := fun _ _ text =>
  if text.utf8ByteSize ≤ size then none else some noSpace

theorem text_color_unavailable (types : List String) :
    ((tonesSetup types).deliveryOf (tonesRehearsal fun _ => .unavailable).format "Color"
      redTable).text =
      (tonesSetup types).rendered redTable := by
  have asked : (tonesSetup types).options.format = true := rfl
  rw [Setup.deliveryOf, finished, if_pos asked]
  rfl

theorem text_color_formatted (types : List String) (text : String) :
    ((tonesSetup types).deliveryOf (tonesRehearsal fun _ => .formatted text).format "Color"
      redTable).text = text := by
  have asked : (tonesSetup types).options.format = true := rfl
  rw [Setup.deliveryOf, finished, if_pos asked]
  rfl

open Rehearsal in
/-- What a formatter answers can decide whether a job succeeds, if the sink looks at the texts; and a
job without a command line of its own names all its types in each file, so that it does not hand over
what a job for one type alone does that has no command line either. -/
theorem Job.formatter_and_types_matter :
    ((tonesRehearsal fun _ => .unavailable).outcome (.roomFor 100) (tonesJob ["Color"])).1 =
        .error (.ofFile "tones/color_yamlenums.go" noSpace) ∧
      (∃ report, ((tonesRehearsal fun _ => .formatted "package tones\n").outcome (.roomFor 100)
        (tonesJob ["Color"])).1 = .ok report) ∧
      ∃ text text' more,
        ((tonesRehearsal fun _ => .unavailable).outcome .takesAll
          (tonesJob ["Color"])).2.writes = [("tones/color_yamlenums.go", text)] ∧
        ((tonesRehearsal fun _ => .unavailable).outcome .takesAll
          (tonesJob ["Color", "Tone"])).2.writes = ("tones/color_yamlenums.go", text') :: more ∧
        text ≠ text' := by
  refine ⟨?_, ?_, ?_⟩
  · have long : 100 < ((tonesSetup ["Color"]).rendered redTable).utf8ByteSize := by decide +kernel
    rw [← path_color (tonesRehearsal fun _ => .unavailable).format ["Color"]]
    refine outcome_of_refused (outcome_tonesSetup _ (by decide)) (.roomFor 100) rfl
      (delivery_tonesSetup valueTable_color _ ["Color"]) fun record => ?_
    rw [Sink.roomFor, text_color_unavailable, if_neg (Nat.not_le.mpr long)]
  · have fits : "package tones\n".utf8ByteSize ≤ 100 := by decide +kernel
    refine ⟨_, (outcome_of_taken (outcome_tonesSetup _ (by decide)) (.roomFor 100)
      (.cons (delivery_tonesSetup valueTable_color _ ["Color"]) .nil) fun d h record => ?_).1⟩
    rw [List.mem_singleton.mp h, Sink.roomFor, text_color_formatted, if_pos fits]
  · have differ : (tonesSetup ["Color"]).rendered redTable ≠
        (tonesSetup ["Color", "Tone"]).rendered redTable := by decide +kernel
    have red := fun types => delivery_tonesSetup valueTable_color (fun _ => .unavailable) types
    have dark := delivery_tonesSetup valueTable_tone (fun _ => .unavailable) ["Color", "Tone"]
    have one := outcome_of_taken (outcome_tonesSetup (fun _ => .unavailable) (by decide)) .takesAll
      (.cons (red ["Color"]) .nil) fun _ _ record => Sink.takesAll_apply record _ _
    have two := outcome_of_taken (outcome_tonesSetup (fun _ => .unavailable) (by decide)) .takesAll
      (.cons (red ["Color", "Tone"]) (.cons dark .nil)) fun _ _ record =>
        Sink.takesAll_apply record _ _
    simp only [List.map_cons, List.map_nil, Delivery.write, path_color] at one two
    exact ⟨_, _, _, one.2, two.2, differ⟩

end EnumCodec
