import Pinout.Command.Run
import Pinout.Proofs.WrittenFiles
import Pinout.Proofs.WrittenLines

/-!
The courses that a run of the command can take. It takes in its pin table, if it needs one, and then
its input; lacking either it ends. Otherwise there is a report, which depends on nothing but what
has been taken in, and the rows of the report go to the output, if that can be opened. How much of
it is told has no part in the course.
-/

namespace Pinout

namespace World

/-- Notes have been said, as far as they are shown. -/
def saying (w : World) (settings : Settings) (notes : List Note) : World :=
  { w with stderr := w.stderr ++
      Text.joinLines ((notes.filter (Note.isShown settings.shown)).map
        (Note.line settings.places)) }

theorem saying_nil (w : World) (settings : Settings) : w.saying settings [] = w := by
  simp [saying, Text.joinLines]

theorem saying_saying (w : World) (settings : Settings) (notes more : List Note) :
    (w.saying settings notes).saying settings more = w.saying settings (notes ++ more) := by
  simp [saying, Text.joinLines_append, String.append_assoc]

/-- In a world with these files and this input, `x` comes to `a` and does nothing but say what is
shown of the notes. -/
def Tells {α : Type} (files : FileTree) (stdin : Octets) (x : Settings → StateM World α)
    (notes : List Note) (a : α) : Prop :=
  ∀ settings w, w.files = files → w.stdin = stdin →
    (x settings).run w = (a, w.saying settings notes)

section Tells
variable {files : FileTree} {stdin : Octets} {α β : Type}

theorem Tells.bind {x : Settings → StateM World α} {f : α → Settings → StateM World β}
    {notes more : List Note} {a : α} {b : β} (hx : Tells files stdin x notes a)
    (hf : Tells files stdin (f a) more b) :
    Tells files stdin (fun settings => x settings >>= fun a => f a settings) (notes ++ more) b := by
  intro settings w hfiles hstdin
  have hrest := hf settings (w.saying settings notes) hfiles hstdin
  rw [saying_saying] at hrest
  rw [run_bind_of_run (hx settings w hfiles hstdin), hrest]

theorem Tells.of_silent {x : StateM World α} {a : α}
    (h : ∀ w : World, w.files = files → w.stdin = stdin → x.run w = (a, w)) :
    Tells files stdin (fun _ => x) [] a := by
  intro settings w hfiles hstdin
  rw [saying_nil, h w hfiles hstdin]

theorem Tells.pure (a : α) : Tells files stdin (fun _ => Pure.pure a) [] a :=
  .of_silent fun _ _ _ => rfl

theorem Tells.map {x : Settings → StateM World α} {notes : List Note} {a : α}
    (hx : Tells files stdin x notes a) (f : α → β) :
    Tells files stdin (fun settings => x settings >>= fun a => Pure.pure (f a)) notes (f a) := by
  have h := hx.bind (f := fun a _ => Pure.pure (f a)) (.pure (f a))
  rwa [List.append_nil] at h

theorem run_forM_say (texts : List String) (w : World) :
    (texts.forM say).run w = ((), { w with stderr := w.stderr ++ Text.joinLines texts }) := by
  induction texts generalizing w with
  | nil =>
    rw [Text.joinLines, String.append_empty]
    rfl
  | cons text texts ih =>
    rw [List.forM, run_bind_of_run (run_say w text), ih]
    simp only [Text.joinLines, String.append_assoc]

theorem exists_tells_heed (files : FileTree) (stdin : Octets) (x : Told α) :
    ∃ notes, Tells files stdin (fun settings => Command.heed surroundings settings x) notes
      x.result := by
  obtain ⟨notes, hx⟩ := x.exists_notes
  refine ⟨notes, fun settings w _ _ => ?_⟩
  simp only [Command.heed, hx]
  exact run_bind_of_run (run_forM_say _ w) _

end Tells

end World

/-- The pin table that is needed for a task. -/
def Task.pins? : Task → Option String
  | expand => none
  | replace pins | build pins => some pins

theorem Stream.octetsOf_eq (lines : List String) :
    octetsOf lines = Octets.ofText (Text.joinLines lines) := by
  rw [octetsOf, Sink.unbounded, emit_unbounded, List.nil_append]

namespace Command

open World (Tells surroundings)

section Loading
variable (reader : PinTable.Reader) (files : FileTree) (stdin : Octets)

theorem tells_loadTelling (pins : String) :
    Tells files stdin (fun _ => PinTable.loadTelling reader surroundings.openRead pins) []
      (PinTable.loadTelling (m := Id) reader files.openRead pins).run := by
  apply Tells.of_silent
  intro w hfiles _
  subst hfiles
  unfold PinTable.loadTelling PinTable.openWithTelling
  dsimp only
  split <;> rfl

theorem exists_tells_loadTable (pins : String) :
    ∃ notes, Tells files stdin (fun settings => loadTable surroundings reader settings pins) notes
      (PinTable.load reader files.openRead pins) := by
  obtain ⟨notes, h⟩ := World.exists_tells_heed files stdin
    (PinTable.loadTelling (m := Id) reader files.openRead pins).run
  exact ⟨_, (tells_loadTelling reader files stdin pins).bind h⟩

end Loading

/-- The octets of the input, read to their end. -/
inductive Receives (files : FileTree) (stdin : Octets) : Option String → Octets → Prop where
  | stdin : Receives files stdin none stdin
  | file {path : String} {content : Octets} : files.openRead path = .ok (.file content) →
      Receives files stdin (some path) content

def TableReady (reader : PinTable.Reader) (files : FileTree) (task : Task) : Prop :=
  ∀ pins, task.pins? = some pins → ∃ table, PinTable.load reader files.openRead pins = .ok table

/-- There is nothing to work on, and the run says why. -/
inductive Lacks (reader : PinTable.Reader) (i : Invocation) (files : FileTree) (stdin : Octets) :
    String → Prop where
  | table {pins : String} {e : TableError} : i.task.pins? = some pins →
      PinTable.load reader files.openRead pins = .error e →
        Lacks reader i files stdin e.message
  | cantOpen {path : String} {cause : IoError} : TableReady reader files i.task →
      i.input = some path → files.openRead path = .error cause →
        Lacks reader i files stdin (StreamError.cantOpen path cause).message
  | cantRead {path : String} : TableReady reader files i.task → i.input = some path →
      files.openRead path = .ok .directory →
        Lacks reader i files stdin (StreamError.read .isDirectory).message
  | notText {content : Octets} : TableReady reader files i.task →
      Receives files stdin i.input content → content.text? = none →
        Lacks reader i files stdin (StreamError.read .invalidText).message

/-- The report on a text, its errors as they are told. -/
inductive Yields (reader : PinTable.Reader) (files : FileTree) (policy : Policy) (text : String) :
    Task → Report String → Prop where
  | expand : Yields reader files policy text .expand
      ((Pinfile.expand policy (Pinfile.body text)).mapErrors LineError.message)
  | replace {pins : String} {table : PinTable} :
      PinTable.load reader files.openRead pins = .ok table →
        Yields reader files policy text (.replace pins)
          ((Pinfile.locate table policy (Pinfile.trimmedLines text)).mapErrors
            ReplaceError.message)
  | build {pins : String} {table : PinTable} :
      PinTable.load reader files.openRead pins = .ok table →
        Yields reader files policy text (.build pins)
          ((Pinfile.build table policy text).mapErrors BuildError.message)

/-- The report on what the files held and the standard input brings. -/
def Reports (reader : PinTable.Reader) (i : Invocation) (files : FileTree) (stdin : Octets)
    (r : Report String) : Prop :=
  ∃ content text, Receives files stdin i.input content ∧ content.text? = some text ∧
    Yields reader files i.policy text i.task r

/-- The rows of a report as they are written, each with a line feed after it. -/
def written (r : Report String) : Octets := Octets.ofText (Text.joinLines r.lines)

variable {reader : PinTable.Reader} {i : Invocation} {files : FileTree} {stdin : Octets}

theorem textOf_cases (content : Octets) :
    (∃ text, content.text? = some text ∧ Stream.textOf content = .ok text) ∨
    (content.text? = none ∧ Stream.textOf content = .error (.read .invalidText)) := by
  cases h : content.text? with
  | some text => exact Or.inl ⟨text, rfl, by rw [Stream.textOf, h]⟩
  | none => exact Or.inr ⟨rfl, by rw [Stream.textOf, h]⟩

theorem tells_input_stdin :
    Tells files stdin (fun _ => Stream.input surroundings none) [] (Stream.textOf stdin) := by
  apply Tells.of_silent
  rintro w _ rfl
  rfl

theorem tells_input_path (path : String) :
    Tells files stdin (fun _ => Stream.input surroundings (some path)) []
      (Stream.textOfOpened path (files.openRead path)) := by
  apply Tells.of_silent
  rintro w rfl _
  rfl

theorem input_cases (stdin : Octets) (ht : TableReady reader files i.task) :
    (∃ content text, Receives files stdin i.input content ∧ content.text? = some text ∧
      Tells files stdin (fun _ => Stream.input surroundings i.input) [] (.ok text)) ∨
    ∃ e, Tells files stdin (fun _ => Stream.input surroundings i.input) [] (.error e) ∧
      Lacks reader i files stdin e.message := by
  -- whatever was received is a text or not
  have received : ∀ content, Receives files stdin i.input content →
      Tells files stdin (fun _ => Stream.input surroundings i.input) [] (Stream.textOf content) →
        (∃ content text, Receives files stdin i.input content ∧ content.text? = some text ∧
          Tells files stdin (fun _ => Stream.input surroundings i.input) [] (.ok text)) ∨
        ∃ e, Tells files stdin (fun _ => Stream.input surroundings i.input) [] (.error e) ∧
          Lacks reader i files stdin e.message := by
    intro content hr hi
    rcases textOf_cases content with ⟨text, htext, hok⟩ | ⟨hnone, herr⟩
    · exact Or.inl ⟨content, text, hr, htext, hok ▸ hi⟩
    · exact Or.inr ⟨_, herr ▸ hi, .notText ht hr hnone⟩
  cases hi : i.input with
  | none =>
    rw [hi] at received
    exact received stdin .stdin tells_input_stdin
  | some path =>
    rw [hi] at received
    have htells : Tells files stdin (fun _ => Stream.input surroundings (some path)) []
        (Stream.textOfOpened path (files.openRead path)) := tells_input_path path
    cases ho : files.openRead path with
    | error cause =>
      rw [ho] at htells
      exact Or.inr ⟨.cantOpen path cause, htells, .cantOpen ht hi ho⟩
    | ok entry =>
      rw [ho] at htells
      cases entry with
      | directory => exact Or.inr ⟨.read .isDirectory, htells, .cantRead ht hi ho⟩
      | file content => exact received content (.file ho) htells

theorem tableReady_of_load {task : Task} {pins : String} {table : PinTable}
    (hp : task.pins? = some pins) (hl : PinTable.load reader files.openRead pins = .ok table) :
    TableReady reader files task := by
  intro other ho
  rw [hp] at ho
  cases ho
  exact ⟨table, hl⟩

/-- A job is ready and comes to the report of its task, or there is no pin table for it. -/
inductive JobOf (reader : PinTable.Reader) (files : FileTree) (task : Task) :
    Except TableError Job → Prop where
  | lacking {pins : String} {e : TableError} : task.pins? = some pins →
      PinTable.load reader files.openRead pins = .error e → JobOf reader files task (.error e)
  | ready {job : Job} : TableReady reader files task →
      (∀ policy text, Yields reader files policy text task (job.report policy text)) →
        JobOf reader files task (.ok job)

theorem jobOf_of_load {task : Task} {pins : String} (make : PinTable → Job)
    (hp : task.pins? = some pins)
    (hy : ∀ table, PinTable.load reader files.openRead pins = .ok table →
      ∀ policy text, Yields reader files policy text task ((make table).report policy text)) :
    JobOf reader files task ((PinTable.load reader files.openRead pins).map make) := by
  cases hl : PinTable.load reader files.openRead pins with
  | error e => exact .lacking hp hl
  | ok table => exact .ready (tableReady_of_load hp hl) (hy table hl)

theorem exists_tells_jobOf (reader : PinTable.Reader) (files : FileTree) (stdin : Octets)
    (task : Task) :
    ∃ notes job, JobOf reader files task job ∧
      Tells files stdin (fun settings => jobOf surroundings reader settings task) notes job := by
  cases task with
  | expand =>
    refine ⟨[], .ok .expand, .ready nofun fun policy text => ?_, .pure _⟩
    rw [Job.report_expand]
    exact .expand
  | replace pins =>
    obtain ⟨notes, h⟩ := exists_tells_loadTable reader files stdin pins
    refine ⟨notes, _, jobOf_of_load .replace rfl ?_, h.map (Except.map Job.replace)⟩
    intro table hl policy text
    rw [Job.report_replace]
    exact .replace hl
  | build pins =>
    obtain ⟨notes, h⟩ := exists_tells_loadTable reader files stdin pins
    refine ⟨notes, _, jobOf_of_load .build rfl ?_, h.map (Except.map Job.build)⟩
    intro table hl policy text
    rw [Job.report_build]
    exact .build hl

/-- All that comes before the output ends for lack of something or in a report. -/
theorem work_cases (reader : PinTable.Reader) (i : Invocation) (files : FileTree)
    (stdin : Octets) :
    ∃ notes,
      (∃ message, Lacks reader i files stdin message ∧
        Tells files stdin (fun settings => work surroundings reader settings i) notes
          (.error message)) ∨
      ∃ r, Reports reader i files stdin r ∧
        Tells files stdin (fun settings => work surroundings reader settings i) notes (.ok r) := by
  obtain ⟨notes, _, hjob, hj⟩ := exists_tells_jobOf reader files stdin i.task
  cases hjob with
  | @lacking pins e hp hl => exact ⟨_, Or.inl ⟨e.message, .table hp hl, hj.bind (.pure _)⟩⟩
  | @ready job ht hy =>
    rcases input_cases stdin ht with ⟨content, text, hr, htext, hi⟩ | ⟨e, hi, hlacks⟩
    · obtain ⟨more, h⟩ := World.exists_tells_heed files stdin (job.reportTelling i.policy text)
      exact ⟨_, Or.inr ⟨_, ⟨content, text, hr, htext, hy i.policy text⟩,
        hj.bind (hi.bind (h.map Except.ok))⟩⟩
    · exact ⟨_, Or.inl ⟨e.message, hlacks, hj.bind (hi.bind (.pure _))⟩⟩

theorem Receives.openRead_eq {path : String} {content : Octets}
    (h : Receives files stdin (some path) content) :
    files.openRead path = .ok (.file content) := by
  cases h with
  | file ho => exact ho

theorem Receives.unique {input : Option String} {content content' : Octets}
    (h : Receives files stdin input content) (h' : Receives files stdin input content') :
    content = content' := by
  cases h with
  | stdin =>
    cases h'
    rfl
  | file ho =>
    cases ho.symm.trans h'.openRead_eq
    rfl

theorem Lacks.not_reports {message : String} {r : Report String}
    (h : Lacks reader i files stdin message) : ¬ Reports reader i files stdin r := by
  rintro ⟨content, text, hr, htext, hy⟩
  cases h with
  | @table pins e hp hl =>
    generalize i.task = task at hp hy
    cases hy with
    | expand => cases hp
    | replace hl' =>
      cases hp
      cases hl.symm.trans hl'
    | build hl' =>
      cases hp
      cases hl.symm.trans hl'
  | cantOpen _ hi ho =>
    rw [hi] at hr
    cases ho.symm.trans hr.openRead_eq
  | cantRead _ hi ho =>
    rw [hi] at hr
    cases ho.symm.trans hr.openRead_eq
  | notText _ hr' hnone =>
    rw [hr'.unique hr, htext] at hnone
    cases hnone

section Deliver
variable (r : Report String) (w : World)

theorem run_deliver_shown : (deliver surroundings none r).run w =
    (.ok (), { w with stdout := w.stdout ++ written r }) := by
  rw [written, ← Stream.octetsOf_eq]
  rfl

theorem run_deliver_refused {path : String} {cause : IoError}
    (h : w.files.openWrite path = .error cause) :
    (deliver surroundings (some path) r).run w = (.error (.cantOpen path cause), w) := by
  have hcreate : (surroundings.create path).run w = (.error cause, w) := World.run_create_error h
  simp only [deliver, Stream.openOutput, StateT.run_bind, hcreate]
  rfl

theorem run_deliver_stored {path : String} {place : List String}
    (h : w.files.openWrite path = .ok place) :
    (deliver surroundings (some path) r).run w =
      (.ok (), { w with files := w.files.write place (written r) }) := by
  have hcreate : (surroundings.create path).run w =
      (.ok place, { w with files := w.files.write place [] }) := World.run_create_ok h
  have hne := FileTree.ne_nil_of_openWrite h
  have happend := FileTree.append_write (t := w.files) [] (written r) hne
  rw [List.nil_append, written, ← Stream.octetsOf_eq] at happend
  simp only [deliver, Stream.openOutput, StateT.run_bind, hcreate]
  rw [written, ← Stream.octetsOf_eq, ← happend]
  rfl

end Deliver

/-- What a run leaves behind, whatever the settings are. -/
structure Deed where
  notes : List Note
  failure : Option String
  stdout : Octets
  files : FileTree

/-- The notes that are shown, a line each, and the final message. -/
def messages (settings : Settings) (notes : List Note) (failure : Option String) : String :=
  Text.joinLines ((notes.filter (Note.isShown settings.shown)).map (Note.line settings.places)) ++
    Text.joinLines failure.toList

def Deed.outcome (d : Deed) (settings : Settings) : Outcome where
  status := if d.failure.isSome then 1 else 0
  stdout := d.stdout
  stderr := messages settings d.notes d.failure
  files := d.files

theorem run_conclude (failure : Option String) (w : World) :
    (conclude surroundings failure).run w = (if failure.isSome then 1 else 0,
      { w with stderr := w.stderr ++ Text.joinLines failure.toList }) := by
  cases failure with
  | none =>
    rw [Option.toList_none, Text.joinLines, String.append_empty]
    rfl
  | some message =>
    have hsay : (surroundings.say message).run w = _ := World.run_say w message
    rw [conclude, World.run_bind_of_run hsay, Option.toList_some, Text.joinLines, Text.joinLines,
      String.append_empty, String.append_assoc]
    rfl

theorem outcome_of_finish {args : List String} (h : Arguments.read args = .perform i)
    {notes : List Note} {result : Except String (Report String)} {failure : Option String}
    {stdout : Octets} {files' : FileTree}
    (hw : Tells files stdin (fun settings => work surroundings reader settings i) notes result)
    (hf : ∀ stderr, (finish surroundings i.output result).run ⟨files, stdin, [], stderr⟩ =
      (failure, ⟨files', stdin, stdout, stderr⟩)) (settings : Settings) :
    outcome reader settings args files stdin =
      Deed.outcome ⟨notes, failure, stdout, files'⟩ settings := by
  have hwork := hw settings (.ofFiles files stdin) rfl rfl
  -- notes have been said by now, so `hf` must not depend on what stands in `stderr`
  have hfinish : (finish surroundings i.output result).run
      ((World.ofFiles files stdin).saying settings notes) = (failure, ⟨files', stdin, stdout, _⟩) :=
    hf _
  simp only [outcome, run, h, perform]
  rw [World.run_bind_of_run hwork, World.run_bind_of_run hfinish, run_conclude]
  simp [Outcome.ofEnd, Deed.outcome, messages, World.ofFiles]

/-- Every course that a run can take, and what it leaves behind apart from its notes. -/
inductive Course (reader : PinTable.Reader) (i : Invocation) (files : FileTree) (stdin : Octets)
    (notes : List Note) : Deed → Prop where
  | lacking {message : String} : Lacks reader i files stdin message →
      Course reader i files stdin notes ⟨notes, some message, [], files⟩
  | shown {r : Report String} : Reports reader i files stdin r → i.output = none →
      Course reader i files stdin notes ⟨notes, failure? r, written r, files⟩
  | refused {r : Report String} {path : String} {cause : IoError} :
      Reports reader i files stdin r → i.output = some path →
        files.openWrite path = .error cause → Course reader i files stdin notes
          ⟨notes, some (StreamError.cantOpen path cause).message, [], files⟩
  | stored {r : Report String} {path : String} {place : List String} :
      Reports reader i files stdin r → i.output = some path →
        files.openWrite path = .ok place → Course reader i files stdin notes
          ⟨notes, failure? r, [], files.write place (written r)⟩

/-- What the course of a run leaves behind shows in its outcome, whatever the settings are. -/
theorem exists_course {args : List String} (h : Arguments.read args = .perform i)
    (reader : PinTable.Reader) (files : FileTree) (stdin : Octets) :
    ∃ notes d, Course reader i files stdin notes d ∧
      ∀ settings, outcome reader settings args files stdin = d.outcome settings := by
  obtain ⟨notes, ⟨message, hlacks, hw⟩ | ⟨r, hr, hw⟩⟩ := work_cases reader i files stdin
  · exact ⟨notes, _, .lacking hlacks, outcome_of_finish h hw fun _ => rfl⟩
  · cases ho : i.output with
    | none =>
      refine ⟨notes, _, .shown hr ho, outcome_of_finish h hw fun stderr => ?_⟩
      rw [ho, finish, World.run_bind_of_run (run_deliver_shown r _)]
      rfl
    | some path =>
      cases hp : files.openWrite path with
      | error cause =>
        refine ⟨notes, _, .refused hr ho hp, outcome_of_finish h hw fun stderr => ?_⟩
        have hdeliver := run_deliver_refused r ⟨files, stdin, [], stderr⟩ hp
        rw [ho, finish, World.run_bind_of_run hdeliver]
        rfl
      | ok place =>
        refine ⟨notes, _, .stored hr ho hp, outcome_of_finish h hw fun stderr => ?_⟩
        have hdeliver := run_deliver_stored r ⟨files, stdin, [], stderr⟩ hp
        rw [ho, finish, World.run_bind_of_run hdeliver]
        rfl

end Command

end Pinout
