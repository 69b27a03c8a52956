import Pinout.Proofs.CommandCourse

/-!
Runs in place. A run may have its input or its pin table for its output, under whichever path, as
its report is made of what these held before; and a run that lacks one of them leaves all as it was.
-/

namespace Pinout.Command

/-- A run has failed and has left nothing behind but its message. -/
structure LeavesNothing (files : FileTree) (o : Outcome) : Prop where
  status_eq : o.status = 1
  stdout_eq : o.stdout = []
  files_eq : o.files = files

def statusOf (r : Report String) : Nat := if r.isClean then 0 else 1

/-- The rows of a report, be it clean or not, have gone to the output and nowhere else. -/
structure Delivers (files : FileTree) (output : Option String) (r : Report String)
    (o : Outcome) : Prop where
  shown : output = none → o.status = statusOf r ∧ o.stdout = written r ∧ o.files = files
  stored : ∀ path place, output = some path → files.openWrite path = .ok place →
    o.status = statusOf r ∧ o.stdout = [] ∧
      o.files.openRead path = .ok (.file (written r)) ∧
      o.files.find? place = some (.file (written r)) ∧
      ∀ other, other ≠ place → o.files.find? other = files.find? other
  refused : ∀ path cause, output = some path → files.openWrite path = .error cause →
    LeavesNothing files o

variable {reader : PinTable.Reader} {i : Invocation} {files : FileTree} {stdin : Octets}
  {notes : List Note} {d : Deed}

theorem status_outcome (notes : List Note) (r : Report String) (stdout : Octets)
    (files : FileTree) (settings : Settings) :
    (Deed.outcome ⟨notes, failure? r, stdout, files⟩ settings).status = statusOf r := by
  unfold Deed.outcome failure? statusOf
  cases r.isClean <;> rfl

theorem Course.leavesNothing {message : String} (h : Course reader i files stdin notes d)
    (hl : Lacks reader i files stdin message) (settings : Settings) :
    LeavesNothing files (d.outcome settings) := by
  cases h with
  | lacking _ => exact ⟨rfl, rfl, rfl⟩
  | shown hr _ => exact absurd hr hl.not_reports
  | refused hr _ _ => exact absurd hr hl.not_reports
  | stored hr _ _ => exact absurd hr hl.not_reports

theorem Course.delivers (h : Course reader i files stdin notes d)
    (hl : ∀ message, ¬ Lacks reader i files stdin message) (settings : Settings) :
    ∃ r, Reports reader i files stdin r ∧ Delivers files i.output r (d.outcome settings) := by
  cases h with
  | lacking hlacks => exact absurd hlacks (hl _)
  | @shown r hr ho =>
    refine ⟨r, hr, fun _ => ⟨status_outcome _ _ _ _ _, rfl, rfl⟩, ?_, ?_⟩
    · intro path place hsome
      cases ho.symm.trans hsome
    · intro path cause hsome
      cases ho.symm.trans hsome
  | @refused r path cause hr ho hw =>
    refine ⟨r, hr, ?_, ?_, fun _ _ _ _ => ⟨rfl, rfl, rfl⟩⟩
    · intro hnone
      cases ho.symm.trans hnone
    · intro other place hsome hok
      cases ho.symm.trans hsome
      cases hw.symm.trans hok
  | @stored r path place hr ho hw =>
    refine ⟨r, hr, ?_, ?_, ?_⟩
    · intro hnone
      cases ho.symm.trans hnone
    · intro other place' hsome hok
      cases ho.symm.trans hsome
      cases hw.symm.trans hok
      have hne := FileTree.ne_nil_of_openWrite hw
      exact ⟨status_outcome _ _ _ _ _, rfl, FileTree.openRead_write hw _,
        FileTree.find?_write_same _ hne, fun other hother =>
          FileTree.find?_write_other _ hother.symm⟩
    · intro other cause hsome herr
      cases ho.symm.trans hsome
      cases hw.symm.trans herr

/-- A run that lacks its pin table or its input leaves everything as it was; any other delivers the
report on what its files held at the start, wherever the rows go. -/
theorem run_leavesNothing_or_delivers {args : List String} (h : Arguments.read args = .perform i)
    (reader : PinTable.Reader) (settings : Settings) (files : FileTree) (stdin : Octets) :
    (∀ message, Lacks reader i files stdin message →
      LeavesNothing files (outcome reader settings args files stdin)) ∧
    ((∀ message, ¬ Lacks reader i files stdin message) →
      ∃ r, Reports reader i files stdin r ∧
        Delivers files i.output r (outcome reader settings args files stdin)) := by
  obtain ⟨notes, d, hcourse, houtcome⟩ := exists_course h reader files stdin
  rw [houtcome]
  exact ⟨fun _ hl => hcourse.leavesNothing hl settings, fun hl => hcourse.delivers hl settings⟩

/-- Work that comes to a report lacks nothing. -/
theorem not_lacks_of_isOk {settings : Settings}
    (h : ((work World.surroundings reader settings i).run (.ofFiles files stdin)).1.isOk = true)
    (message : String) : ¬ Lacks reader i files stdin message := by
  obtain ⟨notes, ⟨_, _, hw⟩ | ⟨r, hr, _⟩⟩ := work_cases reader i files stdin
  · rw [hw settings (.ofFiles files stdin) rfl rfl] at h
    cases h
  · exact fun hl => hl.not_reports hr

/-- A bench with a pinfile in which one line is bad, and elsewhere a pin table that lacks a pin. -/
def bench : FileTree where
  entries := .ofList [(["home"], Entry.directory), (["home", "d"], Entry.directory),
    (["home", "a.pin"], Entry.file (Octets.ofText "x[0..1], y[..]\n?")), (["tmp"], Entry.directory),
    (["tmp", "t.json"], Entry.file (Octets.ofText "\x7b\"y[0]\": \"P0\"\x7d"))]
  home := ["home"]

/-- Shows errors, and no places of them. -/
def warnings : Settings := ⟨1, none⟩

theorem run_leavesNothing_or_delivers_in_place :
    Arguments.read
        ["build", "--pins", "../tmp/t.json", "--keep-going", "a.pin", "/home/d/../a.pin"] =
      .perform ⟨.build "../tmp/t.json", some "a.pin", some "/home/d/../a.pin", .keepGoing⟩ ∧
    (∀ message, ¬ Lacks (.silent .byName)
      ⟨.build "../tmp/t.json", some "a.pin", some "/home/d/../a.pin", .keepGoing⟩ bench []
        message) ∧
    (∃ r, Reports (.silent .byName)
        ⟨.build "../tmp/t.json", some "a.pin", some "/home/d/../a.pin", .keepGoing⟩ bench [] r ∧
      Delivers bench (some "/home/d/../a.pin") r (outcome (.silent .byName) warnings
        ["build", "--pins", "../tmp/t.json", "--keep-going", "a.pin", "/home/d/../a.pin"] bench
          [])) ∧
    Arguments.read ["expand", "/b.pin", "a.pin"] =
      .perform ⟨.expand, some "/b.pin", some "a.pin", .halt⟩ ∧
    Lacks (.silent .byName) ⟨.expand, some "/b.pin", some "a.pin", .halt⟩ bench []
      (StreamError.cantOpen "/b.pin" .notFound).message ∧
    LeavesNothing bench
      (outcome (.silent .byName) warnings ["expand", "/b.pin", "a.pin"] bench []) := by
  have hread : Arguments.read
      ["build", "--pins", "../tmp/t.json", "--keep-going", "a.pin", "/home/d/../a.pin"] =
        .perform ⟨.build "../tmp/t.json", some "a.pin", some "/home/d/../a.pin", .keepGoing⟩ := by
    decide +kernel
  have hread' : Arguments.read ["expand", "/b.pin", "a.pin"] =
      .perform ⟨.expand, some "/b.pin", some "a.pin", .halt⟩ := by
    decide +kernel
  have hok : ((work World.surroundings (.silent .byName) warnings
      ⟨.build "../tmp/t.json", some "a.pin", some "/home/d/../a.pin", .keepGoing⟩).run
        (.ofFiles bench [])).1.isOk = true := by
    decide +kernel
  have hlacks := not_lacks_of_isOk hok
  have hlacks' : Lacks (.silent .byName) ⟨.expand, some "/b.pin", some "a.pin", .halt⟩ bench []
      (StreamError.cantOpen "/b.pin" .notFound).message :=
    .cantOpen nofun rfl (by decide +kernel)
  exact ⟨hread, hlacks,
    (run_leavesNothing_or_delivers hread (.silent .byName) warnings bench []).2 hlacks, hread',
    hlacks', (run_leavesNothing_or_delivers hread' _ warnings bench []).1 _ hlacks'⟩

example : (outcome (.silent .byName) warnings
    ["build", "--pins", "../tmp/t.json", "--keep-going", "a.pin", "/home/d/../a.pin"] bench
      []).files.find? ["home", "a.pin"] =
        some (.file (Octets.ofText "To, Location\nx[0], P0\n")) := by
  decide +kernel

end Pinout.Command
