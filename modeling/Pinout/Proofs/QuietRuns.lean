import Mathlib.Data.List.Flatten
import Pinout.Proofs.CommandCourse

/-!
Runs that differ in how much they tell. The setting decides which notes are shown and nothing else;
the message of a failure comes last and is shown under every setting.
-/

namespace Pinout

namespace Text

theorem splitLines_ne_nil {cs : List Char} (h : cs ≠ []) : splitLines cs ≠ [] := by
  fun_cases splitLines cs with
  | case1 => exact absurd rfl h
  | case2 => exact List.cons_ne_nil _ _
  | case3 => exact List.cons_ne_nil _ _
  | case4 => exact List.cons_ne_nil _ _
  | case5 => exact List.cons_ne_nil _ _

/-- What comes after a line feed has no part in the lines before it. -/
theorem splitLines_newline_append (l rest : List Char) :
    splitLines (l ++ '\n' :: rest) = splitLines (l ++ ['\n']) ++ splitLines rest := by
  fun_induction splitLines l with
  | case1 => rfl
  | case2 cs ih => simp only [List.cons_append, splitLines, ih]
  | case3 cs ih => simp only [List.cons_append, splitLines, ih]
  | case4 c cs _ hc hs _ =>
    have hnil : cs = [] := by
      by_contra hne
      exact splitLines_ne_nil hne hs
    subst hnil
    by_cases hr : c = '\r'
    -- the last character of `l` makes one line end with the line feed
    · subst hr
      rfl
    · have hcut : ∀ ds, splitLines (c :: '\n' :: ds) = [c] :: splitLines ds := by
        intro ds
        rw [splitLines_cons hc fun he => absurd he hr, splitLines]
      simp only [List.cons_append, List.nil_append, hcut, splitLines]
  | case5 c cs hr hc d ds hs ih =>
    have hne : cs ≠ [] := by
      rintro rfl
      cases hs
    have hend : c = '\r' → ∀ es fs, cs ++ '\n' :: es ≠ '\n' :: fs := by
      intro he es fs hfs
      cases cs with
      | nil => exact hne rfl
      | cons e cs =>
        rw [List.cons_append, List.cons.injEq] at hfs
        exact hr cs he (by rw [hfs.1])
    have hfirst : splitLines (cs ++ ['\n']) ≠ [] := splitLines_ne_nil (by simp)
    obtain ⟨m, ms, hms⟩ := List.exists_cons_of_ne_nil hfirst
    rw [List.cons_append, List.cons_append, splitLines_cons hc fun he => hend he rest,
      splitLines_cons hc fun he => hend he [], ih, hms]
    rfl

theorem lines_newline_append (l s : String) :
    lines (l ++ "\n" ++ s) = lines (l ++ "\n") ++ lines s := by
  have hchars : (l ++ "\n" ++ s).toList = l.toList ++ '\n' :: s.toList := by simp
  have hfirst : (l ++ "\n").toList = l.toList ++ ['\n'] := by simp
  rw [lines, hchars, splitLines_newline_append, List.map_append, lines, lines, hfirst]

theorem lines_joinLines_append_text (ls : List String) (s : String) :
    lines (joinLines ls ++ s) = (ls.flatMap fun l => lines (l ++ "\n")) ++ lines s := by
  induction ls with
  | nil => simp [joinLines]
  | cons l ls ih =>
    rw [joinLines, String.append_assoc, lines_newline_append, ih, List.flatMap_cons,
      List.append_assoc]

/-- Leaving texts out leaves whole lines out. -/
theorem lines_sublist {ls ms : List String} (h : ls.Sublist ms) (s : String) :
    (lines (joinLines ls ++ s)).Sublist (lines (joinLines ms ++ s)) := by
  rw [lines_joinLines_append_text, lines_joinLines_append_text]
  exact (h.flatMap _).append (List.Sublist.refl _)

end Text

/-- The level that a setting asks for; no setting and one that is no numeral ask for the lowest. -/
inductive Level.Asks : Option String → Nat → Prop where
  | unset : Asks none 0
  | malformed {s : String} : Index.ofText? (Text.trim s) = none → Asks (some s) 0
  | numeral {s : String} {n : Index} : Index.ofText? (Text.trim s) = some n →
      Asks (some s) n.toNat

theorem Level.Asks.setting_eq {value : Option String} {n : Nat} (h : Asks value n) :
    setting value = n := by
  cases h with
  | unset => rfl
  | malformed hs => simp [setting, hs]
  | numeral hs => simp [setting, hs]

theorem Level.rank_le (l : Level) : l.rank ≤ 3 := by
  cases l <;> decide

namespace Note

theorem isShown_of_le {m n : Nat} (h : m ≤ n) {note : Note} (hs : note.isShown m = true) :
    note.isShown n = true := by
  simp only [isShown, decide_eq_true_eq] at hs ⊢
  omega

theorem isShown_of_three_le {n : Nat} (h : 3 ≤ n) (note : Note) : note.isShown n = true := by
  have hrank := note.level.rank_le
  simp only [isShown, decide_eq_true_eq]
  omega

theorem filter_isShown_filter {m n : Nat} (h : m ≤ n) (notes : List Note) :
    (notes.filter (isShown n)).filter (isShown m) = notes.filter (isShown m) := by
  rw [List.filter_filter]
  apply List.filter_congr
  intro note _
  cases hs : note.isShown m with
  | false => rfl
  | true => rw [isShown_of_le h hs, Bool.true_and]

end Note

namespace Command

variable {reader : PinTable.Reader} {i : Invocation} {files : FileTree} {stdin : Octets}

/-- A run fails, and what it says at last. -/
inductive FailsWith (reader : PinTable.Reader) (i : Invocation) (files : FileTree)
    (stdin : Octets) : String → Prop where
  | lacking {message : String} : Lacks reader i files stdin message →
      FailsWith reader i files stdin message
  | refused {r : Report String} {path : String} {cause : IoError} :
      Reports reader i files stdin r → i.output = some path →
        files.openWrite path = .error cause →
          FailsWith reader i files stdin (StreamError.cantOpen path cause).message
  | faulty {r : Report String} : Reports reader i files stdin r → r.errors ≠ [] →
      (∀ path, i.output = some path → ∃ place, files.openWrite path = .ok place) →
        FailsWith reader i files stdin (Text.stack r.errors)

/-- The status of a run and the end of what it tells. -/
inductive Ends (reader : PinTable.Reader) (i : Invocation) (files : FileTree) (stdin : Octets) :
    Nat → String → Prop where
  | success : Ends reader i files stdin 0 ""
  | failure {message : String} : FailsWith reader i files stdin message →
      Ends reader i files stdin 1 (message ++ "\n")

theorem ends_of_failsWith {message : String} (h : FailsWith reader i files stdin message) :
    Ends reader i files stdin 1 (Text.joinLines [message]) := by
  rw [Text.joinLines, Text.joinLines, String.append_empty]
  exact .failure h

theorem ends_of_reports {r : Report String} (hr : Reports reader i files stdin r)
    (ho : ∀ path, i.output = some path → ∃ place, files.openWrite path = .ok place) :
    Ends reader i files stdin (if (failure? r).isSome then 1 else 0)
      (Text.joinLines (failure? r).toList) := by
  unfold failure?
  split
  · exact .success
  · rename_i hc
    have herrors : r.errors ≠ [] := fun he => hc (Report.isClean_iff.mpr he)
    exact ends_of_failsWith (.faulty hr herrors ho)

theorem Course.ends {notes : List Note} {d : Deed} (h : Course reader i files stdin notes d)
    (settings : Settings) :
    Ends reader i files stdin (d.outcome settings).status (Text.joinLines d.failure.toList) := by
  cases h with
  | lacking hl => exact ends_of_failsWith (.lacking hl)
  | refused hr ho hw => exact ends_of_failsWith (.refused hr ho hw)
  | shown hr ho =>
    apply ends_of_reports hr
    intro path hp
    cases ho.symm.trans hp
  | @stored r path place hr ho hw =>
    apply ends_of_reports hr
    intro path' hp
    cases ho.symm.trans hp
    exact ⟨place, hw⟩

/-- `o` is the run that tells no more than level `m`, `o'` the same run telling at least as much:
they differ in notes, of which `o` leaves out those above its level. -/
structure TellsLess (reader : PinTable.Reader) (i : Invocation) (files : FileTree)
    (stdin : Octets) (places : Option (Topic → Place)) (m : Nat) (o o' : Outcome) : Prop where
  status_eq : o.status = o'.status
  stdout_eq : o.stdout = o'.stdout
  files_eq : o.files = o'.files
  stderr_eq : ∃ (notes : List Note) (ending : String), Ends reader i files stdin o.status ending ∧
    o'.stderr = Text.joinLines (notes.map (Note.line places)) ++ ending ∧
    o.stderr =
      Text.joinLines ((notes.filter (Note.isShown m)).map (Note.line places)) ++ ending
  lines_sublist : (Text.lines o.stderr).Sublist (Text.lines o'.stderr)
  eq_of_three_le : 3 ≤ m → o = o'

theorem Course.tellsLess {notes : List Note} {d : Deed} (h : Course reader i files stdin notes d)
    (places : Option (Topic → Place)) {m n : Nat} (hle : m ≤ n) :
    TellsLess reader i files stdin places m (d.outcome ⟨m, places⟩) (d.outcome ⟨n, places⟩) where
  status_eq := rfl
  stdout_eq := rfl
  files_eq := rfl
  stderr_eq := by
    refine ⟨d.notes.filter (Note.isShown n), _, h.ends ⟨m, places⟩, rfl, ?_⟩
    rw [Note.filter_isShown_filter hle]
    rfl
  lines_sublist := by
    have hnotes : (d.notes.filter (Note.isShown m)).Sublist (d.notes.filter (Note.isShown n)) :=
      List.monotone_filter_right _ fun _ hs => Note.isShown_of_le hle hs
    exact Text.lines_sublist (hnotes.map (Note.line places)) _
  eq_of_three_le hm := by
    have hall : ∀ k, 3 ≤ k → d.notes.filter (Note.isShown k) = d.notes := by
      intro k hk
      exact List.filter_eq_self.mpr fun note _ => Note.isShown_of_three_le hk note
    simp only [Deed.outcome, messages, hall m hm, hall n (hm.trans hle)]

/-- A lower level of telling takes whole notes away and changes nothing else, whether notes are
shown with their places or without. -/
theorem run_tellsLess {args : List String} (h : Arguments.read args = .perform i)
    {quiet loud : Option String} {m n : Nat} (hq : Level.Asks quiet m) (hl : Level.Asks loud n)
    (hle : m ≤ n) (reader : PinTable.Reader) (places : Topic → Place) (codeInfo : Option String)
    (files : FileTree) (stdin : Octets) :
    TellsLess reader i files stdin (Place.shown? codeInfo places) m
      (outcome reader (Environment.settings ⟨quiet, codeInfo⟩ places) args files stdin)
      (outcome reader (Environment.settings ⟨loud, codeInfo⟩ places) args files stdin) := by
  obtain ⟨notes, d, hcourse, houtcome⟩ := exists_course h reader files stdin
  rw [houtcome, houtcome, Environment.settings, Environment.settings, hq.setting_eq,
    hl.setting_eq]
  exact hcourse.tellsLess _ hle

def somewhere : Topic → Place := fun _ => ⟨"pex", 1⟩

theorem run_tellsLess_unset :
    Arguments.read ["expand", "--keep-going"] = .perform ⟨.expand, none, none, .keepGoing⟩ ∧
    Level.Asks none 0 ∧ Level.Asks (some " +1\t") 1 ∧ Level.Asks (some "1.5") 0 ∧
    TellsLess (.silent .byName) ⟨.expand, none, none, .keepGoing⟩ .empty
      (Octets.ofText "a[, b]\nc[..], d[..]") (Place.shown? (some "1") somewhere) 0
      (outcome (.silent .byName) (Environment.settings ⟨none, some "1"⟩ somewhere)
        ["expand", "--keep-going"] .empty (Octets.ofText "a[, b]\nc[..], d[..]"))
      (outcome (.silent .byName) (Environment.settings ⟨some " +1\t", some "1"⟩ somewhere)
        ["expand", "--keep-going"] .empty (Octets.ofText "a[, b]\nc[..], d[..]")) := by
  have hread : Arguments.read ["expand", "--keep-going"] =
      .perform ⟨.expand, none, none, .keepGoing⟩ := by
    decide +kernel
  have hone : Level.Asks (some " +1\t") 1 := .numeral (n := 1) (by decide +kernel)
  have hmalformed : Level.Asks (some "1.5") 0 := .malformed (by decide +kernel)
  exact ⟨hread, .unset, hone, hmalformed,
    run_tellsLess hread .unset hone (Nat.zero_le 1) _ somewhere _ .empty _⟩

example : (outcome (.silent .byName) (Environment.settings ⟨some "1", some "1"⟩ somewhere)
    ["expand"] .empty (Octets.ofText "a[, b")).stderr =
      "[pex:1] WARNING: Error at Line Number: 1\nCannot parse line.\na[, b\n" ++
        "Error at Line Number: 1\nCannot parse line.\na[, b\n" := by
  decide +kernel

end Command

end Pinout
