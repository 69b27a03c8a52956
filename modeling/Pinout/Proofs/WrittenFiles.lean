import Mathlib.Data.List.Basic
import Pinout.File.Tree

/-!
Files that are written. A path that was opened for writing leads to what was written, wherever it
starts and whichever directories it goes through, and everything else stays as it was.
-/

namespace Pinout.FileTree

theorem follow_cons_eq_ok_iff {t : FileTree} {place next : List String} {name : String}
    {names : List String} :
    t.follow place (name :: names) = .ok next ↔
      ∃ step, t.step place name = .ok step ∧ t.follow step names = .ok next := by
  cases h : t.step place name <;> simp [follow, h]

theorem follow_append {t : FileTree} {place next : List String} {names : List String}
    (h : t.follow place names = .ok next) (rest : List String) :
    t.follow place (names ++ rest) = t.follow next rest := by
  induction names generalizing place with
  | nil =>
    cases h
    rfl
  | cons name names ih =>
    obtain ⟨step, hs, hn⟩ := follow_cons_eq_ok_iff.mp h
    rw [List.cons_append, follow, hs]
    exact ih hn

/-- A path leads through `init` to a directory, and a file can be written there under `name`. -/
structure Writable (t : FileTree) (path : String) (init dir : List String) (name : String) :
    Prop where
  refusal : Path.refusal? path = none
  names : (Path.ofText path).names = init ++ [name]
  follow : t.follow (t.start (Path.ofText path)) init = .ok dir
  directory : t.find? dir = some .directory
  not_dot : name ≠ "."
  not_up : name ≠ ".."
  no_slash : (Path.ofText path).endsWithSlash = false
  size_le : name.utf8ByteSize ≤ 255
  free : t.find? (dir ++ [name]) ≠ some .directory

theorem writable_of_openWrite {t : FileTree} {path : String} {place : List String}
    (h : t.openWrite path = .ok place) :
    ∃ init dir name, t.Writable path init dir name ∧ place = dir ++ [name] := by
  unfold openWrite at h
  split at h
  · cases h
  rename_i hrefusal
  dsimp only at h
  split at h
  · cases h
  rename_i name hlast
  have hnames : (Path.ofText path).names = (Path.ofText path).names.dropLast ++ [name] :=
    (List.dropLast_append_getLast? name hlast).symm
  cases hfollow : t.follow (t.start (Path.ofText path)) (Path.ofText path).names.dropLast with
  | error e =>
    rw [hfollow] at h
    cases h
  | ok dir =>
    cases henter : t.enter dir with
    | error e =>
      simp [hfollow, henter, bind, Except.bind] at h
    | ok _ =>
      simp only [hfollow, henter, bind, Except.bind] at h
      split at h
      · cases h
      rename_i hname
      split at h
      · cases h
      rename_i hlen
      split at h
      · cases h
      rename_i hfree
      rw [not_or, not_or, Bool.not_eq_true] at hname
      obtain ⟨hdot, hup, hslash⟩ := hname
      cases h
      exact ⟨_, dir, name, ⟨hrefusal, hnames, hfollow, enter_eq_ok_iff.mp henter, hdot, hup,
        hslash, Nat.not_lt.mp hlen, hfree⟩, rfl⟩

theorem ne_nil_of_openWrite {t : FileTree} {path : String} {place : List String}
    (h : t.openWrite path = .ok place) : place ≠ [] := by
  obtain ⟨_, dir, name, _, rfl⟩ := writable_of_openWrite h
  simp

/-- Every way to go from a directory by one name. -/
inductive Steps (t : FileTree) (dir : List String) (name : String) : List String → Prop where
  | stay : name = "." → Steps t dir name dir
  | up : name = ".." → Steps t dir name dir.dropLast
  | down : name ≠ "." → name ≠ ".." → name.utf8ByteSize ≤ 255 →
      (t.find? (dir ++ [name])).isSome = true → Steps t dir name (dir ++ [name])

theorem step_eq_ok_iff {t : FileTree} {dir next : List String} {name : String} :
    t.step dir name = .ok next ↔ t.find? dir = some .directory ∧ t.Steps dir name next := by
  rw [← enter_eq_ok_iff]
  constructor
  · intro h
    cases henter : t.enter dir with
    | error e => simp [step, henter, bind, Except.bind] at h
    | ok _ =>
      simp only [step, henter, bind, Except.bind] at h
      refine ⟨rfl, ?_⟩
      split at h
      · rename_i hdot
        cases h
        exact .stay hdot
      rename_i hdot
      split at h
      · rename_i hup
        cases h
        exact .up hup
      rename_i hup
      split at h
      · cases h
      rename_i hlen
      split at h
      · cases h
      rename_i hthere
      cases h
      refine .down hdot hup (Nat.not_lt.mp hlen) ?_
      simpa [Option.isSome_iff_ne_none] using hthere
  · intro h
    obtain ⟨henter, hs⟩ := h
    cases hs with
    | stay hdot => simp [step, henter, hdot, bind, Except.bind, pure, Except.pure]
    | up hup => simp [step, henter, hup, bind, Except.bind, pure, Except.pure]
    | down hdot hup hlen hthere =>
      simp [step, henter, hdot, hup, Nat.not_lt.mpr hlen, Option.isSome_iff_ne_none.mp hthere,
        bind, Except.bind, pure, Except.pure]

section Write
variable {t : FileTree} {place : List String} (content : Octets)
  (hfree : t.find? place ≠ some .directory)
include hfree

theorem find?_write_directory {dir : List String} (h : t.find? dir = some .directory) :
    (t.write place content).find? dir = some .directory := by
  have hne : place ≠ dir := by
    rintro rfl
    exact hfree h
  rw [find?_write_other content hne, h]

theorem isSome_find?_write {other : List String} (h : (t.find? other).isSome = true) :
    ((t.write place content).find? other).isSome = true := by
  by_cases he : place = other
  · subst he
    have hne : place ≠ [] := by
      rintro rfl
      exact hfree rfl
    rw [find?_write_same content hne]
    rfl
  · rw [find?_write_other content he, h]

/-- Directories stay, so every way through them stays open. -/
theorem step_write {dir next : List String} {name : String} (h : t.step dir name = .ok next) :
    (t.write place content).step dir name = .ok next := by
  obtain ⟨hdir, hs⟩ := step_eq_ok_iff.mp h
  refine step_eq_ok_iff.mpr ⟨find?_write_directory content hfree hdir, ?_⟩
  cases hs with
  | stay hdot => exact .stay hdot
  | up hup => exact .up hup
  | down hdot hup hlen hthere =>
    exact .down hdot hup hlen (isSome_find?_write content hfree hthere)

theorem follow_write {dir next : List String} {names : List String}
    (h : t.follow dir names = .ok next) :
    (t.write place content).follow dir names = .ok next := by
  induction names generalizing dir with
  | nil => exact h
  | cons name names ih =>
    obtain ⟨step, hs, hn⟩ := follow_cons_eq_ok_iff.mp h
    exact follow_cons_eq_ok_iff.mpr ⟨step, step_write content hfree hs, ih hn⟩

end Write

theorem start_write (t : FileTree) (place : List String) (content : Octets) (p : Path) :
    (t.write place content).start p = t.start p := rfl

/-- A path that was opened for writing leads to what was written. -/
theorem openRead_write {t : FileTree} {path : String} {place : List String}
    (h : t.openWrite path = .ok place) (content : Octets) :
    (t.write place content).openRead path = .ok (.file content) := by
  obtain ⟨init, dir, name, hw, rfl⟩ := writable_of_openWrite h
  have hfile : (t.write (dir ++ [name]) content).find? (dir ++ [name]) = some (.file content) :=
    find?_write_same content (by simp)
  have hstep : (t.write (dir ++ [name]) content).step dir name = .ok (dir ++ [name]) := by
    apply step_eq_ok_iff.mpr
    refine ⟨find?_write_directory content hw.free hw.directory, ?_⟩
    exact .down hw.not_dot hw.not_up hw.size_le (by rw [hfile]; rfl)
  have hway : (t.write (dir ++ [name]) content).follow (t.start (Path.ofText path))
      (Path.ofText path).names = .ok (dir ++ [name]) := by
    rw [hw.names, follow_append (follow_write content hw.free hw.follow)]
    exact follow_cons_eq_ok_iff.mpr ⟨_, hstep, rfl⟩
  simp [openRead, start_write, hw.refusal, hway, hfile, hw.no_slash]

end Pinout.FileTree
