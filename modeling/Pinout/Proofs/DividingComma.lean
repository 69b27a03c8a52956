import Pinout.Proofs.LineShapes

/-!
Where a row is cut. A comma that comes right after another comma, or first in the line, starts no
cell; the dividing comma is the first of the others with no line feed after it.
-/

namespace Pinout.Pattern

/-- The line has a comma between `before` and `after`, right behind another character than a
comma. -/
structure CellEnd (line before after : List Char) : Prop where
  chars : line = before ++ ',' :: after
  follows : ∃ front c, before = front ++ [c] ∧ c ≠ ','

/-- `before` and `after` are the parts of the line around the first comma that ends a cell. -/
structure DividedBy (line before after : List Char) : Prop where
  cellEnd : CellEnd line before after
  first : ∀ b a, CellEnd line b a → before.length ≤ b.length

/-- `before` and `after` are the parts of the line around the first comma that ends a cell and has
no line feed after it. -/
structure CutAt (line before after : List Char) : Prop where
  cellEnd : CellEnd line before after
  newline_not_mem : '\n' ∉ after
  first : ∀ b a, CellEnd line b a → '\n' ∉ a → before.length ≤ b.length

theorem CellEnd.unique {line b a b' a' : List Char} (h : CellEnd line b a)
    (h' : CellEnd line b' a') (hlen : b.length = b'.length) : b = b' ∧ a = a' := by
  obtain ⟨hb, hc⟩ := List.append_inj (h.chars.symm.trans h'.chars) hlen
  rw [List.cons.injEq] at hc
  exact ⟨hb, hc.2⟩

theorem DividedBy.unique {line b a b' a' : List Char} (h : DividedBy line b a)
    (h' : DividedBy line b' a') : b = b' ∧ a = a' := by
  have hle := h.first b' a' h'.cellEnd
  have hge := h'.first b a h.cellEnd
  exact h.cellEnd.unique h'.cellEnd (Nat.le_antisymm hle hge)

theorem CutAt.unique {line b a b' a' : List Char} (h : CutAt line b a)
    (h' : CutAt line b' a') : b = b' ∧ a = a' := by
  have hle := h.first b' a' h'.cellEnd h'.newline_not_mem
  have hge := h'.first b a h.cellEnd h.newline_not_mem
  exact h.cellEnd.unique h'.cellEnd (Nat.le_antisymm hle hge)

/-- All that precedes the dividing comma. -/
def Row.front (r : Row) : List Char := r.before ++ r.left

theorem Row.front_cons (c : Char) (r : Row) : (r.cons c).front = c :: r.front := by
  obtain ⟨before, left, right⟩ := r
  by_cases h : c ≠ ',' ∧ before = []
  · simp [cons, front, h]
  · simp only [cons, if_neg h, front]
    rfl

/-- Inside a cell, if `inCell` says so before the first character is read. -/
def Follows (inCell : Bool) (before : List Char) : Prop :=
  (before = [] ∧ inCell = true) ∨ ∃ front c, before = front ++ [c] ∧ c ≠ ','

theorem follows_false_iff {before : List Char} :
    Follows false before ↔ ∃ front c, before = front ++ [c] ∧ c ≠ ',' := by
  simp [Follows]

theorem follows_cons_iff {inCell : Bool} {c : Char} {before : List Char} :
    Follows inCell (c :: before) ↔ Follows (c ≠ ',') before := by
  constructor
  · intro hf
    rcases hf with ⟨h, _⟩ | ⟨front, d, h, hd⟩
    · cases h
    · cases front with
      | nil =>
        rw [List.nil_append, List.cons.injEq] at h
        obtain ⟨rfl, rfl⟩ := h
        exact Or.inl ⟨rfl, by simpa using hd⟩
      | cons e front =>
        rw [List.cons_append, List.cons.injEq] at h
        exact Or.inr ⟨front, d, h.2, hd⟩
  · intro hf
    rcases hf with ⟨rfl, h⟩ | ⟨front, d, rfl, hd⟩
    · exact Or.inr ⟨[], c, rfl, by simpa using h⟩
    · exact Or.inr ⟨c :: front, d, rfl, hd⟩

theorem follows_of_divide {inCell : Bool} {cs : List Char} {r : Row}
    (h : divide inCell cs = some r) : Follows inCell r.front ∧ '\n' ∉ r.right := by
  induction cs generalizing inCell r with
  | nil => simp [divide] at h
  | cons c cs ih =>
    rw [divide] at h
    split at h
    · rename_i hc
      cases h
      exact ⟨Or.inl ⟨rfl, hc.2.1⟩, hc.2.2⟩
    · obtain ⟨t, ht, rfl⟩ := Option.map_eq_some_iff.mp h
      rw [Row.front_cons, Row.right_cons, follows_cons_iff]
      exact ih ht

/-- A comma that may divide is found, or one before it. -/
theorem exists_divide {inCell : Bool} {before after : List Char} (hf : Follows inCell before)
    (ha : '\n' ∉ after) :
    ∃ r, divide inCell (before ++ ',' :: after) = some r ∧ r.front.length ≤ before.length := by
  induction before generalizing inCell with
  | nil =>
    rcases hf with ⟨_, hin⟩ | ⟨front, c, h, _⟩
    · exact ⟨⟨[], [], after⟩, by simp [divide, hin, ha], Nat.le_refl 0⟩
    · simp at h
  | cons c before ih =>
    rw [List.cons_append, divide]
    split
    -- the line is cut right here, before the comma that was looked for
    · exact ⟨_, rfl, Nat.zero_le _⟩
    · obtain ⟨r, hr, hle⟩ := ih (follows_cons_iff.mp hf)
      refine ⟨r.cons c, by rw [hr]; rfl, ?_⟩
      rw [Row.front_cons]
      exact Nat.succ_le_succ hle

theorem row?_isSome_of_cellEnd {line before after : List Char} (h : CellEnd line before after)
    (ha : '\n' ∉ after) : (row? line).isSome := by
  obtain ⟨r, hr, _⟩ := exists_divide (follows_false_iff.mpr h.follows) ha
  rw [row?, h.chars, hr]
  rfl

theorem cutAt_of_row? {line : List Char} {r : Row} (hr : row? line = some r) :
    CutAt line r.front r.right := by
  obtain ⟨hfollows, hright⟩ := follows_of_divide hr
  refine ⟨⟨?_, follows_false_iff.mp hfollows⟩, hright, ?_⟩
  · rw [Row.front, ← chars_of_row? hr, Row.chars]
  · intro b a h ha
    obtain ⟨t, ht, hle⟩ := exists_divide (follows_false_iff.mpr h.follows) ha
    rw [row?, h.chars, ht] at hr
    cases hr
    exact hle

theorem exists_row?_of_cutAt {line before after : List Char} (h : CutAt line before after) :
    ∃ r, row? line = some r ∧ r.front = before ∧ r.right = after := by
  obtain ⟨r, hr⟩ := Option.isSome_iff_exists.mp (row?_isSome_of_cellEnd h.cellEnd h.newline_not_mem)
  exact ⟨r, hr, (cutAt_of_row? hr).unique h⟩

theorem row?_eq_none_iff {line : List Char} :
    row? line = none ↔ ∀ before after, CellEnd line before after → '\n' ∈ after := by
  constructor
  · intro hr before after h
    by_contra hn
    have hsome := row?_isSome_of_cellEnd h hn
    rw [hr] at hsome
    cases hsome
  · intro h
    cases hr : row? line with
    | none => rfl
    | some r =>
      have hcut := cutAt_of_row? hr
      exact absurd (h _ _ hcut.cellEnd) hcut.newline_not_mem

/-- In a line without line feeds the row is cut at the first comma that ends a cell. -/
theorem dividedBy_of_row? {line : List Char} {r : Row} (hr : row? line = some r)
    (hn : '\n' ∉ line) : DividedBy line r.front r.right := by
  have hcut := cutAt_of_row? hr
  refine ⟨hcut.cellEnd, ?_⟩
  intro b a h
  apply hcut.first b a h
  intro hmem
  exact hn (by simp [h.chars, hmem])

theorem divide_cell {inCell : Bool} {cell right : List Char} (hin : inCell = true ∨ cell ≠ [])
    (hc : ',' ∉ cell) (hn : '\n' ∉ right) :
    divide inCell (cell ++ ',' :: right) = some ⟨[], cell, right⟩ := by
  induction cell generalizing inCell with
  | nil => simp [divide, hin.resolve_right (fun h => h rfl), hn]
  | cons c cell ih =>
    have hne : c ≠ ',' := fun he => hc (he ▸ List.mem_cons_self)
    have hcell : ',' ∉ cell := fun hmem => hc (List.mem_cons_of_mem c hmem)
    rw [List.cons_append, divide, if_neg (fun h => hne h.1),
      ih (Or.inl (by simpa using hne)) hcell]
    simp [Row.cons, hne]

theorem row?_cell {cell right : List Char} (hne : cell ≠ []) (hc : ',' ∉ cell)
    (hn : '\n' ∉ right) : row? (cell ++ ',' :: right) = some ⟨[], cell, right⟩ :=
  divide_cell (Or.inr hne) hc hn

theorem row?_isSome_of_names? {line : List Char} (h : (names? line).isSome) (hn : '\n' ∉ line) :
    (row? line).isSome := by
  obtain ⟨before, d, after, rfl, hd⟩ := exists_comma_of_names? h
  have hne : d ≠ ',' := by
    intro he
    subst he
    rcases hd with hd | hd
    · exact absurd hd (by decide)
    · exact absurd hd (by decide)
  have hend : CellEnd (before ++ d :: ',' :: after) (before ++ [d]) after :=
    ⟨by simp, before, d, rfl, hne⟩
  exact row?_isSome_of_cellEnd hend fun hmem => hn (by simp [hmem])

end Pinout.Pattern
