import Mathlib.Data.Finset.Card
import Mathlib.Data.List.Forall2
import Pinout.PinTable.Edit

/-!
What a pin table keeps of its changes: the last location given to every name since the table was
emptied or started again. How a name is written does not matter beyond its upper-case form.
-/

namespace Pinout.PinTable

/-- The pairs that count after a change, if `pairs` did before it. -/
def Edit.record (pairs : List (String × String)) : Edit → List (String × String)
  | clear => []
  | insert name location => pairs ++ [(name, location)]
  | restart others => others

/-- The pairs put in since the table was last emptied or started again, in order. -/
def history (edits : List Edit) : List (String × String) := edits.foldl Edit.record []

def upperNames (pairs : List (String × String)) : List String := pairs.map fun p => Text.upper p.1

/-- The location of the last of the pairs whose name is the queried one. -/
inductive Answers (pairs : List (String × String)) (query : String) : Option String → Prop where
  | last {earlier later : List (String × String)} {name location : String} :
      pairs = earlier ++ (name, location) :: later → Text.upper name = Text.upper query →
        Text.upper query ∉ upperNames later → Answers pairs query (some location)
  | absent : Text.upper query ∉ upperNames pairs → Answers pairs query none

theorem Answers.isSome_iff {pairs : List (String × String)} {query : String}
    {answer : Option String} (h : Answers pairs query answer) :
    answer.isSome = true ↔ Text.upper query ∈ upperNames pairs := by
  cases h with
  | last hp hn _ =>
    have hmem : Text.upper query ∈ upperNames pairs := by
      rw [hp, ← hn]
      exact List.mem_map.mpr ⟨_, List.mem_append_right _ List.mem_cons_self, rfl⟩
    exact iff_of_true rfl hmem
  | absent hno => exact iff_of_false (by simp) hno

/-- The table answers every question by its pairs, and has an entry for every name among them. -/
structure Keeps (t : PinTable) (pairs : List (String × String)) : Prop where
  answers : ∀ query, Answers pairs query (t.lookup query)
  size_eq : t.size = (upperNames pairs).toFinset.card

theorem keeps_empty : Keeps empty [] := by
  constructor
  · intro query
    rw [lookup_empty]
    exact .absent (by simp [upperNames])
  · rfl

theorem upperNames_append (pairs more : List (String × String)) :
    upperNames (pairs ++ more) = upperNames pairs ++ upperNames more :=
  List.map_append

theorem Answers.concat {pairs : List (String × String)} {query : String} {answer : Option String}
    (h : Answers pairs query answer) {name : String} (location : String)
    (hn : Text.upper name ≠ Text.upper query) :
    Answers (pairs ++ [(name, location)]) query answer := by
  have hnew : Text.upper query ∉ upperNames [(name, location)] := by
    intro hmem
    exact hn (List.mem_singleton.mp hmem).symm
  cases h with
  | @last earlier later n l hp hq hlater =>
    have hall : pairs ++ [(name, location)] = earlier ++ (n, l) :: (later ++ [(name, location)]) := by
      rw [hp, List.append_assoc, List.cons_append]
    refine .last hall hq ?_
    rw [upperNames_append, List.mem_append, not_or]
    exact ⟨hlater, hnew⟩
  | absent hno =>
    refine .absent ?_
    rw [upperNames_append, List.mem_append, not_or]
    exact ⟨hno, hnew⟩

theorem size_insert (t : PinTable) (name location : String) :
    (t.insert name location).size = if (t.lookup name).isSome = true then t.size else t.size + 1 := by
  rw [lookup, ← Std.ExtTreeMap.contains_eq_isSome_getElem?]
  exact Std.ExtTreeMap.size_insert

theorem card_upperNames_concat (pairs : List (String × String)) (name location : String) :
    (upperNames (pairs ++ [(name, location)])).toFinset.card =
      if Text.upper name ∈ upperNames pairs then (upperNames pairs).toFinset.card
      else (upperNames pairs).toFinset.card + 1 := by
  have hnames : (upperNames (pairs ++ [(name, location)])).toFinset =
      Insert.insert (Text.upper name) (upperNames pairs).toFinset := by
    ext k
    simp [upperNames]
  rw [hnames]
  split
  · rename_i hmem
    rw [Finset.insert_eq_of_mem (List.mem_toFinset.mpr hmem)]
  · rename_i hno
    exact Finset.card_insert_of_notMem fun hmem => hno (List.mem_toFinset.mp hmem)

theorem Keeps.insert {t : PinTable} {pairs : List (String × String)} (h : t.Keeps pairs)
    (name location : String) : (t.insert name location).Keeps (pairs ++ [(name, location)]) := by
  constructor
  · intro query
    rw [lookup_insert]
    split
    · rename_i hn
      exact .last rfl hn (by simp [upperNames])
    · rename_i hn
      exact (h.answers query).concat location hn
  · simp only [size_insert, card_upperNames_concat, (h.answers name).isSome_iff, h.size_eq]

theorem editAll_cons (t : PinTable) (e : Edit) (edits : List Edit) :
    t.editAll (e :: edits) = (t.edit e).1.editAll edits := rfl

/-- The pairs as changes that put them in one by one. -/
def insertions (pairs : List (String × String)) : List Edit :=
  pairs.map fun p => .insert p.1 p.2

theorem pins_editAll_insertions (t : PinTable) (pairs : List (String × String)) :
    (t.editAll (insertions pairs)).pins =
      t.pins.insertMany (pairs.map fun p => (Text.upper p.1, p.2)) := by
  induction pairs generalizing t with
  | nil => exact Std.ExtTreeMap.insertMany_nil.symm
  | cons p pairs ih =>
    rw [List.map_cons, Std.ExtTreeMap.insertMany_cons]
    exact ih (t.insert p.1 p.2)

theorem ofPairs_eq_editAll (pairs : List (String × String)) :
    ofPairs pairs = empty.editAll (insertions pairs) := by
  apply ext_pins
  rw [pins_editAll_insertions]
  exact Std.ExtTreeMap.ofList_eq_insertMany_empty

theorem Keeps.insertions {t : PinTable} {pairs : List (String × String)} (h : t.Keeps pairs)
    (more : List (String × String)) :
    (t.editAll (PinTable.insertions more)).Keeps (pairs ++ more) := by
  induction more generalizing t pairs with
  | nil =>
    rw [List.append_nil]
    exact h
  | cons p more ih =>
    rw [List.append_cons]
    exact ih (h.insert p.1 p.2)

theorem Keeps.edit {t : PinTable} {pairs : List (String × String)} (h : t.Keeps pairs)
    (e : Edit) : (t.edit e).1.Keeps (e.record pairs) := by
  cases e with
  | clear => exact keeps_empty
  | insert name location => exact h.insert name location
  | restart others =>
    have hr := keeps_empty.insertions others
    rw [← ofPairs_eq_editAll] at hr
    exact hr

theorem Keeps.editAll {t : PinTable} {pairs : List (String × String)} (h : t.Keeps pairs)
    (edits : List Edit) : (t.editAll edits).Keeps (edits.foldl Edit.record pairs) := by
  induction edits generalizing t pairs with
  | nil => exact h
  | cons e edits ih => exact ih (h.edit e)

theorem isEmpty_iff (t : PinTable) : t.isEmpty = true ↔ t.size = 0 := by
  rw [isEmpty, Std.ExtTreeMap.isEmpty_eq_size_beq_zero, beq_iff_eq, size]

theorem eq_iff_lookup {t u : PinTable} : t = u ↔ ∀ query, t.lookup query = u.lookup query := by
  constructor
  · rintro rfl query
    rfl
  · exact ext_lookup

theorem lookup_congr (t : PinTable) {query query' : String}
    (h : Text.upper query = Text.upper query') : t.lookup query = t.lookup query' := by
  rw [← lookup_upper, h, lookup_upper]

/-- The same change, up to how the names in it are written. -/
inductive Edit.SameNames : Edit → Edit → Prop where
  | clear : SameNames .clear .clear
  | insert {name name' location : String} : Text.upper name = Text.upper name' →
      SameNames (.insert name location) (.insert name' location)
  | restart {pairs pairs' : List (String × String)} :
      List.Forall₂ (fun p p' => Text.upper p.1 = Text.upper p'.1 ∧ p.2 = p'.2) pairs pairs' →
        SameNames (.restart pairs) (.restart pairs')

theorem insert_congr (t : PinTable) {name name' : String} (location : String)
    (h : Text.upper name = Text.upper name') :
    t.insert name location = t.insert name' location := by
  apply ext_pins
  simp only [insert, h]

theorem ofPairs_congr {pairs pairs' : List (String × String)}
    (h : List.Forall₂ (fun p p' => Text.upper p.1 = Text.upper p'.1 ∧ p.2 = p'.2) pairs pairs') :
    ofPairs pairs = ofPairs pairs' := by
  have hmap : pairs.map (fun p => (Text.upper p.1, p.2)) =
      pairs'.map fun p => (Text.upper p.1, p.2) := by
    induction h with
    | nil => rfl
    | cons hp _ ih => rw [List.map_cons, List.map_cons, hp.1, hp.2, ih]
  apply ext_pins
  simp only [ofPairs, hmap]

/-- The table and the answer that a change gives do not depend on how its names are written. -/
theorem Edit.SameNames.edit_eq {e e' : Edit} (h : e.SameNames e') (t : PinTable) :
    t.edit e = t.edit e' := by
  cases h with
  | clear => rfl
  | @insert name name' location hn =>
    simp only [PinTable.edit, exchange, insert_congr t location hn, hn]
  | restart hp => simp only [PinTable.edit, ofPairs_congr hp]

theorem editAll_congr {edits edits' : List Edit} (h : List.Forall₂ Edit.SameNames edits edits')
    (t : PinTable) : t.editAll edits = t.editAll edits' := by
  induction h generalizing t with
  | nil => rfl
  | cons he _ ih => rw [editAll_cons, editAll_cons, he.edit_eq t, ih]

/-- After any changes a table holds the last location given to every name, and neither its answers
nor its size depend on anything else. -/
theorem editAll_keeps_last (edits : List Edit) :
    (∀ query, Answers (history edits) query ((empty.editAll edits).lookup query)) ∧
    (∀ name location, ((empty.editAll edits).edit (.insert name location)).2 =
      (empty.editAll edits).lookup name) ∧
    (empty.editAll edits).size = (upperNames (history edits)).toFinset.card ∧
    ((empty.editAll edits).isEmpty = true ↔ (empty.editAll edits).size = 0) ∧
    (∀ pairs, ofPairs pairs = empty.editAll (insertions pairs)) ∧
    (∀ t u : PinTable, t = u ↔ ∀ query, t.lookup query = u.lookup query) ∧
    (∀ edits' e e', List.Forall₂ Edit.SameNames edits edits' → e.SameNames e' →
      (empty.editAll edits).edit e = (empty.editAll edits').edit e') ∧
    ∀ query query', Text.upper query = Text.upper query' →
      (empty.editAll edits).lookup query = (empty.editAll edits).lookup query' := by
  have hkeeps : (empty.editAll edits).Keeps (history edits) := keeps_empty.editAll edits
  refine ⟨hkeeps.answers, fun _ _ => rfl, hkeeps.size_eq, isEmpty_iff _, ofPairs_eq_editAll,
    fun t u => eq_iff_lookup, ?_, fun query query' h => lookup_congr _ h⟩
  intro edits' e e' hedits he
  rw [editAll_congr hedits, he.edit_eq]

/-- A name gets three locations, each under another spelling, after the table was started again. -/
def respelt : List Edit :=
  [.insert "key" "P0", .restart [("Straße", "P1"), ("led", "P9"), ("STRASSE", "P2")],
    .insert "straSSe" "P3"]

/-- The same changes under the first spelling. -/
def unified : List Edit :=
  [.insert "key" "P0", .restart [("Straße", "P1"), ("led", "P9"), ("Straße", "P2")],
    .insert "Straße" "P3"]

theorem editAll_keeps_last_respelt :
    List.Forall₂ Edit.SameNames respelt unified ∧
    Text.upper "strasse" = Text.upper "Straße" ∧
    Answers (history respelt) "Straße" ((empty.editAll respelt).lookup "Straße") ∧
    (empty.editAll respelt).edit (.insert "strasse" "P4") =
      (empty.editAll unified).edit (.insert "Straße" "P4") ∧
    (empty.editAll respelt).lookup "strasse" = (empty.editAll respelt).lookup "Straße" := by
  have hstr : Text.upper "STRASSE" = Text.upper "Straße" := by decide +kernel
  have hstr' : Text.upper "straSSe" = Text.upper "Straße" := by decide +kernel
  have hlow : Text.upper "strasse" = Text.upper "Straße" := by decide +kernel
  have hsame : List.Forall₂ Edit.SameNames respelt unified :=
    .cons (.insert rfl) (.cons
      (.restart (.cons ⟨rfl, rfl⟩ (.cons ⟨rfl, rfl⟩ (.cons ⟨hstr, rfl⟩ .nil))))
      (.cons (.insert hstr') .nil))
  obtain ⟨hanswers, _, _, _, _, _, hedit, hlookup⟩ := editAll_keeps_last respelt
  exact ⟨hsame, hlow, hanswers _, hedit _ _ _ hsame (.insert hlow),
    hlookup _ _ hlow⟩

example : (empty.editAll respelt).lookup "strasse" = some "P3" ∧
    (empty.editAll respelt).lookup "STRAẞE" = none ∧ (empty.editAll respelt).size = 2 := by
  decide +kernel

end Pinout.PinTable
