import Pinout.PinTable.Load
import Pinout.Proofs.PinHistory

/-!
Pin tables from maps. A map has no order of its own, and its pairs can come in any order; which one
does not show as long as no two of its names are the same in upper case. A document is a map too,
so two documents of one map give one table, whatever their formats are.
-/

namespace Pinout

namespace PinMap

/-- No two names of the map are the same in upper case. -/
def DistinctUpper (m : PinMap) : Prop :=
  ∀ name ∈ m, ∀ other ∈ m, Text.upper name = Text.upper other → name = other

/-- The pairs of the map, each of them at least once and in any order. -/
def Listed (m : PinMap) (pairs : List (String × String)) : Prop :=
  ∀ name location, (name, location) ∈ pairs ↔ m[name]? = some location

theorem ofPairs_concat (pairs : List (String × String)) (name location : String) :
    ofPairs (pairs ++ [(name, location)]) = (ofPairs pairs).insert name location := by
  simp only [ofPairs, Std.ExtTreeMap.ofList_eq_insertMany_empty, Std.ExtTreeMap.insertMany_append,
    Std.ExtTreeMap.insertMany_list_singleton]

theorem getElem?_insert (m : PinMap) (name location other : String) :
    (m.insert name location)[other]? = if name = other then some location else m[other]? := by
  simp only [Std.ExtTreeMap.getElem?_insert, Std.LawfulEqCmp.compare_eq_iff_eq]

theorem mem_of_getElem?_ofPairs {pairs : List (String × String)} {name location : String}
    (h : (ofPairs pairs)[name]? = some location) : (name, location) ∈ pairs := by
  induction pairs using List.reverseRecOn with
  | nil => cases h
  | append_singleton pairs p ih =>
    rw [ofPairs_concat, getElem?_insert] at h
    split at h
    · rename_i hname
      cases h
      exact List.mem_append_right _ (List.mem_singleton.mpr (by rw [← hname]))
    · exact List.mem_append_left _ (ih h)

theorem mem_ofPairs_iff {pairs : List (String × String)} {name : String} :
    name ∈ ofPairs pairs ↔ name ∈ pairs.map Prod.fst := by
  rw [ofPairs, Std.ExtTreeMap.mem_ofList, List.contains_iff_mem]

theorem exists_getElem?_iff {m : PinMap} {name : String} : (∃ l, m[name]? = some l) ↔ name ∈ m := by
  rw [Std.ExtTreeMap.mem_iff_isSome_getElem?, Option.isSome_iff_exists]

theorem mem_of_getElem?_eq_some {m : PinMap} {name location : String}
    (h : m[name]? = some location) : name ∈ m :=
  exists_getElem?_iff.mp ⟨location, h⟩

theorem Listed.ofPairs_eq {m : PinMap} {pairs : List (String × String)} (h : m.Listed pairs) :
    ofPairs pairs = m := by
  apply Std.ExtTreeMap.ext_getElem?
  intro name
  apply Option.ext
  intro location
  constructor
  · intro hl
    exact (h name location).mp (mem_of_getElem?_ofPairs hl)
  · intro hl
    have hmem : name ∈ pairs.map Prod.fst := List.mem_map.mpr ⟨_, (h name location).mpr hl, rfl⟩
    obtain ⟨l, hfound⟩ := exists_getElem?_iff.mpr (mem_ofPairs_iff.mpr hmem)
    have hsame := (h name l).mp (mem_of_getElem?_ofPairs hfound)
    rw [hl] at hsame
    cases hsame
    exact hfound

theorem listed_of_perm {m : PinMap} {order : List (String × String)} (h : order.Perm m.toList) :
    m.Listed order := by
  intro name location
  rw [h.mem_iff]
  exact Std.ExtTreeMap.mem_toList_iff_getElem?_eq_some

theorem DistinctUpper.of_insert {m : PinMap} {name location : String}
    (h : DistinctUpper (m.insert name location)) : m.DistinctUpper := by
  intro a ha b hb
  apply h a _ b
  · exact Std.ExtTreeMap.mem_insert.mpr (Or.inr hb)
  · exact Std.ExtTreeMap.mem_insert.mpr (Or.inr ha)

theorem DistinctUpper.eq_of_insert {m : PinMap} {name location other : String}
    (h : DistinctUpper (m.insert name location)) (hother : other ∈ m)
    (hupper : Text.upper other = Text.upper name) : other = name := by
  apply h other _ name _ hupper
  · exact Std.ExtTreeMap.mem_insert.mpr (Or.inr hother)
  · exact Std.ExtTreeMap.mem_insert_self

/-- The map has the location under the queried name, however the name is written. -/
def Entry (m : PinMap) (query location : String) : Prop :=
  ∃ name, m[name]? = some location ∧ Text.upper name = Text.upper query

theorem entry_insert_iff {m : PinMap} {name location query l : String}
    (h : DistinctUpper (m.insert name location)) :
    Entry (m.insert name location) query l ↔
      if Text.upper name = Text.upper query then location = l else m.Entry query l := by
  split
  · rename_i hquery
    constructor
    · intro hentry
      obtain ⟨other, hother, hupper⟩ := hentry
      have hmem : other ∈ m.insert name location := mem_of_getElem?_eq_some hother
      have hname : name = other :=
        h name Std.ExtTreeMap.mem_insert_self other hmem (hquery.trans hupper.symm)
      rw [getElem?_insert, if_pos hname] at hother
      exact Option.some.inj hother
    · intro hl
      exact ⟨name, by rw [getElem?_insert, if_pos rfl, hl], hquery⟩
  · rename_i hquery
    have hsame : ∀ other, Text.upper other = Text.upper query →
        (m.insert name location)[other]? = m[other]? := by
      intro other hupper
      rw [getElem?_insert, if_neg]
      intro hname
      exact hquery (hname ▸ hupper)
    constructor
    · intro hentry
      obtain ⟨other, hother, hupper⟩ := hentry
      exact ⟨other, (hsame other hupper).symm.trans hother, hupper⟩
    · intro hentry
      obtain ⟨other, hother, hupper⟩ := hentry
      exact ⟨other, (hsame other hupper).trans hother, hupper⟩

theorem distinctUpper_ofPairs_iff {pairs : List (String × String)} :
    DistinctUpper (ofPairs pairs) ↔
      ∀ p ∈ pairs, ∀ q ∈ pairs, Text.upper p.1 = Text.upper q.1 → p.1 = q.1 := by
  simp only [DistinctUpper, mem_ofPairs_iff, List.forall_mem_map]

end PinMap

namespace PinTable

open PinMap (DistinctUpper Listed)

/-- The table has the entries of the map and no others. -/
structure Mirrors (t : PinTable) (m : PinMap) : Prop where
  lookup_iff : ∀ query location, t.lookup query = some location ↔ m.Entry query location
  size_eq : t.size = m.size

theorem Mirrors.lookup_eq {t : PinTable} {m : PinMap} (h : t.Mirrors m) {name location : String}
    (hm : m[name]? = some location) : t.lookup name = some location :=
  (h.lookup_iff name location).mpr ⟨name, hm, rfl⟩

theorem Mirrors.unique {t u : PinTable} {m : PinMap} (ht : t.Mirrors m) (hu : u.Mirrors m) :
    t = u := by
  apply ext_lookup
  intro query
  apply Option.ext
  intro location
  exact (ht.lookup_iff query location).trans (hu.lookup_iff query location).symm

theorem mirrors_empty : Mirrors empty ∅ := by
  constructor
  · intro query location
    rw [lookup_empty]
    simp [PinMap.Entry]
  · rfl

theorem Mirrors.isSome_iff {t : PinTable} {m : PinMap} (h : t.Mirrors m) {name location : String}
    (hdistinct : DistinctUpper (m.insert name location)) :
    (t.lookup name).isSome = true ↔ name ∈ m := by
  rw [Option.isSome_iff_exists, ← PinMap.exists_getElem?_iff]
  constructor
  · intro hfound
    obtain ⟨l, hl⟩ := hfound
    obtain ⟨other, hother, hupper⟩ := (h.lookup_iff name l).mp hl
    rw [← hdistinct.eq_of_insert (PinMap.mem_of_getElem?_eq_some hother) hupper]
    exact ⟨l, hother⟩
  · intro hfound
    obtain ⟨l, hl⟩ := hfound
    exact ⟨l, h.lookup_eq hl⟩

/-- One more pair goes the same way into the table and the map, if its name is not another name of
the map in upper case. -/
theorem Mirrors.insert {t : PinTable} {m : PinMap} (h : t.Mirrors m) {name location : String}
    (hdistinct : DistinctUpper (m.insert name location)) :
    (t.insert name location).Mirrors (m.insert name location) := by
  constructor
  · intro query l
    rw [lookup_insert, PinMap.entry_insert_iff hdistinct]
    split
    · exact Option.some_inj
    · exact h.lookup_iff query l
  · have hcontains : m.contains name = true ↔ (t.lookup name).isSome = true :=
      (h.isSome_iff hdistinct).symm
    simp only [size_insert, Std.ExtTreeMap.size_insert, hcontains, h.size_eq]

theorem ofPairs_concat (pairs : List (String × String)) (name location : String) :
    ofPairs (pairs ++ [(name, location)]) = (ofPairs pairs).insert name location := by
  rw [ofPairs_eq_editAll, ofPairs_eq_editAll, insertions, List.map_append, editAll,
    List.foldl_append]
  rfl

theorem mirrors_ofPairs {pairs : List (String × String)}
    (h : DistinctUpper (PinMap.ofPairs pairs)) : (ofPairs pairs).Mirrors (PinMap.ofPairs pairs) := by
  induction pairs using List.reverseRecOn with
  | nil => exact mirrors_empty
  | append_singleton pairs p ih =>
    rw [PinMap.ofPairs_concat] at h
    rw [PinMap.ofPairs_concat, ofPairs_concat]
    exact (ih h.of_insert).insert h

theorem mirrors_of_listed {m : PinMap} {pairs : List (String × String)} (hl : m.Listed pairs)
    (h : m.DistinctUpper) : (ofPairs pairs).Mirrors m := by
  have hm : PinMap.ofPairs pairs = m := hl.ofPairs_eq
  subst hm
  exact mirrors_ofPairs h

theorem mirrors_ofMap (order : PinMap.Order) {m : PinMap} (h : m.DistinctUpper) :
    (ofMap order m).Mirrors m :=
  mirrors_of_listed (PinMap.listed_of_perm (order.perm m)) h

theorem ofPairs_eq_ofMap (order : PinMap.Order) {m : PinMap} {pairs : List (String × String)}
    (hl : m.Listed pairs) (h : m.DistinctUpper) : ofPairs pairs = ofMap order m :=
  (mirrors_of_listed hl h).unique (mirrors_ofMap order h)

theorem ofMap_eq_ofMap (order order' : PinMap.Order) {m : PinMap} (h : m.DistinctUpper) :
    ofMap order m = ofMap order' m :=
  (mirrors_ofMap order h).unique (mirrors_ofMap order' h)

/-- The map that a document describes in its format. -/
inductive Describes : TableFormat → Octets.Delivery → PinMap → Prop where
  | json {d : Octets.Delivery} {pairs : List (String × String)} : Json.pairs d = .ok pairs →
      Describes .json d (.ofPairs pairs)
  | yaml {d : Octets.Delivery} {text : String} {pairs : List (String × String)} :
      d.complete = true → d.octets.text? = some text → Yaml.pairs? text = some pairs →
        Describes .yaml d (.ofPairs pairs)

theorem read_of_describes (reader : Reader) {format : TableFormat} {d : Octets.Delivery}
    {m : PinMap} (hd : Describes format d m) :
    read reader format d = .ok (ofMap reader.order m) := by
  cases hd with
  | json hp => simp only [read, ofJson, hp]
  | yaml hc ht hp => simp [read, ofYaml, hc, ht, hp]

/-- If no two names of a map are the same in upper case, all orders of its pairs give one table,
which has the entries of the map; and so does a document of the map, in either format and however
the pairs of a map come out. -/
theorem ofMap_any_order {m : PinMap} (h : m.DistinctUpper) (order : PinMap.Order) :
    (∀ pairs : List (String × String), pairs.Perm m.toList → ofPairs pairs = ofMap order m) ∧
    (ofMap order m).size = m.size ∧
    (∀ name location, m[name]? = some location → (ofMap order m).lookup name = some location) ∧
    (∀ pairs, m.Listed pairs → ofPairs pairs = ofMap order m) ∧
    ∀ (reader reader' : Reader) (json yaml : Octets.Delivery), Describes .json json m →
      Describes .yaml yaml m → read reader .json json = read reader' .yaml yaml ∧
        read reader' .yaml yaml = .ok (ofMap order m) := by
  refine ⟨?_, (mirrors_ofMap order h).size_eq, ?_, ?_, ?_⟩
  · intro pairs hp
    exact ofPairs_eq_ofMap order (PinMap.listed_of_perm hp) h
  · intro name location hm
    exact (mirrors_ofMap order h).lookup_eq hm
  · intro pairs hl
    exact ofPairs_eq_ofMap order hl h
  · intro reader reader' json yaml hj hy
    rw [read_of_describes reader hj, read_of_describes reader' hy,
      ofMap_eq_ofMap reader.order order h, ofMap_eq_ofMap reader'.order order h]
    exact ⟨rfl, rfl⟩

/-- A part of a board, with one name in small letters. -/
def board : PinMap := .ofPairs [("SW[0]", "PIN_C10"), ("sw[1]", "PIN_C11"), ("CLOCK_50", "PIN_P11")]

/-- The board with a location that is taken back further on. -/
def boardJson : Octets.Delivery :=
  Octets.whole (Octets.ofText ("\x7b\"sw[1]\": \"PIN_C11\", \"SW[0]\": \"PIN_C9\", " ++
    "\"CLOCK_50\": \"PIN_P11\", \"SW[0]\": \"PIN_C10\"\x7d"))

def boardYaml : Octets.Delivery :=
  Octets.whole (Octets.ofText "SW[0]: PIN_C10\nsw[1]: PIN_C11\nCLOCK_50: PIN_P11\n")

theorem describes_boardJson : Describes .json boardJson board := by
  have hboard : board = .ofPairs [("sw[1]", "PIN_C11"), ("SW[0]", "PIN_C9"),
      ("CLOCK_50", "PIN_P11"), ("SW[0]", "PIN_C10")] := by
    decide +kernel
  rw [hboard]
  exact .json (by decide +kernel)

theorem describes_boardYaml : Describes .yaml boardYaml board :=
  .yaml rfl (Octets.text?_ofText _) (by decide +kernel)

/-- The pairs of every map, those with the greatest names first. -/
def backwards : PinMap.Order := ⟨fun m => m.toList.reverse, fun m => m.toList.reverse_perm⟩

theorem ofMap_any_order_board :
    board.DistinctUpper ∧
    [("sw[1]", "PIN_C11"), ("SW[0]", "PIN_C10"), ("CLOCK_50", "PIN_P11")].Perm board.toList ∧
    ofPairs [("sw[1]", "PIN_C11"), ("SW[0]", "PIN_C10"), ("CLOCK_50", "PIN_P11")] =
      ofMap backwards board ∧
    (ofMap backwards board).size = board.size ∧
    (ofMap backwards board).lookup "sw[1]" = some "PIN_C11" ∧
    read (.silent .byName) .json boardJson = read (.silent backwards) .yaml boardYaml ∧
    read (.silent backwards) .yaml boardYaml = .ok (ofMap backwards board) := by
  have hdistinct : board.DistinctUpper := PinMap.distinctUpper_ofPairs_iff.mpr (by decide +kernel)
  have hperm : [("sw[1]", "PIN_C11"), ("SW[0]", "PIN_C10"), ("CLOCK_50", "PIN_P11")].Perm
      board.toList := by
    decide +kernel
  obtain ⟨horder, hsize, hlookup, _, hread⟩ := ofMap_any_order hdistinct backwards
  exact ⟨hdistinct, hperm, horder _ hperm, hsize, hlookup _ _ (by decide +kernel),
    hread _ _ _ _ describes_boardJson describes_boardYaml⟩

/-- Of two names that are the same in upper case the later one wins, so their order does show. -/
example : ofMap .byName (.ofPairs [("led", "P1"), ("LED", "P2")]) ≠
    ofMap backwards (.ofPairs [("led", "P1"), ("LED", "P2")]) := by
  decide +kernel

end PinTable

end Pinout
