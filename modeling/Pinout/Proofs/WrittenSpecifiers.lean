import Pinout.Proofs.LineShapes
import Pinout.Proofs.SpecifierLife

/-!
Specifiers as they are written. A grammar reads just what it writes, with the same numerals, and no
two grammars read the same text; so the order in which they are tried is of no account.
-/

namespace Pinout

theorem Numeral.isNumeral_iff {cs : List Char} :
    isNumeral cs = true ↔ cs ≠ [] ∧ ∀ c ∈ cs, c.isDigit = true := by
  simp [isNumeral, List.isEmpty_eq_false_iff]

namespace Grammar

open Pattern (Ends run)

/-- How a grammar writes numerals. It takes a fixed number of them, or as a list any number but
none. -/
def write? : Grammar → List String → Option String
  | list, n :: ns => some (",".intercalate (n :: ns))
  | range, [first, last] => some (first ++ ".." ++ last)
  | strideTo, [start, step, last] => some (start ++ ":" ++ step ++ ".." ++ last)
  | stride, [start, step, last] => some (start ++ ":" ++ step ++ ":" ++ last)
  | reuse, [] => some ".."
  | shift, [offset] => some (offset ++ "..")
  | countUp, [start] => some (start ++ "..#")
  | countDown, [last] => some ("#.." ++ last)
  | strideAlong, [start, step] => some (start ++ ":" ++ step ++ ":#")
  | _, _ => none

/-- The text is what the grammar writes for these numerals. -/
structure Writes (g : Grammar) (captures : List String) (text : String) : Prop where
  isNumeral : ∀ c ∈ captures, Numeral.isNumeral c.toList = true
  write_eq : g.write? captures = some text

/-- The characters of the pieces, with the numerals put in their places. -/
def fill : List Piece → List (List Char) → Option (List Char)
  | [], [] => some []
  | [], _ :: _ => none
  | .mark c :: ps, ns => (fill ps ns).map (c :: ·)
  | .numeral :: ps, n :: ns => (fill ps ns).map (n ++ ·)
  | .numeral :: _, [] => none

/-- No mark is a digit, and two numerals have a mark between them. -/
def Parted : List Piece → Prop
  | [] => True
  | .mark c :: ps => c.isDigit = false ∧ Parted ps
  | .numeral :: ps => ps.head? ≠ some .numeral ∧ Parted ps

theorem parted_pieces (g : Grammar) : Parted g.pieces := by
  cases g <;> simp [pieces, Parted]

theorem fill_pieces {g : Grammar} (hg : g ≠ list) (captures : List String) :
    fill g.pieces (captures.map String.toList) = (g.write? captures).map String.toList := by
  cases g with
  | list => exact absurd rfl hg
  | reuse => rcases captures with _ | ⟨_, _⟩ <;> simp [pieces, fill, write?]
  | shift | countUp | countDown =>
    rcases captures with _ | ⟨a, _ | ⟨_, _⟩⟩ <;> simp [pieces, fill, write?]
  | range | strideAlong =>
    rcases captures with _ | ⟨a, _ | ⟨b, _ | ⟨_, _⟩⟩⟩ <;> simp [pieces, fill, write?]
  | strideTo | stride =>
    rcases captures with _ | ⟨a, _ | ⟨b, _ | ⟨c, _ | ⟨_, _⟩⟩⟩⟩ <;> simp [pieces, fill, write?]

theorem readPieces_nil_eq_some_iff {cs : List Char} {ns : List (List Char)} :
    readPieces [] cs = some ns ↔ cs = [] ∧ ns = [] := by
  cases cs <;> simp [readPieces, eq_comm]

theorem readPieces_mark_eq_some_iff {c : Char} {ps : List Piece} {cs : List Char}
    {ns : List (List Char)} :
    readPieces (.mark c :: ps) cs = some ns ↔
      ∃ rest, cs = c :: rest ∧ readPieces ps rest = some ns := by
  cases cs with
  | nil => simp [readPieces]
  | cons d rest =>
    by_cases hd : c = d
    · simp [readPieces, hd]
    · simp [readPieces, hd, Ne.symm hd]

theorem readPieces_numeral_eq_some_iff {ps : List Piece} {cs : List Char}
    {ns : List (List Char)} :
    readPieces (.numeral :: ps) cs = some ns ↔
      ∃ n rest ms, run Char.isDigit cs = some (n, rest) ∧ readPieces ps rest = some ms ∧
        ns = n :: ms := by
  simp only [readPieces, run]
  split
  · simp
  · rw [Option.map_eq_some_iff]
    constructor
    · rintro ⟨ms, hms, rfl⟩
      exact ⟨_, _, ms, rfl, hms, rfl⟩
    · rintro ⟨n, rest, ms, hrun, hms, rfl⟩
      cases hrun
      exact ⟨ms, hms, rfl⟩

theorem ends_of_fill {ps : List Piece} {ns : List (List Char)} {cs : List Char} (hp : Parted ps)
    (hhead : ps.head? ≠ some .numeral) (h : fill ps ns = some cs) : Ends Char.isDigit cs := by
  cases ps with
  | nil =>
    cases ns with
    | nil =>
      cases h
      exact nofun
    | cons n ns => cases h
  | cons p ps =>
    cases p with
    | numeral => exact absurd rfl hhead
    | mark c =>
      obtain ⟨rest, _, rfl⟩ := Option.map_eq_some_iff.mp h
      exact Ends.cons hp.1 rest

theorem readPieces_eq_some_iff {ps : List Piece} (hp : Parted ps) {cs : List Char}
    {ns : List (List Char)} :
    readPieces ps cs = some ns ↔
      (∀ n ∈ ns, Numeral.isNumeral n = true) ∧ fill ps ns = some cs := by
  induction ps generalizing cs ns with
  | nil =>
    rw [readPieces_nil_eq_some_iff]
    cases ns with
    | nil => simp [fill, @eq_comm _ [] cs]
    | cons n ns => simp [fill]
  | cons p ps ih =>
    cases p with
    | mark c =>
      simp only [readPieces_mark_eq_some_iff, ih hp.2, fill, Option.map_eq_some_iff]
      constructor
      · rintro ⟨rest, rfl, hns, hfill⟩
        exact ⟨hns, rest, hfill, rfl⟩
      · rintro ⟨hns, rest, hfill, rfl⟩
        exact ⟨rest, rfl, hns, hfill⟩
    | numeral =>
      simp only [readPieces_numeral_eq_some_iff, ih hp.2, Pattern.run_eq_some_iff_append]
      constructor
      · rintro ⟨n, rest, ms, ⟨rfl, hne, hdigits, _⟩, ⟨hms, hfill⟩, rfl⟩
        refine ⟨List.forall_mem_cons.mpr ⟨Numeral.isNumeral_iff.mpr ⟨hne, hdigits⟩, hms⟩, ?_⟩
        rw [fill, hfill]
        rfl
      · rintro ⟨hns, hfill⟩
        cases ns with
        | nil => cases hfill
        | cons n ms =>
          obtain ⟨hn, hms⟩ := List.forall_mem_cons.mp hns
          obtain ⟨rest, hrest, rfl⟩ := Option.map_eq_some_iff.mp hfill
          obtain ⟨hne, hdigits⟩ := Numeral.isNumeral_iff.mp hn
          -- what follows a numeral is no digit, so the run of digits is the numeral
          exact ⟨n, rest, ms, ⟨rfl, hne, hdigits, ends_of_fill hp.2 hp.1 hrest⟩, ⟨hms, hrest⟩, rfl⟩

theorem not_run_of_mark {c : Char} (hc : c.isDigit = false) {cs n rest : List Char} :
    run Char.isDigit (c :: cs) ≠ some (n, rest) := by
  simp [run, hc]

/-- A text can be read by one sequence of pieces only. -/
theorem pieces_unique {ps qs : List Piece} (hp : Parted ps) (hq : Parted qs) {cs : List Char}
    {ns ms : List (List Char)} (h : readPieces ps cs = some ns) (h' : readPieces qs cs = some ms) :
    ps = qs := by
  -- the text starts with a mark or with a digit, and so the first pieces agree
  induction ps generalizing qs cs ns ms with
  | nil =>
    obtain ⟨rfl, _⟩ := readPieces_nil_eq_some_iff.mp h
    cases qs with
    | nil => rfl
    | cons q qs => cases q <;> cases h'
  | cons p ps ih =>
    cases p with
    | mark c =>
      obtain ⟨rest, rfl, hrest⟩ := readPieces_mark_eq_some_iff.mp h
      cases qs with
      | nil => cases h'
      | cons q qs =>
        cases q with
        | mark d =>
          obtain ⟨rest', he, hrest'⟩ := readPieces_mark_eq_some_iff.mp h'
          cases he
          rw [ih hp.2 hq.2 hrest hrest']
        | numeral =>
          obtain ⟨n, rest', _, hrun, _⟩ := readPieces_numeral_eq_some_iff.mp h'
          exact absurd hrun (not_run_of_mark hp.1)
    | numeral =>
      obtain ⟨n, rest, _, hrun, hrest, _⟩ := readPieces_numeral_eq_some_iff.mp h
      cases qs with
      | nil =>
        obtain ⟨rfl, _⟩ := readPieces_nil_eq_some_iff.mp h'
        cases hrun
      | cons q qs =>
        cases q with
        | mark d =>
          obtain ⟨rest', rfl, _⟩ := readPieces_mark_eq_some_iff.mp h'
          exact absurd hrun (not_run_of_mark hq.1)
        | numeral =>
          obtain ⟨n', rest', _, hrun', hrest', _⟩ := readPieces_numeral_eq_some_iff.mp h'
          cases hrun.symm.trans hrun'
          rw [ih hp.2 hq.2 hrest hrest']

theorem cells_eq_splitOn (cs : List Char) : cells cs = cs.splitOn ',' := by
  induction cs with
  | nil => rfl
  | cons c cs ih =>
    rw [cells, ih, List.splitOn_cons_eq_if_modifyHead]
    by_cases hc : c = ','
    · simp [hc]
    · simp only [if_neg hc, beq_iff_eq]
      cases hs : cs.splitOn ',' with
      | nil => exact absurd hs (List.splitOn_ne_nil ',' cs)
      | cons d ds => rfl

theorem comma_not_mem_of_isNumeral {n : List Char} (h : Numeral.isNumeral n = true) : ',' ∉ n := by
  intro hmem
  exact absurd ((Numeral.isNumeral_iff.mp h).2 ',' hmem) (by decide)

theorem captureChars_list_eq_some_iff {cs : List Char} {ns : List (List Char)} :
    captureChars list cs = some ns ↔
      (∀ n ∈ ns, Numeral.isNumeral n = true) ∧ ns ≠ [] ∧ [','].intercalate ns = cs := by
  have hcapture : captureChars list cs = some ns ↔
      (∀ n ∈ cells cs, Numeral.isNumeral n = true) ∧ cells cs = ns := by
    simp [captureChars]
  rw [hcapture, cells_eq_splitOn]
  constructor
  · rintro ⟨hns, rfl⟩
    exact ⟨hns, List.splitOn_ne_nil ',' cs, List.intercalate_splitOn ','⟩
  · rintro ⟨hns, hne, rfl⟩
    have hsplit :=
      List.splitOn_intercalate ',' (fun n hn => comma_not_mem_of_isNumeral (hns n hn)) hne
    exact ⟨by rwa [hsplit], hsplit⟩

theorem captureChars_of_ne_list {g : Grammar} (hg : g ≠ list) (cs : List Char) :
    captureChars g cs = readPieces g.pieces cs := by
  cases g with
  | list => exact absurd rfl hg
  | _ => rfl

theorem capture_eq_some_iff_chars {g : Grammar} {text : String} {captures : List String} :
    g.capture text = some captures ↔
      g.captureChars text.toList = some (captures.map String.toList) := by
  rw [capture, Option.map_eq_some_iff]
  constructor
  · rintro ⟨ns, hns, rfl⟩
    simpa using hns
  · intro h
    exact ⟨_, h, by simp⟩

theorem write?_list_eq_some_iff {captures : List String} {text : String} :
    write? list captures = some text ↔ captures ≠ [] ∧ ",".intercalate captures = text := by
  cases captures <;> simp [write?]

/-- A grammar reads exactly what it writes. -/
theorem capture_eq_some_iff {g : Grammar} {text : String} {captures : List String} :
    g.capture text = some captures ↔ g.Writes captures text := by
  have hwrites : g.Writes captures text ↔
      (∀ n ∈ captures.map String.toList, Numeral.isNumeral n = true) ∧
        g.write? captures = some text := by
    rw [List.forall_mem_map]
    exact ⟨fun h => ⟨h.isNumeral, h.write_eq⟩, fun h => ⟨h.1, h.2⟩⟩
  rw [capture_eq_some_iff_chars, hwrites]
  by_cases hg : g = list
  · subst hg
    rw [captureChars_list_eq_some_iff, write?_list_eq_some_iff, ← String.toList_inj,
      String.toList_intercalate, ne_eq, List.map_eq_nil_iff]
    rfl
  · rw [captureChars_of_ne_list hg, readPieces_eq_some_iff (parted_pieces g), fill_pieces hg,
      Option.map_eq_some_iff]
    simp only [String.toList_inj, exists_eq_right]

example : capture list "1,02" = some ["1", "02"] ∧ capture list "1,02\n" = none ∧
    capture list "1,,2" = none ∧ capture range "1...3" = none := by
  decide +kernel

theorem pieces_inj {g h : Grammar} (he : g.pieces = h.pieces) : g = h := by
  cases g <;> cases h <;> simp [pieces] at he ⊢

theorem mem_of_readPieces {ps : List Piece} {cs : List Char} {ns : List (List Char)} {c : Char}
    (h : readPieces ps cs = some ns) (hc : .mark c ∈ ps) : c ∈ cs := by
  induction ps generalizing cs ns with
  | nil => cases hc
  | cons p ps ih =>
    cases p with
    | mark d =>
      obtain ⟨rest, rfl, hrest⟩ := readPieces_mark_eq_some_iff.mp h
      rcases List.mem_cons.mp hc with he | hc
      · cases he
        exact List.mem_cons_self
      · exact List.mem_cons_of_mem d (ih hrest hc)
    | numeral =>
      obtain ⟨n, rest, _, hrun, hrest, _⟩ := readPieces_numeral_eq_some_iff.mp h
      rw [← Pattern.append_of_run hrun]
      rcases List.mem_cons.mp hc with he | hc
      · cases he
      · exact List.mem_append_right n (ih hrest hc)

theorem mem_intercalate_numerals {ns : List (List Char)}
    (hns : ∀ n ∈ ns, Numeral.isNumeral n = true) {c : Char} (hc : c ∈ [','].intercalate ns) :
    c = ',' ∨ c.isDigit = true := by
  induction ns with
  | nil => cases hc
  | cons n ns ih =>
    obtain ⟨hn, hrest⟩ := List.forall_mem_cons.mp hns
    have hdigits := (Numeral.isNumeral_iff.mp hn).2
    cases ns with
    | nil =>
      rw [List.intercalate_singleton] at hc
      exact Or.inr (hdigits c hc)
    | cons m ns =>
      rw [List.intercalate_cons_cons, List.mem_append, List.mem_append, List.mem_singleton] at hc
      rcases hc with (hc | rfl) | hc
      · exact Or.inr (hdigits c hc)
      · exact Or.inl rfl
      · exact ih hrest hc

theorem mark_mem_pieces {g : Grammar} (hg : g ≠ list) :
    .mark '.' ∈ g.pieces ∨ .mark ':' ∈ g.pieces := by
  cases g <;> simp [pieces] at hg ⊢

/-- Only the other grammars put points and colons between numerals. -/
theorem readPieces_of_list {cs : List Char} {ns : List (List Char)}
    (h : captureChars list cs = some ns) {g : Grammar} (hg : g ≠ list) (ms : List (List Char)) :
    readPieces g.pieces cs ≠ some ms := by
  intro hread
  obtain ⟨hns, _, rfl⟩ := captureChars_list_eq_some_iff.mp h
  rcases mark_mem_pieces hg with hmark | hmark
  · exact absurd (mem_intercalate_numerals hns (mem_of_readPieces hread hmark)) (by decide)
  · exact absurd (mem_intercalate_numerals hns (mem_of_readPieces hread hmark)) (by decide)

/-- No two grammars read the same text. -/
theorem capture_unique {g h : Grammar} {text : String} {captures captures' : List String}
    (hg : g.capture text = some captures) (hh : h.capture text = some captures') : g = h := by
  rw [capture_eq_some_iff_chars] at hg hh
  by_cases hgl : g = list
  · subst hgl
    by_cases hhl : h = list
    · exact hhl.symm
    · rw [captureChars_of_ne_list hhl] at hh
      exact absurd hh (readPieces_of_list hg hhl _)
  · rw [captureChars_of_ne_list hgl] at hg
    by_cases hhl : h = list
    · subst hhl
      exact absurd hg (readPieces_of_list hh hgl _)
    · rw [captureChars_of_ne_list hhl] at hh
      exact pieces_inj (pieces_unique (parted_pieces g) (parted_pieces h) hg hh)

end Grammar

namespace Specifier

/-- What `recognize` does, with the grammars tried in another order. -/
def recognizeIn (order : List Grammar) (text : String) : Option (Grammar × List String) :=
  order.findSome? fun g => (g.capture text).map (g, ·)

/-- What `resolve` does, with the grammars tried in another order. -/
def resolveIn (order : List Grammar) (text : String) : Except ResolveError Specifier :=
  match recognizeIn order (Text.trim text) with
  | none => .error (.unrecognized (Text.trim text))
  | some (g, captures) => (ownContent g captures).map (⟨Text.trim text, g, captures, ·⟩)

theorem recognizeIn_all (text : String) : recognizeIn Grammar.all text = recognize text := rfl

theorem resolveIn_all (text : String) : resolveIn Grammar.all text = resolve text := by
  cases hr : recognize (Text.trim text) with
  | none => simp only [resolveIn, recognizeIn_all, resolve_eq, hr]
  | some found => simp only [resolveIn, recognizeIn_all, resolve_eq, hr]

theorem recognizeIn_eq_some_iff {order : List Grammar} {text : String} {g : Grammar}
    {captures : List String} :
    recognizeIn order text = some (g, captures) ↔ g ∈ order ∧ g.capture text = some captures := by
  constructor
  · intro h
    obtain ⟨h', hmem, hmap⟩ := List.exists_of_findSome?_eq_some h
    obtain ⟨captures', hcapture, he⟩ := Option.map_eq_some_iff.mp hmap
    cases he
    exact ⟨hmem, hcapture⟩
  · rintro ⟨hmem, hcapture⟩
    have hsome : (recognizeIn order text).isSome = true := by
      rw [recognizeIn, List.findSome?_isSome_iff]
      exact ⟨g, hmem, by simp [hcapture]⟩
    obtain ⟨⟨h, captures'⟩, hfound⟩ := Option.isSome_iff_exists.mp hsome
    obtain ⟨h', _, hmap⟩ := List.exists_of_findSome?_eq_some hfound
    obtain ⟨captures'', hcapture', he⟩ := Option.map_eq_some_iff.mp hmap
    cases he
    -- whichever grammar was found, it reads the same text
    cases Grammar.capture_unique hcapture hcapture'
    cases hcapture.symm.trans hcapture'
    exact hfound

theorem recognize_eq_some_iff {text : String} {g : Grammar} {captures : List String} :
    recognize text = some (g, captures) ↔ g.Writes captures text := by
  rw [← Grammar.capture_eq_some_iff]
  exact recognizeIn_eq_some_iff.trans (and_iff_right (Grammar.mem_all g))

theorem recognizeIn_congr {order order' : List Grammar} (h : ∀ g, g ∈ order ↔ g ∈ order')
    (text : String) : recognizeIn order text = recognizeIn order' text := by
  apply Option.ext
  rintro ⟨g, captures⟩
  rw [recognizeIn_eq_some_iff, recognizeIn_eq_some_iff, h]

theorem resolveIn_of_perm {order : List Grammar} (h : order.Perm Grammar.all) (text : String) :
    resolveIn order text = resolve text := by
  rw [← resolveIn_all, resolveIn, recognizeIn_congr (fun g => h.mem_iff), resolveIn]

/-- Reading a specifier is the inverse of writing it: every grammar reads what it writes and nothing
else, no text has two grammars, whichever is tried first, and a specifier comes back from its
text. -/
theorem capture_inverts_write :
    (∀ g text captures, Grammar.capture g text = some captures ↔ g.Writes captures text) ∧
    (∀ (g h : Grammar) text captures captures', g.capture text = some captures →
      h.capture text = some captures' → g = h) ∧
    (∀ order text, List.Perm order Grammar.all → resolveIn order text = resolve text) ∧
    ∀ text s, resolve text = .ok s → resolve s.text = .ok s := by
  refine ⟨fun g text captures => Grammar.capture_eq_some_iff, ?_, ?_, ?_⟩
  · intro g h text captures captures' hg hh
    exact Grammar.capture_unique hg hh
  · intro order text horder
    exact resolveIn_of_perm horder text
  · intro text s h
    exact (resolve_text_of_resolve h).2

theorem capture_inverts_write_reversed :
    Grammar.capture .stride "007:0:2" = some ["007", "0", "2"] ∧
    Grammar.Writes .stride ["007", "0", "2"] "007:0:2" ∧
    Grammar.capture .strideAlong "007:0:2" ≠ some ["007", "0"] ∧
    resolveIn Grammar.all.reverse "\t007:0:2\n" = resolve "\t007:0:2\n" ∧
    resolve "\t007:0:2\n" = .ok ⟨"007:0:2", .stride, ["007", "0", "2"], some [7, 7, 7]⟩ ∧
    resolve "007:0:2" = .ok ⟨"007:0:2", .stride, ["007", "0", "2"], some [7, 7, 7]⟩ := by
  have hcapture : Grammar.capture .stride "007:0:2" = some ["007", "0", "2"] := by decide +kernel
  have hresolve : resolve "\t007:0:2\n" =
      .ok ⟨"007:0:2", .stride, ["007", "0", "2"], some [7, 7, 7]⟩ := by decide +kernel
  obtain ⟨hwrites, hunique, horder, hagain⟩ := capture_inverts_write
  have hback := hagain _ _ hresolve
  refine ⟨hcapture, (hwrites _ _ _).mp hcapture, fun h => ?_, ?_, hresolve, hback⟩
  · cases hunique _ _ _ _ _ hcapture h
  · exact horder _ _ (List.reverse_perm Grammar.all)

end Specifier

end Pinout
