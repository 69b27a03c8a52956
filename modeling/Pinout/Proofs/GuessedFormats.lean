import Pinout.Proofs.LowerCase
import Pinout.Proofs.TableFromMap

/-!
How a table is opened. The name of its file counts for nothing but the guess: format and compression
are the given ones or else the guessed ones, and no file is looked for before the format is known.
-/

namespace Pinout

namespace Path

/-- The name of a file within its directory. -/
structure IsFileName (name : String) : Prop where
  no_slash : '/' ∉ name.toList
  ne_empty : name ≠ ""
  ne_dot : name ≠ "."
  ne_dots : name ≠ ".."

/-- What can stand before the name of a file. -/
def IsDirectoryPart (part : String) : Prop := part = "" ∨ ∃ directory, part = directory ++ "/"

theorem segments_ne_nil (cs : List Char) : segments cs ≠ [] := by
  cases cs with
  | nil => simp [segments]
  | cons c cs =>
    unfold segments
    split
    · simp
    · split <;> simp

theorem segments_append_slash (cs ds : List Char) :
    segments (cs ++ '/' :: ds) = segments cs ++ segments ds := by
  induction cs with
  | nil => simp [segments]
  | cons c cs ih =>
    obtain ⟨s, ss, hs⟩ := List.exists_cons_of_ne_nil (segments_ne_nil cs)
    rw [List.cons_append, segments, segments, ih, hs]
    split <;> rfl

theorem segments_of_no_slash {cs : List Char} (h : '/' ∉ cs) : segments cs = [cs] := by
  induction cs with
  | nil => rfl
  | cons c cs ih =>
    rw [List.mem_cons, not_or] at h
    rw [segments, if_neg (Ne.symm h.1), ih h.2]

theorem IsFileName.names_eq {part name : String} (h : IsFileName name) (hp : IsDirectoryPart part) :
    ∃ before, (ofText (part ++ name)).names = before ++ [name] := by
  have hname : ((segments name.toList).filter (!·.isEmpty)).map String.ofList = [name] := by
    have hne : name.toList ≠ [] := by simpa using h.ne_empty
    simp [segments_of_no_slash h.no_slash, hne]
  rcases hp with rfl | ⟨directory, rfl⟩
  · exact ⟨[], by simpa [ofText] using hname⟩
  · refine ⟨((segments directory.toList).filter (!·.isEmpty)).map String.ofList, ?_⟩
    have htext : (directory ++ "/" ++ name).toList = directory.toList ++ '/' :: name.toList := by
      simp
    simp only [ofText, htext, segments_append_slash, List.filter_append, List.map_append, hname]

theorem IsFileName.fileName?_eq {part name : String} (h : IsFileName name)
    (hp : IsDirectoryPart part) : (ofText (part ++ name)).fileName? = some name := by
  obtain ⟨before, hnames⟩ := h.names_eq hp
  have hlast : ((ofText (part ++ name)).names.filter (· ≠ ".")).getLast? = some name := by
    simp [hnames, List.filter_append, h.ne_dot]
  unfold fileName?
  rw [hlast]
  split
  · rename_i heq
    exact absurd (Option.some.inj heq) h.ne_dots
  · rfl

theorem IsFileName.gz {name : String} (h : IsFileName name) : IsFileName (name ++ ".gz") := by
  have hlength : 3 ≤ (name ++ ".gz").length := by
    rw [String.length_append]
    exact Nat.le_add_left _ _
  refine ⟨?_, ?_, ?_, ?_⟩
  · simpa using h.no_slash
  all_goals
    intro heq
    rw [heq] at hlength
    exact absurd hlength (by decide)

end Path

namespace PinTable

open Pinout.Path (IsFileName IsDirectoryPart)
open Text (Lowered Plain)

/-- The name of the file that a path is for, which is empty if there is none. -/
def finalName (path : String) : String := ((Path.ofText path).fileName?).getD ""

/-- What is left of a name without its ending `.gz`, which is taken off as three octets. -/
structure Stem (name stem : List Char) : Prop where
  zipped : ".gz".toList <:+ name → Octets.ofText (String.ofList stem) =
    (Octets.ofText (String.ofList name)).take ((Octets.ofText (String.ofList name)).length - 3)
  plain : ¬ ".gz".toList <:+ name → stem = name

/-- The guess goes by the endings of the name, which is in small letters. -/
structure Says (name : List Char) (g : Guess) : Prop where
  isGzipped_iff : g.isGzipped = true ↔ ".gz".toList <:+ name
  format_iff : ∃ stem, Stem name stem ∧
    (g.format = some .json ↔ ".json".toList <:+ stem) ∧
    (g.format = some .yaml ↔ ".yaml".toList <:+ stem ∨ ".yml".toList <:+ stem)

theorem formatOf_json_iff {name : List Char} :
    formatOf name = some .json ↔ ".json".toList <:+ name := by
  unfold formatOf
  split
  · rename_i h
    simpa using h
  · rename_i h
    split <;> simpa using h

/-- No name has two of the endings. -/
theorem not_json_of_yaml {name : List Char}
    (h : ".yaml".toList <:+ name ∨ ".yml".toList <:+ name) : ¬ ".json".toList <:+ name := by
  intro hjson
  rcases h with h | h
  · exact absurd (List.suffix_of_suffix_length_le h hjson (by decide)) (by decide)
  · exact absurd (List.suffix_of_suffix_length_le h hjson (by decide)) (by decide)

theorem formatOf_yaml_iff {name : List Char} :
    formatOf name = some .yaml ↔ ".yaml".toList <:+ name ∨ ".yml".toList <:+ name := by
  unfold formatOf
  split
  · rename_i h
    refine iff_of_false nofun ?_
    intro hyaml
    exact not_json_of_yaml hyaml (List.isSuffixOf_iff_suffix.mp h)
  · rw [← List.isSuffixOf_iff_suffix, ← List.isSuffixOf_iff_suffix, ← Bool.or_eq_true]
    split
    · rename_i h
      exact iff_of_true rfl h
    · rename_i h
      exact iff_of_false nofun h

theorem guessName_of_zipped {start last : List Char} (h : last.map Char.toLower = ".gz".toList) :
    guessName (start ++ last) = ⟨formatOf (start.map Char.toLower), true⟩ := by
  have hstem : beforeEnding? ".gz".toList ((start ++ last).map Char.toLower) =
      some (start.map Char.toLower) := by
    rw [List.map_append, h, beforeEnding?, if_pos (by simp)]
    simp
  simp only [guessName, hstem]

theorem guessName_of_plain {name : List Char} (h : ¬ ".gz".toList <:+ name.map Char.toLower) :
    guessName name = ⟨formatOf (name.map Char.toLower), false⟩ := by
  have hstem : beforeEnding? ".gz".toList (name.map Char.toLower) = none := by
    rw [beforeEnding?, if_neg]
    rwa [List.isSuffixOf_iff_suffix]
  simp only [guessName, hstem]

theorem plain_gz : Plain ".gz".toList := by
  simp [Plain]

theorem formatOf_lowered {name lowered : List Char} (h : Lowered name lowered) :
    (formatOf (name.map Char.toLower) = some .json ↔ ".json".toList <:+ lowered) ∧
    (formatOf (name.map Char.toLower) = some .yaml ↔
      ".yaml".toList <:+ lowered ∨ ".yml".toList <:+ lowered) := by
  have hjson : Plain ".json".toList := by simp [Plain]
  have hyaml : Plain ".yaml".toList := by simp [Plain]
  have hyml : Plain ".yml".toList := by simp [Plain]
  rw [formatOf_json_iff, formatOf_yaml_iff, h.endsWith_iff hjson, h.endsWith_iff hyaml,
    h.endsWith_iff hyml]
  exact ⟨Iff.rfl, Iff.rfl⟩

theorem stem_of_zipped (stem : List Char) : Stem (stem ++ ".gz".toList) stem := by
  constructor
  · intro _
    have happend : Octets.ofText (String.ofList (stem ++ ".gz".toList)) =
        Octets.ofText (String.ofList stem) ++ Octets.ofText ".gz" := by
      rw [String.ofList_append, Octets.ofText_append, String.ofList_toList]
    have hlength : (Octets.ofText ".gz").length = 3 := by decide
    rw [happend, List.length_append, hlength, Nat.add_sub_cancel, List.take_left]
  · intro h
    exact absurd (List.suffix_append _ _) h

theorem says_guessName {name lowered : List Char} (h : Lowered name lowered) :
    Says lowered (guessName name) := by
  by_cases hz : ".gz".toList <:+ lowered
  · obtain ⟨stem, rfl⟩ := hz
    obtain ⟨start, last, rfl, hlast, hstart⟩ := h.cut_ending plain_gz
    rw [guessName_of_zipped hlast]
    exact ⟨iff_of_true rfl (List.suffix_append _ _), stem, stem_of_zipped stem,
      formatOf_lowered hstart⟩
  · rw [guessName_of_plain (by rwa [← h.endsWith_iff plain_gz])]
    exact ⟨iff_of_false nofun hz, lowered, ⟨fun hgz => absurd hgz hz, fun _ => rfl⟩,
      formatOf_lowered h⟩

/-- How opening a table ends, whatever the guess is. -/
structure Opening (reader : Reader) (openRead : Opener) (path : String) (options : Options)
    (g : Guess) (result : Except TableError PinTable) : Prop where
  unknownFormat_iff : ∀ p, result = .error (.unknownFormat p) ↔
    p = path ∧ options.format = none ∧ g.format = none
  cantOpen_iff : ∀ p cause, result = .error (.cantOpen p cause) ↔
    p = path ∧ ¬(options.format = none ∧ g.format = none) ∧ openRead path = .error cause
  file : ∀ format content, options.format.or g.format = some format →
    openRead path = .ok (.file content) → result =
      read reader format (if options.isGzipped.getD g.isGzipped then Gzip.decompress content
        else Octets.whole content)
  directory : ∀ format, options.format.or g.format = some format →
    openRead path = .ok .directory → result = read reader format ⟨[], false⟩

theorem read_error {reader : Reader} {format : TableFormat} {d : Octets.Delivery} {e : TableError}
    (h : read reader format d = .error e) :
    (∃ problem text, e = .json problem text) ∨ ∃ text, e = .yaml text := by
  cases format with
  | json =>
    simp only [read, ofJson] at h
    split at h
    · cases h
    · cases h
      exact Or.inl ⟨_, _, rfl⟩
  | yaml =>
    simp only [read, ofYaml] at h
    split at h
    · cases h
      exact Or.inr ⟨_, rfl⟩
    · split at h
      · cases h
      · cases h
        exact Or.inr ⟨_, rfl⟩

variable {reader reader' : Reader} {openRead : Opener} {path : String} {options : Options}
  {format : TableFormat}

theorem openWith_of_unknown (h : options.format.or (guess path).format = none) :
    openWith reader openRead path options = .error (.unknownFormat path) := by
  simp only [openWith_eq, h]

theorem openWith_of_error {cause : IoError}
    (h : options.format.or (guess path).format = some format)
    (hopen : openRead path = .error cause) :
    openWith reader openRead path options = .error (.cantOpen path cause) := by
  simp only [openWith_eq, h, hopen]

theorem openWith_of_opened {entry : Entry}
    (h : options.format.or (guess path).format = some format) (hopen : openRead path = .ok entry) :
    openWith reader openRead path options =
      read reader format (delivery (options.isGzipped.getD (guess path).isGzipped) entry) := by
  simp only [openWith_eq, h, hopen]

theorem opening_of_unknown (h : options.format.or (guess path).format = none) :
    Opening reader openRead path options (guess path)
      (openWith reader openRead path options) := by
  have hnone := Option.or_eq_none_iff.mp h
  rw [openWith_of_unknown h]
  constructor
  · intro p
    rw [Except.error.injEq, TableError.unknownFormat.injEq]
    exact ⟨fun heq => ⟨heq.symm, hnone⟩, fun heq => heq.1.symm⟩
  · intro p cause
    exact iff_of_false nofun fun hcant => hcant.2.1 hnone
  · intro format content hformat
    rw [h] at hformat
    cases hformat
  · intro format hformat
    rw [h] at hformat
    cases hformat

theorem not_none_of_known (h : options.format.or (guess path).format = some format) :
    ¬(options.format = none ∧ (guess path).format = none) := by
  intro hnone
  rw [Option.or_eq_none_iff.mpr hnone] at h
  cases h

theorem opening_of_error {cause : IoError}
    (h : options.format.or (guess path).format = some format)
    (hopen : openRead path = .error cause) :
    Opening reader openRead path options (guess path)
      (openWith reader openRead path options) := by
  have hknown := not_none_of_known h
  rw [openWith_of_error h hopen]
  constructor
  · intro p
    exact iff_of_false nofun fun hunknown => hknown hunknown.2
  · intro p cause'
    rw [Except.error.injEq, TableError.cantOpen.injEq, hopen, Except.error.injEq]
    exact ⟨fun heq => ⟨heq.1.symm, hknown, heq.2⟩, fun heq => ⟨heq.1.symm, heq.2.2⟩⟩
  · intro format content _ hfile
    rw [hopen] at hfile
    cases hfile
  · intro format _ hdirectory
    rw [hopen] at hdirectory
    cases hdirectory

theorem opening_of_opened {entry : Entry}
    (h : options.format.or (guess path).format = some format) (hopen : openRead path = .ok entry) :
    Opening reader openRead path options (guess path)
      (openWith reader openRead path options) := by
  -- What reading fails with is neither of the two errors of a file that is not read.
  have hread : ∀ e, openWith reader openRead path options = .error e →
      (∃ problem text, e = .json problem text) ∨ ∃ text, e = .yaml text := by
    intro e he
    rw [openWith_of_opened h hopen] at he
    exact read_error he
  constructor
  · intro p
    refine iff_of_false ?_ fun hunknown => not_none_of_known h hunknown.2
    intro he
    exact absurd (hread _ he) (by simp)
  · intro p cause
    refine iff_of_false ?_ ?_
    · intro he
      exact absurd (hread _ he) (by simp)
    · intro hcant
      rw [hopen] at hcant
      cases hcant.2.2
  · intro format' content hformat hfile
    exact openWith_of_opened hformat hfile
  · intro format' hformat hdirectory
    exact openWith_of_opened hformat hdirectory

theorem opening (reader : Reader) (openRead : Opener) (path : String) (options : Options) :
    Opening reader openRead path options (guess path)
      (openWith reader openRead path options) := by
  rcases h : options.format.or (guess path).format with _ | format
  · exact opening_of_unknown h
  rcases hopen : openRead path with cause | entry
  · exact opening_of_error h hopen
  · exact opening_of_opened h hopen

theorem guess_eq {part name : String} (h : IsFileName name) (hp : IsDirectoryPart part) :
    guess (part ++ name) = guessName name.toList := by
  rw [guess, h.fileName?_eq hp]
  rfl

theorem guessName_gz (name : String) :
    guessName (name ++ ".gz").toList = ⟨formatOf (name.toList.map Char.toLower), true⟩ := by
  rw [String.toList_append]
  exact guessName_of_zipped (by simp)

/-- Two readers make the same of a document, as they are the same or as no order shows in it. -/
inductive Agree (reader reader' : Reader) (format : TableFormat) (d : Octets.Delivery) : Prop where
  | same : reader = reader' → Agree reader reader' format d
  | distinct {m : PinMap} : Describes format d m → m.DistinctUpper →
      Agree reader reader' format d

theorem Agree.read_eq {d : Octets.Delivery} (h : Agree reader reader' format d) :
    read reader format d = read reader' format d := by
  cases h with
  | same heq => rw [heq]
  | distinct hd hm =>
    rw [read_of_describes reader hd, read_of_describes reader' hd,
      ofMap_eq_ofMap reader.order reader'.order hm]

/-- A file with the ending `.gz` loads as the file that it is packed from. -/
theorem load_gz {openPlain openZipped : Opener} {plain zipped : String} {packed content : Octets}
    (hformat : (guess zipped).format = (guess plain).format)
    (hplain : (guess plain).isGzipped = false) (hzipped : (guess zipped).isGzipped = true)
    (hknown : (guess plain).format = some format) (hp : openPlain plain = .ok (.file content))
    (hz : openZipped zipped = .ok (.file packed))
    (hunpack : Gzip.decompress packed = Octets.whole content)
    (hagree : Agree reader reader' format (Octets.whole content)) :
    load reader openZipped zipped = load reader' openPlain plain := by
  have hload := (opening reader' openPlain plain .default).file format content hknown hp
  have hloadz := (opening reader openZipped zipped .default).file format packed
    (hformat.trans hknown) hz
  rw [load, load, hload, hloadz]
  simp only [Options.default, Option.getD_none, hplain, hzipped, if_true, hunpack,
    Bool.false_eq_true, if_false]
  exact hagree.read_eq

/-- With format and compression given the path does not count. -/
theorem openWith_of_given {open₁ open₂ : Opener} {p q : String} {entry : Entry} {isGzipped : Bool}
    (hp : open₁ p = .ok entry) (hq : open₂ q = .ok entry)
    (hagree : Agree reader reader' format (delivery isGzipped entry)) :
    openWith reader open₁ p ⟨some format, some isGzipped⟩ =
      openWith reader' open₂ q ⟨some format, some isGzipped⟩ := by
  rw [openWith_of_opened (Option.some_or ..) hp, openWith_of_opened (Option.some_or ..) hq]
  exact hagree.read_eq

/-- The guess goes by the name of the file in small letters, and of its path opening a table needs
nothing else. A file packed with gzip opens as what it is packed from, and what is given is not
guessed, whether both files are read in one way or in two that agree on the document. -/
theorem openWith_goes_by_guess :
    (∀ path, (∃ lowered, Lowered (finalName path).toList lowered) ∧
      ∀ lowered, Lowered (finalName path).toList lowered → Says lowered (guess path)) ∧
    (∀ reader openRead path options, Opening reader openRead path options (guess path)
      (openWith reader openRead path options)) ∧
    (∀ name lowered part part', IsFileName name → Lowered name.toList lowered →
      ¬ ".gz".toList <:+ lowered → IsDirectoryPart part → IsDirectoryPart part' →
        (guess (part' ++ (name ++ ".gz"))).format = (guess (part ++ name)).format ∧
        ∀ reader reader' openPlain openZipped content packed format,
          (guess (part ++ name)).format = some format →
          openPlain (part ++ name) = .ok (.file content) →
          openZipped (part' ++ (name ++ ".gz")) = .ok (.file packed) →
          Gzip.decompress packed = Octets.whole content →
          Agree reader reader' format (Octets.whole content) →
            load reader openZipped (part' ++ (name ++ ".gz")) =
              load reader' openPlain (part ++ name)) ∧
    ∀ reader reader' format isGzipped open₁ open₂ p q entry, open₁ p = .ok entry →
      open₂ q = .ok entry → Agree reader reader' format (delivery isGzipped entry) →
        openWith reader open₁ p ⟨some format, some isGzipped⟩ =
          openWith reader' open₂ q ⟨some format, some isGzipped⟩ := by
  refine ⟨?_, opening, ?_, ?_⟩
  · intro path
    exact ⟨⟨_, Text.lowered_first _⟩, fun lowered h => says_guessName h⟩
  · intro name lowered part part' hname hlowered hgz hp hp'
    have hplain : guess (part ++ name) = ⟨formatOf (name.toList.map Char.toLower), false⟩ := by
      rw [guess_eq hname hp, guessName_of_plain]
      rwa [← hlowered.endsWith_iff plain_gz]
    have hzipped : guess (part' ++ (name ++ ".gz")) =
        ⟨formatOf (name.toList.map Char.toLower), true⟩ := by
      rw [guess_eq hname.gz hp', guessName_gz]
    have hformat : (guess (part' ++ (name ++ ".gz"))).format = (guess (part ++ name)).format := by
      rw [hplain, hzipped]
    refine ⟨hformat, ?_⟩
    intro reader reader' openPlain openZipped content packed format hknown hopen hopenz hunpack
      hagree
    exact load_gz hformat (by rw [hplain]) (by rw [hzipped]) hknown hopen hopenz hunpack hagree
  · intro reader reader' format isGzipped open₁ open₂ p q entry hopen₁ hopen₂ hagree
    exact openWith_of_given hopen₁ hopen₂ hagree

/-- A mapping of one pin. -/
def onePin : Octets := Octets.ofText "\x7b\"led\": \"P1\"\x7d"

/-- What `gzip` makes of it where nothing is to be shortened. -/
def onePinPacked : Octets :=
  [0x1f, 0x8b, 0x08, 0x00, 0x00, 0x00, 0x00, 0x00, 0x00, 0xff, 0x01, 0x0d, 0x00, 0xf2, 0xff, 0x7b,
    0x22, 0x6c, 0x65, 0x64, 0x22, 0x3a, 0x20, 0x22, 0x50, 0x31, 0x22, 0x7d, 0x60, 0xf6, 0x83, 0xa6,
    0x0d, 0x00, 0x00, 0x00]

/-- A mapping of two names that are the same in upper case. -/
def oneName : Octets := Octets.ofText "\x7b\"led\": \"P1\", \"LED\": \"P2\"\x7d"

/-- Whatever path is asked for, there is this file. -/
def fixedOpener (content : Octets) : Opener := fun _ => .ok (.file content)

theorem agree_onePin : Agree (.silent backwards) (.silent .byName) .json
    (Octets.whole onePin) := by
  have hpairs : Json.pairs (Octets.whole onePin) = .ok [("led", "P1")] := by decide +kernel
  exact .distinct (.json hpairs) (PinMap.distinctUpper_ofPairs_iff.mpr (by decide +kernel))

theorem openWith_goes_by_guess_dotted_capital :
    IsFileName "İÉ.JSON" ∧ Gzip.decompress onePinPacked = Octets.whole onePin ∧
    guess "boards/İÉ.JSON" = ⟨some .json, false⟩ ∧ guess "İÉ.JSON.gz" = ⟨some .json, true⟩ ∧
    load (.silent backwards) (fixedOpener onePinPacked) "İÉ.JSON.gz" =
      load (.silent .byName) (fixedOpener onePin) "boards/İÉ.JSON" ∧
    openWith (.silent backwards) (fixedOpener oneName) "boards/İÉ.JSON"
        ⟨some .json, some false⟩ =
      openWith (.silent backwards) (fixedOpener oneName) "İÉ" ⟨some .json, some false⟩ ∧
    openWith (.silent backwards) (fun _ => .error .notFound) "İÉ" .default =
      .error (.unknownFormat "İÉ") := by
  have hname : IsFileName "İÉ.JSON" := ⟨by decide, by decide, by decide, by decide⟩
  have hunpack : Gzip.decompress onePinPacked = Octets.whole onePin := by decide +kernel
  obtain ⟨_, hopening, hload, hgiven⟩ := openWith_goes_by_guess
  have hgz := hload "İÉ.JSON" _ "boards/" "" hname (Text.lowered_first _) (by decide +kernel)
    (Or.inr ⟨"boards", rfl⟩) (Or.inl rfl)
  refine ⟨hname, hunpack, by decide +kernel, by decide +kernel, ?_, ?_, ?_⟩
  · exact hgz.2 _ _ (fixedOpener onePin) (fixedOpener onePinPacked) onePin onePinPacked .json
      (by decide +kernel) rfl rfl hunpack agree_onePin
  · exact hgiven _ _ .json false (fixedOpener oneName) (fixedOpener oneName) _ _ _ rfl rfl
      (.same rfl)
  · exact ((hopening _ _ _ _).unknownFormat_iff _).mpr ⟨rfl, rfl, by decide +kernel⟩

/-- Readers that take the pairs of a map in different orders need not agree. -/
example : load (.silent .byName) (fixedOpener oneName) "t.json" ≠
    load (.silent backwards) (fixedOpener oneName) "t.json" := by
  decide +kernel

end PinTable

end Pinout
