import Pinout.Index
import Pinout.Text.Blank

/-!
What is told on the way to a result. Every note has a level, and a setting decides which levels are
heard. Work that tells notes comes to the same result at every setting, and leaving out notes is all
that a lower setting does.
-/

namespace Pinout

inductive Level
  | critical
  | warning
  | info
  | extra
  deriving DecidableEq

namespace Level

def rank : Level → Nat
  | critical => 0
  | warning => 1
  | info => 2
  | extra => 3

def name : Level → String
  | critical => "CRITICAL"
  | warning => "WARNING"
  | info => "INFO"
  | extra => "EXTRA INFO"

/-- The number that a setting asks for. A setting that is missing or no number counts as zero. -/
def setting (value : Option String) : Nat :=
  ((value.bind fun s => Index.ofText? (Text.trim s)).map UInt64.toNat).getD 0

end Level

/-- What a note is about. There is one place in a program where the notes of a topic are told. -/
inductive Topic
  | specifierMatched
  | specifierResolved
  | lineExpanded
  | pinfileExpanded
  | headerDropped
  | errorMet
  | pinReplaced
  | pinsReplaced
  | expansionHalted
  | pinfileBuilt
  | tableLoaded
  deriving DecidableEq

def Topic.level : Topic → Level
  | errorMet => .warning
  | pinfileExpanded | pinsReplaced | expansionHalted | pinfileBuilt | tableLoaded => .info
  | specifierMatched | specifierResolved | lineExpanded | headerDropped | pinReplaced => .extra

/-- A line of a program. -/
structure Place where
  file : String
  line : Nat
  deriving DecidableEq

def Place.text (p : Place) : String := "[" ++ p.file ++ ":" ++ Numeral.text p.line ++ "]"

structure Note where
  topic : Topic
  text : String
  deriving DecidableEq

namespace Note

def level (n : Note) : Level := n.topic.level

/-- The note as it is shown; with places given, the one where it is told comes first. -/
def line (places : Option (Topic → Place)) (n : Note) : String :=
  let plain := n.level.name ++ ": " ++ n.text
  match places with
  | none => plain
  | some place => (place n.topic).text ++ " " ++ plain

def isShown (shown : Nat) (n : Note) : Bool := n.level.rank ≤ shown

def bracketList (texts : List String) : String := "[" ++ ", ".intercalate texts ++ "]"

def indexList (is : List Index) : String := bracketList (is.map Index.text)

/-- Captures are digits, so quotes around them are all that is needed. -/
def captureList (cs : List String) : String := bracketList (cs.map fun c => "\"" ++ c ++ "\"")

end Note

/-- Which notes are shown, and how. -/
structure Settings where
  shown : Nat
  places : Option (Topic → Place)

/-- Places are shown unless their setting is zero. -/
def Place.shown? (codeInfo : Option String) (places : Topic → Place) : Option (Topic → Place) :=
  if Level.setting codeInfo = 0 then none else some places

/-- The settings as they are given to a program. -/
structure Environment where
  logLevel : Option String
  codeInfo : Option String

def Environment.settings (e : Environment) (places : Topic → Place) : Settings where
  shown := Level.setting e.logLevel
  places := Place.shown? e.codeInfo places

/-- A result and the notes that are heard before it, for every rank that is the highest shown. -/
structure Told (α : Type) where
  heard : Nat → List Note × α
  uniform : ∃ (notes : List Note) (result : α), ∀ shown,
    heard shown = (notes.filter (Note.isShown shown), result)

namespace Told

def result (x : Told α) : α := (x.heard 0).2

/-- Which notes are shown has no part in the result. -/
theorem exists_notes (x : Told α) :
    ∃ notes : List Note, ∀ shown,
      x.heard shown = (notes.filter (Note.isShown shown), x.result) := by
  obtain ⟨notes, result, h⟩ := x.uniform
  refine ⟨notes, fun shown => ?_⟩
  rw [Told.result, h, h]

def pure (a : α) : Told α where
  heard _ := ([], a)
  uniform := ⟨[], a, fun _ => rfl⟩

def bind (x : Told α) (f : α → Told β) : Told β where
  heard shown :=
    let (notes, a) := x.heard shown
    let (more, b) := (f a).heard shown
    (notes ++ more, b)
  uniform := by
    obtain ⟨notes, a, hx⟩ := x.uniform
    obtain ⟨more, b, hf⟩ := (f a).uniform
    refine ⟨notes ++ more, b, fun shown => ?_⟩
    simp only [hx, hf, List.filter_append]

instance : Monad Told where
  pure := pure
  bind := bind

/-- A note is heard if it is shown. -/
def tell (topic : Topic) (text : String) : Told Unit where
  heard shown := (if Note.isShown shown ⟨topic, text⟩ then [⟨topic, text⟩] else [], ())
  uniform := ⟨[⟨topic, text⟩], (), fun _ => by simp only [List.filter]; split <;> simp_all⟩

@[simp] theorem result_pure (a : α) : (Pure.pure a : Told α).result = a := rfl

@[simp] theorem result_bind (x : Told α) (f : α → Told β) :
    (x >>= f).result = (f x.result).result := rfl

/-! Work that can end with an error -/

variable {ε δ : Type}

@[simp] theorem result_run_bind (x : ExceptT ε Told α) (f : α → ExceptT ε Told β) :
    (x >>= f).run.result = x.run.result.bind fun a => (f a).run.result := by
  rw [ExceptT.run_bind, result_bind]
  cases x.run.result <;> rfl

@[simp] theorem result_run_ofExcept (x : Except ε α) :
    (liftM x : ExceptT ε Told α).run.result = x := rfl

@[simp] theorem result_run_adapt (f : ε → δ) (x : ExceptT ε Told α) :
    (ExceptT.adapt f x).run.result = x.run.result.mapError f := rfl

end Told

end Pinout
