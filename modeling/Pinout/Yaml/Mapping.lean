import Pinout.Yaml.Token

/-!
YAML documents that map scalars to scalars. Every scalar counts as its text, however it is written
and tagged; a key or value that is left out is the empty text. An empty document is an empty
mapping, and no text has a second document.
-/

namespace Pinout.Yaml

inductive Content
  /-- Nothing is written, which counts as the empty text. -/
  | absent
  | text (cs : List Char)
  | alias (name : List Char)
  deriving DecidableEq

/-- Content under an anchor, if it has one. -/
structure Node where
  anchor : Option (List Char)
  content : Content
  deriving DecidableEq

/-- Tokens with anchors and tags drawn to what they belong to. -/
inductive Item
  | directive
  | documentStart
  | documentEnd
  | blockStart (anchor : Option (List Char))
  | blockEnd
  | flowStart (anchor : Option (List Char))
  | flowEnd
  | comma
  | key
  | value
  | node (n : Node)

namespace Item

/-- Anchor and tag of a node that is still to come. -/
structure Properties where
  anchor : Option (List Char)
  isTagged : Bool

def Properties.none : Properties := ⟨.none, false⟩

def Properties.isNone (p : Properties) : Bool := p.anchor.isNone && !p.isTagged

/-- Properties may be all that is written of a node. -/
def Properties.emptyNode (p : Properties) : List Item :=
  if p.isNone then [] else [.node ⟨p.anchor, .absent⟩]

def ofToken? : Token → Option Item
  | .directive _ => some .directive
  | .documentStart => some .documentStart
  | .documentEnd => some .documentEnd
  | .blockEnd => some .blockEnd
  | .flowEnd => some .flowEnd
  | .comma => some .comma
  | .key => some .key
  | .value => some .value
  | .alias name => some (.node ⟨none, .alias name⟩)
  | _ => none

/-- Tags need a handle that is declared in the directives. -/
def ofTokens? (handles : List (List Char)) (p : Properties) : List Token → Option (List Item)
  | [] => some p.emptyNode
  | .anchor name :: ts =>
    if p.anchor.isSome then none else ofTokens? handles { p with anchor := some name } ts
  | .tag handle :: ts =>
    if p.isTagged || !(handle.all handles.contains) then none
    else ofTokens? handles { p with isTagged := true } ts
  | .scalar text :: ts => (ofTokens? handles .none ts).map (.node ⟨p.anchor, .text text⟩ :: ·)
  | .blockStart :: ts => (ofTokens? handles .none ts).map (.blockStart p.anchor :: ·)
  | .flowStart :: ts => (ofTokens? handles .none ts).map (.flowStart p.anchor :: ·)
  | t :: ts =>
    match ofToken? t with
    | none => none
    | some item => (ofTokens? handles .none ts).map (p.emptyNode ++ item :: ·)

end Item

namespace Node

def empty : Node := ⟨none, .absent⟩

end Node

abbrev Pairs := List (Node × Node)

def blockPairs : List Item → Option (Pairs × List Item)
  | .blockEnd :: rest => some ([], rest)
  | .key :: .node k :: .value :: .node v :: rest => (blockPairs rest).map (add k v)
  | .key :: .node k :: .value :: rest => (blockPairs rest).map (add k .empty)
  | .key :: .node k :: rest => (blockPairs rest).map (add k .empty)
  | .key :: .value :: .node v :: rest => (blockPairs rest).map (add .empty v)
  | .key :: .value :: rest => (blockPairs rest).map (add .empty .empty)
  | .key :: rest => (blockPairs rest).map (add .empty .empty)
  | _ => none
where
  add (k v : Node) (r : Pairs × List Item) : Pairs × List Item := ((k, v) :: r.1, r.2)

/-- The pairs of a mapping between braces; after a pair a comma is due, or the end. -/
def flowPairs (commaDue : Bool) : List Item → Option (Pairs × List Item)
  | .flowEnd :: rest => some ([], rest)
  | .comma :: rest => if commaDue then flowPairs false rest else none
  | .key :: .node k :: .value :: .node v :: rest => pair commaDue k v (flowPairs true rest)
  | .key :: .node k :: .value :: rest => pair commaDue k .empty (flowPairs true rest)
  | .key :: .node k :: rest => pair commaDue k .empty (flowPairs true rest)
  | .key :: .value :: .node v :: rest => pair commaDue .empty v (flowPairs true rest)
  | .key :: .value :: rest => pair commaDue .empty .empty (flowPairs true rest)
  | .key :: rest => pair commaDue .empty .empty (flowPairs true rest)
  | .node k :: rest => pair commaDue k .empty (flowPairs true rest)
  | _ => none
where
  pair (commaDue : Bool) (k v : Node) (r : Option (Pairs × List Item)) :
      Option (Pairs × List Item) :=
    if commaDue then none else r.map fun r => ((k, v) :: r.1, r.2)

structure Document where
  anchor : Option (List Char)
  pairs : Pairs

def Document.empty : Document := ⟨none, []⟩

/-- After the one document nothing may follow but its end. -/
def onlyEnd (d : Document) (items : List Item) : Option Document :=
  if items.all fun | .documentEnd => true | _ => false then some d else none

/-- The root of a document is a mapping, which is empty if nothing is written of it. -/
def root? : List Item → Option Document
  | .blockStart a :: items => do
    let (pairs, rest) ← blockPairs items
    onlyEnd ⟨a, pairs⟩ rest
  | .flowStart a :: items => do
    let (pairs, rest) ← flowPairs false items
    onlyEnd ⟨a, pairs⟩ rest
  | .node ⟨_, .absent⟩ :: rest => onlyEnd .empty rest
  | _ => none

/-- A document that is started by a marker may have nothing in it. -/
def markedDocument? (items : List Item) : Option Document :=
  match items with
  | [] | .documentEnd :: _ => onlyEnd .empty items
  | _ => root? items

def isDirective : Token → Bool
  | .directive _ => true
  | _ => false

/-- The handles that tags may have; the version is stated once, and each handle declared once. -/
def handles? (ts : List Token) : Option (List (List Char)) := do
  let ds := ts.filterMap fun | .directive d => some d | _ => none
  guard ds.Nodup
  return ['!'] :: ['!', '!'] :: ds.filterMap fun | .tag h => some h | .version => none

/-- Directives need the marker of a document after them. -/
def document? (ts : List Token) : Option Document := do
  let directives := ts.takeWhile isDirective
  let handles ← handles? directives
  match ← Item.ofTokens? handles .none (ts.dropWhile isDirective) with
  | .documentStart :: items => markedDocument? items
  | [] => if directives.isEmpty then some .empty else none
  | items => if directives.isEmpty then root? items else none

/-- The anchors of a document. Each name has a number, and each number a text; a name that is used
again takes the count of names as its number, whatever that number stood for before. -/
structure Anchors where
  numbers : List (List Char × Nat)
  texts : List (Nat × Option (List Char))

namespace Anchors

def define (a : Anchors) (name : Option (List Char)) (text : Option (List Char)) : Anchors :=
  match name with
  | none => a
  | some name =>
    let n := a.numbers.length
    ⟨(name, n) :: a.numbers.filter (·.1 ≠ name), (n, text) :: a.texts⟩

end Anchors

abbrev Cell := List Char ⊕ Nat

def cell? (a : Anchors) (n : Node) : Option (Cell × Anchors) :=
  match n.content with
  | .absent => some (.inl [], a.define n.anchor (some []))
  | .text t => some (.inl t, a.define n.anchor (some t))
  | .alias name => (a.numbers.lookup name).map fun k => (.inr k, a)

def cells? (a : Anchors) : Pairs → Option (List (Cell × Cell) × Anchors)
  | [] => some ([], a)
  | (k, v) :: rest => do
    let (x, a) ← cell? a k
    let (y, a) ← cell? a v
    let (cs, a) ← cells? a rest
    return ((x, y) :: cs, a)

/-- Only anchors of scalars have a text. -/
def text? (a : Anchors) : Cell → Option String
  | .inl t => some (String.ofList t)
  | .inr n => ((a.texts.lookup n).join).map String.ofList

def Document.texts? (d : Document) : Option (List (String × String)) := do
  let (cells, a) ← cells? (Anchors.define ⟨[], []⟩ d.anchor none) d.pairs
  cells.mapM fun c => do return (← text? a c.1, ← text? a c.2)

def pairs? (text : String) : Option (List (String × String)) := do
  (← document? (← tokens? text.toList)).texts?

end Pinout.Yaml
