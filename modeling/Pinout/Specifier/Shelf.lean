import Pinout.Specifier.Basic

/-!
Specifiers kept under names, and what can be done with them: resolving a text, which is all there
is to parsing it, copying a specifier, giving it its content, reading that content, comparing two.
-/

namespace Pinout

/-- A slot holds a specifier or is empty. -/
def Shelf := String → Option Specifier

namespace Shelf

def empty : Shelf := fun _ => none

def put (shelf : Shelf) (slot : String) (s : Specifier) : Shelf :=
  fun other => if other = slot then some s else shelf other

inductive Action
  | resolve (slot text : String)
  | clone (slot source : String)
  | borrowFrom (slot sibling : String)
  | content (slot : String)
  | equals (slot other : String)

def Action.slot : Action → String
  | resolve slot _ | clone slot _ | borrowFrom slot _ | content slot | equals slot _ => slot

inductive Answer
  | done
  | failed (error : ResolveError)
  | content (indices : List Index)
  | same (equal : Bool)
  | emptySlot

/-- Fills the slot with what was computed for it, or leaves the shelf as it is. -/
def settle (shelf : Shelf) (slot : String) : Except ResolveError Specifier → Shelf × Answer
  | .ok s => (shelf.put slot s, .done)
  | .error e => (shelf, .failed e)

def act (shelf : Shelf) : Action → Shelf × Answer
  | .resolve slot text => shelf.settle slot (Specifier.resolve text)
  | .clone slot source =>
    match shelf source with
    | some s => (shelf.put slot s, .done)
    | none => (shelf, .emptySlot)
  | .borrowFrom slot sibling =>
    match shelf slot, shelf sibling with
    | some s, some t => shelf.settle slot (s.borrowFrom t)
    | _, _ => (shelf, .emptySlot)
  | .content slot =>
    match (shelf slot).map Specifier.contentOrError with
    | some (.ok content) => (shelf, .content content)
    | some (.error e) => (shelf, .failed e)
    | none => (shelf, .emptySlot)
  | .equals slot other =>
    match shelf slot, shelf other with
    | some s, some t => (shelf, .same (s = t))
    | _, _ => (shelf, .emptySlot)

def run (shelf : Shelf) (actions : List Action) : Shelf :=
  actions.foldl (fun s a => (s.act a).1) shelf

theorem put_same (shelf : Shelf) (slot : String) (s : Specifier) :
    shelf.put slot s slot = some s := by
  simp [put]

theorem put_other (shelf : Shelf) {slot other : String} (s : Specifier) (h : other ≠ slot) :
    shelf.put slot s other = shelf other := by
  simp [put, h]

end Shelf

end Pinout
