import Pinout.Json.Number
import Pinout.Json.Quoted

/-!
JSON objects of strings. The pairs come out in the order in which they are written.
-/

namespace Pinout.Json

def isSpace (b : UInt8) : Bool := b == 0x20 || b == 0x0a || b == 0x0d || b == 0x09

def literal (complete : Bool) : List Char → Octets → Problem
  | [], _ => .unfitting
  | _ :: _, [] => ending complete
  | c :: cs, b :: rest => if Octets.char b = c then literal complete cs rest else .malformed

/-- A string where an object should be. -/
def strayText (complete : Bool) (q : Quoted) : Octets → Problem
  | [] => ending complete
  | b :: rest =>
    match q.step b with
    | .error p => p
    | .ok (.closed _) => .unfitting
    | .ok (.more q) => strayText complete q rest

/-- The problem with a value of another kind than is asked for. -/
def misfit (complete : Bool) : Octets → Problem
  | [] => ending complete
  | b :: rest =>
    match Octets.char b with
    | 'n' => literal complete ['u', 'l', 'l'] rest
    | 't' => literal complete ['r', 'u', 'e'] rest
    | 'f' => literal complete ['a', 'l', 's', 'e'] rest
    | '-' => Number.problem complete rest
    | '"' => strayText complete .begin rest
    | '[' | '{' => .unfitting
    | _ => if isDigit b then Number.problem complete (b :: rest) else .malformed

/-- Where in the object the reader stands. -/
inductive Place
  | start
  | opened
  | key (q : Quoted)
  | colon (key : String)
  | value (key : String)
  | text (key : String) (q : Quoted)
  | next
  | comma
  | finished

/-- Reads on from a place, with the pairs so far, the last in front. -/
def readFrom (complete : Bool) (pairs : List (String × String)) (place : Place) :
    Octets → Except Problem (List (String × String))
  | [] =>
    match place, complete with
    | .finished, true => .ok pairs.reverse
    | _, _ => .error (ending complete)
  | b :: rest =>
    match place with
    | .key q =>
      match q.step b with
      | .error p => .error p
      | .ok (.more q) => readFrom complete pairs (.key q) rest
      | .ok (.closed k) => readFrom complete pairs (.colon k) rest
    | .text k q =>
      match q.step b with
      | .error p => .error p
      | .ok (.more q) => readFrom complete pairs (.text k q) rest
      | .ok (.closed v) => readFrom complete ((k, v) :: pairs) .next rest
    | place =>
      if isSpace b then readFrom complete pairs place rest
      else match place, Octets.char b with
        | .start, '{' => readFrom complete pairs .opened rest
        | .start, _ => .error (misfit complete (b :: rest))
        | .opened, '}' | .next, '}' => readFrom complete pairs .finished rest
        | .opened, '"' | .comma, '"' => readFrom complete pairs (.key .begin) rest
        | .colon k, ':' => readFrom complete pairs (.value k) rest
        | .value k, '"' => readFrom complete pairs (.text k .begin) rest
        | .value _, _ => .error (misfit complete (b :: rest))
        | .next, ',' => readFrom complete pairs .comma rest
        | _, _ => .error .malformed

def pairs (d : Octets.Delivery) : Except Problem (List (String × String)) :=
  readFrom d.complete [] .start d.octets

end Pinout.Json
