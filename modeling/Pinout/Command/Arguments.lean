import Pinout.Report

/-!
The arguments of the command line. A task is named first; options and file names follow it in any
order, and nothing after `--` is an option.
-/

namespace Pinout

inductive Task
  | expand
  | replace (pins : String)
  | build (pins : String)
  deriving DecidableEq

structure Invocation where
  task : Task
  input : Option String
  output : Option String
  policy : Policy
  deriving DecidableEq

inductive Request
  | version
  | help
  | perform (i : Invocation)
  /-- Arguments that make no sense -/
  | unusable
  deriving DecidableEq

namespace Arguments

/-- What has been read of the arguments after the name of the task. -/
structure Partial where
  names : List String
  pins : Option String
  keepGoing : Bool

def Partial.empty : Partial := ⟨[], none, false⟩

def startsWithHyphen (s : String) : Bool := s.toList.head? = some '-'

/-- A lone hyphen is a file name like others. -/
def isOption (s : String) : Bool := startsWithHyphen s && s ≠ "-"

def attachedPins? (s : String) : Option String :=
  let option := "--pins=".toList
  if option.isPrefixOf s.toList then some (String.ofList (s.toList.drop option.length)) else none

def Partial.withPins (p : Partial) (path : String) : Option Partial :=
  if p.pins.isSome then none else some { p with pins := some path }

/-- Reads options and file names; no option may be given twice. -/
def readOptions (takesPins : Bool) (p : Partial) : List String → Option Partial
  | [] => some p
  | a :: rest =>
    if a = "--" then some { p with names := p.names ++ rest }
    else if a = "--keep-going" then
      if p.keepGoing then none else readOptions takesPins { p with keepGoing := true } rest
    else if takesPins ∧ a = "--pins" then
      match rest with
      | [] => none
      | path :: rest =>
        if isOption path then none
        else match p.withPins path with
          | none => none
          | some p => readOptions takesPins p rest
    else if takesPins ∧ (attachedPins? a).isSome then
      match (attachedPins? a).bind p.withPins with
      | none => none
      | some p => readOptions takesPins p rest
    else if isOption a then none
    else readOptions takesPins { p with names := p.names ++ [a] } rest

/-- Two file names at most: the input and the output. -/
def Partial.invocation? (p : Partial) (task : Task) : Option Invocation :=
  let policy := if p.keepGoing then Policy.keepGoing else .halt
  match p.names with
  | [] => some ⟨task, none, none, policy⟩
  | [input] => some ⟨task, some input, none, policy⟩
  | [input, output] => some ⟨task, some input, some output, policy⟩
  | _ => none

def performed (i : Option Invocation) : Request := (i.map .perform).getD .unusable

def withTable (task : String → Task) (args : List String) : Request :=
  performed do
    let p ← readOptions true .empty args
    p.invocation? (task (← p.pins))

def read : List String → Request
  | [] => .unusable
  | a :: rest =>
    if a = "expand" then performed do (← readOptions false .empty rest).invocation? .expand
    else if a = "replace" then withTable .replace rest
    else if a = "build" then withTable .build rest
    else if a = "--version" ∨ "-V".toList.isPrefixOf a.toList then .version
    else if a = "--help" ∨ a = "help" ∨ "-h".toList.isPrefixOf a.toList then .help
    else .unusable

end Arguments

end Pinout
