import Pinout.Json.Problem
import Pinout.Octets

/-!
Quoted JSON strings, read octet by octet after the opening quote. Escapes are resolved on the way;
that the rest is UTF-8 is looked at when the string closes.
-/

namespace Pinout.Json

def hexValue? (b : UInt8) : Option Nat :=
  let n := b.toNat
  if 0x30 ≤ n ∧ n ≤ 0x39 then some (n - 0x30)
  else if 0x41 ≤ n ∧ n ≤ 0x46 then some (n - 0x37)
  else if 0x61 ≤ n ∧ n ≤ 0x66 then some (n - 0x57)
  else none

/-- The number of a list of hexadecimal digits, the last of them in front. -/
def hexNumber? : List UInt8 → Option Nat
  | [] => some 0
  | d :: ds => do return 16 * (← hexNumber? ds) + (← hexValue? d)

namespace Quoted

inductive Mode
  | plain
  | escape
  /-- In the digits of `\u`, with the leading surrogate that came before, if one did -/
  | digits (lead : Option Nat) (read : List UInt8)
  /-- A leading surrogate must be followed by a backslash -/
  | lead (code : Nat)
  /-- and the backslash by a `u`. -/
  | leadEscape (code : Nat)

end Quoted

/-- A string that has been read in part, the last octet in front. -/
structure Quoted where
  mode : Quoted.Mode
  octets : Octets

namespace Quoted

def begin : Quoted := ⟨.plain, []⟩

inductive Step
  | more (q : Quoted)
  | closed (text : String)

def add (q : Quoted) (b : UInt8) : Except Problem Step := .ok (.more ⟨.plain, b :: q.octets⟩)

def addCode (q : Quoted) (n : Nat) : Except Problem Step :=
  .ok (.more ⟨.plain, (String.utf8EncodeChar (Char.ofNat n)).reverse ++ q.octets⟩)

/-- Takes four digits for a character, or for one half of a surrogate pair. -/
def endDigits (q : Quoted) (lead : Option Nat) (read : List UInt8) : Except Problem Step :=
  match hexNumber? read, lead with
  | none, _ => .error .malformed
  | some n, none =>
    if 0xdc00 ≤ n ∧ n ≤ 0xdfff then .error .malformed
    else if 0xd800 ≤ n ∧ n ≤ 0xdbff then .ok (.more ⟨.lead n, q.octets⟩)
    else q.addCode n
  | some n, some h =>
    if 0xdc00 ≤ n ∧ n ≤ 0xdfff then q.addCode (0x10000 + (h - 0xd800) * 0x400 + (n - 0xdc00))
    else .error .malformed

def step (q : Quoted) (b : UInt8) : Except Problem Step :=
  match q.mode with
  | .plain =>
    match Octets.char b with
    | '"' =>
      match Octets.text? q.octets.reverse with
      | some s => .ok (.closed s)
      | none => .error .malformed
    | '\\' => .ok (.more ⟨.escape, q.octets⟩)
    | _ => if b < 0x20 then .error .malformed else q.add b
  | .escape =>
    match Octets.char b with
    | '"' | '\\' | '/' => q.add b
    | 'b' => q.add 0x08
    | 'f' => q.add 0x0c
    | 'n' => q.add 0x0a
    | 'r' => q.add 0x0d
    | 't' => q.add 0x09
    | 'u' => .ok (.more ⟨.digits none [], q.octets⟩)
    | _ => .error .malformed
  | .digits lead read =>
    if read.length = 3 then q.endDigits lead (b :: read)
    else .ok (.more ⟨.digits lead (b :: read), q.octets⟩)
  | .lead code =>
    if Octets.char b = '\\' then .ok (.more ⟨.leadEscape code, q.octets⟩) else .error .malformed
  | .leadEscape code =>
    if Octets.char b = 'u' then .ok (.more ⟨.digits (some code) [], q.octets⟩)
    else .error .malformed

end Quoted

end Pinout.Json
