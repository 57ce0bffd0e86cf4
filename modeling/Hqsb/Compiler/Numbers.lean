/-
Hqsb/Compiler/Numbers.lean

What plain data is worth as a number, as `==` and `float` see it.

A float is a double: numbers are compared by the double that is nearest to them.
-/
import Hqsb.Compiler.Payload
import Hqsb.Lib.BinaryFloat
import Hqsb.Quant.Rounding

namespace Hqsb.Compiler

open Lib

/-- The double nearest to a number, as a word; none when it is too large. -/
def double (x : ℚ) : Option Nat := binary64.encode roundNearestEven x

/-! ### Decimal numerals -/

/-- Digits, with single underscores in between, and how many. -/
def digits? (t : List Char) : Option (Nat × Nat) :=
  let parts := t.splitOn '_'
  if parts.all fun part => !part.isEmpty && part.all Char.isDigit then
    some (Nat.ofDigitChars 10 parts.flatten 0, parts.flatten.length)
  else none

def exponent? : List Char → Option Int
  | [] => some 0
  | _ :: '-' :: t => (digits? t).map fun d => -(d.1 : Int)
  | _ :: '+' :: t => (digits? t).map fun d => (d.1 : Int)
  | _ :: t => (digits? t).map fun d => (d.1 : Int)

/-- A numeral without a sign. -/
def magnitude? (t : List Char) : Option ℚ := do
  let (mantissa, tail) := t.span fun c => c ≠ 'e' && c ≠ 'E'
  let (whole, tail') := mantissa.span (· ≠ '.')
  let fraction := tail'.drop 1
  let exponent ← exponent? tail
  if whole = [] ∧ fraction = [] then none
  else
    let (w, _) ← if whole = [] then some (0, 0) else digits? whole
    let (f, places) ← if fraction = [] then some (0, 0) else digits? fraction
    some (((w * 10 ^ places + f : Nat) : ℚ) / 10 ^ places * 10 ^ exponent)

def decimal? : List Char → Option ℚ
  | '-' :: t => (magnitude? t).map (-·)
  | '+' :: t => magnitude? t
  | t => magnitude? t

/-- The number that a float stands for; none for an infinity or a NaN. -/
def PyFloat.value? (x : PyFloat) : Option ℚ := decimal? x.text

/-! ### Data as a number -/

/-- Why `float` fails. -/
inductive FloatError where
  | type
  | value
  | overflow
  deriving DecidableEq

namespace Payload

def number? : Payload → Option ℚ
  | .bool b => some (if b then 1 else 0)
  | .int n => some n
  | .float x => x.value?
  | _ => Option.none

/-- Is this text an infinity or a NaN? -/
def isSpecial (t : List Char) : Bool :=
  let t := match t with
    | '-' :: t => t
    | '+' :: t => t
    | t => t
  t.map Char.toLower ∈ ["inf".toList, "infinity".toList, "nan".toList]

/-- `float(value)`, as the word of a double; none for an infinity or a NaN. -/
def toDouble : Payload → Except FloatError (Option Nat)
  | .bool b => .ok (double (if b then 1 else 0))
  | .int n =>
    match double n with
    | some word => .ok (some word)
    | Option.none => .error .overflow
  | .float x => .ok (x.value?.bind double)
  | .str s =>
    let t := ((s.toList.dropWhile Char.isWhitespace).reverse.dropWhile Char.isWhitespace).reverse
    match decimal? t with
    | some x => .ok (double x)
    | Option.none => if isSpecial t then .ok Option.none else .error .value
  | .null | .list _ | .dict _ => .error .type

/-- Truth in the sense of `bool(value)`. -/
def truthy : Payload → Bool
  | .null => false
  | .bool b => b
  | .int n => n ≠ 0
  | .float x => x.value? ≠ some 0
  | .str s => s ≠ ""
  | .list items => !items.isEmpty
  | .dict members => !members.isEmpty

end Payload

end Hqsb.Compiler
