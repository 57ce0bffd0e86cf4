/-
Hqsb/Core/Document.lean

Documents with a version (`hqsb/core/schema/versioning.py`).

A document is a tree of scalars whose dictionaries keep their order.  A version is written with
three decimal numbers; as in Python, their digits are those of any script and the blanks around
them are those of Unicode.
-/
import Hqsb.Lib.PathTree

namespace Hqsb

open Lib

namespace Document

/-- A scalar; a float by its text. -/
inductive Scalar where
  | null
  | bool (b : Bool)
  | int (n : Int)
  | float (text : String)
  | str (s : String)
  deriving DecidableEq

abbrev Value := PathTree Scalar

abbrev Members := List (String × Value)

def Value.str (s : String) : Value := .leaf (.str s)

end Document

/-- `major.minor.patch` -/
structure SchemaVersion where
  major : Nat
  minor : Nat
  patch : Nat
  deriving DecidableEq

namespace SchemaVersion

/-- The zeros of the scripts, each of which the other nine digits follow. -/
def ZEROS : List Nat :=
  [0x30, 0x660, 0x6F0, 0x7C0, 0x966, 0x9E6, 0xA66, 0xAE6, 0xB66, 0xBE6, 0xC66, 0xCE6, 0xD66, 0xDE6,
    0xE50, 0xED0, 0xF20, 0x1040, 0x1090, 0x17E0, 0x1810, 0x1946, 0x19D0, 0x1A80, 0x1A90, 0x1B50,
    0x1BB0, 0x1C40, 0x1C50, 0xA620, 0xA8D0, 0xA900, 0xA9D0, 0xA9F0, 0xAA50, 0xABF0, 0xFF10, 0x104A0,
    0x10D30, 0x11066, 0x110F0, 0x11136, 0x111D0, 0x112F0, 0x11450, 0x114D0, 0x11650, 0x116C0,
    0x11730, 0x118E0, 0x11950, 0x11C50, 0x11D50, 0x11DA0, 0x11F50, 0x16A60, 0x16AC0, 0x16B50,
    0x1D7CE, 0x1D7D8, 0x1D7E2, 0x1D7EC, 0x1D7F6, 0x1E140, 0x1E2F0, 0x1E4F0, 0x1E950, 0x1FBF0]

def digit? (c : Char) : Option Nat :=
  (ZEROS.find? fun z => z ≤ c.toNat ∧ c.toNat ≤ z + 9).map fun z => c.toNat - z

/-- What `str.strip` takes away. -/
def isBlank (c : Char) : Bool :=
  let code := c.toNat
  (9 ≤ code ∧ code ≤ 13) ∨ (28 ≤ code ∧ code ≤ 32) ∨ (0x2000 ≤ code ∧ code ≤ 0x200A) ∨
    code ∈ [0x85, 0xA0, 0x1680, 0x2028, 0x2029, 0x202F, 0x205F, 0x3000]

def component (digits : List Char) : Option Nat :=
  if digits = [] then none
  else (digits.mapM digit?).map fun values => values.foldl (fun n value => 10 * n + value) 0

def parse (text : String) : Option SchemaVersion :=
  match ((text.toList.dropWhile isBlank).rdropWhile isBlank).splitOn '.' with
  | [major, minor, patch] => do
    pure ⟨← component major, ← component minor, ← component patch⟩
  | _ => none

/-- First by the major component, then by the minor one and then by the patch. -/
def compare (v w : SchemaVersion) : Ordering :=
  (Ord.compare v.major w.major).then
    ((Ord.compare v.minor w.minor).then (Ord.compare v.patch w.patch))

end SchemaVersion

end Hqsb
