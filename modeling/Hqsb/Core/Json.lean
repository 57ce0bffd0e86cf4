/-
Hqsb/Core/Json.lean

JSON values with integer numbers, and the texts that `json.dumps` writes.

Texts are written only, to be hashed or to be sent: whoever stores a value and loads it again
is given the value itself.
-/
import Mathlib

namespace Hqsb

/-- A JSON value with integer numbers. -/
inductive Json where
  | null
  | bool (b : Bool)
  | num (n : Int)
  | str (s : String)
  | arr (items : List Json)
  | obj (members : List (String × Json))

namespace Json

/-- The member `key` of an object. -/
def get? (key : String) : Json → Option Json
  | .obj members => members.lookup key
  | _ => none

/-- Truth in the sense of an `if`. -/
def truthy : Json → Bool
  | .null => false
  | .bool b => b
  | .num n => n ≠ 0
  | .str s => s ≠ ""
  | .arr items => !items.isEmpty
  | .obj members => !members.isEmpty

def bool? : Json → Option Bool
  | .bool b => some b
  | _ => none

/-- An integer, which a truth value is not. -/
def int? : Json → Option Int
  | .num n => some n
  | _ => none

def nat? : Json → Option Nat
  | .num (.ofNat n) => some n
  | _ => none

def str? : Json → Option String
  | .str s => some s
  | _ => none

def arr? : Json → Option (List Json)
  | .arr items => some items
  | _ => none

def quote (s : String) : List Char :=
  let escape (c : Char) : List Char :=
    if c = '"' then "\\\"".toList
    else if c = '\\' then "\\\\".toList
    else if c = '\n' then "\\n".toList
    else if c = '\r' then "\\r".toList
    else if c = '\t' then "\\t".toList
    else if c.toNat = 8 then "\\b".toList
    else if c.toNat = 12 then "\\f".toList
    else if c.toNat < 32 then
      "\\u00".toList ++ [Nat.digitChar (c.toNat / 16), Nat.digitChar (c.toNat % 16)]
    else [c]
  '"' :: s.toList.flatMap escape ++ ['"']

mutual

/-- `json.dumps`, as far as the text is not escaped to ASCII. -/
def dumps : Json → List Char
  | .null => "null".toList
  | .bool b => (if b then "true" else "false").toList
  | .num n => (toString n).toList
  | .str s => quote s
  | .arr items => '[' :: dumpsItems items ++ [']']
  | .obj members => '{' :: dumpsMembers members ++ ['}']

def dumpsItems : List Json → List Char
  | [] => []
  | j :: items =>
    j.dumps ++ (if items.isEmpty then [] else ", ".toList) ++ dumpsItems items

def dumpsMembers : List (String × Json) → List Char
  | [] => []
  | (key, j) :: members =>
    quote key ++ ": ".toList ++ j.dumps ++
      (if members.isEmpty then [] else ", ".toList) ++ dumpsMembers members

end

end Json

/-! ### Texts in ASCII -/

/-- `\uXXXX` -/
def jsonUnit (code : Nat) : String :=
  "\\u" ++ String.ofList ((Nat.toDigits 16 code).leftpad 4 '0')

/-- One character inside a JSON string that `json.dumps` writes. -/
def jsonChar (c : Char) : String :=
  match c.toNat with
  | 34 => "\\\""
  | 92 => "\\\\"
  | 8 => "\\b"
  | 9 => "\\t"
  | 10 => "\\n"
  | 12 => "\\f"
  | 13 => "\\r"
  | code =>
    if 32 ≤ code ∧ code ≤ 126 then c.toString
    else if code < 65536 then jsonUnit code
    else jsonUnit (55296 + (code - 65536) / 1024) ++ jsonUnit (56320 + (code - 65536) % 1024)

def jsonString (s : String) : String := "\"" ++ String.join (s.toList.map jsonChar) ++ "\""

/-- `json.dumps` of a dictionary from texts to texts, its items already in order. -/
def jsonDumps (items : List (String × String)) : String :=
  "\x7b" ++ ", ".intercalate (items.map fun item => jsonString item.1 ++ ": " ++ jsonString item.2) ++
    "\x7d"

namespace Json

mutual

/-- `_canonical_json`: sorted keys and no blanks. -/
def canonical : Json → String
  | .null => "null"
  | .bool b => if b then "true" else "false"
  | .num n => toString n
  | .str s => jsonString s
  | .arr items => "[" ++ ",".intercalate (canonicalItems items) ++ "]"
  | .obj members =>
    "\x7b" ++ ",".intercalate
      (((canonicalMembers members).insertionSort fun m n => m.1 ≤ n.1).map fun m =>
        jsonString m.1 ++ ":" ++ m.2) ++ "\x7d"

def canonicalItems : List Json → List String
  | [] => []
  | j :: items => j.canonical :: canonicalItems items

def canonicalMembers : List (String × Json) → List (String × String)
  | [] => []
  | (key, j) :: members => (key, j.canonical) :: canonicalMembers members

end

end Json

end Hqsb
