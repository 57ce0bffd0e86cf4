/-
Hqsb/Core/DataClass.lean

Reading values out of mappings.

A field of a mapping is read as what it is declared to be; any other value is refused with a
`TypeError`, also where the source would carry it along.  The dataclasses that are written as the
mapping of their fields are one definition with their tables of fields (`DataClass`): what was
written is read again (`DataClass.fromMapping_asDict`).
-/
import Hqsb.Core.Json
import Hqsb.Lib.Traverse

namespace Hqsb

open Lib List

inductive PythonError
  | typeError
  | keyError

abbrev Mapping := List (String × Json)

/-! ### Fields -/

/-- `mapping.get(field, default)`, read as a value of its type. -/
def Mapping.read {α : Type*} (mapping : Mapping) (parse : Json → Option α) (field : String)
    (default : α) : Except PythonError α :=
  match mapping.lookup field with
  | none => .ok default
  | some value => (parse value).elim (.error .typeError) .ok

/-- `mapping[field]` -/
def Mapping.require {α : Type*} (mapping : Mapping) (parse : Json → Option α) (field : String) :
    Except PythonError α :=
  match mapping.lookup field with
  | none => .error .keyError
  | some value => (parse value).elim (.error .typeError) .ok

def Json.members? : Json → Option Mapping
  | .obj members => some members
  | _ => none

def Json.list? {α : Type} (parse : Json → Option α) (value : Json) : Option (List α) :=
  value.arr?.bind (·.mapM parse)

def Json.nats (l : List Nat) : Json := .arr (l.map fun n : Nat => .num n)

def Json.strs (l : List String) : Json := .arr (l.map .str)

section

variable {α : Type*} {mapping : Mapping} {parse : Json → Option α} {field : String} {value : Json}
  {a : α} (hlookup : mapping.lookup field = some value) (hparse : parse value = some a)

include hlookup hparse

theorem Mapping.read_of_lookup (default : α) : mapping.read parse field default = .ok a := by
  rw [Mapping.read, hlookup]
  show (parse value).elim _ _ = _
  rw [hparse]
  rfl

theorem Mapping.require_of_lookup : mapping.require parse field = .ok a := by
  rw [Mapping.require, hlookup]
  show (parse value).elim _ _ = _
  rw [hparse]
  rfl

end

theorem Json.list?_map {α : Type} {parse : Json → Option α} (write : α → Json)
    (h : ∀ a, parse (write a) = some a) (l : List α) :
    (Json.arr (l.map write)).list? parse = some l := by
  show (l.map write).mapM parse = some l
  induction l with
  | nil => rfl
  | cons a l ih =>
    rw [map_cons, mapM_cons, h, ih]
    rfl

theorem Json.list?_nats (l : List Nat) : (nats l).list? nat? = some l :=
  list?_map (fun n : Nat => .num n) (fun _ => rfl) l

theorem Json.list?_strs (l : List String) : (strs l).list? str? = some l :=
  list?_map .str (fun _ => rfl) l

/-! ### Dataclasses -/

/-- A dataclass: its fields with their defaults, and which of them hold tuples. -/
structure DataClass where
  fields : List (String × Option Json)
  tuples : List String := []
  nodup : (fields.map Prod.fst).Nodup := by decide

/-- An instance, with a value for every field. -/
@[ext] structure Record (c : DataClass) where
  members : Mapping
  complete : members.map Prod.fst = c.fields.map Prod.fst
  tupled : ∀ m ∈ members, m.1 ∈ c.tuples → m.2.arr?.isSome

/-- The mapping of the fields. -/
def Record.asDict {c : DataClass} (r : Record c) : Json := .obj r.members

def Record.get {c : DataClass} (r : Record c) (field : String) : Json :=
  (r.members.lookup field).getD .null

namespace DataClass

variable (c : DataClass)

def readField (mapping : Mapping) (field : String × Option Json) :
    Except PythonError (String × Json) :=
  match (mapping.lookup field.1).or field.2 with
  | none => .error .typeError
  | some value =>
    if field.1 ∈ c.tuples ∧ value.arr?.isSome = false then .error .typeError
    else .ok (field.1, value)

variable {c}

theorem readField_ok {mapping : Mapping} {field : String × Option Json} {member : String × Json}
    (h : c.readField mapping field = .ok member) :
    member.1 = field.1 ∧ (member.1 ∈ c.tuples → member.2.arr?.isSome) := by
  rw [readField.eq_def] at h
  rcases hvalue : (mapping.lookup field.1).or field.2 with - | value
  · rw [hvalue] at h
    cases h
  · rw [hvalue] at h
    dsimp only at h
    split_ifs at h with hrefused
    cases h
    refine ⟨rfl, fun htuple => ?_⟩
    by_contra hnot
    exact hrefused ⟨htuple, Bool.eq_false_iff.mpr hnot⟩

section

variable {mapping : Mapping} {members : Mapping}
  (h : c.fields.mapM (c.readField mapping) = .ok members)

include h

theorem complete_of_mapM : members.map Prod.fst = c.fields.map Prod.fst := by
  rw [mapM_eq_ok_iff] at h
  generalize c.fields = fields at h
  induction h with
  | nil => rfl
  | cons hread _ ih => rw [map_cons, map_cons, (readField_ok hread).1, ih]

theorem tupled_of_mapM : ∀ m ∈ members, m.1 ∈ c.tuples → m.2.arr?.isSome := by
  rw [mapM_eq_ok_iff] at h
  generalize c.fields = fields at h
  induction h with
  | nil => exact fun _ hm => nomatch hm
  | cons hread _ ih =>
    intro m hm
    rcases mem_cons.mp hm with rfl | htail
    · exact (readField_ok hread).2
    · exact ih m htail

end

variable (c)

/-- `from_mapping`: unknown fields and missing ones without a default are refused. -/
def fromMapping (payload : Json) : Except PythonError (Record c) :=
  match payload with
  | .obj mapping =>
    if ∃ m ∈ mapping, m.1 ∉ c.fields.map Prod.fst then .error .typeError
    else
      match h : c.fields.mapM (c.readField mapping) with
      | .error e => .error e
      | .ok members => .ok ⟨members, complete_of_mapM h, tupled_of_mapM h⟩
  | _ => .error .typeError

variable {c}

/-- Looking up in a list without repeated keys. -/
theorem lookup_of_mem {l : Mapping} (hnodup : (l.map Prod.fst).Nodup) {m : String × Json}
    (hm : m ∈ l) : l.lookup m.1 = some m.2 := by
  induction l with
  | nil => cases hm
  | cons n l ih =>
    rw [map_cons, nodup_cons] at hnodup
    rcases mem_cons.mp hm with rfl | htail
    · exact lookup_cons_self
    · have hne : m.1 ≠ n.1 := by
        intro he
        exact hnodup.1 (he ▸ mem_map_of_mem htail)
      rw [lookup_cons, beq_false_of_ne hne]
      exact ih hnodup.2 htail

theorem mapM_readField (r : Record c) : c.fields.mapM (c.readField r.members) = .ok r.members := by
  have hnodup : (r.members.map Prod.fst).Nodup := r.complete ▸ c.nodup
  have hnames : List.Forall₂ (fun field member => field.1 = member.1) c.fields r.members := by
    rw [← forall₂_map_right_iff, ← forall₂_map_left_iff, r.complete]
    exact forall₂_refl _
  rw [forall₂_iff_zip] at hnames
  rw [mapM_eq_ok_iff, forall₂_iff_zip]
  refine ⟨hnames.1, fun {field member} hzip => ?_⟩
  have hmember := (of_mem_zip hzip).2
  have hlookup : r.members.lookup field.1 = some member.2 := by
    rw [hnames.2 hzip]
    exact lookup_of_mem hnodup hmember
  have htuple : ¬ (field.1 ∈ c.tuples ∧ member.2.arr?.isSome = false) := by
    rintro ⟨hmem, hnot⟩
    rw [hnames.2 hzip] at hmem
    rw [r.tupled member hmember hmem] at hnot
    cases hnot
  rw [readField.eq_def, hlookup]
  show (if field.1 ∈ c.tuples ∧ member.2.arr?.isSome = false then _ else _) = _
  rw [if_neg htuple, hnames.2 hzip]

/-- **What was written is read.** -/
theorem fromMapping_asDict (r : Record c) : c.fromMapping r.asDict = .ok r := by
  have hknown : ¬ ∃ m ∈ r.members, m.1 ∉ c.fields.map Prod.fst := by
    rintro ⟨m, hm, hnot⟩
    exact hnot (r.complete ▸ mem_map_of_mem hm)
  show (if ∃ m ∈ r.members, m.1 ∉ c.fields.map Prod.fst then _ else _) = _
  rw [if_neg hknown]
  split
  · rename_i e he
    rw [mapM_readField] at he
    cases he
  · rename_i members hmembers
    rw [mapM_readField] at hmembers
    cases hmembers
    rfl

end DataClass

end Hqsb
