/-
Hqsb/Lib/PathTree.lean

Documents as trees of named members.

A member is bound in place or at the end (`assign`, `lookup_assign`).  A node is found by steps
(`get?`), and steps one after another are looked up one after another (`get?_append`).
-/
import Mathlib

namespace Lib

open List

/-- A document: a scalar, a list, or named members in their order. -/
inductive PathTree (σ : Type) where
  | leaf (a : σ)
  | items (ts : List (PathTree σ))
  | dict (ms : List (String × PathTree σ))

namespace PathTree

variable {σ : Type}

/-- Bind a name: in place if it is bound, at the end otherwise. -/
def assign {α : Type} : List (String × α) → String → α → List (String × α)
  | [], key, v => [(key, v)]
  | (other, w) :: ms, key, v =>
    if other = key then (other, v) :: ms else (other, w) :: assign ms key v

/-- One hop of a place: to a member or to an item. -/
inductive Hop where
  | key (name : String)
  | index (i : Nat)

/-- The node at a place. -/
def get? : PathTree σ → List Hop → Option (PathTree σ)
  | t, [] => some t
  | .dict ms, .key name :: rest =>
    match ms.lookup name with
    | some t => get? t rest
    | none => none
  | .items ts, .index i :: rest =>
    match ts[i]? with
    | some t => get? t rest
    | none => none
  | _, _ => none

/-- No scalar is found in a node. -/
def Leafless (t : PathTree σ) : Prop := ∀ p a, t.get? p ≠ some (.leaf a)

mutual

def scalars : PathTree σ → List σ
  | .leaf a => [a]
  | .items ts => scalarsItems ts
  | .dict ms => scalarsMembers ms

def scalarsItems : List (PathTree σ) → List σ
  | [] => []
  | t :: ts => scalars t ++ scalarsItems ts

def scalarsMembers : List (String × PathTree σ) → List σ
  | [] => []
  | (_, t) :: ms => scalars t ++ scalarsMembers ms

end

theorem lookup_cons_ne {α : Type} {key other : String} (h : key ≠ other) (v : α)
    (ms : List (String × α)) : ((other, v) :: ms).lookup key = ms.lookup key := by
  rw [lookup_cons, beq_false_of_ne h]

/-- A name is bound exactly if something is found for it. -/
theorem mem_keys_iff {α : Type} {ms : List (String × α)} {key : String} :
    key ∈ ms.map Prod.fst ↔ ∃ v, ms.lookup key = some v := by
  induction ms with
  | nil => exact iff_of_false not_mem_nil fun ⟨_, h⟩ => (nomatch h)
  | cons e ms ih =>
    obtain ⟨name, w⟩ := e
    rw [map_cons, mem_cons]
    by_cases h : key = name
    · subst h
      exact iff_of_true (.inl rfl) ⟨w, lookup_cons_self⟩
    · rw [lookup_cons_ne h, ← ih]
      exact or_iff_right h

theorem lookup_assign {α : Type} (ms : List (String × α)) (key other : String) (v : α) :
    (assign ms key v).lookup other = if other = key then some v else ms.lookup other := by
  induction ms with
  | nil =>
    rw [assign]
    by_cases h : other = key
    · rw [if_pos h, h, lookup_cons_self]
    · rw [if_neg h, lookup_cons_ne h]
  | cons e ms ih =>
    obtain ⟨name, w⟩ := e
    rw [assign]
    by_cases hname : name = key
    · rw [if_pos hname, hname]
      by_cases h : other = key
      · rw [if_pos h, h, lookup_cons_self]
      · rw [if_neg h, lookup_cons_ne h, lookup_cons_ne h]
    · rw [if_neg hname]
      by_cases h : other = name
      · have hne : other ≠ key := fun heq => hname (h.symm.trans heq)
        rw [if_neg hne, h, lookup_cons_self, lookup_cons_self]
      · rw [lookup_cons_ne h, lookup_cons_ne h, ih]

/-! ### Places -/

theorem get?_dict_key (ms : List (String × PathTree σ)) (name : String) (rest : List Hop) :
    (dict ms).get? (.key name :: rest) = (ms.lookup name).bind fun t => t.get? rest := by
  rw [get?]
  cases ms.lookup name <;> rfl

theorem get?_items_index (ts : List (PathTree σ)) (i : Nat) (rest : List Hop) :
    (items ts).get? (.index i :: rest) = ts[i]?.bind fun t => t.get? rest := by
  rw [get?]
  cases ts[i]? <;> rfl

/-- Concatenated steps are looked up one after another. -/
theorem get?_append (t : PathTree σ) (p q : List Hop) :
    t.get? (p ++ q) = (t.get? p).bind fun u => u.get? q := by
  induction p generalizing t with
  | nil =>
    cases t <;> rfl
  | cons step p ih =>
    cases t with
    | leaf a => cases step <;> rfl
    | items ts =>
      cases step with
      | key name => rfl
      | index i =>
        rw [cons_append, get?_items_index, get?_items_index]
        cases ts[i]? with
        | none => rfl
        | some t => exact ih t
    | dict ms =>
      cases step with
      | index i => rfl
      | key name =>
        rw [cons_append, get?_dict_key, get?_dict_key]
        cases ms.lookup name with
        | none => rfl
        | some t => exact ih t

theorem get?_leaf {a : σ} {p : List Hop} {t : PathTree σ} (h : (leaf a).get? p = some t) :
    p = [] ∧ t = leaf a := by
  cases p with
  | nil => exact ⟨rfl, (Option.some.inj h).symm⟩
  | cons step p => cases step <;> exact nomatch h

theorem not_leafless_leaf (a : σ) : ¬ Leafless (leaf a) := fun h => h [] a rfl

end PathTree

end Lib
