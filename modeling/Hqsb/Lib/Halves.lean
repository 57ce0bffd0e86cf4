/-
Hqsb/Lib/Halves.lean

Two values to a cell.

`gather` fills cells with values two by two, with a padding value beside the last one of an
odd number; `spread` lists the halves of the cells.  Packers do not gather: they run over
the values and write the value at index `i` into cell `i / 2`.  `foldl_write` is the
connection.

If `place` keeps both halves, the values come back from the cells,

    (spread (gather l)).take l.length = l,

and if the halves determine the cell, so do the cells, given that the half beside an odd last
value is the padding.
-/
import Mathlib

namespace Lib.Halves

open List

variable {α β : Type*}

def spread (first second : β → α) (cells : List β) : List α :=
  cells.flatMap fun cell => [first cell, second cell]

/-- Cells filled two by two. -/
def gather (place : α → α → β) (pad : α) : List α → List β
  | [] => []
  | [a] => [place a pad]
  | a :: b :: l => place a b :: gather place pad l

/-- The value at index `i` goes to the left or to the right half of cell `i / 2`. -/
def write (left right : α → β → β) (cells : List β) (entry : α × Nat) : List β :=
  cells.modify (entry.2 / 2) (if entry.2 % 2 = 0 then left entry.1 else right entry.1)

section

variable (first second : β → α) (place : α → α → β) (pad : α)

theorem spread_cons (cell : β) (cells : List β) : spread first second (cell :: cells) =
      first cell :: second cell :: spread first second cells := rfl

theorem length_spread (cells : List β) : (spread first second cells).length = 2 * cells.length := by
  induction cells with
  | nil => rfl
  | cons cell cells ih =>
    rw [spread_cons, length_cons, length_cons, ih]
    rfl

theorem getElem?_spread (cells : List β) (i : Nat) : (spread first second cells)[i]? =
      cells[i / 2]?.map (if i % 2 = 0 then first else second) := by
  induction cells generalizing i with
  | nil => rfl
  | cons cell cells ih =>
    rcases i with - | - | i
    · rfl
    · rfl
    · rw [spread_cons, List.getElem?_cons_succ, List.getElem?_cons_succ, ih,
        Nat.add_assoc, Nat.add_div_right i Nat.two_pos, Nat.add_mod_right, List.getElem?_cons_succ]

theorem length_gather (l : List α) : (gather place pad l).length = (l.length + 1) / 2 := by
  induction l using gather.induct with
  | case1 => simp only [gather, length_nil]
  | case2 a => simp only [gather, length_singleton]
  | case3 a b l ih =>
    rw [gather, length_cons, ih, length_cons, length_cons,
      Nat.add_div_right _ Nat.two_pos]

end

theorem gather_append_pad (place : α → α → β) (pad : α) (l : List α) :
    l.length % 2 = 1 → gather place pad (l ++ [pad]) = gather place pad l := by
  induction l using gather.induct with
  | case1 => exact fun h => nomatch h
  | case2 a => exact fun _ => rfl
  | case3 a b l ih =>
    intro hodd
    rw [length_cons, length_cons, Nat.add_assoc, Nat.add_mod_right] at hodd
    rw [cons_append, cons_append, gather, gather, ih hodd]

/-! ### From values to cells and back -/

section

variable {first second : β → α} {place : α → α → β} {pad : α}

/-- **The values come back.** -/
theorem take_spread_gather {Fits : α → Prop}
    (hfirst : ∀ a b, Fits a → first (place a b) = a)
    (hsecond : ∀ a b, Fits b → second (place a b) = b) (l : List α) :
    (∀ a ∈ l, Fits a) → (spread first second (gather place pad l)).take l.length = l := by
  induction l using gather.induct with
  | case1 => exact fun _ => rfl
  | case2 a =>
    intro hl
    show [first (place a pad)] = [a]
    rw [hfirst a pad (hl a mem_cons_self)]
  | case3 a b l ih =>
    intro hl
    have ha := hl a mem_cons_self
    have hb := hl b (.tail _ mem_cons_self)
    rw [gather, spread_cons, length_cons, length_cons, take_succ_cons,
      take_succ_cons, hfirst a b ha, hsecond a b hb,
      ih fun c hc => hl c (.tail _ (.tail _ hc))]

/-- Beside an odd last value stands the padding. -/
theorem second_getLast_gather (hsecond : ∀ a, second (place a pad) = pad) (l : List α) :
    l.length % 2 = 1 → ∀ cell ∈ (gather place pad l).getLast?, second cell = pad := by
  induction l using gather.induct with
  | case1 => exact fun h => nomatch h
  | case2 a =>
    rintro - _ ⟨⟩
    exact hsecond a
  | case3 a b l ih =>
    intro hodd cell hcell
    rw [length_cons, length_cons, Nat.add_assoc, Nat.add_mod_right] at hodd
    refine ih hodd cell ?_
    have hne : gather place pad l ≠ [] := by
      rw [← length_pos_iff, length_gather]
      omega
    rwa [gather, List.getLast?_cons_of_ne_nil hne] at hcell

/-- **The cells come back.** -/
theorem gather_take_spread (hplace : ∀ cell, place (first cell) (second cell) = cell)
    (cells : List β) (n : Nat) :
    cells.length = (n + 1) / 2 → (n % 2 = 1 → ∀ cell ∈ cells.getLast?, second cell = pad) →
      gather place pad ((spread first second cells).take n) = cells := by
  induction cells generalizing n with
  | nil =>
    intro _ _
    rw [show spread first second [] = [] from rfl, take_nil]
    rfl
  | cons cell cells ih =>
    intro hlength hlast
    rw [length_cons] at hlength
    rcases n with - | - | n
    · exact absurd hlength (by omega)
    · have hnil : cells = [] := eq_nil_of_length_eq_zero (by omega)
      subst hnil
      show [place (first cell) pad] = [cell]
      rw [← hlast rfl cell rfl, hplace]
    · rw [spread_cons, take_succ_cons, take_succ_cons, gather, hplace, ih n (by omega)]
      intro hodd last hmem
      refine hlast (by omega) last ?_
      have hne : cells ≠ [] := by
        rintro rfl
        cases hmem
      rwa [List.getLast?_cons_of_ne_nil hne]

end

/-! ### Writing value by value -/

theorem modify_append_cons (f : β → β) (done rest : List β) (cell : β) :
    (done ++ cell :: rest).modify done.length f = done ++ f cell :: rest := by
  induction done with
  | nil => rfl
  | cons d done ih => exact congrArg (d :: ·) ih

variable {left right : α → β → β} {pad : α} {blank : β}

theorem write_left (done rest : List β) (cell : β) (a : α) :
    write left right (done ++ cell :: rest) (a, 2 * done.length) =
      done ++ left a cell :: rest := by
  rw [write, if_pos (Nat.mul_mod_right 2 _), Nat.mul_div_cancel_left _ Nat.two_pos,
    modify_append_cons]

theorem write_right (done rest : List β) (cell : β) (a : α) :
    write left right (done ++ cell :: rest) (a, 2 * done.length + 1) =
      done ++ right a cell :: rest := by
  have hodd : ¬ (2 * done.length + 1) % 2 = 0 := by omega
  have hcell : (2 * done.length + 1) / 2 = done.length := by omega
  rw [write, if_neg hodd, hcell, modify_append_cons]

/-- The values are written behind the cells that are done. -/
theorem foldl_write_append (hpad : ∀ a, right pad (left a blank) = left a blank) (l : List α)
    (done : List β) :
    (l.zipIdx (2 * done.length)).foldl (write left right)
        (done ++ List.replicate ((l.length + 1) / 2) blank) =
      done ++ gather (fun a b => right b (left a blank)) pad l := by
  induction l using gather.induct generalizing done with
  | case1 => simp only [gather, length_nil, Nat.zero_add, Nat.reduceDiv,
      replicate_zero, zipIdx_nil, foldl_nil]
  | case2 a =>
    have hcells : List.replicate (([a].length + 1) / 2) blank = [blank] := by
      simp only [length_singleton, Nat.reduceAdd, Nat.reduceDiv, replicate_one]
    rw [hcells, zipIdx_cons, zipIdx_nil, foldl_cons, foldl_nil, write_left,
      gather, hpad]
  | case3 a b l ih =>
    have hcells : List.replicate (((a :: b :: l).length + 1) / 2) blank =
        blank :: List.replicate ((l.length + 1) / 2) blank := by
      rw [length_cons, length_cons, Nat.add_div_right _ Nat.two_pos, replicate_succ]
    -- both halves of the next cell, which then is done
    have hcell : done ++ right b (left a blank) :: List.replicate ((l.length + 1) / 2) blank =
        (done ++ [right b (left a blank)]) ++ List.replicate ((l.length + 1) / 2) blank := by
      rw [append_assoc, singleton_append]
    have hindex : 2 * done.length + 1 + 1 = 2 * (done ++ [right b (left a blank)]).length := by
      rw [length_append, length_singleton, Nat.mul_add]
    rw [hcells, zipIdx_cons, zipIdx_cons, foldl_cons, foldl_cons, write_left,
      write_right, hcell, hindex, ih, gather, append_assoc, singleton_append]

/-- **Writing the values one by one gathers them.** -/
theorem foldl_write (hpad : ∀ a, right pad (left a blank) = left a blank) (l : List α) :
    l.zipIdx.foldl (write left right) (List.replicate ((l.length + 1) / 2) blank) =
      gather (fun a b => right b (left a blank)) pad l :=
  foldl_write_append hpad l []

end Lib.Halves
