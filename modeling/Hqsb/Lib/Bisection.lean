/-
Hqsb/Lib/Bisection.lean

Bisection of a range of integers.

A bracket of a predicate is a range that begins with a point where the predicate holds and ends
with one where it does not.  Any point strictly in between splits it into two ranges, one of which
is a bracket again, whatever the predicate is.  Halving it takes at most
`Nat.clog 2 (hi - lo).toNat` steps (`clog_left`, `clog_right`), and a bracket that cannot be split
is the threshold of a predicate that only falls (`Bracket.threshold`).
-/
import Mathlib

namespace Lib

/-- `p` holds at the beginning and fails at the end. -/
structure Bracket (p : Int → Bool) (lo hi : Int) : Prop where
  lt : lo < hi
  holds : p lo = true
  fails : p hi = false

namespace Bracket

variable {p : Int → Bool} {lo hi m : Int}

theorem upper (h : Bracket p lo hi) (hm : m < hi) (hp : p m = true) : Bracket p m hi :=
  ⟨hm, hp, h.fails⟩

theorem lower (h : Bracket p lo hi) (hm : lo < m) (hp : p m = false) : Bracket p lo m :=
  ⟨hm, h.holds, hp⟩

/-- **The threshold** of a predicate that only falls in a range around the bracket. -/
theorem threshold {low high : Int} (h : Bracket p lo (lo + 1)) (hlow : low ≤ lo)
    (hhigh : lo + 1 ≤ high)
    (hfalls : ∀ x y, low ≤ x → x ≤ y → y ≤ high → p y = true → p x = true) {x : Int}
    (hx : low ≤ x) (hx' : x ≤ high) : p x = true ↔ x ≤ lo := by
  constructor
  · intro hp
    by_contra hlt
    have hfails := hfalls (lo + 1) x (by omega) (by omega) hx' hp
    rw [h.fails] at hfails
    exact Bool.false_ne_true hfails
  · intro hle
    exact hfalls x lo hx hle (by omega) h.holds

theorem threshold_unique {low high t : Int} (h : Bracket p lo (lo + 1)) (hlow : low ≤ lo)
    (hhigh : lo + 1 ≤ high) (ht : ∀ x, low ≤ x → x ≤ high → (p x = true ↔ x ≤ t)) : t = lo := by
  have hholds := (ht lo hlow (by omega)).mp h.holds
  have hfails : ¬ lo + 1 ≤ t := by
    intro hle
    have := (ht (lo + 1) (by omega) hhigh).mpr hle
    rw [h.fails] at this
    exact Bool.false_ne_true this
  omega

end Bracket

/-! ### Halving -/

theorem lt_half {lo hi : Int} (h : 1 < hi - lo) : lo < (lo + hi) / 2 := by
  omega

theorem half_lt {lo hi : Int} (h : 1 < hi - lo) : (lo + hi) / 2 < hi := by
  omega

theorem clog_part {d part : Nat} (h : 1 < d) (hpart : part ≤ (d + 1) / 2) :
    Nat.clog 2 part + 1 ≤ Nat.clog 2 d := by
  rw [Nat.clog_of_two_le Nat.one_lt_two h]
  apply Nat.succ_le_succ
  apply Nat.clog_mono_right
  omega

theorem clog_left {lo hi : Int} (h : 1 < hi - lo) :
    Nat.clog 2 ((lo + hi) / 2 - lo).toNat + 1 ≤ Nat.clog 2 (hi - lo).toNat := by
  apply clog_part <;> omega

theorem clog_right {lo hi : Int} (h : 1 < hi - lo) :
    Nat.clog 2 (hi - (lo + hi) / 2).toNat + 1 ≤ Nat.clog 2 (hi - lo).toNat := by
  apply clog_part <;> omega

end Lib
