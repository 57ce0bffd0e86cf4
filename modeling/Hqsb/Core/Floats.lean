/-
Hqsb/Core/Floats.lean

Python's floats: doubles, rounded to nearest with ties to even.

A sum, a product or a quotient of finite floats is its exact result, rounded (`Float64.ofRat`).
There is no NaN: nothing here divides by zero, or takes an infinity from another.
-/
import Hqsb.Lib.FloatRounding
import Hqsb.Quant.Rounding

namespace Hqsb

open Lib

abbrev Float64 := BinaryFloat.Extended ℚ

/-- The float nearest to a number that is not too large. -/
def nearest64 (x : ℚ) : ℚ := binary64.nearest roundNearestEven x

namespace Float64

def ofRat (x : ℚ) : Float64 := binary64.round roundNearestEven x

/-- `x + c` -/
def add (x : Float64) (c : ℚ) : Float64 := x.step fun v => ofRat (v + c)

/-- `x / c` for a positive `c`. -/
def div (x : Float64) (c : ℚ) : Float64 := x.step fun v => ofRat (v / c)

def sum (x : Float64) (c : ℚ) : Float64 := x.step fun v => .finite (v + c)

/-- The quotient without rounding. -/
def ratio (x : Float64) (c : ℚ) : Float64 := x.step fun v => .finite (v / c)

def IsFinite (x : Float64) : Prop := x ≠ ⊤ ∧ x ≠ ⊥

instance (x : Float64) : Decidable x.IsFinite := inferInstanceAs (Decidable (_ ∧ _))

theorem IsFinite.exists {x : Float64} (h : x.IsFinite) : ∃ v : ℚ, x = .finite v := by
  rcases x with - | - | v
  · exact absurd rfl h.2
  · exact absurd rfl h.1
  · exact ⟨v, rfl⟩

example : ofRat (1 + 2 ^ (-53 : ℤ)) = .finite 1 := by decide +kernel

end Float64

end Hqsb
