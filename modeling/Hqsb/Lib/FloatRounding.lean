/-
Hqsb/Lib/FloatRounding.lean

What an operation on binary floating-point numbers gives: the exact result, rounded.

`nearest` rounds to a multiple of the unit in the last place, whatever rule resolves the ties.
It loses half a unit (`abs_nearest_sub_le`), and so no more than a factor `1 + 2⁻ᵖ` and the least
positive number (`nearest_le`, `le_nearest`).  It keeps the order in which the numbers stand
(`nearest_mono`).  What is too large for the format becomes an infinity (`round`).  A sum that is
rounded again and again drifts away from the sum of its summands (`Drift`).
-/
import Hqsb.Lib.BinaryFloat
import Hqsb.Lib.Nearest

namespace Lib.BinaryFloat

variable (f : BinaryFloat)

/-- The exponent of the first power of two that is too large. -/
def limit : Nat := 2 ^ (f.exponent - 1)

/-- The nearest number, if the exponents had no end. -/
def nearest (rnd : ℚ → Int) (x : ℚ) : ℚ := rnd (x / 2 ^ f.ulp |x|) * 2 ^ f.ulp |x|

/-- The numbers of a format: finite ones and the two infinities. -/
abbrev Extended (K : Type*) := WithBot (WithTop K)

abbrev Extended.finite {K : Type*} (x : K) : Extended K := ((x : WithTop K) : Extended K)

/-- The result of an operation whose exact result is `x`. -/
def round (rnd : ℚ → Int) (x : ℚ) : Extended ℚ :=
  if 2 ^ f.limit ≤ f.nearest rnd x then ⊤
  else if f.nearest rnd x ≤ -2 ^ f.limit then ⊥
  else .finite (f.nearest rnd x)

/-- An operation on a number that is finite; an infinity stays. -/
def Extended.step {K : Type*} (rounded : K → Extended K) : Extended K → Extended K
  | ((x : K) : WithTop K) => rounded x
  | x => x

variable {f} {rnd : ℚ → Int} {x y : ℚ}

theorem finite_le_finite {v w : ℚ} : Extended.finite v ≤ .finite w ↔ v ≤ w :=
  WithBot.coe_le_coe.trans WithTop.coe_le_coe

theorem finite_lt_finite {v w : ℚ} : Extended.finite v < .finite w ↔ v < w :=
  WithBot.coe_lt_coe.trans WithTop.coe_lt_coe

theorem finite_inj {v w : ℚ} (h : Extended.finite v = .finite w) : v = w :=
  WithTop.coe_injective (WithBot.coe_injective h)

theorem nearest_of_round {v : ℚ} (h : f.round rnd x = .finite v) : v = f.nearest rnd x := by
  rw [round] at h
  split_ifs at h with htop hbot
  · cases h
  · cases h
  · exact (finite_inj h).symm

/-! ### What rounding loses -/

theorem nearest_zero (hrnd : ∀ x, IsNearest x (rnd x)) : f.nearest rnd 0 = 0 := by
  have hzero : rnd 0 = 0 := by
    have h := hrnd ((0 : Int) : ℚ)
    rw [Int.cast_zero] at h
    exact IsNearest.eq_of_intCast (n := 0) (by simpa using h)
  rw [nearest, zero_div, hzero, Int.cast_zero, zero_mul]

/-- Half a unit in the last place, which is a share of the number or of the least positive one. -/
theorem abs_nearest_sub_le (hrnd : ∀ x, IsNearest x (rnd x)) (x : ℚ) :
    |f.nearest rnd x - x| ≤ |x| / 2 ^ (f.fraction + 1) + 2 ^ f.least / 2 := by
  rcases eq_or_ne x 0 with rfl | hx
  · rw [nearest_zero hrnd]
    simp only [sub_zero, abs_zero, zero_div, zero_add]
    positivity
  have hpos : 0 < |x| := abs_pos.mpr hx
  have hstep : (0 : ℚ) < 2 ^ f.ulp |x| := zpow_pos two_pos _
  have hhalf : |f.nearest rnd x - x| ≤ 2 ^ f.ulp |x| / 2 := by
    rw [abs_sub_comm, nearest, mul_comm]
    exact IsNearest.abs_sub_mul_le hstep (hrnd _)
  refine hhalf.trans ?_
  rcases le_total f.least (Int.log 2 |x| - f.fraction) with hle | hle
  · -- a normal number: the unit is at most a share of it
    have hlog : (2 : ℚ) ^ Int.log 2 |x| ≤ |x| := by
      exact_mod_cast Int.zpow_log_le_self Nat.one_lt_two hpos
    have hunit : (2 : ℚ) ^ f.ulp |x| / 2 = 2 ^ Int.log 2 |x| / 2 ^ (f.fraction + 1) := by
      rw [ulp, max_eq_right hle, zpow_sub₀ two_ne_zero, zpow_natCast, div_div, ← pow_succ]
    rw [hunit]
    have hshare : (2 : ℚ) ^ Int.log 2 |x| / 2 ^ (f.fraction + 1) ≤ |x| / 2 ^ (f.fraction + 1) :=
      div_le_div_of_nonneg_right hlog (by positivity)
    have hrest : (0 : ℚ) ≤ 2 ^ f.least / 2 := by positivity
    linarith
  · rw [ulp, max_eq_left hle]
    have hshare : 0 ≤ |x| / 2 ^ (f.fraction + 1) := by positivity
    linarith

variable (f) in
/-- The factor by which a number is off at most. -/
def growth : ℚ := 1 + 1 / 2 ^ f.fraction

variable (f) in
def tiny : ℚ := 2 ^ f.least

theorem one_le_growth : 1 ≤ f.growth := le_add_of_nonneg_right (by positivity)

theorem tiny_pos : 0 < f.tiny := zpow_pos two_pos _

/-- Rounding makes a number only a little larger, -/
theorem nearest_le (hrnd : ∀ x, IsNearest x (rnd x)) (hx : 0 ≤ x) :
    f.nearest rnd x ≤ f.growth * x + f.tiny := by
  have hloss := (le_abs_self _).trans (abs_nearest_sub_le (f := f) hrnd x)
  rw [abs_of_nonneg hx, pow_succ] at hloss
  have hshare : x / (2 ^ f.fraction * 2) ≤ 1 / 2 ^ f.fraction * x := by
    rw [div_mul_eq_mul_div, one_mul]
    have hpow : (0 : ℚ) < 2 ^ f.fraction := by positivity
    exact div_le_div_of_nonneg_left hx (by positivity) (by linarith)
  have htiny : (0 : ℚ) < 2 ^ f.least := zpow_pos two_pos _
  rw [growth, tiny]
  linarith

/-- and only a little smaller. -/
theorem le_nearest (hrnd : ∀ x, IsNearest x (rnd x)) (hx : 0 ≤ x) :
    x ≤ f.growth * f.nearest rnd x + f.tiny := by
  have hloss := (neg_abs_le _).trans' (neg_le_neg (abs_nearest_sub_le (f := f) hrnd x))
  rw [abs_of_nonneg hx, pow_succ, div_mul_eq_div_div] at hloss
  have hone : (1 : ℚ) ≤ 2 ^ f.fraction := one_le_pow₀ one_le_two
  have hshare : (1 : ℚ) / 2 ^ f.fraction ≤ 1 := (div_le_one (by positivity)).mpr hone
  have hpos : (0 : ℚ) < 1 / 2 ^ f.fraction := by positivity
  have htiny : (0 : ℚ) < 2 ^ f.least := zpow_pos two_pos _
  have hscaled : x / 2 ^ f.fraction = 1 / 2 ^ f.fraction * x := by rw [div_mul_eq_mul_div, one_mul]
  rw [growth, tiny]
  rw [hscaled] at hloss
  generalize (1 : ℚ) / 2 ^ f.fraction = a at *
  -- what is lost is made up for: `(1 - a / 2) * (1 + a)` is at least one
  have hless : x * (1 - a / 2) ≤ f.nearest rnd x + 2 ^ f.least / 2 := by linarith
  calc x ≤ x * ((1 - a / 2) * (1 + a)) := le_mul_of_one_le_right hx (by nlinarith)
    _ = x * (1 - a / 2) * (1 + a) := by ring
    _ ≤ (f.nearest rnd x + 2 ^ f.least / 2) * (1 + a) :=
        mul_le_mul_of_nonneg_right hless (by linarith)
    _ ≤ (1 + a) * f.nearest rnd x + 2 ^ f.least := by nlinarith

/-! ### Order -/

theorem nearest_nonneg (hrnd : ∀ x, IsNearest x (rnd x)) (hx : 0 ≤ x) : 0 ≤ f.nearest rnd x := by
  have hscaled : ((0 : Int) : ℚ) ≤ x / 2 ^ f.ulp |x| := by
    rw [Int.cast_zero]
    positivity
  exact mul_nonneg (Int.cast_nonneg ((hrnd _).ge hscaled)) (zpow_pos two_pos _).le

theorem nearest_nonpos (hrnd : ∀ x, IsNearest x (rnd x)) (hx : x ≤ 0) : f.nearest rnd x ≤ 0 := by
  have hscaled : x / 2 ^ f.ulp |x| ≤ ((0 : Int) : ℚ) := by
    rw [Int.cast_zero]
    exact div_nonpos_of_nonpos_of_nonneg hx (zpow_pos two_pos _).le
  exact mul_nonpos_of_nonpos_of_nonneg (Int.cast_nonpos.mpr ((hrnd _).le hscaled))
    (zpow_pos two_pos _).le

theorem ulp_mono (hx : 0 < x) (hxy : x ≤ y) : f.ulp x ≤ f.ulp y := by
  have hlog : Int.log 2 x ≤ Int.log 2 y := Int.log_mono_right hx hxy
  exact max_le_max le_rfl (Int.sub_le_sub_right hlog _)

/-- **Rounding keeps the order** below a number that is not negative. -/
theorem nearest_mono (hrnd : ∀ x, IsNearest x (rnd x)) (hy : 0 ≤ y) (hxy : x ≤ y) :
    f.nearest rnd x ≤ f.nearest rnd y := by
  rcases le_or_gt x 0 with hneg | hpos
  · exact (nearest_nonpos hrnd hneg).trans (nearest_nonneg hrnd hy)
  rw [nearest, nearest, abs_of_pos hpos, abs_of_nonneg hy]
  have hunit (e : Int) : (0 : ℚ) < 2 ^ e := zpow_pos two_pos e
  rcases (ulp_mono (f := f) hpos hxy).eq_or_lt with heq | hlt
  · rw [← heq]
    refine mul_le_mul_of_nonneg_right (Int.cast_le.mpr (IsNearest.mono hrnd ?_)) (hunit _).le
    exact div_le_div_of_nonneg_right hxy (hunit _).le
  · -- a power of two lies in between
    have hnormal : f.ulp y = Int.log 2 y - f.fraction := by
      rw [ulp, max_eq_right_iff]
      have hleast : f.least ≤ f.ulp x := le_max_left _ _
      have hmax : f.ulp x < max f.least (Int.log 2 y - f.fraction) := hlt
      omega
    have hpower : ((2 ^ f.fraction : Int) : ℚ) ≤ y / 2 ^ f.ulp y := by
      rw [le_div_iff₀ (hunit _), hnormal, Int.cast_pow, Int.cast_ofNat, ← zpow_natCast,
        ← zpow_add₀ two_ne_zero, add_sub_cancel]
      exact_mod_cast Int.zpow_log_le_self Nat.one_lt_two (hpos.trans_le hxy)
    have hbelow : x / 2 ^ f.ulp x ≤ ((2 ^ (f.fraction + 1) : Int) : ℚ) := by
      rw [div_le_iff₀ (hunit _), Int.cast_pow, Int.cast_ofNat, ← zpow_natCast,
        ← zpow_add₀ two_ne_zero]
      have hless : x < (2 : ℚ) ^ (Int.log 2 x + 1) := by
        exact_mod_cast Int.lt_zpow_succ_log_self (R := ℚ) Nat.one_lt_two x
      have hexponent : Int.log 2 x + 1 ≤ ((f.fraction + 1 : Nat) : Int) + f.ulp x := by
        have := le_max_right f.least (Int.log 2 x - f.fraction)
        rw [ulp]
        push_cast
        omega
      exact hless.le.trans (zpow_le_zpow_right₀ one_le_two hexponent)
    calc (rnd (x / 2 ^ f.ulp x) : ℚ) * 2 ^ f.ulp x
        ≤ ((2 ^ (f.fraction + 1) : Int) : ℚ) * 2 ^ f.ulp x :=
          mul_le_mul_of_nonneg_right (Int.cast_le.mpr ((hrnd _).le hbelow)) (hunit _).le
      _ = ((2 ^ f.fraction : Int) : ℚ) * 2 ^ (f.ulp x + 1) := by
          rw [zpow_add_one₀ two_ne_zero]
          push_cast
          ring
      _ ≤ ((2 ^ f.fraction : Int) : ℚ) * 2 ^ f.ulp y := by
          refine mul_le_mul_of_nonneg_left (zpow_le_zpow_right₀ one_le_two hlt) ?_
          exact Int.cast_nonneg (by positivity)
      _ ≤ rnd (y / 2 ^ f.ulp y) * 2 ^ f.ulp y :=
          mul_le_mul_of_nonneg_right (Int.cast_le.mpr ((hrnd _).ge hpower)) (hunit _).le

/-! ### Sums that are rounded again and again -/

variable (f) in
/-- `x` exceeds `y` by no more than `n` roundings can make it. -/
def Drift (n : Nat) (x y : ℚ) : Prop := x ≤ f.growth ^ n * (y + n * f.tiny)

variable {n m : Nat} {v v' c : ℚ}

theorem Drift.mono (h : f.Drift n x y) (hy : 0 ≤ y) (hnm : n ≤ m) : f.Drift m x y := by
  have htiny : (n : ℚ) * f.tiny ≤ m * f.tiny :=
    mul_le_mul_of_nonneg_right (Nat.cast_le.mpr hnm) tiny_pos.le
  have hnonneg : (0 : ℚ) ≤ n * f.tiny := mul_nonneg n.cast_nonneg tiny_pos.le
  refine h.trans (mul_le_mul (pow_le_pow_right₀ one_le_growth hnm) (by linarith) (by linarith) ?_)
  exact pow_nonneg (zero_le_one.trans one_le_growth) m

/-- A sum and its rounding drift apart by one more rounding, -/
theorem Drift.add_left (h : f.Drift n x v) (hv : v + c ≤ f.growth * v' + f.tiny)
    (hc : 0 ≤ c) : f.Drift (n + 1) (x + c) v' := by
  have hgrowth : (1 : ℚ) ≤ f.growth := one_le_growth
  have hpower : (1 : ℚ) ≤ f.growth ^ n := one_le_pow₀ hgrowth
  have htiny : (0 : ℚ) < f.tiny := tiny_pos
  have hn : (0 : ℚ) ≤ n := n.cast_nonneg
  have hsum : (0 : ℚ) ≤ (n + 1) * f.tiny := by positivity
  calc x + c ≤ f.growth ^ n * (v + n * f.tiny) + f.growth ^ n * c :=
        add_le_add h (le_mul_of_one_le_left hc hpower)
    _ = f.growth ^ n * (v + c + n * f.tiny) := by ring
    _ ≤ f.growth ^ n * (f.growth * v' + f.growth * ((n + 1) * f.tiny)) := by
        refine mul_le_mul_of_nonneg_left ?_ (zero_le_one.trans hpower)
        linarith [le_mul_of_one_le_left hsum hgrowth]
    _ = f.growth ^ (n + 1) * (v' + (n + 1 : Nat) * f.tiny) := by
        push_cast
        ring

/-- whichever of the two is the larger. -/
theorem Drift.add_right (h : f.Drift n v x) (hv : v' ≤ f.growth * (v + c) + f.tiny)
    (hc : 0 ≤ c) : f.Drift (n + 1) v' (x + c) := by
  have hgrowth : (1 : ℚ) ≤ f.growth := one_le_growth
  have hpower : (1 : ℚ) ≤ f.growth ^ n := one_le_pow₀ hgrowth
  have hmore : (1 : ℚ) ≤ f.growth ^ (n + 1) := one_le_pow₀ hgrowth
  have htiny : (0 : ℚ) < f.tiny := tiny_pos
  calc v' ≤ f.growth * (f.growth ^ n * (x + n * f.tiny) + f.growth ^ n * c) + f.tiny := by
        refine hv.trans (add_le_add_left (mul_le_mul_of_nonneg_left ?_ (zero_le_one.trans hgrowth)) _)
        exact add_le_add h (le_mul_of_one_le_left hc hpower)
    _ ≤ f.growth * (f.growth ^ n * (x + n * f.tiny) + f.growth ^ n * c) +
        f.growth ^ (n + 1) * f.tiny := by
        linarith [le_mul_of_one_le_left htiny.le hmore]
    _ = f.growth ^ (n + 1) * (x + c + (n + 1 : Nat) * f.tiny) := by
        push_cast
        ring

/-- The same, in proportion to a weight that is not too small. -/
theorem Drift.div (h : f.Drift n x y) {low w : ℚ} (hlow : 0 < low) (hw : low ≤ w) :
    x / w ≤ f.growth ^ n * (y / w + n * f.tiny / low) := by
  have hpos : 0 < w := hlow.trans_le hw
  have hpower : (0 : ℚ) ≤ f.growth ^ n := pow_nonneg (zero_le_one.trans one_le_growth) n
  have htiny : (0 : ℚ) ≤ n * f.tiny := mul_nonneg n.cast_nonneg tiny_pos.le
  calc x / w ≤ f.growth ^ n * (y + n * f.tiny) / w := div_le_div_of_nonneg_right h hpos.le
    _ = f.growth ^ n * (y / w + n * f.tiny / w) := by rw [mul_div_assoc, add_div]
    _ ≤ f.growth ^ n * (y / w + n * f.tiny / low) :=
        mul_le_mul_of_nonneg_left (add_le_add_right
          (div_le_div_of_nonneg_left htiny hlow hw) _) hpower

end Lib.BinaryFloat
