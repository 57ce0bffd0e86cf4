/-
Hqsb/Serving/FairPolicy.lean

The weighted fair queue policy.

The policy serves the waiting entry whose tenant has the least virtual time over its
entitlement, and charges the cost of the entry to that tenant.  Virtual times and quotients are
floats: they are rounded, and a sum may absorb a small cost altogether.  `FairService` counts
beside the policy what every tenant was really served, and `Lib.FairShare` bounds by how much the
normalised service of two tenants differs while all of them wait: by one charge, and by what the
rounding adds up to.
-/
import Hqsb.Core.Floats
import Hqsb.Lib.FairShare
import Hqsb.Lib.Machine
import Hqsb.Lib.OrderedDict

namespace Hqsb

open Lib Lib.FairShare List

/-- One waiting request as the policy sees it; its costs are finite floats. -/
structure QueueEntry where
  requestId : String
  tenant : String
  enqueuedNs : Int
  estimatedCost : ℚ
  entitlement : ℚ := 1
  actualCost : ℚ := 0
  chargedCost : ℚ := 0
  entitlement_pos : 0 < entitlement := by decide

/-- `charged_cost or actual_cost or estimated_cost`. -/
def QueueEntry.charge (e : QueueEntry) : ℚ :=
  if e.chargedCost ≠ 0 then e.chargedCost
  else if e.actualCost ≠ 0 then e.actualCost
  else e.estimatedCost

/-- What the policy chose. -/
structure PolicyDecision where
  selectedRequestId : String
  nowNs : Int
  queueDepth : Nat
  waitedNs : Int
  virtualTimeAfter : Float64

def SelectionKey := Float64 ×ₗ Int ×ₗ String

instance : LinearOrder SelectionKey :=
  @Prod.Lex.instLinearOrder Float64 (Int ×ₗ String) _
    (@Prod.Lex.instLinearOrder Int String Int.instLinearOrder _)

structure WeightedFairPolicy where
  servedCost : OrderedDict String Float64 := .empty
  servedCount : OrderedDict String Nat := .empty
  virtualTime : OrderedDict String Float64 := .empty

namespace WeightedFairPolicy

variable (p : WeightedFairPolicy)

def charged (tenant : String) : Float64 := (p.virtualTime.get? tenant).getD 0

def charge (entry : QueueEntry) : WeightedFairPolicy :=
  { p with
    servedCost := p.servedCost.set entry.tenant
      (((p.servedCost.get? entry.tenant).getD 0).add entry.charge)
    servedCount := p.servedCount.set entry.tenant
      ((p.servedCount.get? entry.tenant).getD 0 + 1) }

def setdefault (virtualTime : OrderedDict String Float64) (tenant : String) (baseline : Float64) :
    OrderedDict String Float64 :=
  match virtualTime.get? tenant with
  | some _ => virtualTime
  | none => virtualTime.set tenant baseline

/-- Tenants without history start at the current minimum. -/
def enter (queue : List QueueEntry) : WeightedFairPolicy :=
  let baseline := p.virtualTime.values.min?.getD 0
  { p with
    virtualTime := queue.foldl
      (fun virtualTime item => setdefault virtualTime item.tenant baseline) p.virtualTime }

/-- The key of the selection: ties go by the time of arrival and then by the request. -/
def key (item : QueueEntry) : SelectionKey :=
  toLex ((p.charged item.tenant).div item.entitlement, toLex (item.enqueuedNs, item.requestId))

def chosen (queue : List QueueEntry) : Option QueueEntry := queue.argmin (p.enter queue).key

def select (queue : List QueueEntry) (nowNs : Int) : Option PolicyDecision × WeightedFairPolicy :=
  let entered := p.enter queue
  match p.chosen queue with
  | none => (none, p)
  | some chosen =>
    let virtualTimeAfter := (entered.charged chosen.tenant).add chosen.charge
    (some {
        selectedRequestId := chosen.requestId
        nowNs
        queueDepth := queue.length
        waitedNs := nowNs - chosen.enqueuedNs
        virtualTimeAfter },
      { entered with
        virtualTime := entered.virtualTime.set chosen.tenant virtualTimeAfter }.charge chosen)

/-- `refund`: the entry and the policy afterwards; a fraction out of range is a `ConfigError`. -/
def refund (entry : QueueEntry) (unexecutedFraction : ℚ) :
    Except String (QueueEntry × WeightedFairPolicy) :=
  if ¬ (0 ≤ unexecutedFraction ∧ unexecutedFraction ≤ 1) then
    .error "refund fraction must be in [0, 1]"
  else
    let refund := nearest64 (entry.chargedCost * unexecutedFraction)
    .ok ({ entry with chargedCost := nearest64 (entry.chargedCost - refund) },
      { p with
        servedCost := p.servedCost.set entry.tenant
          (max 0 (((p.servedCost.get? entry.tenant).getD 0).add (-refund))) })

/-- The virtual time a tenant has when it waits next: its own, or the least there is. -/
def start (tenant : String) : Float64 :=
  (p.virtualTime.get? tenant).getD (p.virtualTime.values.min?.getD 0)

end WeightedFairPolicy

/-! ### Sequences of calls -/

inductive FairCall
  | select (queue : List QueueEntry) (nowNs : Int)
  | refund (entry : QueueEntry) (unexecutedFraction : ℚ)

/-- A policy, and the cost that every tenant was really served. -/
structure FairService where
  policy : WeightedFairPolicy := {}
  delivered : String → ℚ := fun _ => 0

def fairCalls : Machine FairService FairCall where
  init := {}
  step s
    | .select queue nowNs =>
      match s.policy.chosen queue with
      | none => s
      | some chosen =>
        { policy := (s.policy.select queue nowNs).2
          delivered := Function.update s.delivered chosen.tenant
            (s.delivered chosen.tenant + chosen.charge) }
    | .refund entry unexecutedFraction =>
      match s.policy.refund entry unexecutedFraction with
      | .ok (_, policy) =>
        { policy
          delivered := Function.update s.delivered entry.tenant
            (s.delivered entry.tenant - entry.chargedCost * unexecutedFraction) }
      | .error _ => s

/-- All tenants wait, with their entitlements and with positive costs up to `C`. -/
structure Backlogged (tenants : Finset String) (weight : String → ℚ) (C : ℚ)
    (queue : List QueueEntry) : Prop where
  present : ∀ tenant ∈ tenants, ∃ e ∈ queue, e.tenant = tenant
  known : ∀ e ∈ queue, e.tenant ∈ tenants ∧ e.entitlement = weight e.tenant
  cost : ∀ e ∈ queue, 0 < e.charge ∧ e.charge ≤ C

namespace FairCall

def Serves (tenants : Finset String) (weight : String → ℚ) (C : ℚ) : FairCall → Prop
  | .select queue _ => Backlogged tenants weight C queue
  | .refund _ _ => False

/-- No sum and no quotient of the selection is too large for a float. -/
def InRange (s : FairService) : FairCall → Prop
  | .select queue _ => ∀ e ∈ queue, ((s.policy.start e.tenant).add e.charge).IsFinite ∧
      ((s.policy.start e.tenant).div e.entitlement).IsFinite
  | .refund _ _ => True

/-- No cost is rounded when it is charged, and rounding makes no two quotients equal. -/
def Exact (s : FairService) : FairCall → Prop
  | .select queue _ => ∀ e ∈ queue, (s.policy.start e.tenant).IsFinite ∧
      (s.policy.start e.tenant).add e.charge = (s.policy.start e.tenant).sum e.charge ∧
      ∀ e' ∈ queue, (s.policy.start e.tenant).ratio e.entitlement <
          (s.policy.start e'.tenant).ratio e'.entitlement →
        (s.policy.start e.tenant).div e.entitlement <
          (s.policy.start e'.tenant).div e'.entitlement
  | .refund _ _ => True

instance (s : FairService) : (call : FairCall) → Decidable (call.InRange s)
  | .select queue _ => inferInstanceAs (Decidable (∀ e ∈ queue, _))
  | .refund _ _ => .isTrue trivial

instance (s : FairService) : (call : FairCall) → Decidable (call.Exact s)
  | .select queue _ => inferInstanceAs (Decidable (∀ e ∈ queue, _))
  | .refund _ _ => .isTrue trivial

end FairCall

/-! ### One selection -/

namespace WeightedFairPolicy

variable {p : WeightedFairPolicy} {weight : String → ℚ} {queue : List QueueEntry}

/-- Who waits has its virtual time when the queue is entered, and keeps it. -/
theorem get?_foldl_setdefault {baseline : Float64} (queue : List QueueEntry)
    (virtualTime : OrderedDict String Float64) {tenant : String}
    (h : (∃ e ∈ queue, e.tenant = tenant) ∨ tenant ∈ virtualTime.keys) :
    (queue.foldl (fun vt item => setdefault vt item.tenant baseline) virtualTime).get? tenant =
      some ((virtualTime.get? tenant).getD baseline) := by
  induction queue generalizing virtualTime with
  | nil =>
    have hmem : tenant ∈ virtualTime.keys := by simpa using h
    obtain ⟨v, hv⟩ := virtualTime.mem_keys_iff.mp hmem
    rw [foldl_nil, hv]
    rfl
  | cons e queue ih =>
    have hget : ((setdefault virtualTime e.tenant baseline).get? tenant).getD baseline =
        (virtualTime.get? tenant).getD baseline := by
      rw [setdefault.eq_def]
      rcases hentry : virtualTime.get? e.tenant with - | v
      · rw [OrderedDict.get?_set]
        by_cases heq : tenant = e.tenant
        · rw [if_pos heq, heq, hentry]
          rfl
        · rw [if_neg heq]
      · rfl
    have hkeys : ∀ other, other ∈ (setdefault virtualTime e.tenant baseline).keys ↔
        other = e.tenant ∨ other ∈ virtualTime.keys := by
      intro other
      rw [setdefault.eq_def]
      rcases hentry : virtualTime.get? e.tenant with - | v
      · exact virtualTime.mem_keys_set _ _ _
      · refine (or_iff_right_of_imp ?_).symm
        rintro rfl
        exact OrderedDict.mem_keys_of_get? hentry
    rw [foldl_cons, ih, hget]
    rw [hkeys]
    rcases h with ⟨e', he', rfl⟩ | hmem
    · rcases mem_cons.mp he' with rfl | he'
      · exact .inr (.inl rfl)
      · exact .inl ⟨e', he', rfl⟩
    · exact .inr (.inr hmem)

theorem get?_enter {tenant : String} (h : ∃ e ∈ queue, e.tenant = tenant) :
    (p.enter queue).virtualTime.get? tenant = some (p.start tenant) :=
  get?_foldl_setdefault queue p.virtualTime (.inl h)

theorem charged_enter {tenant : String} (h : ∃ e ∈ queue, e.tenant = tenant) :
    (p.enter queue).charged tenant = p.start tenant := by
  rw [charged, get?_enter h]
  rfl

end WeightedFairPolicy

open WeightedFairPolicy

variable {weight : String → ℚ} {queue : List QueueEntry} {s : FairService}

/-- What a selection does to the tenants that wait: the chosen one is charged, and it has not been
served more than any other by its entitlement, as floats compare. -/
structure FairSelect (s : FairService) (weight : String → ℚ) (queue : List QueueEntry)
    (s' : FairService) (entry : QueueEntry) : Prop where
  mem : entry ∈ queue
  least : ∀ e ∈ queue, (s.policy.start entry.tenant).div (weight entry.tenant) ≤
    (s.policy.start e.tenant).div (weight e.tenant)
  start : ∀ e ∈ queue, s'.policy.start e.tenant = Function.update s.policy.start entry.tenant
    ((s.policy.start entry.tenant).add entry.charge) e.tenant
  delivered : s'.delivered = Function.update s.delivered entry.tenant
    (s.delivered entry.tenant + entry.charge)

/-- **The selection.** -/
theorem step_selected (hqueue : ∀ e ∈ queue, e.entitlement = weight e.tenant) (hne : queue ≠ [])
    (nowNs : Int) :
    ∃ entry, FairSelect s weight queue (fairCalls.step s (.select queue nowNs)) entry := by
  rcases hchosen : s.policy.chosen queue with - | chosen
  · exact absurd (argmin_eq_none.mp hchosen) hne
  have hmem := argmin_mem hchosen
  have hselect : (s.policy.select queue nowNs).2 = ({ s.policy.enter queue with
      virtualTime := (s.policy.enter queue).virtualTime.set chosen.tenant
        (((s.policy.enter queue).charged chosen.tenant).add chosen.charge) } :
          WeightedFairPolicy).charge chosen := by
    rw [select, hchosen]
  have hstep : fairCalls.step s (.select queue nowNs) =
      { policy := (s.policy.select queue nowNs).2
        delivered := Function.update s.delivered chosen.tenant
          (s.delivered chosen.tenant + chosen.charge) } := by
    show (match s.policy.chosen queue with
      | none => s
      | some chosen => _) = _
    rw [hchosen]
  have hstart := charged_enter (p := s.policy) ⟨chosen, hmem, rfl⟩
  rw [hstep, hselect]
  refine ⟨chosen, hmem, ?_, ?_, rfl⟩
  · intro e he
    have hkey : (s.policy.enter queue).key chosen ≤ (s.policy.enter queue).key e :=
      le_of_mem_argmin he hchosen
    have hfirst : ((s.policy.enter queue).charged chosen.tenant).div chosen.entitlement ≤
        ((s.policy.enter queue).charged e.tenant).div e.entitlement := by
      rcases Prod.Lex.le_iff.mp hkey with hlt | ⟨heq, -⟩
      · exact hlt.le
      · exact heq.le
    rwa [hstart, charged_enter ⟨e, he, rfl⟩, hqueue chosen hmem, hqueue e he] at hfirst
  · intro e he
    rw [start, Function.update_apply]
    rw [charge, OrderedDict.get?_set]
    split_ifs with heq
    · rw [hstart]
      rfl
    · rw [get?_enter ⟨e, he, rfl⟩]
      rfl

/-- What a refund does: it takes something off what its tenant was served, and leaves the virtual
times alone. -/
theorem step_refund (s : FairService) (entry : QueueEntry) (unexecutedFraction : ℚ) :
    fairCalls.step s (.refund entry unexecutedFraction) = s ∨
      0 ≤ unexecutedFraction ∧
      (fairCalls.step s (.refund entry unexecutedFraction)).policy.start = s.policy.start ∧
      (fairCalls.step s (.refund entry unexecutedFraction)).delivered =
        Function.update s.delivered entry.tenant
          (s.delivered entry.tenant - entry.chargedCost * unexecutedFraction) := by
  by_cases hfraction : 0 ≤ unexecutedFraction ∧ unexecutedFraction ≤ 1
  · right
    have hrefund : ∃ entry' policy, s.policy.refund entry unexecutedFraction = .ok (entry', policy) ∧
        policy.virtualTime = s.policy.virtualTime :=
      ⟨_, _, if_neg (not_not.mpr hfraction), rfl⟩
    obtain ⟨entry', policy, hrefund, htime⟩ := hrefund
    have hstep : fairCalls.step s (.refund entry unexecutedFraction) =
        { policy
          delivered := Function.update s.delivered entry.tenant
            (s.delivered entry.tenant - entry.chargedCost * unexecutedFraction) } := by
      show (match s.policy.refund entry unexecutedFraction with
        | .ok (_, policy) => _
        | .error _ => s) = _
      rw [hrefund]
    rw [hstep]
    refine ⟨hfraction.1, ?_, rfl⟩
    funext tenant
    rw [start, start, htime]
  · left
    show (match s.policy.refund entry unexecutedFraction with
      | .ok (_, policy) => _
      | .error _ => s) = s
    rw [refund, if_pos hfraction]

/-! ### Every run -/

namespace FairService

end FairService

variable {tenants : Finset String} {C low : ℚ}

/-- While all tenants wait, one of them is selected. -/
theorem Backlogged.selected (h : Backlogged tenants weight C queue) (hne : tenants.Nonempty)
    (nowNs : Int) :
    ∃ entry, FairSelect s weight queue (fairCalls.step s (.select queue nowNs)) entry ∧
      entry.tenant ∈ tenants ∧ 0 < entry.charge ∧ entry.charge ≤ C := by
  obtain ⟨k, hk⟩ := hne
  obtain ⟨e, he, -⟩ := h.present k hk
  obtain ⟨entry, hselected⟩ :=
    step_selected (s := s) (fun e he => (h.known e he).2) (ne_nil_of_mem he) nowNs
  exact ⟨entry, hselected, (h.known entry hselected.mem).1, h.cost entry hselected.mem⟩

theorem FairSelect.nonneg {s' : FairService} {entry : QueueEntry}
    (h : FairSelect s weight queue s' entry) (hs : ∀ t ∈ tenants, 0 ≤ s.delivered t)
    (hmem : entry.tenant ∈ tenants) (hcost : 0 < entry.charge) :
    ∀ t ∈ tenants, 0 ≤ s'.delivered t := by
  intro t ht
  rw [h.delivered, Function.update_apply]
  split_ifs
  · exact add_nonneg (hs _ hmem) hcost.le
  · exact hs t ht

/-- What is owed to the rounding after `n` selections. -/
def slack (low : ℚ) (n : Nat) : ℚ :=
  binary64.growth ^ (2 * n) * (2 * (n / low + 1) * binary64.tiny)

/-- What holds after `n` selections while everybody waits: virtual times and what was really
served have drifted apart by `n` roundings. -/
structure Rounded (tenants : Finset String) (weight : String → ℚ) (C low : ℚ) (n : Nat)
    (s : FairService) : Prop where
  nonneg : ∀ t ∈ tenants, 0 ≤ s.delivered t
  measured : ∀ t ∈ tenants, ∃ v : ℚ, s.policy.start t = .finite v ∧ 0 ≤ v ∧
    binary64.Drift n (s.delivered t) v ∧ binary64.Drift n v (s.delivered t)
  lag : Lag (↑tenants) weight C (binary64.growth ^ (2 * n)) (slack low n) s.delivered

/-- The chosen tenant is the least served one, up to the rounding of the virtual times and of the
quotients. -/
theorem least_of_rounded {n : Nat} {x y v v' w w' : ℚ} (hlow : 0 < low) (hw : low ≤ w)
    (hw' : low ≤ w') (hv : 0 ≤ v) (hv' : 0 ≤ v') (hx : binary64.Drift n x v)
    (hv'y : binary64.Drift n v' y) (hle : nearest64 (v / w) ≤ nearest64 (v' / w')) :
    x / w ≤ binary64.growth ^ (2 * (n + 1)) * (y / w') + slack low (n + 1) := by
  have hpos : 0 < w := hlow.trans_le hw
  have hpos' : 0 < w' := hlow.trans_le hw'
  have hnearest : ∀ x : ℚ, IsNearest x (roundNearestEven x) := isNearest_roundNearestEven
  have hg : (1 : ℚ) ≤ binary64.growth := BinaryFloat.one_le_growth
  have hP : (1 : ℚ) ≤ binary64.growth ^ n := one_le_pow₀ hg
  have hquot : v / w ≤ binary64.growth * nearest64 (v / w) + binary64.tiny :=
    BinaryFloat.le_nearest hnearest (div_nonneg hv hpos.le)
  have hquot' : nearest64 (v' / w') ≤ binary64.growth * (v' / w') + binary64.tiny :=
    BinaryFloat.nearest_le hnearest (div_nonneg hv' hpos'.le)
  have htiny : 0 < binary64.tiny := BinaryFloat.tiny_pos
  have hdrift := hx.div hlow hw
  have hdrift' := hv'y.div hlow hw'
  have hpower : binary64.growth ^ (2 * (n + 1)) =
      (binary64.growth ^ n * binary64.growth) ^ 2 := by ring
  have hamount : 2 * (((n + 1 : Nat) : ℚ) / low + 1) * binary64.tiny =
      2 * (n * binary64.tiny / low) + 2 * (binary64.tiny / low) + 2 * binary64.tiny := by
    push_cast
    ring
  have hshare : 0 ≤ (n : ℚ) * binary64.tiny / low := by positivity
  have hless : 0 ≤ binary64.tiny / low := by positivity
  rw [slack, hpower, hamount]
  generalize binary64.growth ^ n = P at *
  generalize (n : ℚ) * binary64.tiny / low = a at *
  generalize binary64.growth = g at *
  generalize binary64.tiny = τ at *
  -- every factor and every amount is below those of the bound
  have hall : 1 ≤ P * g := one_le_mul_of_one_le_of_one_le hP hg
  have hquot'' : v / w ≤ g * (g * (P * (y / w' + a)) + τ) + τ := by
    have := mul_le_mul_of_nonneg_left (hle.trans hquot') (zero_le_one.trans hg)
    have := mul_le_mul_of_nonneg_left hdrift' (mul_nonneg (zero_le_one.trans hg)
      (zero_le_one.trans hg))
    linarith
  calc x / w ≤ P * (g * (g * (P * (y / w' + a)) + τ) + τ + a) :=
        hdrift.trans (mul_le_mul_of_nonneg_left (by linarith) (zero_le_one.trans hP))
    _ = (P * g) ^ 2 * (y / w') + (P * g) ^ 2 * a + P * g * τ + P * τ + P * a := by ring
    _ ≤ (P * g) ^ 2 * (y / w') + (P * g) ^ 2 * (2 * a + 2 * (τ / low) + 2 * τ) := by
        have hsquare : P * g ≤ (P * g) ^ 2 := le_self_pow₀ hall two_ne_zero
        have hfactor : P ≤ (P * g) ^ 2 :=
          (le_mul_of_one_le_right (zero_le_one.trans hP) hg).trans hsquare
        have hone := mul_le_mul_of_nonneg_right hsquare htiny.le
        have htwo := mul_le_mul_of_nonneg_right hfactor htiny.le
        have hthree := mul_le_mul_of_nonneg_right hfactor hshare
        have hrest : 0 ≤ (P * g) ^ 2 * (2 * (τ / low)) := by positivity
        linarith

theorem slack_nonneg (hlow : 0 < low) (n : Nat) : 0 ≤ slack low n := by
  have hg : (0 : ℚ) < binary64.growth := zero_lt_one.trans_le BinaryFloat.one_le_growth
  have htiny : 0 < binary64.tiny := BinaryFloat.tiny_pos
  rw [slack]
  positivity

theorem slack_le_succ (hlow : 0 < low) (n : Nat) : slack low n ≤ slack low (n + 1) := by
  have hg : (1 : ℚ) ≤ binary64.growth := BinaryFloat.one_le_growth
  have hpower : (0 : ℚ) ≤ binary64.growth ^ (2 * (n + 1)) := pow_nonneg (zero_le_one.trans hg) _
  have htiny : 0 < binary64.tiny := BinaryFloat.tiny_pos
  refine mul_le_mul (pow_le_pow_right₀ hg (by omega)) ?_ (by positivity) hpower
  refine mul_le_mul_of_nonneg_right ?_ htiny.le
  have hn : (n : ℚ) / low ≤ ((n + 1 : Nat) : ℚ) / low :=
    div_le_div_of_nonneg_right (Nat.cast_le.mpr n.le_succ) hlow.le
  linarith

/-- **The selection step**, with its rounding. -/
theorem Rounded.step {n : Nat} (hweight : ∀ t ∈ tenants, 0 < weight t)
    (hlow : IsLeast (weight '' ↑tenants) low) (hs : Rounded tenants weight C low n s)
    {call : FairCall} (hserves : call.Serves tenants weight C) (hrange : call.InRange s) :
    Rounded tenants weight C low (n + 1) (fairCalls.step s call) := by
  rcases call with ⟨queue, nowNs⟩ | ⟨entry, unexecutedFraction⟩
  swap
  · exact hserves.elim
  have hqueue : Backlogged tenants weight C queue := hserves
  obtain ⟨k, hk, hkl⟩ := hlow.1
  have hlow₀ : 0 < low := hkl ▸ hweight k hk
  obtain ⟨entry, hselected, ht₀, hcost⟩ := hqueue.selected (s := s) ⟨k, hk⟩ nowNs
  have hnearest : ∀ x : ℚ, IsNearest x (roundNearestEven x) := isNearest_roundNearestEven
  -- the charged virtual time is rounded
  obtain ⟨v₀, hv₀, hpos₀, hleft, hright⟩ := hs.measured entry.tenant ht₀
  obtain ⟨v₁, hv₁⟩ := (hrange entry hselected.mem).1.exists
  have hsum : v₁ = nearest64 (v₀ + entry.charge) := by
    rw [hv₀] at hv₁
    exact BinaryFloat.nearest_of_round hv₁
  have hsum₀ : 0 ≤ v₀ + entry.charge := add_nonneg hpos₀ hcost.1.le
  -- and so are the quotients
  have hquotient : ∀ t ∈ tenants, ∀ v : ℚ, s.policy.start t = .finite v →
      (s.policy.start t).div (weight t) = .finite (nearest64 (v / weight t)) := by
    intro t ht v hv
    obtain ⟨e, he, rfl⟩ := hqueue.present t ht
    obtain ⟨z, hz⟩ := (hrange e he).2.exists
    rw [hv, (hqueue.known e he).2] at hz
    rw [hv, hz, BinaryFloat.nearest_of_round hz]
    rfl
  have hleast : ∀ t ∈ tenants, s.delivered entry.tenant / weight entry.tenant ≤
      binary64.growth ^ (2 * (n + 1)) * (s.delivered t / weight t) + slack low (n + 1) := by
    intro t ht
    obtain ⟨v, hv, hpos, -, hdrift⟩ := hs.measured t ht
    obtain ⟨e, he, rfl⟩ := hqueue.present t ht
    have hle := hselected.least e he
    rw [hquotient _ ht₀ v₀ hv₀, hquotient _ ht v hv, BinaryFloat.finite_le_finite] at hle
    exact least_of_rounded hlow₀ (hlow.2 ⟨_, ht₀, rfl⟩) (hlow.2 ⟨_, ht, rfl⟩) hpos₀ hpos hleft
      hdrift hle
  refine ⟨hselected.nonneg hs.nonneg ht₀ hcost.1, fun t ht => ?_, ?_⟩
  · obtain ⟨e, he, rfl⟩ := hqueue.present t ht
    rw [hselected.start e he, hselected.delivered, Function.update_apply, Function.update_apply]
    split_ifs with heq
    · refine ⟨v₁, hv₁, hsum ▸ BinaryFloat.nearest_nonneg hnearest hsum₀, ?_, ?_⟩
      · exact hleft.add_left (hsum ▸ BinaryFloat.le_nearest hnearest hsum₀) hcost.1.le
      · exact hright.add_right (hsum ▸ BinaryFloat.nearest_le hnearest hsum₀) hcost.1.le
    · obtain ⟨v, hv, hpos, hl, hr⟩ := hs.measured _ ht
      exact ⟨v, hv, hpos, hl.mono hpos n.le_succ, hr.mono (hs.nonneg _ ht) n.le_succ⟩
  · rw [hselected.delivered]
    exact (hs.lag.mono hweight hs.nonneg
      (pow_le_pow_right₀ BinaryFloat.one_le_growth (by omega)) (slack_le_succ hlow₀ n)).charge
      hweight hs.nonneg (one_le_pow₀ BinaryFloat.one_le_growth) (slack_nonneg hlow₀ _) hleast
      hcost.1.le hcost.2

/-- If nothing is rounded, the chosen tenant is charged exactly, and is a least served one. -/
theorem FairSelect.exact {s' : FairService} {entry : QueueEntry}
    (h : FairSelect s weight queue s' entry) (hqueue : ∀ e ∈ queue, e.entitlement = weight e.tenant)
    {nowNs : Int} (hexact : (FairCall.select queue nowNs).Exact s) :
    ∃ v₀ : ℚ, s.policy.start entry.tenant = .finite v₀ ∧
      (s.policy.start entry.tenant).add entry.charge = .finite (v₀ + entry.charge) ∧
      ∀ e ∈ queue, ∀ v : ℚ, s.policy.start e.tenant = .finite v →
        v₀ / weight entry.tenant ≤ v / weight e.tenant := by
  obtain ⟨hfinite, hsum, -⟩ := hexact entry h.mem
  obtain ⟨v₀, hv₀⟩ := hfinite.exists
  refine ⟨v₀, hv₀, hsum.trans (by rw [hv₀]; rfl), fun e he v hv => not_lt.mp fun hlt => ?_⟩
  obtain ⟨-, -, happart⟩ := hexact e he
  have hless := h.least e he
  rw [← hqueue e he, ← hqueue entry h.mem] at hlt hless
  refine absurd (happart entry h.mem ?_) (not_lt.mpr hless)
  rw [hv₀, hv]
  exact BinaryFloat.finite_lt_finite.mpr hlt

/-- What holds between the selections if nothing is rounded: virtual times are what was really
served. -/
structure Fair (tenants : Finset String) (weight : String → ℚ) (C : ℚ) (s : FairService) :
    Prop where
  nonneg : ∀ t ∈ tenants, 0 ≤ s.delivered t
  measured : ∀ t ∈ tenants, s.policy.start t = .finite (s.delivered t)
  lag : Lag (↑tenants) weight C 1 0 s.delivered

/-- **The selection step**, without rounding. -/
theorem Fair.step (hweight : ∀ t ∈ tenants, 0 < weight t) (hne : tenants.Nonempty)
    (hs : Fair tenants weight C s) {call : FairCall} (hserves : call.Serves tenants weight C)
    (hexact : call.Exact s) : Fair tenants weight C (fairCalls.step s call) := by
  rcases call with ⟨queue, nowNs⟩ | ⟨entry, unexecutedFraction⟩
  swap
  · exact hserves.elim
  have hqueue : Backlogged tenants weight C queue := hserves
  obtain ⟨entry, hselected, ht₀, hcost⟩ := hqueue.selected (s := s) hne nowNs
  obtain ⟨v₀, hv₀, hsum, hleast⟩ := hselected.exact (fun e he => (hqueue.known e he).2) hexact
  obtain rfl := BinaryFloat.finite_inj (hv₀.symm.trans (hs.measured _ ht₀))
  refine ⟨hselected.nonneg hs.nonneg ht₀ hcost.1, fun t ht => ?_, ?_⟩
  · obtain ⟨e, he, rfl⟩ := hqueue.present t ht
    rw [hselected.start e he, hselected.delivered, Function.update_apply, Function.update_apply]
    split_ifs
    · exact hsum
    · exact hs.measured _ ht
  · rw [hselected.delivered]
    refine hs.lag.charge hweight hs.nonneg le_rfl le_rfl (fun t ht => ?_) hcost.1.le hcost.2
    obtain ⟨e, he, rfl⟩ := hqueue.present t ht
    rw [one_mul, add_zero]
    exact hleast e he _ (hs.measured _ ht)

end Hqsb
