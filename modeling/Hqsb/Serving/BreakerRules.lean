/-
Hqsb/Serving/BreakerRules.lean

When the breaker opens on its declared rule, and how it probes.

The rule is a run of failures, or a rate of failures among the last outcomes since the last
close.  The run is counted as declared.  The window of the rate has failures only, so its rate
is one, whatever succeeded in between: the breaker opens on a diluted window, and it stays
closed while it has seen enough outcomes but not enough failures.

The probe that the transition to half-open admits is not counted, answers free no place in the
budget, and an opening at time zero is taken for none.  So the bound on the probes in flight
holds while no probe is admitted past it, probing does not stick if the required successes
are at most one more than the concurrency, and an open breaker probes again if it was not
opened at time zero.
-/
import Hqsb.Serving.Circuit

namespace Hqsb

open Lib Machine List

/-! ### The declared rule -/

section Rule

variable (spec : CircuitSpec) (outcomes : List Bool)

/-- The failures since the last success. -/
def consecutiveIn : Nat := (outcomes.reverse.takeWhile fun outcome => !outcome).length

def failuresIn : Nat := outcomes.count false

/-- The last `window_samples` outcomes. -/
def lastOutcomes : List Bool := outcomes.drop (outcomes.length - spec.windowSamples)

/-- Enough outcomes in the window, and enough of them failures. -/
def DeclaredRate : Prop :=
  spec.minSamples ≤ (lastOutcomes spec outcomes).length ∧
    spec.failureRateThreshold ≤
      (failuresIn (lastOutcomes spec outcomes) : ℚ) / (lastOutcomes spec outcomes).length

/-- **The declared rule.** -/
def DeclaredOpen : Prop :=
  spec.consecutiveFailureThreshold ≤ consecutiveIn outcomes ∨ DeclaredRate spec outcomes

def failureWindow : Nat :=
  if spec.windowSamples = 0 then failuresIn outcomes
  else min spec.windowSamples (failuresIn outcomes)

/-- **Where the rule is met by a window of failures**: the run is long enough, or a window with
enough failures is not diluted by successes, and one with enough outcomes has enough
failures. -/
def RateCounts : Prop :=
  spec.consecutiveFailureThreshold ≤ consecutiveIn outcomes ∨
    (spec.minSamples ≤ failureWindow spec outcomes → spec.failureRateThreshold ≤ 1 →
      DeclaredRate spec outcomes) ∧
    (DeclaredRate spec outcomes → spec.minSamples ≤ failureWindow spec outcomes)

instance : Decidable (DeclaredRate spec outcomes) := by
  unfold DeclaredRate
  infer_instance

instance : Decidable (DeclaredOpen spec outcomes) := by
  unfold DeclaredOpen
  infer_instance

instance : Decidable (RateCounts spec outcomes) := by
  unfold RateCounts
  infer_instance

end Rule

/-- A failure recorded in the closed state opens the breaker exactly on the declared rule. -/
def OpensAsDeclared (spec : CircuitSpec) (s : Watched) : CircuitCall → Prop
  | .failure monotonicNs failureClass probe =>
    s.breaker.state = .closed → failureClass ∈ countedFailureClasses →
      ((s.failure spec monotonicNs failureClass probe).breaker.state = .open ↔
        DeclaredOpen spec (s.outcomes ++ [false]))
  | _ => True

/-- The window of failures decides as the rule does. -/
def RateCountsAt (spec : CircuitSpec) (s : Watched) : CircuitCall → Prop
  | .failure _ failureClass _ =>
    s.breaker.state = .closed → failureClass ∈ countedFailureClasses →
      RateCounts spec (s.outcomes ++ [false])
  | _ => True

instance (spec : CircuitSpec) (s : Watched) : ∀ call, Decidable (OpensAsDeclared spec s call)
  | .allow _ => .isTrue trivial
  | .success _ _ => .isTrue trivial
  | .failure t c p => inferInstanceAs (Decidable (_ → _ →
      ((s.failure spec t c p).breaker.state = .open ↔ DeclaredOpen spec (s.outcomes ++ [false]))))

/-! ### What the breaker has counted -/

theorem consecutiveIn_append_false (l : List Bool) :
    consecutiveIn (l ++ [false]) = consecutiveIn l + 1 := by
  simp [consecutiveIn]

theorem consecutiveIn_append_true (l : List Bool) : consecutiveIn (l ++ [true]) = 0 := by
  simp [consecutiveIn]

theorem failuresIn_append_false (l : List Bool) : failuresIn (l ++ [false]) = failuresIn l + 1 := by
  simp [failuresIn]

theorem failuresIn_append_true (l : List Bool) : failuresIn (l ++ [true]) = failuresIn l := by
  simp [failuresIn]

/-- The breaker's counters are those of the outcomes. -/
structure Noted (s : Watched) : Prop where
  observations : s.breaker.observations.length = failuresIn s.outcomes
  consecutive : s.breaker.consecutiveFailures = consecutiveIn s.outcomes

section Step

variable {spec : CircuitSpec} {s : Watched} {t : Int} {probe : Bool}

theorem Noted.allow (h : Noted s) (t : Int) : Noted (s.allow spec t) := by
  have hrouted := CircuitBreaker.allowRequest_routed spec s.breaker t
  have hsame : (s.breaker.allowRequest spec t).2.observations = s.breaker.observations ∧
      (s.breaker.allowRequest spec t).2.consecutiveFailures = s.breaker.consecutiveFailures := by
    generalize s.breaker.allowRequest spec t = answer at hrouted
    cases hrouted <;> exact ⟨rfl, rfl⟩
  exact ⟨(congrArg List.length hsame.1).trans h.observations, hsame.2.trans h.consecutive⟩

theorem Noted.success (h : Noted s) (t : Int) (probe : Bool) : Noted (s.success spec t probe) := by
  have hsucceeded := CircuitBreaker.recordSuccess_succeeded spec s.breaker t
  rw [Watched.success]
  generalize s.breaker.recordSuccess spec t = b at hsucceeded
  cases hsucceeded with
  | counted hstate =>
    have hopen : ¬ (s.breaker.state = .halfOpen ∧ s.breaker.state = .closed) :=
      fun hboth => hstate hboth.1
    constructor
    · show s.breaker.observations.length = failuresIn (if _ then _ else _)
      rw [if_neg hopen, failuresIn_append_true, h.observations]
    · show 0 = consecutiveIn (if _ then _ else _)
      rw [if_neg hopen, consecutiveIn_append_true]
  | probe hstate _ =>
    have hopen : ¬ (s.breaker.state = .halfOpen ∧ s.breaker.state = .closed) := by
      rw [hstate]
      exact fun hboth => nomatch hboth.2
    constructor
    · show s.breaker.observations.length = failuresIn (if _ then _ else _)
      rw [if_neg hopen, failuresIn_append_true, h.observations]
    · show 0 = consecutiveIn (if _ then _ else _)
      rw [if_neg hopen, consecutiveIn_append_true]
  | closed hstate _ =>
    -- closing forgets the observations, and with them the outcomes
    constructor
    · show failuresIn [] = failuresIn (if _ then [] else _)
      rw [if_pos]
      exact ⟨hstate, rfl⟩
    · show consecutiveIn [] = consecutiveIn (if _ then [] else _)
      rw [if_pos]
      exact ⟨hstate, rfl⟩

theorem Noted.failure (h : Noted s) (t : Int) (failureClass : String) (probe : Bool) :
    Noted (s.failure spec t failureClass probe) := by
  rw [Watched.failure]
  by_cases hcounted : failureClass ∈ countedFailureClasses
  · obtain ⟨b, hb, hfailed⟩ := CircuitBreaker.recordFailure_counted spec s.breaker t hcounted
    rw [hb, if_pos hcounted]
    have hsame : b.observations.length = s.breaker.observations.length + 1 ∧
        b.consecutiveFailures = s.breaker.consecutiveFailures + 1 := by
      cases hfailed <;> exact ⟨length_append, rfl⟩
    exact ⟨hsame.1.trans ((congrArg Nat.succ h.observations).trans
        (failuresIn_append_false _).symm),
      hsame.2.trans ((congrArg Nat.succ h.consecutive).trans
        (consecutiveIn_append_false _).symm)⟩
  · rw [if_neg hcounted]
    rcases hb : s.breaker.recordFailure spec failureClass t with e | b
    · exact ⟨h.observations, h.consecutive⟩
    · obtain ⟨-, hobservations, hconsecutive, -⟩ :=
        CircuitBreaker.recordFailure_uncounted hcounted hb
      exact ⟨(congrArg List.length hobservations).trans h.observations,
        hconsecutive.trans h.consecutive⟩

theorem Noted.step (h : Noted s) (call : CircuitCall) : Noted (s.step spec call) := by
  cases call with
  | allow t => exact h.allow t
  | success t probe => exact h.success t probe
  | failure t failureClass probe => exact h.failure t failureClass probe

/-! ### The rate trigger -/

theorem length_sliceLast {α : Type*} (n : Nat) (l : List α) :
    (sliceLast n l).length = if n = 0 then l.length else min n l.length := by
  rw [sliceLast]
  split_ifs
  · rfl
  · rw [length_drop]
    omega

theorem rateExceeded_iff (h : Noted s) (failureClass : String) (t : Int) :
    (s.breaker.observe failureClass t).rateExceeded spec = true ↔
      spec.minSamples ≤ failureWindow spec (s.outcomes ++ [false]) ∧
        spec.failureRateThreshold ≤ 1 := by
  have hcount : (s.breaker.observe failureClass t).observations.length =
      failuresIn (s.outcomes ++ [false]) := by
    rw [failuresIn_append_false, ← h.observations]
    exact length_append
  have hlength : (sliceLast spec.windowSamples
      (s.breaker.observe failureClass t).observations).length =
        failureWindow spec (s.outcomes ++ [false]) := by
    rw [length_sliceLast, hcount, failureWindow]
  have hpos : 0 < failureWindow spec (s.outcomes ++ [false]) := by
    rw [failureWindow, failuresIn_append_false]
    split_ifs
    · exact Nat.succ_pos _
    · omega
  have hne : sliceLast spec.windowSamples (s.breaker.observe failureClass t).observations ≠ [] := by
    intro hnil
    rw [hnil] at hlength
    exact hpos.ne hlength
  have hone : ((failureWindow spec (s.outcomes ++ [false]) : ℚ)) /
      failureWindow spec (s.outcomes ++ [false]) = 1 :=
    div_self (Nat.cast_ne_zero.mpr hpos.ne')
  rw [CircuitBreaker.rateExceeded]
  simp only [hlength, if_neg hne, hone, Bool.and_eq_true, decide_eq_true_iff]

theorem runExceeded_iff (h : Noted s) (failureClass : String) (t : Int) :
    (s.breaker.observe failureClass t).runExceeded spec = true ↔
      spec.consecutiveFailureThreshold ≤ consecutiveIn (s.outcomes ++ [false]) := by
  rw [consecutiveIn_append_false, ← h.consecutive]
  exact decide_eq_true_iff

theorem threshold_le_one_of_declaredRate {outcomes : List Bool}
    (h : DeclaredRate spec outcomes) : spec.failureRateThreshold ≤ 1 := by
  refine h.2.trans (div_le_one_of_le₀ ?_ (Nat.cast_nonneg _))
  exact_mod_cast count_le_length

/-- **One failure in the closed state.** -/
theorem opensAsDeclared_iff (h : Noted s) (call : CircuitCall) :
    OpensAsDeclared spec s call ↔ RateCountsAt spec s call := by
  cases call with
  | allow t => exact Iff.rfl
  | success t probe => exact Iff.rfl
  | failure t failureClass probe =>
    refine forall₂_congr fun hstate hcounted => ?_
    obtain ⟨b, hb, hfailed⟩ := CircuitBreaker.recordFailure_counted spec s.breaker t hcounted
    have hopened : (s.failure spec t failureClass probe).breaker.state = .open ↔
        ((s.breaker.observe failureClass t).rateExceeded spec ||
          (s.breaker.observe failureClass t).runExceeded spec) = true := by
      rw [Watched.failure, hb]
      cases hfailed with
      | kept _ hcalm =>
        rw [hcalm]
        exact ⟨fun h => absurd (hstate.symm.trans h) (by decide), fun h => by cases h⟩
      | tripped _ hexceeded => exact ⟨fun _ => hexceeded, fun _ => rfl⟩
      | reopened hhalf => cases hstate.symm.trans hhalf
      | unmoved hopen => cases hstate.symm.trans hopen
    rw [hopened, Bool.or_eq_true, rateExceeded_iff h, runExceeded_iff h, DeclaredOpen, RateCounts]
    by_cases hrun : spec.consecutiveFailureThreshold ≤ consecutiveIn (s.outcomes ++ [false])
    · simp only [hrun, or_true, true_or]
    · simp only [hrun, or_false, false_or]
      constructor
      · intro hiff
        exact ⟨fun hmin hone => hiff.mp ⟨hmin, hone⟩, fun hrate => (hiff.mpr hrate).1⟩
      · rintro ⟨hundiluted, hfed⟩
        exact ⟨fun hboth => hundiluted hboth.1 hboth.2,
          fun hrate => ⟨hfed hrate, threshold_le_one_of_declaredRate hrate⟩⟩

end Step

/-- **Exactly when the breaker opens on its declared rule**, over every run. -/
theorem breaker_opens_iff (spec : CircuitSpec) (calls : List CircuitCall) :
    (watched spec).Guarded (OpensAsDeclared spec) (watched spec).init calls ↔
      (watched spec).Guarded (RateCountsAt spec) (watched spec).init calls :=
  guarded_congr (fun _ call h => Noted.step h call) (fun _ call h => opensAsDeclared_iff h call)
    ⟨rfl, rfl⟩ calls

/-- A window of ten, to be opened at a rate of three fifths from two outcomes on. -/
def rateSpec : CircuitSpec where
  windowSamples := 10
  minSamples := 2
  failureRateThreshold := 3 / 5
  consecutiveFailureThreshold := 5
  openDurationMs := 1000
  halfOpenProbesRequired := 1
  halfOpenProbeConcurrency := 1

/-- Two failures among many successes open the breaker. -/
theorem breaker_opens_diluted :
    ¬ (watched rateSpec).Guarded (OpensAsDeclared rateSpec) (watched rateSpec).init
      [.success 0 false, .failure 1 "backend_timeout" false, .success 2 false, .success 3 false,
        .success 4 false, .failure 5 "backend_timeout" false] := by
  decide +kernel

/-- **Probing as declared.**  The probes in flight are bounded by the concurrency; with all
probes answered by successes, and too few of these, the next request is admitted; and an open
breaker admits a request as soon as the open duration is over. -/
structure Probing (spec : CircuitSpec) (s : Watched) : Prop where
  bounded : s.breaker.state = .halfOpen → s.unanswered ≤ spec.halfOpenProbeConcurrency
  unstuck : s.breaker.state = .halfOpen → s.unanswered = 0 → s.unsuccessful = 0 →
    s.breaker.halfOpenSuccesses < spec.halfOpenProbesRequired →
    ∀ t, (s.breaker.allowRequest spec t).1.allowed = true
  reopened : s.breaker.state = .open → ∃ openedAt, s.breaker.openedAtNs = some openedAt ∧
    ∀ t, CircuitBreaker.elapsed spec openedAt t →
      (s.breaker.allowRequest spec t).1.allowed = true

def AnsweredOnce (s : Watched) : CircuitCall → Prop
  | .allow _ => True
  | .success _ probe | .failure _ _ probe => probe = true → 0 < s.unanswered

/-- **Where probing is as declared**: no request is routed past the concurrency, no correctness
failure quarantines the breaker, and it is not opened at time zero for a duration. -/
def ProbesKept (spec : CircuitSpec) (s : Watched) : CircuitCall → Prop
  | .allow t =>
    (s.breaker.state = .halfOpen → s.breaker.halfOpenProbes < spec.halfOpenProbeConcurrency →
      s.unanswered < spec.halfOpenProbeConcurrency) ∧
    (s.breaker.state = .open → CircuitBreaker.elapsed spec (s.breaker.openedAt t) t →
      s.unanswered < spec.halfOpenProbeConcurrency)
  | .success _ _ => True
  | .failure t failureClass _ =>
    failureClass ∉ quarantineClasses ∧ (t = 0 → spec.openDurationMs ≤ 0)

instance (s : Watched) : ∀ call, Decidable (AnsweredOnce s call)
  | .allow _ => .isTrue trivial
  | .success _ probe => inferInstanceAs (Decidable (probe = true → 0 < s.unanswered))
  | .failure _ _ probe => inferInstanceAs (Decidable (probe = true → 0 < s.unanswered))

instance (spec : CircuitSpec) (s : Watched) : ∀ call, Decidable (ProbesKept spec s call)
  | .allow _ => inferInstanceAs (Decidable ((_ → _ → _) ∧ (_ → _ → _)))
  | .success _ _ => .isTrue trivial
  | .failure t failureClass _ =>
    inferInstanceAs (Decidable (failureClass ∉ quarantineClasses ∧ (t = 0 → _)))

/-- What guarded calls keep.  A half-open breaker has admitted one probe more than it has
counted, and each of them is a success, unanswered or unsuccessful. -/
structure ProbeInv (spec : CircuitSpec) (s : Watched) : Prop where
  free : s.breaker.quarantined = false
  bounded : s.breaker.state = .halfOpen → s.unanswered ≤ spec.halfOpenProbeConcurrency
  credit : s.breaker.state = .halfOpen →
    s.breaker.halfOpenProbes + 1 ≤
      s.breaker.halfOpenSuccesses + s.unanswered + s.unsuccessful
  opened : s.breaker.state = .open → ∃ openedAt, s.breaker.openedAtNs = some openedAt ∧
    (openedAt = 0 → spec.openDurationMs ≤ 0)

section Step

variable {spec : CircuitSpec} {s : Watched} {t : Int} {probe : Bool}

theorem ProbeInv.allow (h : ProbeInv spec s) (hkept : ProbesKept spec s (.allow t)) :
    ProbeInv spec (s.allow spec t) := by
  have hrouted := CircuitBreaker.allowRequest_routed spec s.breaker t
  rw [Watched.allow]
  generalize s.breaker.allowRequest spec t = answer at hrouted
  cases hrouted with
  | quarantined hquarantined => cases h.free.symm.trans hquarantined
  | closed _ hstate =>
    refine ⟨h.free, fun hhalf => ?_, fun hhalf => ?_, h.opened⟩
    all_goals exact absurd (hstate.symm.trans hhalf) (by decide)
  | reprobed hfree hstate helapsed =>
    have hroom := hkept.2 hstate helapsed
    refine ⟨hfree, fun _ => hroom, fun _ => ?_, fun hopen => (nomatch hopen)⟩
    show 0 + 1 ≤ 0 + (s.unanswered + 1) + _
    omega
  | waiting _ hstate _ =>
    refine ⟨h.free, fun hhalf => ?_, fun hhalf => ?_, h.opened⟩
    all_goals exact absurd (hstate.symm.trans hhalf) (by decide)
  | exhausted _ hstate _ =>
    refine ⟨h.free, h.bounded, fun _ => ?_, h.opened⟩
    rw [hstate]
    exact h.credit hstate
  | probed hfree hstate hroom =>
    have hadmitted : (true && decide (s.breaker.state = .halfOpen)) = true := by
      rw [hstate]
      rfl
    have hcredit := h.credit hstate
    simp only [hadmitted]
    refine ⟨hfree, fun _ => hkept.1 hstate hroom, fun _ => ?_, fun hopen => ?_⟩
    · simp only [hstate, if_pos]
      omega
    · cases hstate.symm.trans hopen

theorem ProbeInv.success (h : ProbeInv spec s) (honce : AnsweredOnce s (.success t probe)) :
    ProbeInv spec (s.success spec t probe) := by
  have hsucceeded := CircuitBreaker.recordSuccess_succeeded spec s.breaker t
  rw [Watched.success]
  generalize s.breaker.recordSuccess spec t = b at hsucceeded
  cases hsucceeded with
  | counted hstate =>
    exact ⟨h.free, fun hhalf => absurd hhalf hstate, fun hhalf => absurd hhalf hstate, h.opened⟩
  | probe hstate _ =>
    have hbounded := h.bounded hstate
    have hcredit := h.credit hstate
    refine ⟨h.free, fun _ => ?_, fun _ => ?_, fun hopen => ?_⟩
    · cases probe with
      | false => exact hbounded
      | true => exact (Nat.sub_le _ _).trans hbounded
    · cases probe with
      | false =>
        show s.breaker.halfOpenProbes + 1 ≤
          s.breaker.halfOpenSuccesses + 1 + s.unanswered + s.unsuccessful
        omega
      | true =>
        have hpos : 0 < s.unanswered := honce rfl
        show s.breaker.halfOpenProbes + 1 ≤
          s.breaker.halfOpenSuccesses + 1 + (s.unanswered - 1) + s.unsuccessful
        omega
    · cases hstate.symm.trans hopen
  | closed hstate _ =>
    exact ⟨h.free, fun hhalf => (nomatch hhalf), fun hhalf => (nomatch hhalf),
      fun hopen => (nomatch hopen)⟩

theorem ProbeInv.failure {failureClass : String} (h : ProbeInv spec s)
    (honce : AnsweredOnce s (.failure t failureClass probe))
    (hkept : ProbesKept spec s (.failure t failureClass probe)) :
    ProbeInv spec (s.failure spec t failureClass probe) := by
  obtain ⟨hclass, hzero⟩ := hkept
  rw [Watched.failure]
  by_cases hcounted : failureClass ∈ countedFailureClasses
  · obtain ⟨b, hb, hfailed⟩ := CircuitBreaker.recordFailure_counted spec s.breaker t hcounted
    rw [hb]
    cases hfailed with
    | kept hstate _ =>
      refine ⟨h.free, fun hhalf => ?_, fun hhalf => ?_, fun hopen => ?_⟩
      all_goals exact absurd (hstate.symm.trans ‹_›) (by decide)
    | tripped _ _ =>
      exact ⟨h.free, fun hhalf => (nomatch hhalf), fun hhalf => (nomatch hhalf),
        fun _ => ⟨t, rfl, hzero⟩⟩
    | reopened _ =>
      exact ⟨h.free, fun hhalf => (nomatch hhalf), fun hhalf => (nomatch hhalf),
        fun _ => ⟨t, rfl, hzero⟩⟩
    | unmoved hstate =>
      refine ⟨h.free, fun hhalf => ?_, fun hhalf => ?_, fun _ => h.opened hstate⟩
      all_goals exact absurd (hstate.symm.trans ‹_›) (by decide)
  · -- nothing but the notes changes
    have hsame : ∀ b : CircuitBreaker, b.state = s.breaker.state →
        b.openedAtNs = s.breaker.openedAtNs → b.halfOpenProbes = s.breaker.halfOpenProbes →
        b.halfOpenSuccesses = s.breaker.halfOpenSuccesses →
        b.quarantined = s.breaker.quarantined →
        ProbeInv spec { s with
          breaker := b
          outcomes := if failureClass ∈ countedFailureClasses then s.outcomes ++ [false]
            else s.outcomes
          unanswered := if probe then s.unanswered - 1 else s.unanswered
          unsuccessful := if probe then s.unsuccessful + 1 else s.unsuccessful } := by
      intro b hstate hopened hprobes hsuccesses hquarantined
      refine ⟨hquarantined.trans h.free, fun hhalf => ?_, fun hhalf => ?_, fun hopen => ?_⟩
      · have hbounded := h.bounded (hstate.symm.trans hhalf)
        cases probe with
        | false => exact hbounded
        | true => exact (Nat.sub_le _ _).trans hbounded
      · have hcredit := h.credit (hstate.symm.trans hhalf)
        show b.halfOpenProbes + 1 ≤ b.halfOpenSuccesses + _ + _
        rw [hprobes, hsuccesses]
        cases probe with
        | false => exact hcredit
        | true =>
          have hpos : 0 < s.unanswered := honce rfl
          show _ ≤ _ + (s.unanswered - 1) + (s.unsuccessful + 1)
          omega
      · obtain ⟨openedAt, heq, hduration⟩ := h.opened (hstate.symm.trans hopen)
        exact ⟨openedAt, hopened.trans heq, hduration⟩
    rcases hb : s.breaker.recordFailure spec failureClass t with e | b
    · exact hsame s.breaker rfl rfl rfl rfl rfl
    · obtain ⟨hstate, -, -, hopened, hprobes, hsuccesses, hquarantined⟩ :=
        CircuitBreaker.recordFailure_uncounted hcounted hb
      exact hsame b hstate hopened hprobes hsuccesses (hquarantined hclass)

theorem ProbeInv.step (h : ProbeInv spec s) {call : CircuitCall} (honce : AnsweredOnce s call)
    (hkept : ProbesKept spec s call) : ProbeInv spec (s.step spec call) := by
  cases call with
  | allow t => exact h.allow hkept
  | success t probe => exact h.success honce
  | failure t failureClass probe => exact h.failure honce hkept

/-- What the invariant says about the next request. -/
theorem ProbeInv.probing (h : ProbeInv spec s)
    (hrequired : spec.halfOpenProbesRequired ≤ spec.halfOpenProbeConcurrency + 1) :
    Probing spec s where
  bounded := h.bounded
  unstuck := by
    intro hstate hanswered hsuccessful hfew t
    have hcredit := h.credit hstate
    have hrouted := CircuitBreaker.allowRequest_routed spec s.breaker t
    generalize s.breaker.allowRequest spec t = answer at hrouted
    cases hrouted with
    | quarantined hquarantined => cases h.free.symm.trans hquarantined
    | closed _ hclosed => rfl
    | reprobed _ _ _ => rfl
    | waiting _ hopen _ => cases hstate.symm.trans hopen
    | exhausted _ _ hfull => omega
    | probed _ _ _ => rfl
  reopened := by
    intro hstate
    obtain ⟨openedAt, hopened, hzero⟩ := h.opened hstate
    refine ⟨openedAt, hopened, fun t helapsed => ?_⟩
    have hstill : CircuitBreaker.elapsed spec (s.breaker.openedAt t) t := by
      rw [CircuitBreaker.openedAt.eq_def, hopened]
      dsimp only
      split_ifs with h0
      · rw [CircuitBreaker.elapsed, sub_self]
        exact mul_nonpos_of_nonpos_of_nonneg (hzero h0) (by norm_num)
      · exact helapsed
    have hrouted := CircuitBreaker.allowRequest_routed spec s.breaker t
    generalize s.breaker.allowRequest spec t = answer at hrouted
    cases hrouted with
    | quarantined hquarantined => cases h.free.symm.trans hquarantined
    | closed _ _ => rfl
    | reprobed _ _ _ => rfl
    | waiting _ _ hnot => exact absurd hstill hnot
    | exhausted _ hhalf _ => cases hstate.symm.trans hhalf
    | probed _ _ _ => rfl

end Step

/-- **Probing is as declared** in every state of a run whose calls keep to the concurrency, do
not quarantine, and do not open the breaker at time zero. -/
theorem breaker_probes_kept (spec : CircuitSpec)
    (hrequired : spec.halfOpenProbesRequired ≤ spec.halfOpenProbeConcurrency + 1)
    (calls : List CircuitCall)
    (honce : (watched spec).Guarded AnsweredOnce (watched spec).init calls)
    (hkept : (watched spec).Guarded (ProbesKept spec) (watched spec).init calls) :
    (watched spec).Always (Probing spec) (watched spec).init calls := by
  have hstart : ProbeInv spec (watched spec).init :=
    ⟨rfl, fun hhalf => (nomatch hhalf), fun hhalf => (nomatch hhalf), fun hopen => (nomatch hopen)⟩
  have hinv : (watched spec).Always (ProbeInv spec) (watched spec).init calls :=
    guarded_invariant (fun s call h hguard => h.step hguard.1 hguard.2) hstart (honce.and hkept)
  exact hinv.mono fun s h => h.probing hrequired

/-- One probe at a time, after one failure and a millisecond. -/
def probeSpec (required : Nat) : CircuitSpec where
  windowSamples := 10
  minSamples := 10
  failureRateThreshold := 1
  consecutiveFailureThreshold := 1
  openDurationMs := 1
  halfOpenProbesRequired := required
  halfOpenProbeConcurrency := 1

theorem breaker_probes_kept_one :
    2 ≤ 1 + 1 ∧
    (watched (probeSpec 2)).Always (Probing (probeSpec 2)) (watched (probeSpec 2)).init
      [.failure 1 "backend_oom" false, .allow 1000001, .success 1000002 true, .allow 1000003] :=
  ⟨le_rfl, breaker_probes_kept (probeSpec 2) le_rfl _ (by decide +kernel) (by decide +kernel)⟩

/-- The transition admits a probe beside the one the budget allows; three successes cannot be
had from two probes; and a breaker that opened at time zero stays open. -/
theorem breaker_probes_not_kept :
    ¬ (watched (probeSpec 1)).Always (Probing (probeSpec 1)) (watched (probeSpec 1)).init
      [.failure 1 "backend_oom" false, .allow 1000001, .allow 1000002] ∧
    ¬ (watched (probeSpec 3)).Always (Probing (probeSpec 3)) (watched (probeSpec 3)).init
      [.failure 1 "backend_oom" false, .allow 1000001, .success 1000002 true, .allow 1000003,
        .success 1000004 true] ∧
    ¬ (watched (probeSpec 1)).Always (Probing (probeSpec 1)) (watched (probeSpec 1)).init
      [.failure 0 "backend_oom" false] := by
  refine ⟨fun h => ?_, fun h => ?_, fun h => ?_⟩
  · have hlast := always_iff_runFrom.mp h _ (prefix_refl _)
    exact absurd (hlast.bounded (by decide +kernel)) (by decide +kernel)
  · have hlast := always_iff_runFrom.mp h _ (prefix_refl _)
    exact absurd (hlast.unstuck (by decide +kernel) (by decide +kernel) (by decide +kernel)
      (by decide +kernel) 1000005) (by decide +kernel)
  · have hlast := always_iff_runFrom.mp h _ (prefix_refl _)
    obtain ⟨openedAt, hopened, hallowed⟩ := hlast.reopened (by decide)
    obtain rfl : 0 = openedAt := Option.some.inj hopened
    exact absurd (hallowed 1000000 (by decide +kernel)) (by decide +kernel)

end Hqsb
