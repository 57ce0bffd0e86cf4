/-
Hqsb/Serving/PressureMachine.lean

The pressure state machine (`PressureStateMachine` of `hqsb/serving/admission.py`).

A window has one candidate: the first transition out of the present state that its signals
satisfy.  The machine remembers the candidate of the last window and how often in a row it was
the candidate, and takes a transition that has been it long enough.  A candidate that is new is
only remembered, so two windows are the least.

`Observed` keeps the windows since the state was entered, the last one first, and `Held` is what
the two fields of the machine stand for: the transition was the candidate of the last `n` of them.

Numbers are of any type with an order that can be decided; nothing else is asked of it, so they
may be floats, with values that are not comparable.

Main result: `pressure_dwell`.
-/
import Hqsb.Lib.Machine
import Hqsb.Lib.Streak

namespace Hqsb

open Lib List

/-! ### Transitions and signals -/

/-- `PRESSURE_STATES`. -/
inductive PressureState
  | normal | softPressure | hardPressure | shedding | recovering
  deriving DecidableEq

def PressureState.name : PressureState → String
  | normal => "NORMAL"
  | softPressure => "SOFT_PRESSURE"
  | hardPressure => "HARD_PRESSURE"
  | shedding => "SHEDDING"
  | recovering => "RECOVERING"

inductive PressureDirection
  | enter | exit

def PressureDirection.name : PressureDirection → String
  | enter => "enter"
  | exit => "exit"

structure PressureTransition (V : Type) where
  source : PressureState
  target : PressureState
  signal : String
  threshold : V
  direction : PressureDirection

/-- The numbers: what `float` makes of an integer and of a text, and what a number looks like. -/
structure Floats (V : Type) where
  ofInt : Int → Option V
  ofText : String → Option V
  text : V → String

/-- What a signal raises: a `ConfigError`, or what `float` raises. -/
inductive SignalError
  | unknownSignal (message : String) (signal : String)
  | notNumber (signal : String)

structure PressureSignal (V : Type) where
  queueDepthRatio : V
  queueAgeMs : V
  inflightRequests : Int := 0
  inflightTokens : Int := 0
  predictedKvRatio : V
  deadlineSlackMs : V
  recentSloViolationRatio : V
  bufferedSocketBytes : Int := 0
  processRssBytes : Int := 0
  backendHealth : String := "healthy"

/-- The part of `PressureSpec` that the machine reads. -/
structure PressureSpec (V : Type) where
  transitions : List (PressureTransition V)
  minDwellWindows : Int

variable {V : Type} [LE V] [DecidableLE V]

def PressureTransition.satisfied (item : PressureTransition V) (value : V) : Bool :=
  match item.direction with
  | .enter => decide (item.threshold ≤ value)
  | .exit => decide (value ≤ item.threshold)

omit [LE V] [DecidableLE V] in
/-- What `float` returns, or that it raises. -/
def numberOr (name : String) : Option V → Except SignalError V
  | some value => .ok value
  | none => .error (.notNumber name)

/-- `value`: an attribute as a float.  Of what is no field, the two methods are no numbers. -/
def PressureSignal.value (floats : Floats V) (signal : PressureSignal V) (name : String) :
    Except SignalError V :=
  match name with
  | "queue_depth_ratio" => .ok signal.queueDepthRatio
  | "queue_age_ms" => .ok signal.queueAgeMs
  | "inflight_requests" => numberOr name (floats.ofInt signal.inflightRequests)
  | "inflight_tokens" => numberOr name (floats.ofInt signal.inflightTokens)
  | "predicted_kv_ratio" => .ok signal.predictedKvRatio
  | "deadline_slack_ms" => .ok signal.deadlineSlackMs
  | "recent_slo_violation_ratio" => .ok signal.recentSloViolationRatio
  | "buffered_socket_bytes" => numberOr name (floats.ofInt signal.bufferedSocketBytes)
  | "process_rss_bytes" => numberOr name (floats.ofInt signal.processRssBytes)
  | "backend_health" => numberOr name (floats.ofText signal.backendHealth)
  | "value" | "as_dict" => .error (.notNumber name)
  | _ => .error (.unknownSignal ("signal '" ++ name ++
      "' is not part of the frozen pressure signal set") name)

/-- A transition of the specification, with its position: which object it is. -/
abbrev Edge (V : Type) := PressureTransition V × Nat

/-- The loop over the candidates, up to its `break`. -/
def firstSatisfied (floats : Floats V) (signal : PressureSignal V) :
    List (Edge V) → Except SignalError (Option (Edge V))
  | [] => .ok none
  | item :: rest => do
    let value ← signal.value floats item.1.signal
    if item.1.satisfied value then
      pure (some item)
    else
      firstSatisfied floats signal rest

def PressureSpec.candidate (floats : Floats V) (spec : PressureSpec V) (state : PressureState)
    (signal : PressureSignal V) : Except SignalError (Option (Edge V)) :=
  firstSatisfied floats signal
    (spec.transitions.zipIdx.filter fun item => item.1.source = state)

/-! ### The machine -/

structure PressureEvent (V : Type) where
  monotonicNs : Int
  source : PressureState
  target : PressureState
  signal : String
  value : V
  reason : String
  dwellWindows : Nat

structure PressureStateMachine (V : Type) where
  state : PressureState := .normal
  events : List (PressureEvent V) := []
  dwell : Nat := 0
  pending : Option Nat := none

namespace PressureStateMachine

variable (floats : Floats V) (spec : PressureSpec V)

/-- `observe`: the events and the machine afterwards; a signal that cannot be read leaves the
machine as it is. -/
def observe (m : PressureStateMachine V) (signal : PressureSignal V) (monotonicNs : Int) :
    Except SignalError (List (PressureEvent V) × PressureStateMachine V) := do
  match ← spec.candidate floats m.state signal with
  | none => pure ([], { m with pending := none, dwell := 0 })
  | some (chosen, position) =>
    if m.pending ≠ some position then
      pure ([], { m with pending := some position, dwell := 1 })
    else if ((m.dwell + 1 : Nat) : Int) < spec.minDwellWindows then
      pure ([], { m with dwell := m.dwell + 1 })
    else
      let value ← signal.value floats chosen.signal
      let event : PressureEvent V :=
        { monotonicNs
          source := m.state
          target := chosen.target
          signal := chosen.signal
          value
          reason := chosen.direction.name ++ " " ++ chosen.signal ++ " threshold " ++
            floats.text chosen.threshold ++ " held for " ++ toString (m.dwell + 1) ++ " windows"
          dwellWindows := m.dwell + 1 }
      pure ([event],
        { state := chosen.target, events := m.events ++ [event], dwell := 0, pending := none })

end PressureStateMachine

/-- A machine, and the windows since its state was entered, the last one first. -/
structure Observed (V : Type) where
  machine : PressureStateMachine V
  since : List (PressureSignal V) := []

namespace Observed

variable (floats : Floats V) (spec : PressureSpec V)

def step (s : Observed V) (window : PressureSignal V × Int) : Observed V :=
  match s.machine.observe floats spec window.1 window.2 with
  | .error _ => s
  | .ok ([], machine) => ⟨machine, window.1 :: s.since⟩
  | .ok (_ :: _, machine) => ⟨machine, []⟩

/-- In the last `n` windows, the present one among them, `edge` is the candidate. -/
def Held (n : Nat) (s : Observed V) (signal : PressureSignal V) (edge : Edge V) : Prop :=
  n ≤ (signal :: s.since).length ∧
    ∀ window ∈ (signal :: s.since).take n,
      spec.candidate floats s.machine.state window = .ok (some edge)

/-- The machine takes `edge`. -/
def Takes (s : Observed V) (signal : PressureSignal V) (monotonicNs : Int) (edge : Edge V) : Prop :=
  ∃ event machine, s.machine.observe floats spec signal monotonicNs = .ok ([event], machine) ∧
    event.source = s.machine.state ∧ event.target = edge.1.target ∧
    event.signal = edge.1.signal ∧ machine.state = edge.1.target ∧
    machine.events = s.machine.events ++ [event]

def Stays (s : Observed V) (signal : PressureSignal V) (monotonicNs : Int) : Prop :=
  ∀ events machine, s.machine.observe floats spec signal monotonicNs = .ok (events, machine) →
    events = [] ∧ machine.state = s.machine.state ∧ machine.events = s.machine.events

end Observed

def observed (floats : Floats V) (spec : PressureSpec V) (start : PressureState) :
    Machine (Observed V) (PressureSignal V × Int) where
  init := ⟨{ state := start }, []⟩
  step := Observed.step floats spec

/-! ### The candidate of a window -/

variable {floats : Floats V} {spec : PressureSpec V}

theorem firstSatisfied_mem {signal : PressureSignal V} {items : List (Edge V)} {edge : Edge V}
    (h : firstSatisfied floats signal items = .ok (some edge)) :
    edge ∈ items ∧ ∃ value, signal.value floats edge.1.signal = .ok value := by
  induction items with
  | nil => cases h
  | cons item rest ih =>
    rw [firstSatisfied] at h
    rcases hvalue : signal.value floats item.1.signal with error | value
    · rw [hvalue] at h
      cases h
    · rw [hvalue] at h
      by_cases hsatisfied : item.1.satisfied value = true
      · obtain rfl : item = edge := by
          simpa [bind, Except.bind, pure, Except.pure, hsatisfied] using h
        exact ⟨.head _, value, hvalue⟩
      · have hrest : firstSatisfied floats signal rest = .ok (some edge) := by
          simpa [bind, Except.bind, hsatisfied] using h
        exact ⟨.tail _ (ih hrest).1, (ih hrest).2⟩

theorem candidate_position {state : PressureState} {signal : PressureSignal V} {edge : Edge V}
    (h : spec.candidate floats state signal = .ok (some edge)) :
    spec.transitions[edge.2]? = some edge.1 := by
  have hmem := (mem_filter.mp (firstSatisfied_mem h).1).1
  exact mem_zipIdx_iff_getElem?.mp hmem

namespace PressureStateMachine

variable {m : PressureStateMachine V} {signal : PressureSignal V} {monotonicNs : Int}

/-- What a call does, by the candidate of its window. -/
inductive Observes (floats : Floats V) (spec : PressureSpec V) (m : PressureStateMachine V)
    (signal : PressureSignal V) : Except SignalError (List (PressureEvent V) ×
      PressureStateMachine V) → Prop
  | raised (error) (h : spec.candidate floats m.state signal = .error error) :
      Observes floats spec m signal (.error error)
  | calm (h : spec.candidate floats m.state signal = .ok none) :
      Observes floats spec m signal (.ok ([], { m with pending := none, dwell := 0 }))
  | fresh (edge) (h : spec.candidate floats m.state signal = .ok (some edge))
      (hnew : m.pending ≠ some edge.2) :
      Observes floats spec m signal (.ok ([], { m with pending := some edge.2, dwell := 1 }))
  | waits (edge) (h : spec.candidate floats m.state signal = .ok (some edge))
      (hsame : m.pending = some edge.2)
      (hshort : ((m.dwell + 1 : Nat) : Int) < spec.minDwellWindows) :
      Observes floats spec m signal (.ok ([], { m with dwell := m.dwell + 1 }))
  | moves (edge event) (h : spec.candidate floats m.state signal = .ok (some edge))
      (hsame : m.pending = some edge.2)
      (hlong : spec.minDwellWindows ≤ ((m.dwell + 1 : Nat) : Int))
      (hsource : event.source = m.state) (htarget : event.target = edge.1.target)
      (hsignal : event.signal = edge.1.signal) :
      Observes floats spec m signal (.ok ([event],
        { state := edge.1.target, events := m.events ++ [event], dwell := 0, pending := none }))

theorem observe_observes (floats : Floats V) (spec : PressureSpec V)
    (m : PressureStateMachine V) (signal : PressureSignal V) (monotonicNs : Int) :
    Observes floats spec m signal (m.observe floats spec signal monotonicNs) := by
  rw [observe]
  rcases h : spec.candidate floats m.state signal with error | (- | edge)
  · exact .raised error h
  · exact .calm h
  · by_cases hsame : m.pending = some edge.2
    · by_cases hshort : ((m.dwell + 1 : Nat) : Int) < spec.minDwellWindows
      · simp only [bind, Except.bind, hsame, ne_eq, if_pos hshort]
        have := Observes.waits (m := m) edge h hsame hshort
        rwa [hsame] at this
      · obtain ⟨value, hvalue⟩ := (firstSatisfied_mem h).2
        simp only [bind, Except.bind, hsame, ne_eq, if_neg hshort,
          hvalue]
        exact .moves edge _ h hsame (Int.not_lt.mp hshort) rfl rfl rfl
    · simp only [bind, Except.bind, ne_eq, hsame]
      exact .fresh edge h hsame

end PressureStateMachine

/-! ### What the machine remembers -/

namespace Observed

variable {s : Observed V} {signal : PressureSignal V} {monotonicNs : Int}

/-- `edge` is the candidate of a window in the present state. -/
def Wins (floats : Floats V) (spec : PressureSpec V) (s : Observed V) (edge : Edge V)
    (window : PressureSignal V) : Prop :=
  spec.candidate floats s.machine.state window = .ok (some edge)

def count (s : Observed V) (edge : Edge V) : Nat :=
  if s.machine.pending = some edge.2 then s.machine.dwell else 0

/-- The counts are right, and what is pending has been the candidate. -/
structure Remembers (floats : Floats V) (spec : PressureSpec V) (s : Observed V) : Prop where
  counts : ∀ edge : Edge V, spec.transitions[edge.2]? = some edge.1 →
    InARow (s.Wins floats spec edge) s.since (s.count edge)
  counted : s.machine.pending ≠ none → 1 ≤ s.machine.dwell

omit [LE V] [DecidableLE V] in
theorem edge_unique {edge other : Edge V} (h : spec.transitions[edge.2]? = some edge.1)
    (h' : spec.transitions[other.2]? = some other.1) (heq : edge.2 = other.2) : edge = other := by
  rw [heq, h'] at h
  exact Prod.ext (Option.some.inj h).symm heq

theorem lost {edge : Edge V} (h : ¬ s.Wins floats spec edge signal) :
    InARow (s.Wins floats spec edge) (signal :: s.since) 0 :=
  inARow_cons_of_not h

theorem Remembers.won (hs : s.Remembers floats spec) {edge : Edge V}
    (h : s.Wins floats spec edge signal) :
    InARow (s.Wins floats spec edge) (signal :: s.since) (s.count edge + 1) :=
  (hs.counts edge (candidate_position h)).cons h

/-- Of all transitions only the candidate is counted after a window in which the state stays. -/
theorem Remembers.kept {edge : Edge V} (hs : s.Remembers floats spec)
    (h : s.Wins floats spec edge signal) {dwell : Nat} (hdwell : dwell = s.count edge + 1) :
    Remembers floats spec
      ⟨{ s.machine with pending := some edge.2, dwell }, signal :: s.since⟩ where
  counts := by
    intro other hother
    by_cases heq : edge.2 = other.2
    · obtain rfl := edge_unique (candidate_position h) hother heq
      have hcount : count (⟨{ s.machine with pending := some edge.2, dwell },
          signal :: s.since⟩ : Observed V) edge = s.count edge + 1 := by
        rw [count, if_pos rfl, hdwell]
      rw [hcount]
      exact hs.won h
    · have hcount : count (⟨{ s.machine with pending := some edge.2, dwell },
          signal :: s.since⟩ : Observed V) other = 0 :=
        if_neg fun hpending => heq (Option.some.inj hpending)
      rw [hcount]
      refine lost (s := s) fun hwins => heq ?_
      have hsame := h.symm.trans hwins
      rw [Option.some.inj (Except.ok.inj hsame)]
  counted := fun _ => by
    show 1 ≤ dwell
    omega

/-- **The dwell step.** -/
theorem Remembers.step (hs : s.Remembers floats spec) (window : PressureSignal V × Int) :
    (s.step floats spec window).Remembers floats spec := by
  obtain ⟨signal, monotonicNs⟩ := window
  have hcases := PressureStateMachine.observe_observes floats spec s.machine signal
    monotonicNs
  rw [Observed.step]
  generalize s.machine.observe floats spec signal monotonicNs = outcome at hcases ⊢
  cases hcases with
  | raised => exact hs
  | calm h =>
    refine ⟨fun edge _ => ?_, fun hpending => absurd rfl hpending⟩
    refine lost (s := s) fun hwins => ?_
    have := h.symm.trans hwins
    cases this
  | fresh edge h hnew =>
    refine hs.kept h ?_
    rw [count, if_neg hnew]
  | waits edge h hsame hshort =>
    have hcount : s.machine.dwell + 1 = s.count edge + 1 := by rw [count, if_pos hsame]
    have := hs.kept h hcount
    rwa [← hsame] at this
  | moves => exact ⟨fun edge _ => inARow_nil, fun hpending => absurd rfl hpending⟩

theorem held_iff {edge : Edge V} {n k : Nat}
    (h : InARow (s.Wins floats spec edge) (signal :: s.since) k) :
    s.Held floats spec n signal edge ↔ n ≤ k := h n

/-- A transition that is held for long enough is taken, -/
theorem takes_of_long {edge : Edge V} (h : s.Wins floats spec edge signal)
    (hlong : max 2 spec.minDwellWindows.toNat ≤ s.count edge + 1) :
    s.Takes floats spec signal monotonicNs edge := by
  have hcases := PressureStateMachine.observe_observes floats spec s.machine signal
    monotonicNs
  have hsame : ∀ other, spec.candidate floats s.machine.state signal = .ok (some other) →
      other = edge := fun other hother => Option.some.inj (Except.ok.inj (hother.symm.trans h))
  rw [Takes]
  generalize s.machine.observe floats spec signal monotonicNs = outcome at hcases ⊢
  cases hcases with
  | raised error herror => cases herror.symm.trans h
  | calm hcalm => cases hcalm.symm.trans h
  | fresh other hother hnew =>
    -- not even remembered in the window before
    rw [hsame other hother] at hnew
    rw [count, if_neg hnew] at hlong
    omega
  | waits other hother hpending hshort =>
    rw [hsame other hother] at hpending
    rw [count, if_pos hpending] at hlong
    omega
  | moves other event hother _ _ hsource htarget hsignal =>
    rw [hsame other hother] at htarget hsignal
    refine ⟨event, _, rfl, hsource, htarget, hsignal, ?_, rfl⟩
    rw [hsame other hother]

/-- and without one the machine stays as it is. -/
theorem Remembers.stays (hs : s.Remembers floats spec)
    (hshort : ∀ edge, s.Wins floats spec edge signal →
      s.count edge + 1 < max 2 spec.minDwellWindows.toNat) :
    s.Stays floats spec signal monotonicNs := by
  have hcases := PressureStateMachine.observe_observes floats spec s.machine signal
    monotonicNs
  intro events machine hobserve
  rw [hobserve] at hcases
  cases hcases with
  | calm => exact ⟨rfl, rfl, rfl⟩
  | fresh => exact ⟨rfl, rfl, rfl⟩
  | waits => exact ⟨rfl, rfl, rfl⟩
  | moves edge event h hsame hlong =>
    have hcounted := hs.counted fun hnone => Option.some_ne_none _ (hsame.symm.trans hnone)
    have := hshort edge h
    rw [count, if_pos hsame] at this
    omega

theorem Held.wins {edge : Edge V} {n : Nat} (h : s.Held floats spec (n + 1) signal edge) :
    s.Wins floats spec edge signal :=
  h.2 signal (by rw [take_succ_cons]; exact .head _)

end Observed

/-! ### Runs -/

theorem observed_remembers (floats : Floats V) (spec : PressureSpec V) (start : PressureState)
    (windows : List (PressureSignal V × Int)) :
    ((observed floats spec start).run windows).Remembers floats spec :=
  (Machine.reachable_run windows).invariant
    ⟨fun _ _ => inARow_nil, fun hpending => absurd rfl hpending⟩ fun _ window _ hs =>
    hs.step window

/-- **The dwell.**  A transition is taken as soon as it has been the candidate of the last
`max 2 min_dwell_windows` windows since the state was entered, and nothing else changes the
state. -/
theorem pressure_dwell (floats : Floats V) (spec : PressureSpec V) (start : PressureState)
    (windows : List (PressureSignal V × Int)) (signal : PressureSignal V) (monotonicNs : Int) :
    let s := (observed floats spec start).run windows
    let dwell := max 2 spec.minDwellWindows.toNat
    (∀ edge, s.Held floats spec dwell signal edge → s.Takes floats spec signal monotonicNs edge) ∧
      (∀ edge other, s.Held floats spec dwell signal edge →
        s.Held floats spec dwell signal other → edge = other) ∧
      ((∀ edge, ¬ s.Held floats spec dwell signal edge) →
        s.Stays floats spec signal monotonicNs) := by
  intro s dwell
  obtain ⟨n, hn⟩ : ∃ n, dwell = n + 1 := ⟨dwell - 1, by omega⟩
  have hs : s.Remembers floats spec := observed_remembers floats spec start windows
  have hwins : ∀ edge, s.Held floats spec dwell signal edge → s.Wins floats spec edge signal := by
    intro edge hheld
    rw [hn] at hheld
    exact hheld.wins
  refine ⟨fun edge hheld => ?_, fun edge other hheld hother => ?_, fun hnone => ?_⟩
  · exact Observed.takes_of_long (hwins edge hheld)
      ((Observed.held_iff (hs.won (hwins edge hheld))).mp hheld)
  · have hsame := (hwins edge hheld).symm.trans (hwins other hother)
    exact Option.some.inj (Except.ok.inj hsame)
  · refine hs.stays fun edge hwon => ?_
    by_contra hlong
    exact hnone edge ((Observed.held_iff (hs.won hwon)).mpr (not_lt.mp hlong))

def wholeNumbers : Floats Int where
  ofInt := some
  ofText := fun _ => none
  text := toString

/-- With a dwell of one window a transition is not taken at the first window that satisfies it. -/
theorem first_window_remembered :
    ¬ ∀ (spec : PressureSpec Int) (start : PressureState) (signal : PressureSignal Int) (edge),
      1 ≤ spec.minDwellWindows →
      ((observed wholeNumbers spec start).run []).Held wholeNumbers spec
          spec.minDwellWindows.toNat signal edge →
        ((observed wholeNumbers spec start).run []).Takes wholeNumbers spec signal 0 edge := by
  intro h
  let edge : PressureTransition Int := ⟨.normal, .softPressure, "queue_age_ms", 5, .enter⟩
  let signal : PressureSignal Int := ⟨0, 9, 0, 0, 0, 0, 0, 0, 0, "healthy"⟩
  obtain ⟨event, machine, hobserve, -⟩ := h ⟨[edge], 1⟩ .normal signal (edge, 0)
    (Int.le_refl 1) ⟨by decide, fun window hwindow => by
      obtain rfl : window = signal := mem_singleton.mp hwindow
      rfl⟩
  cases hobserve

end Hqsb
