/-
Hqsb/Distributed/Communicator.lean

The communicator state machine (`CommunicatorStateMachine` of
`hqsb/distributed/sequence.py`).

Every method is a few `transition`s in a row, and each of them may raise: what the
earlier ones did then stays.  A method is therefore a function into the state it
leaves and the error it raises, if any, and `andThen` stops at the first error.

Whatever is called, the history is a chain of allowed transitions that ends in the
current state (`Communicator.Chained`), the sequence numbers grow
(`accepted_increasing`) and an unusable communicator stays unusable
(`accepted_of_unusable`).  Two things hold only in part: `fail` without a reason has
moved to `ERROR` before it is refused, and `destroy_or_abort` knows no way out of
`INIT`, `ENQUEUED` and `IN_FLIGHT`.  `wellBehaved_iff` makes that exact, for every run.
-/
import Hqsb.Lib.Machine

namespace Hqsb.Distributed

open Lib List

/-! ### States and transitions -/

inductive CommState where
  | init | ready | enqueued | inFlight | completed | error | aborting | aborted | destroyed
  deriving DecidableEq

namespace CommState

def name : CommState → String
  | init => "INIT"
  | ready => "READY"
  | enqueued => "ENQUEUED"
  | inFlight => "IN_FLIGHT"
  | completed => "COMPLETED"
  | error => "ERROR"
  | aborting => "ABORTING"
  | aborted => "ABORTED"
  | destroyed => "DESTROYED"

end CommState

def communicatorStates : List CommState :=
  [.init, .ready, .enqueued, .inFlight, .completed, .error, .aborting, .aborted, .destroyed]

def stateNamed (target : String) : Option CommState :=
  communicatorStates.find? fun state => state.name = target

/-- `ALLOWED_TRANSITIONS`.  No state is called `TIMEOUT`. -/
def allowedTransitions : CommState → List String
  | .init => ["READY", "ERROR", "ABORTING"]
  | .ready => ["ENQUEUED", "ERROR", "ABORTING", "DESTROYED"]
  | .enqueued => ["IN_FLIGHT", "ERROR", "ABORTING"]
  | .inFlight => ["COMPLETED", "ERROR", "ABORTING", "TIMEOUT"]
  | .completed => ["READY", "ENQUEUED", "ERROR", "ABORTING", "DESTROYED"]
  | .error => ["ABORTING"]
  | .aborting => ["ABORTED"]
  | .aborted => ["DESTROYED"]
  | .destroyed => []

def Allowed (s t : CommState) : Prop := t.name ∈ allowedTransitions s

instance (s t : CommState) : Decidable (Allowed s t) := inferInstanceAs (Decidable (_ ∈ _))

structure HistoryEntry where
  source : CommState
  target : CommState
  reason : String

/-- The `ConfigError`s of the methods, with what their texts are made of. -/
inductive CommError where
  | unknownState (target : String)
  | illegalTransition (source target : CommState) (groupId : String)
  | noAbortReason
  | commAborted (groupId : String) (state : CommState)
  | cannotEnqueue (groupId : String) (state : CommState) (seq : Int)
  | sequenceNotGreater (seq lastSeq : Int)
  | abortBeforeDestroy

structure Communicator where
  groupId : String
  state : CommState := .init
  history : List HistoryEntry := []
  lastSeq : Int := -1
  abortReason : String := ""

/-- The state a method leaves and the error it raises. -/
abbrev Outcome := Communicator × Option CommError

/-- Go on unless an error was raised. -/
def Outcome.andThen (o : Outcome) (next : Communicator → Outcome) : Outcome :=
  match o.2 with
  | some _ => o
  | none => next o.1

namespace Communicator

/-- `self.history[-1]["to"] if self.history else "INIT"` -/
def lastTarget (history : List HistoryEntry) : CommState :=
  (history.getLast?.map HistoryEntry.target).getD .init

variable (c : Communicator)

def moved (target : CommState) (reason : String) : Communicator :=
  { c with
    state := target
    abortReason := if target = .aborting then reason else c.abortReason
    history := c.history ++ [⟨lastTarget c.history, target, reason⟩] }

def transition (target : String) (reason : String) : Outcome :=
  match stateNamed target with
  | none => (c, some (.unknownState target))
  | some t =>
    if ¬ Allowed c.state t then (c, some (.illegalTransition c.state t c.groupId))
    else if t = .aborting ∧ reason = "" then (c, some .noAbortReason)
    else (c.moved t reason, none)

/-- Refuse any new call once the communicator is not usable. -/
def beginCollective (seq : Int) : Outcome :=
  if c.state ∈ [.error, .aborting, .aborted, .destroyed] then
    (c, some (.commAborted c.groupId c.state))
  else if c.state ∉ [.ready, .completed] then (c, some (.cannotEnqueue c.groupId c.state seq))
  else if seq ≤ c.lastSeq then (c, some (.sequenceNotGreater seq c.lastSeq))
  else ({ c with lastSeq := seq } : Communicator).transition "ENQUEUED" s!"seq={seq}"

def complete : Outcome :=
  (c.transition "IN_FLIGHT" "").andThen fun c => c.transition "COMPLETED" ""

def fail (reason : String) : Outcome :=
  let first := if c.state ∈ [.completed, .ready, .init] then c.transition "ERROR" reason
    else (c, none)
  (first.andThen fun c => c.transition "ABORTING" reason).andThen fun c =>
    c.transition "ABORTED" ""

def destroy : Outcome :=
  if c.state ∈ [.error, .aborting] then (c, some .abortBeforeDestroy)
  else c.transition "DESTROYED" "explicit destroy"

/-- Destroy if safe, otherwise abort then destroy (cleanup ordering). -/
def destroyOrAbort : Outcome :=
  let cleaned :=
    if c.state ∈ [.error, .aborting] then
      (if c.state = .error then c.transition "ABORTING" "cleanup after error"
        else (c, none)).andThen fun c => c.transition "ABORTED" ""
    else (c, none)
  Outcome.andThen cleaned fun c => c.transition "DESTROYED" "cleanup"

end Communicator

inductive CommCall where
  | transition (target reason : String)
  | beginCollective (seq : Int)
  | complete
  | fail (reason : String)
  | destroy
  | destroyOrAbort

def CommCall.run (call : CommCall) (c : Communicator) : Outcome :=
  match call with
  | .transition target reason => c.transition target reason
  | .beginCollective seq => c.beginCollective seq
  | .complete => c.complete
  | .fail reason => c.fail reason
  | .destroy => c.destroy
  | .destroyOrAbort => c.destroyOrAbort

/-- A communicator under the calls of its user, who catches what they raise. -/
def commMachine (groupId : String) : Machine Communicator CommCall where
  init := { groupId := groupId }
  step c call := (call.run c).1

/-! ### One transition -/

theorem stateNamed_name (t : CommState) : stateNamed t.name = some t := by
  cases t <;> decide

namespace Communicator

theorem transition_name (c : Communicator) (t : CommState) (reason : String) :
    c.transition t.name reason =
      if ¬ Allowed c.state t then (c, some (.illegalTransition c.state t c.groupId))
      else if t = .aborting ∧ reason = "" then (c, some .noAbortReason)
      else (c.moved t reason, none) := by
  rw [transition, stateNamed_name]

theorem transition_cases (c : Communicator) (target reason : String) :
    (∃ e, c.transition target reason = (c, some e)) ∨
    ∃ t, Allowed c.state t ∧ c.transition target reason = (c.moved t reason, none) := by
  rw [transition]
  rcases stateNamed target with - | t
  · exact .inl ⟨_, rfl⟩
  · dsimp only
    split_ifs with hallowed hreason
    · exact .inl ⟨_, rfl⟩
    · exact .inr ⟨t, hallowed, rfl⟩
    · exact .inl ⟨_, rfl⟩

theorem transition_refused {c : Communicator} {t : CommState} (reason : String)
    (h : ¬ Allowed c.state t) :
    c.transition t.name reason = (c, some (.illegalTransition c.state t c.groupId)) := by
  rw [transition_name, if_pos h]

theorem transition_done {c : Communicator} {t : CommState} {reason : String}
    (h : Allowed c.state t) (hreason : t = .aborting → reason ≠ "") :
    c.transition t.name reason = (c.moved t reason, none) := by
  rw [transition_name, if_neg (not_not.mpr h), if_neg fun hr => hreason hr.1 hr.2]

end Communicator

/-! ### What a call can do -/

/-- Some transitions in a row. -/
inductive Moves : Communicator → Communicator → Prop
  | refl (c : Communicator) : Moves c c
  | moved {c c' : Communicator} {t : CommState} (reason : String) (allowed : Allowed c.state t)
      (rest : Moves (c.moved t reason) c') : Moves c c'

variable {c c' : Communicator} {o : Outcome} {seq : Int} {history : List HistoryEntry}
  {s t : CommState} {call : CommCall} {reason : String}

theorem Moves.trans {a b : Communicator} (h : Moves a b) (h' : Moves b c) : Moves a c := by
  induction h with
  | refl => exact h'
  | moved reason allowed _ ih => exact .moved reason allowed (ih h')

theorem Moves.lastSeq (h : Moves c c') : c'.lastSeq = c.lastSeq := by
  induction h with
  | refl => rfl
  | moved _ _ _ ih => exact ih

theorem Moves.of_transition (c : Communicator) (target reason : String) :
    Moves c (c.transition target reason).1 := by
  rcases c.transition_cases target reason with ⟨e, h⟩ | ⟨t, hallowed, h⟩
  · rw [h]
    exact .refl c
  · rw [h]
    exact .moved reason hallowed (.refl _)

theorem Moves.andThen {next : Communicator → Outcome} (h : Moves c o.1)
    (hnext : ∀ c', Moves c' (next c').1) : Moves c (o.andThen next).1 := by
  rw [Outcome.andThen]
  rcases o.2 with - | e
  · exact h.trans (hnext o.1)
  · exact h

/-- The communicator a call starts its transitions from: `begin_collective` notes the sequence
number first. -/
def CommCall.noted (call : CommCall) (c : Communicator) : Communicator :=
  match call with
  | .beginCollective seq =>
    if c.state ∈ [.ready, .completed] ∧ c.lastSeq < seq then { c with lastSeq := seq } else c
  | _ => c

theorem beginCollective_accepts (h : c.state ∈ [.ready, .completed]) (hseq : c.lastSeq < seq) :
    c.beginCollective seq =
      (({ c with lastSeq := seq } : Communicator).moved .enqueued s!"seq={seq}", none) := by
  have hopen : c.state ∉ [CommState.error, .aborting, .aborted, .destroyed] := by
    rcases hstate : c.state <;> simp_all
  have hallowed : Allowed c.state .enqueued := by
    rcases hstate : c.state <;> simp_all [Allowed, allowedTransitions, CommState.name]
  rw [Communicator.beginCollective, if_neg hopen, if_neg (not_not.mpr h),
    if_neg (Int.not_le.mpr hseq)]
  exact Communicator.transition_done (c := { c with lastSeq := seq }) (t := .enqueued) hallowed
    nofun

theorem beginCollective_refuses (h : ¬ (c.state ∈ [.ready, .completed] ∧ c.lastSeq < seq)) :
    ∃ e, c.beginCollective seq = (c, some e) := by
  rw [Communicator.beginCollective]
  split_ifs with hclosed hstate hseq
  · exact ⟨_, rfl⟩
  · exact ⟨_, rfl⟩
  · exact absurd ⟨hstate, Int.not_le.mp hseq⟩ h
  · exact ⟨_, rfl⟩

/-- **A call is some transitions in a row.** -/
theorem moves_run (call : CommCall) (c : Communicator) : Moves (call.noted c) (call.run c).1 := by
  cases call with
  | transition target reason => exact .of_transition c target reason
  | beginCollective seq =>
    show Moves _ (c.beginCollective seq).1
    rw [CommCall.noted]
    by_cases h : c.state ∈ [CommState.ready, .completed] ∧ c.lastSeq < seq
    · rw [if_pos h, beginCollective_accepts h.1 h.2]
      refine .moved _ ?_ (.refl _)
      show Allowed c.state .enqueued
      rcases hstate : c.state <;> simp_all [Allowed, allowedTransitions, CommState.name]
    · obtain ⟨e, he⟩ := beginCollective_refuses h
      rw [if_neg h, he]
      exact .refl c
  | complete => exact (Moves.of_transition c _ _).andThen fun c' => .of_transition c' _ _
  | fail reason =>
    refine Moves.andThen (Moves.andThen ?_ fun c' => .of_transition c' _ _)
      fun c' => .of_transition c' _ _
    split_ifs
    · exact .of_transition c _ _
    · exact .refl c
  | destroy =>
    show Moves c c.destroy.1
    rw [Communicator.destroy]
    split_ifs
    · exact .refl c
    · exact .of_transition c _ _
  | destroyOrAbort =>
    refine Moves.andThen ?_ fun c' => .of_transition c' _ _
    split_ifs
    · exact (Moves.of_transition c _ _).andThen fun c' => .of_transition c' _ _
    · exact (Moves.refl c).andThen fun c' => .of_transition c' _ _
    · exact .refl c

/-! ### The history -/

/-- A list of allowed transitions, each from where the one before it led. -/
def ChainFrom : CommState → List HistoryEntry → CommState → Prop
  | s, [], t => s = t
  | s, e :: history, t => e.source = s ∧ Allowed s e.target ∧ ChainFrom e.target history t

theorem ChainFrom.concat {e : HistoryEntry} (h : ChainFrom s history t) (hsource : e.source = t)
    (hallowed : Allowed t e.target) :
    ChainFrom s (history ++ [e]) e.target := by
  induction history generalizing s with
  | nil =>
    obtain rfl : s = t := h
    exact ⟨hsource, hallowed, rfl⟩
  | cons d history ih => exact ⟨h.1, h.2.1, ih h.2.2⟩

theorem ChainFrom.last {e : HistoryEntry} (h : ChainFrom s (history ++ [e]) t) : e.target = t := by
  induction history generalizing s with
  | nil => exact h.2.2
  | cons d history ih => exact ih h.2.2

theorem ChainFrom.lastTarget (h : ChainFrom .init history t) :
    Communicator.lastTarget history = t := by
  induction history using List.reverseRecOn with
  | nil => exact h
  | append_singleton history e =>
    rw [Communicator.lastTarget, List.getLast?_concat]
    exact h.last

/-- The history leads from `INIT` to the current state. -/
def Communicator.Chained (c : Communicator) : Prop := ChainFrom .init c.history c.state

theorem Moves.chained (h : Moves c c') (hc : c.Chained) : c'.Chained := by
  induction h with
  | refl => exact hc
  | @moved c c' t reason allowed _ ih =>
    exact ih (ChainFrom.concat (e := ⟨Communicator.lastTarget c.history, t, reason⟩) hc
      (ChainFrom.lastTarget hc) allowed)

theorem noted_chained (h : c.Chained) : (call.noted c).Chained := by
  cases call with
  | beginCollective seq =>
    rw [CommCall.noted]
    split_ifs
    · exact h
    · exact h
  | _ => exact h

/-- **The history is a chain of allowed transitions**, whatever is called. -/
theorem run_chained (h : c.Chained) :
    (call.run c).1.Chained := (moves_run call c).chained (noted_chained h)

/-! ### Sequence numbers -/

def CommCall.accepts (call : CommCall) (c : Communicator) : Option Int :=
  match call with
  | .beginCollective seq => if (call.run c).2 = none then some seq else none
  | _ => none

/-- The sequence numbers a run enqueues, in their order. -/
def accepted : Communicator → List CommCall → List Int
  | _, [] => []
  | c, call :: calls => (call.accepts c).toList ++ accepted (call.run c).1 calls

theorem accepts_spec (h : call.accepts c = some seq) :
    c.state ∈ [.ready, .completed] ∧ c.lastSeq < seq ∧ (call.run c).1.lastSeq = seq := by
  cases call with
  | beginCollective seq' =>
    rw [CommCall.accepts] at h
    split_ifs at h with hnone
    obtain rfl := Option.some.inj h
    by_cases hopen : c.state ∈ [CommState.ready, .completed] ∧ c.lastSeq < seq'
    · refine ⟨hopen.1, hopen.2, ?_⟩
      show (c.beginCollective seq').1.lastSeq = seq'
      rw [beginCollective_accepts hopen.1 hopen.2]
      rfl
    · obtain ⟨e, he⟩ := beginCollective_refuses hopen
      have hrun : ((CommCall.beginCollective seq').run c).2 = some e := congrArg Prod.snd he
      rw [hrun] at hnone
      cases hnone
  | _ => cases h

/-- A call that enqueues nothing keeps the last sequence number. -/
theorem lastSeq_of_not_accepts (h : call.accepts c = none) :
    (call.run c).1.lastSeq = c.lastSeq := by
  have hmoves := (moves_run call c).lastSeq
  cases call with
  | beginCollective seq =>
    by_cases hopen : c.state ∈ [CommState.ready, .completed] ∧ c.lastSeq < seq
    · rw [CommCall.accepts, CommCall.run, beginCollective_accepts hopen.1 hopen.2] at h
      cases h
    · obtain ⟨e, he⟩ := beginCollective_refuses hopen
      rw [CommCall.run, he]
  | _ => exact hmoves

/-- **The enqueued sequence numbers grow**, and exceed the last one before the run. -/
theorem accepted_increasing (c : Communicator) (calls : List CommCall) :
    (c.lastSeq :: accepted c calls).Pairwise (· < ·) := by
  induction calls generalizing c with
  | nil => exact pairwise_singleton _ _
  | cons call calls ih =>
    rw [accepted]
    have hrest := ih (call.run c).1
    rcases haccepts : call.accepts c with - | seq
    · rw [lastSeq_of_not_accepts haccepts] at hrest
      exact hrest
    · obtain ⟨-, hlt, hseq⟩ := accepts_spec haccepts
      rw [hseq] at hrest
      refine pairwise_cons.mpr ⟨fun s hs => ?_, hrest⟩
      rcases mem_cons.mp hs with rfl | hs
      · exact hlt
      · exact Int.lt_trans hlt ((pairwise_cons.mp hrest).1 s hs)

/-! ### Unusable communicators -/

/-- The states in which a collective is refused with `COMM_ABORTED`. -/
def CommState.Unusable (s : CommState) : Prop := s ∈ [error, aborting, aborted, destroyed]

instance (s : CommState) : Decidable s.Unusable := inferInstanceAs (Decidable (_ ∈ _))

theorem Allowed.unusable (h : Allowed s t) (hs : s.Unusable) : t.Unusable := by
  revert h hs
  cases s <;> cases t <;> decide

theorem Moves.unusable (h : Moves c c') (hc : c.state.Unusable) : c'.state.Unusable := by
  induction h with
  | refl => exact hc
  | moved reason allowed _ ih => exact ih (allowed.unusable hc)

theorem not_open_of_unusable (h : s.Unusable) : s ∉ [CommState.ready, .completed] := by
  revert h
  cases s <;> decide

/-- **An unusable communicator enqueues nothing**, in any run. -/
theorem accepted_of_unusable (h : c.state.Unusable) (calls : List CommCall) :
    accepted c calls = [] := by
  induction calls generalizing c with
  | nil => rfl
  | cons call calls ih =>
    have hnoted : (call.noted c).state = c.state := by
      cases call with
      | beginCollective seq =>
        rw [CommCall.noted]
        split_ifs
        · rfl
        · rfl
      | _ => rfl
    have hnext : (call.run c).1.state.Unusable := (moves_run call c).unusable (hnoted ▸ h)
    have hnone : call.accepts c = none := by
      rw [Option.eq_none_iff_forall_ne_some]
      intro seq hseq
      exact not_open_of_unusable h (accepts_spec hseq).1
    rw [accepted, hnone, ih hnext]
    rfl

/-! ### Calls that raise, and the way to `DESTROYED` -/

/-- What a call that raises may not change. -/
structure Communicator.Kept (c c' : Communicator) : Prop where
  state : c'.state = c.state
  history : c'.history = c.history
  lastSeq : c'.lastSeq = c.lastSeq

theorem Communicator.Kept.refl (c : Communicator) : c.Kept c := ⟨rfl, rfl, rfl⟩

theorem transition_kept {target : String} (h : (c.transition target reason).2 ≠ none) :
    (c.transition target reason).1 = c := by
  rcases c.transition_cases target reason with ⟨e, he⟩ | ⟨t, -, he⟩
  · rw [he]
  · rw [he] at h
    exact absurd rfl h

theorem Outcome.andThen_done (next : Communicator → Outcome) (h : o = (c, none)) :
    o.andThen next = next c := by
  rw [h]
  rfl

theorem Outcome.andThen_raised {e : CommError} (next : Communicator → Outcome)
    (h : o = (c, some e)) : o.andThen next = (c, some e) := by
  rw [h]
  rfl

/-- A transition, and then another that is always allowed after it: if one raises it is the
first. -/
theorem andThen_kept (target : CommState) {next : Communicator → Outcome}
    (hnext : (next (c.moved target reason)).2 = none)
    (h : ((c.transition target.name reason).andThen next).2 ≠ none) :
    ((c.transition target.name reason).andThen next).1 = c := by
  rcases c.transition_cases target.name reason with ⟨e, he⟩ | ⟨t, hallowed, he⟩
  · rw [Outcome.andThen_raised next he]
  · have htarget : t = target := by
      rw [Communicator.transition_name] at he
      split_ifs at he
      · cases congrArg Prod.snd he
      · exact (congrArg (fun o : Outcome => o.1.state) he).symm
      · cases congrArg Prod.snd he
    rw [Outcome.andThen_done next he, htarget, hnext] at h
    exact absurd rfl h

theorem aborted_after (c : Communicator) (reason : String) :
    ((c.moved .aborting reason).transition CommState.aborted.name "").2 = none := by
  have hallowed : Allowed (c.moved .aborting reason).state .aborted := by
    show Allowed .aborting .aborted
    decide
  rw [Communicator.transition_done hallowed nofun]

theorem complete_kept (h : c.complete.2 ≠ none) : c.complete.1 = c := by
  refine andThen_kept .inFlight ?_ h
  have hallowed : Allowed (c.moved .inFlight "").state .completed := by
    show Allowed .inFlight .completed
    decide
  exact congrArg Prod.snd (Communicator.transition_done hallowed nofun)

theorem destroy_kept (h : c.destroy.2 ≠ none) : c.destroy.1 = c := by
  rw [Communicator.destroy] at h ⊢
  by_cases hfailed : c.state ∈ [CommState.error, .aborting]
  · rw [if_pos hfailed]
  · rw [if_neg hfailed] at h ⊢
    exact transition_kept h

theorem beginCollective_kept (h : (c.beginCollective seq).2 ≠ none) :
    (c.beginCollective seq).1 = c := by
  by_cases hopen : c.state ∈ [CommState.ready, .completed] ∧ c.lastSeq < seq
  · rw [beginCollective_accepts hopen.1 hopen.2] at h
    exact absurd rfl h
  · obtain ⟨e, he⟩ := beginCollective_refuses hopen
    rw [he]

/-- `fail` from a state that has not failed yet: it moves to `ERROR` before the reason is asked
for. -/
theorem fail_of_healthy (h : c.state ∈ [CommState.completed, .ready, .init]) (reason : String) :
    (reason ≠ "" → (c.fail reason).2 = none) ∧
    (reason = "" → c.fail reason = (c.moved .error reason, some .noAbortReason)) := by
  have herror : Allowed c.state .error := by
    revert h
    cases c.state <;> decide
  have hfirst : (if c.state ∈ [CommState.completed, .ready, .init] then c.transition "ERROR" reason
      else (c, none)) = (c.moved .error reason, none) := by
    rw [if_pos h]
    exact Communicator.transition_done (t := .error) herror nofun
  have haborting : Allowed (c.moved .error reason).state .aborting := by
    show Allowed .error .aborting
    decide
  constructor
  · intro hreason
    have hsecond : (c.moved .error reason).transition "ABORTING" reason =
        ((c.moved .error reason).moved .aborting reason, none) :=
      Communicator.transition_done haborting fun _ => hreason
    rw [Communicator.fail]
    rw [Outcome.andThen_done _ hfirst, Outcome.andThen_done _ hsecond]
    exact aborted_after _ reason
  · intro hreason
    have hsecond : (c.moved .error reason).transition "ABORTING" reason =
        (c.moved .error reason, some .noAbortReason) := by
      have hname := Communicator.transition_name (c.moved .error reason) .aborting reason
      rwa [if_neg (not_not.mpr haborting), if_pos ⟨rfl, hreason⟩] at hname
    rw [Communicator.fail]
    rw [Outcome.andThen_done _ hfirst]
    rw [hsecond]
    rfl

theorem fail_of_not_healthy (h : c.state ∉ [CommState.completed, .ready, .init])
    (hraised : (c.fail reason).2 ≠ none) : (c.fail reason).1 = c := by
  rw [Communicator.fail] at hraised ⊢
  rw [if_neg h] at hraised ⊢
  exact andThen_kept .aborting (aborted_after c reason) hraised

/-- **When `fail` is all or nothing.** -/
theorem fail_kept_iff (c : Communicator) (reason : String) :
    ((c.fail reason).2 ≠ none → c.Kept (c.fail reason).1) ↔
      (reason = "" → c.state ∉ [CommState.completed, .ready, .init]) := by
  by_cases hhealthy : c.state ∈ [CommState.completed, .ready, .init]
  · obtain ⟨hdone, hraises⟩ := fail_of_healthy hhealthy reason
    by_cases hreason : reason = ""
    · constructor
      · intro h
        -- the communicator has moved to `ERROR`
        have hkept := (h (by rw [hraises hreason]; exact nofun)).state
        rw [hraises hreason] at hkept
        have hstate : c.state = .error := hkept.symm
        rw [hstate] at hhealthy
        exact absurd hhealthy (by decide)
      · intro h
        exact absurd hhealthy (h hreason)
    · exact ⟨fun _ h => absurd h hreason, fun _ h => absurd (hdone hreason) h⟩
  · refine ⟨fun _ _ => hhealthy, fun _ h => ?_⟩
    rw [fail_of_not_healthy hhealthy h]
    exact .refl c

/-- The clean-up of a failed communicator goes through. -/
theorem destroyOrAbort_of_failed (h : c.state ∈ [CommState.error, .aborting]) :
    c.destroyOrAbort.2 = none ∧ c.destroyOrAbort.1.state = .destroyed := by
  have hmiddle : ∀ c' : Communicator, c'.state = .aborting →
      c'.transition "ABORTED" "" = (c'.moved .aborted "", none) := by
    intro c' hc'
    refine Communicator.transition_done (t := .aborted) ?_ nofun
    rw [hc']
    decide
  rw [Communicator.destroyOrAbort]
  rw [if_pos h]
  by_cases herror : c.state = .error
  · have hfirst : c.transition "ABORTING" "cleanup after error" =
        (c.moved .aborting "cleanup after error", none) := by
      refine Communicator.transition_done (t := .aborting) ?_ fun _ => by decide
      rw [herror]
      decide
    rw [if_pos herror, Outcome.andThen_done _ hfirst, Outcome.andThen_done _ (hmiddle _ rfl)]
    exact ⟨rfl, rfl⟩
  · have haborting : c.state = .aborting := by
      revert h herror
      cases c.state <;> decide
    rw [if_neg herror, Outcome.andThen_done _ rfl, Outcome.andThen_done _ (hmiddle _ haborting)]
    exact ⟨rfl, rfl⟩

theorem destroyOrAbort_of_not_failed (h : c.state ∉ [CommState.error, .aborting]) :
    c.destroyOrAbort = c.transition CommState.destroyed.name "cleanup" := by
  rw [Communicator.destroyOrAbort]
  rw [if_neg h]
  exact Outcome.andThen_done _ rfl

theorem destroyOrAbort_kept (h : c.destroyOrAbort.2 ≠ none) : c.destroyOrAbort.1 = c := by
  by_cases hfailed : c.state ∈ [CommState.error, .aborting]
  · exact absurd (destroyOrAbort_of_failed hfailed).1 h
  · rw [destroyOrAbort_of_not_failed hfailed] at h ⊢
    exact transition_kept h

/-- **Where `destroy_or_abort` gets to `DESTROYED`.** -/
theorem destroyOrAbort_destroys_iff (h : c.state ≠ .destroyed) :
    c.destroyOrAbort.1.state = .destroyed ↔
      c.state ∉ [CommState.init, .enqueued, .inFlight] := by
  by_cases hfailed : c.state ∈ [CommState.error, .aborting]
  · refine ⟨fun _ => ?_, fun _ => (destroyOrAbort_of_failed hfailed).2⟩
    revert hfailed
    cases c.state <;> decide
  · rw [destroyOrAbort_of_not_failed hfailed]
    by_cases hallowed : Allowed c.state .destroyed
    · rw [Communicator.transition_done hallowed nofun]
      refine ⟨fun _ => ?_, fun _ => rfl⟩
      revert hallowed
      cases c.state <;> decide
    · rw [Communicator.transition_refused "cleanup" hallowed]
      refine ⟨fun hc => absurd hc h, fun hout => ?_⟩
      revert h hfailed hallowed hout
      cases c.state <;> decide

/-! ### Runs -/

/-- The condition on a call: `fail` is given a reason unless the communicator has failed or has a
collective under way, and `destroy_or_abort` is not called in `INIT`, `ENQUEUED` or
`IN_FLIGHT`. -/
def CommCall.Meets (c : Communicator) : CommCall → Prop
  | .fail reason => reason = "" → c.state ∉ [CommState.completed, .ready, .init]
  | .destroyOrAbort => c.state ∉ [CommState.init, .enqueued, .inFlight]
  | _ => True

section

variable (groupId : String) (calls : List CommCall)

/-- What the life of a communicator under a list of calls is meant to be. -/
structure WellBehaved : Prop where
  increasing : (accepted (commMachine groupId).init calls).Pairwise (· < ·)
  unusable : ∀ before after, calls = before ++ after →
    ((commMachine groupId).run before).state.Unusable →
    accepted ((commMachine groupId).run before) after = []
  chained : ∀ before, before <+: calls → ((commMachine groupId).run before).Chained
  kept : ∀ before call, before ++ [call] <+: calls →
    (call.run ((commMachine groupId).run before)).2 ≠ none →
    ((commMachine groupId).run before).Kept ((commMachine groupId).run (before ++ [call]))
  destroyed : ∀ before, before ++ [CommCall.destroyOrAbort] <+: calls →
    ((commMachine groupId).run before).state ≠ .destroyed →
    ((commMachine groupId).run (before ++ [CommCall.destroyOrAbort])).state = .destroyed

theorem run_concat (before : List CommCall) (call : CommCall) :
    (commMachine groupId).run (before ++ [call]) =
      (call.run ((commMachine groupId).run before)).1 := Machine.runFrom_concat _ _ _

theorem chained_run : ((commMachine groupId).run calls).Chained := by
  refine Machine.runFrom_invariant (P := Communicator.Chained) (fun c call h => ?_) ?_ calls
  · exact run_chained h
  · show ChainFrom .init [] .init
    rfl

/-- A call that raises and meets the condition keeps the communicator. -/
theorem kept_of_meets (hmeets : call.Meets c) (h : (call.run c).2 ≠ none) :
    c.Kept (call.run c).1 := by
  cases call with
  | transition target reason =>
    have hkept : ((CommCall.transition target reason).run c).1 = c := transition_kept h
    rw [hkept]
    exact .refl c
  | beginCollective seq =>
    have hkept : ((CommCall.beginCollective seq).run c).1 = c := beginCollective_kept h
    rw [hkept]
    exact .refl c
  | complete =>
    have hkept : (CommCall.complete.run c).1 = c := complete_kept h
    rw [hkept]
    exact .refl c
  | fail reason => exact (fail_kept_iff c reason).mpr hmeets h
  | destroy =>
    have hkept : (CommCall.destroy.run c).1 = c := destroy_kept h
    rw [hkept]
    exact .refl c
  | destroyOrAbort =>
    have hkept : (CommCall.destroyOrAbort.run c).1 = c := destroyOrAbort_kept h
    rw [hkept]
    exact .refl c

/-- **When a communicator behaves.**  Over any run, the enqueued sequence numbers grow, an
unusable communicator enqueues nothing, the history is a chain of allowed transitions to the
current state, a call that raises changes nothing and `destroy_or_abort` ends in `DESTROYED`,
exactly when every call of the run meets the condition. -/
theorem wellBehaved_iff : WellBehaved groupId calls ↔
      (commMachine groupId).Guarded (fun c call => call.Meets c) (commMachine groupId).init calls :=
    by
  rw [Machine.guarded_iff_runFrom]
  constructor
  · intro h before call hpre
    have hkept := h.kept before call hpre
    rw [run_concat] at hkept
    cases call with
    | fail reason => exact (fail_kept_iff _ reason).mp hkept
    | destroyOrAbort =>
      show ((commMachine groupId).run before).state ∉ [CommState.init, .enqueued, .inFlight]
      by_cases hdestroyed : ((commMachine groupId).run before).state = .destroyed
      · rw [hdestroyed]
        decide
      · have hends := h.destroyed before hpre hdestroyed
        rw [run_concat] at hends
        exact (destroyOrAbort_destroys_iff hdestroyed).mp hends
    | _ => exact trivial
  · intro h
    refine ⟨(pairwise_cons.mp (accepted_increasing _ calls)).2, ?_, ?_, ?_, ?_⟩
    · intro before after _ hunusable
      exact accepted_of_unusable hunusable after
    · intro before _
      exact chained_run groupId before
    · intro before call hpre hraised
      rw [run_concat]
      exact kept_of_meets (h before call hpre) hraised
    · intro before hpre hdestroyed
      rw [run_concat]
      exact (destroyOrAbort_destroys_iff hdestroyed).mpr (h before _ hpre)

end

/-- A fresh communicator cannot be cleaned up. -/
theorem fresh_not_destroyed : ¬ ∀ groupId calls, WellBehaved groupId calls := by
  intro h
  have hend := (h "tp" [.destroyOrAbort]).destroyed [] prefix_rfl (by decide)
  revert hend
  decide

end Hqsb.Distributed
