/-
Hqsb/Console/RunStates.lean

The state of a console run under all interleavings of `cancel` with the executors.

`cancel` reads the run and writes `cancel_requested` later.  Both happen under the
service lock, but the write that ends a run does not take it: it can fall in
between, and the cancellation then goes over a terminal state.  That is the only way
in which a terminal state is ever left (`Sound.keeps_step_iff`).  The number of
endings is right in any case: a run gets exactly one.

A `cancel` that has returned has left `cancel_requested` in the store
(`Sound.acknowledged_step`).  Any other step leaves that mark as it is, or takes it
down together with an ending (`Follows`).  For the service this needs no condition
(`Sound.follows_step`): the `running` update is made under the lock, the run having
been read under it, and no other write but the ending touches the state.
-/
import Hqsb.Console.ServiceRuns

namespace Hqsb.Console

open Lib

namespace Service

variable {σ : Service}

def stateOf (σ : Service) (id : String) : Option String :=
  match σ.store.get id with
  | .ok run => run.state
  | .error _ => none

variable {id : String} {run : Snapshot} {σ' : Service}

theorem stateOf_of_get (h : σ.store.get id = .ok run) :
    σ.stateOf id = run.state := by rw [stateOf, h]

theorem stateOf_congr (h : σ'.store.get id = σ.store.get id) :
    σ'.stateOf id = σ.stateOf id := by rw [stateOf, stateOf, h]

theorem isTerminal_of_stateOf (h : σ.store.get id = .ok run) {state : String}
    (hstate : σ.stateOf id = some state) :
    run.isTerminal = decide (state ∈ TERMINAL) := by
  rw [Snapshot.isTerminal_eq, ← stateOf_of_get h, hstate]

/-! ### Terminal states -/

/-- No terminal state is left between `σ` and `σ'`. -/
def Keeps (σ σ' : Service) : Prop :=
  ∀ id, ∀ state ∈ TERMINAL, σ.stateOf id = some state → σ'.stateOf id = some state

/-- A cancellation that is about to be written finds its run still open. -/
def ConfirmsOpen (σ : Service) : Act → Prop
  | .confirm _ => ∀ id, σ.lock = some (.cancel id) →
      ∀ state ∈ TERMINAL, σ.stateOf id ≠ some state
  | _ => True

theorem Keeps.refl (σ : Service) : Keeps σ σ := fun _ _ _ h => h

theorem keeps_of_get (h : ∀ id run, σ.store.get id = .ok run → run.isTerminal = true →
      σ'.store.get id = σ.store.get id) : Keeps σ σ' := by
  intro id state hterminal hstate
  rcases hget : σ.store.get id with e | run
  · rw [stateOf, hget] at hstate
    cases hstate
  · have hrun : run.isTerminal = true := by
      rw [isTerminal_of_stateOf hget hstate]
      exact decide_eq_true hterminal
    rwa [stateOf_congr (h id run hget hrun)]

/-- No step of an executor writes to a run that has ended. -/
theorem Sound.keeps_exec (h : Sound σ) (d : String) (w : Work) : Keeps σ (σ.exec d w) := by
  rcases exec_cases σ d w with heq | ⟨dep, job, eff, hdep, hexec, -, heq⟩
  · rw [heq]
    exact .refl σ
  · rw [heq]
    rcases Deployment.exec_cases hexec with ⟨queue, -, -, rfl⟩ | ⟨p, hrunning, hexecute⟩
    · exact .refl σ
    · have hexecuted := Deployment.executed hexecute
      obtain ⟨hframe, -, -⟩ := h.frame hdep hrunning hexecuted
      apply keeps_of_get
      intro id run hrun hterminal
      apply And.left
      apply hframe id
      rcases hwrite : eff.write with - | w
      · exact .inl rfl
      · right
        rintro rfl
        obtain ⟨run', hrun', hopen, -⟩ :=
          h.store_applied hdep hrunning (hexecuted.write_cases hwrite).1 w
        rw [Except.ok.inj (hrun'.symm.trans hrun), hterminal] at hopen
        cases hopen

/-- **Which steps keep terminal states**: all but the late write of a cancellation. -/
theorem Sound.keeps_step_iff (h : Sound σ) (i : Act) : Keeps σ (σ.step i) ↔ ConfirmsOpen σ i := by
  have hstep := σ.stepped i
  generalize σ.step i = σ' at hstep ⊢
  cases hstep with
  | idle _ hidle =>
    refine iff_of_true (.refl σ) ?_
    cases i with
    | confirm now => exact fun id hlock => absurd hlock (hidle now rfl id)
    | _ => trivial
  | accepts _ _ hreplay _ hcreate =>
    refine iff_of_true (keeps_of_get fun id run' hrun' _ => ?_) trivial
    obtain ⟨-, -, hnew, hother⟩ := created_open h.recorded hreplay hcreate
    exact (hother id fun heq => hnew run' (heq ▸ hrun')).1
  | marks | closes => exact iff_of_true (fun _ _ _ hstate => hstate) trivial
  | @confirms id now hlock =>
    obtain ⟨run, hrun⟩ := h.cancelled id hlock
    have hwritten := h.recorded.put hrun (cancelWrite now)
    constructor
    · -- the write would go over a terminal state
      intro hkeeps id' hlock' state hterminal hstate
      cases Option.some.inj (hlock.symm.trans hlock')
      have hkept := hkeeps _ state hterminal hstate
      obtain ⟨run', hrun', hafter⟩ := hwritten.stored
      rw [stateOf_of_get hrun', hafter] at hkept
      cases hkept
      exact absurd hterminal (by decide)
    · intro hopen id' state hterminal hstate
      have hne : id' ≠ id := by
        rintro rfl
        exact hopen _ hlock state hterminal hstate
      rwa [stateOf_congr (hwritten.get_of_ne id' hne)]
  | works d w => exact iff_of_true (h.keeps_exec d w) trivial

/-- **Terminal states of console runs.**  Along every interleaving, no step leaves a terminal
state exactly if every cancellation is written while its run is open.  Whatever the
interleaving, a run has no ending as long as its executor still owes it one and exactly one
from then on, and a cancellation that finds its run terminal changes nothing. -/
theorem terminal_final_iff (configs : OrderedDict String Provider) (maxPending : Nat)
    (is : List Act) :
    ((∀ js i, js ++ [i] <+: is →
        Keeps ((serviceMachine configs maxPending).run js)
          ((serviceMachine configs maxPending).run (js ++ [i]))) ↔
      (serviceMachine configs maxPending).Guarded ConfirmsOpen (.start configs maxPending) is) ∧
    (∀ js, js <+: is → ∀ id run,
      ((serviceMachine configs maxPending).run js).store.get id = .ok run →
      ((serviceMachine configs maxPending).run js).store.endings id
        = if id ∈ owedIn ((serviceMachine configs maxPending).run js).deployments then 0 else 1) ∧
    ∀ js, js <+: is → ∀ id, ∀ state ∈ TERMINAL,
      ((serviceMachine configs maxPending).run js).stateOf id = some state →
      ((serviceMachine configs maxPending).run js).step (.cancel id)
        = (serviceMachine configs maxPending).run js := by
  refine ⟨?_, fun js _ id run hrun => ?_, fun js _ id state hterminal hstate => ?_⟩
  · rw [Machine.guarded_iff_runFrom]
    refine forall_congr' fun js => forall_congr' fun i => imp_congr_right fun _ => ?_
    rw [show (serviceMachine configs maxPending).run (js ++ [i])
      = ((serviceMachine configs maxPending).run js).step i from Machine.runFrom_concat _ _ _]
    exact (consistent_run configs maxPending js).toSound.keeps_step_iff i
  · have h := consistent_run configs maxPending js
    split_ifs with hid
    · exact (h.owed id hid).endings
    · exact h.ended id run hrun hid
  · generalize (serviceMachine configs maxPending).run js = σ at *
    rw [Service.step]
    split_ifs
    · rfl
    · rcases cancel_cases σ id with heq | ⟨run, hrun, hopen, -, -⟩
      · exact heq
      · rw [isTerminal_of_stateOf hrun hstate] at hopen
        simp [hterminal] at hopen

/-- A load that a client cancels while its executor is about to write the ending. -/
def loadToTheEnd : List Act :=
  [.submit ⟨.load, "d", "key", "digest", "0", .null, none, none, none, none, .null, .null⟩,
    .exec "d" .pick, .exec "d" .enter, .exec "d" (.decide none .null (.obj []) .null),
    .exec "d" (.clock false), .exec "d" (.finish (.done ⟨none, none, none, .null⟩)),
    .exec "d" (.label "epoch"), .exec "d" .read, .cancel "run_0", .exec "d" (.write [] .null)]

def oneDeployment : Machine Service Act := serviceMachine ⟨[("d", .pytorch)], by decide⟩ 8

/-- The cancellation was read before the ending and is written behind it. -/
theorem cancel_over_completed :
    (oneDeployment.run loadToTheEnd).stateOf "run_0" = some "completed" ∧
      (oneDeployment.run (loadToTheEnd ++ [Act.confirm .null])).stateOf "run_0"
        = some "cancel_requested" ∧
      ¬ Keeps (oneDeployment.run loadToTheEnd)
        (oneDeployment.run (loadToTheEnd ++ [Act.confirm .null])) := by
  have hbefore : (oneDeployment.run loadToTheEnd).stateOf "run_0" = some "completed" := by
    decide +kernel
  have hafter : (oneDeployment.run (loadToTheEnd ++ [Act.confirm .null])).stateOf "run_0"
      = some "cancel_requested" := by decide
  refine ⟨hbefore, hafter, fun hkeeps => ?_⟩
  have hkept := hkeeps "run_0" "completed" (by decide) hbefore
  exact absurd hkept (by decide)

/-! ### Acknowledged cancellations -/

variable {k : String}

/-- The run whose `cancel` call returns with this step, in state `cancel_requested`. -/
def acknowledged (σ : Service) : Act → Option String
  | .cancel id =>
    if σ.lock.isNone ∧ σ.stateOf id = some RunState.cancelRequested.text then some id else none
  | .confirm _ =>
    match σ.lock with
    | some (.cancel id) => some id
    | _ => none
  | _ => none

def Flagged (σ : Service) (id : String) : Prop :=
  σ.stateOf id = some RunState.cancelRequested.text

theorem Flagged.stored (h : Flagged σ id) : ∃ run, σ.store.get id = .ok run ∧
    run.state = some RunState.cancelRequested.text := by
  rcases hget : σ.store.get id with e | run
  · rw [Flagged, stateOf, hget] at h
    cases h
  · exact ⟨run, rfl, (stateOf_of_get hget).symm.trans h⟩

theorem Flagged.isCancelled (h : Flagged σ id) : σ.isCancelled id = true := by
  obtain ⟨run, hrun, hstate⟩ := h.stored
  simp only [Service.isCancelled, hrun, hstate, decide_true, Bool.or_true]

/-! ### Writes and marks -/

/-- A step follows the mark of a run: it leaves it alone, or takes it down with an ending. -/
def Follows (σ σ' : Service) (id : String) : Prop :=
  (Flagged σ' id ↔ Flagged σ id) ∧ σ'.store.endings id = σ.store.endings id ∨
    ¬ Flagged σ' id ∧ (Flagged σ id → σ.store.endings id < σ'.store.endings id)

theorem Follows.refl (σ : Service) (id : String) : Follows σ σ id := .inl ⟨Iff.rfl, rfl⟩

theorem follows_of_get (hget : σ'.store.get id = σ.store.get id)
    (hend : σ'.store.endings id = σ.store.endings id) : Follows σ σ' id := by
  left
  refine ⟨?_, hend⟩
  rw [Flagged, Flagged, stateOf_congr hget]

theorem follows_of_store (h : σ'.store = σ.store) (id : String) : Follows σ σ' id :=
  follows_of_get (by rw [h]) (by rw [h])

section Written

variable {w : Write}

section

variable (hput : Store.Written σ.store σ'.store id run w)

include hput

theorem flagged_written :
    Flagged σ' id ↔ w.stateAfter run = some RunState.cancelRequested.text := by
  obtain ⟨run', hrun', hstate⟩ := hput.stored
  rw [Flagged, stateOf_of_get hrun', hstate]

/-- A write that leaves the state alone. -/
theorem follows_quiet
    (hrun : σ.store.get id = .ok run) (hw : w.Quiet) (k : String) : Follows σ σ' k := by
  by_cases hk : k = id
  · subst hk
    left
    constructor
    · rw [flagged_written hput, Write.stateAfter, hw.state, Flagged,
        stateOf_of_get hrun]
      rfl
    · rw [hput.endings, hw.ends]
      rfl
  · exact follows_of_get (hput.get_of_ne k hk) (hput.endings_of_ne k hk)

/-- The write that ends the run. -/
theorem follows_closes (hw : w.Closes) (k : String) : Follows σ σ' k := by
  by_cases hk : k = id
  · subst hk
    right
    refine ⟨fun hflag => ?_, fun _ => ?_⟩
    · obtain ⟨text, htext, hstate⟩ := hw.state
      rw [flagged_written hput, Write.stateAfter, hstate] at hflag
      obtain rfl : text = RunState.cancelRequested.text := Option.some.inj hflag
      exact absurd htext (by decide)
    · rw [hput.endings, hw.ends]
      exact Nat.lt_succ_self _
  · exact follows_of_get (hput.get_of_ne k hk) (hput.endings_of_ne k hk)

theorem runs_written (hw : w.Runs) :
    ¬ Flagged σ' id ∧ σ'.store.endings id = σ.store.endings id := by
  refine ⟨fun hflag => ?_, ?_⟩
  · rw [flagged_written hput, Write.stateAfter, hw.state] at hflag
    have hstate : RunState.running.text = RunState.cancelRequested.text := Option.some.inj hflag
    exact absurd hstate (by decide)
  · rw [hput.endings, hw.ends]
    rfl

theorem follows_runs (hw : w.Runs) (hflag : ¬ Flagged σ id) (k : String) : Follows σ σ' k := by
  by_cases hk : k = id
  · subst hk
    exact .inr ⟨(runs_written hput hw).1, fun h => absurd h hflag⟩
  · exact follows_of_get (hput.get_of_ne k hk) (hput.endings_of_ne k hk)

end

end Written

theorem follows_created (hrec : σ.store.Recorded) {kind key digest hex : String}
    {config now later : Json} {run : Snapshot} {fresh : Bool}
    (hreplay : σ.store.replay key digest = .ok none)
    (hcreate : σ.store.create kind config key digest hex now later = .ok ((run, fresh), σ'.store))
    (k : String) : Follows σ σ' k := by
  obtain ⟨-, -, hnew, hother⟩ := created_open hrec hreplay hcreate
  by_cases hk : k = Store.freshId hex
  · subst hk
    obtain ⟨hget, hqueued⟩ := created_state hrec hreplay hcreate
    have hunmarked : ¬ Flagged σ' (Store.freshId hex) := by
      rw [Flagged, stateOf_of_get hget, hqueued]
      decide
    refine .inr ⟨hunmarked, fun hflag => ?_⟩
    obtain ⟨run', hrun', -⟩ := hflag.stored
    exact absurd hrun' (hnew run')
  · exact follows_of_get (hother k hk).1 (hother k hk).2

/-! ### The executors -/

theorem Sound.follows_exec (h : Sound σ) (d : String) (w : Work) (k : String) :
    Follows σ (σ.exec d w) k := by
  rcases exec_cases σ d w with heq | ⟨dep, job, eff, hdep, hexec, -, heq⟩
  · rw [heq]
    exact .refl σ k
  · rw [heq]
    rcases Deployment.exec_cases hexec with ⟨queue, -, -, rfl⟩ | ⟨p, hrunning, hexecute⟩
    · exact follows_of_store rfl k
    · have hexecuted := Deployment.executed hexecute
      rcases hwrite : eff.write with - | w'
      · apply follows_of_store
        rw [Service.applied, hwrite]
      · obtain ⟨hdue, hkind⟩ := hexecuted.write_cases hwrite
        obtain ⟨run, hrun, -, hput⟩ := h.store_applied hdep hrunning hdue w'
        have hstore : (σ.applied d job eff).store = σ.store.put job.runId w' := by
          rw [Service.applied, hwrite]
        rw [← hstore] at hput
        rcases hkind with (hquiet | hruns) | hcloses
        · exact follows_quiet hput hrun hquiet k
        · -- under the lock the run is as it was read, and that was not marked
          obtain ⟨found, hp, hne⟩ := hexecuted.found_of_runs hwrite hruns
          have hfound := (h.entered d dep job found hdep (hp ▸ hrunning)).2
          apply follows_runs hput hruns
          rwa [Flagged, stateOf_of_get hfound]
        · exact follows_closes hput hcloses k

/-! ### All steps -/

/-- An acknowledged cancellation is in the store, and ends nothing. -/
theorem Sound.acknowledged_step (h : Sound σ) {i : Act} (hack : σ.acknowledged i = some id) :
    Flagged (σ.step i) id ∧ (σ.step i).store.endings id = σ.store.endings id := by
  rcases i with req | id' | now | ⟨d, w⟩ | -
  · cases hack
  · rw [acknowledged] at hack
    split_ifs at hack with hflag
    obtain rfl := Option.some.inj hack
    obtain ⟨hnone, hflag⟩ := hflag
    have hsome : σ.lock.isSome = false := by
      rw [Option.isNone_iff_eq_none.mp hnone]
      rfl
    simp only [Service.step, hsome]
    rcases cancel_cases σ id' with heq | ⟨run, hrun, -, hne, -⟩
    · rw [heq]
      exact ⟨hflag, rfl⟩
    · exact absurd ((stateOf_of_get hrun).symm.trans hflag) hne
  · have hlock : σ.lock = some (.cancel id) := by
      rw [acknowledged] at hack
      split at hack
      · rename_i hlock
        rw [hlock, Option.some.inj hack]
      · cases hack
    obtain ⟨run, hrun⟩ := h.cancelled id hlock
    have hput := h.recorded.put hrun (cancelWrite now)
    rw [Service.step, Service.confirm, hlock]
    refine ⟨(flagged_written hput).mpr rfl, ?_⟩
    show (σ.store.put id (cancelWrite now)).endings id = _
    rw [hput.endings]
    rfl
  · cases hack
  · cases hack

/-- **Every other step follows the marks.** -/
theorem Sound.follows_step (h : Sound σ) {i : Act} (hack : σ.acknowledged i ≠ some k) :
    Follows σ (σ.step i) k := by
  have hstep := σ.stepped i
  generalize σ.step i = σ' at hstep ⊢
  cases hstep with
  | idle => exact .refl σ k
  | accepts _ _ hreplay _ hcreate => exact follows_created h.recorded hreplay hcreate k
  | marks | closes =>
    apply follows_of_store
    rfl
  | @confirms id now hlock =>
    have hk : k ≠ id := by
      rintro rfl
      exact hack (by rw [acknowledged, hlock])
    obtain ⟨run, hrun⟩ := h.cancelled id hlock
    have hput := h.recorded.put hrun (cancelWrite now)
    exact follows_of_get (hput.get_of_ne k hk) (hput.endings_of_ne k hk)
  | works d w => exact h.follows_exec d w k

theorem Follows.held (h : Follows σ σ' k) (hflag : Flagged σ k) :
    Flagged σ' k ∧ σ'.store.endings k = σ.store.endings k ∨
      σ.store.endings k < σ'.store.endings k := by
  rcases h with ⟨hiff, hend⟩ | ⟨-, hlt⟩
  · exact .inl ⟨hiff.mpr hflag, hend⟩
  · exact .inr (hlt hflag)

theorem Follows.cause (h : Follows σ σ' k) (hflag : Flagged σ' k) :
    Flagged σ k ∧ σ'.store.endings k = σ.store.endings k := by
  rcases h with ⟨hiff, hend⟩ | ⟨hnot, -⟩
  · exact ⟨hiff.mp hflag, hend⟩
  · exact absurd hflag hnot

theorem Sound.held_step (h : Sound σ) (i : Act) (hflag : Flagged σ k) :
    Flagged (σ.step i) k ∧ (σ.step i).store.endings k = σ.store.endings k ∨
      σ.store.endings k < (σ.step i).store.endings k := by
  by_cases hack : σ.acknowledged i = some k
  · exact .inl (h.acknowledged_step hack)
  · exact (h.follows_step hack).held hflag

theorem Sound.cause_step (h : Sound σ) (i : Act) (hflag : Flagged (σ.step i) k) :
    Flagged σ k ∧ (σ.step i).store.endings k = σ.store.endings k ∨
      σ.acknowledged i = some k := by
  by_cases hack : σ.acknowledged i = some k
  · exact .inr hack
  · exact .inl ((h.follows_step hack).cause hflag)

/-- The marks of runs and what the steps of a service do to them. -/
theorem flags_service (configs : OrderedDict String Provider) (maxPending : Nat) :
    Flags (serviceMachine configs maxPending) Flagged (fun σ id => σ.store.endings id) acknowledged
      fun _ _ => True := by
  have hsound : ∀ σ, (serviceMachine configs maxPending).Reachable σ → Sound σ := by
    rintro _ ⟨is, rfl⟩
    exact (consistent_run configs maxPending is).toSound
  refine ⟨fun id hflag => ?_, fun σ i id hσ hack => ((hsound σ hσ).acknowledged_step hack).1,
    fun σ i id hσ _ hflag => ?_, fun σ i _ hnot => absurd trivial hnot, fun σ i id hσ hflag => ?_,
    fun σ i id hσ => (hsound σ hσ).endings_le i id⟩
  · obtain ⟨run, hrun, -⟩ := hflag.stored
    cases hrun
  · exact (hsound σ hσ).held_step i hflag
  · exact (hsound σ hσ).cause_step i hflag

end Service

end Hqsb.Console
