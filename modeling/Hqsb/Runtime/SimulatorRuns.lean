/-
Hqsb/Runtime/SimulatorRuns.lean

What one iteration of the scheduler simulator can do to one run.

A cancel ends a run wherever it stands and drops its positions.  Everything else is an
`Act`: admission, preemption, a chunk inside the prompt, the chunk that completes the
prompt together with the first token, a decode, the completion.  A run that is done has
no act, so

    iteration  =  at most one cancel, then acts

and what every act and the cancel keep holds after any number of iterations.  Two
such facts carry the rest: `Sound` (where the positions of a run stand) and
`Act.booked_add` (the schedule of a run accounts for its positions).
-/
import Hqsb.Runtime.SchedulerSimulator

namespace Hqsb

namespace RequestRun

open Relation (ReflTransGen)

variable {iteration : Nat} {run run' : RequestRun}

/-- What an iteration does to a run that it does not cancel. -/
inductive Act (iteration : Nat) : RequestRun → RequestRun → Prop
  | enter {run : RequestRun} (hstate : run.state = .waiting)
      (hsubmit : run.spec.submitIteration ≤ iteration) : Act iteration run (run.admitted iteration)
  | preempt {run : RequestRun} (hstate : run.state = .running) : Act iteration run run.preempted
  | chunk {run : RequestRun} (amount : Nat) (hstate : run.state = .running)
      (hinside : run.computed + amount < run.spec.promptTokens) :
      Act iteration run (run.chunk iteration amount)
  | lastChunk {run : RequestRun} (amount : Nat) (hstate : run.state = .running)
      (hstart : run.computed < run.spec.promptTokens)
      (hlast : run.computed + amount = run.spec.promptTokens) :
      Act iteration run ((run.chunk iteration amount).firstToken iteration)
  | decode {run : RequestRun} (hstate : run.state = .running)
      (hprefilled : run.spec.promptTokens ≤ run.computed)
      (hleft : run.outputTokens < run.spec.maxNewTokens) : Act iteration run (run.decode iteration)
  | finish {run : RequestRun} (hstate : run.state = .running)
      (hprefilled : run.spec.promptTokens ≤ run.computed)
      (hend : run.spec.maxNewTokens ≤ run.outputTokens) : Act iteration run (run.finish iteration)

theorem Act.spec_eq (h : Act iteration run run') : run'.spec = run.spec := by
  cases h <;> rfl

/-! ### Runs that are done -/

theorem done_iff : run.done = true ↔ run.state = .finished ∨ run.state = .cancelled := by
  rw [done, decide_eq_true_iff]

theorem not_done_iff : ¬ run.done = true ↔ run.state = .waiting ∨ run.state = .running := by
  rw [done_iff]
  cases run.state <;> simp

theorem prefilled_iff : run.prefilled = true ↔ run.spec.promptTokens ≤ run.computed := by
  rw [prefilled, decide_eq_true_iff]

theorem Act.not_done (h : Act iteration run run') : ¬ run.done = true := by
  rw [not_done_iff]
  cases h with
  | enter hstate _ => exact .inl hstate
  | preempt hstate | chunk _ hstate _ | lastChunk _ hstate _ _ | decode hstate _ _
  | finish hstate _ _ => exact .inr hstate

theorem acts_of_done (h : ReflTransGen (Act iteration) run run') (hdone : run.done = true) :
    run' = run := by
  rcases h.cases_head with rfl | ⟨_, hact, _⟩
  · rfl
  · exact absurd hdone hact.not_done

theorem acts_of_waiting (h : ReflTransGen (Act iteration) run run') (hstate : run.state = .waiting) :
    run' = run ∨ run.spec.submitIteration ≤ iteration := by
  rcases h.cases_head with rfl | ⟨_, hact, _⟩
  · exact .inl rfl
  · cases hact with
    | enter _ hsubmit => exact .inr hsubmit
    | preempt hrunning | chunk _ hrunning _ | lastChunk _ hrunning _ _ | decode hrunning _ _
    | finish hrunning _ _ => cases hstate.symm.trans hrunning

theorem acts_spec (h : ReflTransGen (Act iteration) run run') : run'.spec = run.spec := by
  induction h with
  | refl => rfl
  | tail _ hact ih => exact hact.spec_eq.trans ih

theorem Act.cancelled_eq (h : Act iteration run run') : run'.cancelled = run.cancelled := by
  cases h <;> rfl

theorem acts_cancelled (h : ReflTransGen (Act iteration) run run') :
    run'.cancelled = run.cancelled := by
  induction h with
  | refl => rfl
  | tail _ hact ih => exact hact.cancelled_eq.trans ih

/-! ### Positions -/

/-- Where the positions of a run stand: inside the prompt before the first token, at
prompt plus output from it on, at zero while it waits and once it is cancelled. -/
structure Sound (run : RequestRun) : Prop where
  waiting : run.state = .waiting → run.computed = 0 ∧ run.outputTokens = 0
  cancelled_iff : run.cancelled = true ↔ run.state = .cancelled
  dropped : run.cancelled = true → run.computed = 0
  positions : run.cancelled = false →
    (run.outputTokens = 0 ∧ run.computed < run.spec.promptTokens ∧
      run.firstTokenIteration = -1) ∨
    (0 < run.outputTokens ∧ run.computed = run.spec.promptTokens + run.outputTokens)
  output_le : run.outputTokens ≤ run.spec.maxNewTokens
  finished : run.state = .finished → run.outputTokens = run.spec.maxNewTokens

def Unfinished (run : RequestRun) : Prop :=
  run.state = .running → run.outputTokens < run.spec.maxNewTokens

theorem sound_start (spec : SimRequest) : Sound { spec := spec } where
  waiting := fun _ => ⟨rfl, rfl⟩
  cancelled_iff := ⟨nofun, nofun⟩
  dropped := nofun
  positions := fun _ => .inl ⟨rfl, spec.promptTokens_pos, rfl⟩
  output_le := Nat.zero_le _
  finished := nofun

theorem unfinished_start (spec : SimRequest) : Unfinished { spec := spec } := nofun

theorem Sound.not_cancelled (h : Sound run) (hstate : run.state ≠ .cancelled) :
    run.cancelled = false := by
  rw [← Bool.not_eq_true, h.cancelled_iff]
  exact hstate

theorem Sound.cancel (h : Sound run) (iteration : Nat) : Sound (run.cancel iteration) where
  waiting := nofun
  cancelled_iff := ⟨fun _ => rfl, fun _ => rfl⟩
  dropped := fun _ => rfl
  positions := nofun
  output_le := h.output_le
  finished := nofun

theorem sound_of_running (hstate : run.state = .running) (hflag : run.cancelled = false)
    (hpos : (run.outputTokens = 0 ∧ run.computed < run.spec.promptTokens ∧
        run.firstTokenIteration = -1) ∨
      (0 < run.outputTokens ∧ run.computed = run.spec.promptTokens + run.outputTokens))
    (hle : run.outputTokens ≤ run.spec.maxNewTokens) : Sound run where
  waiting := fun h => by cases hstate.symm.trans h
  cancelled_iff := by
    rw [hflag, hstate]
    exact ⟨by decide, by decide⟩
  dropped := fun h => by cases hflag.symm.trans h
  positions := fun _ => hpos
  output_le := hle
  finished := fun h => by cases hstate.symm.trans h

theorem Sound.admitted (h : Sound run) (hstate : run.state = .waiting) (iteration : Nat) :
    Sound (run.admitted iteration) := by
  have hflag := h.not_cancelled (hstate ▸ nofun)
  exact sound_of_running rfl hflag (h.positions hflag) h.output_le

theorem Sound.act (h : Sound run) (hact : Act iteration run run') : Sound run' := by
  cases hact with
  | enter hstate _ => exact h.admitted hstate iteration
  | preempt hstate =>
    have hflag := h.not_cancelled (hstate ▸ nofun)
    refine ⟨fun _ => ⟨rfl, rfl⟩, ⟨fun hc => ?_, nofun⟩, fun _ => rfl, fun _ => ?_,
      Nat.zero_le _, nofun⟩
    · cases hflag.symm.trans hc
    · exact .inl ⟨rfl, run.spec.promptTokens_pos, rfl⟩
  | chunk amount hstate hinside =>
    have hflag := h.not_cancelled (hstate ▸ nofun)
    refine sound_of_running hstate hflag ?_ h.output_le
    rcases h.positions hflag with ⟨hout, -, hfirst⟩ | ⟨hout, hpos⟩
    · exact .inl ⟨hout, hinside, hfirst⟩
    · omega
  | lastChunk amount hstate hstart hlast =>
    have hflag := h.not_cancelled (hstate ▸ nofun)
    refine sound_of_running hstate hflag (.inr ⟨Nat.one_pos, ?_⟩) run.spec.maxNewTokens_pos
    show run.computed + amount + 1 = run.spec.promptTokens + 1
    rw [hlast]
  | decode hstate hprefilled hleft =>
    have hflag := h.not_cancelled (hstate ▸ nofun)
    refine sound_of_running hstate hflag (.inr ⟨Nat.succ_pos _, ?_⟩) hleft
    show run.computed + 1 = run.spec.promptTokens + (run.outputTokens + 1)
    rcases h.positions hflag with ⟨-, hlt, -⟩ | ⟨-, hpos⟩
    · omega
    · rw [hpos, add_assoc]
  | finish hstate hprefilled hend =>
    have hflag := h.not_cancelled (hstate ▸ nofun)
    refine ⟨nofun, ⟨fun hc => ?_, nofun⟩, fun hc => ?_, fun _ => h.positions hflag, h.output_le,
      fun _ => le_antisymm h.output_le hend⟩
    · cases hflag.symm.trans hc
    · cases hflag.symm.trans hc

theorem Sound.acts (h : Sound run) (hacts : ReflTransGen (Act iteration) run run') :
    Sound run' := by
  induction hacts with
  | refl => exact h
  | tail _ hact ih => exact ih.act hact

theorem Sound.unfinished_of_waiting (h : Sound run) (hstate : run.state = .waiting) :
    run.outputTokens < run.spec.maxNewTokens := by
  rw [(h.waiting hstate).2]
  exact run.spec.maxNewTokens_pos

theorem Sound.inside_prompt (h : Sound run) (hstate : run.state = .running)
    (hlt : run.computed < run.spec.promptTokens) : run.firstTokenIteration = -1 := by
  have hf := h.not_cancelled (hstate ▸ nofun)
  rcases h.positions hf with ⟨-, -, hfirst⟩ | ⟨-, hpos⟩
  · exact hfirst
  · omega

/-! ### The schedule of a run -/

/-- The positions that were handed to a run. -/
def booked (run : RequestRun) : Nat := (run.schedule.map Prod.snd).sum

theorem booked_append (run : RequestRun) (iteration amount : Nat) :
    ((run.schedule ++ [(iteration, amount)]).map Prod.snd).sum = run.booked + amount := by
  rw [List.map_append, List.sum_append]
  rfl

/-- An act books exactly the positions that it adds; a preemption moves positions from
`computed` to `recomputedPositions`. -/
theorem Act.booked_add (hact : Act iteration run run') :
    run'.booked + (run.computed + run.recomputedPositions) =
      run.booked + (run'.computed + run'.recomputedPositions) := by
  cases hact with
  | enter | finish => rfl
  | preempt =>
    show run.booked + _ = run.booked + (0 + (run.recomputedPositions + run.computed))
    omega
  | chunk amount =>
    have hbook : (run.chunk iteration amount).booked = run.booked + amount :=
      booked_append run iteration amount
    show (run.chunk iteration amount).booked + _ =
      run.booked + (run.computed + amount + run.recomputedPositions)
    omega
  | lastChunk amount =>
    have hbook : ((run.chunk iteration amount).firstToken iteration).booked =
        (run.chunk iteration amount).booked + 1 := booked_append _ iteration 1
    have hchunk : (run.chunk iteration amount).booked = run.booked + amount :=
      booked_append run iteration amount
    show ((run.chunk iteration amount).firstToken iteration).booked + _ =
      run.booked + (run.computed + amount + 1 + run.recomputedPositions)
    omega
  | decode =>
    have hbook : (run.decode iteration).booked = run.booked + 1 := booked_append run iteration 1
    show (run.decode iteration).booked + _ =
      run.booked + (run.computed + 1 + run.recomputedPositions)
    omega

theorem acts_booked_add (hacts : ReflTransGen (Act iteration) run run') :
    run'.booked + (run.computed + run.recomputedPositions) =
      run.booked + (run'.computed + run'.recomputedPositions) := by
  induction hacts with
  | refl => rfl
  | tail _ hact ih =>
    have hadd := hact.booked_add
    omega

/-! ### One iteration of one run -/

/-- One iteration: a cancel that is due ends the run, everything else is acts. -/
inductive Moves (iteration : Nat) : RequestRun → RequestRun → Prop
  | cancel {run : RequestRun} (hdue : run.cancelDue iteration = true)
      (hdone : ¬ run.done = true) : Moves iteration run (run.cancel iteration)
  | acts {run run' : RequestRun} (hacts : ReflTransGen (Act iteration) run run') :
      Moves iteration run run'

theorem Moves.spec_eq (h : Moves iteration run run') : run'.spec = run.spec := by
  cases h with
  | cancel => rfl
  | acts hacts => exact acts_spec hacts

theorem Moves.eq_of_done (h : Moves iteration run run') (hdone : run.done = true) : run' = run := by
  cases h with
  | cancel _ hnot => exact absurd hdone hnot
  | acts hacts => exact acts_of_done hacts hdone

end RequestRun

end Hqsb
