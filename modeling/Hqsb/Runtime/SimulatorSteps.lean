/-
Hqsb/Runtime/SimulatorSteps.lean

One iteration of the scheduler simulator as a whole, and the runs of iterations.

`participants_joined` describes the state that scheduling starts from, `stepped` the
iteration: the phases are put together once, and `Stepped` is all that the results
about budgets, positions and progress use.  The ledger balances by the totals of the
phases, so the refusal at the end of `step` is unreachable for every spec.

`after n` is the simulator after `n` iterations; the replay of `run` is one of these.
-/
import Hqsb.Runtime.SimulatorScheduling

namespace Hqsb

open Lib List
open Relation (ReflTransGen)

namespace SchedulerSimulator

variable {spec : SchedulerSpec} {iteration : Nat} {batch : List String}

/-! ### Valid runs -/

/-- What holds of the runs between iterations. -/
def Valid (runs : Runs) : Prop := ∀ k run, runs.get? k = some run → run.Sound ∧ run.Unfinished

variable {run : RequestRun} {runs : Runs} {a : Admission} {sim sim' : SchedulerSimulator}
  {s : Schedule} {entry : IterationLedgerEntry} {n : Nat}

theorem Valid.set (h : Valid runs) (hsound : run.Sound) (hleft : run.Unfinished) (k : String) :
    Valid (runs.set k run) := by
  intro j run' hrun'
  rw [OrderedDict.get?_set] at hrun'
  split_ifs at hrun' with hj
  · cases hrun'
    exact ⟨hsound, hleft⟩
  · exact h j run' hrun'

theorem run_of_start {trace : RequestTrace} {k : String} (h : trace.runs.get? k = some run) :
    ∃ request ∈ trace.requests, request.requestId = k ∧ run = { spec := request } := by
  obtain ⟨request, hmem, he⟩ := mem_map.mp ((OrderedDict.get?_eq_some_iff _).mp h)
  obtain ⟨hid, hrun⟩ := Prod.mk.inj he
  exact ⟨request, hmem, hid, hrun.symm⟩

theorem valid_start (trace : RequestTrace) : Valid trace.runs := by
  intro k run hrun
  obtain ⟨request, -, -, rfl⟩ := run_of_start hrun
  exact ⟨RequestRun.sound_start request, RequestRun.unfinished_start request⟩

theorem Valid.observed (h : Valid runs) (ho : Observed iteration runs a) : Valid a.runs := by
  intro k run hrun
  obtain ⟨old, hold, hspared⟩ := ho.spared.of_get? hrun
  obtain ⟨hsound, hleft⟩ := h k old hold
  rcases hspared with rfl | ⟨-, -, rfl⟩
  · exact ⟨hsound, hleft⟩
  · exact ⟨hsound.cancel iteration, nofun⟩

/-- A run is admitted with all its tokens left, and preempted into waiting. -/
theorem Valid.move {b : Admission} (h : Valid a.runs) (hl : Lists a.runs .running a.running)
    (hmove : Admission.Move spec iteration batch a b) :
    Valid b.runs := by
  have hentered : ∀ {k : String} {run : RequestRun}, a.runs.get? k = some run →
      run.state = .waiting → Valid (a.admitRun iteration k run).runs := by
    intro k run hrun hstate
    have hsound := (h k run hrun).1
    exact h.set (hsound.admitted hstate iteration) (fun _ => hsound.unfinished_of_waiting hstate) k
  cases hmove with
  | enter hrun hstate _ _ _ => exact hentered hrun hstate
  | @preempt victim hmem =>
    obtain ⟨run, hrun, hstate⟩ := (hl.mem_iff victim).mp hmem
    rw [Admission.preempt_eq hrun]
    have hact : RequestRun.Act iteration run run.preempted := .preempt hstate
    exact h.set ((h victim run hrun).1.act hact) nofun victim
  | joinBatch _ _ hrun hdone _ hnew =>
    refine hentered hrun ((RequestRun.not_done_iff.mp hdone).resolve_right fun hstate => ?_)
    exact hnew ((hl.mem_iff _).mpr ⟨_, hrun, hstate⟩)

theorem Valid.moves {b : Admission} (h : Valid a.runs) (hl : Lists a.runs .running a.running)
    (hmoves : ReflTransGen (Admission.Move spec iteration batch) a b) : Valid b.runs := by
  induction hmoves with
  | refl => exact h
  | tail hrest hmove ih => exact ih.move (admitted_of_moves hrest hl).running hmove

/-! ### The participants -/

/-- A run between the last iteration and its place among the participants. -/
def Joining (iteration : Nat) (run run' : RequestRun) : Prop :=
  ∃ mid, Spared iteration run mid ∧ Entering iteration mid run'

theorem Joining.computed_le {run' : RequestRun} (h : Joining iteration run run') :
    run'.computed ≤ run.computed := by
  obtain ⟨mid, hspared, -, hle, -⟩ := h
  rcases hspared with rfl | ⟨-, -, rfl⟩
  · exact hle
  · exact hle.trans (Nat.zero_le _)

/-- The state that scheduling starts from. -/
structure Joined (sim : SchedulerSimulator) (a : Admission) : Prop where
  joining : OrderedDict.Pointwise (Joining sim.iteration) sim.runs a.runs
  settled : ∀ k run, a.runs.get? k = some run →
    run.done = true ∨ run.cancelDue sim.iteration = false
  valid : Valid a.runs
  total : totalComputed a.runs + a.rollback = totalComputed sim.runs
  nodup : a.running.Nodup
  mem_iff : ∀ k, k ∈ a.running ↔ (∃ run, a.runs.get? k = some run ∧ run.state = .running) ∧
    (sim.spec.mode = .static → k ∈ sim.staticBatch)

theorem participants_joined (h : Valid sim.runs) : Joined sim sim.participants := by
  have ho := observeCancels_observed sim
  obtain ⟨b, hmoves, hparticipants⟩ := participants_moves sim
  have hb := admitted_of_moves hmoves ho.running
  have hvalid : Valid b.runs := (h.observed ho).moves ho.running hmoves
  rw [hparticipants]
  refine ⟨?_, ?_, hvalid, hb.total.trans ho.total, ?_, ?_⟩
  · exact ho.spared.trans hb.entering fun _ v _ hspared hentering => ⟨v, hspared, hentering⟩
  · intro k run hrun
    obtain ⟨mid, hmid, hacts, -⟩ := hb.entering.of_get? hrun
    rcases observeCancels_settled sim hmid with hdone | hdue
    · exact .inl (RequestRun.acts_of_done hacts hdone ▸ hdone)
    · refine .inr ?_
      rwa [RequestRun.cancelDue, RequestRun.acts_spec hacts]
  · show (if sim.spec.mode = .static then _ else b.running).Nodup
    split_ifs
    · exact hb.running.nodup.filter _
    · exact hb.running.nodup
  · intro k
    show k ∈ (if sim.spec.mode = .static then _ else b.running) ↔ _
    rw [← hb.running.mem_iff]
    split_ifs with hstatic
    · rw [mem_filter, decide_eq_true_iff]
      exact and_congr_right fun _ => ⟨fun hk _ => hk, fun hk => hk hstatic⟩
    · exact ⟨fun hk => ⟨hk, fun hmode => absurd hmode hstatic⟩, fun hk => hk.1⟩

/-! ### One iteration -/

def schedule (sim : SchedulerSimulator) : Except SimError Schedule :=
  Schedule.entries sim.spec sim.iteration
    (order sim.spec sim.participants.runs sim.participants.running)
    { runs := sim.participants.runs, budget := sim.spec.maxBatchedTokens }

/-- What the participants leave of the budget. -/
def remainder (sim : SchedulerSimulator) : Int :=
  leftOver sim.spec sim.participants.runs
    (order sim.spec sim.participants.runs sim.participants.running) sim.spec.maxBatchedTokens

def completion (sim : SchedulerSimulator) (s : Schedule) : Completion :=
  sim.participants.running.foldl (Completion.complete sim.iteration)
    { runs := s.runs, running := sim.participants.running }

theorem mem_order {running : List String} {k : String} :
    k ∈ order spec runs running ↔ k ∈ running :=
  (perm_insertionSort _ running).mem_iff

theorem nodup_order {running : List String} (h : running.Nodup) : (order spec runs running).Nodup :=
  (perm_insertionSort _ running).nodup_iff.mpr h

section

variable (h : Valid sim.runs) (hs : sim.schedule = .ok s)

include h hs

theorem schedule_passed :
    s.Passed sim.iteration sim.participants.runs sim.spec.maxBatchedTokens
        (order sim.spec sim.participants.runs sim.participants.running) ∧
      s.budget = sim.remainder := by
  have hj := participants_joined h
  refine entries_passed _ ⟨?_, fun _ _ => rfl, ?_, rfl, (sub_zero _).symm⟩ (nodup_order hj.nodup)
    (fun _ _ => not_mem_nil) ?_ hs
  · exact OrderedDict.Pointwise.refl Scheduled.refl _
  · exact fun k hk => absurd hk not_mem_nil
  · intro k hk
    obtain ⟨run, hrun, -⟩ := ((hj.mem_iff k).mp (mem_order.mp hk)).1
    exact ⟨run, hrun, hj.valid k run hrun⟩

theorem completion_completed :
    Completed sim.iteration sim.participants.running
      { runs := s.runs, running := sim.participants.running } (sim.completion s) := by
  have hj := participants_joined h
  have hp := (schedule_passed h hs).1
  refine foldl_complete_completed _ _ hj.nodup fun k hk => ?_
  obtain ⟨run, hrun, hstate⟩ := ((hj.mem_iff k).mp hk).1
  obtain ⟨run', hrun', hacts, hsame⟩ := hp.scheduledRuns.related k run hrun
  exact ⟨run', hrun', (hj.valid k run hrun).1.acts hacts, hsame.trans hstate⟩

/-- **The ledger balances**, whatever was cancelled, preempted and scheduled. -/
theorem ledger_balanced :
    (sim.ledgerEntry sim.participants s (sim.completion s)).conservationResidual = 0 := by
  have hjoined := (participants_joined h).total
  have hpassed := (schedule_passed h hs).1.total
  have hcompleted : totalComputed (sim.completion s).runs = totalComputed s.runs :=
    (completion_completed h hs).total
  show (totalComputed sim.runs : Int) + s.handed - sim.participants.rollback -
    totalComputed (sim.completion s).runs = 0
  omega

theorem step_of_ok :
    sim.step = .ok (sim.ledgerEntry sim.participants s (sim.completion s), { sim with
      runs := (sim.completion s).runs
      iterations := sim.iterations ++ [sim.ledgerEntry sim.participants s (sim.completion s)]
      paddingSlots := sim.paddingSlots + sim.idleSlots
      kvPeakBlocks := max sim.kvPeakBlocks
        (sim.ledgerEntry sim.participants s (sim.completion s)).kvUsedBlocks
      iteration := sim.iteration + 1 }) := by
  have hbalanced := ledger_balanced h hs
  rw [schedule] at hs
  rw [step, hs]
  exact if_neg (not_not.mpr hbalanced)

end

theorem step_of_error {error : SimError} (hs : sim.schedule = .error error) :
    sim.step = .error error := by
  rw [schedule] at hs
  rw [step, hs]

/-- A run between its place among the participants and the end of the iteration. -/
def Proceeding (iteration : Nat) (run run' : RequestRun) : Prop :=
  ReflTransGen (RequestRun.Act iteration) run run' ∧
    (run'.state = run.state ∨ run'.state = .finished)

/-- What an iteration did. -/
structure Stepped (sim : SchedulerSimulator) (entry : IterationLedgerEntry)
    (sim' : SchedulerSimulator) : Prop where
  spec : sim'.spec = sim.spec
  staticBatch : sim'.staticBatch = sim.staticBatch
  iteration : sim'.iteration = sim.iteration + 1
  iterations : sim'.iterations = sim.iterations ++ [entry]
  proceeding : OrderedDict.Pointwise (Proceeding sim.iteration) sim.participants.runs sim'.runs
  untouched : ∀ k, k ∉ sim.participants.running →
    sim'.runs.get? k = sim.participants.runs.get? k
  valid : Valid sim'.runs
  total : totalComputed sim'.runs = totalComputed sim.participants.runs + entry.scheduledTotal
  residual : entry.conservationResidual = 0
  scheduledTotal : (entry.scheduledTotal : Int) = sim.spec.maxBatchedTokens - sim.remainder
  tokenBudget : entry.tokenBudget = sim.spec.maxBatchedTokens
  running : entry.running.Sublist sim.participants.running
  kvUsedBlocks : entry.kvUsedBlocks = blocksHeld sim.spec sim'.runs entry.running

theorem proceeding_of_scheduled {u v w : RequestRun} (h : Scheduled iteration u v)
    (h' : Ended iteration v w) : Proceeding iteration u w := by
  rcases h' with rfl | ⟨hact, rfl⟩
  · exact ⟨h.1, .inl h.2⟩
  · exact ⟨h.1.tail hact, .inr rfl⟩

/-- **One iteration.** -/
theorem stepped (h : Valid sim.runs) (hstep : sim.step = .ok (entry, sim')) :
    Stepped sim entry sim' := by
  rcases hs : sim.schedule with error | s
  · rw [step_of_error hs] at hstep
    cases hstep
  · have hbalanced := ledger_balanced h hs
    rw [step_of_ok h hs] at hstep
    obtain ⟨rfl, rfl⟩ := Prod.mk.inj (Except.ok.inj hstep)
    have hj := participants_joined h
    obtain ⟨hp, hremainder⟩ := schedule_passed h hs
    have hc := completion_completed h hs
    have hproceeding : OrderedDict.Pointwise (Proceeding sim.iteration) sim.participants.runs
        (sim.completion s).runs :=
      hp.scheduledRuns.trans hc.ended fun _ _ _ => proceeding_of_scheduled
    have huntouched : ∀ k, k ∉ sim.participants.running →
        (sim.completion s).runs.get? k = sim.participants.runs.get? k := by
      intro k hk
      exact (hc.untouched k hk).trans (hp.untouched k fun hmem => hk (mem_order.mp hmem))
    refine ⟨rfl, rfl, rfl, rfl, hproceeding, huntouched, ?_, ?_, hbalanced, ?_, rfl, hc.running, rfl⟩
    · intro k run hrun
      obtain ⟨old, hold, hacts, -⟩ := hproceeding.of_get? hrun
      refine ⟨(hj.valid k old hold).1.acts hacts, ?_⟩
      by_cases hk : k ∈ sim.participants.running
      · exact hc.unfinished k hk run hrun
      · rw [huntouched k hk] at hrun
        exact (hj.valid k run hrun).2
    · exact hc.total.trans hp.total
    · have hbudget := hp.budget
      show ((s.handed : Nat) : Int) = _
      omega

theorem Stepped.moves (h : Valid sim.runs) (hs : Stepped sim entry sim') :
    OrderedDict.Pointwise (RequestRun.Moves sim.iteration) sim.runs sim'.runs := by
  refine (participants_joined h).joining.trans hs.proceeding ?_
  rintro u v w ⟨mid, hspared, hacts, -⟩ ⟨hacts', -⟩
  have hall := hacts.trans hacts'
  rcases hspared with rfl | ⟨hdue, hdone, rfl⟩
  · exact .acts hall
  · rw [RequestRun.acts_of_done hall (RequestRun.done_iff.mpr (.inr rfl))]
    exact .cancel hdue hdone

theorem step_ok (h : Valid sim.runs) (hfull : sim.spec.admissionReserveFullIsl = true) :
    ∃ entry sim', sim.step = .ok (entry, sim') := by
  have hentries : ∃ s, sim.schedule = .ok s := entries_ok hfull _ _
  obtain ⟨s, hs⟩ := hentries
  exact ⟨_, _, step_of_ok h hs⟩

/-! ### Runs of iterations -/

/-- The simulator after `n` iterations. -/
def after : Nat → SchedulerSimulator → Except SimError SchedulerSimulator
  | 0, sim => .ok sim
  | n + 1, sim =>
    match after n sim with
    | .error error => .error error
    | .ok sim =>
      match sim.step with
      | .error error => .error error
      | .ok (_, sim) => .ok sim

theorem after_succ (h : after (n + 1) sim = .ok sim') :
    ∃ mid entry, after n sim = .ok mid ∧ mid.step = .ok (entry, sim') := by
  rw [after] at h
  rcases hmid : after n sim with error | mid
  · rw [hmid] at h
    cases h
  · rcases hstep : mid.step with error | ⟨entry, next⟩
    · simp only [hmid, hstep] at h
      cases h
    · simp only [hmid, hstep] at h
      cases h
      exact ⟨mid, entry, rfl, hstep⟩

theorem after_of_lt {m : Nat} (h : after n sim = .ok sim') (hm : m < n) :
    ∃ mid entry last, after m sim = .ok mid ∧ mid.step = .ok (entry, last) := by
  induction n generalizing sim' with
  | zero => exact absurd hm (Nat.not_lt_zero m)
  | succ n ih =>
    obtain ⟨mid, entry, hmid, hstep⟩ := after_succ h
    rcases Nat.lt_succ_iff_lt_or_eq.mp hm with hlt | rfl
    · exact ih hmid hlt
    · exact ⟨mid, entry, sim', hmid, hstep⟩

theorem after_succ_of_step {mid : SchedulerSimulator} (hmid : after n sim = .ok mid)
    (hstep : mid.step = .ok (entry, sim')) : after (n + 1) sim = .ok sim' := by
  simp only [after, hmid, hstep]

theorem after_of_step {mid : SchedulerSimulator} (hstep : sim.step = .ok (entry, mid)) (n : Nat) :
    after (n + 1) sim = after n mid := by
  induction n with
  | zero => simp only [after, hstep]
  | succ n ih => rw [after, ih, after]

theorem after_of_view {α : Type} {view : SchedulerSimulator → α} {seen : α}
    (h : (after n sim).toOption.map view = some seen) :
    ∃ last, after n sim = .ok last ∧ view last = seen := by
  rcases hafter : after n sim with error | last
  · rw [hafter] at h
    cases h
  · rw [hafter] at h
    exact ⟨last, rfl, Option.some.inj h⟩

/-- What holds of the simulator after `n` iterations of a trace. -/
structure Reached (spec : SchedulerSpec) (trace : RequestTrace) (n : Nat)
    (sim : SchedulerSimulator) : Prop where
  spec_eq : sim.spec = spec
  staticBatch : sim.staticBatch = (new spec trace).staticBatch
  iteration : sim.iteration = n
  valid : Valid sim.runs
  requests : OrderedDict.Pointwise (fun run run' => run'.spec = run.spec) trace.runs sim.runs

variable {trace : RequestTrace} {n : Nat} {sim sim' : SchedulerSimulator}

theorem reached (h : after n (new spec trace) = .ok sim) : Reached spec trace n sim := by
  induction n generalizing sim with
  | zero =>
    cases h
    exact ⟨rfl, rfl, rfl, valid_start trace, ⟨rfl, fun _ run hrun => ⟨run, hrun, rfl⟩⟩⟩
  | succ n ih =>
    obtain ⟨mid, entry, hmid, hstep⟩ := after_succ h
    have hr := ih hmid
    have hs := stepped hr.valid hstep
    refine ⟨hs.spec.trans hr.spec_eq, hs.staticBatch.trans hr.staticBatch, ?_, hs.valid, ?_⟩
    · rw [hs.iteration, hr.iteration]
    · refine hr.requests.trans (hs.moves hr.valid) fun u v w huv hmoves => ?_
      exact hmoves.spec_eq.trans huv

/-- Full reservations let a trace be replayed for any number of iterations. -/
theorem after_ok (hfull : spec.admissionReserveFullIsl = true) (trace : RequestTrace) (n : Nat) :
    ∃ sim, after n (new spec trace) = .ok sim := by
  induction n with
  | zero => exact ⟨_, rfl⟩
  | succ n ih =>
    obtain ⟨sim, hsim⟩ := ih
    have hr := reached hsim
    obtain ⟨entry, sim', hstep⟩ := step_ok hr.valid (hr.spec_eq ▸ hfull)
    exact ⟨sim', after_succ_of_step hsim hstep⟩

/-! ### The replay -/

/-- The replay stops after `n` iterations, or earlier once every run is done. -/
theorem replay_after {most most' : Nat} (h : replay n sim most = .ok (sim', most')) :
    ∃ k ≤ n, after k sim = .ok sim' ∧ (k = n ∨ allDone sim'.runs = true) := by
  induction n generalizing sim most with
  | zero =>
    obtain ⟨rfl, rfl⟩ := Prod.mk.inj (Except.ok.inj h)
    exact ⟨0, le_refl 0, rfl, .inl rfl⟩
  | succ n ih =>
    rcases hstep : sim.step with error | ⟨entry, mid⟩
    · rw [replay, hstep] at h
      cases h
    · simp only [replay, hstep] at h
      split_ifs at h with hdone
      · obtain ⟨rfl, -⟩ := Prod.mk.inj (Except.ok.inj h)
        exact ⟨1, by omega, by rw [after_of_step hstep, after], .inr hdone⟩
      · obtain ⟨k, hk, hafter, hend⟩ := ih h
        refine ⟨k + 1, by omega, ?_, hend.imp (by omega) id⟩
        rw [after_of_step hstep, hafter]

/-- A replay does not fail before one of its iterations does. -/
theorem replay_ok (h : after n sim = .ok sim') (most : Nat) :
    ∃ result, replay n sim most = .ok result := by
  induction n generalizing sim most with
  | zero => exact ⟨_, rfl⟩
  | succ n ih =>
    rcases hstep : sim.step with error | ⟨entry, mid⟩
    · have hfail : ∀ m, after (m + 1) sim = .error error := by
        intro m
        induction m with
        | zero => simp only [after, hstep]
        | succ m ih => rw [after, ih]
      rw [hfail n] at h
      cases h
    · rw [after_of_step hstep] at h
      simp only [replay, hstep]
      split_ifs
      · exact ⟨_, rfl⟩
      · exact ih h _

theorem run_after {result : SimulationResult} (h : sim.run n = .ok (result, sim')) :
    ∃ k ≤ n, after k sim = .ok sim' ∧ (k = n ∨ allDone sim'.runs = true) ∧
      result.iterations = sim'.iterations := by
  rw [run] at h
  split_ifs at h with hn
  rcases hreplay : replay n sim 0 with error | ⟨last, most⟩
  · rw [hreplay] at h
    cases h
  · rw [hreplay] at h
    obtain ⟨rfl, rfl⟩ := Prod.mk.inj (Except.ok.inj h)
    obtain ⟨k, hk, hafter, hend⟩ := replay_after hreplay
    exact ⟨k, hk, hafter, hend, rfl⟩

theorem run_ok (hn : n ≠ 0) (h : after n sim = .ok sim') :
    ∃ result last, sim.run n = .ok (result, last) := by
  obtain ⟨⟨last, most⟩, hreplay⟩ := replay_ok h 0
  rw [run, if_neg hn, hreplay]
  exact ⟨_, _, rfl⟩

/-! ### Without full reservations -/

/-- With only the computed positions reserved, an iteration that has a participant fails:
its first chunk leaves the reservation. -/
theorem participants_nil (hfull : sim.spec.admissionReserveFullIsl = false)
    (hvalid : Valid sim.runs) (hzero : totalComputed sim.runs = 0)
    (hstep : sim.step = .ok (entry, sim')) :
    sim.participants.running = [] := by
  have hj := participants_joined hvalid
  have hmem : ∀ k, k ∈ order sim.spec sim.participants.runs sim.participants.running ↔
      k ∈ sim.participants.running := fun _ => mem_order
  rcases horder : order sim.spec sim.participants.runs sim.participants.running with - | ⟨k, rest⟩
  · refine eq_nil_iff_forall_not_mem.mpr fun k hk => ?_
    rw [← hmem, horder] at hk
    cases hk
  · have hk : k ∈ sim.participants.running := by
      rw [← hmem, horder]
      exact .head _
    obtain ⟨run, hrun, hstate⟩ := ((hj.mem_iff k).mp hk).1
    have htotal := hj.total
    have hle : run.computed ≤ totalComputed sim.participants.runs := OrderedDict.le_sum _ hrun
    have hbudget : (0 : Int) < sim.spec.maxBatchedTokens :=
      Int.natCast_pos.mpr sim.spec.maxBatchedTokens_pos
    have hentry : Schedule.entry sim.spec sim.iteration
        { runs := sim.participants.runs, budget := sim.spec.maxBatchedTokens } k =
        .error (.overReserved k) := entry_error hfull hrun hstate (by omega) hbudget
    have hschedule : sim.schedule = .error (.overReserved k) := by
      rw [schedule, horder]
      rw [Schedule.entries, hentry]
    rw [step_of_error hschedule] at hstep
    cases hstep

/-- Nothing is ever computed with only the computed positions reserved. -/
theorem after_idle (hfull : spec.admissionReserveFullIsl = false)
    (h : after n (new spec trace) = .ok sim) : totalComputed sim.runs = 0 := by
  induction n generalizing sim with
  | zero =>
    cases h
    refine sum_eq_zero fun computed hmem => ?_
    obtain ⟨run, hvalue, rfl⟩ := mem_map.mp hmem
    obtain ⟨k, hrun⟩ := (OrderedDict.mem_values_iff _).mp hvalue
    obtain ⟨request, -, -, rfl⟩ := run_of_start hrun
    rfl
  | succ n ih =>
    obtain ⟨mid, entry, hmid, hstep⟩ := after_succ h
    have hr := reached hmid
    have hzero := ih hmid
    have hs := stepped hr.valid hstep
    have hnil := participants_nil (hr.spec_eq ▸ hfull) hr.valid hzero hstep
    have hjoined := (participants_joined hr.valid).total
    have htotal := hs.total
    have hscheduled := hs.scheduledTotal
    have hremainder : mid.remainder = mid.spec.maxBatchedTokens := by
      rw [remainder, hnil]
      rfl
    omega

end SchedulerSimulator

end Hqsb
