/-
Hqsb/Runtime/SimulatorBudgets.lean

The budgets of the scheduler simulator: batched tokens, sequences and KV blocks.

A position that a run is handed is computed, moved to `recomputedPositions` by a
preemption, or rolled back by a cancel; the last kind is recorded nowhere in the
run, so `rolledBack` reads it off the states between the iterations.  A cancelled
run keeps its output tokens but no position: this is the one place where
`computed` is not prompt plus output once a token exists.

The sequence budget always holds.  The two others can be overshot, each at one place:

* the first token of a request is booked after the allowance of its last chunk was cut to
  the budget, so a last chunk that takes all that is left overshoots by one (`spare`);
* the static batch joins past the capacity check (`batchFits`).

An iteration overshoots its token budget exactly if it is not `spare`: `leftOver` falls
below zero at the chunk in question and stays there.  Outside the static mode the block
bound is carried by the admission check, move by move.
-/
import Hqsb.Runtime.SimulatorSteps

namespace Hqsb

open Lib List

namespace SchedulerSimulator

variable {spec : SchedulerSpec} {trace : RequestTrace} {n : Nat} {sim sim' : SchedulerSimulator}

def cancelledIn (runs : Runs) (k : String) : Bool := (runs.get? k).any (·.cancelled)

/-- The positions that the cancel of a run rolled back within `n` iterations: what it
had computed before the iteration that cancelled it. -/
def rolledBack : Nat → SchedulerSimulator → String → Nat
  | 0, _, _ => 0
  | n + 1, sim, k =>
    match after n sim, after (n + 1) sim with
    | .ok mid, .ok last =>
      if cancelledIn last.runs k ∧ ¬ cancelledIn mid.runs k then
        rolledBack n sim k + computedOf mid.runs k
      else rolledBack n sim k
    | _, _ => rolledBack n sim k

variable {k : String} {run : RequestRun}

section

variable {mid last start : SchedulerSimulator} {run' : RequestRun} (hmid : after n start = .ok mid)
  (hlast : after (n + 1) start = .ok last) (hrun : mid.runs.get? k = some run)
  (hrun' : last.runs.get? k = some run')

include hmid hlast hrun hrun'

theorem rolledBack_succ : rolledBack (n + 1) start k =
      if run'.cancelled = true ∧ ¬ run.cancelled = true then rolledBack n start k + run.computed
      else rolledBack n start k := by
  simp only [rolledBack, hmid, hlast, cancelledIn, computedOf, hrun, hrun', Option.any_some,
    Option.map_some, Option.getD_some]

/-! ### The schedule accounts for every position -/

theorem booked_step
    (hmoves : RequestRun.Moves mid.iteration run run') (hsound : run.Sound)
    (h : run.booked = run.computed + run.recomputedPositions + rolledBack n start k) :
    run'.booked = run'.computed + run'.recomputedPositions + rolledBack (n + 1) start k := by
  rw [rolledBack_succ hmid hlast hrun hrun']
  cases hmoves with
  | cancel _ hdone =>
    -- the positions of the run move from `computed` to the roll-back
    have hflag : ¬ run.cancelled = true := fun hc =>
      hdone (RequestRun.done_iff.mpr (.inr (hsound.cancelled_iff.mp hc)))
    rw [if_pos ⟨rfl, hflag⟩]
    show run.booked = 0 + run.recomputedPositions + (rolledBack n start k + run.computed)
    omega
  | acts hacts =>
    have hflag := RequestRun.acts_cancelled hacts
    rw [if_neg (by rw [hflag]; exact fun hc => hc.2 hc.1)]
    have hadd := RequestRun.acts_booked_add hacts
    omega

end

theorem booked_after (h : after n (new spec trace) = .ok sim) (hrun : sim.runs.get? k = some run) :
    run.booked = run.computed + run.recomputedPositions + rolledBack n (new spec trace) k := by
  induction n generalizing sim run with
  | zero =>
    cases h
    obtain ⟨request, -, -, rfl⟩ := run_of_start hrun
    rfl
  | succ n ih =>
    obtain ⟨mid, entry, hmid, hstep⟩ := after_succ h
    have hvalid := (reached hmid).valid
    obtain ⟨old, hold, hmoves⟩ := ((stepped hvalid hstep).moves hvalid).of_get? hrun
    exact booked_step hmid h hold hrun hmoves (hvalid k old hold).1 (ih hmid hold)

/-! ### The ledger -/

/-- The ledger has the entries of the iterations that were made. -/
theorem mem_iterations_iff (h : after n (new spec trace) = .ok sim) {entry : IterationLedgerEntry} :
    entry ∈ sim.iterations ↔ ∃ m < n, ∃ mid last,
      after m (new spec trace) = .ok mid ∧ mid.step = .ok (entry, last) := by
  induction n generalizing sim with
  | zero =>
    cases h
    refine iff_of_false not_mem_nil ?_
    rintro ⟨m, hm, -⟩
    exact absurd hm (Nat.not_lt_zero m)
  | succ n ih =>
    obtain ⟨mid, last, hmid, hlast⟩ := after_succ h
    rw [(stepped (reached hmid).valid hlast).iterations, mem_append, mem_singleton,
      ih hmid]
    constructor
    · rintro (⟨m, hm, hstep⟩ | rfl)
      · exact ⟨m, by omega, hstep⟩
      · exact ⟨n, Nat.lt_succ_self n, mid, sim, hmid, hlast⟩
    · rintro ⟨m, hm, mid', last', hmid', hstep⟩
      rcases Nat.lt_succ_iff_lt_or_eq.mp hm with hlt | rfl
      · exact .inl ⟨m, hlt, mid', last', hmid', hstep⟩
      · cases hmid.symm.trans hmid'
        exact .inr (Prod.mk.inj (Except.ok.inj (hstep.symm.trans hlast))).1

/-! ### Conservation -/

theorem positions_of_sound (h : run.Sound) :
    (run.outputTokens = 0 → run.computed ≤ run.spec.promptTokens) ∧
    (0 < run.outputTokens →
      run.computed = if run.cancelled then 0 else run.spec.promptTokens + run.outputTokens) := by
  by_cases hflag : run.cancelled = true
  · rw [if_pos hflag, h.dropped hflag]
    exact ⟨fun _ => Nat.zero_le _, fun _ => rfl⟩
  · rw [if_neg hflag]
    rcases h.positions (Bool.not_eq_true _ ▸ hflag) with ⟨hout, hlt, -⟩ | ⟨hout, hpos⟩
    · exact ⟨fun _ => hlt.le, fun hsome => absurd hsome (hout ▸ Nat.lt_irrefl 0)⟩
    · exact ⟨fun hnone => absurd hout (hnone ▸ Nat.lt_irrefl 0), fun _ => hpos⟩

/-- **Conservation.**  With full reservations the replay never raises and its ledger
balances; a run stands inside its prompt until its first token and at prompt plus output
from then on, until a cancel drops its positions; and its schedule accounts for all of
them. -/
theorem simulator_conserves (spec : SchedulerSpec) (hfull : spec.admissionReserveFullIsl = true)
    (trace : RequestTrace) (n : Nat) :
    ∃ sim, after n (new spec trace) = .ok sim ∧
      (n ≠ 0 → ∃ result last, ∃ k ≤ n, (new spec trace).run n = .ok (result, last) ∧
        after k (new spec trace) = .ok last ∧ result.iterations = last.iterations) ∧
      (∀ entry ∈ sim.iterations, entry.conservationResidual = 0) ∧
      ∀ k run, sim.runs.get? k = some run →
        (run.outputTokens = 0 → run.computed ≤ run.spec.promptTokens) ∧
        (0 < run.outputTokens →
          run.computed = if run.cancelled then 0 else run.spec.promptTokens + run.outputTokens) ∧
        run.outputTokens ≤ run.spec.maxNewTokens ∧
        (run.schedule.map Prod.snd).sum =
          run.computed + run.recomputedPositions + rolledBack n (new spec trace) k := by
  obtain ⟨sim, hsim⟩ := after_ok hfull trace n
  refine ⟨sim, hsim, fun hn => ?_, ?_, fun k run hrun => ?_⟩
  · obtain ⟨result, last, hrun⟩ := run_ok hn hsim
    obtain ⟨k, hk, hafter, -, hiterations⟩ := run_after hrun
    exact ⟨result, last, k, hk, hrun, hafter, hiterations⟩
  · intro entry hentry
    obtain ⟨m, -, mid, last, hmid, hstep⟩ := (mem_iterations_iff hsim).mp hentry
    exact (stepped (reached hmid).valid hstep).residual
  · have hsound := ((reached hsim).valid k run hrun).1
    obtain ⟨hinside, hafter⟩ := positions_of_sound hsound
    exact ⟨hinside, hafter, hsound.output_le, booked_after hsim hrun⟩

/-! ### A cancel after the first token -/

/-- One request, cancelled in the iteration after its prompt was computed. -/
def cancelledRequest : SimRequest where
  requestId := "r0"
  promptTokens := 4
  maxNewTokens := 8
  cancelAtIteration := some 1
  promptTokens_pos := four_pos
  maxNewTokens_pos := by decide

def cancelledTrace : RequestTrace := ⟨[cancelledRequest], nofun, nodup_singleton _⟩

def roomySpec : SchedulerSpec where
  mode := .continuous
  maxBatchedTokens := 64
  maxSequences := 4
  blockSize := 16
  kvBlocks := 64
  usableBlocks := 64
  maxBatchedTokens_pos := by decide
  maxSequences_pos := four_pos
  blockSize_pos := by decide
  kvBlocks_pos := by decide
  chunkSize_pos_iff := by decide

theorem simulator_conserves_cancelled :
    ∃ sim, after 2 (new roomySpec cancelledTrace) = .ok sim ∧
      (∀ entry ∈ sim.iterations, entry.conservationResidual = 0) ∧
      ∀ k run, sim.runs.get? k = some run →
        (run.schedule.map Prod.snd).sum =
          run.computed + run.recomputedPositions +
            rolledBack 2 (new roomySpec cancelledTrace) k := by
  obtain ⟨sim, hsim, -, hledger, hruns⟩ := simulator_conserves roomySpec rfl cancelledTrace 2
  exact ⟨sim, hsim, hledger, fun k run hrun => (hruns k run hrun).2.2.2⟩

/-- The request has its first token and, once it is cancelled, no computed position. -/
theorem cancelled_run_without_positions :
    ∃ sim run, after 2 (new roomySpec cancelledTrace) = .ok sim ∧
      sim.runs.get? "r0" = some run ∧ run.outputTokens = 1 ∧
      run.computed ≠ run.spec.promptTokens + run.outputTokens := by
  have hview : (after 2 (new roomySpec cancelledTrace)).toOption.map (fun sim =>
      (sim.runs.get? "r0").map fun run => (run.outputTokens, run.computed)) = some (some (1, 0)) := by
    decide +kernel
  obtain ⟨sim, hsim, hrun⟩ := after_of_view hview
  obtain ⟨run, hrun, hvalues⟩ := Option.map_eq_some_iff.mp hrun
  obtain ⟨hout, hcomputed⟩ := Prod.mk.inj hvalues
  refine ⟨sim, run, hsim, hrun, hout, ?_⟩
  rw [hout, hcomputed]
  exact (Nat.succ_ne_zero _).symm

end SchedulerSimulator

open Relation (ReflTransGen)

namespace SchedulerSimulator

variable {spec : SchedulerSpec} {trace : RequestTrace} {n : Nat} {sim sim' : SchedulerSimulator}

/-! ### The token budget -/

/-- The next chunk of the run completes its prompt and takes all that is left. -/
def takesLast (spec : SchedulerSpec) (run : RequestRun) (budget : Int) : Bool :=
  run.state = .running ∧ ¬ run.prefilled ∧ allowance spec run budget = budget ∧
    run.computed + budget = run.spec.promptTokens

/-- No run of the list completes its prompt with the last of the budget. -/
def spareFrom (spec : SchedulerSpec) (runs : Runs) : List String → Int → Bool
  | [], _ => true
  | k :: rest, budget =>
    (runs.get? k).all (fun run => ¬ takesLast spec run budget) &&
      spareFrom spec runs rest (budget - ((runs.get? k).map (demand spec · budget)).getD 0)

/-- No participant completes its prompt with the last of the budget. -/
def spare (sim : SchedulerSimulator) : Bool :=
  spareFrom sim.spec sim.participants.runs
    (order sim.spec sim.participants.runs sim.participants.running) sim.spec.maxBatchedTokens

variable {budget : Int} {run : RequestRun} {entry : IterationLedgerEntry} {runs : Runs}
  {iteration : Nat} {a : Admission}

/-- Only a first token goes over the budget. -/
theorem demand_le_iff (hbudget : 0 ≤ budget) :
    demand spec run budget ≤ budget ↔ takesLast spec run budget = false := by
  rw [takesLast, decide_eq_false_iff_not]
  by_cases hstate : run.state = .running
  · by_cases hprefilled : run.prefilled = true
    · rw [demand_of_prefilled hstate hprefilled]
      refine iff_of_true ?_ fun h => h.2.1 hprefilled
      split_ifs
      · exact hbudget
      · omega
    · have hinside := RequestRun.prefilled_iff.not.mp hprefilled
      have hle := (allowance_le spec run budget).2
      rcases lt_or_ge 0 (allowance spec run budget) with hpos | hnone
      · obtain ⟨amount, hamount⟩ := Int.eq_ofNat_of_zero_le hpos.le
        rw [demand_of_inside hstate hprefilled hamount (by omega), hamount]
        rw [hamount] at hle
        split_ifs with hlast
        · constructor
          · rintro hroom ⟨-, -, hall, -⟩
            omega
          · intro hnot
            refine Int.lt_iff_le_and_ne.mpr ⟨hle, fun hall => hnot ⟨hstate, hprefilled, hall, ?_⟩⟩
            omega
        · refine iff_of_true hle ?_
          rintro ⟨-, -, hall, hend⟩
          omega
      · rw [demand_of_no_allowance hstate hprefilled hnone]
        refine iff_of_true hbudget ?_
        rintro ⟨-, -, hall, hend⟩
        omega
  · rw [demand_of_not_running hstate]
    exact iff_of_true hbudget fun h => hstate h.1

theorem demand_of_neg (hbudget : budget < 0) : demand spec run budget = 0 := by
  by_cases hstate : run.state = .running
  · by_cases hprefilled : run.prefilled = true
    · rw [demand_of_prefilled hstate hprefilled, if_pos (by omega)]
    · refine demand_of_no_allowance hstate hprefilled ?_
      exact (allowance_le spec run budget).2.trans hbudget.le
  · exact demand_of_not_running hstate

theorem leftOver_of_neg (runs : Runs) (ids : List String) (hbudget : budget < 0) :
    leftOver spec runs ids budget = budget := by
  induction ids with
  | nil => rfl
  | cons k rest ih =>
    have hnone : ((runs.get? k).map (demand spec · budget)).getD 0 = 0 := by
      rcases runs.get? k with - | run
      · rfl
      · exact demand_of_neg hbudget
    rw [leftOver, hnone, sub_zero, ih]

theorem leftOver_nonneg_iff (runs : Runs) (ids : List String) (hbudget : 0 ≤ budget) :
    0 ≤ leftOver spec runs ids budget ↔ spareFrom spec runs ids budget = true := by
  induction ids generalizing budget with
  | nil => exact iff_of_true hbudget rfl
  | cons k rest ih =>
    rcases hrun : runs.get? k with - | run
    · simp only [leftOver, spareFrom, hrun, Option.map_none, Option.getD_none, sub_zero]
      exact ih hbudget
    · simp only [leftOver, spareFrom, hrun, Option.map_some, Option.getD_some, Option.all_some,
        Bool.and_eq_true, decide_eq_true_eq, Bool.not_eq_true]
      rw [← demand_le_iff hbudget]
      by_cases hroom : demand spec run budget ≤ budget
      · rw [ih (by omega)]
        exact (and_iff_right hroom).symm
      · rw [leftOver_of_neg runs rest (by omega)]
        exact iff_of_false (by omega) fun h => hroom h.1

/-- **The token budget of one iteration.** -/
theorem scheduledTotal_le_iff (h : Valid sim.runs) (hstep : sim.step = .ok (entry, sim')) :
    entry.scheduledTotal ≤ entry.tokenBudget ↔ sim.spare = true := by
  have hs := stepped h hstep
  have hscheduled := hs.scheduledTotal
  rw [spare, ← leftOver_nonneg_iff _ _ (Int.natCast_nonneg _), hs.tokenBudget, ← remainder]
  omega

/-! ### Sequences and blocks -/

/-- The runs of a list keep to the sequence budget and to the pool. -/
structure Bounded (spec : SchedulerSpec) (runs : Runs) (ids : List String) : Prop where
  sequences : ids.length ≤ spec.maxSequences
  blocks : blocksHeld spec runs ids ≤ spec.usableBlocks

abbrev SameRequests (runs runs' : Runs) : Prop :=
  OrderedDict.Pointwise (fun run run' => run'.spec = run.spec) runs runs'

/-- Full reservations depend on the requests only, so fewer runs hold fewer blocks. -/
theorem blocksHeld_mono (hfull : spec.admissionReserveFullIsl = true) {runs' : Runs}
    {ids ids' : List String} (hsame : SameRequests runs runs') (hnodup : ids'.Nodup)
    (hsub : ∀ k ∈ ids', k ∈ ids) : blocksHeld spec runs' ids' ≤ blocksHeld spec runs ids := by
  have hreserve : (fun k => ((runs'.get? k).map (reserveBlocks spec)).getD 0) =
      fun k => ((runs.get? k).map (reserveBlocks spec)).getD 0 := by
    funext k
    rcases hrun : runs.get? k with - | run
    · have hnone : runs'.get? k = none := by
        rw [OrderedDict.get?_eq_none_iff, hsame.keys, ← OrderedDict.get?_eq_none_iff, hrun]
      rw [hnone]
    · obtain ⟨run', hrun', hspec⟩ := hsame.related k run hrun
      simp only [hrun', Option.map_some, reserveBlocks, if_pos hfull, hspec]
  rw [blocksHeld, hreserve]
  obtain ⟨l, hperm, hsublist⟩ := hnodup.subperm hsub
  rw [← (hperm.map _).sum_eq]
  exact (hsublist.map _).sum_le_sum fun _ _ => Nat.zero_le _

theorem Bounded.mono (hfull : spec.admissionReserveFullIsl = true) {runs' : Runs}
    {ids ids' : List String} (h : Bounded spec runs ids) (hsame : SameRequests runs runs')
    (hnodup : ids'.Nodup) (hsub : ∀ k ∈ ids', k ∈ ids) : Bounded spec runs' ids' where
  sequences := (hnodup.subperm hsub).length_le.trans h.sequences
  blocks := (blocksHeld_mono hfull hsame hnodup hsub).trans h.blocks

theorem Entering.spec_eq {run' : RequestRun} (h : Entering iteration run run') :
    run'.spec = run.spec := RequestRun.acts_spec h.acts

theorem Bounded.observed (hfull : spec.admissionReserveFullIsl = true)
    (h : Bounded spec runs (idsIn runs .running)) (ho : Observed iteration runs a) :
    Bounded spec a.runs a.running := by
  refine h.mono hfull ⟨ho.spared.keys, fun k run hrun => ?_⟩ ho.running.nodup fun k hk => ?_
  · obtain ⟨run', hrun', hspared⟩ := ho.spared.related k run hrun
    refine ⟨run', hrun', ?_⟩
    rcases hspared with rfl | ⟨-, -, rfl⟩
    · rfl
    · rfl
  · obtain ⟨run', hrun', hstate⟩ := (ho.running.mem_iff k).mp hk
    obtain ⟨run, hrun, hspared⟩ := ho.spared.of_get? hrun'
    rw [(lists_idsIn runs .running).mem_iff]
    rcases hspared with rfl | ⟨-, -, rfl⟩
    · exact ⟨_, hrun, hstate⟩
    · cases hstate

section

variable (hfull : spec.admissionReserveFullIsl = true) (hmode : spec.mode ≠ .static)
  {batch : List String} {b : Admission} (h : Bounded spec a.runs a.running)
  (hl : Lists a.runs .running a.running)

include hfull hmode h hl

/-- The admission check keeps the bounds; the static batch is not asked. -/
theorem Bounded.move (hmove : Admission.Move spec iteration batch a b) :
    Bounded spec b.runs b.running := by
  have hb := hmove.admitted hl
  have hsame : SameRequests a.runs b.runs :=
    ⟨hb.entering.keys, fun k run hrun =>
      (hb.entering.related k run hrun).imp fun _ h => ⟨h.1, h.2.spec_eq⟩⟩
  cases hmove with
  | @enter id run hrun _ _ hseq hfits =>
    have hfits : blocksHeld spec a.runs a.running + reserveBlocks spec run ≤ spec.usableBlocks :=
      of_decide_eq_true hfits
    have hroom : Bounded spec a.runs (a.running ++ [id]) := by
      constructor
      · rw [length_append]
        exact hseq
      · rw [blocksHeld, map_append, sum_append, ← blocksHeld]
        simpa only [map_cons, map_nil, sum_singleton, hrun, Option.map_some,
          Option.getD_some] using hfits
    exact hroom.mono hfull hsame hb.running.nodup fun _ hk => hk
  | preempt hmem =>
    refine h.mono hfull hsame hb.running.nodup fun k hk => ?_
    obtain ⟨run, hrun, -⟩ := (hl.mem_iff _).mp hmem
    rw [Admission.preempt_eq hrun] at hk
    exact mem_of_mem_erase hk
  | joinBatch hstatic _ _ _ _ _ => exact absurd hstatic hmode

theorem Bounded.moves
    (hmoves : ReflTransGen (Admission.Move spec iteration batch) a b) :
    Bounded spec b.runs b.running := by
  induction hmoves with
  | refl => exact h
  | tail hrest hmove ih => exact ih.move hfull hmode (admitted_of_moves hrest hl).running hmove

end

theorem Bounded.participants (hfull : sim.spec.admissionReserveFullIsl = true)
    (hmode : sim.spec.mode ≠ .static)
    (h : Bounded sim.spec sim.runs (idsIn sim.runs .running)) :
    Bounded sim.spec sim.participants.runs sim.participants.running := by
  have ho := observeCancels_observed sim
  obtain ⟨b, hmoves, hparticipants⟩ := participants_moves sim
  rw [hparticipants]
  rw [if_neg hmode]
  exact (h.observed hfull ho).moves hfull hmode ho.running hmoves

theorem Stepped.sameRequests (hs : Stepped sim entry sim') :
    SameRequests sim.participants.runs sim'.runs :=
  ⟨hs.proceeding.keys, fun k run hrun =>
    (hs.proceeding.related k run hrun).imp fun _ h => ⟨h.1, RequestRun.acts_spec h.2.1⟩⟩

/-- Outside the static mode the bounds hold between all iterations. -/
theorem bounded_after (hfull : spec.admissionReserveFullIsl = true) (hmode : spec.mode ≠ .static)
    (h : after n (new spec trace) = .ok sim) :
    Bounded spec sim.runs (idsIn sim.runs .running) := by
  induction n generalizing sim with
  | zero =>
    cases h
    have hnil : idsIn (new spec trace).runs .running = [] := by
      refine eq_nil_iff_forall_not_mem.mpr fun k hk => ?_
      obtain ⟨run, hrun, hstate⟩ := ((lists_idsIn _ _).mem_iff k).mp hk
      obtain ⟨request, -, -, rfl⟩ := run_of_start hrun
      cases hstate
    rw [hnil]
    exact ⟨Nat.zero_le _, Nat.zero_le _⟩
  | succ n ih =>
    obtain ⟨mid, entry, hmid, hstep⟩ := after_succ h
    have hr := reached hmid
    have hs := stepped hr.valid hstep
    have hbounded : Bounded mid.spec mid.participants.runs mid.participants.running :=
      Bounded.participants (hr.spec_eq ▸ hfull) (hr.spec_eq ▸ hmode) (hr.spec_eq ▸ ih hmid)
    rw [hr.spec_eq] at hbounded
    refine hbounded.mono hfull hs.sameRequests (lists_idsIn _ _).nodup fun k hk => ?_
    obtain ⟨run, hrun, hstate⟩ := ((lists_idsIn _ _).mem_iff k).mp hk
    obtain ⟨old, hold, -, hsame | hend⟩ := hs.proceeding.of_get? hrun
    · refine ((participants_joined hr.valid).mem_iff k).mpr
        ⟨⟨old, hold, hsame.symm.trans hstate⟩, fun hstatic => ?_⟩
      exact absurd (hr.spec_eq ▸ hstatic) hmode
    · cases hstate.symm.trans hend

/-! ### The static batch -/

/-- The runs of the static batch that take part in the next iteration. -/
def competing (sim : SchedulerSimulator) : List String :=
  sim.staticBatch.filter fun id => (sim.runs.get? id).any fun run =>
    ¬ run.cancelDue sim.iteration ∧
      (run.state = .running ∨
        run.state = .waiting ∧ run.spec.submitIteration ≤ sim.iteration)

/-- The pool holds what the static batch needs next. -/
def batchFits (sim : SchedulerSimulator) : Bool :=
  blocksHeld sim.spec sim.runs sim.competing ≤ sim.spec.usableBlocks

theorem participants_competing (hvalid : Valid sim.runs) (hstatic : sim.spec.mode = .static)
    {k : String} (hk : k ∈ sim.participants.running) : k ∈ sim.competing := by
  have hj := participants_joined hvalid
  obtain ⟨⟨run, hrun, hstate⟩, hbatch⟩ := (hj.mem_iff k).mp hk
  obtain ⟨old, hold, mid, hspared, hacts, -⟩ := hj.joining.of_get? hrun
  have hnot : ¬ run.done = true := RequestRun.not_done_iff.mpr (.inr hstate)
  -- the run was spared: a cancelled run does not run
  have hmid : mid = old := by
    rcases hspared with rfl | ⟨-, -, rfl⟩
    · rfl
    · have hdone : (old.cancel sim.iteration).done = true := RequestRun.done_iff.mpr (.inr rfl)
      exact absurd (RequestRun.acts_of_done hacts hdone ▸ hdone) hnot
  subst hmid
  have hspec : run.spec = mid.spec := RequestRun.acts_spec hacts
  have hmid : ¬ mid.done = true := fun hdone =>
    hnot (RequestRun.acts_of_done hacts hdone ▸ hdone)
  rw [competing, mem_filter, hold, Option.any_some, decide_eq_true_iff]
  refine ⟨hbatch hstatic, ?_, ?_⟩
  · have hdue := (hj.settled k run hrun).resolve_left hnot
    rw [RequestRun.cancelDue, hspec] at hdue
    rw [RequestRun.cancelDue, hdue]
    exact Bool.false_ne_true
  · rcases RequestRun.not_done_iff.mp hmid with hwait | hrunning
    · rcases RequestRun.acts_of_waiting hacts hwait with rfl | hsubmit
      · cases hwait.symm.trans hstate
      · exact .inr ⟨hwait, hsubmit⟩
    · exact .inl hrunning

/-! ### The budgets of a run -/

/-- The bounds of one iteration that does not depend on luck: the sequences always, the
blocks whenever the static batch fits. -/
theorem entry_bounded (h : after n (new spec trace) = .ok sim)
    (hstep : sim.step = .ok (entry, sim')) :
    entry.running.length ≤ spec.maxSequences ∧
      ((spec.mode = .static → sim.batchFits = true) → entry.kvUsedBlocks ≤ spec.usableBlocks) := by
  have hr := reached h
  have hs := stepped hr.valid hstep
  have hj := participants_joined hr.valid
  have hnodup : entry.running.Nodup := hs.running.nodup hj.nodup
  rw [hs.kvUsedBlocks, hr.spec_eq]
  by_cases hfull : spec.admissionReserveFullIsl = true
  · by_cases hmode : spec.mode = .static
    · refine ⟨?_, fun hfits => ?_⟩
      · -- the participants are in the batch, and the batch was cut to the budget
        have hbatch : ∀ k ∈ sim.participants.running, k ∈ sim.staticBatch := fun k hk =>
          ((hj.mem_iff k).mp hk).2 (hr.spec_eq ▸ hmode)
        have hlength : sim.staticBatch.length ≤ spec.maxSequences := by
          rw [hr.staticBatch, new]
          rw [if_pos hmode]
          exact length_take_le _ _
        exact hs.running.length_le.trans ((hj.nodup.subperm hbatch).length_le.trans hlength)
      · have hfits : blocksHeld spec sim.runs sim.competing ≤ spec.usableBlocks := by
          have hfits := of_decide_eq_true (hfits hmode)
          rwa [hr.spec_eq] at hfits
        refine (blocksHeld_mono hfull ?_ hnodup fun k hk => ?_).trans hfits
        · refine ⟨(hs.moves hr.valid).keys, fun k run hrun => ?_⟩
          exact ((hs.moves hr.valid).related k run hrun).imp fun _ h => ⟨h.1, h.2.spec_eq⟩
        · exact participants_competing hr.valid (hr.spec_eq ▸ hmode) (hs.running.subset hk)
    · have hbounded : Bounded sim.spec sim.participants.runs sim.participants.running :=
        Bounded.participants (hr.spec_eq ▸ hfull) (hr.spec_eq ▸ hmode)
          (hr.spec_eq ▸ bounded_after hfull hmode h)
      rw [hr.spec_eq] at hbounded
      have hentry := hbounded.mono hfull hs.sameRequests hnodup fun _ hk => hs.running.subset hk
      exact ⟨hentry.sequences, fun _ => hentry.blocks⟩
  · rw [Bool.not_eq_true] at hfull
    have hnil := participants_nil (hr.spec_eq ▸ hfull) hr.valid (after_idle hfull h) hstep
    have hempty : entry.running = [] := sublist_nil.mp (hnil ▸ hs.running)
    rw [hempty]
    exact ⟨Nat.zero_le _, fun _ => Nat.zero_le _⟩

/-- **Budgets.**  Every iteration keeps to the sequence budget.  The token budget is kept
exactly if every iteration is spare, and the pool suffices if, in the static mode, the
batch fits before every iteration. -/
theorem budgets_kept_iff (h : after n (new spec trace) = .ok sim) :
    (∀ entry ∈ sim.iterations, entry.running.length ≤ spec.maxSequences) ∧
    ((∀ entry ∈ sim.iterations, entry.scheduledTotal ≤ entry.tokenBudget) ↔
      ∀ m < n, ∀ mid, after m (new spec trace) = .ok mid → mid.spare = true) ∧
    ((spec.mode = .static →
        ∀ m < n, ∀ mid, after m (new spec trace) = .ok mid → mid.batchFits = true) →
      ∀ entry ∈ sim.iterations, entry.kvUsedBlocks ≤ spec.usableBlocks) := by
  refine ⟨fun entry hentry => ?_, ⟨fun hkept m hm mid hmid => ?_, fun hspare entry hentry => ?_⟩,
    fun hfits entry hentry => ?_⟩
  · obtain ⟨m, -, mid, last, hmid, hstep⟩ := (mem_iterations_iff h).mp hentry
    exact (entry_bounded hmid hstep).1
  · obtain ⟨mid', entry, last, hmid', hstep⟩ := after_of_lt h hm
    cases hmid.symm.trans hmid'
    refine (scheduledTotal_le_iff (reached hmid).valid hstep).mp (hkept entry ?_)
    exact (mem_iterations_iff h).mpr ⟨m, hm, mid, last, hmid, hstep⟩
  · obtain ⟨m, hm, mid, last, hmid, hstep⟩ := (mem_iterations_iff h).mp hentry
    exact (scheduledTotal_le_iff (reached hmid).valid hstep).mpr (hspare m hm mid hmid)
  · obtain ⟨m, hm, mid, last, hmid, hstep⟩ := (mem_iterations_iff h).mp hentry
    exact (entry_bounded hmid hstep).2 fun hstatic => hfits hstatic m hm mid hmid

theorem budgets_kept_iff_cancelled :
    ∃ sim, after 2 (new roomySpec cancelledTrace) = .ok sim ∧
      (∀ entry ∈ sim.iterations, entry.running.length ≤ 4) ∧
      ∀ entry ∈ sim.iterations, entry.kvUsedBlocks ≤ 64 := by
  obtain ⟨sim, hsim⟩ := (after_ok rfl cancelledTrace 2 : ∃ sim, after 2 (new roomySpec cancelledTrace) = .ok sim)
  obtain ⟨hsequences, -, hblocks⟩ := budgets_kept_iff hsim
  exact ⟨sim, hsim, hsequences, hblocks nofun⟩

/-! ### Overshoots -/

def sixteenTokens (requestId : String) : SimRequest where
  requestId := requestId
  promptTokens := 16
  maxNewTokens := 16
  promptTokens_pos := by decide
  maxNewTokens_pos := by decide

def singleTrace : RequestTrace := ⟨[sixteenTokens "r0"], nofun, nodup_singleton _⟩

def pairTrace : RequestTrace := ⟨[sixteenTokens "r0", sixteenTokens "r1"], nofun, by decide⟩

def promptSpec : SchedulerSpec :=
  { roomySpec with maxBatchedTokens := 16, maxBatchedTokens_pos := by decide }

/-- The pool holds one request, the static batch two. -/
def crowdedBatchSpec : SchedulerSpec :=
  { roomySpec with
    mode := .static
    kvBlocks := 2
    usableBlocks := 2
    kvBlocks_pos := Nat.two_pos
    chunkSize_pos_iff := by decide }

theorem exists_entry {sim : SchedulerSimulator} {n : Nat} {P : IterationLedgerEntry → Prop}
    [DecidablePred P]
    (h : (after n sim).toOption.map (·.iterations.any (P ·)) = some true) :
    ∃ last, after n sim = .ok last ∧ ∃ entry ∈ last.iterations, P entry := by
  obtain ⟨last, hlast, hany⟩ := after_of_view h
  obtain ⟨entry, hmem, hentry⟩ := any_eq_true.mp hany
  exact ⟨last, hlast, entry, hmem, of_decide_eq_true hentry⟩

/-- The first token goes over the token budget, the second request of the static batch
over the pool. -/
theorem budgets_overshot :
    (∃ sim, after 1 (new promptSpec singleTrace) = .ok sim ∧
      ∃ entry ∈ sim.iterations, entry.tokenBudget < entry.scheduledTotal) ∧
    ∃ sim, after 1 (new crowdedBatchSpec pairTrace) = .ok sim ∧
      ∃ entry ∈ sim.iterations, crowdedBatchSpec.usableBlocks < entry.kvUsedBlocks :=
  ⟨exists_entry (by decide), exists_entry (by decide)⟩

end SchedulerSimulator

end Hqsb
