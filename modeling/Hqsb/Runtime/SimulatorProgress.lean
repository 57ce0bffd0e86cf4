/-
Hqsb/Runtime/SimulatorProgress.lean

Progress of the scheduler simulator while nothing is crowded out.

An iteration that preempts nothing computes at least one position and drops none, and no
run computes more than its prompt and output.  So the total of computed positions is
a measure as soon as preemptions stop: `eventually_done`.

`crowded` follows the admission loop up to the first preemption.  The static batch goes
past it, but only adds participants.
-/
import Hqsb.Runtime.SimulatorBudgets

namespace Hqsb

open Lib List OrderedDict
open Relation (ReflTransGen)

namespace SchedulerSimulator

variable {spec : SchedulerSpec} {trace : RequestTrace} {n : Nat} {sim sim' : SchedulerSimulator}

/-! ### Crowding -/

/-- A submitted run of the list does not fit beside the running ones, and one of these
is a victim. -/
def crowdedFrom (spec : SchedulerSpec) (iteration : Nat) : List String → Admission → Bool
  | [], _ => false
  | id :: rest, a =>
    match a.runs.get? id with
    | none => crowdedFrom spec iteration rest a
    | some run =>
      if iteration < run.spec.submitIteration then crowdedFrom spec iteration rest a
      else if spec.maxSequences ≤ a.running.length then false
      else if capacityOk spec a.runs run a.running then
        crowdedFrom spec iteration rest (a.admitRun iteration id run)
      else (selectVictim spec a.runs a.running).isSome || crowdedFrom spec iteration rest a

/-- A waiting run will crowd out a running one. -/
def crowded (sim : SchedulerSimulator) : Bool :=
  crowdedFrom sim.spec sim.iteration sim.observeCancels.waiting sim.observeCancels

section Admit

variable {iteration : Nat}

/-- Without crowding nothing is preempted, so nothing is rolled back. -/
theorem admitAll_rollback (ids : List String) {a : Admission}
    (h : crowdedFrom spec iteration ids a = false) :
    (Admission.admitAll spec iteration ids a).rollback = a.rollback := by
  induction ids generalizing a with
  | nil => rfl
  | cons id rest ih =>
    rcases hrun : a.runs.get? id with - | run
    · rw [crowdedFrom, hrun] at h
      rw [Admission.admitAll, hrun]
      exact ih h
    · simp only [crowdedFrom, hrun] at h
      simp only [Admission.admitAll, hrun]
      split_ifs at h ⊢ with hsubmit hseq hfits
      · exact ih h
      · rfl
      · exact ih h
      · rw [Bool.or_eq_false_iff, Option.isSome_eq_false_iff, Option.isNone_iff_eq_none] at h
        rw [h.1]
        exact ih h.2

/-- Every request fits the pool on its own. -/
def EachFits (spec : SchedulerSpec) (runs : Runs) : Prop :=
  ∀ k run, runs.get? k = some run →
    (run.spec.promptTokens + run.spec.maxNewTokens) ⌈/⌉ spec.blockSize ≤ spec.usableBlocks

/-- Each run, as it is now, has room in an empty pool. -/
def Roomy (spec : SchedulerSpec) (runs : Runs) : Prop :=
  ∀ k run, runs.get? k = some run → reserveBlocks spec run ≤ spec.usableBlocks

theorem EachFits.roomy {runs : Runs} (h : EachFits spec runs)
    (hfull : spec.admissionReserveFullIsl = true) : Roomy spec runs := by
  intro k run hrun
  rw [reserveBlocks, if_pos hfull]
  exact h k run hrun

theorem Roomy.admitRun {a : Admission} (h : Roomy spec a.runs) {k : String} {run : RequestRun}
    (hrun : a.runs.get? k = some run) : Roomy spec (a.admitRun iteration k run).runs := by
  intro j new hnew
  have hset : (a.runs.set k (run.admitted iteration)).get? j = some new := hnew
  rw [get?_set] at hset
  split_ifs at hset with hj
  · cases hset
    exact h k run hrun
  · exact h j new hset

/-- The first submitted run is admitted to an empty pool, and without crowding it stays. -/
theorem admitAll_running_ne_nil (ids : List String) {a : Admission} (hroomy : Roomy spec a.runs)
    (hcrowd : crowdedFrom spec iteration ids a = false)
    (h : a.running ≠ [] ∨ ∃ k ∈ ids, ∃ run, a.runs.get? k = some run ∧
      run.spec.submitIteration ≤ iteration) :
    (Admission.admitAll spec iteration ids a).running ≠ [] := by
  induction ids generalizing a with
  | nil =>
    rcases h with h | ⟨k, hk, -⟩
    · exact h
    · cases hk
  | cons id rest ih =>
    -- a run that is passed over leaves the rest as it was
    have hskip : (∀ run, a.runs.get? id = some run → iteration < run.spec.submitIteration ∨
          a.running ≠ []) →
        a.running ≠ [] ∨ ∃ k ∈ rest, ∃ run, a.runs.get? k = some run ∧
          run.spec.submitIteration ≤ iteration := by
      intro hpass
      rcases h with h | ⟨k, hk, run, hrun, hsubmit⟩
      · exact .inl h
      · rcases mem_cons.mp hk with rfl | hk
        · exact .inl ((hpass run hrun).resolve_left (Nat.not_lt.mpr hsubmit))
        · exact .inr ⟨k, hk, run, hrun, hsubmit⟩
    rcases hrun : a.runs.get? id with - | run
    · rw [crowdedFrom, hrun] at hcrowd
      simp only [Admission.admitAll, hrun]
      exact ih hroomy hcrowd (hskip fun run' hrun' => by cases hrun.symm.trans hrun')
    · have hself : ∀ run', a.runs.get? id = some run' → run' = run := fun run' hrun' =>
        Option.some.inj (hrun'.symm.trans hrun)
      simp only [crowdedFrom, hrun] at hcrowd
      simp only [Admission.admitAll, hrun]
      split_ifs at hcrowd ⊢ with hsubmit hseq hfits
      · exact ih hroomy hcrowd (hskip fun run' hrun' => .inl (hself run' hrun' ▸ hsubmit))
      · intro hnil
        rw [hnil] at hseq
        exact absurd (Nat.le_zero.mp hseq) spec.maxSequences_pos.ne'
      · refine ih (hroomy.admitRun hrun) hcrowd (.inl ?_)
        exact append_ne_nil_of_right_ne_nil _ (cons_ne_nil id [])
      · rw [Bool.or_eq_false_iff, Option.isSome_eq_false_iff, Option.isNone_iff_eq_none] at hcrowd
        rw [hcrowd.1]
        refine ih hroomy hcrowd.2 (hskip fun _ _ => .inr fun hnil => hfits ?_)
        -- beside no running run every request fits
        rw [hnil, capacityOk, blocksHeld]
        simpa using hroomy id run hrun

end Admit

/-! ### An iteration without crowding -/

def NoCancels (runs : Runs) : Prop :=
  ∀ k run, runs.get? k = some run → run.spec.cancelAtIteration = none

variable (ids : List String) {iteration : Nat} {k : String} {run : RequestRun}

theorem foldl_cancel_eq {a : Admission} (h : NoCancels a.runs) :
    ids.foldl (Admission.cancel iteration) a = a := by
  induction ids with
  | nil => rfl
  | cons id ids ih =>
    have hpass : a.cancel iteration id = a := by
      rcases hrun : a.runs.get? id with - | run
      · rw [Admission.cancel, hrun]
      · have hdue : run.cancelDue iteration = false := by
          rw [RequestRun.cancelDue, h id run hrun]
          rfl
        simp only [Admission.cancel, hrun, hdue, Bool.false_eq_true, false_and, if_false]
    rw [foldl_cons, hpass, ih]

theorem observeCancels_eq (h : NoCancels sim.runs) :
    sim.observeCancels = { runs := sim.runs, waiting := idsIn sim.runs .waiting,
                           running := idsIn sim.runs .running } :=
  foldl_cancel_eq _ h

theorem foldl_admitBatch_rollback (a : Admission) :
    (ids.foldl (Admission.admitBatch iteration) a).rollback = a.rollback := by
  induction ids generalizing a with
  | nil => rfl
  | cons id ids ih =>
    rw [foldl_cons, ih]
    rcases hrun : a.runs.get? id with - | run
    · rw [Admission.admitBatch, hrun]
    · simp only [Admission.admitBatch, hrun]
      split_ifs <;> rfl

theorem mem_admitBatch (a : Admission) (id : String) (h : k ∈ a.running) :
    k ∈ (a.admitBatch iteration id).running := by
  rcases hrun : a.runs.get? id with - | run
  · simpa only [Admission.admitBatch, hrun] using h
  · simp only [Admission.admitBatch, hrun]
    split_ifs
    · exact h
    · exact h
    · exact mem_append_left _ h

theorem mem_foldl_admitBatch (a : Admission)
    (h : k ∈ a.running ∨ k ∈ ids ∧ ∃ run, a.runs.get? k = some run ∧ ¬ run.done = true ∧
      run.spec.submitIteration ≤ iteration) :
    k ∈ (ids.foldl (Admission.admitBatch iteration) a).running := by
  induction ids generalizing a with
  | nil =>
    rcases h with h | ⟨h, -⟩
    · exact h
    · cases h
  | cons id ids ih =>
    refine ih (a.admitBatch iteration id) ?_
    rcases h with h | ⟨hmem, run, hrun, hdone, hsubmit⟩
    · exact .inl (mem_admitBatch a id h)
    · by_cases hk : k = id
      · subst hk
        have hskip : ¬ (run.done = true ∨ iteration < run.spec.submitIteration) :=
          not_or.mpr ⟨hdone, Nat.not_lt.mpr hsubmit⟩
        simp only [Admission.admitBatch, hrun]
        split_ifs with hmem'
        · exact .inl hmem'
        · exact .inl (mem_append_right _ (mem_singleton.mpr rfl))
      · refine .inr ⟨(mem_cons.mp hmem).resolve_left hk, run, ?_, hdone, hsubmit⟩
        rcases hother : a.runs.get? id with - | other
        · simpa only [Admission.admitBatch, hother] using hrun
        · simp only [Admission.admitBatch, hother]
          split_ifs
          · exact hrun
          · exact hrun
          · exact (get?_set_of_ne _ _ hk).trans hrun

theorem participants_rollback (hnone : NoCancels sim.runs) (hcrowd : sim.crowded = false) :
    sim.participants.rollback = 0 := by
  have hadmission : sim.admission.rollback = 0 := by
    rw [admission, admitAll_rollback _ hcrowd, observeCancels_eq hnone]
  rw [participants]
  split_ifs
  · exact (foldl_admitBatch_rollback _ _).trans hadmission
  · exact hadmission

/-- An iteration without crowding has a participant if a submitted run may take part. -/
theorem participants_ne_nil_of_roomy (hroomy : Roomy sim.spec sim.observeCancels.runs)
    (hcrowd : sim.crowded = false) (hrun : sim.observeCancels.runs.get? k = some run)
    (hdone : ¬ run.done = true) (hsubmit : run.spec.submitIteration ≤ sim.iteration)
    (hbatch : sim.spec.mode = .static → k ∈ sim.staticBatch) :
    sim.participants.running ≠ [] := by
  have ho := observeCancels_observed sim
  by_cases hstatic : sim.spec.mode = .static
  · have hmoves : ReflTransGen (Admission.Move sim.spec sim.iteration sim.staticBatch)
        sim.observeCancels sim.admission :=
      admitAll_moves _ ho.running ho.waiting.nodup fun id hid => (ho.waiting.mem_iff id).mp hid
    obtain ⟨next, hnext, hentering⟩ :=
      (admitted_of_moves hmoves ho.running).entering.related k run hrun
    have hmem : k ∈ (sim.staticBatch.foldl (Admission.admitBatch sim.iteration)
        sim.admission).running := by
      refine mem_foldl_admitBatch _ _ (.inr ⟨hbatch hstatic, next, hnext, ?_, ?_⟩)
      · rw [hentering.done_eq]
        exact hdone
      · rw [hentering.spec_eq]
        exact hsubmit
    rw [participants, if_pos hstatic]
    exact ne_nil_of_mem (mem_filter.mpr ⟨hmem, decide_eq_true (hbatch hstatic)⟩)
  · rw [participants, if_neg hstatic]
    refine admitAll_running_ne_nil _ hroomy hcrowd ?_
    rcases RequestRun.not_done_iff.mp hdone with hstate | hstate
    · exact .inr ⟨k, (ho.waiting.mem_iff k).mpr ⟨run, hrun, hstate⟩, run, hrun, hsubmit⟩
    · exact .inl (ne_nil_of_mem ((ho.running.mem_iff k).mpr ⟨run, hrun, hstate⟩))

def BatchComplete (sim : SchedulerSimulator) : Prop :=
  sim.spec.mode = .static → ∀ k ∈ sim.runs.keys, k ∈ sim.staticBatch

/-- Once every request is submitted, an iteration without crowding has a participant. -/
theorem participants_ne_nil (hfull : sim.spec.admissionReserveFullIsl = true)
    (hfits : EachFits sim.spec sim.runs) (hnone : NoCancels sim.runs) (hbatch : sim.BatchComplete)
    (hcrowd : sim.crowded = false)
    (hsubmit : ∀ k run, sim.runs.get? k = some run → run.spec.submitIteration ≤ sim.iteration)
    (hleft : ∃ k run, sim.runs.get? k = some run ∧ ¬ run.done = true) :
    sim.participants.running ≠ [] := by
  obtain ⟨k, run, hrun, hdone⟩ := hleft
  have hobserve : sim.observeCancels.runs = sim.runs := by rw [observeCancels_eq hnone]
  refine participants_ne_nil_of_roomy (hobserve ▸ hfits.roomy hfull) hcrowd
    (hobserve ▸ hrun) hdone (hsubmit k run hrun) fun hstatic => ?_
  exact hbatch hstatic k (mem_keys_of_get? hrun)

/-! ### Progress -/

theorem demand_nonneg (spec : SchedulerSpec) (run : RequestRun) (budget : Int) :
    0 ≤ demand spec run budget := by
  rw [demand]
  split_ifs <;> omega

/-- A running run gets something out of a positive budget. -/
theorem demand_pos {budget : Int} (hstate : run.state = .running) (hbudget : 0 < budget) :
    0 < demand spec run budget := by
  by_cases hprefilled : run.prefilled = true
  · rw [demand_of_prefilled hstate hprefilled]
    split_ifs <;> omega
  · have hinside := RequestRun.prefilled_iff.not.mp hprefilled
    have hpos : 0 < allowance spec run budget := by
      rw [allowance]
      split_ifs with hmode
      · have hchunk := spec.chunkSize_pos_iff.mpr hmode
        omega
      · omega
    obtain ⟨amount, hamount⟩ := Int.eq_ofNat_of_zero_le hpos.le
    rw [demand_of_inside hstate hprefilled hamount (by omega)]
    split_ifs <;> omega

theorem leftOver_le (runs : Runs) (ids : List String) (budget : Int) :
    leftOver spec runs ids budget ≤ budget := by
  induction ids generalizing budget with
  | nil => exact le_refl budget
  | cons k rest ih =>
    refine (ih _).trans ?_
    rcases runs.get? k with - | run
    · simp
    · have hnonneg := demand_nonneg spec run budget
      rw [Option.map_some, Option.getD_some]
      omega

/-- An iteration with a participant computes a position. -/
theorem scheduledTotal_pos {entry : IterationLedgerEntry} (hvalid : Valid sim.runs)
    (hne : sim.participants.running ≠ []) (hs : Stepped sim entry sim') :
    0 < entry.scheduledTotal := by
  have hj := participants_joined hvalid
  have hscheduled := hs.scheduledTotal
  have hmem : ∀ k, k ∈ order sim.spec sim.participants.runs sim.participants.running ↔
      k ∈ sim.participants.running := fun _ => mem_order
  have hlt : sim.remainder < sim.spec.maxBatchedTokens := by
    rw [remainder]
    rcases horder : order sim.spec sim.participants.runs sim.participants.running with
      - | ⟨k, rest⟩
    · refine absurd (eq_nil_iff_forall_not_mem.mpr fun k hk => ?_) hne
      rw [← hmem, horder] at hk
      cases hk
    · have hk : k ∈ sim.participants.running := by
        rw [← hmem, horder]
        exact .head _
      obtain ⟨run, hrun, hstate⟩ := ((hj.mem_iff k).mp hk).1
      have hpos : 0 < demand sim.spec run sim.spec.maxBatchedTokens :=
        demand_pos hstate (Int.natCast_pos.mpr sim.spec.maxBatchedTokens_pos)
      rw [leftOver, hrun, Option.map_some, Option.getD_some]
      exact (leftOver_le _ _ _).trans_lt (by omega)
  omega

/-! ### The measure -/

theorem computed_le (h : run.Sound) :
    run.computed ≤ run.spec.promptTokens + run.spec.maxNewTokens := by
  by_cases hflag : run.cancelled = true
  · rw [h.dropped hflag]
    exact Nat.zero_le _
  · have hout := h.output_le
    rcases h.positions (Bool.not_eq_true _ ▸ hflag) with ⟨-, hlt, -⟩ | ⟨-, hpos⟩
    · omega
    · omega

def requested (trace : RequestTrace) : Nat :=
  trace.runs.sum fun run => run.spec.promptTokens + run.spec.maxNewTokens

theorem totalComputed_le (h : after n (new spec trace) = .ok sim) :
    totalComputed sim.runs ≤ requested trace := by
  have hr := reached h
  -- the runs again, with what is known of each of them
  have hruns : OrderedDict.Pointwise (fun run run' => run'.spec = run.spec ∧ run'.Sound)
      trace.runs sim.runs := by
    refine ⟨hr.requests.keys, fun k run hrun => ?_⟩
    obtain ⟨run', hrun', hspec⟩ := hr.requests.related k run hrun
    exact ⟨run', hrun', hspec, (hr.valid k run' hrun').1⟩
  refine hruns.sum_le fun run run' hrun' => ?_
  rw [← hrun'.1]
  exact computed_le hrun'.2

theorem allDone_iff {runs : Runs} :
    allDone runs = true ↔ ∀ k run, runs.get? k = some run → run.done = true := by
  rw [allDone, all_eq_true]
  constructor
  · exact fun h k run hrun => h run ((mem_values_iff _).mpr ⟨k, hrun⟩)
  · intro h run hmem
    obtain ⟨k, hrun⟩ := (mem_values_iff _).mp hmem
    exact h k run hrun

/-- What is known of the trace. -/
structure Servable (spec : SchedulerSpec) (trace : RequestTrace) : Prop where
  fits : ∀ request ∈ trace.requests,
    (request.promptTokens + request.maxNewTokens) ⌈/⌉ spec.blockSize ≤ spec.usableBlocks
  noCancels : ∀ request ∈ trace.requests, request.cancelAtIteration = none

theorem mem_requests_of_get? (h : trace.runs.get? k = some run) :
    run.spec ∈ trace.requests ∧ run.spec.requestId = k := by
  obtain ⟨request, hmem, hid, rfl⟩ := run_of_start h
  exact ⟨hmem, hid⟩

theorem spec_mem_requests (h : after n (new spec trace) = .ok sim)
    (hrun : sim.runs.get? k = some run) : run.spec ∈ trace.requests := by
  obtain ⟨start, hstart, hspec⟩ := (reached h).requests.of_get? hrun
  rw [hspec]
  exact (mem_requests_of_get? hstart).1

theorem Servable.noCancels_after (h : Servable spec trace) (hsim : after n (new spec trace) = .ok sim) :
    NoCancels sim.runs :=
  fun _ _ hrun => h.noCancels _ (spec_mem_requests hsim hrun)

theorem Servable.fits_after (h : Servable spec trace) (hsim : after n (new spec trace) = .ok sim) :
    EachFits spec sim.runs :=
  fun _ _ hrun => h.fits _ (spec_mem_requests hsim hrun)

theorem keys_after (hsim : after n (new spec trace) = .ok sim) :
    sim.runs.keys = trace.requests.map SimRequest.requestId := by
  rw [(reached hsim).requests.keys, OrderedDict.keys, RequestTrace.runs, map_map]
  rfl

/-- A batch of as many sequences as there are requests holds them all. -/
theorem batchComplete_after (hcount : spec.mode = .static → trace.requests.length ≤ spec.maxSequences)
    (hsim : after n (new spec trace) = .ok sim) : sim.BatchComplete := by
  intro hstatic k hk
  have hr := reached hsim
  rw [hr.spec_eq] at hstatic
  rw [keys_after hsim] at hk
  rw [hr.staticBatch, new]
  rw [if_pos hstatic]
  rwa [take_of_length_le]
  rw [length_map]
  exact hcount hstatic

def lastSubmit (trace : RequestTrace) : Nat := (trace.requests.map SimRequest.submitIteration).sum

section

variable (h : Servable spec trace) (hfull : spec.admissionReserveFullIsl = true)
  (hcount : spec.mode = .static → trace.requests.length ≤ spec.maxSequences)

include h hfull hcount

/-- **Progress.**  An iteration that crowds out nothing computes a new position. -/
theorem totalComputed_lt
    (hsim : after n (new spec trace) = .ok sim) (hsubmitted : lastSubmit trace ≤ n)
    (hcrowd : sim.crowded = false) (hleft : ¬ allDone sim.runs = true)
    (hsim' : after (n + 1) (new spec trace) = .ok sim') :
    totalComputed sim.runs < totalComputed sim'.runs := by
  obtain ⟨mid, entry, hmid, hstep⟩ := after_succ hsim'
  cases hsim.symm.trans hmid
  have hr := reached hsim
  have hs := stepped hr.valid hstep
  have hne : sim.participants.running ≠ [] := by
    refine participants_ne_nil (hr.spec_eq ▸ hfull) (hr.spec_eq ▸ h.fits_after hsim)
      (h.noCancels_after hsim) (batchComplete_after hcount hsim) hcrowd (fun k run hrun => ?_) ?_
    · rw [hr.iteration]
      refine le_trans ?_ hsubmitted
      exact le_sum_of_mem (mem_map.mpr ⟨run.spec, spec_mem_requests hsim hrun, rfl⟩)
    · rw [allDone_iff] at hleft
      push Not at hleft
      exact hleft
  have hpos := scheduledTotal_pos hr.valid hne hs
  have hjoined := (participants_joined hr.valid).total
  have hrollback := participants_rollback (h.noCancels_after hsim) hcrowd
  have htotal := hs.total
  omega

/-- Once crowding stops, every request is done after finitely many iterations. -/
theorem eventually_done {M : Nat}
    (hcalm : ∀ m ≥ M, ∀ sim, after m (new spec trace) = .ok sim → sim.crowded = false) :
    ∃ m sim, after m (new spec trace) = .ok sim ∧ allDone sim.runs = true := by
  by_contra hnever
  push Not at hnever
  -- the total grows by one in each iteration, past all the positions that the trace asks for
  have hgrow : ∀ j sim, after (M + lastSubmit trace + j) (new spec trace) = .ok sim →
      j ≤ totalComputed sim.runs := by
    intro j
    induction j with
    | zero => exact fun _ _ => Nat.zero_le _
    | succ j ih =>
      intro sim' hsim'
      rw [← add_assoc] at hsim'
      obtain ⟨sim, _, hsim, -⟩ := after_succ hsim'
      have hlt := totalComputed_lt h hfull hcount hsim (by omega)
        (hcalm _ (by omega) sim hsim) (hnever _ sim hsim) hsim'
      have hj := ih sim hsim
      omega
  obtain ⟨sim, hsim⟩ := after_ok hfull trace (M + lastSubmit trace + (requested trace + 1))
  have hover := hgrow (requested trace + 1) sim hsim
  have hbound := totalComputed_le hsim
  omega

end

end SchedulerSimulator

end Hqsb
