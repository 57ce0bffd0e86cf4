/-
Hqsb/Runtime/SimulatorReservation.lean

When the scheduler simulator never refuses a chunk as outside its reservation.

With full reservations no chunk leaves what was reserved.  With only the computed
positions reserved a run that enters has reserved nothing, so its first chunk is
refused.  Then the refusal stays away exactly if nothing is ever scheduled: every
request that may take part is cancelled by the iteration in which it is submitted
(`SimRequest.withdrawn`), so no run of them leaves the queue (`after_absent`).
-/
import Hqsb.Runtime.SimulatorProgress

namespace Hqsb

open Lib List

/-- The request is cancelled by the iteration in which it is submitted. -/
def SimRequest.withdrawn (request : SimRequest) : Bool :=
  request.cancelAtIteration.any (· ≤ (request.submitIteration : Int))

namespace RequestRun

variable {run : RequestRun} {iteration : Nat}

theorem cancelDue_of_withdrawn (h : run.spec.withdrawn = true)
    (hsubmit : run.spec.submitIteration ≤ iteration) : run.cancelDue iteration = true := by
  rw [SimRequest.withdrawn, Option.any_eq_true] at h
  obtain ⟨cancelAt, hcancelAt, hle⟩ := h
  rw [cancelDue, Option.any_eq_true]
  have hle' := of_decide_eq_true hle
  exact ⟨cancelAt, hcancelAt, decide_eq_true (by omega)⟩

theorem cancelDue_of_not_withdrawn (h : ¬ run.spec.withdrawn = true)
    (hsubmit : iteration ≤ run.spec.submitIteration) : run.cancelDue iteration = false := by
  rw [← Bool.not_eq_true, cancelDue, Option.any_eq_true]
  rintro ⟨cancelAt, hcancelAt, hle⟩
  have hle' := of_decide_eq_true hle
  refine h ?_
  rw [SimRequest.withdrawn, Option.any_eq_true]
  exact ⟨cancelAt, hcancelAt, decide_eq_true (by omega)⟩

end RequestRun

namespace SchedulerSimulator

variable {spec : SchedulerSpec} {trace : RequestTrace} {n : Nat} {sim : SchedulerSimulator}

/-- The requests that may take part; static mode leaves out those beyond the first batch. -/
def eligible (spec : SchedulerSpec) (trace : RequestTrace) : List SimRequest :=
  if spec.mode = .static then trace.requests.take spec.maxSequences else trace.requests

/-- No iteration refuses a chunk as outside its reservation. -/
def NeverOverReserved (spec : SchedulerSpec) (trace : RequestTrace) : Prop :=
  ∀ n k, after n (new spec trace) ≠ .error (.overReserved k)

/-! ### The one error -/

theorem entries_error {iteration : Nat} {ids : List String} {s : Schedule} {error : SimError}
    (h : Schedule.entries spec iteration ids s = .error error) : ∃ k, error = .overReserved k := by
  induction ids generalizing s with
  | nil => cases h
  | cons k rest ih =>
    rcases hentry : s.entry spec iteration k with error' | t
    · rw [Schedule.entries, hentry] at h
      cases h
      rw [Schedule.entry] at hentry
      rcases hrun : s.runs.get? k with - | run
      · rw [hrun] at hentry
        cases hentry
      · simp only [hrun] at hentry
        split_ifs at hentry
        exact ⟨k, (Except.error.inj hentry).symm⟩
    · rw [Schedule.entries, hentry] at h
      exact ih h

theorem step_error (h : Valid sim.runs) {error : SimError} (hstep : sim.step = .error error) :
    ∃ k, error = .overReserved k := by
  rcases hs : sim.schedule with error' | s
  · rw [step_of_error hs] at hstep
    cases hstep
    exact entries_error hs
  · rw [step_of_ok h hs] at hstep
    cases hstep

/-- Without that refusal every iteration is made. -/
theorem NeverOverReserved.after (h : NeverOverReserved spec trace) (n : Nat) :
    ∃ sim, after n (new spec trace) = .ok sim := by
  induction n with
  | zero => exact ⟨_, rfl⟩
  | succ n ih =>
    obtain ⟨sim, hsim⟩ := ih
    rcases hstep : sim.step with error | ⟨entry, sim'⟩
    · obtain ⟨k, rfl⟩ := step_error (reached hsim).valid hstep
      refine absurd ?_ (h (n + 1) k)
      rw [SchedulerSimulator.after, hsim]
      simp only [hstep]
    · exact ⟨sim', after_succ_of_step hsim hstep⟩

/-! ### Withdrawn requests -/

/-- A withdrawn run that waits or was cancelled is so among the participants too. -/
theorem absent_of_joining {iteration : Nat} {run run' : RequestRun}
    (hwithdrawn : run.spec.withdrawn = true) (hjoining : Joining iteration run run')
    (hsettled : run'.done = true ∨ run'.cancelDue iteration = false)
    (h : run.state = .waiting ∨ run.state = .cancelled) :
    run'.state = .waiting ∨ run'.state = .cancelled := by
  obtain ⟨mid, hspared, hentering⟩ := hjoining
  rcases hspared with rfl | ⟨-, -, rfl⟩
  · rcases h with hwaiting | hcancelled
    · rcases RequestRun.acts_of_waiting hentering.acts hwaiting with rfl | hsubmit
      · exact .inl hwaiting
      -- a submitted run that was not cancelled would have its cancel due
      · have hdue := RequestRun.cancelDue_of_withdrawn hwithdrawn hsubmit
        rw [RequestRun.cancelDue, ← RequestRun.acts_spec hentering.acts] at hdue
        rcases hsettled with hdone | hnot
        · rw [hentering.done_eq, RequestRun.done_iff, hwaiting] at hdone
          rcases hdone with hdone | hdone
          all_goals cases hdone
        · cases hdue.symm.trans hnot
    · rw [RequestRun.acts_of_done hentering.acts (RequestRun.done_iff.mpr (.inr hcancelled))]
      exact .inr hcancelled
  · have hdone : (run.cancel iteration).done = true := RequestRun.done_iff.mpr (.inr rfl)
    rw [RequestRun.acts_of_done hentering.acts hdone]
    exact .inr rfl

/-- The run of an eligible request waits or was cancelled. -/
def Absent (sim : SchedulerSimulator) : Prop :=
  ∀ k run, sim.runs.get? k = some run → (sim.spec.mode = .static → k ∈ sim.staticBatch) →
    run.state = .waiting ∨ run.state = .cancelled

/-- A run that may take part belongs to an eligible request. -/
theorem spec_mem_eligible (hsim : after n (new spec trace) = .ok sim) {k : String}
    {run : RequestRun} (hrun : sim.runs.get? k = some run)
    (hbatch : sim.spec.mode = .static → k ∈ sim.staticBatch) :
    run.spec ∈ eligible spec trace := by
  have hr := reached hsim
  obtain ⟨start, hstart, hspec⟩ := hr.requests.of_get? hrun
  obtain ⟨hmem, hid⟩ := mem_requests_of_get? hstart
  rw [hspec, eligible]
  by_cases hstatic : spec.mode = .static
  · rw [if_pos hstatic]
    have hk := hbatch (hr.spec_eq.symm ▸ hstatic)
    rw [hr.staticBatch, new] at hk
    simp only [if_pos hstatic, ← map_take, mem_map] at hk
    obtain ⟨request, htake, hrequest⟩ := hk
    have heq := inj_on_of_nodup_map trace.nodup (mem_of_mem_take htake) hmem
      (hrequest.trans hid.symm)
    exact heq ▸ htake
  · rw [if_neg hstatic]
    exact hmem

/-- If every eligible request is withdrawn, none of their runs is ever scheduled. -/
theorem after_absent (h : ∀ request ∈ eligible spec trace, request.withdrawn = true) (n : Nat) :
    ∃ sim, after n (new spec trace) = .ok sim ∧ sim.Absent := by
  induction n with
  | zero =>
    refine ⟨_, rfl, fun k run hrun _ => .inl ?_⟩
    obtain ⟨request, -, -, rfl⟩ := run_of_start hrun
    rfl
  | succ n ih =>
    obtain ⟨sim, hsim, habsent⟩ := ih
    have hr := reached hsim
    have hj := participants_joined hr.valid
    have hjoined : ∀ k run', sim.participants.runs.get? k = some run' →
        (sim.spec.mode = .static → k ∈ sim.staticBatch) →
          run'.state = .waiting ∨ run'.state = .cancelled := by
      intro k run' hrun' hbatch
      obtain ⟨run, hrun, hjoining⟩ := hj.joining.of_get? hrun'
      exact absent_of_joining (h _ (spec_mem_eligible hsim hrun hbatch)) hjoining
        (hj.settled k run' hrun') (habsent k run hrun hbatch)
    have hnil : sim.participants.running = [] := by
      refine eq_nil_iff_forall_not_mem.mpr fun k hk => ?_
      obtain ⟨⟨run', hrun', hstate⟩, hbatch⟩ := (hj.mem_iff k).mp hk
      rcases hjoined k run' hrun' hbatch with hwaiting | hcancelled
      · cases hstate.symm.trans hwaiting
      · cases hstate.symm.trans hcancelled
    have hschedule : ∃ s, sim.schedule = .ok s := by
      rw [schedule, hnil]
      exact ⟨_, rfl⟩
    obtain ⟨s, hs⟩ := hschedule
    have hstep := step_of_ok hr.valid hs
    have hstepped := stepped hr.valid hstep
    refine ⟨_, after_succ_of_step hsim hstep, fun k run hrun hbatch => ?_⟩
    rw [hstepped.untouched k (hnil ▸ not_mem_nil)] at hrun
    exact hjoined k run hrun hbatch

/-! ### Requests that take part -/

theorem waiting_until_submitted (hsim : after n (new spec trace) = .ok sim) {request : SimRequest}
    (hmem : request ∈ trace.requests) (hnot : ¬ request.withdrawn = true)
    (hn : n ≤ request.submitIteration) :
    ∃ run, sim.runs.get? request.requestId = some run ∧ run.spec = request ∧
      run.state = .waiting := by
  induction n generalizing sim with
  | zero =>
    cases hsim
    refine ⟨{ spec := request }, ?_, rfl, rfl⟩
    exact (OrderedDict.get?_eq_some_iff _).mpr (mem_map.mpr ⟨request, hmem, rfl⟩)
  | succ n ih =>
    obtain ⟨mid, entry, hmid, hstep⟩ := after_succ hsim
    have hr := reached hmid
    obtain ⟨run, hrun, rfl, hstate⟩ := ih hmid (Nat.le_of_succ_le hn)
    obtain ⟨run', hrun', hmoves⟩ := ((stepped hr.valid hstep).moves hr.valid).related _ _ hrun
    rw [hr.iteration] at hmoves
    refine ⟨run', hrun', hmoves.spec_eq, ?_⟩
    cases hmoves with
    | cancel hdue _ =>
      have hnotDue := RequestRun.cancelDue_of_not_withdrawn hnot (Nat.le_of_succ_le hn)
      cases hdue.symm.trans hnotDue
    | acts hacts =>
      rcases RequestRun.acts_of_waiting hacts hstate with rfl | hsubmit
      · exact hstate
      · omega

section

variable (hfull : spec.admissionReserveFullIsl = false)

include hfull

theorem blocks_of_idle {runs : Runs}
    (hzero : totalComputed runs = 0) {k : String} {run : RequestRun}
    (hrun : runs.get? k = some run) : reserveBlocks spec run = 0 := by
  have hle : run.computed ≤ totalComputed runs := OrderedDict.le_sum _ hrun
  have hnone : run.computed = 0 := by omega
  rw [reserveBlocks, hfull, hnone]
  exact zero_ceilDiv _

theorem blocksHeld_of_idle {runs : Runs}
    (hzero : totalComputed runs = 0) (ids : List String) : blocksHeld spec runs ids = 0 := by
  refine sum_eq_zero fun blocks hmem => ?_
  obtain ⟨k, -, rfl⟩ := mem_map.mp hmem
  rcases hrun : runs.get? k with - | run
  · rfl
  · exact blocks_of_idle hfull hzero hrun

theorem crowdedFrom_of_idle {iteration : Nat}
    (ids : List String) {a : Admission} (hzero : totalComputed a.runs = 0) :
    crowdedFrom spec iteration ids a = false := by
  induction ids generalizing a with
  | nil => rfl
  | cons id rest ih =>
    rcases hrun : a.runs.get? id with - | run
    · rw [crowdedFrom, hrun, ih hzero]
    · have hfits : capacityOk spec a.runs run a.running = true := by
        rw [capacityOk, blocksHeld_of_idle hfull hzero, blocks_of_idle hfull hzero hrun]
        exact decide_eq_true (Nat.zero_le _)
      have hadmitted : totalComputed (a.admitRun iteration id run).runs = 0 := by
        have hset := total_set (run.admitted iteration) hrun
        have hsame : (run.admitted iteration).computed = run.computed := rfl
        show totalComputed (a.runs.set id (run.admitted iteration)) = 0
        omega
      simp only [crowdedFrom, hrun, hfits, ih hzero, ih hadmitted, if_true, ite_self]

/-- A request that is not withdrawn is refused in the iteration in which it is submitted, if no
iteration before was. -/
theorem not_neverOverReserved
    {request : SimRequest} (hmem : request ∈ eligible spec trace)
    (hnot : ¬ request.withdrawn = true) : ¬ NeverOverReserved spec trace := by
  intro hnever
  have hrequest : request ∈ trace.requests := by
    rw [eligible] at hmem
    split_ifs at hmem
    · exact mem_of_mem_take hmem
    · exact hmem
  obtain ⟨sim', hsim'⟩ := hnever.after (request.submitIteration + 1)
  obtain ⟨sim, entry, hsim, hstep⟩ := after_succ hsim'
  have hr := reached hsim
  have hidle := after_idle hfull hsim
  have ho := observeCancels_observed sim
  have hobserved : totalComputed sim.observeCancels.runs = 0 := by
    have htotal := ho.total
    omega
  have hfull' : sim.spec.admissionReserveFullIsl = false := hr.spec_eq ▸ hfull
  obtain ⟨run, hrun, rfl, hstate⟩ := waiting_until_submitted hsim hrequest hnot le_rfl
  -- it is not cancelled before admission
  have hnotDue : run.cancelDue sim.iteration = false :=
    RequestRun.cancelDue_of_not_withdrawn hnot hr.iteration.le
  obtain ⟨mid, hmid, hspared⟩ := ho.spared.related _ _ hrun
  obtain rfl : mid = run := hspared.resolve_right fun hcancelled =>
    absurd (hcancelled.1.symm.trans hnotDue) nofun
  refine participants_ne_nil_of_roomy (fun k run' hrun' => ?_) ?_ hmid
    (RequestRun.not_done_iff.mpr (.inl hstate)) hr.iteration.ge ?_
    (participants_nil hfull' hr.valid hidle hstep)
  · rw [blocks_of_idle hfull' hobserved hrun']
    exact Nat.zero_le _
  · exact crowdedFrom_of_idle hfull' _ hobserved
  · intro hstatic
    rw [hr.spec_eq] at hstatic
    rw [eligible, if_pos hstatic] at hmem
    rw [hr.staticBatch, new]
    simp only [if_pos hstatic, ← map_take]
    exact mem_map_of_mem hmem

end

/-! ### The reservation -/

/-- **No chunk is ever refused** exactly if whole requests are reserved or nothing is scheduled. -/
theorem never_over_reserved_iff (spec : SchedulerSpec) (trace : RequestTrace) :
    NeverOverReserved spec trace ↔ spec.admissionReserveFullIsl = true ∨
      ∀ request ∈ eligible spec trace, request.withdrawn = true := by
  constructor
  · intro hnever
    by_cases hfull : spec.admissionReserveFullIsl = true
    · exact .inl hfull
    · refine .inr fun request hmem => ?_
      by_contra hnot
      exact not_neverOverReserved ((Bool.not_eq_true _).mp hfull) hmem hnot hnever
  · rintro (hfull | hwithdrawn) n k herror
    · obtain ⟨sim, hsim⟩ := after_ok hfull trace n
      cases hsim.symm.trans herror
    · obtain ⟨sim, hsim, -⟩ := after_absent hwithdrawn n
      cases hsim.symm.trans herror

/-- Room for everything, and only the computed positions are reserved. -/
def computedOnlySpec : SchedulerSpec := { roomySpec with admissionReserveFullIsl := false }

/-- The first chunk of a single request is refused. -/
theorem first_chunk_refused : ¬ ∀ spec trace, NeverOverReserved spec trace := by
  intro h
  have hview : (after 1 (new computedOnlySpec singleTrace)).map (fun _ => ()) =
      .error (.overReserved "r0") := by
    decide +kernel
  rcases hafter : after 1 (new computedOnlySpec singleTrace) with error | sim
  · rw [hafter] at hview
    cases hview
    exact h computedOnlySpec singleTrace 1 "r0" hafter
  · rw [hafter] at hview
    cases hview

end SchedulerSimulator

end Hqsb
