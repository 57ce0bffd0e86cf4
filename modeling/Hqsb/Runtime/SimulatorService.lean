/-
Hqsb/Runtime/SimulatorService.lean

When the scheduler simulator serves every request.

Preemption is the only way back, so

    served  ↔  full reservations, the static batch holds every request,
               and from some iteration on no waiting run crowds out a running one

Left to right: a served trace ends with every run done, and then nothing waits; a request
outside the static batch is never scheduled; without full reservations the first chunk
already fails.  Right to left is `eventually_done`.

A waiting run that does not fit preempts a running one even if it only fits in its place;
the two then preempt each other for ever (`thrash_never_served`).
-/
import Hqsb.Runtime.SimulatorProgress

namespace Hqsb

open Lib List OrderedDict

namespace SchedulerSimulator

variable {spec : SchedulerSpec} {trace : RequestTrace} {n : Nat} {sim sim' : SchedulerSimulator}

/-! ### The end of a replay -/

theorem runs_of_allDone {entry : IterationLedgerEntry} (hvalid : Valid sim.runs)
    (hstep : sim.step = .ok (entry, sim')) (hdone : allDone sim.runs = true) :
    allDone sim'.runs = true := by
  rw [allDone_iff] at hdone ⊢
  intro k run hrun
  obtain ⟨old, hold, hmoves⟩ := ((stepped hvalid hstep).moves hvalid).of_get? hrun
  rw [hmoves.eq_of_done (hdone k old hold)]
  exact hdone k old hold

theorem allDone_mono {k m : Nat} {early late : SchedulerSimulator} (hkm : k ≤ m)
    (hearly : after k (new spec trace) = .ok early) (hdone : allDone early.runs = true)
    (hlate : after m (new spec trace) = .ok late) : allDone late.runs = true := by
  induction m generalizing late with
  | zero =>
    obtain rfl : k = 0 := Nat.le_zero.mp hkm
    cases hearly.symm.trans hlate
    exact hdone
  | succ m ih =>
    rcases Nat.le_succ_iff.mp hkm with hle | rfl
    · obtain ⟨mid, entry, hmid, hstep⟩ := after_succ hlate
      exact runs_of_allDone (reached hmid).valid hstep (ih hle hmid)
    · cases hearly.symm.trans hlate
      exact hdone

/-- Nothing is crowded out when every request is done. -/
theorem crowded_of_allDone (hdone : allDone sim.runs = true) : sim.crowded = false := by
  have ho := observeCancels_observed sim
  have hnil : sim.observeCancels.waiting = [] := by
    refine eq_nil_iff_forall_not_mem.mpr fun k hk => ?_
    obtain ⟨run, hrun, hstate⟩ := (ho.waiting.mem_iff k).mp hk
    obtain ⟨old, hold, hspared⟩ := ho.spared.of_get? hrun
    have hold' := allDone_iff.mp hdone k old hold
    rcases hspared with rfl | ⟨-, hnot, -⟩
    · exact RequestRun.not_done_iff.mpr (.inl hstate) hold'
    · exact hnot hold'
  rw [crowded, hnil, crowdedFrom]

variable {k : String} {run : RequestRun}

section

variable (h : Servable spec trace) (hsim : after n (new spec trace) = .ok sim)
  (hrun : sim.runs.get? k = some run)

include h hsim hrun

theorem not_cancelled_after : run.cancelled = false := by
  induction n generalizing sim run with
  | zero =>
    cases hsim
    obtain ⟨request, -, -, rfl⟩ := run_of_start hrun
    rfl
  | succ n ih =>
    obtain ⟨mid, entry, hmid, hstep⟩ := after_succ hsim
    have hvalid := (reached hmid).valid
    obtain ⟨old, hold, hmoves⟩ := ((stepped hvalid hstep).moves hvalid).of_get? hrun
    cases hmoves with
    | cancel hdue _ =>
      rw [RequestRun.cancelDue, h.noCancels_after hmid k old hold] at hdue
      cases hdue
    | acts hacts => exact (RequestRun.acts_cancelled hacts).trans (ih hmid hold)

theorem finished_of_done (hdone : run.done = true) :
    run.state = .finished ∧ run.outputTokens = run.spec.maxNewTokens := by
  have hsound := ((reached hsim).valid k run hrun).1
  have hflag := not_cancelled_after h hsim hrun
  have hstate : run.state = .finished := by
    refine (RequestRun.done_iff.mp hdone).resolve_right fun hc => ?_
    cases hflag.symm.trans (hsound.cancelled_iff.mpr hc)
  exact ⟨hstate, hsound.finished hstate⟩

end

/-! ### Who is never served -/

/-- A request outside the static batch is admitted, and never scheduled. -/
theorem unserved_after (hstatic : spec.mode = .static) (hsim : after n (new spec trace) = .ok sim)
    (hk : k ∉ (new spec trace).staticBatch) (hrun : sim.runs.get? k = some run) :
    run.computed = 0 := by
  induction n generalizing sim run with
  | zero =>
    cases hsim
    obtain ⟨request, -, -, rfl⟩ := run_of_start hrun
    rfl
  | succ n ih =>
    obtain ⟨mid, entry, hmid, hstep⟩ := after_succ hsim
    have hr := reached hmid
    have hj := participants_joined hr.valid
    have hout : k ∉ mid.participants.running := by
      rw [hj.mem_iff, hr.staticBatch]
      exact fun hmem => hk (hmem.2 (hr.spec_eq ▸ hstatic))
    rw [(stepped hr.valid hstep).untouched k hout] at hrun
    obtain ⟨old, hold, hjoining⟩ := hj.joining.of_get? hrun
    exact Nat.le_zero.mp (ih hmid hold ▸ hjoining.computed_le)

theorem computed_pos_of_finished (hsound : run.Sound) (hflag : run.cancelled = false)
    (hout : run.outputTokens = run.spec.maxNewTokens) :
    0 < run.computed := by
  have hpos := run.spec.maxNewTokens_pos
  rcases hsound.positions hflag with ⟨hzero, -, -⟩ | ⟨-, hcomputed⟩
  · omega
  · omega

/-! ### Served traces -/

/-- Some number of iterations is enough for every request to get all its tokens. -/
def Served (spec : SchedulerSpec) (trace : RequestTrace) : Prop :=
  ∃ N result last, (new spec trace).run N = .ok (result, last) ∧
    ∀ k run, last.runs.get? k = some run →
      run.state = .finished ∧ run.outputTokens = run.spec.maxNewTokens

/-- From some iteration on nothing is crowded out. -/
def EventuallyCalm (spec : SchedulerSpec) (trace : RequestTrace) : Prop :=
  ∃ M, ∀ m ≥ M, ∀ sim, after m (new spec trace) = .ok sim → sim.crowded = false

theorem served_of_calm (h : Servable spec trace) (hfull : spec.admissionReserveFullIsl = true)
    (hcount : spec.mode = .static → trace.requests.length ≤ spec.maxSequences)
    (hcalm : EventuallyCalm spec trace) : Served spec trace := by
  obtain ⟨M, hcalm⟩ := hcalm
  obtain ⟨m, early, hearly, hdone⟩ := eventually_done h hfull hcount hcalm
  obtain ⟨late, hlate⟩ := after_ok hfull trace (m + 1)
  obtain ⟨result, last, hrun⟩ := run_ok (Nat.succ_ne_zero m) hlate
  obtain ⟨k, -, hlast, hend, -⟩ := run_after hrun
  have hlastDone : allDone last.runs = true := by
    rcases hend with rfl | hend
    · exact allDone_mono (Nat.le_succ m) hearly hdone hlast
    · exact hend
  refine ⟨m + 1, result, last, hrun, fun k run hrun => ?_⟩
  exact finished_of_done h hlast hrun (allDone_iff.mp hlastDone k run hrun)

theorem calm_of_served (h : Servable spec trace) (hserved : Served spec trace) :
    spec.admissionReserveFullIsl = true ∧
      (spec.mode = .static → trace.requests.length ≤ spec.maxSequences) ∧
      EventuallyCalm spec trace := by
  obtain ⟨N, result, last, hrun, hfinished⟩ := hserved
  obtain ⟨m, -, hlast, -, -⟩ := run_after hrun
  have hcomputed : ∀ k run, last.runs.get? k = some run → 0 < run.computed := by
    intro k run hrun
    exact computed_pos_of_finished ((reached hlast).valid k run hrun).1
      (not_cancelled_after h hlast hrun) (hfinished k run hrun).2
  refine ⟨?_, fun hstatic => ?_, m, fun j hj sim hsim => crowded_of_allDone ?_⟩
  · by_contra hfull
    rw [Bool.not_eq_true] at hfull
    -- the first request was never computed
    obtain ⟨request, rest, hrequests⟩ := exists_cons_of_ne_nil trace.ne_nil
    have hmem : request.requestId ∈ last.runs.keys := by
      rw [keys_after hlast, hrequests]
      exact .head _
    obtain ⟨run, hrun⟩ := last.runs.mem_keys_iff.mp hmem
    have hpos := hcomputed _ run hrun
    have hle : run.computed ≤ totalComputed last.runs := le_sum _ hrun
    rw [after_idle hfull hlast] at hle
    omega
  · have hbatch : ∀ k ∈ trace.requests.map SimRequest.requestId,
        k ∈ (new spec trace).staticBatch := by
      intro k hk
      by_contra hout
      rw [← keys_after hlast] at hk
      obtain ⟨run, hrun⟩ := last.runs.mem_keys_iff.mp hk
      exact (hcomputed k run hrun).ne' (unserved_after hstatic hlast hout hrun)
    have hlength := (trace.nodup.subperm hbatch).length_le
    rw [length_map, new] at hlength
    rw [if_pos hstatic] at hlength
    exact hlength.trans (length_take_le _ _)
  · refine allDone_mono hj hlast (allDone_iff.mpr fun k run hrun => ?_) hsim
    exact RequestRun.done_iff.mpr (.inl (hfinished k run hrun).1)

/-- **Service.**  A trace of requests that each fit the pool is served exactly if runs
reserve their whole request, the static batch holds every request, and preemption comes
to an end. -/
theorem served_iff (h : Servable spec trace) : Served spec trace ↔
      spec.admissionReserveFullIsl = true ∧
      (spec.mode = .static → trace.requests.length ≤ spec.maxSequences) ∧
      EventuallyCalm spec trace := by
  constructor
  · exact calm_of_served h
  · rintro ⟨hfull, hcount, hcalm⟩
    exact served_of_calm h hfull hcount hcalm

/-! ### A policy without victims -/

theorem crowdedFrom_of_no_victim (hnone : spec.preemptionPolicy = .none) {iteration : Nat}
    (ids : List String) (a : Admission) : crowdedFrom spec iteration ids a = false := by
  induction ids generalizing a with
  | nil => rfl
  | cons id rest ih =>
    have hvictim : selectVictim spec a.runs a.running = none := by rw [selectVictim, hnone]
    rcases hrun : a.runs.get? id with - | run
    · rw [crowdedFrom, hrun, ih]
    · simp only [crowdedFrom, hrun, ih, hvictim, Option.isSome_none, Bool.or_self, ite_self]

theorem calm_of_no_victim (hnone : spec.preemptionPolicy = .none) (trace : RequestTrace) :
    EventuallyCalm spec trace := by
  refine ⟨0, fun m _ sim hsim => ?_⟩
  have hspec := (reached hsim).spec_eq
  exact crowdedFrom_of_no_victim (hspec ▸ hnone) _ _

/-- A pool for one request of the pair, which preempts nothing. -/
def patientSpec : SchedulerSpec :=
  { roomySpec with
    kvBlocks := 2
    usableBlocks := 2
    preemptionPolicy := .none
    kvBlocks_pos := Nat.two_pos }

theorem served_iff_patient : Served patientSpec pairTrace := by
  refine (served_iff ⟨?_, ?_⟩).mpr ⟨rfl, nofun, calm_of_no_victim rfl pairTrace⟩
  · decide
  · decide

/-! ### Two requests that crowd each other out -/

/-- The same pool, with the default preemption. -/
def thrashSpec : SchedulerSpec :=
  { roomySpec with kvBlocks := 2, usableBlocks := 2, kvBlocks_pos := Nat.two_pos }

/-- One of the two requests runs, the other waits. -/
structure Thrashing (n : Nat) (sim : SchedulerSimulator) (x y : String) : Prop where
  reached : after n (new thrashSpec pairTrace) = .ok sim
  names : x = "r0" ∧ y = "r1" ∨ x = "r1" ∧ y = "r0"
  running : ∃ run, sim.runs.get? x = some run ∧ run.state = .running
  waiting : ∃ run, sim.runs.get? y = some run ∧ run.state = .waiting

section Thrashing

variable {x y : String} {k : String} {run : RequestRun} {entry : IterationLedgerEntry}

theorem reserveBlocks_thrash (h : run.spec = sixteenTokens k) :
    reserveBlocks thrashSpec run = 2 := by
  have hfull : thrashSpec.admissionReserveFullIsl = true := rfl
  rw [reserveBlocks, h, Nat.ceilDiv_eq_add_pred_div]
  show (16 + 16 + 16 - 1) / 16 = 2
  decide

theorem servable_thrash : Servable thrashSpec pairTrace := ⟨by decide, by decide⟩

theorem Thrashing.spec_eq (h : Thrashing n sim x y) : sim.spec = thrashSpec :=
  (SchedulerSimulator.reached h.reached).spec_eq

theorem Thrashing.ne (h : Thrashing n sim x y) : x ≠ y := by
  rcases h.names with ⟨rfl, rfl⟩ | ⟨rfl, rfl⟩
  · decide
  · decide

theorem Thrashing.request (h : Thrashing n sim x y) (hrun : sim.runs.get? k = some run) :
    run.spec = sixteenTokens k := by
  obtain ⟨start, hstart, hspec⟩ := (SchedulerSimulator.reached h.reached).requests.of_get? hrun
  obtain ⟨hmem, rfl⟩ := mem_requests_of_get? hstart
  rw [hspec]
  rcases mem_cons.mp hmem with h0 | hmem
  · rw [h0]
    rfl
  · rw [mem_singleton.mp hmem]
    rfl

theorem Thrashing.key (h : Thrashing n sim x y) (hrun : sim.runs.get? k = some run) :
    k = x ∨ k = y := by
  have hk := mem_keys_of_get? hrun
  rw [keys_after h.reached] at hk
  have hk : k = "r0" ∨ k = "r1" := by
    rcases mem_cons.mp hk with rfl | hk
    · exact .inl rfl
    · exact .inr (mem_singleton.mp hk)
  rcases h.names with ⟨rfl, rfl⟩ | ⟨rfl, rfl⟩
  · exact hk
  · exact hk.symm

theorem idsIn_eq_singleton {runs : Runs} {state : RunState}
    (h : ∀ j, (∃ run, runs.get? j = some run ∧ run.state = state) ↔ j = k) :
    idsIn runs state = [k] := by
  have hl := lists_idsIn runs state
  refine perm_singleton.mp ((perm_ext_iff_of_nodup hl.nodup (nodup_singleton k)).mpr
    fun j => ?_)
  rw [hl.mem_iff, h, mem_singleton]

section

variable (h : Thrashing n sim x y)

include h

theorem Thrashing.observeCancels_eq :
    sim.observeCancels = { runs := sim.runs, waiting := [y], running := [x] } := by
  obtain ⟨rx, hrx, hsx⟩ := h.running
  obtain ⟨ry, hry, hsy⟩ := h.waiting
  have hwaiting : idsIn sim.runs .waiting = [y] := by
    refine idsIn_eq_singleton fun k => ⟨?_, fun hk => ⟨ry, hk ▸ hry, hsy⟩⟩
    rintro ⟨run, hrun, hstate⟩
    refine (h.key hrun).resolve_left fun hk => ?_
    cases (hk ▸ hrun).symm.trans hrx
    cases hsx.symm.trans hstate
  have hrunning : idsIn sim.runs .running = [x] := by
    refine idsIn_eq_singleton fun k => ⟨?_, fun hk => ⟨rx, hk ▸ hrx, hsx⟩⟩
    rintro ⟨run, hrun, hstate⟩
    refine (h.key hrun).resolve_right fun hk => ?_
    cases (hk ▸ hrun).symm.trans hry
    cases hsy.symm.trans hstate
  rw [SchedulerSimulator.observeCancels_eq (servable_thrash.noCancels_after h.reached), hwaiting,
    hrunning]

/-- The waiting request takes the place of the running one. -/
theorem Thrashing.participants_eq {rx ry : RequestRun}
    (hrx : sim.runs.get? x = some rx) (hry : sim.runs.get? y = some ry) :
    sim.crowded = true ∧
      sim.participants.runs = (sim.runs.set x rx.preempted).set y (ry.admitted sim.iteration) ∧
      sim.participants.running = [y] := by
  have hx := h.request hrx
  have hy := h.request hry
  have hsubmit : ¬ sim.iteration < ry.spec.submitIteration := by
    rw [hy]
    exact Nat.not_lt_zero _
  have hfull : capacityOk thrashSpec sim.runs ry [x] = false := by
    simp only [capacityOk, blocksHeld, map_cons, hrx,
      Option.map_some, reserveBlocks_thrash hx, reserveBlocks_thrash hy]
    rfl
  have hempty : ∀ runs, capacityOk thrashSpec runs ry [] = true := by
    intro runs
    rw [capacityOk, blocksHeld, map_nil, reserveBlocks_thrash hy]
    rfl
  have hvictim : selectVictim thrashSpec sim.runs [x] = some x := argmax_singleton
  constructor
  · rw [crowded, h.observeCancels_eq, h.spec_eq]
    simp only [crowdedFrom, hry, if_neg hsubmit, hfull]
    rfl
  · have hmode : thrashSpec.mode ≠ .static := by decide
    have hroom : ¬ thrashSpec.maxSequences ≤ [x].length := Nat.not_le.mpr (show 1 < 4 by decide)
    have hadmission : sim.admission =
        Admission.admitRun
          (Admission.preempt { runs := sim.runs, waiting := [y], running := [x] } x)
          sim.iteration y ry := by
      rw [admission, h.observeCancels_eq, h.spec_eq]
      simp only [Admission.admitAll, hry, if_neg hsubmit, if_neg hroom, hfull, Bool.false_eq_true,
        if_false, hvictim, Admission.preempt, hrx, erase_cons_head, hempty, if_true]
    rw [participants, h.spec_eq, hadmission]
    simp only [if_neg hmode, Admission.preempt, hrx, Admission.admitRun, erase_cons_head,
      nil_append, and_self]

/-- The one participant gets its prompt and its first token. -/
theorem Thrashing.scheduledTotal_eq (hs : Stepped sim entry sim') : entry.scheduledTotal = 17 := by
  obtain ⟨rx, hrx, -⟩ := h.running
  obtain ⟨ry, hry, hsy⟩ := h.waiting
  obtain ⟨-, hruns, hrunning⟩ := h.participants_eq hrx hry
  have hy : ry.spec = sixteenTokens y := h.request hry
  have hspec : (ry.admitted sim.iteration).spec = sixteenTokens y := hy
  have hzero : (ry.admitted sim.iteration).computed = 0 :=
    (((SchedulerSimulator.reached h.reached).valid y ry hry).1.waiting hsy).1
  have hinside : ¬ (ry.admitted sim.iteration).prefilled = true := by
    rw [RequestRun.prefilled_iff, hzero, hspec]
    exact Nat.not_succ_le_zero 15
  have hallowance : allowance thrashSpec (ry.admitted sim.iteration) 64 = (16 : Nat) := by
    have hmode : thrashSpec.mode ≠ .chunkedPrefill := nofun
    rw [allowance, hzero, hspec]
    rfl
  have hdemand : demand thrashSpec (ry.admitted sim.iteration) 64 = 17 := by
    rw [demand_of_inside rfl hinside hallowance (by decide), if_pos (by rw [hzero, hspec]; rfl)]
    rfl
  have hremainder : sim.remainder = 64 - 17 := by
    rw [remainder, h.spec_eq, hrunning, hruns]
    show leftOver thrashSpec _ [y] 64 = _
    simp only [leftOver, get?_set_self, Option.map_some, Option.getD_some, hdemand]
  have hscheduled := hs.scheduledTotal
  rw [h.spec_eq] at hscheduled
  have hbudget : ((thrashSpec.maxBatchedTokens : Nat) : Int) = 64 := rfl
  omega

/-- Nothing that was computed before is left when they are scheduled. -/
theorem Thrashing.total_eq : totalComputed sim.participants.runs = 0 := by
  obtain ⟨rx, hrx, -⟩ := h.running
  obtain ⟨ry, hry, hsy⟩ := h.waiting
  obtain ⟨-, hruns, -⟩ := h.participants_eq hrx hry
  refine sum_eq_zero fun computed hmem => ?_
  obtain ⟨run, hvalue, rfl⟩ := mem_map.mp hmem
  obtain ⟨k, hrun⟩ := (mem_values_iff _).mp hvalue
  rw [hruns, get?_set, get?_set] at hrun
  split_ifs at hrun with hky hkx
  · cases hrun
    exact (((SchedulerSimulator.reached h.reached).valid y ry hry).1.waiting hsy).1
  · cases hrun
    rfl
  · exact ((h.key hrun).elim hkx hky).elim

/-- It gets no further than its first token before the two change places again. -/
theorem Thrashing.step (hstep : sim.step = .ok (entry, sim')) : Thrashing (n + 1) sim' y x := by
  obtain ⟨rx, hrx, hsx⟩ := h.running
  obtain ⟨ry, hry, hsy⟩ := h.waiting
  obtain ⟨-, hruns, hrunning⟩ := h.participants_eq hrx hry
  have hvalid := (SchedulerSimulator.reached h.reached).valid
  have hs := stepped hvalid hstep
  have hreached := after_succ_of_step h.reached hstep
  refine ⟨hreached, h.names.symm.imp And.symm And.symm, ?_, ?_⟩
  · have hpy : sim.participants.runs.get? y = some (ry.admitted sim.iteration) := by
      rw [hruns, get?_set_self]
    obtain ⟨run, hrun, -, hstate⟩ := hs.proceeding.related y _ hpy
    refine ⟨run, hrun, hstate.resolve_right fun hfinished => ?_⟩
    have hsound := ((SchedulerSimulator.reached hreached).valid y run hrun).1
    have hspec : run.spec = sixteenTokens y := by
      obtain ⟨old, hold, hmoves⟩ := (hs.moves hvalid).of_get? hrun
      exact hmoves.spec_eq.trans (h.request hold)
    have hout := hsound.finished hfinished
    have hle : run.computed ≤ totalComputed sim'.runs := le_sum _ hrun
    rw [hs.total, h.total_eq, h.scheduledTotal_eq hs] at hle
    rcases hsound.positions (not_cancelled_after servable_thrash hreached hrun) with
      ⟨hnone, -, -⟩ | ⟨-, hpos⟩
    · rw [hnone, hspec] at hout
      cases hout
    · rw [hout, hspec] at hpos
      have hall : run.computed = 16 + 16 := hpos
      omega
  · refine ⟨rx.preempted, ?_, rfl⟩
    rw [hs.untouched x, hruns, get?_set_of_ne _ _ h.ne, get?_set_self]
    rw [hrunning, mem_singleton]
    exact h.ne

end

/-- After the first iteration the second request runs in the place of the first. -/
theorem thrashing_one : ∃ sim, Thrashing 1 sim "r1" "r0" := by
  have hview : (after 1 (new thrashSpec pairTrace)).toOption.map (fun sim =>
      ((sim.runs.get? "r1").map (·.state), (sim.runs.get? "r0").map (·.state))) =
      some (some .running, some .waiting) := by
    decide +kernel
  obtain ⟨sim, hsim, hstates⟩ := after_of_view hview
  obtain ⟨h1, h0⟩ := Prod.mk.inj hstates
  exact ⟨sim, hsim, .inr ⟨rfl, rfl⟩, Option.map_eq_some_iff.mp h1, Option.map_eq_some_iff.mp h0⟩

theorem thrashing_always (n : Nat) : ∃ sim x y, Thrashing (n + 1) sim x y := by
  induction n with
  | zero =>
    obtain ⟨sim, h⟩ := thrashing_one
    exact ⟨sim, "r1", "r0", h⟩
  | succ n ih =>
    obtain ⟨sim, x, y, h⟩ := ih
    obtain ⟨sim', hsim'⟩ : ∃ sim', after (n + 1 + 1) (new thrashSpec pairTrace) = .ok sim' :=
      after_ok rfl pairTrace (n + 1 + 1)
    obtain ⟨mid, entry, hmid, hstep⟩ := after_succ hsim'
    cases h.reached.symm.trans hmid
    exact ⟨sim', y, x, h.step hstep⟩

end Thrashing

/-- The two requests fit the pool one at a time, and no number of iterations serves them. -/
theorem thrash_never_served : Servable thrashSpec pairTrace ∧ ¬ Served thrashSpec pairTrace := by
  refine ⟨servable_thrash, fun hserved => ?_⟩
  obtain ⟨-, -, M, hcalm⟩ := calm_of_served servable_thrash hserved
  obtain ⟨sim, x, y, h⟩ := thrashing_always M
  obtain ⟨rx, hrx, -⟩ := h.running
  obtain ⟨ry, hry, -⟩ := h.waiting
  have hcrowded := (h.participants_eq hrx hry).1
  rw [hcalm (M + 1) (Nat.le_succ M) sim h.reached] at hcrowded
  cases hcrowded

end SchedulerSimulator

end Hqsb
