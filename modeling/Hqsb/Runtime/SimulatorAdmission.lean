/-
Hqsb/Runtime/SimulatorAdmission.lean

What one iteration of the scheduler simulator does before it schedules.

    observeCancels   cancels what is due                       `Observed`
    admitAll         admits and preempts, move by move         `Admission.Move`
    admitBatch       the second way in, for the static batch   `Admission.Move`

Each phase is described once: what it did to every run, to the list of the running
runs and to the total of computed positions.  `Move` keeps the guards of the two loops,
so that the bounds of the admission check can be read off it later.
-/
import Hqsb.Runtime.SimulatorRuns

namespace Hqsb

open Lib List OrderedDict
open Relation (ReflTransGen)

namespace SchedulerSimulator

variable {spec : SchedulerSpec} {iteration : Nat} {batch : List String}

/-! ### Lists of runs -/

/-- `ids` lists the runs in a state. -/
structure Lists (runs : Runs) (state : RunState) (ids : List String) : Prop where
  nodup : ids.Nodup
  mem_iff : ∀ id, id ∈ ids ↔ ∃ run, runs.get? id = some run ∧ run.state = state

section Lists

variable {runs : Runs} {state : RunState} {ids : List String} {id : String}
  {run run' : RequestRun}

theorem lists_idsIn (runs : Runs) (state : RunState) : Lists runs state (idsIn runs state) where
  nodup := runs.nodup_keys.filter _
  mem_iff := by
    intro id
    simp only [idsIn, mem_filter, Option.any_eq_true, decide_eq_true_eq]
    constructor
    · rintro ⟨-, run, hrun, hstate⟩
      exact ⟨run, hrun, hstate⟩
    · rintro ⟨run, hrun, hstate⟩
      exact ⟨mem_keys_of_get? hrun, run, hrun, hstate⟩

theorem Lists.state_of_mem (h : Lists runs state ids) (hid : id ∈ ids)
    (hrun : runs.get? id = some run) : run.state = state := by
  obtain ⟨run', hrun', hstate⟩ := (h.mem_iff id).mp hid
  cases hrun.symm.trans hrun'
  exact hstate

theorem Lists.set_erase (h : Lists runs state ids) (hne : run'.state ≠ state) :
    Lists (runs.set id run') state (ids.erase id) where
  nodup := h.nodup.erase id
  mem_iff := by
    intro k
    rw [h.nodup.mem_erase_iff, h.mem_iff, get?_set]
    by_cases hk : k = id
    · rw [if_pos hk]
      constructor
      · rintro ⟨hne, -⟩
        exact absurd hk hne
      · rintro ⟨run, hrun, hstate⟩
        cases hrun
        exact absurd hstate hne
    · rw [if_neg hk]
      exact and_iff_right hk

theorem Lists.set_append (h : Lists runs state ids) (hid : id ∉ ids) (hstate : run'.state = state) :
    Lists (runs.set id run') state (ids ++ [id]) where
  nodup := by
    rw [← concat_eq_append]
    exact h.nodup.concat hid
  mem_iff := by
    intro k
    rw [mem_append, mem_singleton, h.mem_iff, get?_set]
    by_cases hk : k = id
    · rw [if_pos hk]
      exact iff_of_true (.inr hk) ⟨run', rfl, hstate⟩
    · rw [if_neg hk]
      exact or_iff_left hk

theorem total_set (run' : RequestRun) (hrun : runs.get? id = some run) :
    totalComputed (runs.set id run') + run.computed = totalComputed runs + run'.computed :=
  sum_set_of_get? RequestRun.computed run' hrun

end Lists

/-! ### Cancels -/

/-- A run as the first loop leaves it. -/
def Spared (iteration : Nat) (run run' : RequestRun) : Prop :=
  run' = run ∨ run.cancelDue iteration = true ∧ ¬ run.done = true ∧ run' = run.cancel iteration

/-- What the first loop did to the runs. -/
structure Observed (iteration : Nat) (runs : Runs) (a : Admission) : Prop where
  spared : OrderedDict.Pointwise (Spared iteration) runs a.runs
  running : Lists a.runs .running a.running
  waiting : Lists a.runs .waiting a.waiting
  total : totalComputed a.runs + a.rollback = totalComputed runs
  preempted : a.preempted = []

theorem Spared.trans {u v w : RequestRun} (h : Spared iteration u v) (h' : Spared iteration v w) :
    Spared iteration u w := by
  rcases h with rfl | ⟨hdue, hdone, rfl⟩
  · exact h'
  · rcases h' with rfl | ⟨-, hdone', -⟩
    · exact .inr ⟨hdue, hdone, rfl⟩
    · exact absurd (RequestRun.done_iff.mpr (.inr rfl)) hdone'

variable {a b : Admission} {runs : Runs} (ids : List String) {id victim : String}
  {run : RequestRun} (sim : SchedulerSimulator)

theorem Observed.cancel (h : Observed iteration runs a) (id : String) :
    Observed iteration runs (a.cancel iteration id) := by
  rcases hrun : a.runs.get? id with - | run
  · simpa only [Admission.cancel, hrun] using h
  · simp only [Admission.cancel, hrun]
    split_ifs with hcancel
    · obtain ⟨hdue, hdone⟩ := hcancel
      refine ⟨?_, h.running.set_erase nofun, h.waiting.set_erase nofun, ?_, h.preempted⟩
      · refine h.spared.trans (pointwise_set (fun _ => .inl rfl) hrun ?_)
          fun u v w => Spared.trans
        exact .inr ⟨hdue, hdone, rfl⟩
      · have hset := total_set (run.cancel iteration) hrun
        have htotal := h.total
        have hzero : (run.cancel iteration).computed = 0 := rfl
        show totalComputed (a.runs.set id (run.cancel iteration)) + (a.rollback + run.computed) =
          totalComputed runs
        omega
    · exact h

theorem observed_foldl (h : Observed iteration runs a) :
    Observed iteration runs (ids.foldl (Admission.cancel iteration) a) := by
  induction ids generalizing a with
  | nil => exact h
  | cons id ids ih => exact ih (h.cancel id)

theorem cancel_get?_of_ne (a : Admission) {k : String} (hk : k ≠ id) :
    (a.cancel iteration id).runs.get? k = a.runs.get? k := by
  rcases hrun : a.runs.get? id with - | run
  · rw [Admission.cancel, hrun]
  · simp only [Admission.cancel, hrun]
    split_ifs
    · exact get?_set_of_ne _ _ hk
    · rfl

theorem cancel_settles (a : Admission) (hrun : (a.cancel iteration id).runs.get? id = some run) :
    run.done = true ∨ run.cancelDue iteration = false := by
  rcases hold : a.runs.get? id with - | old
  · simp only [Admission.cancel, hold] at hrun
    cases hrun
  · simp only [Admission.cancel, hold] at hrun
    split_ifs at hrun with hcancel
    · rw [get?_set_self] at hrun
      cases hrun
      exact .inl (RequestRun.done_iff.mpr (.inr rfl))
    · obtain rfl := Option.some.inj (hold.symm.trans hrun)
      by_cases hdone : old.done = true
      · exact .inl hdone
      · refine .inr (Bool.not_eq_true _ ▸ fun hdue => hcancel ⟨hdue, hdone⟩)

theorem foldl_cancel_settles (a : Admission) (hid : id ∈ ids ∨ ∀ run, a.runs.get? id = some run →
      run.done = true ∨ run.cancelDue iteration = false)
    (hrun : (ids.foldl (Admission.cancel iteration) a).runs.get? id = some run) :
    run.done = true ∨ run.cancelDue iteration = false := by
  induction ids generalizing a with
  | nil =>
    rcases hid with hid | hid
    · cases hid
    · exact hid run hrun
  | cons k ids ih =>
    refine ih (a.cancel iteration k) ?_ hrun
    by_cases hk : id = k
    · subst hk
      exact .inr fun run hrun => cancel_settles a hrun
    · rcases hid with hid | hid
      · exact .inl ((mem_cons.mp hid).resolve_left hk)
      · refine .inr fun run hrun => hid run ?_
        rwa [cancel_get?_of_ne a hk] at hrun

theorem observeCancels_observed : Observed sim.iteration sim.runs sim.observeCancels := by
  refine observed_foldl _ ⟨?_, lists_idsIn _ _, lists_idsIn _ _, add_zero _, rfl⟩
  exact OrderedDict.Pointwise.refl (fun _ => .inl rfl) _

theorem observeCancels_settled (hrun : sim.observeCancels.runs.get? id = some run) :
    run.done = true ∨ run.cancelDue sim.iteration = false := by
  refine foldl_cancel_settles _ _ ?_ hrun
  obtain ⟨old, hold, hspared⟩ := (observeCancels_observed sim).spared.of_get? hrun
  by_cases hdone : old.done = true
  · refine .inr fun run' hrun' => .inl ?_
    cases hold.symm.trans hrun'
    exact hdone
  · refine .inl (mem_append.mpr ?_)
    rcases RequestRun.not_done_iff.mp hdone with hstate | hstate
    · exact .inl (((lists_idsIn _ _).mem_iff id).mpr ⟨old, hold, hstate⟩)
    · exact .inr (((lists_idsIn _ _).mem_iff id).mpr ⟨old, hold, hstate⟩)

/-! ### Admission -/

/-- The moves of the second loop and of the static batch. -/
inductive Admission.Move (spec : SchedulerSpec) (iteration : Nat) (batch : List String) :
    Admission → Admission → Prop
  | enter {a : Admission} {id : String} {run : RequestRun} (hrun : a.runs.get? id = some run)
      (hstate : run.state = .waiting) (hsubmit : run.spec.submitIteration ≤ iteration)
      (hseq : a.running.length < spec.maxSequences)
      (hfits : capacityOk spec a.runs run a.running = true) :
      Move spec iteration batch a (a.admitRun iteration id run)
  | preempt {a : Admission} {victim : String} (hmem : victim ∈ a.running) :
      Move spec iteration batch a (a.preempt victim)
  | joinBatch {a : Admission} {id : String} {run : RequestRun} (hstatic : spec.mode = .static)
      (hid : id ∈ batch) (hrun : a.runs.get? id = some run) (hdone : ¬ run.done = true)
      (hsubmit : run.spec.submitIteration ≤ iteration) (hnew : id ∉ a.running) :
      Move spec iteration batch a (a.admitRun iteration id run)

theorem Admission.preempt_eq (hrun : a.runs.get? victim = some run) :
    a.preempt victim = { a with
      runs := a.runs.set victim run.preempted
      running := a.running.erase victim
      preempted := a.preempted ++ [victim]
      rollback := a.rollback + run.computed } := by
  rw [Admission.preempt, hrun]

theorem selectVictim_mem {running : List String}
    (h : selectVictim spec runs running = some victim) : victim ∈ running := by
  rw [selectVictim] at h
  split at h
  · cases h
  · exact argmin_mem h
  · exact argmax_mem h

/-- A run as admission leaves it: no position was added, and the run did not end. -/
structure Entering (iteration : Nat) (run run' : RequestRun) : Prop where
  acts : ReflTransGen (RequestRun.Act iteration) run run'
  computed_le : run'.computed ≤ run.computed
  done_eq : run'.done = run.done

theorem Entering.refl (run : RequestRun) : Entering iteration run run := ⟨.refl, le_refl _, rfl⟩

theorem Entering.trans {u v w : RequestRun} (h : Entering iteration u v)
    (h' : Entering iteration v w) : Entering iteration u w :=
  ⟨h.acts.trans h'.acts, h'.computed_le.trans h.computed_le, h'.done_eq.trans h.done_eq⟩

/-- What admission did to the runs. -/
structure Admitted (iteration : Nat) (a b : Admission) : Prop where
  entering : OrderedDict.Pointwise (Entering iteration) a.runs b.runs
  running : Lists b.runs .running b.running
  total : totalComputed b.runs + b.rollback = totalComputed a.runs + a.rollback

theorem Admitted.refl (h : Lists a.runs .running a.running) : Admitted iteration a a :=
  ⟨OrderedDict.Pointwise.refl Entering.refl _, h, rfl⟩

theorem Admitted.trans {c : Admission} (h : Admitted iteration a b) (h' : Admitted iteration b c) :
    Admitted iteration a c :=
  ⟨h.entering.trans h'.entering fun _ _ _ => Entering.trans, h'.running, h'.total.trans h.total⟩

theorem admitted_admitRun (hl : Lists a.runs .running a.running)
    (hrun : a.runs.get? id = some run) (hstate : run.state = .waiting)
    (hsubmit : run.spec.submitIteration ≤ iteration) :
    Admitted iteration a (a.admitRun iteration id run) := by
  refine ⟨?_, hl.set_append ?_ rfl, ?_⟩
  · refine pointwise_set Entering.refl hrun
      ⟨.single (.enter hstate hsubmit), le_refl run.computed, ?_⟩
    rw [RequestRun.done, RequestRun.done, hstate]
    rfl
  · intro hid
    cases hstate.symm.trans (hl.state_of_mem hid hrun)
  · have hset := total_set (run.admitted iteration) hrun
    have hsame : (run.admitted iteration).computed = run.computed := rfl
    show totalComputed (a.runs.set id (run.admitted iteration)) + a.rollback = _
    omega

theorem admitted_preempt (iteration : Nat) (hl : Lists a.runs .running a.running)
    (hmem : victim ∈ a.running) :
    Admitted iteration a (a.preempt victim) := by
  obtain ⟨run, hrun, hstate⟩ := (hl.mem_iff victim).mp hmem
  rw [Admission.preempt_eq hrun]
  refine ⟨?_, hl.set_erase nofun, ?_⟩
  · refine pointwise_set Entering.refl hrun
      ⟨.single (.preempt hstate), Nat.zero_le _, ?_⟩
    rw [RequestRun.done, RequestRun.done, hstate]
    rfl
  · have hset := total_set run.preempted hrun
    have hzero : run.preempted.computed = 0 := rfl
    show totalComputed (a.runs.set victim run.preempted) + (a.rollback + run.computed) = _
    omega

theorem Admission.Move.admitted (h : Admission.Move spec iteration batch a b)
    (hl : Lists a.runs .running a.running) : Admitted iteration a b := by
  cases h with
  | enter hrun hstate hsubmit _ _ => exact admitted_admitRun hl hrun hstate hsubmit
  | preempt hmem => exact admitted_preempt iteration hl hmem
  | joinBatch _ _ hrun hdone hsubmit hnew =>
    -- neither done nor listed as running: the run waits
    refine admitted_admitRun hl hrun ((RequestRun.not_done_iff.mp hdone).resolve_right ?_) hsubmit
    exact fun hstate => hnew ((hl.mem_iff _).mpr ⟨_, hrun, hstate⟩)

theorem admitted_of_moves (h : ReflTransGen (Admission.Move spec iteration batch) a b)
    (hl : Lists a.runs .running a.running) : Admitted iteration a b := by
  induction h with
  | refl => exact .refl hl
  | tail _ hmove ih => exact ih.trans (hmove.admitted ih.running)

/-- The runs that the second loop has still to look at wait. -/
def Waits (runs : Runs) (ids : List String) : Prop :=
  ∀ id ∈ ids, ∃ run, runs.get? id = some run ∧ run.state = .waiting

theorem Waits.set {ids : List String} (h : Waits runs ids) (hid : id ∉ ids) (run : RequestRun) :
    Waits (runs.set id run) ids := by
  intro k hk
  rw [get?_set_of_ne]
  · exact h k hk
  · rintro rfl
    exact hid hk

theorem preempt_get?_of_ne (a : Admission) {k : String} (hk : k ≠ victim) :
    (a.preempt victim).runs.get? k = a.runs.get? k := by
  rcases hrun : a.runs.get? victim with - | run
  · rw [Admission.preempt, hrun]
  · rw [Admission.preempt_eq hrun]
    exact get?_set_of_ne _ _ hk

section

variable {ids : List String} (h : Waits a.runs ids) (hl : Lists a.runs .running a.running)
  (hmem : victim ∈ a.running)

include h hl hmem

theorem Waits.ne_victim (hid : id ∈ ids) : id ≠ victim := by
  rintro rfl
  obtain ⟨run, hrun, hstate⟩ := h id hid
  exact absurd (hstate.symm.trans (hl.state_of_mem hmem hrun)) nofun

theorem Waits.preempt : Waits (a.preempt victim).runs ids := by
  intro id hid
  rw [preempt_get?_of_ne a (h.ne_victim hl hmem hid)]
  exact h id hid

end

theorem length_preempt_le (a : Admission) (victim : String) :
    (a.preempt victim).running.length ≤ a.running.length := by
  rcases hrun : a.runs.get? victim with - | run
  · simp only [Admission.preempt, hrun, le_refl]
  · rw [Admission.preempt_eq hrun]
    exact length_erase_le

theorem admitAll_moves (hl : Lists a.runs .running a.running) (hnodup : ids.Nodup)
    (hwait : Waits a.runs ids) :
    ReflTransGen (Admission.Move spec iteration batch) a
      (Admission.admitAll spec iteration ids a) := by
  induction ids generalizing a with
  | nil => exact .refl
  | cons id rest ih =>
    obtain ⟨hid, hnodup⟩ := nodup_cons.mp hnodup
    obtain ⟨run, hrun, hstate⟩ := hwait id mem_cons_self
    have hrest : Waits a.runs rest := fun k hk => hwait k (mem_cons_of_mem id hk)
    -- what is left to show once `id` was admitted beside `b`
    have hentered : ∀ {b : Admission}, Lists b.runs .running b.running → Waits b.runs rest →
        b.runs.get? id = some run →
        ReflTransGen (Admission.Move spec iteration batch) (b.admitRun iteration id run)
          (Admission.admitAll spec iteration rest (b.admitRun iteration id run)) :=
      fun hlb hwb hrunb => ih (hlb.set_append (fun hmem =>
        absurd (hstate.symm.trans (hlb.state_of_mem hmem hrunb)) nofun) rfl) hnodup (hwb.set hid _)
    simp only [Admission.admitAll, hrun]
    split_ifs with hsubmit hseq hfits
    · exact ih hl hnodup hrest
    · exact .refl
    · exact .head (.enter hrun hstate (Nat.not_lt.mp hsubmit) (Nat.not_le.mp hseq) hfits)
        (hentered hl hrest hrun)
    · rcases hvictim : selectVictim spec a.runs a.running with - | victim
      · exact ih hl hnodup hrest
      · have hmem := selectVictim_mem hvictim
        have hpre : Lists (a.preempt victim).runs .running (a.preempt victim).running :=
          (admitted_preempt iteration hl hmem).running
        have hrun' : (a.preempt victim).runs.get? id = some run := by
          rw [preempt_get?_of_ne a (hwait.ne_victim hl hmem mem_cons_self)]
          exact hrun
        refine .head (.preempt hmem) ?_
        simp only
        split_ifs with hfits'
        · refine .head (.enter hrun' hstate (Nat.not_lt.mp hsubmit) ?_ hfits')
            (hentered hpre (hrest.preempt hl hmem) hrun')
          exact (length_preempt_le a victim).trans_lt (Nat.not_le.mp hseq)
        · exact ih hpre hnodup (hrest.preempt hl hmem)

theorem foldl_admitBatch_moves (hstatic : spec.mode = .static) (ids : List String)
    (hids : ∀ id ∈ ids, id ∈ batch) (a : Admission) :
    ReflTransGen (Admission.Move spec iteration batch) a
      (ids.foldl (Admission.admitBatch iteration) a) := by
  induction ids generalizing a with
  | nil => exact .refl
  | cons id ids ih =>
    have hrest := ih fun k hk => hids k (mem_cons_of_mem id hk)
    refine ReflTransGen.trans ?_ (hrest (a.admitBatch iteration id))
    rcases hrun : a.runs.get? id with - | run
    · simp only [Admission.admitBatch, hrun]
      exact .refl
    · simp only [Admission.admitBatch, hrun]
      split_ifs with hskip hnew
      · exact .refl
      · exact .refl
      · rw [not_or, Nat.not_lt] at hskip
        exact .single (.joinBatch hstatic (hids id mem_cons_self) hrun hskip.1 hskip.2 hnew)

/-- The runs as scheduling finds them, before the static mode drops the rest. -/
theorem participants_moves :
    ∃ b : Admission,
      ReflTransGen (Admission.Move sim.spec sim.iteration sim.staticBatch) sim.observeCancels b ∧
      sim.participants = { b with
        running := if sim.spec.mode = .static then b.running.filter (· ∈ sim.staticBatch)
          else b.running } := by
  have ho := observeCancels_observed sim
  have hentered : ReflTransGen (Admission.Move sim.spec sim.iteration sim.staticBatch)
      sim.observeCancels sim.admission :=
    admitAll_moves _ ho.running ho.waiting.nodup fun id hid => (ho.waiting.mem_iff id).mp hid
  by_cases hstatic : sim.spec.mode = .static
  · refine ⟨_, hentered.trans (foldl_admitBatch_moves hstatic sim.staticBatch (fun _ h => h) _), ?_⟩
    simp only [participants, if_pos hstatic]
  · refine ⟨_, hentered, ?_⟩
    simp only [participants, if_neg hstatic]

end SchedulerSimulator

end Hqsb
