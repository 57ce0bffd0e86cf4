/-
Hqsb/Console/Epochs.lean

What the label of a deployment says about its epoch and its worker.

`ready` is to mean that there is an epoch and that the worker holds the model loaded
under it; a deployment that is down has none (`Truthful`).  Between the end of a
worker and the label that follows, one step of the executor later, `ready` is out of
date in any case: the strict reading counts that as a violation, the other does not.

The label is right as long as no job puts it back without a look: `ready` by a job
that has loaded nothing, or `unloaded` by a cancelled load.  Each of the two readings
holds all along a run exactly if every step of an executor meets its guard
(`epochGuard`).

The two counters need no condition: `pending` is the number of jobs that are accepted
and not over, and a benchmark that owns the service is among them (`Counted`).
-/
import Hqsb.Console.Exclusive

namespace Hqsb.Console

open Lib List OrderedDict

namespace Deployment

variable {dep dep' : Deployment} {job : Job} {p : Phase} {w : Work} {strict : Bool}

/-- There is an epoch, and the worker holds the model loaded under it. -/
def live (dep : Deployment) : Bool :=
  dep.epoch.isSome && dep.loadRunId.isSome && dep.worker = dep.loadRunId

/-- The next step of the executor takes the label down. -/
def ending (dep : Deployment) : Bool :=
  match dep.running with
  | some (job, p) => takesDown job p (.label "")
  | none => false

/-- What the label says is so; unless `strict`, `ready` may be a step behind. -/
structure Truthful (strict : Bool) (dep : Deployment) : Prop where
  ready : dep.label = .ready → dep.epoch.isSome = true ∧ dep.loadRunId.isSome = true ∧
    (dep.worker = dep.loadRunId ∨ strict = false ∧ dep.ending = true)
  down : dep.label.active = false → dep.epoch = none

/-- A load that has succeeded has left its model with the worker. -/
def Reported (dep : Deployment) : Prop :=
  ∀ job r, dep.running = some (job, .returned r) → job.kind = .load → r.stopped = false →
    dep.worker = some job.runId

end Deployment

/-- No label is put back without a look; and in the strict reading, no worker ends under
`ready`. -/
def epochGuard (strict : Bool) : Service.ExecGuard := fun _ _ dep job p w =>
  (!putsReady job p w || dep.live) && (!putsUnloaded job p w || dep.epoch.isNone) &&
    !(strict && dep.label = .ready && dep.worker.isSome && endsWorker job w)

namespace Deployment

variable {dep dep' : Deployment} {job : Job} {p : Phase} {w : Work} {strict : Bool}

theorem live_iff : dep.live = true ↔
    dep.epoch.isSome = true ∧ dep.loadRunId.isSome = true ∧ dep.worker = dep.loadRunId := by
  simp only [live, Bool.and_eq_true, decide_eq_true_eq, and_assoc]

theorem ending_eq (hrunning : dep.running = some (job, p)) :
    dep.ending = takesDown job p (.label "") := by
  rw [ending, hrunning]

theorem Truthful.live_of_ready (h : Truthful strict dep) (hready : dep.label = .ready)
    (hend : dep.ending = false) : dep.live = true := by
  obtain ⟨hepoch, hload, hworker⟩ := h.ready hready
  refine live_iff.mpr ⟨hepoch, hload, hworker.resolve_right fun ⟨_, hending⟩ => ?_⟩
  rw [hend] at hending
  cases hending

theorem Truthful.quiet (h : Truthful strict dep) (hend : dep.ending = false)
    (hlabel : dep'.label = dep.label) (hepoch : dep'.epoch = dep.epoch)
    (hload : dep'.loadRunId = dep.loadRunId) (hworker : dep'.worker = dep.worker) :
    Truthful strict dep' := by
  refine ⟨fun hready => ?_, fun hdown => ?_⟩
  · obtain ⟨hsome, hrun, hheld⟩ := live_iff.mp (h.live_of_ready (hlabel ▸ hready) hend)
    rw [hepoch, hload, hworker]
    exact ⟨hsome, hrun, .inl hheld⟩
  · rw [hepoch]
    exact h.down (hlabel ▸ hdown)

/-- The worker may have ended, and the next step takes the label down. -/
theorem Truthful.ended (h : Truthful strict dep) (hlabel : dep'.label = dep.label)
    (hepoch : dep'.epoch = dep.epoch) (hload : dep'.loadRunId = dep.loadRunId)
    (hending : dep'.ending = true)
    (hstrict : strict = true → dep.label = .ready → dep.worker.isSome = true →
      dep'.worker = dep.worker) : Truthful strict dep' := by
  refine ⟨fun hready => ?_, fun hdown => ?_⟩
  · rw [hlabel] at hready
    obtain ⟨hsome, hrun, hheld⟩ := h.ready hready
    rw [hepoch, hload]
    refine ⟨hsome, hrun, ?_⟩
    rcases hs : strict with - | -
    · exact .inr ⟨rfl, hending⟩
    · have hworker : dep.worker = dep.loadRunId := hheld.resolve_right fun ⟨hf, _⟩ => by
        rw [hs] at hf
        cases hf
      exact .inl ((hstrict hs hready (hworker ▸ hrun)).trans hworker)
  · rw [hepoch]
    exact h.down (hlabel ▸ hdown)

theorem truthful_ready (hlabel : dep'.label = .ready) (hlive : dep'.live = true) :
    Truthful strict dep' := by
  obtain ⟨hepoch, hload, hworker⟩ := live_iff.mp hlive
  refine ⟨fun _ => ⟨hepoch, hload, .inl hworker⟩, fun hdown => ?_⟩
  rw [hlabel] at hdown
  cases hdown

/-- `ready` is not true of an epoch that is not live, behind a step that ends nothing. -/
theorem not_truthful_ready (hlabel : dep'.label = .ready) (hend : dep'.ending = false)
    (hlive : dep'.live = false) : ¬ Truthful strict dep' := by
  intro h
  rw [h.live_of_ready hlabel hend] at hlive
  cases hlive

/-! ### Steps of the executor -/

theorem ending_goto (dep : Deployment) (job : Job) (p : Phase) :
    (dep.goto job p).ending = takesDown job p (.label "") := rfl

theorem ending_of_ahead (hrunning : dep.running = some (job, p)) (hp : p.ahead ∨ p.past) :
    dep.ending = false := by
  rw [ending_eq hrunning]
  cases p <;> first | rfl | (rcases hp with hp | hp <;> cases hp)

/-- A job that puts `ready` back writes the label and nothing else. -/
theorem shifted_putsReady (hshift : Shifted dep job p w dep') (hputs : putsReady job p w = true) :
    dep'.label = .ready ∧ dep'.ending = false ∧ dep'.live = dep.live := by
  cases hshift with
  | restores found rejection startedAt metrics now hcancel =>
    simp only [putsReady, hcancel, if_true, Bool.or_eq_true, decide_eq_true_eq] at hputs
    rcases hputs with hkind | hkind <;> rw [hkind] <;> exact ⟨rfl, rfl, rfl⟩
  | rejects found rejection startedAt metrics now hopen hkind =>
    simp only [putsReady, hopen, if_false, Bool.and_eq_true, decide_eq_true_eq] at hputs
    rw [hputs.1]
    exact ⟨rfl, rfl, rfl⟩
  | expires hkind =>
    rw [putsReady, Bool.and_eq_true, decide_eq_true_eq] at hputs
    rw [hputs.1]
    exact ⟨rfl, rfl, rfl⟩
  | relabels r epoch =>
    rw [putsReady, Bool.and_eq_true, decide_eq_true_eq, Bool.not_eq_true'] at hputs
    have hrelabel : dep.relabelled job r epoch = { dep with label := .ready } := by
      simp [relabelled, hputs.1, hputs.2]
    rw [hrelabel]
    exact ⟨rfl, rfl, rfl⟩
  | raises p w error confirmed hdue hw =>
    rcases hw with rfl | rfl <;> cases p <;> cases hputs
  | goes p p' w hdue hp hw =>
    rw [hw.1] at hputs
    cases hputs
  | answers | kills | fails | leaves => cases hputs

/-- A cancelled load writes `unloaded` and nothing else. -/
theorem shifted_putsUnloaded (hshift : Shifted dep job p w dep')
    (hputs : putsUnloaded job p w = true) : dep'.label = .unloaded ∧ dep'.epoch = dep.epoch := by
  cases hshift with
  | restores found rejection startedAt metrics now hcancel =>
    simp only [putsUnloaded, Bool.and_eq_true, decide_eq_true_eq] at hputs
    rw [hputs.2]
    exact ⟨rfl, rfl⟩
  | rejects found rejection startedAt metrics now hopen hkind =>
    simp [putsUnloaded, hopen] at hputs
  | raises p w error confirmed hdue hw =>
    rcases hw with rfl | rfl <;> cases p <;> cases hputs
  | goes p p' w hdue hp hw =>
    rw [hw.2.1] at hputs
    cases hputs
  | answers | kills | fails | leaves | expires | relabels => cases hputs

/-- A worker that ends under `ready` leaves the label as it is. -/
theorem shifted_endsWorker (hshift : Shifted dep job p w dep') (hends : endsWorker job w = true) :
    dep'.label = dep.label ∧ dep'.loadRunId = dep.loadRunId ∧ dep'.worker = none := by
  cases hshift with
  | answers r hanswers =>
    rw [endsWorker, decide_eq_true_eq] at hends
    refine ⟨rfl, rfl, ?_⟩
    show (dep.worked job).worker = none
    rw [worked, hends]
  | kills timedOut => exact ⟨rfl, rfl, rfl⟩
  | raises p w error confirmed hdue hw =>
    have hconfirmed : confirmed = true := by rcases hw with rfl | rfl <;> exact hends
    rw [hconfirmed]
    exact ⟨rfl, rfl, rfl⟩
  | goes p p' w hdue hp hw =>
    rw [hw.2.2] at hends
    cases hends
  | restores | rejects | expires | relabels | fails | leaves => cases hends

/-- **A step of the executor** that puts no label back blindly keeps the label true. -/
theorem Truthful.shifted (h : Truthful strict dep) (hreported : dep.Reported)
    (hrunning : dep.running = some (job, p)) (hshift : Shifted dep job p w dep')
    (hready : putsReady job p w = true → dep.live = true)
    (hunloaded : putsUnloaded job p w = true → dep.epoch = none)
    (hends : strict = true → dep.label = .ready → dep.worker.isSome = true →
      endsWorker job w = false) : Truthful strict dep' := by
  by_cases hputs : putsReady job p w = true
  · obtain ⟨hlabel, -, hlive⟩ := shifted_putsReady hshift hputs
    exact truthful_ready hlabel (hlive.trans (hready hputs))
  cases hshift with
  | restores found rejection startedAt metrics now hcancel =>
    have hquiet : dep.ending = false := ending_of_ahead hrunning (.inl rfl)
    rcases hkind : job.kind with - | - | - | - | - | -
    · refine ⟨fun hlabel => (by cases hlabel), fun _ => hunloaded ?_⟩
      simp [putsUnloaded, hcancel, hkind]
    · simp [putsReady, hcancel, hkind] at hputs
    · exact h.quiet hquiet rfl rfl rfl rfl
    · simp [putsReady, hcancel, hkind] at hputs
    · exact h.quiet hquiet rfl rfl rfl rfl
    · exact h.quiet hquiet rfl rfl rfl rfl
  | rejects found rejection startedAt metrics now hopen hkind =>
    have hne : job.kind ≠ .quantize := fun hk => hputs (by simp [putsReady, hopen, hk])
    rw [show dep.unquantized job.kind = dep from if_neg hne]
    exact h.quiet (ending_of_ahead hrunning (.inl rfl)) rfl rfl rfl rfl
  | expires hkind =>
    have hne : job.kind ≠ .quantize := fun hk => hputs (by simp [putsReady, hk])
    rw [show dep.unquantized job.kind = dep from if_neg hne]
    exact h.quiet (ending_of_ahead hrunning (.inl rfl)) rfl rfl rfl rfl
  | answers r hanswers =>
    have hquiet : dep.ending = false := ending_of_ahead hrunning (.inl rfl)
    rcases hkind : job.kind with - | - | - | - | - | -
    · -- no load is answered by a worker that holds a model
      have hempty : dep.worker = none := by
        rw [hkind] at hanswers
        simp only [Deployment.answers, Bool.and_eq_true, Option.isNone_iff_eq_none] at hanswers
        exact hanswers.1.1
      refine ⟨fun hlabel => ?_, h.down⟩
      obtain ⟨-, hload, hworker⟩ := live_iff.mp (h.live_of_ready hlabel hquiet)
      rw [← hworker, hempty] at hload
      cases hload
    · refine h.ended rfl rfl rfl ?_ fun hs hlabel hworker => ?_
      · rw [ending_goto, takesDown, hkind]
        rfl
      · exact absurd (hends hs hlabel hworker) (by simp [endsWorker, hkind])
    all_goals exact h.quiet hquiet rfl rfl rfl (by simp [goto, worked, hkind])
  | kills timedOut =>
    refine h.ended rfl rfl rfl ?_ fun hs hlabel hworker => ?_
    · rw [ending_goto]
      cases timedOut <;> simp [takesDown, terminatedResult, JobResult.stopped]
    · exact absurd (hends hs hlabel hworker) (by simp [endsWorker])
  | raises p w error confirmed hdue hw =>
    refine h.ended rfl rfl rfl rfl fun hs hlabel hworker => ?_
    have hnot := hends hs hlabel hworker
    obtain rfl : confirmed = false := by rcases hw with rfl | rfl <;> exact hnot
    rfl
  | relabels r epoch =>
    have hlabelled : ∀ dep' : Deployment, (dep'.goto job (.labelled r)).ending = false := fun _ => rfl
    unfold relabelled
    split_ifs with hload hdown hquantize
    · refine truthful_ready rfl (live_iff.mpr ⟨rfl, rfl, ?_⟩)
      exact hreported job r hrunning hload.1 (by simpa using hload.2)
    · exact ⟨fun hlabel => (by cases hlabel), fun _ => rfl⟩
    · have hnot : r.workerTerminated = false := by simpa using (not_or.mp hdown).2
      simp [putsReady, hquantize, hnot] at hputs
    · refine h.quiet ?_ rfl rfl rfl rfl
      obtain ⟨hunload, hterminated⟩ := not_or.mp hdown
      rw [ending_eq hrunning]
      simp [takesDown, hunload, hterminated]
  | fails error confirmed epoch => exact ⟨fun hlabel => (by cases hlabel), fun _ => rfl⟩
  | goes p p' w hdue hp hw =>
    refine h.quiet (ending_of_ahead hrunning ?_) rfl rfl rfl rfl
    rcases hp with ⟨hp, -⟩ | ⟨hp | ⟨hp, -⟩, -⟩
    · exact .inl hp
    · exact .inr hp
    · exact .inl hp
  | leaves => exact h.quiet (ending_of_ahead hrunning (.inr rfl)) rfl rfl rfl rfl

theorem reported_shifted (hshift : Shifted dep job p w dep') : dep'.Reported := by
  intro job' r hr hload hstopped
  cases hshift with
  | answers r' hanswers =>
    obtain ⟨rfl, -⟩ := Prod.mk.inj (Option.some.inj hr)
    show (dep.worked job).worker = _
    rw [worked, hload]
  | kills timedOut =>
    obtain ⟨-, hr'⟩ := Prod.mk.inj (Option.some.inj hr)
    obtain rfl := Phase.returned.inj hr'
    cases timedOut <;> cases hstopped
  | goes p p' w hdue hp hw =>
    obtain ⟨-, rfl⟩ := Prod.mk.inj (Option.some.inj hr)
    rcases hp with ⟨-, hp⟩ | ⟨-, hp⟩ <;> cases hp
  | restores | rejects | expires | raises | relabels | fails | leaves => cases hr

end Deployment

namespace Service

variable {σ σ' : Service} {d : String} {dep dep' : Deployment} {job : Job} {p : Phase} {w : Work}
  {strict : Bool}

/-! ### All deployments -/

/-- What the labels say is so. -/
def Labelled (strict : Bool) (σ : Service) : Prop :=
  ∀ d dep, σ.deployments.get? d = some dep → dep.Truthful strict

/-- Sound, with true labels. -/
structure Known (strict : Bool) (σ : Service) : Prop where
  sound : Sound σ
  reported : ∀ d dep, σ.deployments.get? d = some dep → dep.Reported
  labelled : Labelled strict σ

theorem Known.set (h : Known strict σ) (hsound : Sound σ')
    (hdeployments : σ'.deployments = σ.deployments.set d dep') (hreported : dep'.Reported)
    (htruthful : dep'.Truthful strict) : Known strict σ' := by
  refine ⟨hsound, fun e depₑ hget => ?_, fun e depₑ hget => ?_⟩
  · rw [hdeployments, get?_set] at hget
    split_ifs at hget
    · exact Option.some.inj hget ▸ hreported
    · exact h.reported e depₑ hget
  · rw [hdeployments, get?_set] at hget
    split_ifs at hget
    · exact Option.some.inj hget ▸ htruthful
    · exact h.labelled e depₑ hget

theorem epochGuard_iff : epochGuard strict σ d dep job p w = true ↔
    (putsReady job p w = true → dep.live = true) ∧
    (putsUnloaded job p w = true → dep.epoch = none) ∧
    (strict = true → dep.label = .ready → dep.worker.isSome = true → endsWorker job w = false) := by
  rw [epochGuard, Bool.and_eq_true, Bool.and_eq_true, and_assoc]
  refine and_congr ?_ (and_congr ?_ ?_)
  · cases putsReady job p w <;> simp
  · cases putsUnloaded job p w <;> simp
  · cases strict <;> cases endsWorker job w <;> simp [imp_iff_not_or]

theorem Known.exec (h : Known strict σ) (d : String) (w : Work)
    (hguard : σ.guarded (epochGuard strict) (.exec d w) = true) : Known strict (σ.exec d w) := by
  have hsound := (h.sound.exec d w).1
  rcases h.sound.exec_shifted d w with heq | ⟨dep, job, queue, hdep, hidle, hqueue, heq⟩ |
    ⟨dep, job, p, eff, hdep, hrunning, hguarded, hshift, -, heq⟩
  · rw [heq]
    exact h
  · rw [heq] at hsound ⊢
    refine h.set hsound rfl (fun job' r hr => by cases hr) ?_
    refine (h.labelled d dep hdep).quiet ?_ rfl rfl rfl rfl
    rw [Deployment.ending, hidle]
  · rw [hguarded, epochGuard_iff] at hguard
    rw [heq] at hsound ⊢
    obtain ⟨hready, hunloaded, hends⟩ := hguard
    exact h.set hsound rfl (Deployment.reported_shifted hshift)
      ((h.labelled d dep hdep).shifted (h.reported d dep hdep) hrunning hshift hready hunloaded hends)

theorem Known.accept (h : Known strict σ) {req : Submission} {store : Store}
    (hsound : Sound (σ.accept dep req store))
    (hdep : σ.deployments.get? req.deployment = some dep) : Known strict (σ.accept dep req store) := by
  have hold := h.labelled _ dep hdep
  refine h.set hsound rfl (h.reported _ dep hdep) ⟨fun hlabel => ?_, fun hlabel => ?_⟩
  · have hready : dep.label = .ready := by
      cases hkind : req.kind <;> rw [hkind] at hlabel <;> first | exact hlabel | cases hlabel
    exact hold.ready hready
  · have hdown : dep.label.active = false := by
      cases hkind : req.kind <;> rw [hkind] at hlabel <;> first | exact hlabel | cases hlabel
    exact hold.down hdown

theorem Known.step (h : Known strict σ) (i : Act)
    (hguard : σ.guarded (epochGuard strict) i = true) : Known strict (σ.step i) := by
  have hsound := (h.sound.step i).1
  have hstep := σ.stepped i
  generalize σ.step i = σ' at hsound hstep ⊢
  cases hstep with
  | idle => exact h
  | accepts _ hdep => exact h.accept hsound hdep
  | marks | confirms | closes => exact { h with sound := hsound }
  | works d w => exact h.exec d w hguard

/-- A step off the guard leaves a label that is not true. -/
theorem Known.leaves (h : Known strict σ) {i : Act}
    (hguard : σ.guarded (epochGuard strict) i = false) : ¬ Labelled strict (σ.step i) := by
  rcases i with req | id | now | ⟨d, w⟩ | -
  · cases hguard
  · cases hguard
  · cases hguard
  · obtain ⟨dep, job, p, eff, hdep, hrunning, hoff, hshift, heq⟩ :=
      h.sound.shifted_of_unguarded hguard
    intro hlabelled
    have hafter : eff.deployment.Truthful strict := by
      apply hlabelled d
      rw [show σ.step (.exec d w) = σ.applied d job eff from heq]
      exact get?_set_self _ _ _
    rw [← Bool.not_eq_true, epochGuard_iff, not_and_or, not_and_or] at hoff
    rcases hoff with hready | hunloaded | hends
    · -- `ready` is back over an epoch that is not live
      obtain ⟨hputs, hlive⟩ := Classical.not_imp.mp hready
      obtain ⟨hlabel, hending, hsame⟩ := Deployment.shifted_putsReady hshift hputs
      exact Deployment.not_truthful_ready hlabel hending
        (hsame.trans (Bool.eq_false_of_not_eq_true hlive)) hafter
    · -- `unloaded` is back over an epoch
      obtain ⟨hputs, hepoch⟩ := Classical.not_imp.mp hunloaded
      obtain ⟨hlabel, hsame⟩ := Deployment.shifted_putsUnloaded hshift hputs
      refine hepoch (hsame.symm.trans (hafter.down ?_))
      rw [hlabel]
      rfl
    · -- the worker has ended under `ready`
      simp only [Classical.not_imp, Bool.not_eq_false] at hends
      obtain ⟨rfl, hlabel, hworker, hends⟩ := hends
      obtain ⟨hsame, hload, hnone⟩ := Deployment.shifted_endsWorker hshift hends
      obtain ⟨-, hsome, hheld⟩ := hafter.ready (hsame.trans hlabel)
      rcases hheld with hheld | ⟨hf, -⟩
      · rw [← hheld, hnone] at hsome
        cases hsome
      · cases hf
  · cases hguard

end Service

/-! ### The counters -/

namespace Deployment

variable {dep dep' : Deployment} {job : Job} {p : Phase} {w : Work}

def jobs (dep : Deployment) : Nat := dep.queue.length + if dep.running.isSome then 1 else 0

def Holds (dep : Deployment) (job : Job) : Prop := job ∈ dep.queue ∨ ∃ p, dep.running = some (job, p)

/-- The queue stays; the job at hand goes on, or is over behind `done`. -/
theorem shifted_running (hshift : Shifted dep job p w dep') : dep'.queue = dep.queue ∧
    if p.due then ∃ p', dep'.running = some (job, p') else dep'.running = none := by
  cases hshift with
  | restores found => exact ⟨by simp [goto], .done, rfl⟩
  | rejects => exact ⟨by simp [goto], .done, rfl⟩
  | expires => exact ⟨by simp [goto], .expired, rfl⟩
  | answers => exact ⟨rfl, _, rfl⟩
  | kills => exact ⟨rfl, _, rfl⟩
  | raises p w error confirmed hdue hw =>
    rw [if_pos hdue]
    exact ⟨rfl, _, rfl⟩
  | relabels => exact ⟨by simp [goto], _, rfl⟩
  | fails => exact ⟨rfl, _, rfl⟩
  | goes p p' w hdue hp hw =>
    rw [if_pos hdue]
    exact ⟨rfl, _, rfl⟩
  | leaves => exact ⟨rfl, rfl⟩

theorem jobs_shifted (hrunning : dep.running = some (job, p)) (hshift : Shifted dep job p w dep') :
    dep'.jobs + (if p.due then 0 else 1) = dep.jobs := by
  obtain ⟨hqueue, hnext⟩ := shifted_running hshift
  rcases hdue : p.due with - | -
  · rw [hdue] at hnext
    rw [jobs, jobs, hqueue, hrunning, hnext]
    rfl
  · rw [hdue] at hnext
    obtain ⟨p', hp'⟩ := hnext
    rw [jobs, jobs, hqueue, hrunning, hp']
    rfl

theorem holds_shifted (hrunning : dep.running = some (job, p)) (hshift : Shifted dep job p w dep')
    {job' : Job} (h : dep.Holds job') : dep'.Holds job' ∨ p.due = false ∧ job' = job := by
  obtain ⟨hqueue, hnext⟩ := shifted_running hshift
  rcases h with hin | ⟨p', hrunning'⟩
  · exact .inl (.inl (hqueue ▸ hin))
  · obtain ⟨rfl, rfl⟩ := Prod.mk.inj (Option.some.inj (hrunning.symm.trans hrunning'))
    rcases hdue : p.due with - | -
    · exact .inr ⟨rfl, rfl⟩
    · rw [hdue] at hnext
      exact .inl (.inr hnext)

end Deployment

namespace Service

variable {σ σ' : Service} {d : String} {dep dep' : Deployment} {job : Job} {p : Phase} {w : Work}
  {strict : Bool}

/-- The number of jobs that are accepted and not over. -/
def unfinished (σ : Service) : Nat := OrderedDict.sum Deployment.jobs σ.deployments

/-- The counters are right. -/
structure Counted (σ : Service) : Prop where
  sound : Sound σ
  pending : σ.pending = σ.unfinished
  owner : ∀ id, σ.benchmarkOwner = some id → ∃ d dep job, σ.deployments.get? d = some dep ∧
    dep.Holds job ∧ job.kind = .nativeBenchmark ∧ job.runId = id

/-- When nothing is left to do, nobody owns the service. -/
theorem Counted.owner_none (h : Counted σ) (hzero : σ.unfinished = 0) : σ.benchmarkOwner = none := by
  rcases howner : σ.benchmarkOwner with - | id
  · rfl
  · obtain ⟨d, dep, job, hdep, hholds, -, -⟩ := h.owner id howner
    have hle : dep.jobs ≤ 0 := hzero ▸ le_sum Deployment.jobs hdep
    rw [Deployment.jobs] at hle
    rcases hholds with hin | ⟨p, hrunning⟩
    · have := length_pos_of_mem hin
      omega
    · rw [hrunning] at hle
      cases hle

/-- The jobs of all deployments, when one of them changes. -/
theorem holds_set (hdep : σ.deployments.get? d = some dep) {R S : Job → Prop}
    (hkeep : ∀ job, dep.Holds job → dep'.Holds job ∨ S job)
    (h : ∃ e depₑ job, σ.deployments.get? e = some depₑ ∧ depₑ.Holds job ∧ R job) :
    (∃ e depₑ job, (σ.deployments.set d dep').get? e = some depₑ ∧ depₑ.Holds job ∧ R job) ∨
      ∃ job, S job ∧ R job := by
  obtain ⟨e, depₑ, job, hget, hholds, hR⟩ := h
  by_cases he : e = d
  · subst he
    cases hdep.symm.trans hget
    rcases hkeep job hholds with hholds' | hS
    · exact .inl ⟨e, dep', job, get?_set_self _ _ _, hholds', hR⟩
    · exact .inr ⟨job, hS, hR⟩
  · refine .inl ⟨e, depₑ, job, ?_, hholds, hR⟩
    rw [get?_set_of_ne _ _ he, hget]

theorem Counted.exec (h : Counted σ) (d : String) (w : Work) : Counted (σ.exec d w) := by
  have hsound := (h.sound.exec d w).1
  rcases h.sound.exec_shifted d w with heq | ⟨dep, job, queue, hdep, hidle, hqueue, heq⟩ |
    ⟨dep, job, p, eff, hdep, hrunning, -, hshift, hfinished, heq⟩
  · rw [heq]
    exact h
  · rw [heq] at hsound ⊢
    refine ⟨hsound, ?_, fun id howner => ?_⟩
    · refine h.pending.trans (sum_set_of_eq _ hdep ?_).symm
      rw [Deployment.jobs, Deployment.jobs, hidle, hqueue]
      rfl
    · refine (holds_set (S := fun _ => False) hdep (fun job' hholds => .inl ?_)
        (h.owner id howner)).resolve_right fun ⟨_, hfalse, _⟩ => hfalse
      rcases hholds with hin | ⟨p, hrunning⟩
      · rw [hqueue] at hin
        rcases mem_cons.mp hin with rfl | hin
        · exact .inr ⟨.begin, rfl⟩
        · exact .inl hin
      · rw [hidle] at hrunning
        cases hrunning
  · rw [heq] at hsound ⊢
    have hjobs := Deployment.jobs_shifted hrunning hshift
    have hsum := sum_set_of_get? Deployment.jobs eff.deployment hdep
    have hpending := h.pending
    refine ⟨hsound, ?_, fun id howner => ?_⟩
    · show (if eff.finished then σ.pending - 1 else σ.pending)
        = OrderedDict.sum Deployment.jobs (σ.deployments.set d eff.deployment)
      rw [hfinished, hpending, unfinished]
      cases hdue : p.due <;> simp only [hdue] at hjobs ⊢ <;> simp at hjobs ⊢ <;> omega
    · have howner' : (if eff.finished ∧ job.kind = .nativeBenchmark ∧
          σ.benchmarkOwner = some job.runId then none else σ.benchmarkOwner) = some id := howner
      split_ifs at howner' with hreleased
      refine (holds_set hdep (fun _ => Deployment.holds_shifted hrunning hshift)
        (h.owner id howner')).resolve_right ?_
      rintro ⟨_, ⟨hdue, rfl⟩, hkind, rfl⟩
      exact hreleased ⟨by rw [hfinished, hdue]; rfl, hkind, howner'⟩

theorem Counted.accept (h : Counted σ) {req : Submission} {store : Store}
    (hsound : Sound (σ.accept dep req store))
    (hdep : σ.deployments.get? req.deployment = some dep) : Counted (σ.accept dep req store) := by
  let job : Job := ⟨Store.freshId req.hex, req.kind⟩
  let dep' : Deployment :=
    { dep with label := acceptedLabel dep req.kind, queue := dep.queue ++ [job] }
  have hjobs : dep'.jobs = dep.jobs + 1 := by
    show (dep.queue ++ [job]).length + (if dep.running.isSome then 1 else 0)
      = dep.queue.length + (if dep.running.isSome then 1 else 0) + 1
    rw [length_append, length_singleton, add_right_comm]
  have hsum : OrderedDict.sum Deployment.jobs (σ.deployments.set req.deployment dep') + dep.jobs
      = OrderedDict.sum Deployment.jobs σ.deployments + dep'.jobs :=
    sum_set_of_get? Deployment.jobs dep' hdep
  have hholds : ∀ job', dep.Holds job' → dep'.Holds job' := fun job' hheld =>
    hheld.imp_left (mem_append_left _)
  refine ⟨hsound, ?_, fun id howner => ?_⟩
  · show σ.pending + 1 = OrderedDict.sum Deployment.jobs (σ.deployments.set req.deployment dep')
    rw [h.pending, unfinished]
    omega
  · have howner' : (if req.kind = .nativeBenchmark then some (Store.freshId req.hex)
        else σ.benchmarkOwner) = some id := howner
    split_ifs at howner' with hkind
    · cases howner'
      refine ⟨req.deployment, dep', job, get?_set_self _ _ _, .inl ?_, hkind, rfl⟩
      exact mem_append_right _ mem_cons_self
    · exact (holds_set (S := fun _ => False) hdep (fun job' hheld => .inl (hholds job' hheld))
        (h.owner id howner')).resolve_right fun ⟨_, hfalse, _⟩ => hfalse

theorem Counted.step (h : Counted σ) (i : Act) : Counted (σ.step i) := by
  have hsound := (h.sound.step i).1
  have hstep := σ.stepped i
  generalize σ.step i = σ' at hsound hstep ⊢
  cases hstep with
  | idle => exact h
  | accepts _ hdep => exact h.accept hsound hdep
  | marks | confirms | closes => exact { h with sound := hsound }
  | works d w => exact h.exec d w

/-! ### Runs of the service -/

theorem known_start (configs : OrderedDict String Provider) (maxPending : Nat) :
    Known strict (.start configs maxPending) := by
  refine ⟨(consistent_start configs maxPending).toSound, fun d dep hdep => ?_, fun d dep hdep => ?_⟩
  · obtain ⟨provider, rfl⟩ := get?_start hdep
    exact fun _ _ hr => by cases hr
  · obtain ⟨provider, rfl⟩ := get?_start hdep
    exact ⟨fun hlabel => (by cases hlabel), fun _ => rfl⟩

theorem counted_start (configs : OrderedDict String Provider) (maxPending : Nat) :
    Counted (.start configs maxPending) := by
  refine ⟨(consistent_start configs maxPending).toSound, ?_, fun id howner => (by cases howner)⟩
  symm
  refine sum_eq_zero fun n hn => ?_
  obtain ⟨dep, hdep, rfl⟩ := mem_map.mp hn
  obtain ⟨d, hget⟩ := (mem_values_iff _).mp hdep
  obtain ⟨provider, rfl⟩ := get?_start hget
  rfl

/-- A run is well labelled throughout exactly if all its executor steps meet the guard. -/
theorem labelled_iff (strict : Bool) (configs : OrderedDict String Provider) (maxPending : Nat)
    (is : List Act) :
    (serviceMachine configs maxPending).Always (Labelled strict) (.start configs maxPending) is ↔
      (serviceMachine configs maxPending).Guarded
        (fun σ i => σ.guarded (epochGuard strict) i = true) (.start configs maxPending) is :=
  Machine.always_iff_guarded (P := Known strict) (fun _ h => h.labelled)
    (fun _ i h hg => h.step i hg)
    (fun _ i h hg => h.leaves (i := i) (Bool.eq_false_of_not_eq_true hg)) (known_start configs maxPending)

/-- **Labels and counters of deployments.**  Along every run, `ready` stands for an epoch and a
worker that holds its model, and no deployment that is down has an epoch, exactly if no label is
put back without a look and no worker ends under `ready`; up to the one step by which a label
is behind the end of its worker, exactly if no label is put back without a look.  In every run
`pending` counts the jobs that are accepted and not over, and nobody owns the service when there
are none. -/
theorem ready_live_iff (configs : OrderedDict String Provider) (maxPending : Nat) (is : List Act) :
    ((serviceMachine configs maxPending).Always (Labelled true) (.start configs maxPending) is ↔
      (serviceMachine configs maxPending).Guarded
        (fun σ i => σ.guarded (epochGuard true) i = true) (.start configs maxPending) is) ∧
    ((serviceMachine configs maxPending).Always (Labelled false) (.start configs maxPending) is ↔
      (serviceMachine configs maxPending).Guarded
        (fun σ i => σ.guarded (epochGuard false) i = true) (.start configs maxPending) is) ∧
    (serviceMachine configs maxPending).Always
      (fun σ => σ.pending = σ.unfinished ∧ (σ.unfinished = 0 → σ.benchmarkOwner = none))
      (.start configs maxPending) is := by
  refine ⟨labelled_iff true configs maxPending is, labelled_iff false configs maxPending is, ?_⟩
  rw [Machine.always_iff_runFrom]
  intro js _
  have hcounted : Counted ((serviceMachine configs maxPending).runFrom
      (.start configs maxPending) js) :=
    Machine.runFrom_invariant (fun _ i h => h.step i) (counted_start configs maxPending) js
  exact ⟨hcounted.pending, hcounted.owner_none⟩

/-- An unload that waits behind a request in which the worker is killed, and is cancelled. -/
def cancelledBehindKill : List Act :=
  plainSubmission .load "a" "0" none :: wholeJob "a" plainAnswer "e" ++
  plainSubmission .generate "a" "1" (some "e") :: plainSubmission .unload "a" "2" none ::
  wholeJob "a" (.terminated false) "" ++
  [Act.cancel "run_2", Act.confirm .null, Act.exec "a" .pick, Act.exec "a" .enter,
    Act.exec "a" (.decide none .null .null .null)]

/-- The deployment is `ready` without an epoch and without a worker. -/
theorem ready_without_epoch :
    ((twoDeployments.run cancelledBehindKill).deployments.get? "a").map
        (fun dep => (dep.label, dep.epoch, dep.worker)) = some (.ready, none, none) ∧
    ¬ Labelled true (twoDeployments.run cancelledBehindKill) ∧
    ¬ Labelled false (twoDeployments.run cancelledBehindKill) := by
  have ha : ((twoDeployments.run cancelledBehindKill).deployments.get? "a").map
      (fun dep => (dep.label, dep.epoch, dep.worker)) = some (.ready, none, none) := by
    decide +kernel
  have hnot : ∀ strict, ¬ Labelled strict (twoDeployments.run cancelledBehindKill) := by
    intro strict hlabelled
    obtain ⟨dep, hdep, heq⟩ := Option.map_eq_some_iff.mp ha
    obtain ⟨hlabel, heq⟩ := Prod.mk.inj heq
    obtain ⟨hepoch, -, -⟩ := (hlabelled "a" dep hdep).ready hlabel
    rw [(Prod.mk.inj heq).1] at hepoch
    cases hepoch
  exact ⟨ha, hnot true, hnot false⟩

end Service

end Hqsb.Console
