/-
Hqsb/Console/Shifts.lean

What the steps of an executor do to the label, the epoch and the worker of its
deployment.

`Shifted` lists the steps that touch any of them; all others only go on to another
phase.  A job is first `ahead` of its worker's answer, then the answer is there or an
exception is, and once the label follows that the job is `past`.

The label says more than the executor knows in three places, and the conditions under
which a run goes well are about these: where `ready` is put back by a job that is not
a load (`putsReady`), where a cancelled load puts `unloaded` back
(`putsUnloaded`), and where a job takes the label down (`takesDown`).
`Service.guarded` makes a condition on the steps of executors a guard of the machine.
-/
import Hqsb.Console.ServiceRuns

namespace Hqsb.Console

open Lib

namespace Phase

def ahead : Phase → Bool
  | .begin | .entered _ | .started | .working | .emitting _ => true
  | .expired | .returned _ | .labelled _ | .closing _ _ | .raised _ _ | .marked _ _
  | .failing _ _ _ | .done => false

/-- The label has followed, or there is nothing to follow. -/
def past : Phase → Bool
  | .expired | .labelled _ | .closing _ _ | .marked _ _ | .failing _ _ _ | .done => true
  | .begin | .entered _ | .started | .working | .emitting _ | .returned _ | .raised _ _ => false

end Phase

/-! ### Steps that put a label back or take it down -/

/-- The job puts `ready` into the label although it has loaded nothing. -/
def putsReady (job : Job) : Phase → Work → Bool
  | .entered found, .decide rejection _ _ _ =>
    if found.state = some RunState.cancelRequested.text then
      job.kind = .unload || job.kind = .quantize
    else job.kind = .quantize && rejection.isSome
  | .started, .clock late => job.kind = .quantize && late
  | .returned r, .label _ => job.kind = .quantize && !r.workerTerminated
  | _, _ => false

/-- The job is a load that was cancelled before it started. -/
def putsUnloaded (job : Job) : Phase → Work → Bool
  | .entered found, .decide _ _ _ _ =>
    found.state = some RunState.cancelRequested.text && job.kind = .load
  | _, _ => false

/-- The job takes the label down behind what has happened to the worker. -/
def takesDown (job : Job) : Phase → Work → Bool
  | .returned r, .label _ =>
    (job.kind = .unload || r.workerTerminated) && !(job.kind = .load && !r.stopped)
  | .raised _ _, .label _ => true
  | _, _ => false

def endsWorker (job : Job) : Work → Bool
  | .finish (.terminated _) => true
  | .finish (.done _) => job.kind = .unload
  | .finish (.raised _ confirmed) | .fail _ confirmed => confirmed
  | _ => false

/-! ### Steps that touch label, epoch or worker -/

/-- What a step of `_execute` for `job` in phase `p` makes of its deployment. -/
inductive Shifted (dep : Deployment) (job : Job) : Phase → Work → Deployment → Prop
  /-- cancelled before the start -/
  | restores (found : Snapshot) (rejection : Option (String × String))
      (startedAt metrics now : Json) (hcancel : found.state = some RunState.cancelRequested.text) :
      Shifted dep job (.entered found) (.decide rejection startedAt metrics now)
        ((dep.restored job.kind).goto job .done)
  /-- rejected by the preflight -/
  | rejects (found : Snapshot) (rejection : String × String) (startedAt metrics now : Json)
      (hopen : found.state ≠ some RunState.cancelRequested.text) (hkind : job.kind.produces) :
      Shifted dep job (.entered found) (.decide (some rejection) startedAt metrics now)
        ((dep.unquantized job.kind).goto job .done)
  /-- too late before the start -/
  | expires (hkind : job.kind.produces) :
      Shifted dep job .started (.clock true) ((dep.unquantized job.kind).goto job .expired)
  /-- the worker answers -/
  | answers (r : WorkerResult) (hanswers : dep.answers job.kind r) :
      Shifted dep job .working (.finish (.done r))
        ((dep.worked job).goto job (.returned { r with workerTerminated := false }))
  /-- the worker is killed -/
  | kills (timedOut : Bool) :
      Shifted dep job .working (.finish (.terminated timedOut))
        (dep.killed.goto job (.returned (Deployment.terminatedResult timedOut)))
  /-- an exception from the worker or around it -/
  | raises (p : Phase) (w : Work) (error : String) (confirmed : Bool) (hdue : p.due)
      (hw : w = .finish (.raised error confirmed) ∨ w = .fail error confirmed) :
      Shifted dep job p w (dep.closed job error confirmed)
  /-- the label follows the answer -/
  | relabels (r : JobResult) (epoch : String) :
      Shifted dep job (.returned r) (.label epoch)
        ((dep.relabelled job r epoch).goto job (.labelled r))
  /-- the label follows the exception -/
  | fails (error : String) (confirmed : Bool) (epoch : String) :
      Shifted dep job (.raised error confirmed) (.label epoch)
        (dep.failed.goto job (.marked error confirmed))
  /-- only the phase changes -/
  | goes (p p' : Phase) (w : Work) (hdue : p.due)
      (hp : p.ahead ∧ p'.ahead ∨ (p.past ∨ p.ahead ∧ job.kind ≠ .load) ∧ p'.past)
      (hw : putsReady job p w = false ∧ putsUnloaded job p w = false ∧ endsWorker job w = false) :
      Shifted dep job p w (dep.goto job p')
  /-- the job is over -/
  | leaves : Shifted dep job .done .leave { dep with running := none }

namespace Deployment

variable {dep : Deployment} {job : Job} {run : Except StoreError Snapshot} {found : Snapshot}
  {p : Phase} {w : Work} {eff : Effect}

theorem shifted_decide (found : Snapshot) (rejection : Option (String × String))
    (startedAt metrics now : Json) :
    Shifted dep job (.entered found) (.decide rejection startedAt metrics now)
      (dep.decide job found rejection startedAt metrics now).deployment := by
  unfold decide
  split_ifs with hstate
  · exact .restores _ _ _ _ _ hstate
  · have hunloaded : putsUnloaded job (.entered found) (.decide rejection startedAt metrics now)
        = false := by simp [putsUnloaded, hstate]
    rcases rejection with - | rejection
    · have hready : putsReady job (.entered found) (.decide none startedAt metrics now) = false := by
        simp [putsReady, hstate]
      cases job.kind.produces <;> exact .goes _ _ _ rfl (.inl ⟨rfl, rfl⟩) ⟨hready, hunloaded, rfl⟩
    · rcases hkind : job.kind.produces with - | -
      · have hne : job.kind ≠ .quantize := by
          intro heq
          rw [heq] at hkind
          cases hkind
        exact .goes _ _ _ rfl (.inl ⟨rfl, rfl⟩)
          ⟨by simp [putsReady, hstate, hne], hunloaded, rfl⟩
      · exact .rejects _ _ _ _ _ hstate hkind

/-- Where the run is stored, no look-up raises. -/
theorem shifted_found (h : dep.execute job (.ok found) p w = some eff) :
    Shifted dep job p w eff.deployment := by
  cases p with
  | begin =>
    cases w <;> simp only [execute, fail, Option.some.injEq, reduceCtorEq] at h
    subst h
    exact .goes _ _ _ rfl (.inl ⟨rfl, rfl⟩) ⟨rfl, rfl, rfl⟩
  | entered found' =>
    cases w <;> simp only [execute, fail, Option.some.injEq, reduceCtorEq] at h
    · subst h
      exact shifted_decide _ _ _ _ _
    · subst h
      exact .raises _ _ _ _ rfl (.inr rfl)
  | started =>
    cases w <;> simp only [execute, fail, Option.some.injEq, reduceCtorEq] at h
    · split at h
      · rename_i hlate
        cases h
        obtain ⟨hkind, hlate⟩ := hlate
        subst hlate
        exact .expires hkind
      · rename_i hlate
        cases h
        refine .goes _ _ _ rfl (.inl ⟨rfl, rfl⟩) ⟨?_, rfl, rfl⟩
        rw [putsReady, Bool.and_eq_false_iff, decide_eq_false_iff_not]
        by_cases hkind : job.kind = .quantize
        · right
          rw [hkind] at hlate
          simpa [JobKind.produces] using hlate
        · exact .inl hkind
    · subst h
      exact .raises _ _ _ _ rfl (.inr rfl)
  | expired =>
    cases w <;> simp only [execute, fail, Option.some.injEq, reduceCtorEq] at h
    · subst h
      exact .goes _ _ _ rfl (.inr ⟨.inl rfl, rfl⟩) ⟨rfl, rfl, rfl⟩
    · subst h
      exact .raises _ _ _ _ rfl (.inr rfl)
  | working =>
    cases w <;> simp only [execute, fail, Option.some.injEq, reduceCtorEq] at h
    · subst h
      exact .goes _ _ _ rfl (.inl ⟨rfl, rfl⟩) ⟨rfl, rfl, rfl⟩
    · subst h
      exact .goes _ _ _ rfl (.inl ⟨rfl, rfl⟩) ⟨rfl, rfl, rfl⟩
    · obtain ⟨dep', hfinish, rfl⟩ := Option.map_eq_some_iff.mp h
      rename_i outcome
      rcases outcome with r | timedOut | ⟨error, confirmed⟩
      · rw [finish] at hfinish
        split_ifs at hfinish with hanswers
        cases hfinish
        exact .answers r hanswers
      · cases hfinish
        exact .kills timedOut
      · cases hfinish
        exact .raises _ _ error confirmed rfl (.inl rfl)
    · subst h
      exact .raises _ _ _ _ rfl (.inr rfl)
  | emitting current =>
    cases w <;> simp only [execute, fail, Option.some.injEq, reduceCtorEq] at h
    · subst h
      exact .goes _ _ _ rfl (.inl ⟨rfl, rfl⟩) ⟨rfl, rfl, rfl⟩
    · subst h
      exact .raises _ _ _ _ rfl (.inr rfl)
  | returned r =>
    cases w <;> simp only [execute, fail, Option.some.injEq, reduceCtorEq] at h
    · subst h
      exact .raises _ _ _ _ rfl (.inr rfl)
    · subst h
      exact .relabels r _
  | labelled r =>
    cases w <;> simp only [execute, fail, Option.some.injEq, reduceCtorEq] at h
    · subst h
      exact .raises _ _ _ _ rfl (.inr rfl)
    · subst h
      exact .goes _ _ _ rfl (.inr ⟨.inl rfl, rfl⟩) ⟨rfl, rfl, rfl⟩
  | closing r current =>
    cases w <;> simp only [execute, fail, Option.some.injEq, reduceCtorEq] at h
    · subst h
      exact .raises _ _ _ _ rfl (.inr rfl)
    · subst h
      exact .goes _ _ _ rfl (.inr ⟨.inl rfl, rfl⟩) ⟨rfl, rfl, rfl⟩
  | raised error confirmed =>
    cases w <;> simp only [execute, fail, Option.some.injEq, reduceCtorEq] at h
    subst h
    exact .fails _ _ _
  | marked error confirmed =>
    cases w <;> simp only [execute, fail, Option.some.injEq, reduceCtorEq] at h
    subst h
    exact .goes _ _ _ rfl (.inr ⟨.inl rfl, rfl⟩) ⟨rfl, rfl, rfl⟩
  | failing error confirmed metrics =>
    cases w <;> simp only [execute, fail, Option.some.injEq, reduceCtorEq] at h
    subst h
    exact .goes _ _ _ rfl (.inr ⟨.inl rfl, rfl⟩) ⟨rfl, rfl, rfl⟩
  | done =>
    cases w <;> simp only [execute, fail, Option.some.injEq, reduceCtorEq] at h
    subst h
    exact .leaves

theorem shifted (h : dep.execute job run p w = some eff) (hrun : p.due → ∃ found, run = .ok found) :
    Shifted dep job p w eff.deployment := by
  rcases hdue : p.due with - | -
  · -- nothing is looked up any more
    obtain rfl : p = .done := by cases p <;> first | rfl | cases hdue
    have hsame : dep.execute job (.ok OrderedDict.empty) .done w = some eff := by
      cases w <;> exact h
    exact shifted_found hsame
  · obtain ⟨found, rfl⟩ := hrun hdue
    exact shifted_found h

theorem finished_eq (h : Executed dep job run p eff) : eff.finished = !p.due := by
  rcases h with ⟨_, _, _, rfl, _, _⟩ | ⟨_, _, _, hdue, _, _, _, _, _⟩ |
    ⟨_, _, _, _, rfl, _, _, _, _, _, _⟩ | ⟨_, _, _, hdue, _, _, _, _, _, _⟩ |
    ⟨_, _, _, hdue, _, _, _, _⟩ | ⟨_, rfl, _, _⟩
  · rfl
  · rw [hdue]
    rfl
  · rfl
  · rw [hdue]
    rfl
  · rw [hdue]
    rfl
  · rfl

end Deployment

/-! ### Guards on the steps of executors -/

namespace Service

/-- A condition on a step of the executor of `d`: on the service, the deployment, the job at
hand, its phase and what is done next. -/
abbrev ExecGuard := Service → String → Deployment → Job → Phase → Work → Bool

/-- Where the next step is one that an executor takes, it meets the condition. -/
def guarded (G : ExecGuard) (σ : Service) : Act → Bool
  | .exec d w =>
    match σ.deployments.get? d with
    | none => true
    | some dep =>
      match dep.running, dep.exec σ.store w with
      | some (job, p), some (_, eff) => !eff.lock.allows d σ.lock || G σ d dep job p w
      | _, _ => true
  | _ => true

variable {σ : Service} {d : String} {dep : Deployment} {job : Job} {p : Phase} {w : Work}
  {eff : Effect}

theorem guarded_exec {G : ExecGuard} (hdep : σ.deployments.get? d = some dep)
    (hrunning : dep.running = some (job, p))
    (hexecute : dep.execute job (σ.store.get job.runId) p w = some eff)
    (hallows : eff.lock.allows d σ.lock = true) :
    σ.guarded G (.exec d w) = G σ d dep job p w := by
  have hexec : dep.exec σ.store w = some (job, eff) := by
    simp only [Deployment.exec, hrunning, hexecute, Option.map_some]
  simp only [guarded, hdep, hrunning, hexec, hallows, Bool.not_true, Bool.false_or]

/-- What a step of an executor does to the deployments, in a state that is sound. -/
theorem Sound.exec_shifted (h : Sound σ) (d : String) (w : Work) :
    σ.exec d w = σ ∨
    (∃ dep job queue, σ.deployments.get? d = some dep ∧ dep.running = none ∧
      dep.queue = job :: queue ∧ σ.exec d w = σ.applied d job
        ⟨{ dep with queue := queue, running := some (job, .begin) }, .unlocked, none, false⟩) ∨
    ∃ dep job p eff, σ.deployments.get? d = some dep ∧ dep.running = some (job, p) ∧
      (∀ G : ExecGuard, σ.guarded G (.exec d w) = G σ d dep job p w) ∧
      Shifted dep job p w eff.deployment ∧ eff.finished = !p.due ∧
      σ.exec d w = σ.applied d job eff := by
  rcases exec_cases σ d w with heq | ⟨dep, job, eff, hdep, hexec, hallows, heq⟩
  · exact .inl heq
  · rcases Deployment.exec_cases hexec with ⟨queue, hidle, hqueue, rfl⟩ | ⟨p, hrunning, hexecute⟩
    · exact .inr (.inl ⟨dep, job, queue, hdep, hidle, hqueue, heq⟩)
    · have hstored : p.due → ∃ found, σ.store.get job.runId = .ok found := fun hdue =>
        let ⟨run, hrun, _⟩ := h.store_applied hdep hrunning hdue ⟨.empty, "", none, .null⟩
        ⟨run, hrun⟩
      exact .inr (.inr ⟨dep, job, p, eff, hdep, hrunning,
        fun G => guarded_exec hdep hrunning hexecute hallows,
        Deployment.shifted hexecute hstored,
        Deployment.finished_eq (Deployment.executed hexecute), heq⟩)

/-- Off the guard an executor takes its step. -/
theorem Sound.shifted_of_unguarded (h : Sound σ) {G : ExecGuard}
    (hguard : σ.guarded G (.exec d w) = false) :
    ∃ dep job p eff, σ.deployments.get? d = some dep ∧ dep.running = some (job, p) ∧
      G σ d dep job p w = false ∧ Shifted dep job p w eff.deployment ∧
      σ.exec d w = σ.applied d job eff := by
  rw [guarded] at hguard
  rcases hdep : σ.deployments.get? d with - | dep
  · simp [hdep] at hguard
  · rcases hrunning : dep.running with - | ⟨job, p⟩
    · simp [hdep, hrunning] at hguard
    · rcases hexec : dep.exec σ.store w with - | ⟨job', eff⟩
      · simp [hdep, hrunning, hexec] at hguard
      · simp only [hdep, hrunning, hexec, Bool.or_eq_false_iff, Bool.not_eq_false'] at hguard
        have heq : σ.exec d w = σ.applied d job' eff := by
          simp only [Service.exec, hdep, hexec, hguard.1, if_true]
        rcases Deployment.exec_cases hexec with ⟨queue, hidle, -, -⟩ | ⟨p', hrunning', hexecute⟩
        · rw [hidle] at hrunning
          cases hrunning
        · obtain ⟨rfl, rfl⟩ := Prod.mk.inj (Option.some.inj (hrunning'.symm.trans hrunning))
          refine ⟨dep, job', p', eff, rfl, hrunning, hguard.2, ?_, heq⟩
          exact Deployment.shifted hexecute fun hdue => by
            obtain ⟨run, hrun, -⟩ := h.store_applied hdep hrunning hdue ⟨.empty, "", none, .null⟩
            exact ⟨run, hrun⟩

end Service

end Hqsb.Console
