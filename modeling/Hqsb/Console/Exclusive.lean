/-
Hqsb/Console/Exclusive.lean

The local models of the console and the one GPU they share.

`submit` admits a load only where no other local deployment has a label that is up.
That excludes a second model as long as the label covers what the deployment really
has: a worker with a model, or a load that is accepted and not over (`Orderly`).
The executors can break that cover in two ways (`gpuGuard`): a job that has
loaded nothing puts `ready` back over a label that is down, or a job takes the label
down while a load waits behind it or the worker could not be stopped.

In a run without such steps at most one local deployment is up, and at most one
worker holds a model or loads one (`one_gpu_owner`).
-/
import Hqsb.Console.Shifts

namespace Hqsb.Console

open Lib

/-! ### What the label covers -/

namespace Phase

/-- The outcome of the job is not in the label yet. -/
def awaited : Phase → Bool
  | .returned _ => true
  | p => p.ahead

theorem awaited_of_ahead {p : Phase} (h : p.ahead) : p.awaited := by
  cases p <;> first | rfl | cases h

theorem awaited_of_atWork {p : Phase} (h : p.atWork) : p.awaited := by
  cases p <;> first | rfl | cases h

theorem awaited_of_past {p : Phase} (h : p.past) : p.awaited = false := by
  cases p <;> first | rfl | cases h

end Phase

namespace Deployment

variable {dep dep' : Deployment} {job : Job} {p p' : Phase} {w : Work}

def queuedLoads (dep : Deployment) : Nat := dep.queue.countP fun job => job.kind = .load

/-- The load at hand, if there is one and its outcome is not in the label. -/
def heldLoad : Option (Job × Phase) → Nat
  | some (job, p) => if job.kind = .load ∧ p.awaited then 1 else 0
  | none => 0

/-- The loads that are accepted and not over. -/
def loads (dep : Deployment) : Nat := heldLoad dep.running + dep.queuedLoads

def occupied (dep : Deployment) : Bool :=
  dep.worker.isSome || match dep.running with
    | some (job, p) => job.kind = .load && p.atWork
    | none => false

/-- The label covers the worker and the loads of the deployment. -/
structure Orderly (dep : Deployment) : Prop where
  down : dep.label.active = false → dep.worker = none ∧ dep.loads = 0
  one : dep.loads ≤ 1
  ahead : ∀ job p, dep.running = some (job, p) → job.kind = .load → p.ahead → dep.worker = none
  queued : 0 < dep.queuedLoads → dep.worker = none

theorem orderly_fresh (provider : Provider) : Orderly (.fresh provider) :=
  ⟨fun _ => ⟨rfl, rfl⟩, Nat.zero_le _, fun _ _ h => (by cases h), fun h => absurd h (lt_irrefl 0)⟩

theorem heldLoad_of_load (hload : job.kind = .load) (hp : p.awaited) :
    heldLoad (some (job, p)) = 1 := if_pos ⟨hload, hp⟩

theorem heldLoad_of_not {o : Option (Job × Phase)}
    (h : ∀ job p, o = some (job, p) → job.kind = .load → p.awaited = false) : heldLoad o = 0 := by
  rcases o with - | ⟨job, p⟩
  · rfl
  · refine if_neg fun ⟨hload, hp⟩ => ?_
    rw [h job p rfl hload] at hp
    cases hp

theorem Orderly.queued_zero (h : Orderly dep) (hrunning : dep.running = some (job, p))
    (hload : job.kind = .load) (hp : p.awaited) : dep.queuedLoads = 0 := by
  have hone := h.one
  rw [loads, hrunning, heldLoad_of_load hload hp] at hone
  omega

theorem Orderly.active (h : Orderly dep) (hrunning : dep.running = some (job, p))
    (hload : job.kind = .load) (hp : p.awaited) : dep.label.active = true := by
  by_contra hactive
  have hloads := (h.down (Bool.eq_false_of_not_eq_true hactive)).2
  rw [loads, hrunning, heldLoad_of_load hload hp] at hloads
  omega

theorem Orderly.active_of_occupied (h : Orderly dep) (hocc : dep.occupied = true) :
    dep.label.active = true := by
  rw [occupied, Bool.or_eq_true] at hocc
  rcases hocc with hworker | hload
  · by_contra hactive
    rw [(h.down (Bool.eq_false_of_not_eq_true hactive)).1] at hworker
    cases hworker
  · rcases hrunning : dep.running with - | ⟨job, p⟩
    · rw [hrunning] at hload
      cases hload
    · rw [hrunning, Bool.and_eq_true, decide_eq_true_eq] at hload
      exact h.active hrunning hload.1 (Phase.awaited_of_atWork hload.2)

/-! ### Steps of the executor -/

theorem Orderly.down_queued (h : Orderly dep) (hdown : dep.label.active = false) :
    dep.worker = none ∧ dep.queuedLoads = 0 := by
  obtain ⟨hnone, hzero⟩ := h.down hdown
  refine ⟨hnone, ?_⟩
  rw [loads] at hzero
  omega

theorem Orderly.settled (h : Orderly dep) (hqueue : dep'.queue = dep.queue)
    (hheld : ∀ job p, dep'.running = some (job, p) → job.kind = .load → p.awaited = false)
    (hworker : dep'.worker = none ∨ dep'.worker = dep.worker)
    (hlabel : dep'.label.active = false →
      dep.label.active = false ∨ dep.worker = none ∧ dep.queuedLoads = 0) :
    Orderly dep' := by
  have hqueued : dep'.queuedLoads = dep.queuedLoads := by rw [queuedLoads, queuedLoads, hqueue]
  have hloads : dep'.loads = dep.queuedLoads := by
    rw [loads, heldLoad_of_not hheld, hqueued, zero_add]
  refine ⟨fun hdown => ?_, ?_, fun job' p' hrunning' hload hahead => ?_, fun hpos => ?_⟩
  · obtain ⟨hnone, hzero⟩ := (hlabel hdown).elim h.down_queued id
    exact ⟨hworker.elim id fun hsame => hsame.trans hnone, hloads.trans hzero⟩
  · have hone := h.one
    rw [loads] at hone
    omega
  · have hawaited := hheld job' p' hrunning' hload
    rw [Phase.awaited_of_ahead hahead] at hawaited
    cases hawaited
  · rcases hworker with hnone | hsame
    · exact hnone
    · exact hsame.trans (h.queued (hqueued ▸ hpos))

theorem Orderly.past (h : Orderly dep) (hqueue : dep'.queue = dep.queue)
    (hrunning : dep'.running = some (job, p')) (hp' : p'.awaited = false)
    (hworker : dep'.worker = none ∨ dep'.worker = dep.worker)
    (hlabel : dep'.label.active = false →
      dep.label.active = false ∨ dep.worker = none ∧ dep.queuedLoads = 0) :
    Orderly dep' := by
  refine h.settled hqueue (fun job' p hr _ => ?_) hworker hlabel
  obtain ⟨-, rfl⟩ := Prod.mk.inj (Option.some.inj (hrunning.symm.trans hr))
  exact hp'

theorem Orderly.awaited (h : Orderly dep) (hrunning : dep.running = some (job, p))
    (hp : p.awaited) (hp' : p'.awaited) (hworker : job.kind = .load → p'.ahead → p.ahead) :
    Orderly (dep.goto job p') := by
  have hloads : (dep.goto job p').loads = dep.loads := by
    show heldLoad (some (job, p')) + dep.queuedLoads = heldLoad dep.running + dep.queuedLoads
    rw [hrunning, heldLoad, heldLoad, hp, hp']
  refine ⟨fun hdown => ?_, hloads ▸ h.one, fun job' p'' hrunning' hload hahead => ?_, h.queued⟩
  · rw [hloads]
    exact h.down hdown
  · obtain ⟨rfl, rfl⟩ := Prod.mk.inj (Option.some.inj hrunning')
    exact h.ahead job p hrunning hload (hworker hload hahead)

end Deployment

/-- No step of an executor goes around the label: `ready` is put back only over a label that
is up or on a free GPU, and a label is taken down only where the worker is gone and no load
waits. -/
def gpuGuard : Service.ExecGuard := fun σ d dep job p w =>
  !dep.provider.onGpu ||
    ((!putsReady job p w || dep.label.active || !σ.gpuTaken d) &&
      (!takesDown job p w || (dep.worker.isNone && dep.queuedLoads = 0)))

namespace Deployment

variable {dep dep' : Deployment} {job : Job} {p : Phase} {w : Work}

theorem active_restored {kind : JobKind} (hkind : kind ≠ .load)
    (h : (dep.restored kind).label.active = false) : dep.label.active = false := by
  cases kind <;> first | exact absurd rfl hkind | exact h | cases h

theorem active_unquantized {kind : JobKind} (h : (dep.unquantized kind).label.active = false) :
    dep.label.active = false := by
  unfold unquantized at h
  split_ifs at h
  · cases h
  · exact h

/-- A label that an answer brings down was down, or is taken down. -/
theorem active_relabelled {r : JobResult} {epoch : String}
    (h : (dep.relabelled job r epoch).label.active = false) :
    dep.label.active = false ∨ takesDown job (.returned r) (.label epoch) = true := by
  unfold relabelled at h
  split_ifs at h with hload hdown hquantize
  · cases h
  · right
    rw [not_and] at hload
    simp only [takesDown, Bool.and_eq_true, Bool.or_eq_true, decide_eq_true_eq, Bool.not_eq_true',
      Bool.and_eq_false_iff, decide_eq_false_iff_not]
    refine ⟨hdown, ?_⟩
    by_cases hkind : job.kind = .load
    · exact .inr (by simpa using hload hkind)
    · exact .inl hkind
  · cases h
  · exact .inl h

/-- **A step of the executor** leaves the label covering its deployment, where it takes none
down too early. -/
theorem Orderly.shifted (h : Orderly dep) (hrunning : dep.running = some (job, p))
    (hshift : Shifted dep job p w dep')
    (hdown : takesDown job p w = true → dep.worker = none ∧ dep.queuedLoads = 0) : Orderly dep' := by
  cases hshift with
  | restores found rejection startedAt metrics now hcancel =>
    refine h.past (by simp [goto]) rfl rfl (by simp [goto]) fun hlabel => ?_
    by_cases hload : job.kind = .load
    · exact .inr ⟨h.ahead job _ hrunning hload rfl, h.queued_zero hrunning hload rfl⟩
    · exact .inl (active_restored hload hlabel)
  | rejects | expires =>
    exact h.past (by simp [goto]) rfl rfl (by simp [goto]) fun hlabel =>
      .inl (active_unquantized hlabel)
  | answers r hanswers =>
    by_cases hload : job.kind = .load
    · -- the model is there, the label is still that of the load
      have hactive := h.active hrunning hload rfl
      have hzero := h.queued_zero hrunning hload rfl
      refine ⟨fun hlabel => ?_, ?_, fun job' p' hr _ hahead => ?_, fun hpos => ?_⟩
      · rw [show dep.label.active = false from hlabel] at hactive
        cases hactive
      · have hheld : heldLoad (some (job, .returned { r with workerTerminated := false })) = 1 :=
          heldLoad_of_load hload rfl
        show heldLoad (some (job, .returned { r with workerTerminated := false }))
          + dep.queuedLoads ≤ 1
        rw [hzero, hheld]
      · obtain ⟨-, rfl⟩ := Prod.mk.inj (Option.some.inj hr)
        cases hahead
      · exact absurd hzero (Nat.pos_iff_ne_zero.mp hpos)
    · have hworker : (dep.worked job).worker = none ∨ (dep.worked job).worker = dep.worker := by
        unfold worked
        cases hkind : job.kind <;> first | exact absurd hkind hload | exact .inl rfl | exact .inr rfl
      refine h.settled rfl (fun job' p' hr hload' => ?_) hworker .inl
      obtain ⟨rfl, -⟩ := Prod.mk.inj (Option.some.inj hr)
      exact absurd hload' hload
  | kills timedOut =>
    have hloads : (dep.killed.goto job (.returned (terminatedResult timedOut))).loads = dep.loads := by
      show heldLoad _ + dep.queuedLoads = heldLoad dep.running + dep.queuedLoads
      rw [hrunning]
      rfl
    refine ⟨fun hlabel => ⟨rfl, ?_⟩, hloads ▸ h.one, fun _ _ _ _ _ => rfl, fun _ => rfl⟩
    rw [hloads]
    exact (h.down hlabel).2
  | raises p w error confirmed hdue hw =>
    have hworker : (dep.closed job error confirmed).worker = none ∨
        (dep.closed job error confirmed).worker = dep.worker := by
      cases confirmed
      · exact .inr rfl
      · exact .inl rfl
    exact h.past rfl rfl rfl hworker .inl
  | relabels r epoch =>
    exact h.past (by simp [goto]) rfl rfl (by simp [goto]) fun hlabel =>
      (active_relabelled hlabel).imp_right hdown
  | fails => exact h.past rfl rfl rfl (.inr rfl) fun _ => .inr (hdown rfl)
  | goes p p' w hdue hp hw =>
    rcases hp with ⟨hp, hp'⟩ | ⟨hp, hp'⟩
    · exact h.awaited hrunning (Phase.awaited_of_ahead hp) (Phase.awaited_of_ahead hp') fun _ _ => hp
    · exact h.past rfl rfl (Phase.awaited_of_past hp') (.inr rfl) .inl
  | leaves =>
    exact h.settled rfl (fun job' p' hr _ => by cases hr) (.inr rfl) .inl

/-- Where the label can come up: behind a load, or by a job that puts `ready` back. -/
theorem Orderly.comes_up (h : Orderly dep) (hrunning : dep.running = some (job, p))
    (hshift : Shifted dep job p w dep') (hup : dep'.label.active = true) :
    dep.label.active = true ∨ putsReady job p w = true := by
  cases hshift with
  | restores found rejection startedAt metrics now hcancel =>
    rcases hkind : job.kind with - | - | - | - | - | - <;> rw [hkind] at hup
    · cases hup
    · right
      simp [putsReady, hcancel, hkind]
    · exact .inl hup
    · right
      simp [putsReady, hcancel, hkind]
    · exact .inl hup
    · exact .inl hup
  | rejects found rejection startedAt metrics now hopen hkind =>
    by_cases hquantize : job.kind = .quantize
    · right
      simp [putsReady, hopen, hquantize]
    · left
      simpa [unquantized, hquantize, goto] using hup
  | expires hkind =>
    by_cases hquantize : job.kind = .quantize
    · right
      simp [putsReady, hquantize]
    · left
      simpa [unquantized, hquantize, goto] using hup
  | relabels r epoch =>
    have hup' : (dep.relabelled job r epoch).label.active = true := hup
    unfold relabelled at hup'
    split_ifs at hup' with hload hdown hquantize
    · exact .inl (h.active hrunning hload.1 rfl)
    · cases hup'
    · right
      have hnot : r.workerTerminated = false := by simpa using (not_or.mp hdown).2
      simp [putsReady, hquantize, hnot]
    · exact .inl hup'
  | fails => cases hup
  | answers | kills | raises | goes | leaves => exact .inl hup

theorem Orderly.picked (h : Orderly dep) {queue : List Job} (hidle : dep.running = none)
    (hqueue : dep.queue = job :: queue) :
    Orderly { dep with queue := queue, running := some (job, .begin) } := by
  have hqueued : dep.queuedLoads = heldLoad (some (job, .begin)) + queue.countP fun job => job.kind = .load := by
    rw [queuedLoads, hqueue, add_comm]
    by_cases hload : job.kind = .load <;> simp [heldLoad, hload, Phase.awaited, Phase.ahead]
  have hloads : ({ dep with queue := queue, running := some (job, .begin) } : Deployment).loads
      = dep.loads := by
    rw [loads, loads, hidle, hqueued]
    exact (zero_add _).symm
  refine ⟨fun hdown => ?_, hloads ▸ h.one, fun job' p' hr hload _ => ?_, fun hpos => h.queued ?_⟩
  · rw [hloads]
    exact h.down hdown
  · obtain ⟨rfl, -⟩ := Prod.mk.inj (Option.some.inj hr)
    apply h.queued
    rw [hqueued, heldLoad_of_load hload rfl]
    omega
  · have hpos' : 0 < queue.countP fun job => job.kind = .load := hpos
    omega

/-- A job is put into the queue; a load only where the label is down. -/
theorem Orderly.accept (h : Orderly dep) (job : Job)
    (hload : job.kind = .load → dep.label.active = false) :
    Orderly { dep with
      label := Service.acceptedLabel dep job.kind, queue := dep.queue ++ [job] } := by
  have hqueued : (dep.queue ++ [job]).countP (fun job => job.kind = .load)
      = dep.queuedLoads + if job.kind = .load then 1 else 0 := by
    simp only [queuedLoads, List.countP_append, List.countP_singleton, decide_eq_true_eq]
  by_cases hkind : job.kind = .load
  · obtain ⟨hnone, hzero⟩ := h.down (hload hkind)
    rw [loads] at hzero
    rw [if_pos hkind] at hqueued
    refine ⟨fun hlabel => ?_, ?_, fun _ _ _ _ _ => hnone, fun _ => hnone⟩
    · rw [hkind] at hlabel
      cases hlabel
    · show heldLoad dep.running + (dep.queue ++ [job]).countP (fun job => job.kind = .load) ≤ 1
      omega
  · rw [if_neg hkind, add_zero] at hqueued
    refine ⟨fun hlabel => ?_, ?_, h.ahead, fun hpos => h.queued ?_⟩
    · have hdown : dep.label.active = false := by
        cases hk : job.kind <;> rw [hk] at hlabel <;>
          first | exact absurd hk hkind | exact hlabel | cases hlabel
      obtain ⟨hnone, hzero⟩ := h.down hdown
      refine ⟨hnone, ?_⟩
      rw [loads] at hzero
      show heldLoad dep.running + (dep.queue ++ [job]).countP (fun job => job.kind = .load) = 0
      omega
    · have hone := h.one
      rw [loads] at hone
      show heldLoad dep.running + (dep.queue ++ [job]).countP (fun job => job.kind = .load) ≤ 1
      omega
    · rw [← hqueued]
      exact hpos

theorem provider_shifted (hshift : Shifted dep job p w dep') : dep'.provider = dep.provider := by
  cases hshift with
  | restores =>
    show (dep.restored job.kind).provider = _
    cases job.kind <;> rfl
  | rejects | expires =>
    show (dep.unquantized job.kind).provider = _
    unfold unquantized
    split_ifs <;> rfl
  | relabels r epoch =>
    show (dep.relabelled job r epoch).provider = _
    unfold relabelled
    split_ifs <;> rfl
  | answers | kills | raises | fails | goes | leaves => rfl

end Deployment

namespace Service

variable {σ : Service} {d d' : String} {dep dep' : Deployment} {job : Job} {p : Phase} {w : Work}

/-! ### The deployments together -/

/-- At most one local deployment is up, and at most one local worker holds a model or loads
one. -/
structure OneOwner (σ : Service) : Prop where
  up : ∀ d d' dep dep', σ.deployments.get? d = some dep → σ.deployments.get? d' = some dep' →
    dep.provider.onGpu = true → dep'.provider.onGpu = true → dep.label.active = true →
    dep'.label.active = true → d = d'
  occupied : ∀ d d' dep dep', σ.deployments.get? d = some dep → σ.deployments.get? d' = some dep' →
    dep.provider.onGpu = true → dep'.provider.onGpu = true → dep.occupied = true →
    dep'.occupied = true → d = d'

/-- Every local deployment is covered by its label, and at most one label is up. -/
structure Covered (σ : Service) : Prop where
  sound : Sound σ
  orderly : ∀ d dep, σ.deployments.get? d = some dep → dep.provider.onGpu = true → dep.Orderly
  up : ∀ d d' dep dep', σ.deployments.get? d = some dep → σ.deployments.get? d' = some dep' →
    dep.provider.onGpu = true → dep'.provider.onGpu = true → dep.label.active = true →
    dep'.label.active = true → d = d'

theorem Covered.oneOwner (h : Covered σ) : OneOwner σ :=
  ⟨h.up, fun d d' dep dep' hdep hdep' hgpu hgpu' hocc hocc' => h.up d d' dep dep' hdep hdep' hgpu
    hgpu' ((h.orderly d dep hdep hgpu).active_of_occupied hocc)
    ((h.orderly d' dep' hdep' hgpu').active_of_occupied hocc')⟩

theorem down_of_not_taken (h : σ.gpuTaken d = false) (hdep : σ.deployments.get? d' = some dep')
    (hne : d' ≠ d) (hgpu : dep'.provider.onGpu = true) : dep'.label.active = false := by
  have hmem := (OrderedDict.get?_eq_some_iff _).mp hdep
  have hall := List.any_eq_false.mp h _ hmem
  simpa [hne, hgpu] using hall

/-- One deployment changes and stays covered; its label comes up only where the GPU is free. -/
theorem Covered.set (h : Covered σ) {σ' : Service} (hsound : Sound σ')
    (hdeployments : σ'.deployments = σ.deployments.set d dep')
    (hdep : σ.deployments.get? d = some dep) (hprovider : dep'.provider = dep.provider)
    (horderly : dep.provider.onGpu = true → dep'.Orderly)
    (hup : dep.provider.onGpu = true → dep'.label.active = true →
      dep.label.active = true ∨ σ.gpuTaken d = false) : Covered σ' := by
  -- no other label is up beside the new one
  have hother : ∀ e depₑ, σ.deployments.get? e = some depₑ → e ≠ d → depₑ.provider.onGpu = true →
      depₑ.label.active = true → dep.provider.onGpu = true → dep'.label.active = true → False := by
    intro e depₑ hget hne hgpu hactive hmine hnew
    rcases hup hmine hnew with hold | hfree
    · exact hne (h.up e d depₑ dep hget hdep hgpu hmine hactive hold)
    · rw [down_of_not_taken hfree hget hne hgpu] at hactive
      cases hactive
  refine ⟨hsound, fun e depₑ hget hgpu => ?_, fun e e' depₑ depₑ' hget hget' hgpu hgpu' ha ha' => ?_⟩
  · rw [hdeployments, OrderedDict.get?_set] at hget
    split_ifs at hget with hd
    · cases hget
      exact horderly (hprovider ▸ hgpu)
    · exact h.orderly e depₑ hget hgpu
  · rw [hdeployments, OrderedDict.get?_set] at hget hget'
    split_ifs at hget hget' with hd hd' hd'
    · rw [hd, hd']
    · cases hget
      exact (hother e' depₑ' hget' hd' hgpu' ha' (hprovider ▸ hgpu) ha).elim
    · cases hget'
      exact (hother e depₑ hget hd hgpu ha (hprovider ▸ hgpu') ha').elim
    · exact h.up e e' depₑ depₑ' hget hget' hgpu hgpu' ha ha'

theorem gpuGuard_iff (hgpu : dep.provider.onGpu = true) : gpuGuard σ d dep job p w = true ↔
    (putsReady job p w = true → dep.label.active = true ∨ σ.gpuTaken d = false) ∧
    (takesDown job p w = true → dep.worker = none ∧ dep.queuedLoads = 0) := by
  rw [gpuGuard, hgpu, Bool.not_true, Bool.false_or, Bool.and_eq_true]
  apply and_congr
  · cases putsReady job p w <;> cases dep.label.active <;> cases σ.gpuTaken d <;> decide
  · cases takesDown job p w <;> simp

theorem Covered.exec (h : Covered σ) (d : String) (w : Work)
    (hguard : σ.guarded gpuGuard (.exec d w) = true) : Covered (σ.exec d w) := by
  have hsound := (h.sound.exec d w).1
  rcases h.sound.exec_shifted d w with heq | ⟨dep, job, queue, hdep, hidle, hqueue, heq⟩ |
    ⟨dep, job, p, eff, hdep, hrunning, hguarded, hshift, -, heq⟩
  · rw [heq]
    exact h
  · rw [heq] at hsound ⊢
    refine h.set hsound rfl hdep rfl (fun hgpu => ?_) fun _ hup => .inl hup
    exact (h.orderly d dep hdep hgpu).picked hidle hqueue
  · rw [hguarded] at hguard
    rw [heq] at hsound ⊢
    have hmeets := fun hgpu => (gpuGuard_iff hgpu).mp hguard
    refine h.set hsound rfl hdep (Deployment.provider_shifted hshift) (fun hgpu => ?_)
      fun hgpu hup => ?_
    · exact (h.orderly d dep hdep hgpu).shifted hrunning hshift (hmeets hgpu).2
    · rcases (h.orderly d dep hdep hgpu).comes_up hrunning hshift hup with hold | hputs
      · exact .inl hold
      · exact (hmeets hgpu).1 hputs

section

variable {req : Submission} (h : σ.refusal dep req = none)

include h

theorem stateError_of_refusal : σ.stateError dep req = none := by
  unfold refusal at h
  split_ifs at h
  rcases hplan : req.planError with - | code
  · rcases hstate : σ.stateError dep req with - | code
    · rfl
    · rw [hplan, hstate] at h
      cases h
  · rw [hplan] at h
    cases h

theorem load_checked (hkind : req.kind = .load) :
    dep.label.active = false ∧ (dep.provider.onGpu = true → σ.gpuTaken req.deployment = false) := by
  have hstate := stateError_of_refusal h
  simp only [stateError, hkind] at hstate
  split_ifs at hstate with hactive htaken
  exact ⟨by simpa using hactive, fun hgpu => by simpa [hgpu] using htaken⟩

theorem active_of_accepted
    (hkind : req.kind ≠ .load) (hup : (acceptedLabel dep req.kind).active = true) :
    dep.label.active = true := by
  have hstate := stateError_of_refusal h
  rcases hreq : req.kind with - | - | - | - | - | -
  · exact absurd hreq hkind
  all_goals rw [hreq] at hup
  · simp only [stateError, hreq] at hstate
    split_ifs at hstate with hready
    rw [not_not.mp hready]
    rfl
  · exact hup
  · simp only [stateError, hreq] at hstate
    split_ifs at hstate with hready
    rw [not_not.mp hready]
    rfl
  · exact hup
  · exact hup

end

theorem Covered.accept (h : Covered σ) {req : Submission} {store : Store}
    (hsound : Sound (σ.accept dep req store)) (hdep : σ.deployments.get? req.deployment = some dep)
    (hrefusal : σ.refusal dep req = none) : Covered (σ.accept dep req store) := by
  refine h.set hsound rfl hdep rfl (fun hgpu => ?_) fun hgpu hup => ?_
  · exact (h.orderly _ dep hdep hgpu).accept ⟨Store.freshId req.hex, req.kind⟩ fun hload =>
      (load_checked hrefusal hload).1
  · by_cases hload : req.kind = .load
    · exact .inr ((load_checked hrefusal hload).2 hgpu)
    · exact .inl (active_of_accepted hrefusal hload hup)

/-- **Every step that meets the guard** keeps the deployments covered. -/
theorem Covered.step (h : Covered σ) (i : Act) (hguard : σ.guarded gpuGuard i = true) :
    Covered (σ.step i) := by
  have hsound := (h.sound.step i).1
  have hstep := σ.stepped i
  generalize σ.step i = σ' at hsound hstep ⊢
  cases hstep with
  | idle => exact h
  | accepts _ hdep _ hrefusal => exact h.accept hsound hdep hrefusal
  | marks | confirms | closes => exact { h with sound := hsound }
  | works d w => exact h.exec d w hguard

theorem covered_start (configs : OrderedDict String Provider) (maxPending : Nat) :
    Covered (.start configs maxPending) := by
  refine ⟨(consistent_start configs maxPending).toSound, fun d dep hdep _ => ?_,
    fun d d' dep dep' hdep _ _ _ hactive _ => ?_⟩
  · obtain ⟨provider, rfl⟩ := get?_start hdep
    exact Deployment.orderly_fresh provider
  · obtain ⟨provider, rfl⟩ := get?_start hdep
    cases hactive

/-- **One owner of the GPU**: in every state of a run whose executor steps meet the guard, at
most one local deployment is up, and at most one local worker holds a model or loads one. -/
theorem one_gpu_owner (configs : OrderedDict String Provider) (maxPending : Nat)
    {is : List Act} (hguard : (serviceMachine configs maxPending).Guarded
      (fun σ i => σ.guarded gpuGuard i = true) (.start configs maxPending) is) :
    (serviceMachine configs maxPending).Always OneOwner (.start configs maxPending) is :=
  (Machine.guarded_invariant (P := Covered) (fun _ i h hg => h.step i hg)
    (covered_start configs maxPending) hguard).mono fun _ h => h.oneOwner

/-! ### Two deployments -/

/-- A job of `d` from the queue to its end, as its worker ends it. -/
def wholeJob (d : String) (outcome : Outcome) (epoch : String) : List Act :=
  [.exec d .pick, .exec d .enter, .exec d (.decide none .null (.obj []) .null),
    .exec d (.clock false), .exec d (.finish outcome), .exec d (.label epoch), .exec d .read,
    .exec d (.write [] .null), .exec d .leave]

/-- A submission of run `hex` that is not checked any further. -/
def plainSubmission (kind : JobKind) (d hex : String) (epoch : Option String) : Act :=
  .submit ⟨kind, d, hex, hex, hex, .null, epoch, none, none, none, .null, .null⟩

/-- The answer of a worker that had nothing to report. -/
def plainAnswer : Outcome := .done ⟨none, none, none, .null⟩

def twoDeployments : Machine Service Act := serviceMachine ⟨[("a", .pytorch), ("b", .vllm)], by decide⟩ 8

/-- The first model is loaded and unloaded, then the second one is loaded; before that it is
refused. -/
def oneAfterTheOther : List Act :=
  plainSubmission .load "a" "0" none :: wholeJob "a" plainAnswer "e" ++
  plainSubmission .load "b" "1" none :: plainSubmission .unload "a" "2" none ::
  wholeJob "a" plainAnswer "" ++ plainSubmission .load "b" "3" none :: wholeJob "b" plainAnswer "f"

theorem one_gpu_owner_in_turn : twoDeployments.Always OneOwner twoDeployments.init oneAfterTheOther ∧
    ((twoDeployments.run oneAfterTheOther).deployments.get? "b").map Deployment.label
      = some .ready :=
  ⟨one_gpu_owner _ 8 (by decide +kernel), by decide +kernel⟩

/-- An unload waits behind a request in which the worker is killed.  The second model is
admitted, and then the unload is cancelled. -/
def unloadBehindKill : List Act :=
  plainSubmission .load "a" "0" none :: wholeJob "a" plainAnswer "e" ++
  plainSubmission .generate "a" "1" (some "e") :: plainSubmission .unload "a" "2" none ::
  wholeJob "a" (.terminated false) "" ++ plainSubmission .load "b" "3" none ::
  [.cancel "run_2", .confirm .null, .exec "a" .pick, .exec "a" .enter,
    .exec "a" (.decide none .null .null .null)]

/-- Two local deployments are up: one has no worker and is `ready`, the other is loading. -/
theorem two_gpu_owners :
    ((twoDeployments.run unloadBehindKill).deployments.get? "a").map (fun dep => (dep.label, dep.worker))
      = some (.ready, none) ∧
    ((twoDeployments.run unloadBehindKill).deployments.get? "b").map Deployment.label
      = some .loading ∧
    ¬ OneOwner (twoDeployments.run unloadBehindKill) := by
  have ha : ((twoDeployments.run unloadBehindKill).deployments.get? "a").map
      (fun dep => (dep.label, dep.worker)) = some (.ready, none) := by decide +kernel
  have hb : ((twoDeployments.run unloadBehindKill).deployments.get? "b").map Deployment.label
      = some .loading := by decide +kernel
  have hproviders : (((twoDeployments.run unloadBehindKill).deployments.get? "a").map
        fun dep => dep.provider.onGpu) = some true ∧
      (((twoDeployments.run unloadBehindKill).deployments.get? "b").map
        fun dep => dep.provider.onGpu) = some true := by decide +kernel
  refine ⟨ha, hb, fun hone => ?_⟩
  obtain ⟨depa, hdepa, hlabela⟩ := Option.map_eq_some_iff.mp ha
  obtain ⟨depb, hdepb, hlabelb⟩ := Option.map_eq_some_iff.mp hb
  obtain ⟨hgpua, hgpub⟩ := hproviders
  rw [hdepa, Option.map_some, Option.some.injEq] at hgpua
  rw [hdepb, Option.map_some, Option.some.injEq] at hgpub
  have hsame := hone.up "a" "b" depa depb hdepa hdepb hgpua hgpub
    (by rw [(Prod.mk.inj hlabela).1]; rfl) (by rw [hlabelb]; rfl)
  exact absurd hsame (by decide)

end Service

end Hqsb.Console
