/-
Hqsb/Console/ServiceRuns.lean

The runs of the console service over all interleavings of its threads.

`Sound` is kept by every step (`Sound.step`), also when others write to runs of their
own between the steps:

* nobody owes a run twice, and a run that is owed an ending has none in its log and
  no terminal state;
* an executor between its two accesses under the lock has the lock, and the run is
  as it has read it;
* a cancellation that waits to be written is that of a stored run.

What a step does to the endings is said by `Settled`: a run that is let go has got
one, the others have got none.  `Consistent` adds the sum of that over a whole run of
the machine: a run that is not owed an ending has exactly one.
-/
import Hqsb.Console.ServiceSteps

namespace Hqsb.Console

open Lib List OrderedDict

/-- The runs that somebody still has to end. -/
def owedIn (deployments : OrderedDict String Deployment) : List String :=
  deployments.values.flatMap Deployment.owes

section Owed

variable {deployments : OrderedDict String Deployment} {d : String} {dep : Deployment}

theorem owedIn_perm (h : deployments.get? d = some dep) :
    (owedIn deployments).Perm (dep.owes ++ owedIn (deployments.erase d)) :=
  (values_perm h).flatMap_right _

theorem owedIn_set_perm (deployments : OrderedDict String Deployment) (d : String)
    (dep' : Deployment) :
    (owedIn (deployments.set d dep')).Perm (dep'.owes ++ owedIn (deployments.erase d)) :=
  (values_set_perm deployments d dep').flatMap_right _

theorem owedIn_set_same (h : deployments.get? d = some dep) {dep' : Deployment}
    (howes : dep'.owes = dep.owes) : (owedIn (deployments.set d dep')).Perm (owedIn deployments) := by
  have hbefore := owedIn_perm h
  rw [← howes] at hbefore
  exact (owedIn_set_perm deployments d dep').trans hbefore.symm

theorem mem_owedIn (h : deployments.get? d = some dep) {id : String} (hid : id ∈ dep.owes) :
    id ∈ owedIn deployments :=
  (owedIn_perm h).mem_iff.mpr (mem_append_left _ hid)

end Owed

namespace Service

/-- What every step keeps. -/
structure Sound (σ : Service) : Prop where
  recorded : σ.store.Recorded
  nodup : (owedIn σ.deployments).Nodup
  owed : ∀ id ∈ owedIn σ.deployments, σ.store.Open id
  entered : ∀ d dep job found, σ.deployments.get? d = some dep →
    dep.running = some (job, .entered found) →
    σ.lock = some (.executor d) ∧ σ.store.get job.runId = .ok found
  cancelled : ∀ id, σ.lock = some (.cancel id) → ∃ run, σ.store.get id = .ok run

/-- What a step does to the endings: a run that is let go has got one, a run that was not
owed any has got none, and a new run is owed one. -/
structure Settled (σ σ' : Service) : Prop where
  endings : ∀ id run, σ.store.get id = .ok run → id ∉ owedIn σ'.deployments →
    σ'.store.endings id = if id ∈ owedIn σ.deployments then 1 else σ.store.endings id
  subset : ∀ id run, σ.store.get id = .ok run → id ∈ owedIn σ'.deployments →
    id ∈ owedIn σ.deployments
  known : ∀ id run', σ'.store.get id = .ok run' →
    (∃ run, σ.store.get id = .ok run) ∨ id ∈ owedIn σ'.deployments

variable {σ σ' : Service} {d : String} {dep : Deployment} {job : Job} {p : Phase} {eff : Effect}

theorem Settled.refl (σ : Service) : Settled σ σ :=
  ⟨fun _ _ _ hid => (if_neg hid).symm, fun _ _ _ hid => hid, fun _ run hrun => .inl ⟨run, hrun⟩⟩

theorem Settled.of_same (hstore : σ'.store = σ.store)
    (howed : (owedIn σ'.deployments).Perm (owedIn σ.deployments)) : Settled σ σ' := by
  refine ⟨fun id run _ hid => ?_, fun id _ _ hid => howed.mem_iff.mp hid, fun id run hrun => ?_⟩
  · rw [hstore, if_neg fun hin => hid (howed.mem_iff.mpr hin)]
  · exact .inl ⟨run, hstore ▸ hrun⟩

/-! ### Steps of the executors -/

section

variable (h : Sound σ)

include h

theorem Sound.store_applied (hdep : σ.deployments.get? d = some dep)
    (hrunning : dep.running = some (job, p)) (hdue : p.due) (w : Write) :
    ∃ run, σ.store.get job.runId = .ok run ∧ run.isTerminal = false ∧
      Store.Written σ.store (σ.store.put job.runId w) job.runId run w := by
  have hmem : job.runId ∈ owedIn σ.deployments := by
    apply mem_owedIn hdep
    rw [Deployment.owes_running hrunning, if_pos hdue]
    exact .head _
  obtain ⟨run, hrun, hopen⟩ := (h.owed _ hmem).stored
  exact ⟨run, hrun, hopen, h.recorded.put hrun w⟩

theorem Sound.apart {d' : String} {dep' : Deployment}
    (hdep : σ.deployments.get? d = some dep) (hdep' : σ.deployments.get? d' = some dep')
    (hne : d' ≠ d) {id id' : String} (hid : id ∈ dep.owes) (hid' : id' ∈ dep'.owes) :
    id' ≠ id := by
  have hnodup := (owedIn_perm hdep).nodup_iff.mp h.nodup
  have hother : (σ.deployments.erase d).get? d' = some dep' := by
    rw [get?_erase, if_neg hne, hdep']
  have hmem : id' ∈ owedIn (σ.deployments.erase d) := mem_owedIn hother hid'
  rintro rfl
  exact (nodup_append'.mp hnodup).2.2 hid hmem

/-- What a step of an executor keeps of the store: all runs but the one it writes to, and
the existence of every run. -/
theorem Sound.frame {run : Except StoreError Snapshot}
    (hdep : σ.deployments.get? d = some dep) (hrunning : dep.running = some (job, p))
    (hexec : Executed dep job run p eff) :
    (∀ id, (eff.write = none ∨ id ≠ job.runId) →
      (σ.applied d job eff).store.get id = σ.store.get id ∧
      (σ.applied d job eff).store.endings id = σ.store.endings id) ∧
    (∀ id, (∃ run, σ.store.get id = .ok run) ↔
      ∃ run, (σ.applied d job eff).store.get id = .ok run) ∧
    (σ.applied d job eff).store.Recorded := by
  rcases hwrite : eff.write with - | w
  · have hstore : (σ.applied d job eff).store = σ.store := by rw [applied, hwrite]
    rw [hstore]
    exact ⟨fun id _ => ⟨rfl, rfl⟩, fun id => Iff.rfl, h.recorded⟩
  · have hstore : (σ.applied d job eff).store = σ.store.put job.runId w := by
      rw [applied, hwrite]
    obtain ⟨run, hrun, -, hwritten⟩ :=
      h.store_applied hdep hrunning (hexec.write_cases hwrite).1 w
    rw [hstore]
    refine ⟨fun id hid => ?_, fun id => ?_, hwritten.recorded⟩
    · rcases hid with hid | hid
      · cases hid
      · exact ⟨hwritten.get_of_ne id hid, hwritten.endings_of_ne id hid⟩
    · by_cases hid : id = job.runId
      · subst hid
        obtain ⟨run', hrun', -⟩ := hwritten.stored
        exact iff_of_true ⟨run, hrun⟩ ⟨run', hrun'⟩
      · rw [hwritten.get_of_ne id hid]

section

variable (hdep : σ.deployments.get? d = some dep) (hrunning : dep.running = some (job, p))
  (hexec : Executed dep job (σ.store.get job.runId) p eff)

include hdep hrunning hexec

/-- A step of `_execute` keeps the books on the endings. -/
theorem Sound.owed_applied :
    (owedIn (σ.applied d job eff).deployments).Nodup ∧
      (∀ id ∈ owedIn (σ.applied d job eff).deployments, (σ.applied d job eff).store.Open id) ∧
      Settled σ (σ.applied d job eff) := by
  obtain ⟨hframe, hknown, -⟩ := h.frame hdep hrunning hexec
  have hbefore := owedIn_perm hdep
  have hafter : (owedIn (σ.applied d job eff).deployments).Perm _ :=
    owedIn_set_perm σ.deployments d eff.deployment
  have hstored : p.due → ∃ r, σ.store.get job.runId = .ok r := fun hdue =>
    let ⟨run, hrun, _⟩ := h.store_applied hdep hrunning hdue ⟨.empty, "", none, .null⟩
    ⟨run, hrun⟩
  rcases Deployment.owes_executed hexec hrunning hstored with ⟨howes, hopen⟩ |
    ⟨w, hw, hcloses, hdue, howes⟩
  · -- the same runs are owed
    have hsame : (owedIn (σ.applied d job eff).deployments).Perm (owedIn σ.deployments) :=
      owedIn_set_same hdep howes
    refine ⟨hsame.nodup_iff.mpr h.nodup, fun id hid => ?_, fun id run hrun hid => ?_,
      fun id _ _ hid => hsame.mem_iff.mp hid, fun id run hrun => .inl ((hknown id).mpr ⟨run, hrun⟩)⟩
    · have hid' := hsame.mem_iff.mp hid
      obtain ⟨⟨run, hrun, hterminal⟩, hend⟩ := h.owed id hid'
      rcases hwrite : eff.write with - | w
      · obtain ⟨hget, hendings⟩ := hframe id (.inl hwrite)
        exact ⟨⟨run, hget.trans hrun, hterminal⟩, hendings.trans hend⟩
      · by_cases hne : id = job.runId
        · subst hne
          obtain ⟨hdue, hends⟩ := hopen w hwrite
          obtain ⟨run', hrun', hterminal', hwritten⟩ := h.store_applied hdep hrunning hdue w
          have hstore : (σ.applied d job eff).store = σ.store.put job.runId w := by
            rw [applied, hwrite]
          obtain ⟨run'', hrun'', hstate⟩ := hwritten.stored
          rw [hstore]
          refine ⟨⟨run'', hrun'', ?_⟩, ?_⟩
          · rcases (hexec.write_cases hwrite).2 with hkind | hkind
            · exact Write.not_terminal hterminal' hkind hstate
            · rw [hkind.ends] at hends
              cases hends
          · rw [hwritten.endings, hend, hends]
            rfl
        · obtain ⟨hget, hendings⟩ := hframe id (.inr hne)
          exact ⟨⟨run, hget.trans hrun, hterminal⟩, hendings.trans hend⟩
    · have hid' : id ∉ owedIn σ.deployments := fun hin => hid (hsame.mem_iff.mpr hin)
      rw [if_neg hid']
      rcases hwrite : eff.write with - | w
      · exact (hframe id (.inl hwrite)).2
      · refine (hframe id (.inr ?_)).2
        rintro rfl
        apply hid'
        apply mem_owedIn hdep
        rw [Deployment.owes_running hrunning, if_pos (hopen w hwrite).1]
        exact .head _
  · -- the run of the job is ended
    rw [howes] at hbefore
    have hnodup := hbefore.nodup_iff.mp h.nodup
    obtain ⟨hnot, hrest⟩ := nodup_cons.mp hnodup
    refine ⟨hafter.nodup_iff.mpr hrest, fun id hid => ?_, fun id run hrun hid => ?_,
      fun id _ _ hid => ?_, fun id run hrun => .inl ((hknown id).mpr ⟨run, hrun⟩)⟩
    · have hin := hafter.mem_iff.mp hid
      have hne : id ≠ job.runId := fun heq => hnot (heq ▸ hin)
      obtain ⟨hget, hendings⟩ := hframe id (.inr hne)
      obtain ⟨⟨run, hrun, hterminal⟩, hend⟩ :=
        h.owed id (hbefore.mem_iff.mpr (.tail _ hin))
      exact ⟨⟨run, hget.trans hrun, hterminal⟩, hendings.trans hend⟩
    · by_cases hne : id = job.runId
      · subst hne
        obtain ⟨run', hrun', -, hwritten⟩ := h.store_applied hdep hrunning hdue w
        have hstore : (σ.applied d job eff).store = σ.store.put job.runId w := by
          rw [applied, hw]
        have hmem := hbefore.mem_iff.mpr mem_cons_self
        rw [hstore, hwritten.endings, (h.owed _ hmem).endings, hcloses.ends, if_pos hmem]
        rfl
      · rw [if_neg fun hin => ?_]
        · exact (hframe id (.inr hne)).2
        · rcases mem_cons.mp (hbefore.mem_iff.mp hin) with heq | hin
          · exact hne heq
          · exact hid (hafter.mem_iff.mpr hin)
    · exact hbefore.mem_iff.mpr (.tail _ (hafter.mem_iff.mp hid))

/-- A step of `_execute`. -/
theorem Sound.applied
    (hallows : eff.lock.allows d σ.lock) :
    Sound (σ.applied d job eff) ∧ Settled σ (σ.applied d job eff) := by
  obtain ⟨hframe, hknown, hrec⟩ := h.frame hdep hrunning hexec
  obtain ⟨hnodup, howed, hsettled⟩ := h.owed_applied hdep hrunning hexec
  refine ⟨⟨hrec, hnodup, howed, fun d' dep' job' found hdep' hrunning' => ?_, fun id hid => ?_⟩,
    hsettled⟩
  · have hget : (σ.deployments.set d eff.deployment).get? d' = some dep' := hdep'
    rw [get?_set] at hget
    split_ifs at hget with hd
    · -- this deployment has just read its run
      subst hd
      cases hget
      rcases hexec with ⟨found', dep'', hrun, hp, hr, -⟩ | ⟨_, _, _, _, _, hf, hr, _, _⟩ |
        ⟨_, _, _, _, _, _, _, _, hf, hr, _⟩ | ⟨_, _, _, _, _, _, _, hf, hr, _⟩ |
        ⟨_, _, _, _, _, hr, _, _⟩ | ⟨_, _, hr, _⟩
      · obtain ⟨rfl, heq⟩ := Prod.mk.inj (Option.some.inj (hr.symm.trans hrunning'))
        obtain rfl := Phase.entered.inj heq
        exact ⟨rfl, hrun⟩
      all_goals
        have heq := hr.symm.trans hrunning'
        simp only [Option.some.injEq, Prod.mk.injEq, reduceCtorEq, and_false] at heq
      all_goals
        obtain ⟨-, rfl⟩ := heq
        cases hf
    · -- another one holds the lock
      obtain ⟨hlock, hfound⟩ := h.entered d' dep' job' found hget hrunning'
      have hlock' : (σ.applied d job eff).lock = σ.lock := by
        show LockUse.after d σ.lock eff.lock = σ.lock
        rcases hl : eff.lock with - | - | - | -
        · rfl
        · rfl
        · rw [hl, hlock] at hallows
          cases hallows
        · rw [hl, LockUse.allows, hlock] at hallows
          simp only [Option.some.injEq, Holder.executor.injEq, decide_eq_true_eq] at hallows
          exact absurd hallows hd
      refine ⟨hlock'.trans hlock, ?_⟩
      rcases hwrite : eff.write with - | w
      · exact (hframe _ (.inl hwrite)).1.trans hfound
      · have hmine : job.runId ∈ dep.owes := by
          rw [Deployment.owes_running hrunning, if_pos (hexec.write_cases hwrite).1]
          exact .head _
        have hits : job'.runId ∈ dep'.owes := by
          rw [Deployment.owes_running hrunning']
          exact .head _
        exact (hframe _ (.inr (h.apart hdep hget hd hmine hits))).1.trans hfound
  · have hbefore : σ.lock = some (.cancel id) := by
      have hid' : LockUse.after d σ.lock eff.lock = some (.cancel id) := hid
      rcases hl : eff.lock with - | - | - | - <;> rw [hl] at hid' <;>
        simp_all [LockUse.after]
    exact (hknown id).mp (h.cancelled id hbefore)

end

theorem Sound.picked {queue : List Job}
    (hdep : σ.deployments.get? d = some dep) (hidle : dep.running = none)
    (hqueue : dep.queue = job :: queue) :
    Sound (σ.applied d job
      ⟨{ dep with queue := queue, running := some (job, .begin) }, .unlocked, none, false⟩) ∧
    Settled σ (σ.applied d job
      ⟨{ dep with queue := queue, running := some (job, .begin) }, .unlocked, none, false⟩) := by
  have howes : ({ dep with queue := queue, running := some (job, .begin) } : Deployment).owes
      = dep.owes := by
    rw [Deployment.owes_idle hidle, hqueue]
    rfl
  have hsame := owedIn_set_same hdep howes
  refine ⟨⟨h.recorded, hsame.nodup_iff.mpr h.nodup, fun id hid => h.owed id (hsame.mem_iff.mp hid),
    fun d' dep' job' found hdep' hrunning' => ?_, h.cancelled⟩, .of_same rfl hsame⟩
  have hget : (σ.deployments.set d _).get? d' = some dep' := hdep'
  rw [get?_set] at hget
  split_ifs at hget
  · cases hget
    cases hrunning'
  · exact h.entered d' dep' job' found hget hrunning'

theorem Sound.exec (d : String) (w : Work) : Sound (σ.exec d w) ∧ Settled σ (σ.exec d w) := by
  rcases exec_cases σ d w with heq | ⟨dep, job, eff, hdep, hexec, hlock, heq⟩
  · rw [heq]
    exact ⟨h, .refl σ⟩
  · rw [heq]
    rcases Deployment.exec_cases hexec with ⟨queue, hidle, hqueue, rfl⟩ | ⟨p, hrunning, hexecute⟩
    · exact h.picked hdep hidle hqueue
    · exact h.applied hdep hrunning (Deployment.executed hexecute) hlock

/-! ### Steps of the clients -/

theorem Sound.nobody_entered (hlock : ∀ d, σ.lock ≠ some (.executor d)) {d : String}
    {dep : Deployment} {job : Job} {found : Snapshot} (hdep : σ.deployments.get? d = some dep)
    (hrunning : dep.running = some (job, .entered found)) : False :=
  hlock d (h.entered d dep job found hdep hrunning).1

theorem Sound.accept (hlock : σ.lock = none) {req : Submission}
    {dep : Deployment} {store : Store} {run : Snapshot} {fresh : Bool}
    (hdep : σ.deployments.get? req.deployment = some dep)
    (hreplay : σ.store.replay req.key req.digest = .ok none)
    (hcreate : σ.store.create req.kind.text req.config req.key req.digest req.hex req.now req.later
      = .ok ((run, fresh), store)) :
    Sound (σ.accept dep req store) ∧ Settled σ (σ.accept dep req store) := by
  obtain ⟨hrec, hopen, hnew, hother⟩ := created_open h.recorded hreplay hcreate
  have hbefore := owedIn_perm hdep
  have hafter := owedIn_set_perm σ.deployments req.deployment
    { dep with
      label := acceptedLabel dep req.kind
      queue := dep.queue ++ [⟨Store.freshId req.hex, req.kind⟩] }
  have howes : ({ dep with
      label := acceptedLabel dep req.kind
      queue := dep.queue ++ [⟨Store.freshId req.hex, req.kind⟩] } : Deployment).owes
      = dep.owes ++ [Store.freshId req.hex] := by
    simp [Deployment.owes]
  rw [howes] at hafter
  have hcons : (owedIn (σ.accept dep req store).deployments).Perm
      (Store.freshId req.hex :: owedIn σ.deployments) := by
    refine hafter.trans ?_
    rw [append_assoc]
    exact perm_middle.trans (hbefore.symm.cons _)
  have hnot : Store.freshId req.hex ∉ owedIn σ.deployments := by
    intro hin
    obtain ⟨run, hrun, -⟩ := (h.owed _ hin).stored
    exact hnew run hrun
  refine ⟨⟨hrec, hcons.nodup_iff.mpr (nodup_cons.mpr ⟨hnot, h.nodup⟩), fun id hid => ?_,
    fun d dep' job found hdep' hrunning => ?_, fun id hid => ?_⟩, fun id run hrun hid => ?_,
    fun id run hrun hid => ?_, fun id run hrun => ?_⟩
  · rcases mem_cons.mp (hcons.mem_iff.mp hid) with rfl | hid
    · exact hopen
    · have hne : id ≠ Store.freshId req.hex := fun heq => hnot (heq ▸ hid)
      obtain ⟨hget, hend⟩ := hother id hne
      obtain ⟨⟨run, hrun, hterminal⟩, hendings⟩ := h.owed id hid
      exact ⟨⟨run, hget.trans hrun, hterminal⟩, hend.trans hendings⟩
  · exfalso
    have hfree : ∀ d, σ.lock ≠ some (.executor d) := fun d => by rw [hlock]; rintro ⟨⟩
    have hget : (σ.deployments.set req.deployment _).get? d = some dep' := hdep'
    rw [get?_set] at hget
    split_ifs at hget with hd
    · cases hget
      exact h.nobody_entered hfree hdep hrunning
    · exact h.nobody_entered hfree hget hrunning
  · rw [show (σ.accept dep req store).lock = σ.lock from rfl, hlock] at hid
    cases hid
  · have hid' := fun hin => hid (hcons.mem_iff.mpr hin)
    rw [if_neg fun hin => hid' (mem_cons_of_mem _ hin)]
    exact (hother id fun heq => hid' (heq ▸ .head _)).2
  · rcases mem_cons.mp (hcons.mem_iff.mp hid) with rfl | hid
    · exact absurd hrun (hnew run)
    · exact hid
  · by_cases hid : id = Store.freshId req.hex
    · exact .inr (hcons.mem_iff.mpr (hid ▸ .head _))
    · exact .inl ⟨run, (hother id hid).1.symm.trans hrun⟩

theorem Sound.cancel (hlock : σ.lock = none) {id : String}
    (hrun : σ.store.get id = .ok run) :
    Sound { σ with lock := some (.cancel id) } ∧ Settled σ { σ with lock := some (.cancel id) } := by
  refine ⟨{ h with
    entered := fun d dep job found hdep hrunning => ?_
    cancelled := fun id' hid' => ?_ }, .of_same rfl (List.Perm.refl _)⟩
  · exact (h.nobody_entered (fun d => by rw [hlock]; exact nofun) hdep hrunning).elim
  · cases Option.some.inj hid'
    exact ⟨_, hrun⟩

/-- A write to a run that leaves it open if it is, by someone who is not an executor: `σ'` is
the service behind it. -/
theorem Sound.put {id : String} {run : Snapshot} (hrun : σ.store.get id = .ok run)
    {w : Write} (hopen : id ∈ owedIn σ.deployments → w.ends = false ∧
      ∀ run' : Snapshot, run'.state = w.stateAfter run → run'.isTerminal = false)
    (hentered : ∀ d dep job found, σ.deployments.get? d = some dep →
      dep.running = some (job, .entered found) → job.runId ≠ id) :
    Sound { σ with store := σ.store.put id w } := by
  have hwritten := h.recorded.put hrun w
  refine ⟨hwritten.recorded, h.nodup, fun id' hid' => ?_, fun d dep job found hdep hrunning => ?_,
    fun id' hid' => ?_⟩
  · obtain ⟨⟨run', hrun', hterminal⟩, hend⟩ := h.owed id' hid'
    by_cases hid : id' = id
    · subst hid
      obtain ⟨hends, hstays⟩ := hopen hid'
      obtain ⟨run'', hrun'', hstate⟩ := hwritten.stored
      refine ⟨⟨run'', hrun'', hstays run'' hstate⟩, ?_⟩
      rw [hwritten.endings, hend, hends]
      rfl
    · exact ⟨⟨run', (hwritten.get_of_ne id' hid).trans hrun', hterminal⟩,
        (hwritten.endings_of_ne id' hid).trans hend⟩
  · obtain ⟨hlock, hfound⟩ := h.entered d dep job found hdep hrunning
    exact ⟨hlock,
      (hwritten.get_of_ne _ (hentered d dep job found hdep hrunning)).trans hfound⟩
  · obtain ⟨run', hrun'⟩ := h.cancelled id' hid'
    by_cases hid : id' = id
    · subst hid
      obtain ⟨run'', hrun'', -⟩ := hwritten.stored
      exact ⟨run'', hrun''⟩
    · exact ⟨run', (hwritten.get_of_ne id' hid).trans hrun'⟩

theorem Sound.confirm {id : String} (hlock : σ.lock = some (.cancel id))
    (now : Json) :
    Sound { σ with store := σ.store.put id (cancelWrite now), lock := none } ∧
      Settled σ { σ with store := σ.store.put id (cancelWrite now), lock := none } := by
  obtain ⟨run, hrun⟩ := h.cancelled id hlock
  have hwritten := h.recorded.put hrun (cancelWrite now)
  have hfree : ∀ d, σ.lock ≠ some (.executor d) := fun d => by rw [hlock]; exact nofun
  have hput := h.put hrun (w := cancelWrite now)
    (fun _ => ⟨cancelWrite_ends now, fun run' hstate => by
      rw [Snapshot.isTerminal_eq, hstate, stateAfter_cancelWrite]
      decide⟩)
    fun d dep job found hdep hrunning => (h.nobody_entered hfree hdep hrunning).elim
  refine ⟨⟨hput.recorded, hput.nodup, hput.owed, fun d dep job found hdep hrunning =>
    (h.nobody_entered hfree hdep hrunning).elim, fun id' hid' => (by cases hid')⟩,
    fun id' run' _ hid' => ?_, fun id' _ _ hid' => hid', fun id' run' hrun' => .inl ?_⟩
  · show (σ.store.put id (cancelWrite now)).endings id' = _
    rw [if_neg hid']
    by_cases hid : id' = id
    · subst hid
      rw [hwritten.endings]
      rfl
    · exact hwritten.endings_of_ne id' hid
  · by_cases hid : id' = id
    · exact ⟨run, hid ▸ hrun⟩
    · exact ⟨run', (hwritten.get_of_ne id' hid).symm.trans hrun'⟩

/-- **Every step is sound** and settles what it lets go. -/
theorem Sound.step (i : Act) : Sound (σ.step i) ∧ Settled σ (σ.step i) := by
  have hstep := σ.stepped i
  generalize σ.step i = σ' at hstep ⊢
  cases hstep with
  | idle => exact ⟨h, .refl σ⟩
  | accepts hfree hdep hreplay _ hcreate => exact h.accept hfree hdep hreplay hcreate
  | marks hfree hrun => exact h.cancel hfree hrun
  | confirms now hlock => exact h.confirm hlock now
  | works d w => exact h.exec d w
  | closes =>
    exact ⟨{ h with }, .of_same rfl (List.Perm.refl _)⟩

end

theorem endings_call_le {s : Store} (h : s.Recorded) (c : Store.Call) (id : String) :
    s.endings id ≤ (s.call c).2.endings id := by
  rw [Store.endings, Store.endings]
  rcases h.eventsOf_call c id with hlog | ⟨e, hlog, -⟩
  · rw [hlog]
  · rw [hlog, countP_append]
    exact Nat.le_add_right _ _

theorem Sound.endings_le (h : Sound σ) (i : Act) (id : String) :
    σ.store.endings id ≤ (σ.step i).store.endings id := by
  rcases store_step σ i with heq | ⟨c, heq⟩
  · rw [heq]
  · rw [heq]
    exact endings_call_le h.recorded c id

/-! ### Runs of the service -/

structure Consistent (σ : Service) : Prop extends Sound σ where
  ended : ∀ id run, σ.store.get id = .ok run → id ∉ owedIn σ.deployments →
    σ.store.endings id = 1

theorem Consistent.step (h : Consistent σ) (i : Act) : Consistent (σ.step i) := by
  obtain ⟨hsound, hsettled⟩ := h.toSound.step i
  refine ⟨hsound, fun id run' hrun' hid => ?_⟩
  rcases hsettled.known id run' hrun' with ⟨run, hrun⟩ | hin
  · rw [hsettled.endings id run hrun hid]
    split_ifs with hbefore
    · rfl
    · exact h.ended id run hrun hbefore
  · exact absurd hin hid

variable (configs : OrderedDict String Provider)

theorem owedIn_start : owedIn (configs.map Deployment.fresh) = [] := by
  refine flatMap_eq_nil_iff.mpr fun dep hdep => ?_
  obtain ⟨e, he, rfl⟩ := mem_map.mp hdep
  obtain ⟨e', -, rfl⟩ := mem_map.mp he
  rfl

theorem get?_start {configs : OrderedDict String Provider} {maxPending : Nat}
    (h : (start configs maxPending).deployments.get? d = some dep) :
    ∃ provider, dep = .fresh provider := by
  rw [show (start configs maxPending).deployments = configs.map Deployment.fresh from rfl,
    get?_map] at h
  obtain ⟨provider, -, rfl⟩ := Option.map_eq_some_iff.mp h
  exact ⟨provider, rfl⟩

theorem consistent_start (maxPending : Nat) : Consistent (.start configs maxPending) := by
  have howed : owedIn (start configs maxPending).deployments = [] := owedIn_start configs
  refine ⟨⟨⟨[], Store.records_empty⟩, ?_, fun id hid => ?_, fun d dep job found hdep hrunning => ?_,
    fun id hid => (by cases hid)⟩, fun id run hrun => (by cases hrun)⟩
  · rw [howed]
    exact nodup_nil
  · rw [howed] at hid
    cases hid
  · obtain ⟨provider, rfl⟩ := get?_start hdep
    cases hrunning

/-- **Every state of the service is consistent.** -/
theorem consistent_run (maxPending : Nat) (is : List Act) :
    Consistent ((serviceMachine configs maxPending).run is) :=
  Machine.runFrom_invariant (m := serviceMachine configs maxPending) (P := Consistent)
    (fun _ i h => h.step i) (consistent_start configs maxPending) is

end Service

end Hqsb.Console
