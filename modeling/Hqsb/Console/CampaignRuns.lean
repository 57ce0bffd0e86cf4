/-
Hqsb/Console/CampaignRuns.lean

Cancellations of scheduling campaigns, among all other threads of the console.

The runs of the campaigns are foreign to the executors of the service: these neither
write to them nor owe them an ending (`Foreign`).  So the service keeps its invariant
whatever the campaigns write, and a step of the campaigns' executor is one of six
kinds (`Worked`).

Only one of them can lose a cancellation: the `running` update, which is made without
a look at the run (`BlindToNone`).  With `Lib.Flags` that is exact: the campaigns
keep every acknowledged cancellation along a run precisely if no experiment that
was cancelled in the queue comes to that update (`cancel_lossless_iff`).
-/
import Hqsb.Console.RunStates
import Hqsb.Console.Campaign

namespace Hqsb.Console

open Lib List

namespace Service

variable {σ σ' σ'' : Service} {d id : String}

/-! ### Runs of others -/

structure Foreign (σ : Service) (id : String) : Prop where
  stored : ∃ run, σ.store.get id = .ok run
  notOwed : id ∉ owedIn σ.deployments

/-- The service leaves the endings of foreign runs alone. -/
theorem Foreign.step (hid : Foreign σ id) (h : Sound σ) (i : Act) :
    Foreign (σ.step i) id ∧ (σ.step i).store.endings id = σ.store.endings id := by
  obtain ⟨run, hrun⟩ := hid.stored
  obtain ⟨-, hsettled⟩ := h.step i
  have hnot : id ∉ owedIn (σ.step i).deployments := fun hin =>
    hid.notOwed (hsettled.subset id run hrun hin)
  refine ⟨⟨?_, hnot⟩, ?_⟩
  · rcases store_step σ i with heq | ⟨c, heq⟩
    · exact ⟨run, heq ▸ hrun⟩
    · obtain ⟨run', hrun'⟩ := h.recorded.get_call c hrun
      exact ⟨run', heq ▸ hrun'⟩
  · rw [hsettled.endings id run hrun hnot, if_neg hid.notOwed]

theorem Foreign.put (hid : Foreign σ id) (h : Sound σ) (w : Write) :
    Sound { σ with store := σ.store.put id w } := by
  obtain ⟨run, hrun⟩ := hid.stored
  refine h.put hrun (fun hin => absurd hin hid.notOwed) fun d dep job found hdep hrunning => ?_
  rintro rfl
  apply hid.notOwed
  apply mem_owedIn hdep
  rw [Deployment.owes_running hrunning]
  exact .head _

theorem Sound.created (h : Sound σ) (hlock : σ.lock = none) {kind key digest hex : String}
    {config now later : Json} {run : Snapshot} {fresh : Bool} {store : Store}
    (hreplay : σ.store.replay key digest = .ok none)
    (hcreate : σ.store.create kind config key digest hex now later = .ok ((run, fresh), store)) :
    Sound { σ with store := store } ∧ Foreign { σ with store := store } (Store.freshId hex) ∧
      ∀ id, Foreign σ id → Foreign { σ with store := store } id := by
  obtain ⟨hrec, hopen, hnew, hother⟩ := created_open h.recorded hreplay hcreate
  have hne : ∀ id run, σ.store.get id = .ok run → id ≠ Store.freshId hex := by
    rintro _ run' hrun rfl
    exact hnew run' hrun
  refine ⟨⟨hrec, h.nodup, fun id hid => ?_, fun d dep job found hdep hrunning => ?_,
    fun id hid => ?_⟩, ⟨?_, fun hin => ?_⟩, fun id hid => ⟨?_, hid.notOwed⟩⟩
  · obtain ⟨⟨run', hrun', hterminal⟩, hend⟩ := h.owed id hid
    obtain ⟨hget, hend'⟩ := hother id (hne id run' hrun')
    exact ⟨⟨run', hget.trans hrun', hterminal⟩, hend'.trans hend⟩
  · have hheld := (h.entered d dep job found hdep hrunning).1
    rw [hlock] at hheld
    cases hheld
  · have hheld : σ.lock = some (.cancel id) := hid
    rw [hlock] at hheld
    cases hheld
  · obtain ⟨run', hrun', -⟩ := hopen.stored
    exact ⟨run', hrun'⟩
  · obtain ⟨run', hrun', -⟩ := (h.owed _ hin).stored
    exact hnew run' hrun'
  · obtain ⟨run', hrun'⟩ := hid.stored
    exact ⟨run', (hother id (hne id run' hrun')).1.trans hrun'⟩

/-- The same runs, the same lock and the same work for everyone. -/
structure SameRuns (σ σ' : Service) : Prop where
  store : σ'.store = σ.store
  lock : σ'.lock = σ.lock
  running : ∀ d dep', σ'.deployments.get? d = some dep' →
    ∃ dep, σ.deployments.get? d = some dep ∧ dep'.running = dep.running
  owed : (owedIn σ'.deployments).Perm (owedIn σ.deployments)

theorem SameRuns.of_eq (hstore : σ'.store = σ.store) (hlock : σ'.lock = σ.lock)
    (hdeployments : σ'.deployments = σ.deployments) : SameRuns σ σ' :=
  ⟨hstore, hlock, fun d dep' hdep' => ⟨dep', hdeployments ▸ hdep', rfl⟩, by rw [hdeployments]⟩

theorem SameRuns.trans (h : SameRuns σ σ') (h' : SameRuns σ' σ'') : SameRuns σ σ'' := by
  refine ⟨h'.store.trans h.store, h'.lock.trans h.lock, fun d dep'' hdep'' => ?_,
    h'.owed.trans h.owed⟩
  obtain ⟨dep', hdep', hrunning'⟩ := h'.running d dep'' hdep''
  obtain ⟨dep, hdep, hrunning⟩ := h.running d dep' hdep'
  exact ⟨dep, hdep, hrunning'.trans hrunning⟩

theorem Sound.of_sameRuns (h : Sound σ) (hsame : SameRuns σ σ') : Sound σ' := by
  refine ⟨hsame.store ▸ h.recorded, hsame.owed.nodup_iff.mpr h.nodup, fun id hid => ?_,
    fun d dep' job found hdep' hrunning' => ?_, fun id hid => ?_⟩
  · rw [hsame.store]
    exact h.owed id (hsame.owed.mem_iff.mp hid)
  · obtain ⟨dep, hdep, hrunning⟩ := hsame.running d dep' hdep'
    rw [hsame.store, hsame.lock]
    exact h.entered d dep job found hdep (hrunning.symm.trans hrunning')
  · rw [hsame.store]
    exact h.cancelled id (hsame.lock ▸ hid)

theorem Foreign.of_sameRuns (hid : Foreign σ id) (hsame : SameRuns σ σ') : Foreign σ' id :=
  ⟨hsame.store ▸ hid.stored, fun hin => hid.notOwed (hsame.owed.mem_iff.mp hin)⟩

end Service

namespace Campaigns

open Service (SameRuns Foreign Flagged Follows)

variable {c c' : Campaigns} {job : CampaignJob} {p : CampaignPhase} {id : String} (c : Campaigns)

variable (d : String) (f : Deployment → Deployment)

/-- Changes of a deployment that leave its executor alone. -/
theorem sameRuns_onDeployment {f : Deployment → Deployment}
    (hrunning : ∀ dep, (f dep).running = dep.running) (hqueue : ∀ dep, (f dep).queue = dep.queue) :
    SameRuns c.service (c.onDeployment d f).service := by
  unfold onDeployment
  rcases hdep : c.service.deployments.get? d with - | dep
  · exact .of_eq rfl rfl rfl
  · have howes : (f dep).owes = dep.owes := by
      rw [Deployment.owes, Deployment.owes, hrunning, hqueue]
    refine ⟨rfl, rfl, fun d' dep' hdep' => ?_, owedIn_set_same hdep howes⟩
    have hget : (c.service.deployments.set d (f dep)).get? d' = some dep' := hdep'
    rw [OrderedDict.get?_set] at hget
    split_ifs at hget with hd
    · cases hget
      exact ⟨dep, hd ▸ hdep, hrunning dep⟩
    · exact ⟨dep', hget, rfl⟩

theorem sameRuns_raise (job : CampaignJob) (error : String) (confirmed : Bool) :
    SameRuns c.service (c.raise job error confirmed).service :=
  c.sameRuns_onDeployment job.deployment (fun _ => rfl) fun _ => rfl

@[simp] theorem onDeployment_queue :
    (c.onDeployment d f).queue = c.queue := by
  unfold onDeployment
  split <;> rfl

@[simp] theorem onDeployment_active :
    (c.onDeployment d f).active = c.active := by
  unfold onDeployment
  split <;> rfl

@[simp] theorem onDeployment_lock :
    (c.onDeployment d f).lock = c.lock := by
  unfold onDeployment
  split <;> rfl

@[simp] theorem onDeployment_running :
    (c.onDeployment d f).running = c.running := by
  unfold onDeployment
  split <;> rfl

end Campaigns

/-! ### Writes of the campaigns -/

namespace Write

theorem runs_runningWrite (now : Json) : Runs (Campaigns.runningWrite now) := by
  have hstate : (Campaigns.runningWrite now).patch.fields.get? "state"
      = some (stateJson .running) := rfl
  refine ⟨hstate, ?_⟩
  rfl

theorem quiet_progressWrite (event now : Json) : Quiet (Campaigns.progressWrite event now) :=
  ⟨rfl, ends_of_progress (.tail _ mem_cons_self)⟩

theorem quiet_ingressWrite (item : String) (config now : Json) :
    Quiet (Campaigns.ingressWrite item config now) := by
  refine ⟨rfl, ?_⟩
  simp [ends, event, RunEvent.ends, Campaigns.ingressWrite, Json.get?, lookup_cons]

theorem closes_finalWrite (r : CampaignResult) (evidence : CampaignEvidence) (found : Snapshot)
    (now : Json) : Closes (Campaigns.finalWrite r evidence found now) := by
  have hterminal : Campaigns.finalState r evidence found ∈ TERMINAL := by
    unfold Campaigns.finalState
    split_ifs with hreason
    · rcases hreason with hreason | hreason <;> rw [hreason] <;> decide
    · decide
    · decide
  exact closes_of_state hterminal rfl (by decide)

theorem closes_failedWrite (error : String) (confirmed : Bool) (now : Json) :
    Closes (Campaigns.failedWrite error confirmed now) :=
  closes_of_state (show "failed" ∈ TERMINAL by decide) rfl (by decide)

end Write

/-! ### Steps of the campaigns' executor -/

namespace CampaignPhase

/-- The run still has to be ended by this experiment. -/
def due : CampaignPhase → Bool
  | .done => false
  | _ => true

end CampaignPhase

/-- What a step of the campaigns' executor does. -/
inductive Campaigns.Worked (c : Campaigns) (i : CampaignWork) : Campaigns → Prop
  | stays : Worked c i c
  /-- the next experiment is taken -/
  | picks (job : CampaignJob) (queue : List CampaignJob) (hrunning : c.running = none)
      (hqueue : c.queue = job :: queue) :
      Worked c i { c with queue := queue, running := some (job, .begin) }
  /-- nothing is written and the run is still to be ended -/
  | goes (job : CampaignJob) (p p' : CampaignPhase) (c' : Campaigns)
      (hrunning : c.running = some (job, p)) (hdue : p.due) (hdue' : p'.due)
      (hrunning' : c'.running = some (job, p')) (hqueue : c'.queue = c.queue)
      (hactive : c'.active = c.active) (hlock : ∀ r i j, c'.lock = some (.ingress r i j) →
        c.lock = some (.ingress r i j)) (hsame : Service.SameRuns c.service c'.service) : Worked c i c'
  /-- an update that does not end the run -/
  | reports (job : CampaignJob) (p p' : CampaignPhase) (w : Write)
      (hrunning : c.running = some (job, p)) (hdue : p.due) (hdue' : p'.due)
      (hw : w.Quiet ∨ (p = .begin ∧ ∃ now, i = .start now) ∧ w.Runs) : Worked c i ((c.put job.runId w).goto job p')
  /-- the write that ends the run -/
  | closes (job : CampaignJob) (p : CampaignPhase) (w : Write) (lock : Option CampaignHolder)
      (hrunning : c.running = some (job, p)) (hdue : p.due) (hw : w.Closes)
      (hlock : ∀ r i j, lock = some (.ingress r i j) → c.lock = some (.ingress r i j)) :
      Worked c i { (c.put job.runId w).goto job .done with lock := lock }
  /-- the experiment is over -/
  | leaves (job : CampaignJob) (hrunning : c.running = some (job, .done)) : Worked c i (c.leave job)

namespace Campaigns

open Service (SameRuns Foreign Flagged Follows)

variable {c c' : Campaigns} {i : CampaignWork} {job : CampaignJob} {p : CampaignPhase} {id : String}

theorem worked_raise (hrunning : c.running = some (job, p)) (hdue : p.due) (error : String)
    (confirmed : Bool) : Worked c i (c.raise job error confirmed) :=
  .goes job p (.raised error confirmed) _ hrunning hdue rfl rfl (by simp [raise, goto])
    (by simp [raise, goto]) (fun _ _ _ h => by simpa [raise, goto] using h)
    (c.sameRuns_raise job error confirmed)

theorem worked_goto (hrunning : c.running = some (job, p)) (hdue : p.due) {p' : CampaignPhase}
    (hdue' : p'.due) : Worked c i (c.goto job p') :=
  .goes job p p' _ hrunning hdue hdue' rfl rfl rfl (fun _ _ _ h => h) (.of_eq rfl rfl rfl)

theorem worked_execute (hrunning : c.running = some (job, p)) (w : CampaignWork) :
    Worked c w (c.execute job p w) := by
  unfold execute
  split
  · exact .reports job _ .working _ hrunning rfl rfl (.inr ⟨⟨rfl, _, rfl⟩, Write.runs_runningWrite _⟩)
  · exact .reports job _ .working _ hrunning rfl rfl (.inl (Write.quiet_progressWrite _ _))
  · exact worked_goto hrunning rfl rfl
  · rename_i confirmed
    have hkilled := c.sameRuns_onDeployment job.deployment (f := .killed) (fun _ => rfl) fun _ => rfl
    exact .goes job _ (.raised _ confirmed) _ hrunning rfl rfl rfl (by simp [raise, goto])
      (by simp [raise, goto]) (fun _ _ _ h => by simpa [raise, goto] using h)
      (hkilled.trans (sameRuns_raise _ job _ confirmed))
  · exact worked_raise hrunning rfl _ _
  · exact worked_goto hrunning rfl rfl
  · split_ifs with hlock
    · exact .stays
    · split
      · exact .goes job _ (.sealing _ _ _) _ hrunning rfl rfl rfl rfl rfl (fun _ _ _ h => by cases h)
          (.of_eq rfl rfl rfl)
      · exact worked_raise hrunning rfl _ _
  · exact .closes job _ _ none hrunning rfl (Write.closes_finalWrite _ _ _ _) fun _ _ _ h => by
      cases h
  · split_ifs with hlock
    · exact .stays
    · exact .goes job _ (.marked _ _) _ hrunning rfl rfl rfl (by simp [goto]) (by simp [goto])
        (fun _ _ _ h => by simpa [goto] using h)
        (c.sameRuns_onDeployment job.deployment (fun _ => rfl) fun _ => rfl)
  · exact .closes job _ _ c.lock hrunning rfl (Write.closes_failedWrite _ _ _) fun _ _ _ h => h
  · split_ifs with hlock
    · exact .stays
    · exact .leaves job hrunning
  · exact worked_raise hrunning rfl _ _
  · exact worked_raise hrunning rfl _ _
  · exact worked_raise hrunning rfl _ _
  · exact worked_raise hrunning rfl _ _
  · rename_i error confirmed
    exact .goes job _ (.raised error confirmed) _ hrunning rfl rfl rfl (by simp [raise, goto])
      (by simp [raise, goto]) (fun _ _ _ h => by cases h) (c.sameRuns_raise job error confirmed)
  · exact .stays

theorem worked (c : Campaigns) (w : CampaignWork) : Worked c w (c.work w) := by
  unfold work
  split
  · rename_i job queue hrunning hqueue
    exact .picks job queue hrunning hqueue
  · rename_i job p hrunning
    exact worked_execute hrunning _
  · exact .stays

/-! ### What every step keeps -/

def owes (c : Campaigns) : List String :=
  (match c.running with
    | some (job, p) => if p.due then [job.runId] else []
    | none => []) ++ c.queue.map CampaignJob.runId

theorem owes_running (h : c.running = some (job, p)) :
    c.owes = (if p.due then [job.runId] else []) ++ c.queue.map CampaignJob.runId := by
  rw [owes, h]

theorem owes_idle (h : c.running = none) : c.owes = c.queue.map CampaignJob.runId := by
  rw [owes, h]
  rfl

/-- A foreign run without an ending. -/
structure Due (c : Campaigns) (id : String) : Prop where
  foreign : Foreign c.service id
  endings : c.service.store.endings id = 0

/-- What every step keeps. -/
structure Sound (c : Campaigns) : Prop where
  service : c.service.Sound
  nodup : c.owes.Nodup
  due : ∀ id ∈ c.owes, Due c id
  active : ∀ id, c.active = some id → Foreign c.service id
  ingress : ∀ id item config, c.lock = some (.ingress id item config) → Foreign c.service id

theorem Sound.due_running (h : Sound c) (hrunning : c.running = some (job, p)) (hdue : p.due) :
    Due c job.runId := by
  apply h.due
  rw [owes_running hrunning, if_pos hdue]
  exact .head _

theorem Sound.serviceStep (h : Sound c) (a : Service.Act) :
    Sound { c with service := c.service.step a } := by
  refine ⟨(h.service.step a).1, h.nodup, fun id hid => ?_, fun id hid => ?_,
    fun id item config hid => ?_⟩
  · have hbefore := h.due id hid
    obtain ⟨hforeign, hend⟩ := hbefore.foreign.step h.service a
    exact ⟨hforeign, hend.trans hbefore.endings⟩
  · exact ((h.active id hid).step h.service a).1
  · exact ((h.ingress id item config hid).step h.service a).1

/-- The same runs and the same work in the service, and no more in the campaigns. -/
theorem Sound.of_sameRuns (h : Sound c) (hsame : SameRuns c.service c'.service)
    (howes : c'.owes.Sublist c.owes) (hactive : ∀ id, c'.active = some id → c.active = some id)
    (hlock : ∀ r i j, c'.lock = some (.ingress r i j) → c.lock = some (.ingress r i j)) :
    Sound c' := by
  refine ⟨h.service.of_sameRuns hsame, howes.nodup h.nodup, fun id hid => ?_, fun id hid => ?_,
    fun id item config hid => ?_⟩
  · have hbefore := h.due id (howes.subset hid)
    exact ⟨hbefore.foreign.of_sameRuns hsame, hsame.store ▸ hbefore.endings⟩
  · exact (h.active id (hactive id hid)).of_sameRuns hsame
  · exact (h.ingress id item config (hlock _ _ _ hid)).of_sameRuns hsame

/-- A write to a foreign run `id`: the campaigns owe the same runs, without `id` if it ends it. -/
theorem Sound.of_put (h : Sound c) {w : Write} (hid : Foreign c.service id)
    (hservice : c'.service = { c.service with store := c.service.store.put id w })
    (howes : c'.owes.Sublist c.owes) (hends : w.ends = true → id ∉ c'.owes)
    (hactive : c'.active = c.active)
    (hlock : ∀ r i j, c'.lock = some (.ingress r i j) → c.lock = some (.ingress r i j)) :
    Sound c' := by
  obtain ⟨run, hrun⟩ := hid.stored
  have hput := h.service.recorded.put hrun w
  -- foreign runs stay foreign
  have hforeign : ∀ k, Foreign c.service k → Foreign c'.service k := by
    intro k hk
    rw [hservice]
    refine ⟨?_, hk.notOwed⟩
    by_cases hne : k = id
    · obtain ⟨run', hrun', -⟩ := hput.stored
      exact ⟨run', hne ▸ hrun'⟩
    · obtain ⟨run', hrun'⟩ := hk.stored
      exact ⟨run', (hput.get_of_ne k hne).trans hrun'⟩
  refine ⟨?_, howes.nodup h.nodup, fun k hk => ⟨hforeign k (h.due k (howes.subset hk)).foreign, ?_⟩,
    fun k hk => hforeign k (h.active k (hactive ▸ hk)), fun k item config hk =>
    hforeign k (h.ingress k item config (hlock _ _ _ hk))⟩
  · rw [hservice]
    exact hid.put h.service w
  · have hbefore := (h.due k (howes.subset hk)).endings
    rw [hservice]
    show (c.service.store.put id w).endings k = 0
    by_cases hne : k = id
    · subst hne
      have hw : w.ends = false := by
        rcases hw : w.ends with - | -
        · rfl
        · exact absurd hk (hends hw)
      rw [hput.endings, hbefore, hw]
      rfl
    · rw [hput.endings_of_ne k hne, hbefore]

/-- A step of the campaigns' executor. -/
theorem Sound.worked (h : Sound c) (hw : Worked c i c') : Sound c' := by
  rcases hw with - | ⟨job, queue, hrunning, hqueue⟩ |
    ⟨job, p, p', c', hrunning, hdue, hdue', hrunning', hqueue, hactive, hlock, hsame⟩ |
    ⟨job, p, p', w, hrunning, hdue, hdue', hw⟩ | ⟨job, p, w, lock, hrunning, hdue, hw, hlock⟩ |
    ⟨job, hrunning⟩
  · exact h
  · refine h.of_sameRuns (.of_eq rfl rfl rfl) ?_ (fun _ hid => hid) fun _ _ _ hid => hid
    rw [owes_idle hrunning, hqueue]
    exact List.Sublist.refl _
  · refine h.of_sameRuns hsame ?_ (fun _ hid => hactive ▸ hid) hlock
    rw [owes_running hrunning, owes_running hrunning', hqueue, if_pos hdue, if_pos hdue']
  · refine h.of_put (w := w) (h.due_running hrunning hdue).foreign rfl ?_ (fun hends => ?_) rfl
      fun _ _ _ hid => hid
    · rw [owes_running hrunning, owes_running (c := (c.put job.runId w).goto job p') rfl,
        if_pos hdue, if_pos hdue']
      exact List.Sublist.refl _
    · rcases hw with hquiet | ⟨-, hruns⟩
      · rw [hquiet.ends] at hends
        cases hends
      · rw [hruns.ends] at hends
        cases hends
  · have howes : c.owes = job.runId :: c.queue.map CampaignJob.runId := by
      rw [owes_running hrunning, if_pos hdue]
      rfl
    have hnodup := h.nodup
    rw [howes] at hnodup
    refine h.of_put (w := w) (h.due_running hrunning hdue).foreign rfl ?_ (fun _ => ?_) rfl hlock
    · rw [howes]
      exact sublist_cons_self _ _
    · exact (nodup_cons.mp hnodup).1
  · refine h.of_sameRuns (.of_eq rfl rfl rfl) ?_ (fun _ hid => by cases hid) fun _ _ _ hid => hid
    rw [owes_running hrunning]
    exact List.Sublist.refl _

/-! ### The other steps -/

/-- `start` refuses, or loses the worker, or puts a new experiment in the queue. -/
theorem start_cases (c : Campaigns) (req : CampaignRequest) :
    (c.start req).1 = c ∨
    (c.start req).1 = c.onDeployment req.deployment (fun dep => (dep.stopped true).abandoned) ∨
    ∃ run fresh store, c.service.store.replay req.key req.digest = .ok none ∧
      c.service.store.create "scheduling" req.config req.key req.digest req.hex req.now req.later
        = .ok ((run, fresh), store) ∧
      (c.start req).1 = c.accept req store := by
  unfold start
  rcases hkey : c.service.store.idempotency.get? req.key with - | old
  · have hreplay : c.service.store.replay req.key req.digest = .ok none := by
      rw [Store.replay, hkey]
    rcases c.startError req with - | code
    · rcases req.capability with - | reasons | -
      · rw [enrol]
        rcases req.preflight <|> claimError c.service req.deployment with - | code
        · rcases hcreate : c.service.store.create "scheduling" req.config req.key req.digest req.hex
            req.now req.later with e | ⟨⟨run, fresh⟩, store⟩
          · exact .inl rfl
          · exact .inr (.inr ⟨run, fresh, store, hreplay, rfl, rfl⟩)
        · exact .inl rfl
      · exact .inl rfl
      · exact .inr (.inl rfl)
    · exact .inl rfl
  · left
    simp only
    split_ifs <;> rfl

theorem sameRuns_lost (c : Campaigns) (d : String) : SameRuns c.service
    (c.onDeployment d fun dep => (dep.stopped true).abandoned).service :=
  c.sameRuns_onDeployment d (fun _ => rfl) fun _ => rfl

theorem Sound.accept (h : Sound c) (hlock : c.service.lock = none) {req : CampaignRequest}
    {run : Snapshot} {fresh : Bool} {store : Store}
    (hreplay : c.service.store.replay req.key req.digest = .ok none)
    (hcreate : c.service.store.create "scheduling" req.config req.key req.digest req.hex req.now
      req.later = .ok ((run, fresh), store)) : Sound (c.accept req store) := by
  obtain ⟨-, hopen, hnew, hother⟩ := Service.created_open h.service.recorded hreplay hcreate
  obtain ⟨hsound, hfresh, hforeign⟩ := h.service.created hlock hreplay hcreate
  have hsame : SameRuns { c.service with store := store } (c.accept req store).service :=
    .of_eq rfl rfl rfl
  have hkeep : ∀ id, Foreign c.service id → Foreign (c.accept req store).service id :=
    fun id hid => (hforeign id hid).of_sameRuns hsame
  have howes : (c.accept req store).owes = c.owes ++ [Store.freshId req.hex] := by
    show _ ++ (c.queue ++ [_]).map CampaignJob.runId = _
    rw [map_append, ← append_assoc]
    rfl
  refine ⟨hsound.of_sameRuns hsame, ?_, fun id hid => ?_, fun id hid => ?_,
    fun id item config hid => hkeep id (h.ingress id item config hid)⟩
  · rw [howes]
    refine nodup_append'.mpr ⟨h.nodup, nodup_singleton _, fun id hid hin => ?_⟩
    obtain rfl := mem_singleton.mp hin
    obtain ⟨run', hrun'⟩ := (h.due _ hid).foreign.stored
    exact hnew run' hrun'
  · rw [howes] at hid
    rcases mem_append.mp hid with hid | hid
    · have hbefore := h.due id hid
      obtain ⟨run', hrun'⟩ := hbefore.foreign.stored
      have hne : id ≠ Store.freshId req.hex := by
        rintro rfl
        exact hnew run' hrun'
      exact ⟨hkeep id hbefore.foreign, (hother id hne).2.trans hbefore.endings⟩
    · obtain rfl := mem_singleton.mp hid
      exact ⟨hfresh.of_sameRuns hsame, hopen.endings⟩
  · obtain rfl : Store.freshId req.hex = id := Option.some.inj hid
    exact hfresh.of_sameRuns hsame

/-- What a step is: one of the service, one of the executor, an accepted experiment, a lost
worker, a half of `submit_request`, the close, or nothing. -/
inductive Stepped (c : Campaigns) : Act → Campaigns → Prop
  | idle (i : Act) : Stepped c i c
  | serves (a : Service.Act) : Stepped c (.service a) { c with service := c.service.step a }
  | accepts {req : CampaignRequest} {run : Snapshot} {fresh : Bool} {store : Store}
    (hfree : c.service.lock = none)
    (hreplay : c.service.store.replay req.key req.digest = .ok none)
    (hcreate : c.service.store.create "scheduling" req.config req.key req.digest req.hex req.now
      req.later = .ok ((run, fresh), store)) :
    Stepped c (.start req) (c.accept req store)
  | loses (req : CampaignRequest) : Stepped c (.start req)
    (c.onDeployment req.deployment fun dep => (dep.stopped true).abandoned)
  | works (w : CampaignWork) : Stepped c (.work w) (c.work w)
  | admits {identity : String} (item : IngressItem) (config : Json)
    (hactive : c.active = some identity) :
    Stepped c (.ingress identity item) { c with lock := some (.ingress identity item.id config) }
  | queues {runId item : String} {config : Json} (now : Json)
    (hlock : c.lock = some (.ingress runId item config)) :
    Stepped c (.queued now) { c.put runId (ingressWrite item config now) with lock := none }
  | closes : Stepped c .close { c with closed := true }

theorem stepped (c : Campaigns) (i : Act) : Stepped c i (c.step i) := by
  rcases i with a | req | w | ⟨identity, item⟩ | now | -
  · exact .serves a
  · rw [Campaigns.step]
    split_ifs with hlock
    · exact .idle _
    · have hfree : c.service.lock = none := by simpa using (not_or.mp hlock).2
      rcases c.start_cases req with heq | heq | ⟨run, fresh, store, hreplay, hcreate, heq⟩ <;>
        rw [heq]
      · exact .idle _
      · exact .loses req
      · exact .accepts hfree hreplay hcreate
  · exact .works w
  · rw [Campaigns.step, ingress]
    split_ifs
    · exact .idle _
    · rcases hadmit : c.admitIngress identity item with e | config
      · exact .idle _
      · refine .admits item config ?_
        by_contra hactive
        obtain ⟨row, -, hrest⟩ := bind_ok_iff.mp hadmit
        simp only [hactive, ne_eq] at hrest
        cases hrest
  · rw [Campaigns.step, queued]
    rcases hlock : c.lock with - | ⟨runId, item, config⟩ | -
    · exact .idle _
    · exact .queues now hlock
    · exact .idle _
  · rw [Campaigns.step]
    split_ifs
    · exact .idle _
    · exact .closes

/-- **Every step is sound.** -/
theorem Sound.step (h : Sound c) (i : Act) : Sound (c.step i) := by
  have hstep := c.stepped i
  generalize c.step i = c' at hstep ⊢
  cases hstep with
  | idle => exact h
  | serves a => exact h.serviceStep a
  | accepts hfree hreplay hcreate => exact h.accept hfree hreplay hcreate
  | loses req =>
    refine h.of_sameRuns (c.sameRuns_lost req.deployment) ?_ (by simp) (by simp)
    simp only [owes, onDeployment_running, onDeployment_queue, List.Sublist.refl]
  | works w => exact h.worked (c.worked w)
  | admits item config hactive =>
    refine ⟨h.service, h.nodup, fun id hid => ⟨(h.due id hid).foreign, (h.due id hid).endings⟩,
      h.active, fun id item' config' hid => ?_⟩
    obtain ⟨rfl, -, -⟩ := CampaignHolder.ingress.inj (Option.some.inj hid)
    exact h.active _ hactive
  | @queues runId item config now hlock =>
    refine h.of_put (w := ingressWrite item config now) (h.ingress runId item config hlock) rfl
      (List.Sublist.refl _) (fun hends => ?_) rfl fun _ _ _ hid => by cases hid
    cases hends
  | closes =>
    exact h.of_sameRuns (.of_eq rfl rfl rfl) (List.Sublist.refl _) (fun _ hid => hid)
      fun _ _ _ hid => hid

variable (configs : OrderedDict String Provider)

theorem sound_run (maxPending : Nat) (privileged : Bool) (is : List Act) :
    Sound ((campaignMachine configs maxPending privileged).run is) := by
  apply Machine.runFrom_invariant (m := campaignMachine configs maxPending privileged) (P := Sound)
  · exact fun _ i h => h.step i
  · exact ⟨(Service.consistent_start configs maxPending).toSound, nodup_nil,
      fun id hid => (by cases hid), fun id hid => (by cases hid),
      fun id item config hid => (by cases hid)⟩

/-! ### Acknowledged cancellations -/

/-- The run whose `cancel` call returns with this step. -/
def acknowledged (c : Campaigns) : Act → Option String
  | .service a => c.service.acknowledged a
  | _ => none

/-- The blind `running` update does not find its run marked. -/
def BlindToNone (c : Campaigns) : Act → Prop
  | .work (.start _) => ∀ job, c.running = some (job, .begin) → ¬ Flagged c.service job.runId
  | _ => True

theorem Sound.follows_worked (h : Sound c) {w : CampaignWork} (hw : Worked c w c')
    (hguard : BlindToNone c (.work w)) (k : String) : Follows c.service c'.service k := by
  rcases hw with - | ⟨job, queue, hrunning, hqueue⟩ |
    ⟨job, p, p', c', hrunning, hdue, hdue', hrunning', hqueue, hactive, hlock, hsame⟩ |
    ⟨job, p, p', w', hrunning, hdue, hdue', hw'⟩ | ⟨job, p, w', lock, hrunning, hdue, hw', hlock⟩ |
    ⟨job, hrunning⟩
  · exact .refl _ k
  · exact .refl _ k
  · exact Service.follows_of_store hsame.store k
  · obtain ⟨run, hrun⟩ := (h.due_running hrunning hdue).foreign.stored
    have hput := h.service.recorded.put hrun w'
    rcases hw' with hquiet | ⟨⟨rfl, now, rfl⟩, hruns⟩
    · exact Service.follows_quiet hput hrun hquiet k
    · exact Service.follows_runs hput hruns (hguard job hrunning) k
  · obtain ⟨run, hrun⟩ := (h.due_running hrunning hdue).foreign.stored
    exact Service.follows_closes (h.service.recorded.put hrun w') hw' k
  · exact Service.follows_of_store rfl k

/-- The steps of the campaigns follow the marks, but for a blind update over one. -/
theorem Sound.follows_step (h : Sound c) {i : Act} (hack : c.acknowledged i ≠ some k)
    (hguard : BlindToNone c i) : Follows c.service (c.step i).service k := by
  have hstep := c.stepped i
  generalize c.step i = c' at hstep ⊢
  cases hstep with
  | idle | admits | closes => exact .refl _ k
  | serves => exact h.service.follows_step hack
  | accepts _ hreplay hcreate =>
    exact Service.follows_created h.service.recorded hreplay hcreate k
  | loses req => exact Service.follows_of_store (c.sameRuns_lost req.deployment).store k
  | works w => exact h.follows_worked (c.worked w) hguard k
  | @queues runId item config now hlock =>
    obtain ⟨run, hrun⟩ := (h.ingress runId item config hlock).stored
    exact Service.follows_quiet (h.service.recorded.put hrun _) hrun
      (Write.quiet_ingressWrite item config now) k

/-- Off the guard: the update goes over the mark of its run. -/
theorem Sound.blind_step (h : Sound c) {i : Act} (hblind : ¬ BlindToNone c i) :
    ∃ id run w, Flagged c.service id ∧ w.Runs ∧
      Store.Written c.service.store (c.step i).service.store id run w := by
  unfold BlindToNone at hblind
  split at hblind
  · rename_i now
    simp only [not_forall, not_not] at hblind
    obtain ⟨job, hrunning, hflag⟩ := hblind
    obtain ⟨run, hrun⟩ := (h.due_running hrunning rfl).foreign.stored
    have hput := h.service.recorded.put hrun (runningWrite now)
    have hstep : c.step (.work (.start now)) = (c.put job.runId (runningWrite now)).goto job .working := by
      simp only [Campaigns.step, work, hrunning, execute]
    rw [hstep]
    exact ⟨job.runId, run, _, hflag, Write.runs_runningWrite now, hput⟩
  · exact absurd trivial hblind

theorem store_step (c : Campaigns) (i : Act) : (c.step i).service.store = c.service.store ∨
    ∃ call, (c.step i).service.store = (c.service.store.call call).2 := by
  have hstep := c.stepped i
  generalize c.step i = c' at hstep ⊢
  cases hstep with
  | idle | admits | closes => exact .inl rfl
  | serves a => exact Service.store_step c.service a
  | @accepts req _ _ _ _ _ hcreate =>
    right
    refine ⟨.create "scheduling" req.config req.key req.digest req.hex req.now req.later, ?_⟩
    rw [Store.call, hcreate]
    rfl
  | loses req => exact .inl (c.sameRuns_lost req.deployment).store
  | works w =>
    have hw := c.worked w
    generalize c.work w = c' at hw ⊢
    rcases hw with - | ⟨_, _, _, _⟩ | ⟨_, _, _, _, _, _, _, _, _, _, _, hsame⟩ |
      ⟨job, _, _, w', _, _, _, _⟩ | ⟨job, _, w', _, _, _, _, _⟩ | ⟨_, _⟩
    · exact .inl rfl
    · exact .inl rfl
    · exact .inl hsame.store
    · exact .inr ⟨.update job.runId w'.patch w'.kind w'.data w'.now, rfl⟩
    · exact .inr ⟨.update job.runId w'.patch w'.kind w'.data w'.now, rfl⟩
    · exact .inl rfl
  | queues => exact .inr ⟨.update _ _ _ _ _, rfl⟩

/-- The marks of runs and what the steps of the campaigns do to them. -/
theorem flags_campaigns (maxPending : Nat) (privileged : Bool) :
    Flags (campaignMachine configs maxPending privileged) (fun c k => Flagged c.service k)
      (fun c k => c.service.store.endings k) acknowledged BlindToNone := by
  have hsound : ∀ c, (campaignMachine configs maxPending privileged).Reachable c → Sound c := by
    rintro _ ⟨is, rfl⟩
    exact sound_run configs maxPending privileged is
  have hack : ∀ c i k, Sound c → c.acknowledged i = some k → Flagged (c.step i).service k ∧
      (c.step i).service.store.endings k = c.service.store.endings k := by
    intro c i k h hack
    rcases i with a | req | w | ⟨identity, item⟩ | now | -
    · exact h.service.acknowledged_step hack
    all_goals cases hack
  refine ⟨fun k hflag => ?_, fun c i k hc h => (hack c i k (hsound c hc) h).1,
    fun c i k hc hguard hflag => ?_, fun c i hc hblind => ?_,
    fun c i k hc hflag => ?_, fun c i k hc => ?_⟩
  · obtain ⟨run, hrun, -⟩ := hflag.stored
    cases hrun
  · by_cases h : c.acknowledged i = some k
    · exact .inl (hack c i k (hsound c hc) h)
    · exact ((hsound c hc).follows_step h hguard).held hflag
  · obtain ⟨id, run, w, hflag, hruns, hput⟩ := (hsound c hc).blind_step hblind
    exact ⟨id, hflag, Service.runs_written hput hruns⟩
  · by_cases h : c.acknowledged i = some k
    · exact .inr h
    · left
      by_cases hguard : BlindToNone c i
      · exact ((hsound c hc).follows_step h hguard).cause hflag
      · obtain ⟨id, run, w, -, hruns, hput⟩ := (hsound c hc).blind_step hguard
        have hk : k ≠ id := by
          rintro rfl
          exact (Service.runs_written hput hruns).1 hflag
        exact (Service.follows_of_get (hput.get_of_ne k hk) (hput.endings_of_ne k hk)).cause hflag
  · rcases c.store_step i with heq | ⟨call, heq⟩
    · rw [show (campaignMachine configs maxPending privileged).step c i = c.step i from rfl, heq]
    · rw [show (campaignMachine configs maxPending privileged).step c i = c.step i from rfl, heq]
      exact Service.endings_call_le (hsound c hc).service.recorded call k

end Campaigns

/-! ### What a client can rely on -/

/-- A worker of run `id` asks the predicate that was handed to it and gets `b`. -/
def Service.Asks (σ : Service) (id : String) (b : Bool) : Prop :=
  ∃ d dep job p, σ.deployments.get? d = some dep ∧ dep.running = some (job, p) ∧ p.atWork ∧
    job.runId = id ∧ b = σ.isCancelled id

/-- A worker of run `id` asks its predicate, in a job of the service or in an experiment. -/
def Campaigns.Asks (c : Campaigns) (id : String) (b : Bool) : Prop :=
  c.service.Asks id b ∨
    ∃ job, c.running = some (job, .working) ∧ job.runId = id ∧ b = c.isCancelled id

/-- Along the run, a `cancel` that has returned a run in state `cancel_requested` is in the store
up to the ending of that run, and every worker that asks is told so. -/
def CancelsKept {σ ι : Type} (m : Machine σ ι) (service : σ → Service)
    (ack : σ → ι → Option String) (asks : σ → String → Bool → Prop) (is : List ι) : Prop :=
  ∀ js i ks, js ++ i :: ks <+: is → ∀ id, ack (m.run js) i = some id →
    ((service (m.run (js ++ i :: ks))).store.endings id
        = (service (m.run (js ++ [i]))).store.endings id →
      Service.Flagged (service (m.run (js ++ i :: ks))) id) ∧
    ∀ b, asks (m.run (js ++ i :: ks)) id b → b = true

/-- Where the workers only ask for runs that are not ended, the marks are all that matters. -/
theorem cancelsKept_iff {σ ι : Type} {m : Machine σ ι} {service : σ → Service}
    {ack : σ → ι → Option String} {asks : σ → String → Bool → Prop} {C : σ → ι → Prop}
    (h : Flags m (fun s k => Service.Flagged (service s) k) (fun s k => (service s).store.endings k)
      ack C)
    (hasks : ∀ s id b, m.Reachable s → asks s id b → (service s).store.endings id = 0 ∧
      (Service.Flagged (service s) id → b = true)) (is : List ι) :
    CancelsKept m service ack asks is ↔ m.Guarded C m.init is := by
  rw [← h.kept_iff]
  constructor
  · exact fun hheld js i ks hpre id hack => (hheld js i ks hpre id hack).1
  · intro hkept js i ks hpre id hack
    refine ⟨hkept js i ks hpre id hack, fun b hb => ?_⟩
    obtain ⟨hzero, htrue⟩ := hasks _ id b (Machine.reachable_run _) hb
    exact htrue (h.up_of_zero hkept hpre hack hzero)

theorem Service.Sound.asks {σ : Service} (h : Service.Sound σ) {id : String} {b : Bool}
    (hb : σ.Asks id b) : σ.store.endings id = 0 ∧ (Service.Flagged σ id → b = true) := by
  obtain ⟨d, dep, job, p, hdep, hrunning, hwork, rfl, rfl⟩ := hb
  have hdue : p.due := by cases p <;> first | rfl | cases hwork
  refine ⟨(h.owed _ (mem_owedIn hdep ?_)).endings, Service.Flagged.isCancelled⟩
  rw [Deployment.owes_running hrunning, if_pos hdue]
  exact .head _

theorem Campaigns.Sound.asks {c : Campaigns} (h : Campaigns.Sound c) {id : String} {b : Bool}
    (hb : c.Asks id b) :
    c.service.store.endings id = 0 ∧ (Service.Flagged c.service id → b = true) := by
  rcases hb with hb | ⟨job, hrunning, rfl, rfl⟩
  · exact h.service.asks hb
  · refine ⟨(h.due_running hrunning rfl).endings, fun hflag => ?_⟩
    rw [Campaigns.isCancelled, hflag.isCancelled, Bool.or_true]

namespace Campaigns

/-- **Acknowledged cancellations** of the console.  The executors of the service keep them in
every run.  With the campaigns among the threads they are kept exactly if no experiment whose
run is marked comes to the blind `running` update. -/
theorem cancel_lossless_iff (configs : OrderedDict String Provider) (maxPending : Nat)
    (privileged : Bool) :
    (∀ is : List Service.Act, CancelsKept (serviceMachine configs maxPending) id
      Service.acknowledged Service.Asks is) ∧
    ∀ is : List Act, CancelsKept (campaignMachine configs maxPending privileged) service
        acknowledged Asks is ↔
      (campaignMachine configs maxPending privileged).Guarded BlindToNone
        (.fresh configs maxPending privileged) is := by
  refine ⟨fun is => ?_, fun is => ?_⟩
  · refine (cancelsKept_iff (Service.flags_service configs maxPending) (fun σ id b hσ hb => ?_)
      is).mpr (Machine.guarded_iff_runFrom.mpr fun _ _ _ => trivial)
    obtain ⟨js, rfl⟩ := hσ
    exact (Service.consistent_run configs maxPending js).toSound.asks hb
  · refine cancelsKept_iff (flags_campaigns configs maxPending privileged) (fun c id b hc hb => ?_) is
    obtain ⟨js, rfl⟩ := hc
    exact (sound_run configs maxPending privileged js).asks hb

/-- A loaded model, and an experiment on it that is cancelled in the queue. -/
def cancelledInQueue : List Act :=
  [.service (.submit
      ⟨.load, "d", "key", "digest", "0", .null, none, none, none, none, .null, .null⟩),
    .service (.exec "d" .pick), .service (.exec "d" .enter),
    .service (.exec "d" (.decide none .null (.obj []) .null)),
    .service (.exec "d" (.clock false)),
    .service (.exec "d" (.finish (.done ⟨none, none, none, .null⟩))),
    .service (.exec "d" (.label "epoch")), .service (.exec "d" .read),
    .service (.exec "d" (.write [] .null)), .service (.exec "d" .leave),
    .start ⟨"d", "epoch", "key2", "digest2", "1", .null, .supported, none, .null, .null⟩,
    .service (.cancel "run_1"), .work .pick]

def oneDeployment : Machine Campaigns Act := campaignMachine ⟨[("d", .pytorch)], nodup_singleton _⟩ 8 false

/-- The cancellation returns before the worker is started, and the worker is started with a
predicate that says no. -/
theorem cancel_lost_in_queue :
    (oneDeployment.run cancelledInQueue).acknowledged (.service (.confirm .null)) = some "run_1" ∧
    (oneDeployment.run
      (cancelledInQueue ++ [Act.service (.confirm .null), .work (.start .null)])).service.stateOf
        "run_1" = some "running" ∧
    (oneDeployment.run
      (cancelledInQueue ++ [Act.service (.confirm .null), .work (.start .null)])).isCancelled "run_1"
      = false ∧
    ¬ CancelsKept oneDeployment service acknowledged Asks
      (cancelledInQueue ++ [Act.service (.confirm .null), .work (.start .null)]) := by
  have hack : (oneDeployment.run cancelledInQueue).acknowledged (.service (.confirm .null))
      = some "run_1" := by decide
  have hstate : (oneDeployment.run
      (cancelledInQueue ++ [Act.service (.confirm .null), .work (.start .null)])).service.stateOf
        "run_1" = some "running" := by decide
  have hpredicate : (oneDeployment.run
      (cancelledInQueue ++ [Act.service (.confirm .null), .work (.start .null)])).isCancelled "run_1"
      = false := by decide
  have hend : (oneDeployment.run
      (cancelledInQueue ++ [Act.service (.confirm .null), .work (.start .null)])).service.store.endings
        "run_1"
      = (oneDeployment.run
          (cancelledInQueue ++ [Act.service (.confirm .null)])).service.store.endings "run_1" := by
    decide +kernel
  refine ⟨hack, hstate, hpredicate, fun hkept => ?_⟩
  have hflag := (hkept cancelledInQueue (.service (.confirm .null)) [.work (.start .null)]
    (prefix_refl _) "run_1" hack).1 hend
  rw [Service.Flagged, hstate] at hflag
  exact absurd hflag (by decide)

end Campaigns

end Hqsb.Console
