/-
Hqsb/Console/ServiceSteps.lean

What the steps of the console service do to the runs in its store.

A write of an executor is one of three kinds (`Deployment.executed`): it leaves the state of
its run alone, it is the `running` update under the lock, or it is the one write that
ends the run.  A deployment owes an ending to every job in its queue and to the job at
hand until that write (`Deployment.owes`), so whatever the executors do next, nobody
else will end these runs.

The steps of the clients are taken apart by `submit_cases`, `cancel_cases` and
`confirm_cases`, and all steps by `stepped`.  No step makes more than one call of the store (`store_step`).
-/
import Hqsb.Console.Service
import Hqsb.Lib.Traverse

namespace Hqsb.Console

open Lib List OrderedDict

/-! ### Runs in the store -/

/-- The events that carry what a worker has sent. -/
def progressKinds : List String := ["task.progress", "scheduling.progress"]

def RunEvent.ends (e : RunEvent) : Bool :=
  e.kind ∉ progressKinds && match e.data.get? "state" with
    | some (.str state) => state ∈ TERMINAL
    | _ => false

namespace Store

variable {s : Store}

/-- How often the log of a run says that it has ended. -/
def endings (s : Store) (id : String) : Nat := (s.eventsOf id).countP RunEvent.ends

/-- A stored run that has not ended. -/
structure Open (s : Store) (id : String) : Prop where
  stored : ∃ run, s.get id = .ok run ∧ run.isTerminal = false
  endings : s.endings id = 0

end Store

namespace Write

/-- The event of a write; its number and run are those of the run written to. -/
def event (w : Write) (id : String) (seq : Int) : RunEvent :=
  ⟨id, seq, w.kind, w.now, w.data.getD w.patch.json⟩

def ends (w : Write) : Bool := (w.event "" 0).ends

def stateAfter (w : Write) (run : Snapshot) : Option String :=
  (w.patch.fields.get? "state").or (run.get? "state") >>= Json.str?

end Write

namespace Store

variable {s : Store}

/-- What a write to a stored run does. -/
structure Written (s s' : Store) (id : String) (run : Snapshot) (w : Write) : Prop where
  recorded : Recorded s'
  stored : ∃ run', s'.get id = .ok run' ∧ run'.state = w.stateAfter run
  endings : s'.endings id = s.endings id + if w.ends then 1 else 0
  get_of_ne : ∀ id' ≠ id, s'.get id' = s.get id'
  endings_of_ne : ∀ id' ≠ id, s'.endings id' = s.endings id'

theorem state_stamped (w : Write) (run : Snapshot) (n : Int) :
    Snapshot.state (stamped run ⟨w.patch, w.kind, w.data, w.now⟩ n) = w.stateAfter run := by
  rw [Snapshot.state, stamped, get?_set_of_ne _ _ (by decide), Change.apply,
    get?_set_of_ne _ _ (by decide), get?_update]
  rfl

theorem Recorded.put (h : Recorded s) {id : String} {run : Snapshot} (hrun : s.get id = .ok run)
    (w : Write) : Written s (s.put id w) id run w := by
  obtain ⟨hist, hrec⟩ := h
  have hstored := get_eq_ok_iff.mp hrun
  have hfolded := hrec.runs id
  rw [hstored] at hfolded
  let c : Change := ⟨w.patch, w.kind, w.data, w.now⟩
  obtain ⟨s', hupdate, hrec'⟩ := hrec.update run c hstored
  have hput : s.put id w = s' := by
    rw [Store.put, Store.call]
    rw [show s.update id w.patch w.kind w.data w.now = _ from hupdate]
  have heq := (update_eq c hstored hfolded.seq? (hrec.free id)).symm.trans hupdate
  have hs' := congrArg Prod.snd (Except.ok.inj heq)
  simp only at hs'
  -- the log of a run is the one of its changes
  have hevents : ∀ id', s'.eventsOf id'
      = Change.events id' (changesOf id' hist ++ if id = id' then [c] else []) := by
    intro id'
    rw [hrec'.eventsOf, changesOf_update]
  rw [hput]
  refine ⟨⟨_, hrec'⟩, ⟨_, ?_, state_stamped w run (changesOf id hist).length⟩, ?_, ?_, ?_⟩
  · rw [get_eq_ok_iff, ← hs']
    exact get?_set_self _ _ _
  · rw [endings, endings, hevents, if_pos rfl, Change.events_concat, hrec.eventsOf,
      countP_append, countP_singleton]
    rfl
  · intro id' hne
    rw [get, get, ← hs']
    rw [get?_set_of_ne _ _ hne]
  · intro id' hne
    rw [endings, endings, hevents, hrec.eventsOf, if_neg fun h => hne h.symm, append_nil]

end Store

/-! ### The writes of an executor -/

theorem Patch.get?_json (patch : Patch) (key : String) :
    patch.json.get? key = patch.fields.get? key := by
  obtain ⟨⟨l, hl⟩, hseq⟩ := patch
  show l.lookup key = _
  simp only [OrderedDict.get?]
  clear hl hseq
  induction l with
  | nil => rfl
  | cons e l ih =>
    obtain ⟨k, j⟩ := e
    by_cases hk : key = k
    · subst hk
      simp
    · have hne : ¬ k = key := fun h => hk h.symm
      have hbeq : (key == k) = false := beq_eq_false_iff_ne.mpr hk
      simpa [lookup_cons, hbeq, hne] using ih

namespace Write

/-- The write leaves the state of the run alone. -/
structure Quiet (w : Write) : Prop where
  state : w.patch.fields.get? "state" = none
  ends : w.ends = false

/-- The `running` update. -/
structure Runs (w : Write) : Prop where
  state : w.patch.fields.get? "state" = some (stateJson .running)
  ends : w.ends = false

/-- The write ends its run. -/
structure Closes (w : Write) : Prop where
  state : ∃ text ∈ TERMINAL, w.patch.fields.get? "state" = some (.str text)
  ends : w.ends = true

theorem closes_of_state {patch : Patch} {kind : String} {now : Json} {text : String}
    (htext : text ∈ TERMINAL) (hstate : patch.fields.get? "state" = some (.str text))
    (hkind : kind ∉ progressKinds) : Closes ⟨patch, kind, none, now⟩ := by
  refine ⟨⟨text, htext, hstate⟩, ?_⟩
  simp [ends, event, RunEvent.ends, Patch.get?_json, hstate, htext, hkind]

theorem closes_cancelled (now : Json) : Closes ⟨.cancelled, "cancelled", none, now⟩ :=
  closes_of_state (show "cancelled" ∈ TERMINAL by decide) rfl (by decide)

theorem closes_rejected (message code : String) (now : Json) :
    Closes ⟨.rejected message code, "error", none, now⟩ :=
  closes_of_state (show "failed" ∈ TERMINAL by decide) rfl (by decide)

theorem closes_timedOut (now : Json) : Closes ⟨.timedOut, "error", none, now⟩ :=
  closes_of_state (show "timed_out" ∈ TERMINAL by decide) rfl (by decide)

theorem closes_failed (error : String) (confirmed : Bool) (metrics now : Json) :
    Closes ⟨.failed error confirmed metrics, "error", none, now⟩ :=
  closes_of_state (show "failed" ∈ TERMINAL by decide) rfl (by decide)

theorem finalState_terminal (r : JobResult) : Patch.finalState r ∈ TERMINAL := by
  unfold Patch.finalState
  split_ifs with herror hstop
  · decide
  · simp only [JobResult.stopped, Bool.or_eq_true, decide_eq_true_eq] at hstop
    rcases hstop with hstop | hstop
    · rw [hstop]
      decide
    · rw [hstop]
      decide
  · decide

theorem not_terminal_of_progress {text : String} (h : text ∈ progressKinds) : text ∉ TERMINAL := by
  fin_cases h <;> decide

theorem closes_final (kind : JobKind) (r : JobResult) (current : Snapshot) (metrics now : Json) :
    Closes ⟨.final kind r current metrics, Patch.finalEvent r, none, now⟩ := by
  apply closes_of_state (finalState_terminal r)
  · unfold Patch.final
    rcases r.requestError with - | ⟨message, code⟩
    · rfl
    · rfl
  · have hterminal := finalState_terminal r
    unfold Patch.finalEvent
    split_ifs
    · decide
    · exact fun hin => absurd hterminal (not_terminal_of_progress hin)
    · decide

theorem runs_running (startedAt metrics now : Json) :
    Runs ⟨.running startedAt metrics, "state.changed", none, now⟩ := by
  have hstate : (Patch.running startedAt metrics).fields.get? "state"
      = some (stateJson .running) := rfl
  refine ⟨hstate, ?_⟩
  rfl

theorem ends_of_progress {w : Write} (h : w.kind ∈ progressKinds) : w.ends = false := by
  simp [ends, event, RunEvent.ends, h]

theorem quiet_progress (event now : Json) :
    Quiet ⟨.progress event, "task.progress", some event, now⟩ :=
  ⟨rfl, ends_of_progress mem_cons_self⟩

theorem quiet_output (text metrics now : Json) :
    Quiet ⟨.output text metrics, "output.snapshot",
      some (.obj [("text", text), ("metrics", metrics)]), now⟩ := ⟨rfl, by
  simp [ends, event, RunEvent.ends, Json.get?, lookup_cons]⟩

end Write

namespace Phase

/-- The run still has to be ended by this job. -/
def due : Phase → Bool
  | .done => false
  | _ => true

def atWork : Phase → Bool
  | .working | .emitting _ => true
  | _ => false

/-- What was read under the lock that is still held. -/
def found? : Phase → Option Snapshot
  | .entered found => some found
  | _ => none

end Phase

/-- What a step of `_execute` does to the run of its job and to the lock, `run` being the
run in the store. -/
inductive Executed (dep : Deployment) (job : Job) (run : Except StoreError Snapshot) (p : Phase) :
    Effect → Prop
  /-- the run is read under the lock, which is kept -/
  | enters (found : Snapshot) (dep' : Deployment) (hrun : run = .ok found) (hp : p = .begin)
      (hrunning : dep'.running = some (job, .entered found)) (hqueue : dep'.queue = dep.queue) :
      Executed dep job run p ⟨dep', .acquire, none, false⟩
  /-- nothing is written and the run is still to be ended -/
  | goes (p' : Phase) (dep' : Deployment) (lock : LockUse) (hdue : p.due)
      (hdue' : p'.due ∨ ∃ e, run = .error e) (hfound : p'.found? = none)
      (hrunning : dep'.running = some (job, p')) (hqueue : dep'.queue = dep.queue)
      (hlock : if p.found?.isSome then lock = .release else lock = .unlocked ∨ lock = .critical) :
      Executed dep job run p ⟨dep', lock, none, false⟩
  /-- the `running` update, under the lock -/
  | runs (found : Snapshot) (p' : Phase) (dep' : Deployment) (w : Write) (hp : p = .entered found)
      (hstate : found.state ≠ some RunState.cancelRequested.text) (hw : w.Runs) (hdue : p'.due)
      (hfound : p'.found? = none)
      (hrunning : dep'.running = some (job, p')) (hqueue : dep'.queue = dep.queue) :
      Executed dep job run p ⟨dep', .release, some w, false⟩
  /-- an update during the work -/
  | reports (p' : Phase) (dep' : Deployment) (w : Write) (hdue : p.due) (hp : p.found? = none)
      (hw : w.Quiet) (hdue' : p'.due) (hfound : p'.found? = none)
      (hrunning : dep'.running = some (job, p')) (hqueue : dep'.queue = dep.queue) :
      Executed dep job run p ⟨dep', .unlocked, some w, false⟩
  /-- the write that ends the run -/
  | closes (dep' : Deployment) (w : Write) (lock : LockUse) (hdue : p.due) (hw : w.Closes)
      (hrunning : dep'.running = some (job, .done)) (hqueue : dep'.queue = dep.queue)
      (hlock : if p.found?.isSome then lock = .release else lock = .unlocked) :
      Executed dep job run p ⟨dep', lock, some w, false⟩
  /-- the job is over -/
  | leaves (dep' : Deployment) (hp : p = .done) (hrunning : dep'.running = none)
      (hqueue : dep'.queue = dep.queue) :
      Executed dep job run p ⟨dep', .critical, none, true⟩

namespace Deployment

variable {dep : Deployment} {job : Job} {run : Except StoreError Snapshot} {p : Phase} {w : Work}
  {eff : Effect}

@[simp] theorem kept_restored (kind : JobKind) :
    (dep.restored kind).queue = dep.queue ∧ (dep.restored kind).worker = dep.worker := by
  cases kind <;> exact ⟨rfl, rfl⟩

@[simp] theorem kept_unquantized (kind : JobKind) :
    (dep.unquantized kind).queue = dep.queue ∧ (dep.unquantized kind).worker = dep.worker := by
  unfold unquantized
  split_ifs <;> exact ⟨rfl, rfl⟩

@[simp] theorem kept_relabelled (r : JobResult) (epoch : String) :
    (dep.relabelled job r epoch).queue = dep.queue ∧
      (dep.relabelled job r epoch).worker = dep.worker := by
  unfold relabelled
  split_ifs <;> exact ⟨rfl, rfl⟩

theorem executed_decide (found : Snapshot) (rejection : Option (String × String))
    (startedAt metrics now : Json) :
    Executed dep job run (.entered found) (dep.decide job found rejection startedAt metrics now) := by
  unfold decide
  split_ifs with hstate
  · exact .closes _ _ _ rfl (Write.closes_cancelled now) rfl (by simp [goto]) rfl
  · split
    · exact .closes _ _ _ rfl (Write.closes_rejected _ _ now) rfl (by simp [goto]) rfl
    · exact .runs found .started _ _ rfl hstate (Write.runs_running _ _ _) rfl rfl rfl rfl

theorem executed_fail {error : String} {confirmed : Bool}
    (h : dep.fail job p error confirmed = some eff) : Executed dep job run p eff := by
  have hgoes : ∀ lock, p.due →
      (if p.found?.isSome then lock = LockUse.release else lock = .unlocked ∨ lock = .critical) →
      Executed dep job run p ⟨dep.closed job error confirmed, lock, none, false⟩ := fun lock hdue hl =>
    .goes (.raised error confirmed) _ lock hdue (.inl rfl) rfl rfl rfl hl
  cases p <;> simp only [fail, Option.some.injEq, reduceCtorEq] at h
  all_goals subst h
  · exact hgoes _ rfl rfl
  all_goals exact hgoes _ rfl (.inl rfl)

theorem executed (h : dep.execute job run p w = some eff) : Executed dep job run p eff := by
  cases p with
  | begin =>
    cases w <;> simp only [execute, fail, reduceCtorEq] at h
    rcases run with e | found
    · cases h
      exact .goes (.raised "KeyError" true) _ _ rfl (.inl rfl) rfl rfl rfl (.inr rfl)
    · cases h
      exact .enters found _ rfl rfl rfl rfl
  | entered found =>
    cases w <;> simp only [execute, Option.some.injEq, reduceCtorEq] at h
    · subst h
      exact executed_decide _ _ _ _ _
    · exact executed_fail h
  | started =>
    cases w <;> simp only [execute, reduceCtorEq] at h
    · split at h
      · cases h
        refine .goes .expired _ _ rfl (.inl rfl) rfl rfl (by simp [goto]) ?_
        simp only [Phase.found?, Option.isSome_none, Bool.false_eq_true, if_false]
        split_ifs
        · exact .inr rfl
        · exact .inl rfl
      · cases h
        exact .goes .working _ _ rfl (.inl rfl) rfl rfl rfl (.inl rfl)
    · exact executed_fail h
  | expired =>
    cases w <;> simp only [execute, Option.some.injEq, reduceCtorEq] at h
    · subst h
      exact .closes _ _ _ rfl (Write.closes_timedOut _) rfl rfl rfl
    · exact executed_fail h
  | working =>
    cases w <;> simp only [execute, Option.some.injEq, reduceCtorEq] at h
    · subst h
      exact .reports .working _ _ rfl rfl (Write.quiet_progress _ _) rfl rfl rfl rfl
    · rcases run with e | current
      · cases h
        exact .goes (.raised "KeyError" true) _ _ rfl (.inl rfl) rfl rfl rfl (.inl rfl)
      · cases h
        exact .goes (.emitting current) _ _ rfl (.inl rfl) rfl rfl rfl (.inl rfl)
    · obtain ⟨dep', hfinish, rfl⟩ := Option.map_eq_some_iff.mp h
      rename_i outcome
      rcases outcome with r | timedOut | ⟨error, confirmed⟩
      · rw [finish] at hfinish
        split_ifs at hfinish
        cases hfinish
        exact .goes (.returned _) _ _ rfl (.inl rfl) rfl rfl rfl (.inl rfl)
      · cases hfinish
        exact .goes (.returned _) _ _ rfl (.inl rfl) rfl rfl rfl (.inl rfl)
      · cases hfinish
        exact .goes (.raised error confirmed) _ _ rfl (.inl rfl) rfl rfl rfl (.inl rfl)
    · exact executed_fail h
  | emitting current =>
    cases w <;> simp only [execute, Option.some.injEq, reduceCtorEq] at h
    · subst h
      exact .reports .working _ _ rfl rfl (Write.quiet_output _ _ _) rfl rfl rfl rfl
    · exact executed_fail h
  | returned r =>
    cases w <;> simp only [execute, Option.some.injEq, reduceCtorEq] at h
    · exact executed_fail h
    · subst h
      refine .goes (.labelled r) _ _ rfl (.inl rfl) rfl rfl (by simp [goto]) ?_
      simp only [Phase.found?, Option.isSome_none, Bool.false_eq_true, if_false, relabelLock]
      split_ifs
      · exact .inr rfl
      · exact .inl rfl
  | labelled r =>
    cases w <;> simp only [execute, reduceCtorEq] at h
    · exact executed_fail h
    · rcases run with e | current
      · cases h
        exact .goes (.raised "KeyError" true) _ _ rfl (.inl rfl) rfl rfl rfl (.inl rfl)
      · cases h
        exact .goes (.closing r current) _ _ rfl (.inl rfl) rfl rfl rfl (.inl rfl)
  | closing r current =>
    cases w <;> simp only [execute, Option.some.injEq, reduceCtorEq] at h
    · exact executed_fail h
    · subst h
      exact .closes _ _ _ rfl (Write.closes_final _ _ _ _ _) rfl rfl rfl
  | raised error confirmed =>
    cases w <;> simp only [execute, fail, Option.some.injEq, reduceCtorEq] at h
    subst h
    exact .goes (.marked error confirmed) _ _ rfl (.inl rfl) rfl rfl rfl (.inr rfl)
  | marked error confirmed =>
    cases w <;> simp only [execute, fail, reduceCtorEq] at h
    rcases run with e | current
    · cases h
      exact .goes .done _ _ rfl (.inr ⟨e, rfl⟩) rfl rfl rfl (.inl rfl)
    · cases h
      exact .goes (.failing error confirmed _) _ _ rfl (.inl rfl) rfl rfl rfl (.inl rfl)
  | failing error confirmed metrics =>
    cases w <;> simp only [execute, fail, Option.some.injEq, reduceCtorEq] at h
    subst h
    exact .closes _ _ _ rfl (Write.closes_failed _ _ _ _) rfl rfl rfl
  | done =>
    cases w <;> simp only [execute, fail, Option.some.injEq, reduceCtorEq] at h
    subst h
    exact .leaves _ rfl rfl rfl

/-- An executor takes its next job or goes on with the one at hand. -/
theorem exec_cases {store : Store} (h : dep.exec store w = some (job, eff)) :
    (∃ queue, dep.running = none ∧ dep.queue = job :: queue ∧
      eff = ⟨{ dep with queue := queue, running := some (job, .begin) }, .unlocked, none, false⟩) ∨
    ∃ p, dep.running = some (job, p) ∧ dep.execute job (store.get job.runId) p w = some eff := by
  unfold exec at h
  rcases hrunning : dep.running with - | ⟨job', p⟩
  · rcases hqueue : dep.queue with - | ⟨job', queue⟩
    · simp [hrunning, hqueue] at h
    · rw [hrunning, hqueue] at h
      cases w <;> simp only [reduceCtorEq] at h
      obtain ⟨rfl, rfl⟩ := h
      exact .inl ⟨queue, rfl, rfl, rfl⟩
  · rw [hrunning] at h
    obtain ⟨eff', hexecute, heq⟩ := Option.map_eq_some_iff.mp h
    cases heq
    exact .inr ⟨p, rfl, hexecute⟩

/-- The runs a deployment still has to end: that of the job at hand and those waiting. -/
def owes (dep : Deployment) : List String :=
  (match dep.running with
    | some (job, p) => if p.due then [job.runId] else []
    | none => []) ++ dep.queue.map Job.runId

theorem owes_running (h : dep.running = some (job, p)) :
    dep.owes = (if p.due then [job.runId] else []) ++ dep.queue.map Job.runId := by
  rw [owes, h]

theorem owes_idle (h : dep.running = none) : dep.owes = dep.queue.map Job.runId := by
  rw [owes, h]
  rfl

theorem owes_executed (h : Executed dep job run p eff) (hdep : dep.running = some (job, p))
    (hrun : p.due → ∃ r, run = .ok r) :
    (eff.deployment.owes = dep.owes ∧ ∀ w, eff.write = some w → p.due ∧ w.ends = false) ∨
      ∃ w, eff.write = some w ∧ w.Closes ∧ p.due ∧
        dep.owes = job.runId :: eff.deployment.owes := by
  rcases h with ⟨found, dep', -, hp, hrunning, hqueue⟩ |
    ⟨p', dep', lock, hdue, hdue', -, hrunning, hqueue, -⟩ |
    ⟨found, p', dep', w, hp, -, hw, hdue', -, hrunning, hqueue⟩ |
    ⟨p', dep', w, hdue, -, hw, hdue', -, hrunning, hqueue⟩ |
    ⟨dep', w, lock, hdue, hw, hrunning, hqueue, -⟩ | ⟨dep', hp, hrunning, hqueue⟩
  · left
    refine ⟨?_, fun w hw => by cases hw⟩
    rw [owes_running hdep, owes_running hrunning, hqueue, hp]
    rfl
  · left
    refine ⟨?_, fun w hw => by cases hw⟩
    have hdue'' : p'.due := by
      rcases hdue' with hdue' | ⟨e, he⟩
      · exact hdue'
      · obtain ⟨r, hr⟩ := hrun hdue
        rw [he] at hr
        cases hr
    rw [owes_running hdep, owes_running hrunning, hqueue, if_pos hdue, if_pos hdue'']
  · left
    subst hp
    refine ⟨?_, fun w' hw' => ?_⟩
    · rw [owes_running hdep, owes_running hrunning, hqueue, if_pos hdue']
      rfl
    · cases hw'
      exact ⟨rfl, hw.ends⟩
  · left
    refine ⟨?_, fun w' hw' => ?_⟩
    · rw [owes_running hdep, owes_running hrunning, hqueue, if_pos hdue, if_pos hdue']
    · cases hw'
      exact ⟨hdue, hw.ends⟩
  · right
    refine ⟨w, rfl, hw, hdue, ?_⟩
    rw [owes_running hdep, owes_running hrunning, hqueue, if_pos hdue]
    rfl
  · left
    subst hp
    refine ⟨?_, fun w hw => by cases hw⟩
    rw [owes_running hdep, owes_idle hrunning, hqueue]
    rfl

end Deployment

section Writes

variable {dep : Deployment} {job : Job} {p : Phase} {eff : Effect}

theorem Snapshot.isTerminal_eq (run : Snapshot) : run.isTerminal = match run.state with
      | some state => decide (state ∈ TERMINAL)
      | none => false := by
  unfold Snapshot.isTerminal Snapshot.state
  rcases run.get? "state" with - | j
  · rfl
  · cases j <;> rfl

theorem Write.not_terminal {run run' : Snapshot} {w : Write} (hopen : run.isTerminal = false)
    (hw : w.Quiet ∨ w.Runs) (hstate : run'.state = w.stateAfter run) : run'.isTerminal = false := by
  rw [Snapshot.isTerminal_eq, hstate, Write.stateAfter]
  rcases hw with hw | hw
  · rw [hw.state]
    rwa [Snapshot.isTerminal_eq] at hopen
  · rw [hw.state]
    rfl

/-- What a step writes, if anything: a change that leaves the run open, or its ending. -/
theorem Executed.write_cases {run : Except StoreError Snapshot} (h : Executed dep job run p eff)
    {w : Write} (hw : eff.write = some w) : p.due ∧ ((w.Quiet ∨ w.Runs) ∨ w.Closes) := by
  rcases h with ⟨_, _, _, _, _, _⟩ | ⟨_, _, _, _, _, _, _, _, _⟩ |
    ⟨_, _, _, w', hp, _, hw', _, _, _, _⟩ | ⟨_, _, w', hdue, _, hw', _, _, _, _⟩ |
    ⟨_, w', _, hdue, hw', _, _, _⟩ | ⟨_, _, _, _⟩
  · cases hw
  · cases hw
  · cases hw
    exact ⟨by rw [hp]; rfl, .inl (.inr hw')⟩
  · cases hw
    exact ⟨hdue, .inl (.inl hw')⟩
  · cases hw
    exact ⟨hdue, .inr hw'⟩
  · cases hw

/-- The `running` update follows a read that found no cancellation. -/
theorem Executed.found_of_runs {run : Except StoreError Snapshot} (h : Executed dep job run p eff) {w : Write}
    (hw : eff.write = some w) (hruns : w.Runs) :
    ∃ found, p = .entered found ∧ found.state ≠ some RunState.cancelRequested.text := by
  rcases h with ⟨_, _, _, _, _, _⟩ | ⟨_, _, _, _, _, _, _, _, _⟩ |
    ⟨found, _, _, _, hp, hstate, _, _, _, _, _⟩ | ⟨_, _, w', _, _, hw', _, _, _, _⟩ |
    ⟨_, w', _, _, hw', _, _, _⟩ | ⟨_, _, _, _⟩
  · cases hw
  · cases hw
  · exact ⟨found, hp, hstate⟩
  · cases hw
    have hnone := hw'.state
    rw [hruns.state] at hnone
    cases hnone
  · cases hw
    have hends := hw'.ends
    rw [hruns.ends] at hends
    cases hends
  · cases hw

end Writes

namespace Service

variable {σ : Service} {d : String} {dep : Deployment} {job : Job} {p : Phase} {eff : Effect}

/-! ### Steps of the executors -/

theorem exec_cases (σ : Service) (d : String) (w : Work) :
    σ.exec d w = σ ∨ ∃ dep job eff, σ.deployments.get? d = some dep ∧
      dep.exec σ.store w = some (job, eff) ∧ eff.lock.allows d σ.lock ∧
      σ.exec d w = σ.applied d job eff := by
  unfold exec
  rcases hdep : σ.deployments.get? d with - | dep
  · exact .inl rfl
  · rcases hexec : dep.exec σ.store w with - | ⟨job, eff⟩
    · left
      simp only [hexec]
    · by_cases hlock : eff.lock.allows d σ.lock
      · right
        refine ⟨dep, job, eff, rfl, hexec, hlock, ?_⟩
        simp only [hexec, if_pos hlock]
      · left
        simp only [hexec, if_neg hlock]

/-! ### Steps of the clients -/

variable {run : Snapshot}

section Created

variable {s s' : Store} (h : s.Recorded) {kind key digest hex : String} {config now later : Json}
  {fresh : Bool} (hreplay : s.replay key digest = .ok none)
  (hcreate : s.create kind config key digest hex now later = .ok ((run, fresh), s'))

include h hreplay hcreate

/-- What `create` does for a key that nobody holds. -/
theorem created_fresh :
    ∃ hist, Store.Records s hist ∧ s.runs.get? (Store.freshId hex) = none ∧
      run = Store.stamped (.created (Store.freshId hex) kind config now) (.accepted later) 0 ∧
      s'.runs.get? (Store.freshId hex) = some run ∧
      (∀ id ≠ Store.freshId hex, s'.runs.get? id = s.runs.get? id) ∧
      Store.Records s'
        (hist ++
          [(Store.Call.create kind config key digest hex now later, Store.Reply.created run true)]) := by
  obtain ⟨hist, hrec⟩ := h
  have hkey : s.idempotency.get? key = none := by
    rcases hk : s.idempotency.get? key with - | row
    · rfl
    · obtain ⟨run', -, hheld⟩ := hrec.create_held hk kind config digest hex now later
      rw [Store.replay, hk] at hreplay
      simp only at hreplay
      split_ifs at hreplay with hd
      · cases hreplay
      · obtain ⟨r, hr, hnone⟩ := bind_ok_iff.mp hreplay
        cases hnone
  have hid : s.runs.get? (Store.freshId hex) = none := by
    rcases hr : s.runs.get? (Store.freshId hex) with - | run'
    · rfl
    · have hin : Store.freshId hex ∈ s.runs.keys := mem_keys_of_get? hr
      simp only [Store.create, hkey, Store.insertRun, hin] at hcreate
      cases hcreate
  obtain ⟨s'', hcreate', -, hget, hother, hrec'⟩ :=
    hrec.create kind config digest now later hkey hid
  obtain ⟨heq, rfl⟩ := Prod.mk.inj (Except.ok.inj (hcreate'.symm.trans hcreate))
  obtain ⟨rfl, -⟩ := Prod.mk.inj heq
  exact ⟨hist, hrec, hid, rfl, hget, hother, hrec'⟩

theorem created_open :
    s'.Recorded ∧ s'.Open (Store.freshId hex) ∧
      (∀ run, s.get (Store.freshId hex) ≠ .ok run) ∧
      ∀ id ≠ Store.freshId hex, s'.get id = s.get id ∧ s'.endings id = s.endings id := by
  obtain ⟨hist, hrec, hid, hrun, hget, hother, hrec'⟩ := created_fresh h hreplay hcreate
  have habsent := hrec.runs (Store.freshId hex)
  rw [hid] at habsent
  have hevents : ∀ id, s'.eventsOf id = Store.Change.events id
      (Store.changesOf id hist ++
        if Store.freshId hex = id then [Store.Change.accepted later] else []) := by
    intro id
    rw [hrec'.eventsOf, Store.changesOf_create]
  refine ⟨⟨_, hrec'⟩, ⟨⟨_, Store.get_eq_ok_iff.mpr hget, by rw [hrun]; rfl⟩, ?_⟩, fun r hr => ?_,
    fun id hne => ?_⟩
  · rw [Store.endings, hevents, if_pos rfl, habsent.absent.2]
    rfl
  · rw [Store.get_eq_ok_iff.mp hr] at hid
    cases hid
  · constructor
    · rw [Store.get, Store.get, hother id hne]
    · rw [Store.endings, Store.endings, hevents, hrec.eventsOf, if_neg fun h => hne h.symm,
        append_nil]

theorem created_state :
    s'.get (Store.freshId hex) = .ok run ∧ run.state = some RunState.queued.text := by
  obtain ⟨-, -, -, hrun, hget, -, -⟩ := created_fresh h hreplay hcreate
  refine ⟨Store.get_eq_ok_iff.mpr hget, ?_⟩
  rw [hrun]
  rfl

end Created

/-- `submit` gives back a run it knows, or stores a new one and puts its job in the queue. -/
theorem submit_cases {req : Submission} {σ' : Service} (h : σ.submit req = .ok (run, σ')) :
    σ' = σ ∨ ∃ dep store, σ.deployments.get? req.deployment = some dep ∧
      σ.store.replay req.key req.digest = .ok none ∧ σ.refusal dep req = none ∧
      (∃ fresh, σ.store.create req.kind.text req.config req.key req.digest req.hex req.now req.later
        = .ok ((run, fresh), store)) ∧
      σ' = σ.accept dep req store := by
  unfold submit at h
  rcases hdep : σ.deployments.get? req.deployment with - | dep
  · rw [hdep] at h
    cases h
  · rcases hreplay : σ.store.replay req.key req.digest with e | known
    · rw [hdep, hreplay] at h
      cases h
    · rcases known with - | known
      · rcases hrefusal : σ.refusal dep req with - | code
        · rcases hcreate : σ.store.create req.kind.text req.config req.key req.digest req.hex
            req.now req.later with e | ⟨⟨run', fresh⟩, store⟩
          · simp only [hdep, hreplay, hrefusal, hcreate] at h
            cases h
          · simp only [hdep, hreplay, hrefusal, hcreate] at h
            obtain ⟨rfl, rfl⟩ := Prod.mk.inj (Except.ok.inj h)
            exact .inr ⟨dep, store, rfl, rfl, hrefusal, ⟨fresh, rfl⟩, rfl⟩
        · simp only [hdep, hreplay, hrefusal] at h
          cases h
      · rw [hdep, hreplay] at h
        exact .inl (Prod.mk.inj (Except.ok.inj h)).2.symm

theorem cancel_cases (σ : Service) (id : String) :
    σ.cancel id = σ ∨ ∃ run, σ.store.get id = .ok run ∧ run.isTerminal = false ∧
      run.state ≠ some RunState.cancelRequested.text ∧
      σ.cancel id = { σ with lock := some (.cancel id) } := by
  unfold cancel
  rcases hget : σ.store.get id with e | run
  · exact .inl rfl
  · by_cases hstop : run.isTerminal ∨ run.state = some RunState.cancelRequested.text
    · left
      simp only [hstop, if_true]
    · right
      refine ⟨run, rfl, by simpa using (not_or.mp hstop).1, (not_or.mp hstop).2, ?_⟩
      simp only [hstop, if_false]

/-- The write of a cancellation, as the second half of `cancel` makes it. -/
def cancelWrite (now : Json) : Write := ⟨.cancelRequested, "state.changed", none, now⟩

theorem cancelWrite_ends (now : Json) : (cancelWrite now).ends = false := by
  have hstate : Patch.cancelRequested.fields.get? "state"
      = some (stateJson .cancelRequested) := rfl
  simp only [Write.ends]
  rfl

theorem stateAfter_cancelWrite (now : Json) (run : Snapshot) :
    (cancelWrite now).stateAfter run = some RunState.cancelRequested.text := rfl

theorem confirm_cases (σ : Service) (now : Json) :
    (σ.confirm now = σ ∧ ∀ id, σ.lock ≠ some (.cancel id)) ∨
    ∃ id, σ.lock = some (.cancel id) ∧
      σ.confirm now = { σ with store := σ.store.put id (cancelWrite now), lock := none } := by
  unfold confirm
  rcases hlock : σ.lock with - | ⟨id⟩ | ⟨d⟩
  · exact .inl ⟨rfl, fun id => nofun⟩
  · exact .inr ⟨id, rfl, rfl⟩
  · exact .inl ⟨rfl, fun id => nofun⟩

/-- What a step is: an accepted submission, a half of a cancellation, a step of an executor, the
close, or nothing. -/
inductive Stepped (σ : Service) : Act → Service → Prop
  | idle (i : Act) (h : ∀ now, i = .confirm now → ∀ id, σ.lock ≠ some (.cancel id)) :
    Stepped σ i σ
  | accepts {dep : Deployment} {req : Submission} {run : Snapshot} {fresh : Bool} {store : Store}
    (hfree : σ.lock = none) (hdep : σ.deployments.get? req.deployment = some dep)
    (hreplay : σ.store.replay req.key req.digest = .ok none)
    (hrefusal : σ.refusal dep req = none)
    (hcreate : σ.store.create req.kind.text req.config req.key req.digest req.hex req.now req.later
      = .ok ((run, fresh), store)) :
    Stepped σ (.submit req) (σ.accept dep req store)
  | marks {id : String} {run : Snapshot} (hfree : σ.lock = none) (hrun : σ.store.get id = .ok run) :
    Stepped σ (.cancel id) { σ with lock := some (.cancel id) }
  | confirms {id : String} (now : Json) (hlock : σ.lock = some (.cancel id)) :
    Stepped σ (.confirm now) { σ with store := σ.store.put id (cancelWrite now), lock := none }
  | works (d : String) (w : Work) : Stepped σ (.exec d w) (σ.exec d w)
  | closes : Stepped σ .close { σ with closed := true }

theorem stepped (σ : Service) (i : Act) : Stepped σ i (σ.step i) := by
  rcases i with req | id | now | ⟨d, w⟩ | -
  · rw [Service.step]
    rcases hlock : σ.lock with - | holder
    · rcases hsubmit : σ.submit req with e | ⟨run, σ'⟩
      · exact .idle _ fun _ hi => nomatch hi
      · rcases submit_cases hsubmit with
          rfl | ⟨dep, store, hdep, hreplay, hrefusal, ⟨fresh, hcreate⟩, rfl⟩
        · exact .idle _ fun _ hi => nomatch hi
        · exact .accepts hlock hdep hreplay hrefusal hcreate
    · exact .idle _ fun _ hi => nomatch hi
  · rw [Service.step]
    rcases hlock : σ.lock with - | holder
    · rcases cancel_cases σ id with heq | ⟨run, hrun, -, -, heq⟩
      · rw [heq]
        exact .idle _ fun _ hi => nomatch hi
      · rw [heq]
        exact .marks hlock hrun
    · exact .idle _ fun _ hi => nomatch hi
  · rw [Service.step]
    rcases confirm_cases σ now with ⟨heq, hnone⟩ | ⟨id, hlock, heq⟩ <;> rw [heq]
    · exact .idle _ fun _ _ => hnone
    · exact .confirms now hlock
  · exact .works d w
  · rw [Service.step]
    split_ifs
    · exact .idle _ fun _ hi => nomatch hi
    · exact .closes

theorem store_step (σ : Service) (i : Act) :
    (σ.step i).store = σ.store ∨ ∃ c, (σ.step i).store = (σ.store.call c).2 := by
  have hstep := σ.stepped i
  generalize σ.step i = σ' at hstep ⊢
  cases hstep with
  | idle | marks | closes => exact .inl rfl
  | @accepts _ req _ _ _ _ _ _ _ hcreate =>
    right
    refine ⟨.create req.kind.text req.config req.key req.digest req.hex req.now req.later, ?_⟩
    rw [Store.call, hcreate]
    rfl
  | confirms => exact .inr ⟨_, rfl⟩
  | works d w =>
    rcases exec_cases σ d w with heq | ⟨dep, job, eff, -, -, -, heq⟩
    · exact .inl (congrArg store heq)
    · rcases hwrite : eff.write with - | w'
      · left
        refine (congrArg store heq).trans ?_
        rw [Service.applied, hwrite]
      · right
        refine ⟨.update job.runId w'.patch w'.kind w'.data w'.now, (congrArg store heq).trans ?_⟩
        rw [Service.applied, hwrite]
        rfl

end Service

end Hqsb.Console
