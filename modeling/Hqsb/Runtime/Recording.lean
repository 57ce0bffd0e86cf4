/-
Hqsb/Runtime/Recording.lean

An executor that writes down what it is told (`hqsb/runtime/live_engine.py`).

`recording X` is the executor `X` with a log for each row: the spans of positions
it was fed, and where it was released.  The engine cannot see the log: a run of a
recorded session is the run of the session itself (`forget_run`).
-/
import Hqsb.Lib.Traverse
import Hqsb.Runtime.EngineRuns

namespace Hqsb

open Lib Engine

/-! ### The log of an executor -/

/-- What an executor is told about one row: to compute positions, or to give them up. -/
inductive Op where
  | fed (start stop : Nat)
  | released
  deriving DecidableEq

def Step.op (s : Step) : Op := .fed s.start (s.start + s.tokenIds.length)

def fedOps (steps : List Step) (id : String) : List Op :=
  (steps.filter fun s => s.requestId = id).map Step.op

variable {σ : Type}

/-- The executor `X` with the log of each row. -/
def recording (X : Executor σ) : Executor (σ × (String → List Op)) where
  contextLimit := X.contextLimit
  prepare x steps := ((X.prepare x.1 steps).1, ((X.prepare x.1 steps).2, x.2))
  execute x steps forwardId :=
    (X.execute x.1 steps forwardId).map fun out =>
      (out.1, (out.2, fun id => x.2 id ++ fedOps steps id))
  release x id := (X.release x.1 id, Function.update x.2 id (x.2 id ++ [.released]))

def Session.recorded (S : Session σ) : Session (σ × (String → List Op)) where
  executor := recording S.executor
  limits := S.limits
  mode := S.mode
  sessionId := S.sessionId
  eosIds := S.eosIds
  deadline := S.deadline

theorem recorded_sessionId (S : Session σ) : S.recorded.sessionId = S.sessionId := rfl

theorem recorded_prepare (S : Session σ) (x : σ × (String → List Op)) (steps : List Step) :
    S.recorded.executor.prepare x steps =
      ((S.executor.prepare x.1 steps).1, ((S.executor.prepare x.1 steps).2, x.2)) := rfl

theorem recorded_execute (S : Session σ) (x : σ × (String → List Op)) (steps : List Step)
    (forwardId : String) : S.recorded.executor.execute x steps forwardId =
      (S.executor.execute x.1 steps forwardId).map fun out =>
        (out.1, (out.2, fun id => x.2 id ++ fedOps steps id)) := rfl

def Replies (X : Executor σ) : Prop :=
  ∀ {x x' steps forwardId tokens}, X.execute x steps forwardId = .ok (tokens, x') →
    tokens.length = steps.length

theorem fedOps_of_not_mem {steps : List Step} {id : String}
    (h : id ∉ steps.map Step.requestId) : fedOps steps id = [] := by
  rw [fedOps, List.filter_eq_nil_iff.mpr, List.map_nil]
  intro s hs
  rw [decide_eq_true_eq]
  rintro rfl
  exact h (List.mem_map_of_mem hs)

/-! ### The log changes nothing -/

def Engine.forget {τ : Type} (e : Engine (σ × τ)) : Engine σ where
  executor := e.executor.1
  rows := e.rows
  kv := e.kv
  service := e.service
  tick := e.tick
  forwards := e.forwards
  preemptions := e.preemptions
  liveJoinIds := e.liveJoinIds
  confirmedJoinIds := e.confirmedJoinIds
  executedIds := e.executedIds
  events := e.events

def Config.forget {τ : Type} (c : Config (σ × τ)) : Config σ where
  point := c.point
  engine := c.engine.forget
  sealed := c.sealed
  notified := c.notified

section Forget

variable (S : Session σ) (e : Engine (σ × (String → List Op))) (c : Config (σ × (String → List Op)))
  (row : Sequence)

@[simp] theorem forget_rows : e.forget.rows = e.rows := rfl

@[simp] theorem forget_kv : e.forget.kv = e.kv := rfl

@[simp] theorem forget_executedIds : e.forget.executedIds = e.executedIds := rfl

@[simp] theorem forget_forwards : e.forget.forwards = e.forwards := rfl

@[simp] theorem forget_executor : e.forget.executor = e.executor.1 := rfl

theorem forget_released (cause : ReleaseCause) :
    (e.released S.recorded row cause).forget = e.forget.released S row cause := by
  rw [released, released, forget_kv]
  split_ifs <;> rfl

theorem forget_finished (reason : Reason) (error : Option String) (now : ℚ) :
    (e.finished S.recorded row reason error now).forget =
      e.forget.finished S row reason error now := by
  exact congrArg (fun e => Engine.event e _) (forget_released S (e.setRow _) _ _)

theorem forget_attempt {result : Except EngineError (Engine (σ × (String → List Op)))}
    {result' : Except EngineError (Engine σ)} (h : result.map Engine.forget = result')
    (point : Point) : (c.attempt result point).forget = c.forget.attempt result' point := by
  subst h
  cases result <;> rfl

theorem forget_finish (reason : Reason) (error : Option String) (now : ℚ) :
    (e.finish S.recorded row reason error now).map Engine.forget =
      e.forget.finish S row reason error now := by
  rw [finish_eq, finish_eq, ← forget_finished]
  rfl

theorem forget_accept (now : ℚ) :
    (e.accept S.recorded row now).map Engine.forget = e.forget.accept S row now := by
  rw [Engine.accept, Engine.accept, forget_rows, show rejection S.recorded = rejection S from rfl]
  split_ifs
  · rfl
  · simp only [event, setRow, forget_kv]
    cases rejection S e.kv row with
    | none => rfl
    | some error => exact forget_finish S _ row _ _ _

theorem forget_cancel (requestId : String) (now : ℚ) :
    (e.cancel S.recorded requestId now).map Engine.forget = e.forget.cancel S requestId now := by
  rw [Engine.cancel, Engine.cancel, forget_rows]
  cases e.rows.get? requestId with
  | none => rfl
  | some row =>
    dsimp only
    split_ifs
    · exact forget_finish S e row _ _ _
    · rfl

theorem forget_expire (now : ℚ) (stopping : Bool) (clock : ℚ) :
    (e.expire S.recorded row now stopping clock).map Engine.forget =
      e.forget.expire S row now stopping clock := by
  rw [expire, expire]
  by_cases hstop : stopping = true ∨ cancelDue row now = true
  · rw [if_pos hstop, if_pos hstop]
    exact forget_finish S e row _ _ _
  split_ifs
  · exact forget_finish S e row _ _ _
  · rfl

theorem forget_preempt (victim : Sequence) :
    (e.preempt S.recorded victim).map Engine.forget = e.forget.preempt S victim := by
  rw [preempt_eq, preempt_eq, preempted, preempted]
  show Except.ok _ = Except.ok _
  rw [← forget_released]
  rfl

theorem forget_seated (active : List String) (now : ℚ) (lease : Lease) (kv : KVManager) :
    (e.seated row active now lease kv).forget =
      e.forget.seated row active now lease kv := by
  rw [seated, seated, forget_executedIds]
  split_ifs <;> rfl

theorem forget_admitRow (active : List String) (now : ℚ) :
    (e.admitRow row active now).map (fun out => (out.1.forget, out.2)) =
      e.forget.admitRow row active now := by
  show Except.map _ ((e.kv.reserve row.id row.needed) >>= _) = (e.kv.reserve row.id row.needed) >>= _
  cases e.kv.reserve row.id row.needed with
  | error error => rfl
  | ok out =>
    obtain ⟨lease, kv⟩ := out
    cases lease with
    | none => rfl
    | some lease =>
      exact congrArg (fun e => Except.ok (e, true)) (forget_seated e row active now lease kv)

theorem forget_commitStep (forwardId : String) (step : Step) (token : Token) (ready clock : ℚ) :
    (e.commitStep S.recorded forwardId step token ready clock).map Engine.forget =
      e.forget.commitStep S forwardId step token ready clock := by
  rw [Engine.commitStep, Engine.commitStep, forget_rows, forget_kv]
  cases e.rows.get? step.requestId with
  | none => rfl
  | some row =>
    dsimp only
    cases e.kv.leases.get? step.requestId with
    | none => rfl
    | some lease =>
      show Except.map _ ((e.kv.commit _ _ _) >>= _) = (e.kv.commit _ _ _) >>= _
      cases e.kv.commit (feed row step ready).id lease.generation (feed row step ready).consumed with
      | error error => rfl
      | ok kv =>
        show Except.map _ (if _ then _ else _) = if _ then _ else _
        split_ifs
        · exact forget_finish S _ _ _ _ _
        · exact forget_finish S _ _ _ _ _
        · simp only [show endReason S.recorded = endReason S from rfl]
          cases endReason S (emitToken (feed row step ready) token ready) token with
          | none => rfl
          | some reason => exact forget_finish S _ _ _ _ _
        · rfl

theorem forget_idle (active : List String) : (c.idle active).forget = c.forget.idle active := by
  show Config.forget (if _ then _ else _) =
    if (active.any fun id => (c.engine.rows.get? id).any fun r => r.state = .active) then _ else _
  split_ifs <;> rfl

theorem forget_arrange (now : ℚ) : (S.recorded.arrange c now).forget = S.arrange c.forget now := by
  rw [Session.arrange, Session.arrange]
  by_cases hdone : c.sealed = true ∧ c.engine.liveRows = []
  · have hdone' : c.forget.sealed = true ∧ c.forget.engine.liveRows = [] := hdone
    rw [if_pos hdone, if_pos hdone']
    rfl
  have hdone' : ¬ (c.forget.sealed = true ∧ c.forget.engine.liveRows = []) := hdone
  rw [if_neg hdone, if_neg hdone']
  -- both engines choose from the same rows
  simp only [show c.forget.engine.preemptible S = c.engine.preemptible S.recorded from rfl,
    show c.forget.engine.activeRows = c.engine.activeRows from rfl,
    show c.forget.engine.waitingRows = c.engine.waitingRows from rfl,
    show c.forget.engine.service = c.engine.service from rfl,
    show S.recorded.limits = S.limits from rfl]
  split
  · exact forget_attempt c (forget_preempt S _ _) _
  · rfl

/-- **One step** with the log is the step without it. -/
theorem forget_step (reading : Reading) :
    (S.recorded.step c reading).forget = S.step c.forget reading := by
  obtain ⟨point, e, isSealed, notified⟩ := c
  cases point with
  | begin => rfl
  | receive batch =>
    cases batch with
    | nil => rfl
    | cons message batch =>
      rcases message with row | - | requestId
      · exact forget_attempt _ (forget_accept S e _ _) _
      · rfl
      · exact forget_attempt _ (forget_cancel S e _ _) _
  | sweep now stopping pending =>
    cases pending with
    | nil => cases stopping <;> rfl
    | cons id pending =>
      simp only [Session.step, Config.forget, forget_rows]
      cases e.rows.get? id with
      | none => rfl
      | some row =>
        by_cases hterminal : row.state = .terminal
        · simp only [if_pos hterminal]
          rfl
        · simp only [if_neg hterminal]
          exact forget_attempt _ (forget_expire S e _ _ _ _) _
  | arrange now => exact forget_arrange S _ now
  | admission now waiting active pending =>
    cases pending with
    | nil => rfl
    | cons id pending =>
      by_cases hcap : S.cap ≤ active.length
      · have hcap' : S.recorded.cap ≤ active.length := hcap
        simp only [Session.step, Config.forget, if_pos hcap, if_pos hcap']
        rfl
      have hcap' : ¬ S.recorded.cap ≤ active.length := hcap
      simp only [Session.step, Config.forget, if_neg hcap, if_neg hcap', forget_rows]
      cases e.rows.get? id with
      | none => rfl
      | some row =>
        simp only [← forget_admitRow]
        cases e.admitRow row active now <;> rfl
  | plan now waiting active =>
    show Config.forget (if Engine.shrink S.limits (Hqsb.plan (active.filterMap e.rows.get?) S.limits now
      e.service S.mode e.tick) = [] then _ else _) = if Engine.shrink S.limits (Hqsb.plan
        (active.filterMap e.rows.get?) S.limits now e.service S.mode e.tick) = [] then _ else _
    split_ifs
    · exact forget_idle _ active
    · rfl
  | prepare waiting active steps =>
    cases steps with
    | nil => exact forget_idle _ active
    | cons first rest =>
      simp only [Session.step, Config.forget, recorded_prepare, forget_executor, forget_rows]
      rcases S.executor.prepare e.executor.1 (first :: rest) with ⟨- | refusal, x⟩
      · rfl
      · by_cases hrest : rest ≠ []
        · simp only [if_pos hrest]
          rfl
        simp only [if_neg hrest]
        cases e.rows.get? first.requestId with
        | none => rfl
        | some row =>
          simp only [finish_eq]
          exact (forget_idle _ active).trans (congrArg (Config.idle · active)
            (by simp only [Config.forget, forget_finished]; rfl))
  | execute waiting active steps =>
    rcases hlease : ({ e with forwards := e.forwards + 1 }).leaseGenerations steps with
      error | leases
    · have hlease' : ({ e.forget with forwards := e.forget.forwards + 1 }).leaseGenerations steps =
        .error error := hlease
      simp only [Session.step, Config.forget, hlease, hlease']
      rfl
    have hlease' : ({ e.forget with forwards := e.forget.forwards + 1 }).leaseGenerations steps =
      .ok leases := hlease
    simp only [Session.step, Config.forget, hlease, hlease', Engine.event, recorded_execute,
      recorded_sessionId]
    rw [forget_executor, forget_forwards]
    cases S.executor.execute e.executor.1 steps
      (S.sessionId ++ ":f" ++ toString (e.forwards + 1)) <;> rfl
  | commit forwardId ready pending =>
    cases pending with
    | nil => rfl
    | cons p pending =>
      exact forget_attempt _ (forget_commitStep S e _ _ _ _ _) _
  | drain pending =>
    cases pending with
    | nil =>
      show Config.forget (if e.kv.leases.keys = [] then _ else _) =
        if e.kv.leases.keys = [] then _ else _
      split_ifs <;> rfl
    | cons id pending =>
      simp only [Session.step, Config.forget, forget_rows]
      cases e.rows.get? id with
      | none => rfl
      | some row =>
        by_cases hterminal : row.state ≠ .terminal
        · simp only [if_pos hterminal]
          exact forget_attempt _ (forget_finish S e _ _ _ _) _
        · simp only [if_neg hterminal]
          rfl
  | returned rows => rfl
  | raised error => rfl

end Forget

/-- **A run** with the log is the run without it. -/
theorem forget_run (S : Session σ) (x : σ) (readings : List Reading) :
    ((S.recorded.machine (x, fun _ => [])).run readings).forget = (S.machine x).run readings := by
  have hrun : ∀ c, ((S.recorded.machine (x, fun _ => [])).runFrom c readings).forget =
      (S.machine x).runFrom c.forget readings := by
    induction readings with
    | nil => exact fun _ => rfl
    | cons reading readings ih =>
      intro c
      rw [Machine.runFrom_cons, ih]
      exact congrArg (fun c => (S.machine x).runFrom c readings) (forget_step S c reading)
  exact hrun _

/-- What every row was fed in a run, and where it was released. -/
def Session.log (S : Session σ) (x : σ) (readings : List Reading) : String → List Op :=
  ((S.recorded.machine (x, fun _ => [])).run readings).engine.executor.2

end Hqsb
