/-
Hqsb/Runtime/EngineMethods.lean

What the methods of the live engine do, said once.  Each method that can raise
is given as an equation `method = .ok result` under the condition that it does
not, with `result` written out; everything later is derived from these results
and never unfolds a method again.

`Touches e e' row lease` is the shape all results share: one row and its lease
are replaced, every other row and lease stays.
-/
import Hqsb.Runtime.LiveEngine

namespace Hqsb

open Lib OrderedDict

variable {σ : Type} (S : Session σ)

namespace Engine

/-! ### One row changes -/

/-- `e'` is `e` with the row and the lease of `row.id` replaced. -/
structure Touches (e e' : Engine σ) (row : Sequence) (lease : Option Lease) : Prop where
  rows : ∀ id, e'.rows.get? id = if id = row.id then some row else e.rows.get? id
  leases : ∀ id, e'.kv.leases.get? id = if id = row.id then lease else e.kv.leases.get? id

theorem Touches.trans {e e' e'' : Engine σ} {row row' : Sequence} {lease lease' : Option Lease}
    (h : Touches e e' row lease) (h' : Touches e' e'' row' lease') (hid : row'.id = row.id) :
    Touches e e'' row' lease' where
  rows id := by
    rw [h'.rows, h.rows, hid]
    split_ifs <;> rfl
  leases id := by
    rw [h'.leases, h.leases, hid]
    split_ifs <;> rfl

variable (e : Engine σ) (row : Sequence)

theorem touches_setRow : Touches e (e.setRow row) row (e.kv.leases.get? row.id) where
  rows id := get?_set _ _ _ _
  leases id := by
    split_ifs with h
    · rw [h]; rfl
    · rfl

/-! ### Ending a row -/

/-- The events of giving up the lease of a row, if it has one. -/
def releaseEvents (e : Engine σ) (id : String) (cause : ReleaseCause) : List Event :=
  match e.kv.leases.get? id with
  | none => []
  | some lease => [.kvRelease id lease.generation lease.valid cause]

/-- The engine after `release`. -/
def released (e : Engine σ) (row : Sequence) (cause : ReleaseCause) : Engine σ :=
  { e with
    executor := if (e.kv.leases.get? row.id).isSome then S.executor.release e.executor row.id
      else e.executor
    kv := { e.kv with leases := e.kv.leases.erase row.id }
    events := e.events ++ e.releaseEvents row.id cause }

theorem release_eq (cause : ReleaseCause) :
    e.release S row cause = .ok (e.released S row cause) := by
  rcases h : e.kv.leases.get? row.id with - | lease
  · have herase : e.kv.leases.erase row.id = e.kv.leases :=
      erase_of_not_mem ((get?_eq_none_iff _).mp h)
    simp [release, released, releaseEvents, h, herase]
  · have hk := KVManager.release_eq h
    simp only [release, h, hk, released, releaseEvents]
    rfl

/-- A row as `finish` leaves it. -/
def ended (row : Sequence) (reason : Reason) (error : Option String) (now : ℚ) : Sequence :=
  { row with state := .terminal, reason := some reason, error := error, ended := some now }

/-- The engine after `finish`. -/
def finished (e : Engine σ) (row : Sequence) (reason : Reason) (error : Option String) (now : ℚ) :
    Engine σ :=
  ((e.setRow (ended row reason error now)).released S row (.finished reason)).event
    (.requestTerminal row.id reason error row.output.length row.consumed)

section

variable (reason : Reason) (error : Option String) (now : ℚ)

/-- **`finish` never raises**: it releases the lease with the lease's own generation. -/
theorem finish_eq : e.finish S row reason error now = .ok (e.finished S row reason error now) := by
  rw [finish, release_eq]
  rfl

theorem touches_finished :
    Touches e (e.finished S row reason error now) (ended row reason error now) none where
  rows _ := get?_set _ _ _ _
  leases _ := get?_erase _ _ _

theorem finished_events : (e.finished S row reason error now).events =
      e.events ++ (e.releaseEvents row.id (.finished reason) ++
        [.requestTerminal row.id reason error row.output.length row.consumed]) :=
  List.append_assoc _ _ _

end

/-! ### Arrivals -/

def accepted (e : Engine σ) (row : Sequence) : Engine σ :=
  (e.setRow row).event (.requestAccepted row.id row.inputIds.length row.limit row.received
    row.tenant row.priority)

theorem accept_eq (now : ℚ) :
    e.accept S row now = .ok
      (if row.id ∈ e.rows.keys then e.event (.requestRefused row.id)
      else match rejection S e.kv row with
        | some error => (e.accepted row).finished S row .rejected (some error) now
        | none => e.accepted row) := by
  rw [accept]
  split_ifs with hid
  · rfl
  · simp only [finish_eq]
    rcases h : rejection S e.kv row with - | error
    all_goals simp only [accepted, event, setRow, h]

theorem touches_accepted : Touches e (e.accepted row) row (e.kv.leases.get? row.id) :=
  ⟨(touches_setRow e row).rows, (touches_setRow e row).leases⟩

/-! ### Preemption and admission -/

def evicted (victim : Sequence) : Sequence :=
  { victim with state := .waiting, consumed := 0, preemptions := victim.preemptions + 1 }

/-- The engine after `preempt`. -/
def preempted (e : Engine σ) (victim : Sequence) : Engine σ :=
  { (e.released S victim .preempted).setRow (evicted victim) with
    preemptions := e.preemptions + 1 }.event (.requestPreempted victim.id victim.output.length)

theorem preempt_eq (victim : Sequence) : e.preempt S victim = .ok (e.preempted S victim) := by
  rw [preempt, release_eq]
  rfl

theorem touches_preempted (victim : Sequence) :
    Touches e (e.preempted S victim) (evicted victim) none where
  rows _ := get?_set _ _ _ _
  leases _ := get?_erase _ _ _

/-- A row as `admitRow` leaves it. -/
def activated (row : Sequence) (now : ℚ) : Sequence :=
  { row with state := .active, admitted := some (timeOr row.admitted now) }

/-- The engine after `admitRow` reserved `lease`, leaving the manager as `kv`. -/
def seated (e : Engine σ) (row : Sequence) (active : List String) (now : ℚ) (lease : Lease)
    (kv : KVManager) : Engine σ :=
  let e := if (active.any fun id => id ∈ e.executedIds) ∧ row.admitted = none then
    { e with liveJoinIds := insert row.id e.liveJoinIds } else e
  { e.setRow (activated row now) with kv := kv }.event
    (.kvReserve row.id lease.generation lease.capacity kv.reserved)

/-- `e'` is `e` after a row without a lease was admitted with `lease`. -/
structure Admits (e e' : Engine σ) (row : Sequence) (lease : Lease) (now : ℚ) : Prop where
  touches : Touches e e' (activated row now) (some lease)
  lease_eq : lease = { generation := e.kv.generation + 1, capacity := row.needed }
  wf : e.kv.Wf → e'.kv.Wf
  capacity : e'.kv.capacity = e.kv.capacity
  generation : e'.kv.generation = e.kv.generation + 1
  keys : e'.kv.leases.keys = e.kv.leases.keys ++ [row.id]
  executor : e'.executor = e.executor
  events : e'.events = e.events ++
    [.kvReserve row.id lease.generation lease.capacity e'.kv.reserved]

theorem admit_cases (active : List String) (now : ℚ) (h : row.id ∉ e.kv.leases.keys) :
    (e.kv.reserve row.id row.needed = .ok (none, e.kv) ∧
        e.admitRow row active now = .ok (e, false)) ∨
      ∃ e' lease, e.admitRow row active now = .ok (e', true) ∧ Admits e e' row lease now := by
  rcases hr : KVManager.reserve_cases row.needed h with hn | ⟨-, lease, kv, hs, hl, hcap, hgen, hle⟩
  · left
    refine ⟨hn, ?_⟩
    rw [admitRow, hn]
    rfl
  · right
    refine ⟨e.seated row active now lease kv, lease, ?_, ?_⟩
    · rw [admitRow, hs]
      rfl
    · refine ⟨⟨?_, ?_⟩, hl, fun hw => hw.reserve hs, hcap, hgen, ?_, ?_, ?_⟩
      · intro id
        rw [seated, event, setRow]
        split_ifs <;> simp_all [get?_set, activated]
      · intro id
        rw [seated, event, hle]
        exact get?_set _ _ _ _
      · rw [seated, event, hle]
        exact keys_set_of_not_mem _ h
      all_goals
        rw [seated, setRow]
        split_ifs <;> rfl

/-! ### Commits -/

/-- The lease of a row after its forward was committed. -/
def advanced (lease : Lease) (row : Sequence) : Lease := { lease with valid := row.consumed }

def fed (e : Engine σ) (row : Sequence) (lease : Lease) (forwardId : String) (step : Step)
    (ready : ℚ) : Engine σ :=
  { e.setRow (feed row step ready) with
    kv := { e.kv with
      leases := e.kv.leases.set row.id (advanced lease (feed row step ready)) }
    service := Function.update e.service row.tenant (e.service row.tenant + step.tokenIds.length)
    }.event (.kvCommit row.id forwardId lease.generation (row.consumed + step.tokenIds.length))

def tokened (e : Engine σ) (row : Sequence) (forwardId : String) (token : Token) (ready : ℚ) :
    Engine σ :=
  (e.setRow (emitToken row token ready)).event
    (.token row.id forwardId token (emitToken row token ready).output.length ready)

/-- The engine after `commitStep`. -/
def committed (e : Engine σ) (row : Sequence) (lease : Lease) (forwardId : String) (step : Step)
    (token : Token) (ready clock : ℚ) : Engine σ :=
  let e₁ := e.fed row lease forwardId step ready
  let row₁ := feed row step ready
  if row.deadline ≤ ready ∨ cancelDue row ready then
    e₁.finished S row₁ (if row.deadline ≤ ready then .timedOut else .cancelled) none clock
  else if step.emit then
    let e₂ := e₁.tokened row₁ forwardId token ready
    match endReason S (emitToken row₁ token ready) token with
    | some reason => e₂.finished S (emitToken row₁ token ready) reason none clock
    | none => e₂
  else e₁

/-- **A commit within the bounds of the row's lease goes through.** -/
theorem commitStep_eq {e : Engine σ} {row : Sequence} {lease : Lease} (forwardId : String)
    {step : Step} (token : Token) (ready clock : ℚ)
    (hrow : e.rows.get? step.requestId = some row) (hid : row.id = step.requestId)
    (hlease : e.kv.leases.get? step.requestId = some lease)
    (hvalid : lease.valid ≤ row.consumed + step.tokenIds.length ∧
      row.consumed + step.tokenIds.length ≤ lease.capacity) :
    e.commitStep S forwardId step token ready clock =
      .ok (e.committed S row lease forwardId step token ready clock) := by
  have hk := KVManager.commit_eq hlease hvalid
  rw [← hid] at hk
  have hconsumed : (feed row step ready).consumed = row.consumed + step.tokenIds.length := rfl
  have hdeadline : (feed row step ready).deadline = row.deadline := rfl
  have hdue : cancelDue (feed row step ready) ready = cancelDue row ready := rfl
  have hfid : (feed row step ready).id = row.id := rfl
  simp only [commitStep, hrow, hlease, hfid, hconsumed, hdeadline, hdue, hk, finish_eq, committed]
  show (if _ then _ else _) = _
  split_ifs <;> try rfl
  rcases endReason S (emitToken (feed row step ready) token ready) token <;> rfl

theorem touches_fed (lease : Lease) (forwardId : String) (step : Step) (ready : ℚ) :
    Touches e (e.fed row lease forwardId step ready)
      (feed row step ready) (some (advanced lease (feed row step ready))) where
  rows _ := get?_set _ _ _ _
  leases _ := get?_set _ _ _ _

theorem touches_tokened (forwardId : String) (token : Token) (ready : ℚ) :
    Touches e (e.tokened row forwardId token ready) (emitToken row token ready)
      (e.kv.leases.get? row.id) :=
  ⟨(touches_setRow e _).rows, (touches_setRow e _).leases⟩

end Engine

end Hqsb
