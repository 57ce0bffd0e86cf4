/-
Hqsb/Runtime/Progress.lean

When the live engine can raise `SCHEDULER_NO_PROGRESS`.

A tick with an active row always plans a step (`plan_ne_nil`), and popping
refused steps from the end leaves at least one.  What is left is the branch for
a refused single step: it ends the step's row and clears the steps, and the check
`if not steps` that follows then finds every other row of the tick still active.
So the error is raised exactly when `prepare` refuses a single step while another
row is active (`no_progress_iff`); as long as that does not happen every tick with
an active row executes steps or ends a row and goes on.
-/
import Hqsb.Runtime.EngineRuns

namespace Hqsb

open Lib Engine List

variable {σ : Type} {S : Session σ}

/-! ### The end of a tick -/

/-- When `prepare` refuses a single step, the row of that step is the only active one. -/
def SoleRefusal (S : Session σ) (c : Config σ) (_ : Reading) : Prop :=
  ∀ waiting active first, c.point = .prepare waiting active [first] →
    (S.executor.prepare c.engine.executor [first]).1.isSome → active = [first.requestId]

/-- The tick that planned `active` executes steps, or it ended one of the rows and `run` goes on. -/
def Serves (active : List String) (c : Config σ) : Prop :=
  (∃ waiting steps, c.point = .execute waiting active steps ∧ steps ≠ []) ∨
    c.point = .begin ∧ ∃ id ∈ active, ∃ row, c.engine.rows.get? id = some row ∧
      row.state = .terminal

variable {active waiting : List String} {c : Config σ} {steps : List Step}

theorem idle_of_inactive
    (h : ∀ id ∈ active, ∀ row, c.engine.rows.get? id = some row → row.state ≠ .active) :
    c.idle active = c.goto .begin := by
  rw [Config.idle, if_neg]
  simp only [any_eq_true, Option.any_eq_true, not_exists, not_and, decide_eq_true_eq]
  exact fun id hid row hrow => h id hid row hrow

theorem idle_of_active {id : String} (hid : id ∈ active) (row : Sequence)
    (hrow : c.engine.rows.get? id = some row) (hactive : row.state = .active) :
    c.idle active = c.goto (.raised .schedulerNoProgress) := by
  rw [Config.idle, if_pos]
  simp only [any_eq_true, Option.any_eq_true, decide_eq_true_eq]
  exact ⟨id, hid, row, hrow, hactive⟩

theorem idle_engine (c : Config σ) (active : List String) : (c.idle active).engine = c.engine := by
  rw [Config.idle]
  split_ifs <;> rfl

theorem shrink_ne_nil (limits : SchedulingLimits) (h : steps ≠ []) :
    shrink limits steps ≠ [] := (shrinkTo_isPrefix limits _ steps).2 h

theorem exists_other {α : Type*} {l : List α} {a : α} (hn : l.Nodup) (ha : a ∈ l) (h : l ≠ [a]) :
    ∃ b ∈ l, b ≠ a := by
  rcases l with - | ⟨b, l⟩
  · cases ha
  by_cases hb : b = a
  · subst hb
    rcases l with - | ⟨b', l⟩
    · exact absurd rfl h
    · rw [nodup_cons, mem_cons, not_or] at hn
      exact ⟨b', by simp, fun he => hn.1.1 he.symm⟩
  · exact ⟨b, .head _, hb⟩

/-- **A tick with an active row plans a step.** -/
theorem step_plan {now : ℚ} (hp : c.point = .plan now waiting active) (hI : Inv S (c.engine, []))
    (hact : ActiveIds c.engine active) (reading : Reading) :
    (active = [] ∧ (S.step c reading).point = .begin) ∨
      ∃ steps, steps ≠ [] ∧ S.step c reading = c.goto (.prepare waiting active steps) := by
  obtain ⟨hids, hrows⟩ := hI.active_rows hact
  simp only [Session.step, hp]
  rcases eq_or_ne active [] with rfl | hne
  · left
    refine ⟨rfl, ?_⟩
    have hplan : shrink S.limits (Hqsb.plan ([].filterMap c.engine.rows.get?) S.limits now
        c.engine.service S.mode c.engine.tick) = [] := by
      have hcuts := cutsOf_plan [] S.limits now c.engine.service S.mode c.engine.tick (by simp)
      refine eq_nil_iff_forall_not_mem.mpr fun s hs => ?_
      obtain ⟨row, hrow, -⟩ := hcuts.cut s ((shrinkTo_isPrefix _ _ _).1.subset hs)
      cases hrow
    rw [if_pos hplan]
    rfl
  · right
    have hsteps := plan_ne_nil (active.filterMap c.engine.rows.get?) S.limits now c.engine.service
      S.mode c.engine.tick
      (by rw [ne_eq, ← map_eq_nil_iff (f := Sequence.id), hids]; exact hne)
      fun row hrow => by
        obtain ⟨hget, hactive⟩ := hrows row hrow
        exact (hI.rowInv hget).plannable (by rw [hactive]; decide)
    have hshrunk := shrink_ne_nil S.limits hsteps
    exact ⟨_, hshrunk, if_neg hshrunk⟩

/-- The engine after the row of a refused single step was ended. -/
def refused (S : Session σ) (c : Config σ) (first : Step) (row : Sequence) (refusal : String)
    (now : ℚ) : Config σ :=
  { c with engine := (prepared S c.engine [first]).finished S row .rejected (some refusal) now }

theorem step_refused {first : Step} (hp : c.point = .prepare waiting active [first])
    {refusal : String}
    (hrefusal : (S.executor.prepare c.engine.executor [first]).1 = some refusal) {row : Sequence}
    (hrow : c.engine.rows.get? first.requestId = some row) (reading : Reading) :
    S.step c reading = (refused S c first row refusal reading.clock).idle active := by
  rcases h : S.executor.prepare c.engine.executor [first] with ⟨answer, x⟩
  obtain rfl : answer = some refusal := by rw [← hrefusal, h]
  simp only [Session.step, hp, h, hrow, finish_eq, ne_eq, not_true_eq_false, if_false, refused,
    prepared]

/-- **The refusal of a single step** ends its row; what comes then depends on the other rows. -/
theorem point_refused {first : Step} (hp : c.point = .prepare waiting active [first])
    (hI : Inv S (c.engine, [])) (hP : PointInv c.engine (.prepare waiting active [first]))
    {refusal : String}
    (hrefusal : (S.executor.prepare c.engine.executor [first]).1 = some refusal)
    (reading : Reading) :
    first.requestId ∈ active ∧
      (∃ row, (S.step c reading).engine.rows.get? first.requestId = some row ∧
        row.state = .terminal) ∧
      (S.step c reading).point =
        if active = [first.requestId] then .begin else .raised .schedulerNoProgress := by
  obtain ⟨hact, hsteps, -⟩ := hP
  obtain ⟨row, hrow, hactive⟩ := hsteps.head
  have hid := hI.row_id hrow
  have hmem : first.requestId ∈ active := hact.mem.mpr (hI.mem_leases_iff.mpr ⟨row, hrow, hactive⟩)
  have hrows : ∀ id, (refused S c first row refusal reading.clock).engine.rows.get? id =
      if id = row.id then some (ended row .rejected (some refusal) reading.clock)
      else c.engine.rows.get? id :=
    (touches_finished S (prepared S c.engine [first]) row .rejected (some refusal)
      reading.clock).rows
  rw [step_refused hp hrefusal hrow, idle_engine]
  refine ⟨hmem, ⟨_, by rw [hrows, if_pos hid.symm], rfl⟩, ?_⟩
  split_ifs with hsole
  · rw [idle_of_inactive]
    · rfl
    · intro id hid' row' hrow'
      rw [hsole, mem_singleton] at hid'
      rw [hrows, hid', hid, if_pos rfl] at hrow'
      cases hrow'
      exact nofun
  · -- another row of the tick holds a lease, and the refusal does not touch it
    obtain ⟨other, hother, hne⟩ := exists_other hact.nodup hmem hsole
    obtain ⟨row', hrow', hactive'⟩ := hI.mem_leases_iff.mp (hact.mem.mp hother)
    rw [idle_of_active hother row' ?_ hactive']
    · rfl
    · rw [hrows, if_neg (by rw [hid]; exact hne)]
      exact hrow'

theorem step_prepare (hp : c.point = .prepare waiting active steps) (hne : steps ≠ [])
    (reading : Reading) :
    (S.step c reading).point = .execute waiting active steps ∨
      (steps.dropLast ≠ [] ∧ (S.step c reading).point = .prepare waiting active steps.dropLast) ∨
      ∃ first refusal, steps = [first] ∧
        (S.executor.prepare c.engine.executor [first]).1 = some refusal := by
  obtain ⟨first, rest, rfl⟩ := exists_cons_of_ne_nil hne
  rcases h : S.executor.prepare c.engine.executor (first :: rest) with ⟨- | refusal, x⟩
  · simp [Session.step, hp, h]
  · rcases rest with - | ⟨second, rest⟩
    · exact .inr (.inr ⟨first, refusal, rfl, by rw [h]⟩)
    · simp [Session.step, hp, h, Config.goto]

/-! ### Runs -/

/-- A step raises the progress error exactly off the guard. -/
theorem stalls_iff (hI : Inv S (c.engine, c.point.pending)) (hP : PointInv c.engine c.point)
    (hc : c.point ≠ .raised .schedulerNoProgress) (reading : Reading) :
    (S.step c reading).point = .raised .schedulerNoProgress ↔ ¬ SoleRefusal S c reading := by
  have hmoves := step_moves hI hP reading
  constructor
  · intro h hsole
    have hstall := hmoves.stall h
    rcases hp : c.point with - | batch | ⟨now, stopping, pending⟩ | now |
      ⟨now, waiting, active, pending⟩ | ⟨now, waiting, active⟩ | ⟨waiting, active, steps⟩ |
      ⟨waiting, active, steps⟩ | ⟨forwardId, ready, pending⟩ | pending | rows | error
    all_goals rw [hp] at hI hP hstall
    case plan =>
      rcases step_plan hp hI hP reading with ⟨-, h'⟩ | ⟨steps, -, h'⟩
      · rw [h] at h'; cases h'
      · rw [h'] at h; cases h
    case prepare =>
      rcases step_prepare hp hP.2.2 reading with h' | ⟨-, h'⟩ | ⟨first, refusal, rfl, hrefusal⟩
      · rw [h] at h'; cases h'
      · rw [h] at h'; cases h'
      · obtain ⟨-, -, h'⟩ := point_refused hp hI hP hrefusal reading
        rw [if_pos (hsole waiting active first hp (by rw [hrefusal]; rfl)), h] at h'
        cases h'
    case raised =>
      have h' : (S.step c reading).point = c.point := by simp [Session.step, hp]
      exact hc (h'.symm.trans h)
    all_goals cases hstall
  · intro h
    simp only [SoleRefusal, not_forall] at h
    obtain ⟨waiting, active, first, hp, hrefusal, hsole⟩ := h
    rw [hp] at hI hP
    obtain ⟨refusal, hrefusal⟩ := Option.isSome_iff_exists.mp hrefusal
    obtain ⟨-, -, h'⟩ := point_refused hp hI hP hrefusal reading
    rw [h', if_neg hsole]

def refusing : Session Unit where
  executor :=
    { contextLimit := 64
      prepare := fun _ _ => (some "TEMPORARY_MEMORY_BUDGET", ())
      execute := fun _ _ _ => .error "unused"
      release := fun _ _ => () }
  limits := .defaults
  mode := .continuous
  deadline := 60

/-- Two requests arrive before the first tick plans. -/
def twoArrivals : List Reading :=
  { batch := [.submit { id := "a", inputIds := [1], limit := 1, received := 0, deadline := 50 },
      .submit { id := "b", inputIds := [1], limit := 1, received := 0, deadline := 50 }] } ::
    List.replicate 13 {}

/-- With two active rows and every step refused, the refusal of the last step raises. -/
theorem refusing_stalls :
    ((refusing.machine ()).run twoArrivals).point = .raised .schedulerNoProgress := by rfl

/-- From the refusal loop of a tick, with guarded readings. -/
theorem prepare_serves {x : σ} (hr : (S.machine x).Reachable c)
    (hp : c.point = .prepare waiting active steps) {rest : List Reading}
    (hlen : steps.length ≤ rest.length) (hg : (S.machine x).Guarded (SoleRefusal S) c rest) :
    ∃ js, js <+: rest ∧ Serves active ((S.machine x).runFrom c js) := by
  obtain ⟨hI, hP⟩ := reachable_inv hr
  rw [hp] at hI hP
  induction rest generalizing c steps with
  | nil => exact absurd (length_eq_zero_iff.mp (Nat.le_zero.mp hlen)) hP.2.2
  | cons reading rest ih =>
    have hone : [reading] <+: reading :: rest := by simp
    rcases step_prepare hp hP.2.2 reading with h | ⟨hne, h⟩ | ⟨first, refusal, rfl, hrefusal⟩
    · exact ⟨[reading], hone, .inl ⟨waiting, steps, h, hP.2.2⟩⟩
    · have hnext : (S.machine x).Reachable (S.step c reading) := hr.step reading
      obtain ⟨hI', hP'⟩ := reachable_inv hnext
      rw [h] at hI' hP'
      have hshort : steps.dropLast.length ≤ rest.length := by
        rw [length_dropLast]
        exact Nat.sub_le_of_le_add hlen
      obtain ⟨js, hjs, hserves⟩ := ih hnext h hshort hg.2 hI' hP'
      exact ⟨reading :: js, cons_prefix_cons.mpr ⟨rfl, hjs⟩, hserves⟩
    · obtain ⟨hmem, ⟨row, hrow, hterminal⟩, h⟩ := point_refused hp hI hP hrefusal reading
      rw [if_pos (hg.1 waiting active first hp (by rw [hrefusal]; rfl))] at h
      exact ⟨[reading], hone, .inr ⟨h, _, hmem, row, hrow, hterminal⟩⟩

/-- The tick that starts planning in `c` serves within the readings `rest`, if they are enough:
one to plan and one for each step that can be refused. -/
def TickServes (S : Session σ) (x : σ) (c : Config σ) (rest : List Reading) : Prop :=
  ∀ now waiting active, c.point = .plan now waiting active → active ≠ [] →
    active.length < rest.length → ∃ js, js <+: rest ∧ Serves active ((S.machine x).runFrom c js)

theorem tickServes_of_guarded {x : σ} (hr : (S.machine x).Reachable c) {rest : List Reading}
    (hg : (S.machine x).Guarded (SoleRefusal S) c rest) :
    TickServes S x c rest := by
  intro now waiting active hp hne hlen
  obtain ⟨hI, hP⟩ := reachable_inv hr
  rw [hp] at hI hP
  rcases rest with - | ⟨reading, rest⟩
  · cases hlen
  rcases step_plan hp hI hP reading with ⟨hnil, -⟩ | ⟨steps, -, h⟩
  · exact absurd hnil hne
  have hnext : (S.machine x).Reachable (S.step c reading) := hr.step reading
  have hp' : (S.step c reading).point = .prepare waiting active steps := by rw [h]; rfl
  -- the steps are those of distinct active rows, so there are at most as many
  have hshort : steps.length ≤ rest.length := by
    obtain ⟨hI', hP'⟩ := reachable_inv hnext
    rw [hp'] at hI' hP'
    obtain ⟨hact, hsteps, -⟩ := hP'
    have hsub : steps.map Step.requestId ⊆ active := by
      intro id hid
      obtain ⟨s, hs, rfl⟩ := mem_map.mp hid
      obtain ⟨row, hrow, hactive, -⟩ := hsteps.row s hs
      exact hact.mem.mpr (hI'.mem_leases_iff.mpr ⟨row, hrow, hactive⟩)
    have hle := (hsteps.nodup.subperm hsub).length_le
    rw [length_map] at hle
    exact hle.trans (Nat.lt_succ_iff.mp hlen)
  obtain ⟨js, hjs, hserves⟩ := prepare_serves hnext hp' hshort hg.2
  exact ⟨reading :: js, cons_prefix_cons.mpr ⟨rfl, hjs⟩, hserves⟩

/-- **When the progress error is unreachable**: a run never raises it exactly if `prepare` refuses
single steps only of rows that are active alone; and while that holds on, each tick with an
active row serves. -/
theorem no_progress_iff (S : Session σ) (x : σ) (readings : List Reading) :
    ((S.machine x).Always (fun c => c.point ≠ .raised .schedulerNoProgress)
        (S.machine x).init readings ↔
      (S.machine x).Guarded (SoleRefusal S) (S.machine x).init readings) ∧
    ∀ rest, (S.machine x).Guarded (SoleRefusal S) ((S.machine x).run readings) rest →
      TickServes S x ((S.machine x).run readings) rest := by
  refine ⟨?_, fun rest hg => tickServes_of_guarded (Machine.reachable_run readings) hg⟩
  refine Machine.always_iff_guarded
    (P := fun c => (S.machine x).Reachable c ∧ c.point ≠ .raised .schedulerNoProgress)
    (fun c h => h.2) ?_ ?_ ⟨.init, by nofun⟩
  · rintro c reading ⟨hr, hc⟩ hsole
    obtain ⟨hI, hP⟩ := reachable_inv hr
    refine ⟨hr.step reading, fun h => ?_⟩
    exact (stalls_iff hI hP hc reading).mp h hsole
  · rintro c reading ⟨hr, hc⟩ hsole
    obtain ⟨hI, hP⟩ := reachable_inv hr
    exact fun h => h ((stalls_iff hI hP hc reading).mpr hsole)

end Hqsb
