/-
Hqsb/Runtime/EngineRuns.lean

Runs of the live engine in terms of acts.

`PointInv` says what the locals of `run` know at each place.  `step_moves` is
proved place by place: one step of the machine is a sequence of acts and lands
in a place whose locals are right again.  The rule the later modules use is
`reachable_invariant`; `reachable_inv` is its first use.
-/
import Hqsb.Runtime.EngineInvariant

namespace Hqsb

open Lib Engine Relation List OrderedDict

variable {σ : Type} {S : Session σ}

/-! ### What the locals of `run` know -/

def Point.pending : Point → List (Step × Token)
  | .commit _ _ pending => pending
  | _ => []

/-- `active` lists the rows that hold a lease. -/
structure ActiveIds (e : Engine σ) (active : List String) : Prop where
  nodup : active.Nodup
  mem : ∀ {id}, id ∈ active ↔ id ∈ e.kv.leases.keys

def PointInv (e : Engine σ) : Point → Prop
  | .begin | .receive _ | .arrange _ | .commit _ _ _ => True
  | .sweep _ _ pending => ∀ id ∈ pending, id ∈ e.rows.keys
  | .admission _ _ active pending => ActiveIds e active ∧ pending.Nodup ∧
      ∀ id ∈ pending, ∃ row, e.rows.get? id = some row ∧ row.state = .waiting
  | .plan _ _ active => ActiveIds e active
  | .prepare _ active steps => ActiveIds e active ∧ StepsFor e steps ∧ steps ≠ []
  | .execute _ active steps => ActiveIds e active ∧ StepsFor e steps ∧ steps ≠ []
  | .drain pending => (∀ id ∈ pending, id ∈ e.rows.keys) ∧
      ∀ id row, e.rows.get? id = some row → row.state ≠ .terminal → id ∈ pending
  | .returned rows => rows = e.rows.values ∧ e.kv.leases.keys = [] ∧
      ∀ row ∈ rows, row.state = .terminal
  | .raised error => error = .schedulerNoProgress ∨ ∃ message, error = .executor message

/-- The places where the progress error can be raised. -/
def Point.mayStall : Point → Bool
  | .plan .. | .prepare .. | .raised _ => true
  | _ => false

/-- From `c` to `c'` by acts, with the locals of `c'` right. -/
structure Moves (S : Session σ) (c c' : Config σ) : Prop where
  acts : ReflTransGen (Act S) (c.engine, c.point.pending) (c'.engine, c'.point.pending)
  point : PointInv c'.engine c'.point
  stall : c'.point = .raised .schedulerNoProgress → c.point.mayStall

/-! ### Ids of rows -/

section Ids

variable {e : Engine σ} {pending : List (Step × Token)}

section

variable (hI : Inv S (e, pending))

include hI

theorem Inv.ids_values : e.rows.values.map Sequence.id = e.rows.keys := by
  rw [OrderedDict.values, List.map_map]
  refine List.map_congr_left fun entry hentry => ?_
  exact hI.row_id (e.rows.get?_eq_some_iff.mpr hentry)

theorem Inv.get?_of_mem_values {row : Sequence}
    (h : row ∈ e.rows.values) : e.rows.get? row.id = some row := by
  obtain ⟨id, hid⟩ := e.rows.mem_values_iff.mp h
  rw [hI.row_id hid]
  exact hid

theorem Inv.nodup_ids (p : Sequence → Bool) : ((e.rows.values.filter p).map Sequence.id).Nodup := by
  have hsub := (filter_sublist (l := e.rows.values) (p := p)).map Sequence.id
  rw [hI.ids_values] at hsub
  exact e.rows.nodup_keys.sublist hsub

theorem Inv.mem_leases_iff {id : String} :
    id ∈ e.kv.leases.keys ↔ ∃ row, e.rows.get? id = some row ∧ row.state = .active := by
  rw [← isSome_get?_iff]
  constructor
  · intro h
    obtain ⟨lease, hl⟩ := Option.isSome_iff_exists.mp h
    obtain ⟨row, hrow⟩ := hI.leased hl
    exact ⟨row, hrow, (hI.rowInv hrow).active_iff.mpr h⟩
  · rintro ⟨row, hrow, hactive⟩
    exact (hI.rowInv hrow).active_iff.mp hactive

theorem Inv.activeIds : ActiveIds e (e.activeRows.map Sequence.id) where
  nodup := hI.nodup_ids _
  mem {id} := by
    rw [hI.mem_leases_iff, mem_map]
    constructor
    · rintro ⟨row, hrow, rfl⟩
      obtain ⟨hmem, hactive⟩ := mem_filter.mp hrow
      exact ⟨row, hI.get?_of_mem_values hmem, by simpa using hactive⟩
    · rintro ⟨row, hrow, hactive⟩
      refine ⟨row, mem_filter.mpr ⟨e.rows.mem_values_iff.mpr ⟨id, hrow⟩, by simpa using hactive⟩,
        hI.row_id hrow⟩

end

theorem ActiveIds.congr {e e' : Engine σ} {active : List String} (h : ActiveIds e active)
    (hkv : e'.kv = e.kv) : ActiveIds e' active := ⟨h.nodup, by rw [hkv]; exact h.mem⟩

theorem ActiveIds.length (hact : ActiveIds e active) : active.length = e.kv.leases.keys.length :=
  ((perm_ext_iff_of_nodup hact.nodup e.kv.leases.nodup_keys).mpr fun _ => hact.mem).length_eq

theorem Inv.ids_filterMap (hI : Inv S (e, pending)) {active : List String}
    (hact : ∀ id ∈ active, id ∈ e.rows.keys) :
    (active.filterMap e.rows.get?).map Sequence.id = active := by
  induction active with
  | nil => rfl
  | cons id active ih =>
    obtain ⟨row, hrow⟩ := e.rows.mem_keys_iff.mp (hact id mem_cons_self)
    rw [filterMap_cons_some hrow, map_cons, hI.row_id hrow,
      ih fun id' h => hact id' (.tail _ h)]

end Ids

/-! ### One step, place by place -/

section Places

variable {c : Config σ}

theorem Moves.of_act {c c' : Config σ}
    (h : Act S (c.engine, c.point.pending) (c'.engine, c'.point.pending))
    (hstall : c'.point = .raised .schedulerNoProgress → c.point.mayStall)
    (hpoint : PointInv c'.engine c'.point) : Moves S c c' := ⟨.single h, hpoint, hstall⟩

theorem Moves.of_eq {c c' : Config σ} (he : c'.engine = c.engine)
    (hp : c'.point.pending = c.point.pending)
    (hstall : c'.point = .raised .schedulerNoProgress → c.point.mayStall)
    (hpoint : PointInv c'.engine c'.point) : Moves S c c' := by
  refine ⟨?_, hpoint, hstall⟩
  rw [he, hp]

variable {row victim : Sequence} {e : Engine σ} {id : String} {now : ℚ}
  {active waiting : List String} {pending : List (Step × Token)} {steps : List Step}

theorem moves_finish (hp : c.point.pending = []) (hrow : c.engine.rows.get? row.id = some row)
    (hlive : row.state ≠ .terminal) {reason : Reason} (forced : reason ≠ .length ∧ reason ≠ .stop)
    (error : Option String) (now : ℚ) {point : Point}
    (hstall : point ≠ .raised .schedulerNoProgress) (hp' : point.pending = [])
    (hpoint : PointInv (c.engine.finished S row reason error now) point) :
    Moves S c (c.attempt (c.engine.finish S row reason error now) point) := by
  rw [finish_eq]
  refine .of_act ?_ (fun h => absurd h hstall) hpoint
  rw [Config.attempt, hp, hp']
  exact .finish hrow hlive forced error now

theorem mem_keys_finished {reason : Reason} {error : Option String} (h : id ∈ e.rows.keys) :
    id ∈ (e.finished S row reason error now).rows.keys :=
  (mem_keys_set _ _ _ _).mpr (.inr h)

theorem moves_accept (hp : c.point.pending = []) (s : Submission) (now : ℚ)
    {batch : List Message} :
    Moves S c (c.attempt (c.engine.accept S (.ofSubmission s) now) (.receive batch)) := by
  rw [accept_eq]
  split_ifs with hid
  · refine .of_act ?_ nofun trivial
    rw [hp]
    exact .note (.event _ rfl)
  · rcases h : rejection S c.engine.kv (.ofSubmission s) with - | error
    all_goals
      refine .of_act ?_ nofun trivial
      rw [hp]
    · exact .accept hid h
    · exact .reject hid error now

theorem moves_cancel (hp : c.point.pending = [])
    (hI : Inv S (c.engine, [])) (requestId : String) (now : ℚ) {batch : List Message} :
    Moves S c (c.attempt (c.engine.cancel S requestId now) (.receive batch)) := by
  have hrefused : Moves S c (c.attempt (.ok (c.engine.event (.controlRefused requestId)))
      (.receive batch)) := by
    refine .of_act ?_ nofun trivial
    rw [hp]
    exact .note (.event _ rfl)
  rcases hrow : c.engine.rows.get? requestId with - | row
  · simpa only [cancel, hrow] using hrefused
  · simp only [cancel, hrow]
    split_ifs with hlive
    · have hid := hI.row_id hrow
      exact moves_finish hp (by rw [hid]; exact hrow) hlive (by decide) none now nofun rfl trivial
    · exact hrefused

theorem moves_expire (hp : c.point.pending = []) (hI : Inv S (c.engine, []))
    (hrow : c.engine.rows.get? id = some row) (hlive : row.state ≠ .terminal) (now clock : ℚ)
    (stopping : Bool) {pending : List String} (hpending : ∀ id ∈ pending, id ∈ c.engine.rows.keys) :
    Moves S c (c.attempt (c.engine.expire S row now stopping clock)
      (.sweep now stopping pending)) := by
  have hid := hI.row_id hrow
  have hget : c.engine.rows.get? row.id = some row := by rw [hid]; exact hrow
  rw [expire]
  split_ifs
  · exact moves_finish hp hget hlive (by decide) none clock nofun rfl
      fun id h => mem_keys_finished (hpending id h)
  · exact moves_finish hp hget hlive (by decide) none clock nofun rfl
      fun id h => mem_keys_finished (hpending id h)
  · exact moves_finish hp hget hlive (by decide) none clock nofun rfl
      fun id h => mem_keys_finished (hpending id h)
  · exact .of_eq rfl hp.symm nofun hpending

/-- The victim is an active row, and preemption comes with chunked prefill. -/
theorem mem_of_victimOf {active : List Sequence} (h : victimOf active = some victim) :
    victim ∈ active := by
  have hfold : ∀ (rest : List Sequence) (best : Sequence),
      rest.foldl (fun best r => if keyBelow r best then r else best) best ∈ best :: rest := by
    intro rest
    induction rest with
    | nil => exact fun best => mem_singleton_self best
    | cons r rest ih =>
      intro best
      rw [foldl_cons]
      split_ifs
      · exact .tail _ (ih r)
      · rcases mem_cons.mp (ih best) with h | h
        · rw [h]
          exact .head _
        · exact .tail _ (.tail _ h)
  rcases active with - | ⟨first, rest⟩
  · cases h
  · cases h
    exact hfold rest first

theorem mem_of_preemptible {active waiting : List Sequence}
    (h : e.preemptible S active waiting = some victim) :
    victim ∈ active ∧ S.limits.chunkedPrefill = true := by
  unfold preemptible at h
  by_cases hcond : S.mode = .continuous ∧ S.limits.preemption = .recompute ∧
      e.preemptions < S.limits.maxPreemptions
  · rw [if_pos hcond] at h
    split at h
    · rename_i hv
      split_ifs at h
      cases h
      exact ⟨mem_of_victimOf hv, S.limits.recompute_chunked hcond.2.1⟩
    · cases h
  · rw [if_neg hcond] at h
    cases h

/-- The waiting rows of a tick, as the admission loop goes through them. -/
theorem Inv.waitingIds (hI : Inv S (e, [])) (now : ℚ) :
    let waiting := ordered e.waitingRows S.limits.policy now S.limits.agingMs e.service
      S.limits.tenantWeights
    (waiting.map Sequence.id).Nodup ∧ ∀ id ∈ waiting.map Sequence.id,
      ∃ row, e.rows.get? id = some row ∧ row.state = .waiting := by
  have hperm := ordered_perm e.waitingRows S.limits.policy now S.limits.agingMs e.service
    S.limits.tenantWeights
  refine ⟨((hperm.map Sequence.id).nodup_iff).mpr (hI.nodup_ids _), fun id hid => ?_⟩
  obtain ⟨row, hrow, rfl⟩ := mem_map.mp hid
  obtain ⟨hmem, hwaiting⟩ := mem_filter.mp (hperm.mem_iff.mp hrow)
  exact ⟨row, hI.get?_of_mem_values hmem, by simpa using hwaiting⟩

/-- After a preemption the other active rows hold the leases. -/
theorem Inv.activeIds_preempted (hI : Inv S (e, [])) (hv : victim ∈ e.activeRows) :
    ActiveIds (e.preempted S victim) ((e.activeRows.erase victim).map Sequence.id) := by
  have hact := hI.activeIds
  have hinj := inj_on_of_nodup_map hact.nodup
  have hrows : e.activeRows.Nodup := hact.nodup.of_map _
  refine ⟨hact.nodup.sublist (erase_sublist.map _), fun {id} => ?_⟩
  show _ ↔ id ∈ (e.kv.leases.erase victim.id).keys
  rw [mem_keys_erase, ← hact.mem, mem_map, mem_map]
  constructor
  · rintro ⟨row, hrow, rfl⟩
    obtain ⟨hne, hmem⟩ := hrows.mem_erase_iff.mp hrow
    exact ⟨fun he => hne (hinj hmem hv he), row, hmem, rfl⟩
  · rintro ⟨hne, row, hmem, rfl⟩
    refine ⟨row, hrows.mem_erase_iff.mpr ⟨?_, hmem⟩, rfl⟩
    rintro rfl
    exact hne rfl

theorem moves_arrange (hp : c.point.pending = []) (hI : Inv S (c.engine, [])) (now : ℚ) :
    Moves S c (S.arrange c now) := by
  by_cases hdone : c.sealed ∧ c.engine.liveRows = []
  · rw [Session.arrange, if_pos hdone]
    refine .of_eq rfl hp.symm nofun ⟨fun id h => h, fun id row hrow _ => ?_⟩
    exact mem_keys_of_get? hrow
  simp only [Session.arrange]
  obtain ⟨hnodup, hwaiting⟩ := hI.waitingIds now
  rcases hpre : c.engine.preemptible S c.engine.activeRows (ordered c.engine.waitingRows
    S.limits.policy now S.limits.agingMs c.engine.service S.limits.tenantWeights) with - | victim
  · simp only
    split_ifs
    · exact .of_eq rfl hp.symm nofun ⟨hI.activeIds, hnodup, hwaiting⟩
    · exact .of_eq rfl hp.symm nofun hI.activeIds
  · obtain ⟨hmem, hchunked⟩ := mem_of_preemptible hpre
    obtain ⟨hval, hactive⟩ := mem_filter.mp hmem
    have hactive : victim.state = .active := by simpa using hactive
    have hget := hI.get?_of_mem_values hval
    have hact := hI.activeIds_preempted hmem
    simp only [preempt_eq]
    refine .of_act ?_ ?_ ?_
    · rw [hp]
      split_ifs
      all_goals exact .preempt hget hactive hchunked
    · rw [Config.attempt]
      split_ifs <;> nofun
    · rw [Config.attempt]
      split_ifs
      · refine ⟨hact, hnodup, fun id hid => ?_⟩
        -- the victim was active, so it is none of the waiting rows
        obtain ⟨row, hrow, hw⟩ := hwaiting id hid
        refine ⟨row, ?_, hw⟩
        rw [(touches_preempted S c.engine victim).rows, if_neg ?_]
        · exact hrow
        · rintro rfl
          cases hrow.symm.trans hget
          rw [hactive] at hw
          cases hw
      · exact hact

theorem moves_admission {pending : List String}
    (hp : c.point = .admission now waiting active (id :: pending)) (hI : Inv S (c.engine, []))
    (hP : PointInv c.engine (.admission now waiting active (id :: pending)))
    (hcap : active.length < S.cap) (hrow : c.engine.rows.get? id = some row) :
    ∃ e admitted, c.engine.admitRow row active now = .ok (e, admitted) ∧
      Moves S c { c with
        engine := e
        point := .admission now waiting (if admitted then active ++ [id] else active) pending } := by
  obtain ⟨hact, hnodup, hwait⟩ := hP
  obtain ⟨row', hrow', hwaiting⟩ := hwait id mem_cons_self
  cases hrow.symm.trans hrow'
  have hid := hI.row_id hrow
  rw [nodup_cons] at hnodup
  have hrest : ∀ id' ∈ pending, ∃ row, c.engine.rows.get? id' = some row ∧ row.state = .waiting :=
    fun id' h => hwait id' (.tail _ h)
  have hnot : row.id ∉ c.engine.kv.leases.keys := by
    rw [hI.mem_leases_iff, hid]
    rintro ⟨row', h', hactive⟩
    cases hrow.symm.trans h'
    rw [hwaiting] at hactive
    cases hactive
  rcases admit_cases c.engine row active now hnot with ⟨-, h⟩ | ⟨e', lease, h, admits⟩
  · refine ⟨_, _, h, .of_eq rfl (by rw [hp]; rfl) nofun ⟨hact, hnodup.2, hrest⟩⟩
  · refine ⟨_, _, h, .of_act ?_ nofun ⟨?_, hnodup.2, fun id' h' => ?_⟩⟩
    · simp only [hp]
      refine .admission (by rw [hid]; exact hrow) hwaiting ?_ admits
      rw [← hact.length]
      exact hcap
    · simp only [if_true]
      refine ⟨?_, fun {id'} => ?_⟩
      · rw [← concat_eq_append]
        refine hact.nodup.concat fun hmem => hnot ?_
        rw [hid]
        exact hact.mem.mp hmem
      · rw [admits.keys, mem_append, mem_append, hact.mem, hid]
    · obtain ⟨row', hrow', hw⟩ := hrest id' h'
      refine ⟨row', ?_, hw⟩
      rw [admits.touches.rows, if_neg ?_]
      · exact hrow'
      · rintro rfl
        exact hnodup.1 (hid ▸ h')

/-- Popping from the end leaves a beginning of the steps, and at least one of them. -/
theorem shrinkTo_isPrefix (limits : SchedulingLimits) (n : Nat) (steps : List Step) :
    shrinkTo limits n steps <+: steps ∧ (steps ≠ [] → shrinkTo limits n steps ≠ []) := by
  induction n generalizing steps with
  | zero => exact ⟨prefix_rfl, id⟩
  | succ n ih =>
    rw [shrinkTo]
    split_ifs with hcond
    · obtain ⟨hpre, hne⟩ := ih steps.dropLast
      refine ⟨hpre.trans (List.dropLast_prefix _), fun _ => hne ?_⟩
      rw [ne_eq, ← length_eq_zero_iff, length_dropLast]
      omega
    · exact ⟨prefix_rfl, id⟩

section

variable (hI : Inv S (e, pending)) (hact : ActiveIds e active)

include hI hact

theorem Inv.active_rows :
    (active.filterMap e.rows.get?).map Sequence.id = active ∧
      ∀ row ∈ active.filterMap e.rows.get?,
        e.rows.get? row.id = some row ∧ row.state = .active := by
  have hleased : ∀ id ∈ active, ∃ row, e.rows.get? id = some row ∧ row.state = .active :=
    fun id hid => hI.mem_leases_iff.mp (hact.mem.mp hid)
  refine ⟨hI.ids_filterMap fun id hid => ?_, fun row hrow => ?_⟩
  · obtain ⟨row, hrow, -⟩ := hleased id hid
    exact mem_keys_of_get? hrow
  · obtain ⟨id, hid, hget⟩ := mem_filterMap.mp hrow
    obtain ⟨row', hrow', hactive⟩ := hleased id hid
    cases hget.symm.trans hrow'
    rw [hI.row_id hget]
    exact ⟨hget, hactive⟩

/-- **What is planned can be executed**: every step continues its own active row. -/
theorem Inv.stepsFor_planned (now : ℚ) :
    StepsFor e (Hqsb.plan (active.filterMap e.rows.get?) S.limits now e.service S.mode e.tick) := by
  obtain ⟨hids, hrows⟩ := hI.active_rows hact
  have hcuts := cutsOf_plan (active.filterMap e.rows.get?) S.limits now e.service S.mode e.tick
    (by rw [hids]; exact hact.nodup)
  refine ⟨hcuts.nodup, fun s hs => ?_⟩
  obtain ⟨row, hrow, hstep, hpos⟩ := hcuts.stepOf (fun row hrow => by
    obtain ⟨hget, hactive⟩ := hrows row hrow
    exact (hI.rowInv hget).consumed_lt (by rw [hactive]; decide)) hs
  obtain ⟨hget, hactive⟩ := hrows row hrow
  exact ⟨row, by rw [hstep.id]; exact hget, hactive, hstep, hpos⟩

theorem Inv.stepsFor_plan (now : ℚ) :
    StepsFor e (shrink S.limits (Hqsb.plan (active.filterMap e.rows.get?) S.limits now e.service
      S.mode e.tick)) :=
  (hI.stepsFor_planned hact now).sublist (shrinkTo_isPrefix _ _ _).1.sublist

end

theorem moves_idle (hp : c.point.pending = []) (hstall : c.point.mayStall) (active : List String) :
    Moves S c (c.idle active) := by
  rw [Config.idle]
  split_ifs
  · exact .of_eq rfl hp.symm (fun _ => hstall) (.inl rfl)
  · exact .of_eq rfl hp.symm nofun trivial

theorem moves_plan (hp : c.point.pending = []) (hstall : c.point.mayStall)
    (hI : Inv S (c.engine, [])) (hact : ActiveIds c.engine active) :
    Moves S c (
      let e := c.engine
      let steps := shrink S.limits (Hqsb.plan (active.filterMap e.rows.get?) S.limits now e.service
        S.mode e.tick)
      if steps = [] then c.idle active else c.goto (.prepare waiting active steps)) := by
  dsimp only
  split_ifs with hnil
  · exact moves_idle hp hstall active
  · exact .of_eq rfl hp.symm nofun ⟨hact, hI.stepsFor_plan hact now, hnil⟩

theorem StepsFor.head {first : Step} {rest : List Step} (h : StepsFor e (first :: rest)) :
    ∃ row, e.rows.get? first.requestId = some row ∧ row.state = .active := by
  obtain ⟨row, hrow, hactive, -⟩ := h.row first mem_cons_self
  exact ⟨row, hrow, hactive⟩

theorem leaseGenerations_ok (hI : Inv S (e, pending)) (hsteps : StepsFor e steps) :
    ∃ leases, e.leaseGenerations steps = .ok leases := by
  have hall : ∀ s ∈ steps, ∃ lease, e.kv.leases.get? s.requestId = some lease := by
    intro s hs
    obtain ⟨row, hrow, hactive, -⟩ := hsteps.row s hs
    exact e.kv.leases.mem_keys_iff.mp (hI.mem_leases_iff.mpr ⟨row, hrow, hactive⟩)
  clear hsteps
  rw [leaseGenerations]
  induction steps with
  | nil => exact ⟨[], rfl⟩
  | cons s steps ih =>
    obtain ⟨lease, hl⟩ := hall s mem_cons_self
    obtain ⟨leases, hok⟩ := ih fun s' h => hall s' (.tail _ h)
    refine ⟨(s.requestId, lease.generation) :: leases, ?_⟩
    rw [mapM_cons, hl, hok]
    rfl

theorem moves_commit {forwardId : String} {ready clock : ℚ} {step : Step} {token : Token}
    (hp : c.point = .commit forwardId ready ((step, token) :: pending))
    (hI : Inv S (c.engine, (step, token) :: pending)) :
    Moves S c (c.attempt (c.engine.commitStep S forwardId step token ready clock)
      (.commit forwardId ready pending)) := by
  obtain ⟨row, hrow, hactive, hstep, -⟩ := hI.pending.row step (by simp)
  obtain ⟨lease, hlease⟩ := c.engine.kv.leases.mem_keys_iff.mp
    (hI.mem_leases_iff.mpr ⟨row, hrow, hactive⟩)
  have hinv := hI.rowInv hrow
  rw [hlease] at hinv
  rw [commitStep_eq S forwardId token ready clock hrow (hI.row_id hrow) hlease (hinv.commit_le hstep)]
  refine .of_act ?_ nofun trivial
  rw [hp]
  exact .commit hrow hlease forwardId ready clock

/-- The engine after the executor was asked whether it can take the steps. -/
def prepared (S : Session σ) (e : Engine σ) (steps : List Step) : Engine σ :=
  { e with executor := (S.executor.prepare e.executor steps).2 }

/-- The row of a refused single step is ended, and the tick is over. -/
theorem moves_refused {first : Step} (hp : c.point = .prepare waiting active [first])
    (hI : Inv S (c.engine, [])) (hsteps : StepsFor c.engine [first]) (refusal : String) (now : ℚ)
    (hrow : c.engine.rows.get? first.requestId = some row) :
    ∃ e, (prepared S c.engine [first]).finish S row .rejected (some refusal) now = .ok e ∧
      Moves S c (Config.idle { c with engine := e } active) := by
  refine ⟨_, finish_eq .., ?_⟩
  obtain ⟨row', hrow', hactive⟩ := hsteps.head
  cases hrow.symm.trans hrow'
  have hid := hI.row_id hrow
  have hprepare : Act S (c.engine, []) (prepared S c.engine [first], []) := .prepare hsteps
  have hfinish : Act S (prepared S c.engine [first], [])
      ((prepared S c.engine [first]).finished S row .rejected (some refusal) now, []) :=
    .finish (by rw [hid]; exact hrow) (by rw [hactive]; decide) (by decide) _ _
  have hidle := moves_idle (S := S) (c := { c with
    engine := (prepared S c.engine [first]).finished S row .rejected (some refusal) now })
    (by rw [hp]; rfl) (by rw [hp]; rfl) active
  refine ⟨.head ?_ (.head hfinish ?_), hidle.point, fun _ => by rw [hp]; rfl⟩
  · rw [hp]
    exact hprepare
  · have hacts := hidle.acts
    simp only [hp] at hacts ⊢
    exact hacts

theorem moves_prepare (hp : c.point = .prepare waiting active steps) (hI : Inv S (c.engine, []))
    (hP : PointInv c.engine (.prepare waiting active steps)) (reading : Reading) :
    Moves S c (S.step c reading) := by
  obtain ⟨hact, hsteps, hne⟩ := hP
  obtain ⟨first, rest, rfl⟩ := exists_cons_of_ne_nil hne
  have hprepare : Act S (c.engine, []) (prepared S c.engine (first :: rest), []) := .prepare hsteps
  have hsteps' : StepsFor (prepared S c.engine (first :: rest)) (first :: rest) := hsteps.congr rfl
  simp only [Session.step, hp]
  rcases h : S.executor.prepare c.engine.executor (first :: rest) with ⟨- | refusal, x⟩
  all_goals obtain rfl : (S.executor.prepare c.engine.executor (first :: rest)).2 = x := by rw [h]
  · refine .of_act ?_ nofun ⟨hact.congr rfl, hsteps', hne⟩
    simp only [hp]
    exact hprepare
  · simp only
    split_ifs with hrest
    · refine .of_act ?_ nofun ⟨hact.congr rfl, hsteps'.sublist (dropLast_sublist _), ?_⟩
      · simp only [hp]
        exact hprepare
      · obtain ⟨second, rest, rfl⟩ := exists_cons_of_ne_nil hrest
        simp
    · rw [not_not] at hrest
      subst hrest
      obtain ⟨row, hrow, -⟩ := hsteps.head
      obtain ⟨e, he, hmoves⟩ := moves_refused hp hI hsteps refusal reading.clock hrow
      rw [prepared] at he
      simp only [hp] at hmoves
      simpa only [hrow, he] using hmoves

theorem moves_execute (hp : c.point = .execute waiting active steps) (hI : Inv S (c.engine, []))
    (hP : PointInv c.engine (.execute waiting active steps)) (reading : Reading) :
    Moves S c (S.step c reading) := by
  obtain ⟨-, hsteps, -⟩ := hP
  simp only [Session.step, hp]
  obtain ⟨leases, hleases⟩ := leaseGenerations_ok hI hsteps
  rw [show leaseGenerations { c.engine with forwards := c.engine.forwards + 1 } steps = .ok leases
    from hleases]
  simp only
  generalize hf : S.sessionId ++ ":f" ++ toString (c.engine.forwards + 1) = forwardId
  rcases hx : S.executor.execute c.engine.executor steps forwardId with message | ⟨tokens, x⟩
  · simp only [Engine.event, hx]
    refine .of_act ?_ (by rintro ⟨⟩) (.inr ⟨message, rfl⟩)
    simp only [hp]
    exact .note ⟨rfl, rfl, rfl, [_], rfl, by simp [planEvent, Event.isNote]⟩
  · simp only [Engine.event, hx]
    refine .of_act ?_ (by rintro ⟨⟩) trivial
    simp only [hp, Point.pending]
    refine .execute hsteps hx ⟨rfl, rfl, rfl, [_, _], append_assoc _ _ _, ?_⟩
    simp [planEvent, Event.isNote]

theorem moves_drain {pending : List String} (hp : c.point = .drain pending)
    (hI : Inv S (c.engine, [])) (hP : PointInv c.engine (.drain pending)) (reading : Reading) :
    Moves S c (S.step c reading) := by
  obtain ⟨hkeys, hlive⟩ := hP
  have hpending : c.point.pending = [] := by rw [hp]; rfl
  rcases pending with - | ⟨id, pending⟩
  · rw [Session.step, hp]
    -- every row is terminal, and only active rows hold a lease
    have hdone : ∀ id row, c.engine.rows.get? id = some row → row.state = .terminal := by
      intro id row hrow
      by_contra h
      exact absurd (hlive id row hrow h) (by simp)
    have hnil : c.engine.kv.leases.keys = [] := by
      refine eq_nil_iff_forall_not_mem.mpr fun id hid => ?_
      obtain ⟨row, hrow, hactive⟩ := hI.mem_leases_iff.mp hid
      rw [hdone id row hrow] at hactive
      cases hactive
    rw [if_pos hnil]
    refine .of_eq rfl hpending.symm nofun ⟨rfl, hnil, fun row hrow => ?_⟩
    exact hdone row.id row (hI.get?_of_mem_values hrow)
  · obtain ⟨row, hrow⟩ := c.engine.rows.mem_keys_iff.mp (hkeys id mem_cons_self)
    have hid := hI.row_id hrow
    simp only [Session.step, hp, hrow]
    split_ifs with hterminal
    · refine moves_finish hpending (by rw [hid]; exact hrow) hterminal (by decide) none reading.clock
        nofun rfl ⟨fun id' h => mem_keys_finished (hkeys id' (.tail _ h)), ?_⟩
      intro id' row' hrow' hl
      rw [(touches_finished S _ row .cancelled none reading.clock).rows] at hrow'
      split_ifs at hrow' with he
      · cases hrow'
        exact absurd rfl hl
      · rcases mem_cons.mp (hlive id' row' hrow' hl) with h | h
        · exact absurd (h.trans hid.symm) he
        · exact h
    · refine .of_eq rfl hpending.symm nofun ⟨fun id' h => hkeys id' (.tail _ h), ?_⟩
      intro id' row' hrow' hl
      rcases mem_cons.mp (hlive id' row' hrow' hl) with rfl | h
      · cases hrow.symm.trans hrow'
        exact absurd (by simpa using hterminal) hl
      · exact h

theorem moves_sweep {stopping : Bool} {pending : List String}
    (hp : c.point = .sweep now stopping pending) (hI : Inv S (c.engine, []))
    (hP : PointInv c.engine (.sweep now stopping pending)) (reading : Reading) :
    Moves S c (S.step c reading) := by
  have hpending : c.point.pending = [] := by rw [hp]; rfl
  rcases pending with - | ⟨id, pending⟩
  · simp only [Session.step, hp]
    split_ifs
    · refine .of_eq rfl hpending.symm nofun ⟨fun id h => h, fun id row hrow _ => ?_⟩
      exact mem_keys_of_get? hrow
    · exact .of_eq rfl hpending.symm nofun trivial
  · obtain ⟨row, hrow⟩ := c.engine.rows.mem_keys_iff.mp (hP id mem_cons_self)
    have hrest : ∀ id' ∈ pending, id' ∈ c.engine.rows.keys :=
      fun id' h => hP id' (mem_cons_of_mem _ h)
    simp only [Session.step, hp, hrow]
    split_ifs with hterminal
    · exact .of_eq rfl hpending.symm nofun hrest
    · exact .of_eq rfl hpending.symm nofun hrest
    · exact moves_expire hpending hI hrow hterminal now reading.clock stopping hrest

end Places

/-! ### Runs -/

/-- **One step of `run` is a sequence of acts**, and its locals stay right. -/
theorem step_moves {c : Config σ} (hI : Inv S (c.engine, c.point.pending))
    (hP : PointInv c.engine c.point) (reading : Reading) : Moves S c (S.step c reading) := by
  rcases hp : c.point with - | batch | ⟨now, stopping, pending⟩ | now |
    ⟨now, waiting, active, pending⟩ | ⟨now, waiting, active⟩ | ⟨waiting, active, steps⟩ |
    ⟨waiting, active, steps⟩ | ⟨forwardId, ready, pending⟩ | pending | rows | error
  all_goals
    rw [hp] at hI hP
    have hpending := congrArg Point.pending hp
  case receive =>
    rcases batch with - | ⟨message, batch⟩
    · rw [Session.step, hp]
      exact .of_eq rfl hpending.symm nofun fun id h => h
    · rcases message with s | - | requestId
      all_goals simp only [Session.step, hp]
      · exact moves_accept hpending s reading.clock
      · exact .of_eq rfl hpending.symm nofun trivial
      · exact moves_cancel hpending hI requestId reading.clock
  case begin =>
    rw [Session.step, hp]
    refine .of_act ?_ nofun trivial
    rw [hp]
    exact .note ⟨rfl, rfl, rfl, [], by simp, by simp⟩
  case sweep => exact moves_sweep hp hI hP reading
  case arrange =>
    rw [Session.step, hp]
    exact moves_arrange hpending hI now
  case admission =>
    rcases pending with - | ⟨id, pending⟩
    · rw [Session.step, hp]
      exact .of_eq rfl hpending.symm nofun hP.1
    · simp only [Session.step, hp]
      split_ifs with hcap
      · exact .of_eq rfl hpending.symm nofun hP.1
      · obtain ⟨row, hrow, -⟩ := hP.2.2 id mem_cons_self
        obtain ⟨e, admitted, he, hmoves⟩ := moves_admission hp hI hP (Nat.lt_of_not_le hcap) hrow
        simpa only [hrow, he] using hmoves
  case plan =>
    rw [Session.step, hp]
    exact moves_plan hpending (by rw [hp]; rfl) hI hP
  case prepare => exact moves_prepare hp hI hP reading
  case execute => exact moves_execute hp hI hP reading
  case commit =>
    rcases pending with - | ⟨⟨step, token⟩, pending⟩
    · rw [Session.step, hp]
      exact .of_eq rfl hpending.symm nofun trivial
    · rw [Session.step, hp]
      exact moves_commit hp hI
  case drain => exact moves_drain hp hI hP reading
  case returned =>
    rw [Session.step, hp]
    exact .of_eq rfl rfl (by rw [hp]; nofun) (by rw [hp]; exact hP)
  case raised =>
    rw [Session.step, hp]
    exact .of_eq rfl rfl (by rw [hp]; exact fun _ => rfl) (by rw [hp]; exact hP)

theorem acts_invariant {P : Ledger σ → Prop}
    (hact : ∀ s s', Inv S s → Act S s s' → P s → P s') {s s' : Ledger σ}
    (h : ReflTransGen (Act S) s s') (hI : Inv S s) (hs : P s) : Inv S s' ∧ P s' := by
  induction h with
  | refl => exact ⟨hI, hs⟩
  | tail _ h ih => exact ⟨ih.1.act h, hact _ _ ih.1 h ih.2⟩

/-- The engine `run` starts with. -/
def Session.start (S : Session σ) (x : σ) : Engine σ :=
  { executor := x, kv := { capacity := S.limits.kvCapacityTokens } }

theorem inv_start (S : Session σ) (x : σ) : Inv S (S.start x, []) where
  wf := KVManager.wf_new _
  capacity := rfl
  row h := by cases h
  leased h := by cases h
  cap := Nat.zero_le _
  pending := StepsFor.nil _

/-- In every reachable configuration the invariant holds and the locals are right. -/
theorem reachable_inv {x : σ} {c : Config σ} (h : (S.machine x).Reachable c) :
    Inv S (c.engine, c.point.pending) ∧ PointInv c.engine c.point := by
  refine h.invariant (P := fun c => Inv S (c.engine, c.point.pending) ∧ PointInv c.engine c.point)
    ⟨inv_start S x, by trivial⟩ fun c reading _ hc => ?_
  have hmoves := step_moves hc.1 hc.2 reading
  exact ⟨(acts_invariant (P := fun _ => True) (fun _ _ _ _ _ => trivial) hmoves.acts hc.1 trivial).1,
    hmoves.point⟩

/-- **The invariant rule of the engine**: what holds of the fresh engine and is kept by every
act holds of every reachable ledger. -/
theorem reachable_invariant {P : Ledger σ → Prop} {x : σ} (hinit : P (S.start x, []))
    (hact : ∀ s s', Inv S s → Act S s s' → P s → P s') {c : Config σ}
    (h : (S.machine x).Reachable c) : P (c.engine, c.point.pending) :=
  h.invariant (P := fun c => P (c.engine, c.point.pending)) hinit fun c reading hr hc => by
    obtain ⟨hI, hP⟩ := reachable_inv hr
    exact (acts_invariant hact (step_moves hI hP reading).acts hI hc).2

end Hqsb
