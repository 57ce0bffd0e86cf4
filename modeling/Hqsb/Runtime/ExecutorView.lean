/-
Hqsb/Runtime/ExecutorView.lean

What an executor holds for each row, as the engine drives it.

`Tracks X view φ` is the contract of an executor: seen through `view`, the state
of a row is `φ` of the tokens it was fed since its last release, and `execute`
feeds each row its step.  `Tracked` is the invariant that follows for every
reachable ledger: a row without a lease is back at `φ []`, and an active row is at
`φ` of exactly the beginning of its history that it consumed (for a step still to
be committed: up to the end of the step).

A decoder with a KV cache tracks with `φ` the identity, an allocator that only
counts with `φ` the length.
-/
import Hqsb.Runtime.EngineRuns

namespace Hqsb

open Lib Engine List OrderedDict

variable {σ : Type} {S : Session σ} {ω : Type*}

/-! ### The contract -/

structure Tracks (X : Executor σ) (view : σ → String → ω) (φ : List Token → ω) : Prop where
  prepare : ∀ x steps, view (X.prepare x steps).2 = view x
  release : ∀ x id id', view (X.release x id) id' = if id' = id then φ [] else view x id'
  execute : ∀ {x x' : σ} {steps : List Step} {forwardId : String} {tokens : List Token},
    X.execute x steps forwardId = .ok (tokens, x') → (steps.map Step.requestId).Nodup →
    tokens.length = steps.length ∧
    (∀ s ∈ steps, ∀ fed : List Token, fed.length = s.start → view x s.requestId = φ fed →
      view x' s.requestId = φ (fed ++ s.tokenIds)) ∧
    ∀ id ∉ steps.map Step.requestId, view x' id = view x id

/-! ### The invariant -/

def pendingIds (pending : List (Step × Token)) : List String := pending.map fun p => p.1.requestId

structure Tracked (view : σ → String → ω) (φ : List Token → ω) (s : Ledger σ) : Prop where
  resting : ∀ id, id ∉ s.1.kv.leases.keys → view s.1.executor id = φ []
  settled : ∀ id row, s.1.rows.get? id = some row → id ∈ s.1.kv.leases.keys →
    id ∉ pendingIds s.2 → view s.1.executor id = φ (row.history.take row.consumed)
  pending : ∀ p ∈ s.2, ∀ row, s.1.rows.get? p.1.requestId = some row →
    view s.1.executor p.1.requestId =
      φ (row.history.take (row.consumed + p.1.tokenIds.length))

variable {view : σ → String → ω} {φ : List Token → ω} {e e' : Engine σ} {row : Sequence}
  {lease : Option Lease} {pending pending' : List (Step × Token)}

/-- One row changes, and the executor holds what that row has consumed by now. -/
theorem Tracked.touches (h : Tracked view φ (e, pending)) (ht : Touches e e' row lease)
    (hother : ∀ id, id ≠ row.id → view e'.executor id = view e.executor id)
    (hself : view e'.executor row.id =
      if lease.isSome then φ (row.history.take row.consumed) else φ [])
    (hpending : ∀ p, p ∈ pending' ↔ p ∈ pending ∧ p.1.requestId ≠ row.id) :
    Tracked view φ (e', pending') where
  resting id hid := by
    simp only [← isSome_get?_iff, ht.leases] at hid ⊢
    split_ifs at hid with he
    · rw [he, hself, if_neg hid]
    · rw [hother id he]
      exact h.resting id (by simpa [← isSome_get?_iff] using hid)
  settled id row' hrow hid hout := by
    simp only [← isSome_get?_iff, ht.leases, ht.rows] at hrow hid ⊢
    split_ifs at hrow hid with he
    · cases hrow
      rw [he, hself, if_pos hid]
    · rw [hother id he]
      refine h.settled id row' hrow (by simpa [← isSome_get?_iff] using hid) fun hmem => ?_
      obtain ⟨p, hp, rfl⟩ := mem_map.mp hmem
      exact hout (mem_map.mpr ⟨p, (hpending p).mpr ⟨hp, he⟩, rfl⟩)
  pending p hp row' hrow := by
    obtain ⟨hmem, hne⟩ := (hpending p).mp hp
    rw [ht.rows, if_neg hne] at hrow
    rw [hother _ hne]
    exact h.pending p hmem row' hrow

theorem Tracked.congr (h : Tracked view φ (e, pending)) (hrows : e'.rows = e.rows)
    (hkv : e'.kv = e.kv) (hview : view e'.executor = view e.executor) :
    Tracked view φ (e', pending) where
  resting := by simp only [hkv, hview]; exact h.resting
  settled := by simp only [hkv, hview, hrows]; exact h.settled
  pending := by simp only [hview, hrows]; exact h.pending

section

variable (hX : Tracks S.executor view φ)

include hX

/-- Giving up a lease returns its row to `φ []` and leaves the others alone. -/
theorem Tracks.released (h : ∀ id, id ∉ e.kv.leases.keys → view e.executor id = φ [])
    (row : Sequence) (cause : ReleaseCause) :
    view (e.released S row cause).executor row.id = φ [] ∧
      ∀ id, id ≠ row.id → view (e.released S row cause).executor id = view e.executor id := by
  rw [Engine.released]
  split_ifs with hl
  · refine ⟨by rw [hX.release, if_pos rfl], fun id hid => by rw [hX.release, if_neg hid]⟩
  · exact ⟨h row.id (by simpa [← isSome_get?_iff] using hl), fun _ _ => rfl⟩

theorem Tracked.finished (h : Tracked view φ (e, pending)) (row : Sequence) (reason : Reason)
    (error : Option String) (now : ℚ)
    (hpending : ∀ p, p ∈ pending' ↔ p ∈ pending ∧ p.1.requestId ≠ row.id) :
    Tracked view φ (e.finished S row reason error now, pending') := by
  obtain ⟨hself, hother⟩ := hX.released (e := e.setRow (ended row reason error now)) h.resting row
    (.finished reason)
  exact h.touches (touches_finished S e row reason error now) hother hself hpending

/-- After an execution every row of a step stands at the end of its step. -/
theorem Tracked.execute (hI : Inv S (e, [])) (h : Tracked view φ (e, [])) {steps : List Step}
    (hsteps : StepsFor e steps) {forwardId : String} {tokens : List Token} {x : σ}
    (hx : S.executor.execute e.executor steps forwardId = .ok (tokens, x)) :
    Tracked view φ ({ e with executor := x }, steps.zip tokens) := by
  obtain ⟨hlen, hfed, hother⟩ := hX.execute hx hsteps.nodup
  have hids : pendingIds (steps.zip tokens) = steps.map Step.requestId := by
    have hfst : (steps.zip tokens).map Prod.fst = steps := map_fst_zip hlen.ge
    conv_rhs => rw [← hfst, map_map]
    rfl
  refine ⟨fun id hid => ?_, fun id row hrow hid hout => ?_, fun p hp row hrow => ?_⟩
  · refine (hother id fun hmem => ?_).trans (h.resting id hid)
    obtain ⟨s, hs, rfl⟩ := mem_map.mp hmem
    obtain ⟨row, hrow, hactive, -⟩ := hsteps.row s hs
    exact hid (hI.mem_leases_iff.mpr ⟨row, hrow, hactive⟩)
  · rw [hids] at hout
    exact (hother id hout).trans (h.settled id row hrow hid (by simp [pendingIds]))
  · obtain ⟨s, t⟩ := p
    have hs : s ∈ steps := (of_mem_zip hp).1
    obtain ⟨row', hrow', hactive, hstep, -⟩ := hsteps.row s hs
    cases hrow.symm.trans hrow'
    have hbefore := h.settled s.requestId row hrow
      (hI.mem_leases_iff.mpr ⟨row, hrow, hactive⟩) (by simp [pendingIds])
    have hle := (hI.rowInv hrow).consumed_le
    simp only at hrow hbefore ⊢
    rw [hfed s hs (row.history.take row.consumed)
      (by rw [length_take, min_eq_left hle, hstep.start]) hbefore, ← hstep.start,
      hstep.take_append]

/-- A commit moves its row to where the executor already is. -/
theorem Tracked.commit {step : Step} {token : Token}
    (hI : Inv S (e, (step, token) :: pending)) (h : Tracked view φ (e, (step, token) :: pending))
    (hrow : e.rows.get? step.requestId = some row) (l : Lease) (forwardId : String)
    (ready clock : ℚ) :
    Tracked view φ (e.committed S row l forwardId step token ready clock, pending) := by
  have hid := hI.row_id hrow
  obtain ⟨row', hrow', -, hstep, -⟩ := hI.pending.row step (by simp)
  cases hrow.symm.trans hrow'
  have hview := h.pending (step, token) mem_cons_self row hrow
  have hmem : ∀ p, p ∈ pending ↔ p ∈ (step, token) :: pending ∧ p.1.requestId ≠ row.id := by
    have hnodup := hI.pending.nodup
    simp only [map_cons, nodup_cons, map_map] at hnodup
    intro p
    rw [mem_cons, hid]
    constructor
    · intro hp
      refine ⟨.inr hp, fun he => hnodup.1 ?_⟩
      rw [← he]
      exact mem_map.mpr ⟨p, hp, rfl⟩
    · rintro ⟨rfl | hp, hne⟩
      · exact absurd rfl hne
      · exact hp
  have hself : ∀ p : (Step × Token), p ∈ pending ↔ p ∈ pending ∧ p.1.requestId ≠ row.id :=
    fun p => ⟨fun hp => ⟨hp, ((hmem p).mp hp).2⟩, And.left⟩
  have hfed : Tracked view φ (e.fed row l forwardId step ready, pending) := by
    refine h.touches (touches_fed e row l forwardId step ready) (fun _ _ => rfl) ?_ hmem
    simp only at hview
    rw [← hid] at hview
    exact hview
  have hfits : (feed row step ready).consumed ≤ (feed row step ready).history.length :=
    ((hI.rowInv hrow).toRowBounds.feed hstep ready).consumed_le
  have htoken : Tracked view φ ((e.fed row l forwardId step ready).tokened (feed row step ready)
      forwardId token ready, pending) := by
    have htouch := touches_tokened (e.fed row l forwardId step ready) (feed row step ready)
      forwardId token ready
    have hsome := (touches_fed e row l forwardId step ready).leases row.id
    rw [if_pos (show row.id = (feed row step ready).id from rfl)] at hsome
    rw [show (feed row step ready).id = row.id from rfl, hsome] at htouch
    refine hfed.touches htouch (fun _ _ => rfl) ?_ hself
    have hsettled := hfed.settled row.id (feed row step ready)
      (((touches_fed e row l forwardId step ready).rows row.id).trans (if_pos rfl))
      (mem_keys_of_get? hsome) fun hmem' => by
        obtain ⟨p, hp, he⟩ := mem_map.mp hmem'
        exact ((hmem p).mp hp).2 he
    -- the emitted token lies behind what is consumed
    refine hsettled.trans (congrArg φ ?_)
    have happ : (emitToken (feed row step ready) token ready).history =
        (feed row step ready).history ++ [token] := by
      simp [emitToken, Sequence.history]
    rw [happ]
    exact (take_append_of_le_length hfits).symm
  rcases committed_cases S e row l forwardId step token ready clock with
    ⟨reason, -, -, hc⟩ | ⟨-, hc⟩ | ⟨-, -, hc⟩ | ⟨-, reason, -, hc⟩
  all_goals rw [hc]
  · exact Tracked.finished hX hfed (feed row step ready) reason none clock hself
  · exact hfed
  · exact htoken
  · exact Tracked.finished hX htoken (emitToken (feed row step ready) token ready) reason none clock
      hself

theorem Tracked.act {s s' : Ledger σ} (hI : Inv S s) (hact : Act S s s') (h : Tracked view φ s) :
    Tracked view φ s' := by
  have hnil : ∀ id : String, ∀ p : Step × Token, p ∈ [] ↔ p ∈ [] ∧ p.1.requestId ≠ id := by simp
  -- a row that was not there holds no lease
  have hfresh : ∀ {e : Engine σ} {s : Submission}, Inv S (e, []) → s.id ∉ e.rows.keys →
      e.kv.leases.get? s.id = none := by
    intro e s hI fresh
    rw [Option.eq_none_iff_forall_ne_some]
    intro l hl
    obtain ⟨row, hrow⟩ := hI.leased hl
    exact fresh (mem_keys_of_get? hrow)
  have haccept : ∀ {e : Engine σ} {s : Submission}, Inv S (e, []) → s.id ∉ e.rows.keys →
      Tracked view φ (e, []) → Tracked view φ (e.accepted (.ofSubmission s), []) := by
    intro e s hI fresh h
    have ht := touches_accepted e (.ofSubmission s)
    rw [show (Sequence.ofSubmission s).id = s.id from rfl, hfresh hI fresh] at ht
    exact h.touches ht (fun _ _ => rfl)
      (h.resting s.id ((get?_eq_none_iff _).mp (hfresh hI fresh))) (hnil _)
  cases hact with
  | note notes => exact h.congr notes.rows notes.kv (by rw [notes.executor])
  | accept fresh fits => exact haccept hI fresh h
  | reject fresh error now =>
    exact Tracked.finished hX (haccept hI fresh h) _ _ _ _ (hnil _)
  | finish => exact Tracked.finished hX h _ _ _ _ (hnil _)
  | @preempt e victim hrow hactive hchunked =>
    obtain ⟨hself, hother⟩ := hX.released h.resting victim .preempted
    exact h.touches (touches_preempted S e victim) hother hself (hnil _)
  | @admission e e' row lease now hrow hwaiting hcap admits =>
    refine h.touches admits.touches (fun _ _ => by rw [admits.executor]) ?_ (hnil _)
    have hzero : row.consumed = 0 := (hI.rowInv hrow).waiting hwaiting
    rw [admits.executor, Option.isSome_some, activated, hzero]
    refine h.resting row.id fun hmem => ?_
    obtain ⟨row', hrow', hactive⟩ := hI.mem_leases_iff.mp hmem
    cases hrow.symm.trans hrow'
    rw [hwaiting] at hactive
    cases hactive
  | prepare hsteps => exact h.congr rfl rfl (hX.prepare _ _)
  | execute hsteps executed notes =>
    exact (Tracked.execute hX hI h hsteps executed).congr notes.rows notes.kv
      (by rw [notes.executor])
  | commit hrow hlease forwardId ready clock =>
    exact Tracked.commit hX hI h hrow _ forwardId ready clock

/-- **What the executor holds**: in every reachable configuration the executor is where the
engine believes it is. -/
theorem reachable_tracked {x : σ} (hx : ∀ id, view x id = φ []) {c : Config σ}
    (h : (S.machine x).Reachable c) : Tracked view φ (c.engine, c.point.pending) :=
  reachable_invariant (P := Tracked view φ)
    ⟨fun id _ => hx id, (fun _ _ h => by cases h), (fun _ h => by cases h)⟩
    (fun _ _ hI hact => Tracked.act hX hI hact) h

end

/-! ### Properties of the executor alone -/

/-- `P` is kept by everything the engine asks of the executor. -/
structure Keeps (X : Executor σ) (P : σ → Prop) : Prop where
  prepare : ∀ {x} steps, P x → P (X.prepare x steps).2
  release : ∀ {x} id, P x → P (X.release x id)
  execute : ∀ {x x' : σ} {steps : List Step} {forwardId : String} {tokens : List Token},
    X.execute x steps forwardId = .ok (tokens, x') → (steps.map Step.requestId).Nodup → P x → P x'

section

variable {P : σ → Prop} (hX : Keeps S.executor P)

include hX

theorem Keeps.released (h : P e.executor)
    (row : Sequence) (cause : ReleaseCause) : P (e.released S row cause).executor := by
  rw [Engine.released]
  split_ifs
  · exact hX.release row.id h
  · exact h

theorem Keeps.finished (h : P e.executor) (row : Sequence)
    (reason : Reason) (error : Option String) (now : ℚ) :
    P (e.finished S row reason error now).executor :=
  hX.released (e := e.setRow (ended row reason error now)) h row (.finished reason)

theorem Keeps.act {s s' : Ledger σ} (hact : Act S s s') (h : P s.1.executor) : P s'.1.executor := by
  cases hact with
  | note notes =>
    rw [notes.executor]
    exact h
  | accept => exact h
  | @reject e s fresh error now =>
    exact hX.finished (e := e.accepted (.ofSubmission s)) h (.ofSubmission s) .rejected (some error) now
  | @finish e row _ _ reason _ error now => exact hX.finished (e := e) h row reason error now
  | @preempt e victim => exact hX.released (e := e) h victim .preempted
  | admission hrow hwaiting hcap admits =>
    rw [admits.executor]
    exact h
  | prepare => exact hX.prepare _ h
  | execute hsteps executed notes =>
    rw [notes.executor]
    exact hX.execute executed hsteps.nodup h
  | @commit e row lease step token pending hrow hlease forwardId ready clock =>
    have hfed : P (e.fed row lease forwardId step ready).executor := h
    have htoken : P ((e.fed row lease forwardId step ready).tokened (feed row step ready) forwardId
      token ready).executor := h
    rcases committed_cases S e row lease forwardId step token ready clock with
      ⟨reason, -, -, hc⟩ | ⟨-, hc⟩ | ⟨-, -, hc⟩ | ⟨-, reason, -, hc⟩
    all_goals simp only [hc]
    · exact hX.finished hfed (feed row step ready) reason none clock
    · exact hfed
    · exact htoken
    · exact hX.finished htoken (emitToken (feed row step ready) token ready) reason none clock

theorem reachable_keeps {x : σ} (hx : P x) {c : Config σ}
    (h : (S.machine x).Reachable c) : P c.engine.executor :=
  reachable_invariant (P := fun s => P s.1.executor) hx (fun _ _ _ hact => hX.act hact) h

end

end Hqsb
