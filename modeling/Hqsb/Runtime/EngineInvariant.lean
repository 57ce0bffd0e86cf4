/-
Hqsb/Runtime/EngineInvariant.lean

What every step of the live engine can do to its rows, leases and executor, and
the invariant all of it keeps.

`Act` lists the changes: a row is taken in, rejected or ended, preempted or
admitted, a list of steps is prepared or executed, one executed step is
committed.  Each comes with what holds where the engine makes it.  `step_moves`
is the inversion of the machine: one step of `run` is a sequence of acts, and
the only errors it can raise are the progress error and the executor's own.
A property is then shown invariant by going through the acts
(`reachable_invariant`), never through `run` again.

The state of a ledger is the engine together with the executed steps whose
results are still to be committed.
-/
import Hqsb.Lib.Zip
import Hqsb.Runtime.EngineMethods

namespace Hqsb

open Lib Engine List

/-! ### One row -/

structure RowBounds (row : Sequence) : Prop where
  inputIds_ne : row.inputIds ≠ []
  limit_pos : 1 ≤ row.limit
  output_le : row.output.length ≤ row.limit
  consumed_le : row.consumed ≤ row.history.length

/-- A row and its lease agree: the lease is there exactly while the row is active, reserves
the row's whole life and is valid up to what the row consumed. -/
structure RowInv (limits : SchedulingLimits) (row : Sequence) (lease : Option Lease) : Prop
    extends RowBounds row where
  output_lt : row.state ≠ .terminal → row.output.length < row.limit
  consumed_lt : row.state ≠ .terminal → row.consumed < row.history.length
  active_iff : row.state = .active ↔ lease.isSome
  lease_eq : ∀ l, lease = some l → l.capacity = row.needed ∧ l.valid = row.consumed
  waiting : row.state = .waiting → row.consumed = 0
  fits : row.state ≠ .terminal → limits.chunkedPrefill = false →
    remaining row ≤ limits.maxBatchedTokens

section Row

variable {limits : SchedulingLimits} {row : Sequence} {lease : Option Lease}

theorem RowInv.plannable (h : RowInv limits row lease) (hlive : row.state ≠ .terminal) :
    Plannable limits row := by
  have := h.consumed_lt hlive
  exact ⟨by rw [remaining]; omega, h.fits hlive⟩

theorem RowBounds.ended (h : RowBounds row) (reason : Reason) (error : Option String) (now : ℚ) :
    RowInv limits (ended row reason error now) none :=
  { h with
    output_lt hl := absurd rfl hl
    consumed_lt hl := absurd rfl hl
    active_iff := by simp [Engine.ended]
    lease_eq := by simp
    waiting h := by cases h
    fits hl := absurd rfl hl }

theorem rowBounds_ofSubmission (s : Submission) : RowBounds (.ofSubmission s) where
  inputIds_ne := s.inputIds_ne
  limit_pos := s.limit_pos
  output_le := Nat.zero_le _
  consumed_le := Nat.zero_le _

/-- A submission that `accept` does not reject becomes a waiting row. -/
theorem rowInv_ofSubmission {σ : Type} {S : Session σ} {kv : KVManager} {s : Submission}
    (h : rejection S kv (.ofSubmission s) = none) : RowInv S.limits (.ofSubmission s) none where
  toRowBounds := rowBounds_ofSubmission s
  output_lt _ := s.limit_pos
  consumed_lt _ := by
    rw [Sequence.length_history]
    exact Nat.add_pos_left (length_pos_iff.mpr s.inputIds_ne) _
  active_iff := by simp [Sequence.ofSubmission]
  lease_eq := by simp
  waiting _ := rfl
  fits _ hc := by
    have hrem : remaining (.ofSubmission s) = s.inputIds.length := by
      simp [remaining, Sequence.history, Sequence.ofSubmission]
    rw [hrem]
    by_contra hlt
    rw [rejection] at h
    split_ifs at h with h1 h2
    exact h2 ⟨hc, Nat.lt_of_not_le hlt⟩

/-- A preempted row waits again, with nothing consumed. -/
theorem RowInv.evicted (h : RowInv limits row lease) (hactive : row.state = .active)
    (hchunked : limits.chunkedPrefill = true) : RowInv limits (evicted row) none :=
  { h with
    consumed_le := Nat.zero_le _
    output_lt _ := h.output_lt (by rw [hactive]; decide)
    consumed_lt _ := by
      show 0 < row.history.length
      rw [Sequence.length_history]
      exact Nat.add_pos_left (length_pos_iff.mpr h.inputIds_ne) _
    active_iff := by simp [Engine.evicted]
    lease_eq := by simp
    waiting _ := rfl
    fits _ hc := by rw [hchunked] at hc; cases hc }

/-- An admitted row holds a fresh lease for its whole life. -/
theorem RowInv.activated (h : RowInv limits row none) (hwaiting : row.state = .waiting)
    (generation : Nat) (now : ℚ) :
    RowInv limits (activated row now) (some { generation := generation, capacity := row.needed }) :=
  { h with
    output_lt _ := h.output_lt (by rw [hwaiting]; decide)
    consumed_lt _ := h.consumed_lt (by rw [hwaiting]; decide)
    active_iff := by simp [Engine.activated]
    lease_eq := by
      intro l hl
      cases hl
      exact ⟨rfl, (h.waiting hwaiting).symm⟩
    waiting h := by cases h
    fits _ := h.fits (by rw [hwaiting]; decide) }

variable {l : Lease} {step : Step}

theorem RowBounds.feed (h : RowBounds row) (hs : StepOf row step) (ready : ℚ) :
    RowBounds (feed row step ready) :=
  { h with consumed_le := (congrArg (· + _) hs.start).symm.trans_le hs.fits }

theorem length_history_emitToken (row : Sequence) (token : Token) (ready : ℚ) :
    (emitToken row token ready).history.length = row.history.length + 1 := by
  simp [emitToken, Sequence.history, add_assoc]

theorem RowBounds.emitToken (h : RowBounds row) (hlt : row.output.length < row.limit)
    (token : Token) (ready : ℚ) : RowBounds (emitToken row token ready) :=
  { h with
    output_le := by simpa [Engine.emitToken] using Nat.succ_le_of_lt hlt
    consumed_le := by
      rw [length_history_emitToken]
      exact Nat.le_succ_of_le h.consumed_le }

theorem RowInv.consumed_le_capacity (h : RowInv limits row (some l)) : row.consumed ≤ l.capacity := by
  have hactive : row.state = .active := h.active_iff.mpr rfl
  have hlt := h.consumed_lt (by rw [hactive]; decide)
  have hout := h.output_lt (by rw [hactive]; decide)
  rw [Sequence.length_history] at hlt
  rw [(h.lease_eq l rfl).1, Sequence.needed]
  omega

section

variable (h : RowInv limits row (some l)) (hs : StepOf row step)

include h hs

theorem RowInv.commit_le :
    l.valid ≤ row.consumed + step.tokenIds.length ∧
      row.consumed + step.tokenIds.length ≤ l.capacity := by
  obtain ⟨hcap, hvalid⟩ := h.lease_eq l rfl
  have hactive : row.state = .active := h.active_iff.mpr rfl
  have hlt := h.output_lt (by rw [hactive]; decide)
  have hfits := hs.fits
  rw [hs.start, Sequence.length_history] at hfits
  rw [hcap, Sequence.needed]
  omega

/-- A step that does not reach the end of the history leaves the row going. -/
theorem RowInv.feed
    (hemit : step.emit = false) (ready : ℚ) :
    RowInv limits (feed row step ready) (some (advanced l (Engine.feed row step ready))) where
  toRowBounds := h.toRowBounds.feed hs ready
  output_lt := h.output_lt
  consumed_lt _ := by
    have hfits := hs.fits
    have hne := hs.emit
    rw [hemit, eq_comm, decide_eq_false_iff_not] at hne
    rw [hs.start] at hfits hne
    exact lt_of_le_of_ne hfits hne
  active_iff := h.active_iff.trans (by simp)
  lease_eq := by
    intro l' hl
    cases hl
    exact ⟨(h.lease_eq l rfl).1, rfl⟩
  waiting hw := by
    have : row.state = .active := h.active_iff.mpr rfl
    cases this.symm.trans hw
  fits hl hc := by
    have hrem : remaining (Engine.feed row step ready) ≤ remaining row := by
      simp only [remaining, Engine.feed, Sequence.history]
      omega
    exact hrem.trans (h.fits hl hc)

/-- A step to the end of the history feeds one token back, unless the row ends. -/
theorem RowInv.feed_emit
    (hemit : step.emit = true) (token : Token) (ready : ℚ)
    (hlimit : row.output.length + 1 < row.limit) :
    RowInv limits (emitToken (Engine.feed row step ready) token ready)
      (some (advanced l (Engine.feed row step ready))) where
  toRowBounds := (h.toRowBounds.feed hs ready).emitToken
    (by exact Nat.lt_of_succ_lt hlimit) token ready
  output_lt _ := by simpa [emitToken, Engine.feed] using hlimit
  consumed_lt _ := by
    rw [length_history_emitToken]
    exact Nat.lt_succ_of_le (h.toRowBounds.feed hs ready).consumed_le
  active_iff := h.active_iff.trans (by simp)
  lease_eq := by
    intro l' hl
    cases hl
    exact ⟨(h.lease_eq l rfl).1, rfl⟩
  waiting hw := by
    have : row.state = .active := h.active_iff.mpr rfl
    cases this.symm.trans hw
  fits _ _ := by
    have hend := hs.emit
    rw [hemit, eq_comm, decide_eq_true_eq, hs.start] at hend
    have hrem : remaining (emitToken (Engine.feed row step ready) token ready) = 1 := by
      rw [remaining, length_history_emitToken]
      show row.history.length + 1 - (row.consumed + step.tokenIds.length) = 1
      omega
    rw [hrem]
    exact limits.maxBatchedTokens_mem.1

end

end Row

/-! ### What a step of the engine can do -/

section

variable {σ : Type} (S : Session σ)

/-- Steps of distinct active rows, each one feeding something. -/
structure StepsFor (e : Engine σ) (steps : List Step) : Prop where
  nodup : (steps.map Step.requestId).Nodup
  row : ∀ s ∈ steps, ∃ row, e.rows.get? s.requestId = some row ∧ row.state = .active ∧
    StepOf row s ∧ 0 < s.tokenIds.length

/-- An event that tells nothing about the progress of a request. -/
def Event.isNote : Event → Bool
  | .requestRefused _ | .controlRefused _ | .schedulerPlan .. | .forward .. => true
  | _ => false

/-- `e'` is `e` up to counters, service shares, joins and notes in the log. -/
structure Notes (e e' : Engine σ) : Prop where
  executor : e'.executor = e.executor
  rows : e'.rows = e.rows
  kv : e'.kv = e.kv
  events : ∃ notes, e'.events = e.events ++ notes ∧ ∀ ev ∈ notes, ev.isNote

theorem Notes.event (e : Engine σ) {ev : Event} (h : ev.isNote) : Notes e (e.event ev) :=
  ⟨rfl, rfl, rfl, [ev], rfl, by simpa using h⟩

/-- The engine with the executed steps whose results are still to be committed. -/
abbrev Ledger (σ : Type) := Engine σ × List (Step × Token)

/-- The changes of the ledger, each with what holds where the engine makes it. -/
inductive Act : Ledger σ → Ledger σ → Prop
  | note {e e' : Engine σ} {pending : List (Step × Token)} (notes : Notes e e') :
      Act (e, pending) (e', pending)
  | accept {e : Engine σ} {s : Submission} (fresh : s.id ∉ e.rows.keys)
      (fits : rejection S e.kv (.ofSubmission s) = none) :
      Act (e, []) (e.accepted (.ofSubmission s), [])
  | reject {e : Engine σ} {s : Submission} (fresh : s.id ∉ e.rows.keys) (error : String) (now : ℚ) :
      Act (e, []) ((e.accepted (.ofSubmission s)).finished S (.ofSubmission s) .rejected
        (some error) now, [])
  | finish {e : Engine σ} {row : Sequence} (hrow : e.rows.get? row.id = some row)
      (hlive : row.state ≠ .terminal) {reason : Reason} (forced : reason ≠ .length ∧ reason ≠ .stop)
      (error : Option String) (now : ℚ) :
      Act (e, []) (e.finished S row reason error now, [])
  | preempt {e : Engine σ} {victim : Sequence} (hrow : e.rows.get? victim.id = some victim)
      (hactive : victim.state = .active) (hchunked : S.limits.chunkedPrefill = true) :
      Act (e, []) (e.preempted S victim, [])
  | admission {e e' : Engine σ} {row : Sequence} {lease : Lease} {now : ℚ}
      (hrow : e.rows.get? row.id = some row) (hwaiting : row.state = .waiting)
      (hcap : e.kv.leases.keys.length < S.cap) (admits : Admits e e' row lease now) :
      Act (e, []) (e', [])
  | prepare {e : Engine σ} {steps : List Step} (hsteps : StepsFor e steps) :
      Act (e, []) ({ e with executor := (S.executor.prepare e.executor steps).2 }, [])
  | execute {e e' : Engine σ} {steps : List Step} {forwardId : String} {tokens : List Token} {x : σ}
      (hsteps : StepsFor e steps)
      (executed : S.executor.execute e.executor steps forwardId = .ok (tokens, x))
      (notes : Notes { e with executor := x } e') :
      Act (e, []) (e', steps.zip tokens)
  | commit {e : Engine σ} {row : Sequence} {lease : Lease} {step : Step} {token : Token}
      {pending : List (Step × Token)} (hrow : e.rows.get? step.requestId = some row)
      (hlease : e.kv.leases.get? step.requestId = some lease) (forwardId : String)
      (ready clock : ℚ) :
      Act (e, (step, token) :: pending)
        (e.committed S row lease forwardId step token ready clock, pending)

theorem committed_cases (e : Engine σ) (row : Sequence) (lease : Lease) (forwardId : String)
    (step : Step) (token : Token) (ready clock : ℚ) :
    let fed := e.fed row lease forwardId step ready
    let row' := feed row step ready
    let last := emitToken row' token ready
    (∃ reason, (reason = .timedOut ∨ reason = .cancelled) ∧
      (row.deadline ≤ ready ∨ cancelDue row ready) ∧
      e.committed S row lease forwardId step token ready clock =
        fed.finished S row' reason none clock) ∨
    (step.emit = false ∧ e.committed S row lease forwardId step token ready clock = fed) ∨
    (step.emit = true ∧ endReason S last token = none ∧
      e.committed S row lease forwardId step token ready clock =
        fed.tokened row' forwardId token ready) ∨
    (step.emit = true ∧ ∃ reason, endReason S last token = some reason ∧
      e.committed S row lease forwardId step token ready clock =
        (fed.tokened row' forwardId token ready).finished S last reason none clock) := by
  simp only [committed]
  split_ifs with hdue hlate hemit
  · exact .inl ⟨_, .inl rfl, hdue, rfl⟩
  · exact .inl ⟨_, .inr rfl, hdue, rfl⟩
  · rcases hend : endReason S (emitToken (feed row step ready) token ready) token with - | reason
    · exact .inr (.inr (.inl ⟨hemit, rfl, rfl⟩))
    · exact .inr (.inr (.inr ⟨hemit, reason, rfl, rfl⟩))
  · exact .inr (.inl ⟨by simpa using hemit, rfl⟩)

/-! ### The invariant -/

/-- Rows and leases agree, the reservations fit, and the pending steps continue their rows. -/
structure Inv (s : Ledger σ) : Prop where
  wf : s.1.kv.Wf
  capacity : s.1.kv.capacity = S.limits.kvCapacityTokens
  row : ∀ {id row}, s.1.rows.get? id = some row →
    row.id = id ∧ RowInv S.limits row (s.1.kv.leases.get? id)
  leased : ∀ {id lease}, s.1.kv.leases.get? id = some lease → ∃ row, s.1.rows.get? id = some row
  cap : s.1.kv.leases.keys.length ≤ S.cap
  pending : StepsFor s.1 (s.2.map Prod.fst)

variable {S} {e e' : Engine σ} {row : Sequence} {lease : Option Lease}

theorem StepsFor.nil (e : Engine σ) : StepsFor e [] := ⟨nodup_nil, by simp⟩

theorem StepsFor.sublist {steps steps' : List Step} (h : StepsFor e steps)
    (hsub : steps'.Sublist steps) : StepsFor e steps' :=
  ⟨h.nodup.sublist (hsub.map _), fun s hs => h.row s (hsub.subset hs)⟩

theorem StepsFor.congr {steps : List Step} (h : StepsFor e steps) (hrows : e'.rows = e.rows) :
    StepsFor e' steps := ⟨h.nodup, fun s hs => by rw [hrows]; exact h.row s hs⟩

theorem StepsFor.touches {steps : List Step} (h : StepsFor e steps) (ht : Touches e e' row lease)
    (hid : row.id ∉ steps.map Step.requestId) : StepsFor e' steps := by
  refine ⟨h.nodup, fun s hs => ?_⟩
  have hne : s.requestId ≠ row.id := fun he => hid (he ▸ mem_map_of_mem hs)
  rw [ht.rows, if_neg hne]
  exact h.row s hs

variable {pending : List (Step × Token)} {pending' : List (Step × Token)}

/-- A row that keeps its own invariant keeps the ledger's. -/
theorem Inv.touches (hI : Inv S (e, pending)) (ht : Touches e e' row lease)
    (hrow : RowInv S.limits row lease) (hwf : e'.kv.Wf)
    (hcapacity : e'.kv.capacity = e.kv.capacity) (hcap : e'.kv.leases.keys.length ≤ S.cap)
    (hpending : StepsFor e' (pending'.map Prod.fst)) : Inv S (e', pending') where
  wf := hwf
  capacity := hcapacity.trans hI.capacity
  row {id row'} h := by
    simp only [ht.rows, ht.leases] at h ⊢
    split_ifs at h ⊢ with hid
    · cases h
      exact ⟨hid.symm, hrow⟩
    · exact hI.row h
  leased {id l} h := by
    simp only [ht.rows, ht.leases] at h ⊢
    split_ifs at h ⊢ with hid
    · exact ⟨row, rfl⟩
    · exact hI.leased h
  cap := hcap
  pending := hpending

theorem Inv.congr (e' : Engine σ) (hI : Inv S (e, pending)) (hrows : e'.rows = e.rows)
    (hkv : e'.kv = e.kv) (hpending : StepsFor e (pending'.map Prod.fst)) :
    Inv S (e', pending') where
  wf := by simp only [hkv]; exact hI.wf
  capacity := by simp only [hkv]; exact hI.capacity
  row := by simp only [hkv, hrows]; exact hI.row
  leased := by simp only [hkv, hrows]; exact hI.leased
  cap := by simp only [hkv]; exact hI.cap
  pending := hpending.congr hrows

section

variable (hI : Inv S (e, pending))

include hI

theorem Inv.row_id {id : String} (h : e.rows.get? id = some row) : row.id = id := (hI.row h).1

theorem Inv.rowInv {id : String} (h : e.rows.get? id = some row) :
    RowInv S.limits row (e.kv.leases.get? id) := (hI.row h).2

theorem Inv.cap_erase (id : String) : (e.kv.leases.erase id).keys.length ≤ S.cap :=
  (OrderedDict.keys_erase_sublist _ id).length_le.trans hI.cap

theorem Inv.finished (hrow : RowBounds row) (reason : Reason)
    (error : Option String) (now : ℚ) (hpending : StepsFor e (pending'.map Prod.fst))
    (hid : row.id ∉ (pending'.map Prod.fst).map Step.requestId) :
    Inv S (e.finished S row reason error now, pending') :=
  hI.touches (touches_finished S e row reason error now) (hrow.ended reason error now)
    (hI.wf.erase row.id) rfl (hI.cap_erase row.id)
    (hpending.touches (touches_finished S e row reason error now) hid)

theorem Inv.fed {l : Lease} (h : e.kv.leases.get? row.id = some l)
    (forwardId : String) (step : Step) (ready : ℚ) :
    (e.fed row l forwardId step ready).kv.Wf ∧
      (e.fed row l forwardId step ready).kv.leases.keys.length ≤ S.cap := by
  refine ⟨hI.wf.commit h, ?_⟩
  have hkeys := OrderedDict.keys_set_of_get? (advanced l (Engine.feed row step ready)) h
  exact (congrArg List.length hkeys).le.trans hI.cap

end

theorem Inv.act {s s' : Ledger σ} (hI : Inv S s) (h : Act S s s') : Inv S s' := by
  cases h with
  | note notes => exact hI.congr _ notes.rows notes.kv hI.pending
  | @accept e s fresh fits =>
    have hnone : e.kv.leases.get? s.id = none := by
      rw [Option.eq_none_iff_forall_ne_some]
      intro l hl
      obtain ⟨row, hrow⟩ := hI.leased hl
      exact fresh (OrderedDict.mem_keys_of_get? hrow)
    have ht := touches_accepted e (.ofSubmission s)
    rw [show (Sequence.ofSubmission s).id = s.id from rfl, hnone] at ht
    exact hI.touches ht (rowInv_ofSubmission fits) hI.wf rfl hI.cap (StepsFor.nil _)
  | @reject e s fresh error now =>
    have ht := (touches_accepted e (.ofSubmission s)).trans
      (touches_finished S _ (.ofSubmission s) .rejected (some error) now) rfl
    exact hI.touches ht ((rowBounds_ofSubmission s).ended _ _ _)
      (hI.wf.erase s.id) rfl (hI.cap_erase s.id) (StepsFor.nil _)
  | finish hrow hlive forced error now =>
    exact hI.finished (hI.rowInv hrow).toRowBounds _ _ _ (StepsFor.nil _) (by simp)
  | @preempt e victim hrow hactive hchunked =>
    exact hI.touches (touches_preempted S e victim)
      ((hI.rowInv hrow).evicted hactive hchunked) (hI.wf.erase victim.id) rfl
      (hI.cap_erase victim.id) (StepsFor.nil _)
  | @admission e e' row lease now hrow hwaiting hcap admits =>
    have hinv := hI.rowInv hrow
    have hnone : e.kv.leases.get? row.id = none := by
      rw [← Option.not_isSome_iff_eq_none, ← hinv.active_iff, hwaiting]
      decide
    rw [hnone] at hinv
    refine hI.touches admits.touches ?_ (admits.wf hI.wf) admits.capacity ?_ (StepsFor.nil _)
    · rw [admits.lease_eq]
      exact hinv.activated hwaiting _ now
    · rw [admits.keys, length_append]
      exact hcap
  | prepare hsteps => exact hI.congr _ rfl rfl (StepsFor.nil _)
  | @execute e e' steps forwardId tokens x hsteps executed notes =>
    refine hI.congr e' notes.rows notes.kv (hsteps.sublist ?_)
    exact map_fst_zip_sublist steps tokens
  | @commit e row lease step token pending hrow hlease forwardId ready clock =>
    have hid := hI.row_id hrow
    have hinv := hI.rowInv hrow
    rw [hlease] at hinv
    have hl : e.kv.leases.get? row.id = some lease := by rw [hid]; exact hlease
    obtain ⟨row', hrow', -, hstep, -⟩ := hI.pending.row step (by simp)
    cases hrow.symm.trans hrow'
    -- the row of the step is none of those still pending
    have hnodup := hI.pending.nodup
    simp only [map_cons, nodup_cons] at hnodup
    have hout : row.id ∉ (pending.map Prod.fst).map Step.requestId := by
      rw [hid]; exact hnodup.1
    have hrest : StepsFor e (pending.map Prod.fst) :=
      hI.pending.sublist (by simp only [map_cons]; exact sublist_cons_self _ _)
    have hfed := touches_fed e row lease forwardId step ready
    obtain ⟨hwf, hcap⟩ := hI.fed hl forwardId step ready
    have hcap' : ∀ id, ((e.fed row lease forwardId step ready).kv.leases.erase id).keys.length ≤
        S.cap := fun id => (OrderedDict.keys_erase_sublist _ id).length_le.trans hcap
    have hbounds := hinv.toRowBounds.feed hstep ready
    have hlt : (feed row step ready).output.length < (feed row step ready).limit :=
      hinv.output_lt (by rw [hinv.active_iff.mpr rfl]; decide)
    have htoken := hfed.trans (touches_tokened _ (feed row step ready) forwardId token ready) rfl
    rw [hfed.leases, if_pos rfl] at htoken
    rcases committed_cases S e row lease forwardId step token ready clock with
      ⟨reason, -, -, h⟩ | ⟨hemit, h⟩ | ⟨hemit, hend, h⟩ | ⟨hemit, reason, hend, h⟩
    all_goals rw [h]
    · have ht := hfed.trans (touches_finished S _ (feed row step ready) reason none clock) rfl
      exact hI.touches ht (hbounds.ended _ _ _) (hwf.erase row.id) rfl (hcap' row.id)
        (hrest.touches ht hout)
    · exact hI.touches hfed (hinv.feed hstep hemit ready) hwf rfl hcap (hrest.touches hfed hout)
    · have hlimit : row.output.length + 1 < row.limit := by
        rw [endReason] at hend
        split_ifs at hend with hle
        all_goals simpa [emitToken, Engine.feed] using hle
      exact hI.touches htoken (hinv.feed_emit hstep hemit token ready hlimit) hwf rfl hcap
        (hrest.touches htoken hout)
    · have ht := htoken.trans (touches_finished S _ (emitToken (feed row step ready) token ready)
        reason none clock) rfl
      exact hI.touches ht ((hbounds.emitToken hlt token ready).ended _ _ _) (hwf.erase row.id) rfl
        (hcap' row.id) (hrest.touches ht hout)

end

end Hqsb
