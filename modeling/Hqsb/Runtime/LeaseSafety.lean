/-
Hqsb/Runtime/LeaseSafety.lean

Safety of the KV leases over whole runs.

That a lease exists exactly while its row is active, with the right capacity and
valid length, is the engine invariant read off.  That a generation is never
issued twice is about the log: `Issued` says that the generations of the
`kv.reserve` events grow, that the manager's counter bounds them and that each
lease held now was issued to its holder by one of them.
-/
import Hqsb.Runtime.EngineRuns

namespace Hqsb

open Lib Engine List

variable {σ : Type} {S : Session σ}

/-! ### Generations in the log -/

/-- The row and the generation of a `kv.reserve` event. -/
def Event.issue : Event → Option (String × Nat)
  | .kvReserve requestId generation _ _ => some (requestId, generation)
  | _ => none

/-- The generations issued so far, oldest first. -/
def issued (e : Engine σ) : List (String × Nat) := e.events.filterMap Event.issue

structure Issued (s : Ledger σ) : Prop where
  increasing : (issued s.1).Pairwise fun a b => a.2 < b.2
  bound : ∀ p ∈ issued s.1, p.2 ≤ s.1.kv.generation
  held : ∀ {id lease}, s.1.kv.leases.get? id = some lease → (id, lease.generation) ∈ issued s.1

/-- `e'` issued nothing and holds only leases of `e`. -/
structure KeepsLeases (e e' : Engine σ) : Prop where
  issued : issued e' = issued e
  generation : e'.kv.generation = e.kv.generation
  held : ∀ {id lease}, e'.kv.leases.get? id = some lease →
    ∃ lease', e.kv.leases.get? id = some lease' ∧ lease'.generation = lease.generation

variable {e e' : Engine σ} {new : List Event} {lease : Lease} {row : Sequence}

theorem KeepsLeases.trans {e'' : Engine σ} (h : KeepsLeases e e') (h' : KeepsLeases e' e'') :
    KeepsLeases e e'' where
  issued := h'.issued.trans h.issued
  generation := h'.generation.trans h.generation
  held hl := by
    obtain ⟨l', hl', he'⟩ := h'.held hl
    obtain ⟨l, hl, he⟩ := h.held hl'
    exact ⟨l, hl, he.trans he'⟩

theorem issued_append (he : e'.events = e.events ++ new) (hnew : ∀ ev ∈ new, ev.issue = none) :
    issued e' = issued e := by
  rw [issued, he, filterMap_append, filterMap_eq_nil_iff.mpr hnew, append_nil]
  rfl

/-- What only writes to the log, no reservation among it, keeps the leases. -/
theorem keepsLeases_of_kv (hkv : e'.kv = e.kv) (he : e'.events = e.events ++ new)
    (hnew : ∀ ev ∈ new, ev.issue = none) : KeepsLeases e e' where
  issued := issued_append he hnew
  generation := by rw [hkv]
  held hl := ⟨_, by rw [← hkv]; exact hl, rfl⟩

theorem keepsLeases_of_erase (id : String) (hgen : e'.kv.generation = e.kv.generation)
    (hkv : e'.kv.leases = e.kv.leases.erase id) (he : e'.events = e.events ++ new)
    (hnew : ∀ ev ∈ new, ev.issue = none) : KeepsLeases e e' where
  issued := issued_append he hnew
  generation := hgen
  held hl := by
    rw [hkv, OrderedDict.get?_erase] at hl
    split_ifs at hl
    exact ⟨_, hl, rfl⟩

theorem issue_note {ev : Event} (h : ev.isNote) : ev.issue = none := by
  cases ev <;> first | rfl | cases h

theorem issue_releaseEvents (e : Engine σ) (id : String) (cause : ReleaseCause) :
    ∀ ev ∈ e.releaseEvents id cause, ev.issue = none := by
  rw [releaseEvents]
  split <;> simp [Event.issue]

theorem keepsLeases_finished (e : Engine σ) (row : Sequence) (reason : Reason)
    (error : Option String) (now : ℚ) : KeepsLeases e (e.finished S row reason error now) := by
  refine keepsLeases_of_erase row.id rfl rfl (finished_events S e row reason error now) ?_
  intro ev hev
  rcases mem_append.mp hev with hev | hev
  · exact issue_releaseEvents e row.id _ ev hev
  · obtain rfl := mem_singleton.mp hev
    rfl

theorem keepsLeases_accepted (e : Engine σ) (row : Sequence) : KeepsLeases e (e.accepted row) :=
  keepsLeases_of_kv rfl rfl (by simp [Event.issue])

theorem keepsLeases_fed (forwardId : String) (step : Step) (ready : ℚ)
    (h : e.kv.leases.get? row.id = some lease) :
    KeepsLeases e (e.fed row lease forwardId step ready) where
  issued := issued_append rfl (by simp [Event.issue])
  generation := rfl
  held {id l} hl := by
    rw [(touches_fed e row lease forwardId step ready).leases] at hl
    split_ifs at hl with hid
    · cases hl
      rw [hid]
      exact ⟨lease, h, rfl⟩
    · exact ⟨l, hl, rfl⟩

theorem keepsLeases_committed (forwardId : String) (step : Step) (token : Token) (ready clock : ℚ)
    (h : e.kv.leases.get? row.id = some lease) :
    KeepsLeases e (e.committed S row lease forwardId step token ready clock) := by
  have hfed := keepsLeases_fed forwardId step ready h
  have htoken : KeepsLeases (e.fed row lease forwardId step ready)
      ((e.fed row lease forwardId step ready).tokened (feed row step ready) forwardId token ready) :=
    keepsLeases_of_kv rfl rfl (by simp [Event.issue])
  rcases committed_cases S e row lease forwardId step token ready clock with
    ⟨reason, -, -, h⟩ | ⟨-, h⟩ | ⟨-, -, h⟩ | ⟨-, reason, -, h⟩
  all_goals rw [h]
  · exact hfed.trans (keepsLeases_finished _ _ _ _ _)
  · exact hfed
  · exact hfed.trans htoken
  · exact (hfed.trans htoken).trans (keepsLeases_finished _ _ _ _ _)

theorem Issued.keeps {s : Ledger σ} (s' : Ledger σ) (h : Issued s) (hk : KeepsLeases s.1 s'.1) : Issued s' where
  increasing := by rw [hk.issued]; exact h.increasing
  bound := by rw [hk.issued, hk.generation]; exact h.bound
  held hl := by
    obtain ⟨l, hl, he⟩ := hk.held hl
    rw [hk.issued, ← he]
    exact h.held hl

theorem Issued.admission {now : ℚ} (h : Issued (e, [])) (admits : Admits e e' row lease now) :
    Issued (e', []) := by
  have hissued : issued e' = issued e ++ [(row.id, lease.generation)] := by
    rw [issued, admits.events, filterMap_append]
    rfl
  have hgen : lease.generation = e.kv.generation + 1 := by rw [admits.lease_eq]
  refine ⟨?_, fun p hp => ?_, fun {id l} hl => ?_⟩
  · rw [hissued]
    refine pairwise_append.mpr ⟨h.increasing, pairwise_singleton _ _, fun p hp q hq => ?_⟩
    obtain rfl := mem_singleton.mp hq
    have := h.bound p hp
    simp only [hgen] at this ⊢
    omega
  · simp only [hissued, admits.generation] at hp ⊢
    rcases mem_append.mp hp with hp | hp
    · exact Nat.le_succ_of_le (h.bound p hp)
    · obtain rfl := mem_singleton.mp hp
      exact hgen.le
  · simp only [hissued, admits.touches.leases] at hl ⊢
    split_ifs at hl with hid
    · cases hl
      rw [hid]
      exact mem_append_right _ (mem_singleton_self _)
    · exact mem_append_left _ (h.held hl)

theorem Issued.act {s s' : Ledger σ} (hI : Inv S s) (hact : Act S s s') (h : Issued s) :
    Issued s' := by
  cases hact with
  | @note e e' pending notes =>
    obtain ⟨new, he, hnew⟩ := notes.events
    exact h.keeps _ (keepsLeases_of_kv notes.kv he fun ev hev => issue_note (hnew ev hev))
  | accept => exact h.keeps _ (keepsLeases_accepted _ _)
  | reject => exact h.keeps _ ((keepsLeases_accepted _ _).trans (keepsLeases_finished _ _ _ _ _))
  | finish => exact h.keeps _ (keepsLeases_finished _ _ _ _ _)
  | @preempt e victim =>
    refine h.keeps _ (keepsLeases_of_erase victim.id rfl rfl (append_assoc _ _ _) ?_)
    intro ev hev
    rcases mem_append.mp hev with hev | hev
    · exact issue_releaseEvents e victim.id _ ev hev
    · obtain rfl := mem_singleton.mp hev
      rfl
  | admission hrow hwaiting hcap admits => exact h.admission admits
  | @prepare e steps hsteps =>
    exact h.keeps _ (keepsLeases_of_kv rfl (append_nil _).symm (by simp))
  | @execute e e' steps forwardId tokens x hsteps executed notes =>
    obtain ⟨new, he, hnew⟩ := notes.events
    exact Issued.keeps (e', _) h (keepsLeases_of_kv notes.kv he fun ev hev => issue_note (hnew ev hev))
  | @commit e row lease step token pending hrow hlease forwardId ready clock =>
    refine h.keeps _ (keepsLeases_committed forwardId step token ready clock ?_)
    rw [hI.row_id hrow]
    exact hlease

theorem reachable_issued {x : σ} {c : Config σ} (h : (S.machine x).Reachable c) :
    Issued (c.engine, c.point.pending) :=
  reachable_invariant (P := Issued) ⟨List.Pairwise.nil, by simp [issued, Session.start],
    fun h => by cases h⟩ (fun _ _ hI hact => Issued.act hI hact) h

/-! ### The leases of a run -/

/-- What the leases of a configuration satisfy. -/
structure LeaseSafe (S : Session σ) (c : Config σ) : Prop where
  /-- A row holds a lease exactly while it is active, and only rows do. -/
  active_iff : ∀ id, id ∈ c.engine.kv.leases.keys ↔
    ∃ row, c.engine.rows.get? id = some row ∧ row.state = .active
  capacity : ∀ id row lease, c.engine.rows.get? id = some row →
    c.engine.kv.leases.get? id = some lease → lease.capacity = row.inputIds.length + row.limit - 1
  valid : ∀ id row lease, c.engine.rows.get? id = some row →
    c.engine.kv.leases.get? id = some lease → lease.valid = row.consumed ∧
      row.consumed ≤ row.history.length ∧ row.consumed ≤ lease.capacity
  reserved_le : c.engine.kv.reserved ≤ S.limits.kvCapacityTokens
  /-- Each reservation gets a generation above all before it. -/
  fresh : (issued c.engine).Pairwise fun a b => a.2 < b.2
  /-- Every lease is the one a reservation issued to its row. -/
  held : ∀ id lease, c.engine.kv.leases.get? id = some lease →
    (id, lease.generation) ∈ issued c.engine
  /-- The manager raises nothing, and there is no lease leak. -/
  raised : ∀ error, c.point = .raised error →
    error = .schedulerNoProgress ∨ ∃ message, error = .executor message
  returned : ∀ rows, c.point = .returned rows → c.engine.kv.leases.keys = []

/-- **Lease safety**: whatever arrives, whatever is cancelled, refused or preempted. -/
theorem leases_safe (S : Session σ) (x : σ) (readings : List Reading) :
    LeaseSafe S ((S.machine x).run readings) := by
  have hr := Machine.reachable_run (m := S.machine x) readings
  generalize (S.machine x).run readings = c at hr
  obtain ⟨hI, hP⟩ := reachable_inv hr
  have hissued := reachable_issued hr
  have hlease : ∀ {id row lease}, c.engine.rows.get? id = some row →
      c.engine.kv.leases.get? id = some lease → RowInv S.limits row (some lease) := by
    intro id row lease hrow hl
    rw [← hl]
    exact hI.rowInv hrow
  refine ⟨fun id => hI.mem_leases_iff, ?_, ?_, ?_, hissued.increasing, fun id lease => hissued.held,
    ?_, ?_⟩
  · intro id row lease hrow hl
    exact ((hlease hrow hl).lease_eq lease rfl).1
  · intro id row lease hrow hl
    have hinv := hlease hrow hl
    exact ⟨(hinv.lease_eq lease rfl).2, hinv.consumed_le, hinv.consumed_le_capacity⟩
  · rw [← hI.capacity]
    exact hI.wf.reserved_le
  · intro error hpoint
    rw [hpoint] at hP
    exact hP
  · intro rows hpoint
    rw [hpoint] at hP
    exact hP.2.1

end Hqsb
