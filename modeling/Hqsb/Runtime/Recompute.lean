/-
Hqsb/Runtime/Recompute.lean

What the counter of recomputed positions says (`hqsb/runtime/live_engine.py`).

From the log of a row come the positions computed in all (`computed`), the
distinct ones (`positions`) and the prompt positions that were computed for the
first time after a release (`late`).

The counter of a preempted row grows by everything it is fed up to its target,
whether it had been computed before or not.  Hence it is too high by exactly the
late positions: `Accounted` is the account of one row, kept by every act, and
`recomputed_iff` says when the counter is right.
-/
import Hqsb.Runtime.Recording

namespace Hqsb

open Lib Engine List

/-! ### Positions of a log -/

/-- The positions that were computed at least once. -/
def positions : List Op → Finset Nat
  | [] => ∅
  | .fed start stop :: l => Finset.Ico start stop ∪ positions l
  | .released :: l => positions l

def computed : List Op → Nat
  | [] => 0
  | .fed start stop :: l => (stop - start) + computed l
  | .released :: l => computed l

/-- The log up to the first release. -/
def beforeRelease (l : List Op) : List Op := l.takeWhile (· ≠ .released)

/-- The prompt positions that were computed for the first time after a release. -/
def late (l : List Op) (prompt : Nat) : Finset Nat :=
  (positions l \ positions (beforeRelease l)).filter fun i => i < prompt

theorem positions_append (l l' : List Op) : positions (l ++ l') = positions l ∪ positions l' := by
  induction l with
  | nil => rw [nil_append, positions, Finset.empty_union]
  | cons op l ih =>
    cases op with
    | fed start stop => rw [cons_append, positions, positions, ih, Finset.union_assoc]
    | released => rw [cons_append, positions, positions, ih]

theorem computed_append (l l' : List Op) : computed (l ++ l') = computed l + computed l' := by
  induction l with
  | nil => rw [nil_append, computed, zero_add]
  | cons op l ih =>
    cases op with
    | fed start stop => rw [cons_append, computed, computed, ih, add_assoc]
    | released => rw [cons_append, computed, computed, ih]

theorem beforeRelease_of_not_mem {l : List Op} (h : .released ∉ l) : beforeRelease l = l := by
  refine takeWhile_eq_self_iff.mpr fun op hop => decide_eq_true ?_
  rintro rfl
  exact h hop

/-- What comes after a release does not count. -/
theorem beforeRelease_append {l : List Op} (h : .released ∈ l) (l' : List Op) :
    beforeRelease (l ++ l') = beforeRelease l := by
  induction l with
  | nil => cases h
  | cons op l ih =>
    cases op with
    | released => rfl
    | fed start stop =>
      rcases mem_cons.mp h with heq | hmem
      · cases heq
      · exact congrArg (_ :: ·) (ih hmem)

theorem beforeRelease_released (l : List Op) :
    beforeRelease (l ++ [Op.released]) = beforeRelease l := by
  by_cases h : .released ∈ l
  · exact beforeRelease_append h _
  · rw [beforeRelease_of_not_mem h, beforeRelease, takeWhile_append_of_pos]
    · simp
    · intro op hop
      refine decide_eq_true ?_
      rintro rfl
      exact h hop

theorem late_released (l : List Op) (prompt : Nat) :
    late (l ++ [Op.released]) prompt = late l prompt := by
  rw [late, late, beforeRelease_released, positions_append]
  simp [positions]

theorem positions_beforeRelease (l : List Op) : positions (beforeRelease l) ⊆ positions l := by
  have h := positions_append (l.takeWhile (· ≠ .released)) (l.dropWhile (· ≠ .released))
  rw [takeWhile_append_dropWhile] at h
  rw [h]
  exact Finset.subset_union_left

theorem late_of_not_mem {l : List Op} (h : .released ∉ l) (prompt : Nat) : late l prompt = ∅ := by
  rw [late, beforeRelease_of_not_mem h, Finset.sdiff_self, Finset.filter_empty]

/-! ### One row and its log -/

/-- The log of a row that goes on: a beginning of its positions was computed, up to the target if
there is output. -/
structure Covered (row : Sequence) (l : List Op) (n : Nat) : Prop where
  positions_eq : positions l = Finset.range n
  consumed_le : row.consumed ≤ n
  le_target : n ≤ row.target
  eq_target : row.output ≠ [] → n = row.target
  fresh : row.preemptions = 0 → row.consumed = n ∧ .released ∉ l
  preempted : row.preemptions ≠ 0 → .released ∈ l

/-- The counter of a row against its log. -/
structure Accounted (row : Sequence) (l : List Op) : Prop where
  count : row.recomputed + (positions l).card =
    computed l + (late l row.inputIds.length).card
  covered : row.state ≠ .terminal → ∃ n, Covered row l n

section Row

variable {row : Sequence} {l : List Op} {n : Nat} {step : Step}

theorem positions_feed (h : Covered row l n) (hs : StepOf row step) :
    positions (l ++ [step.op]) = Finset.range (max n (step.start + step.tokenIds.length)) := by
  have hstart : step.start ≤ n := hs.start ▸ h.consumed_le
  rw [positions_append, h.positions_eq, Step.op, positions, positions, Finset.union_empty]
  ext i
  simp only [Finset.mem_union, Finset.mem_range, Finset.mem_Ico]
  omega

theorem computed_feed (l : List Op) (step : Step) :
    computed (l ++ [step.op]) = computed l + step.tokenIds.length := by
  rw [computed_append, Step.op, computed, computed, Nat.add_zero, Nat.add_sub_cancel_left]

/-- After a release the new positions of the prompt are late ones. -/
theorem card_late_feed (h : Covered row l n) (hs : StepOf row step) (hmem : .released ∈ l)
    (prompt : Nat) : (late (l ++ [step.op]) prompt).card = (late l prompt).card +
      (min (max n (step.start + step.tokenIds.length)) prompt - n) := by
  have hbefore := positions_beforeRelease l
  rw [h.positions_eq] at hbefore
  have hsplit : late (l ++ [step.op]) prompt = late l prompt ∪
      Finset.Ico n (min (max n (step.start + step.tokenIds.length)) prompt) := by
    rw [late, late, beforeRelease_append hmem, positions_feed h hs, h.positions_eq]
    ext i
    have hout := @hbefore i
    simp only [Finset.mem_union, Finset.mem_filter, Finset.mem_sdiff, Finset.mem_range,
      Finset.mem_Ico, lt_min_iff, lt_max_iff] at hout ⊢
    constructor
    · rintro ⟨⟨hi, hnot⟩, hprompt⟩
      by_cases hlt : i < n
      · exact .inl ⟨⟨hlt, hnot⟩, hprompt⟩
      · exact .inr ⟨not_lt.mp hlt, hi, hprompt⟩
    · rintro (⟨⟨hi, hnot⟩, hprompt⟩ | ⟨hle, hi, hprompt⟩)
      · exact ⟨⟨.inl hi, hnot⟩, hprompt⟩
      · exact ⟨⟨hi, fun hin => absurd (hout hin) (not_lt.mpr hle)⟩, hprompt⟩
  rw [hsplit, Finset.card_union_of_disjoint, Nat.card_Ico]
  refine Finset.disjoint_left.mpr fun i hi hi' => ?_
  rw [late, h.positions_eq] at hi
  rw [Finset.mem_filter, Finset.mem_sdiff, Finset.mem_range] at hi
  exact absurd hi.1.1 (not_lt.mpr (Finset.mem_Ico.mp hi').1)

/-- **One step of a row**: the counter misses nothing, and counts the late positions besides. -/
theorem Accounted.count_feed (h : Accounted row l) (hn : Covered row l n) (hs : StepOf row step)
    (ready : ℚ) : (feed row step ready).recomputed + (positions (l ++ [step.op])).card =
      computed (l ++ [step.op]) +
        (late (l ++ [step.op]) (feed row step ready).inputIds.length).card := by
  have hcount := h.count
  have hstart := hs.start
  have hfits := hs.fits
  have hle := hn.consumed_le
  rw [hn.positions_eq, Finset.card_range] at hcount
  rw [Sequence.length_history] at hfits
  rw [positions_feed hn hs, Finset.card_range, computed_feed]
  by_cases hpre : row.preemptions = 0
  · -- everything that is fed is new, and nothing is late
    obtain ⟨hconsumed, hnot⟩ := hn.fresh hpre
    have hnot' : .released ∉ l ++ [step.op] := by
      rw [mem_append, not_or]
      exact ⟨hnot, fun hmem => nomatch mem_singleton.mp hmem⟩
    rw [late_of_not_mem hnot, Finset.card_empty] at hcount
    rw [late_of_not_mem hnot', Finset.card_empty]
    have hrec : (feed row step ready).recomputed = row.recomputed := by
      simp [feed, hpre]
    omega
  · have hrec : (feed row step ready).recomputed = row.recomputed +
        (min (step.start + step.tokenIds.length) row.target - step.start) := by
      simp [feed, hpre]
    have hlate := card_late_feed hn hs (hn.preempted hpre) row.inputIds.length
    show (feed row step ready).recomputed + _ = _ + (late _ row.inputIds.length).card
    have htargetEq : row.target = row.inputIds.length + (row.output.length - 1) := rfl
    by_cases hout : row.output = []
    · rw [hout] at hfits htargetEq
      simp only [length_nil] at hfits htargetEq
      omega
    · have heq := hn.eq_target hout
      omega

/-- A step that does not reach the end of the history. -/
theorem Covered.feed (h : Covered row l n) (hs : StepOf row step)
    (hend : step.start + step.tokenIds.length ≠ row.history.length) (ready : ℚ) :
    Covered (feed row step ready) (l ++ [step.op])
      (max n (step.start + step.tokenIds.length)) where
  positions_eq := positions_feed h hs
  consumed_le := by
    show row.consumed + step.tokenIds.length ≤ _
    have := hs.start
    omega
  le_target := by
    have hfits := hs.fits
    have hle := h.le_target
    have htarget : (Engine.feed row step ready).target = row.target := rfl
    have htargetEq : row.target = row.inputIds.length + (row.output.length - 1) := rfl
    rw [Sequence.length_history] at hfits hend
    omega
  eq_target hout := by
    have hfits := hs.fits
    have heq := h.eq_target hout
    have htarget : (Engine.feed row step ready).target = row.target := rfl
    have htargetEq : row.target = row.inputIds.length + (row.output.length - 1) := rfl
    rw [Sequence.length_history] at hfits hend
    omega
  fresh hpre := by
    obtain ⟨hconsumed, hnot⟩ := h.fresh hpre
    constructor
    · show row.consumed + step.tokenIds.length = _
      have := hs.start
      omega
    · rw [mem_append, not_or]
      exact ⟨hnot, fun hmem => nomatch mem_singleton.mp hmem⟩
  preempted hpre := mem_append_left _ (h.preempted hpre)

/-- A step to the end of the history emits a token, and the target is what was computed. -/
theorem Covered.emit (h : Covered row l n) (hs : StepOf row step)
    (hend : step.start + step.tokenIds.length = row.history.length) (token : Token) (ready : ℚ) :
    Covered (emitToken (Engine.feed row step ready) token ready) (l ++ [step.op])
      (max n (step.start + step.tokenIds.length)) := by
  have hle := h.le_target
  have htargetEq : row.target = row.inputIds.length + (row.output.length - 1) := rfl
  have htarget : (emitToken (Engine.feed row step ready) token ready).target =
      row.history.length := by
    simp [Sequence.target, emitToken, Engine.feed, Sequence.history]
  have hmax : max n (step.start + step.tokenIds.length) = row.history.length := by
    rw [Sequence.length_history] at hend ⊢
    omega
  refine ⟨positions_feed h hs, ?_, ?_, fun _ => ?_, fun hpre => ?_, fun hpre => ?_⟩
  · show row.consumed + step.tokenIds.length ≤ _
    have := hs.start
    omega
  · rw [htarget, hmax]
  · rw [htarget, hmax]
  · obtain ⟨hconsumed, hnot⟩ := h.fresh hpre
    constructor
    · show row.consumed + step.tokenIds.length = _
      have := hs.start
      omega
    · rw [mem_append, not_or]
      exact ⟨hnot, fun hmem => by cases mem_singleton.mp hmem⟩
  · exact mem_append_left _ (h.preempted hpre)

section

variable (h : row.recomputed + (positions l).card = computed l + (late l row.inputIds.length).card)

include h

theorem count_released : row.recomputed + (positions (l ++ [Op.released])).card =
      computed (l ++ [Op.released]) + (late (l ++ [Op.released]) row.inputIds.length).card := by
  rw [late_released, computed_append, positions_append]
  simpa [positions, computed] using h

theorem Accounted.ended (reason : Reason) (error : Option String)
    (now : ℚ) : Accounted (ended row reason error now) l := ⟨h, fun hlive => absurd rfl hlive⟩

end

theorem accounted_ofSubmission (s : Submission) : Accounted (.ofSubmission s) [] where
  count := rfl
  covered _ := ⟨0, {
    positions_eq := rfl
    consumed_le := le_rfl
    le_target := Nat.zero_le _
    eq_target := fun h => absurd rfl h
    fresh := fun _ => ⟨rfl, not_mem_nil⟩
    preempted := fun h => absurd rfl h }⟩

theorem Accounted.evicted (h : Accounted row l) (hlive : row.state ≠ .terminal) :
    Accounted (evicted row) (l ++ [Op.released]) where
  count := count_released h.count
  covered _ := by
    obtain ⟨n, hn⟩ := h.covered hlive
    refine ⟨n, ?_, Nat.zero_le _, hn.le_target, hn.eq_target, fun hpre => ?_, fun _ => ?_⟩
    · rw [positions_append, hn.positions_eq]
      exact Finset.union_empty _
    · exact absurd hpre (Nat.succ_ne_zero _)
    · exact mem_append_right _ (mem_singleton_self _)

theorem Accounted.activated (h : Accounted row l) (hlive : row.state ≠ .terminal) (now : ℚ) :
    Accounted (activated row now) l where
  count := h.count
  covered _ := by
    obtain ⟨n, hn⟩ := h.covered hlive
    exact ⟨n, hn.positions_eq, hn.consumed_le, hn.le_target, hn.eq_target, hn.fresh, hn.preempted⟩

end Row

/-! ### The logs of all rows -/

/-- The log of each row is accounted for, up to the steps that are still to be committed. -/
structure Recorded (s : Ledger (σ × (String → List Op))) : Prop where
  unknown : ∀ id, s.1.rows.get? id = none → s.1.executor.2 id = []
  rows : ∀ id row, s.1.rows.get? id = some row →
    ∃ l, s.1.executor.2 id = l ++ fedOps (s.2.map Prod.fst) id ∧ Accounted row l

section Ledgers

variable {S : Session σ} {e e' : Engine (σ × (String → List Op))} {row : Sequence}
  {lease : Option Lease} {pending pending' : List (Step × Token)}

theorem Recorded.touches (h : Recorded (e, pending)) (ht : Touches e e' row lease)
    (hother : ∀ id, id ≠ row.id → e'.executor.2 id = e.executor.2 id)
    (hself : Accounted row (e'.executor.2 row.id))
    (hout : row.id ∉ (pending'.map Prod.fst).map Step.requestId)
    (hpending : ∀ id, id ≠ row.id →
      fedOps (pending'.map Prod.fst) id = fedOps (pending.map Prod.fst) id) :
    Recorded (e', pending') where
  unknown id hid := by
    rw [ht.rows] at hid
    split_ifs at hid with he
    rw [hother id he]
    exact h.unknown id hid
  rows id row' hrow := by
    rw [ht.rows] at hrow
    split_ifs at hrow with he
    · cases hrow
      refine ⟨_, ?_, hself⟩
      rw [he, fedOps_of_not_mem hout, append_nil]
    · rw [hother id he, hpending id he]
      exact h.rows id row' hrow

theorem Recorded.congr (h : Recorded (e, pending)) (hrows : e'.rows = e.rows)
    (hlog : e'.executor.2 = e.executor.2) : Recorded (e', pending) where
  unknown id := by simp only [hrows, hlog]; exact h.unknown id
  rows id row := by simp only [hrows, hlog]; exact h.rows id row

theorem Recorded.accounted (h : Recorded (e, [])) {id : String} (hrow : e.rows.get? id = some row) :
    Accounted row (e.executor.2 id) := by
  obtain ⟨l, hl, hacc⟩ := h.rows id row hrow
  simp only [fedOps, map_nil, filter_nil, append_nil] at hl
  rw [hl]
  exact hacc

variable (e row)

/-- Giving up a lease is written down for its row only. -/
theorem released_log (cause : ReleaseCause) (id : String) :
    (e.released S.recorded row cause).executor.2 id =
      if id = row.id ∧ (e.kv.leases.get? row.id).isSome then e.executor.2 id ++ [Op.released]
      else e.executor.2 id := by
  rw [released]
  by_cases hlease : (e.kv.leases.get? row.id).isSome = true
  · simp only [hlease, and_true]
    show Function.update e.executor.2 row.id (e.executor.2 row.id ++ [Op.released]) id = _
    rw [Function.update_apply]
    split_ifs with he
    · rw [he]
    · rfl
  · rw [if_neg hlease, if_neg fun hand => hlease hand.2]

theorem accounted_finished (reason : Reason)
    (error : Option String) (now : ℚ)
    (h : row.recomputed + (positions (e.executor.2 row.id)).card =
      computed (e.executor.2 row.id) +
        (late (e.executor.2 row.id) row.inputIds.length).card) :
    Accounted (ended row reason error now)
        ((e.finished S.recorded row reason error now).executor.2 row.id) ∧
      ∀ id, id ≠ row.id →
        (e.finished S.recorded row reason error now).executor.2 id = e.executor.2 id := by
  have hlog := released_log (S := S) (e.setRow (Engine.ended row reason error now))
    (Engine.ended row reason error now) (.finished reason)
  refine ⟨?_, fun id hid => (hlog id).trans (if_neg fun hand => hid hand.1)⟩
  have hself := hlog row.id
  split_ifs at hself
  · exact hself ▸ Accounted.ended (count_released h) reason error now
  · exact hself ▸ Accounted.ended h reason error now

variable {e row}

theorem Recorded.finished (h : Recorded (e, [])) (hrow : e.rows.get? row.id = some row)
    (reason : Reason) (error : Option String) (now : ℚ) :
    Recorded (e.finished S.recorded row reason error now, []) := by
  obtain ⟨hself, hother⟩ := accounted_finished (S := S) e row reason error now
    (h.accounted hrow).count
  exact h.touches (touches_finished S.recorded e row reason error now) hother hself
    not_mem_nil fun _ _ => rfl

theorem Recorded.accept (h : Recorded (e, [])) {s : Submission} (fresh : s.id ∉ e.rows.keys) :
    Recorded (e.accepted (.ofSubmission s), []) := by
  have hnone : e.rows.get? s.id = none := (OrderedDict.get?_eq_none_iff _).mpr fresh
  refine h.touches (touches_accepted e (.ofSubmission s)) (fun _ _ => rfl) ?_ not_mem_nil
    fun _ _ => rfl
  show Accounted _ (e.executor.2 s.id)
  rw [h.unknown s.id hnone]
  exact accounted_ofSubmission s

/-- After an execution the steps are in the logs, still to be committed. -/
theorem Recorded.execute (hX : Replies S.executor) (h : Recorded (e, [])) {steps : List Step}
    (hsteps : StepsFor e steps) {forwardId : String} {tokens : List Token}
    {x : σ × (String → List Op)}
    (hx : S.recorded.executor.execute e.executor steps forwardId = .ok (tokens, x)) :
    Recorded ({ e with executor := x }, steps.zip tokens) := by
  obtain ⟨out, hout, heq⟩ := exists_of_map_eq_ok hx
  cases heq
  have hfst : (steps.zip out.1).map Prod.fst = steps := map_fst_zip (hX hout).ge
  refine ⟨fun id hid => ?_, fun id row hrow => ?_⟩
  · show e.executor.2 id ++ fedOps steps id = []
    rw [h.unknown id hid, fedOps_of_not_mem, append_nil]
    intro hmem
    obtain ⟨s, hs, rfl⟩ := mem_map.mp hmem
    obtain ⟨row, hrow, -⟩ := hsteps.row s hs
    exact nomatch hid.symm.trans hrow
  · refine ⟨e.executor.2 id, ?_, h.accounted hrow⟩
    rw [hfst]

theorem Recorded.commit {step : Step} {token : Token}
    (hI : Inv S.recorded (e, (step, token) :: pending)) (h : Recorded (e, (step, token) :: pending))
    (hrow : e.rows.get? step.requestId = some row) (l : Lease) (forwardId : String)
    (ready clock : ℚ) :
    Recorded (e.committed S.recorded row l forwardId step token ready clock, pending) := by
  have hid := hI.row_id hrow
  obtain ⟨row', hrow', hactive, hstep, -⟩ := hI.pending.row step (by simp)
  cases hrow.symm.trans hrow'
  have hnodup := hI.pending.nodup
  simp only [map_cons, nodup_cons] at hnodup
  have hout : row.id ∉ (pending.map Prod.fst).map Step.requestId := hid ▸ hnodup.1
  have hother : ∀ id, id ≠ row.id → fedOps (pending.map Prod.fst) id =
      fedOps (((step, token) :: pending).map Prod.fst) id := by
    intro id hne
    rw [fedOps, fedOps, map_cons, filter_cons_of_neg]
    rw [decide_eq_true_eq, ← hid]
    exact fun heq => hne heq.symm
  -- the log of the row ends with this step
  obtain ⟨log, hlog, hacc⟩ := h.rows step.requestId row hrow
  have hops : fedOps (((step, token) :: pending).map Prod.fst) step.requestId = [step.op] := by
    have hrest := fedOps_of_not_mem hnodup.1
    rw [fedOps] at hrest ⊢
    rw [map_cons, filter_cons_of_pos (by simp), map_cons, hrest]
  rw [hops, ← hid] at hlog
  obtain ⟨n, hn⟩ := hacc.covered (by rw [hactive]; decide)
  have hcount := hacc.count_feed hn hstep ready
  rw [← hlog] at hcount
  have hfed := touches_fed e row l forwardId step ready
  have htoken := hfed.trans (touches_tokened _ (feed row step ready) forwardId token ready) rfl
  rcases committed_cases S.recorded e row l forwardId step token ready clock with
    ⟨reason, -, -, hc⟩ | ⟨hemit, hc⟩ | ⟨hemit, -, hc⟩ | ⟨-, reason, -, hc⟩
  all_goals rw [hc]
  · obtain ⟨hself, hrest⟩ := accounted_finished (S := S) (e.fed row l forwardId step ready)
      (feed row step ready) reason none clock hcount
    exact h.touches (hfed.trans (touches_finished S.recorded _ (feed row step ready) reason none
      clock) rfl) hrest hself hout hother
  · refine h.touches hfed (fun _ _ => rfl) ⟨hcount, fun _ => ⟨max n (step.start +
      step.tokenIds.length), ?_⟩⟩ hout hother
    have hend := hstep.emit
    rw [hemit, eq_comm, decide_eq_false_iff_not] at hend
    have hcovered := hn.feed hstep hend ready
    rw [← hlog] at hcovered
    exact hcovered
  · refine h.touches htoken (fun _ _ => rfl) ⟨hcount, fun _ => ⟨max n (step.start +
      step.tokenIds.length), ?_⟩⟩ hout hother
    have hend := hstep.emit
    rw [hemit, eq_comm, decide_eq_true_eq] at hend
    have hcovered := hn.emit hstep hend token ready
    rw [← hlog] at hcovered
    exact hcovered
  · obtain ⟨hself, hrest⟩ := accounted_finished (S := S)
      ((e.fed row l forwardId step ready).tokened (feed row step ready) forwardId token ready)
      (emitToken (feed row step ready) token ready) reason none clock hcount
    exact h.touches (htoken.trans (touches_finished S.recorded _
      (emitToken (feed row step ready) token ready) reason none clock) rfl) hrest hself hout hother

/-- **Every act** keeps the logs accounted for. -/
theorem Recorded.act (hX : Replies S.executor) {s s' : Ledger (σ × (String → List Op))}
    (hI : Inv S.recorded s) (hact : Act S.recorded s s') (h : Recorded s) : Recorded s' := by
  cases hact with
  | note notes => exact h.congr notes.rows (by rw [notes.executor])
  | accept fresh fits => exact h.accept fresh
  | @reject e s fresh error now =>
    refine (h.accept fresh).finished (?_ : _ = some (Sequence.ofSubmission s)) _ _ _
    exact ((touches_accepted e (.ofSubmission s)).rows s.id).trans (if_pos rfl)
  | finish hrow hlive forced error now => exact h.finished hrow _ _ _
  | @preempt e victim hrow hactive hchunked =>
    have hlog := released_log (S := S) e victim .preempted
    have hlease := (hI.rowInv hrow).active_iff.mp hactive
    refine h.touches (touches_preempted S.recorded e victim)
      (fun id hid => (hlog id).trans (if_neg fun hand => hid hand.1)) ?_ not_mem_nil
      fun _ _ => rfl
    have hself := (hlog victim.id).trans (if_pos ⟨rfl, hlease⟩)
    exact hself ▸ (h.accounted hrow).evicted (by rw [hactive]; decide)
  | @admission e e' row lease now hrow hwaiting hcap admits =>
    refine h.touches admits.touches (fun _ _ => by rw [admits.executor]) ?_ not_mem_nil
      fun _ _ => rfl
    rw [admits.executor]
    exact (h.accounted hrow).activated (by rw [hwaiting]; decide) now
  | prepare hsteps => exact h.congr rfl rfl
  | execute hsteps executed notes =>
    exact (h.execute hX hsteps executed).congr notes.rows (by rw [notes.executor])
  | commit hrow hlease forwardId ready clock => exact h.commit hI hrow _ forwardId ready clock

/-- **The counter**: it is what was computed more than once, and the late positions besides. -/
theorem reachable_accounted (hX : Replies S.executor) {x : σ}
    {c : Config (σ × (String → List Op))}
    (h : (S.recorded.machine (x, fun _ => [])).Reachable c) :
    Recorded (c.engine, c.point.pending) :=
  reachable_invariant (P := Recorded) ⟨fun _ _ => rfl, (fun _ _ h => by cases h)⟩
    (fun _ _ hI hact => Recorded.act hX hI hact) h

end Ledgers

/-- **Recompute accounting**: the counter of a row without a pending step is the number of
positions computed more than once exactly if no prompt position was late. -/
theorem recomputed_iff (S : Session σ) (hX : Replies S.executor) (x : σ) (readings : List Reading)
    (id : String) (row : Sequence)
    (hrow : ((S.machine x).run readings).engine.rows.get? id = some row)
    (hsettled : id ∉
      (((S.machine x).run readings).point.pending.map Prod.fst).map Step.requestId) :
    (row.recomputed : Int) =
        computed (S.log x readings id) - (positions (S.log x readings id)).card ↔
      late (S.log x readings id) row.inputIds.length = ∅ := by
  rw [← forget_run] at hrow hsettled
  obtain ⟨l, hl, hacc⟩ :=
    (reachable_accounted hX (Machine.reachable_run readings)).rows id row hrow
  have hlog : S.log x readings id = l := by
    exact hl.trans ((congrArg (l ++ ·) (fedOps_of_not_mem hsettled)).trans (append_nil l))
  have hcount := hacc.count
  rw [hlog, ← Finset.card_eq_zero]
  omega

/-! ### A preemption in the middle of a prompt -/

/-- Every step of a forward gets the token 0. -/
def echo : Executor Unit where
  contextLimit := 64
  prepare _ _ := (none, ())
  execute _ steps _ := .ok (steps.map fun _ => 0, ())
  release _ _ := ()

theorem echo_replies : Replies echo := by
  intro x x' steps forwardId tokens h
  rw [← (Prod.mk.inj (Except.ok.inj h)).1, length_map]

/-- One row at a time, two positions of a prompt at a time. -/
def oneByOne : Session Unit where
  executor := echo
  limits :=
    { SchedulingLimits.defaults with
      maxActiveSequences := 1
      prefillChunkTokens := 2
      preemption := .recompute
      maxActiveSequences_mem := by decide
      prefillChunkTokens_mem := by decide
      recompute_chunked := by decide }
  mode := .continuous
  deadline := 60

theorem one_token : ([1] : List Token) ≠ [] := by decide

/-- A request of higher priority arrives when half of the first prompt is computed; `n` readings
follow. -/
def overtaken (n : Nat) : List Reading :=
  ({ batch := [.submit
      { id := "a", inputIds := [1, 2, 3, 4], limit := 2, received := 0, deadline := 50 }] } : Reading) ::
    List.replicate 12 ({} : Reading) ++
  ({ batch := [.submit
      { id := "b", inputIds := [1], limit := 1, received := 0, deadline := 50, priority := 1
        inputIds_ne := one_token, limit_pos := Nat.one_pos }] } : Reading) ::
    List.replicate n ({} : Reading)

/-- When the first half is computed again, the counter is right. -/
theorem overtaken_counted : ∃ row,
    ((oneByOne.machine ()).run (overtaken 25)).engine.rows.get? "a" = some row ∧
    (row.recomputed : Int) = computed (oneByOne.log () (overtaken 25) "a") -
      (positions (oneByOne.log () (overtaken 25) "a")).card := by
  have hsome : (((oneByOne.machine ()).run (overtaken 25)).engine.rows.get? "a").isSome = true := by
    decide +kernel
  have hrow := (Option.some_get hsome).symm
  exact ⟨_, hrow, (recomputed_iff oneByOne echo_replies () (overtaken 25) "a" _ hrow
    (by decide +kernel)).mpr (by decide +kernel +revert)⟩

/-- When the second half is computed for the first time, it counts as recomputed. -/
theorem overtaken_miscounted : ∃ row,
    ((oneByOne.machine ()).run (overtaken 37)).engine.rows.get? "a" = some row ∧
    row.recomputed = 4 ∧ computed (oneByOne.log () (overtaken 37) "a") = 6 ∧
    (positions (oneByOne.log () (overtaken 37) "a")).card = 4 := by
  have hsome : (((oneByOne.machine ()).run (overtaken 37)).engine.rows.get? "a").isSome = true := by
    decide +kernel
  exact ⟨_, (Option.some_get hsome).symm, by decide +kernel +revert, by decide +kernel,
    by decide +kernel⟩

end Hqsb
