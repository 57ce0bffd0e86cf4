/-
Hqsb/Runtime/Transparency.lean

Scheduling transparency: what a row outputs does not depend on the schedule.

The executor is a faithful incremental decoder for a function `g` (`Faithful`).
Then every token that is committed is `g` of the row's whole history, whatever was
batched, chunked, refused, preempted or replayed in between: the output of a row is
always a beginning of the greedy continuation of its input, and all of it once the row
ends with reason `length` or `stop` (`Decodes`).
-/
import Hqsb.Lib.Greedy
import Hqsb.Runtime.ExecutorView

namespace Hqsb

open Lib Engine List

variable {σ : Type} {S : Session σ}

/-! ### Faithful decoders -/

/-- For each row the executor keeps the tokens of the steps executed since its last
reservation, and it returns `g` of them. -/
structure Faithful (X : Executor σ) (cache : σ → String → List Token) (g : List Token → Token) :
    Prop where
  prepare : ∀ x steps, cache (X.prepare x steps).2 = cache x
  release : ∀ x id id', cache (X.release x id) id' = if id' = id then [] else cache x id'
  execute : ∀ {x x' : σ} {steps : List Step} {forwardId : String} {tokens : List Token},
    X.execute x steps forwardId = .ok (tokens, x') → (steps.map Step.requestId).Nodup →
    (∀ s ∈ steps, cache x' s.requestId = cache x s.requestId ++ s.tokenIds) ∧
    (∀ id ∉ steps.map Step.requestId, cache x' id = cache x id) ∧
    tokens = steps.map fun s => g (cache x' s.requestId)

variable {cache : σ → String → List Token}

theorem Faithful.tracks {X : Executor σ} {g : List Token → Token} (h : Faithful X cache g) :
    Tracks X cache id where
  prepare := h.prepare
  release := h.release
  execute hx hn := by
    obtain ⟨hfed, hother, htokens⟩ := h.execute hx hn
    refine ⟨by rw [htokens, length_map], fun s hs fed _ hcache => ?_, hother⟩
    rw [hfed s hs, hcache]
    rfl

/-! ### Rows that follow the decoder -/

variable (S) in
def stops (row : Sequence) (token : Token) : Bool := decide (token ∈ S.eosIds ∧ row.fixed = false)

variable (S) in
def continuation (g : List Token → Token) (row : Sequence) : List Token :=
  greedy g (stops S row) row.limit row.inputIds

variable (S) in
/-- `accept` lets the row through. -/
def Fits (row : Sequence) : Prop :=
  rejection S { capacity := S.limits.kvCapacityTokens } row = none

variable (S) in
/-- The row ended by its own output. -/
def Natural (row : Sequence) : Prop := row.reason = some .length ∨ row.reason = some .stop

variable (S) in
structure Decodes (g : List Token → Token) (row : Sequence) : Prop where
  isPrefix : row.output <+: continuation S g row
  going : row.state ≠ .terminal →
    Greedy.Partial g (stops S row) row.limit row.inputIds row.output ∧ row.reason = none ∧ Fits S row
  ended : row.reason = some .length ∨ row.reason = some .stop →
    row.output = continuation S g row ∧ Fits S row

section Row

variable {g : List Token → Token} {row : Sequence}

theorem decodes_ofSubmission {s : Submission} (hfits : Fits S (.ofSubmission s)) :
    Decodes S g (.ofSubmission s) where
  isPrefix := nil_prefix
  going _ := ⟨.nil s.limit_pos, rfl, hfits⟩
  ended h := by rcases h with h | h <;> cases h

theorem decodes_ended (h : row.output <+: continuation S g row) {reason : Reason}
    (forced : reason ≠ .length ∧ reason ≠ .stop) (error : Option String) (now : ℚ) :
    Decodes S g (ended row reason error now) where
  isPrefix := h
  going hl := absurd rfl hl
  ended he := by
    rcases he with he | he
    · exact absurd (Option.some.inj he) forced.1
    · exact absurd (Option.some.inj he) forced.2

theorem Fits.congr {row' : Sequence} (h : Fits S row) (hsame : Sequence.SameRequest row row') :
    Fits S row' := by
  unfold Fits rejection Sequence.needed at h ⊢
  rw [hsame.limit, hsame.inputIds]
  exact h

/-- Nothing but state and progress changes. -/
theorem Decodes.congr {row' : Sequence} (h : Decodes S g row) (hsame : Sequence.SameRequest row row')
    (hlive : row.state ≠ .terminal) (houtput : row'.output = row.output)
    (hreason : row'.reason = row.reason) : Decodes S g row' := by
  have hstops : stops S row' = stops S row := by
    funext t
    rw [stops, stops, hsame.fixed]
  have hcont : continuation S g row' = continuation S g row := by
    rw [continuation, continuation, hstops, hsame.limit, hsame.inputIds]
  obtain ⟨hpart, hnone, hfits⟩ := h.going hlive
  refine ⟨?_, fun _ => ⟨?_, hreason.trans hnone, hfits.congr hsame⟩, fun he => ?_⟩
  · rw [houtput, hcont]
    exact h.isPrefix
  · rw [hstops, hsame.limit, hsame.inputIds, houtput]
    exact hpart
  · rw [hreason, hnone] at he
    rcases he with he | he <;> cases he

theorem endReason_emitToken (row : Sequence) (token : Token) (ready : ℚ) :
    endReason S (emitToken row token ready) token =
      if row.limit ≤ row.output.length + 1 then some .length
      else if stops S row token then some .stop else none := by
  have hlen : (emitToken row token ready).output.length = row.output.length + 1 := by
    simp [emitToken]
  rw [endReason, hlen]
  simp only [stops, decide_eq_true_eq]
  rfl

/-- **The token of a step to the end of the history** continues the row, or completes it. -/
theorem Decodes.emit (h : Decodes S g row) (hlive : row.state ≠ .terminal) {token : Token}
    (htoken : token = g row.history) (ready : ℚ) :
    (endReason S (emitToken row token ready) token = none →
      Decodes S g (emitToken row token ready)) ∧
    ∀ reason, endReason S (emitToken row token ready) token = some reason → ∀ clock,
      Decodes S g (Engine.ended (emitToken row token ready) reason none clock) := by
  obtain ⟨hpart, hnone, hfits⟩ := h.going hlive
  subst htoken
  rw [endReason_emitToken]
  constructor
  · intro hend
    split_ifs at hend with hlimit hstop
    have hnext := hpart.extend (Bool.eq_false_iff.mpr hstop) (Nat.lt_of_not_le hlimit)
    refine ⟨hnext.isPrefix, fun _ => ⟨hnext, hnone, hfits⟩, fun he => ?_⟩
    rw [show (emitToken row (g row.history) ready).reason = row.reason from rfl, hnone] at he
    rcases he with he | he <;> cases he
  · intro reason hend clock
    have hlast : stops S row (g row.history) = true ∨ row.limit ≤ row.output.length + 1 := by
      split_ifs at hend with hlimit hstop
      · exact .inr hlimit
      · exact .inl hstop
    have hall : continuation S g row = row.output ++ [g row.history] := hpart.finish hlast
    refine ⟨?_, fun hl => absurd rfl hl, fun _ => ⟨hall.symm, hfits⟩⟩
    show row.output ++ [g row.history] <+: continuation S g row
    rw [hall]

end Row

/-! ### The invariant -/

/-- Every row follows the decoder, and so does every result still to be committed. -/
structure Decoding (S : Session σ) (g : List Token → Token) (s : Ledger σ) : Prop where
  row : ∀ id row, s.1.rows.get? id = some row → Decodes S g row
  pending : ∀ p ∈ s.2, ∀ row, s.1.rows.get? p.1.requestId = some row →
    p.2 = g (row.history.take (row.consumed + p.1.tokenIds.length))

variable {g : List Token → Token} {e e' : Engine σ} {row : Sequence} {lease : Option Lease}
  {pending pending' : List (Step × Token)}

theorem Decoding.touches (h : Decoding S g (e, pending)) (ht : Touches e e' row lease)
    (hrow : Decodes S g row)
    (hpending : ∀ p ∈ pending', p ∈ pending ∧ p.1.requestId ≠ row.id) :
    Decoding S g (e', pending') where
  row id row' hget := by
    rw [ht.rows] at hget
    split_ifs at hget
    · cases hget
      exact hrow
    · exact h.row id row' hget
  pending p hp row' hget := by
    obtain ⟨hmem, hne⟩ := hpending p hp
    rw [ht.rows, if_neg hne] at hget
    exact h.pending p hmem row' hget

theorem Decoding.congr (h : Decoding S g (e, pending)) (hrows : e'.rows = e.rows) :
    Decoding S g (e', pending) := ⟨by simp only [hrows]; exact h.row,
      by simp only [hrows]; exact h.pending⟩

theorem Decoding.execute (hX : Faithful S.executor cache g) (hI : Inv S (e, []))
    (hT : Tracked cache id (e, [])) (h : Decoding S g (e, [])) {steps : List Step}
    (hsteps : StepsFor e steps) {forwardId : String} {tokens : List Token} {x : σ}
    (hx : S.executor.execute e.executor steps forwardId = .ok (tokens, x)) :
    Decoding S g ({ e with executor := x }, steps.zip tokens) := by
  have hT' := Tracked.execute hX.tracks hI hT hsteps hx
  obtain ⟨-, -, rfl⟩ := hX.execute hx hsteps.nodup
  refine ⟨h.row, fun p hp row hrow => ?_⟩
  have hcache := hT'.pending p hp row hrow
  rw [← map_prod_left_eq_zip, mem_map] at hp
  obtain ⟨s, -, rfl⟩ := hp
  exact congrArg g hcache

theorem Decoding.commit {step : Step} {token : Token}
    (hI : Inv S (e, (step, token) :: pending)) (h : Decoding S g (e, (step, token) :: pending))
    (hrow : e.rows.get? step.requestId = some row) (l : Lease) (forwardId : String)
    (ready clock : ℚ) :
    Decoding S g (e.committed S row l forwardId step token ready clock, pending) := by
  have hid := hI.row_id hrow
  obtain ⟨row', hrow', hactive, hstep, -⟩ := hI.pending.row step (by simp)
  cases hrow.symm.trans hrow'
  have hlive : row.state ≠ .terminal := by rw [hactive]; decide
  have hdec := h.row step.requestId row hrow
  have hfeed : Decodes S g (feed row step ready) :=
    hdec.congr (by constructor <;> rfl) hlive rfl rfl
  have hout : ∀ p ∈ pending, p ∈ (step, token) :: pending ∧ p.1.requestId ≠ row.id := by
    have hnodup := hI.pending.nodup
    simp only [map_cons, nodup_cons, map_map] at hnodup
    intro p hp
    refine ⟨.tail _ hp, fun he => hnodup.1 ?_⟩
    rw [← hid, ← he]
    exact mem_map.mpr ⟨p, hp, rfl⟩
  have htf := touches_fed e row l forwardId step ready
  have htt := htf.trans (touches_tokened (e.fed row l forwardId step ready) (feed row step ready)
    forwardId token ready) rfl
  -- a step that emits reaches the end of the history
  have htoken : step.emit = true → token = g (feed row step ready).history := by
    intro hemit
    have hend := hstep.emit
    rw [hemit, eq_comm, decide_eq_true_eq, hstep.start] at hend
    have hp := h.pending (step, token) mem_cons_self row hrow
    rw [hend, take_length] at hp
    exact hp
  rcases committed_cases S e row l forwardId step token ready clock with
    ⟨reason, hreason, -, hc⟩ | ⟨-, hc⟩ | ⟨hemit, hend, hc⟩ | ⟨hemit, reason, hend, hc⟩
  all_goals rw [hc]
  · refine h.touches (htf.trans (touches_finished S _ (feed row step ready) reason none clock) rfl)
      (decodes_ended hfeed.isPrefix ?_ none clock) hout
    rcases hreason with rfl | rfl <;> decide
  · exact h.touches htf hfeed hout
  · exact h.touches htt ((hfeed.emit hlive (htoken hemit) ready).1 hend) hout
  · exact h.touches (htt.trans (touches_finished S _ (emitToken (feed row step ready) token ready)
      reason none clock) rfl) ((hfeed.emit hlive (htoken hemit) ready).2 reason hend clock) hout

theorem Decoding.act (hX : Faithful S.executor cache g) {s s' : Ledger σ} (hI : Inv S s)
    (hT : Tracked cache id s) (hact : Act S s s') (h : Decoding S g s) : Decoding S g s' := by
  cases hact with
  | note notes => exact h.congr notes.rows
  | @accept e s fresh fits =>
    refine h.touches (touches_accepted e (.ofSubmission s)) (decodes_ofSubmission ?_) (by simp)
    rw [Fits]
    simpa only [rejection, ← hI.capacity] using fits
  | @reject e s fresh error now =>
    exact h.touches ((touches_accepted e (.ofSubmission s)).trans
      (touches_finished S _ (.ofSubmission s) .rejected (some error) now) rfl)
      (decodes_ended nil_prefix (by decide) _ _) (by simp)
  | @finish e row hrow hlive reason forced error now =>
    exact h.touches (touches_finished S e row reason error now)
      (decodes_ended (h.row _ _ hrow).isPrefix forced error now) (by simp)
  | @preempt e victim hrow hactive hchunked =>
    exact h.touches (touches_preempted S e victim)
      ((h.row _ _ hrow).congr (by constructor <;> rfl) (by rw [hactive]; decide) rfl rfl) (by simp)
  | @admission e e' row lease now hrow hwaiting hcap admits =>
    exact h.touches admits.touches
      ((h.row _ _ hrow).congr (by constructor <;> rfl) (by rw [hwaiting]; decide) rfl rfl) (by simp)
  | prepare => exact h.congr rfl
  | execute hsteps executed notes =>
    exact (Decoding.execute hX hI hT h hsteps executed).congr notes.rows
  | commit hrow hlease forwardId ready clock =>
    exact Decoding.commit hI h hrow _ forwardId ready clock

/-- **Every row follows the decoder** in every reachable configuration. -/
theorem reachable_decoding (hX : Faithful S.executor cache g) {x : σ} (hx : ∀ id, cache x id = [])
    {c : Config σ} (h : (S.machine x).Reachable c) :
    Decoding S g (c.engine, c.point.pending) := by
  have key := reachable_invariant
    (P := fun s : Ledger σ => Tracked cache id s ∧ Decoding S g s) (S := S) (x := x) ?_ ?_ h
  · exact key.2
  · refine ⟨⟨fun id _ => hx id, (fun _ _ h => by cases h), (fun _ h => by cases h)⟩, ?_⟩
    exact ⟨(fun _ _ h => by cases h), (fun _ h => by cases h)⟩
  · exact fun s s' hI hact ⟨hT, hD⟩ =>
      ⟨Tracked.act hX.tracks hI hact hT, Decoding.act hX hI hT hact hD⟩

end Hqsb
