/-
Hqsb/Distributed/Watchdog.lean

The watchdog of a rank group (`Watchdog` of `hqsb/distributed/sequence.py`,
`watchdog_decision` of `hqsb/distributed/faults.py`).

The watchdog keeps every heartbeat it was given and scans all of them at each
evaluation.  A heartbeat is outdated when its own age exceeds the timeout, whether
or not the rank has sent another since, so the list of stale ranks grows with
time: it holds the ranks of the outdated heartbeats (`scan_spec`), and not the
ranks whose latest heartbeat is outdated.  The group is aborted for want of
progress only when the newest heartbeat of all is older than the progress timeout.
`judges_iff` says on which histories the two readings agree.

Times are exact rationals.
-/
import Hqsb.Lib.OrderedDict

namespace Hqsb.Distributed

open Lib List

/-! ### Heartbeats and decisions -/

structure ControlHeartbeat where
  rank : Int
  pid : Int
  lastSeq : Int
  state : String
  atS : ℚ
  deriving DecidableEq

inductive WatchdogAction where
  | none | abortAndRestart | abortGroup

/-- The reason of a decision, with the ranks its text lists. -/
inductive WatchdogReason where
  | none
  | timedOut (ranks : List Int)
  | stalled (ranks : List Int)

/-- External watchdog that never depends on the failing communicator. -/
structure WatchdogDecision where
  action : WatchdogAction
  reason : WatchdogReason
  staleRanks : List Int
  stuckRanks : List Int

/-- `watchdog timeouts must be positive` -/
inductive WatchdogError where
  | timeoutNotPositive

/-- The three accumulators of the scan. -/
structure Scan where
  stale : List Int := []
  stuck : List Int := []
  latestSeq : OrderedDict Int Int := .empty

/-- Python's `previous or lastSeq`: a sequence number of zero counts as none. -/
def orLastSeq (previous : Option Int) (lastSeq : Int) : Int :=
  match previous with
  | some seq => if seq = 0 then lastSeq else seq
  | none => lastSeq

/-- The loop body of `watchdog_decision`. -/
def scanBeat (nowS heartbeatTimeoutS : ℚ) (scan : Scan) (beat : ControlHeartbeat) : Scan :=
  let age := nowS - beat.atS
  let previous := scan.latestSeq.get? beat.rank
  { stale := if heartbeatTimeoutS < age then scan.stale ++ [beat.rank] else scan.stale
    stuck := if previous = some beat.lastSeq ∧ age ≤ heartbeatTimeoutS
      then scan.stuck ++ [beat.rank] else scan.stuck
    latestSeq := scan.latestSeq.set beat.rank (max (orLastSeq previous beat.lastSeq) beat.lastSeq) }

def sortedRanks (ranks : List Int) : List Int := ranks.insertionSort (· ≤ ·)

/-- The age of the last heartbeat that was recorded exceeds the timeout. -/
def newestOlderThan (heartbeats : List ControlHeartbeat) (nowS timeoutS : ℚ) : Bool :=
  match heartbeats.getLast? with
  | some beat => decide (timeoutS < nowS - beat.atS)
  | none => false

def watchdogDecision (heartbeats : List ControlHeartbeat)
    (nowS heartbeatTimeoutS progressTimeoutS : ℚ) : Except WatchdogError WatchdogDecision :=
  if heartbeatTimeoutS ≤ 0 ∨ progressTimeoutS ≤ 0 then .error .timeoutNotPositive
  else
    let scan := heartbeats.foldl (scanBeat nowS heartbeatTimeoutS) {}
    let decision (action : WatchdogAction) (reason : WatchdogReason) : WatchdogDecision :=
      { action := action, reason := reason
        staleRanks := sortedRanks scan.stale, stuckRanks := sortedRanks scan.stuck }
    if scan.stale ≠ [] then
      .ok (decision .abortAndRestart (.timedOut (sortedRanks scan.stale)))
    else if scan.stuck ≠ [] ∧ newestOlderThan heartbeats nowS progressTimeoutS = true then
      .ok (decision .abortGroup (.stalled (sortedRanks scan.stuck)))
    else .ok (decision .none .none)

/-! ### The watchdog -/

/-- External watchdog that never depends on the failing communicator. -/
structure Watchdog where
  heartbeatTimeoutS : ℚ
  progressTimeoutS : ℚ
  heartbeats : List ControlHeartbeat := []
  heartbeatTimeoutS_pos : 0 < heartbeatTimeoutS
  progressTimeoutS_pos : 0 < progressTimeoutS

/-- What `evaluate` returns: without heartbeats the answer names no ranks at all. -/
inductive Evaluation where
  | noHeartbeats
  | decided (decision : WatchdogDecision)

namespace Evaluation

def action : Evaluation → WatchdogAction
  | noHeartbeats => .none
  | decided decision => decision.action

def staleRanks : Evaluation → List Int
  | noHeartbeats => []
  | decided decision => decision.staleRanks

end Evaluation

namespace Watchdog

def record (w : Watchdog) (beat : ControlHeartbeat) : Watchdog :=
  { w with heartbeats := w.heartbeats ++ [beat] }

def evaluate (w : Watchdog) (nowS : ℚ) : Except WatchdogError Evaluation :=
  if w.heartbeats = [] then .ok .noHeartbeats
  else (watchdogDecision w.heartbeats nowS w.heartbeatTimeoutS w.progressTimeoutS).map .decided

/-- A run of `record` calls. -/
def recordAll (w : Watchdog) (beats : List ControlHeartbeat) : Watchdog := beats.foldl record w

@[simp] theorem recordAll_heartbeats (w : Watchdog) (beats : List ControlHeartbeat) :
    (w.recordAll beats).heartbeats = w.heartbeats ++ beats := by
  induction beats generalizing w with
  | nil => exact (append_nil _).symm
  | cons beat beats ih =>
    show ((w.record beat).recordAll beats).heartbeats = _
    rw [ih, record, append_assoc, singleton_append]

end Watchdog

/-! ### What the scan finds -/

section Scan

variable (nowS timeoutS : ℚ)

def Outdated (beat : ControlHeartbeat) : Prop := timeoutS < nowS - beat.atS

instance (beat : ControlHeartbeat) : Decidable (Outdated nowS timeoutS beat) :=
  inferInstanceAs (Decidable (_ < _))

variable (rank : Int) (beats : List ControlHeartbeat)

/-- The sequence number the scan keeps for a rank. -/
def trackedSeq : Option Int :=
  beats.foldl (fun seq beat =>
    if beat.rank = rank then some (max (orLastSeq seq beat.lastSeq) beat.lastSeq) else seq) none

theorem trackedSeq_append (beat : ControlHeartbeat) : trackedSeq rank (beats ++ [beat]) =
      if beat.rank = rank
      then some (max (orLastSeq (trackedSeq rank beats) beat.lastSeq) beat.lastSeq)
      else trackedSeq rank beats := foldl_append

/-- A heartbeat that is not outdated and repeats the sequence number tracked for its rank. -/
def StuckAt : Prop :=
  ∃ before beat, before ++ [beat] <+: beats ∧ beat.rank = rank ∧
    trackedSeq rank before = some beat.lastSeq ∧ ¬ Outdated nowS timeoutS beat

/-- **The scan.**  The ranks of the outdated heartbeats are stale, and the ranks that repeat a
sequence number are stuck. -/
theorem scan_spec : (beats.foldl (scanBeat nowS timeoutS) {}).stale =
      (beats.filter fun beat => Outdated nowS timeoutS beat).map ControlHeartbeat.rank ∧
    (∀ rank, rank ∈ (beats.foldl (scanBeat nowS timeoutS) {}).stuck ↔
      StuckAt nowS timeoutS rank beats) ∧
    ∀ rank, (beats.foldl (scanBeat nowS timeoutS) {}).latestSeq.get? rank =
      trackedSeq rank beats := by
  induction beats using List.reverseRecOn with
  | nil =>
    refine ⟨rfl, fun rank => ⟨nofun, ?_⟩, fun rank => rfl⟩
    rintro ⟨before, beat, hpre, -⟩
    exact absurd (prefix_nil.mp hpre) (append_ne_nil_of_right_ne_nil _ nofun)
  | append_singleton beats beat ih =>
    obtain ⟨hstale, hstuck, hseq⟩ := ih
    rw [foldl_append]
    generalize beats.foldl (scanBeat nowS timeoutS) {} = scan at hstale hstuck hseq
    rw [foldl_cons, foldl_nil]
    refine ⟨?_, fun rank => ?_, fun rank => ?_⟩
    · rw [filter_append, map_append, ← hstale]
      by_cases hout : timeoutS < nowS - beat.atS
      · rw [scanBeat, if_pos hout]
        have hkeep : [beat].filter (fun beat => Outdated nowS timeoutS beat) = [beat] :=
          filter_cons_of_pos (decide_eq_true (show Outdated nowS timeoutS beat from hout))
        rw [hkeep]
        rfl
      · rw [scanBeat, if_neg hout]
        have hdrop : [beat].filter (fun beat => Outdated nowS timeoutS beat) = [] :=
          filter_cons_of_neg fun h => hout (of_decide_eq_true h)
        rw [hdrop]
        exact (append_nil _).symm
    · have hnew : rank ∈ (scanBeat nowS timeoutS scan beat).stuck ↔
          (beat.rank = rank ∧ trackedSeq rank beats = some beat.lastSeq ∧
            ¬ Outdated nowS timeoutS beat) ∨ rank ∈ scan.stuck := by
        rw [scanBeat]
        rw [Outdated, not_lt, ← hseq rank]
        by_cases hrepeat : scan.latestSeq.get? beat.rank = some beat.lastSeq ∧
            nowS - beat.atS ≤ timeoutS
        · rw [if_pos hrepeat, mem_append, mem_singleton, or_comm]
          refine or_congr_left ⟨?_, fun h => h.1.symm⟩
          rintro rfl
          exact ⟨rfl, hrepeat⟩
        · rw [if_neg hrepeat]
          refine (or_iff_right ?_).symm
          rintro ⟨rfl, h⟩
          exact hrepeat h
      rw [hnew, hstuck]
      constructor
      · rintro (⟨hrank, hrest⟩ | ⟨before, b, hpre, hb⟩)
        · exact ⟨beats, beat, prefix_rfl, hrank, hrest⟩
        · exact ⟨before, b, hpre.trans (prefix_append _ _), hb⟩
      · rintro ⟨before, b, hpre, hb⟩
        rcases prefix_concat_iff.mp hpre with heq | hpre
        · obtain ⟨rfl, hlast⟩ := append_inj' heq rfl
          obtain rfl := (List.cons.inj hlast).1
          exact .inl hb
        · exact .inr ⟨before, b, hpre, hb⟩
    · rw [trackedSeq_append, ← hseq rank]
      rw [scanBeat]
      rw [OrderedDict.get?_set]
      by_cases hrank : beat.rank = rank
      · subst hrank
        rw [if_pos rfl]
      · rw [if_neg hrank, if_neg fun h => hrank h.symm]

end Scan

/-! ### The latest heartbeat and the last advance of a rank -/

/-- The times of every rank do not decrease. -/
def InOrder (beats : List ControlHeartbeat) : Prop :=
  beats.Pairwise fun a b => a.rank = b.rank → a.atS ≤ b.atS

instance (beats : List ControlHeartbeat) : Decidable (InOrder beats) :=
  inferInstanceAs (Decidable (List.Pairwise _ _))

def latest (rank : Int) (beats : List ControlHeartbeat) : Option ControlHeartbeat :=
  (beats.filter fun beat => beat.rank = rank).getLast?

/-- The highest sequence number a rank has reported, and when it reported it first. -/
def lastAdvance (rank : Int) (beats : List ControlHeartbeat) : Option (Int × ℚ) :=
  beats.foldl (fun advance beat =>
    if beat.rank = rank then
      match advance with
      | none => some (beat.lastSeq, beat.atS)
      | some (seq, atS) => if seq < beat.lastSeq then some (beat.lastSeq, beat.atS) else some (seq, atS)
    else advance) none

variable {beats : List ControlHeartbeat} {rank : Int}

theorem latest_spec (horder : InOrder beats) {beat : ControlHeartbeat}
    (h : latest rank beats = some beat) :
    beat ∈ beats ∧ beat.rank = rank ∧ ∀ b ∈ beats, b.rank = rank → b.atS ≤ beat.atS := by
  obtain ⟨before, hbefore⟩ := List.getLast?_eq_some_iff.mp h
  have hmem : beat ∈ beats.filter fun b => b.rank = rank := by
    rw [hbefore]
    exact mem_append_right _ (mem_singleton_self _)
  obtain ⟨hin, hrank⟩ := mem_filter.mp hmem
  rw [decide_eq_true_eq] at hrank
  refine ⟨hin, hrank, fun b hb hbrank => ?_⟩
  have hb' : b ∈ before ++ [beat] := by
    rw [← hbefore]
    exact mem_filter.mpr ⟨hb, decide_eq_true hbrank⟩
  have hpairs : (before ++ [beat]).Pairwise fun a b => a.rank = b.rank → a.atS ≤ b.atS := by
    rw [← hbefore]
    exact horder.filter _
  rcases mem_append.mp hb' with hb' | hb'
  · exact (pairwise_append.mp hpairs).2.2 b hb' beat (mem_singleton_self _)
      (hbrank.trans hrank.symm)
  · rw [mem_singleton.mp hb']

theorem exists_latest {beat : ControlHeartbeat} (h : beat ∈ beats) :
    ∃ b, latest beat.rank beats = some b := by
  have hne : (beats.filter fun b => b.rank = beat.rank) ≠ [] :=
    ne_nil_of_mem (mem_filter.mpr ⟨h, decide_eq_true rfl⟩)
  exact ⟨_, List.getLast?_eq_some_getLast hne⟩

theorem lastAdvance_mem {advance : Int × ℚ} (h : lastAdvance rank beats = some advance) :
    ∃ beat ∈ beats, beat.rank = rank ∧ beat.atS = advance.2 := by
  induction beats using List.reverseRecOn generalizing advance with
  | nil => cases h
  | append_singleton beats beat ih =>
    have hlast : beat ∈ beats ++ [beat] := mem_append_right _ (mem_singleton_self _)
    have hkeep : ∀ a, lastAdvance rank beats = some a →
        ∃ b ∈ beats ++ [beat], b.rank = rank ∧ b.atS = a.2 := by
      intro a ha
      obtain ⟨b, hb, hb'⟩ := ih ha
      exact ⟨b, mem_append_left _ hb, hb'⟩
    rw [lastAdvance, foldl_append, foldl_cons] at h
    by_cases hrank : beat.rank = rank
    · rw [if_pos hrank] at h
      rcases hprev : lastAdvance rank beats with - | ⟨seq, atS⟩
      · rw [← lastAdvance, hprev] at h
        cases h
        exact ⟨beat, hlast, hrank, rfl⟩
      · rw [← lastAdvance, hprev] at h
        dsimp only at h
        split_ifs at h with hseq
        · cases h
          exact ⟨beat, hlast, hrank, rfl⟩
        · exact hkeep _ (hprev.trans h)
    · rw [if_neg hrank] at h
      exact hkeep _ h

/-- A rank that has sent a heartbeat has advanced once. -/
theorem exists_lastAdvance (h : ∃ beat ∈ beats, beat.rank = rank) :
    ∃ advance, lastAdvance rank beats = some advance := by
  induction beats using List.reverseRecOn with
  | nil =>
    obtain ⟨beat, hbeat, -⟩ := h
    cases hbeat
  | append_singleton beats beat ih =>
    rw [lastAdvance, foldl_append, foldl_cons, ← lastAdvance]
    by_cases hrank : beat.rank = rank
    · rw [if_pos hrank]
      rcases lastAdvance rank beats with - | ⟨seq, atS⟩
      · exact ⟨_, rfl⟩
      · dsimp only
        split_ifs
        · exact ⟨_, rfl⟩
        · exact ⟨_, rfl⟩
    · rw [if_neg hrank]
      refine ih ?_
      obtain ⟨b, hb, hbrank⟩ := h
      rcases mem_append.mp hb with hb | hb
      · exact ⟨b, hb, hbrank⟩
      · rw [mem_singleton.mp hb] at hbrank
        exact absurd hbrank hrank

/-! ### Judging ranks by their latest heartbeat -/

namespace Watchdog

variable (w : Watchdog) (nowS : ℚ)

def Stale (rank : Int) : Prop :=
  ∃ beat, latest rank w.heartbeats = some beat ∧ Outdated nowS w.heartbeatTimeoutS beat

/-- The rank's sequence number has not advanced for longer than the progress timeout. -/
def Stalled (rank : Int) : Prop :=
  ∃ advance, lastAdvance rank w.heartbeats = some advance ∧ w.progressTimeoutS < nowS - advance.2

/-- What an evaluation is meant to report. -/
structure Judges (evaluation : Evaluation) : Prop where
  stale : ∀ rank, rank ∈ evaluation.staleRanks ↔ w.Stale nowS rank
  restart : evaluation.action = .abortAndRestart ↔ ∃ rank, w.Stale nowS rank
  group : evaluation.action = .abortGroup ↔
    (¬ ∃ rank, w.Stale nowS rank) ∧ ∃ rank, w.Stalled nowS rank

def Uniform : Prop :=
  ∀ a ∈ w.heartbeats, Outdated nowS w.heartbeatTimeoutS a →
    ∀ b ∈ w.heartbeats, b.rank = a.rank → Outdated nowS w.heartbeatTimeoutS b

/-- When a rank has stalled and no heartbeat is outdated, some heartbeat repeats the sequence
number tracked for its rank and the newest heartbeat is older than the progress timeout. -/
def StallsShow : Prop :=
  (∀ a ∈ w.heartbeats, ¬ Outdated nowS w.heartbeatTimeoutS a) →
    (∃ rank, w.Stalled nowS rank) →
      (∃ rank, StuckAt nowS w.heartbeatTimeoutS rank w.heartbeats) ∧
        newestOlderThan w.heartbeats nowS w.progressTimeoutS = true

/-- What an evaluation reports, read off the heartbeats. -/
structure Reports (evaluation : Evaluation) : Prop where
  stale : ∀ rank, rank ∈ evaluation.staleRanks ↔
    ∃ beat ∈ w.heartbeats, beat.rank = rank ∧ Outdated nowS w.heartbeatTimeoutS beat
  restart : evaluation.action = .abortAndRestart ↔
    ∃ beat ∈ w.heartbeats, Outdated nowS w.heartbeatTimeoutS beat
  group : evaluation.action = .abortGroup ↔
    (∀ beat ∈ w.heartbeats, ¬ Outdated nowS w.heartbeatTimeoutS beat) ∧
      (∃ rank, StuckAt nowS w.heartbeatTimeoutS rank w.heartbeats) ∧
      newestOlderThan w.heartbeats nowS w.progressTimeoutS = true

/-- **An evaluation never fails**, and reports by single heartbeats. -/
theorem evaluate_reports : ∃ evaluation, w.evaluate nowS = .ok evaluation ∧ w.Reports nowS evaluation := by
  by_cases hnil : w.heartbeats = []
  · refine ⟨.noHeartbeats, if_pos hnil, fun rank => ?_, ?_, ?_⟩
    · simp [Evaluation.staleRanks, hnil]
    · simp [Evaluation.action, hnil]
    · simp [Evaluation.action, hnil, newestOlderThan]
  · obtain ⟨hstale, hstuck, -⟩ := scan_spec nowS w.heartbeatTimeoutS w.heartbeats
    have hpos : ¬ (w.heartbeatTimeoutS ≤ 0 ∨ w.progressTimeoutS ≤ 0) := by
      rw [not_or, not_le, not_le]
      exact ⟨w.heartbeatTimeoutS_pos, w.progressTimeoutS_pos⟩
    rw [evaluate, if_neg hnil, watchdogDecision, if_neg hpos]
    generalize w.heartbeats.foldl (scanBeat nowS w.heartbeatTimeoutS) {} = scan at hstale hstuck
    have hmem : ∀ rank, rank ∈ sortedRanks scan.stale ↔
        ∃ beat ∈ w.heartbeats, beat.rank = rank ∧ Outdated nowS w.heartbeatTimeoutS beat := by
      intro rank
      rw [sortedRanks, mem_insertionSort, hstale, mem_map]
      simp only [mem_filter, decide_eq_true_eq, and_assoc]
      exact exists_congr fun beat => and_congr_right fun _ => and_comm
    have hsome : scan.stale ≠ [] ↔
        ∃ beat ∈ w.heartbeats, Outdated nowS w.heartbeatTimeoutS beat := by
      rw [hstale, ne_eq, map_eq_nil_iff, filter_eq_nil_iff]
      push Not
      simp only [decide_eq_true_eq]
    have hrepeats : scan.stuck ≠ [] ↔
        ∃ rank, StuckAt nowS w.heartbeatTimeoutS rank w.heartbeats := by
      constructor
      · intro h
        obtain ⟨rank, hrank⟩ := exists_mem_of_ne_nil _ h
        exact ⟨rank, (hstuck rank).mp hrank⟩
      · rintro ⟨rank, h⟩
        exact ne_nil_of_mem ((hstuck rank).mpr h)
    by_cases hout : scan.stale ≠ []
    · rw [if_pos hout]
      refine ⟨_, rfl, hmem, ⟨fun _ => hsome.mp hout, fun _ => rfl⟩, ⟨nofun, ?_⟩⟩
      rintro ⟨hnone, -⟩
      obtain ⟨beat, hbeat, h⟩ := hsome.mp hout
      exact absurd h (hnone beat hbeat)
    · have hnone : ∀ beat ∈ w.heartbeats, ¬ Outdated nowS w.heartbeatTimeoutS beat := by
        intro beat hbeat h
        exact hout (hsome.mpr ⟨beat, hbeat, h⟩)
      rw [if_neg hout]
      by_cases hgroup : scan.stuck ≠ [] ∧
          newestOlderThan w.heartbeats nowS w.progressTimeoutS = true
      · rw [if_pos hgroup]
        refine ⟨_, rfl, hmem, ⟨nofun, fun h => absurd (hsome.mpr h) hout⟩, ⟨fun _ => ?_,
        fun _ => rfl⟩⟩
        exact ⟨hnone, hrepeats.mp hgroup.1, hgroup.2⟩
      · rw [if_neg hgroup]
        refine ⟨_, rfl, hmem, ⟨nofun, fun h => absurd (hsome.mpr h) hout⟩, ⟨nofun, ?_⟩⟩
        rintro ⟨-, hstuckAt, hnew⟩
        exact absurd ⟨hrepeats.mpr hstuckAt, hnew⟩ hgroup

variable {w nowS}

section

variable (horder : InOrder w.heartbeats)

include horder

theorem exists_stalled
    (h : newestOlderThan w.heartbeats nowS w.progressTimeoutS = true) :
    ∃ rank, w.Stalled nowS rank := by
  rw [newestOlderThan] at h
  rcases hlast : w.heartbeats.getLast? with - | beat
  · rw [hlast] at h
    cases h
  · rw [hlast] at h
    have hold : w.progressTimeoutS < nowS - beat.atS := of_decide_eq_true h
    obtain ⟨before, hbefore⟩ := List.getLast?_eq_some_iff.mp hlast
    have hmem : beat ∈ w.heartbeats := hbefore ▸ mem_append_right _ (mem_singleton_self _)
    obtain ⟨advance, hadvance⟩ := exists_lastAdvance ⟨beat, hmem, rfl⟩
    refine ⟨beat.rank, advance, hadvance, ?_⟩
    -- the rank advanced at one of its heartbeats, none of which is newer than its last one
    obtain ⟨b, hb, hrank, hat⟩ := lastAdvance_mem hadvance
    have hle : b.atS ≤ beat.atS := by
      rw [hbefore] at hb horder
      rcases mem_append.mp hb with hb | hb
      · exact (pairwise_append.mp horder).2.2 b hb beat (mem_singleton_self _) hrank
      · rw [mem_singleton.mp hb]
    linarith

/-- With uniform ranks, a rank has an outdated heartbeat exactly when its latest one is. -/
theorem stale_iff_of_uniform (huniform : w.Uniform nowS) (rank : Int) : w.Stale nowS rank ↔
      ∃ beat ∈ w.heartbeats, beat.rank = rank ∧ Outdated nowS w.heartbeatTimeoutS beat := by
  constructor
  · rintro ⟨beat, hlatest, hout⟩
    obtain ⟨hmem, hrank, -⟩ := latest_spec horder hlatest
    exact ⟨beat, hmem, hrank, hout⟩
  · rintro ⟨beat, hmem, rfl, hout⟩
    obtain ⟨b, hlatest⟩ := exists_latest hmem
    obtain ⟨hb, hrank, -⟩ := latest_spec horder hlatest
    exact ⟨b, hlatest, huniform beat hmem hout b hb hrank⟩

theorem judges_of_reports (huniform : w.Uniform nowS)
    (hstalls : w.StallsShow nowS) {evaluation : Evaluation} (h : w.Reports nowS evaluation) :
    w.Judges nowS evaluation := by
  have hstale := stale_iff_of_uniform horder huniform
  have hany : (∃ rank, w.Stale nowS rank) ↔
      ∃ beat ∈ w.heartbeats, Outdated nowS w.heartbeatTimeoutS beat := by
    constructor
    · rintro ⟨rank, hrank⟩
      obtain ⟨beat, hmem, -, hout⟩ := (hstale rank).mp hrank
      exact ⟨beat, hmem, hout⟩
    · rintro ⟨beat, hmem, hout⟩
      exact ⟨beat.rank, (hstale beat.rank).mpr ⟨beat, hmem, rfl, hout⟩⟩
  refine ⟨fun rank => (h.stale rank).trans (hstale rank).symm, h.restart.trans hany.symm, ?_⟩
  rw [h.group, hany]
  push Not
  constructor
  · rintro ⟨hnone, -, hnew⟩
    exact ⟨hnone, exists_stalled horder hnew⟩
  · rintro ⟨hnone, hstalled⟩
    exact ⟨hnone, hstalls hnone hstalled⟩

theorem uniform_of_judges {evaluation : Evaluation}
    (hreports : w.Reports nowS evaluation) (h : w.Judges nowS evaluation) : w.Uniform nowS := by
  intro a ha hout b hb hrank
  obtain ⟨beat, hlatest, hbeat⟩ := (h.stale a.rank).mp ((hreports.stale a.rank).mpr ⟨a, ha, rfl, hout⟩)
  obtain ⟨-, -, hle⟩ := latest_spec horder hlatest
  have := hle b hb hrank
  rw [Outdated] at hbeat ⊢
  linarith

theorem stallsShow_of_judges {evaluation : Evaluation}
    (hreports : w.Reports nowS evaluation) (h : w.Judges nowS evaluation) :
    w.StallsShow nowS := by
  intro hnone hstalled
  have hfresh : ¬ ∃ rank, w.Stale nowS rank := by
    rintro ⟨rank, beat, hlatest, hout⟩
    exact hnone beat (latest_spec horder hlatest).1 hout
  exact (hreports.group.mp (h.group.mpr ⟨hfresh, hstalled⟩)).2

end

/-- **When ranks are judged by their latest heartbeat.**  After any run of `record` calls in which
the times of every rank do not decrease, the evaluation returns, and it reports what it is meant
to exactly when no rank has both an outdated heartbeat and one that is not, and a stalled rank
shows in the newest heartbeat and in a repeated sequence number. -/
theorem judges_iff (w : Watchdog) (hfresh : w.heartbeats = []) (beats : List ControlHeartbeat)
    (horder : InOrder beats) (nowS : ℚ) :
    (∃ evaluation, (w.recordAll beats).evaluate nowS = .ok evaluation ∧
      (w.recordAll beats).Judges nowS evaluation) ↔
    (w.recordAll beats).Uniform nowS ∧ (w.recordAll beats).StallsShow nowS := by
  have horder' : InOrder (w.recordAll beats).heartbeats := by
    rwa [recordAll_heartbeats, hfresh, nil_append]
  obtain ⟨evaluation, heval, hreports⟩ := (w.recordAll beats).evaluate_reports nowS
  constructor
  · rintro ⟨evaluation', heval', hjudges⟩
    cases heval.symm.trans heval'
    exact ⟨uniform_of_judges horder' hreports hjudges, stallsShow_of_judges horder' hreports hjudges⟩
  · rintro ⟨huniform, hstalls⟩
    exact ⟨evaluation, heval, judges_of_reports horder' huniform hstalls hreports⟩

def every15 : Watchdog where
  heartbeatTimeoutS := 15
  progressTimeoutS := 30
  heartbeatTimeoutS_pos := by norm_num
  progressTimeoutS_pos := by norm_num

def beatAt (lastSeq : Int) (atS : ℚ) : ControlHeartbeat :=
  { rank := 0, pid := 1, lastSeq := lastSeq, state := "IN_FLIGHT", atS := atS }

/-- Two heartbeats of a rank that then fell silent, and two of a rank that goes on. -/
def silentBeats : List ControlHeartbeat :=
  [beatAt 3 0, beatAt 4 2, { beatAt 3 10 with rank := 1 }, { beatAt 5 20 with rank := 1 }]

theorem silent_rank_judged : ∃ evaluation,
    (every15.recordAll silentBeats).evaluate 21 = .ok evaluation ∧
    (every15.recordAll silentBeats).Judges 21 evaluation := by
  have hbeats : (every15.recordAll silentBeats).heartbeats = silentBeats := recordAll_heartbeats ..
  refine (judges_iff every15 rfl silentBeats (by decide +kernel) 21).mpr ⟨?_, fun hnone => ?_⟩
  · rw [Uniform, hbeats]
    decide +kernel
  · rw [hbeats] at hnone
    exact absurd (hnone (beatAt 3 0) mem_cons_self) (by decide +kernel)

/-- A healthy rank that sent heartbeats at 0 and at 20 seconds is aborted at 21. -/
theorem healthy_rank_aborted :
    ¬ ∀ (w : Watchdog) (beats : List ControlHeartbeat) (nowS : ℚ), w.heartbeats = [] →
      InOrder beats → ∃ evaluation, (w.recordAll beats).evaluate nowS = .ok evaluation ∧
        (w.recordAll beats).Judges nowS evaluation := by
  intro h
  obtain ⟨evaluation, heval, hjudges⟩ := h every15 [beatAt 3 0, beatAt 4 20] 21 rfl (by decide)
  have haction : evaluation.action = .abortAndRestart := by
    obtain ⟨evaluation', heval', hreports⟩ :=
      (every15.recordAll [beatAt 3 0, beatAt 4 20]).evaluate_reports 21
    cases heval'.symm.trans heval
    refine hreports.restart.mpr ⟨beatAt 3 0, by decide, ?_⟩
    show (15 : ℚ) < 21 - 0
    norm_num
  obtain ⟨rank, beat, hlatest, hout⟩ := hjudges.restart.mp haction
  obtain ⟨-, hrank, hle⟩ := latest_spec (by decide) hlatest
  have hzero : rank = 0 := by
    rw [← hrank]
    obtain ⟨hmem, -, -⟩ := latest_spec (by decide) hlatest
    have hall : ∀ b ∈ (every15.recordAll [beatAt 3 0, beatAt 4 20]).heartbeats, b.rank = 0 := by decide
    exact hall beat hmem
  have := hle (beatAt 4 20) (by decide) hzero.symm
  have hout' : (15 : ℚ) < 21 - beat.atS := hout
  have h20 : (20 : ℚ) ≤ beat.atS := this
  linarith

end Watchdog

end Hqsb.Distributed
