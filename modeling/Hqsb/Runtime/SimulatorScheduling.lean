/-
Hqsb/Runtime/SimulatorScheduling.lean

The scheduling loop and the completion loop of the scheduler simulator.

A pass of the scheduling loop does one act of a run and takes its `demand` out of the
budget; `leftOver` is what the demands leave, as a function of the runs alone.  The
loops are described by what they did once they have passed a list of runs
(`Schedule.Passed`, `Completed`), by induction on that list.  The last section says
when a chunk stays inside the reservation of its run.
-/
import Hqsb.Runtime.SimulatorAdmission

namespace Hqsb

open Lib List OrderedDict
open Relation (ReflTransGen)

namespace SchedulerSimulator

variable {spec : SchedulerSpec} {iteration : Nat}

/-! ### Scheduling -/

/-- The positions that a pass gives to a run out of what is left of the budget. -/
def demand (spec : SchedulerSpec) (run : RequestRun) (budget : Int) : Int :=
  if run.state ≠ .running then 0
  else if run.prefilled then if budget < 1 then 0 else 1
  else if allowance spec run budget ≤ 0 then 0
  else if run.computed + allowance spec run budget = run.spec.promptTokens then
    allowance spec run budget + 1
  else allowance spec run budget

variable {budget : Int} {run : RequestRun} {amount : Nat} {k : String} {s s' : Schedule}

theorem demand_of_not_running (hstate : run.state ≠ .running) :
    demand spec run budget = 0 := if_pos hstate

theorem demand_of_prefilled (hstate : run.state = .running) (hprefilled : run.prefilled = true) :
    demand spec run budget = if budget < 1 then 0 else 1 := by
  simp only [demand, hstate, ne_eq, not_true_eq_false, if_false, hprefilled, if_true]

theorem demand_of_no_allowance (hstate : run.state = .running) (hinside : ¬ run.prefilled = true)
    (hnone : allowance spec run budget ≤ 0) :
    demand spec run budget = 0 := by
  simp only [demand, hstate, ne_eq, not_true_eq_false, if_false, hinside, Bool.false_eq_true,
    if_pos hnone]

theorem demand_of_inside (hstate : run.state = .running) (hinside : ¬ run.prefilled = true)
    (hamount : allowance spec run budget = amount) (hpos : 0 < amount) :
    demand spec run budget =
      if run.computed + amount = run.spec.promptTokens then (amount : Int) + 1 else amount := by
  have hsome : ¬ (amount : Int) ≤ 0 := by omega
  simp only [demand, hstate, hinside,
    hamount, if_neg hsome]
  norm_cast

def Scheduled (iteration : Nat) (run run' : RequestRun) : Prop :=
  ReflTransGen (RequestRun.Act iteration) run run' ∧ run'.state = run.state

theorem Scheduled.refl (run : RequestRun) : Scheduled iteration run run := ⟨.refl, rfl⟩

theorem Scheduled.trans {u v w : RequestRun} (h : Scheduled iteration u v)
    (h' : Scheduled iteration v w) : Scheduled iteration u w :=
  ⟨h.1.trans h'.1, h'.2.trans h.2⟩

def Schedule.handed (s : Schedule) : Nat := s.scheduled.sum id

/-- The pass for `k` gave `amount` positions, which made its run `run'`. -/
structure Schedule.Served (s s' : Schedule) (k : String) (run' : RequestRun) (amount : Nat) :
    Prop where
  get? : ∀ key, s'.runs.get? key = if key = k then some run' else s.runs.get? key
  keys : s'.runs.keys = s.runs.keys
  total : totalComputed s'.runs = totalComputed s.runs + amount
  scheduled : ∀ key ∈ s'.scheduled.keys, key = k ∨ key ∈ s.scheduled.keys
  handed : s'.handed = s.handed + amount
  budget : s'.budget = s.budget - amount

theorem allowance_le (spec : SchedulerSpec) (run : RequestRun) (budget : Int) :
    allowance spec run budget ≤ run.spec.promptTokens - run.computed ∧
      allowance spec run budget ≤ budget := by
  rw [allowance]
  split_ifs
  · exact ⟨(min_le_left _ _).trans (min_le_left _ _), min_le_right _ _⟩
  · exact ⟨min_le_left _ _, min_le_right _ _⟩

theorem served_skip (hrun : s.runs.get? k = some run) : s.Served s k run 0 where
  get? := by
    intro key
    split_ifs with hkey
    · rw [hkey, hrun]
    · rfl
  keys := rfl
  total := rfl
  scheduled := fun _ h => .inr h
  handed := rfl
  budget := (sub_zero _).symm

theorem served_set {run' : RequestRun} (hrun : s.runs.get? k = some run)
    (hnew : k ∉ s.scheduled.keys) (hcomputed : run'.computed = run.computed + amount)
    (hruns : s'.runs = s.runs.set k run') (hscheduled : s'.scheduled = s.scheduled.set k amount)
    (hbudget : s'.budget = s.budget - amount) :
    s.Served s' k run' amount where
  get? := by
    intro key
    rw [hruns, get?_set]
  keys := by rw [hruns, keys_set_of_get? run' hrun]
  total := by
    have hset := total_set run' hrun
    rw [hruns]
    omega
  scheduled := by
    intro key hkey
    rw [hscheduled] at hkey
    exact (mem_keys_set _ _ _ _).mp hkey
  handed := by
    rw [Schedule.handed, hscheduled, sum_set_of_not_mem id amount hnew]
    rfl
  budget := hbudget

section

variable (hrun : s.runs.get? k = some run)

include hrun

theorem entry_of_not_running (hstate : run.state ≠ .running) :
    s.entry spec iteration k = .ok s := by
  rw [Schedule.entry, hrun]
  exact if_pos (.inr hstate)

theorem entry_of_prefilled (hstate : run.state = .running)
    (hprefilled : run.prefilled = true) :
    s.entry spec iteration k = if s.budget < 1 then .ok s else .ok { s with
      runs := s.runs.set k (run.decode iteration)
      scheduled := s.scheduled.set k ((s.scheduled.get? k).getD 0 + 1)
      decodeTokens := s.decodeTokens + 1
      budget := s.budget - 1 } := by
  have hskip : ¬ (run.done = true ∨ run.state ≠ .running) := by
    rw [not_or, not_not]
    exact ⟨RequestRun.not_done_iff.mpr (.inr hstate), hstate⟩
  simp only [Schedule.entry, hrun, if_neg hskip, hprefilled, not_true_eq_false, if_false]

theorem entry_of_inside (hstate : run.state = .running)
    (hinside : ¬ run.prefilled = true) (hamount : allowance spec run s.budget = amount)
    (hpos : 0 < amount) :
    s.entry spec iteration k =
      if reserveBlocks spec run * spec.blockSize < run.computed + amount then
        .error (.overReserved k)
      else if (run.chunk iteration amount).prefilled = true ∧ run.firstTokenIteration < 0 then
        .ok { s with
          runs := s.runs.set k ((run.chunk iteration amount).firstToken iteration)
          scheduled := s.scheduled.set k (amount + 1)
          prefillTokens := s.prefillTokens + amount
          decodeTokens := s.decodeTokens + 1
          budget := s.budget - amount - 1 }
      else
        .ok { s with
          runs := s.runs.set k (run.chunk iteration amount)
          scheduled := s.scheduled.set k amount
          prefillTokens := s.prefillTokens + amount
          budget := s.budget - amount } := by
  have hskip : ¬ (run.done = true ∨ run.state ≠ .running) := by
    rw [not_or, not_not]
    exact ⟨RequestRun.not_done_iff.mpr (.inr hstate), hstate⟩
  have hsome : ¬ (amount : Int) ≤ 0 := by omega
  have hfirst : (run.chunk iteration amount).firstTokenIteration = run.firstTokenIteration := rfl
  simp only [Schedule.entry, hrun, if_neg hskip, hinside, Bool.false_eq_true, not_false_eq_true,
    if_true, hamount, if_neg hsome, Int.toNat_natCast, OrderedDict.set_set, hfirst]

theorem entry_of_no_allowance (hinside : ¬ run.prefilled = true)
    (hnone : allowance spec run s.budget ≤ 0) : s.entry spec iteration k = .ok s := by
  simp only [Schedule.entry, hrun, hinside, Bool.false_eq_true, not_false_eq_true, if_true,
    if_pos hnone, ite_self]

/-- **A pass of the scheduling loop.**  It does one act of the run, or nothing, and takes
the run's demand out of the budget. -/
theorem entry_served (hnew : k ∉ s.scheduled.keys)
    (hsound : run.Sound) (hleft : run.Unfinished) (h : s.entry spec iteration k = .ok s') :
    ∃ run' amount, Scheduled iteration run run' ∧ s.Served s' k run' amount ∧
      (amount : Int) = demand spec run s.budget := by
  by_cases hstate : run.state = .running
  · by_cases hprefilled : run.prefilled = true
    · rw [entry_of_prefilled hrun hstate hprefilled] at h
      rw [demand_of_prefilled hstate hprefilled]
      split_ifs at h ⊢ with hbudget
      · cases h
        exact ⟨run, 0, .refl run, served_skip hrun, rfl⟩
      · cases h
        have hfirst : (s.scheduled.get? k).getD 0 + 1 = 1 := by
          rw [(get?_eq_none_iff _).mpr hnew]
          rfl
        refine ⟨run.decode iteration, 1, ⟨.single (.decode hstate ?_ (hleft hstate)), rfl⟩, ?_, rfl⟩
        · exact RequestRun.prefilled_iff.mp hprefilled
        · exact served_set hrun hnew rfl rfl (by rw [hfirst]) rfl
    · rcases lt_or_ge 0 (allowance spec run s.budget) with hpos | hnone
      · obtain ⟨amount, hamount⟩ := Int.eq_ofNat_of_zero_le hpos.le
        have hlt : 0 < amount := by omega
        have hinside : run.computed < run.spec.promptTokens := by
          rw [RequestRun.prefilled_iff] at hprefilled
          omega
        have hle := (allowance_le spec run s.budget).1
        rw [entry_of_inside hrun hstate hprefilled hamount hlt] at h
        rw [demand_of_inside hstate hprefilled hamount hlt]
        split_ifs at h with hover hlast
        · -- the chunk completes the prompt: the first token comes with it
          cases h
          have hend : run.computed + amount = run.spec.promptTokens := by
            have hge : run.spec.promptTokens ≤ run.computed + amount :=
              RequestRun.prefilled_iff.mp hlast.1
            omega
          rw [if_pos hend]
          refine ⟨_, amount + 1, ⟨.single (.lastChunk amount hstate hinside hend), rfl⟩,
            served_set hrun hnew rfl rfl rfl ?_, Nat.cast_succ amount⟩
          show s.budget - amount - 1 = s.budget - ((amount + 1 : Nat) : Int)
          omega
        · cases h
          have hend : run.computed + amount < run.spec.promptTokens := by
            have hfirst := hsound.inside_prompt hstate hinside
            have hlt' : ¬ run.spec.promptTokens ≤ run.computed + amount := fun hge =>
              hlast ⟨RequestRun.prefilled_iff.mpr hge, hfirst ▸ Int.negSucc_lt_zero 0⟩
            omega
          rw [if_neg hend.ne]
          exact ⟨_, amount, ⟨.single (.chunk amount hstate hend), rfl⟩,
            served_set hrun hnew rfl rfl rfl rfl, rfl⟩
      · rw [entry_of_no_allowance hrun hprefilled hnone] at h
        cases h
        refine ⟨run, 0, .refl run, served_skip hrun, ?_⟩
        rw [demand_of_no_allowance hstate hprefilled hnone, Nat.cast_zero]
  · rw [entry_of_not_running hrun hstate] at h
    cases h
    refine ⟨run, 0, .refl run, served_skip hrun, ?_⟩
    rw [demand_of_not_running hstate, Nat.cast_zero]

end

/-- What the scheduling loop did once it has passed the runs of `seen`. -/
structure Schedule.Passed (iteration : Nat) (start : Runs) (budget : Int) (seen : List String)
    (s : Schedule) : Prop where
  scheduledRuns : OrderedDict.Pointwise (Scheduled iteration) start s.runs
  untouched : ∀ k, k ∉ seen → s.runs.get? k = start.get? k
  scheduled : ∀ k ∈ s.scheduled.keys, k ∈ seen
  total : totalComputed s.runs = totalComputed start + s.handed
  budget : s.budget = budget - s.handed

/-- What is left of the budget once the runs have taken their demand in turn. -/
def leftOver (spec : SchedulerSpec) (runs : Runs) : List String → Int → Int
  | [], budget => budget
  | k :: rest, budget =>
    leftOver spec runs rest (budget - ((runs.get? k).map (demand spec · budget)).getD 0)

theorem Schedule.Passed.entry {start : Runs} {seen : List String}
    (h : s.Passed iteration start budget seen) (hk : k ∉ seen) (hrun : start.get? k = some run)
    (hsound : run.Sound) (hleft : run.Unfinished) (hentry : s.entry spec iteration k = .ok s') :
    s'.Passed iteration start budget (seen ++ [k]) ∧
      s'.budget = s.budget - demand spec run s.budget := by
  have hrun' : s.runs.get? k = some run := (h.untouched k hk).trans hrun
  obtain ⟨run', amount, hacts, hserved, hamount⟩ :=
    entry_served hrun' (fun hmem => hk (h.scheduled k hmem)) hsound hleft hentry
  have htotal := h.total
  have hbudget := h.budget
  have htotal' := hserved.total
  have hhanded := hserved.handed
  have hbudget' := hserved.budget
  refine ⟨⟨?_, ?_, ?_, ?_, ?_⟩, ?_⟩
  · refine h.scheduledRuns.trans (S := Scheduled iteration) ⟨hserved.keys, ?_⟩
      fun _ _ _ => Scheduled.trans
    intro key old hold
    rw [hserved.get?]
    by_cases hkey : key = k
    · subst hkey
      cases hold.symm.trans hrun'
      exact ⟨run', if_pos rfl, hacts⟩
    · exact ⟨old, (if_neg hkey).trans hold, .refl old⟩
  · intro key hkey
    rw [mem_append, not_or, mem_singleton] at hkey
    rw [hserved.get?, if_neg hkey.2]
    exact h.untouched key hkey.1
  · intro key hkey
    rw [mem_append, mem_singleton]
    rcases hserved.scheduled key hkey with rfl | hmem
    · exact .inr rfl
    · exact .inl (h.scheduled key hmem)
  · omega
  · omega
  · rw [hbudget', hamount]

/-- The runs that are scheduled: none has produced all its tokens. -/
def Ready (runs : Runs) (ids : List String) : Prop :=
  ∀ k ∈ ids, ∃ run, runs.get? k = some run ∧ run.Sound ∧ run.Unfinished

/-- **The scheduling loop.** -/
theorem entries_passed {start : Runs} (ids : List String) {seen : List String}
    (h : s.Passed iteration start budget seen) (hnodup : ids.Nodup)
    (hdisjoint : ∀ k ∈ ids, k ∉ seen) (hready : Ready start ids)
    (hentries : Schedule.entries spec iteration ids s = .ok s') :
    s'.Passed iteration start budget (seen ++ ids) ∧
      s'.budget = leftOver spec start ids s.budget := by
  induction ids generalizing seen s with
  | nil =>
    cases hentries
    rw [append_nil]
    exact ⟨h, rfl⟩
  | cons k rest ih =>
    obtain ⟨hk, hnodup⟩ := nodup_cons.mp hnodup
    obtain ⟨run, hrun, hsound, hleft⟩ := hready k mem_cons_self
    rcases hentry : s.entry spec iteration k with error | t
    · rw [Schedule.entries, hentry] at hentries
      cases hentries
    · rw [Schedule.entries, hentry] at hentries
      obtain ⟨hpassed, hbudget⟩ :=
        h.entry (hdisjoint k mem_cons_self) hrun hsound hleft hentry
      have hrest : ∀ j ∈ rest, j ∉ seen ++ [k] := by
        intro j hj hmem
        rcases mem_append.mp hmem with hseen | hself
        · exact hdisjoint j (mem_cons_of_mem k hj) hseen
        · obtain rfl := mem_singleton.mp hself
          exact hk hj
      obtain ⟨hpassed', hbudget'⟩ := ih hpassed hnodup hrest
        (fun j hj => hready j (mem_cons_of_mem k hj)) hentries
      rw [append_assoc] at hpassed'
      refine ⟨hpassed', hbudget'.trans ?_⟩
      rw [leftOver, hrun, Option.map_some, Option.getD_some, hbudget]

/-! ### The reservation -/

/-- With the whole prompt and output reserved, no chunk leaves the reservation. -/
theorem entry_ok (hfull : spec.admissionReserveFullIsl = true) (s : Schedule) (k : String) :
    ∃ s', s.entry spec iteration k = .ok s' := by
  rcases hrun : s.runs.get? k with - | run
  · rw [Schedule.entry, hrun]
    exact ⟨s, rfl⟩
  · by_cases hstate : run.state = .running
    · by_cases hprefilled : run.prefilled = true
      · rw [entry_of_prefilled hrun hstate hprefilled]
        split_ifs
        · exact ⟨_, rfl⟩
        · exact ⟨_, rfl⟩
      · rcases lt_or_ge 0 (allowance spec run s.budget) with hpos | hnone
        · obtain ⟨amount, hamount⟩ := Int.eq_ofNat_of_zero_le hpos.le
          have hle := (allowance_le spec run s.budget).1
          have hceil : run.spec.promptTokens + run.spec.maxNewTokens ≤
              reserveBlocks spec run * spec.blockSize := by
            rw [reserveBlocks, if_pos hfull, mul_comm]
            exact le_smul_ceilDiv spec.blockSize_pos
          have hinside : ¬ reserveBlocks spec run * spec.blockSize < run.computed + amount := by
            omega
          rw [entry_of_inside hrun hstate hprefilled hamount (by omega)]
          split_ifs
          · exact ⟨_, rfl⟩
          · exact ⟨_, rfl⟩
        · exact ⟨s, entry_of_no_allowance hrun hprefilled hnone⟩
    · exact ⟨s, entry_of_not_running hrun hstate⟩

theorem entries_ok (hfull : spec.admissionReserveFullIsl = true) (ids : List String)
    (s : Schedule) : ∃ s', Schedule.entries spec iteration ids s = .ok s' := by
  induction ids generalizing s with
  | nil => exact ⟨s, rfl⟩
  | cons k rest ih =>
    have hentry : ∃ t, s.entry spec iteration k = .ok t := entry_ok hfull s k
    obtain ⟨t, ht⟩ := hentry
    rw [Schedule.entries, ht]
    exact ih t

/-- With only the computed positions reserved, the first chunk of a run already leaves
its reservation. -/
theorem entry_error (hfull : spec.admissionReserveFullIsl = false)
    (hrun : s.runs.get? k = some run) (hstate : run.state = .running) (hzero : run.computed = 0)
    (hbudget : 0 < s.budget) :
    s.entry spec iteration k = .error (.overReserved k) := by
  have hprompt := run.spec.promptTokens_pos
  have hprefilled : ¬ run.prefilled = true := by
    rw [RequestRun.prefilled_iff]
    omega
  have hpos : 0 < allowance spec run s.budget := by
    rw [allowance]
    split_ifs with hmode
    · have hchunk := spec.chunkSize_pos_iff.mpr hmode
      omega
    · omega
  obtain ⟨amount, hamount⟩ := Int.eq_ofNat_of_zero_le hpos.le
  have hreserve : reserveBlocks spec run = 0 := by
    rw [reserveBlocks, hfull, hzero]
    exact zero_ceilDiv _
  rw [entry_of_inside hrun hstate hprefilled hamount (by omega), if_pos]
  rw [hreserve, hzero, zero_add]
  omega

/-! ### Completion -/

def Ended (iteration : Nat) (run run' : RequestRun) : Prop :=
  run' = run ∨ RequestRun.Act iteration run run' ∧ run' = run.finish iteration

theorem Ended.trans {u v w : RequestRun} (h : Ended iteration u v) (h' : Ended iteration v w) :
    Ended iteration u w := by
  rcases h with rfl | ⟨hact, rfl⟩
  · exact h'
  · rcases h' with rfl | ⟨hact', -⟩
    · exact .inr ⟨hact, rfl⟩
    · exact absurd (RequestRun.done_iff.mpr (.inl rfl)) hact'.not_done

/-- What the last loop did once it has passed the runs of `ids`. -/
structure Completed (iteration : Nat) (ids : List String) (start c : Completion) : Prop where
  ended : OrderedDict.Pointwise (Ended iteration) start.runs c.runs
  untouched : ∀ k, k ∉ ids → c.runs.get? k = start.runs.get? k
  total : totalComputed c.runs = totalComputed start.runs
  running : c.running.Sublist start.running
  unfinished : ∀ k ∈ ids, ∀ run, c.runs.get? k = some run → run.Unfinished

theorem unfinished_of_kept (hsound : run.Sound)
    (hkept : ¬ (run.prefilled = true ∧ run.spec.maxNewTokens ≤ run.outputTokens)) :
    run.Unfinished := by
  intro hstate
  rcases hsound.positions (hsound.not_cancelled (hstate ▸ nofun)) with ⟨hout, -, -⟩ | ⟨-, hpos⟩
  · rw [hout]
    exact run.spec.maxNewTokens_pos
  · refine Nat.lt_of_not_le fun hend => hkept ⟨RequestRun.prefilled_iff.mpr ?_, hend⟩
    omega

theorem completed_pass (iteration : Nat) (c : Completion) (hrun : c.runs.get? k = some run)
    (hsound : run.Sound) (hstate : run.state = .running) :
    Completed iteration [k] c (c.complete iteration k) := by
  have hflag := hsound.not_cancelled (hstate ▸ nofun)
  by_cases hend : run.prefilled = true ∧ run.spec.maxNewTokens ≤ run.outputTokens
  · have hpass : c.complete iteration k =
        { runs := c.runs.set k (run.finish iteration)
          running := c.running.erase k
          finished := c.finished ++ [k] } := by
      simp only [Completion.complete, hrun, hflag, Bool.false_eq_true, if_false, if_pos hend]
    rw [hpass]
    refine ⟨?_, ?_, ?_, erase_sublist, ?_⟩
    · refine pointwise_set (fun _ => .inl rfl) hrun (.inr ⟨.finish hstate ?_ hend.2, rfl⟩)
      exact RequestRun.prefilled_iff.mp hend.1
    · intro j hj
      exact get?_set_of_ne _ _ fun h => hj (mem_singleton.mpr h)
    · have hset := total_set (run.finish iteration) hrun
      have hsame : (run.finish iteration).computed = run.computed := rfl
      show totalComputed (c.runs.set k (run.finish iteration)) = _
      omega
    · intro j hj run' hrun'
      rw [mem_singleton.mp hj, get?_set_self] at hrun'
      cases hrun'
      exact nofun
  · have hpass : c.complete iteration k = c := by
      simp only [Completion.complete, hrun, hflag, Bool.false_eq_true, if_false, if_neg hend]
    rw [hpass]
    refine ⟨OrderedDict.Pointwise.refl (fun _ => .inl rfl) _, fun _ _ => rfl, rfl,
    List.Sublist.refl _,
      fun j hj run' hrun' => ?_⟩
    rw [mem_singleton.mp hj] at hrun'
    cases hrun.symm.trans hrun'
    exact unfinished_of_kept hsound hend

theorem Completed.cons {ids : List String} {c d e : Completion} (hk : k ∉ ids)
    (h : Completed iteration [k] c d) (h' : Completed iteration ids d e) :
    Completed iteration (k :: ids) c e where
  ended := h.ended.trans h'.ended fun _ _ _ => Ended.trans
  untouched := by
    intro j hj
    rw [mem_cons, not_or] at hj
    rw [h'.untouched j hj.2, h.untouched j fun hmem => hj.1 (mem_singleton.mp hmem)]
  total := h'.total.trans h.total
  running := h'.running.trans h.running
  unfinished := by
    intro j hj run hrun
    rcases mem_cons.mp hj with rfl | hmem
    · rw [h'.untouched j hk] at hrun
      exact h.unfinished j (mem_singleton.mpr rfl) run hrun
    · exact h'.unfinished j hmem run hrun

/-- **The last loop.** -/
theorem foldl_complete_completed (ids : List String) (c : Completion) (hnodup : ids.Nodup)
    (hruns : ∀ k ∈ ids, ∃ run, c.runs.get? k = some run ∧ run.Sound ∧ run.state = .running) :
    Completed iteration ids c (ids.foldl (Completion.complete iteration) c) := by
  induction ids generalizing c with
  | nil =>
    exact ⟨OrderedDict.Pointwise.refl (fun _ => .inl rfl) _, fun _ _ => rfl, rfl,
      List.Sublist.refl _, fun _ h => absurd h not_mem_nil⟩
  | cons k ids ih =>
    obtain ⟨hk, hnodup⟩ := nodup_cons.mp hnodup
    obtain ⟨run, hrun, hsound, hstate⟩ := hruns k mem_cons_self
    have hpass := completed_pass iteration c hrun hsound hstate
    refine hpass.cons hk (ih _ hnodup fun j hj => ?_)
    rw [hpass.untouched j fun h => hk (mem_singleton.mp h ▸ hj)]
    exact hruns j (mem_cons_of_mem k hj)

end SchedulerSimulator

end Hqsb
