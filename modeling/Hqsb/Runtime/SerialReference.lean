/-
Hqsb/Runtime/SerialReference.lean

The serial run of one request, and the transparency theorem that compares with it.

`decoder g` is a decoder that keeps the tokens themselves; it refuses nothing.
`alone` is a session in serial mode that is handed one request and no other.  Every
tick of it feeds the request a step (`solo_tick`), so it ends with reason `length` or
`stop` (`solo_ends`): the output "in a serial run with no other request" exists, and
`scheduling_transparent` says that it is what any other run produces.
-/
import Hqsb.Runtime.Progress
import Hqsb.Runtime.Transparency

namespace Hqsb

open Lib Engine List

/-! ### A decoder that keeps the tokens -/

def fedBy (steps : List Step) (id : String) : List Token :=
  ((steps.find? fun s => decide (s.requestId = id)).map Step.tokenIds).getD []

/-- Caches are the fed tokens; the next token is `g` of the cache. -/
def decoder (g : List Token → Token) (contextLimit : Nat) : Executor (String → List Token) where
  contextLimit := contextLimit
  prepare x _ := (none, x)
  execute x steps _ :=
    .ok (steps.map fun s => g (x s.requestId ++ fedBy steps s.requestId),
      fun id => x id ++ fedBy steps id)
  release x id := Function.update x id []

theorem fedBy_mem {steps : List Step} (hn : (steps.map Step.requestId).Nodup) {s : Step}
    (hs : s ∈ steps) : fedBy steps s.requestId = s.tokenIds := by
  rcases hf : steps.find? (fun t => decide (t.requestId = s.requestId)) with - | t
  · have := List.find?_eq_none.mp hf s hs
    simp at this
  · have ht : t ∈ steps := mem_of_find?_eq_some hf
    have hid : t.requestId = s.requestId := by simpa using List.find?_some hf
    rw [fedBy, hf, inj_on_of_nodup_map hn ht hs hid]
    rfl

theorem fedBy_not_mem {steps : List Step} {id : String} (h : id ∉ steps.map Step.requestId) :
    fedBy steps id = [] := by
  have hf : steps.find? (fun t => decide (t.requestId = id)) = none := by
    refine List.find?_eq_none.mpr fun t ht => ?_
    have : t.requestId ≠ id := fun he => h (mem_map.mpr ⟨t, ht, he⟩)
    simpa using this
  rw [fedBy, hf]
  rfl

theorem decoder_faithful (g : List Token → Token) (contextLimit : Nat) :
    Faithful (decoder g contextLimit) (fun x => x) g where
  prepare _ _ := rfl
  release x id id' := by
    by_cases h : id' = id
    · subst h; simp [decoder]
    · simp [decoder, h]
  execute {x x' steps forwardId tokens} hx hn := by
    obtain ⟨rfl, rfl⟩ := Prod.mk.inj (Except.ok.inj hx)
    refine ⟨fun s hs => ?_, fun id hid => ?_, rfl⟩
    · simp only [fedBy_mem hn hs]
    · simp only [fedBy_not_mem hid, append_nil]

/-! ### One request alone -/

variable {σ : Type} {S : Session σ} {g : List Token → Token}

/-- The serial session that is to run one request alone. -/
def serial (S : Session σ) (g : List Token → Token) : Session (String → List Token) where
  executor := decoder g S.executor.contextLimit
  limits := S.limits
  mode := .serial
  eosIds := S.eosIds
  deadline := 1

/-- The request of a row, with nothing that could end it early. -/
def alone (row : Sequence) (h : RowBounds row) : Submission where
  id := row.id
  inputIds := row.inputIds
  limit := row.limit
  received := 0
  deadline := 1
  fixed := row.fixed
  inputIds_ne := h.inputIds_ne
  limit_pos := h.limit_pos

/-- The engine holds one row, and nothing but its output can end it. -/
structure Solo {τ : Type} (S : Session σ) (e : Engine τ) (row : Sequence) : Prop where
  keys : e.rows.keys = [row.id]
  get : e.rows.get? row.id = some row
  deadline : row.deadline = 1
  cancelAt : row.cancelAt = none
  fits : Fits S row

/-- Some number of steps under an idle environment lead from `c` to `c'`. -/
def Reaches (S : Session σ) (c c' : Config σ) : Prop :=
  ∃ n, (List.replicate n ({} : Reading)).foldl S.step c = c'

theorem Reaches.refl (c : Config σ) : Reaches S c c := ⟨0, rfl⟩

theorem Reaches.head {c c' : Config σ} (h : Reaches S (S.step c {}) c') : Reaches S c c' := by
  obtain ⟨n, hn⟩ := h
  exact ⟨n + 1, hn⟩

theorem Reaches.trans {c c' c'' : Config σ} (h : Reaches S c c') (h' : Reaches S c' c'') :
    Reaches S c c'' := by
  obtain ⟨n, rfl⟩ := h
  obtain ⟨m, rfl⟩ := h'
  exact ⟨n + m, by rw [← replicate_append_replicate, foldl_append]⟩

theorem Reaches.reachable {x : σ} {c c' : Config σ} (h : Reaches S c c')
    (hc : (S.machine x).Reachable c) : (S.machine x).Reachable c' := by
  obtain ⟨n, rfl⟩ := h
  exact hc.runFrom (List.replicate n {})

variable {row : Sequence} {τ : Type} {e : Engine τ}

theorem Solo.congr {e' : Engine τ} (h : Solo S e row) (hrows : e'.rows = e.rows) :
    Solo S e' row := ⟨by rw [hrows]; exact h.keys, by rw [hrows]; exact h.get, h.deadline,
      h.cancelAt, h.fits⟩

theorem Solo.values (h : Solo S e row) : e.rows.values = [row] := by
  have hget := e.rows.get?_eq_some_iff.mp h.get
  obtain ⟨entry, hentry⟩ : ∃ entry, e.rows.entries = [entry] := by
    refine length_eq_one_iff.mp ?_
    simpa [OrderedDict.keys] using congrArg List.length h.keys
  rw [hentry, mem_singleton] at hget
  rw [OrderedDict.values, hentry, ← hget]
  rfl

theorem Solo.steps (h : Solo S e row) {steps : List Step} (hsteps : StepsFor e steps)
    (hne : steps ≠ []) :
    ∃ s, steps = [s] ∧ s.requestId = row.id ∧ row.state = .active ∧ StepOf row s ∧
      0 < s.tokenIds.length := by
  have hall : ∀ s ∈ steps, s.requestId = row.id ∧ row.state = .active ∧ StepOf row s ∧
      0 < s.tokenIds.length := by
    intro s hs
    obtain ⟨row', hrow', hactive, hstep, hpos⟩ := hsteps.row s hs
    have hid : s.requestId = row.id := by
      have := OrderedDict.mem_keys_of_get? hrow'
      rwa [h.keys, mem_singleton] at this
    rw [hid, h.get] at hrow'
    cases hrow'
    exact ⟨hid, hactive, hstep, hpos⟩
  rcases steps with - | ⟨s, - | ⟨s', steps⟩⟩
  · exact absurd rfl hne
  · obtain ⟨h1, h2, h3, h4⟩ := hall s mem_cons_self
    exact ⟨s, rfl, h1, h2, h3, h4⟩
  · have hn := hsteps.nodup
    rw [map_cons, map_cons, nodup_cons] at hn
    refine absurd ?_ hn.1
    rw [(hall s (by simp)).1, (hall s' (by simp)).1]
    exact .head _

/-! ### One tick -/

variable {c : Config (String → List Token)}

theorem solo_sweep (hp : c.point = .receive []) (h : Solo S c.engine row)
    (hlive : row.state ≠ .terminal) :
    Reaches (serial S g) c (c.goto (.arrange 0)) := by
  have hexpire : c.engine.expire (serial S g) row 0 false 0 = .ok c.engine := by
    have hlate : ¬ row.deadline ≤ 0 := by rw [h.deadline]; decide +kernel
    have hdue : cancelDue row 0 = false := by rw [cancelDue, h.cancelAt]; rfl
    rw [expire, hdue, if_neg (by decide), if_neg hlate]
  have hclock : ¬ (serial S g).deadline ≤ 0 := by
    show ¬ (1 : ℚ) ≤ 0
    decide +kernel
  have h1 : (serial S g).step c {} = c.goto (.sweep 0 false [row.id]) := by
    simp only [Session.step, hp, h.keys, hclock, Bool.false_eq_true, or_false, decide_false]
  have h2 : (serial S g).step (c.goto (.sweep 0 false [row.id])) {} =
      c.goto (.sweep 0 false []) := by
    simp only [Session.step, Config.goto, h.get, hlive, if_false, hexpire, Config.attempt]
  refine .head ?_
  rw [h1]
  refine .head ?_
  rw [h2]
  refine .head ?_
  exact .refl _

theorem reserve_of_fits {kv : KVManager} {id : String} {needed : Nat} (hkeys : kv.leases.keys = [])
    (hfits : needed ≤ kv.capacity) : ¬ kv.reserve id needed = .ok (none, kv) := by
  have hnil : kv.leases.entries = [] := by simpa [OrderedDict.keys] using hkeys
  have hzero : kv.reserved = 0 := by simp [KVManager.reserved, OrderedDict.sum, OrderedDict.values,
    hnil]
  have hroom : ¬ (kv.capacity : Int) - kv.reserved < needed := by omega
  rw [KVManager.reserve, hkeys, if_neg hroom]
  rintro ⟨⟩

/-- In serial mode nothing is preempted between the sweep and the admission loop. -/
theorem step_arrange_serial (hp : c.point = .arrange 0) (hlive : c.engine.liveRows ≠ []) :
    let waiting := (ordered c.engine.waitingRows S.limits.policy 0 S.limits.agingMs c.engine.service
      S.limits.tenantWeights).map Sequence.id
    (serial S g).step c {} =
      c.goto (.admission 0 waiting (c.engine.activeRows.map Sequence.id) waiting) := by
  have hnotDone : ¬ (c.sealed = true ∧ c.engine.liveRows = []) := fun h => hlive h.2
  simp only [Session.step, hp, Session.arrange, if_neg hnotDone]
  rfl

theorem Solo.ordered_waiting (h : Solo S e row) (weights : OrderedDict String ℚ) :
    ordered e.waitingRows S.limits.policy 0 S.limits.agingMs e.service weights =
      if row.state = .waiting then [row] else [] := by
  have hperm := ordered_perm e.waitingRows S.limits.policy 0 S.limits.agingMs e.service weights
  have hrows : e.waitingRows = if row.state = .waiting then [row] else [] := by
    rw [waitingRows, h.values]
    split_ifs with hw <;> simp [hw]
  rw [hrows] at hperm ⊢
  split_ifs at hperm ⊢
  · exact perm_singleton.mp hperm
  · exact hperm.eq_nil

theorem Solo.activeRows (h : Solo S e row) :
    e.activeRows = if row.state = .active then [row] else [] := by
  rw [Engine.activeRows, h.values]
  split_ifs with ha <;> simp [ha]

theorem Solo.liveRows (h : Solo S e row) (hlive : row.state ≠ .terminal) : e.liveRows ≠ [] := by
  rw [Engine.liveRows, h.values]
  simp [hlive]

theorem Solo.touches {e' : Engine τ} {row' : Sequence} {lease : Option Lease} (h : Solo S e row)
    (ht : Touches e e' row' lease) (hsame : Sequence.SameRequest row row') :
    Solo S e' row' where
  keys := by
    have hmem : ∀ id, id ∈ e'.rows.keys ↔ id ∈ [row'.id] := by
      intro id
      rw [hsame.id, ← OrderedDict.isSome_get?_iff, ht.rows, ← h.keys, ← OrderedDict.isSome_get?_iff,
        hsame.id]
      split_ifs with hid
      · rw [hid, h.get]
        rfl
      · rfl
    exact perm_singleton.mp
      ((perm_ext_iff_of_nodup e'.rows.nodup_keys (nodup_singleton _)).mpr hmem)
  get := (ht.rows row'.id).trans (if_pos rfl)
  deadline := hsame.deadline.trans h.deadline
  cancelAt := hsame.cancelAt.trans h.cancelAt
  fits := h.fits.congr hsame

variable {e : Engine (String → List Token)}

/-- A waiting row that is alone is admitted: the whole capacity is there for it. -/
theorem solo_admits (hI : Inv (serial S g) (e, [])) (h : Solo S e row)
    (hwaiting : row.state = .waiting) :
    ∃ e' lease, e.admitRow row [] 0 = .ok (e', true) ∧ Admits e e' row lease 0 := by
  have hleases : e.kv.leases.keys = [] := by
    refine eq_nil_iff_forall_not_mem.mpr fun id hid => ?_
    obtain ⟨row', hrow', hactive⟩ := hI.mem_leases_iff.mp hid
    have hid' := OrderedDict.mem_keys_of_get? hrow'
    rw [h.keys, mem_singleton] at hid'
    rw [hid', h.get] at hrow'
    cases hrow'
    rw [hwaiting] at hactive
    cases hactive
  have hneeded : row.needed ≤ e.kv.capacity := by
    have hfits := h.fits
    unfold Fits rejection at hfits
    split_ifs at hfits with h1
    rw [hI.capacity]
    exact Nat.le_of_not_lt h1
  have hnot : row.id ∉ e.kv.leases.keys := by rw [hleases]; exact not_mem_nil
  rcases admit_cases e row [] 0 hnot with ⟨hnone, -⟩ | hadms
  · exact absurd hnone (reserve_of_fits hleases hneeded)
  · exact hadms

variable {x : String → List Token}

theorem solo_admission (hr : ((serial S g).machine x).Reachable c) (hp : c.point = .arrange 0)
    (h : Solo S c.engine row) (hlive : row.state ≠ .terminal) :
    ∃ c' row' waiting, Reaches (serial S g) c c' ∧ c'.point = .plan 0 waiting [row.id] ∧
      Solo S c'.engine row' ∧ row'.state = .active ∧ Sequence.SameRequest row row' ∧
      row'.consumed = row.consumed := by
  obtain ⟨hI, -⟩ := reachable_inv hr
  rw [hp] at hI
  have harrange := step_arrange_serial (S := S) (g := g) hp (h.liveRows hlive)
  rw [h.ordered_waiting, h.activeRows] at harrange
  rcases hstate : row.state with - | - | -
  · rw [hstate, if_pos rfl] at harrange
    obtain ⟨e', lease, hadm, admits⟩ := solo_admits hI h hstate
    refine ⟨{ c with engine := e', point := .plan 0 [row.id] [row.id] }, activated row 0, [row.id],
      .head (.head (.head ?_)), rfl, h.touches admits.touches (by constructor <;> rfl), rfl,
      by constructor <;> rfl, rfl⟩
    have hadmitted : (serial S g).step (c.goto (.admission 0 [row.id] [] [row.id])) {} =
        { c with engine := e', point := .admission 0 [row.id] [row.id] [] } := by
      have hcap : ¬ (serial S g).cap ≤ ([] : List String).length := by
        show ¬ 1 ≤ 0
        decide
      simp only [Session.step, Config.goto, if_neg hcap, h.get, hadm, if_true, nil_append]
    rw [harrange]
    exact (congrArg (fun c' => (serial S g).step c' {}) hadmitted) ▸ Reaches.refl _
  · rw [hstate, if_neg (by decide)] at harrange
    refine ⟨{ c with point := .plan 0 [] [row.id] }, row, [], .head (.head ?_), rfl, h, hstate,
      .refl row, rfl⟩
    rw [harrange]
    exact .refl _
  · exact absurd hstate hlive

theorem natural_of_endReason {token : Token} {reason : Reason}
    (h : endReason S row token = some reason) : reason = .length ∨ reason = .stop := by
  rw [endReason] at h
  split_ifs at h
  · exact .inl (Option.some.inj h).symm
  · exact .inr (Option.some.inj h).symm

/-- A commit that is not late feeds the row, or completes it. -/
theorem solo_committed (h : Solo S e row) (hactive : row.state = .active) (lease : Lease)
    (forwardId : String) {step : Step} (hpos : 0 < step.tokenIds.length) (token : Token) :
    ∃ row', Solo S (e.committed (serial S g) row lease forwardId step token 0 0) row' ∧
      Sequence.SameRequest row row' ∧ row.consumed < row'.consumed ∧
      (row'.state ≠ .terminal ∨ Natural row') := by
  have hlive : row.state ≠ .terminal := by rw [hactive]; decide
  have hlt : row.consumed < row.consumed + step.tokenIds.length := Nat.lt_add_of_pos_right hpos
  have htf := touches_fed e row lease forwardId step 0
  have htt := htf.trans (touches_tokened (e.fed row lease forwardId step 0) (feed row step 0)
    forwardId token 0) rfl
  rcases committed_cases (serial S g) e row lease forwardId step token 0 0 with
    ⟨reason, -, hdue, -⟩ | ⟨-, hc⟩ | ⟨-, -, hc⟩ | ⟨-, reason, hend, hc⟩
  · exfalso
    rcases hdue with hlate | hdue
    · rw [h.deadline] at hlate
      exact absurd hlate (by decide)
    · rw [cancelDue, h.cancelAt] at hdue
      cases hdue
  all_goals rw [hc]
  · exact ⟨feed row step 0, h.touches htf (by constructor <;> rfl), by constructor <;> rfl, hlt,
      .inl hlive⟩
  · exact ⟨emitToken (feed row step 0) token 0, h.touches htt (by constructor <;> rfl),
      by constructor <;> rfl, hlt, .inl hlive⟩
  · refine ⟨ended (emitToken (feed row step 0) token 0) reason none 0,
      h.touches (htt.trans (touches_finished (serial S g) _ _ reason none 0) rfl)
        (by constructor <;> rfl), by constructor <;> rfl, hlt, .inr ?_⟩
    rcases natural_of_endReason hend with rfl | rfl
    · exact .inl rfl
    · exact .inr rfl

/-- From the plan to the next tick: the row was fed a step. -/
theorem solo_forward {waiting : List String} (hr : ((serial S g).machine x).Reachable c)
    (hp : c.point = .plan 0 waiting [row.id]) (h : Solo S c.engine row) :
    ∃ c' row', Reaches (serial S g) c c' ∧ c'.point = .receive [] ∧ Solo S c'.engine row' ∧
      Sequence.SameRequest row row' ∧ row.consumed < row'.consumed ∧
      (row'.state ≠ .terminal ∨ Natural row') := by
  obtain ⟨hI, hP⟩ := reachable_inv hr
  rw [hp] at hI hP
  rcases step_plan hp hI hP {} with ⟨hnil, -⟩ | ⟨steps, hne, h1⟩
  · cases hnil
  have hr₁ := hr.step {}
  obtain ⟨hI₁, hP₁⟩ := reachable_inv hr₁
  rw [show ((serial S g).machine x).step c {} = _ from h1] at hr₁ hI₁ hP₁
  obtain ⟨hact, hsteps, -⟩ := hP₁
  obtain ⟨s, rfl, hid, hactive, hstep, hpos⟩ := h.steps hsteps hne
  -- the decoder takes the step as it is
  have h2 : (serial S g).step (c.goto (.prepare waiting [row.id] [s])) {} =
      c.goto (.execute waiting [row.id] [s]) := rfl
  obtain ⟨leases, hleases⟩ := leaseGenerations_ok hI hsteps
  obtain ⟨forwardId, token, e, h3, hrows, hkv⟩ : ∃ forwardId token e,
      (serial S g).step (c.goto (.execute waiting [row.id] [s])) {} =
        { c with engine := e, point := .commit forwardId 0 [(s, token)] } ∧
      e.rows = c.engine.rows ∧ e.kv = c.engine.kv := by
    simp only [Session.step, Config.goto]
    rw [show leaseGenerations { c.engine with forwards := c.engine.forwards + 1 } [s] = .ok leases
      from hleases]
    exact ⟨_, _, _, rfl, rfl, rfl⟩
  have hsolo : Solo S e row := h.congr hrows
  have hr₃ : ((serial S g).machine x).Reachable
      { c with engine := e, point := .commit forwardId 0 [(s, token)] } := by
    have := (hr₁.step {}).step {}
    rw [show ((serial S g).machine x).step (c.goto (.prepare waiting [row.id] [s])) {} = _ from h2,
      show ((serial S g).machine x).step (c.goto (.execute waiting [row.id] [s])) {} = _ from h3]
      at this
    exact this
  obtain ⟨hI₃, -⟩ := reachable_inv hr₃
  have hrow : e.rows.get? s.requestId = some row := by rw [hid]; exact hsolo.get
  obtain ⟨lease, hlease⟩ := e.kv.leases.mem_keys_iff.mp
    (hI₃.mem_leases_iff.mpr ⟨row, hrow, hactive⟩)
  have hinv := hI₃.rowInv hrow
  simp only at hinv
  rw [hlease] at hinv
  have hcommit := commitStep_eq (serial S g) forwardId token 0 0 hrow hid.symm hlease
    (hinv.commit_le hstep)
  obtain ⟨row', hsolo', hsame, hlt, hnext⟩ :=
    solo_committed (g := g) hsolo hactive lease forwardId hpos token
  refine ⟨{ c with
    engine := { e.committed (serial S g) row lease forwardId s token 0 0 with
      tick := (e.committed (serial S g) row lease forwardId s token 0 0).tick + 1 }
    point := .receive [] }, row', ?_, rfl, hsolo'.congr rfl, hsame, hlt, hnext⟩
  have h4 : (serial S g).step { c with engine := e, point := .commit forwardId 0 [(s, token)] } {} =
      { c with engine := e.committed (serial S g) row lease forwardId s token 0 0,
               point := .commit forwardId 0 [] } := by
    simp only [Session.step, hcommit, Config.attempt]
  refine .head ?_
  rw [h1]
  refine .head ?_
  rw [h2]
  refine .head ?_
  rw [h3]
  refine .head ?_
  rw [h4]
  exact .head (.head (.refl _))

/-- **The request of a serial run ends by its own output.** -/
theorem solo_ends (hr : ((serial S g).machine x).Reachable c) (hp : c.point = .receive [])
    (h : Solo S c.engine row) (hlive : row.state ≠ .terminal) :
    ∃ c' row', Reaches (serial S g) c c' ∧ c'.engine.rows.get? row.id = some row' ∧
      Sequence.SameRequest row row' ∧ Natural row' := by
  -- what is left of the history a row can ever have
  induction hn : row.inputIds.length + row.limit - row.consumed using Nat.strong_induction_on
    generalizing c row with
  | _ n ih =>
    have hsweep := solo_sweep (g := g) hp h hlive
    obtain ⟨c₁, row₁, waiting, hreach₁, hp₁, h₁, -, hsame₁, hconsumed₁⟩ :=
      solo_admission (hsweep.reachable hr) rfl (h : Solo S (c.goto (.arrange 0)).engine row) hlive
    have hr₁ := hreach₁.reachable (hsweep.reachable hr)
    obtain ⟨c₂, row₂, hreach₂, hp₂, h₂, hsame₂, hlt, hnext⟩ :=
      solo_forward hr₁ (by rw [hsame₁.id] ; exact hp₁) h₁
    have hsame := hsame₁.trans hsame₂
    have hreach := (hsweep.trans hreach₁).trans hreach₂
    rcases hnext with hlive₂ | hnatural
    · obtain ⟨hI, -⟩ := reachable_inv hr
      have hinv := hI.rowInv h.get
      have hc := hinv.consumed_lt hlive
      have ho := hinv.output_lt hlive
      rw [Sequence.length_history] at hc
      have hless : row₂.inputIds.length + row₂.limit - row₂.consumed < n := by
        rw [hsame.inputIds, hsame.limit]
        omega
      obtain ⟨c₃, row₃, hreach₃, hget₃, hsame₃, hnat⟩ :=
        ih _ hless (hreach.reachable hr) hp₂ h₂ hlive₂ rfl
      refine ⟨c₃, row₃, hreach.trans hreach₃, ?_, hsame.trans hsame₃, hnat⟩
      rw [← hsame.id]
      exact hget₃
    · refine ⟨c₂, row₂, hreach, ?_, hsame, hnatural⟩
      rw [← hsame.id]
      exact h₂.get

/-- A request that `accept` lets through becomes a row that is alone. -/
theorem solo_start (hrow : RowBounds row) (hfits : Fits S row) :
    let c := ((serial S g).machine fun _ => []).run [{ batch := [.submit (alone row hrow)] }, {}]
    c.point = .receive [] ∧ Solo S c.engine (.ofSubmission (alone row hrow)) := by
  let e : Engine (String → List Token) := { (serial S g).start (fun _ => []) with tick := 1 }
  have haccept : e.accept (serial S g) (.ofSubmission (alone row hrow)) 0 =
      .ok (e.accepted (.ofSubmission (alone row hrow))) := by
    rw [accept_eq, if_neg (by exact not_mem_nil)]
    rw [show rejection (serial S g) e.kv (.ofSubmission (alone row hrow)) = none from hfits]
  have hrun : ((serial S g).machine fun _ => []).run
      [{ batch := [.submit (alone row hrow)] }, {}] =
      { engine := e.accepted (.ofSubmission (alone row hrow)), point := .receive [] } := by
    show Config.attempt _ (e.accept (serial S g) (.ofSubmission (alone row hrow)) 0) _ = _
    rw [haccept]
    rfl
  rw [hrun]
  exact ⟨rfl, rfl, ((touches_accepted e _).rows _).trans (if_pos rfl), rfl, rfl, hfits⟩

/-- Some serial run of the row's request and no other ends it by its own output. -/
theorem exists_serial_run (hrow : RowBounds row) (hfits : Fits S row) :
    ∃ n row', (((serial S g).machine fun _ => []).run
      ({ batch := [.submit (alone row hrow)] } :: List.replicate n {})).engine.rows.get? row.id =
        some row' ∧ Sequence.SameRequest (.ofSubmission (alone row hrow)) row' ∧ Natural row' := by
  obtain ⟨hp, hsolo⟩ := solo_start (g := g) hrow hfits
  obtain ⟨c, row', ⟨n, hn⟩, hget, hsame, hnat⟩ :=
    solo_ends (Machine.reachable_run _) hp hsolo (by nofun)
  refine ⟨n + 1, row', ?_, hsame, hnat⟩
  rw [← hn] at hget
  exact hget

/-! ### Transparency -/

/-- What scheduling leaves of the decoder's output in a configuration. -/
structure Transparent (S : Session σ) (g : List Token → Token) (c : Config σ) : Prop where
  /-- Each token is the decoder's choice after the input and the tokens before it. -/
  follows : ∀ id row, c.engine.rows.get? id = some row → ∀ i (hi : i < row.output.length),
    row.output[i] = g (row.inputIds ++ row.output.take i)
  /-- A row that ended by its own output has what a serial run of its request alone yields. -/
  serial : ∀ id row, c.engine.rows.get? id = some row → Natural row → ∃ s : Submission,
    s.inputIds = row.inputIds ∧ s.limit = row.limit ∧ s.fixed = row.fixed ∧ ∃ n row',
    (((serial S g).machine fun _ => []).run
      ({ batch := [.submit s] } :: List.replicate n {})).engine.rows.get? s.id = some row' ∧
    Natural row' ∧ row'.output = row.output
  /-- The same holds of every session, serial or not, that runs such a request to its end. -/
  any : ∀ id row, c.engine.rows.get? id = some row → Natural row →
    ∀ {τ : Type} (T : Session τ) (cache : τ → String → List Token), T.eosIds = S.eosIds →
    Faithful T.executor cache g → ∀ y, (∀ id, cache y id = []) → ∀ readings id' row',
    ((T.machine y).run readings).engine.rows.get? id' = some row' → Natural row' →
    row'.inputIds = row.inputIds → row'.limit = row.limit → row'.fixed = row.fixed →
    row'.output = row.output

/-- **Scheduling transparency**: with a faithful decoder for `g`, whatever the schedule. -/
theorem scheduling_transparent (cache : σ → String → List Token) (hX : Faithful S.executor cache g)
    {x : σ} (hx : ∀ id, cache x id = []) (readings : List Reading) :
    Transparent S g ((S.machine x).run readings) := by
  have hr := Machine.reachable_run (m := S.machine x) readings
  have hdec := reachable_decoding hX hx hr
  obtain ⟨hI, -⟩ := reachable_inv hr
  have hany : ∀ id row, ((S.machine x).run readings).engine.rows.get? id = some row →
      Natural row → ∀ {τ : Type} (T : Session τ) (cache : τ → String → List Token),
      T.eosIds = S.eosIds → Faithful T.executor cache g → ∀ y, (∀ id, cache y id = []) →
      ∀ readings id' row', ((T.machine y).run readings).engine.rows.get? id' = some row' →
      Natural row' → row'.inputIds = row.inputIds → row'.limit = row.limit →
      row'.fixed = row.fixed → row'.output = row.output := by
    intro id row hrow hnat τ T cache' heos hT y hy readings' id' row' hrow' hnat' hin hlim hfix
    have hdec' := (reachable_decoding hT hy (Machine.reachable_run readings')).row id' row' hrow'
    rw [(hdec'.ended hnat').1, ((hdec.row id row hrow).ended hnat).1, continuation, continuation,
      hin,
      hlim]
    congr 1
    funext t
    rw [stops, stops, heos, hfix]
  refine ⟨fun id row hrow i hi => ?_, fun id row hrow hnat => ?_, hany⟩
  · exact Greedy.getElem_of_isPrefix (hdec.row id row hrow).isPrefix hi
  · have hbounds := (hI.rowInv hrow).toRowBounds
    obtain ⟨n, row', hget, hsame, hnat'⟩ :=
      exists_serial_run (g := g) hbounds ((hdec.row id row hrow).ended hnat).2
    refine ⟨alone row hbounds, rfl, rfl, rfl, n, row', hget, hnat', ?_⟩
    exact hany id row hrow hnat (Hqsb.serial S g) _ rfl (decoder_faithful g _) (fun _ => [])
      (fun _ => rfl) _ _ row' hget hnat' hsame.inputIds hsame.limit hsame.fixed

/-- A continuous session over the token-keeping decoder that answers with the length. -/
def countingSession : Session (String → List Token) where
  executor := decoder (fun history => history.length) 64
  limits := .defaults
  mode := .continuous
  deadline := 60

theorem scheduling_transparent_counting : Transparent countingSession (fun history => history.length)
    ((countingSession.machine fun _ => []).run twoArrivals) :=
  scheduling_transparent (fun x => x) (decoder_faithful (fun history => history.length) 64)
    (fun _ => rfl) twoArrivals

end Hqsb
