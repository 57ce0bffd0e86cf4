/-
Hqsb/Serving/BoundedQueue.lean

The bounded admission queue (`BoundedQueue` of `hqsb/serving/admission.py`).

The queue knows the ids of what waits, and two counters.  An admission looks at the caps and adds
to all three; a release takes the id out if it is there, and takes the costs it is given off the
counters.  So the counters are sums as long as a release is about a request that waits and brings
the costs of its admission (`QueueCall.Matched`), and only the number of requests is capped whatever
the calls are.

The ids do not say which costs belong to whom; `TrackedQueue` keeps the requests beside them.

Main results: `depth_le_maxRequests`, `bounded_queue_counted`.
-/
import Hqsb.Lib.Machine

namespace Hqsb

open Lib List

/-- `AdmissionDecision`, as the queue makes it. -/
structure BoundedQueue.AdmissionDecision where
  admitted : Bool
  code : String
  reason : String
  queueClass : String := ""
  queueDepth : Int := 0
  queuePosition : Int := 0
  retryAfterMs : Int := 0

/-- The caps of a queue, which are positive, and whether it looks at tokens and bytes at all. -/
structure QueueCaps where
  maxRequests : Int
  maxTokens : Int
  maxBytes : Int
  tokenAware : Bool := true
  positive : 0 < maxRequests ∧ 0 < maxTokens ∧ 0 < maxBytes

structure BoundedQueue extends QueueCaps where
  requests : List String := []
  queuedTokens : Int := 0
  queuedBytes : Int := 0

namespace BoundedQueue

/-- The `ConfigError` of a cap that is not positive. -/
def notPositive (name : String) : String :=
  name ++ " must be positive: an unbounded queue is a counter-example, " ++
    "not a policy (E08-05 §11)"

/-- `BoundedQueue(...)`. -/
def build (maxRequests maxTokens maxBytes : Int) (tokenAware : Bool) : Except String BoundedQueue :=
  if hrequests : maxRequests ≤ 0 then .error (notPositive "max_requests")
  else if htokens : maxTokens ≤ 0 then .error (notPositive "max_tokens")
  else if hbytes : maxBytes ≤ 0 then .error (notPositive "max_bytes")
  else .ok
    { maxRequests, maxTokens, maxBytes, tokenAware
      positive := ⟨not_le.mp hrequests, not_le.mp htokens, not_le.mp hbytes⟩ }

def depth (q : BoundedQueue) : Int := q.requests.length

def refusal (q : BoundedQueue) (tokenCost byteCost : Int) (timedOut : Bool) :
    Option AdmissionDecision :=
  if timedOut then
    some
      { admitted := false
        code := "deadline_infeasible"
        reason := "the request is already past its deadline" }
  else if q.maxRequests ≤ q.depth then
    some
      { admitted := false
        code := "queue_full"
        reason := "queue is full (" ++ toString q.depth ++ "/" ++ toString q.maxRequests ++
          " requests)"
        queueDepth := q.depth
        retryAfterMs := 1000 }
  else if q.tokenAware then
    if q.maxTokens < q.queuedTokens + tokenCost then
      some
        { admitted := false
          code := "token_budget_exceeded"
          reason := "token budget: queued " ++ toString q.queuedTokens ++ " + " ++
            toString tokenCost ++ " > " ++ toString q.maxTokens
          queueDepth := q.depth
          retryAfterMs := 1000 }
    else if q.maxBytes < q.queuedBytes + byteCost then
      some
        { admitted := false
          code := "kv_budget_exceeded"
          reason := "byte/KV budget for queued work is exhausted"
          queueDepth := q.depth
          retryAfterMs := 1000 }
    else none
  else none

section

variable (q : BoundedQueue) (requestId : String) (tokenCost byteCost : Int)

def enqueue : BoundedQueue :=
  { q with
    requests := q.requests ++ [requestId]
    queuedTokens := q.queuedTokens + tokenCost
    queuedBytes := q.queuedBytes + byteCost }

def tryAdmit (timedOut : Bool) : AdmissionDecision × BoundedQueue :=
  match q.refusal tokenCost byteCost timedOut with
  | some decision => (decision, q)
  | none =>
    let entered := q.enqueue requestId tokenCost byteCost
    ({  admitted := true
        code := ""
        reason := "admitted inside the bounded queue"
        queueClass := "bounded"
        queueDepth := entered.depth
        queuePosition := entered.depth - 1 }, entered)

/-- `release`.  The counters go down whether or not the id was there. -/
def release : BoundedQueue :=
  { q with
    requests := q.requests.erase requestId
    queuedTokens := max 0 (q.queuedTokens - tokenCost)
    queuedBytes := max 0 (q.queuedBytes - byteCost) }

end

theorem admitted_of_refusal {q : BoundedQueue} {tokenCost byteCost : Int} {timedOut : Bool}
    {decision : AdmissionDecision}
    (h : q.refusal tokenCost byteCost timedOut = some decision) : decision.admitted = false := by
  rw [refusal] at h
  split_ifs at h <;> (cases h; rfl)

/-- What an admission has shown. -/
structure Admits (q : BoundedQueue) (tokenCost byteCost : Int) : Prop where
  room : q.depth < q.maxRequests
  tokens : q.tokenAware → q.queuedTokens + tokenCost ≤ q.maxTokens
  bytes : q.tokenAware → q.queuedBytes + byteCost ≤ q.maxBytes

theorem admits_of_refusal {q : BoundedQueue} {tokenCost byteCost : Int} {timedOut : Bool}
    (h : q.refusal tokenCost byteCost timedOut = none) : q.Admits tokenCost byteCost := by
  rw [refusal] at h
  split at h
  · cases h
  split at h
  · cases h
  rename_i hroom
  split at h
  · split at h
    · cases h
    split at h
    · cases h
    rename_i htokens hbytes
    exact ⟨not_le.mp hroom, fun _ => not_lt.mp htokens, fun _ => not_lt.mp hbytes⟩
  · rename_i hunaware
    exact ⟨not_le.mp hroom, fun h => absurd h hunaware, fun h => absurd h hunaware⟩

end BoundedQueue

/-! ### Sequences of calls -/

structure QueuedRequest where
  requestId : String
  tokenCost : Int
  byteCost : Int
  deriving DecidableEq

inductive QueueCall
  | tryAdmit (request : QueuedRequest) (timedOut : Bool)
  | release (request : QueuedRequest)

/-- A queue, and the requests that wait in it. -/
structure TrackedQueue where
  queue : BoundedQueue
  waiting : List QueuedRequest := []

namespace TrackedQueue

def step (s : TrackedQueue) : QueueCall → TrackedQueue
  | .tryAdmit request timedOut =>
    let (decision, queue) :=
      s.queue.tryAdmit request.requestId request.tokenCost request.byteCost timedOut
    ⟨queue, if decision.admitted then s.waiting ++ [request] else s.waiting⟩
  | .release request =>
    ⟨s.queue.release request.requestId request.tokenCost request.byteCost,
      s.waiting.erase request⟩

end TrackedQueue

def queueCalls (caps : QueueCaps) : Machine TrackedQueue QueueCall where
  init := { queue := { toQueueCaps := caps } }
  step := TrackedQueue.step

/-- Nothing of this id waits, and no costs are given back. -/
def QueuedRequest.Idle (s : TrackedQueue) (request : QueuedRequest) : Prop :=
  request.requestId ∉ s.waiting.map QueuedRequest.requestId ∧
    request.tokenCost = 0 ∧ request.byteCost = 0

/-- Costs are not negative, and a release is about a request that waits or gives nothing back. -/
def QueueCall.Matched (s : TrackedQueue) : QueueCall → Prop
  | .tryAdmit request _ => 0 ≤ request.tokenCost ∧ 0 ≤ request.byteCost
  | .release request => request ∈ s.waiting ∨ request.Idle s

instance (s : TrackedQueue) : DecidablePred (QueueCall.Matched s)
  | .tryAdmit request _ =>
    inferInstanceAs (Decidable (0 ≤ request.tokenCost ∧ 0 ≤ request.byteCost))
  | .release request =>
    inferInstanceAs (Decidable (request ∈ s.waiting ∨
      request.requestId ∉ s.waiting.map QueuedRequest.requestId ∧
        request.tokenCost = 0 ∧ request.byteCost = 0))

/-- What one call does to the queue and to what waits. -/
inductive QueueMove (s : TrackedQueue) : QueueCall → TrackedQueue → Prop
  | refused (request timedOut) : QueueMove s (.tryAdmit request timedOut) s
  | admitted (request timedOut) (h : s.queue.Admits request.tokenCost request.byteCost) :
      QueueMove s (.tryAdmit request timedOut)
        ⟨s.queue.enqueue request.requestId request.tokenCost request.byteCost,
          s.waiting ++ [request]⟩
  | released (request) :
      QueueMove s (.release request)
        ⟨s.queue.release request.requestId request.tokenCost request.byteCost,
          s.waiting.erase request⟩

theorem TrackedQueue.step_move (s : TrackedQueue) (call : QueueCall) :
    QueueMove s call (s.step call) := by
  rcases call with ⟨request, timedOut⟩ | request
  · rcases hrefusal : s.queue.refusal request.tokenCost request.byteCost timedOut with
      - | decision
    · have hstep : s.step (.tryAdmit request timedOut) =
          ⟨s.queue.enqueue request.requestId request.tokenCost request.byteCost,
            s.waiting ++ [request]⟩ := by
        simp only [step, BoundedQueue.tryAdmit, hrefusal, if_true]
      rw [hstep]
      exact .admitted request timedOut (BoundedQueue.admits_of_refusal hrefusal)
    · have hrefused : decision.admitted = false :=
        BoundedQueue.admitted_of_refusal hrefusal
      have hstep : s.step (.tryAdmit request timedOut) = s := by
        simp only [step, BoundedQueue.tryAdmit, hrefusal, hrefused, Bool.false_eq_true, if_false]
      rw [hstep]
      exact .refused request timedOut
  · exact .released request

/-! ### The caps -/

variable {call : QueueCall} {s s' : TrackedQueue} {waiting : List QueuedRequest}
  {request : QueuedRequest} (caps : QueueCaps)

theorem QueueMove.caps_eq (h : QueueMove s call s') :
    s'.queue.toQueueCaps = s.queue.toQueueCaps := by
  cases h <;> rfl

/-- **The cap on requests** holds whatever is released. -/
theorem QueueMove.depth_le (h : QueueMove s call s') (hs : s.queue.depth ≤ s.queue.maxRequests) :
    s'.queue.depth ≤ s'.queue.maxRequests := by
  cases h with
  | refused => exact hs
  | admitted request timedOut h =>
    have := h.room
    simp only [BoundedQueue.depth, BoundedQueue.enqueue, length_append, length_cons,
      length_nil] at this ⊢
    omega
  | released request =>
    have := (erase_sublist (a := request.requestId) (l := s.queue.requests)).length_le
    simp only [BoundedQueue.depth, BoundedQueue.release] at hs ⊢
    omega

/-! ### The counters -/

/-- The counters are the sums over what waits, and the caps hold where they are looked at. -/
structure QueueCounted (s : TrackedQueue) : Prop where
  nonneg : ∀ request ∈ s.waiting, 0 ≤ request.tokenCost ∧ 0 ≤ request.byteCost
  ids : s.queue.requests.Perm (s.waiting.map QueuedRequest.requestId)
  tokens : s.queue.queuedTokens = (s.waiting.map QueuedRequest.tokenCost).sum
  bytes : s.queue.queuedBytes = (s.waiting.map QueuedRequest.byteCost).sum
  cappedTokens : s.queue.tokenAware → s.queue.queuedTokens ≤ s.queue.maxTokens
  cappedBytes : s.queue.tokenAware → s.queue.queuedBytes ≤ s.queue.maxBytes

theorem sum_costs_nonneg {cost : QueuedRequest → Int}
    (hnonneg : ∀ request ∈ waiting, 0 ≤ cost request) : 0 ≤ (waiting.map cost).sum := by
  apply sum_nonneg
  rintro _ hx
  obtain ⟨request, hrequest, rfl⟩ := mem_map.mp hx
  exact hnonneg request hrequest

theorem max_sub_eq_sum_erase {cost : QueuedRequest → Int}
    (hnonneg : ∀ request ∈ waiting, 0 ≤ cost request) (h : request ∈ waiting) :
    max 0 ((waiting.map cost).sum - cost request) = ((waiting.erase request).map cost).sum := by
  have hsum := sum_map_erase cost h
  have hrest := sum_costs_nonneg fun other hother => hnonneg other
    (mem_of_mem_erase (b := request) hother)
  omega

theorem erase_ids_perm {ids : List String} (h : ids.Perm (waiting.map QueuedRequest.requestId))
    (hmem : request ∈ waiting) :
    (ids.erase request.requestId).Perm
      ((waiting.erase request).map QueuedRequest.requestId) := by
  refine (h.erase request.requestId).trans ?_
  have hids := (perm_cons_erase hmem).map QueuedRequest.requestId
  have := hids.erase request.requestId
  rwa [map_cons, erase_cons_head] at this

theorem QueueCounted.release (hs : QueueCounted s) (hwaits : request ∈ s.waiting) :
    QueueCounted (s.step (.release request)) := by
  obtain ⟨htokens, hbytes⟩ := hs.nonneg request hwaits
  obtain ⟨-, hpos, hpos'⟩ := s.queue.positive
  refine ⟨fun other hother => hs.nonneg other (mem_of_mem_erase hother),
    erase_ids_perm hs.ids hwaits, ?_, ?_, ?_, ?_⟩
  · show max 0 (s.queue.queuedTokens - request.tokenCost) = _
    rw [hs.tokens]
    exact max_sub_eq_sum_erase (fun other hother => (hs.nonneg other hother).1) hwaits
  · show max 0 (s.queue.queuedBytes - request.byteCost) = _
    rw [hs.bytes]
    exact max_sub_eq_sum_erase (fun other hother => (hs.nonneg other hother).2) hwaits
  · intro haware
    have := hs.cappedTokens haware
    show max 0 (s.queue.queuedTokens - request.tokenCost) ≤ s.queue.maxTokens
    omega
  · intro haware
    have := hs.cappedBytes haware
    show max 0 (s.queue.queuedBytes - request.byteCost) ≤ s.queue.maxBytes
    omega

/-- Giving nothing back for nothing changes nothing. -/
theorem QueueCounted.release_idle (hs : QueueCounted s) (hidle : request.Idle s) :
    (⟨s.queue.release request.requestId request.tokenCost request.byteCost,
      s.waiting.erase request⟩ : TrackedQueue) = s := by
  obtain ⟨hid, htokens, hbytes⟩ := hidle
  have hunqueued : request.requestId ∉ s.queue.requests := fun h => hid (hs.ids.mem_iff.mp h)
  have hunlisted : request ∉ s.waiting := fun h => hid (mem_map_of_mem h)
  have hnonneg : 0 ≤ s.queue.queuedTokens := by
    rw [hs.tokens]
    exact sum_costs_nonneg fun other hother => (hs.nonneg other hother).1
  have hnonneg' : 0 ≤ s.queue.queuedBytes := by
    rw [hs.bytes]
    exact sum_costs_nonneg fun other hother => (hs.nonneg other hother).2
  simp only [BoundedQueue.release, htokens, hbytes, sub_zero, max_eq_right hnonneg,
    max_eq_right hnonneg', erase_of_not_mem hunqueued, erase_of_not_mem hunlisted]

/-- **The counting step.** -/
theorem QueueMove.counted (h : QueueMove s call s') (hs : QueueCounted s) (hcall : call.Matched s) :
    QueueCounted s' := by
  cases h with
  | refused => exact hs
  | admitted request timedOut h =>
    obtain ⟨htokens, hbytes⟩ := hcall
    refine ⟨?_, ?_, ?_, ?_, h.tokens, h.bytes⟩
    · intro other hother
      rcases mem_append.mp hother with hold | hnew
      · exact hs.nonneg other hold
      · rw [mem_singleton.mp hnew]
        exact ⟨htokens, hbytes⟩
    · rw [map_append]
      exact hs.ids.append_right _
    · simp only [BoundedQueue.enqueue, hs.tokens, map_append, sum_append, map_cons,
        map_nil, sum_cons, sum_nil, add_zero]
    · simp only [BoundedQueue.enqueue, hs.bytes, map_append, sum_append, map_cons,
        map_nil, sum_cons, sum_nil, add_zero]
  | released request =>
    rcases hcall with hwaits | hidle
    · exact hs.release hwaits
    · rw [hs.release_idle hidle]
      exact hs

/-! ### Runs -/

theorem queueCalls_caps (calls : List QueueCall) :
    ((queueCalls caps).run calls).queue.toQueueCaps = caps :=
  (Machine.reachable_run calls).invariant
    (P := fun s : TrackedQueue => s.queue.toQueueCaps = caps) rfl
    fun s call _ hs => (TrackedQueue.step_move s call).caps_eq.trans hs

theorem depth_le_maxRequests (calls : List QueueCall) :
    ((queueCalls caps).run calls).queue.depth ≤ caps.maxRequests := by
  have hinit : (queueCalls caps).init.queue.depth ≤ (queueCalls caps).init.queue.maxRequests :=
    caps.positive.1.le
  have hbounded := (Machine.reachable_run calls).invariant
    (P := fun s : TrackedQueue => s.queue.depth ≤ s.queue.maxRequests) hinit
    fun s call _ hs => (TrackedQueue.step_move s call).depth_le hs
  rwa [queueCalls_caps] at hbounded

theorem queueCounted_init : QueueCounted (queueCalls caps).init where
  nonneg := nofun
  ids := .nil
  tokens := rfl
  bytes := rfl
  cappedTokens := fun _ => caps.positive.2.1.le
  cappedBytes := fun _ => caps.positive.2.2.le

/-- **What the queue guarantees.**  The number of requests is capped in every reachable state.
While costs are not negative and every release is about a request that waits, with the costs of
its admission, or gives nothing back, the counters are the sums of the costs of what waits, and
a queue that is aware of tokens keeps them below their caps. -/
theorem bounded_queue_counted (caps : QueueCaps) (calls : List QueueCall) :
    let s := (queueCalls caps).run calls
    s.queue.depth ≤ caps.maxRequests ∧
      ((queueCalls caps).Guarded QueueCall.Matched (queueCalls caps).init calls →
        s.queue.queuedTokens = (s.waiting.map QueuedRequest.tokenCost).sum ∧
          s.queue.queuedBytes = (s.waiting.map QueuedRequest.byteCost).sum ∧
          (caps.tokenAware →
            s.queue.queuedTokens ≤ caps.maxTokens ∧ s.queue.queuedBytes ≤ caps.maxBytes)) := by
  intro s
  refine ⟨depth_le_maxRequests caps calls, fun hguarded => ?_⟩
  have halways := Machine.guarded_invariant
    (fun s call hs hcall => (TrackedQueue.step_move s call).counted hs hcall)
    (queueCounted_init caps) hguarded
  have hcounted : QueueCounted s := Machine.always_iff_runFrom.mp halways calls prefix_rfl
  have hcaps : s.queue.toQueueCaps = caps := queueCalls_caps caps calls
  refine ⟨hcounted.tokens, hcounted.bytes, fun haware => ?_⟩
  rw [← hcaps] at haware ⊢
  exact ⟨hcounted.cappedTokens haware, hcounted.cappedBytes haware⟩

def tenTokens : QueueCaps where
  maxRequests := 2
  maxTokens := 10
  maxBytes := 10
  positive := by decide

theorem bounded_queue_counted_tenTokens :
    let s := (queueCalls tenTokens).run
      [.tryAdmit ⟨"a", 5, 0⟩ false, .tryAdmit ⟨"b", 5, 0⟩ false, .release ⟨"a", 5, 0⟩]
    s.queue.queuedTokens = (s.waiting.map QueuedRequest.tokenCost).sum ∧
      s.queue.queuedTokens ≤ 10 := by
  intro s
  obtain ⟨-, hcounted⟩ := bounded_queue_counted tenTokens
    [.tryAdmit ⟨"a", 5, 0⟩ false, .tryAdmit ⟨"b", 5, 0⟩ false, .release ⟨"a", 5, 0⟩]
  obtain ⟨htokens, -, hcapped⟩ := hcounted (by decide)
  exact ⟨htokens, (hcapped rfl).1⟩

/-- A request that is released twice takes the cost of another one off the counter, and a queue
that is not aware of tokens has no cap on them. -/
theorem twice_released_uncounted :
    (¬ ∀ (caps : QueueCaps) (calls : List QueueCall),
        let s := (queueCalls caps).run calls
        s.queue.queuedTokens = (s.waiting.map QueuedRequest.tokenCost).sum) ∧
      ¬ ∀ (caps : QueueCaps) (calls : List QueueCall),
        ((queueCalls caps).run calls).queue.queuedTokens ≤ caps.maxTokens := by
  constructor
  · intro h
    have := h tenTokens
      [.tryAdmit ⟨"a", 5, 0⟩ false, .tryAdmit ⟨"b", 5, 0⟩ false, .release ⟨"a", 5, 0⟩,
        .release ⟨"a", 5, 0⟩]
    revert this
    decide
  · intro h
    have := h { tenTokens with tokenAware := false } [.tryAdmit ⟨"a", 11, 0⟩ false]
    revert this
    decide

end Hqsb
