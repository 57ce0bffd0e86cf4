/-
Hqsb/Serving/GatewayCancel.lean

Cancelling across requests.

Cancel flags live in a map from request ids to booleans.  `request_cancel` binds an id, whether or
not a request of that id is in flight; `force_cancel` sets the flags that are bound; and nothing
ever takes an entry away.  A handle reads the flag of its id at the head of every turn of its
loop.

`cancelling g` is the gateway with any number of handles in it, one step at a time: a handle
arrives, makes its next check, or returns, and somebody cancels, drains, forces or closes in
between.  Each check is the `turn` of the loop itself, with the flag that the map holds then
(`checks_eq`).

Main results:
* `cancel_reaches_iff`, the exact conditions under which every forced request reads a cancel at its
  next check, and no request reads one that was meant for nobody;
* `handles_undisturbed`: whatever else happens, a handle ends with the result of its own loop.
-/
import Hqsb.Lib.Machine
import Hqsb.Serving.GatewayCourses

namespace Hqsb

open Lib Machine List OrderedDict

/-! ### Handles -/

def Turn.reading (t : Turn) (flag : Bool) : Turn :=
  { t with signals := { t.signals with cancelled := flag } }

def BackendScript.reading (script : BackendScript) (flag : Bool) : BackendScript :=
  { script with last := ({ script.last.1 with cancelled := flag }, script.last.2) }

/-- Where a handle stands: in front of a check, or behind its loop. -/
inductive Stage where
  | looping (turns : List Turn) (serving : Serving)
  | leaving (result : Attempt Serving)

/-- A call of `handle` that has reached its loop and not returned. -/
structure Flight where
  canonical : CanonicalBackendRequest
  deadlineNs : Int
  script : BackendScript
  stage : Stage
  /-- It was in flight when the service was forced; only statements read it. -/
  forced : Bool := false

/-- There is a next check. -/
def Flight.looping (f : Flight) : Bool :=
  match f.stage with
  | .looping _ _ => true
  | .leaving _ => false

section Flights

variable (g : ServingGateway)

/-- A request that arrives and is accepted by its backend stands in front of its first check. -/
def enter (service : ServiceState) (x : Exchange) : Option Flight :=
  match approach g service x with
  | .ok (.serve canonical deadlineNs _ serving) =>
    match submit canonical x.script serving with
    | .ok serving => some {
        canonical, deadlineNs, script := x.script, stage := .looping x.script.turns serving }
    | .error _ => none
  | _ => none

def Flight.check (f : Flight) (flag : Bool) : Flight :=
  match f.stage with
  | .leaving _ => f
  | .looping [] serving =>
    { f with stage := .leaving (lastTurn g f.deadlineNs (f.script.reading flag) serving) }
  | .looping (t :: turns) serving =>
    match turn g f.canonical f.deadlineNs (f.script.reading flag) (t.reading flag) serving with
    | .ok (.again serving) => { f with stage := .looping turns serving }
    | .ok (.stop serving) => { f with stage := .leaving (.ok serving) }
    | .error raised => { f with stage := .leaving (.error raised) }

variable {g}

/-- **The checks of a handle** are its loop, for the flags that it reads. -/
theorem checks_eq {f : Flight} {turns : List Turn} {serving : Serving}
    (hstage : f.stage = .looping turns serving) {flags : List Bool}
    (hflags : flags.length = turns.length) (last : Bool) :
    (flags ++ [last]).foldl (Flight.check g) f = { f with
      stage := .leaving (serveLoop g f.canonical f.deadlineNs (f.script.reading last)
        (List.zipWith Turn.reading turns flags) serving) } := by
  obtain ⟨canonical, deadlineNs, script, stage, forced⟩ := f
  obtain rfl : stage = .looping turns serving := hstage
  -- behind its loop a handle checks nothing
  have hleft : ∀ (result : Attempt Serving) (flags : List Bool),
      flags.foldl (Flight.check g)
        ⟨canonical, deadlineNs, script, .leaving result, forced⟩ =
          ⟨canonical, deadlineNs, script, .leaving result, forced⟩ := by
    intro result flags
    induction flags with
    | nil => rfl
    | cons flag flags ih => exact ih
  induction turns generalizing flags serving with
  | nil =>
    obtain rfl := length_eq_zero_iff.mp hflags
    rfl
  | cons t turns ih =>
    rcases flags with - | ⟨flag, flags⟩
    · cases hflags
    have hflags : flags.length = turns.length := Nat.succ.inj hflags
    -- what a turn reads of the script does not depend on the flag
    have hturn : turn g canonical deadlineNs (script.reading flag) (t.reading flag) serving =
        turn g canonical deadlineNs (script.reading last) (t.reading flag) serving := rfl
    rw [cons_append, foldl_cons, zipWith_cons_cons, serveLoop, ← hturn]
    rw [Flight.check]
    dsimp only
    rcases turn g canonical deadlineNs (script.reading flag) (t.reading flag) serving with
      raised | ⟨serving⟩ | ⟨serving⟩
    · exact hleft _ _
    · exact ih hflags
    · exact hleft _ _

end Flights

/-! ### The gateway -/

structure Cancelling where
  service : ServiceState := .serving
  /-- `self._cancelled` -/
  cancelled : OrderedDict String Bool := .empty
  flights : OrderedDict Nat Flight := .empty
  /-- What the map would be if a cancel for an id that is not in flight were dropped; only
  statements read it. -/
  addressed : OrderedDict String Bool := .empty

/-- What happens to a gateway.  Calls of `handle` are told apart by a number. -/
inductive GatewayCall where
  | arrive (key : Nat) (x : Exchange)
  | check (key : Nat)
  | leave (key : Nat)
  | requestCancel (requestId : String)
  | beginDrain
  | forceCancel
  | close

namespace Cancelling

/-- `self._cancelled.get(canonical.request_id)` -/
def reads (s : Cancelling) (f : Flight) : Bool :=
  (s.cancelled.get? f.canonical.requestId).getD false

/-- What the handle would read if a cancel for an id that is not in flight were dropped. -/
def heeds (s : Cancelling) (f : Flight) : Bool :=
  (s.addressed.get? f.canonical.requestId).getD false

def InFlight (s : Cancelling) (requestId : String) : Prop :=
  ∃ f ∈ s.flights.values, f.canonical.requestId = requestId

instance (s : Cancelling) (requestId : String) : Decidable (s.InFlight requestId) :=
  inferInstanceAs (Decidable (∃ f ∈ s.flights.values, f.canonical.requestId = requestId))

variable (g : ServingGateway)

section

variable (s : Cancelling) (key : Nat) (x : Exchange)

def arrive : Cancelling :=
  if key ∈ s.flights.keys then s
  else
    match enter g s.service x with
    | some f => { s with flights := s.flights.set key f }
    | none => s

def check : Cancelling :=
  match s.flights.get? key with
  | some f => { s with flights := s.flights.set key (f.check g (s.reads f)) }
  | none => s

def leave : Cancelling :=
  match s.flights.get? key with
  | some f => if f.looping then s else { s with flights := s.flights.erase key }
  | none => s

def requestCancel (requestId : String) : Cancelling :=
  { s with
    cancelled := s.cancelled.set requestId true
    addressed := if s.InFlight requestId then s.addressed.set requestId true else s.addressed }

/-- `begin_drain`; a call that raises changes nothing. -/
def beginDrain : Cancelling :=
  if s.service = .serving then { s with service := .draining } else s

def forceCancel : Cancelling :=
  if s.service ∈ [.draining, .forceCancelling] then
    { service := .forceCancelling
      cancelled := s.cancelled.mapValues fun _ => true
      addressed := s.addressed.mapValues fun _ => true
      flights := s.flights.mapValues fun f => { f with forced := true } }
  else s

def close : Cancelling :=
  if s.service ∈ [.draining, .forceCancelling] then { s with service := .closed } else s

end

def step (s : Cancelling) : GatewayCall → Cancelling
  | .arrive key x => s.arrive g key x
  | .check key => s.check g key
  | .leave key => s.leave key
  | .requestCancel requestId => s.requestCancel requestId
  | .beginDrain => s.beginDrain
  | .forceCancel => s.forceCancel
  | .close => s.close

end Cancelling

def cancelling (g : ServingGateway) : Machine Cancelling GatewayCall where
  init := {}
  step := Cancelling.step g

/-! ### What is promised -/

/-- **Cancellation reaches the right request.**  A request that was in flight when the service was
forced reads a cancel at its next check, and no request reads a cancel that was issued for an id
not in flight. -/
structure CancelReaches (s : Cancelling) : Prop where
  forced : ∀ key f, s.flights.get? key = some f → f.looping = true → f.forced = true →
    s.reads f = true
  addressed : ∀ key f, s.flights.get? key = some f → f.looping = true → s.reads f = s.heeds f

/-- **Where cancellation reaches**: nobody enters under an id whose flag only such cancels have
set, and the service is forced only when every request with a next check has an entry. -/
def Addressed (g : ServingGateway) (s : Cancelling) : GatewayCall → Prop
  | .arrive key x => key ∉ s.flights.keys → ∀ f ∈ enter g s.service x,
      s.reads f = true → s.heeds f = true
  | .forceCancel => s.service ∈ [.draining, .forceCancelling] →
      ∀ key f, s.flights.get? key = some f → f.looping = true →
        f.canonical.requestId ∈ s.cancelled.keys
  | _ => True

/-- Flags are only ever set, and what is heeded was set. -/
structure CancelInv (s : Cancelling) : Prop extends CancelReaches s where
  set : ∀ id b, s.cancelled.get? id = some b → b = true
  heard : ∀ id b, s.addressed.get? id = some b → b = true ∧ s.cancelled.get? id = some true

section Step

variable {g : ServingGateway} {s : Cancelling} {f : Flight}

theorem CancelInv.reads_iff (h : CancelInv s) (f : Flight) :
    s.reads f = true ↔ f.canonical.requestId ∈ s.cancelled.keys := by
  rw [Cancelling.reads, mem_keys_iff]
  rcases hget : s.cancelled.get? f.canonical.requestId with - | b
  · exact ⟨fun h => (nomatch h), fun ⟨b, hb⟩ => (nomatch hb)⟩
  · obtain rfl := h.set _ _ hget
    exact ⟨fun _ => ⟨true, rfl⟩, fun _ => rfl⟩

theorem CancelInv.reads_of_heeds (h : CancelInv s) (hheeds : s.heeds f = true) :
    s.reads f = true := by
  rw [Cancelling.heeds] at hheeds
  rcases hget : s.addressed.get? f.canonical.requestId with - | b
  · rw [hget] at hheeds
    cases hheeds
  · rw [Cancelling.reads, (h.heard _ _ hget).2]
    rfl

theorem looping_enter {service : ServiceState} {x : Exchange} (h : enter g service x = some f) :
    f.looping = true ∧ f.forced = false := by
  rw [enter] at h
  split at h
  · split at h
    · cases h
      exact ⟨rfl, rfl⟩
    · cases h
  · cases h

/-- A check keeps who the handle is, and a handle behind its loop stays there. -/
theorem check_same (f : Flight) (flag : Bool) :
    (f.check g flag).canonical = f.canonical ∧ (f.check g flag).forced = f.forced ∧
      ((f.check g flag).looping = true → f.looping = true) := by
  obtain ⟨canonical, deadlineNs, script, stage, forced⟩ := f
  rcases stage with ⟨turns, serving⟩ | result
  · cases turns with
    | nil => exact ⟨rfl, rfl, fun h => (nomatch h)⟩
    | cons t turns =>
      rw [Flight.check]
      dsimp only
      split <;> exact ⟨rfl, rfl, fun _ => rfl⟩
  · exact ⟨rfl, rfl, id⟩

theorem CancelInv.arrive (h : CancelInv s) {key : Nat} {x : Exchange}
    (hguard : Addressed g s (.arrive key x)) : CancelInv (s.arrive g key x) := by
  rw [Cancelling.arrive]
  split_ifs with hkey
  · exact h
  rcases henter : enter g s.service x with - | f
  · exact h
  obtain ⟨-, hforced⟩ := looping_enter henter
  refine { forced := ?_, addressed := ?_, set := h.set, heard := h.heard }
  · intro key' f' hget hlooping hf'
    rw [get?_set] at hget
    split_ifs at hget with heq
    · cases hget
      cases hforced.symm.trans hf'
    · exact h.forced key' f' hget hlooping hf'
  · intro key' f' hget hlooping
    rw [get?_set] at hget
    split_ifs at hget with heq
    · cases hget
      exact Bool.eq_iff_iff.mpr ⟨hguard hkey f henter, h.reads_of_heeds⟩
    · exact h.addressed key' f' hget hlooping

theorem CancelInv.check (h : CancelInv s) (key : Nat) : CancelInv (s.check g key) := by
  rw [Cancelling.check]
  rcases hget : s.flights.get? key with - | f
  · exact h
  obtain ⟨hcanonical, hforced, hlooping⟩ := check_same (g := g) f (s.reads f)
  -- the flags a handle reads and heeds depend on its id only
  have hreads : s.reads (f.check g (s.reads f)) = s.reads f := by
    rw [Cancelling.reads, hcanonical]
    rfl
  have hheeds : s.heeds (f.check g (s.reads f)) = s.heeds f := by
    rw [Cancelling.heeds, hcanonical]
    rfl
  refine { forced := ?_, addressed := ?_, set := h.set, heard := h.heard }
  · intro key' f' hget' hlooping' hforced'
    rw [get?_set] at hget'
    split_ifs at hget' with heq
    · cases hget'
      exact hreads.trans (h.forced key f hget (hlooping hlooping') (hforced.symm.trans hforced'))
    · exact h.forced key' f' hget' hlooping' hforced'
  · intro key' f' hget' hlooping'
    rw [get?_set] at hget'
    split_ifs at hget' with heq
    · cases hget'
      exact hreads.trans ((h.addressed key f hget (hlooping hlooping')).trans hheeds.symm)
    · exact h.addressed key' f' hget' hlooping'

theorem CancelInv.leave (h : CancelInv s) (key : Nat) : CancelInv (s.leave key) := by
  rw [Cancelling.leave]
  rcases hget : s.flights.get? key with - | f
  · exact h
  show CancelInv (if f.looping = true then s else { s with flights := s.flights.erase key })
  split_ifs
  · exact h
  -- whoever is left was there before
  have hbefore : ∀ key' f', (s.flights.erase key).get? key' = some f' →
      s.flights.get? key' = some f' := by
    intro key' f' hget'
    rw [get?_erase] at hget'
    split_ifs at hget'
    exact hget'
  exact {
    forced := fun key' f' hget' => h.forced key' f' (hbefore key' f' hget')
    addressed := fun key' f' hget' => h.addressed key' f' (hbefore key' f' hget')
    set := h.set
    heard := h.heard }

theorem CancelInv.requestCancel (h : CancelInv s) (requestId : String) :
    CancelInv (s.requestCancel requestId) := by
  have hmono : ∀ f : Flight, s.reads f = true → (s.requestCancel requestId).reads f = true := by
    intro f hreads
    rw [Cancelling.reads, Cancelling.requestCancel, get?_set]
    split_ifs
    · rfl
    · exact hreads
  refine { forced := ?_, addressed := ?_, set := ?_, heard := ?_ }
  · exact fun key f hget hlooping hforced => hmono f (h.forced key f hget hlooping hforced)
  · intro key f hget hlooping
    have hsame := h.addressed key f hget hlooping
    rw [Cancelling.reads, Cancelling.heeds, Cancelling.requestCancel, get?_set]
    by_cases hid : f.canonical.requestId = requestId
    · have hflight : s.InFlight requestId := ⟨f, s.flights.mem_values_iff.mpr ⟨key, hget⟩, hid⟩
      simp only [hid, if_true, if_pos hflight, get?_set_self]
    · rw [if_neg hid]
      by_cases hflight : s.InFlight requestId
      · rw [if_pos hflight, get?_set_of_ne _ _ hid]
        exact hsame
      · rw [if_neg hflight]
        exact hsame
  · intro id b hget
    rw [Cancelling.requestCancel, get?_set] at hget
    split_ifs at hget
    · exact (Option.some.inj hget).symm
    · exact h.set id b hget
  · intro id b hget
    rw [Cancelling.requestCancel, get?_set]
    by_cases hid : id = requestId
    · rw [if_pos hid]
      refine ⟨?_, rfl⟩
      rw [Cancelling.requestCancel] at hget
      by_cases hflight : s.InFlight requestId
      · rw [if_pos hflight, hid, get?_set_self] at hget
        exact (Option.some.inj hget).symm
      · rw [if_neg hflight] at hget
        exact (h.heard id b hget).1
    · rw [if_neg hid]
      rw [Cancelling.requestCancel] at hget
      by_cases hflight : s.InFlight requestId
      · rw [if_pos hflight, get?_set_of_ne _ _ hid] at hget
        exact h.heard id b hget
      · rw [if_neg hflight] at hget
        exact h.heard id b hget

theorem get?_forced {flights : OrderedDict Nat Flight} {key : Nat}
    (hget : (flights.mapValues fun f => { f with forced := true }).get? key = some f) :
    ∃ f', flights.get? key = some f' ∧ f = { f' with forced := true } := by
  rw [get?_mapValues] at hget
  obtain ⟨f', hf', rfl⟩ := Option.map_eq_some_iff.mp hget
  exact ⟨f', hf', rfl⟩

theorem mapValues_get? {flags : OrderedDict String Bool} (h : ∀ id b, flags.get? id = some b → b = true)
    (id : String) : (flags.mapValues fun _ => true).get? id = flags.get? id := by
  rw [get?_mapValues]
  rcases hget : flags.get? id with - | b
  · rfl
  · obtain rfl := h id b hget
    rfl

/-- **Forcing** sets no flag that was not set. -/
theorem CancelInv.forceCancel_reads (h : CancelInv s) (f : Flight) :
    s.forceCancel.reads f = s.reads f ∧ s.forceCancel.heeds f = s.heeds f := by
  rw [Cancelling.forceCancel]
  split_ifs
  · simp only [Cancelling.reads, Cancelling.heeds, mapValues_get? h.set,
      mapValues_get? fun id b hget => (h.heard id b hget).1, and_self]
  · exact ⟨rfl, rfl⟩

theorem CancelInv.forceCancel (h : CancelInv s) (hguard : Addressed g s .forceCancel) :
    CancelInv s.forceCancel := by
  by_cases hservice : s.service ∈ [.draining, .forceCancelling]
  · have hforce : s.forceCancel = {
        service := .forceCancelling
        cancelled := s.cancelled.mapValues fun _ => true
        addressed := s.addressed.mapValues fun _ => true
        flights := s.flights.mapValues fun f => { f with forced := true } } := if_pos hservice
    refine { forced := ?_, addressed := ?_, set := ?_, heard := ?_ }
    · intro key f hget hlooping _
      rw [(h.forceCancel_reads f).1]
      rw [hforce] at hget
      obtain ⟨f', hf', rfl⟩ := get?_forced hget
      exact (h.reads_iff f').mpr (hguard hservice key f' hf' hlooping)
    · intro key f hget hlooping
      rw [(h.forceCancel_reads f).1, (h.forceCancel_reads f).2]
      rw [hforce] at hget
      obtain ⟨f', hf', rfl⟩ := get?_forced hget
      exact h.addressed key f' hf' hlooping
    · intro id b hget
      rw [hforce] at hget
      exact h.set id b ((mapValues_get? h.set id).symm.trans hget)
    · intro id b hget
      rw [hforce] at hget ⊢
      have hheard : ∀ id b, s.addressed.get? id = some b → b = true := fun id b hget =>
        (h.heard id b hget).1
      rw [mapValues_get? hheard] at hget
      rw [mapValues_get? h.set]
      exact h.heard id b hget
  · rw [Cancelling.forceCancel, if_neg hservice]
    exact h

theorem CancelInv.of_service (h : CancelInv s) (service : ServiceState) :
    CancelInv { s with service } :=
  { forced := h.forced, addressed := h.addressed, set := h.set, heard := h.heard }

/-- **One step** keeps what guarded calls keep. -/
theorem CancelInv.step (h : CancelInv s) {call : GatewayCall} (hguard : Addressed g s call) :
    CancelInv (s.step g call) := by
  cases call with
  | arrive key x => exact h.arrive hguard
  | check key => exact h.check key
  | leave key => exact h.leave key
  | requestCancel requestId => exact h.requestCancel requestId
  | beginDrain =>
    show CancelInv (if _ then _ else _)
    split_ifs
    · exact h.of_service _
    · exact h
  | forceCancel => exact h.forceCancel hguard
  | close =>
    show CancelInv (if _ then _ else _)
    split_ifs
    · exact h.of_service _
    · exact h

/-- **Off the guard** somebody reads what was not meant for him, or misses what was. -/
theorem CancelInv.leaves (h : CancelInv s) {call : GatewayCall} (hguard : ¬ Addressed g s call) :
    ¬ CancelReaches (s.step g call) := by
  cases call with
  | arrive key x =>
    simp only [Addressed, not_forall] at hguard
    obtain ⟨hkey, f, henter, hreads, hheeds⟩ := hguard
    intro hreaches
    have harrive : s.arrive g key x = { s with flights := s.flights.set key f } := by
      rw [Cancelling.arrive, if_neg hkey, Option.mem_def.mp henter]
    have hsame := hreaches.addressed key f (by
      show (s.arrive g key x).flights.get? key = some f
      rw [harrive]
      exact get?_set_self _ _ _) (looping_enter henter).1
    rw [show s.step g (.arrive key x) = _ from harrive] at hsame
    exact hheeds (hsame.symm.trans hreads)
  | forceCancel =>
    simp only [Addressed, not_forall] at hguard
    obtain ⟨hservice, key, f, hget, hlooping, hid⟩ := hguard
    intro hreaches
    have hget' : s.forceCancel.flights.get? key = some { f with forced := true } := by
      rw [Cancelling.forceCancel, if_pos hservice]
      show (s.flights.mapValues fun f => { f with forced := true }).get? key = _
      rw [get?_mapValues, hget]
      rfl
    have hreads := hreaches.forced key _ hget' hlooping rfl
    rw [show s.step g .forceCancel = s.forceCancel from rfl, (h.forceCancel_reads _).1] at hreads
    exact hid ((h.reads_iff f).mp hreads)
  | check key => exact absurd trivial hguard
  | leave key => exact absurd trivial hguard
  | requestCancel requestId => exact absurd trivial hguard
  | beginDrain => exact absurd trivial hguard
  | close => exact absurd trivial hguard

end Step

/-- **Where cancellation reaches the right request.**  In a run of the gateway every forced
request reads a cancel at its next check, and no request reads one that was meant for nobody,
exactly if nobody enters under an id that only such cancels have flagged, and the service is
forced only while every request with a next check has an entry. -/
theorem cancel_reaches_iff (g : ServingGateway) (calls : List GatewayCall) :
    (cancelling g).Always CancelReaches (cancelling g).init calls ↔
      (cancelling g).Guarded (Addressed g) (cancelling g).init calls := by
  have hstart : CancelInv (cancelling g).init := {
    forced := fun key f hget => (nomatch hget)
    addressed := fun key f hget => (nomatch hget)
    set := fun id b hget => (nomatch hget)
    heard := fun id b hget => (nomatch hget) }
  exact always_iff_guarded (fun s h => h.toCancelReaches) (fun s call h hguard => h.step hguard)
    (fun s call h hguard => h.leaves hguard) hstart

/-- A request in flight that is not told when the service is forced, and one that is cancelled by
what was said before it came. -/
theorem cancel_not_reaches :
    let x := smallExchange true { turns := [{ chunk := { tokenId := 7, text := "a" } }] }
    ¬ (cancelling (smallGateway [])).Always CancelReaches (cancelling (smallGateway [])).init
      [.arrive 0 x, .beginDrain, .forceCancel] ∧
    ¬ (cancelling (smallGateway [])).Always CancelReaches (cancelling (smallGateway [])).init
      [.requestCancel "r", .arrive 0 x] := by
  intro x
  refine ⟨fun h => ?_, fun h => ?_⟩
  · have hlast := always_iff_runFrom.mp h _ (prefix_refl _)
    generalize hs : (cancelling (smallGateway [])).runFrom _ _ = s at hlast
    have hmissed : (s.flights.get? 0).any
        (fun f => f.looping && f.forced && !s.reads f) = true := by
      subst hs
      decide +kernel
    obtain ⟨f, hget, hf⟩ := (Option.any_eq_true _ _).mp hmissed
    simp only [Bool.and_eq_true, Bool.not_eq_true'] at hf
    exact absurd (hlast.forced 0 f hget hf.1.1 hf.1.2) (Bool.eq_false_iff.mp hf.2)
  · have hlast := always_iff_runFrom.mp h _ (prefix_refl _)
    generalize hs : (cancelling (smallGateway [])).runFrom _ _ = s at hlast
    have hstale : (s.flights.get? 0).any
        (fun f => f.looping && s.reads f && !s.heeds f) = true := by
      subst hs
      decide +kernel
    obtain ⟨f, hget, hf⟩ := (Option.any_eq_true _ _).mp hstale
    simp only [Bool.and_eq_true, Bool.not_eq_true'] at hf
    have hsame := hlast.addressed 0 f hget hf.1.1
    rw [hf.1.2, hf.2] at hsame
    cases hsame

/-! ### Handles beside each other -/

section

variable {g : ServingGateway} {s s' : Cancelling} {calls : List GatewayCall} {f : Flight}

theorem stage_of_leaving {result : Attempt Serving} (h : f.stage = .leaving result)
    (flags : List Bool) : (flags.foldl (Flight.check g) f).stage = .leaving result := by
  induction flags generalizing f with
  | nil => exact h
  | cons flag flags ih =>
    refine ih ?_
    rw [Flight.check, h]
    exact h

/-- Behind the loop stands the result of the loop, for the flags that were read. -/
theorem checks_left {turns : List Turn} {serving : Serving} {flags : List Bool}
    {result : Attempt Serving} (hstage : f.stage = .looping turns serving)
    (hleft : (flags.foldl (Flight.check g) f).stage = .leaving result) :
    ∃ (read : List Bool) (last : Bool), read.length = turns.length ∧
      (true ∈ read ++ [last] → true ∈ flags) ∧
      result = serveLoop g f.canonical f.deadlineNs (f.script.reading last)
        (zipWith Turn.reading turns read) serving := by
  -- a handle that has left its loop early would read cleared flags
  let all := flags ++ replicate (turns.length + 1) false
  have hlt : turns.length < all.length := by simp [all]; omega
  have hread : (all.take turns.length).length = turns.length := length_take_of_le hlt.le
  have htake := take_append_getElem hlt
  refine ⟨all.take turns.length, all[turns.length], hread, fun hflag => ?_, ?_⟩
  · rw [htake] at hflag
    simpa [all] using mem_of_mem_take hflag
  · have hall : (all.foldl (Flight.check g) f).stage = .leaving result := by
      rw [foldl_append]
      exact stage_of_leaving hleft _
    rw [← take_append_drop (turns.length + 1) all, foldl_append, ← htake,
      checks_eq hstage hread] at hall
    exact (Stage.leaving.inj ((stage_of_leaving rfl _).symm.trans hall)).symm

/-- A handle as its own checks have left it: it has read no flag that is not `up`. -/
structure Followed (g : ServingGateway) (calls : List GatewayCall) (key : Nat) (x : Exchange)
    (entered : Flight) (flags : List Bool) (up : Bool) (f : Flight) : Prop where
  arrived : .arrive key x ∈ calls
  enters : ∃ service, enter g service x = some entered
  checked : f = { flags.foldl (Flight.check g) entered with forced := f.forced }
  heard : true ∈ flags → up = true

/-- Every handle of a gateway is where its own checks have left it. -/
def Apart (g : ServingGateway) (calls : List GatewayCall) (s : Cancelling) : Prop :=
  ∀ key f, s.flights.get? key = some f →
    ∃ x entered flags, Followed g calls key x entered flags (s.reads f) f

/-- Steps that touch a handle's flag at most to raise it leave it where it was. -/
theorem Apart.kept (h : Apart g calls s) {call : GatewayCall}
    (hflights : ∀ key f', s'.flights.get? key = some f' →
      ∃ f, s.flights.get? key = some f ∧ f' = { f with forced := f'.forced })
    (hreads : ∀ f, s.reads f = true → s'.reads f = true) : Apart g (calls ++ [call]) s' := by
  intro key f' hf'
  obtain ⟨f, hf, heq⟩ := hflights key f' hf'
  obtain ⟨x, entered, flags, ht⟩ := h key f hf
  refine ⟨x, entered, flags, mem_append_left _ ht.arrived, ht.enters, ?_, fun hflag => ?_⟩
  · rw [heq, ht.checked]
  · rw [heq]
    exact hreads f (ht.heard hflag)

theorem check_forced (f : Flight) (forced flag : Bool) :
    ({ f with forced } : Flight).check g flag = { f.check g flag with forced } := by
  obtain ⟨canonical, deadlineNs, script, stage, _⟩ := f
  rcases stage with ⟨- | ⟨t, turns⟩, serving⟩ | result
  · rfl
  · simp only [Flight.check]
    split <;> rfl
  · rfl

theorem Apart.step (h : Apart g calls s) (call : GatewayCall) :
    Apart g (calls ++ [call]) (s.step g call) := by
  have hsame (service : ServiceState) : Apart g (calls ++ [call]) { s with service } :=
    h.kept (fun key f hf => ⟨f, hf, rfl⟩) fun _ hf => hf
  cases call with
  | arrive key x =>
    rw [Cancelling.step, Cancelling.arrive]
    split_ifs
    · exact hsame s.service
    cases henter : enter g s.service x with
    | none => exact hsame s.service
    | some f =>
      intro key' f' hf'
      dsimp only at hf'
      rw [get?_set] at hf'
      split_ifs at hf' with hkey
      · cases hf'
        subst hkey
        exact ⟨x, f, [], mem_append_right _ (mem_singleton_self _), ⟨_, henter⟩, rfl,
          fun hflag => absurd hflag not_mem_nil⟩
      · exact hsame s.service key' f' hf'
  | check key =>
    rw [Cancelling.step, Cancelling.check]
    cases hf : s.flights.get? key with
    | none => exact hsame s.service
    | some f =>
      intro key' f' hf'
      dsimp only at hf'
      rw [get?_set] at hf'
      split_ifs at hf' with hkey
      · cases hf'
        obtain ⟨x, entered, flags, ht⟩ := h key f hf
        obtain ⟨hcanonical, hforced, -⟩ := check_same (g := g) f (s.reads f)
        have hreads : s.reads (f.check g (s.reads f)) = s.reads f := by
          rw [Cancelling.reads, hcanonical]
          rfl
        subst hkey
        refine ⟨x, entered, flags ++ [s.reads f], mem_append_left _ ht.arrived, ht.enters,
          ?_, fun hflag => hreads.trans ?_⟩
        · rw [foldl_append, hforced]
          show _ = { Flight.check g _ _ with forced := f.forced }
          rw [← check_forced, ← ht.checked]
        · -- an old flag was up before, and the new one is what the map holds
          rcases mem_append.mp hflag with hflag | hflag
          · exact ht.heard hflag
          · exact (mem_singleton.mp hflag).symm
      · exact hsame s.service key' f' hf'
  | leave key =>
    rw [Cancelling.step, Cancelling.leave]
    cases hf : s.flights.get? key with
    | none => exact hsame s.service
    | some f =>
      dsimp only
      split_ifs
      · exact hsame s.service
      · refine h.kept (fun key' f' hf' => ⟨f', ?_, rfl⟩) fun _ hf => hf
        rw [get?_erase] at hf'
        split_ifs at hf'
        exact hf'
  | requestCancel requestId =>
    refine h.kept (fun key f hf => ⟨f, hf, rfl⟩) fun f hreads => ?_
    rw [Cancelling.reads, Cancelling.step, Cancelling.requestCancel, get?_set]
    split_ifs
    · rfl
    · exact hreads
  | beginDrain =>
    rw [Cancelling.step, Cancelling.beginDrain]
    split_ifs
    · exact hsame _
    · exact hsame s.service
  | forceCancel =>
    rw [Cancelling.step, Cancelling.forceCancel]
    split_ifs
    · refine h.kept (fun key f hf => ?_) fun f hreads => ?_
      · obtain ⟨f', hf', rfl⟩ := get?_forced hf
        exact ⟨f', hf', rfl⟩
      · rw [Cancelling.reads] at hreads ⊢
        rw [get?_mapValues]
        cases hget : s.cancelled.get? f.canonical.requestId with
        | none => rw [hget] at hreads; cases hreads
        | some flag => rfl
    · exact hsame s.service
  | close =>
    rw [Cancelling.step, Cancelling.close]
    split_ifs
    · exact hsame _
    · exact hsame s.service

theorem apart_run (calls : List GatewayCall) : Apart g calls ((cancelling g).run calls) := by
  induction calls using reverseRecOn with
  | nil =>
    intro key f hf
    cases hf
  | append_singleton calls call ih =>
    rw [Machine.run, runFrom_concat]
    exact ih.step call

/-- The result is that of the loop over the handle's own script, for one reading of its flag at each
check; a raised flag among these readings is one that is still up. -/
def OwnResult (g : ServingGateway) (calls : List GatewayCall) (key : Nat) (f : Flight)
    (result : Attempt Serving) : Prop :=
  ∃ x service entered serving read last, .arrive key x ∈ calls ∧
    enter g service x = some entered ∧ entered.stage = .looping x.script.turns serving ∧
    read.length = x.script.turns.length ∧
    (true ∈ read ++ [last] → ((cancelling g).run calls).reads f = true) ∧
    result = serveLoop g entered.canonical entered.deadlineNs (x.script.reading last)
      (zipWith Turn.reading x.script.turns read) serving

/-- **Handles do not disturb each other**, however the calls of `handle` interleave, with cancels,
drains, forcing and closing in between. -/
theorem handles_undisturbed {key : Nat} {result : Attempt Serving}
    (hf : ((cancelling g).run calls).flights.get? key = some f)
    (hleft : f.stage = .leaving result) : OwnResult g calls key f result := by
  obtain ⟨x, entered, flags, ht⟩ := apart_run (g := g) calls key f hf
  obtain ⟨service, henter⟩ := ht.enters
  rw [ht.checked] at hleft
  obtain ⟨serving, hstage, hscript⟩ : ∃ serving,
      entered.stage = .looping x.script.turns serving ∧ entered.script = x.script := by
    rw [enter] at henter
    split at henter
    · split at henter
      · cases henter
        exact ⟨_, rfl, rfl⟩
      · cases henter
    · cases henter
  obtain ⟨read, last, hlength, hflag, hresult⟩ := checks_left hstage hleft
  exact ⟨x, service, entered, serving, read, last, ht.arrived, henter, hstage, hlength,
    fun h => ht.heard (hflag h), hscript ▸ hresult⟩

/-- A handle that goes through its loop while another one is cancelled. -/
theorem handles_undisturbed_two :
    let x := smallExchange true { turns := [{ chunk := { tokenId := 7, text := "a" } }] }
    let calls := [.arrive 0 x, .check 0, .arrive 1 x, .requestCancel "other", .check 1, .check 0]
    ∃ f result, ((cancelling (smallGateway [])).run calls).flights.get? 0 = some f ∧
      f.stage = .leaving result ∧ OwnResult (smallGateway []) calls 0 f result := by
  intro x calls
  have hleft : (((cancelling (smallGateway [])).run calls).flights.get? 0).any
      (fun f => !f.looping) = true := by
    subst calls x
    decide +kernel
  obtain ⟨f, hf, hloop⟩ := (Option.any_eq_true _ _).mp hleft
  cases hstage : f.stage with
  | looping turns serving => simp [Flight.looping, hstage] at hloop
  | leaving result => exact ⟨f, result, hf, hstage, handles_undisturbed hf hstage⟩

end

end Hqsb
