/-
Hqsb/Distributed/Ledger.lean

The communication ledger: expected against observed events
(`ExpectedEvent`, `ObservedEvent`, `LedgerResult` and `diff_ledger` of
`hqsb/distributed/ledger.py`).

Events are pooled by phase, layer and collective, and a pool is compared by its number
of events and its bytes.  Without explanations a ledger is closed when all pools agree
in these two numbers (`closed_iff`).  The tensor role is in neither of them, and sizes
are only added up: `closed_sound_iff` says for which events a closed ledger means that
every expected event was observed.

Layers are arbitrary: a type with decidable equality, and the text they are sorted by.
-/
import Hqsb.Lib.Buckets
import Hqsb.Lib.Matching

namespace Hqsb.Distributed

open Lib Lib.Buckets List

/-! ### Events -/

def ledgerReasonCodes : List String :=
  ["fusion", "deferred_gather", "padding", "fallback", "instrumentation_missing",
    "duplicate_gather", "layout_conversion", "trace_duplication", "reduce_scatter_keeps_shard",
    "vocab_parallel_logits", "prefix_cache_actual_rows"]

def ledgerPhases : List String := ["prefill", "decode", "both"]

/-- The names of `DTYPE_BYTES`. -/
def dtypeNames : List String :=
  ["int8", "uint8", "fp16", "bf16", "fp32", "int32", "fp64", "int64"]

/-- One expected collective, with what its constructor checks. -/
structure ExpectedEvent (L : Type) where
  phase : String
  layer : L
  submodule : String
  collective : String
  tensorRole : String
  rows : Int
  hidden : Int
  dtype : String
  payloadBytes : Int
  groupSize : Int
  expectedCalls : Int := 1
  expectedAlgorithmicBytes : Int := 0
  source : String := "plan"
  phase_mem : phase ∈ ledgerPhases
  nonneg : 0 ≤ rows ∧ 0 ≤ hidden
  dtype_mem : dtype ∈ dtypeNames

/-- One collective as recorded by the runtime/profiler. -/
structure ObservedEvent (L : Type) where
  rank : Int
  groupId : String
  collectiveSeq : Int
  op : String
  tensorRole : String
  phase : String
  layer : L
  payloadBytes : Int
  dtype : String
  startNs : Int := 0
  endNs : Int := 0
  stream : String := ""
  algorithm : String := ""
  protocol : String := ""
  callsite : String := ""
  source : String := "runtime"

/-- Phase, layer and collective. -/
abbrev LedgerKey (L : Type) := String × L × String

variable {L : Type}

def ExpectedEvent.key (e : ExpectedEvent L) : LedgerKey L := (e.phase, e.layer, e.collective)

def ObservedEvent.key (e : ObservedEvent L) : LedgerKey L := (e.phase, e.layer, e.op)

/-! ### Results -/

structure LedgerDiffRow (L : Type) where
  phase : String
  layer : L
  submodule : String
  collective : String
  expectedCalls : Int
  observedCalls : Int
  expectedBytes : Int
  observedBytes : Int
  reasonCode : String := ""
  explanation : String := ""

namespace LedgerDiffRow

def matched (row : LedgerDiffRow L) : Bool :=
  row.expectedCalls = row.observedCalls && row.expectedBytes = row.observedBytes

def explained (row : LedgerDiffRow L) : Bool :=
  row.reasonCode ≠ "" && row.reasonCode ∈ ledgerReasonCodes

end LedgerDiffRow

structure LedgerResult (L : Type) where
  rows : List (LedgerDiffRow L)
  unmatchedExpected : List (ExpectedEvent L)
  unmatchedObserved : List (ObservedEvent L)
  totalExpectedBytes : Int
  totalObservedBytes : Int
  reasonCodes : List String

namespace LedgerResult

def conservationOk (r : LedgerResult L) : Bool :=
  r.unmatchedExpected.isEmpty && r.unmatchedObserved.isEmpty

/-- A ledger is closed when every row matches or carries a legal reason. -/
def closed (r : LedgerResult L) : Bool :=
  r.conservationOk && r.rows.all fun row => row.matched || row.explained

end LedgerResult

/-! ### The comparison -/

section Diff

/-- The reasons a caller gives for the rows, by key: a code and a text. -/
abbrev Explanations (L : Type) := LedgerKey L → Option (String × String)

def noExplanations : Explanations L := fun _ => none

def expectedBytes (events : List (ExpectedEvent L)) : Int :=
  (events.map fun item => item.payloadBytes * item.expectedCalls).sum

def observedBytes (events : List (ObservedEvent L)) : Int :=
  (events.map fun item => item.payloadBytes).sum

def diffRow (explanations : Explanations L) (key : LedgerKey L)
    (expectedEvents : List (ExpectedEvent L)) (observedEvents : List (ObservedEvent L)) :
    LedgerDiffRow L where
  phase := key.1
  layer := key.2.1
  submodule := match expectedEvents, observedEvents with
    | e :: _, _ => e.submodule
    | [], o :: _ => o.callsite
    | [], [] => ""
  collective := key.2.2
  expectedCalls := (expectedEvents.map ExpectedEvent.expectedCalls).sum
  observedCalls := observedEvents.length
  expectedBytes := expectedBytes expectedEvents
  observedBytes := observedBytes observedEvents
  reasonCode := ((explanations key).getD ("", "")).1
  explanation := ((explanations key).getD ("", "")).2

variable [DecidableEq L] (str : L → String)

def sortKey (key : LedgerKey L) : String ×ₗ String ×ₗ String :=
  toLex (key.1, toLex (str key.2.1, key.2.2))

variable (expected : List (ExpectedEvent L)) (observed : List (ObservedEvent L))

def ledgerKeys : List (LedgerKey L) :=
  ((bucket ExpectedEvent.key expected).keys ++
    (bucket ObservedEvent.key observed).keys).dedup.insertionSort
      fun a b => sortKey str a ≤ sortKey str b

/-- Expected against observed, with explicit reasons. -/
def diffLedger (explanations : Explanations L) : LedgerResult L :=
  let expectedIndex := bucket ExpectedEvent.key expected
  let observedIndex := bucket ObservedEvent.key observed
  let keys := ledgerKeys str expected observed
  let expectedEvents := fun key => (expectedIndex.get? key).getD []
  let observedEvents := fun key => (observedIndex.get? key).getD []
  let rows := keys.map fun key =>
    diffRow explanations key (expectedEvents key) (observedEvents key)
  { rows := rows
    unmatchedExpected := keys.flatMap fun key =>
      if expectedEvents key ≠ [] ∧ observedEvents key = [] then expectedEvents key else []
    unmatchedObserved := keys.flatMap fun key =>
      if observedEvents key ≠ [] ∧ expectedEvents key = [] then observedEvents key else []
    totalExpectedBytes := expectedBytes expected
    totalObservedBytes := observedBytes observed
    reasonCodes := ((rows.map LedgerDiffRow.reasonCode).filter (· ≠ "")).dedup.insertionSort
      (· ≤ ·) }

end Diff

/-! ### What closing says -/

section Closed

variable [DecidableEq L] (str : L → String) (expected : List (ExpectedEvent L))
  (observed : List (ObservedEvent L))

def expectedAt (key : LedgerKey L) : List (ExpectedEvent L) :=
  expected.filter fun e => decide (e.key = key)

def observedAt (key : LedgerKey L) : List (ObservedEvent L) :=
  observed.filter fun o => decide (o.key = key)

/-- The two pools of a key agree in number and in bytes. -/
def Balanced (key : LedgerKey L) : Prop :=
  (expectedAt expected key).length = (observedAt observed key).length ∧
    ((expectedAt expected key).map ExpectedEvent.payloadBytes).sum =
      observedBytes (observedAt observed key)

theorem mem_ledgerKeys (key : LedgerKey L) : key ∈ ledgerKeys str expected observed ↔
    expectedAt expected key ≠ [] ∨ observedAt observed key ≠ [] := by
  rw [ledgerKeys, (perm_insertionSort _ _).mem_iff, mem_dedup, mem_append,
    mem_keys_bucket, mem_keys_bucket, expectedAt, observedAt]
  simp only [ne_eq, filter_eq_nil_iff, decide_eq_true_eq, not_forall, not_not, exists_prop]

variable {expected}

theorem diffRow_matched_iff (hcalls : ∀ e ∈ expected, e.expectedCalls = 1)
    (explanations : Explanations L) (key : LedgerKey L) :
    (diffRow explanations key (expectedAt expected key) (observedAt observed key)).matched = true ↔
      Balanced expected observed key := by
  have hone : ∀ e ∈ expectedAt expected key, e.expectedCalls = 1 :=
    fun e he => hcalls e (mem_of_mem_filter he)
  have hcount : ((expectedAt expected key).map ExpectedEvent.expectedCalls).sum =
      (expectedAt expected key).length := by
    rw [map_congr_left hone, map_const', sum_replicate, nsmul_one]
  have hbytes : expectedBytes (expectedAt expected key) =
      ((expectedAt expected key).map ExpectedEvent.payloadBytes).sum := by
    refine congrArg List.sum (map_congr_left fun e he => ?_)
    rw [hone e he, mul_one]
  rw [LedgerDiffRow.matched, Bool.and_eq_true, decide_eq_true_eq, decide_eq_true_eq, Balanced,
    ← hbytes, ← Int.natCast_inj, ← hcount]
  rfl

/-- **A closed ledger** is one whose pools all agree in number and in bytes. -/
theorem closed_iff (hcalls : ∀ e ∈ expected, e.expectedCalls = 1) :
    (diffLedger str expected observed noExplanations).closed = true ↔
      ∀ key, Balanced expected observed key := by
  have hexpected : ∀ key, ((bucket ExpectedEvent.key expected).get? key).getD [] =
      expectedAt expected key := getD_get?_bucket _ _
  have hobserved : ∀ key, ((bucket ObservedEvent.key observed).get? key).getD [] =
      observedAt observed key := getD_get?_bucket _ _
  have hrow : ∀ key, ((diffRow noExplanations key (expectedAt expected key)
      (observedAt observed key)).matched || (diffRow noExplanations key (expectedAt expected key)
      (observedAt observed key)).explained) = true ↔ Balanced expected observed key := by
    intro key
    rw [← diffRow_matched_iff observed hcalls noExplanations key]
    -- without a reason code no row is explained
    rw [show (diffRow noExplanations key (expectedAt expected key)
      (observedAt observed key)).explained = false from rfl, Bool.or_false]
  rw [LedgerResult.closed, LedgerResult.conservationOk, diffLedger]
  simp only [hexpected, hobserved, Bool.and_eq_true, List.isEmpty_iff, List.flatMap_eq_nil_iff,
    List.all_map, List.all_eq_true, Function.comp_apply, hrow, mem_ledgerKeys]
  constructor
  · rintro ⟨-, hall⟩ key
    by_cases hkey : expectedAt expected key ≠ [] ∨ observedAt observed key ≠ []
    · exact hall key hkey
    · push Not at hkey
      rw [Balanced, hkey.1, hkey.2]
      exact ⟨rfl, rfl⟩
  · intro hall
    refine ⟨⟨fun key _ => ?_, fun key _ => ?_⟩, fun key _ => hall key⟩
    · refine if_neg fun h => h.1 (List.length_eq_zero_iff.mp ?_)
      rw [(hall key).1, h.2]
      rfl
    · refine if_neg fun h => h.1 (List.length_eq_zero_iff.mp ?_)
      rw [← (hall key).1, h.2]
      rfl

end Closed

/-! ### What closing should say -/

section Sound

variable [DecidableEq L]

/-- What an expected event promises: phase, layer, collective, tensor role and payload. -/
def ExpectedEvent.promise (e : ExpectedEvent L) : LedgerKey L × String × Int :=
  (e.key, e.tensorRole, e.payloadBytes)

def ObservedEvent.shown (e : ObservedEvent L) : LedgerKey L × String × Int :=
  (e.key, e.tensorRole, e.payloadBytes)

section

variable (expected : List (ExpectedEvent L)) (observed : List (ObservedEvent L))

/-- Every expected event was observed, and nothing else. -/
def Accounted : Prop :=
  Matched ExpectedEvent.promise ObservedEvent.shown expected observed

/-- The roles and sizes of a pool are the expected ones. -/
def SameEvents (key : LedgerKey L) : Prop :=
  ((expectedAt expected key).map fun e => (e.tensorRole, e.payloadBytes)).Perm
    ((observedAt observed key).map fun o => (o.tensorRole, o.payloadBytes))

theorem accounted_iff : Accounted expected observed ↔ ∀ key, SameEvents expected observed key := by
  rw [Accounted, matched_iff_perm, perm_iff_filter Prod.fst]
  refine forall_congr' fun key => ?_
  -- the entries of a key are the pool, with the key in front
  have hpool : ∀ {α β : Type} (f : α → LedgerKey L × β) (l : List α),
      (l.map f).filter (fun a => decide (a.1 = key)) =
        ((l.filter fun a => (f a).1 = key).map fun a => (f a).2).map (key, ·) := by
    intro α β f l
    rw [filter_map, map_map]
    refine map_congr_left fun a ha => Prod.ext ?_ rfl
    exact of_decide_eq_true (mem_filter.mp ha).2
  rw [hpool ExpectedEvent.promise, hpool ObservedEvent.shown]
  exact map_perm_map_iff (Prod.mk_right_injective key)

end

/-- **When a closed ledger is sound.**  Either some pool differs in number or in bytes, and the
ledger is open, or every pool has the expected roles and sizes. -/
theorem closed_sound_iff (str : L → String) (expected : List (ExpectedEvent L))
    (observed : List (ObservedEvent L)) (hcalls : ∀ e ∈ expected, e.expectedCalls = 1) :
    ((diffLedger str expected observed noExplanations).closed = true →
      Accounted expected observed) ↔
    (∃ key, ¬ Balanced expected observed key) ∨ ∀ key, SameEvents expected observed key := by
  rw [closed_iff str observed hcalls, accounted_iff, imp_iff_not_or, not_forall]

def inRole (role : String) (e : ExpectedEvent L) : ObservedEvent L :=
  ⟨0, "", 0, e.collective, role, e.phase, e.layer, e.payloadBytes, e.dtype, 0, 0, "", "", "", "",
    "runtime"⟩

/-! ### Closed, and not the expected events -/

def reduction (role : String) (payload : Int) : ExpectedEvent Nat where
  phase := "decode"
  layer := 0
  submodule := ""
  collective := "all_reduce"
  tensorRole := role
  rows := 1
  hidden := 1
  dtype := "fp16"
  payloadBytes := payload
  groupSize := 2
  phase_mem := by decide
  nonneg := by decide
  dtype_mem := by decide

/-- The MLP reduction twice in place of both reductions, and two sizes for another two. -/
theorem swapped_reduction_closes : ¬ ∀ (expected : List (ExpectedEvent Nat))
    (observed : List (ObservedEvent Nat)), (∀ e ∈ expected, e.expectedCalls = 1) →
      (diffLedger toString expected observed noExplanations).closed = true →
        Accounted expected observed := by
  intro h
  have haccounted := h [reduction "attention_output" 8, reduction "mlp_output" 8]
    [inRole "mlp_output" (reduction "" 8), inRole "mlp_output" (reduction "" 8)]
    (by decide) (by decide)
  have hperm := (matched_iff_perm _ _ _ _).mp haccounted
  revert hperm
  decide +kernel

/-- Both reductions of a layer, observed in the other order. -/
theorem observed_reductions_sound :
    (diffLedger toString [reduction "attention_output" 8, reduction "mlp_output" 16]
      [inRole "mlp_output" (reduction "" 16), inRole "attention_output" (reduction "" 8)]
      noExplanations).closed = true ∧
    Accounted [reduction "attention_output" 8, reduction "mlp_output" 16]
      [inRole "mlp_output" (reduction "" 16), inRole "attention_output" (reduction "" 8)] := by
  have hclosed : (diffLedger toString [reduction "attention_output" 8, reduction "mlp_output" 16]
      [inRole "mlp_output" (reduction "" 16), inRole "attention_output" (reduction "" 8)]
      noExplanations).closed = true := by
    decide +kernel
  refine ⟨hclosed, (closed_sound_iff toString _ _ (by decide)).mpr (.inr fun key => ?_) hclosed⟩
  by_cases hkey : (reduction "mlp_output" 16).key = key
  · subst hkey
    rw [SameEvents]
    decide +kernel
  · have hexpected : expectedAt [reduction "attention_output" 8, reduction "mlp_output" 16] key =
        [] := filter_eq_nil_iff.mpr (by simpa using ⟨hkey, hkey⟩)
    have hobserved : observedAt [inRole "mlp_output" (reduction "" 16),
        inRole "attention_output" (reduction "" 8)] key = [] :=
      filter_eq_nil_iff.mpr (by simpa using ⟨hkey, hkey⟩)
    rw [SameEvents, hexpected, hobserved]
    exact List.Perm.refl _

end Sound

end Hqsb.Distributed
