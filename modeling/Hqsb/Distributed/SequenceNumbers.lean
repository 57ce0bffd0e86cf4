/-
Hqsb/Distributed/SequenceNumbers.lean

Sequence numbers of a communicator (`SequenceAllocator` of `hqsb/distributed/sequence.py`).

A rebuilt communicator counts from zero again, in a namespace of its own: the pairs of an epoch
and a number are distinct, and the numbers of an epoch are consecutive (`Sound`).
`assert_new_epoch_seq` compares bare numbers, so that it refuses what an epoch issues as soon as
an older epoch has issued anything (`accepted_iff`).  `sequence_numbers_fresh_iff` says it for
every run.
-/
import Hqsb.Lib.Machine

namespace Hqsb.Distributed

open Lib List

/-! ### The allocator -/

/-- The `ConfigError`s of the methods, with what their texts are made of. -/
inductive SequenceError where
  | epochNotGreater (newEpoch rankEpoch : Int)
  | issuedUnderOlderEpoch (seq : Nat)
  deriving DecidableEq

/-- Per-epoch monotonic sequence namespace. -/
structure SequenceAllocator where
  rankEpoch : Int
  nextSeq : Nat
  issued : List (Int × Nat)

namespace SequenceAllocator

def new (rankEpoch : Int) : SequenceAllocator := ⟨rankEpoch, 0, []⟩

variable (a : SequenceAllocator)

def next : Nat × SequenceAllocator :=
  (a.nextSeq, { a with
    nextSeq := a.nextSeq + 1, issued := a.issued ++ [(a.rankEpoch, a.nextSeq)] })

/-- A rebuilt communicator gets a *new namespace*, not a continued one. -/
def resetForEpoch (newEpoch : Int) : Except SequenceError SequenceAllocator :=
  if newEpoch ≤ a.rankEpoch then .error (.epochNotGreater newEpoch a.rankEpoch)
  else .ok { a with rankEpoch := newEpoch, nextSeq := 0 }

def assertNewEpochSeq (seq : Nat) : Except SequenceError Unit :=
  if a.issued.any fun entry => entry.1 ≠ a.rankEpoch ∧ entry.2 = seq then
    .error (.issuedUnderOlderEpoch seq)
  else .ok ()

def seqsOf (epoch : Int) : List Nat :=
  (a.issued.filter fun entry => entry.1 = epoch).map Prod.snd

end SequenceAllocator

/-- The calls that change the allocator. -/
inductive AllocatorCall where
  | next
  | resetForEpoch (newEpoch : Int)

open SequenceAllocator

def SequenceAllocator.call (a : SequenceAllocator) : AllocatorCall → SequenceAllocator
  | .next => a.next.2
  | .resetForEpoch newEpoch =>
    match a.resetForEpoch newEpoch with
    | .ok a' => a'
    | .error _ => a

def allocatorMachine (rankEpoch : Int) : Machine SequenceAllocator AllocatorCall where
  init := .new rankEpoch
  step := .call

/-! ### Numbers of an epoch -/

/-- Every epoch counts from zero, and no epoch is newer than the current one. -/
structure SequenceAllocator.Sound (a : SequenceAllocator) : Prop where
  consecutive : ∀ epoch, a.seqsOf epoch = List.range (a.seqsOf epoch).length
  current : (a.seqsOf a.rankEpoch).length = a.nextSeq
  past : ∀ entry ∈ a.issued, entry.1 ≤ a.rankEpoch

section Steps

variable {a : SequenceAllocator} {seq : Nat} {epoch : Int}

theorem mem_seqsOf : seq ∈ a.seqsOf epoch ↔ (epoch, seq) ∈ a.issued := by
  simp [seqsOf]

theorem seqsOf_next : a.next.2.seqsOf epoch =
    a.seqsOf epoch ++ if a.rankEpoch = epoch then [a.nextSeq] else [] := by
  rw [seqsOf, seqsOf, SequenceAllocator.next, filter_append]
  by_cases h : a.rankEpoch = epoch <;> simp [h]

theorem sound_new (rankEpoch : Int) : (SequenceAllocator.new rankEpoch).Sound :=
  ⟨fun _ => rfl, rfl, nofun⟩

theorem SequenceAllocator.Sound.next (h : a.Sound) : a.next.2.Sound := by
  refine ⟨fun epoch => ?_, ?_, fun entry hentry => ?_⟩
  · rw [seqsOf_next]
    by_cases hepoch : a.rankEpoch = epoch
    · subst hepoch
      rw [if_pos rfl, length_append, length_singleton, range_succ,
        ← h.current, ← h.consecutive]
    · rw [if_neg hepoch, append_nil]
      exact h.consecutive epoch
  · show (a.next.2.seqsOf a.rankEpoch).length = a.nextSeq + 1
    rw [seqsOf_next, if_pos rfl, length_append, h.current]
    rfl
  · rcases mem_append.mp hentry with hentry | hentry
    · exact h.past entry hentry
    · rw [mem_singleton.mp hentry]
      exact le_refl a.rankEpoch

theorem SequenceAllocator.Sound.resetForEpoch (h : a.Sound) (hlt : a.rankEpoch < epoch) :
    SequenceAllocator.Sound { a with rankEpoch := epoch, nextSeq := 0 } := by
  refine ⟨h.consecutive, ?_, fun entry hentry => (h.past entry hentry).trans hlt.le⟩
  have hnone : a.seqsOf epoch = [] := eq_nil_iff_forall_not_mem.mpr fun seq hseq =>
    absurd (h.past _ (mem_seqsOf.mp hseq)) (not_le.mpr hlt)
  show (a.seqsOf epoch).length = 0
  rw [hnone]
  rfl

theorem SequenceAllocator.Sound.nodup (h : a.Sound) : a.issued.Nodup := by
  refine nodup_iff_count_le_one.mpr fun entry => ?_
  have hcount : a.issued.count entry ≤ (a.seqsOf entry.1).count entry.2 := by
    rw [← count_filter (p := fun e => decide (e.1 = entry.1)) (by simp)]
    exact count_le_count_map
  refine hcount.trans ?_
  rw [h.consecutive]
  exact nodup_iff_count_le_one.mp nodup_range _

/-- Nothing is issued in the current epoch, or nothing in an older one. -/
def Unshared (a : SequenceAllocator) : Prop :=
  a.nextSeq = 0 ∨ ∀ entry ∈ a.issued, entry.1 = a.rankEpoch

theorem assertNewEpochSeq_eq_ok : a.assertNewEpochSeq seq = .ok () ↔
    ∀ epoch, (epoch, seq) ∈ a.issued → epoch = a.rankEpoch := by
  rw [assertNewEpochSeq]
  split_ifs with h
  · obtain ⟨⟨epoch, seq'⟩, hmem, hshared⟩ := any_eq_true.mp h
    obtain ⟨hepoch, rfl⟩ := of_decide_eq_true hshared
    exact iff_of_false nofun fun hall => hepoch (hall epoch hmem)
  · refine iff_of_true rfl fun epoch hmem => not_not.mp fun hepoch => h ?_
    exact any_eq_true.mpr ⟨_, hmem, decide_eq_true ⟨hepoch, rfl⟩⟩

/-- **The check of a current number.**  Whoever has issued a number has issued zero. -/
theorem SequenceAllocator.Sound.accepted_iff (h : a.Sound) :
    (∀ seq ∈ a.seqsOf a.rankEpoch, a.assertNewEpochSeq seq = .ok ()) ↔ Unshared a := by
  simp only [assertNewEpochSeq_eq_ok]
  constructor
  · intro haccepted
    rcases Nat.eq_zero_or_pos a.nextSeq with hzero | hpos
    · exact .inl hzero
    refine .inr fun entry hentry => haccepted 0 ?_ entry.1 ?_
    · rw [h.consecutive, h.current]
      exact mem_range.mpr hpos
    · have hlength := length_pos_of_mem (mem_seqsOf.mpr hentry)
      rw [← mem_seqsOf, h.consecutive]
      exact mem_range.mpr hlength
  · rintro (hzero | hone) seq hseq epoch hmem
    · rw [h.consecutive, h.current, hzero] at hseq
      cases hseq
    · exact hone _ hmem

end Steps

/-! ### Runs -/

/-- The pairs are distinct, the numbers of an epoch go up by one, and the check accepts the
numbers of the current epoch. -/
structure Numbered (a : SequenceAllocator) : Prop where
  distinct : a.issued.Nodup
  consecutive : ∀ epoch, a.seqsOf epoch = List.range (a.seqsOf epoch).length
  accepted : ∀ seq ∈ a.seqsOf a.rankEpoch, a.assertNewEpochSeq seq = .ok ()

/-- A number is issued only where no older epoch has issued one. -/
def OneEpoch (a : SequenceAllocator) : AllocatorCall → Prop
  | .next => ∀ entry ∈ a.issued, entry.1 = a.rankEpoch
  | .resetForEpoch _ => True

/-- **Exactly when sequence numbers stay fresh.**  A run is fine in all its states if and only if
one epoch issues all the numbers. -/
theorem sequence_numbers_fresh_iff (rankEpoch : Int) (calls : List AllocatorCall) :
    (allocatorMachine rankEpoch).Always Numbered (.new rankEpoch) calls ↔
      (allocatorMachine rankEpoch).Guarded OneEpoch (.new rankEpoch) calls := by
  refine Machine.always_iff_guarded (P := fun a => a.Sound ∧ Unshared a)
    (fun a h => ⟨h.1.nodup, h.1.consecutive, h.1.accepted_iff.mpr h.2⟩) ?_ ?_
    ⟨sound_new rankEpoch, .inl rfl⟩
  · rintro a call ⟨hsound, hunshared⟩ hone
    cases call with
    | next =>
      refine ⟨hsound.next, .inr fun entry hentry => ?_⟩
      rcases mem_append.mp hentry with hentry | hentry
      · exact hone entry hentry
      · rw [mem_singleton.mp hentry]
        rfl
    | resetForEpoch newEpoch =>
      show (a.call (.resetForEpoch newEpoch)).Sound ∧ Unshared (a.call (.resetForEpoch newEpoch))
      rw [call, SequenceAllocator.resetForEpoch]
      split_ifs with hle
      · exact ⟨hsound, hunshared⟩
      · exact ⟨hsound.resetForEpoch (not_le.mp hle), .inl rfl⟩
  · rintro a call ⟨hsound, -⟩ hshared hnumbered
    cases call with
    | next =>
      rcases hsound.next.accepted_iff.mp hnumbered.accepted with hzero | hone
      · exact absurd hzero (Nat.succ_ne_zero a.nextSeq)
      · exact hshared fun entry hentry => hone entry (mem_append_left _ hentry)
    | resetForEpoch newEpoch => exact hshared trivial

/-- The first number of the second epoch is refused. -/
theorem rebuilt_communicator_refused :
    ¬ (allocatorMachine 0).Always Numbered (.new 0) [.next, .resetForEpoch 1, .next] ∧
      ((allocatorMachine 0).run [.next, .resetForEpoch 1, .next]).assertNewEpochSeq 0 =
        .error (.issuedUnderOlderEpoch 0) := by
  have hrefused : ((allocatorMachine 0).run [.next, .resetForEpoch 1, .next]).assertNewEpochSeq 0 =
    .error (.issuedUnderOlderEpoch 0) := by decide
  refine ⟨fun h => ?_, hrefused⟩
  have hlast := Machine.always_iff_runFrom.mp h _ (prefix_refl _)
  exact nomatch hrefused.symm.trans (hlast.accepted 0 (by decide))

end Hqsb.Distributed
