/-
Hqsb/Lib/Machine.lean

Machines driven by inputs.  A `Machine` has one start state and a total step
function; whatever the environment decides (an arrival, a clock reading, a
reply) comes in as the input of a step, so "for every environment" is "for every
list of inputs".

Four rules carry the developments built on it:

* `Reachable.invariant`: what holds at the start and is kept by every step holds
  in every reachable state;
* `guarded_invariant`: the same for runs whose steps all meet a guard;
* `always_iff_guarded`: when leaving the guard shows at once, a run is good in
  all its states exactly if every step meets the guard;
* `Flags.kept_iff`: a step can acknowledge a request for a subject `k`, and from
  then on a flag of `k` is to stay up until `k` is ended (`Kept`).  A run keeps all
  acknowledged requests exactly if every step meets the guard on the steps that
  could take a flag down by mistake.

`Simulates` relates two machines on one input alphabet step by step.
-/
import Mathlib

namespace Lib

open List

/-- A deterministic transition system reading inputs from `ι`. -/
structure Machine (σ ι : Type*) where
  init : σ
  step : σ → ι → σ

namespace Machine

variable {σ τ ι : Type*}

/-- The state after reading `is` from `s`. -/
def runFrom (m : Machine σ ι) (s : σ) (is : List ι) : σ := is.foldl m.step s

/-- The state after reading `is` from the start. -/
def run (m : Machine σ ι) (is : List ι) : σ := m.runFrom m.init is

/-- Some run ends in `s`. -/
def Reachable (m : Machine σ ι) (s : σ) : Prop := ∃ is, m.run is = s

variable {m : Machine σ ι}

@[simp] theorem runFrom_nil (s : σ) : m.runFrom s [] = s := rfl

@[simp] theorem runFrom_cons (s : σ) (i : ι) (is : List ι) :
    m.runFrom s (i :: is) = m.runFrom (m.step s i) is := rfl

theorem runFrom_append (s : σ) (is js : List ι) :
    m.runFrom s (is ++ js) = m.runFrom (m.runFrom s is) js := foldl_append

theorem runFrom_concat (s : σ) (is : List ι) (i : ι) :
    m.runFrom s (is ++ [i]) = m.step (m.runFrom s is) i := by
  rw [runFrom_append, runFrom_cons, runFrom_nil]

/-! ### Invariants -/

theorem Reachable.init : m.Reachable m.init := ⟨[], rfl⟩

variable {s : σ} {P : σ → Prop} {is : List ι} {C : σ → ι → Prop}

theorem Reachable.step (h : m.Reachable s) (i : ι) : m.Reachable (m.step s i) := by
  obtain ⟨is, rfl⟩ := h
  exact ⟨is ++ [i], runFrom_concat _ _ _⟩

theorem reachable_run (is : List ι) : m.Reachable (m.run is) := ⟨is, rfl⟩

theorem Reachable.runFrom (h : m.Reachable s) (is : List ι) : m.Reachable (m.runFrom s is) := by
  induction is generalizing s with
  | nil => exact h
  | cons i is ih => exact ih (h.step i)

theorem runFrom_invariant (hstep : ∀ s i, P s → P (m.step s i)) (hs : P s) (is : List ι) :
    P (m.runFrom s is) := by
  induction is generalizing s with
  | nil => exact hs
  | cons i is ih => exact ih (hstep s i hs)

/-- **The invariant rule.**  A step may use that it starts in a reachable state. -/
theorem Reachable.invariant (hinit : P m.init)
    (hstep : ∀ s i, m.Reachable s → P s → P (m.step s i)) (h : m.Reachable s) : P s := by
  obtain ⟨is, rfl⟩ := h
  have key : m.Reachable (m.runFrom m.init is) ∧ P (m.runFrom m.init is) :=
    runFrom_invariant (P := fun s => m.Reachable s ∧ P s)
      (fun s i hs => ⟨hs.1.step i, hstep s i hs.1 hs.2⟩) ⟨.init, hinit⟩ is
  exact key.2

/-! ### Guarded runs -/

/-- Every step of the run meets the guard `C`. -/
def Guarded (m : Machine σ ι) (C : σ → ι → Prop) : σ → List ι → Prop
  | _, [] => True
  | s, i :: is => C s i ∧ Guarded m C (m.step s i) is

/-- `P` holds in every state the run passes through. -/
def Always (m : Machine σ ι) (P : σ → Prop) : σ → List ι → Prop
  | s, [] => P s
  | s, i :: is => P s ∧ Always m P (m.step s i) is

instance decidableGuarded (C : σ → ι → Prop) [∀ s i, Decidable (C s i)] :
    ∀ s is, Decidable (m.Guarded C s is)
  | _, [] => .isTrue trivial
  | s, i :: is =>
    have := decidableGuarded C (m.step s i) is
    inferInstanceAs (Decidable (C s i ∧ m.Guarded C (m.step s i) is))

theorem always_iff_runFrom : m.Always P s is ↔ ∀ js, js <+: is → P (m.runFrom s js) := by
  induction is generalizing s with
  | nil => simp [Always]
  | cons i is ih =>
    simp only [Always, ih, prefix_cons_iff]
    constructor
    · rintro ⟨hs, h⟩ js (rfl | ⟨ks, rfl, hk⟩)
      · exact hs
      · exact h ks hk
    · intro h
      exact ⟨h [] (.inl rfl), fun js hj => h (i :: js) (.inr ⟨js, rfl, hj⟩)⟩

theorem guarded_iff_runFrom :
    m.Guarded C s is ↔ ∀ js i, js ++ [i] <+: is → C (m.runFrom s js) i := by
  induction is generalizing s with
  | nil => simp [Guarded]
  | cons i is ih =>
    rw [Guarded, ih]
    constructor
    · rintro ⟨hC, h⟩ js j hj
      cases js with
      | nil =>
        obtain rfl : j = i := (cons_prefix_cons.mp hj).1
        exact hC
      | cons k ks =>
        obtain ⟨rfl, hks⟩ := cons_prefix_cons.mp hj
        exact h ks j hks
    · intro h
      refine ⟨h [] i (cons_prefix_cons.mpr ⟨rfl, nil_prefix⟩), fun js j hj => ?_⟩
      exact h (i :: js) j (cons_prefix_cons.mpr ⟨rfl, hj⟩)

theorem Guarded.and {D : σ → ι → Prop} (hC : m.Guarded C s is) (hD : m.Guarded D s is) :
    m.Guarded (fun s i => C s i ∧ D s i) s is := by
  induction is generalizing s with
  | nil => trivial
  | cons i is ih => exact ⟨⟨hC.1, hD.1⟩, ih hC.2 hD.2⟩

theorem guarded_congr {D : σ → ι → Prop} (hstep : ∀ s i, P s → P (m.step s i))
    (hCD : ∀ s i, P s → (C s i ↔ D s i)) (hs : P s) (is : List ι) :
    m.Guarded C s is ↔ m.Guarded D s is := by
  induction is generalizing s with
  | nil => exact Iff.rfl
  | cons i is ih => exact and_congr (hCD s i hs) (ih (hstep s i hs))

/-- **The guarded rule.**  A property kept by every step that meets the guard holds all
along a guarded run. -/
theorem guarded_invariant (hstep : ∀ s i, P s → C s i → P (m.step s i)) (hs : P s)
    (hg : m.Guarded C s is) : m.Always P s is := by
  induction is generalizing s with
  | nil => exact hs
  | cons i is ih => exact ⟨hs, ih (hstep s i hs hg.1) hg.2⟩

theorem Always.mono {Q : σ → Prop} (hPQ : ∀ s, P s → Q s) (h : m.Always P s is) :
    m.Always Q s is := by
  induction is generalizing s with
  | nil => exact hPQ s h
  | cons i is ih => exact ⟨hPQ s h.1, ih h.2⟩

/-- **The exact guard.**  If `P` carries the good states through guarded steps and a step
off the guard lands in a state that is not good, then a run is good throughout exactly
if every step meets the guard. -/
theorem always_iff_guarded {Q : σ → Prop} (hPQ : ∀ s, P s → Q s)
    (hkeep : ∀ s i, P s → C s i → P (m.step s i))
    (hleave : ∀ s i, P s → ¬ C s i → ¬ Q (m.step s i)) (hs : P s) :
    m.Always Q s is ↔ m.Guarded C s is := by
  constructor
  · intro h
    induction is generalizing s with
    | nil => trivial
    | cons i is ih =>
      have hnext : Q (m.step s i) := by
        cases is with
        | nil => exact h.2
        | cons j js => exact h.2.1
      have hC : C s i := by
        by_contra hc
        exact hleave s i hs hc hnext
      exact ⟨hC, ih (hkeep s i hs hC) h.2⟩
  · intro h
    exact (guarded_invariant hkeep hs h).mono hPQ

/-! ### Simulation -/

/-- `R` relates the start states and is kept when both machines read one input that is
legal for the first. -/
structure Simulates (m : Machine σ ι) (n : Machine τ ι) (legal : σ → ι → Prop)
    (R : σ → τ → Prop) : Prop where
  init : R m.init n.init
  step : ∀ s t i, R s t → legal s i → R (m.step s i) (n.step t i)

theorem Simulates.run {n : Machine τ ι} {legal : σ → ι → Prop} {R : σ → τ → Prop}
    (h : Simulates m n legal R) (hl : m.Guarded legal m.init is) :
    R (m.run is) (n.run is) := by
  have key : ∀ {s t is}, R s t → m.Guarded legal s is → R (m.runFrom s is) (n.runFrom t is) := by
    intro s t is
    induction is generalizing s t with
    | nil => exact fun hR _ => hR
    | cons i is ih => exact fun hR hg => ih (h.step s t i hR hg.1) hg.2
  exact key h.init hl

end Machine

variable {σ ι κ : Type*} {m : Machine σ ι} {F : σ → κ → Prop} {n : σ → κ → ℕ}
  {ack : σ → ι → Option κ} {C : σ → ι → Prop}

variable (m F n)

/-- Along the run a flag that was acknowledged stays up as long as its subject is not ended. -/
def Kept (ack : σ → ι → Option κ) (is : List ι) : Prop :=
  ∀ js i ks, js ++ i :: ks <+: is → ∀ k, ack (m.run js) i = some k →
    n (m.run (js ++ i :: ks)) k = n (m.run (js ++ [i])) k → F (m.run (js ++ i :: ks)) k

/-- What single steps do to flags and endings. -/
structure Flags (ack : σ → ι → Option κ)
    (C : σ → ι → Prop) : Prop where
  start : ∀ k, ¬ F m.init k
  /-- An acknowledged request has put its flag up. -/
  raised : ∀ s i k, m.Reachable s → ack s i = some k → F (m.step s i) k
  /-- On the guard a flag stays up or its subject is ended. -/
  held : ∀ s i k, m.Reachable s → C s i → F s k →
    F (m.step s i) k ∧ n (m.step s i) k = n s k ∨ n s k < n (m.step s i) k
  /-- Off the guard a flag goes down and nothing is ended. -/
  lost : ∀ s i, m.Reachable s → ¬ C s i → ∃ k, F s k ∧ ¬ F (m.step s i) k ∧
    n (m.step s i) k = n s k
  /-- A flag is up because it was, or because of a request. -/
  cause : ∀ s i k, m.Reachable s → F (m.step s i) k →
    F s k ∧ n (m.step s i) k = n s k ∨ ack s i = some k
  mono : ∀ s i k, m.Reachable s → n s k ≤ n (m.step s i) k

variable {m F n}

namespace Flags

variable (h : Flags m F n ack C)

include h in
/-- Behind a flag there is an acknowledged request, and no ending since. -/
theorem exists_ack (js : List ι) (k : κ) (hF : F (m.run js) k) :
    ∃ js₁ a ks₁, js = js₁ ++ a :: ks₁ ∧ ack (m.run js₁) a = some k ∧
      n (m.run js) k = n (m.run (js₁ ++ [a])) k := by
  induction js using List.reverseRecOn with
  | nil => exact absurd hF (h.start k)
  | append_singleton js i ih =>
    have hrun : m.run (js ++ [i]) = m.step (m.run js) i := Machine.runFrom_concat _ _ _
    rw [hrun] at hF ⊢
    rcases h.cause _ i k (Machine.reachable_run js) hF with ⟨hbefore, hn⟩ | hack
    · obtain ⟨js₁, a, ks₁, rfl, hack, hsame⟩ := ih hbefore
      exact ⟨js₁, a, ks₁ ++ [i], by simp, hack, hn.trans hsame⟩
    · exact ⟨js, i, [], rfl, hack, by rw [hrun]⟩

include h in
theorem le_run {s : σ} (hs : m.Reachable s) (ks : List ι) (k : κ) : n s k ≤ n (m.runFrom s ks) k := by
  induction ks generalizing s with
  | nil => exact le_rfl
  | cons i ks ih => exact (h.mono s i k hs).trans (ih (hs.step i))

include h in
theorem held_run {s : σ} (hs : m.Reachable s) {ks : List ι} (hg : m.Guarded C s ks) {k : κ}
    (hF : F s k) : F (m.runFrom s ks) k ∨ n s k < n (m.runFrom s ks) k := by
  induction ks generalizing s with
  | nil => exact .inl hF
  | cons i ks ih =>
    rcases h.held s i k hs hg.1 hF with ⟨hF', hn⟩ | hlt
    · rw [← hn]
      exact ih (hs.step i) hg.2 hF'
    · exact .inr (lt_of_lt_of_le hlt (h.le_run (hs.step i) ks k))

include h in
/-- **Kept requests**: a run keeps every acknowledged request exactly if all its steps meet
the guard. -/
theorem kept_iff (is : List ι) : Kept m F n ack is ↔ m.Guarded C m.init is := by
  constructor
  · intro hkept
    rw [Machine.guarded_iff_runFrom]
    intro js i hpre
    by_contra hC
    have hrun : m.run (js ++ [i]) = m.step (m.run js) i := Machine.runFrom_concat _ _ _
    obtain ⟨k, hF, hdown, hsame⟩ := h.lost _ i (Machine.reachable_run js) hC
    obtain ⟨js₁, a, ks₁, rfl, hack, hn⟩ := h.exists_ack js k hF
    -- the flag that goes down was acknowledged before
    have hlist : js₁ ++ a :: ks₁ ++ [i] = js₁ ++ a :: (ks₁ ++ [i]) := by simp
    apply hdown
    rw [← hrun, hlist]
    refine hkept js₁ a (ks₁ ++ [i]) (hlist ▸ hpre) k hack ?_
    rw [← hlist, hrun, hsame, hn]
  · intro hg js i ks hpre k hack hn
    have hrun : m.run (js ++ [i]) = m.step (m.run js) i := Machine.runFrom_concat _ _ _
    have hreach : m.Reachable (m.step (m.run js) i) := (Machine.reachable_run js).step i
    have hrest : m.run (js ++ i :: ks) = m.runFrom (m.step (m.run js) i) ks := by
      rw [Machine.run, Machine.runFrom_append]
      rfl
    have hguard : m.Guarded C (m.step (m.run js) i) ks := by
      rw [Machine.guarded_iff_runFrom] at hg ⊢
      intro ls j hls
      have hin := hg (js ++ i :: ls) j (by
        refine List.IsPrefix.trans ?_ hpre
        obtain ⟨rest, rfl⟩ := hls
        exact ⟨rest, by simp⟩)
      rwa [Machine.runFrom_append] at hin
    rw [hrest]
    rcases h.held_run hreach hguard (h.raised _ i k (Machine.reachable_run js) hack) with hF | hlt
    · exact hF
    · rw [← hrest, ← hrun, hn] at hlt
      exact absurd hlt (lt_irrefl _)

include h in
theorem up_of_zero {is : List ι} (hkept : Kept m F n ack is) {js : List ι} {i : ι} {ks : List ι}
    (hpre : js ++ i :: ks <+: is) {k : κ} (hack : ack (m.run js) i = some k)
    (hzero : n (m.run (js ++ i :: ks)) k = 0) : F (m.run (js ++ i :: ks)) k := by
  refine hkept js i ks hpre k hack ?_
  have hrest : m.run (js ++ i :: ks) = m.runFrom (m.run (js ++ [i])) ks := by
    rw [Machine.run, Machine.run, ← Machine.runFrom_append, append_assoc, singleton_append]
  have hle := h.le_run (Machine.reachable_run (js ++ [i])) ks k
  rw [← hrest, hzero] at hle
  rw [hzero, Nat.le_zero.mp hle]

end Flags

end Lib
