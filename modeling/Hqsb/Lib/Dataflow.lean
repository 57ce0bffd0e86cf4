/-
Hqsb/Lib/Dataflow.lean

Equations between names, and what it means to run them one after the other.

A node reads some names and says what others are.  An environment solves a list of nodes when it
agrees with all of them.  In a schedule every name is known before it is read and unknown before it
is written: running a schedule gives a solution (`run_solves`), and two solutions that agree on
what was known in front agree on everything that is written (`Solves.unique`).  So a run may be
compared with any other solution, in whatever order that one was found.
-/
import Mathlib

namespace Lib

open List

/-- Nodes that read and write names: `out n args v` is what `n` says of `v`. -/
structure Dataflow (N V X : Type*) where
  reads : N → List V
  writes : N → List V
  out : N → List X → V → X

namespace Dataflow

variable {N V X : Type*} (p : Dataflow N V X)

def Solves (nodes : List N) (env : V → X) : Prop :=
  ∀ n ∈ nodes, ∀ v ∈ p.writes n, env v = p.out n ((p.reads n).map env) v

/-- Every name is known before it is read, and unknown before it is written. -/
def Scheduled : Set V → List N → Prop
  | _, [] => True
  | known, n :: nodes =>
    (∀ v ∈ p.reads n, v ∈ known) ∧ (∀ v ∈ p.writes n, v ∉ known) ∧
      Scheduled {v | v ∈ known ∨ v ∈ p.writes n} nodes

def Written (nodes : List N) (v : V) : Prop := ∃ n ∈ nodes, v ∈ p.writes n

variable {p} {n : N} {nodes : List N} {v : V} {known : Set V} {env : V → X}

theorem written_cons : p.Written (n :: nodes) v ↔ v ∈ p.writes n ∨ p.Written nodes v := by
  simp [Written]

theorem Scheduled.not_written (h : p.Scheduled known nodes) (hv : v ∈ known) :
    ¬ p.Written nodes v := by
  induction nodes generalizing known with
  | nil => exact fun ⟨_, hn, _⟩ => nomatch hn
  | cons n nodes ih =>
    rw [written_cons]
    rintro (hhere | hlater)
    · exact h.2.1 v hhere hv
    · exact ih h.2.2 (.inl hv) hlater

/-- **A schedule has one solution at most**, from what is known. -/
theorem Solves.unique {env' : V → X} (h : p.Scheduled known nodes) (hs : p.Solves nodes env)
    (hs' : p.Solves nodes env') (hknown : ∀ v ∈ known, env v = env' v) :
    ∀ v, v ∈ known ∨ p.Written nodes v → env v = env' v := by
  induction nodes generalizing known with
  | nil =>
    rintro v (hv | ⟨_, hn, _⟩)
    · exact hknown v hv
    · cases hn
  | cons n nodes ih =>
    have hwrites : ∀ v ∈ p.writes n, env v = env' v := by
      intro v hv
      have hargs : (p.reads n).map env = (p.reads n).map env' :=
        map_congr_left fun u hu => hknown u (h.1 u hu)
      rw [hs n mem_cons_self v hv, hs' n mem_cons_self v hv, hargs]
    intro v hv
    apply ih h.2.2 (fun m hm => hs m (.tail _ hm))
      (fun m hm => hs' m (.tail _ hm))
    · rintro u (hu | hu)
      · exact hknown u hu
      · exact hwrites u hu
    · rw [written_cons] at hv
      rcases hv with hv | hv | hv
      · exact .inl (.inl hv)
      · exact .inl (.inr hv)
      · exact .inr hv

theorem Solves.mono {nodes' : List N} (h : p.Solves nodes env) (hsub : ∀ n ∈ nodes', n ∈ nodes) :
    p.Solves nodes' env := fun n hn => h n (hsub n hn)

/-! ### Runs -/

variable [DecidableEq V]

variable (p) in
def step (env : V → X) (n : N) : V → X := fun v =>
  if v ∈ p.writes n then p.out n ((p.reads n).map env) v else env v

variable (p) in
def run (env : V → X) (nodes : List N) : V → X := nodes.foldl p.step env

theorem step_of_not_mem (h : v ∉ p.writes n) : p.step env n v = env v := if_neg h

theorem run_cons : p.run env (n :: nodes) = p.run (p.step env n) nodes := rfl

theorem run_of_not_written (h : ¬ p.Written nodes v) : p.run env nodes v = env v := by
  induction nodes generalizing env with
  | nil => rfl
  | cons n nodes ih =>
    rw [written_cons, not_or] at h
    rw [run_cons, ih h.2, step_of_not_mem h.1]

/-- **Running a schedule gives a solution.** -/
theorem run_solves (h : p.Scheduled known nodes) : p.Solves nodes (p.run env nodes) := by
  induction nodes generalizing known env with
  | nil => exact nofun
  | cons n nodes ih =>
    rintro m hm v hv
    rw [run_cons]
    rcases mem_cons.mp hm with rfl | hm
    · -- neither what it writes nor what it reads changes any more
      have hlater : ∀ u, u ∈ known ∨ u ∈ p.writes m →
          p.run (p.step env m) nodes u = p.step env m u := by
        intro u hu
        exact run_of_not_written (h.2.2.not_written hu)
      have hargs : (p.reads m).map (p.run (p.step env m) nodes) = (p.reads m).map env := by
        apply map_congr_left
        intro u hu
        rw [hlater u (.inl (h.1 u hu))]
        exact step_of_not_mem fun hw => h.2.1 u hw (h.1 u hu)
      rw [hlater v (.inr hv), hargs]
      exact if_pos hv
    · exact ih h.2.2 m hm v hv

end Dataflow

end Lib
