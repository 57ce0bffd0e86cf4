/-
Hqsb/Lib/Runs.lean

Maximal runs of one kind.

A list falls apart into its longest stretches of elements of one kind.  A function that treats the
runs one by one is computed on the runs (`eq_flatMap_runs`), and if it leaves every run its kind,
then what it makes of the runs are the runs of the result (`runs_flatMap`).
-/
import Mathlib.Data.List.SplitBy
import Mathlib.Data.List.Chain

namespace Lib.Runs

open List

variable {α : Type*} (kind : α → Bool) {l l' w : List α}

/-- The longest stretches of elements of one kind. -/
def runs (l : List α) : List (List α) := l.splitBy fun a b => kind a == kind b

variable {kind}

variable (kind l) in
theorem flatten_runs : (runs kind l).flatten = l := flatten_splitBy _ l

theorem eq_of_runs_eq (h : runs kind l = runs kind l') : l = l' := by
  rw [← flatten_runs kind l, h, flatten_runs]

theorem ne_nil_of_mem (hw : w ∈ runs kind l) : w ≠ [] := ne_nil_of_mem_splitBy hw

theorem kind_eq_of_isChain (hw : w.IsChain fun a b => kind a == kind b) :
    ∀ a ∈ w, ∀ b ∈ w, kind a = kind b := by
  have htrans : IsTrans α fun a b => kind a = kind b := ⟨fun _ _ _ => Eq.trans⟩
  have hsymm : Std.Symm fun a b : α => kind a = kind b := ⟨fun _ _ => Eq.symm⟩
  have hpairs : w.Pairwise fun a b => kind a = kind b :=
    isChain_iff_pairwise.mp (hw.imp fun _ _ h => eq_of_beq h)
  exact fun a ha b hb => Pairwise.forall_of_forall (R := fun a b => kind a = kind b)
    (fun _ _ => rfl) hpairs ha hb

theorem kind_eq_of_mem (hw : w ∈ runs kind l) : ∀ a ∈ w, ∀ b ∈ w, kind a = kind b :=
  kind_eq_of_isChain (isChain_of_mem_splitBy hw)

/-- **Runs that are replaced one by one** by others of their kinds stay the runs. -/
theorem runs_flatMap {f : List α → List α}
    (hf : ∀ w ∈ runs kind l, f w ≠ [] ∧ ∀ a ∈ f w, ∀ b ∈ w, kind a = kind b) :
    runs kind ((runs kind l).flatMap f) = (runs kind l).map f := by
  refine splitBy_eq_iff.mpr ⟨flatMap_def, ?_, ?_, ?_⟩
  · intro hnil
    obtain ⟨w, hw, he⟩ := mem_map.mp hnil
    exact (hf w hw).1 he
  · intro w' hw'
    obtain ⟨w, hw, rfl⟩ := mem_map.mp hw'
    obtain ⟨b, hb⟩ := exists_mem_of_ne_nil w (ne_nil_of_mem hw)
    apply Pairwise.isChain
    exact pairwise_of_forall_mem_list fun a ha a' ha' =>
      beq_iff_eq.mpr (((hf w hw).2 a ha b hb).trans ((hf w hw).2 a' ha' b hb).symm)
  · have hchain := isChain_getLast_head_splitBy (fun a b => kind a == kind b) l
    rw [isChain_map]
    refine hchain.imp_of_mem_imp fun v w hv hw hvw => ?_
    obtain ⟨hv', hw', hne⟩ := hvw
    refine ⟨(hf v hv).1, (hf w hw).1, ?_⟩
    have hlast := (hf v hv).2 _ (getLast_mem (hf v hv).1) _ (getLast_mem hv')
    have hhead := (hf w hw).2 _ (head_mem (hf w hw).1) _ (head_mem hw')
    rw [hlast, hhead]
    exact hne

/-- **A function that does not look past the end of a run** is computed on the runs. -/
theorem eq_flatMap_runs {β : Type*} {g : List α → List β} (hnil : g [] = [])
    (happend : ∀ w rest : List α, (∀ a ∈ w, ∀ b ∈ w, kind a = kind b) →
      (∀ a ∈ w, ∀ b ∈ rest.head?, kind a ≠ kind b) → g (w ++ rest) = g w ++ g rest)
    (l : List α) : g l = (runs kind l).flatMap g := by
  have hruns : ∀ ws : List (List α), (∀ w ∈ ws, w.IsChain fun a b => kind a == kind b) →
      (ws.IsChain fun v w => ∃ hv hw, (kind (v.getLast hv) == kind (w.head hw)) = false) →
        g ws.flatten = ws.flatMap g := by
    intro ws hkind hchain
    induction ws with
    | nil => exact hnil
    | cons w ws ih =>
      have hw := kind_eq_of_isChain (hkind w (.head _))
      rw [flatten_cons, flatMap_cons, happend w ws.flatten hw,
        ih (fun v hv => hkind v (.tail _ hv)) hchain.tail]
      intro a ha b hb
      rcases ws with - | ⟨v, ws⟩
      · cases hb
      · obtain ⟨hne, hv, hdiffers⟩ := (isChain_cons_cons.mp hchain).1
        rw [flatten_cons, head?_append_of_ne_nil _ hv, head?_eq_some_head hv] at hb
        cases hb
        rw [hw a ha _ (getLast_mem hne)]
        simpa using hdiffers
  have hflat := hruns (runs kind l) (fun w hw => isChain_of_mem_splitBy hw)
    (isChain_getLast_head_splitBy (fun a b => kind a == kind b) l)
  rwa [flatten_runs] at hflat

end Lib.Runs
