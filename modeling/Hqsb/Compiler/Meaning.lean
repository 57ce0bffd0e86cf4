/-
Hqsb/Compiler/Meaning.lean

A graph as a function of its inputs.

Every operation says what its results are, given its operands: exact tensors for the operations of
the fusion pattern and for the fused operation, and whatever one likes for all the others.  Running
the operations in the topological order gives every value; in a well-defined graph this is the only
way to satisfy all the operations (`denote_unique`).
-/
import Hqsb.Compiler.Matcher
import Hqsb.Lib.Dataflow
import Hqsb.Lib.ExactTensor

namespace Hqsb.Compiler

open Lib List

/-! ### What an operation computes -/

/-- The factor of an addition: one, unless the attributes name another number. -/
def IROp.alpha? (op : IROp) : Option ℚ :=
  match op.attrs.get? "alpha" with
  | none => some 1
  | some alpha => alpha.number?

/-- The dimension of a reduction. -/
def IROp.dim? (op : IROp) : Option ℤ :=
  match (op.attrs.get? "dim").bind Payload.number? with
  | some dim => if dim.den = 1 then some dim.num else none
  | none => none

/-- Does a reduction keep its dimension? -/
def IROp.keepdim (op : IROp) : Bool := ((op.attrs.get? "keepdim").getD (.bool false)).truthy

/-- The operations that are left open: results by operation, operands and position. -/
abbrev OtherOps := IROp → List (Option ExactTensor) → ℕ → Option ExactTensor

def addScaled (alpha : ℚ) (a b : Option ExactTensor) : Option ExactTensor := do
  (← a).zipWith (← b) fun x y => x + alpha * y

def mulTensors (a b : Option ExactTensor) : Option ExactTensor := do
  (← a).zipWith (← b) fun x y => x * y

def fusedResidual (x residual : Option ExactTensor) : Option ExactTensor := do
  (← x).zipWith (← residual) fun x y => x + y

/-- The normalization of the fused operation:
`residual_new * rsqrt(mean(residual_new^2, -1, keepdim) + eps) * weight`. -/
noncomputable def fusedNormalized (x residual weight eps : Option ExactTensor) :
    Option ExactTensor := do
  let residualNew ← fusedResidual x residual
  let variance ← (residualNew.map (· ^ 2)).mean (-1) true
  let shifted ← variance.zipWith (← eps) fun x y => x + y
  let scaled ← residualNew.zipWith shifted.rsqrt fun x y => x * y
  scaled.zipWith (← weight) fun x y => x * y

/-- What an operation says of its result at a position. -/
noncomputable def IROp.meaning (other : OtherOps) (op : IROp) (args : List (Option ExactTensor))
    (i : ℕ) : Option ExactTensor :=
  if op.semanticOp = "aten.add" ∨ op.semanticOp = "aten.add_" then
    match op.alpha?, args with
    | some alpha, a :: b :: _ => addScaled alpha a b
    | _, _ => other op args i
  else if op.semanticOp = "aten.mul" then
    match args with
    | a :: b :: _ => mulTensors a b
    | _ => other op args i
  else if op.semanticOp = "aten.pow" then
    match (op.attrs.get? "exponent").bind Payload.number?, args with
    | some exponent, a :: _ => a.map fun a => a.map fun x => x ^ (exponent : ℝ)
    | _, _ => other op args i
  else if op.semanticOp = "aten.mean" then
    match op.dim?, args with
    | some dim, a :: _ => a.bind fun a => a.mean dim op.keepdim
    | _, _ => other op args i
  else if op.semanticOp = "aten.rsqrt" then
    match args with
    | a :: _ => a.map ExactTensor.rsqrt
    | _ => other op args i
  else if op.semanticOp = "aten.to" then
    match args with
    | [a] => a
    | _ => other op args i
  else if op.semanticOp = "hqsb::fused_add_rms_norm" then
    match args with
    | [x, residual, weight, eps] =>
      if i = 0 then fusedNormalized x residual weight eps else fusedResidual x residual
    | _ => other op args i
  else other op args i

section

variable {other : OtherOps} {op : IROp} {a b : Option ExactTensor} {rest : List (Option ExactTensor)}
  {i : ℕ}

theorem meaning_add {alpha : ℚ} (h : op.semanticOp = "aten.add" ∨ op.semanticOp = "aten.add_")
    (halpha : op.alpha? = some alpha) :
    op.meaning other (a :: b :: rest) i = addScaled alpha a b := by
  unfold IROp.meaning
  rw [if_pos h]
  rw [halpha]

theorem meaning_mul (h : op.semanticOp = "aten.mul") :
    op.meaning other (a :: b :: rest) i = mulTensors a b := by
  unfold IROp.meaning
  simp [h]

theorem meaning_pow {exponent : ℚ} (h : op.semanticOp = "aten.pow")
    (hexponent : (op.attrs.get? "exponent").bind Payload.number? = some exponent) :
    op.meaning other (a :: rest) i = a.map fun a => a.map fun x => x ^ (exponent : ℝ) := by
  unfold IROp.meaning
  simp [h, hexponent]

theorem meaning_mean {dim : ℤ} (h : op.semanticOp = "aten.mean") (hdim : op.dim? = some dim) :
    op.meaning other (a :: rest) i = a.bind fun a => a.mean dim op.keepdim := by
  unfold IROp.meaning
  simp [h, hdim]

theorem meaning_rsqrt (h : op.semanticOp = "aten.rsqrt") :
    op.meaning other (a :: rest) i = a.map ExactTensor.rsqrt := by
  unfold IROp.meaning
  simp [h]

theorem meaning_to (h : op.semanticOp = "aten.to") : op.meaning other [a] i = a := by
  unfold IROp.meaning
  simp [h]

theorem meaning_fused {x residual weight eps : Option ExactTensor}
    (h : op.semanticOp = "hqsb::fused_add_rms_norm") :
    op.meaning other [x, residual, weight, eps] i =
      if i = 0 then fusedNormalized x residual weight eps else fusedResidual x residual := by
  unfold IROp.meaning
  simp [h]

end

theorem addScaled_one {x residual : Option ExactTensor} :
    addScaled 1 x residual = fusedResidual x residual := by
  simp [addScaled, fusedResidual]

/-- **The fused operation is the pattern**, step by step. -/
theorem fusedNormalized_eq {x residual weight eps : Option ExactTensor} :
    fusedNormalized x residual weight eps =
      mulTensors (mulTensors (fusedResidual x residual)
        ((addScaled 1 (((fusedResidual x residual).map fun a =>
          a.map fun x => x ^ ((2 : ℚ) : ℝ)).bind fun a => a.mean (-1) true) eps).map
            ExactTensor.rsqrt)) weight := by
  rw [fusedNormalized]
  rcases fusedResidual x residual with - | residualNew
  · rfl
  · have hsquare : (residualNew.map fun x => x ^ ((2 : ℚ) : ℝ)) = residualNew.map (· ^ 2) := by
      congr 1
      funext x
      norm_num
    simp only [Option.map_some, Option.bind_some, hsquare, Option.bind_eq_bind]
    rcases (residualNew.map (· ^ 2)).mean (-1) true with - | variance
    · rfl
    · rcases eps with - | eps
      · rfl
      · simp only [addScaled, Option.bind_eq_bind, Option.bind_some, Rat.cast_one,
          one_mul]
        rcases variance.zipWith eps fun x y => x + y with - | shifted
        · rfl
        · rfl

/-! ### What a graph computes -/

/-- The equations of the operations. -/
noncomputable def opFlow (other : OtherOps) : Dataflow IROp String (Option ExactTensor) where
  reads := IROp.operands
  writes := IROp.results
  out op args v := op.meaning other args (op.results.idxOf v)

namespace IRGraph

variable (other : OtherOps) (g : IRGraph) (input : String → ExactTensor)

/-- The operations in the order in which they are run. -/
def schedule : List IROp :=
  match g.topologicalOrder with
  | .ok order => order.filterMap g.op?
  | .error _ => []

/-- What is known in front of a run. -/
def inputEnv : String → Option ExactTensor := fun v => if v ∈ g.inputs then some (input v) else none

noncomputable def denote : String → Option ExactTensor :=
  (opFlow other).run (g.inputEnv input) g.schedule

variable {g}

/-- The operations of a well-defined graph, in any part of its order. -/
theorem scheduled_filterMap (hids : g.opIds.Nodup) {order : List String} (hperm : order.Perm g.opIds)
    (hav : g.Available order) (honce : g.ProducedOnce) {front back : List String}
    (horder : order = front ++ back) :
    (opFlow other).Scheduled
      {v | v ∈ g.inputs ∨ ∃ earlier ∈ front, ∃ op, g.op? earlier = some op ∧ v ∈ op.results}
      (back.filterMap g.op?) := by
  induction back generalizing front with
  | nil => trivial
  | cons opId back ih =>
    obtain ⟨op, hop, rfl⟩ : ∃ op ∈ g.ops, op.opId = opId := by
      apply mem_map.mp
      exact hperm.mem_iff.mp (horder ▸ mem_append_right _ mem_cons_self)
    have hfind : g.op? op.opId = some op := op?_of_mem hids hop
    rw [filterMap_cons_some hfind]
    refine ⟨fun v hv => hav front op.opId back horder op hfind v hv, ?_, ?_⟩
    · rintro v hv (hin | ⟨earlier, hearlier, op', hop', hv'⟩)
      · exact honce.2 op hop v hv hin
      · -- one operation would stand in front of itself
        obtain ⟨hmem, rfl⟩ := op?_some hop'
        obtain rfl := honce.1 op hop op' hmem v hv hv'
        have hnodup : (front ++ op.opId :: back).Nodup := horder ▸ hperm.nodup_iff.mpr hids
        exact (nodup_append.mp hnodup).2.2 _ hearlier _ mem_cons_self rfl
    · have hrest := ih (show order = (front ++ [op.opId]) ++ back by
        rw [horder, append_assoc, singleton_append])
      convert hrest using 1
      ext v
      simp only [mem_append, mem_singleton]
      constructor
      · rintro ((hin | ⟨earlier, hearlier, hop'⟩) | hv)
        · exact .inl hin
        · exact .inr ⟨earlier, .inl hearlier, hop'⟩
        · exact .inr ⟨op.opId, .inr rfl, op, hfind, hv⟩
      · rintro (hin | ⟨earlier, hearlier | rfl, op', hop', hv⟩)
        · exact .inl (.inl hin)
        · exact .inl (.inr ⟨earlier, hearlier, op', hop', hv⟩)
        · cases hfind.symm.trans hop'
          exact .inr hv

theorem scheduled (hids : g.opIds.Nodup) (h : g.WellDefined) :
    (opFlow other).Scheduled {v | v ∈ g.inputs} g.schedule ∧ ∀ op, op ∈ g.schedule ↔ op ∈ g.ops := by
  obtain ⟨⟨order, horder, hperm, hav⟩, honce, -⟩ := h
  rw [schedule, horder]
  constructor
  · have hall := scheduled_filterMap other hids hperm hav honce (nil_append order).symm
    simpa using hall
  · intro op
    rw [mem_filterMap]
    constructor
    · rintro ⟨opId, -, hop⟩
      exact (op?_some hop).1
    · intro hop
      exact ⟨op.opId, hperm.mem_iff.mpr (mem_map_of_mem hop), op?_of_mem hids hop⟩

/-- The values of a graph satisfy its operations, and are the inputs where there are any. -/
theorem denote_solves (hids : g.opIds.Nodup) (h : g.WellDefined) :
    (opFlow other).Solves g.ops (g.denote other input) ∧
      ∀ v ∈ g.inputs, g.denote other input v = some (input v) := by
  obtain ⟨hsched, hmem⟩ := scheduled other hids h
  refine ⟨(Dataflow.run_solves hsched).mono fun op hop => (hmem op).mpr hop, fun v hv => ?_⟩
  rw [denote, Dataflow.run_of_not_written (hsched.not_written hv), inputEnv, if_pos hv]

/-- **Nothing else satisfies them.** -/
theorem denote_unique (hids : g.opIds.Nodup) (h : g.WellDefined)
    {env : String → Option ExactTensor} (henv : (opFlow other).Solves g.ops env)
    (hinput : ∀ v ∈ g.inputs, env v = some (input v)) {v : String} (hv : g.Produced v) :
    g.denote other input v = env v := by
  obtain ⟨hsched, hmem⟩ := scheduled other hids h
  obtain ⟨hsolves, hin⟩ := denote_solves other input hids h
  refine Dataflow.Solves.unique hsched (hsolves.mono fun op hop => (hmem op).mp hop)
    (henv.mono fun op hop => (hmem op).mp hop) (fun u hu => ?_) v ?_
  · rw [hin u hu, hinput u hu]
  · rcases hv with hv | ⟨op, hop, hv⟩
    · exact .inl hv
    · exact .inr ⟨op, (hmem op).mpr hop, hv⟩

end IRGraph

end Hqsb.Compiler
