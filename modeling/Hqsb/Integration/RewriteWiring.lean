/-
Hqsb/Integration/RewriteWiring.lean

When a rewritten graph keeps its consumers.

`apply_rewrite` appends the replacement and drops the matched nodes without redirecting
anything.  So the result is a well-formed graph that serves the consumers of the matched
region exactly when the region has none (`rewrites_iff`).
-/
import Hqsb.Integration.Patterns

namespace Hqsb.Integration

open Lib List

variable {μ : Type} [DecidableEq μ] {χ : Type}

/-! ### What a rewrite promises -/

/-- A use and what became of it: uses of the region's result are uses of the replacement, uses of
other nodes that stay are left alone. -/
def Redirects (matched : List String) (result : Option String) (new : String) (before after : Ref) :
    Prop :=
  (some before.node = result → after.node = new) ∧ (before.node ∉ matched → after = before)

/-- The new graph is well formed, and consumers and outputs are kept. -/
structure Kept (graph new : Graph μ) (matched : List String) (result : Option String)
    (name : String) : Prop where
  wellFormed : new.WellFormed
  outputs : List.Forall₂ (Redirects matched result name) graph.outputs new.outputs
  consumers : ∀ node ∈ graph.nodes, node.name ∉ matched → ∃ node' ∈ new.nodes,
    node'.name = node.name ∧ List.Forall₂ (Redirects matched result name) node.uses node'.uses

/-- The rewrite goes through, keeps the consumers, and its graph can be hashed and compared. -/
def Rewrites (digest : List Graph.NodeForm × List (Nat × Int) → String) (graph : Graph μ)
    (s : Structure) (decision : Decision) (ctx : χ) (replacement : Decision → χ → GraphNode μ)
    (newSchemaHash : String) : Prop :=
  ∃ r, applyRewrite digest graph decision ctx replacement newSchemaHash = .ok r ∧
    Kept graph r.graph decision.candidate.nodes (decision.candidate.result s)
      (replacement decision ctx).name ∧
    (∃ hash, r.graph.structuralHash digest = .ok hash) ∧
    (∃ d, graph.diff digest r.graph = .ok d) ∧ ∃ d, r.graph.diff digest graph = .ok d

/-- Nothing outside of the matched nodes refers to them. -/
structure Unused (graph : Graph μ) (matched : List String) : Prop where
  nodes : ∀ node ∈ graph.nodes, node.name ∉ matched → ∀ r ∈ node.uses, r.node ∉ matched
  outputs : ∀ r ∈ graph.outputs, r.node ∉ matched

/-! ### The rewritten graph -/

variable {graph : Graph μ} {decision : Decision} {node : GraphNode μ}

section Replaced

omit [DecidableEq μ]

theorem nodes_replacedGraph (hname : node.name ∉ decision.candidate.nodes) :
    (replacedGraph graph decision node).nodes =
      (graph.nodes.filter fun n => n.name ∉ decision.candidate.nodes) ++ [node] := by
  have hlast : [node].filter (fun n => n.name ∉ decision.candidate.nodes) = [node] :=
    filter_cons_of_pos (decide_eq_true hname)
  rw [replacedGraph, (Graph.withoutNodes_eq _ _).1, Graph.withNode, filter_append, hlast]

theorem outputs_replacedGraph : (replacedGraph graph decision node).outputs =
    graph.outputs.filter fun r => r.node ∉ decision.candidate.nodes := by
  rw [replacedGraph, (Graph.withoutNodes_eq _ _).2, Graph.withNode]

theorem names_filter (nodes : List (GraphNode μ)) (removed : List String) :
    (nodes.filter fun n => n.name ∉ removed).map GraphNode.name =
      (nodes.map GraphNode.name).filter fun name => name ∉ removed :=
  (filter_map (f := GraphNode.name) (p := fun name => decide (name ∉ removed))).symm

/-- Without uses of the matched nodes the rewritten graph is well formed. -/
theorem wellFormed_replacedGraph (hgraph : graph.WellFormed)
    (hunused : Unused graph decision.candidate.nodes)
    (hname : node.name ∉ decision.candidate.nodes)
    (huses : ∀ r ∈ node.uses, r.node ∈ graph.names ∧ r.node ∉ decision.candidate.nodes) :
    (replacedGraph graph decision node).WellFormed := by
  have hmem : ∀ name : String, name ∈ graph.names → name ∉ decision.candidate.nodes →
      name ∈ (graph.nodes.filter fun n => n.name ∉ decision.candidate.nodes).map
        GraphNode.name := by
    intro name hin hout
    rw [names_filter]
    exact mem_filter.mpr ⟨hin, decide_eq_true hout⟩
  constructor
  · rw [nodes_replacedGraph hname]
    refine (hgraph.ordered.filter hunused.nodes).append fun r hr => ?_
    obtain ⟨hin, hout⟩ := huses r hr
    exact hmem r.node hin hout
  · intro r hr
    rw [outputs_replacedGraph] at hr
    have hr := (mem_filter.mp hr).1
    rw [Graph.names, nodes_replacedGraph hname, map_append]
    exact mem_append_left _ (hmem r.node (hgraph.outputs r hr) (hunused.outputs r hr))

/-- **A well-formed rewritten graph** with all its outputs had an unused region. -/
theorem unused_of_kept {result : Option String} (hname : node.name ∉ decision.candidate.nodes)
    (h : Kept graph (replacedGraph graph decision node) decision.candidate.nodes result node.name) :
    Unused graph decision.candidate.nodes := by
  constructor
  · intro n hn hstays r hr hmatched
    have hin : n ∈ (replacedGraph graph decision node).nodes := by
      rw [nodes_replacedGraph hname]
      exact mem_append_left _ (mem_filter.mpr ⟨hn, decide_eq_true hstays⟩)
    have hnames := h.wellFormed.ordered.uses hin hr
    obtain ⟨m, hm, heq⟩ := mem_map.mp hnames
    rw [nodes_replacedGraph hname] at hm
    rcases mem_append.mp hm with hm | hm
    · exact of_decide_eq_true (mem_filter.mp hm).2 (heq ▸ hmatched)
    · rw [mem_singleton.mp hm] at heq
      exact hname (heq ▸ hmatched)
  · -- an output that is dropped is missing
    have hlength := h.outputs.length_eq
    rw [outputs_replacedGraph] at hlength
    have hall := length_filter_eq_length_iff.mp hlength.symm
    exact fun r hr => of_decide_eq_true (hall r hr)

/-- An unused region has no consumers to redirect. -/
theorem kept_of_unused (hgraph : graph.WellFormed) (hunused : Unused graph decision.candidate.nodes)
    (hname : node.name ∉ decision.candidate.nodes)
    (huses : ∀ r ∈ node.uses, r.node ∈ graph.names ∧ r.node ∉ decision.candidate.nodes)
    (s : Structure) :
    Kept graph (replacedGraph graph decision node) decision.candidate.nodes
      (decision.candidate.result s) node.name := by
  have same : ∀ {uses : List Ref}, (∀ r ∈ uses, r.node ∉ decision.candidate.nodes) →
      List.Forall₂ (Redirects decision.candidate.nodes (decision.candidate.result s) node.name)
        uses uses := by
    intro uses hfree
    refine forall₂_same.mpr fun r hr => ⟨fun hresult => ?_, fun _ => rfl⟩
    exact absurd (Match.mem_nodes_of_result hresult.symm) (hfree r hr)
  refine ⟨wellFormed_replacedGraph hgraph hunused hname huses, ?_, ?_⟩
  · have hall : (graph.outputs.filter fun r => r.node ∉ decision.candidate.nodes) =
        graph.outputs :=
      filter_eq_self.mpr fun r hr => decide_eq_true (hunused.outputs r hr)
    rw [outputs_replacedGraph, hall]
    exact same hunused.outputs
  · intro n hn hstays
    refine ⟨n, ?_, rfl, same (hunused.nodes n hn hstays)⟩
    rw [nodes_replacedGraph hname]
    exact mem_append_left _ (mem_filter.mpr ⟨hn, decide_eq_true hstays⟩)

end Replaced

/-! ### The result -/

/-- **A rewrite keeps the consumers** exactly when the matched region has none. -/
theorem rewrites_iff {digest : List Graph.NodeForm × List (Nat × Int) → String}
    (hgraph : graph.WellFormed) {s : Structure} (hs : s.nodes ≠ []) {casePrefix modulePath : String}
    {found : List Match} (hfound : findMatches digest graph s casePrefix modulePath = .ok found)
    (hmatch : decision.candidate ∈ found) (hhit : decision.status = .hit) {ctx : χ}
    {replacement : Decision → χ → GraphNode μ}
    (hfresh : (replacement decision ctx).name ∉ graph.names)
    (huses : ∀ r ∈ (replacement decision ctx).uses,
      r.node ∈ graph.names ∧ r.node ∉ decision.candidate.nodes) (newSchemaHash : String) :
    Rewrites digest graph s decision ctx replacement newSchemaHash ↔
      Unused graph decision.candidate.nodes := by
  obtain ⟨hne, hnames⟩ := names_of_findMatches hs hfound hmatch
  have hname : (replacement decision ctx).name ∉ decision.candidate.nodes :=
    fun hin => hfresh (hnames _ hin)
  constructor
  · rintro ⟨r, hr, hkept, -⟩
    rw [applyRewrite_graph hr] at hkept
    exact unused_of_kept hname hkept
  · intro hunused
    have hkept := kept_of_unused hgraph hunused hname huses s
    obtain ⟨before, hbefore⟩ := hgraph.structuralHash digest
    obtain ⟨after, hafter⟩ := hkept.wellFormed.structuralHash digest
    obtain ⟨d, hdiff⟩ := graph.diff_ok digest hbefore hafter
    have hok : ∃ r, applyRewrite digest graph decision ctx replacement newSchemaHash = .ok r :=
      applyRewrite_ok hhit hname hne hnames hdiff
    obtain ⟨r, hr⟩ := hok
    have heq := applyRewrite_graph hr
    refine ⟨r, hr, ?_⟩
    rw [heq]
    exact ⟨hkept, ⟨after, hafter⟩, ⟨d, hdiff⟩, Graph.diff_ok _ digest hafter hbefore⟩

/-! ### Two graphs -/

/-- A one-node pattern. -/
def normStructure : Structure := ⟨"norm", [⟨"norm", "rms_norm", ["?"]⟩]⟩

def inputNode : GraphNode Unit where
  name := "x"
  op := "placeholder"

def normNode : GraphNode Unit where
  name := "norm"
  op := "rms_norm"
  args := [.ref ⟨"x", 0⟩]

def reluOf (name : String) : GraphNode Unit where
  name := "relu"
  op := "relu"
  args := [.ref ⟨name, 0⟩]

/-- The pattern's region with a consumer of `name`. -/
def normGraph (name : String) : Graph Unit where
  nodes := [inputNode, normNode, reluOf name]
  outputs := [⟨"relu", 0⟩]

def normMatch : Match where
  caseId := "case:norm:0"
  structureName := "norm"
  bindings := OrderedDict.empty.set "norm" "norm"

def normDecision : Decision where
  candidate := normMatch
  status := .hit

def fusedNode (_ : Decision) (_ : Unit) : GraphNode Unit where
  name := "fused"
  op := "hqsb.rms_norm"
  args := [.ref ⟨"x", 0⟩]

theorem reluOf_uses (name : String) : (reluOf name).uses = [⟨name, 0⟩] := by
  simp [reluOf, GraphNode.uses, Value.uses]

theorem normNode_uses : normNode.uses = [⟨"x", 0⟩] := by
  simp [normNode, GraphNode.uses, Value.uses]

theorem fusedNode_uses (d : Decision) (ctx : Unit) : (fusedNode d ctx).uses = [⟨"x", 0⟩] := by
  simp [fusedNode, GraphNode.uses, Value.uses]

theorem wellFormed_normGraph : (normGraph "x").WellFormed := by
  refine ⟨⟨fun r hr => (nomatch hr), fun r hr => ?_, fun r hr => ?_, trivial⟩, by decide⟩
  · rw [normNode_uses] at hr
    rw [mem_singleton.mp hr]
    decide
  · rw [reluOf_uses] at hr
    rw [mem_singleton.mp hr]
    decide

theorem rewrites_unused_norm :
    Rewrites (fun _ => "") (normGraph "x") normStructure normDecision () fusedNode "" ↔
      Unused (normGraph "x") ["norm"] := by
  have hfound : findMatches (fun _ => "") (normGraph "x") normStructure "case" "" =
      .ok [normMatch] := by rfl
  refine rewrites_iff wellFormed_normGraph (by decide) hfound mem_cons_self rfl (by decide)
    (fun r hr => ?_) ""
  rw [fusedNode_uses] at hr
  rw [mem_singleton.mp hr]
  decide

/-- **The consumer of a fused region** is left without its input. -/
theorem rewrite_raises_on_consumer :
    ¬ Rewrites (fun _ => "") (normGraph "norm") normStructure normDecision () fusedNode "" := by
  rintro ⟨r, hr, -⟩
  have hraised : applyRewrite (fun _ => "") (normGraph "norm") normDecision () fusedNode "" =
      .error (.keyError "norm") := by rfl
  exact nomatch hraised.symm.trans hr

end Hqsb.Integration
