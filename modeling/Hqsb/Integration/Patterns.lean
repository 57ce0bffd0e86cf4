/-
Hqsb/Integration/Patterns.lean

Pattern matching and the rewrite on the graph IR of the integration layer
(`hqsb/integration/graph.py`, `hqsb/integration/patterns.py`).

Nodes refer to each other by name.  When the structural identity of a graph is computed, names give
way to positions, and a name that no node has is a `KeyError` (`structuralHash_ok`).  Only
references at the top level of the arguments and the outputs are looked up, those inside tuples and
keyword arguments are not.

`findMatches` binds the pattern nodes one after the other, trying the graph's nodes in
order; the bindings are one dictionary that is set before the recursion and popped after it
(`bindFrom`).  Whatever it finds are names of the graph (`names_of_findMatches`).  A rewrite
appends the replacement node and drops the matched ones; nothing is redirected
(`applyRewrite_graph`).
-/
import Hqsb.Lib.OrderedDict
import Hqsb.Lib.Traverse

namespace Hqsb.Integration

open Lib List OrderedDict

/-! ### Labels -/

/-- How the graph was obtained. -/
inductive CaptureMode where
  | directMeta | fakeTensorMode | opcheck | fxShapeProp | dynamo | exportStrict | exportNonStrict
  | inductor

/-- IR level a graph lives at. -/
inductive IRLevel where
  | moduleFx | dynamoFx | exportAten | preDecomposition | postDecomposition
  | postFunctionalization | inductorPreFusion | inductorPostFusion

inductive GraphRaise where
  | config (field : String)
  | keyError (name : String)
  | indexError

/-! ### Nodes and edges -/

/-- A reference to another node's output. -/
structure Ref where
  node : String
  index : Int := 0

/-- A constant argument.  Floats and foreign objects stand by their `repr`. -/
inductive Constant where
  | int (n : Int)
  | float (text : String)
  | bool (b : Bool)
  | str (s : String)
  | none
  | other (text : String)

inductive Value where
  | ref (r : Ref)
  | const (c : Constant)
  | tuple (items : List Value)

/-- A value without the names of the nodes. -/
inductive ValueKey where
  | ref (index : Int)
  | const (c : Constant)
  | tuple (items : List ValueKey)
  | input (position : Nat) (index : Int)

/-- `_value_key` -/
def Value.key : Value → ValueKey
  | .ref r => .ref r.index
  | .const c => .const c
  | .tuple items => .tuple (items.map Value.key)

/-- All references of a value, also those inside tuples. -/
def Value.uses : Value → List Ref
  | .ref r => [r]
  | .const _ => []
  | .tuple items => items.flatMap Value.uses

/-- One operation in the graph.  `μ` is the type of its metadata. -/
structure GraphNode (μ : Type) where
  name : String
  op : String
  args : List Value := []
  kwargs : OrderedDict String Value := OrderedDict.empty
  metadata : OrderedDict String μ := OrderedDict.empty
  modulePath : String := ""
  sourceStack : String := ""
  isImpure : Bool := false
  aliasInputs : List Int := []

variable {μ : Type}

namespace GraphNode

/-- The references among the positional arguments. -/
def refs (node : GraphNode μ) : List Ref :=
  node.args.filterMap fun
    | .ref r => some r
    | _ => none

def uses (node : GraphNode μ) : List Ref :=
  node.args.flatMap Value.uses ++ node.kwargs.values.flatMap Value.uses

theorem uses_of_arg {node : GraphNode μ} {r : Ref} (h : Value.ref r ∈ node.args) :
    r ∈ node.uses := by
  refine mem_append_left _ (mem_flatMap.mpr ⟨_, h, ?_⟩)
  rw [Value.uses]
  exact mem_singleton_self r

end GraphNode

structure Graph (μ : Type) where
  nodes : List (GraphNode μ) := []
  inputs : List String := []
  outputs : List Ref := []
  captureMode : CaptureMode := .dynamo
  irLevel : IRLevel := .dynamoFx
  decompositionSet : String := "none"
  modulePath : String := ""
  modelId : String := ""
  version : String := ""

namespace Graph

variable (g : Graph μ)

/-! ### Lookup -/

def names : List String := g.nodes.map GraphNode.name

def node (name : String) : Except GraphRaise (GraphNode μ) :=
  match g.nodes.find? fun node => node.name = name with
  | some node => .ok node
  | none => .error (.config "node")

theorem exists_node {name : String} (h : name ∈ g.names) : ∃ node, g.node name = .ok node := by
  obtain ⟨node, hnode, hname⟩ := mem_map.mp h
  have hfind : (g.nodes.find? fun node => node.name = name).isSome := by
    rw [List.find?_isSome]
    exact ⟨node, hnode, decide_eq_true hname⟩
  obtain ⟨found, hfound⟩ := Option.isSome_iff_exists.mp hfind
  exact ⟨found, by rw [Graph.node, hfound]⟩

def impureNodes : List (GraphNode μ) := g.nodes.filter GraphNode.isImpure

/-! ### Identity -/

/-- `index[name]`, where a later node of the same name wins. -/
def position (name : String) : Except GraphRaise Nat :=
  match g.nodes.zipIdx.reverse.find? fun e => e.1.name = name with
  | some e => .ok e.2
  | none => .error (.keyError name)

theorem exists_position {name : String} (h : name ∈ g.names) : ∃ i, g.position name = .ok i := by
  obtain ⟨node, hnode, hname⟩ := mem_map.mp h
  obtain ⟨i, hi⟩ := mem_iff_getElem?.mp hnode
  have hfind : (g.nodes.zipIdx.reverse.find? fun e => e.1.name = name).isSome := by
    rw [List.find?_isSome]
    exact ⟨(node, i), mem_reverse.mpr (mem_zipIdx_iff_getElem?.mpr hi),
      decide_eq_true hname⟩
  obtain ⟨found, hfound⟩ := Option.isSome_iff_exists.mp hfind
  exact ⟨found.2, by rw [position, hfound]⟩

/-- A positional argument in the canonical form. -/
def argKey : Value → Except GraphRaise ValueKey
  | .ref r => do
    let position ← g.position r.node
    pure (.input position r.index)
  | v => .ok v.key

/-- The canonical form of a node. -/
structure NodeForm where
  op : String
  args : List ValueKey
  kwargs : List (String × ValueKey)
  isImpure : Bool
  aliasInputs : List Int

/-- `sorted((key, _value_key(value)) …)`: keys are distinct, so they decide. -/
def kwargsKey (node : GraphNode μ) : List (String × ValueKey) :=
  (node.kwargs.entries.map fun entry => (entry.1, entry.2.key)).mergeSort fun a b => a.1 ≤ b.1

def nodeForm (node : GraphNode μ) : Except GraphRaise NodeForm := do
  let args ← node.args.mapM g.argKey
  pure ⟨node.op, args, kwargsKey node, node.isImpure, node.aliasInputs⟩

def outputForm (r : Ref) : Except GraphRaise (Nat × Int) := do
  let position ← g.position r.node
  pure (position, r.index)

/-- Canonical shape of the graph: node names replaced by topo indices. -/
def canonicalForm : Except GraphRaise (List NodeForm × List (Nat × Int)) := do
  let form ← g.nodes.mapM g.nodeForm
  let outputs ← g.outputs.mapM g.outputForm
  pure (form, outputs)

variable (digest : List NodeForm × List (Nat × Int) → String)

def structuralHash : Except GraphRaise String := do
  let form ← g.canonicalForm
  pure (digest form)

/-- **The identity is computed** when all references that are looked up resolve. -/
theorem structuralHash_ok (hnodes : ∀ node ∈ g.nodes, ∀ r ∈ node.uses, r.node ∈ g.names)
    (houtputs : ∀ r ∈ g.outputs, r.node ∈ g.names) :
    ∃ hash, g.structuralHash digest = .ok hash := by
  have hforms : ∀ node ∈ g.nodes, ∃ form, g.nodeForm node = .ok form := by
    intro node hnode
    have hargs : ∀ v ∈ node.args, ∃ key, g.argKey v = .ok key := by
      intro v hv
      cases v with
      | ref r =>
        obtain ⟨i, hi⟩ := g.exists_position (hnodes node hnode r (GraphNode.uses_of_arg hv))
        exact ⟨_, bind_of_ok hi _⟩
      | const c => exact ⟨_, rfl⟩
      | tuple items => exact ⟨_, rfl⟩
    obtain ⟨args, hargs⟩ := exists_mapM_eq_ok hargs
    exact ⟨_, bind_of_ok hargs _⟩
  have houts : ∀ r ∈ g.outputs, ∃ form, g.outputForm r = .ok form := by
    intro r hr
    obtain ⟨i, hi⟩ := g.exists_position (houtputs r hr)
    exact ⟨_, bind_of_ok hi _⟩
  obtain ⟨form, hform⟩ := exists_mapM_eq_ok hforms
  obtain ⟨outputs, houtputs⟩ := exists_mapM_eq_ok houts
  have hcanonical : g.canonicalForm = .ok (form, outputs) :=
    (bind_of_ok hform _).trans (bind_of_ok houtputs _)
  exact ⟨_, bind_of_ok hcanonical _⟩

/-! ### Dead nodes -/

def keepPass (nodes : List (GraphNode μ)) (keep : List String) : List String :=
  nodes.foldl (fun keep node =>
    if node.name ∈ keep then
      node.refs.foldl (fun keep r => if r.node ∈ keep then keep else keep ++ [r.node]) keep
    else keep) keep

def refNames : List String := g.nodes.flatMap fun node => node.refs.map Ref.node

/-- What a pass adds was not kept before, and some node refers to it. -/
def Grows (names keep keep' : List String) : Prop :=
  ∃ added, keep' = keep ++ added ∧ ∀ x ∈ added, x ∈ names ∧ x ∉ keep

theorem Grows.refl (names keep : List String) : Grows names keep keep :=
  ⟨[], (append_nil keep).symm, fun _ hx => nomatch hx⟩

theorem Grows.trans {names a b c : List String} (h : Grows names a b) (h' : Grows names b c) :
    Grows names a c := by
  obtain ⟨added, rfl, hadded⟩ := h
  obtain ⟨added', rfl, hadded'⟩ := h'
  refine ⟨added ++ added', append_assoc .., fun x hx => ?_⟩
  rcases mem_append.mp hx with hx | hx
  · exact hadded x hx
  · exact ⟨(hadded' x hx).1, fun hin => (hadded' x hx).2 (mem_append_left _ hin)⟩

theorem grows_foldl {β : Type} {names : List String} {step : List String → β → List String}
    {l : List β} (hstep : ∀ keep, ∀ b ∈ l, Grows names keep (step keep b)) (keep : List String) :
    Grows names keep (l.foldl step keep) := by
  induction l generalizing keep with
  | nil => exact Grows.refl names keep
  | cons b l ih =>
    exact (hstep keep b mem_cons_self).trans
      (ih (fun keep b hb => hstep keep b (.tail _ hb)) _)

theorem grows_keepPass (keep : List String) : Grows g.refNames keep (keepPass g.nodes keep) := by
  refine grows_foldl (fun keep node hnode => ?_) keep
  by_cases hkept : node.name ∈ keep
  swap
  · rw [if_neg hkept]
    exact Grows.refl _ keep
  rw [if_pos hkept]
  refine grows_foldl (fun keep r hr => ?_) keep
  by_cases hin : r.node ∈ keep
  · rw [if_pos hin]
    exact Grows.refl _ keep
  · rw [if_neg hin]
    refine ⟨[r.node], rfl, fun x hx => ?_⟩
    obtain rfl := mem_singleton.mp hx
    exact ⟨mem_flatMap.mpr ⟨node, hnode, mem_map_of_mem hr⟩, hin⟩

theorem keepPass_decreases {keep : List String}
    (h : keep.length < (keepPass g.nodes keep).length) :
    (g.refNames.filter fun x => x ∉ keepPass g.nodes keep).length <
      (g.refNames.filter fun x => x ∉ keep).length := by
  obtain ⟨added, hkeep, hadded⟩ := g.grows_keepPass keep
  rw [hkeep] at h ⊢
  rcases added with - | ⟨x, added⟩
  · rw [append_nil] at h
    exact absurd h (lt_irrefl _)
  · obtain ⟨hx, hnot⟩ := hadded x mem_cons_self
    have hsub : (g.refNames.filter fun y => y ∉ keep ++ x :: added).Sublist
        (g.refNames.filter fun y => y ∉ keep) := by
      refine monotone_filter_right _ fun y hy => ?_
      simp only [decide_eq_true_eq] at hy ⊢
      exact fun hin => hy (mem_append_left _ hin)
    refine lt_of_le_of_ne hsub.length_le fun heq => ?_
    have hmem : x ∈ g.refNames.filter fun y => y ∉ keep :=
      mem_filter.mpr ⟨hx, decide_eq_true hnot⟩
    rw [← hsub.eq_of_length heq] at hmem
    have hout := of_decide_eq_true (mem_filter.mp hmem).2
    exact hout (mem_append_right _ mem_cons_self)

/-- The loop of `_dead_nodes`: pass until nothing changes. -/
def keptNames (keep : List String) : List String :=
  if keep.length < (keepPass g.nodes keep).length then keptNames (keepPass g.nodes keep) else keep
termination_by (g.refNames.filter fun x => x ∉ keep).length
decreasing_by
  rename_i h
  exact g.keepPass_decreases h

def deadNodes : List String :=
  let keep := g.keptNames (g.outputs.map Ref.node)
  g.names.filter fun name => name ∉ keep

/-! ### Comparison -/

def opRecords : List (String × String) :=
  g.nodes.map fun node => (node.op, if node.modulePath = "" then node.name else node.modulePath)

end Graph

def multisetDifference {α : Type} [DecidableEq α] : List α → List α → List α
  | [], _ => []
  | item :: rest, remaining =>
    if item ∈ remaining then multisetDifference rest (remaining.erase item)
    else item :: multisetDifference rest remaining

/-- Before/after graph facts a rewrite must persist. -/
structure GraphDiff (μ : Type) where
  beforeHash : String
  afterHash : String
  removed : List (String × String)
  added : List (String × String)
  metaChanged : List (String × OrderedDict String μ × OrderedDict String μ)
  deadCodeBefore : List String
  deadCodeAfter : List String
  impureBefore : List String
  impureAfter : List String
  irLevelBefore : IRLevel
  irLevelAfter : IRLevel

/-- Equality of dictionaries, whatever the order of their keys. -/
def sameDict [DecidableEq μ] (a b : OrderedDict String μ) : Bool :=
  a.keys.length = b.keys.length ∧ ∀ key ∈ a.keys, a.get? key = b.get? key

namespace Graph

variable [DecidableEq μ] (g : Graph μ) (digest : List NodeForm × List (Nat × Int) → String)

def metaOf : OrderedDict String (OrderedDict String μ) :=
  (g.nodes.filter fun node => node.metadata.keys ≠ []).foldl
    (fun d node => d.set node.name node.metadata) OrderedDict.empty

def metaChanged (other : Graph μ) : List (String × OrderedDict String μ × OrderedDict String μ) :=
  (g.metaOf.keys.mergeSort fun a b => a ≤ b).filterMap fun name =>
    match g.metaOf.get? name, other.metaOf.get? name with
    | some before, some after => if sameDict before after then none else some (name, before, after)
    | _, _ => none

def diff (other : Graph μ) : Except GraphRaise (GraphDiff μ) := do
  let beforeHash ← g.structuralHash digest
  let afterHash ← other.structuralHash digest
  pure {
    beforeHash := beforeHash
    afterHash := afterHash
    removed := multisetDifference g.opRecords other.opRecords
    added := multisetDifference other.opRecords g.opRecords
    metaChanged := g.metaChanged other
    deadCodeBefore := g.deadNodes
    deadCodeAfter := other.deadNodes
    impureBefore := g.impureNodes.map GraphNode.name
    impureAfter := other.impureNodes.map GraphNode.name
    irLevelBefore := g.irLevel
    irLevelAfter := other.irLevel }

omit [DecidableEq μ] in
theorem diff_ok [DecidableEq μ] {other : Graph μ} {before after : String}
    (hbefore : g.structuralHash digest = .ok before)
    (hafter : other.structuralHash digest = .ok after) : ∃ d, g.diff digest other = .ok d :=
  ⟨_, (bind_of_ok hbefore _).trans (bind_of_ok hafter _)⟩

/-! ### Editing -/

omit [DecidableEq μ]

def withNode (node : GraphNode μ) : Graph μ := { g with nodes := g.nodes ++ [node] }

def withoutNode (name : String) : Graph μ :=
  { g with
    nodes := g.nodes.filter fun node => node.name ≠ name
    outputs := g.outputs.filter fun r => r.node ≠ name }

/-- **Dropping nodes one by one** keeps the nodes and the outputs that none of the names is of. -/
theorem withoutNodes_eq (removed : List String) :
    (removed.foldl withoutNode g).nodes = g.nodes.filter (fun node => node.name ∉ removed) ∧
      (removed.foldl withoutNode g).outputs = g.outputs.filter fun r => r.node ∉ removed := by
  induction removed generalizing g with
  | nil => simp
  | cons name removed ih =>
    rw [foldl_cons]
    obtain ⟨hnodes, houtputs⟩ := ih (g.withoutNode name)
    rw [hnodes, houtputs]
    constructor
    · rw [withoutNode, filter_filter]
      refine filter_congr fun node _ => ?_
      simp only [mem_cons, not_or, Bool.decide_and, Bool.and_comm]
    · rw [withoutNode, filter_filter]
      refine filter_congr fun r _ => ?_
      simp only [mem_cons, not_or, Bool.decide_and, Bool.and_comm]

/-! ### Well-formed graphs -/

def Ordered : List String → List (GraphNode μ) → Prop
  | _, [] => True
  | before, node :: rest =>
    (∀ r ∈ node.uses, r.node ∈ before) ∧ Ordered (before ++ [node.name]) rest

/-- References resolve, and the nodes are in topological order. -/
structure WellFormed : Prop where
  ordered : Ordered [] g.nodes
  outputs : ∀ r ∈ g.outputs, r.node ∈ g.names

variable {before : List String} {nodes : List (GraphNode μ)}

theorem Ordered.uses (h : Ordered before nodes) {node : GraphNode μ} (hnode : node ∈ nodes)
    {r : Ref} (hr : r ∈ node.uses) : r.node ∈ before ++ nodes.map GraphNode.name := by
  induction nodes generalizing before with
  | nil => cases hnode
  | cons first rest ih =>
    obtain ⟨hfirst, hrest⟩ := h
    rcases mem_cons.mp hnode with rfl | hin
    · exact mem_append_left _ (hfirst r hr)
    · have := ih hrest hin
      rwa [append_assoc] at this

/-- Nodes that nothing left refers to can go. -/
theorem Ordered.filter {removed : List String} (h : Ordered before nodes)
    (hfree : ∀ node ∈ nodes, node.name ∉ removed → ∀ r ∈ node.uses, r.node ∉ removed) :
    Ordered (before.filter fun name => name ∉ removed)
      (nodes.filter fun node => node.name ∉ removed) := by
  induction nodes generalizing before with
  | nil => trivial
  | cons first rest ih =>
    obtain ⟨hfirst, hrest⟩ := h
    have htail := ih hrest fun node hnode => hfree node (.tail _ hnode)
    rw [filter_append] at htail
    by_cases hname : first.name ∈ removed
    · rw [filter_cons_of_neg (by simpa using hname)]
      rwa [filter_cons_of_neg (by simpa using hname), filter_nil,
        append_nil] at htail
    · rw [filter_cons_of_pos (by simpa using hname)]
      rw [filter_cons_of_pos (by simpa using hname)] at htail
      refine ⟨fun r hr => mem_filter.mpr ⟨hfirst r hr, ?_⟩, htail⟩
      exact decide_eq_true (hfree first mem_cons_self hname r hr)

/-- A node may come last when its references are all there. -/
theorem Ordered.append (h : Ordered before nodes) {node : GraphNode μ}
    (hnode : ∀ r ∈ node.uses, r.node ∈ before ++ nodes.map GraphNode.name) :
    Ordered before (nodes ++ [node]) := by
  induction nodes generalizing before with
  | nil =>
    rw [map_nil, append_nil] at hnode
    exact ⟨hnode, trivial⟩
  | cons first rest ih =>
    refine ⟨h.1, ih h.2 fun r hr => ?_⟩
    rw [append_assoc]
    exact hnode r hr

variable {g} in
theorem WellFormed.structuralHash (h : g.WellFormed)
    (digest : List NodeForm × List (Nat × Int) → String) :
    ∃ hash, g.structuralHash digest = .ok hash :=
  g.structuralHash_ok digest (fun _ hnode _ hr => h.ordered.uses hnode hr) h.outputs

end Graph

/-! ### Structures and matches -/

/-- One node of a structural pattern.  An input is `"$key"` or `"?"`. -/
structure PatternNode where
  key : String
  op : String
  inputs : List String := []

/-- A concrete structure the pattern accepts. -/
structure Structure where
  name : String
  nodes : List PatternNode

def Structure.root (s : Structure) : Option String := s.nodes.getLast?.map PatternNode.key

abbrev Bindings := OrderedDict String String

/-- A structural candidate: pattern key → graph node. -/
structure Match where
  caseId : String
  structureName : String
  bindings : Bindings
  modulePath : String := ""
  sourceStack : String := ""

namespace Match

def nodes (m : Match) : List String := m.bindings.values

/-- `nodes[0]` -/
def first (m : Match) : Except GraphRaise String :=
  match m.nodes with
  | [] => .error .indexError
  | name :: _ => .ok name

theorem exists_first {m : Match} (h : m.nodes ≠ []) : ∃ name ∈ m.nodes, m.first = .ok name := by
  rcases hnodes : m.nodes with - | ⟨name, rest⟩
  · exact absurd hnodes h
  · exact ⟨name, List.mem_cons_self, by rw [first, hnodes]⟩

/-- The graph node whose value is the matched region's result. -/
def result (m : Match) (s : Structure) : Option String := s.root.bind m.bindings.get?

theorem mem_nodes_of_result {m : Match} {s : Structure} {name : String}
    (h : m.result s = some name) : name ∈ m.nodes := by
  obtain ⟨key, -, hkey⟩ := Option.bind_eq_some_iff.mp h
  exact (OrderedDict.mem_values_iff _).mpr ⟨key, hkey⟩

end Match

/-- `expected[1:] if expected.startswith("$") else expected` -/
def inputKey (expected : String) : String :=
  match expected.toList with
  | '$' :: rest => String.ofList rest
  | _ => expected

/-- The graph node's argument at the position is what the pattern expects. -/
def inputFits (bindings : Bindings) (node : GraphNode μ) (expected : String) (position : Nat) :
    Bool :=
  if expected = "?" then true
  else match bindings.get? (inputKey expected), node.args[position]? with
    | some bound, some (.ref r) => r.node = bound
    | _, _ => false

def candidate (bindings : Bindings) (pattern : PatternNode) (node : GraphNode μ) : Bool :=
  node.op = pattern.op ∧ node.name ∉ bindings.values ∧
    pattern.inputs.zipIdx.all fun e => inputFits bindings node e.1 e.2

section Matching

variable (digest : List Graph.NodeForm × List (Nat × Int) → String) (graph : Graph μ)
  (s : Structure) (casePrefix modulePath : String)

/-- `case_prefix or graph.structural_hash()[:8]` -/
def caseLabel : Except GraphRaise String :=
  if casePrefix ≠ "" then .ok casePrefix
  else (graph.structuralHash digest).map fun hash => String.ofList (hash.toList.take 8)

/-- The match that is recorded when everything is bound. -/
def matchOf (bindings : Bindings) (count : Nat) : Except GraphRaise Match := do
  let label ← caseLabel digest graph casePrefix
  pure {
    caseId := label ++ ":" ++ s.name ++ ":" ++ toString count
    structureName := s.name
    bindings := bindings
    modulePath := if modulePath = "" then graph.modulePath else modulePath }

/-- `bind`: the bindings and the matches so far go in, and come out. -/
def bindFrom : List PatternNode → Bindings × List Match → Except GraphRaise (Bindings × List Match)
  | [], (bindings, found) => do
    let m ← matchOf digest graph s casePrefix modulePath bindings found.length
    pure (bindings, found ++ [m])
  | pattern :: rest, state =>
    graph.nodes.foldlM (fun (state : Bindings × List Match) node =>
      if candidate state.1 pattern node then do
        let state ← bindFrom rest (state.1.set pattern.key node.name, state.2)
        pure (state.1.erase pattern.key, state.2)
      else pure state) state

/-- Enumerate structural candidates. -/
def findMatches : Except GraphRaise (List Match) := do
  let state ←
    bindFrom digest graph s casePrefix modulePath s.nodes (OrderedDict.empty, [])
  pure state.2

/-! ### What is found -/

structure Bound (state : Bindings × List Match) : Prop where
  bindings : ∀ name ∈ state.1.values, name ∈ graph.names
  found : ∀ m ∈ state.2, m.nodes ≠ [] ∧ ∀ name ∈ m.nodes, name ∈ graph.names

variable {digest graph s casePrefix modulePath}

theorem foldlM_keeps {ε σ β : Type} {P : σ → Prop} {step : σ → β → Except ε σ} {l : List β}
    (hstep : ∀ s, P s → ∀ b ∈ l, ∀ s', step s b = .ok s' → P s') {s s' : σ} (hs : P s)
    (h : l.foldlM step s = .ok s') : P s' := by
  induction l generalizing s with
  | nil =>
    cases h
    exact hs
  | cons b l ih =>
    obtain ⟨s₁, h₁, h⟩ := bind_ok_iff.mp h
    exact ih (fun s hs b hb => hstep s hs b (List.mem_cons_of_mem _ hb))
      (hstep s hs b List.mem_cons_self s₁ h₁) h

/-- Matching keeps the invariant, if something is bound before a match is recorded. -/
theorem Bound.bindFrom {patterns : List PatternNode} {state state' : Bindings × List Match}
    (h : Bound graph state) (hsome : patterns ≠ [] ∨ state.1.values ≠ [])
    (hbind : bindFrom digest graph s casePrefix modulePath patterns state = .ok state') :
    Bound graph state' := by
  induction patterns generalizing state state' with
  | nil =>
    obtain ⟨m, hm, hstate⟩ := bind_ok_iff.mp hbind
    cases hstate
    obtain ⟨label, -, hm⟩ := bind_ok_iff.mp hm
    cases hm
    refine ⟨h.bindings, fun m hm => ?_⟩
    rcases List.mem_append.mp hm with hm | hm
    · exact h.found m hm
    · obtain rfl := List.mem_singleton.mp hm
      exact ⟨hsome.resolve_left fun hnil => hnil rfl, h.bindings⟩
  | cons pattern rest ih =>
    refine foldlM_keeps (P := Bound graph) ?_ h hbind
    intro st hst node hnode st' hstep
    split_ifs at hstep with hcandidate
    swap
    · cases hstep
      exact hst
    obtain ⟨inner, hinner, hstep⟩ := bind_ok_iff.mp hstep
    cases hstep
    have hset : Bound graph (st.1.set pattern.key node.name, st.2) := by
      refine ⟨fun name hname => ?_, hst.found⟩
      obtain ⟨key, hkey⟩ := (OrderedDict.mem_values_iff _).mp hname
      rw [OrderedDict.get?_set] at hkey
      split_ifs at hkey
      · cases hkey
        exact List.mem_map_of_mem hnode
      · exact hst.bindings name ((OrderedDict.mem_values_iff _).mpr ⟨key, hkey⟩)
    have hne : (st.1.set pattern.key node.name).values ≠ [] := by
      refine List.ne_nil_of_mem (a := node.name) ?_
      exact (OrderedDict.mem_values_iff _).mpr ⟨_, OrderedDict.get?_set_self _ _ _⟩
    obtain ⟨hbindings, hfound⟩ := ih hset (.inr hne) hinner
    refine ⟨fun name hname => ?_, hfound⟩
    obtain ⟨key, hkey⟩ := (OrderedDict.mem_values_iff _).mp hname
    rw [OrderedDict.get?_erase] at hkey
    split_ifs at hkey
    exact hbindings name ((OrderedDict.mem_values_iff _).mpr ⟨key, hkey⟩)

/-- **What is found** are names of the graph. -/
theorem names_of_findMatches {found : List Match} (hs : s.nodes ≠ [])
    (h : findMatches digest graph s casePrefix modulePath = .ok found) {m : Match}
    (hm : m ∈ found) : m.nodes ≠ [] ∧ ∀ name ∈ m.nodes, name ∈ graph.names := by
  obtain ⟨state, hbind, hfound⟩ := bind_ok_iff.mp h
  cases hfound
  have hstart : Bound graph (OrderedDict.empty, []) :=
    ⟨fun _ hname => (nomatch hname), fun _ hm => (nomatch hm)⟩
  exact (hstart.bindFrom (.inl hs) hbind).found m hm

end Matching

/-! ### The rewrite -/

inductive DecisionStatus where
  | eligible | ineligible | hit | reject | unknownNeedsReview
  deriving DecidableEq

/-- Outcome of evaluating one candidate. -/
structure Decision where
  candidate : Match
  status : DecisionStatus
  reason : String := ""
  patternId : String := ""
  patternVersion : String := ""
  loweringTargets : List String := []

/-- Everything a rewrite must persist. -/
structure RewriteRecord where
  patternId : String
  patternVersion : String
  caseId : String
  matchedNodes : List String
  newOp : String
  newSchemaHash : String
  modulePath : String
  sourceStack : String
  captureMode : CaptureMode
  irLevel : IRLevel
  loweringCandidate : String

structure RewriteResult (μ : Type) where
  graph : Graph μ
  diff : GraphDiff μ
  record : RewriteRecord

section Rewriting

variable [DecidableEq μ] {χ : Type} (digest : List Graph.NodeForm × List (Nat × Int) → String)
  (graph : Graph μ) (decision : Decision) (ctx : χ)
  (replacement : Decision → χ → GraphNode μ) (newSchemaHash : String)

/-- The graph with the replacement node and without the matched ones. -/
def replacedGraph (node : GraphNode μ) : Graph μ :=
  decision.candidate.nodes.foldl Graph.withoutNode (graph.withNode node)

/-- Apply a hit to a copy of the graph, returning diff + audit record. -/
def applyRewrite : Except GraphRaise (RewriteResult μ) := do
  raiseIf (decision.status ≠ .hit) (.config "status")
  let node := replacement decision ctx
  raiseIf (node.name ∈ decision.candidate.nodes) (.config "replacement.name")
  let replaced := replacedGraph graph decision node
  let diff ← graph.diff digest replaced
  let first ← decision.candidate.first
  let anchor ← graph.node first
  pure {
    graph := replaced
    diff := diff
    record := {
      patternId := decision.patternId
      patternVersion := decision.patternVersion
      caseId := decision.candidate.caseId
      matchedNodes := decision.candidate.nodes
      newOp := node.op
      newSchemaHash := newSchemaHash
      modulePath := anchor.modulePath
      sourceStack := anchor.sourceStack
      captureMode := graph.captureMode
      irLevel := graph.irLevel
      loweringCandidate := decision.loweringTargets.head?.getD "" } }

variable {digest graph decision ctx replacement newSchemaHash}

/-- **The rewritten graph** is the old one with the node appended and the matched nodes dropped. -/
theorem applyRewrite_graph {r : RewriteResult μ}
    (h : applyRewrite digest graph decision ctx replacement newSchemaHash = .ok r) :
    r.graph = replacedGraph graph decision (replacement decision ctx) := by
  obtain ⟨-, -, h⟩ := bind_ok_iff.mp h
  obtain ⟨-, -, h⟩ := bind_ok_iff.mp h
  obtain ⟨diff, -, h⟩ := bind_ok_iff.mp h
  obtain ⟨first, -, h⟩ := bind_ok_iff.mp h
  obtain ⟨anchor, -, h⟩ := bind_ok_iff.mp h
  rw [← Except.ok.inj h]

/-- The rewrite goes through when both graphs have an identity. -/
theorem applyRewrite_ok (hhit : decision.status = .hit)
    (hname : (replacement decision ctx).name ∉ decision.candidate.nodes)
    (hne : decision.candidate.nodes ≠ [])
    (hnames : ∀ name ∈ decision.candidate.nodes, name ∈ graph.names) {d : GraphDiff μ}
    (hdiff : graph.diff digest (replacedGraph graph decision (replacement decision ctx)) =
      .ok d) :
    ∃ r, applyRewrite digest graph decision ctx replacement newSchemaHash = .ok r := by
  obtain ⟨first, hmem, hfirst⟩ := Match.exists_first hne
  obtain ⟨anchor, hanchor⟩ := graph.exists_node (hnames first hmem)
  have hgo : raiseIf (decision.status ≠ .hit) (.config "status" : GraphRaise) = .ok () :=
    raiseIf_eq_ok_iff.mpr (not_not.mpr hhit)
  have hfresh : raiseIf ((replacement decision ctx).name ∈ decision.candidate.nodes)
      (.config "replacement.name" : GraphRaise) = .ok () := raiseIf_eq_ok_iff.mpr hname
  exact ⟨_, (bind_of_ok hgo _).trans <| (bind_of_ok hfresh _).trans <| (bind_of_ok hdiff _).trans <|
    (bind_of_ok hfirst _).trans <| bind_of_ok hanchor _⟩

end Rewriting

end Hqsb.Integration
