/-
Hqsb/Lib/DepthFirst.lean

Depth-first topological sorting of a graph that is given by its dependencies.

`visit` goes through the dependencies of a node before it appends the node to the order; `path`
holds the nodes whose dependencies it is going through.  A node met again on its own path is a
fault, and so is a path that the stack has no room for.

Results:
* `sort_ordered`: an order that is found lists each node behind its dependencies, and once;
* `sort_perm`: it lists the roots, when they depend on roots only;
* `sort_cycle`: a node is reported only when it depends on itself;
* `sort_overflow`: the stack overflows only on a chain of nodes that are all different;
* `sort_ok_iff`: where every chain fits, there is an order unless a node depends on itself.
-/
import Mathlib

namespace Lib.DepthFirst

open Relation List

variable {α : Type*}

/-- Why there is no order. -/
inductive Fault (α : Type*) where
  | cycle (a : α)
  | overflow

section

variable [DecidableEq α] (deps : α → List α)

/-- Append `a` to the order, behind what it depends on; the stack has room for so many nodes that
are being visited. -/
def visit : Nat → List α → List α → α → Except (Fault α) (List α)
  | room, path, order, a =>
    if a ∈ order then .ok order
    else if a ∈ path then .error (.cycle a)
    else
      match room with
      | 0 => .error .overflow
      | room + 1 => do
        let order ← (deps a).foldlM (visit room (a :: path)) order
        .ok (order ++ [a])

def sort (room : Nat) (roots : List α) : Except (Fault α) (List α) :=
  roots.foldlM (visit deps room []) []

end

variable (deps : α → List α)

/-- Every node once, and behind its dependencies. -/
inductive Ordered : List α → Prop where
  | nil : Ordered []
  | snoc {order : List α} {a : α} : Ordered order → a ∉ order → (∀ b ∈ deps a, b ∈ order) →
    Ordered (order ++ [a])

/-- `a` depends on `b`, directly or through others, or is `b`. -/
def Needs : α → α → Prop := ReflTransGen fun a b => b ∈ deps a

variable {deps}

/-! ### Orders -/

namespace Ordered

theorem nodup {order : List α} (h : Ordered deps order) : order.Nodup := by
  induction h with
  | nil => exact nodup_nil
  | snoc _ ha _ ih => exact nodup_append.mpr ⟨ih, by simp, by grind⟩

/-- What stands before any place is in order. -/
theorem front {front back : List α} (h : Ordered deps (front ++ back)) : Ordered deps front := by
  generalize he : front ++ back = order at h
  induction h generalizing back with
  | nil =>
    obtain ⟨rfl, -⟩ := append_eq_nil_iff.mp he
    exact .nil
  | @snoc order a hord ha hdeps ih =>
    rcases eq_nil_or_concat back with rfl | ⟨back, b, rfl⟩
    · rw [append_nil] at he
      exact he ▸ .snoc hord ha hdeps
    · rw [concat_eq_append, ← append_assoc] at he
      exact ih (append_inj' he rfl).1

/-- **Dependencies come first.** -/
theorem before {front back : List α} {a : α} (h : Ordered deps (front ++ a :: back)) :
    ∀ b ∈ deps a, b ∈ front := by
  have h' : Ordered deps (front ++ [a]) := by
    rw [← singleton_append, ← append_assoc] at h
    exact h.front
  generalize he : front ++ [a] = order at h'
  cases h' with
  | nil => exact absurd he (by simp)
  | snoc hord ha hdeps =>
    obtain ⟨rfl, hab⟩ := append_inj' he rfl
    cases hab
    exact hdeps

/-- **Nothing in an order depends on itself.** -/
theorem acyclic {order : List α} (h : Ordered deps order) {a : α} (ha : a ∈ order) :
    ¬TransGen (fun a b => b ∈ deps a) a a := by
  have hacc : ∀ a ∈ order, Acc (fun b a => b ∈ deps a) a := by
    clear ha
    induction h with
    | nil => exact forall_mem_nil _
    | snoc _ _ hdeps ih =>
      refine forall_mem_append.mpr ⟨ih, forall_mem_singleton.mpr ?_⟩
      exact .intro _ fun b hb => ih b (hdeps b hb)
  have hacc := hacc a ha
  clear ha
  induction hacc with
  | intro a _ ih =>
    intro hcycle
    obtain ⟨b, hab, hba⟩ := TransGen.head'_iff.mp hcycle
    exact ih b hab (TransGen.tail' hba hab)

end Ordered

/-! ### Visits -/

/-- What a visit of `a` or of nodes that `a` needs makes of an order. -/
structure Extends (deps : α → List α) (path order : List α) (roots : List α) (order' : List α) :
    Prop where
  ordered : Ordered deps order'
  kept : ∀ b ∈ order, b ∈ order'
  reached : ∀ a ∈ roots, a ∈ order'
  needed : ∀ b ∈ order', b ∈ order ∨ ∃ a ∈ roots, Needs deps a b
  apart : ∀ b ∈ path, b ∉ order → b ∉ order'

variable {order path roots : List α} {a : α} {room : Nat}

theorem Extends.refl (h : Ordered deps order) : Extends deps path order [] order :=
  ⟨h, fun _ hb => hb, nofun, fun _ hb => .inl hb, fun _ _ hb => hb⟩

theorem Extends.trans {order₁ order₂ roots' : List α} (h₁ : Extends deps path order roots order₁)
    (h₂ : Extends deps path order₁ roots' order₂) :
    Extends deps path order (roots ++ roots') order₂ where
  ordered := h₂.ordered
  kept := fun b hb => h₂.kept b (h₁.kept b hb)
  reached := by
    intro a ha
    rcases mem_append.mp ha with ha | ha
    · exact h₂.kept a (h₁.reached a ha)
    · exact h₂.reached a ha
  needed := by
    intro b hb
    rcases h₂.needed b hb with hb | ⟨a, ha, hab⟩
    · rcases h₁.needed b hb with hb | ⟨a, ha, hab⟩
      · exact .inl hb
      · exact .inr ⟨a, mem_append_left _ ha, hab⟩
    · exact .inr ⟨a, mem_append_right _ ha, hab⟩
  apart := fun b hp hb => h₂.apart b hp (h₁.apart b hp hb)

/-- Visits one after the other do what each of them does. -/
theorem foldlM_extends {step : List α → α → Except (Fault α) (List α)}
    (hstep : ∀ {order a order'}, Ordered deps order → step order a = .ok order' →
      Extends deps path order [a] order') {order' : List α} (hord : Ordered deps order)
    (h : roots.foldlM step order = .ok order') : Extends deps path order roots order' := by
  induction roots generalizing order with
  | nil =>
    cases h
    exact .refl hord
  | cons a roots ih =>
    rw [foldlM_cons] at h
    rcases hs : step order a with e | order₁
    · rw [hs] at h
      cases h
    · rw [hs] at h
      have h₁ := hstep hord hs
      exact h₁.trans (ih h₁.ordered h)

theorem mem_of_needs (hdeps : ∀ a ∈ roots, ∀ b ∈ deps a, b ∈ roots) {b : α} (ha : a ∈ roots)
    (h : Needs deps a b) : b ∈ roots := by
  induction h with
  | refl => exact ha
  | tail _ hc ih => exact hdeps _ ih _ hc

/-- A fault of visits one after the other is a fault of one of them. -/
theorem foldlM_error {step : List α → α → Except (Fault α) (List α)} {fault : Fault α}
    (h : roots.foldlM step order = .error fault) :
    ∃ a ∈ roots, ∃ order, step order a = .error fault := by
  induction roots generalizing order with
  | nil => cases h
  | cons a roots ih =>
    rw [foldlM_cons] at h
    rcases hs : step order a with e | order₁
    · rw [hs] at h
      cases h
      exact ⟨a, .head _, order, hs⟩
    · rw [hs] at h
      obtain ⟨b, hb, hfault⟩ := ih h
      exact ⟨b, mem_cons_of_mem a hb, hfault⟩

/-! ### Chains -/

/-- Nodes that are all different, each of which depends on the next. -/
structure Chain (deps : α → List α) (nodes chain : List α) : Prop where
  nodup : chain.Nodup
  mem : ∀ a ∈ chain, a ∈ nodes
  linked : chain.IsChain fun a b => b ∈ deps a

variable {nodes chain : List α}

theorem Chain.length_le (h : Chain deps nodes chain) : chain.length ≤ nodes.length :=
  (h.nodup.subperm h.mem).length_le

/-- A chain that ends at the head of a path goes on with a node that is not on the path. -/
theorem Chain.onto (h : Chain deps nodes path.reverse) (hmem : a ∈ nodes) (hnew : a ∉ path)
    (hlast : ∀ b ∈ path.head?, a ∈ deps b) : Chain deps nodes (a :: path).reverse := by
  rw [reverse_cons]
  refine ⟨?_, ?_, h.linked.append (.singleton a) ?_⟩
  · rw [nodup_append]
    refine ⟨h.nodup, nodup_singleton a, ?_⟩
    rintro b hb c hc rfl
    exact hnew (mem_singleton.mp hc ▸ mem_reverse.mp hb)
  · intro b hb
    rcases mem_append.mp hb with hb | hb
    · exact h.mem b hb
    · exact mem_singleton.mp hb ▸ hmem
  · intro b hb c hc
    cases hc
    exact hlast b (by simpa using hb)

/-! ### The order that the visits leave -/

variable [DecidableEq α]

theorem visit_extends {order' : List α} (hord : Ordered deps order)
    (h : visit deps room path order a = .ok order') :
    Extends deps path order [a] order' := by
  induction room generalizing path order order' a with
  | zero =>
    rw [visit] at h
    split_ifs at h with hmem
    cases h
    exact ⟨hord, fun _ hb => hb, by simpa using hmem, fun _ hb => .inl hb, fun _ _ hb => hb⟩
  | succ room ih =>
    rw [visit] at h
    split_ifs at h with hmem hpath
    · cases h
      exact ⟨hord, fun _ hb => hb, by simpa using hmem, fun _ hb => .inl hb, fun _ _ hb => hb⟩
    · rcases hf : (deps a).foldlM (visit deps room (a :: path)) order with e | order₁
      · rw [hf] at h
        cases h
      · rw [hf] at h
        cases h
        have hext := foldlM_extends (fun hord hs => ih hord hs) hord hf
        refine ⟨.snoc hext.ordered (hext.apart a mem_cons_self hmem) hext.reached, ?_, ?_,
          ?_, ?_⟩
        · exact fun b hb => mem_append_left _ (hext.kept b hb)
        · simp
        · intro b hb
          rcases mem_append.mp hb with hb | hb
          · rcases hext.needed b hb with hb | ⟨c, hc, hcb⟩
            · exact .inl hb
            · exact .inr ⟨a, mem_singleton_self a, .head hc hcb⟩
          · cases mem_singleton.mp hb
            exact .inr ⟨a, mem_singleton_self a, .refl⟩
        · intro b hp hb hb'
          rcases mem_append.mp hb' with hb' | hb'
          · exact hext.apart b (mem_cons_of_mem a hp) hb hb'
          · cases mem_singleton.mp hb'
            exact hpath hp

/-! ### Sorting -/

theorem sort_extends (h : sort deps room roots = .ok order) : Extends deps [] [] roots order :=
  foldlM_extends visit_extends .nil h

/-- **An order that is found is one.** -/
theorem sort_ordered (h : sort deps room roots = .ok order) :
    Ordered deps order := (sort_extends h).ordered

theorem mem_sort (hdeps : ∀ a ∈ roots, ∀ b ∈ deps a, b ∈ roots)
    (h : sort deps room roots = .ok order) : a ∈ order ↔ a ∈ roots := by
  constructor
  · intro ha
    rcases (sort_extends h).needed a ha with ha | ⟨b, hb, hba⟩
    · cases ha
    · exact mem_of_needs hdeps hb hba
  · exact (sort_extends h).reached a

theorem sort_perm (hroots : roots.Nodup) (hdeps : ∀ a ∈ roots, ∀ b ∈ deps a, b ∈ roots)
    (h : sort deps room roots = .ok order) :
    order.Perm roots :=
  (perm_ext_iff_of_nodup (sort_ordered h).nodup hroots).mpr fun _ => mem_sort hdeps h

/-! ### Faults -/

/-- Where a visit fails, the node is on its own path, there is no room for it, or a dependency
fails. -/
theorem visit_error {fault : Fault α} (h : visit deps room path order a = .error fault) :
    (a ∈ path ∧ fault = .cycle a) ∨ (a ∉ path ∧ room = 0 ∧ fault = .overflow) ∨
      a ∉ path ∧ ∃ room', room = room' + 1 ∧
        ∃ b ∈ deps a, ∃ order, visit deps room' (a :: path) order b = .error fault := by
  unfold visit at h
  split_ifs at h with _ hpath
  · cases h
    exact .inl ⟨hpath, rfl⟩
  · rcases room with - | room
    · cases h
      exact .inr (.inl ⟨hpath, rfl, rfl⟩)
    · refine .inr (.inr ⟨hpath, room, rfl, ?_⟩)
      rcases hf : (deps a).foldlM (visit deps room (a :: path)) order with e | order₁
      · simp only [hf] at h
        cases h
        exact foldlM_error hf
      · simp only [hf] at h
        cases h

theorem visit_cycle (hdeps : ∀ a ∈ nodes, ∀ b ∈ deps a, b ∈ nodes) (ha : a ∈ nodes) {b : α}
    (hpath : ∀ c ∈ path, TransGen (fun a b => b ∈ deps a) c a)
    (h : visit deps room path order a = .error (.cycle b)) :
    b ∈ nodes ∧ TransGen (fun a b => b ∈ deps a) b b := by
  induction room generalizing path order a with
  | zero =>
    rcases visit_error h with ⟨hmem, hfault⟩ | ⟨-, -, hfault⟩ | ⟨-, _, hroom, -⟩
    · cases hfault
      exact ⟨ha, hpath _ hmem⟩
    · cases hfault
    · cases hroom
  | succ room ih =>
    rcases visit_error h with ⟨hmem, hfault⟩ | ⟨-, hroom, -⟩ | ⟨-, _, hroom, c, hc, _, hfault⟩
    · cases hfault
      exact ⟨ha, hpath _ hmem⟩
    · cases hroom
    · cases hroom
      apply ih (hdeps a ha c hc) _ hfault
      intro d hd
      rcases mem_cons.mp hd with hda | hd
      · exact hda ▸ .single hc
      · exact (hpath d hd).tail hc

/-- **Only a node that depends on itself is reported.** -/
theorem sort_cycle (hdeps : ∀ a ∈ roots, ∀ b ∈ deps a, b ∈ roots)
    (h : sort deps room roots = .error (.cycle a)) :
    a ∈ roots ∧ TransGen (fun a b => b ∈ deps a) a a := by
  obtain ⟨b, hb, order, hfault⟩ := foldlM_error h
  exact visit_cycle hdeps hb (fun _ hc => absurd hc not_mem_nil) hfault

theorem visit_overflow (hdeps : ∀ a ∈ nodes, ∀ b ∈ deps a, b ∈ nodes) (ha : a ∈ nodes)
    (hchain : Chain deps nodes path.reverse) (hlast : ∀ b ∈ path.head?, a ∈ deps b)
    (h : visit deps room path order a = .error .overflow) :
    ∃ chain, Chain deps nodes chain ∧ chain.length = path.length + room + 1 := by
  induction room generalizing path order a with
  | zero =>
    rcases visit_error h with ⟨-, hfault⟩ | ⟨hnew, -, -⟩ | ⟨-, _, hroom, -⟩
    · cases hfault
    · exact ⟨_, hchain.onto ha hnew hlast, by simp⟩
    · cases hroom
  | succ room ih =>
    rcases visit_error h with ⟨-, hfault⟩ | ⟨-, hroom, -⟩ | ⟨hnew, _, hroom, b, hb, _, hfault⟩
    · cases hfault
    · cases hroom
    · cases hroom
      obtain ⟨chain, h, hlength⟩ :=
        ih (hdeps a ha b hb) (hchain.onto ha hnew hlast) (by simpa) hfault
      exact ⟨chain, h, by rw [hlength, length_cons]; omega⟩

/-- **The stack overflows only on a long chain.** -/
theorem sort_overflow (hdeps : ∀ a ∈ roots, ∀ b ∈ deps a, b ∈ roots)
    (h : sort deps room roots = .error .overflow) :
    ∃ chain, Chain deps roots chain ∧ chain.length = room + 1 := by
  obtain ⟨a, ha, order, hfault⟩ := foldlM_error h
  have hnil : Chain deps roots [].reverse := ⟨nodup_nil, nofun, .nil⟩
  obtain ⟨chain, hchain, hlength⟩ := visit_overflow hdeps ha hnil nofun hfault
  exact ⟨chain, hchain, by simpa using hlength⟩

/-- **Where every chain fits, sorting fails at cycles and nowhere else.** -/
theorem sort_ok_iff (hdeps : ∀ a ∈ roots, ∀ b ∈ deps a, b ∈ roots)
    (hroom : ∀ chain, Chain deps roots chain → chain.length ≤ room) :
    (∃ order, sort deps room roots = .ok order) ↔
      ∀ a ∈ roots, ¬TransGen (fun a b => b ∈ deps a) a a := by
  constructor
  · rintro ⟨order, h⟩ a ha
    exact (sort_ordered h).acyclic ((mem_sort hdeps h).mpr ha)
  · intro hacyclic
    rcases h : sort deps room roots with (a | -) | order
    · obtain ⟨ha, hcycle⟩ := sort_cycle hdeps h
      exact absurd hcycle (hacyclic a ha)
    · obtain ⟨chain, hchain, hlength⟩ := sort_overflow hdeps h
      have := hroom chain hchain
      omega
    · exact ⟨order, rfl⟩

end Lib.DepthFirst
