/-
Hqsb/Distributed/DispatchCombine.lean

Dispatch and combine together.

`Holds` says which assignments a dispatch result has packed, in which order; the
result of `dispatch_oracle` holds the experts' items one expert after the other
(`dispatchOracle_holds`).  From there the two halves are separate: the offsets point
at the packed positions unless rounding has moved them (`packs_iff`), and
`combine_oracle` finds a place for every token unless an index is negative or the
last tokens of the route have no assignment (`restores_iff`).
-/
import Hqsb.Distributed.Dispatch

namespace Hqsb.Distributed

open Lib Lib.Grouping List

variable {K : Type}

/-! ### What is packed -/

/-- The columns of `d` are those of the assignments `l`. -/
structure DispatchResult.Holds (d : DispatchResult K) (l : List (RouteAssignment K)) : Prop where
  tokenOrder : d.tokenOrder = l.map RouteAssignment.tokenIndex
  expertOrder : d.expertOrder = l.map RouteAssignment.expertId
  weights : d.weights = l.map RouteAssignment.weight
  sourceOrder : d.sourceOrder = l.map RouteAssignment.sourceRank
  slotOrder : d.slotOrder = l.map RouteAssignment.topkSlot

section Holds

variable {d : DispatchResult K} {l : List (RouteAssignment K)} (h : d.Holds l)

include h

theorem DispatchResult.Holds.packedCount : d.packedCount = l.length := by
  rw [DispatchResult.packedCount, h.tokenOrder, length_map]

theorem DispatchResult.Holds.packedAt (p : Nat) : d.packedAt p = l[p]? := by
  rw [DispatchResult.packedAt, h.tokenOrder, h.expertOrder, h.weights, h.sourceOrder, h.slotOrder]
  simp only [List.getElem?_map]
  rcases l[p]? with - | item
  · rfl
  · rfl

theorem DispatchResult.Holds.packed : d.packed = l := by
  have hread : ∀ l : List (RouteAssignment K),
      (List.range l.length).filterMap (fun p => l[p]?) = l := by
    intro l
    induction l using List.reverseRecOn with
    | nil => rfl
    | append_singleton l item ih =>
      rw [length_append, length_singleton, range_succ, filterMap_append]
      congr 1
      · refine Eq.trans (filterMap_congr fun p hp => ?_) ih
        exact List.getElem?_append_left (mem_range.mp hp)
      · simp
  rw [DispatchResult.packed, h.packedCount]
  exact (filterMap_congr fun p _ => h.packedAt p).trans (hread l)

end Holds

/-! ### The packed order -/

section Route

variable (route : RouteArtifact K)

def assignedTo (e : Nat) : Nat :=
  (route.assignments.filter fun item => item.expertId = (e : Int)).length

theorem expertItems_perm (e : Nat) :
    (expertItems route e).Perm (route.assignments.filter fun item => item.expertId = (e : Int)) :=
  perm_insertionSort _ _

theorem length_expertItems (e : Nat) : (expertItems route e).length = assignedTo route e :=
  (expertItems_perm route e).length_eq

theorem expertId_of_mem {e : Nat} {item : RouteAssignment K} (h : item ∈ expertItems route e) :
    item.expertId = e :=
  of_decide_eq_true (mem_filter.mp ((expertItems_perm route e).mem_iff.mp h)).2

def packedItems : List (RouteAssignment K) := route.experts.flatMap (expertItems route)

/-- **Every assignment is packed once.** -/
theorem packedItems_perm : (packedItems route).Perm route.assignments := by
  have hexpert : ∀ item ∈ route.assignments, item.expertId.toNat < route.numExperts.toNat := by
    intro item hitem
    have := route.expertId_mem item hitem
    omega
  refine flatMap_perm (expertItems route) hexpert fun e _ => ?_
  refine (expertItems_perm route e).trans (List.Perm.of_eq ?_)
  refine filter_congr fun item hitem => ?_
  have := route.expertId_mem item hitem
  rw [decide_eq_decide]
  omega

/-- **The dispatch.**  It returns for every alignment from 1 on, and holds the packed items. -/
theorem dispatchOracle_holds {alignment : Int} (halign : 1 ≤ alignment) :
    ∃ d, dispatchOracle route alignment = .ok d ∧ d.Holds (packedItems route) ∧
      d.sendCounts = route.experts.map (fun e => ((expertItems route e).length : Int)) ∧
      d.offsets = route.experts.map
        (cursorAt alignment fun e => ((expertItems route e).length : Int)) := by
  have hoffsets := computeOffsets_range halign
    (fun e => ((expertItems route e).length : Int)) (fun e => Int.natCast_nonneg _)
    route.numExperts.toNat
  rw [dispatchOracle, RouteArtifact.experts, hoffsets]
  refine ⟨_, rfl, ⟨?_, ?_, ?_, ?_, ?_⟩, rfl, rfl⟩
  · rw [packedItems, map_flatMap, RouteArtifact.experts]
  · rw [packedItems, map_flatMap]
    refine flatMap_congr fun e _ => ?_
    symm
    rw [map_eq_replicate_iff]
    exact fun item hitem => expertId_of_mem route hitem
  · rw [packedItems, map_flatMap, RouteArtifact.experts]
  · rw [packedItems, map_flatMap, RouteArtifact.experts]
  · rw [packedItems, map_flatMap, RouteArtifact.experts]

/-! ### The slices of the experts -/

/-- What `dispatch_oracle` is for: every assignment is packed once, and the slice of an expert
holds exactly its assignments. -/
structure Packs (d : DispatchResult K) : Prop where
  once : d.packed.Perm route.assignments
  slices : ∀ e < route.numExperts.toNat, ∃ offset count : Int,
    d.offsets[e]? = some offset ∧ d.sendCounts[e]? = some count ∧
    ∀ p : Nat, (∃ item, d.packedAt p = some item ∧ item.expertId = e) ↔
      offset ≤ p ∧ (p : Int) < offset + count

theorem packedAt_expert_iff {d : DispatchResult K} (h : d.Holds (packedItems route)) {e : Nat}
    (he : e < route.numExperts.toNat) (p : Nat) :
    (∃ item, d.packedAt p = some item ∧ item.expertId = e) ↔
      startOf (expertItems route) e ≤ p ∧
        p < startOf (expertItems route) e + (expertItems route e).length := by
  rw [h.packedAt]
  constructor
  · rintro ⟨item, hat, hexpert⟩
    obtain ⟨e', he', hle, hlt, hmem⟩ := mem_block_of_getElem? _ hat
    obtain rfl : e' = e := Int.ofNat.inj ((expertId_of_mem route hmem).symm.trans hexpert)
    exact ⟨hle, hlt⟩
  · rintro ⟨hle, hlt⟩
    obtain ⟨i, rfl⟩ := Nat.exists_eq_add_of_le hle
    have hi : i < (expertItems route e).length := Nat.lt_of_add_lt_add_left hlt
    refine ⟨(expertItems route e)[i], ?_, expertId_of_mem route (getElem_mem hi)⟩
    rw [packedItems, RouteArtifact.experts, getElem?_flatMap _ he hi]
    exact List.getElem?_eq_getElem hi

/-- No expert before one with assignments leaves a gap when its count is rounded up. -/
def GapFree (alignment : Int) : Prop :=
  ∀ e < route.numExperts.toNat, 0 < assignedTo route e →
    ∀ e' < e, alignment ∣ (assignedTo route e' : Int)

/-- **When the offsets point at the packed positions.** -/
theorem packs_iff {alignment : Int} (halign : 1 ≤ alignment) {d : DispatchResult K}
    (h : d.Holds (packedItems route))
    (hcounts : d.sendCounts = route.experts.map fun e => ((expertItems route e).length : Int))
    (hoffsets : d.offsets = route.experts.map
      (cursorAt alignment fun e => ((expertItems route e).length : Int))) :
    Packs route d ↔ GapFree route alignment := by
  have hcount : ∀ e < route.numExperts.toNat,
      d.sendCounts[e]? = some ((expertItems route e).length : Int) := by
    intro e he
    rw [hcounts, List.getElem?_map, RouteArtifact.experts, List.getElem?_range he]
    rfl
  have hoffset : ∀ e < route.numExperts.toNat, d.offsets[e]? =
      some (cursorAt alignment (fun e => ((expertItems route e).length : Int)) e) := by
    intro e he
    rw [hoffsets, List.getElem?_map, RouteArtifact.experts, List.getElem?_range he]
    rfl
  have hgap : ∀ e, (∀ e' < e, alignment ∣ (assignedTo route e' : Int)) ↔
      cursorAt alignment (fun e => ((expertItems route e).length : Int)) e =
        startOf (expertItems route) e := by
    intro e
    rw [cursorAt_eq_start_iff halign]
    simp only [length_expertItems]
  constructor
  · intro hpacks e he hpos
    obtain ⟨offset, count, ho, hc, hslice⟩ := hpacks.slices e he
    cases (hoffset e he).symm.trans ho
    rw [hgap]
    -- the first packed position of the expert is in its slice
    have hfirst := (packedAt_expert_iff route h he (startOf (expertItems route) e)).mpr
      ⟨le_refl _, Nat.lt_add_of_pos_right (by rwa [length_expertItems])⟩
    have hin := (hslice _).mp hfirst
    have hle := start_le_cursorAt halign (expertItems route) e
    omega
  · intro hfree
    refine ⟨?_, fun e he => ⟨_, _, hoffset e he, hcount e he, fun p => ?_⟩⟩
    · rw [h.packed]
      exact packedItems_perm route
    · rw [packedAt_expert_iff route h he]
      rcases Nat.eq_zero_or_pos (assignedTo route e) with hzero | hpos
      · rw [length_expertItems, hzero]
        constructor
        · rintro ⟨hle, hlt⟩
          exact absurd hlt (not_lt.mpr hle)
        · rintro ⟨hle, hlt⟩
          omega
      · rw [(hgap e).mp (hfree e he hpos)]
        constructor
        · rintro ⟨hle, hlt⟩
          omega
        · rintro ⟨hle, hlt⟩
          omega

end Route

/-! ### Combining -/

section Combined

variable [Semiring K] {d : DispatchResult K} {l : List (RouteAssignment K)}
  {outputs : Nat → Option (List K)} {hiddenSize : Int}

variable (d outputs)

/-- What the packed position `p` adds to coordinate `i` of a token. -/
def contribution (token : Int) (i p : Nat) : K :=
  match d.packedAt p, outputs p with
  | some item, some vector => if item.tokenIndex = token then item.weight * vector.getD i 0 else 0
  | _, _ => 0

/-- The weighted sum of the first `n` packed positions, for one token. -/
def sumUpTo (hidden : Nat) (n : Nat) (token : Int) : List K :=
  (List.range hidden).map fun i => ((List.range n).map (contribution d outputs token i)).sum

/-- The vector sum over a token's assignments of weight times output. -/
def tokenSum (hidden : Nat) (token : Int) : List K :=
  sumUpTo d outputs hidden d.packedCount token

def Served (hiddenSize : Int) : Prop :=
  ∀ p < d.packedCount, ∃ vector, outputs p = some vector ∧ (vector.length : Int) = hiddenSize

variable {d outputs}

section

variable (h : d.Holds l) {p : Nat} {item : RouteAssignment K} {vector : List K}
  (hitem : l[p]? = some item) (hvector : outputs p = some vector)
  (hlength : (vector.length : Int) = hiddenSize)

include h hitem hvector hlength

/-- One pass of the loop, at a position that is packed and served. -/
theorem combineAt_eq (s : Combining K) :
    combineAt d outputs hiddenSize s p = match s.accumulated.get? item.tokenIndex with
      | none => .error (.noSuchToken item.tokenIndex)
      | some target => .ok {
          accumulated := s.accumulated.set item.tokenIndex
            (List.zipWith (fun t v => t + item.weight * v) target vector)
          seenPositions := s.seenPositions + 1 } := by
  have htoken : d.tokenOrder[p]? = some item.tokenIndex := by
    rw [h.tokenOrder, List.getElem?_map, hitem]
    rfl
  have hexpert : d.expertOrder[p]? = some item.expertId := by
    rw [h.expertOrder, List.getElem?_map, hitem]
    rfl
  have hweight : d.weights[p]? = some item.weight := by
    rw [h.weights, List.getElem?_map, hitem]
    rfl
  rw [combineAt, htoken, hexpert]
  rw [hvector]
  rw [hweight]
  exact if_neg (not_not_intro hlength)

/-- Adding one position to the sum of its token, and to no other. -/
theorem sumUpTo_succ (token : Int) : sumUpTo d outputs hiddenSize.toNat (p + 1) token =
      if item.tokenIndex = token then
        List.zipWith (fun t v => t + item.weight * v) (sumUpTo d outputs hiddenSize.toNat p token)
          vector
      else sumUpTo d outputs hiddenSize.toNat p token := by
  have hadds : ∀ i, contribution d outputs token i p =
      if item.tokenIndex = token then item.weight * vector.getD i 0 else 0 := by
    intro i
    rw [contribution, h.packedAt, hitem, hvector]
  have hhidden : hiddenSize.toNat = vector.length := by omega
  simp only [sumUpTo, range_succ, map_append, sum_append, map_singleton,
    sum_singleton, hadds]
  split_ifs with htoken
  · rw [hhidden]
    refine ext_getElem (by simp) fun i hi _ => ?_
    rw [length_map, length_range] at hi
    simp [hi]
  · simp only [add_zero]

end

/-- **The combine loop.**  While every token it meets has a place, the loop adds up the positions
it has passed. -/
theorem foldlM_combineAt (h : d.Holds l) (hserved : Served d outputs hiddenSize) {count : Int}
    {n : Nat} (hn : n ≤ d.packedCount)
    (hplace : ∀ p < n, ∀ item, l[p]? = some item → 0 ≤ item.tokenIndex ∧ item.tokenIndex < count)
    (s : Combining K) (hseen : s.seenPositions = 0)
    (hstart : ∀ token, s.accumulated.get? token =
      if 0 ≤ token ∧ token < count then some (List.replicate hiddenSize.toNat 0) else none) :
    ∃ s', (List.range n).foldlM (combineAt d outputs hiddenSize) s = .ok s' ∧
      s'.seenPositions = n ∧ ∀ token, s'.accumulated.get? token =
        if 0 ≤ token ∧ token < count then some (sumUpTo d outputs hiddenSize.toNat n token)
        else none := by
  induction n with
  | zero =>
    refine ⟨s, rfl, hseen, fun token => ?_⟩
    rw [hstart token, sumUpTo]
    split_ifs
    · congr 1
      symm
      rw [eq_replicate_iff, length_map, length_range]
      refine ⟨rfl, fun x hx => ?_⟩
      obtain ⟨i, -, rfl⟩ := mem_map.mp hx
      rfl
    · rfl
  | succ n ih =>
    obtain ⟨s', hrun, hseen', hget⟩ := ih (Nat.le_of_succ_le hn)
      fun p hp => hplace p (Nat.lt_succ_of_lt hp)
    obtain ⟨vector, hvector, hlength⟩ := hserved n hn
    have hin : n < l.length := by
      rw [← h.packedCount]
      exact hn
    have hitem : l[n]? = some l[n] := List.getElem?_eq_getElem hin
    have htoken := hplace n (Nat.lt_succ_self n) _ hitem
    rw [range_succ, foldlM_append, hrun]
    show ∃ s'', (combineAt d outputs hiddenSize s' n >>= pure) = .ok s'' ∧ _
    rw [combineAt_eq h hitem hvector hlength, hget, if_pos htoken]
    refine ⟨_, rfl, congrArg (· + 1) hseen', fun token => ?_⟩
    rw [OrderedDict.get?_set, hget, sumUpTo_succ h hitem hvector hlength]
    by_cases heq : token = l[n].tokenIndex
    · subst heq
      rw [if_pos rfl, if_pos htoken, if_pos rfl]
    · rw [if_neg heq, if_neg (Ne.symm heq)]

/-- A loop that returns has found a place for every token it met. -/
theorem places_of_foldlM (h : d.Holds l) (hserved : Served d outputs hiddenSize) {n : Nat}
    (hn : n ≤ d.packedCount) {s s' : Combining K}
    (hrun : (List.range n).foldlM (combineAt d outputs hiddenSize) s = .ok s') :
    (∀ token, (s'.accumulated.get? token).isSome = (s.accumulated.get? token).isSome) ∧
      ∀ p < n, ∀ item, l[p]? = some item → (s.accumulated.get? item.tokenIndex).isSome := by
  induction n generalizing s' with
  | zero =>
    obtain rfl : s = s' := Except.ok.inj hrun
    exact ⟨fun _ => rfl, fun p hp => absurd hp (Nat.not_lt_zero p)⟩
  | succ n ih =>
    rw [range_succ, foldlM_append] at hrun
    rcases hbefore : (List.range n).foldlM (combineAt d outputs hiddenSize) s with e | t
    · rw [hbefore] at hrun
      cases hrun
    · obtain ⟨hkeys, hpassed⟩ := ih (Nat.le_of_succ_le hn) hbefore
      rw [hbefore] at hrun
      have hstep : (combineAt d outputs hiddenSize t n >>= pure) = .ok s' := hrun
      obtain ⟨vector, hvector, hlength⟩ := hserved n hn
      have hin : n < l.length := by
        rw [← h.packedCount]
        exact hn
      have hitem : l[n]? = some l[n] := List.getElem?_eq_getElem hin
      rw [combineAt_eq h hitem hvector hlength] at hstep
      rcases htarget : t.accumulated.get? l[n].tokenIndex with - | target
      · rw [htarget] at hstep
        cases hstep
      · rw [htarget] at hstep
        cases hstep
        have hhere : (s.accumulated.get? l[n].tokenIndex).isSome := by
          rw [← hkeys, htarget]
          rfl
        constructor
        · intro token
          rw [OrderedDict.get?_set]
          split_ifs with heq
          · rw [heq, hhere]
            rfl
          · exact hkeys token
        · intro p hp item hat
          rcases lt_or_ge p n with hlt | hge
          · exact hpassed p hlt item hat
          · obtain rfl : p = n := le_antisymm (Nat.le_of_lt_succ hp) hge
            cases hitem.symm.trans hat
            exact hhere

/-! ### The tokens that are returned -/

theorem get?_zeroTokens (count : Int) (hidden : Nat) (token : Int) :
    (zeroTokens (K := K) count hidden).get? token =
      if 0 ≤ token ∧ token < count then some (List.replicate hidden 0) else none := by
  have hrun : ∀ n : Nat, ((List.range n).foldl
      (fun d (index : Nat) => d.set (index : Int) (List.replicate hidden (0 : K)))
        OrderedDict.empty).get? token =
      if 0 ≤ token ∧ token < n then some (List.replicate hidden 0) else none := by
    intro n
    induction n with
    | zero =>
      rw [if_neg (by omega)]
      rfl
    | succ n ih =>
      rw [range_succ, foldl_append, foldl_cons, foldl_nil,
        OrderedDict.get?_set, ih]
      split_ifs <;> first | rfl | omega
  rw [zeroTokens, hrun]
  by_cases hcount : 0 ≤ count
  · rw [Int.toNat_of_nonneg hcount]
  · rw [if_neg (by omega), if_neg (by omega)]

theorem lt_tokenTotal {tokens : List Int} {token : Int} (h : token ∈ tokens) :
    token < tokenTotal tokens := by
  rw [tokenTotal]
  rcases hmax : tokens.max? with - | last
  · cases List.max?_eq_none_iff.mp hmax ▸ h
  · exact Int.lt_add_one_of_le ((List.max?_eq_some_iff.mp hmax).2 token h)

theorem le_tokenTotal_iff {tokens : List Int} (hnonneg : ∀ token ∈ tokens, 0 ≤ token) (n : Int) :
    n ≤ tokenTotal tokens ↔ n ≤ 0 ∨ ∃ token ∈ tokens, n - 1 ≤ token := by
  rw [tokenTotal]
  rcases hmax : tokens.max? with - | last
  · obtain rfl := List.max?_eq_none_iff.mp hmax
    constructor
    · exact .inl
    · rintro (h | ⟨token, htoken, -⟩)
      · exact h
      · cases htoken
  · obtain ⟨hlast, hle⟩ := List.max?_eq_some_iff.mp hmax
    have hpos := hnonneg last hlast
    show n ≤ last + 1 ↔ _
    constructor
    · intro h
      exact .inr ⟨last, hlast, by omega⟩
    · rintro (h | ⟨token, htoken, h⟩)
      · exact h.trans (Int.le_add_one hpos)
      · have hmax := hle token htoken
        omega

/-- **The combine.**  When no index is negative it returns, for every token up to the largest
index, the weighted sum over the assignments of the token. -/
theorem combineOracle_holds (h : d.Holds l) (hidden : 0 < hiddenSize)
    (hserved : Served d outputs hiddenSize) (hnonneg : ∀ item ∈ l, 0 ≤ item.tokenIndex) :
    ∃ r, combineOracle d outputs hiddenSize = .ok r ∧ r.positions = d.packedCount ∧
      ∀ token, r.tokens.get? token = if 0 ≤ token ∧ token < tokenTotal d.tokenOrder then
        some (tokenSum d outputs hiddenSize.toNat token) else none := by
  have hplace : ∀ p < d.packedCount, ∀ item, l[p]? = some item →
      0 ≤ item.tokenIndex ∧ item.tokenIndex < tokenTotal d.tokenOrder := by
    intro p _ item hat
    have hmem := mem_of_getElem? hat
    refine ⟨hnonneg item hmem, lt_tokenTotal ?_⟩
    rw [h.tokenOrder]
    exact mem_map_of_mem hmem
  obtain ⟨s, hrun, hseen, hget⟩ := foldlM_combineAt h hserved (le_refl _) hplace
    { accumulated := zeroTokens (tokenTotal d.tokenOrder) hiddenSize.toNat } rfl
    (get?_zeroTokens _ _)
  refine ⟨⟨s.accumulated, s.seenPositions, decide (s.seenPositions = d.packedCount)⟩, ?_, hseen,
    hget⟩
  rw [combineOracle, if_neg (not_le.mpr hidden)]
  dsimp only
  rw [hrun]
  rfl

/-- A combine that returns has met no negative index. -/
theorem nonneg_of_combineOracle (h : d.Holds l) (hserved : Served d outputs hiddenSize)
    {r : CombineResult K} (hok : combineOracle d outputs hiddenSize = .ok r) :
    ∀ item ∈ l, 0 ≤ item.tokenIndex := by
  intro item hitem
  rw [combineOracle] at hok
  split_ifs at hok
  dsimp only at hok
  rcases hrun : (List.range d.packedCount).foldlM (combineAt d outputs hiddenSize)
      { accumulated := zeroTokens (tokenTotal d.tokenOrder) hiddenSize.toNat } with e | s
  · rw [hrun] at hok
    cases hok
  · obtain ⟨p, hp, rfl⟩ := getElem_of_mem hitem
    have hplace := (places_of_foldlM h hserved (le_refl _) hrun).2 p (h.packedCount ▸ hp) _
      (List.getElem?_eq_getElem hp)
    rw [get?_zeroTokens] at hplace
    split_ifs at hplace with hin
    · exact hin.1
    · cases hplace

/-! ### What combining is for -/

/-- What `combine_oracle` is for: every token of the route comes back as the weighted sum over its
assignments. -/
def Restores (tokenCount : Int) (d : DispatchResult K) : Prop :=
  ∀ (hiddenSize : Int) (outputs : Nat → Option (List K)), 0 < hiddenSize →
    Served d outputs hiddenSize → ∃ r, combineOracle d outputs hiddenSize = .ok r ∧
      ∀ token, 0 ≤ token → token < tokenCount →
        r.tokens.get? token = some (tokenSum d outputs hiddenSize.toNat token)

/-- **When every token comes back.** -/
theorem restores_iff (h : d.Holds l) (tokenCount : Int) :
    Restores tokenCount d ↔ (∀ item ∈ l, 0 ≤ item.tokenIndex) ∧
      (tokenCount ≤ 0 ∨ ∃ item ∈ l, tokenCount - 1 ≤ item.tokenIndex) := by
  have htokens : (∃ item ∈ l, tokenCount - 1 ≤ item.tokenIndex) ↔
      ∃ token ∈ d.tokenOrder, tokenCount - 1 ≤ token := by
    rw [h.tokenOrder]
    constructor
    · rintro ⟨item, hitem, hle⟩
      exact ⟨_, mem_map_of_mem hitem, hle⟩
    · rintro ⟨token, htoken, hle⟩
      obtain ⟨item, hitem, rfl⟩ := mem_map.mp htoken
      exact ⟨item, hitem, hle⟩
  have hall : (∀ item ∈ l, 0 ≤ item.tokenIndex) → ∀ token ∈ d.tokenOrder, 0 ≤ token := by
    intro hnonneg token htoken
    rw [h.tokenOrder] at htoken
    obtain ⟨item, hitem, rfl⟩ := mem_map.mp htoken
    exact hnonneg item hitem
  rw [htokens]
  constructor
  · intro hrestores
    have hserved : Served d (fun _ => some [(0 : K)]) 1 := fun p _ => ⟨[0], rfl, rfl⟩
    obtain ⟨r, hok, hget⟩ := hrestores 1 _ Int.one_pos hserved
    have hnonneg := nonneg_of_combineOracle h hserved hok
    refine ⟨hnonneg, (le_tokenTotal_iff (hall hnonneg) tokenCount).mp ?_⟩
    -- the last token of the route is among the returned ones
    obtain ⟨r', hok', -, hget'⟩ := combineOracle_holds h Int.one_pos hserved hnonneg
    cases hok.symm.trans hok'
    rcases lt_or_ge 0 tokenCount with hpos | hle
    · have hlast := hget (tokenCount - 1) (Int.le_sub_one_of_lt hpos) (by omega)
      rw [hget'] at hlast
      split_ifs at hlast with hin
      omega
    · exact hle.trans ((le_tokenTotal_iff (hall hnonneg) 0).mpr (.inl (le_refl 0)))
  · rintro ⟨hnonneg, hlast⟩ hiddenSize outputs hidden hserved
    obtain ⟨r, hok, -, hget⟩ := combineOracle_holds h hidden hserved hnonneg
    refine ⟨r, hok, fun token hle hlt => ?_⟩
    rw [hget, if_pos ⟨hle, hlt.trans_le ((le_tokenTotal_iff (hall hnonneg) _).mpr hlast)⟩]

end Combined

/-! ### Dispatch and combine -/

section Both

variable [Semiring K]

/-- Every index is a token, and the tokens end with one that has an assignment. -/
def TokensMet (route : RouteArtifact K) : Prop :=
  (∀ item ∈ route.assignments, 0 ≤ item.tokenIndex) ∧
    (route.tokenCount ≤ 0 ∨ ∃ item ∈ route.assignments, route.tokenCount - 1 ≤ item.tokenIndex)

/-- **Dispatch and combine.**  The offsets point at the packed positions and every token comes
back exactly for the routes whose counts leave no gap and whose last token has an assignment. -/
theorem dispatch_combine_iff (route : RouteArtifact K) (alignment : Int) (h : 1 ≤ alignment) :
    (∃ d, dispatchOracle route alignment = .ok d ∧ Packs route d ∧ Restores route.tokenCount d) ↔
      GapFree route alignment ∧ TokensMet route := by
  obtain ⟨d, hok, hholds, hcounts, hoffsets⟩ := dispatchOracle_holds route h
  have hmem : ∀ item, item ∈ packedItems route ↔ item ∈ route.assignments :=
    fun item => (packedItems_perm route).mem_iff
  have hboth : Packs route d ∧ Restores route.tokenCount d ↔
      GapFree route alignment ∧ TokensMet route := by
    rw [packs_iff route h hholds hcounts hoffsets, restores_iff hholds, TokensMet]
    simp only [hmem]
  constructor
  · rintro ⟨d', hok', hdone⟩
    cases hok.symm.trans hok'
    exact hboth.mp hdone
  · intro hcond
    exact ⟨d, hok, hboth.mpr hcond⟩

/-- Two tokens, and both assignments are the first one's. -/
def lastTokenBare : RouteArtifact ℚ where
  tokenCount := 2
  topK := 1
  numExperts := 1
  assignments := [⟨0, 0, 0, 0, 1⟩, ⟨0, 0, 0, 1, 1⟩]
  assignments_length := rfl
  expertId_mem := by decide

def oneEach : RouteArtifact ℚ where
  tokenCount := 2
  topK := 1
  numExperts := 2
  assignments := [⟨0, 0, 0, 0, 1⟩, ⟨1, 0, 1, 0, 1⟩]
  assignments_length := rfl
  expertId_mem := by decide

theorem oneEach_dispatch_combine : ∃ d, dispatchOracle oneEach 1 = .ok d ∧ Packs oneEach d ∧
    Restores oneEach.tokenCount d :=
  (dispatch_combine_iff oneEach 1 (le_refl 1)).mpr
    ⟨fun _ _ _ e' _ => one_dvd _, by decide, .inr ⟨⟨1, 0, 1, 0, 1⟩, by decide, by decide⟩⟩

/-- A last token without assignments does not come back, and rounding the offsets of `oneEach` to
even numbers leaves the second expert a slice that is not packed. -/
theorem bare_token_lost :
    (¬ ∃ d, dispatchOracle lastTokenBare 1 = .ok d ∧ Restores lastTokenBare.tokenCount d) ∧
      ¬ ∃ d, dispatchOracle oneEach 2 = .ok d ∧ Packs oneEach d := by
  constructor
  · rintro ⟨d, hok, hrestores⟩
    obtain ⟨d', hok', hholds, -, -⟩ := dispatchOracle_holds lastTokenBare (le_refl 1)
    cases hok.symm.trans hok'
    rcases ((restores_iff hholds _).mp hrestores).2 with hle | ⟨item, hitem, hle⟩
    · cases hle
    · revert item
      decide
  · rintro ⟨d, hok, hpacks⟩
    obtain ⟨d', hok', hholds, hcounts, hoffsets⟩ := dispatchOracle_holds oneEach one_le_two
    cases hok.symm.trans hok'
    have hfree := (packs_iff oneEach one_le_two hholds hcounts hoffsets).mp hpacks
    exact absurd (hfree 1 (by decide) (by decide) 0 zero_lt_one) (by decide)

end Both

end Hqsb.Distributed
