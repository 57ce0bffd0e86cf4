/-
Hqsb/Lib/Yielding.lean

Generators that can raise.

A generator yields values one after the other, and ends with a result or with an error.  What it
has yielded before an error stays yielded.

`Mirrors` compares a generator with one that works on another state: as long as the first goes
well the second does the same, and what the first has yielded when it raises is the beginning of
what the second yields.  Between strict states the second raises too.  `EndsBelow` bounds the work
of loops: a generator that starts below a size does not run out of fuel, and leaves a state that
is smaller.  Both go through a program step by step (`Mirrors.bind`, `EndsBelow.bind`).
-/
import Mathlib

namespace Lib

/-- From a state: the values that are yielded, and the result with the next state or an error. -/
def Gen (ε ν σ α : Type) : Type := σ → List ν × Except ε (α × σ)

namespace Gen

variable {ε ν σ τ α β : Type}

instance : Monad (Gen ε ν σ) where
  pure a := fun s => ([], .ok (a, s))
  bind m f := fun s =>
    match (m s).2 with
    | .error e => ((m s).1, .error e)
    | .ok (a, s') => ((m s).1 ++ (f a s').1, (f a s').2)

/-- One value goes to the caller. -/
def yield (v : ν) : Gen ε ν σ Unit := fun s => ([v], .ok ((), s))

def raise (e : ε) : Gen ε ν σ α := fun _ => ([], .error e)

/-- A step that yields nothing. -/
def lift (f : σ → Except ε (α × σ)) : Gen ε ν σ α := fun s => ([], f s)

variable (a : α) {e : ε} {m : Gen ε ν σ α} {s s' : σ} {g : σ → Except ε (α × σ)}
  {f : α → Gen ε ν σ β} {m' : Gen ε ν τ α}

theorem pure_apply (s : σ) : (pure a : Gen ε ν σ α) s = ([], .ok (a, s)) := rfl

theorem bind_error (h : (m s).2 = .error e) (f : α → Gen ε ν σ β) :
    (m >>= f) s = ((m s).1, .error e) := by
  simp only [Bind.bind, h]

theorem bind_ok {a : α} (h : (m s).2 = .ok (a, s')) (f : α → Gen ε ν σ β) :
    (m >>= f) s = ((m s).1 ++ (f a s').1, (f a s').2) := by
  simp only [Bind.bind, h]

theorem lift_bind {a : α} (h : g s = .ok (a, s')) (f : α → Gen ε ν σ β) :
    (lift g >>= f) s = f a s' := by
  rw [bind_ok (m := lift g) h]
  rfl

/-- A program that went well went well in its first part, and then in its second. -/
theorem exists_of_bind_ok {s'' : σ} {b : β} (h : ((m >>= f) s).2 = .ok (b, s'')) :
    ∃ a s', (m s).2 = .ok (a, s') ∧ (f a s').2 = .ok (b, s'') := by
  rcases hm : (m s).2 with e | ⟨a, s'⟩
  · rw [bind_error hm] at h
    cases h
  · rw [bind_ok hm] at h
    exact ⟨a, s', rfl, h⟩

/-! ### One generator follows another -/

/-- The first generator does what the second does, as long as it goes well. -/
def Mirrors (strict : Prop) (R : σ → τ → Prop) (m : Gen ε ν σ α) (m' : Gen ε ν τ α) : Prop :=
  ∀ ⦃s t⦄, R s t →
    (∃ a s' t', (m s).2 = .ok (a, s') ∧ (m' t).2 = .ok (a, t') ∧ (m s).1 = (m' t).1 ∧ R s' t') ∨
    ∃ e, (m s).2 = .error e ∧ (m s).1 <+: (m' t).1 ∧
      (strict → (m s).1 = (m' t).1 ∧ ∃ e', (m' t).2 = .error e')

variable {strict : Prop} {R : σ → τ → Prop}

theorem Mirrors.pure : Mirrors strict R (Pure.pure a : Gen ε ν σ α) (Pure.pure a) :=
  fun _ _ h => .inl ⟨a, _, _, rfl, rfl, rfl, h⟩

theorem Mirrors.yield (v : ν) : Mirrors strict R (Gen.yield v : Gen ε ν σ Unit) (Gen.yield v) :=
  fun _ _ h => .inl ⟨(), _, _, rfl, rfl, rfl, h⟩

theorem Mirrors.raise (e : ε) : Mirrors strict R (Gen.raise e : Gen ε ν σ α) (Gen.raise e) :=
  fun _ _ _ => .inr ⟨e, rfl, List.prefix_refl _, fun _ => ⟨rfl, e, rfl⟩⟩

theorem Mirrors.lift {g' : τ → Except ε (α × τ)} (h : ∀ ⦃s t⦄, R s t →
      (∃ a s' t', g s = .ok (a, s') ∧ g' t = .ok (a, t') ∧ R s' t') ∨
      ∃ e, g s = .error e ∧ (strict → ∃ e', g' t = .error e')) :
    Mirrors strict R (Gen.lift g : Gen ε ν σ α) (Gen.lift g') := by
  intro s t hR
  rcases h hR with ⟨a, s', t', hs, ht, hR'⟩ | ⟨e, hs, hstrict⟩
  · exact .inl ⟨a, s', t', hs, ht, rfl, hR'⟩
  · exact .inr ⟨e, hs, List.prefix_refl _, fun hstr => ⟨rfl, hstrict hstr⟩⟩

theorem Mirrors.exists_of_ok (h : Mirrors strict R m m') {t : τ} (hR : R s t) {a : α}
    (hs : (m s).2 = .ok (a, s')) : ∃ t', R s' t' := by
  rcases h hR with ⟨a', s₁, t', hs', -, -, hR'⟩ | ⟨e, hs', -⟩
  · obtain ⟨-, rfl⟩ := Prod.mk.inj (Except.ok.inj (hs'.symm.trans hs))
    exact ⟨t', hR'⟩
  · exact nomatch hs'.symm.trans hs

theorem Mirrors.bind {f' : α → Gen ε ν τ β} (h : Mirrors strict R m m')
    (hf : ∀ a, Mirrors strict R (f a) (f' a)) :
    Mirrors strict R (m >>= f) (m' >>= f') := by
  intro s t hR
  rcases h hR with ⟨a, s', t', hs, ht, hyield, hR'⟩ | ⟨e, hs, hyield, hstrict⟩
  · rw [bind_ok hs, bind_ok ht, hyield]
    rcases hf a hR' with ⟨b, s'', t'', hs', ht', hyield', hR''⟩ | ⟨e, hs', hyield', hstrict'⟩
    · exact .inl ⟨b, s'', t'', hs', ht', congrArg _ hyield', hR''⟩
    · refine .inr ⟨e, hs', (List.prefix_append_right_inj _).mpr hyield', fun hstr => ?_⟩
      exact ⟨congrArg _ (hstrict' hstr).1, (hstrict' hstr).2⟩
  · rw [bind_error hs]
    right
    refine ⟨e, rfl, ?_, fun hstr => ?_⟩
    · -- the second one may go on
      rcases ht : (m' t).2 with e' | ⟨a, t'⟩
      · rw [bind_error ht]
        exact hyield
      · rw [bind_ok ht]
        exact hyield.trans (List.prefix_append _ _)
    · obtain ⟨hsame, e', ht⟩ := hstrict hstr
      rw [bind_error ht]
      exact ⟨hsame, e', rfl⟩

theorem Mirrors.ite {p : Prop} [Decidable p] {n : Gen ε ν σ α} {n' : Gen ε ν τ α}
    (h : Mirrors strict R m m') (h' : Mirrors strict R n n') :
    Mirrors strict R (if p then m else n) (if p then m' else n') := by
  split_ifs
  · exact h
  · exact h'

/-! ### Loops end -/

/-- From states below `n` the generator does not end with `bad`, and it takes `k` from the size.
The states are those of an invariant. -/
def EndsBelow (inv : σ → Prop) (bad : ε) (size : σ → Nat) (n k : Nat) (m : Gen ε ν σ α) : Prop :=
  ∀ ⦃s⦄, inv s → size s < n → (m s).2 ≠ .error bad ∧
    ∀ ⦃a s'⦄, (m s).2 = .ok (a, s') → inv s' ∧ size s' + k ≤ size s

variable {inv : σ → Prop} {bad : ε} {size : σ → Nat} {n k l : Nat}

theorem EndsBelow.pure : EndsBelow inv bad size n 0 (Pure.pure a : Gen ε ν σ α) := by
  refine fun s hs _ => ⟨nofun, fun a' s' h => ?_⟩
  cases h
  exact ⟨hs, le_refl _⟩

theorem EndsBelow.yield (v : ν) : EndsBelow inv bad size n 0 (Gen.yield v : Gen ε ν σ Unit) := by
  refine fun s hs _ => ⟨nofun, fun a' s' h => ?_⟩
  cases h
  exact ⟨hs, le_refl _⟩

theorem EndsBelow.raise (h : e ≠ bad) : EndsBelow inv bad size n k (Gen.raise e : Gen ε ν σ α) :=
  fun _ _ _ => ⟨fun he => h (Except.error.inj he), nofun⟩

theorem EndsBelow.lift {f : σ → Except ε (α × σ)}
    (h : ∀ s, inv s → size s < n → (∃ a s', f s = .ok (a, s') ∧ inv s' ∧ size s' + k ≤ size s) ∨
      ∃ e, f s = .error e ∧ e ≠ bad) : EndsBelow inv bad size n k (.lift f : Gen ε ν σ α) := by
  intro s hinv hs
  show f s ≠ _ ∧ ∀ ⦃a s'⦄, f s = _ → _
  rcases h s hinv hs with ⟨a, s', hs', hend⟩ | ⟨e, he, hne⟩
  · rw [hs']
    exact ⟨nofun, by rintro _ _ ⟨⟩; exact hend⟩
  · rw [he]
    exact ⟨fun hbad => hne (Except.error.inj hbad), nofun⟩

theorem EndsBelow.bind (h : EndsBelow inv bad size n k m)
    (hf : ∀ a, EndsBelow inv bad size (n - k) l (f a)) :
    EndsBelow inv bad size n (k + l) (m >>= f) := by
  intro s hinv hs
  obtain ⟨hbad, hless⟩ := h hinv hs
  rcases hm : (m s).2 with e | ⟨a, s'⟩
  · rw [bind_error hm]
    refine ⟨fun he => hbad ?_, nofun⟩
    rw [hm, Except.error.inj he]
  · rw [bind_ok hm]
    obtain ⟨hinv', hsize⟩ := hless hm
    obtain ⟨hbad', hless'⟩ := hf a hinv' (show size s' < n - k by omega)
    refine ⟨hbad', fun b s'' hb => ?_⟩
    obtain ⟨hinv'', hsize'⟩ := hless' hb
    exact ⟨hinv'', by omega⟩

theorem EndsBelow.mono (h : EndsBelow inv bad size n k m) {n' k' : Nat} (hn : n' ≤ n)
    (hk : k' ≤ k) : EndsBelow inv bad size n' k' m := by
  intro s hinv hs
  obtain ⟨hbad, hless⟩ := h hinv (lt_of_lt_of_le hs hn)
  refine ⟨hbad, fun a s' ha => ?_⟩
  obtain ⟨hinv', hsize⟩ := hless ha
  exact ⟨hinv', by omega⟩

theorem EndsBelow.ite {p : Prop} [Decidable p] {m' : Gen ε ν σ α}
    (h : EndsBelow inv bad size n k m) (h' : EndsBelow inv bad size n k m') :
    EndsBelow inv bad size n k (if p then m else m') := by
  split_ifs
  · exact h
  · exact h'

end Gen

end Lib
