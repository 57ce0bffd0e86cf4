/-
Hqsb/Lib/Traverse.lean

Loops over a list that stop at the first error: `List.mapM` in `Except`.
-/
import Mathlib

namespace Lib

open List

universe u

variable {ε α β : Type*} {f : α → Except ε β} {l : List α}

section

variable {β γ : Type u} {x : Except ε β}

theorem bind_ok_iff {g : β → Except ε γ} {r : γ} :
    (x >>= g) = .ok r ↔ ∃ b, x = .ok b ∧ g b = .ok r := by
  rcases x with e | b
  · exact ⟨fun h => (nomatch h), fun ⟨_, h, _⟩ => (nomatch h)⟩
  · exact ⟨fun h => ⟨b, rfl, h⟩, fun ⟨_, hb, h⟩ => Except.ok.inj hb ▸ h⟩

theorem bind_of_ok {b : β} (h : x = .ok b) (g : β → Except ε γ) : (x >>= g) = g b := by
  rw [h]
  rfl

theorem bind_of_error {e : ε} (h : x = .error e) (g : β → Except ε γ) : (x >>= g) = .error e := by
  rw [h]
  rfl

theorem exists_of_map_eq_ok {g : β → γ} {r : γ}
    (h : x.map g = .ok r) : ∃ b, x = .ok b ∧ g b = r := by
  rcases x with e | b
  · cases h
  · exact ⟨b, rfl, Except.ok.inj h⟩

end

/-- A guard that refuses. -/
def raiseIf (p : Prop) [Decidable p] (e : ε) : Except ε Unit := if p then .error e else .ok ()

theorem raiseIf_eq_ok_iff {p : Prop} [Decidable p] {e : ε} {u : Unit} :
    raiseIf p e = .ok u ↔ ¬ p := by
  rw [raiseIf]
  split_ifs with h
  · exact ⟨fun h => (nomatch h), fun hnot => absurd h hnot⟩
  · exact ⟨fun _ => h, fun _ => rfl⟩

theorem mapM_eq_ok_iff {r : List β} :
    l.mapM f = .ok r ↔ List.Forall₂ (fun a b => f a = .ok b) l r := by
  induction l generalizing r with
  | nil =>
    rw [forall₂_nil_left_iff]
    exact ⟨fun h => (Except.ok.inj h).symm, fun h => congrArg Except.ok h.symm⟩
  | cons a l ih =>
    rw [mapM_cons]
    rcases ha : f a with e | b
    · constructor
      · rintro ⟨⟩
      · rintro (_ | ⟨h, -⟩)
        rw [ha] at h
        cases h
    · rcases hl : l.mapM f with e | bs
      · constructor
        · rintro ⟨⟩
        · rintro (_ | ⟨-, h⟩)
          rw [ih.mpr h] at hl
          cases hl
      · constructor
        · intro h
          obtain rfl : b :: bs = r := Except.ok.inj h
          exact .cons ha (ih.mp hl)
        · rintro (_ | ⟨h, h'⟩)
          cases ha.symm.trans h
          cases hl.symm.trans (ih.mpr h')
          rfl

theorem exists_of_mem_mapM {r : List β} {b : β} (h : l.mapM f = .ok r) (hb : b ∈ r) :
    ∃ a ∈ l, f a = .ok b := by
  induction mapM_eq_ok_iff.mp h with
  | nil => cases hb
  | cons ha hl ih =>
    rcases mem_cons.mp hb with rfl | hb
    · exact ⟨_, .head _, ha⟩
    · obtain ⟨a, hmem, ha⟩ := ih (mapM_eq_ok_iff.mpr hl) hb
      exact ⟨a, .tail _ hmem, ha⟩

theorem exists_of_mapM_ok {r : List β} (h : l.mapM f = .ok r) {a : α} (ha : a ∈ l) :
    ∃ b, f a = .ok b := by
  induction mapM_eq_ok_iff.mp h with
  | nil => cases ha
  | cons hb hl ih =>
    rcases mem_cons.mp ha with rfl | ha
    · exact ⟨_, hb⟩
    · exact ih (mapM_eq_ok_iff.mpr hl) ha

/-- A loop that collects nothing. -/
theorem mapM_flatten_eq_nil_iff {f : α → Except ε (List β)} :
    (∃ r, l.mapM f = .ok r ∧ r.flatten = []) ↔ ∀ a ∈ l, f a = .ok [] := by
  constructor
  · rintro ⟨r, hr, hflat⟩ a ha
    induction mapM_eq_ok_iff.mp hr with
    | nil => cases ha
    | cons hb hl ih =>
      obtain ⟨hhead, htail⟩ := append_eq_nil_iff.mp hflat
      rcases mem_cons.mp ha with rfl | ha
      · rw [hb, hhead]
      · exact ih (mapM_eq_ok_iff.mpr hl) htail ha
  · intro h
    induction l with
    | nil => exact ⟨[], rfl, rfl⟩
    | cons a l ih =>
      obtain ⟨r, hr, hflat⟩ := ih fun a ha => h a (.tail _ ha)
      exact ⟨[] :: r, mapM_eq_ok_iff.mpr (.cons (h a mem_cons_self) (mapM_eq_ok_iff.mp hr)),
        hflat⟩

theorem exists_mapM_eq_ok (h : ∀ a ∈ l, ∃ b, f a = .ok b) : ∃ r, l.mapM f = .ok r := by
  induction l with
  | nil => exact ⟨[], rfl⟩
  | cons a l ih =>
    obtain ⟨b, hb⟩ := h a mem_cons_self
    obtain ⟨r, hr⟩ := ih fun a ha => h a (.tail _ ha)
    exact ⟨b :: r, mapM_eq_ok_iff.mpr (.cons hb (mapM_eq_ok_iff.mp hr))⟩

theorem exists_error_of_not_ok {r : Except ε β} (h : ∀ b, r ≠ .ok b) : ∃ e, r = .error e := by
  rcases r with e | b
  · exact ⟨e, rfl⟩
  · exact absurd rfl (h b)

theorem exists_of_mapM_eq_error {e : ε} (h : l.mapM f = .error e) : ∃ a ∈ l, f a = .error e := by
  induction l with
  | nil =>
    cases h
  | cons a l ih =>
    rw [mapM_cons] at h
    rcases ha : f a with e' | b
    · rw [ha] at h
      obtain rfl : e' = e := Except.error.inj h
      exact ⟨a, .head _, ha⟩
    · rcases hl : l.mapM f with e' | bs
      · rw [ha, hl] at h
        obtain rfl : e' = e := Except.error.inj h
        obtain ⟨a', hmem, he⟩ := ih hl
        exact ⟨a', .tail _ hmem, he⟩
      · rw [ha, hl] at h
        cases h

variable {σ : Type*} {step : σ → α → Except ε σ}

theorem foldlM_eq_ok {pass : σ → α → σ}
    (h : ∀ a ∈ l, ∀ s, step s a = .ok (pass s a)) (s : σ) :
    l.foldlM step s = .ok (l.foldl pass s) := by
  induction l generalizing s with
  | nil => rfl
  | cons a l ih =>
    rw [foldlM_cons, h a mem_cons_self]
    exact ih (fun b hb => h b (.tail _ hb)) (pass s a)

theorem exists_of_foldlM_eq_error {s : σ} {e : ε}
    (h : l.foldlM step s = .error e) : ∃ a ∈ l, ∃ s, step s a = .error e := by
  induction l generalizing s with
  | nil => cases h
  | cons a l ih =>
    rw [foldlM_cons] at h
    rcases hstep : step s a with e' | s'
    · rw [hstep] at h
      obtain rfl : e' = e := Except.error.inj h
      exact ⟨a, .head _, s, hstep⟩
    · rw [hstep] at h
      obtain ⟨b, hb, hpass⟩ := ih h
      exact ⟨b, .tail _ hb, hpass⟩

/-- A loop that goes through has gone through every pass. -/
theorem exists_of_foldlM_eq_ok {s r : σ}
    (h : l.foldlM step s = .ok r) : ∀ a ∈ l, ∃ s s', step s a = .ok s' := by
  induction l generalizing s with
  | nil => exact fun _ h => nomatch h
  | cons a l ih =>
    rw [foldlM_cons] at h
    rcases hstep : step s a with e | s'
    · rw [hstep] at h
      cases h
    · rw [hstep] at h
      intro b hb
      rcases mem_cons.mp hb with rfl | hb
      · exact ⟨s, s', hstep⟩
      · exact ih h b hb

/-- **The invariant of a loop**, which may depend on how many passes are done. -/
theorem foldlM_invariant {P : Nat → σ → Prop}
    (hstep : ∀ n s a s', P n s → step s a = .ok s' → P (n + 1) s') {n : Nat} {s r : σ}
    (hs : P n s) (h : l.foldlM step s = .ok r) : P (n + l.length) r := by
  induction l generalizing n s with
  | nil =>
    cases h
    exact hs
  | cons a l ih =>
    rw [foldlM_cons] at h
    rcases ha : step s a with e | s'
    · rw [ha] at h
      cases h
    · rw [ha] at h
      have hrest := ih (hstep n s a s' hs ha) h
      rwa [length_cons, Nat.add_comm l.length, ← Nat.add_assoc]

theorem mapM_eq_ok {result : α → β} (h : ∀ a ∈ l, f a = .ok (result a)) :
    l.mapM f = .ok (l.map result) := by
  rw [mapM_eq_ok_iff, forall₂_map_right_iff]
  exact forall₂_same.mpr h

end Lib
