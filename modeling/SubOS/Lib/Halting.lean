import Mathlib.Data.Nat.Basic

set_option autoImplicit false

/-!
# When a deterministic loop ends

A loop whose body goes on with a new state or leaves with a result, without a measure that would
make it end.

## Main definitions

* `after`, `Halts` — the loop after some rounds; it ends.

## Main results

* `after_invariant` — the invariant rule.
* `halts_of_rank` — a loop with a bounded rank that every round raises ends.
-/

namespace Halting

variable {σ ρ : Type*} (step : σ → σ ⊕ ρ)

/-- The loop after `n` rounds: still in it (`inl`) or out of it (`inr`). -/
def after (s : σ) : ℕ → σ ⊕ ρ
  | 0 => .inl s
  | n + 1 =>
    match after s n with
    | .inl t => step t
    | .inr r => .inr r

/-- The loop ends. -/
def Halts (s : σ) : Prop := ∃ n r, after step s n = .inr r

variable {step} {s t : σ} {r : ρ} {m n : ℕ}

lemma after_succ_of_inl (h : after step s n = .inl t) : after step s (n + 1) = step t := by
  rw [after, h]

lemma after_of_le (h : after step s m = .inr r) (hmn : m ≤ n) : after step s n = .inr r := by
  induction n, hmn using Nat.le_induction with
  | base => exact h
  | succ n _ ih => rw [after, ih]

lemma inl_of_le (h : after step s n = .inl t) (hmn : m ≤ n) : ∃ u, after step s m = .inl u := by
  cases hm : after step s m with
  | inl u => exact ⟨u, rfl⟩
  | inr r =>
    rw [after_of_le hm hmn] at h
    exact nomatch h

lemma after_invariant {I : σ → Prop} (h₀ : I s) (hstep : ∀ t u, I t → step t = .inl u → I u) :
    ∀ n t, after step s n = .inl t → I t := by
  intro n
  induction n with
  | zero =>
    rintro t ⟨⟩
    exact h₀
  | succ n ih =>
    intro t ht
    obtain ⟨u, hu⟩ := inl_of_le ht (Nat.le_succ n)
    rw [after_succ_of_inl hu] at ht
    exact hstep u t (ih u hu) ht

/-- Where every round raises the rank, it counts the rounds. -/
lemma le_rank {rank : σ → ℕ} (hrise : ∀ t u, step t = .inl u → rank t < rank u) :
    ∀ n t, after step s n = .inl t → n ≤ rank t := by
  intro n
  induction n with
  | zero => exact fun _ _ => Nat.zero_le _
  | succ n ih =>
    intro u hu
    obtain ⟨t, ht⟩ := inl_of_le hu (Nat.le_succ n)
    rw [after_succ_of_inl ht] at hu
    exact lt_of_le_of_lt (ih t ht) (hrise t u hu)

/-- **A loop in which every round raises a rank below a bound ends.** -/
theorem halts_of_rank (rank : σ → ℕ) (bound : ℕ)
    (hbound : ∀ n t, after step s n = .inl t → rank t < bound)
    (hrise : ∀ t u, step t = .inl u → rank t < rank u) : Halts step s := by
  cases h : after step s bound with
  | inr r => exact ⟨_, r, h⟩
  | inl t => exact absurd (hbound _ t h) (not_lt.2 (le_rank hrise bound t h))

end Halting
