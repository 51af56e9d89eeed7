import Mathlib.Data.Nat.Basic
import Mathlib.Data.Option.Basic

set_option autoImplicit false

/-!
# Loops with a decreasing measure

A loop whose body either goes on with a new state or leaves with a result. The body carries a
measure that every round decreases, so the loop is a total function; it is evaluated with the
measure of the first state as fuel, so that it still computes.

## Main definitions

* `Body.exec`, `Body.trace` — the result of a loop, and what its rounds log.

## Main results

* `Body.exec_eq`, `Body.exec_rule`, `Body.trace_rule` — the loop equation and the invariant rules.
-/

namespace Loop

variable {σ ρ : Type*}

/-- The body of a loop. It goes on (`inl`) or leaves (`inr`), and going on decreases the
measure. -/
structure Body (σ ρ : Type*) where
  step : σ → σ ⊕ ρ
  measure : σ → ℕ
  decreases : ∀ s s', step s = .inl s' → measure s' < measure s

namespace Body

variable (b : Body σ ρ) {s : σ}

/-- At most `n` rounds of the loop. -/
def iterate : ℕ → σ → Option ρ
  | 0, _ => none
  | n + 1, s =>
    match b.step s with
    | .inl s' => iterate n s'
    | .inr r => some r

lemma isSome_iterate {n : ℕ} (h : b.measure s < n) : (b.iterate n s).isSome = true := by
  induction n generalizing s with
  | zero => omega
  | succ n ih =>
    rw [iterate]
    split
    · next s' hs =>
      apply ih
      have := b.decreases s s' hs
      omega
    · rfl

lemma iterate_eq_of_isSome {n : ℕ} (h : (b.iterate n s).isSome = true) {m : ℕ}
    (hm : n ≤ m) : b.iterate m s = b.iterate n s := by
  induction n generalizing s m with
  | zero => cases h
  | succ n ih =>
    obtain ⟨k, rfl⟩ : ∃ k, m = k + 1 := ⟨m - 1, by omega⟩
    rw [iterate] at h ⊢
    rw [iterate]
    split
    · next s' hs =>
      rw [hs] at h
      exact ih h (by omega)
    · rfl

/-- The result of the loop from `s`. -/
def exec (s : σ) : ρ := (b.iterate (b.measure s + 1) s).get (b.isSome_iterate (Nat.lt_succ_self _))

/-- **The loop equation.** -/
theorem exec_eq (s : σ) :
    b.exec s = match b.step s with
      | .inl s' => b.exec s'
      | .inr r => r := by
  apply Option.some_injective
  unfold exec
  rw [Option.some_get, iterate]
  split
  · next s' hs =>
    have hlt := b.decreases s s' hs
    rw [Option.some_get]
    exact b.iterate_eq_of_isSome (b.isSome_iterate (Nat.lt_succ_self _)) (by omega)
  · rfl

lemma exec_of_inl {s' : σ} (h : b.step s = .inl s') : b.exec s = b.exec s' := by
  rw [exec_eq, h]

lemma exec_of_inr {r : ρ} (h : b.step s = .inr r) : b.exec s = r := by
  rw [exec_eq, h]

/-- **The invariant rule.** If every round that goes on keeps `Inv`, and every round that leaves
turns it into `Post`, then `Post` holds of the result. -/
theorem exec_rule (Inv : σ → Prop) (Post : ρ → Prop)
    (hstep : ∀ s, Inv s → Sum.elim Inv Post (b.step s)) (h : Inv s) : Post (b.exec s) := by
  induction hn : b.measure s using Nat.strong_induction_on generalizing s with
  | _ n ih =>
    have hround := hstep s h
    cases hs : b.step s with
    | inl s' =>
      rw [hs] at hround
      rw [exec_of_inl _ hs]
      exact ih _ (hn ▸ b.decreases s s' hs) hround rfl
    | inr r =>
      rw [hs] at hround
      rwa [exec_of_inr _ hs]

/-! ### Logging -/

section Trace

variable {ω : Type*} (log : σ → List ω)

/-- The loop that also collects what its rounds log. -/
def logged : Body (σ × List ω) (ρ × List ω) where
  step s :=
    match b.step s.1 with
    | .inl s' => .inl (s', s.2 ++ log s.1)
    | .inr r => .inr (r, s.2 ++ log s.1)
  measure s := b.measure s.1
  decreases := by
    intro s s' h
    split at h
    · next hs =>
      cases h
      exact b.decreases _ _ hs
    · cases h

/-- What the rounds of the loop from `s` log. -/
def trace (s : σ) : List ω := ((b.logged log).exec (s, [])).2

lemma logged_of_inl {s' : σ} (h : b.step s = .inl s') (ws : List ω) :
    (b.logged log).step (s, ws) = .inl (s', ws ++ log s) := by
  simp only [logged, h]

lemma logged_of_inr {r : ρ} (h : b.step s = .inr r) (ws : List ω) :
    (b.logged log).step (s, ws) = .inr (r, ws ++ log s) := by
  simp only [logged, h]

lemma exec_logged (s : σ) (ws : List ω) :
    (b.logged log).exec (s, ws) = (b.exec s, ws ++ b.trace log s) := by
  induction hn : b.measure s using Nat.strong_induction_on generalizing s ws with
  | _ n ih =>
    cases hs : b.step s with
    | inl s' =>
      have hlt := hn ▸ b.decreases s s' hs
      rw [trace, exec_of_inl _ (b.logged_of_inl log hs _), exec_of_inl _ (b.logged_of_inl log hs _),
        exec_of_inl _ hs, ih _ hlt s' _ rfl, ih _ hlt s' _ rfl, List.nil_append, List.append_assoc]
    | inr r =>
      rw [trace, exec_of_inr _ (b.logged_of_inr log hs _), exec_of_inr _ (b.logged_of_inr log hs _),
        exec_of_inr _ hs, List.nil_append]

/-- **The loop equation of the log.** -/
theorem trace_eq (s : σ) :
    b.trace log s = log s ++ match b.step s with
      | .inl s' => b.trace log s'
      | .inr _ => [] := by
  cases hs : b.step s with
  | inl s' => rw [trace, exec_of_inl _ (b.logged_of_inl log hs _), exec_logged, List.nil_append]
  | inr r =>
    rw [trace, exec_of_inr _ (b.logged_of_inr log hs _), List.nil_append, List.append_nil]

/-- **The invariant rule of the log.** If every round keeps `Inv` and logs only what satisfies `P`
under it, everything logged satisfies `P`. -/
theorem trace_rule (Inv : σ → Prop) (P : ω → Prop)
    (hinl : ∀ s s', Inv s → b.step s = .inl s' → Inv s') (hlog : ∀ s, Inv s → ∀ w ∈ log s, P w)
    (h : Inv s) : ∀ w ∈ b.trace log s, P w := by
  induction hn : b.measure s using Nat.strong_induction_on generalizing s with
  | _ n ih =>
    intro w hw
    rw [trace_eq, List.mem_append] at hw
    rcases hw with hw | hw
    · exact hlog s h w hw
    · split at hw
      · next s' hs => exact ih _ (hn ▸ b.decreases s s' hs) (hinl s s' h hs) rfl w hw
      · cases hw

end Trace

end Body

end Loop
