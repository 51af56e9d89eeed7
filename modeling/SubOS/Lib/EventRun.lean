import Mathlib.Data.List.Basic
import Mathlib.Data.Nat.Basic

set_option autoImplicit false

/-!
# Runs of event-driven systems

A system is a step function `step : σ → ε → σ`. A run folds the step over a list of events; a
schedule gives one event after another for ever.

## Main definitions

* `run`, `Along` — a run, and a condition on its events.

## Main results

* `run_invariant_of_along`, `along_of_along`, `run_iff_along` — rules for runs.
* `Schedule.eventually_of_rank` — the rule for what happens in the end.
-/

namespace EventRun

variable {σ ε : Type*} (step : σ → ε → σ)

/-- The state reached from `s` by the events `es`, in order. -/
def run (s : σ) (es : List ε) : σ := es.foldl step s

@[simp] lemma run_nil (s : σ) : run step s [] = s := rfl

@[simp] lemma run_cons (s : σ) (e : ε) (es : List ε) :
    run step s (e :: es) = run step (step s e) es := rfl

lemma run_append (s : σ) (es es' : List ε) :
    run step s (es ++ es') = run step (run step s es) es' :=
  List.foldl_append

/-- Every event of `es`, taken in the state the run has reached, satisfies `Ok`. -/
def Along (Ok : σ → ε → Prop) : σ → List ε → Prop
  | _, [] => True
  | s, e :: es => Ok s e ∧ Along Ok (step s e) es

/-- A condition is decidable along a run when it is decidable at every step. -/
instance decidableAlong (Ok : σ → ε → Prop) [∀ s e, Decidable (Ok s e)] :
    ∀ (s : σ) (es : List ε), Decidable (Along step Ok s es)
  | _, [] => inferInstanceAs (Decidable True)
  | s, e :: es => @instDecidableAnd _ _ _ (decidableAlong Ok (step s e) es)

variable {step} {s : σ} {es : List ε} {Ok Ok' : σ → ε → Prop} {Inv : σ → Prop}

lemma along_of_mem {P : ε → Prop} (h : ∀ e ∈ es, P e) : Along step (fun _ e => P e) s es := by
  induction es generalizing s with
  | nil => trivial
  | cons e es ih =>
    rw [List.forall_mem_cons] at h
    exact ⟨h.1, ih h.2⟩

lemma Along.mono (himp : ∀ s e, Ok s e → Ok' s e)
    (h : Along step Ok s es) : Along step Ok' s es := by
  induction es generalizing s with
  | nil => trivial
  | cons e es ih => exact ⟨himp s e h.1, ih h.2⟩

lemma Along.and (h : Along step Ok s es)
    (h' : Along step Ok' s es) : Along step (fun s e => Ok s e ∧ Ok' s e) s es := by
  induction es generalizing s with
  | nil => trivial
  | cons e es ih => exact ⟨⟨h.1, h'.1⟩, ih h.2 h'.2⟩

/-- An invariant kept by every step that meets `Ok` holds after every run along `Ok`. -/
theorem run_invariant_of_along {Ok : σ → ε → Prop} (hstep : ∀ s e, Inv s → Ok s e → Inv (step s e))
    (hs : Inv s) (hes : Along step Ok s es) : Inv (run step s es) := by
  induction es generalizing s with
  | nil => exact hs
  | cons e es ih => exact ih (hstep s e hs hes.1) hes.2

/-- When steps that meet `Ok` keep an invariant and have the property `P`, then `P` holds along
every run along `Ok`. -/
theorem along_of_along {Ok P : σ → ε → Prop}
    (hstep : ∀ s e, Inv s → Ok s e → P s e ∧ Inv (step s e)) (hs : Inv s)
    (hes : Along step Ok s es) : Along step P s es := by
  induction es generalizing s with
  | nil => trivial
  | cons e es ih =>
    obtain ⟨hP, hnext⟩ := hstep s e hs hes.1
    exact ⟨hP, ih hnext hes.2⟩

/-- Two conditions that agree under an invariant agree along every run that keeps it. -/
theorem along_congr (Inv : σ → Prop)
    (hiff : ∀ s e, Inv s → (Ok s e ↔ Ok' s e)) (hstep : ∀ s e, Inv s → Ok' s e → Inv (step s e))
    (hs : Inv s) (es : List ε) : Along step Ok s es ↔ Along step Ok' s es := by
  induction es generalizing s with
  | nil => exact Iff.rfl
  | cons e es ih =>
    unfold Along
    rw [hiff s e hs]
    exact and_congr_right fun hok => ih (hstep s e hs hok)

theorem run_invariant (hstep : ∀ s e, Inv s → Inv (step s e))
    (hs : Inv s) (es : List ε) : Inv (run step s es) := by
  induction es generalizing s with
  | nil => exact hs
  | cons e es ih => exact ih (hstep s e hs)

/-- When a step keeps an invariant if and only if it meets `Ok`, and what is lost stays lost, the
invariant holds after a run if and only if the run is along `Ok`. -/
theorem run_iff_along (Inv : σ → Prop) (Ok : σ → ε → Prop)
    (hstep : ∀ s e, Inv s → (Inv (step s e) ↔ Ok s e)) (hlost : ∀ s e, Inv (step s e) → Inv s)
    (hs : Inv s) (es : List ε) : Inv (run step s es) ↔ Along step Ok s es := by
  induction es generalizing s with
  | nil => exact iff_of_true hs trivial
  | cons e es ih =>
    by_cases hnext : Inv (step s e)
    · rw [run_cons, Along, ih hnext]
      exact (and_iff_right ((hstep s e hs).1 hnext)).symm
    · refine iff_of_false (fun hrun => hnext ?_) fun hok => hnext ((hstep s e hs).2 hok.1)
      have hback : ∀ {s' : σ} {es' : List ε}, Inv (run step s' es') → Inv s' := by
        intro s' es' h
        induction es' generalizing s' with
        | nil => exact h
        | cons e' es' ih' => exact hlost s' e' (ih' h)
      exact hback hrun

end EventRun

namespace Schedule

variable {σ ε : Type*} (step : σ → ε → σ) (s : σ) (sched : ℕ → ε)

/-- The state after the first `n` events. -/
def stateAt : ℕ → σ
  | 0 => s
  | n + 1 => step (stateAt n) (sched n)

variable {step s sched}

theorem stateAt_invariant {I : σ → Prop} (hstep : ∀ s e, I s → I (step s e)) (h₀ : I s) (n : ℕ) :
    I (stateAt step s sched n) := by
  induction n with
  | zero => exact h₀
  | succ n ih => exact hstep _ _ ih

lemma reached_or_kept {I P Goal : σ → Prop} {rank : σ → ℕ} (hI : ∀ n, I (stateAt step s sched n))
    (hstep : ∀ s e, I s → P s → Goal (step s e) ∨ P (step s e) ∧ rank (step s e) ≤ rank s)
    {n : ℕ} (hP : P (stateAt step s sched n)) (k : ℕ) :
    (∃ m ≥ n, Goal (stateAt step s sched m)) ∨
      P (stateAt step s sched (n + k)) ∧
        rank (stateAt step s sched (n + k)) ≤ rank (stateAt step s sched n) := by
  induction k with
  | zero => exact .inr ⟨hP, le_rfl⟩
  | succ k ih =>
    rcases ih with hgoal | ⟨hk, hle⟩
    · exact .inl hgoal
    · rcases hstep _ (sched (n + k)) (hI _) hk with hgoal | ⟨hk', hle'⟩
      · exact .inl ⟨n + k + 1, by omega, hgoal⟩
      · exact .inr ⟨hk', Nat.le_trans hle' hle⟩

/-- **What the events that come again and again bring nearer happens in the end.**

**Proof sketch.** Induction on the rank. Until the next event of the kind that brings the goal
nearer the rank does not grow, and at that event it falls, unless the goal has been reached. -/
theorem eventually_of_rank (I P Goal : σ → Prop) (rank : σ → ℕ) (push : ε → Prop)
    (hI : ∀ n, I (stateAt step s sched n)) (hfair : ∀ n, ∃ m ≥ n, push (sched m))
    (hstep : ∀ s e, I s → P s → Goal (step s e) ∨ P (step s e) ∧ rank (step s e) ≤ rank s ∧
      (push e → rank (step s e) < rank s)) {n : ℕ} (hP : P (stateAt step s sched n)) :
    ∃ m ≥ n, Goal (stateAt step s sched m) := by
  induction hr : rank (stateAt step s sched n) using Nat.strong_induction_on generalizing n with
  | _ r ih =>
    obtain ⟨m, hm, hpush⟩ := hfair n
    obtain ⟨k, rfl⟩ := Nat.exists_eq_add_of_le hm
    have hkeep : ∀ s e, I s → P s → Goal (step s e) ∨ P (step s e) ∧ rank (step s e) ≤ rank s :=
      fun s e hs hp => (hstep s e hs hp).imp_right fun h => ⟨h.1, h.2.1⟩
    rcases reached_or_kept hI hkeep hP k with hgoal | ⟨hk, hle⟩
    · exact hgoal
    · rcases hstep _ (sched (n + k)) (hI _) hk with hgoal | ⟨hk', -, hlt⟩
      · exact ⟨n + k + 1, by omega, hgoal⟩
      · have hsmall : rank (stateAt step s sched (n + k + 1)) < r := by
          rw [← hr]
          exact Nat.lt_of_lt_of_le (hlt hpush) hle
        obtain ⟨m, hm', hgoal⟩ := ih _ hsmall (n := n + k + 1) hk' rfl
        exact ⟨m, by omega, hgoal⟩

end Schedule
