import Mathlib.Algebra.BigOperators.Group.Finset.Piecewise
import Mathlib.Data.Fintype.Basic

set_option autoImplicit false

/-!
# Counting in a table

How many entries of a finite table have a property, and how the number changes with one entry.

## Main definitions

* `count` — the number of entries.

## Main results

* `count_update` — one entry is replaced.
-/

namespace Table

open Function Finset

variable {ι α : Type*} [Fintype ι]

/-- The number of entries of a table that have a property. -/
def count (p : α → Bool) (f : ι → α) : ℕ := (Finset.univ.filter fun i => p (f i) = true).card

lemma count_congr {p : α → Bool} {f g : ι → α} (h : ∀ i, p (f i) = p (g i)) :
    count p f = count p g := by
  unfold count
  simp only [h]

variable [DecidableEq ι]

/-- The number before and after an entry is replaced differ by what the entry contributes. -/
theorem count_update (p : α → Bool) (f : ι → α) (i : ι) (e : α) :
    count p (update f i e) + (if p (f i) = true then 1 else 0) =
      count p f + if p e = true then 1 else 0 := by
  unfold count
  simp only [card_filter]
  rw [← add_sum_erase _ _ (mem_univ i), ← add_sum_erase _
    (fun j => if p (f j) = true then 1 else 0) (mem_univ i), update_self]
  have hrest : ∑ j ∈ univ.erase i, (if p (update f i e j) = true then 1 else 0) =
      ∑ j ∈ univ.erase i, if p (f j) = true then 1 else 0 := by
    refine sum_congr rfl fun j hj => ?_
    rw [update_of_ne (ne_of_mem_erase hj)]
  omega

variable {p : α → Bool} {f : ι → α} {i : ι} {e : α}

lemma count_update_of_eq (h : p e = p (f i)) : count p (update f i e) = count p f := by
  have hcount := count_update p f i e
  rw [h] at hcount
  omega

lemma count_update_enter (hf : p (f i) = false) (he : p e = true) :
    count p (update f i e) = count p f + 1 := by
  have hcount := count_update p f i e
  simpa [hf, he] using hcount

lemma count_update_leave (hf : p (f i) = true) (he : p e = false) :
    count p (update f i e) = count p f - 1 := by
  have hcount := count_update p f i e
  simp only [hf, he, if_true, Bool.false_eq_true, if_false] at hcount
  omega

end Table
