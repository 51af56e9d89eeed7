import Mathlib.Data.BitVec
import Mathlib.Tactic.Abel

set_option autoImplicit false

/-!
# Serial number arithmetic

Sequence numbers of a fixed width wrap around, so they are compared by the sign of their
difference. The natural order on a circle is ternary: seen from `a`, the number `b` comes no
later than `c` when the forward distance from `a` to `b` is at most the one from `a` to `c`.

## Main definitions

* `ge`, `gt`, `dist` — the comparisons, and the forward distance.

## Main results

* `dist_le_of_ge_of_ge` — a number compared with two bounds lies between them.
-/

namespace SerialNumber

open BitVec

variable {w : ℕ} {a b : BitVec w}

/-- `a` is no earlier than `b`: the difference, read as a signed number, is not negative. -/
def ge (a b : BitVec w) : Bool := decide (0 ≤ (a - b).toInt)

/-- `a` is later than `b`: the difference, read as a signed number, is positive. -/
def gt (a b : BitVec w) : Bool := decide (0 < (a - b).toInt)

/-- The forward distance from `a` to `b`. -/
def dist (a b : BitVec w) : ℕ := (b - a).toNat

lemma dist_lt (a b : BitVec w) : dist a b < 2 ^ w := (b - a).isLt

section

variable (a : BitVec w)

@[simp] lemma dist_self : dist a a = 0 := by simp [dist]

lemma dist_add_ofNat (n : ℕ) : dist a (a + BitVec.ofNat w n) = n % 2 ^ w := by
  simp [dist]

lemma add_ofNat_add (m n : ℕ) :
    a + BitVec.ofNat w m + BitVec.ofNat w n = a + BitVec.ofNat w (m + n) := by
  rw [add_assoc, ← ofNat_add]

lemma add_ofNat_inj_of_near {m n : ℕ} (hm : m < n + 2 ^ w) (hn : n < m + 2 ^ w)
    (h : a + BitVec.ofNat w m = a + BitVec.ofNat w n) : m = n := by
  have hmod := congrArg (dist a) h
  rw [dist_add_ofNat, dist_add_ofNat] at hmod
  refine Nat.ModEq.eq_of_abs_lt hmod (abs_lt.2 ⟨?_, ?_⟩)
  · have : m < n + (2 ^ w : ℕ) := by exact_mod_cast hm
    omega
  · have : n < m + (2 ^ w : ℕ) := by exact_mod_cast hn
    omega

lemma add_ofNat_inj {m n : ℕ} (hm : m < 2 ^ w) (hn : n < 2 ^ w)
    (h : a + BitVec.ofNat w m = a + BitVec.ofNat w n) : m = n :=
  add_ofNat_inj_of_near a (by omega) (by omega) h

end

lemma ge_iff : ge a b = true ↔ 2 * dist b a < 2 ^ w := by
  simp only [ge, dist, decide_eq_true_eq, toInt_eq_toNat_cond] at *
  split <;> omega

lemma gt_iff : gt a b = true ↔ 0 < dist b a ∧ 2 * dist b a < 2 ^ w := by
  simp only [gt, dist, decide_eq_true_eq, toInt_eq_toNat_cond] at *
  split <;> omega

lemma dist_add_dist {c : BitVec w} (h : dist a b + dist b c < 2 ^ w) :
    dist a c = dist a b + dist b c := by
  have e : c - a = (b - a) + (c - b) := by abel
  rw [dist, e, toNat_add]
  exact Nat.mod_eq_of_lt h

/-- The stretch from `a` to `c` splits at a point `b` that comes no later than `c`. -/
lemma dist_split {c : BitVec w} (h : dist a b ≤ dist a c) : dist a b + dist b c = dist a c := by
  have e : c - b = (c - a) - (b - a) := by abel
  have hbc : dist b c = dist a c - dist a b := by
    rw [dist, e, toNat_sub_of_le (le_def.2 h)]
    rfl
  omega

lemma ge_of_gt (h : gt a b = true) : ge a b = true :=
  ge_iff.2 (gt_iff.1 h).2

/-- **A number compared with two bounds lies between them.** Seen from `i`, let `u` come no
later than `n`. A number `x` compared as no earlier than `u` and no later than `n` comes
between them.

**Proof sketch.** Both comparisons bound a distance by half the circle, so the distances from
`u` to `x` and from `x` to `n` add up to the one from `u` to `n`; together with the distance
from `i` to `u` they add up to the one from `i` to `n`. -/
theorem dist_le_of_ge_of_ge {i u n x : BitVec w} (h : dist i u ≤ dist i n)
    (hxu : ge x u = true) (hnx : ge n x = true) : dist i u ≤ dist i x ∧ dist i x ≤ dist i n := by
  rw [ge_iff] at hxu hnx
  have hun : dist u n = dist u x + dist x n := dist_add_dist (by omega)
  have hin := dist_split h
  have hlt := dist_lt i n
  have hix : dist i x = dist i u + dist u x := dist_add_dist (by omega)
  omega

end SerialNumber
