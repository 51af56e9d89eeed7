import Mathlib.Data.Nat.ModEq
import Mathlib.Tactic.Ring

set_option autoImplicit false

/-!
# Numbers in five limbs of 26 bits

Multiplication modulo `2 ^ 130 - 5` of numbers written with five digits in base `2 ^ 26`, where
digits may be somewhat too large. The sums of products are brought back to small digits by one pass
of carries; the carry out of the top digit has weight `2 ^ 130`, that is 5. All of it is exact
arithmetic of natural numbers.

## Main definitions

* `Limbs.value`, `Limbs.products`, `Limbs.chain` — the number, the sums and the carries.

## Main results

* `Limbs.value_products`, `Limbs.value_carried`, `Limbs.fits_products` — values and bounds.
-/

/-- Five digits, from the low end. -/
@[ext] structure Limbs (α : Type) where
  l0 : α
  l1 : α
  l2 : α
  l3 : α
  l4 : α
  deriving DecidableEq, Repr

namespace Limbs

def map {α β : Type} (f : α → β) (x : Limbs α) : Limbs β :=
  ⟨f x.l0, f x.l1, f x.l2, f x.l3, f x.l4⟩

def value (x : Limbs ℕ) : ℕ :=
  x.l0 + 2 ^ 26 * x.l1 + 2 ^ 52 * x.l2 + 2 ^ 78 * x.l3 + 2 ^ 104 * x.l4

/-- The digits of a number below `2 ^ 130`. -/
def ofNat (n : ℕ) : Limbs ℕ :=
  ⟨n % 2 ^ 26, n / 2 ^ 26 % 2 ^ 26, n / 2 ^ 52 % 2 ^ 26, n / 2 ^ 78 % 2 ^ 26, n / 2 ^ 104⟩

@[simp] lemma value_ofNat (n : ℕ) : (ofNat n).value = n := by
  simp only [value, ofNat]
  omega

def add (x y : Limbs ℕ) : Limbs ℕ :=
  ⟨x.l0 + y.l0, x.l1 + y.l1, x.l2 + y.l2, x.l3 + y.l3, x.l4 + y.l4⟩

@[simp] lemma value_add (x y : Limbs ℕ) : (x.add y).value = x.value + y.value := by
  simp only [value, add]
  omega

/-! ## Products -/

/-- The digit sums of a product; a digit of weight `2 ^ 130` or more is folded back with weight
5. -/
def products (h r : Limbs ℕ) : Limbs ℕ where
  l0 := h.l0 * r.l0 + h.l1 * (r.l4 * 5) + h.l2 * (r.l3 * 5) + h.l3 * (r.l2 * 5) + h.l4 * (r.l1 * 5)
  l1 := h.l0 * r.l1 + h.l1 * r.l0 + h.l2 * (r.l4 * 5) + h.l3 * (r.l3 * 5) + h.l4 * (r.l2 * 5)
  l2 := h.l0 * r.l2 + h.l1 * r.l1 + h.l2 * r.l0 + h.l3 * (r.l4 * 5) + h.l4 * (r.l3 * 5)
  l3 := h.l0 * r.l3 + h.l1 * r.l2 + h.l2 * r.l1 + h.l3 * r.l0 + h.l4 * (r.l4 * 5)
  l4 := h.l0 * r.l4 + h.l1 * r.l3 + h.l2 * r.l2 + h.l3 * r.l1 + h.l4 * r.l0

/-- **The digit sums stand for the product.** -/
theorem value_products (h r : Limbs ℕ) :
    (products h r).value ≡ h.value * r.value [MOD 2 ^ 130 - 5] := by
  -- the part of the product that was folded back
  have hfold : h.value * r.value = (products h r).value + (2 ^ 130 - 5) *
      (h.l1 * r.l4 + h.l2 * r.l3 + h.l3 * r.l2 + h.l4 * r.l1 +
        2 ^ 26 * (h.l2 * r.l4 + h.l3 * r.l3 + h.l4 * r.l2) +
        2 ^ 52 * (h.l3 * r.l4 + h.l4 * r.l3) + 2 ^ 78 * (h.l4 * r.l4)) := by
    simp only [value, products, Nat.reducePow, Nat.reduceSub]
    ring
  rw [hfold]
  exact (Nat.add_mul_mod_self_left _ _ _).symm

/-! ## Carries -/

/-- The values of a pass of carries: `e1`, ..., `e4` are the sums with the carry from below,
`c0`, ..., `c4` the carries, `f0` the lowest digit with the top carry, `c5` its carry, and `f1` the
digit that takes it. -/
structure Chain where
  c0 : ℕ
  e1 : ℕ
  c1 : ℕ
  e2 : ℕ
  c2 : ℕ
  e3 : ℕ
  c3 : ℕ
  e4 : ℕ
  c4 : ℕ
  f0 : ℕ
  c5 : ℕ
  f1 : ℕ

/-- A pass of carries over digit sums. -/
def chain (d : Limbs ℕ) : Chain :=
  let c0 := d.l0 / 2 ^ 26
  let e1 := d.l1 + c0
  let c1 := e1 / 2 ^ 26
  let e2 := d.l2 + c1
  let c2 := e2 / 2 ^ 26
  let e3 := d.l3 + c2
  let c3 := e3 / 2 ^ 26
  let e4 := d.l4 + c3
  let c4 := e4 / 2 ^ 26
  let f0 := d.l0 % 2 ^ 26 + c4 * 5
  let c5 := f0 / 2 ^ 26
  ⟨c0, e1, c1, e2, c2, e3, c3, e4, c4, f0, c5, e1 % 2 ^ 26 + c5⟩

/-- The digits after a pass of carries. -/
def Chain.limbs (k : Chain) : Limbs ℕ :=
  ⟨k.f0 % 2 ^ 26, k.f1, k.e2 % 2 ^ 26, k.e3 % 2 ^ 26, k.e4 % 2 ^ 26⟩

/-- The carries and the low digits fit into 32 bits, and the sums into 64 bits. -/
structure Chain.Fits (k : Chain) : Prop where
  carries : k.c0 < 2 ^ 32 ∧ k.c1 < 2 ^ 32 ∧ k.c2 < 2 ^ 32 ∧ k.c3 < 2 ^ 32 ∧ k.c4 < 2 ^ 32
  sums : k.e1 < 2 ^ 64 ∧ k.e2 < 2 ^ 64 ∧ k.e3 < 2 ^ 64 ∧ k.e4 < 2 ^ 64
  folded : k.c4 * 5 < 2 ^ 32
  low : k.f0 < 2 ^ 32
  second : k.f1 < 2 ^ 32

/-- **A pass of carries keeps the number.** -/
theorem value_carried (d : Limbs ℕ) : (chain d).limbs.value ≡ d.value [MOD 2 ^ 130 - 5] := by
  have hsum : d.value = (chain d).limbs.value + (2 ^ 130 - 5) * (chain d).c4 := by
    simp only [value, chain, Chain.limbs]
    omega
  rw [hsum]
  exact (Nat.add_mul_mod_self_left _ _ _).symm

/-- What a pass of carries leaves: every digit is below `2 ^ 26`, but for the second, which may be a
little larger. -/
structure Reduced (h : Limbs ℕ) : Prop where
  l0 : h.l0 < 2 ^ 26
  l1 : h.l1 < 2 ^ 26 + 64
  l2 : h.l2 < 2 ^ 26
  l3 : h.l3 < 2 ^ 26
  l4 : h.l4 < 2 ^ 26

/-- Every digit is below `2 ^ 26`. -/
structure Small (x : Limbs ℕ) : Prop where
  l0 : x.l0 < 2 ^ 26
  l1 : x.l1 < 2 ^ 26
  l2 : x.l2 < 2 ^ 26
  l3 : x.l3 < 2 ^ 26
  l4 : x.l4 < 2 ^ 26

lemma small_ofNat {n : ℕ} (h : n < 2 ^ 130) : (ofNat n).Small := by
  constructor <;> simp only [ofNat] <;> omega

/-- The sum of a reduced number and one with small digits. -/
structure Loaded (h : Limbs ℕ) : Prop where
  l0 : h.l0 < 2 ^ 27 + 64
  l1 : h.l1 < 2 ^ 27 + 64
  l2 : h.l2 < 2 ^ 27 + 64
  l3 : h.l3 < 2 ^ 27 + 64
  l4 : h.l4 < 2 ^ 27 + 64

lemma Reduced.add {h m : Limbs ℕ} (hh : h.Reduced) (hm : m.Small) : (h.add m).Loaded := by
  obtain ⟨h0, h1, h2, h3, h4⟩ := hh
  obtain ⟨m0, m1, m2, m3, m4⟩ := hm
  constructor <;> simp only [Limbs.add] <;> omega

lemma term_le {h r : ℕ} (hh : h < 2 ^ 27 + 64) (hr : r < 2 ^ 26) :
    h * r ≤ (2 ^ 27 + 64) * 2 ^ 26 := Nat.mul_le_mul hh.le hr.le

lemma term_le_five {h r : ℕ} (hh : h < 2 ^ 27 + 64) (hr : r < 2 ^ 26) :
    h * (r * 5) ≤ (2 ^ 27 + 64) * (2 ^ 26 * 5) :=
  Nat.mul_le_mul hh.le (Nat.mul_le_mul_right 5 hr.le)

lemma products_le {h r : Limbs ℕ} (hh : h.Loaded) (hr : r.Small) :
    (products h r).l0 ≤ 21 * ((2 ^ 27 + 64) * 2 ^ 26) ∧
      (products h r).l1 ≤ 17 * ((2 ^ 27 + 64) * 2 ^ 26) ∧
      (products h r).l2 ≤ 13 * ((2 ^ 27 + 64) * 2 ^ 26) ∧
      (products h r).l3 ≤ 9 * ((2 ^ 27 + 64) * 2 ^ 26) ∧
      (products h r).l4 ≤ 5 * ((2 ^ 27 + 64) * 2 ^ 26) := by
  obtain ⟨h0, h1, h2, h3, h4⟩ := hh
  obtain ⟨r0, r1, r2, r3, r4⟩ := hr
  refine ⟨?_, ?_, ?_, ?_, ?_⟩ <;> simp only [products]
  · have := term_le h0 r0
    have := term_le_five h1 r4
    have := term_le_five h2 r3
    have := term_le_five h3 r2
    have := term_le_five h4 r1
    omega
  · have := term_le h0 r1
    have := term_le h1 r0
    have := term_le_five h2 r4
    have := term_le_five h3 r3
    have := term_le_five h4 r2
    omega
  · have := term_le h0 r2
    have := term_le h1 r1
    have := term_le h2 r0
    have := term_le_five h3 r4
    have := term_le_five h4 r3
    omega
  · have := term_le h0 r3
    have := term_le h1 r2
    have := term_le h2 r1
    have := term_le h3 r0
    have := term_le_five h4 r4
    omega
  · have := term_le h0 r4
    have := term_le h1 r3
    have := term_le h2 r2
    have := term_le h3 r1
    have := term_le h4 r0
    omega

/-- **No value of a multiplication is too large**, and its result is reduced again. -/
theorem fits_products {h r : Limbs ℕ} (hh : h.Loaded) (hr : r.Small) :
    (chain (products h r)).Fits ∧ (chain (products h r)).limbs.Reduced := by
  obtain ⟨d0, d1, d2, d3, d4⟩ := products_le hh hr
  generalize products h r = d at *
  refine ⟨⟨?_, ?_, ?_, ?_, ?_⟩, ⟨?_, ?_, ?_, ?_, ?_⟩⟩ <;> simp only [chain, Chain.limbs] <;> omega

/-! ## A second pass -/

/-- A pass of carries that starts at the second digit. -/
def settle (h : Limbs ℕ) : Limbs ℕ :=
  let e2 := h.l2 + h.l1 / 2 ^ 26
  let e3 := h.l3 + e2 / 2 ^ 26
  let e4 := h.l4 + e3 / 2 ^ 26
  let f0 := h.l0 + e4 / 2 ^ 26 * 5
  ⟨f0 % 2 ^ 26, h.l1 % 2 ^ 26 + f0 / 2 ^ 26, e2 % 2 ^ 26, e3 % 2 ^ 26, e4 % 2 ^ 26⟩

lemma value_settle (h : Limbs ℕ) : h.settle.value ≡ h.value [MOD 2 ^ 130 - 5] := by
  have hsum : h.value = h.settle.value +
      (2 ^ 130 - 5) * ((h.l4 + (h.l3 + (h.l2 + h.l1 / 2 ^ 26) / 2 ^ 26) / 2 ^ 26) / 2 ^ 26) := by
    simp only [value, settle]
    omega
  rw [hsum]
  exact (Nat.add_mul_mod_self_left _ _ _).symm

lemma Reduced.settle {h : Limbs ℕ} (hh : h.Reduced) : h.settle.Small := by
  obtain ⟨h0, h1, h2, h3, h4⟩ := hh
  have hsecond : h.settle.l1 < 2 ^ 26 := by
    simp only [Limbs.settle]
    rcases Nat.lt_or_ge h.l1 (2 ^ 26) with hlt | hge
    · -- nothing is carried
      have e1 : h.l1 / 2 ^ 26 = 0 := by omega
      have e2 : (h.l2 + h.l1 / 2 ^ 26) / 2 ^ 26 = 0 := by omega
      have e3 : (h.l3 + (h.l2 + h.l1 / 2 ^ 26) / 2 ^ 26) / 2 ^ 26 = 0 := by omega
      have e4 : (h.l4 + (h.l3 + (h.l2 + h.l1 / 2 ^ 26) / 2 ^ 26) / 2 ^ 26) / 2 ^ 26 = 0 := by omega
      omega
    · -- the second digit was a little too large, and is small now
      have e1 : h.l1 % 2 ^ 26 < 64 := by omega
      have e2 : (h.l2 + h.l1 / 2 ^ 26) / 2 ^ 26 ≤ 1 := by omega
      have e3 : (h.l3 + (h.l2 + h.l1 / 2 ^ 26) / 2 ^ 26) / 2 ^ 26 ≤ 1 := by omega
      have e4 : (h.l4 + (h.l3 + (h.l2 + h.l1 / 2 ^ 26) / 2 ^ 26) / 2 ^ 26) / 2 ^ 26 ≤ 1 := by omega
      omega
  refine ⟨?_, hsecond, ?_, ?_, ?_⟩ <;> simp only [Limbs.settle] <;> omega

/-! ## The remainder -/

lemma Small.value_lt {x : Limbs ℕ} (h : x.Small) : x.value < 2 ^ 130 := by
  obtain ⟨h0, h1, h2, h3, h4⟩ := h
  simp only [value]
  omega

/-- The remainder of a number with small digits modulo `2 ^ 130 - 5`: it is below twice the
modulus, and adding 5 tells on which side. -/
lemma Small.value_mod {x : Limbs ℕ} (h : x.Small) : x.value % (2 ^ 130 - 5) =
    if 2 ^ 130 ≤ x.value + 5 then x.value + 5 - 2 ^ 130 else x.value := by
  have := h.value_lt
  split <;> omega

end Limbs
