import Mathlib.Algebra.BigOperators.Ring.Finset
import SubOS.Crypto.ChaCha20
import SubOS.Lib.Limbs

set_option autoImplicit false

/-!
# Poly1305

The one-time authenticator of `crypto/chacha20poly1305.c`, on five limbs of 26 bits in 32-bit words
with 64-bit products. It evaluates a polynomial modulo `2 ^ 130 - 5`, whose coefficients are the
blocks of the message, each with a 1 appended.

## Main definitions

* `poly1305Update`, `poly1305Finish`, `tagNumber` — the functions, and the value of the polynomial.

## Main results

* `polyBlock_spec`, `Fed.leNat_finish` — a block is one multiplication; the tag.

## Design

The functions are cut where the source changes from one group of variables to the next: the limbs
`h` with the block added, the sums `d`, the carries, the difference `g`, the words of the result.
-/

namespace SubOS.Crypto

open List Nat Limbs Blocks

structure Poly1305Ctx where
  r : Limbs UInt32
  h : Limbs UInt32
  pad : Fin 4 → UInt32
  leftover : ℕ
  buffer : Bytes
  final : Bool

/-- `poly1305_init`. The buffer is not initialised; what is in it is never read. -/
def poly1305Init (key : Fin 32 → UInt8) (buffer : Bytes) : Poly1305Ctx :=
  let k := List.ofFn key
  { r := ⟨load32Le k 0 &&& 0x3ffffff, (load32Le k 3 >>> 2) &&& 0x3ffff03,
      (load32Le k 6 >>> 4) &&& 0x3ffc0ff, (load32Le k 9 >>> 6) &&& 0x3f03fff,
      (load32Le k 12 >>> 8) &&& 0x00fffff⟩
    h := ⟨0, 0, 0, 0, 0⟩
    pad := fun i => load32Le k (16 + 4 * i)
    leftover := 0
    buffer := buffer
    final := false }

/-! ## The block multiplication -/

/-- The limbs with a block of the message added. -/
def addBlock (hibit : UInt32) (h : Limbs UInt32) (m : Bytes) : Limbs UInt32 where
  l0 := h.l0 + (load32Le m 0 &&& 0x3ffffff)
  l1 := h.l1 + ((load32Le m 3 >>> 2) &&& 0x3ffffff)
  l2 := h.l2 + ((load32Le m 6 >>> 4) &&& 0x3ffffff)
  l3 := h.l3 + ((load32Le m 9 >>> 6) &&& 0x3ffffff)
  l4 := h.l4 + ((load32Le m 12 >>> 8) ||| hibit)

/-- `(uint64_t)a * b`. -/
def mul64 (a b : UInt32) : UInt64 := a.toUInt64 * b.toUInt64

/-- The sums `d0`, ..., `d4`. -/
def productSums (h r : Limbs UInt32) : Limbs UInt64 :=
  let s1 := r.l1 * 5
  let s2 := r.l2 * 5
  let s3 := r.l3 * 5
  let s4 := r.l4 * 5
  { l0 := mul64 h.l0 r.l0 + mul64 h.l1 s4 + mul64 h.l2 s3 + mul64 h.l3 s2 + mul64 h.l4 s1
    l1 := mul64 h.l0 r.l1 + mul64 h.l1 r.l0 + mul64 h.l2 s4 + mul64 h.l3 s3 + mul64 h.l4 s2
    l2 := mul64 h.l0 r.l2 + mul64 h.l1 r.l1 + mul64 h.l2 r.l0 + mul64 h.l3 s4 + mul64 h.l4 s3
    l3 := mul64 h.l0 r.l3 + mul64 h.l1 r.l2 + mul64 h.l2 r.l1 + mul64 h.l3 r.l0 + mul64 h.l4 s4
    l4 := mul64 h.l0 r.l4 + mul64 h.l1 r.l3 + mul64 h.l2 r.l2 + mul64 h.l3 r.l1 + mul64 h.l4 r.l0 }

/-- The carries of `poly1305_blocks`. -/
def carryLimbs (d : Limbs UInt64) : Limbs UInt32 :=
  let c := (d.l0 >>> 26).toUInt32
  let h0 := d.l0.toUInt32 &&& 0x3ffffff
  let d1 := d.l1 + c.toUInt64
  let c := (d1 >>> 26).toUInt32
  let h1 := d1.toUInt32 &&& 0x3ffffff
  let d2 := d.l2 + c.toUInt64
  let c := (d2 >>> 26).toUInt32
  let h2 := d2.toUInt32 &&& 0x3ffffff
  let d3 := d.l3 + c.toUInt64
  let c := (d3 >>> 26).toUInt32
  let h3 := d3.toUInt32 &&& 0x3ffffff
  let d4 := d.l4 + c.toUInt64
  let c := (d4 >>> 26).toUInt32
  let h4 := d4.toUInt32 &&& 0x3ffffff
  let h0 := h0 + c * 5
  let c := h0 >>> 26
  let h0 := h0 &&& 0x3ffffff
  ⟨h0, h1 + c, h2, h3, h4⟩

/-- One round of the loop of `poly1305_blocks`. -/
def polyBlock (r : Limbs UInt32) (hibit : UInt32) (h : Limbs UInt32) (m : Bytes) : Limbs UInt32 :=
  carryLimbs (productSums (addBlock hibit h m) r)

def poly1305Blocks (st : Poly1305Ctx) (m : Bytes) : Poly1305Ctx :=
  let hibit : UInt32 := if st.final then 0 else (1 : UInt32) <<< 24
  { st with h := Blocks.feed 16 (polyBlock st.r hibit) st.h m }

/-! ## Feeding a message -/

/-- The end of `poly1305_update`, with the buffer empty. -/
def updateWhole (st : Poly1305Ctx) (m : Bytes) : Poly1305Ctx :=
  let want := if 16 ≤ m.length then m.length / 16 * 16 else 0
  let st := if 16 ≤ m.length then poly1305Blocks st (m.take want) else st
  let m := m.drop want
  { st with buffer := Blocks.writeAt st.buffer st.leftover m, leftover := st.leftover + m.length }

def poly1305Update (st : Poly1305Ctx) (m : Bytes) : Poly1305Ctx :=
  if st.leftover ≠ 0 then
    let want := min (16 - st.leftover) m.length
    let st := { st with
      buffer := Blocks.writeAt st.buffer st.leftover (m.take want), leftover := st.leftover + want }
    if st.leftover < 16 then st
    else updateWhole { poly1305Blocks st (st.buffer.take 16) with leftover := 0 } (m.drop want)
  else updateWhole st m

/-! ## The tag -/

/-- The last block: what is left over, a 1 and zeros. -/
def finishBlock (st : Poly1305Ctx) : Poly1305Ctx :=
  if st.leftover ≠ 0 then
    let buffer := st.buffer.take st.leftover ++ 1 :: List.replicate (15 - st.leftover) 0
    poly1305Blocks { st with buffer := buffer, final := true } buffer
  else st

/-- The carries of `poly1305_finish`. -/
def finishCarry (h : Limbs UInt32) : Limbs UInt32 :=
  let c := h.l1 >>> 26
  let h1 := h.l1 &&& 0x3ffffff
  let h2 := h.l2 + c
  let c := h2 >>> 26
  let h2 := h2 &&& 0x3ffffff
  let h3 := h.l3 + c
  let c := h3 >>> 26
  let h3 := h3 &&& 0x3ffffff
  let h4 := h.l4 + c
  let c := h4 >>> 26
  let h4 := h4 &&& 0x3ffffff
  let h0 := h.l0 + c * 5
  let c := h0 >>> 26
  let h0 := h0 &&& 0x3ffffff
  ⟨h0, h1 + c, h2, h3, h4⟩

/-- The limbs `g` of `h + 5 - 2 ^ 130`. -/
def minusP (h : Limbs UInt32) : Limbs UInt32 :=
  let g0 := h.l0 + 5
  let c := g0 >>> 26
  let g0 := g0 &&& 0x3ffffff
  let g1 := h.l1 + c
  let c := g1 >>> 26
  let g1 := g1 &&& 0x3ffffff
  let g2 := h.l2 + c
  let c := g2 >>> 26
  let g2 := g2 &&& 0x3ffffff
  let g3 := h.l3 + c
  let c := g3 >>> 26
  let g3 := g3 &&& 0x3ffffff
  ⟨g0, g1, g2, g3, h.l4 + c - (1 : UInt32) <<< 26⟩

/-- Select `g` if it is not negative, and `h` otherwise. -/
def selectLimbs (h g : Limbs UInt32) : Limbs UInt32 :=
  let mask := (g.l4 >>> 31) - 1
  ⟨(h.l0 &&& ~~~mask) ||| (g.l0 &&& mask), (h.l1 &&& ~~~mask) ||| (g.l1 &&& mask),
    (h.l2 &&& ~~~mask) ||| (g.l2 &&& mask), (h.l3 &&& ~~~mask) ||| (g.l3 &&& mask),
    (h.l4 &&& ~~~mask) ||| (g.l4 &&& mask)⟩

def packWords (h : Limbs UInt32) : Fin 4 → UInt32
  | 0 => h.l0 ||| (h.l1 <<< 26)
  | 1 => (h.l1 >>> 6) ||| (h.l2 <<< 20)
  | 2 => (h.l2 >>> 12) ||| (h.l3 <<< 14)
  | 3 => (h.l3 >>> 18) ||| (h.l4 <<< 8)

/-- The tag: the words with `pad` added, little-endian. -/
def addPad (w pad : Fin 4 → UInt32) : Bytes :=
  let f0 := (w 0).toUInt64 + (pad 0).toUInt64
  let f1 := (w 1).toUInt64 + (pad 1).toUInt64 + (f0 >>> 32)
  let f2 := (w 2).toUInt64 + (pad 2).toUInt64 + (f1 >>> 32)
  let f3 := (w 3).toUInt64 + (pad 3).toUInt64 + (f2 >>> 32)
  store32Le f0.toUInt32 ++ store32Le f1.toUInt32 ++ store32Le f2.toUInt32 ++ store32Le f3.toUInt32

def poly1305Finish (st : Poly1305Ctx) : Bytes :=
  let st := finishBlock st
  let h := finishCarry st.h
  addPad (packWords (selectLimbs h (minusP h))) st.pad

/-! ## What a tag should be -/

/-- A block with a 1 appended, as a number. -/
def blockNumber (b : Bytes) : ℕ := leNat b + 256 ^ b.length

/-- The first half of the key, clamped. -/
def clampR (key : Fin 32 → UInt8) : ℕ :=
  leNat ((List.ofFn key).take 16) &&& 0x0ffffffc0ffffffc0ffffffc0fffffff

/-- The second half of the key. -/
def padNumber (key : Fin 32 → UInt8) : ℕ := leNat ((List.ofFn key).drop 16)

/-- The polynomial with the coefficients `cs` and without constant term, at `r`. -/
def polySum (r : ℕ) (cs : List ℕ) : ℕ :=
  ∑ i ∈ Finset.range cs.length, cs.getD i 0 * r ^ (cs.length - i)

def tagNumber (key : Fin 32 → UInt8) (msg : Bytes) : ℕ :=
  (polySum (clampR key) ((Blocks.cut 16 msg).map blockNumber) % (2 ^ 130 - 5) + padNumber key) %
    2 ^ 128

lemma polySum_concat (r : ℕ) (cs : List ℕ) (c : ℕ) :
    polySum r (cs ++ [c]) = (polySum r cs + c) * r := by
  unfold polySum
  rw [length_append, length_singleton, Finset.sum_range_succ, add_mul, Finset.sum_mul]
  refine congrArg₂ _ (Finset.sum_congr rfl fun i hi => ?_) ?_
  · rw [Finset.mem_range] at hi
    rw [getD_eq_getElem?_getD, getElem?_append_left hi, ← getD_eq_getElem?_getD,
      Nat.sub_add_comm hi.le, pow_succ, mul_assoc]
  · simp [getD_eq_getElem?_getD]

/-! ## One block -/

abbrev nats (h : Limbs UInt32) : Limbs ℕ := h.map UInt32.toNat

abbrev nats64 (d : Limbs UInt64) : Limbs ℕ := d.map UInt64.toNat

/-- In the multiplication of limbs `h`, with the digits `m` of a block added, by `r` no 32-bit limb
and no 64-bit sum is too large. -/
structure BlockFits (h m r : Limbs ℕ) : Prop where
  limbs : (h.add m).l0 < 2 ^ 32 ∧ (h.add m).l1 < 2 ^ 32 ∧ (h.add m).l2 < 2 ^ 32 ∧
    (h.add m).l3 < 2 ^ 32 ∧ (h.add m).l4 < 2 ^ 32
  fives : r.l1 * 5 < 2 ^ 32 ∧ r.l2 * 5 < 2 ^ 32 ∧ r.l3 * 5 < 2 ^ 32 ∧ r.l4 * 5 < 2 ^ 32
  sums : (Limbs.products (h.add m) r).l0 < 2 ^ 64 ∧ (Limbs.products (h.add m) r).l1 < 2 ^ 64 ∧
    (Limbs.products (h.add m) r).l2 < 2 ^ 64 ∧ (Limbs.products (h.add m) r).l3 < 2 ^ 64 ∧
    (Limbs.products (h.add m) r).l4 < 2 ^ 64
  carries : (Limbs.chain (Limbs.products (h.add m) r)).Fits

lemma blockFits {h m r : Limbs ℕ} (hh : h.Reduced) (hm : m.Small) (hr : r.Small) :
    BlockFits h m r := by
  have hload := hh.add hm
  obtain ⟨s0, s1, s2, s3, s4⟩ := products_le hload hr
  obtain ⟨h0, h1, h2, h3, h4⟩ := hload
  obtain ⟨r0, r1, r2, r3, r4⟩ := hr
  refine ⟨?_, ?_, ?_, (fits_products (hh.add hm) ⟨r0, r1, r2, r3, r4⟩).1⟩ <;> omega

/-- The digits of a block of the message. -/
def blockLimbs (hibit : UInt32) (m : Bytes) : Limbs ℕ :=
  Limbs.ofNat (leNat m + 2 ^ 104 * hibit.toNat)

variable {h r : Limbs UInt32} {key : Fin 32 → UInt8} {st : Poly1305Ctx} {m msg : Bytes} {n : ℕ}

lemma toNat_addBlock {hibit : UInt32} (hhi : hibit = 0 ∨ hibit = (1 : UInt32) <<< 24)
    (hlen : m.length = 16) (hh : (nats h).Reduced) :
    nats (addBlock hibit h m) = (nats h).add (blockLimbs hibit m) := by
  have hm := leNat_lt m
  rw [hlen] at hm
  obtain ⟨h0, h1, h2, h3, h4⟩ := hh
  simp only [Limbs.map] at h0 h1 h2 h3 h4
  have htop : ((load32Le m 12 >>> 8) ||| hibit).toNat = leNat m / 2 ^ 104 + hibit.toNat := by
    have hlow : (load32Le m 12 >>> 8).toNat = leNat m / 2 ^ 104 := by
      rw [toNat_shr 8 (by decide), toNat_load32Le]
      show leNat m / 256 ^ 12 % 2 ^ 32 / 2 ^ 8 = _
      omega
    rcases hhi with rfl | rfl
    · rw [UInt32.or_zero, hlow]
      rfl
    · rw [toNat_pack (by decide) hlow (by show _ < 2 ^ 24; omega)]
      show (_ + 2 ^ 24 * 1) % 2 ^ 32 = _ + 2 ^ 24
      omega
  have hbit : hibit.toNat = 0 ∨ hibit.toNat = 2 ^ 24 := by
    rcases hhi with rfl | rfl
    · exact .inl rfl
    · exact .inr rfl
  ext <;> simp only [Limbs.map, addBlock, add, blockLimbs, ofNat, UInt32.toNat_add, toNat_low26,
    toNat_load32Le, htop, toNat_shr 2 (by decide), toNat_shr 4 (by decide),
    toNat_shr 6 (by decide), UInt32.reduceToNat]
  all_goals omega

lemma small_blockLimbs {hibit : UInt32} (hhi : hibit = 0 ∨ hibit = (1 : UInt32) <<< 24)
    (hlen : m.length = 16) : (blockLimbs hibit m).Small := by
  have hm := leNat_lt m
  rw [hlen] at hm
  refine small_ofNat ?_
  rcases hhi with rfl | rfl
  · show _ + 2 ^ 104 * 0 < _
    omega
  · show _ + 2 ^ 104 * 2 ^ 24 < _
    omega

lemma toNat_mul64 (a b : UInt32) : (mul64 a b).toNat = a.toNat * b.toNat := by
  have ha := a.toNat_lt
  have hb := b.toNat_lt
  have hmul : a.toNat * b.toNat < 2 ^ 64 := by
    calc a.toNat * b.toNat < 2 ^ 32 * 2 ^ 32 := mul_lt_mul'' ha hb
      _ = 2 ^ 64 := by norm_num
  rw [mul64, UInt64.toNat_mul, UInt32.toNat_toUInt64, UInt32.toNat_toUInt64, mod_eq_of_lt hmul]

lemma toNat_sum {a b c d e : UInt64}
    (h : a.toNat + b.toNat + c.toNat + d.toNat + e.toNat < 2 ^ 64) :
    (a + b + c + d + e).toNat = a.toNat + b.toNat + c.toNat + d.toNat + e.toNat := by
  simp only [UInt64.toNat_add]
  omega

lemma toNat_five {x : UInt32} (hx : x.toNat = n) (h : n * 5 < 2 ^ 32) : (x * 5).toNat = n * 5 := by
  rw [UInt32.toNat_mul, hx]
  exact mod_eq_of_lt h

lemma toNat_productSums {h : Limbs UInt32} {x m : Limbs ℕ} (hfits : BlockFits x m (nats r))
    (hh : nats h = x.add m) : nats64 (productSums h r) = products (x.add m) (nats r) := by
  obtain ⟨-, ⟨f1, f2, f3, f4⟩, hsum, -⟩ := hfits
  rw [← hh] at hsum ⊢
  obtain ⟨s0, s1, s2, s3, s4⟩ := hsum
  ext <;> simp only [Limbs.map, productSums, products]
  all_goals
    rw [toNat_sum] <;>
      simp only [toNat_mul64, toNat_five rfl f1, toNat_five rfl f2, toNat_five rfl f3,
        toNat_five rfl f4]
    assumption

/-! ## The carries -/

lemma toNat_low26_64 (x : UInt64) : (x.toUInt32 &&& 0x3ffffff).toNat = x.toNat % 2 ^ 26 := by
  rw [toNat_low26, UInt64.toNat_toUInt32]
  omega

lemma toNat_shr26 (x : UInt64) : (x >>> 26).toNat = x.toNat / 2 ^ 26 := by
  exact shiftRight_eq_div_pow _ 26

lemma toNat_carry26 {x : UInt64} (hx : x.toNat = n) (h : n / 2 ^ 26 < 2 ^ 32) :
    (x >>> 26).toUInt32.toNat = n / 2 ^ 26 := by
  rw [UInt64.toNat_toUInt32, toNat_shr26, hx, mod_eq_of_lt h]

lemma toNat_addCarry {x : UInt64} {c : UInt32} (hc : c.toNat = n)
    (h : x.toNat + n < 2 ^ 64) : (x + c.toUInt64).toNat = x.toNat + n := by
  rw [UInt64.toNat_add, UInt32.toNat_toUInt64, hc, mod_eq_of_lt h]

lemma toNat_carryLimbs {d : Limbs UInt64} (h : (chain (nats64 d)).Fits) :
    nats (carryLimbs d) = (chain (nats64 d)).limbs := by
  obtain ⟨⟨c0, c1, c2, c3, c4⟩, ⟨e1, e2, e3, e4⟩, folded, low, second⟩ := h
  simp only [chain, Limbs.map] at c0 c1 c2 c3 c4 e1 e2 e3 e4 folded low second
  have hc0 := toNat_carry26 rfl c0
  have he1 := toNat_addCarry hc0 e1
  have hc1 := toNat_carry26 he1 c1
  have he2 := toNat_addCarry hc1 e2
  have hc2 := toNat_carry26 he2 c2
  have he3 := toNat_addCarry hc2 e3
  have hc3 := toNat_carry26 he3 c3
  have he4 := toNat_addCarry hc3 e4
  have hc4 := toNat_carry26 he4 c4
  have hfold := toNat_five hc4 folded
  ext
  case l0 =>
    show ((_ + _) &&& 0x3ffffff : UInt32).toNat = _
    rw [toNat_low26, UInt32.toNat_add, toNat_low26_64, hfold, mod_eq_of_lt low]
    rfl
  case l1 =>
    show (_ + ((_ + _ : UInt32) >>> 26)).toNat = _
    rw [UInt32.toNat_add, toNat_low26_64, toNat_shr 26 (by decide), UInt32.toNat_add,
      toNat_low26_64, hfold, mod_eq_of_lt low, he1,
      show (26 : UInt32).toNat = 26 from rfl, mod_eq_of_lt second]
    rfl
  case l2 => exact (toNat_low26_64 _).trans (congrArg (· % 2 ^ 26) he2)
  case l3 => exact (toNat_low26_64 _).trans (congrArg (· % 2 ^ 26) he3)
  case l4 => exact (toNat_low26_64 _).trans (congrArg (· % 2 ^ 26) he4)

/-! ## Blocks of a message -/

lemma nats_polyBlock {h : Limbs UInt32} {hibit : UInt32}
    (hhi : hibit = 0 ∨ hibit = (1 : UInt32) <<< 24) (hr : (nats r).Small) (hh : (nats h).Reduced)
    (hlen : m.length = 16) :
    nats (polyBlock r hibit h m) =
      (chain (products ((nats h).add (blockLimbs hibit m)) (nats r))).limbs := by
  have hfits := blockFits hh (small_blockLimbs hhi hlen) hr
  have hsums := toNat_productSums hfits (toNat_addBlock hhi hlen hh)
  rw [← hsums]
  exact toNat_carryLimbs (hsums ▸ hfits.carries)

/-- **One block**: the result is reduced again, and it is `(h + c) * r`. -/
theorem polyBlock_spec {h : Limbs UInt32} {hibit : UInt32}
    (hhi : hibit = 0 ∨ hibit = (1 : UInt32) <<< 24) (hr : (nats r).Small) (hh : (nats h).Reduced)
    (hlen : m.length = 16) :
    (nats (polyBlock r hibit h m)).Reduced ∧
      (nats (polyBlock r hibit h m)).value ≡
        ((nats h).value + (leNat m + 2 ^ 104 * hibit.toNat)) * (nats r).value
        [MOD 2 ^ 130 - 5] := by
  rw [nats_polyBlock hhi hr hh hlen]
  refine ⟨(fits_products (hh.add (small_blockLimbs hhi hlen)) hr).2, ?_⟩
  refine (value_carried _).trans ((value_products _ _).trans ?_)
  rw [value_add, blockLimbs, value_ofNat]

/-- The high bit that is set in the blocks before the last one. -/
abbrev hibit : UInt32 := (1 : UInt32) <<< 24

lemma reduced_zero : (nats ⟨0, 0, 0, 0, 0⟩).Reduced :=
  ⟨by decide, by decide, by decide, by decide, by decide⟩

lemma foldl_polyBlock_spec (hr : (nats r).Small) (bs : List Bytes) (hbs : ∀ b ∈ bs, b.length = 16) :
    (nats (bs.foldl (polyBlock r hibit) ⟨0, 0, 0, 0, 0⟩)).Reduced ∧
      (nats (bs.foldl (polyBlock r hibit) ⟨0, 0, 0, 0, 0⟩)).value ≡
        polySum (nats r).value (bs.map blockNumber) [MOD 2 ^ 130 - 5] := by
  induction bs using reverseRecOn with
  | nil => exact ⟨reduced_zero, rfl⟩
  | append_singleton bs b ih =>
    rw [forall_mem_append, forall_mem_singleton] at hbs
    obtain ⟨hred, hval⟩ := ih hbs.1
    obtain ⟨hred', hval'⟩ := polyBlock_spec (.inr rfl) hr hred hbs.2
    rw [foldl_append, foldl_cons, foldl_nil, map_append, map_singleton, polySum_concat]
    refine ⟨hred', hval'.trans (.mul_right _ (.add hval ?_))⟩
    rw [blockNumber, hbs.2]
    rfl

/-! ## The key -/

lemma and_of_lt {x m : ℕ} (h : m < 2 ^ 26) : x &&& m = (x % 2 ^ 26) &&& m := by
  have hlt : x &&& m < 2 ^ 26 := and_le_right.trans_lt h
  rw [← mod_eq_of_lt hlt, and_mod_two_pow, mod_eq_of_lt h]

lemma and_eq_digit {a m k l : ℕ} (hm : m < 2 ^ 26) (ha : a % 2 ^ 26 = n / 2 ^ k % 2 ^ 26)
    (hl : m = l / 2 ^ k % 2 ^ 26) : a &&& m = (n &&& l) / 2 ^ k % 2 ^ 26 := by
  rw [and_of_lt hm, ha, hl, ← and_mod_two_pow, ← shiftRight_eq_div_pow, ← shiftRight_eq_div_pow,
    ← shiftRight_eq_div_pow, shiftRight_and_distrib]

lemma nats_init_r (key : Fin 32 → UInt8) (buffer : Bytes) :
    nats (poly1305Init key buffer).r = ofNat (clampR key) := by
  have hn := leNat_lt ((ofFn key).take 16)
  have htake := leNat_take (ofFn key) 16
  have htop : clampR key / 2 ^ 104 < 2 ^ 26 := by
    have hle : clampR key ≤ _ := and_le_left
    omega
  ext <;> simp only [Limbs.map, poly1305Init, ofNat, UInt32.toNat_and, toNat_load32Le,
    toNat_shr 2 (by decide), toNat_shr 4 (by decide), toNat_shr 6 (by decide),
    toNat_shr 8 (by decide), UInt32.reduceToNat]
  case l0 =>
    rw [← Nat.div_one (clampR key), ← pow_zero 2]
    refine and_eq_digit (by decide) ?_ rfl
    omega
  case l1 | l2 | l3 =>
    refine and_eq_digit (by decide) ?_ rfl
    omega
  case l4 =>
    rw [← mod_eq_of_lt htop]
    refine and_eq_digit (by decide) ?_ rfl
    omega

lemma clampR_lt (key : Fin 32 → UInt8) : clampR key < 2 ^ 130 :=
  and_le_right.trans_lt (by decide)

/-! ## Feeding a message in pieces -/

/-- The context after a message. -/
structure Fed (key : Fin 32 → UInt8) (msg : Bytes) (st : Poly1305Ctx) : Prop where
  r : st.r = (poly1305Init key []).r
  pad : st.pad = (poly1305Init key []).pad
  final : st.final = false
  buffered : Blocks.Buffered 16 (polyBlock (poly1305Init key []).r hibit) ⟨0, 0, 0, 0, 0⟩ msg st.h
    st.leftover st.buffer

lemma fed_init (key : Fin 32 → UInt8) (buffer : Bytes) : Fed key [] (poly1305Init key buffer) :=
  ⟨rfl, rfl, rfl, .init _ _⟩

section Update

variable {key : Fin 32 → UInt8} {msg m : Bytes} {st : Poly1305Ctx}

lemma poly1305Blocks_h (hr : st.r = (poly1305Init key []).r) (hfinal : st.final = false)
    (m : Bytes) :
    (poly1305Blocks st m).h = feed 16 (polyBlock (poly1305Init key []).r hibit) st.h m := by
  simp only [poly1305Blocks, hr, hfinal]
  rfl

lemma Fed.updateWhole (h : Fed key msg st) (hleft : st.leftover = 0) (m : Bytes) :
    Fed key (msg ++ m) (updateWhole st m) := by
  obtain ⟨hr, hpad, hfinal, hbuf⟩ := h
  have hwhole := (hleft ▸ hbuf).whole m
  unfold Crypto.updateWhole
  by_cases hlong : 16 ≤ m.length
  · simp only [if_pos hlong]
    refine ⟨hr, hpad, hfinal, ?_⟩
    have hh : (poly1305Blocks st (m.take (m.length / 16 * 16))).h =
        feed 16 (polyBlock (poly1305Init key []).r hibit) st.h m := by
      rw [poly1305Blocks_h hr hfinal, feed_take]
    show Buffered _ _ _ _ (poly1305Blocks st _).h (st.leftover + (rest 16 m).length)
      (writeAt st.buffer st.leftover (rest 16 m))
    rw [hh, hleft, zero_add]
    exact hwhole
  · simp only [if_neg hlong, drop_zero]
    exact ⟨hr, hpad, hfinal, hbuf.short (by omega)⟩

/-- **The pieces in which a message comes do not matter.** -/
theorem Fed.update (h : Fed key msg st) (m : Bytes) : Fed key (msg ++ m) (poly1305Update st m) := by
  unfold poly1305Update
  split
  case isFalse hzero => exact h.updateWhole (not_not.1 hzero) m
  case isTrue hpos =>
    obtain ⟨hr, hpad, hfinal, hbuf⟩ := h
    dsimp only
    split
    case isTrue hshort =>
      have hwant : min (16 - st.leftover) m.length = m.length := by omega
      rw [hwant, take_length]
      exact ⟨hr, hpad, hfinal, hbuf.short (by omega)⟩
    case isFalse hfull =>
      have hwant : min (16 - st.leftover) m.length = 16 - st.leftover := by omega
      have hlong : 16 - st.leftover ≤ m.length := by omega
      have hmsg : msg ++ m =
          (msg ++ m.take (16 - st.leftover)) ++ m.drop (16 - st.leftover) := by
        rw [append_assoc, take_append_drop]
      rw [hwant, hmsg]
      refine .updateWhole ?_ rfl _
      refine ⟨hr, hpad, hfinal, ?_⟩
      show Buffered _ _ _ _ (feed 16 (polyBlock st.r (if st.final then 0 else hibit)) st.h
        ((writeAt st.buffer st.leftover (m.take (16 - st.leftover))).take 16)) 0 _
      rw [hr, hfinal]
      exact hbuf.fill hlong _

end Update

section

variable (key : Fin 32 → UInt8)

lemma fed_foldl (buffer : Bytes) (pieces : List Bytes) :
    Fed key pieces.flatten (pieces.foldl poly1305Update (poly1305Init key buffer)) := by
  induction pieces using reverseRecOn with
  | nil => exact fed_init key buffer
  | append_singleton ps p ih =>
    rw [foldl_append, flatten_append, flatten_singleton]
    exact ih.update p

/-! ## The final reduction -/

lemma toNat_addShr {a : UInt32} (ha : a.toNat < 2 ^ 26) (x : UInt32) :
    (a + (x >>> 26)).toNat = a.toNat + x.toNat / 2 ^ 26 := by
  have hx := x.toNat_lt
  rw [UInt32.toNat_add, toNat_shr 26 (by decide)]
  show (_ + x.toNat / 2 ^ 26) % 2 ^ 32 = _
  omega

lemma toNat_addShrFive {a : UInt32} (ha : a.toNat < 2 ^ 26) (x : UInt32) :
    (a + (x >>> 26) * 5).toNat = a.toNat + x.toNat / 2 ^ 26 * 5 := by
  have hx := x.toNat_lt
  rw [UInt32.toNat_add, UInt32.toNat_mul, toNat_shr 26 (by decide)]
  show (_ + x.toNat / 2 ^ 26 * 5 % 2 ^ 32) % 2 ^ 32 = _
  omega

lemma toNat_low26_lt (x : UInt32) : (x &&& 0x3ffffff).toNat < 2 ^ 26 := by
  rw [toNat_low26]
  exact mod_lt _ (by decide)

lemma nats_finishCarry (hh : (nats h).Reduced) : nats (finishCarry h) = (nats h).settle := by
  obtain ⟨h0, -, h2, h3, h4⟩ := hh
  ext <;> simp only [Limbs.map, finishCarry, settle, toNat_low26, toNat_addShr h2, toNat_addShr h3,
    toNat_addShr h4, toNat_addShrFive h0, toNat_addShr (toNat_low26_lt h.l1)]

/-- The digits of `h + 5`, the top one without the carry taken out. -/
def plusFive (x : Limbs ℕ) : Limbs ℕ :=
  let u0 := x.l0 + 5
  let u1 := x.l1 + u0 / 2 ^ 26
  let u2 := x.l2 + u1 / 2 ^ 26
  let u3 := x.l3 + u2 / 2 ^ 26
  ⟨u0 % 2 ^ 26, u1 % 2 ^ 26, u2 % 2 ^ 26, u3 % 2 ^ 26, x.l4 + u3 / 2 ^ 26⟩

lemma value_plusFive (x : Limbs ℕ) : (plusFive x).value = x.value + 5 := by
  simp only [plusFive, value]
  omega

lemma nats_minusP (hh : (nats h).Small) :
    nats (minusP h) = { plusFive (nats h) with
      l4 := ((plusFive (nats h)).l4 + (2 ^ 32 - 2 ^ 26)) % 2 ^ 32 } := by
  obtain ⟨h0, h1, h2, h3, h4⟩ := hh
  have hfive : (h.l0 + 5).toNat = h.l0.toNat + 5 := by
    exact mod_eq_of_lt (Nat.add_lt_add_right (h0.trans (by decide)) 5)
  ext <;> simp only [Limbs.map, minusP, plusFive, UInt32.toNat_sub, toNat_low26, hfive,
    toNat_addShr h1, toNat_addShr h2, toNat_addShr h3, toNat_addShr h4]
  rw [add_comm]
  rfl

lemma plusFive_lt {x : Limbs ℕ} (hx : x.Small) :
    (plusFive x).l0 < 2 ^ 26 ∧ (plusFive x).l1 < 2 ^ 26 ∧ (plusFive x).l2 < 2 ^ 26 ∧
      (plusFive x).l3 < 2 ^ 26 ∧ (plusFive x).l4 ≤ 2 ^ 26 := by
  obtain ⟨h0, h1, h2, h3, h4⟩ := hx
  simp only [plusFive]
  omega

lemma minusP_top (hh : (nats h).Small) :
    ((plusFive (nats h)).l4 < 2 ^ 26 ∧ (minusP h).l4 >>> 31 = 1) ∨
      ((plusFive (nats h)).l4 = 2 ^ 26 ∧ (minusP h).l4 = 0) := by
  have hg4 : (minusP h).l4.toNat = ((plusFive (nats h)).l4 + (2 ^ 32 - 2 ^ 26)) % 2 ^ 32 :=
    congrArg l4 (nats_minusP hh)
  obtain ⟨-, -, -, -, u4⟩ := plusFive_lt hh
  rcases lt_or_ge (plusFive (nats h)).l4 (2 ^ 26) with hlt | hge
  · refine .inl ⟨hlt, ?_⟩
    rw [← UInt32.toNat_inj, toNat_shr 31 (by decide), hg4]
    show _ / 2 ^ 31 = 1
    omega
  · refine .inr ⟨by omega, ?_⟩
    rw [← UInt32.toNat_inj, hg4]
    show _ = 0
    omega

/-- **The selection gives the remainder.** -/
lemma selectLimbs_spec (hh : (nats h).Small) :
    (nats (selectLimbs h (minusP h))).Small ∧
      (nats (selectLimbs h (minusP h))).value = (nats h).value % (2 ^ 130 - 5) := by
  have hval := value_plusFive (nats h)
  obtain ⟨u0, u1, u2, u3, u4⟩ := plusFive_lt hh
  rw [hh.value_mod]
  rcases minusP_top hh with ⟨hlt, hshift⟩ | ⟨hge, htop⟩
  · -- the difference is negative
    have hsel : selectLimbs h (minusP h) = h := by
      simp [selectLimbs, hshift]
    rw [hsel, if_neg]
    · exact ⟨hh, rfl⟩
    · rw [← hval]
      generalize plusFive (nats h) = u at *
      simp only [value]
      omega
  · have hsel : selectLimbs h (minusP h) = minusP h := by
      have hall : ((minusP h).l4 >>> 31) - 1 = -1 := by rw [htop]; rfl
      simp [selectLimbs, hall]
    have hg : nats (minusP h) = { plusFive (nats h) with l4 := 0 } := by
      rewrite [nats_minusP hh, hge]
      rfl
    rw [hsel, hg]
    generalize plusFive (nats h) = u at *
    rw [if_pos]
    · refine ⟨⟨u0, u1, u2, u3, Nat.two_pow_pos 26⟩, ?_⟩
      rw [← hval]
      simp only [value]
      omega
    · rw [← hval]
      simp only [value]
      omega

/-! ## The tag -/

def wordsNumber (w : Fin 4 → UInt32) : ℕ :=
  (w 0).toNat + 2 ^ 32 * (w 1).toNat + 2 ^ 64 * (w 2).toNat + 2 ^ 96 * (w 3).toNat

lemma wordsNumber_packWords (hh : (nats h).Small) :
    wordsNumber (packWords h) = (nats h).value % 2 ^ 128 := by
  obtain ⟨h0, h1, h2, h3, h4⟩ := hh
  simp only [Limbs.map] at h0 h1 h2 h3 h4
  have s1 : (h.l1 >>> 6).toNat = h.l1.toNat / 2 ^ 6 := toNat_shr 6 (by decide)
  have s2 : (h.l2 >>> 12).toNat = h.l2.toNat / 2 ^ 12 := toNat_shr 12 (by decide)
  have s3 : (h.l3 >>> 18).toNat = h.l3.toNat / 2 ^ 18 := toNat_shr 18 (by decide)
  have w0 : (packWords h 0).toNat = (h.l0.toNat + 2 ^ 26 * h.l1.toNat) % 2 ^ 32 :=
    toNat_pack (by decide) rfl h0
  have w1 : (packWords h 1).toNat = (h.l1.toNat / 2 ^ 6 + 2 ^ 20 * h.l2.toNat) % 2 ^ 32 :=
    toNat_pack (by decide) s1 (by show _ < 2 ^ 20; omega)
  have w2 : (packWords h 2).toNat = (h.l2.toNat / 2 ^ 12 + 2 ^ 14 * h.l3.toNat) % 2 ^ 32 :=
    toNat_pack (by decide) s2 (by show _ < 2 ^ 14; omega)
  have w3 : (packWords h 3).toNat = (h.l3.toNat / 2 ^ 18 + 2 ^ 8 * h.l4.toNat) % 2 ^ 32 :=
    toNat_pack (by decide) s3 (by show _ < 2 ^ 8; omega)
  simp only [wordsNumber, w0, w1, w2, w3, value, Limbs.map]
  omega

/-- **Adding the second half of the key.** -/
lemma leNat_addPad (w pad : Fin 4 → UInt32) :
    leNat (addPad w pad) = (wordsNumber w + wordsNumber pad) % 2 ^ 128 := by
  have hshr : ∀ x : UInt64, (x >>> 32).toNat = x.toNat / 2 ^ 32 := fun x => by
    exact shiftRight_eq_div_pow _ 32
  have w0 := (w 0).toNat_lt
  have w1 := (w 1).toNat_lt
  have p0 := (pad 0).toNat_lt
  have p1 := (pad 1).toNat_lt
  simp only [addPad, leNat_append, leNat_store32Le, length_append, length_store32Le,
    UInt64.toNat_toUInt32, UInt64.toNat_add, UInt32.toNat_toUInt64, hshr, wordsNumber]
  omega

lemma wordsNumber_pad (buffer : Bytes) :
    wordsNumber (poly1305Init key buffer).pad = padNumber key := by
  have hlt := leNat_lt (ofFn key)
  rw [length_ofFn] at hlt
  simp only [wordsNumber, poly1305Init, toNat_load32Le, padNumber, leNat_drop]
  show leNat (ofFn key) / 256 ^ 16 % 2 ^ 32 + 2 ^ 32 * (leNat (ofFn key) / 256 ^ 20 % 2 ^ 32) +
    2 ^ 64 * (leNat (ofFn key) / 256 ^ 24 % 2 ^ 32) +
    2 ^ 96 * (leNat (ofFn key) / 256 ^ 28 % 2 ^ 32) = _
  omega

/-- The limbs after the whole blocks of a message. -/
def accumulator (key : Fin 32 → UInt8) (msg : Bytes) : Limbs UInt32 :=
  Blocks.feed 16 (polyBlock (poly1305Init key []).r hibit) ⟨0, 0, 0, 0, 0⟩ msg

lemma small_init_r : (nats (poly1305Init key []).r).Small := by
  rw [nats_init_r]
  exact small_ofNat (clampR_lt key)

lemma value_init_r : (nats (poly1305Init key []).r).value = clampR key := by
  rw [nats_init_r, value_ofNat]

lemma accumulator_spec (msg : Bytes) :
    (nats (accumulator key msg)).Reduced ∧ (nats (accumulator key msg)).value ≡
      polySum (clampR key) ((cut 16 (msg.take (msg.length / 16 * 16))).map blockNumber)
      [MOD 2 ^ 130 - 5] := by
  have hfull := dvd_length_take 16 msg
  have hspec := foldl_polyBlock_spec (small_init_r key)
    (cut 16 (msg.take (msg.length / 16 * 16))) (length_of_mem_cut hfull)
  rwa [← feed_eq_foldl hfull, feed_take, value_init_r] at hspec

end

lemma Fed.finishBlock (h : Fed key msg st) :
    (nats (finishBlock st).h).Reduced ∧ (finishBlock st).pad = (poly1305Init key []).pad ∧
      (nats (finishBlock st).h).value ≡
        polySum (clampR key) ((cut 16 msg).map blockNumber) [MOD 2 ^ 130 - 5] := by
  have hr := small_init_r key
  obtain ⟨hred, hval⟩ := accumulator_spec key msg
  rw [accumulator, ← h.buffered.state] at hred hval
  unfold Crypto.finishBlock
  split
  case isFalse hzero =>
    rw [not_not, h.buffered.leftover, length_eq_zero_iff] at hzero
    refine ⟨hred, h.pad, ?_⟩
    rwa [cut_eq, hzero, cut_nil, append_nil]
  case isTrue hpos =>
    have hlt := length_rest_lt (n := 16) msg
    rw [h.buffered.leftover] at hpos
    have hne : rest 16 msg ≠ [] := length_pos_iff.1 (by omega)
    have hlen : (rest 16 msg ++ 1 ::
        replicate (15 - (rest 16 msg).length) 0).length = 16 := by
      simp only [length_append, length_cons, length_replicate]
      omega
    have hnum : leNat (rest 16 msg ++ 1 ::
        replicate (15 - (rest 16 msg).length) 0) = blockNumber (rest 16 msg) := by
      rw [leNat_append, leNat_cons, leNat_replicate_zero, blockNumber]
      show _ + _ * (1 + 256 * 0) = _
      rw [mul_zero, add_zero, mul_one]
    obtain ⟨hred', hval'⟩ := polyBlock_spec (.inl rfl) hr hred hlen
    have hh : (poly1305Blocks { st with
        buffer := st.buffer.take st.leftover ++ 1 :: replicate (15 - st.leftover) 0, final := true }
        (st.buffer.take st.leftover ++ 1 :: replicate (15 - st.leftover) 0)).h =
        polyBlock (poly1305Init key []).r 0 st.h (rest 16 msg ++ 1 ::
          replicate (15 - (rest 16 msg).length) 0) := by
      rw [h.buffered.buffer, h.buffered.leftover, ← h.r]
      exact feed_of_length_eq hlen
    rw [hh]
    refine ⟨hred', h.pad, hval'.trans ?_⟩
    rw [cut_eq, cut_of_le hne hlt.le, map_append, map_singleton, polySum_concat, value_init_r, hnum]
    exact .mul_right _ (.add hval rfl)

lemma Fed.small_finish (h : Fed key msg st) :
    (nats (finishCarry (Crypto.finishBlock st).h)).Small := by
  rw [nats_finishCarry h.finishBlock.1]
  exact h.finishBlock.1.settle

/-- **The tag of a message.** -/
theorem Fed.leNat_finish (h : Fed key msg st) : leNat (poly1305Finish st) = tagNumber key msg := by
  obtain ⟨hred, hpad, hval⟩ := h.finishBlock
  obtain ⟨hsmall', hsel⟩ := selectLimbs_spec h.small_finish
  have hmod : (nats (finishCarry (Crypto.finishBlock st).h)).value % (2 ^ 130 - 5) =
      polySum (clampR key) ((cut 16 msg).map blockNumber) % (2 ^ 130 - 5) := by
    rw [nats_finishCarry hred]
    exact (value_settle _).trans hval
  rw [poly1305Finish, leNat_addPad, wordsNumber_packWords hsmall', hsel, hpad,
    wordsNumber_pad, hmod, tagNumber]
  exact mod_add_mod _ _ _

@[simp] lemma length_poly1305Finish (st : Poly1305Ctx) : (poly1305Finish st).length = 16 := rfl

end SubOS.Crypto
