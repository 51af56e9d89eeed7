import Mathlib.Data.Nat.Digits.Lemmas
import SubOS.Lib.Blocks

set_option autoImplicit false

/-!
# ChaCha20

The stream cipher of `crypto/chacha20poly1305.c`, and what its loads, stores, shifts and masks do to
the numbers that words and little-endian byte strings stand for.

## Main definitions

* `chacha20Xor`, `leNat` — the cipher, and the number of a little-endian byte string.

## Main results

* `getElem?_chacha20Xor`, `chacha20Xor_chacha20Xor` — the bytes of the cipher text.

## Design

A pointer into a byte string is the string and an offset; reading behind the end, which no caller
does, gives 0.
-/

namespace SubOS.Crypto

open UInt32 Nat

abbrev Bytes := List UInt8

/-- `uint32_t state[16]`. -/
abbrev State := Vector UInt32 16

lemma word_lt (a : Fin 16) : (a : ℕ) < 16 := a.2

scoped instance neZeroWords : NeZero 4 := ⟨by decide⟩

scoped instance neZeroBlock : NeZero 16 := ⟨by decide⟩

scoped instance neZeroStream : NeZero 64 := ⟨by decide⟩

/-! ## Words -/

def rotl32 (x n : UInt32) : UInt32 := (x <<< n) ||| (x >>> (32 - n))

/-- `load32_le(p + i)`. -/
def load32Le (p : Bytes) (i : ℕ) : UInt32 :=
  (p.getD i 0).toUInt32 ||| ((p.getD (i + 1) 0).toUInt32 <<< 8) |||
    ((p.getD (i + 2) 0).toUInt32 <<< 16) ||| ((p.getD (i + 3) 0).toUInt32 <<< 24)

def store32Le (v : UInt32) : Bytes :=
  [v.toUInt8, (v >>> 8).toUInt8, (v >>> 16).toUInt8, (v >>> 24).toUInt8]

/-! ## The block function -/

/-- `QR`, on four words of the state. -/
def quarterRound (x : State) (a b c d : Fin 16) : State :=
  let x := x.set a (x[a] + x[b])
  let x := x.set d (rotl32 (x[d] ^^^ x[a]) 16)
  let x := x.set c (x[c] + x[d])
  let x := x.set b (rotl32 (x[b] ^^^ x[c]) 12)
  let x := x.set a (x[a] + x[b])
  let x := x.set d (rotl32 (x[d] ^^^ x[a]) 8)
  let x := x.set c (x[c] + x[d])
  x.set b (rotl32 (x[b] ^^^ x[c]) 7)

/-- The words of the eight quarter rounds of a double round. -/
def quarters : List (Fin 16 × Fin 16 × Fin 16 × Fin 16) :=
  [(0, 4, 8, 12), (1, 5, 9, 13), (2, 6, 10, 14), (3, 7, 11, 15),
    (0, 5, 10, 15), (1, 6, 11, 12), (2, 7, 8, 13), (3, 4, 9, 14)]

/-- One round of the loop of `chacha20_block`. -/
def doubleRound (x : State) : State :=
  quarters.foldl (fun x q => quarterRound x q.1 q.2.1 q.2.2.1 q.2.2.2) x

def chacha20Block (input : State) : Bytes :=
  (Vector.zipWith (· + ·) (doubleRound^[10] input) input).toList.flatMap store32Le

def chacha20Init (key : Fin 32 → UInt8) (counter : UInt32) (nonce : Fin 12 → UInt8) : State :=
  let k := List.ofFn key
  let n := List.ofFn nonce
  ⟨#[0x61707865, 0x3320646e, 0x79622d32, 0x6b206574,
    load32Le k 0, load32Le k 4, load32Le k 8, load32Le k 12,
    load32Le k 16, load32Le k 20, load32Le k 24, load32Le k 28,
    counter, load32Le n 0, load32Le n 4, load32Le n 8], rfl⟩

/-! ## The cipher -/

/-- `state[12]++`. -/
def nextBlock (state : State) : State := state.set 12 (state[12] + 1)

/-- `chacha20_xor`: what is written to `dst`. -/
def chacha20Xor (src : Bytes) (key : Fin 32 → UInt8) (counter : UInt32) (nonce : Fin 12 → UInt8) :
    Bytes :=
  Blocks.mask 64 chacha20Block nextBlock (chacha20Init key counter nonce) src

@[simp] lemma length_chacha20Block (input : State) : (chacha20Block input).length = 64 := by
  have hsum : ∀ ws : List UInt32, (ws.flatMap store32Le).length = 4 * ws.length := by
    intro ws
    induction ws with
    | nil => rfl
    | cons w ws ih =>
      rw [List.flatMap_cons, List.length_append, ih, List.length_cons]
      simp only [store32Le, List.length_cons, List.length_nil]
      omega
  rw [chacha20Block, hsum, Vector.length_toList]

variable (src : Bytes) (key : Fin 32 → UInt8) (p : Bytes) (v counter : UInt32)
  (nonce : Fin 12 → UInt8) (i : ℕ)

lemma iterate_nextBlock (k : ℕ) : nextBlock^[k] (chacha20Init key counter nonce) =
      chacha20Init key (counter + ofNat k) nonce := by
  induction k with
  | zero => rw [Function.iterate_zero_apply, show ofNat 0 = 0 from rfl, add_zero]
  | succ k ih =>
    rw [Function.iterate_succ_apply', ih, ofNat_add, ← add_assoc]
    rfl

/-- **Byte `i` is combined with byte `i % 64` of block `counter + i / 64`.** -/
theorem getElem?_chacha20Xor : (chacha20Xor src key counter nonce)[i]? = src[i]?.map (· ^^^
      (chacha20Block (chacha20Init key (counter + ofNat (i / 64)) nonce)).getD (i % 64) 0) := by
  rw [chacha20Xor, Blocks.getElem?_mask length_chacha20Block, iterate_nextBlock]

@[simp] lemma length_chacha20Xor : (chacha20Xor src key counter nonce).length = src.length :=
  Blocks.length_mask length_chacha20Block _ src

/-- **Encrypting twice gives the text back.** -/
theorem chacha20Xor_chacha20Xor :
    chacha20Xor (chacha20Xor src key counter nonce) key counter nonce = src :=
  Blocks.mask_mask length_chacha20Block _ src

/-! ## Byte strings -/

/-- The number of a little-endian byte string. -/
def leNat (p : Bytes) : ℕ := Nat.ofDigits 256 (p.map UInt8.toNat)

@[simp] lemma leNat_nil : leNat [] = 0 := rfl

lemma leNat_cons (b : UInt8) (p : Bytes) : leNat (b :: p) = b.toNat + 256 * leNat p := by
  rw [leNat, List.map_cons, ofDigits_cons]
  rfl

lemma leNat_append (p q : Bytes) : leNat (p ++ q) = leNat p + 256 ^ p.length * leNat q := by
  rw [leNat, List.map_append, ofDigits_append, List.length_map]
  rfl

lemma leNat_lt : leNat p < 256 ^ p.length := by
  have h := ofDigits_lt_base_pow_length (b := 256) (l := p.map UInt8.toNat) (by decide)
    (fun x hx => by
      obtain ⟨b, -, rfl⟩ := List.mem_map.1 hx
      exact b.toNat_lt)
  rwa [List.length_map] at h

lemma leNat_inj {p q : Bytes} (hlen : p.length = q.length) (h : leNat p = leNat q) : p = q := by
  induction p generalizing q with
  | nil => exact (List.length_eq_zero_iff.1 hlen.symm).symm
  | cons b p ih =>
    cases q with
    | nil => cases hlen
    | cons c q =>
      rw [leNat_cons, leNat_cons] at h
      have hb := b.toNat_lt
      have hc := c.toNat_lt
      have hhead : b = c := UInt8.toNat_inj.1 (by omega)
      have htail : p = q := ih (succ.inj hlen) (by omega)
      rw [hhead, htail]

lemma leNat_replicate_zero (n : ℕ) : leNat (List.replicate n 0) = 0 := by
  induction n with
  | zero => rfl
  | succ n ih =>
    rw [List.replicate_succ, leNat_cons, ih]
    rfl

lemma leNat_eq_getD : leNat p = (p.getD 0 0).toNat + 256 * leNat (p.drop 1) := by
  cases p with
  | nil => rfl
  | cons b p => exact leNat_cons b p

lemma leNat_drop : leNat (p.drop i) = leNat p / 256 ^ i := by
  induction i with
  | zero => simp
  | succ i ih =>
    have hstep := leNat_eq_getD (p.drop i)
    have hb := ((p.drop i).getD 0 0).toNat_lt
    rw [List.drop_drop] at hstep
    rw [pow_succ, ← Nat.div_div_eq_div_mul, ← ih, hstep]
    omega

lemma leNat_take : leNat (p.take i) = leNat p % 256 ^ i := by
  have h : leNat p = leNat (p.take i) + 256 ^ (p.take i).length * leNat (p.drop i) := by
    rw [← leNat_append, List.take_append_drop]
  have hlt := leNat_lt (p.take i)
  rcases lt_or_ge p.length i with hlen | hlen
  · have hall := leNat_lt p
    rw [List.take_of_length_le hlen.le, mod_eq_of_lt]
    exact hall.trans_le (Nat.pow_le_pow_right (by decide) hlen.le)
  · rw [List.length_take, min_eq_left hlen] at h hlt
    rw [h, add_mul_mod_self_left, mod_eq_of_lt hlt]

/-! ## Words -/

lemma toNat_pack {a b k : UInt32} {n : ℕ} (hk : k.toNat < 32) (hn : a.toNat = n)
    (ha : n < 2 ^ k.toNat) : (a ||| (b <<< k)).toNat = (n + 2 ^ k.toNat * b.toNat) % 2 ^ 32 := by
  subst hn
  have hpow : 2 ^ 32 = 2 ^ k.toNat * 2 ^ (32 - k.toNat) := by
    rw [← pow_add, Nat.add_sub_cancel' hk.le]
  have hshift : (b <<< k).toNat = 2 ^ k.toNat * (b.toNat % 2 ^ (32 - k.toNat)) := by
    rw [UInt32.toNat_shiftLeft, mod_eq_of_lt hk, shiftLeft_eq, mul_comm, hpow, mul_mod_mul_left]
  rw [UInt32.toNat_or, hshift, Nat.or_comm, ← two_pow_add_eq_or_of_lt ha, add_comm, hpow, mod_mul,
    add_mul_mod_self_left, mod_eq_of_lt ha,
    add_mul_div_left _ _ (Nat.two_pow_pos _), div_eq_of_lt ha, zero_add]

lemma toNat_shr {x : UInt32} (k : UInt32) (hk : k.toNat < 32) :
    (x >>> k).toNat = x.toNat / 2 ^ k.toNat := by
  rw [UInt32.toNat_shiftRight, mod_eq_of_lt hk, shiftRight_eq_div_pow]

/-- A word put together from the high bits of one word and the low bits of the next. -/
lemma toNat_window {a b k l : UInt32} (hk : k.toNat < 32) (hl : l.toNat < 32)
    (hsum : k.toNat + l.toNat = 32) :
    ((a >>> k) ||| (b <<< l)).toNat = (a.toNat + 2 ^ 32 * b.toNat) / 2 ^ k.toNat % 2 ^ 32 := by
  have hpow : 2 ^ 32 = 2 ^ k.toNat * 2 ^ l.toNat := by
    rw [← pow_add, hsum]
  rw [toNat_pack hl (toNat_shr k hk)]
  · conv_rhs => rw [hpow, mul_assoc, add_mul_div_left _ _ (Nat.two_pow_pos _)]
    rw [← hpow]
  · rw [div_lt_iff_lt_mul (Nat.two_pow_pos _), mul_comm, ← hpow]
    exact a.toNat_lt

lemma toNat_low26 (x : UInt32) : (x &&& 0x3ffffff).toNat = x.toNat % 2 ^ 26 := by
  exact and_two_pow_sub_one_eq_mod _ 26

/-- **A load takes 32 bits out of the number.** -/
theorem toNat_load32Le : (load32Le p i).toNat = leNat p / 256 ^ i % 2 ^ 32 := by
  have h0 := leNat_eq_getD (p.drop i)
  have h1 := leNat_eq_getD (p.drop (i + 1))
  have h2 := leNat_eq_getD (p.drop (i + 2))
  have h3 := leNat_eq_getD (p.drop (i + 3))
  have hget : ∀ k, (p.drop k).getD 0 0 = p.getD k 0 := fun k => by
    simp [List.getD_eq_getElem?_getD]
  simp only [List.drop_drop, hget, add_assoc, Nat.reduceAdd] at h0 h1 h2 h3
  have b0 := (p.getD i 0).toNat_lt
  have b1 := (p.getD (i + 1) 0).toNat_lt
  have b2 := (p.getD (i + 2) 0).toNat_lt
  have b3 := (p.getD (i + 3) 0).toNat_lt
  have hword : (load32Le p i).toNat = (p.getD i 0).toNat + 256 * (p.getD (i + 1) 0).toNat +
      65536 * (p.getD (i + 2) 0).toNat + 16777216 * (p.getD (i + 3) 0).toNat := by
    have e1 : ((p.getD i 0).toUInt32 ||| ((p.getD (i + 1) 0).toUInt32 <<< 8)).toNat =
        (p.getD i 0).toNat + 256 * (p.getD (i + 1) 0).toNat := by
      rw [toNat_pack (by decide) rfl (by exact b0)]
      show ((p.getD i 0).toNat + 2 ^ 8 * (p.getD (i + 1) 0).toNat) % 2 ^ 32 = _
      omega
    have e2 : ((p.getD i 0).toUInt32 ||| ((p.getD (i + 1) 0).toUInt32 <<< 8) |||
        ((p.getD (i + 2) 0).toUInt32 <<< 16)).toNat = (p.getD i 0).toNat +
          256 * (p.getD (i + 1) 0).toNat + 65536 * (p.getD (i + 2) 0).toNat := by
      rw [toNat_pack (by decide) e1 (by show _ < 2 ^ 16; omega)]
      show (_ + 2 ^ 16 * (p.getD (i + 2) 0).toNat) % 2 ^ 32 = _
      omega
    rw [load32Le, toNat_pack (by decide) e2 (by show _ < 2 ^ 24; omega)]
    show (_ + 2 ^ 24 * (p.getD (i + 3) 0).toNat) % 2 ^ 32 = _
    omega
  rw [hword, ← leNat_drop]
  omega

@[simp] lemma length_store32Le : (store32Le v).length = 4 := rfl

/-- **A store writes the number of the word.** -/
theorem leNat_store32Le : leNat (store32Le v) = v.toNat := by
  have hv := v.toNat_lt
  simp only [store32Le, leNat_cons, leNat_nil, toNat_toUInt8]
  rw [toNat_shr 8 (by decide), toNat_shr 16 (by decide), toNat_shr 24 (by decide)]
  show v.toNat % 2 ^ 8 + 256 * (v.toNat / 2 ^ 8 % 2 ^ 8 + 256 * (v.toNat / 2 ^ 16 % 2 ^ 8 +
    256 * (v.toNat / 2 ^ 24 % 2 ^ 8 + 256 * 0))) = _
  omega

end SubOS.Crypto
