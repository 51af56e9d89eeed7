import SubOS.Crypto.Poly1305

set_option autoImplicit false

/-!
# Poly1305 in Rust

The authenticator of `rust/src/crypto/poly1305.rs`. It uses the limbs of the C function, but loads
whole words, and its block multiplication is in 64-bit numbers throughout.

## Main definitions

* `Poly1305.new`, `Poly1305.update`, `Poly1305.finalize` — the functions.

## Main results

* `poly1305_eq_tagNumber` — the tag is the value of the polynomial, as for the C functions.
-/

namespace SubOS.Crypto.Rust

open List Limbs Nat Blocks

/-! ## Numbers -/

/-- `u32::from_le_bytes` of the four bytes at `i`. -/
def fromLeBytes (p : Bytes) (i : ℕ) : UInt32 := UInt32.ofNat (leNat ((p.drop i).take 4))

/-- `u32::to_le_bytes`. -/
def toLeBytes (v : UInt32) : Bytes := (List.range 4).map fun i => UInt8.ofNat (v.toNat / 256 ^ i)

lemma fromLeBytes_eq (p : Bytes) (i : ℕ) : fromLeBytes p i = load32Le p i := by
  rw [← UInt32.toNat_inj, toNat_load32Le, fromLeBytes, leNat_take, leNat_drop, UInt32.toNat_ofNat']
  omega

lemma toLeBytes_eq (v : UInt32) : toLeBytes v = store32Le v := by
  refine leNat_inj rfl ?_
  rw [leNat_store32Le]
  have hv := v.toNat_lt
  show leNat [UInt8.ofNat (v.toNat / 256 ^ 0), UInt8.ofNat (v.toNat / 256 ^ 1),
    UInt8.ofNat (v.toNat / 256 ^ 2), UInt8.ofNat (v.toNat / 256 ^ 3)] = _
  simp only [leNat_cons, leNat_nil, UInt8.toNat_ofNat']
  omega

/-! ## The context -/

structure Poly1305 where
  r : Limbs UInt32
  h : Limbs UInt32
  pad : Fin 4 → UInt32
  leftover : ℕ
  buffer : Bytes

/-- `Poly1305::new`. -/
def Poly1305.new (key : Fin 32 → UInt8) : Poly1305 :=
  let k := List.ofFn key
  let t0 := fromLeBytes k 0
  let t1 := fromLeBytes k 4
  let t2 := fromLeBytes k 8
  let t3 := fromLeBytes k 12
  { r := ⟨t0 &&& 0x3ffffff, ((t0 >>> 26) ||| (t1 <<< 6)) &&& 0x3ffff03,
      ((t1 >>> 20) ||| (t2 <<< 12)) &&& 0x3ffc0ff, ((t2 >>> 14) ||| (t3 <<< 18)) &&& 0x3f03fff,
      (t3 >>> 8) &&& 0x00fffff⟩
    h := ⟨0, 0, 0, 0, 0⟩
    pad := fun i => fromLeBytes k (16 + 4 * i)
    leftover := 0
    buffer := List.replicate 16 0 }

/-! ## The block multiplication -/

/-- The limbs with a block added. -/
def addBlock (isFinal : Bool) (h : Limbs UInt32) (m : Bytes) : Limbs UInt64 :=
  let hibit : UInt32 := if isFinal then 0 else (1 : UInt32) <<< 24
  let t0 := fromLeBytes m 0
  let t1 := fromLeBytes m 4
  let t2 := fromLeBytes m 8
  let t3 := fromLeBytes m 12
  { l0 := h.l0.toUInt64 + (t0 &&& 0x3ffffff).toUInt64
    l1 := h.l1.toUInt64 + (((t0 >>> 26) ||| (t1 <<< 6)) &&& 0x3ffffff).toUInt64
    l2 := h.l2.toUInt64 + (((t1 >>> 20) ||| (t2 <<< 12)) &&& 0x3ffffff).toUInt64
    l3 := h.l3.toUInt64 + (((t2 >>> 14) ||| (t3 <<< 18)) &&& 0x3ffffff).toUInt64
    l4 := h.l4.toUInt64 + ((t3 >>> 8) ||| hibit).toUInt64 }

/-- The sums `d0`, ..., `d4`. -/
def productSums (h : Limbs UInt64) (r : Limbs UInt32) : Limbs UInt64 :=
  let r0 := r.l0.toUInt64
  let r1 := r.l1.toUInt64
  let r2 := r.l2.toUInt64
  let r3 := r.l3.toUInt64
  let r4 := r.l4.toUInt64
  let s1 := r1 * 5
  let s2 := r2 * 5
  let s3 := r3 * 5
  let s4 := r4 * 5
  { l0 := h.l0 * r0 + h.l1 * s4 + h.l2 * s3 + h.l3 * s2 + h.l4 * s1
    l1 := h.l0 * r1 + h.l1 * r0 + h.l2 * s4 + h.l3 * s3 + h.l4 * s2
    l2 := h.l0 * r2 + h.l1 * r1 + h.l2 * r0 + h.l3 * s4 + h.l4 * s3
    l3 := h.l0 * r3 + h.l1 * r2 + h.l2 * r1 + h.l3 * r0 + h.l4 * s4
    l4 := h.l0 * r4 + h.l1 * r3 + h.l2 * r2 + h.l3 * r1 + h.l4 * r0 }

/-- The carries of `blocks`. -/
def carryLimbs (d : Limbs UInt64) : Limbs UInt32 :=
  let c := d.l0 >>> 26
  let h0 := d.l0 &&& 0x3ffffff
  let d1 := d.l1 + c
  let c := d1 >>> 26
  let h1 := d1 &&& 0x3ffffff
  let d2 := d.l2 + c
  let c := d2 >>> 26
  let h2 := d2 &&& 0x3ffffff
  let d3 := d.l3 + c
  let c := d3 >>> 26
  let h3 := d3 &&& 0x3ffffff
  let d4 := d.l4 + c
  let c := d4 >>> 26
  let h4 := d4 &&& 0x3ffffff
  let h0 := h0 + c * 5
  let c := h0 >>> 26
  let h0 := h0 &&& 0x3ffffff
  let h1 := h1 + c
  ⟨h0.toUInt32, h1.toUInt32, h2.toUInt32, h3.toUInt32, h4.toUInt32⟩

/-- One round of the loop of `blocks`. -/
def blockStep (r : Limbs UInt32) (isFinal : Bool) (h : Limbs UInt32) (m : Bytes) : Limbs UInt32 :=
  carryLimbs (productSums (addBlock isFinal h m) r)

/-- `Poly1305::blocks`. The callers pass full blocks only. -/
def Poly1305.blocks (p : Poly1305) (m : Bytes) (isFinal : Bool) : Poly1305 :=
  { p with h := Blocks.feed 16 (blockStep p.r isFinal) p.h m }

/-! ## Feeding a message -/

/-- The end of `update`, with the buffer empty. -/
def Poly1305.updateWhole (p : Poly1305) (data : Bytes) : Poly1305 :=
  let fullLen := if 16 ≤ data.length then data.length / 16 * 16 else 0
  let p := if 16 ≤ data.length then p.blocks (data.take fullLen) false else p
  if fullLen < data.length then
    { p with
      leftover := data.length - fullLen
      buffer := Blocks.writeAt p.buffer 0 (data.drop fullLen) }
  else p

/-- `Poly1305::update`. -/
def Poly1305.update (p : Poly1305) (data : Bytes) : Poly1305 :=
  if 0 < p.leftover then
    let want := 16 - p.leftover
    if data.length < want then
      { p with
        buffer := Blocks.writeAt p.buffer p.leftover data, leftover := p.leftover + data.length }
    else
      let p := { p with buffer := Blocks.writeAt p.buffer p.leftover (data.take want) }
      ({ p.blocks (p.buffer.take 16) false with leftover := 0 } : Poly1305).updateWhole
        (data.drop want)
  else p.updateWhole data

/-! ## The tag -/

def Poly1305.finishBlock (p : Poly1305) : Poly1305 :=
  if 0 < p.leftover then
    let buffer := p.buffer.take p.leftover ++ 1 :: List.replicate (15 - p.leftover) 0
    ({ p with buffer := buffer } : Poly1305).blocks buffer true
  else p

/-- The limbs `g` of `h + 5 - 2 ^ 130`, not masked. -/
def minusP (h : Limbs UInt32) : Limbs UInt32 :=
  let g0 := h.l0 + 5
  let c := g0 >>> 26
  let g1 := h.l1 + c
  let c := g1 >>> 26
  let g2 := h.l2 + c
  let c := g2 >>> 26
  let g3 := h.l3 + c
  let c := g3 >>> 26
  ⟨g0, g1, g2, g3, h.l4 + c - (1 : UInt32) <<< 26⟩

/-- Select `g` if it is not negative, and `h` otherwise. -/
def selectLimbs (h g : Limbs UInt32) : Limbs UInt32 :=
  let mask := (g.l4 >>> 31) - 1
  let nmask := ~~~mask
  ⟨(h.l0 &&& nmask) ||| (g.l0 &&& mask &&& 0x3ffffff),
    (h.l1 &&& nmask) ||| (g.l1 &&& mask &&& 0x3ffffff),
    (h.l2 &&& nmask) ||| (g.l2 &&& mask &&& 0x3ffffff),
      (h.l3 &&& nmask) ||| (g.l3 &&& mask &&& 0x3ffffff),
    (h.l4 &&& nmask) ||| (g.l4 &&& mask &&& 0x3ffffff)⟩

/-- The tag from the words and `pad`. -/
def addPad (w pad : Fin 4 → UInt32) : Bytes :=
  let f0 := (w 0).toUInt64 + (pad 0).toUInt64
  let f1 := (w 1).toUInt64 + (pad 1).toUInt64 + (f0 >>> 32)
  let f2 := (w 2).toUInt64 + (pad 2).toUInt64 + (f1 >>> 32)
  let f3 := (w 3).toUInt64 + (pad 3).toUInt64 + (f2 >>> 32)
  toLeBytes f0.toUInt32 ++ toLeBytes f1.toUInt32 ++ toLeBytes f2.toUInt32 ++ toLeBytes f3.toUInt32

/-- `Poly1305::finalize`. The first carries and the packing into words are those of
`poly1305_finish`, line by line. -/
def Poly1305.finalize (p : Poly1305) : Bytes :=
  let p := p.finishBlock
  let h := finishCarry p.h
  addPad (packWords (selectLimbs h (minusP h))) p.pad

/-! ## The same numbers as in C -/

lemma and_eq_and {a b m : UInt32} (hm : m.toNat < 2 ^ 26)
    (h : a.toNat % 2 ^ 26 = b.toNat % 2 ^ 26) : a &&& m = b &&& m := by
  rw [← UInt32.toNat_inj, UInt32.toNat_and, UInt32.toNat_and, and_of_lt hm, h, ← and_of_lt hm]

lemma window_eq (p : Bytes) {m : UInt32} (hm : m.toNat < 2 ^ 26) :
    ((fromLeBytes p 0 >>> 26) ||| (fromLeBytes p 4 <<< 6)) &&& m = (load32Le p 3 >>> 2) &&& m ∧
    ((fromLeBytes p 4 >>> 20) ||| (fromLeBytes p 8 <<< 12)) &&& m = (load32Le p 6 >>> 4) &&& m ∧
    ((fromLeBytes p 8 >>> 14) ||| (fromLeBytes p 12 <<< 18)) &&& m =
      (load32Le p 9 >>> 6) &&& m := by
  simp only [fromLeBytes_eq]
  refine ⟨and_eq_and hm ?_, and_eq_and hm ?_, and_eq_and hm ?_⟩
  all_goals
    rw [toNat_window (by decide) (by decide) (by decide), toNat_shr _ (by decide), toNat_load32Le,
      toNat_load32Le, toNat_load32Le]
    simp only [UInt32.reduceToNat]
    omega

lemma new_r (key : Fin 32 → UInt8) : (Poly1305.new key).r = (poly1305Init key []).r := by
  have hload := fromLeBytes_eq (ofFn key)
  refine Limbs.ext ?_ ?_ ?_ ?_ ?_
  · show fromLeBytes _ 0 &&& 0x3ffffff = _
    rw [hload]
    rfl
  · exact (window_eq _ (by decide)).1
  · exact (window_eq _ (by decide)).2.1
  · exact (window_eq _ (by decide)).2.2
  · show (fromLeBytes _ 12 >>> 8) &&& 0x00fffff = _
    rw [hload]
    rfl

lemma new_pad (key : Fin 32 → UInt8) : (Poly1305.new key).pad = (poly1305Init key []).pad :=
  funext fun _ => fromLeBytes_eq _ _

abbrev hibitOf (isFinal : Bool) : UInt32 := if isFinal then 0 else hibit

lemma hibitOf_cases (isFinal : Bool) :
    hibitOf isFinal = 0 ∨ hibitOf isFinal = (1 : UInt32) <<< 24 := by
  cases isFinal
  · exact .inr rfl
  · exact .inl rfl

lemma addBlock_eq (isFinal : Bool) (h : Limbs UInt32) (m : Bytes) :
    addBlock isFinal h m =
      { l0 := h.l0.toUInt64 + (load32Le m 0 &&& 0x3ffffff).toUInt64
        l1 := h.l1.toUInt64 + ((load32Le m 3 >>> 2) &&& 0x3ffffff).toUInt64
        l2 := h.l2.toUInt64 + ((load32Le m 6 >>> 4) &&& 0x3ffffff).toUInt64
        l3 := h.l3.toUInt64 + ((load32Le m 9 >>> 6) &&& 0x3ffffff).toUInt64
        l4 := h.l4.toUInt64 + ((load32Le m 12 >>> 8) ||| hibitOf isFinal).toUInt64 } := by
  obtain ⟨w1, w2, w3⟩ := window_eq m (m := 0x3ffffff) (by decide)
  simp only [addBlock, w1, w2, w3]
  simp only [fromLeBytes_eq]

lemma toNat_add_wide (a b : UInt32) : (a.toUInt64 + b.toUInt64).toNat = a.toNat + b.toNat := by
  have ha := a.toNat_lt
  have hb := b.toNat_lt
  rw [UInt64.toNat_add, UInt32.toNat_toUInt64, UInt32.toNat_toUInt64]
  omega

lemma nats64_addBlock (isFinal : Bool) (h : Limbs UInt32) {m : Bytes} (hlen : m.length = 16) :
    nats64 (addBlock isFinal h m) = (nats h).add (blockLimbs (hibitOf isFinal) m) := by
  -- the limbs of the block, from the C function with nothing to add to
  have hblock := toNat_addBlock (hibitOf_cases isFinal) hlen reduced_zero
  rw [addBlock_eq]
  simp only [Limbs.map, add, SubOS.Crypto.addBlock, mk.injEq, UInt32.toNat_zero,
    zero_add] at hblock ⊢
  obtain ⟨b0, b1, b2, b3, b4⟩ := hblock
  simp only [toNat_add_wide, b0, b1, b2, b3, b4, and_self]

lemma toNat_mul_wide (a b : UInt64) {n : ℕ} (h : a.toNat * b.toNat ≤ n) (hn : n < 2 ^ 64) :
    (a * b).toNat = a.toNat * b.toNat := by
  rw [UInt64.toNat_mul, mod_eq_of_lt (h.trans_lt hn)]

lemma toNat_five_wide (x : UInt32) : (x.toUInt64 * 5).toNat = x.toNat * 5 := by
  have hx := x.toNat_lt
  show x.toNat * 5 % 2 ^ 64 = _
  omega

lemma toNat_sum_mul {a b c d e a' b' c' d' e' : UInt64}
    (h : a.toNat * a'.toNat + b.toNat * b'.toNat + c.toNat * c'.toNat + d.toNat * d'.toNat +
      e.toNat * e'.toNat < 2 ^ 64) :
    (a * a' + b * b' + c * c' + d * d' + e * e').toNat =
      a.toNat * a'.toNat + b.toNat * b'.toNat + c.toNat * c'.toNat + d.toNat * d'.toNat +
        e.toNat * e'.toNat := by
  have ha := toNat_mul_wide a a' (by omega) h
  have hb := toNat_mul_wide b b' (by omega) h
  have hc := toNat_mul_wide c c' (by omega) h
  have hd := toNat_mul_wide d d' (by omega) h
  have he := toNat_mul_wide e e' (by omega) h
  rw [toNat_sum (by rw [ha, hb, hc, hd, he]; exact h), ha, hb, hc, hd, he]

lemma nats64_productSums {h : Limbs UInt64} {r : Limbs UInt32} {x m : Limbs ℕ}
    (hfits : BlockFits x m (nats r)) (hh : nats64 h = x.add m) :
    nats64 (productSums h r) = products (x.add m) (nats r) := by
  have hsum := hfits.sums
  rw [← hh] at hsum ⊢
  obtain ⟨s0, s1, s2, s3, s4⟩ := hsum
  refine Limbs.ext ?_ ?_ ?_ ?_ ?_ <;> simp only [Limbs.map, productSums, products]
  all_goals
    rw [toNat_sum_mul] <;> simp only [toNat_five_wide, UInt32.toNat_toUInt64]
    assumption

lemma toNat_low26_wide (x : UInt64) : (x &&& 0x3ffffff).toNat = x.toNat % 2 ^ 26 := by
  exact and_two_pow_sub_one_eq_mod _ 26

lemma nats_carryLimbs {d : Limbs UInt64} (h : (chain (nats64 d)).Fits) :
    nats (carryLimbs d) = (chain (nats64 d)).limbs := by
  obtain ⟨-, ⟨e1, e2, e3, e4⟩, folded, low, second⟩ := h
  simp only [chain, Limbs.map] at e1 e2 e3 e4 folded low second
  have hadd : ∀ {x c : UInt64} {n : ℕ}, c.toNat = n → x.toNat + n / 2 ^ 26 < 2 ^ 64 →
      (x + (c >>> 26)).toNat = x.toNat + n / 2 ^ 26 := fun hc hlt => by
    rw [UInt64.toNat_add, toNat_shr26, hc, mod_eq_of_lt hlt]
  have he1 := hadd rfl e1
  have he2 := hadd he1 e2
  have he3 := hadd he2 e3
  have he4 := hadd he3 e4
  have hnarrow : ∀ {x : UInt64} {n : ℕ}, x.toNat = n → n < 2 ^ 32 → x.toUInt32.toNat = n :=
    fun {x n} hx hn => by rw [UInt64.toNat_toUInt32, hx, mod_eq_of_lt hn]
  have hlow : ∀ {x : UInt64} {n : ℕ}, x.toNat = n →
      (x &&& 0x3ffffff).toUInt32.toNat = n % 2 ^ 26 :=
    fun {x n} hx => by
      refine hnarrow ((toNat_low26_wide x).trans (by rw [hx])) ?_
      omega
  -- the lowest digit with the top carry
  have hf0 : ((d.l0 &&& (0x3ffffff : UInt64)) +
    ((d.l4 + ((d.l3 + ((d.l2 + ((d.l1 + (d.l0 >>> 26)) >>> 26)) >>>
      26)) >>> 26)) >>> 26) * 5).toNat = (chain (nats64 d)).f0 := by
    rw [UInt64.toNat_add, UInt64.toNat_mul, toNat_low26_wide, toNat_shr26, he4]
    show (_ + (_ / 2 ^ 26 * 5) % 2 ^ 64) % 2 ^ 64 = _
    rw [mod_eq_of_lt (folded.trans (by decide)), mod_eq_of_lt (low.trans (by decide))]
    rfl
  refine Limbs.ext ?_ ?_ ?_ ?_ ?_
  · exact hlow hf0
  · refine hnarrow ?_ second
    rw [UInt64.toNat_add, toNat_low26_wide, he1, toNat_shr26, hf0]
    exact mod_eq_of_lt (second.trans (by decide))
  · exact hlow he2
  · exact hlow he3
  · exact hlow he4

lemma nats_injective {x y : Limbs UInt32} (h : nats x = nats y) : x = y := by
  simp only [Limbs.map, mk.injEq, UInt32.toNat_inj] at h
  exact Limbs.ext h.1 h.2.1 h.2.2.1 h.2.2.2.1 h.2.2.2.2

/-- **The block multiplication is that of the C function.** -/
theorem blockStep_eq {r h : Limbs UInt32} (hr : (nats r).Small) (hh : (nats h).Reduced)
    (isFinal : Bool) {m : Bytes} (hlen : m.length = 16) :
    blockStep r isFinal h m = polyBlock r (hibitOf isFinal) h m := by
  have hhi := hibitOf_cases isFinal
  have hfits := blockFits hh (small_blockLimbs hhi hlen) hr
  have hsums := nats64_productSums hfits (nats64_addBlock isFinal h hlen)
  refine nats_injective ?_
  rw [nats_polyBlock hhi hr hh hlen, ← hsums]
  exact nats_carryLimbs (hsums ▸ hfits.carries)

/-! ## Feeding a message in pieces -/

/-- The context after a message. -/
structure Fed (key : Fin 32 → UInt8) (msg : Bytes) (p : Poly1305) : Prop where
  r : p.r = (poly1305Init key []).r
  pad : p.pad = (poly1305Init key []).pad
  buffered : Blocks.Buffered 16 (blockStep (poly1305Init key []).r false) ⟨0, 0, 0, 0, 0⟩ msg p.h
    p.leftover p.buffer

lemma fed_new (key : Fin 32 → UInt8) : Fed key [] (.new key) :=
  ⟨new_r key, new_pad key, .init _ _⟩

section Update

variable {key : Fin 32 → UInt8} {msg : Bytes} {p : Poly1305}

lemma Fed.updateWhole (h : Fed key msg p) (hleft : p.leftover = 0) (m : Bytes) :
    Fed key (msg ++ m) (p.updateWhole m) := by
  obtain ⟨hr, hpad, hbuf⟩ := h
  have hwhole := (hleft ▸ hbuf).whole m
  unfold Poly1305.updateWhole
  by_cases hlong : 16 ≤ m.length
  · simp only [if_pos hlong]
    have hh : (p.blocks (m.take (m.length / 16 * 16)) false).h =
        feed 16 (blockStep (poly1305Init key []).r false) p.h m := by
      show feed 16 (blockStep p.r false) p.h _ = _
      rw [hr, feed_take]
    split
    case isTrue hmore =>
      refine ⟨hr, hpad, ?_⟩
      rw [hh, ← length_drop]
      exact hwhole
    case isFalse hend =>
      -- nothing is left over
      have hrest : rest 16 m = [] := drop_of_length_le (by omega)
      refine ⟨hr, hpad, ?_⟩
      rw [hrest] at hwhole
      show Buffered _ _ _ _ (p.blocks _ false).h p.leftover p.buffer
      rw [hh, hleft]
      exact ⟨hwhole.state, hwhole.leftover, hwhole.buffer⟩
  · have hshort := (hleft ▸ hbuf).short (m := m) (by omega)
    rw [zero_add] at hshort
    simp only [if_neg hlong, drop_zero]
    split
    case isTrue hmore => exact ⟨hr, hpad, hshort⟩
    case isFalse hend =>
      have hnil : m = [] := length_eq_zero_iff.1 (by omega)
      rw [hnil, append_nil]
      exact ⟨hr, hpad, hbuf⟩

lemma Fed.update (h : Fed key msg p) (m : Bytes) : Fed key (msg ++ m) (p.update m) := by
  unfold Poly1305.update
  split
  case isFalse hzero => exact h.updateWhole (by omega) m
  case isTrue hpos =>
    obtain ⟨hr, hpad, hbuf⟩ := h
    dsimp only
    split
    case isTrue hshort => exact ⟨hr, hpad, hbuf.short (by omega)⟩
    case isFalse hfull =>
      have hlong : 16 - p.leftover ≤ m.length := by omega
      have hmsg : msg ++ m = (msg ++ m.take (16 - p.leftover)) ++ m.drop (16 - p.leftover) := by
        rw [append_assoc, take_append_drop]
      rw [hmsg]
      refine .updateWhole ?_ rfl _
      refine ⟨hr, hpad, ?_⟩
      show Buffered _ _ _ _ (feed 16 (blockStep p.r false) p.h
        ((writeAt p.buffer p.leftover (m.take (16 - p.leftover))).take 16)) 0 _
      rw [hr]
      exact hbuf.fill hlong _

end Update

lemma fed_foldl (key : Fin 32 → UInt8) (pieces : List Bytes) :
    Fed key pieces.flatten (pieces.foldl .update (.new key)) := by
  induction pieces using reverseRecOn with
  | nil => exact fed_new key
  | append_singleton ps p ih =>
    rw [foldl_append, flatten_append, flatten_singleton]
    exact ih.update p

/-! ## The same tag as in C -/

lemma selectLimbs_eq (h : Limbs UInt32) (hh : (nats h).Small) :
    selectLimbs h (minusP h) = SubOS.Crypto.selectLimbs h (SubOS.Crypto.minusP h) := by
  have htop : (minusP h).l4 = (SubOS.Crypto.minusP h).l4 := rfl
  rcases minusP_top hh with ⟨-, hshift⟩ | ⟨-, hzero⟩
  · simp [selectLimbs, SubOS.Crypto.selectLimbs, htop, hshift]
  · simp only [selectLimbs, SubOS.Crypto.selectLimbs, htop, hzero]
    simp [minusP, SubOS.Crypto.minusP]

lemma addPad_eq (w pad : Fin 4 → UInt32) : addPad w pad = SubOS.Crypto.addPad w pad := by
  simp only [addPad, SubOS.Crypto.addPad, toLeBytes_eq]

section Finish

variable {key : Fin 32 → UInt8} {msg : Bytes} {p : Poly1305} {st : Poly1305Ctx}

lemma Fed.h_eq (h : Fed key msg p) : p.h = accumulator key msg := by
  refine h.buffered.state.trans (feed_congr (fun h => (nats h).Reduced) ?_ reduced_zero msg)
  intro h b hred hlen
  have hstep := blockStep_eq (small_init_r key) hred false hlen
  refine ⟨hstep, ?_⟩
  rw [hstep]
  exact (polyBlock_spec (hibitOf_cases false) (small_init_r key) hred hlen).1

lemma Fed.finishBlock_eq (h : Fed key msg p) (hst : SubOS.Crypto.Fed key msg st) :
    p.finishBlock.h = (SubOS.Crypto.finishBlock st).h ∧
      p.finishBlock.pad = (SubOS.Crypto.finishBlock st).pad := by
  have hh : p.h = st.h := h.h_eq.trans hst.buffered.state.symm
  have hred : (nats p.h).Reduced := h.h_eq ▸ (accumulator_spec key msg).1
  have hleft : p.leftover = st.leftover := h.buffered.leftover.trans hst.buffered.leftover.symm
  have hbuf : p.buffer.take p.leftover = st.buffer.take st.leftover :=
    h.buffered.buffer.trans hst.buffered.buffer.symm
  have hpad : p.pad = st.pad := h.pad.trans hst.pad.symm
  have hlt := h.buffered.lt
  unfold Poly1305.finishBlock SubOS.Crypto.finishBlock
  by_cases hzero : p.leftover = 0
  · rw [if_neg (by omega), if_neg (not_not.2 (hleft ▸ hzero))]
    exact ⟨hh, hpad⟩
  · rw [if_pos (by omega), if_pos (hleft ▸ hzero)]
    refine ⟨?_, hpad⟩
    have hlen : (p.buffer.take p.leftover ++ 1 ::
        replicate (15 - p.leftover) 0).length = 16 := by
      rw [h.buffered.buffer, h.buffered.leftover]
      rw [h.buffered.leftover] at hlt hzero
      simp only [length_append, length_cons, length_replicate]
      omega
    show feed 16 (blockStep p.r true) p.h _ = feed 16 (polyBlock st.r 0) st.h _
    rw [← hbuf, ← hleft, ← hh, feed_of_length_eq hlen, feed_of_length_eq hlen, h.r, hst.r]
    exact blockStep_eq (small_init_r key) hred true hlen

/-- **Both implementations compute the same tag.** -/
theorem Fed.finalize_eq (h : Fed key msg p) (hst : SubOS.Crypto.Fed key msg st) :
    p.finalize = poly1305Finish st := by
  obtain ⟨hh, hpad⟩ := h.finishBlock_eq hst
  unfold Poly1305.finalize poly1305Finish
  dsimp only
  rw [hh, hpad, selectLimbs_eq _ hst.small_finish, addPad_eq]

end Finish

/-! ## The tag of a message -/

/-- **The tag is the value of the polynomial.** A message may come in any pieces: both
implementations then return the polynomial with the blocks as coefficients at the clamped `r`, plus
the second half of the key. No 32-bit limb and no 64-bit sum overflows when the next block, whole or
last, is added to the limbs and multiplied. -/
theorem poly1305_eq_tagNumber (key : Fin 32 → UInt8) (buffer : Bytes) (pieces : List Bytes) :
    let st := pieces.foldl poly1305Update (poly1305Init key buffer)
    let p := pieces.foldl .update (Poly1305.new key)
    ((poly1305Finish st).length = 16 ∧ leNat (poly1305Finish st) = tagNumber key pieces.flatten) ∧
      p.finalize = poly1305Finish st ∧
      (st.r = (poly1305Init key []).r ∧ st.h = accumulator key pieces.flatten) ∧
      (p.r = (poly1305Init key []).r ∧ p.h = accumulator key pieces.flatten) ∧
      ∀ msg m : Bytes, m.length = 16 → ∀ isFinal,
        BlockFits (nats (accumulator key msg)) (blockLimbs (hibitOf isFinal) m)
            (nats (poly1305Init key []).r) ∧
          blockStep (poly1305Init key []).r isFinal (accumulator key msg) m =
            polyBlock (poly1305Init key []).r (hibitOf isFinal) (accumulator key msg) m := by
  have hst := SubOS.Crypto.fed_foldl key buffer pieces
  have hp := fed_foldl key pieces
  refine ⟨⟨length_poly1305Finish _, hst.leNat_finish⟩, hp.finalize_eq hst,
    ⟨hst.r, hst.buffered.state⟩, ⟨hp.r, hp.h_eq⟩, fun msg m hlen isFinal => ?_⟩
  have hred := (accumulator_spec key msg).1
  exact ⟨blockFits hred (small_blockLimbs (hibitOf_cases isFinal) hlen) (small_init_r key),
    blockStep_eq (small_init_r key) hred isFinal hlen⟩

end SubOS.Crypto.Rust
