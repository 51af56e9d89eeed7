import SubOS.Crypto.Poly1305

set_option autoImplicit false

/-!
# ChaCha20-Poly1305

The authenticated encryption of `crypto/chacha20poly1305.c`. The tag is computed over the associated
data and the ciphertext, each filled up to a multiple of 16 bytes, and their lengths.

## Main definitions

* `aeadMac`, `chacha20poly1305Encrypt`, `chacha20poly1305Decrypt` — the functions.

## Main results

* `aeadMac_eq`, `chacha20poly1305_correct` — the tag, and authenticated encryption.

## Design

`size_t` has 64 bits. The buffer of a Poly1305 context on the stack is not initialised; here it
starts with zeros, and `fed_foldl` shows that nothing depends on it.
-/

namespace SubOS.Crypto

open List UInt8

/-! ## The functions -/

def poly1305KeyGen (key : Fin 32 → UInt8) (nonce : Fin 12 → UInt8) : Fin 32 → UInt8 :=
  fun i => (chacha20Block (chacha20Init key 0 nonce)).getD i 0

/-- The zeros of `aead_mac` after a part of `n` bytes. -/
def polyZeros (n : ℕ) : Bytes := List.replicate (16 - n % 16) 0

/-- A length in `lengths`. -/
def lengthBytes (n : ℕ) : Bytes := (List.range 8).map fun i => UInt8.ofNat (n >>> (8 * i))

/-- A part of the authenticated string, with its zeros. -/
def updatePadded (st : Poly1305Ctx) (part : Bytes) : Poly1305Ctx :=
  let st := poly1305Update st part
  if part.length % 16 ≠ 0 then poly1305Update st (polyZeros part.length) else st

/-- The context of `aead_mac` at its end. -/
def macContext (polyKey : Fin 32 → UInt8) (aad ct : Bytes) : Poly1305Ctx :=
  let st := poly1305Init polyKey (List.replicate 16 0)
  let st := updatePadded st aad
  let st := updatePadded st ct
  poly1305Update st (lengthBytes aad.length ++ lengthBytes ct.length)

def aeadMac (polyKey : Fin 32 → UInt8) (aad ct : Bytes) : Bytes :=
  poly1305Finish (macContext polyKey aad ct)

/-- `chacha20poly1305_encrypt`: the ciphertext and the tag. -/
def chacha20poly1305Encrypt (key : Fin 32 → UInt8) (nonce : Fin 12 → UInt8) (aad pt : Bytes) :
    Bytes × Bytes :=
  let polyKey := poly1305KeyGen key nonce
  let ct := chacha20Xor pt key 1 nonce
  (ct, aeadMac polyKey aad ct)

/-- `diff`, the difference of two tags. -/
def tagDiff (expect tag : Bytes) : UInt8 :=
  (List.range 16).foldl (fun diff i => diff ||| (expect.getD i 0 ^^^ tag.getD i 0)) 0

/-- `chacha20poly1305_decrypt`, with the output buffer `pt`. -/
def chacha20poly1305Decrypt (pt : Bytes) (key : Fin 32 → UInt8) (nonce : Fin 12 → UInt8)
    (aad ct tag : Bytes) : Bool × Bytes :=
  let polyKey := poly1305KeyGen key nonce
  let expect := aeadMac polyKey aad ct
  if tagDiff expect tag ≠ 0 then (false, pt)
  else (true, Blocks.writeAt pt 0 (chacha20Xor ct key 1 nonce))

/-! ## The authenticated string -/

/-- A part, filled up with zeros. -/
def padded (part : Bytes) : Bytes :=
  part ++ if part.length % 16 ≠ 0 then polyZeros part.length else []

/-- The string that `aead_mac` authenticates. -/
def macInput (aad ct : Bytes) : Bytes :=
  padded aad ++ padded ct ++ (lengthBytes aad.length ++ lengthBytes ct.length)

lemma Fed.updatePadded {key : Fin 32 → UInt8} {msg : Bytes} {st : Poly1305Ctx} (h : Fed key msg st)
    (part : Bytes) : Fed key (msg ++ padded part) (updatePadded st part) := by
  unfold Crypto.updatePadded padded
  split
  · rw [← append_assoc]
    exact (h.update part).update _
  · rw [append_nil]
    exact h.update part

section

variable (polyKey : Fin 32 → UInt8)

lemma fed_macContext (aad ct : Bytes) :
    Fed polyKey (macInput aad ct) (macContext polyKey aad ct) := by
  have hinit := (fed_init polyKey (replicate 16 0)).updatePadded aad
  exact ((hinit.updatePadded ct).update _)

/-- **`aead_mac` is Poly1305 of the authenticated string.** -/
theorem aeadMac_eq (aad ct : Bytes) :
    aeadMac polyKey aad ct =
      poly1305Finish (poly1305Update (poly1305Init polyKey []) (macInput aad ct)) := by
  have hone := (fed_init polyKey []).update (macInput aad ct)
  refine leNat_inj ((length_poly1305Finish _).trans (length_poly1305Finish _).symm) ?_
  rw [aeadMac, (fed_macContext polyKey aad ct).leNat_finish, hone.leNat_finish, nil_append]

lemma leNat_lengthBytes (n : ℕ) : leNat (lengthBytes n) = n % 2 ^ 64 := by
  show leNat [ofNat (n >>> 0), ofNat (n >>> 8), ofNat (n >>> 16),
    ofNat (n >>> 24), ofNat (n >>> 32), ofNat (n >>> 40), ofNat (n >>> 48),
    ofNat (n >>> 56)] = _
  simp only [leNat_cons, leNat_nil, toNat_ofNat', Nat.shiftRight_eq_div_pow]
  omega

lemma lengthBytes_inj {m n : ℕ} (hm : m < 2 ^ 64) (hn : n < 2 ^ 64)
    (h : lengthBytes m = lengthBytes n) : m = n := by
  have hnat := congrArg leNat h
  rwa [leNat_lengthBytes, leNat_lengthBytes, Nat.mod_eq_of_lt hm, Nat.mod_eq_of_lt hn] at hnat

/-- **The authenticated string determines its parts.** The last 16 bytes give the two lengths. -/
theorem macInput_inj {aad aad' ct ct' : Bytes} (haad : aad.length < 2 ^ 64)
    (haad' : aad'.length < 2 ^ 64) (hct : ct.length < 2 ^ 64) (hct' : ct'.length < 2 ^ 64)
    (h : macInput aad ct = macInput aad' ct') : aad = aad' ∧ ct = ct' := by
  have hsplit : padded aad ++ padded ct = padded aad' ++ padded ct' ∧
      lengthBytes aad.length ++ lengthBytes ct.length =
        lengthBytes aad'.length ++ lengthBytes ct'.length := append_inj' h rfl
  obtain ⟨hparts, hlengths⟩ := hsplit
  obtain ⟨hfirst, hsecond⟩ := append_inj hlengths rfl
  have hlen := lengthBytes_inj haad haad' hfirst
  have hlen' := lengthBytes_inj hct hct' hsecond
  have hpadded : (padded aad).length = (padded aad').length := by
    unfold padded
    rw [length_append, length_append, hlen]
  obtain ⟨hl, hr⟩ := append_inj hparts hpadded
  exact ⟨(append_inj hl hlen).1, (append_inj hr hlen').1⟩

/-! ## Tags -/

lemma foldl_or_eq_zero {ι : Type} (f : ι → UInt8) (is : List ι) (d : UInt8) :
    is.foldl (fun diff i => diff ||| f i) d = 0 ↔ d = 0 ∧ ∀ i ∈ is, f i = 0 := by
  induction is generalizing d with
  | nil => simp
  | cons i is ih => rw [foldl_cons, ih, or_eq_zero_iff, forall_mem_cons, and_assoc]

lemma tagDiff_eq_zero_iff {expect tag : Bytes} (he : expect.length = 16) (ht : tag.length = 16) :
    tagDiff expect tag = 0 ↔ tag = expect := by
  rw [tagDiff, foldl_or_eq_zero]
  refine ⟨fun h => ?_, fun h => ⟨rfl, fun i _ => by rw [h, UInt8.xor_self]⟩⟩
  refine ext_getElem (ht.trans he.symm) fun i hi hi' => ?_
  have hzero := h.2 i (mem_range.2 (ht ▸ hi))
  rw [xor_eq_zero_iff, getD_eq_getElem?_getD, getD_eq_getElem?_getD, getElem?_eq_getElem hi',
    getElem?_eq_getElem hi] at hzero
  exact hzero.symm

@[simp] lemma length_aeadMac (aad ct : Bytes) :
    (aeadMac polyKey aad ct).length = 16 := length_poly1305Finish _

end

lemma chacha20poly1305Decrypt_eq (pt : Bytes) (key : Fin 32 → UInt8) (nonce : Fin 12 → UInt8)
    (aad ct : Bytes) {tag : Bytes} (ht : tag.length = 16) :
    chacha20poly1305Decrypt pt key nonce aad ct tag =
      if tag = aeadMac (poly1305KeyGen key nonce) aad ct then
        (true, Blocks.writeAt pt 0 (chacha20Xor ct key 1 nonce))
      else (false, pt) := by
  unfold chacha20poly1305Decrypt
  simp only [ne_eq, tagDiff_eq_zero_iff (length_aeadMac _ _ _) ht, ite_not]

/-! ## Encryption and decryption -/

/-- **Decryption is the inverse of encryption.** -/
lemma chacha20poly1305Decrypt_encrypt (out : Bytes) (key : Fin 32 → UInt8) (nonce : Fin 12 → UInt8)
    (aad pt : Bytes) :
    chacha20poly1305Decrypt out key nonce aad (chacha20poly1305Encrypt key nonce aad pt).1
        (chacha20poly1305Encrypt key nonce aad pt).2 =
      (true, pt ++ out.drop pt.length) := by
  unfold chacha20poly1305Encrypt
  rw [chacha20poly1305Decrypt_eq _ _ _ _ _ (length_aeadMac _ _ _), if_pos rfl,
    chacha20Xor_chacha20Xor, Blocks.writeAt, take_zero, nil_append, Nat.zero_add]

lemma length_chacha20poly1305Decrypt {out : Bytes} (key : Fin 32 → UInt8) (nonce : Fin 12 → UInt8)
    (aad : Bytes) {ct : Bytes} (tag : Bytes) (hout : out.length = ct.length) :
    (chacha20poly1305Decrypt out key nonce aad ct tag).2.length = ct.length := by
  unfold chacha20poly1305Decrypt
  dsimp only
  split
  · exact hout
  · simp only [Blocks.writeAt, take_zero, nil_append, length_append, length_drop,
      length_chacha20Xor]
    omega

lemma toNat_counter {i n : ℕ} (hi : i < n) (hn : n ≤ 64 * (2 ^ 32 - 2)) :
    (1 + UInt32.ofNat (i / 64)).toNat = 1 + i / 64 := by
  show (1 + i / 64 % 2 ^ 32) % 2 ^ 32 = _
  omega

/-- **Authenticated encryption.** For a text of at most `2 ^ 32 - 2` blocks: decryption returns what
was encrypted; with any tag but the computed one it fails and writes nothing; the tag is Poly1305 of
a string that determines the associated data and the ciphertext; and byte `i` of the text is
encrypted with a block whose counter is `1 + i / 64` and not 0. -/
theorem chacha20poly1305_correct (key : Fin 32 → UInt8) (nonce : Fin 12 → UInt8) (aad pt : Bytes)
    (hblocks : pt.length ≤ 64 * (2 ^ 32 - 2)) :
    let sealed := chacha20poly1305Encrypt key nonce aad pt
    (∀ out, chacha20poly1305Decrypt out key nonce aad sealed.1 sealed.2 =
        (true, pt ++ out.drop pt.length)) ∧
      (∀ out ct tag, tag.length = 16 → tag ≠ aeadMac (poly1305KeyGen key nonce) aad ct →
        chacha20poly1305Decrypt out key nonce aad ct tag = (false, out)) ∧
      (∀ polyKey aad ct, aeadMac polyKey aad ct =
        poly1305Finish (poly1305Update (poly1305Init polyKey []) (macInput aad ct))) ∧
      (∀ aad aad' ct ct', aad.length < 2 ^ 64 → aad'.length < 2 ^ 64 → ct.length < 2 ^ 64 →
        ct'.length < 2 ^ 64 → macInput aad ct = macInput aad' ct' → aad = aad' ∧ ct = ct') ∧
      sealed.1.length = pt.length ∧
      ∀ i < pt.length, ∃ counter : UInt32, counter ≠ 0 ∧ counter.toNat = 1 + i / 64 ∧
        sealed.1[i]? = pt[i]?.map
          (· ^^^ (chacha20Block (chacha20Init key counter nonce)).getD (i % 64) 0) := by
  refine ⟨fun out => chacha20poly1305Decrypt_encrypt out key nonce aad pt,
    fun out ct tag hlen hne => ?_,
    aeadMac_eq, fun _ _ _ _ => macInput_inj, length_chacha20Xor _ _ _ _, fun i hi => ?_⟩
  · rw [chacha20poly1305Decrypt_eq _ _ _ _ _ hlen, if_neg hne]
  · have hcounter := toNat_counter hi hblocks
    refine ⟨1 + UInt32.ofNat (i / 64), ?_, hcounter, getElem?_chacha20Xor pt key 1 nonce i⟩
    intro hzero
    rw [hzero] at hcounter
    have : 0 = 1 + i / 64 := hcounter
    omega

/-- Two bytes. -/
theorem chacha20poly1305_correct_two :
    [(1 : UInt8), 2].length ≤ 64 * (2 ^ 32 - 2) ∧
      ∀ out, chacha20poly1305Decrypt out (fun _ => 0) (fun _ => 0) [3]
          (chacha20poly1305Encrypt (fun _ => 0) (fun _ => 0) [3] [1, 2]).1
          (chacha20poly1305Encrypt (fun _ => 0) (fun _ => 0) [3] [1, 2]).2 =
        (true, [1, 2] ++ out.drop 2) :=
  ⟨by decide, (chacha20poly1305_correct _ _ [3] [1, 2] (by decide)).1⟩

end SubOS.Crypto
