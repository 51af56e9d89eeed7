import Mathlib.Tactic.NormNum
import SubOS.Lib.EventRun
import SubOS.Net.Tls.Api
import SubOS.Net.Tls.ServerFlight

set_option autoImplicit false

/-!
# Nonces are used once

A record is sealed with the IV of its key, xored with the sequence number. The number goes up with
every record and is cleared when the key changes, so under one key no nonce comes twice.

## Main definitions

* `clientRun`, `Ordered` — a run of the client; records are numbered from 0.

## Main results

* `nonces_distinct` — no two records have the same key and nonce.
-/

namespace SubOS.Tls

open List UInt64 Nat

/-! ## The nonce of a record -/

lemma foldl_update_apply {ι α β : Type*} [DecidableEq α] {pos : ι → α}
    (hpos : Function.Injective pos) (f : ι → β → β) (g : α → β) {l : List ι} (hl : l.Nodup) (i : ι)
    :
    l.foldl (fun g i => Function.update g (pos i) (f i (g (pos i)))) g (pos i) =
      open Classical in if i ∈ l then f i (g (pos i)) else g (pos i) := by
  classical
  induction l generalizing g with
  | nil => simp
  | cons a l ih =>
    rw [nodup_cons] at hl
    rw [foldl_cons, ih _ hl.2]
    by_cases hia : i = a
    · subst hia
      simp [hl.1]
    · simp [hia, hpos.ne hia]

lemma noncePos_injective : Function.Injective noncePos := by
  intro i j h
  have hval : 11 - i = 11 - (j : ℕ) := congrArg Fin.val h
  ext
  omega

lemma buildNonce_apply (iv : Block 12) (seq : UInt64) (i : Fin 8) :
    buildNonce iv seq (noncePos i) = iv (noncePos i) ^^^ seqByte seq i := by
  have h := foldl_update_apply noncePos_injective (fun i b => b ^^^ seqByte seq i) iv
    (nodup_finRange 8) i
  rw [if_pos (mem_finRange i)] at h
  exact h

lemma seqByte_toNat (seq : UInt64) (i : Fin 8) :
    (seqByte seq i).toNat = seq.toNat / 256 ^ (i : ℕ) % 256 := by
  have hmod : 8 * i % 2 ^ 64 % 64 = 8 * (i : ℕ) := by omega
  simp only [seqByte, toNat_toUInt8, UInt64.toNat_shiftRight, toNat_ofNat', shiftRight_eq_div_pow,
    hmod, pow_mul]
  norm_num

/-- A sequence number is determined by its bytes.

**Proof sketch.** The first `n` bytes determine the number modulo `256 ^ n`, by induction on
`n`. -/
lemma seq_ext {seq seq' : UInt64} (h : ∀ i, seqByte seq i = seqByte seq' i) : seq = seq' := by
  have hmod : ∀ n ≤ 8, seq.toNat % 256 ^ n = seq'.toNat % 256 ^ n := by
    intro n
    induction n with
    | zero => simp [mod_one]
    | succ n ih =>
      intro hn
      have hbyte := congrArg UInt8.toNat (h ⟨n, hn⟩)
      rw [seqByte_toNat, seqByte_toNat] at hbyte
      rw [mod_pow_succ, mod_pow_succ, ih (by omega), hbyte]
  have hall : seq.toNat % 2 ^ 64 = seq'.toNat % 2 ^ 64 := hmod 8 le_rfl
  rw [mod_eq_of_lt seq.toNat_lt, mod_eq_of_lt seq'.toNat_lt] at hall
  exact UInt64.toNat_inj.1 hall

/-- **For a fixed IV the nonce determines the sequence number.** -/
theorem buildNonce_injective (iv : Block 12) : Function.Injective (buildNonce iv) := by
  intro seq seq' h
  apply seq_ext
  intro i
  have hi := congrFun h (noncePos i)
  rw [buildNonce_apply, buildNonce_apply] at hi
  exact (UInt8.xor_right_inj _).1 hi

/-! ## The records of a key -/

namespace SealState

/-- The client's application keys, or its handshake keys. -/
def keys (σ : SealState) (app : Bool) : TrafficKeys := if app then σ.cAp else σ.cHs

/-- The records sealed under the client's application key, or under its handshake key. -/
def records (σ : SealState) (app : Bool) : List Sealed := σ.seals.filter fun s => s.appKeys == app

/-- The records sealed under each key are numbered from zero, each with the nonce of its number,
and the next number is the number of records sealed under the key in use. -/
structure Ordered (σ : SealState) : Prop where
  nonce : ∀ s ∈ σ.seals,
    s.key = (σ.keys s.appKeys).key ∧ s.nonce = buildNonce (σ.keys s.appKeys).iv s.seq
  installed : ∀ s ∈ σ.seals, s.appKeys = true → σ.appKeys = true
  seq : ∀ app k s, (σ.records app)[k]? = some s → s.seq = UInt64.ofNat k
  next : σ.sendSeq = UInt64.ofNat (σ.records σ.appKeys).length

variable {σ : SealState}

lemma Ordered.of_nil (hseals : σ.seals = []) (hseq : σ.sendSeq = 0) : σ.Ordered where
  nonce := by simp [hseals]
  installed := by simp [hseals]
  seq := by simp [records, hseals]
  next := by simp [records, hseals, hseq]

lemma Ordered.seal (h : σ.Ordered) (aad pt : Bytes) :
    Ordered { σ with
      sendSeq := σ.sendSeq + 1
      seals := σ.seals ++ [⟨σ.appKeys, (σ.keys σ.appKeys).key,
        buildNonce (σ.keys σ.appKeys).iv σ.sendSeq, σ.sendSeq, aad, pt⟩] } where
  nonce := by
    intro s hs
    rcases mem_append.1 hs with hs | hs
    · exact h.nonce s hs
    · rw [mem_singleton] at hs
      subst hs
      exact ⟨rfl, rfl⟩
  installed := by
    intro s hs happ
    rcases mem_append.1 hs with hs | hs
    · exact h.installed s hs happ
    · rw [mem_singleton] at hs
      subst hs
      exact happ
  seq := by
    intro app k s hk
    simp only [records, filter_append] at hk
    change (σ.records app ++ _)[k]? = some s at hk
    rcases lt_or_ge k (σ.records app).length with hlt | hge
    · rw [getElem?_append_left hlt] at hk
      exact h.seq app k s hk
    · -- the new record is the last one of its key
      rw [getElem?_append_right hge] at hk
      have hmem := mem_of_getElem? hk
      simp only [mem_filter, mem_singleton, beq_iff_eq] at hmem
      obtain ⟨rfl, happ⟩ := hmem
      dsimp only at happ
      subst happ
      obtain ⟨hlen, -⟩ := List.getElem?_eq_some_iff.1 hk
      simp only [filter_singleton, beq_self_eq_true, cond_true, length_singleton] at hlen
      rw [h.next, show k = (σ.records σ.appKeys).length by omega]
  next := by
    simp only [records, filter_append, filter_singleton, beq_self_eq_true, cond_true, length_append,
      length_singleton, ofNat_add]
    rw [h.next]
    rfl

lemma Ordered.derive (h : σ.Ordered) (hkeys : σ.appKeys = false) (cAp : TrafficKeys) :
    Ordered { σ with cAp := cAp } where
  nonce := by
    intro s hs
    have happ : s.appKeys = false := by
      rw [← Bool.not_eq_true]
      intro happ
      rw [h.installed s hs happ] at hkeys
      cases hkeys
    have := h.nonce s hs
    rw [happ] at this ⊢
    exact this
  installed := h.installed
  seq := h.seq
  next := h.next

lemma Ordered.install (h : σ.Ordered) (hkeys : σ.appKeys = false) :
    Ordered { σ with appKeys := true, sendSeq := 0 } where
  nonce := h.nonce
  installed := fun _ _ _ => rfl
  seq := h.seq
  next := by
    have hnone : σ.records true = [] := by
      refine filter_eq_nil_iff.2 fun s hs happ => ?_
      rw [h.installed s hs (by simpa using happ)] at hkeys
      cases hkeys
    change 0 = ofNat (σ.records true).length
    rw [hnone]
    rfl

end SealState

/-! ## Runs of the client -/

section

variable {C : Crypto} {t t' : TlsConn}

lemma writeRecord_ordered (h : t.sealState.Ordered) (type : UInt8) (data : Bytes) :
    (writeRecord C t type data).1.sealState.Ordered := h.seal _ _

lemma finishHandshake_ordered (h : t.sealState.Ordered) (hkeys : t.appKeys = false) :
    (finishHandshake C t).1.sealState.Ordered := by
  have hflight := (readServerFlight_views C t).1
  unfold finishHandshake
  split
  · next hread =>
    rw [hread] at hflight
    exact hflight ▸ h
  · next t₁ hread =>
    rw [hread] at hflight
    have ht₁ : t₁.sealState.Ordered := hflight ▸ h
    have hk : t₁.appKeys = false := (congrArg SealState.appKeys hflight).trans hkeys
    have hfin : (sendClientFinished C (keyScheduleApplication C t₁)).1.sealState.Ordered :=
      writeRecord_ordered (t := keyScheduleApplication C t₁) (ht₁.derive hk _) _ _
    split
    · next hsend =>
      rw [hsend] at hfin
      exact hfin
    · next t₂ hsend =>
      rw [hsend] at hfin
      have hk₂ : t₂.appKeys = false :=
        (congrArg (fun r => r.1.appKeys) hsend).symm.trans hk
      exact hfin.install hk₂

lemma handshake_ordered (C : Crypto) (host : Bytes) (random sid priv : Block 32) (tcp : Transport) :
    (handshake C host random sid (newConn tcp priv)).1.sealState.Ordered := by
  unfold handshake
  split
  · next hhello =>
    obtain ⟨hseals, hseq, -, -⟩ := hello_views hhello rfl
    exact .of_nil hseals hseq
  · next hhello =>
    obtain ⟨hseals, hseq, hkeys, -⟩ := hello_views hhello rfl
    exact finishHandshake_ordered (.of_nil hseals hseq) hkeys

end

/-- A run of the client: the handshake and, if it succeeds, any calls. A handshake that fails is
the end of the connection. -/
def clientRun (C : Crypto) (host : Bytes) (random sid priv : Block 32) (tcp : Transport)
    (calls : List Call) : TlsConn :=
  match handshake C host random sid (newConn tcp priv) with
  | (t, .error _) => t
  | (t, .ok ()) => EventRun.run (Call.exec C) t calls

lemma exec_ordered (C : Crypto) (t : TlsConn) (call : Call) (h : t.sealState.Ordered) :
    (call.exec C t).sealState.Ordered := by
  cases call with
  | send data =>
    exact tlsSend_rule (P := fun t => t.sealState.Ordered)
      (fun _ _ h => writeRecord_ordered h _ _) h data
  | recv len => exact tlsRecv_sealState C t len ▸ h

/-- **The invariant after every run.** -/
theorem clientRun_ordered (C : Crypto) (host : Bytes) (random sid priv : Block 32) (tcp : Transport)
    (calls : List Call) : (clientRun C host random sid priv tcp calls).sealState.Ordered := by
  have hhs := handshake_ordered C host random sid priv tcp
  unfold clientRun
  split
  · next heq =>
    rw [heq] at hhs
    exact hhs
  · next heq =>
    rw [heq] at hhs
    have hstep : ∀ (t : TlsConn) (call : Call), t.sealState.Ordered →
        (call.exec C t).sealState.Ordered := exec_ordered C
    exact EventRun.run_invariant hstep hhs calls

/-! ## No nonce comes twice -/

section

variable {σ : SealState}

lemma SealState.Ordered.seq_toNat (h : σ.Ordered) (hlen : σ.seals.length < 2 ^ 64) {app : Bool}
    {k : ℕ} {s : Sealed} (hk : (σ.records app)[k]? = some s) : s.seq.toNat = k := by
  have hlt : k < (σ.records app).length := (List.getElem?_eq_some_iff.1 hk).1
  have hle : (σ.records app).length ≤ σ.seals.length := length_filter_le _ _
  rw [h.seq app k s hk, toNat_ofNat']
  exact mod_eq_of_lt (by omega)

lemma SealState.Ordered.nonce_of_mem_records (h : σ.Ordered) {app : Bool} {s : Sealed}
    (hs : s ∈ σ.records app) :
    s.key = (σ.keys app).key ∧ s.nonce = buildNonce (σ.keys app).iv s.seq := by
  obtain ⟨hmem, happ⟩ := mem_filter.1 hs
  have hkeys : s.appKeys = app := by simpa using happ
  exact hkeys ▸ h.nonce s hmem

lemma SealState.Ordered.nodup_nonce (h : σ.Ordered) (hlen : σ.seals.length < 2 ^ 64) (app : Bool) :
    ((σ.records app).map Sealed.nonce).Nodup := by
  rw [nodup_iff_getElem?_ne_getElem?]
  intro i j hij hj heq
  rw [length_map] at hj
  obtain ⟨a, ha⟩ : ∃ a, (σ.records app)[i]? = some a := ⟨_, getElem?_eq_getElem (by omega)⟩
  obtain ⟨b, hb⟩ : ∃ b, (σ.records app)[j]? = some b := ⟨_, getElem?_eq_getElem hj⟩
  rw [getElem?_map, getElem?_map, ha, hb, Option.map_some, Option.map_some, Option.some.injEq,
    (h.nonce_of_mem_records (mem_of_getElem? ha)).2,
    (h.nonce_of_mem_records (mem_of_getElem? hb)).2] at heq
  -- the nonces determine the numbers, and the numbers the places
  have hseq : a.seq = b.seq := buildNonce_injective _ heq
  have hi := h.seq_toNat hlen ha
  have hj' := h.seq_toNat hlen hb
  rw [hseq] at hi
  omega

end

/-- **No two records are sealed with one key and one nonce.** Take any run of the client, with any
transport and any calls, in which fewer than `2 ^ 64` records are sealed. The nonce is injective
in the sequence number; the records sealed under the client's handshake key, and those sealed
under its application key, are numbered 0, 1, 2, ..., sent or not, each has the nonce of its
number, and these nonces are distinct. -/
theorem nonces_distinct (C : Crypto) (host : Bytes) (random sid priv : Block 32)
    (tcp : Transport) (calls : List Call) (σ : SealState)
    (hσ : σ = (clientRun C host random sid priv tcp calls).sealState)
    (hlen : σ.seals.length < 2 ^ 64) :
    (∀ iv, Function.Injective (buildNonce iv)) ∧
      ∀ app,
        (∀ s ∈ σ.records app,
          s.key = (σ.keys app).key ∧ s.nonce = buildNonce (σ.keys app).iv s.seq) ∧
        (∀ k (s : Sealed), (σ.records app)[k]? = some s → s.seq.toNat = k) ∧
        ((σ.records app).map Sealed.nonce).Nodup := by
  have h : σ.Ordered := hσ ▸ clientRun_ordered C host random sid priv tcp calls
  refine ⟨buildNonce_injective, fun app => ⟨?_, ?_, h.nodup_nonce hlen app⟩⟩
  · intro s hs
    exact h.nonce_of_mem_records hs
  · intro k s hk
    exact h.seq_toNat hlen hk

/-- A handshake, and two `tls_send` of a byte each that the transport refuses. -/
def refusedSends : TlsConn :=
  clientRun plainCrypto [] zeros zeros zeros (openWire (serverHelloRecord ++ encryptedFinished))
    [.send [65], .send [66]]

set_option maxRecDepth 4000 in
lemma refusedSends_records :
    refusedSends.sealState.seals.length = 3 ∧
      (refusedSends.sealState.records true).map Sealed.pt = [[65, 23], [66, 23]] := by
  cbv

/-- Both records were sealed, with nonces of their own. -/
theorem nonces_distinct_refused_sends :
    refusedSends.sealState.seals.length < 2 ^ 64 ∧
      (refusedSends.sealState.records true).map Sealed.pt = [[65, 23], [66, 23]] ∧
      ((refusedSends.sealState.records true).map Sealed.nonce).Nodup := by
  obtain ⟨hseals, hpt⟩ := refusedSends_records
  have hlen : refusedSends.sealState.seals.length < 2 ^ 64 := by omega
  have hall := nonces_distinct plainCrypto [] zeros zeros zeros
    (openWire (serverHelloRecord ++ encryptedFinished)) [.send [65], .send [66]]
    refusedSends.sealState rfl hlen
  exact ⟨hlen, hpt, (hall.2 true).2.2⟩

end SubOS.Tls
