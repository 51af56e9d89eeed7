import SubOS.Crypto.Aead
import SubOS.Net.Tls.ServerFlight

set_option autoImplicit false

/-!
# Records that are sealed and opened again

What `write_record` seals `read_record` opens, if the two use the same key, IV and sequence number.
Here the cipher is the one of `crypto/chacha20poly1305.c`.

## Main definitions

* `Transport.Delivers` — the transport delivers the next bytes of the stream.

## Main results

* `readRecord_sealedFrame`, `write_read_record` — what is sealed is opened; what is sent is read.
-/

namespace SubOS.Tls

open List Nat

/-! ## A transport that delivers -/

/-- The transport delivers the next `n` bytes of the stream: they are there, and none of the next
`n` calls of `tcp_recv` fails. -/
structure Transport.Delivers (tcp : Transport) (n : ℕ) : Prop where
  rx : n ≤ tcp.rx.length
  enough : n ≤ tcp.reads.length
  reads : ∀ o ∈ tcp.reads.take n, o.isSome = true

namespace Transport.Delivers

variable {tcp : Transport} {m n : ℕ}

/-- What is left to deliver when some bytes have been read, with no more calls than bytes. -/
lemma rest (h : tcp.Delivers (m + n)) {j : ℕ} (hj : j ≤ m) :
    { tcp with rx := tcp.rx.drop m, reads := tcp.reads.drop j }.Delivers n := by
  obtain ⟨hrx, henough, hreads⟩ := h
  refine ⟨?_, ?_, fun o ho => hreads o ?_⟩
  · rw [length_drop]
    omega
  · rw [length_drop]
    omega
  · have hsub : (tcp.reads.drop j).take n <+: (tcp.reads.take (m + n)).drop j := by
      rw [drop_take]
      exact take_prefix_take_left (by omega)
    exact mem_of_mem_drop (hsub.subset ho)

lemma tcpRecv (h : tcp.Delivers n) (hn : 0 < n) :
    ∃ k, 0 < k ∧ k ≤ n ∧ tcp.tcpRecv n =
      ({ tcp with rx := tcp.rx.drop k, reads := tcp.reads.drop 1 }, some (tcp.rx.take k)) := by
  obtain ⟨hrx, henough, hreads⟩ := h
  have hne : tcp.rx ≠ [] := length_pos_iff.1 (by omega)
  unfold Transport.tcpRecv
  cases hr : tcp.reads with
  | nil =>
    rw [hr] at henough
    simp only [length_nil] at henough
    omega
  | cons o os =>
    have ho : o.isSome = true := by
      refine hreads o ?_
      rw [hr, take_cons hn]
      exact mem_cons_self
    obtain ⟨k, rfl⟩ := Option.isSome_iff_exists.1 ho
    refine ⟨min (k + 1) n, by omega, min_le_right _ _, ?_⟩
    simp only [hne, or_false, if_neg (pos_iff_ne_zero.1 hn), drop_one, tail_cons]

end Transport.Delivers

variable {n : ℕ} {type : UInt8} {t : TlsConn} {pt : Bytes}

lemma delivers_of_replicate (tcp : Transport) (h : n ≤ tcp.rx.length) :
    { tcp with reads := replicate tcp.rx.length (some 0) }.Delivers n := by
  refine ⟨h, (length_replicate ..).symm ▸ h, fun o ho => ?_⟩
  rw [eq_of_mem_replicate (mem_of_mem_take ho)]
  rfl

/-- The stream `rx`, byte by byte. -/
def Transport.byteByByte (rx : Bytes) : Transport :=
  ⟨rx, List.replicate rx.length (some 0), [], []⟩

lemma delivers_byteByByte {rx : Bytes} (h : n ≤ rx.length) : (Transport.byteByByte rx).Delivers n :=
  delivers_of_replicate (.byteByByte rx) h

lemma readExactLoop_of_delivers (hn : n < 65536) {k : ℕ} {tcp : Transport} {got : Bytes}
    (hk : got.length + k = n) (h : tcp.Delivers k) :
    ∃ j ≤ k, (readExactLoop n).exec (tcp, got) =
      ({ tcp with rx := tcp.rx.drop k, reads := tcp.reads.drop j },
        some (got ++ tcp.rx.take k)) := by
  induction k using Nat.strong_induction_on generalizing tcp got with
  | h k ih =>
    rw [Loop.Body.exec_eq]
    rcases Nat.eq_zero_or_pos k with rfl | hpos
    · refine ⟨0, le_rfl, ?_⟩
      simp only [readExactLoop, if_pos (show n ≤ got.length by omega), drop_zero, take_zero,
        append_nil]
    · obtain ⟨a, ha, hak, hrecv⟩ := h.tcpRecv hpos
      have hwant : (n - got.length) % 65536 = k := by omega
      obtain ⟨b, rfl⟩ := Nat.exists_eq_add_of_le hak
      have hlen : (tcp.rx.take a).length = a := by
        rw [length_take, min_eq_left (hak.trans h.rx)]
      obtain ⟨j, hj, hexec⟩ := @ih b (by omega) _ (got ++ tcp.rx.take a)
        (by rw [length_append, hlen]; omega) (h.rest ha)
      refine ⟨1 + j, by omega, ?_⟩
      simp only [readExactLoop, if_neg (show ¬ n ≤ got.length by omega), hwant, hrecv]
      refine hexec.trans ?_
      rw [drop_drop, drop_drop, append_assoc, ← take_add]

/-- **`read_exact` reads what the transport delivers.** -/
theorem readExact_of_delivers (hn : n < 65536) {tcp : Transport} (h : tcp.Delivers n) :
    ∃ j ≤ n, readExact tcp n =
      ({ tcp with rx := tcp.rx.drop n, reads := tcp.reads.drop j }, some (tcp.rx.take n)) :=
  readExactLoop_of_delivers hn (zero_add n) h

/-- **A record that the transport delivers is taken from the stream.** -/
theorem readFrame_of_delivers {f : Frame} {rest : Bytes}
    (hf : f.WellFormed) (hmax : f.body.length ≤ tlsRecMax) (hrx : t.tcp.rx = f.bytes ++ rest)
    (h : t.tcp.Delivers (f.bytes.length + n)) :
    ∃ tcp, t.readFrame = ({ t with tcp := tcp, frames := t.frames ++ [f] }, .ok f) ∧
      tcp.rx = rest ∧ tcp.Delivers n := by
  have hlen : f.bytes.length = 5 + f.body.length := by
    rw [Frame.bytes, length_append, hf.hdr]
  have hbytes : t.tcp.rx = f.hdr ++ (f.body ++ rest) := by
    rw [hrx, Frame.bytes, append_assoc]
  have hsmall : f.body.length < 65536 := hmax.trans_lt (by decide)
  have hall : t.tcp.Delivers (5 + (f.body.length + n)) := by
    rwa [hlen, add_assoc] at h
  have hhdr : t.tcp.Delivers 5 :=
    ⟨(le_add_right _ _).trans hall.rx, (le_add_right _ _).trans hall.enough, fun o ho =>
      hall.reads o ((take_prefix_take_left (le_add_right _ _)).subset ho)⟩
  obtain ⟨j, hj, hread⟩ := readExact_of_delivers (by decide) hhdr
  rw [hbytes, ← hf.hdr, take_left, drop_left, hf.hdr] at hread
  -- then the body, from what is left
  have hbody := hall.rest hj
  rw [hbytes, ← hf.hdr, drop_left] at hbody
  have hfirst : { t.tcp with rx := f.body ++ rest, reads := t.tcp.reads.drop j }.Delivers
      f.body.length :=
    ⟨(le_add_right _ _).trans hbody.rx, (le_add_right _ _).trans hbody.enough, fun o ho =>
      hbody.reads o ((take_prefix_take_left (le_add_right _ _)).subset ho)⟩
  obtain ⟨i, hi, hread'⟩ := readExact_of_delivers hsmall hfirst
  have hrest := hbody.rest hi
  simp only [take_left, drop_left] at hread' hrest
  refine ⟨_, ?_, rfl, hrest⟩
  unfold TlsConn.readFrame
  rw [hread]
  dsimp only
  rw [if_neg (by rw [← hf.body]; exact hmax.not_gt), ← hf.body]
  rw [hread']

/-! ## Sealed records -/

/-- Encryption and decryption are inverse to each other. -/
structure Crypto.RoundTrips (C : Crypto) : Prop where
  length : ∀ key nonce aad pt, (C.encrypt key nonce aad pt).1.length = pt.length
  decrypt : ∀ key nonce aad pt, C.decrypt key nonce aad (C.encrypt key nonce aad pt).1
    (C.encrypt key nonce aad pt).2.toBytes = some pt

/-- The header of a record that carries `n` bytes of inner plaintext. -/
def sealedHeader (n : ℕ) : Bytes := recordHeader ctApplicationData 0x03 0x03 (n + tlsAeadTag)

/-- The record that carries the inner plaintext `pt`. -/
def sealedFrame (C : Crypto) (keys : TrafficKeys) (seq : UInt64) (pt : Bytes) : Frame :=
  let sealed := C.encrypt keys.key (buildNonce keys.iv seq) (sealedHeader pt.length) pt
  ⟨sealedHeader pt.length, sealed.1 ++ sealed.2.toBytes⟩

lemma recordLen_recordHeader (type major minor : UInt8) (h : n < 65536) :
    recordLen (recordHeader type major minor n) = n := by
  show (UInt8.ofNat (n / 256)).toNat * 256 + (UInt8.ofNat n).toNat = n
  rw [UInt8.toNat_ofNat', UInt8.toNat_ofNat']
  omega

section Sealed

variable {C : Crypto} (hC : C.RoundTrips) (keys : TrafficKeys) (seq : UInt64) (pt : Bytes)
include hC

lemma length_sealedFrame_body :
    (sealedFrame C keys seq pt).body.length = pt.length + tlsAeadTag := by
  show (_ ++ ofFn _).length = _
  rw [length_append, hC.length, length_ofFn]
  rfl

lemma sealedFrame_wellFormed {pt : Bytes} (h : pt.length + tlsAeadTag < 65536) :
    (sealedFrame C keys seq pt).WellFormed := by
  refine ⟨rfl, ?_⟩
  rw [length_sealedFrame_body hC]
  exact (recordLen_recordHeader _ _ _ h).symm

lemma decrypt_sealedFrame :
    C.decrypt keys.key (buildNonce keys.iv seq) (sealedFrame C keys seq pt).hdr
      ((sealedFrame C keys seq pt).body.take ((sealedFrame C keys seq pt).body.length - tlsAeadTag))
      ((sealedFrame C keys seq pt).body.drop
        ((sealedFrame C keys seq pt).body.length - tlsAeadTag)) = some pt := by
  rw [length_sealedFrame_body hC, Nat.add_sub_cancel]
  unfold sealedFrame
  have hlen := hC.length keys.key (buildNonce keys.iv seq) (sealedHeader pt.length) pt
  rw [take_left' hlen, drop_left' hlen]
  exact hC.decrypt _ _ _ _

/-- **`write_record` passes the sealed record to `tcp_send`**, and nothing else. -/
lemma writeRecord_sent (t : TlsConn) (innerType : UInt8) {data : Bytes}
    (hdata : data.length ≤ tlsPlaintextMax) :
    (writeRecord C t innerType data).1.tcp.sent = t.tcp.sent ++
      [(sealedFrame C t.sealKeys t.sendSeq (data ++ [innerType])).bytes] := by
  have hbody := length_sealedFrame_body hC t.sealKeys t.sendSeq (data ++ [innerType])
  have hlen : (sealedFrame C t.sealKeys t.sendSeq (data ++ [innerType])).bytes.length =
      5 + (data.length + 1 + 16) := by
    rw [Frame.bytes, length_append, hbody, length_append]
    rfl
  have hmax : data.length ≤ 16384 := hdata
  refine (sendAll_sent t.tcp _).trans ?_
  show _ ++ [(sealedFrame C t.sealKeys t.sendSeq (data ++ [innerType])).bytes.take _] = _
  rw [take_of_length_le]
  show _ ≤ (sealedFrame C t.sealKeys t.sendSeq (data ++ [innerType])).bytes.length % 65536
  omega

end Sealed

lemma acceptFrame_of_valid {C : Crypto} {outcap : ℕ} {f : Frame} {body : Bytes}
    (htype : f.type = ctApplicationData)
    (hlen : tlsAeadTag ≤ f.body.length) (hvalid : (t.opening f pt).Valid C)
    (hinner : innerPlaintext pt = some (type, body)) (hcap : body.length ≤ outcap) :
    acceptFrame C outcap t f =
      (t.addOpening (t.opening f pt), .ok ⟨type, body, .opened t.recvSeq⟩) := by
  have hdec : C.decrypt t.openKeys.key (buildNonce t.openKeys.iv t.recvSeq) f.hdr
      (f.body.take (f.body.length - tlsAeadTag)) (f.body.drop (f.body.length - tlsAeadTag)) =
        some pt :=
    hvalid
  unfold acceptFrame openRecord
  rw [if_neg (by rw [htype]; decide), if_neg (fun hc => absurd (htype.symm.trans hc.1) (by decide)),
    if_pos htype, if_neg hlen.not_gt, hdec]
  dsimp only
  rw [hinner]
  dsimp only
  rw [if_neg hcap.not_gt]

/-- **A sealed record is opened**, if the stream holds it next and the keys and the sequence number
are those it was sealed with. -/
theorem readRecord_sealedFrame {C : Crypto} (hC : C.RoundTrips) {outcap n : ℕ}
    {rest body : Bytes} (hinner : innerPlaintext pt = some (type, body))
    (hcap : body.length ≤ outcap) (hmax : pt.length + tlsAeadTag ≤ tlsRecMax)
    (hrx : t.tcp.rx = (sealedFrame C t.openKeys t.recvSeq pt).bytes ++ rest)
    (h : t.tcp.Delivers ((sealedFrame C t.openKeys t.recvSeq pt).bytes.length + n)) :
    ∃ tcp, readRecord C outcap t =
        ({ t with
          tcp := tcp
          frames := t.frames ++ [sealedFrame C t.openKeys t.recvSeq pt] }.addOpening
            (t.opening (sealedFrame C t.openKeys t.recvSeq pt) pt),
          .ok ⟨type, body, .opened t.recvSeq⟩) ∧
      tcp.rx = rest ∧ tcp.Delivers n := by
  have hbody := length_sealedFrame_body hC t.openKeys t.recvSeq pt
  have hwf := sealedFrame_wellFormed hC t.openKeys t.recvSeq (hmax.trans_lt (by decide))
  obtain ⟨tcp, hread, hrest, hdel⟩ := readFrame_of_delivers hwf (hbody.trans_le hmax) hrx h
  refine ⟨tcp, ?_, hrest, hdel⟩
  have htype : (sealedFrame C t.openKeys t.recvSeq pt).type = ctApplicationData := rfl
  rw [readRecord, Loop.Body.exec_eq]
  simp only [readRecordLoop, hread]
  exact acceptFrame_of_valid htype (by rw [hbody]; exact le_add_left _ _)
    (decrypt_sealedFrame hC t.openKeys t.recvSeq pt) hinner hcap

lemma innerPlaintext_padded (htype : type ≠ 0) (data : Bytes) (k : ℕ) :
    innerPlaintext (data ++ [type] ++ replicate k 0) = some (type, data) := by
  have hdrop : (data ++ [type] ++ replicate k 0).reverse.dropWhile (· == 0) =
      type :: data.reverse := by
    rw [reverse_append, reverse_replicate, reverse_append, reverse_singleton]
    induction k with
    | zero =>
      rw [replicate_zero, nil_append, singleton_append, dropWhile_cons,
        if_neg (by simpa using htype)]
    | succ k ih => rwa [replicate_succ, cons_append, dropWhile_cons, if_pos (by decide)]
  rw [innerPlaintext, hdrop]
  dsimp only
  rw [reverse_reverse]

/-! ## The cipher of the kernel -/

/-- The cryptographic functions with `chacha20poly1305_encrypt` and `chacha20poly1305_decrypt`. -/
def Crypto.withAead (base : Crypto) : Crypto :=
  { base with
    encrypt := fun key nonce aad pt =>
      let sealed := Crypto.chacha20poly1305Encrypt key nonce aad pt
      (sealed.1, fun i => sealed.2.getD i 0)
    decrypt := fun key nonce aad ct tag =>
      let opened := Crypto.chacha20poly1305Decrypt (List.replicate ct.length 0) key nonce aad ct tag
      if opened.1 then some opened.2 else none
    decrypt_length := by
      intro key nonce aad ct tag pt h
      dsimp only at h
      split at h
      case isTrue hok =>
        rw [← Option.some.inj h]
        exact Crypto.length_chacha20poly1305Decrypt key nonce aad tag (List.length_replicate ..)
      case isFalse => cases h }

lemma ofFn_getD {bs : Bytes} (h : bs.length = n) : ofFn (fun i : Fin n => bs.getD i 0) = bs := by
  refine ext_getElem (by rw [length_ofFn, h]) fun i hi hi' => ?_
  rw [List.getElem_ofFn, getD_eq_getElem?_getD, getElem?_eq_getElem hi', Option.getD_some]

lemma withAead_roundTrips (base : Crypto) : base.withAead.RoundTrips where
  length key nonce aad pt := Crypto.length_chacha20Xor pt key 1 nonce
  decrypt key nonce aad pt := by
    have htag : ((base.withAead.encrypt key nonce aad pt).2.toBytes : Bytes) =
        (Crypto.chacha20poly1305Encrypt key nonce aad pt).2 :=
      ofFn_getD (Crypto.length_aeadMac _ _ _)
    have hopen := Crypto.chacha20poly1305Decrypt_encrypt (replicate
      (Crypto.chacha20poly1305Encrypt key nonce aad pt).1.length 0) key nonce aad pt
    have hend : (replicate (Crypto.chacha20poly1305Encrypt key nonce aad pt).1.length
        (0 : UInt8)).drop pt.length = [] := by
      refine drop_of_length_le ?_
      rw [length_replicate]
      exact (Crypto.length_chacha20Xor pt key 1 nonce).le
    rw [hend, append_nil] at hopen
    show (if (Crypto.chacha20poly1305Decrypt (replicate
        (Crypto.chacha20poly1305Encrypt key nonce aad pt).1.length 0) key nonce aad
        (Crypto.chacha20poly1305Encrypt key nonce aad pt).1
        (Crypto.chacha20poly1305Encrypt key nonce aad pt).2).1 then
          some (Crypto.chacha20poly1305Decrypt (replicate
            (Crypto.chacha20poly1305Encrypt key nonce aad pt).1.length 0) key nonce aad
            (Crypto.chacha20poly1305Encrypt key nonce aad pt).1
            (Crypto.chacha20poly1305Encrypt key nonce aad pt).2).2 else none) = _
    rw [hopen, if_pos rfl]

/-! ## The round trip -/

/-- **What `write_record` seals `read_record` opens.** Take a sender `s` and a receiver `r` with the
same key, IV and sequence number, an inner type other than 0 and at most 16384 bytes of data. Then
`s` sends one record, and if this record stands next in the stream of `r` and arrives, `r` reads
the type and the data, and the rest of the stream is left; and so it does if the content was padded
with zeros before it was sealed, up to `2 ^ 14 + 1` bytes of plaintext. -/
theorem write_read_record (base : Crypto) (s r : TlsConn) (innerType : UInt8) (data rest : Bytes)
    (hkeys : r.openKeys = s.sealKeys) (hseq : r.recvSeq = s.sendSeq) (htype : innerType ≠ 0)
    (hdata : data.length ≤ tlsPlaintextMax) :
    (∃ record, (writeRecord base.withAead s innerType data).1.tcp.sent = s.tcp.sent ++ [record] ∧
      (r.tcp.rx = record ++ rest → r.tcp.Delivers record.length →
        ∃ r', readRecord base.withAead tlsPlaintextMax r =
          (r', .ok ⟨innerType, data, .opened s.sendSeq⟩) ∧ r'.tcp.rx = rest)) ∧
      ∀ k, data.length + 1 + k ≤ 2 ^ 14 + 1 →
        let padded := sealedFrame base.withAead s.sealKeys s.sendSeq
          (data ++ [innerType] ++ replicate k 0)
        r.tcp.rx = padded.bytes ++ rest → r.tcp.Delivers padded.bytes.length →
        ∃ r', readRecord base.withAead tlsPlaintextMax r =
          (r', .ok ⟨innerType, data, .opened s.sendSeq⟩) ∧ r'.tcp.rx = rest := by
  have hpadded : ∀ k, data.length + 1 + k ≤ 2 ^ 14 + 1 →
      r.tcp.rx = (sealedFrame base.withAead s.sealKeys s.sendSeq
        (data ++ [innerType] ++ replicate k 0)).bytes ++ rest →
      r.tcp.Delivers (sealedFrame base.withAead s.sealKeys s.sendSeq
        (data ++ [innerType] ++ replicate k 0)).bytes.length →
      ∃ r', readRecord base.withAead tlsPlaintextMax r =
        (r', .ok ⟨innerType, data, .opened s.sendSeq⟩) ∧ r'.tcp.rx = rest := by
    intro k hk hrx hdel
    rw [← hkeys, ← hseq] at hrx hdel
    have hmax : (data ++ [innerType] ++ replicate k 0).length + tlsAeadTag ≤ tlsRecMax := by
      rw [length_append, length_append, length_singleton, length_replicate]
      exact (Nat.add_le_add_right hk _).trans (by decide)
    obtain ⟨tcp, hread, hrest, -⟩ := readRecord_sealedFrame (withAead_roundTrips base) (n := 0)
      (innerPlaintext_padded htype data k) hdata hmax hrx ((Nat.add_zero _).symm ▸ hdel)
    rw [hseq] at hread
    exact ⟨_, hread, hrest⟩
  have hmax : data.length ≤ 2 ^ 14 := hdata
  have hzero := hpadded 0 (by omega)
  rw [replicate_zero, append_nil] at hzero
  exact ⟨⟨_, writeRecord_sent (withAead_roundTrips base) s innerType hdata, hzero⟩, hpadded⟩

/-- A record with the data `[65, 0]`, which arrives byte by byte. -/
theorem write_read_record_two : let C := plainCrypto.withAead
    let s := newConn (.byteByByte []) zeros
    let sent := (writeRecord C s ctApplicationData [65, 0]).1.tcp.sent
    sent.length = 1 ∧
      ∃ r', readRecord C tlsPlaintextMax (newConn (.byteByByte sent.flatten) zeros) =
        (r', .ok ⟨ctApplicationData, [65, 0], .opened 0⟩) ∧ r'.tcp.rx = [] := by
  intro C s sent
  obtain ⟨⟨record, hsent, hread⟩, -⟩ := write_read_record plainCrypto s
    (newConn (.byteByByte sent.flatten) zeros) ctApplicationData [65, 0] [] rfl rfl (by decide)
    (by decide)
  have hone : sent = [record] := hsent
  have hflat : sent.flatten = record := by rw [hone, flatten_singleton]
  refine ⟨by rw [hone]; rfl, hread ?_ ?_⟩
  · rw [append_nil]
    exact hflat
  · exact delivers_byteByByte (by rw [hflat])

end SubOS.Tls
