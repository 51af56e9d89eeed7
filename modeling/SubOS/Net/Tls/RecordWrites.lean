import SubOS.Net.Tls.RoundTrip

set_option autoImplicit false

/-!
# Where the record layer writes

`read_record` writes to the buffers `hdr`, `rec` and `pt` and to the buffer of its caller. Its limit
for the length field is `TLS_REC_MAX`, 16640 bytes, the size of `rec`. Of these 16624 may be
ciphertext, which is decrypted to `pt`. But `pt` has 16385 bytes.

## Main definitions

* `readRecordWrites` — the writes of `read_record`.

## Main results

* `writes_fit_iff`, `longest_record_overflows` — when the writes stay inside the buffers.

## Design

The writes are logged by `Loop.Body.trace` along the loops of the model, so that the control flow is
the one of `readExactLoop` and `readRecordLoop`.
-/

open SubOS.Tls.Frame

namespace SubOS.Tls

open Nat List

/-! ## Writes -/

/-- The buffers that `read_record` writes to: `hdr`, `rec`, `pt` and that of its caller. -/
inductive Buffer where
  | hdr
  | record
  | pt
  | out
  deriving DecidableEq, Repr

/-- The size of a buffer, for a caller with a buffer of `outcap` bytes. -/
def Buffer.size (outcap : ℕ) : Buffer → ℕ
  | .hdr => 5
  | .record => tlsRecMax
  | .pt => tlsPlaintextMax + 1
  | .out => outcap

/-- A write of `len` bytes at the offset `off` of a buffer. -/
structure Write where
  buf : Buffer
  off : ℕ
  len : ℕ
  deriving DecidableEq, Repr

/-- The write stays inside the buffer. -/
def Write.Fits (outcap : ℕ) (w : Write) : Prop := w.off + w.len ≤ w.buf.size outcap

/-- What a round of `read_exact` writes. -/
def readExactLog (buf : Buffer) (n : ℕ) (s : Transport × Bytes) : List Write :=
  if n ≤ s.2.length then []
  else
    match s.1.tcpRecv ((n - s.2.length) % 65536) with
    | (_, none) => []
    | (_, some bs) => [⟨buf, s.2.length, bs.length⟩]

/-- The writes of `read_exact`. -/
def readExactWrites (buf : Buffer) (tcp : Transport) (n : ℕ) : List Write :=
  (readExactLoop n).trace (readExactLog buf n) (tcp, [])

/-- The writes when a record is taken from the stream. -/
def TlsConn.readFrameWrites (t : TlsConn) : List Write :=
  readExactWrites .hdr t.tcp 5 ++
    match readExact t.tcp 5 with
    | (_, none) => []
    | (tcp, some hdr) =>
      if tlsRecMax < recordLen hdr then [] else readExactWrites .record tcp (recordLen hdr)

/-- The writes when an encrypted record is opened. -/
def openRecordWrites (C : Crypto) (outcap : ℕ) (t : TlsConn) (f : Frame) : List Write :=
  if f.body.length < tlsAeadTag then []
  else
    match C.decrypt t.openKeys.key (buildNonce t.openKeys.iv t.recvSeq) f.hdr
        (f.body.take (f.body.length - tlsAeadTag)) (f.body.drop (f.body.length - tlsAeadTag)) with
    | none => []
    | some pt =>
      ⟨.pt, 0, f.body.length - tlsAeadTag⟩ ::
        match innerPlaintext pt with
        | none => []
        | some (_, body) => if outcap < body.length then [] else [⟨.out, 0, body.length⟩]

/-- The writes for a record other than ChangeCipherSpec. -/
def acceptFrameWrites (C : Crypto) (outcap : ℕ) (t : TlsConn) (f : Frame) : List Write :=
  if f.type = ctHandshake then
    if outcap < f.body.length then [] else [⟨.out, 0, f.body.length⟩]
  else if f.type = ctAlert ∧ t.appKeys = false ∧ t.recvSeq = 0 ∧ t.sendSeq = 0 then []
  else if f.type = ctApplicationData then openRecordWrites C outcap t f
  else []

/-- What a round of `read_record` writes. -/
def readRecordLog (C : Crypto) (outcap : ℕ) (t : TlsConn) : List Write :=
  t.readFrameWrites ++
    match t.readFrame with
    | (_, .error _) => []
    | (t, .ok f) => if f.type = ctChangeCipherSpec then [] else acceptFrameWrites C outcap t f

/-- The writes of `read_record`. -/
def readRecordWrites (C : Crypto) (outcap : ℕ) (t : TlsConn) : List Write :=
  (readRecordLoop C outcap).trace (readRecordLog C outcap) t

/-! ## The length field -/

/-- **`read_exact` writes at most the bytes it is asked for**, to the buffer it is given. -/
lemma readExactWrites_le (buf : Buffer) (tcp : Transport) (n : ℕ) :
    ∀ w ∈ readExactWrites buf tcp n, w.buf = buf ∧ w.off + w.len ≤ n := by
  refine (readExactLoop n).trace_rule _ (fun _ => True) _ (fun _ _ _ _ => trivial) ?_ trivial
  rintro ⟨tcp', got⟩ - w hw
  unfold readExactLog at hw
  split at hw
  · cases hw
  · next hmore =>
    split at hw
    · cases hw
    · next bs hrecv =>
      have hle : bs.length ≤ n - got.length :=
        (tcpRecv_some hrecv).2.1.trans (mod_le (n - got.length) 65536)
      have hlt : got.length < n := not_le.1 hmore
      rw [mem_singleton] at hw
      subst hw
      refine ⟨rfl, ?_⟩
      show got.length + bs.length ≤ n
      omega

variable {t : TlsConn}

variable {f : Frame}

lemma readFrame_body_le {t' : TlsConn} (h : t.readFrame = (t', .ok f)) :
    f.body.length ≤ tlsRecMax := by
  have hspec := readFrame_spec t
  rw [h] at hspec
  obtain ⟨-, -, -, hwf, -⟩ := hspec
  unfold TlsConn.readFrame at h
  split at h
  · simp at h
  · split at h
    · simp at h
    · next hle =>
      split at h
      · simp at h
      · simp only [Prod.mk.injEq, Except.ok.injEq] at h
        rw [hwf.body, ← h.2]
        exact not_lt.1 hle

lemma readFrameWrites_fits (outcap : ℕ) (t : TlsConn) : ∀ w ∈ t.readFrameWrites, w.Fits outcap := by
  intro w hw
  unfold TlsConn.readFrameWrites at hw
  rw [mem_append] at hw
  rcases hw with hw | hw
  · obtain ⟨hbuf, hle⟩ := readExactWrites_le _ _ _ w hw
    rwa [Write.Fits, hbuf]
  · split at hw
    · cases hw
    · split at hw
      · cases hw
      · next hmax =>
        obtain ⟨hbuf, hle⟩ := readExactWrites_le _ _ _ w hw
        rw [Write.Fits, hbuf]
        exact hle.trans (not_lt.1 hmax)

/-- The plaintext of a record of this type may be too long for `pt`, if the record is authentic. -/
def Frame.Oversized (C : Crypto) (t : TlsConn) (f : Frame) : Prop :=
  f.type = ctApplicationData ∧ tlsPlaintextMax + 1 + tlsAeadTag < f.body.length ∧
    ∃ pt, (t.opening f pt).Valid C

variable {C : Crypto} {outcap : ℕ}

/-- The writes for a record other than ChangeCipherSpec fit, if it is not oversized. -/
lemma acceptFrameWrites_fits
    (h : ¬ f.Oversized C t) : ∀ w ∈ acceptFrameWrites C outcap t f, w.Fits outcap := by
  intro w hw
  unfold acceptFrameWrites at hw
  split_ifs at hw with htype hcap halert happ
  · cases hw
  · rw [mem_singleton] at hw
    subst hw
    exact (zero_add _).trans_le (not_lt.1 hcap)
  · cases hw
  · unfold openRecordWrites at hw
    split at hw
    · cases hw
    · split at hw
      · cases hw
      · next pt hdec =>
        rw [mem_cons] at hw
        rcases hw with rfl | hw
        · have hlen : f.body.length ≤ tlsPlaintextMax + 1 + tlsAeadTag :=
            not_lt.1 fun hlt => h ⟨happ, hlt, pt, hdec⟩
          show 0 + (f.body.length - tlsAeadTag) ≤ tlsPlaintextMax + 1
          omega
        · split at hw
          · cases hw
          · split at hw
            · cases hw
            · next hcap' =>
              rw [mem_singleton] at hw
              subst hw
              exact (zero_add _).trans_le (not_lt.1 hcap')
  · cases hw

/-! ## The next record -/

/-- A record that `read_record` skips. -/
structure Frame.Skipped (f : Frame) : Prop where
  type : f.type = ctChangeCipherSpec
  wellFormed : f.WellFormed
  le : f.body.length ≤ tlsRecMax

/-- The first record of the stream that is not skipped is authentic and too long for `pt`. -/
def OversizedNext (C : Crypto) (t : TlsConn) : Prop :=
  ∃ (skipped : List Frame) (f : Frame) (rest : Bytes),
    t.tcp.rx = skipped.flatMap Frame.bytes ++ f.bytes ++ rest ∧ (∀ g ∈ skipped, g.Skipped) ∧
      f.WellFormed ∧ f.body.length ≤ tlsRecMax ∧ f.Oversized C t

/-- Whether a record is oversized depends on the key and the sequence number only. -/
lemma oversized_congr {t' : TlsConn} (hkeys : t'.openKeys = t.openKeys)
    (hseq : t'.recvSeq = t.recvSeq) : f.Oversized C t' ↔ f.Oversized C t := by
  simp only [Oversized, Opened.Valid, TlsConn.opening, hkeys, hseq]

lemma readRecordWrites_fits (h : ¬ OversizedNext C t) :
    ∀ w ∈ readRecordWrites C outcap t, w.Fits outcap := by
  -- skipping leaves the rest of the stream, the keys and the sequence number
  refine (readRecordLoop C outcap).trace_rule _
    (fun t' => t'.openKeys = t.openKeys ∧ t'.recvSeq = t.recvSeq ∧ ∃ skipped : List Frame,
      (∀ g ∈ skipped, g.Skipped) ∧ t.tcp.rx = skipped.flatMap bytes ++ t'.tcp.rx) _ ?_ ?_
    ⟨rfl, rfl, [], by simp, rfl⟩
  · rintro t₁ t₂ ⟨hkeys, hseq, skipped, hskipped, hrx⟩ hstep
    simp only [readRecordLoop] at hstep
    have hspec := readFrame_spec t₁
    split at hstep
    · cases hstep
    · next f hread =>
      rw [hread] at hspec
      obtain ⟨tcp, rfl, htook, hwf, -⟩ := hspec
      split at hstep
      · next htype =>
        cases hstep
        refine ⟨hkeys, hseq, skipped ++ [f], ?_, ?_⟩
        · rw [forall_mem_append, forall_mem_singleton]
          exact ⟨hskipped, htype, hwf, readFrame_body_le hread⟩
        · rw [hrx, htook.rx, flatMap_append, append_assoc, flatMap_singleton]
      · cases hstep
  · rintro t₁ ⟨hkeys, hseq, skipped, hskipped, hrx⟩ w hw
    unfold readRecordLog at hw
    rw [mem_append] at hw
    rcases hw with hw | hw
    · exact readFrameWrites_fits outcap t₁ w hw
    · have hspec := readFrame_spec t₁
      split at hw
      · cases hw
      · next f hread =>
        rw [hread] at hspec
        obtain ⟨tcp, rfl, htook, hwf, -⟩ := hspec
        split at hw
        · cases hw
        · refine acceptFrameWrites_fits (fun hover => h ?_) w hw
          refine ⟨skipped, f, tcp.rx, ?_, hskipped, hwf, readFrame_body_le hread, ?_⟩
          · rw [hrx, htook.rx, append_assoc]
          · exact (oversized_congr hkeys hseq).1 hover

lemma mem_acceptFrameWrites (h : f.Oversized C t) :
    ⟨.pt, 0, f.body.length - tlsAeadTag⟩ ∈ acceptFrameWrites C outcap t f := by
  obtain ⟨htype, hlen, pt, hvalid⟩ := h
  have hdec : C.decrypt t.openKeys.key (buildNonce t.openKeys.iv t.recvSeq) f.hdr
      (f.body.take (f.body.length - tlsAeadTag)) (f.body.drop (f.body.length - tlsAeadTag)) =
        some pt := hvalid
  have hne : f.type ≠ ctHandshake ∧ f.type ≠ ctAlert := by
    rw [htype]
    decide
  rw [acceptFrameWrites, if_neg hne.1, if_neg fun hc => hne.2 hc.1, if_pos htype, openRecordWrites,
    if_neg (by omega), hdec]
  exact mem_cons_self

lemma mem_readRecordWrites (outcap : ℕ) {skipped : List Frame}
    {rest : Bytes} (hrx : t.tcp.rx = skipped.flatMap bytes ++ f.bytes ++ rest)
    (hskipped : ∀ g ∈ skipped, g.Skipped) (hwf : f.WellFormed) (hmax : f.body.length ≤ tlsRecMax)
    (hover : f.Oversized C t)
    (h : t.tcp.Delivers ((skipped.flatMap bytes).length + f.bytes.length)) :
    ⟨.pt, 0, f.body.length - tlsAeadTag⟩ ∈ readRecordWrites C outcap t := by
  induction skipped generalizing t with
  | nil =>
    obtain ⟨tcp, hread, -, -⟩ := readFrame_of_delivers hwf hmax hrx
      (n := 0) (by simpa using h)
    have hne : f.type ≠ ctChangeCipherSpec := by
      rw [hover.1]
      decide
    rw [readRecordWrites, Loop.Body.trace_eq, readRecordLog, hread]
    refine mem_append_left _ (mem_append_right _ ?_)
    dsimp only
    rw [if_neg hne]
    exact mem_acceptFrameWrites ((oversized_congr rfl rfl).2 hover)
  | cons g skipped ih =>
    rw [forall_mem_cons] at hskipped
    obtain ⟨hg, hskipped⟩ := hskipped
    rw [flatMap_cons, append_assoc, append_assoc] at hrx
    rw [flatMap_cons, length_append, add_assoc] at h
    obtain ⟨tcp, hread, hrest, hdel⟩ := readFrame_of_delivers hg.wellFormed hg.le hrx h
    have hstep : (readRecordLoop C outcap).step t =
        .inl { t with tcp := tcp, frames := t.frames ++ [g] } := by
      simp only [readRecordLoop, hread, if_pos hg.type]
    rw [readRecordWrites, Loop.Body.trace_eq, hstep]
    refine mem_append_right _ (ih ?_ hskipped ?_ hdel)
    · rw [append_assoc]
      exact hrest
    · exact (oversized_congr rfl rfl).2 hover

/-- **When the record layer stays inside its buffers.** Over all ways in which the stream can
arrive, all writes of `read_record` stay inside `hdr`, `rec`, `pt` and the buffer of the caller if
and only if the next record is not an authentic one with more than `2 ^ 14 + 1` bytes of plaintext.
-/
theorem writes_fit_iff (C : Crypto) (t : TlsConn) :
    (∀ reads outcap, ∀ w ∈
      readRecordWrites C outcap { t with tcp := { t.tcp with reads := reads } },
      w.Fits outcap) ↔ ¬ OversizedNext C t := by
  constructor
  · rintro hfits ⟨skipped, f, rest, hrx, hskipped, hwf, hmax, hover⟩
    -- byte by byte, the record arrives
    have hdel : ({ t.tcp with reads := replicate t.tcp.rx.length (some 0) } :
        Transport).Delivers ((skipped.flatMap bytes).length + f.bytes.length) := by
      refine delivers_of_replicate t.tcp ?_
      rw [hrx, length_append, length_append]
      omega
    have hmem := mem_readRecordWrites tlsPlaintextMax
      (t := { t with tcp := { t.tcp with reads := replicate t.tcp.rx.length (some 0) } })
      hrx hskipped hwf hmax ((oversized_congr rfl rfl).2 hover) hdel
    have hfit : 0 + (f.body.length - tlsAeadTag) ≤ tlsPlaintextMax + 1 := hfits _ _ _ hmem
    have hlen := hover.2.1
    omega
  · intro h reads outcap
    refine readRecordWrites_fits fun hover => h ?_
    obtain ⟨skipped, f, rest, hrx, hskipped, hwf, hmax, hover⟩ := hover
    exact ⟨skipped, f, rest, hrx, hskipped, hwf, hmax, (oversized_congr rfl rfl).1 hover⟩

lemma sealedFrame_overflows (hC : C.RoundTrips) (pt : Bytes)
    (hlong : tlsPlaintextMax + 1 < pt.length) (hmax : pt.length + tlsAeadTag ≤ tlsRecMax) :
    ∃ w ∈ readRecordWrites C tlsPlaintextMax
        (newConn (.byteByByte (sealedFrame C .zero 0 pt).bytes) zeros),
      w = ⟨.pt, 0, pt.length⟩ ∧ ¬ w.Fits tlsPlaintextMax := by
  have hbody := length_sealedFrame_body hC .zero 0 pt
  have hwf := sealedFrame_wellFormed hC .zero 0 (hmax.trans_lt (by decide))
  have hover : (sealedFrame C .zero 0 pt).Oversized C
      (newConn (.byteByByte (sealedFrame C .zero 0 pt).bytes) zeros) := by
    refine ⟨rfl, ?_, pt, decrypt_sealedFrame hC .zero 0 pt⟩
    rw [hbody]
    exact Nat.add_lt_add_right hlong _
  have hrx : (newConn (.byteByByte (sealedFrame C .zero 0 pt).bytes) zeros).tcp.rx =
      ([] : List Frame).flatMap bytes ++ (sealedFrame C .zero 0 pt).bytes ++ [] :=
    (append_nil _).symm
  have hmem := mem_readRecordWrites tlsPlaintextMax hrx (by simp) hwf (hbody.trans_le hmax) hover
    (delivers_byteByByte (zero_add _).le)
  rw [hbody, Nat.add_sub_cancel] at hmem
  refine ⟨_, hmem, rfl, fun hfits => ?_⟩
  have hle : 0 + pt.length ≤ tlsPlaintextMax + 1 := hfits
  omega

/-- **A record that overflows `pt`**: it has the greatest length that is accepted, 16640, and its
16624 bytes of plaintext are written to the 16385 bytes. -/
theorem longest_record_overflows :
    ∃ w ∈ readRecordWrites plainCrypto.withAead tlsPlaintextMax
        (newConn (.byteByByte (sealedFrame plainCrypto.withAead TrafficKeys.zero 0
          (List.replicate 16624 ctApplicationData)).bytes) zeros),
      w = ⟨.pt, 0, 16624⟩ ∧ ¬ w.Fits tlsPlaintextMax := by
  have hlen : (replicate 16624 ctApplicationData).length = 16624 := length_replicate ..
  have hover := sealedFrame_overflows (withAead_roundTrips plainCrypto)
    (replicate 16624 ctApplicationData) (by rw [hlen]; decide) (by rw [hlen]; decide)
  rwa [hlen] at hover

end SubOS.Tls
