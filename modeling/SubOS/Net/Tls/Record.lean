import Mathlib.Data.List.FinRange
import SubOS.Lib.Loop

set_option autoImplicit false

/-!
# The TLS client: data and records

The connection object of `net/tls.c`, the transport under it and the cryptographic functions it
calls. `read_record` takes records until one is for its caller.

## Main definitions

* `TlsConn`, `Transport`, `Crypto` — the connection and what it works with.
* `writeRecord`, `readRecord` — seal and send a record; take one and open it.

## Main results

* `readExact_spec`, `readFrame_spec` — bytes and records are taken whole from the stream.

## Design

Nothing in `tls.c` depends on what the cryptographic functions compute, so they are a parameter of
the model. The bytes of the peer's stream and the sizes in which `tcp_recv` returns them are part of
the state, to be consumed from the front. The buffers `rbuf` and `hs_cur` are the part of them that
has been written since they were cleared; the scratch buffers `rec` and `pt` appear as local values.
The last five fields of `TlsConn` and `Transport.sent` record history and are read by no function.
-/

namespace SubOS.Tls

abbrev Bytes := List UInt8

/-- `uint8_t[n]`. -/
abbrev Block (n : ℕ) := Fin n → UInt8

abbrev Block.toBytes {n : ℕ} (b : Block n) : Bytes := List.ofFn b

/-! ## Constants -/

def tlsPlaintextMax : ℕ := 16384

def tlsRecMax : ℕ := tlsPlaintextMax + 256

def tlsAeadTag : ℕ := 16

def ctChangeCipherSpec : UInt8 := 20

def ctAlert : UInt8 := 21

def ctHandshake : UInt8 := 22

def ctApplicationData : UInt8 := 23

def hsClientHello : UInt8 := 1

def hsServerHello : UInt8 := 2

def hsFinished : UInt8 := 20

/-! ## Cryptographic functions -/

/-- The functions of `crypto/` that `tls.c` calls. -/
structure Crypto where
  sha256 : Bytes → Block 32
  /-- `hmac_sha256`, of a key and a message. -/
  hmacSha256 : Bytes → Bytes → Block 32
  /-- `hkdf_extract`, of a salt and the input keying material. -/
  hkdfExtract : Bytes → Bytes → Block 32
  /-- `tls13_expand_label`, of a secret, a label, a context and the length of the output. -/
  tls13ExpandLabel : Block 32 → String → Bytes → (n : ℕ) → Block n
  /-- `tls13_derive_secret`, of a secret, a label and a transcript hash. -/
  tls13DeriveSecret : Block 32 → String → Block 32 → Block 32
  x25519Base : Block 32 → Block 32
  x25519 : Block 32 → Block 32 → Block 32
  /-- `chacha20poly1305_encrypt`, of a key, a nonce, associated data and the plaintext: the
  ciphertext and its tag. -/
  encrypt : Block 32 → Block 12 → Bytes → Bytes → Bytes × Block 16
  /-- `chacha20poly1305_decrypt`, of a key, a nonce, associated data, a ciphertext and a tag. -/
  decrypt : Block 32 → Block 12 → Bytes → Bytes → Bytes → Option Bytes
  /-- Decryption writes as many bytes as the ciphertext has. -/
  decrypt_length : ∀ key nonce aad ct tag pt,
    decrypt key nonce aad ct tag = some pt → pt.length = ct.length

structure TrafficKeys where
  key : Block 32
  iv : Block 12

/-- The byte of a nonce that the `i`-th byte of the sequence number goes to. -/
def noncePos (i : Fin 8) : Fin 12 := ⟨11 - i, by omega⟩

/-- The `i`-th byte of a sequence number, from the low end. -/
def seqByte (seq : UInt64) (i : Fin 8) : UInt8 := (seq >>> UInt64.ofNat (8 * i)).toUInt8

def buildNonce (iv : Block 12) (seq : UInt64) : Block 12 :=
  (List.finRange 8).foldl
    (fun nonce i => Function.update nonce (noncePos i) (nonce (noncePos i) ^^^ seqByte seq i)) iv

/-! ## The transport -/

/-- The TCP connection of a TLS connection. -/
structure Transport where
  /-- The bytes of the peer that have not been received yet. -/
  rx : Bytes
  /-- The outcomes of the next calls of `tcp_recv`: nothing (a result of 0 or -1), or at most
  `k + 1` bytes. -/
  reads : List (Option ℕ)
  /-- The outcomes of the next calls of `tcp_send`: everything was sent, or not. -/
  sends : List Bool
  /-- The buffers passed to `tcp_send` so far; no function reads them. -/
  sent : List Bytes

/-- `tcp_recv`: the bytes received, or nothing. -/
def Transport.tcpRecv (tcp : Transport) (len : ℕ) : Transport × Option Bytes :=
  match tcp.reads with
  | [] => (tcp, none)
  | none :: reads => ({ tcp with reads := reads }, none)
  | some k :: reads =>
    if len = 0 ∨ tcp.rx = [] then ({ tcp with reads := reads }, none)
    else
      ({ tcp with reads := reads, rx := tcp.rx.drop (min (k + 1) len) },
        some (tcp.rx.take (min (k + 1) len)))

/-! ## The connection -/

/-- A record as it stands in the stream. -/
structure Frame where
  hdr : Bytes
  body : Bytes
  deriving DecidableEq, Repr

/-- Where the bytes of a record that was returned come from. -/
inductive Origin where
  /-- The record stood in the clear. -/
  | clear
  /-- The record was opened with this sequence number. -/
  | opened (seq : UInt64)
  deriving DecidableEq, Repr

/-- A call of `chacha20poly1305_decrypt` that succeeded. -/
structure Opened where
  key : Block 32
  nonce : Block 12
  seq : UInt64
  aad : Bytes
  ct : Bytes
  tag : Bytes
  pt : Bytes

/-- A call of `chacha20poly1305_encrypt`. -/
structure Sealed where
  appKeys : Bool
  key : Block 32
  nonce : Block 12
  seq : UInt64
  aad : Bytes
  pt : Bytes

/-- `struct tls_conn`. -/
structure TlsConn where
  tcp : Transport
  /-- The bytes the transcript hash has been fed. -/
  transcript : Bytes
  priv : Block 32
  handshakeSecret : Block 32
  cHsSecret : Block 32
  /-- `c_hs_key`, `c_hs_iv`. -/
  cHs : TrafficKeys
  /-- `s_hs_key`, `s_hs_iv`. -/
  sHs : TrafficKeys
  /-- `c_ap_key`, `c_ap_iv`. -/
  cAp : TrafficKeys
  /-- `s_ap_key`, `s_ap_iv`. -/
  sAp : TrafficKeys
  sendSeq : UInt64
  recvSeq : UInt64
  appKeys : Bool
  established : Bool
  rbuf : Bytes
  rbufLen : ℕ
  rbufOff : ℕ
  hsCur : Bytes
  hsCurLen : ℕ
  hsCurOff : ℕ
  /-- The records taken from the stream. -/
  frames : List Frame
  /-- The records opened. -/
  opens : List Opened
  /-- The records sealed. -/
  seals : List Sealed
  /-- Where the bytes in `hsCur` come from. -/
  hsOrigin : Origin
  /-- The handshake bytes that `hs_getbytes` has handed out, with their origin. -/
  taken : List (Origin × UInt8)

/-- `memcpy` to the front of a buffer. -/
def memcpy (buf data : Bytes) : Bytes := data ++ buf.drop data.length

/-- Taking `k` bytes at the read offset of a buffer splits the bytes that wait in it. -/
lemma take_append_rest (buf : Bytes) {off len k : ℕ} (h : k ≤ len - off) :
    (buf.drop off).take k ++ (buf.drop (off + k)).take (len - (off + k)) =
      (buf.drop off).take (len - off) := by
  obtain ⟨m, hm⟩ := Nat.exists_eq_add_of_le h
  rw [← List.drop_drop, show len - (off + k) = m by omega, hm, List.take_add]

/-! ## Framing helpers -/

variable {tcp : Transport} (C : Crypto) {tcp' : Transport} (outcap : ℕ) {len : ℕ} (t : TlsConn)
  {bs : Bytes}

lemma tcpRecv_reads_lt
    (h : tcp.tcpRecv len = (tcp', some bs)) : tcp'.reads.length < tcp.reads.length := by
  unfold Transport.tcpRecv at h
  split at h
  · simp at h
  · simp at h
  · next hreads =>
    split at h
    · simp at h
    · simp only [Prod.mk.injEq] at h
      rw [← h.1, hreads]
      simp

/-- The loop of `read_exact`, with what was received so far. -/
def readExactLoop (n : ℕ) : Loop.Body (Transport × Bytes) (Transport × Option Bytes) where
  step s :=
    if n ≤ s.2.length then .inr (s.1, some s.2)
    else
      match s.1.tcpRecv ((n - s.2.length) % 65536) with
      | (tcp, none) => .inr (tcp, none)
      | (tcp, some bs) => .inl (tcp, s.2 ++ bs)
  measure s := s.1.reads.length
  decreases := by
    intro s s' h
    split at h
    · cases h
    · split at h
      · cases h
      · next hrecv =>
        cases h
        exact tcpRecv_reads_lt hrecv

def readExact (tcp : Transport) (n : ℕ) : Transport × Option Bytes :=
  (readExactLoop n).exec (tcp, [])

/-- `send_all`: the length reaches `tcp_send` as a `uint16_t`. -/
def sendAll (tcp : Transport) (buf : Bytes) : Transport × Bool :=
  let tcp := { tcp with sent := tcp.sent ++ [buf.take (buf.length % 65536)] }
  match tcp.sends with
  | [] => (tcp, false)
  | ok :: sends => ({ tcp with sends := sends }, ok && decide (buf.length < 65536))

lemma sendAll_sent (tcp : Transport) (buf : Bytes) :
    (sendAll tcp buf).1.sent = tcp.sent ++ [buf.take (buf.length % 65536)] := by
  unfold sendAll
  dsimp only
  split <;> rfl

/-! ## Writing -/

/-- The header of a record with `reclen` bytes behind it. -/
def recordHeader (type major minor : UInt8) (reclen : ℕ) : Bytes :=
  [type, major, minor, UInt8.ofNat (reclen / 256), UInt8.ofNat reclen]

def TlsConn.sealKeys (t : TlsConn) : TrafficKeys := if t.appKeys then t.cAp else t.cHs

def writeRecord (C : Crypto) (t : TlsConn) (innerType : UInt8) (data : Bytes) : TlsConn × Bool :=
  let pt := data ++ [innerType]
  let hdr := recordHeader ctApplicationData 0x03 0x03 (pt.length + tlsAeadTag)
  let nonce := buildNonce t.sealKeys.iv t.sendSeq
  let sealed := C.encrypt t.sealKeys.key nonce hdr pt
  let r := sendAll t.tcp (hdr ++ sealed.1 ++ sealed.2.toBytes)
  -- the sequence number is used up, whether or not the record is sent
  ({ t with
      tcp := r.1
      sendSeq := t.sendSeq + 1
      seals := t.seals ++ [⟨t.appKeys, t.sealKeys.key, nonce, t.sendSeq, hdr, pt⟩] }, r.2)

/-! ## Reading -/

/-- The content type of a record. -/
def Frame.type (f : Frame) : UInt8 := f.hdr.getD 0 0

/-- The length field of a header. -/
def recordLen (hdr : Bytes) : ℕ := (hdr.getD 3 0).toNat * 256 + (hdr.getD 4 0).toNat

/-- The bytes of a record in the stream. -/
def Frame.bytes (f : Frame) : Bytes := f.hdr ++ f.body

/-- Take one record from the stream. -/
def TlsConn.readFrame (t : TlsConn) : TlsConn × Except String Frame :=
  match readExact t.tcp 5 with
  | (tcp, none) => ({ t with tcp := tcp }, .error "record header read failed")
  | (tcp, some hdr) =>
    if tlsRecMax < recordLen hdr then ({ t with tcp := tcp }, .error "record too large")
    else
      match readExact tcp (recordLen hdr) with
      | (tcp, none) => ({ t with tcp := tcp }, .error "record body read failed")
      | (tcp, some body) =>
        ({ t with tcp := tcp, frames := t.frames ++ [⟨hdr, body⟩] }, .ok ⟨hdr, body⟩)

/-- The inner content type and the content of a decrypted record: the zero padding is stripped,
and the last byte before it is the type. -/
def innerPlaintext (pt : Bytes) : Option (UInt8 × Bytes) :=
  match pt.reverse.dropWhile (· == 0) with
  | [] => none
  | type :: body => some (type, body.reverse)

/-- What `read_record` returns. -/
structure Rec where
  innerType : UInt8
  body : Bytes
  origin : Origin

def TlsConn.openKeys (t : TlsConn) : TrafficKeys := if t.appKeys then t.sAp else t.sHs

/-- The decryption of a record, as it is recorded. -/
def TlsConn.opening (t : TlsConn) (f : Frame) (pt : Bytes) : Opened where
  key := t.openKeys.key
  nonce := buildNonce t.openKeys.iv t.recvSeq
  seq := t.recvSeq
  aad := f.hdr
  ct := f.body.take (f.body.length - tlsAeadTag)
  tag := f.body.drop (f.body.length - tlsAeadTag)
  pt := pt

/-- The call of `chacha20poly1305_decrypt` is one that succeeds. -/
def Opened.Valid (C : Crypto) (o : Opened) : Prop :=
  C.decrypt o.key o.nonce o.aad o.ct o.tag = some o.pt

/-- Record that a record was opened, and use up the sequence number. -/
def TlsConn.addOpening (t : TlsConn) (o : Opened) : TlsConn :=
  { t with recvSeq := t.recvSeq + 1, opens := t.opens ++ [o] }

def openRecord (C : Crypto) (outcap : ℕ) (t : TlsConn) (f : Frame) : TlsConn × Except String Rec :=
  if f.body.length < tlsAeadTag then (t, .error "short encrypted record")
  else
    match C.decrypt t.openKeys.key (buildNonce t.openKeys.iv t.recvSeq) f.hdr
        (f.body.take (f.body.length - tlsAeadTag)) (f.body.drop (f.body.length - tlsAeadTag)) with
    | none => (t, .error "record decrypt/auth failed")
    | some pt =>
      let t' := t.addOpening (t.opening f pt)
      match innerPlaintext pt with
      | none => (t', .error "empty inner plaintext")
      | some (type, body) =>
        if outcap < body.length then (t', .error "inner plaintext too large")
        else (t', .ok ⟨type, body, .opened t.recvSeq⟩)

/-- What `read_record` makes of a record other than ChangeCipherSpec, for a caller with a buffer
of `outcap` bytes. -/
def acceptFrame (C : Crypto) (outcap : ℕ) (t : TlsConn) (f : Frame) :
    TlsConn × Except String Rec :=
  if f.type = ctHandshake then
    if outcap < f.body.length then (t, .error "handshake record too large")
    else (t, .ok ⟨ctHandshake, f.body, .clear⟩)
  else if f.type = ctAlert ∧ t.appKeys = false ∧ t.recvSeq = 0 ∧ t.sendSeq = 0 then
    (t, .error "server sent a cleartext alert")
  else if f.type = ctApplicationData then openRecord C outcap t f
  else (t, .error "unexpected record type")

/-! ## What is taken from the stream -/

/-- Between two states of the transport the bytes `bs` were taken from the stream. -/
structure Transport.Took (tcp : Transport) (bs : Bytes) (tcp' : Transport) : Prop where
  rx : tcp.rx = bs ++ tcp'.rx
  reads : tcp'.reads.length ≤ tcp.reads.length

namespace Transport.Took

lemma refl (tcp : Transport) : tcp.Took [] tcp := ⟨rfl, le_rfl⟩

lemma trans {tcp₁ tcp₂ tcp₃ : Transport} {bs bs' : Bytes} (h : tcp₁.Took bs tcp₂)
    (h' : tcp₂.Took bs' tcp₃) : tcp₁.Took (bs ++ bs') tcp₃ :=
  ⟨by rw [h.rx, h'.rx, List.append_assoc], h'.reads.trans h.reads⟩

end Transport.Took

lemma tcpRecv_some
    (h : tcp.tcpRecv len = (tcp', some bs)) : tcp.Took bs tcp' ∧ bs.length ≤ len ∧ bs ≠ [] := by
  have hlt := tcpRecv_reads_lt h
  unfold Transport.tcpRecv at h
  split at h
  · simp at h
  · simp at h
  · next k reads _ =>
    split at h
    · simp at h
    · next hne =>
      simp only [not_or] at hne
      obtain ⟨rfl, rfl⟩ := h
      refine ⟨⟨by simp, hlt.le⟩, ?_, ?_⟩
      · simp only [List.length_take]
        omega
      · intro hnil
        rw [List.take_eq_nil_iff] at hnil
        rcases hnil with h0 | h0
        · omega
        · exact hne.2 h0

lemma tcpRecv_none (h : tcp.tcpRecv len = (tcp', none)) : tcp.Took [] tcp':= by
  unfold Transport.tcpRecv at h
  split at h
  · cases h
    exact .refl tcp
  · next hreads =>
    cases h
    exact ⟨rfl, by simp [hreads]⟩
  · next hreads =>
    split at h
    · cases h
      exact ⟨rfl, by simp [hreads]⟩
    · simp at h

/-- What `read_exact` has done when it returns. -/
def ReadExactPost (tcp : Transport) (n : ℕ) : Transport × Option Bytes → Prop
  | (tcp', some bs) =>
    tcp.Took bs tcp' ∧ bs.length = n ∧ (0 < n → tcp'.reads.length < tcp.reads.length)
  | (tcp', none) => ∃ bs, tcp.Took bs tcp'

/-- **`read_exact` takes exactly `n` bytes from the front of the stream**, whatever the sizes in
which they arrive, or fails. -/
theorem readExact_spec (tcp : Transport) (n : ℕ) : ReadExactPost tcp n (readExact tcp n) := by
  -- the bytes so far came from the front of the stream, and there are not too many
  refine (readExactLoop n).exec_rule
    (fun s => tcp.Took s.2 s.1 ∧ s.2.length ≤ n ∧
      (s.2 ≠ [] → s.1.reads.length < tcp.reads.length))
    (ReadExactPost tcp n) ?_ ⟨.refl tcp, Nat.zero_le n, absurd rfl⟩
  rintro ⟨tcp₁, got⟩ ⟨htook, hlen, hreads⟩
  simp only [readExactLoop]
  split
  · next hdone =>
    refine ⟨htook, le_antisymm hlen hdone, fun hpos => hreads ?_⟩
    rintro rfl
    simp only [List.length_nil] at hdone
    omega
  · next hmore =>
    split
    · next hrecv => exact ⟨_, htook.trans (tcpRecv_none hrecv)⟩
    · next tcp₂ bs hrecv =>
      obtain ⟨htook', hle, -⟩ := tcpRecv_some hrecv
      have hlt := tcpRecv_reads_lt hrecv
      refine ⟨htook.trans htook', ?_, fun _ => hlt.trans_le htook.reads⟩
      rw [List.length_append]
      omega

/-! ## What becomes of a record -/

/-- The header of a record has five bytes, and its length field is right. -/
structure Frame.WellFormed (f : Frame) : Prop where
  hdr : f.hdr.length = 5
  body : f.body.length = recordLen f.hdr

/-- What taking a record does: the record came from the front of the stream and is logged, or
nothing but the stream has changed. -/
def ReadFramePost (t : TlsConn) : TlsConn × Except String Frame → Prop
  | (t', .ok f) =>
    ∃ tcp, t' = { t with tcp := tcp, frames := t.frames ++ [f] } ∧ t.tcp.Took f.bytes tcp ∧
      f.WellFormed ∧ tcp.reads.length < t.tcp.reads.length
  | (t', .error _) => ∃ tcp bs, t' = { t with tcp := tcp } ∧ t.tcp.Took bs tcp

/-- **A record is taken whole from the front of the stream**, or not at all. -/
theorem readFrame_spec : ReadFramePost t t.readFrame := by
  unfold TlsConn.readFrame
  have hhdr := readExact_spec t.tcp 5
  split
  · next tcp hread =>
    rw [hread] at hhdr
    obtain ⟨bs, htook⟩ := hhdr
    exact ⟨tcp, bs, rfl, htook⟩
  · next tcp hdr hread =>
    rw [hread] at hhdr
    obtain ⟨htook, hlen, hlt⟩ := hhdr
    split
    · exact ⟨tcp, hdr, rfl, htook⟩
    · have hbody := readExact_spec tcp (recordLen hdr)
      split
      · next tcp' hread' =>
        rw [hread'] at hbody
        obtain ⟨bs, htook'⟩ := hbody
        exact ⟨tcp', hdr ++ bs, rfl, htook.trans htook'⟩
      · next tcp' body hread' =>
        rw [hread'] at hbody
        obtain ⟨htook', hlen', -⟩ := hbody
        exact ⟨tcp', rfl, htook.trans htook', ⟨hlen, hlen'⟩, htook'.reads.trans_lt (hlt (by omega))⟩

/-- What `read_record` makes of a record other than ChangeCipherSpec: it is refused, returned as
it stands, or opened and then returned or refused. -/
inductive AcceptCase (C : Crypto) (outcap : ℕ) (t : TlsConn) (f : Frame) :
    TlsConn × Except String Rec → Prop
  | refused (e : String) (h : ¬ (f.type = ctHandshake ∧ f.body.length ≤ outcap)) :
    AcceptCase C outcap t f (t, .error e)
  | clear (htype : f.type = ctHandshake) (hlen : f.body.length ≤ outcap) :
    AcceptCase C outcap t f (t, .ok ⟨ctHandshake, f.body, .clear⟩)
  | opened (pt : Bytes) (htype : f.type = ctApplicationData) (hlen : tlsAeadTag ≤ f.body.length)
    (hvalid : (t.opening f pt).Valid C) (type : UInt8) (body : Bytes)
    (hinner : innerPlaintext pt = some (type, body)) :
    AcceptCase C outcap t f (t.addOpening (t.opening f pt), .ok ⟨type, body, .opened t.recvSeq⟩)
  | openedRefused (pt : Bytes) (htype : f.type = ctApplicationData)
    (hlen : tlsAeadTag ≤ f.body.length) (hvalid : (t.opening f pt).Valid C) (e : String) :
    AcceptCase C outcap t f (t.addOpening (t.opening f pt), .error e)

lemma openRecord_cases {f : Frame}
    (htype : f.type = ctApplicationData) : AcceptCase C outcap t f (openRecord C outcap t f) := by
  have hne : ¬ (f.type = ctHandshake ∧ f.body.length ≤ outcap) := by
    rw [htype]
    exact fun h => absurd h.1 (by decide)
  unfold openRecord
  split
  · exact .refused _ hne
  · next hlen =>
    rw [not_lt] at hlen
    split
    · exact .refused _ hne
    · next pt hdec =>
      split
      · exact .openedRefused pt htype hlen hdec _
      · next type body hinner =>
        split
        · exact .openedRefused pt htype hlen hdec _
        · exact .opened pt htype hlen hdec type body hinner

/-- **A record is returned as it stands, opened, or refused.** -/
theorem acceptFrame_cases (f : Frame) : AcceptCase C outcap t f (acceptFrame C outcap t f):= by
  unfold acceptFrame
  split_ifs with htype hcap halert happ
  · exact .refused _ fun h => absurd h.2 (by omega)
  · exact .clear htype (by omega)
  · exact .refused _ fun h => htype h.1
  · exact openRecord_cases C outcap t happ
  · exact .refused _ fun h => htype h.1

/-- The loop of `read_record`: ChangeCipherSpec records are skipped. -/
def readRecordLoop (C : Crypto) (outcap : ℕ) :
    Loop.Body TlsConn (TlsConn × Except String Rec) where
  step t :=
    match t.readFrame with
    | (t, .error e) => .inr (t, .error e)
    | (t, .ok f) =>
      if f.type = ctChangeCipherSpec then .inl t else .inr (acceptFrame C outcap t f)
  measure t := t.tcp.reads.length
  decreases := by
    intro t t' h
    have hspec := readFrame_spec t
    split at h
    · cases h
    · next hread =>
      rw [hread] at hspec
      obtain ⟨tcp, rfl, -, -, hlt⟩ := hspec
      split at h
      · cases h
        exact hlt
      · cases h

def readRecord (C : Crypto) (outcap : ℕ) (t : TlsConn) : TlsConn × Except String Rec :=
  (readRecordLoop C outcap).exec t

end SubOS.Tls
