import SubOS.Net.Tls.Reads

set_option autoImplicit false

/-!
# The TLS handshake

The bytes of ClientHello, the parser of ServerHello, the key schedule, the byte stream of handshake
messages, and `tls_connect`. Every record shortens the stream, so the loops end.

## Main definitions

* `clientHello`, `parseServerHello`, `readServerFlight`, `tlsConnect` — the handshake.

## Main results

* `FlightRule.readServerFlight` — the invariant rule of the flight.
-/

open SubOS.Tls.Frame

namespace SubOS.Tls

open TlsConn List

/-! ## ClientHello -/

/-- `buf_t`: what was written, the length counted, and the capacity. -/
structure Buf where
  p : Bytes
  len : ℕ
  cap : ℕ

namespace Buf

/-- `bput`: a byte beyond the capacity is counted and not written. -/
def bput (b : Buf) (v : UInt8) : Buf :=
  { b with p := if b.len < b.cap then b.p ++ [v] else b.p, len := b.len + 1 }

def bput16 (b : Buf) (v : UInt16) : Buf := (b.bput (v >>> 8).toUInt8).bput (v &&& 0xff).toUInt8

def bputn (b : Buf) (d : Bytes) : Buf := d.foldl bput b

/-- Several 16-bit numbers in a row. -/
def bput16s (b : Buf) (vs : List UInt16) : Buf := vs.foldl bput16 b

end Buf

/-- The bytes of `"http/1.1"`. -/
def alpnHttp11 : Bytes := [0x68, 0x74, 0x74, 0x70, 0x2f, 0x31, 0x2e, 0x31]

/-- The signature algorithms offered. -/
def sigs : List UInt16 := [0x0403, 0x0804, 0x0401, 0x0805, 0x0806, 0x0807]

/-- ClientHello up to its extensions. -/
def clientHelloStart (random sid : Block 32) : Buf :=
  let b : Buf := ⟨[], 0, 1024⟩
  let b := (b.bput16 0x0303).bputn random.toBytes
  let b := (b.bput 32).bputn sid.toBytes
  let b := b.bput16s [2, 0x1303]
  (b.bput 1).bput 0

/-- The extensions of ClientHello. -/
def clientHelloExtensions (b : Buf) (host : Bytes) (pub : Block 32) : Buf :=
  let hlen := host.length
  -- supported_versions
  let b := ((b.bput16s [43, 3]).bput 2).bput16 0x0304
  -- supported_groups
  let b := b.bput16s [10, 4, 2, 0x001d]
  -- signature_algorithms
  let b := b.bput16s (13 :: UInt16.ofNat (2 + sigs.length * 2) ::
    UInt16.ofNat (sigs.length * 2) :: sigs)
  -- key_share
  let b := (b.bput16s [51, 38, 36, 0x001d, 32]).bputn pub.toBytes
  -- server_name
  let b := b.bput16s [0, UInt16.ofNat (hlen + 5), UInt16.ofNat (hlen + 3)]
  let b := ((b.bput 0).bput16 (UInt16.ofNat hlen)).bputn host
  -- ALPN
  ((b.bput16s [16, 11, 9]).bput 8).bputn alpnHttp11

/-- The body of ClientHello. The length of the extensions is written last, over two zeros. -/
def clientHelloBody (host : Bytes) (random sid pub : Block 32) : Buf :=
  let b := clientHelloStart random sid
  let extLenAt := b.len
  let b := b.bput16 0
  let extStart := b.len
  let b := clientHelloExtensions b host pub
  let extLen := b.len - extStart
  let p := b.p.set extLenAt (UInt8.ofNat (extLen / 256))
  { b with p := p.set (extLenAt + 1) (UInt8.ofNat extLen) }

/-- The handshake message ClientHello. -/
def clientHello (host : Bytes) (random sid pub : Block 32) : Except String Bytes :=
  let b := clientHelloBody host random sid pub
  if b.cap < b.len then .error "ClientHello overflow"
  else
    .ok ([hsClientHello, UInt8.ofNat (b.len / 65536), UInt8.ofNat (b.len / 256),
      UInt8.ofNat b.len] ++ b.p)

/-! ## ServerHello -/

/-- A 16-bit number in network order. -/
def be16 (p : Bytes) : ℕ := (p.getD 0 0).toNat * 256 + (p.getD 1 0).toNat

def block32 (p : Bytes) : Block 32 := fun i => p.getD i 0

/-- A key_share extension: the X25519 key in it. -/
def parseKeyShare (ext : Bytes) : Except String (Block 32) :=
  if ext.length < 4 then .error "bad key_share"
  else if be16 ext ≠ 0x001d ∨ be16 (ext.drop 2) ≠ 32 ∨ ext.length < 4 + 32 then
    .error "server key_share is not X25519"
  else .ok (block32 (ext.drop 4))

/-- The loop over the extensions of ServerHello: what is left of them, and the key found. -/
def extensionLoop : Loop.Body (Bytes × Option (Block 32)) (Except String (Option (Block 32))) where
  step s :=
    if s.1.length < 4 then .inr (.ok s.2)
    else
      let elen := be16 (s.1.drop 2)
      let p := s.1.drop 4
      if p.length < elen then .inr (.error "ServerHello ext len")
      else if be16 s.1 = 51 then
        match parseKeyShare (p.take elen) with
        | .error e => .inr (.error e)
        | .ok key => .inl (p.drop elen, some key)
      else .inl (p.drop elen, s.2)
  measure s := s.1.length
  decreases := by
    intro s s' h
    split at h
    · cases h
    · dsimp only at h
      split at h
      · cases h
      · split at h
        · split at h
          · cases h
          · cases h
            simp only [List.length_drop]
            omega
        · cases h
          simp only [List.length_drop]
          omega

/-- ServerHello behind the cipher suite and the compression method. -/
def parseExtensions (p : Bytes) : Except String (Block 32) :=
  if p.length < 2 then .error "ServerHello no extensions"
  else
    let extTotal := be16 p
    let p := p.drop 2
    if p.length < extTotal then .error "ServerHello ext overflow"
    else
      match extensionLoop.exec (p.take extTotal, none) with
      | .error e => .error e
      | .ok none => .error "server sent no X25519 key_share (HelloRetry?)"
      | .ok (some key) => .ok key

def parseServerHello (msg : Bytes) : Except String (Block 32) :=
  if msg.length < 4 ∨ msg.getD 0 0 ≠ hsServerHello then .error "expected ServerHello"
  else
    let p := msg.drop 4
    if p.length < 2 + 32 + 1 then .error "ServerHello truncated"
    else
      let p := p.drop (2 + 32)
      let sidLen := (p.getD 0 0).toNat
      let p := p.drop 1
      if p.length < sidLen + 3 then .error "ServerHello truncated"
      else
        let p := p.drop sidLen
        if be16 p ≠ 0x1303 then .error "server chose an unsupported cipher"
        else parseExtensions (p.drop 3)

/-! ## Key schedule -/

def transcriptHash (C : Crypto) (t : TlsConn) : Block 32 := C.sha256 t.transcript

def transcriptAdd (t : TlsConn) (data : Bytes) : TlsConn :=
  { t with transcript := t.transcript ++ data }

def deriveTrafficKeys (C : Crypto) (secret : Block 32) : TrafficKeys where
  key := C.tls13ExpandLabel secret "key" [] 32
  iv := C.tls13ExpandLabel secret "iv" [] 12

def psk : Block 32 := fun _ => 0

def keyScheduleHandshake (C : Crypto) (t : TlsConn) (shared : Block 32) : TlsConn :=
  let earlySecret := C.hkdfExtract [] psk.toBytes
  let derived := C.tls13DeriveSecret earlySecret "derived" (C.sha256 [])
  let handshakeSecret := C.hkdfExtract derived.toBytes shared.toBytes
  let th := transcriptHash C t
  let cHsSecret := C.tls13DeriveSecret handshakeSecret "c hs traffic" th
  let sHsSecret := C.tls13DeriveSecret handshakeSecret "s hs traffic" th
  { t with
    handshakeSecret := handshakeSecret
    cHsSecret := cHsSecret
    cHs := deriveTrafficKeys C cHsSecret
    sHs := deriveTrafficKeys C sHsSecret
    sendSeq := 0
    recvSeq := 0 }

def keyScheduleApplication (C : Crypto) (t : TlsConn) : TlsConn :=
  let derived := C.tls13DeriveSecret t.handshakeSecret "derived" (C.sha256 [])
  let master := C.hkdfExtract derived.toBytes psk.toBytes
  let th := transcriptHash C t
  { t with
    cAp := deriveTrafficKeys C (C.tls13DeriveSecret master "c ap traffic" th)
    sAp := deriveTrafficKeys C (C.tls13DeriveSecret master "s ap traffic" th) }

/-! ## The handshake byte stream -/

/-- A handshake record has been read into `hs_cur`. -/
def TlsConn.loadHs (t : TlsConn) (r : Rec) : TlsConn :=
  { t with
    transcript := t.transcript ++ r.body
    hsCurLen := r.body.length
    hsCurOff := 0
    hsOrigin := r.origin }

/-- Refill `hs_cur` with the next record. -/
def TlsConn.refillHs (C : Crypto) (t : TlsConn) : TlsConn × Except String Unit :=
  match readRecord C tlsPlaintextMax t with
  | (t, .error e) => (t, .error e)
  | (t, .ok r) =>
    let t := { t with hsCur := memcpy t.hsCur r.body }
    if r.innerType = ctAlert then (t, .error "alert during handshake")
    else if r.innerType ≠ ctHandshake then (t, .error "non-handshake in flight")
    else (t.loadHs r, .ok ())

/-- Hand out at most `n` bytes of `hs_cur`. -/
def TlsConn.takeHs (t : TlsConn) (n : ℕ) : TlsConn × Bytes :=
  let take := min (t.hsCurLen - t.hsCurOff) n
  let bytes := (t.hsCur.drop t.hsCurOff).take take
  ({ t with hsCurOff := t.hsCurOff + take, taken := t.taken ++ bytes.map fun b => (t.hsOrigin, b) },
    bytes)

/-- The bytes of `hs_cur` that have not been handed out. -/
def TlsConn.hsLeft (t : TlsConn) : ℕ := t.hsCurLen - t.hsCurOff

/-- The state of the loop of `hs_getbytes`. -/
structure GetState where
  conn : TlsConn
  got : ℕ
  dst : Bytes

/-- Copy what is there of the bytes still wanted. -/
def GetState.copy (n : ℕ) (s : GetState) : GetState :=
  ⟨(s.conn.takeHs (n - s.got)).1, s.got + min s.conn.hsLeft (n - s.got),
    s.dst ++ (s.conn.takeHs (n - s.got)).2⟩

variable {C : Crypto} {t t' : TlsConn}

lemma refillHs_ok (h : t.refillHs C = (t', .ok ())) :
    ∃ t₁ r, readRecord C tlsPlaintextMax t = (t₁, .ok r) ∧
      { t₁ with hsCur := memcpy t₁.hsCur r.body }.loadHs r = t' := by
  unfold refillHs at h
  split at h
  · simp at h
  · next t₁ r hread =>
    split_ifs at h <;> simp only [Prod.mk.injEq, reduceCtorEq, and_false] at h
    exact ⟨t₁, r, hread, h.1⟩

lemma refillHs_reads_lt (h : t.refillHs C = (t', .ok ())) :
    t'.tcp.reads.length < t.tcp.reads.length := by
  obtain ⟨t₁, r, hread, rfl⟩ := refillHs_ok h
  have hspec := readRecord_spec C tlsPlaintextMax t
  rw [hread] at hspec
  exact hspec.lt rfl

/-- The loop of `hs_getbytes`. -/
def hsGetBytesLoop (C : Crypto) (n : ℕ) : Loop.Body GetState (TlsConn × Except String Bytes) where
  step s :=
    if n ≤ s.got then .inr (s.conn, .ok s.dst)
    else if s.conn.hsCurLen ≤ s.conn.hsCurOff then
      match s.conn.refillHs C with
      | (t, .error e) => .inr (t, .error e)
      | (t, .ok ()) => .inl (GetState.copy n { s with conn := t })
    else .inl (s.copy n)
  measure s := s.conn.tcp.reads.length + (n - s.got)
  decreases := by
    intro s s' h
    split at h
    · cases h
    · split at h
      · split at h
        · cases h
        · next hrefill =>
          cases h
          have hlt := refillHs_reads_lt hrefill
          simp only [GetState.copy, TlsConn.takeHs]
          omega
      · cases h
        simp only [GetState.copy, TlsConn.takeHs, TlsConn.hsLeft]
        omega

def hsGetBytes (C : Crypto) (t : TlsConn) (n : ℕ) : TlsConn × Except String Bytes :=
  (hsGetBytesLoop C n).exec ⟨t, 0, []⟩

/-! ## The bytes available -/

lemma innerPlaintext_length {pt body : Bytes} {type : UInt8}
    (h : innerPlaintext pt = some (type, body)) : body.length < pt.length := by
  unfold innerPlaintext at h
  split at h
  · simp at h
  · next hdrop =>
    cases h
    have hle := (dropWhile_sublist (fun x : UInt8 => x == 0) (l := pt.reverse)).length_le
    rw [hdrop] at hle
    simp only [length_cons, length_reverse] at hle ⊢
    omega

lemma Frame.length_bytes_le {f : Frame} {fs : List Frame} (h : f ∈ fs) :
    f.bytes.length ≤ (fs.flatMap bytes).length := by
  obtain ⟨a, b, rfl⟩ := append_of_mem h
  simp only [flatMap_append, flatMap_cons, length_append]
  omega

/-- **The content of a record is shorter than the record**: what `read_record` returns and what
is left in the stream together are less than what was there. -/
theorem readRecord_shrinks {outcap : ℕ} {r : Rec} (h : readRecord C outcap t = (t', .ok r)) :
    r.body.length + t'.tcp.rx.length < t.tcp.rx.length := by
  have hspec := readRecord_spec C outcap t
  rw [h] at hspec
  obtain ⟨fs, os, hreads, hfrom⟩ := hspec.reads
  have hrx := congrArg length (hreads.took_eq rfl).rx
  simp only [length_append] at hrx
  -- the record that was returned is one of those taken
  suffices hf : ∃ f ∈ fs, r.body.length < f.bytes.length by
    obtain ⟨f, hmem, hlt⟩ := hf
    have := length_bytes_le hmem
    omega
  generalize hres : (.ok r : Except String Rec) = res at hfrom
  cases hfrom with
  | clear hclear =>
    rename_i f
    cases hres
    have hmem : f ∈ fs := (mem_filter.1 (hclear ▸ mem_singleton_self f)).1
    refine ⟨f, hmem, ?_⟩
    have := (hreads.wellFormed f hmem).hdr
    simp only [bytes, length_append]
    omega
  | opened hclear hinner =>
    rename_i o type body
    cases hres
    have henc : [o.frame] = fs.filter isEncrypted := hreads.encrypted_eq rfl
    have hmem : o.frame ∈ fs := (mem_filter.1 (henc ▸ mem_singleton_self o.frame)).1
    refine ⟨o.frame, hmem, ?_⟩
    have hpt := C.decrypt_length _ _ _ _ _ _ hreads.inOrder.1.2.2.2
    have hbody := innerPlaintext_length hinner
    simp only [bytes, Opened.frame, length_append]
    omega
  | error => cases hres

/-- The bytes that handshake messages can still be made of. -/
def TlsConn.avail (t : TlsConn) : ℕ := t.hsLeft + t.tcp.rx.length

lemma refillHs_avail (h : t.refillHs C = (t', .ok ())) : t'.avail ≤ t.avail := by
  obtain ⟨t₁, r, hread, rfl⟩ := refillHs_ok h
  have hlt := readRecord_shrinks hread
  simp only [avail, hsLeft, loadHs]
  omega

lemma copy_avail (n : ℕ) (s : GetState) :
    (s.copy n).conn.avail + (s.copy n).got = s.conn.avail + s.got := by
  simp only [GetState.copy, takeHs, avail, hsLeft]
  omega

lemma hsGetBytes_avail {n : ℕ} {dst : Bytes}
    (h : hsGetBytes C t n = (t', .ok dst)) : t'.avail + n ≤ t.avail := by
  refine (hsGetBytesLoop C n).exec_rule (fun s => s.conn.avail + s.got ≤ t.avail)
    (fun r => ∀ t' dst, r = (t', .ok dst) → t'.avail + n ≤ t.avail) (fun s hs => ?_)
    le_rfl t' dst h
  simp only [hsGetBytesLoop]
  split
  · rintro t' dst ⟨⟩
    omega
  · split
    · split
      · rintro t' dst ⟨⟩
      · next t₁ hrefill =>
        have hle := refillHs_avail hrefill
        have hcopy := copy_avail n { s with conn := t₁ }
        simp only [Sum.elim_inl] at hcopy ⊢
        omega
    · exact (copy_avail n s).trans_le hs

/-! ## The server's flight -/

/-- The loop that skips the body of a message, with the number of bytes left. -/
def skipLoop (C : Crypto) : Loop.Body (TlsConn × ℕ) (TlsConn × Except String Unit) where
  step s :=
    if s.2 = 0 then .inr (s.1, .ok ())
    else
      match hsGetBytes C s.1 (min s.2 512) with
      | (t, .error e) => .inr (t, .error e)
      | (t, .ok _) => .inl (t, s.2 - min s.2 512)
  measure s := s.2
  decreases := by
    intro s s' h
    split at h
    · cases h
    · split at h
      · cases h
      · cases h
        simp only
        omega

/-- The length field of a message header. -/
def messageLen (hdr : Bytes) : ℕ :=
  (hdr.getD 1 0).toNat * 65536 + (hdr.getD 2 0).toNat * 256 + (hdr.getD 3 0).toNat

/-- Read one message of the flight and skip its body: the type of the message. -/
def readMessage (C : Crypto) (t : TlsConn) : TlsConn × Except String UInt8 :=
  match hsGetBytes C t 4 with
  | (t, .error e) => (t, .error e)
  | (t, .ok hdr) =>
    match (skipLoop C).exec (t, messageLen hdr) with
    | (t, .error e) => (t, .error e)
    | (t, .ok ()) => (t, .ok (hdr.getD 0 0))

lemma skip_avail {left : ℕ}
    (h : (skipLoop C).exec (t, left) = (t', .ok ())) : t'.avail ≤ t.avail := by
  refine (skipLoop C).exec_rule (fun s => s.1.avail ≤ t.avail)
    (fun r => ∀ t', r = (t', .ok ()) → t'.avail ≤ t.avail) (fun s hs => ?_) le_rfl t' h
  simp only [skipLoop]
  split
  · rintro t' ⟨⟩
    exact hs
  · split
    · rintro t' ⟨⟩
    · next hget =>
      have := hsGetBytes_avail hget
      simp only [Sum.elim_inl]
      omega

lemma readMessage_avail {type : UInt8}
    (h : readMessage C t = (t', .ok type)) : t'.avail < t.avail := by
  unfold readMessage at h
  split at h
  · simp at h
  · next hget =>
    have hhdr := hsGetBytes_avail hget
    split at h
    · simp at h
    · next hskip =>
      cases h
      have := skip_avail hskip
      omega

/-- The loop over the messages of the flight. -/
def flightLoop (C : Crypto) : Loop.Body TlsConn (TlsConn × Except String Unit) where
  step t :=
    match readMessage C t with
    | (t, .error e) => .inr (t, .error e)
    | (t, .ok type) => if type = hsFinished then .inr (t, .ok ()) else .inl t
  measure := TlsConn.avail
  decreases := by
    intro t t' h
    split at h
    · cases h
    · next hmsg =>
      split at h
      · cases h
      · cases h
        exact readMessage_avail hmsg

def readServerFlight (C : Crypto) (t : TlsConn) : TlsConn × Except String Unit :=
  (flightLoop C).exec t

/-! ## The invariant rule of the flight -/

/-- What the two things that happen during the flight keep: bytes of `hs_cur` are handed out, and
the next record is read when there are none. `P true` holds while the flight goes on, `P false`
when reading has failed. -/
structure FlightRule (C : Crypto) (P : Bool → TlsConn → Prop) : Prop where
  takeHs : ∀ t n, P true t → P true (t.takeHs n).1
  refillHs : ∀ t t' n, P true t → t.hsCurLen ≤ t.hsCurOff → t.refillHs C = (t', .ok ()) → 0 < n →
    P true (t'.takeHs n).1
  refillHs_error : ∀ t t' e, P true t → t.refillHs C = (t', .error e) → P false t'

namespace FlightRule

variable {C : Crypto} {P : Bool → TlsConn → Prop} {t : TlsConn}

section

variable (h : FlightRule C P)
include h

lemma hsGetBytes (ht : P true t) (n : ℕ) : P (hsGetBytes C t n).2.isOk (hsGetBytes C t n).1 := by
  refine (hsGetBytesLoop C n).exec_rule (fun s => P true s.conn) (fun r => P r.2.isOk r.1)
    (fun s hs => ?_) ht
  simp only [hsGetBytesLoop]
  split
  · exact hs
  · next hmore =>
    split
    · next hempty =>
      split
      · next hrefill => exact h.refillHs_error _ _ _ hs hrefill
      · next hrefill => exact h.refillHs _ _ _ hs hempty hrefill (by dsimp only; omega)
    · exact h.takeHs _ _ hs

lemma skip (ht : P true t) (left : ℕ) :
    P ((skipLoop C).exec (t, left)).2.isOk ((skipLoop C).exec (t, left)).1 := by
  refine (skipLoop C).exec_rule (fun s => P true s.1) (fun r => P r.2.isOk r.1) (fun s hs => ?_) ht
  simp only [skipLoop]
  split
  · exact hs
  · have hget := h.hsGetBytes hs (min s.2 512)
    split <;> next hread =>
      rw [hread] at hget
      exact hget

lemma readMessage (ht : P true t) : P (readMessage C t).2.isOk (readMessage C t).1 := by
  have hhdr := h.hsGetBytes ht 4
  unfold Tls.readMessage
  split
  · next hread =>
    rw [hread] at hhdr
    exact hhdr
  · next hdr hread =>
    rw [hread] at hhdr
    have hskip := h.skip hhdr (messageLen hdr)
    split
    · next hread' =>
      rw [hread'] at hskip
      exact hskip
    · next hread' =>
      rw [hread'] at hskip
      exact hskip

/-- **The invariant rule of the flight.** -/
theorem readServerFlight (ht : P true t) :
    P (readServerFlight C t).2.isOk (readServerFlight C t).1 := by
  refine (flightLoop C).exec_rule (P true) (fun r => P r.2.isOk r.1) (fun t₁ hs => ?_) ht
  have hmsg := h.readMessage hs
  simp only [flightLoop]
  split
  · next hread =>
    rw [hread] at hmsg
    exact hmsg
  · next hread =>
    rw [hread] at hmsg
    split <;> exact hmsg

end

end FlightRule

/-! ## `tls_connect` -/

def sendClientFinished (C : Crypto) (t : TlsConn) : TlsConn × Bool :=
  let finishedKey := C.tls13ExpandLabel t.cHsSecret "finished" [] 32
  let verify := C.hmacSha256 finishedKey.toBytes (transcriptHash C t).toBytes
  writeRecord C t ctHandshake ([hsFinished, 0, 0, 32] ++ verify.toBytes)

/-- What `tls_connect` is given and obtains from outside `tls.c`. -/
structure ConnectEnv where
  /-- `host`, or `NULL`. -/
  host : Option Bytes
  ip : UInt32
  port : UInt16
  kzallocOk : Bool
  /-- The result of `tcp_connect`. -/
  tcp : Option Transport
  /-- The bytes drawn for the private key. -/
  priv : Block 32
  /-- The bytes drawn for the random of ClientHello. -/
  random : Block 32
  /-- The bytes drawn for the session id. -/
  sid : Block 32

/-- Keys cleared by `kzalloc`. -/
def TrafficKeys.zero : TrafficKeys := ⟨fun _ => 0, fun _ => 0⟩

/-- The connection after `kzalloc`, `tcp_connect` and the choice of the private key. -/
def newConn (tcp : Transport) (priv : Block 32) : TlsConn where
  tcp := tcp
  transcript := []
  priv := priv
  handshakeSecret := fun _ => 0
  cHsSecret := fun _ => 0
  cHs := TrafficKeys.zero
  sHs := TrafficKeys.zero
  cAp := TrafficKeys.zero
  sAp := TrafficKeys.zero
  sendSeq := 0
  recvSeq := 0
  appKeys := false
  established := false
  rbuf := []
  rbufLen := 0
  rbufOff := 0
  hsCur := []
  hsCurLen := 0
  hsCurOff := 0
  frames := []
  opens := []
  seals := []
  hsOrigin := .clear
  taken := []

def sendClientHello (t : TlsConn) (host : Bytes) (random sid pub : Block 32) :
    TlsConn × Except String Unit :=
  match clientHello host random sid pub with
  | .error e => (t, .error e)
  | .ok hs =>
    let t := transcriptAdd t hs
    let buf := [ctHandshake, 0x03, 0x01, UInt8.ofNat (hs.length / 256), UInt8.ofNat hs.length] ++ hs
    match sendAll t.tcp buf with
    | (tcp, ok) => ({ t with tcp := tcp }, if ok then .ok () else .error "ClientHello send failed")

/-- ServerHello: read it, parse it and derive the handshake keys. -/
def readServerHello (C : Crypto) (t : TlsConn) : TlsConn × Except String Unit :=
  match readRecord C tlsPlaintextMax t with
  | (t, .error e) => (t, .error e)
  | (t, .ok r) =>
    let t := { t with hsCur := memcpy t.hsCur r.body }
    if r.innerType ≠ ctHandshake then (t, .error "expected ServerHello record")
    else
      let t := transcriptAdd t r.body
      match parseServerHello r.body with
      | .error e => (t, .error e)
      | .ok serverPub => (keyScheduleHandshake C t (C.x25519 t.priv serverPub), .ok ())

/-- `tls_connect` up to the handshake keys. -/
def hello (C : Crypto) (host : Bytes) (random sid : Block 32) (t : TlsConn) :
    TlsConn × Except String Unit :=
  match sendClientHello t host random sid (C.x25519Base t.priv) with
  | (t, .error _) => (t, .error "ClientHello send failed")
  | (t, .ok ()) => readServerHello C t

/-- `tls_connect` from the handshake keys on. -/
def finishHandshake (C : Crypto) (t : TlsConn) : TlsConn × Except String Unit :=
  match readServerFlight C t with
  | (t, .error e) => (t, .error e)
  | (t, .ok ()) =>
    match sendClientFinished C (keyScheduleApplication C t) with
    | (t, false) => (t, .error "Finished send failed")
    | (t, true) =>
      ({ t with appKeys := true, sendSeq := 0, recvSeq := 0, established := true }, .ok ())

/-- `tls_connect` on an allocated connection. -/
def handshake (C : Crypto) (host : Bytes) (random sid : Block 32) (t : TlsConn) :
    TlsConn × Except String Unit :=
  match hello C host random sid t with
  | (t, .error e) => (t, .error e)
  | (t, .ok ()) => finishHandshake C t

def tlsConnect (C : Crypto) (env : ConnectEnv) : Except String TlsConn :=
  match env.host with
  | none => .error "bad arguments"
  | some host =>
    if env.ip = 0 ∨ env.port = 0 then .error "bad arguments"
    else if env.kzallocOk = false then .error "out of memory"
    else
      match env.tcp with
      | none => .error "TCP connect failed"
      | some tcp =>
        match handshake C host env.random env.sid (newConn tcp env.priv) with
        | (_, .error e) => .error e
        | (t, .ok ()) => .ok t

end SubOS.Tls
