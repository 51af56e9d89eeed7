import Mathlib.Algebra.Group.Nat.Defs
import SubOS.Net.Tls.Api
import SubOS.Net.Tls.ServerFlight

set_option autoImplicit false

/-!
# The messages of the server's flight

`read_server_flight` reads handshake messages up to the first Finished message and discards their
bodies, that of Finished too: the verify data is compared with nothing.

## Main definitions

* `VerifiedFlight` — a flight whose Finished message has the right verify data.

## Main results

* `tlsConnect_flight` — the flight that `tls_connect` has consumed.
* `unverified_finished_accepted` — a Finished message without verify data.
-/

namespace SubOS.Tls

open UInt8 List TlsConn

/-! ## Messages -/

/-- A handshake message: its type, the length of its body in three bytes, and the body. -/
def encodeMessage (m : UInt8 × Bytes) : Bytes :=
  [m.1, UInt8.ofNat (m.2.length / 65536), UInt8.ofNat (m.2.length / 256),
    UInt8.ofNat m.2.length] ++ m.2

/-- The flight ends with a Finished message of 32 bytes which are the HMAC, under the key derived
from `secret`, of the hash of the messages `before` the flight and in the flight before Finished. -/
def VerifiedFlight (C : Crypto) (secret : Block 32) (before flight : Bytes) : Prop :=
  ∃ msgs, flight = msgs ++ encodeMessage (hsFinished,
    (C.hmacSha256 (C.tls13ExpandLabel secret "finished" [] 32).toBytes
      (C.sha256 (before ++ msgs)).toBytes).toBytes)

lemma encodeMessage_of_header {hdr body : Bytes} (hhdr : hdr.length = 4)
    (hbody : body.length = messageLen hdr) :
    hdr ++ body = encodeMessage (hdr.getD 0 0, body) ∧ body.length < 2 ^ 24 := by
  obtain ⟨a, b, c, d, rfl⟩ : ∃ a b c d, hdr = [a, b, c, d] := by
    rcases hdr with _ | ⟨a, _ | ⟨b, _ | ⟨c, _ | ⟨d, _ | ⟨e, l⟩⟩⟩⟩⟩
    case cons.cons.cons.cons.nil => exact ⟨a, b, c, d, rfl⟩
    all_goals simp at hhdr
  have hlen : body.length = b.toNat * 65536 + c.toNat * 256 + d.toNat := hbody
  have hb := b.toNat_lt
  have hc := c.toNat_lt
  have hd := d.toNat_lt
  have hbytes : ofNat (body.length / 65536) = b ∧ ofNat (body.length / 256) = c ∧
      ofNat body.length = d := by
    rw [← UInt8.toNat_inj, ← UInt8.toNat_inj, ← UInt8.toNat_inj, toNat_ofNat', toNat_ofNat',
      toNat_ofNat', hlen]
    omega
  refine ⟨?_, by omega⟩
  rw [encodeMessage, hbytes.1, hbytes.2.1, hbytes.2.2]
  rfl

/-! ## The bytes handed out -/

/-- The handshake bytes that `hs_getbytes` has handed out. -/
def TlsConn.flight (t : TlsConn) : Bytes := t.taken.map Prod.snd

/-- What waits in `hs_cur` is there. -/
def TlsConn.HsOk (t : TlsConn) : Prop := t.hsCurLen ≤ t.hsCurOff ∨ t.hsCurLen ≤ t.hsCur.length

/-- Between two states the bytes `bs` were handed out. -/
structure Took (t : TlsConn) (bs : Bytes) (t' : TlsConn) : Prop where
  flight : t'.flight = t.flight ++ bs
  ok : t'.HsOk

section

variable {C : Crypto} {t t' : TlsConn}

lemma Took.refl (h : t.HsOk) : Took t [] t := ⟨(append_nil _).symm, h⟩

lemma Took.trans {t'' : TlsConn} {bs bs' : Bytes} (h : Took t bs t') (h' : Took t' bs' t'') :
    Took t (bs ++ bs') t'' :=
  ⟨by rw [h'.flight, h.flight, append_assoc], h'.ok⟩

lemma took_takeHs (h : t.HsOk) (n : ℕ) :
    Took t (t.takeHs n).2 (t.takeHs n).1 ∧ (t.takeHs n).2.length = min t.hsLeft n := by
  refine ⟨⟨?_, ?_⟩, ?_⟩
  · simp only [flight, takeHs, map_append, map_map, Function.comp_def, map_id']
  · rcases h with h | h
    · exact .inl (h.trans (Nat.le_add_right _ _))
    · exact .inr h
  · simp only [takeHs, hsLeft, length_take, length_drop]
    rcases h with h | h <;> omega

lemma took_refillHs (h : t.refillHs C = (t', .ok ())) : Took t [] t' := by
  have hspec := readRecord_spec C tlsPlaintextMax t
  obtain ⟨t₁, r, hread, rfl⟩ := refillHs_ok h
  rw [hread] at hspec
  refine ⟨?_, .inr ?_⟩
  · rw [append_nil]
    exact congrArg (map Prod.snd) hspec.rest.taken
  · show r.body.length ≤ (r.body ++ _).length
    rw [length_append]
    exact Nat.le_add_right _ _

/-- **`hs_getbytes` hands out as many bytes as it is asked for.** -/
lemma hsGetBytes_took (h : t.HsOk) {n : ℕ} {dst : Bytes} (hget : hsGetBytes C t n = (t', .ok dst)) :
    Took t dst t' ∧ dst.length = n := by
  have hcopy : ∀ s : GetState, s.conn.HsOk → Took s.conn (s.conn.takeHs (n - s.got)).2
      (s.copy n).conn ∧ (s.copy n).dst.length = s.dst.length + min s.conn.hsLeft (n - s.got) := by
    intro s hs
    obtain ⟨htook, hlen⟩ := took_takeHs hs (n - s.got)
    exact ⟨htook, by rw [GetState.copy, length_append, hlen]⟩
  refine (hsGetBytesLoop C n).exec_rule
    (fun s => Took t s.dst s.conn ∧ s.dst.length = s.got ∧ s.got ≤ n)
    (fun r => ∀ t' dst, r = (t', .ok dst) → Took t dst t' ∧ dst.length = n) ?_
    ⟨.refl h, rfl, Nat.zero_le n⟩ t' dst hget
  rintro s ⟨htook, hlen, hle⟩
  simp only [hsGetBytesLoop]
  split
  · rintro t' dst ⟨⟩
    exact ⟨htook, by omega⟩
  · split
    · split
      · rintro t' dst ⟨⟩
      · next t₁ hrefill =>
        have hfill := took_refillHs hrefill
        obtain ⟨hcopied, hcount⟩ := hcopy { s with conn := t₁ } hfill.ok
        have hboth := hfill.trans hcopied
        refine ⟨htook.trans hboth, ?_, ?_⟩
        · rw [hcount, hlen]
          rfl
        · simp only [GetState.copy]
          omega
    · obtain ⟨hcopied, hcount⟩ := hcopy s htook.ok
      refine ⟨htook.trans hcopied, ?_, ?_⟩
      · rw [hcount, hlen]
        rfl
      · simp only [GetState.copy]
        omega

lemma skip_took (h : t.HsOk) {left : ℕ} (hskip : (skipLoop C).exec (t, left) = (t', .ok ())) :
    ∃ bs, Took t bs t' ∧ bs.length = left := by
  refine (skipLoop C).exec_rule (fun s => ∃ bs, Took t bs s.1 ∧ bs.length + s.2 = left)
    (fun r => ∀ t', r = (t', .ok ()) → ∃ bs, Took t bs t' ∧ bs.length = left) ?_
    ⟨[], .refl h, Nat.zero_add left⟩ t' hskip
  rintro s ⟨bs, htook, hlen⟩
  simp only [skipLoop]
  split
  · rintro t' ⟨⟩
    exact ⟨bs, htook, by omega⟩
  · split
    · rintro t' ⟨⟩
    · next t₁ dst hget =>
      obtain ⟨htook', hdst⟩ := hsGetBytes_took htook.ok hget
      refine ⟨bs ++ dst, htook.trans htook', ?_⟩
      rw [length_append, hdst]
      omega

lemma readMessage_took (h : t.HsOk) {type : UInt8} (hread : readMessage C t = (t', .ok type)) :
    ∃ body, Took t (encodeMessage (type, body)) t' ∧ body.length < 2 ^ 24 := by
  unfold readMessage at hread
  split at hread
  · simp at hread
  · next t₁ hdr hget =>
    obtain ⟨htook, hlen⟩ := hsGetBytes_took h hget
    split at hread
    · simp at hread
    · next t₂ hskip =>
      cases hread
      obtain ⟨body, htook', hbody⟩ := skip_took htook.ok hskip
      obtain ⟨heq, hlt⟩ := encodeMessage_of_header hlen hbody
      exact ⟨body, heq ▸ htook.trans htook', hlt⟩

/-- **The flight is a sequence of messages up to the first Finished message.** -/
lemma readServerFlight_took (h : t.HsOk) (hread : readServerFlight C t = (t', .ok ())) :
    ∃ msgs body, Took t ((msgs ++ [(hsFinished, body)]).flatMap encodeMessage) t' ∧
      (∀ m ∈ msgs, m.1 ≠ hsFinished ∧ m.2.length < 2 ^ 24) ∧ body.length < 2 ^ 24 := by
  refine (flightLoop C).exec_rule
    (fun t₁ => ∃ msgs, Took t (msgs.flatMap encodeMessage) t₁ ∧
      ∀ m ∈ msgs, m.1 ≠ hsFinished ∧ m.2.length < 2 ^ 24)
    (fun r => ∀ t', r = (t', .ok ()) → ∃ msgs body,
      Took t ((msgs ++ [(hsFinished, body)]).flatMap encodeMessage) t' ∧
        (∀ m ∈ msgs, m.1 ≠ hsFinished ∧ m.2.length < 2 ^ 24) ∧ body.length < 2 ^ 24)
    ?_ ⟨[], .refl h, by simp⟩ t' hread
  rintro t₁ ⟨msgs, htook, hmsgs⟩
  simp only [flightLoop]
  split
  · rintro t' ⟨⟩
  · next t₂ type hmsg =>
    obtain ⟨body, htook', hlt⟩ := readMessage_took htook.ok hmsg
    have hboth : Took t ((msgs ++ [(type, body)]).flatMap encodeMessage) t₂ := by
      rw [flatMap_append, flatMap_singleton]
      exact htook.trans htook'
    split
    · next htype =>
      rintro t' ⟨⟩
      subst htype
      exact ⟨msgs, body, hboth, hmsgs, hlt⟩
    · next hne =>
      refine ⟨msgs ++ [(type, body)], hboth, ?_⟩
      rw [forall_mem_append, forall_mem_singleton]
      exact ⟨hmsgs, hne, hlt⟩

end

/-! ## `tls_connect` -/

/-- **The flight that `tls_connect` has consumed.** For any bytes of the peer in any pieces,
`tls_connect` returns a connection only if the server's flight it consumed is a sequence of whole
handshake messages, the last one of type Finished and the others not. -/
theorem tlsConnect_flight (C : Crypto) (env : ConnectEnv) (t : TlsConn)
    (h : tlsConnect C env = .ok t) :
    ∃ msgs body, t.flight = (msgs ++ [(hsFinished, body)]).flatMap encodeMessage ∧
      (∀ m ∈ msgs, m.1 ≠ hsFinished ∧ m.2.length < 2 ^ 24) ∧ body.length < 2 ^ 24 := by
  unfold tlsConnect at h
  split at h
  · cases h
  split_ifs at h
  split at h
  · cases h
  split at h
  · cases h
  next t₃ hhs =>
  cases h
  unfold handshake at hhs
  split at hhs
  · simp at hhs
  next t₁ hhello =>
  obtain ⟨-, -, hempty, htaken⟩ := hello_ready hhello
  unfold finishHandshake at hhs
  split at hhs
  · simp at hhs
  next t₂ hflight =>
  obtain ⟨msgs, body, htook, hmsgs, hlt⟩ := readServerFlight_took (.inl hempty) hflight
  refine ⟨msgs, body, ?_, hmsgs, hlt⟩
  have hstart : t₁.flight = [] := by rw [flight, htaken, map_nil]
  rw [← nil_append (flatMap _ _), ← hstart, ← htook.flight]
  -- the client's Finished message and the switch of keys hand out nothing
  split at hhs
  · simp at hhs
  · next t₄ hsend =>
    simp only [Prod.mk.injEq, and_true] at hhs
    subst hhs
    have hkept : t₄.taken = t₂.taken := congrArg (fun r => r.1.taken) hsend.symm
    exact congrArg (map Prod.snd) hkept

/-- A connection to a peer whose Finished message is empty. -/
def emptyFinishedEnv : ConnectEnv where
  host := some []
  ip := 1
  port := 443
  kzallocOk := true
  tcp := some (openWire (serverHelloRecord ++ encryptedFinished))
  priv := zeros
  random := zeros
  sid := zeros

set_option maxRecDepth 4000 in
lemma emptyFinishedEnv_flight :
    (tlsConnect plainCrypto emptyFinishedEnv).map flight = .ok [20, 0, 0, 0] := by
  cbv

lemma exists_emptyFinished :
    ∃ t, tlsConnect plainCrypto emptyFinishedEnv = .ok t ∧ t.flight = [20, 0, 0, 0] := by
  have hrun := emptyFinishedEnv_flight
  cases h : tlsConnect plainCrypto emptyFinishedEnv with
  | error e =>
    rw [h] at hrun
    cases hrun
  | ok t =>
    rw [h] at hrun
    exact ⟨t, rfl, Except.ok.inj hrun⟩

/-- **A Finished message without verify data is accepted.** Whatever the secret and the messages
before the flight may be, the flight does not end as RFC 8446 requires. -/
theorem unverified_finished_accepted :
    ∃ t, tlsConnect plainCrypto emptyFinishedEnv = .ok t ∧
      ∀ secret before, ¬ VerifiedFlight plainCrypto secret before t.flight := by
  obtain ⟨t, hconnect, hflight⟩ := exists_emptyFinished
  refine ⟨t, hconnect, ?_⟩
  rintro secret before ⟨msgs, heq⟩
  rw [hflight] at heq
  have hlen := congrArg length heq
  simp only [encodeMessage, length_append, length_cons, length_nil, Block.toBytes,
    length_ofFn] at hlen
  omega

/-- The messages of that flight: Finished, without content. -/
theorem tlsConnect_flight_emptyFinished :
    ∃ t msgs body, tlsConnect plainCrypto emptyFinishedEnv = .ok t ∧
      [20, 0, 0, 0] = (msgs ++ [(hsFinished, body)]).flatMap encodeMessage := by
  obtain ⟨t, hconnect, hflight⟩ := exists_emptyFinished
  obtain ⟨msgs, body, heq, -, -⟩ := tlsConnect_flight plainCrypto emptyFinishedEnv t hconnect
  exact ⟨t, msgs, body, hconnect, hflight.symm.trans heq⟩

end SubOS.Tls
