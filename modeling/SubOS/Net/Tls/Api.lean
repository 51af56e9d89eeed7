import SubOS.Net.Tls.Handshake

set_option autoImplicit false

/-!
# The TLS client: `tls_send` and `tls_recv`

The calls of an established connection, and what each part of the client leaves alone.

## Main definitions

* `tlsSend`, `tlsRecv` — the calls.
* `SealState`, `AppState` — what sealing and handing out data depend on.

## Main results

* `tlsConnect_ready` — the handshake does not touch the buffer of application data.
* `tlsSend_reads`, `tlsRecv_sealState` — sending and reading leave each other alone.
-/

namespace SubOS.Tls

/-! ## The calls -/

/-- The loop of `tls_send`, with the number of bytes sent so far. -/
def tlsSendLoop (C : Crypto) (data : Bytes) : Loop.Body (TlsConn × ℕ) (TlsConn × Option ℕ) where
  step s :=
    if data.length ≤ s.2 then .inr (s.1, some s.2)
    else
      let chunk := min (data.length - s.2) tlsPlaintextMax
      match writeRecord C s.1 ctApplicationData ((data.drop s.2).take chunk) with
      | (t, false) => .inr (t, if s.2 = 0 then none else some s.2)
      | (t, true) => .inl (t, s.2 + chunk)
  measure s := data.length - s.2
  decreases := by
    intro s s' h
    split at h
    · cases h
    · dsimp only at h
      split at h
      · cases h
      · cases h
        simp only [tlsPlaintextMax]
        omega

/-- `tls_send`: the number of bytes sent, or -1. -/
def tlsSend (C : Crypto) (t : TlsConn) (data : Bytes) : TlsConn × Option ℕ :=
  if t.established = false then (t, none) else (tlsSendLoop C data).exec (t, 0)

/-- How the loop of `tls_recv` ends. -/
inductive RecvEnd where
  /-- Reading failed. -/
  | failed
  /-- The peer sent an alert. -/
  | closed
  /-- There is application data in `rbuf`. -/
  | data
  deriving DecidableEq, Repr

/-- A record has been read into `rbuf`. -/
def TlsConn.loadApp (t : TlsConn) (body : Bytes) : TlsConn :=
  { t with rbuf := memcpy t.rbuf body, rbufLen := body.length, rbufOff := 0 }

/-- The loop of `tls_recv`: records are read until one carries application data. -/
def tlsRecvLoop (C : Crypto) : Loop.Body TlsConn (TlsConn × RecvEnd) where
  step t :=
    match readRecord C tlsPlaintextMax t with
    | (t, .error _) => .inr (t, .failed)
    | (t, .ok r) =>
      if r.innerType = ctApplicationData then .inr (t.loadApp r.body, .data)
      else
        let t := { t with rbuf := memcpy t.rbuf r.body }
        if r.innerType = ctHandshake then .inl t
        else if r.innerType = ctAlert then .inr (t, .closed)
        else .inl t
  measure t := t.tcp.reads.length
  decreases := by
    intro t t' h
    have hspec := readRecord_spec C tlsPlaintextMax t
    split at h
    · cases h
    · next hread =>
      rw [hread] at hspec
      have hlt := hspec.lt rfl
      dsimp only at h
      split_ifs at h <;> cases h <;> exact hlt

/-- Hand out at most `len` bytes of `rbuf`. -/
def TlsConn.takeApp (t : TlsConn) (len : ℕ) : TlsConn × Bytes :=
  let n := min (t.rbufLen - t.rbufOff) len
  ({ t with rbufOff := t.rbufOff + n }, (t.rbuf.drop t.rbufOff).take n)

/-- `tls_recv`: the bytes received, or -1. -/
def tlsRecv (C : Crypto) (t : TlsConn) (len : ℕ) : TlsConn × Option Bytes :=
  if t.established = false then (t, none)
  else if t.rbufLen ≤ t.rbufOff then
    match (tlsRecvLoop C).exec t with
    | (t, .failed) => (t, none)
    | (t, .closed) => (t, some [])
    | (t, .data) => ((t.takeApp len).1, some (t.takeApp len).2)
  else ((t.takeApp len).1, some (t.takeApp len).2)

/-- A call of an established connection. -/
inductive Call where
  | send (data : Bytes)
  | recv (len : ℕ)

/-- The connection after a call. -/
def Call.exec (C : Crypto) (t : TlsConn) : Call → TlsConn
  | .send data => (tlsSend C t data).1
  | .recv len => (tlsRecv C t len).1

/-! ## Two views of a connection -/

/-- The part of a connection that sealing depends on and changes. -/
structure SealState where
  cHs : TrafficKeys
  cAp : TrafficKeys
  sendSeq : UInt64
  appKeys : Bool
  seals : List Sealed

def TlsConn.sealState (t : TlsConn) : SealState := ⟨t.cHs, t.cAp, t.sendSeq, t.appKeys, t.seals⟩

/-- The part of a connection that handing out application data depends on and changes. -/
structure AppState where
  appKeys : Bool
  established : Bool
  rbuf : Bytes
  rbufLen : ℕ
  rbufOff : ℕ

/-- The view of handing out application data. -/
def TlsConn.appState (t : TlsConn) : AppState :=
  ⟨t.appKeys, t.established, t.rbuf, t.rbufLen, t.rbufOff⟩

section

variable {C : Crypto} {t t' : TlsConn} {r : Except String Unit}

lemma TlsConn.RestKept.sealState (h : t.RestKept t') : t'.sealState = t.sealState := by
  rw [h]
  rfl

lemma TlsConn.RestKept.appState (h : t.RestKept t') : t'.appState = t.appState := by
  rw [h]
  rfl

lemma refillHs_views (h : t.refillHs C = (t', r)) :
    t'.sealState = t.sealState ∧ t'.appState = t.appState := by
  have hspec := readRecord_spec C tlsPlaintextMax t
  unfold TlsConn.refillHs at h
  split at h
  · next t₁ e hread =>
    rw [hread] at hspec
    cases h
    exact ⟨hspec.rest.sealState, hspec.rest.appState⟩
  · next t₁ r hread =>
    rw [hread] at hspec
    split_ifs at h <;> cases h <;> exact ⟨hspec.rest.sealState, hspec.rest.appState⟩

lemma readServerFlight_views (C : Crypto) (t : TlsConn) :
    (readServerFlight C t).1.sealState = t.sealState ∧
      (readServerFlight C t).1.appState = t.appState := by
  have hrule : FlightRule C fun _ t' =>
      t'.sealState = t.sealState ∧ t'.appState = t.appState :=
    { takeHs := fun _ _ h => h
      refillHs := fun _ _ _ h _ hrefill _ =>
        ⟨(refillHs_views hrefill).1.trans h.1, (refillHs_views hrefill).2.trans h.2⟩
      refillHs_error := fun _ _ _ h hrefill =>
        ⟨(refillHs_views hrefill).1.trans h.1, (refillHs_views hrefill).2.trans h.2⟩ }
  exact hrule.readServerFlight ⟨rfl, rfl⟩

/-! ## The handshake -/

lemma sendClientHello_views {host : Bytes} {random sid pub : Block 32}
    (h : sendClientHello t host random sid pub = (t', r)) :
    t'.sealState = t.sealState ∧ t'.appState = t.appState := by
  unfold sendClientHello at h
  split at h
  · cases h
    exact ⟨rfl, rfl⟩
  · simp only [Prod.mk.injEq] at h
    rw [← h.1]
    exact ⟨rfl, rfl⟩

/-- Until the handshake keys are installed nothing has been sealed, and no application data
handed out. -/
lemma hello_views {host : Bytes} {random sid : Block 32}
    (h : hello C host random sid t = (t', r)) (hseq : t.sendSeq = 0) :
    t'.seals = t.seals ∧ t'.sendSeq = 0 ∧ t'.appKeys = t.appKeys ∧ t'.appState = t.appState := by
  unfold hello at h
  split at h
  · next t₁ e hsend =>
    cases h
    obtain ⟨hseal, happ⟩ := sendClientHello_views hsend
    exact ⟨congrArg SealState.seals hseal, (congrArg SealState.sendSeq hseal).trans hseq,
      congrArg SealState.appKeys hseal, happ⟩
  next t₁ hsend =>
  obtain ⟨hseal, happ⟩ := sendClientHello_views hsend
  have hspec := readRecord_spec C tlsPlaintextMax t₁
  -- reading ServerHello changes neither view, and the key schedule clears the number
  suffices hgoal : t'.seals = t₁.seals ∧ (t'.sendSeq = t₁.sendSeq ∨ t'.sendSeq = 0) ∧
      t'.appKeys = t₁.appKeys ∧ t'.appState = t₁.appState by
    obtain ⟨hs, hq, hk, ha⟩ := hgoal
    refine ⟨hs.trans (congrArg SealState.seals hseal), ?_,
      hk.trans (congrArg SealState.appKeys hseal), ha.trans happ⟩
    rcases hq with hq | hq
    · exact hq.trans ((congrArg SealState.sendSeq hseal).trans hseq)
    · exact hq
  unfold readServerHello at h
  split at h
  · next t₂ e hread =>
    rw [hread] at hspec
    cases h
    have hrest := hspec.rest.sealState
    exact ⟨congrArg SealState.seals hrest, .inl (congrArg SealState.sendSeq hrest),
      congrArg SealState.appKeys hrest, hspec.rest.appState⟩
  · next t₂ r' hread =>
    rw [hread] at hspec
    have hrest := hspec.rest.sealState
    have hseals : t₂.seals = t₁.seals := congrArg SealState.seals hrest
    have hkeys : t₂.appKeys = t₁.appKeys := congrArg SealState.appKeys hrest
    have hsend : t₂.sendSeq = t₁.sendSeq := congrArg SealState.sendSeq hrest
    split at h
    · cases h
      exact ⟨hseals, .inl hsend, hkeys, hspec.rest.appState⟩
    · split at h
      · cases h
        exact ⟨hseals, .inl hsend, hkeys, hspec.rest.appState⟩
      · cases h
        exact ⟨hseals, .inr rfl, hkeys, hspec.rest.appState⟩

/-- When the handshake is finished the application keys are in use in both directions, from
sequence number zero. -/
lemma finishHandshake_ok (h : finishHandshake C t = (t', .ok ())) :
    t'.established = true ∧ t'.appKeys = true ∧ t'.recvSeq = 0 ∧ t'.rbufLen = t.rbufLen ∧
      t'.rbufOff = t.rbufOff := by
  have hflight := (readServerFlight_views C t).2
  unfold finishHandshake at h
  split at h
  · simp at h
  next t₁ hread =>
  rw [hread] at hflight
  split at h
  · simp at h
  · next t₂ hsend =>
    have ht₂ : t₂.appState = t₁.appState :=
      congrArg (fun r => r.1.appState) hsend.symm
    simp only [Prod.mk.injEq, and_true] at h
    subst h
    exact ⟨rfl, rfl, rfl, congrArg AppState.rbufLen (ht₂.trans hflight),
      congrArg AppState.rbufOff (ht₂.trans hflight)⟩

/-- **The connection that `tls_connect` returns** is established, under the application keys, has
opened no record under them and holds no application data. -/
theorem tlsConnect_ready {env : ConnectEnv} (h : tlsConnect C env = .ok t) :
    t.established = true ∧ t.appKeys = true ∧ t.recvSeq = 0 ∧ t.rbufLen ≤ t.rbufOff := by
  unfold tlsConnect at h
  split at h
  · cases h
  split_ifs at h
  split at h
  · cases h
  next tcp _ =>
  split at h
  · cases h
  next hhs =>
  cases h
  unfold handshake at hhs
  split at hhs
  · simp at hhs
  next t₁ hhello =>
  obtain ⟨-, -, -, happ⟩ := hello_views hhello rfl
  obtain ⟨hest, hkeys, hseq, hlen, hoff⟩ := finishHandshake_ok hhs
  refine ⟨hest, hkeys, hseq, ?_⟩
  rw [hlen, hoff, show t₁.rbufLen = _ from congrArg AppState.rbufLen happ,
    show t₁.rbufOff = _ from congrArg AppState.rbufOff happ]
  exact le_rfl

/-! ## The calls do not interfere -/

lemma writeRecord_reads (C : Crypto) (t : TlsConn) (type : UInt8) (data : Bytes) :
    Reads C true t [] [] (writeRecord C t type data).1 ∧
      (writeRecord C t type data).1.appState = t.appState := by
  have htook : t.tcp.Took [] (writeRecord C t type data).1.tcp := by
    simp only [writeRecord, sendAll]
    split <;> exact ⟨rfl, le_rfl⟩
  exact ⟨⟨by simp [writeRecord], by simp [writeRecord], by simp [writeRecord], rfl, by simp,
    trivial, by simp, ⟨[], htook⟩, by simp, fun _ => htook⟩, rfl⟩

lemma tlsSend_rule {P : TlsConn → Prop}
    (hwrite : ∀ t data, P t → P (writeRecord C t ctApplicationData data).1) (ht : P t)
    (data : Bytes) : P (tlsSend C t data).1 := by
  unfold tlsSend
  split
  · exact ht
  · refine (tlsSendLoop C data).exec_rule (fun s => P s.1) (fun r => P r.1) (fun s hs => ?_) ht
    simp only [tlsSendLoop]
    split
    · exact hs
    · have hnext := hwrite s.1 ((data.drop s.2).take (min (data.length - s.2) tlsPlaintextMax)) hs
      split <;> next hw =>
        rw [hw] at hnext
        exact hnext

/-- **`tls_send` changes nothing that reading depends on.** -/
theorem tlsSend_reads (C : Crypto) (t : TlsConn) (data : Bytes) :
    Reads C true t [] [] (tlsSend C t data).1 ∧ (tlsSend C t data).1.appState = t.appState := by
  refine tlsSend_rule (P := fun t' => Reads C true t [] [] t' ∧ t'.appState = t.appState)
    (fun t' d h => ?_) ⟨.refl C true t, rfl⟩ data
  obtain ⟨hreads, happ⟩ := writeRecord_reads C t' ctApplicationData d
  exact ⟨h.1.trans hreads, happ.trans h.2⟩

/-- **`tls_recv` changes nothing that sealing depends on.** -/
theorem tlsRecv_sealState (C : Crypto) (t : TlsConn) (len : ℕ) :
    (tlsRecv C t len).1.sealState = t.sealState := by
  have hloop : ((tlsRecvLoop C).exec t).1.sealState = t.sealState := by
    refine (tlsRecvLoop C).exec_rule (fun t' => t'.sealState = t.sealState)
      (fun r => r.1.sealState = t.sealState) (fun t₁ hs => ?_) rfl
    have hspec := readRecord_spec C tlsPlaintextMax t₁
    simp only [tlsRecvLoop]
    split
    · next hread =>
      rw [hread] at hspec
      exact hspec.rest.sealState.trans hs
    · next hread =>
      rw [hread] at hspec
      split_ifs <;> exact hspec.rest.sealState.trans hs
  unfold tlsRecv
  split
  · rfl
  · split
    · split <;> next heq => exact (congrArg (fun r => r.1.sealState) heq).symm.trans hloop
    · rfl

end

end SubOS.Tls
