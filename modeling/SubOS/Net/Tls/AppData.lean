import SubOS.Lib.EventRun
import SubOS.Net.Tls.Api
import SubOS.Net.Tls.ServerFlight

set_option autoImplicit false

/-!
# Where the application data comes from

What `tls_recv` returns over a whole session is a prefix of the content of the application data
records, each opened under the server's application key with its own number. The result 0 stands for
the end of the stream, after an alert; but an empty record gives it as well.

## Main definitions

* `session`, `AppInv` — the calls of a session, and what was read and returned.

## Main results

* `received_from_opened` — what a session returns.
* `zero_is_end_of_stream`, `empty_record_ends_stream` — when 0 is the end of the stream.
-/

open SubOS.Tls.Frame

namespace SubOS.Tls

open TlsConn List Opened

/-- The application data of an opened record. -/
def Opened.appData (o : Opened) : Bytes :=
  match innerPlaintext o.pt with
  | none => []
  | some (type, body) => if type = ctApplicationData then body else []

/-- A sequence of calls on a connection, up to the first `tls_recv` that returns -1: the
connection, and what each `tls_recv` returned. -/
def session (C : Crypto) (t : TlsConn) : List Call → TlsConn × List Bytes
  | [] => (t, [])
  | .send data :: calls => session C (tlsSend C t data).1 calls
  | .recv len :: calls =>
    match tlsRecv C t len with
    | (t, none) => (t, [])
    | (t, some bs) => ((session C t calls).1, bs :: (session C t calls).2)

/-! ## The invariant -/

/-- The application data that waits in `rbuf`. -/
def TlsConn.appPending (t : TlsConn) : Bytes := (t.rbuf.drop t.rbufOff).take (t.rbufLen - t.rbufOff)

/-- What was read and returned since `t₀`: the bytes `out` that were returned, followed by those
that wait in `rbuf`, are the application data of the records opened. When reading has failed, the
last of these records may have been dropped. -/
structure AppInv (C : Crypto) (ok : Bool) (t₀ t : TlsConn) (fs : List Frame) (os : List Opened)
    (out : Bytes) : Prop where
  reads : Reads C ok t₀ fs os t
  returned : out <+: os.flatMap Opened.appData
  pending : ok = true → out ++ t.appPending = os.flatMap Opened.appData

/-- The invariant with what was read left open. -/
def AppOk (C : Crypto) (ok : Bool) (t₀ t : TlsConn) (out : Bytes) : Prop :=
  ∃ fs os, AppInv C ok t₀ t fs os out

variable {os : List Opened} {fs : List Frame} {len : ℕ}

section

variable {C : Crypto} {ok : Bool} {t₀ t t' : TlsConn} {out : Bytes}

lemma appPending_eq_nil (h : t.rbufLen ≤ t.rbufOff) : t.appPending = [] := by
  simp [appPending, h]

lemma appPending_congr (h : t'.appState = t.appState) : t'.appPending = t.appPending := by
  have hbuf : t'.rbuf = t.rbuf := congrArg AppState.rbuf h
  have hlen : t'.rbufLen = t.rbufLen := congrArg AppState.rbufLen h
  have hoff : t'.rbufOff = t.rbufOff := congrArg AppState.rbufOff h
  unfold appPending
  rw [hbuf, hlen, hoff]

lemma loadApp_appPending (t : TlsConn) (body : Bytes) : (t.loadApp body).appPending = body := by
  simp [appPending, loadApp, memcpy]

lemma takeApp_appPending (t : TlsConn) (len : ℕ) :
    (t.takeApp len).2 ++ (t.takeApp len).1.appPending = t.appPending :=
  take_append_rest t.rbuf (min_le_left _ len)

namespace AppOk

lemma refl (h : t.rbufLen ≤ t.rbufOff) : AppOk C true t t [] :=
  ⟨[], [], .refl C true t, nil_prefix, fun _ => by simp [appPending_eq_nil h]⟩

section

variable (h : AppOk C true t₀ t out)
include h

lemma mono : AppOk C false t₀ t out := by
  obtain ⟨fs, os, hinv⟩ := h
  exact ⟨fs, os, hinv.reads.mono, hinv.returned, nofun⟩

lemma takeApp (len : ℕ) : AppOk C true t₀ (t.takeApp len).1 (out ++ (t.takeApp len).2) := by
  obtain ⟨fs, os, hinv⟩ := h
  have hpending : (out ++ (t.takeApp len).2) ++ (t.takeApp len).1.appPending =
      os.flatMap appData := by
    rw [append_assoc, takeApp_appPending]
    exact hinv.pending rfl
  exact ⟨fs, os, hinv.reads.congr rfl rfl rfl rfl rfl, ⟨_, hpending⟩, fun _ => hpending⟩

/-- Records are read while nothing waits in `rbuf`, and what waits there then is their
application data. -/
lemma read (hempty : t.rbufLen ≤ t.rbufOff) (hreads : Reads C ok t fs os t')
    (hpending : ok = true → t'.appPending = os.flatMap appData) : AppOk C ok t₀ t' out := by
  obtain ⟨fs₀, os₀, hinv⟩ := h
  have hall : out = os₀.flatMap appData := by
    simpa [appPending_eq_nil hempty] using hinv.pending rfl
  refine ⟨fs₀ ++ fs, os₀ ++ os, hinv.reads.trans hreads, ?_, fun hok => ?_⟩
  · rw [hall, flatMap_append]
    exact prefix_append _ _
  · rw [hall, flatMap_append, hpending hok]

lemma send (data : Bytes) : AppOk C true t₀ (tlsSend C t data).1 out := by
  obtain ⟨fs, os, hinv⟩ := h
  obtain ⟨hreads, happ⟩ := tlsSend_reads C t data
  have hpending : out ++ (tlsSend C t data).1.appPending = os.flatMap appData := by
    rw [appPending_congr happ]
    exact hinv.pending rfl
  have hall := hinv.reads.trans hreads
  rw [append_nil, append_nil] at hall
  exact ⟨fs, os, hall, hinv.returned, fun _ => hpending⟩

end

end AppOk

/-! ## The calls keep the invariant -/

lemma RecordFrom.appData_eq {r : Rec} (h : RecordFrom tlsPlaintextMax fs os (.ok r)) :
    os.flatMap appData = if r.innerType = ctApplicationData then r.body else [] := by
  generalize hres : (.ok r : Except String Rec) = res at h
  cases h with
  | clear =>
    cases hres
    simp [ctHandshake, ctApplicationData]
  | opened hclear hinner =>
    cases hres
    simp [appData, hinner]
  | error => cases hres

/-- A record that was returned with an inner type other than handshake was opened. -/
lemma RecordFrom.opened_of_ne {outcap : ℕ} {r : Rec}
    (h : RecordFrom outcap fs os (.ok r)) (hne : r.innerType ≠ ctHandshake) :
    ∃ o, os = [o] ∧ innerPlaintext o.pt = some (r.innerType, r.body) := by
  generalize hres : (.ok r : Except String Rec) = res at h
  cases h with
  | clear =>
    cases hres
    exact absurd rfl hne
  | opened hclear hinner =>
    cases hres
    exact ⟨_, rfl, hinner⟩
  | error => cases hres

lemma rbufEmpty_congr (h : t'.appState = t.appState) (hempty : t.rbufLen ≤ t.rbufOff) :
    t'.rbufLen ≤ t'.rbufOff := by
  rw [show t'.rbufLen = _ from congrArg AppState.rbufLen h,
    show t'.rbufOff = _ from congrArg AppState.rbufOff h]
  exact hempty

/-- The record that ends the loop of `tls_recv`, of the inner type `type`, with what the loop has
read before it. -/
def EndsWith (C : Crypto) (t t' : TlsConn) (type : UInt8) (body : Bytes) : Prop :=
  ∃ fs os o, Reads C true t fs (os ++ [o]) t' ∧ os.flatMap Opened.appData = [] ∧
    innerPlaintext o.pt = some (type, body)

/-- What waits in `rbuf` is there. -/
def TlsConn.RbufOk (t : TlsConn) : Prop := t.rbufLen ≤ t.rbufOff ∨ t.rbufLen ≤ t.rbuf.length

/-- How the loop of `tls_recv` ends, and with which record. -/
def RecvLoopEnd (C : Crypto) (t : TlsConn) : TlsConn × RecvEnd → Prop
  | (t', .failed) => t'.RbufOk ∧ ∃ fs os, Reads C false t fs os t'
  | (t', .closed) => t'.rbufLen ≤ t'.rbufOff ∧ ∃ body, EndsWith C t t' ctAlert body
  | (t', .data) => t'.RbufOk ∧ EndsWith C t t' ctApplicationData t'.appPending

/-- The loop of `tls_recv` ends with an alert or with application data, if it does not fail. -/
lemma tlsRecvLoop_end (hempty : t.rbufLen ≤ t.rbufOff) :
    RecvLoopEnd C t ((tlsRecvLoop C).exec t) := by
  -- the records read so far carry no application data
  refine (tlsRecvLoop C).exec_rule
    (fun t' => t'.rbufLen ≤ t'.rbufOff ∧
      ∃ fs os, Reads C true t fs os t' ∧ os.flatMap appData = [])
    (RecvLoopEnd C t) ?_ ⟨hempty, [], [], .refl C true t, rfl⟩
  rintro t₁ ⟨hlen, fs, os, hreads, hnone⟩
  have hspec := readRecord_spec C tlsPlaintextMax t₁
  simp only [tlsRecvLoop]
  split
  · next hread =>
    rw [hread] at hspec
    obtain ⟨⟨fs', os', hreads', -⟩, -, hrest⟩ := hspec
    exact ⟨.inl (rbufEmpty_congr hrest.appState hlen), fs ++ fs', os ++ os', hreads.trans hreads'⟩
  · next t' r hread =>
    rw [hread] at hspec
    obtain ⟨⟨fs', os', hreads', hfrom⟩, -, hrest⟩ := hspec
    have hlen' := rbufEmpty_congr hrest.appState hlen
    split_ifs with htype hhs halert
    · obtain ⟨o, rfl, hinner⟩ := hfrom.opened_of_ne (by rw [htype]; decide)
      rw [htype, ← loadApp_appPending t' r.body] at hinner
      refine ⟨.inr ?_, fs ++ fs', os, o, ?_, hnone, hinner⟩
      · show r.body.length ≤ (r.body ++ _).length
        rw [length_append]
        exact Nat.le_add_right _ _
      · exact (hreads.trans hreads').congr rfl rfl rfl rfl rfl
    · exact ⟨hlen', fs ++ fs', os ++ os', (hreads.trans hreads').congr rfl rfl rfl rfl rfl,
        by rw [flatMap_append, hnone, hfrom.appData_eq, if_neg htype]; rfl⟩
    · obtain ⟨o, rfl, hinner⟩ := hfrom.opened_of_ne (by rw [halert]; decide)
      rw [halert] at hinner
      exact ⟨hlen', r.body, fs ++ fs', os, o,
        (hreads.trans hreads').congr rfl rfl rfl rfl rfl, hnone, hinner⟩
    · exact ⟨hlen', fs ++ fs', os ++ os', (hreads.trans hreads').congr rfl rfl rfl rfl rfl,
        by rw [flatMap_append, hnone, hfrom.appData_eq, if_neg htype]; rfl⟩

/-- The application data of the last record is in `rbuf`, if the loop does not fail; the records
before it carry none. -/
lemma tlsRecvLoop_appData (hempty : t.rbufLen ≤ t.rbufOff) :
    ∃ fs os, Reads C (((tlsRecvLoop C).exec t).2 != .failed) t fs os ((tlsRecvLoop C).exec t).1 ∧
      ((((tlsRecvLoop C).exec t).2 != .failed) = true →
        ((tlsRecvLoop C).exec t).1.appPending = os.flatMap appData) := by
  have hend := tlsRecvLoop_end (C := C) hempty
  generalize (tlsRecvLoop C).exec t = r at hend ⊢
  obtain ⟨t', e⟩ := r
  cases e with
  | failed =>
    obtain ⟨-, fs, os, hreads⟩ := hend
    exact ⟨fs, os, hreads, nofun⟩
  | closed =>
    obtain ⟨hlen, body, fs, os, o, hreads, hnone, hinner⟩ := hend
    refine ⟨fs, os ++ [o], hreads, fun _ => ?_⟩
    rw [appPending_eq_nil hlen, flatMap_append, hnone]
    simp [appData, hinner, ctAlert, ctApplicationData]
  | data =>
    obtain ⟨-, fs, os, o, hreads, hnone, hinner⟩ := hend
    refine ⟨fs, os ++ [o], hreads, fun _ => ?_⟩
    rw [flatMap_append, hnone]
    simp [appData, hinner]

/-- The result of `tls_recv`, as far as the invariant goes. -/
def RecvPost (C : Crypto) (t₀ : TlsConn) (out : Bytes) : TlsConn × Option Bytes → Prop
  | (t, none) => AppOk C false t₀ t out
  | (t, some bs) => AppOk C true t₀ t (out ++ bs)

/-- **`tls_recv` keeps the invariant.** -/
theorem tlsRecv_inv (h : AppOk C true t₀ t out) (len : ℕ) :
    RecvPost C t₀ out (tlsRecv C t len) := by
  unfold tlsRecv
  split
  · exact h.mono
  · split
    · next hempty =>
      obtain ⟨fs, os, hreads, hpending⟩ := tlsRecvLoop_appData hempty
      have hall := h.read hempty hreads hpending
      split
      · next hloop =>
        rw [hloop] at hall
        exact hall
      · next hloop =>
        rw [hloop] at hall
        change AppOk C true t₀ _ (out ++ [])
        rw [append_nil]
        exact hall
      · next hloop =>
        rw [hloop] at hall
        exact hall.takeApp len
    · exact h.takeApp len

/-- A session keeps the invariant.

**Proof sketch.** Induction on the calls; the bytes returned so far are carried along. -/
lemma session_inv (h : AppOk C true t₀ t out) (calls : List Call) :
    AppOk C false t₀ (session C t calls).1 (out ++ (session C t calls).2.flatten) := by
  induction calls generalizing t out with
  | nil => simpa [session] using h.mono
  | cons call calls ih =>
    cases call with
    | send data => exact ih (h.send data)
    | recv len =>
      have hrecv := tlsRecv_inv h len
      simp only [session]
      split
      · next heq =>
        rw [heq] at hrecv
        simpa [RecvPost] using hrecv
      · next bs heq =>
        rw [heq] at hrecv
        simpa using ih hrecv

end

/-- **What a session returns.** Take a connection that `tls_connect` has returned, any bytes of
the peer in any pieces, and any calls up to the first `tls_recv` that returns -1. The records
`fs` are taken from the front of the stream, and the records `os` opened are the first encrypted
ones of them. The `k`-th was opened under the server's application key, with sequence number
`k` and with its own header of five bytes as associated data. The bytes returned, one call after
the other, are a prefix of the contents of those records in `os` that carry application data.

**Proof sketch.** After `tls_connect` the keys are the application keys, the sequence number is
zero and `rbuf` is empty, so the invariant holds with nothing read; `session_inv` carries it to
the end. -/
theorem received_from_opened (C : Crypto) (env : ConnectEnv) (t₀ : TlsConn)
    (h : tlsConnect C env = .ok t₀) (calls : List Call) :
    ∃ fs os tail,
      (session C t₀ calls).1.frames = t₀.frames ++ fs ∧
      (session C t₀ calls).1.opens = t₀.opens ++ os ∧
      t₀.tcp.rx = fs.flatMap Frame.bytes ++ tail ∧
      os.map Opened.frame <+: fs.filter Frame.isEncrypted ∧
      (∀ k o, os[k]? = some o →
        o.key = t₀.sAp.key ∧ o.seq = UInt64.ofNat k ∧
        o.nonce = buildNonce t₀.sAp.iv (UInt64.ofNat k) ∧ o.aad.length = 5 ∧
        C.decrypt o.key o.nonce o.aad o.ct o.tag = some o.pt) ∧
      (session C t₀ calls).2.flatten <+: os.flatMap Opened.appData := by
  obtain ⟨-, hkeys, hseq, hempty⟩ := tlsConnect_ready h
  obtain ⟨fs, os, hinv⟩ := session_inv (.refl hempty) calls
  obtain ⟨tail, htook⟩ := hinv.reads.took
  have hrx := htook.rx
  rw [append_assoc] at hrx
  refine ⟨fs, os, _, hinv.reads.frames, hinv.reads.opens, hrx, hinv.reads.encrypted, ?_,
    hinv.returned⟩
  intro k o hk
  have horder := hinv.reads.inOrder
  rw [show t₀.openKeys = t₀.sAp by simp [openKeys, hkeys], hseq] at horder
  obtain ⟨hkey, hnonce, hoseq, hvalid⟩ := horder.get hk
  rw [UInt64.zero_add] at hnonce hoseq
  -- the record it was opened from is one of those taken from the stream
  have hframe : o.frame ∈ fs.filter isEncrypted :=
    hinv.reads.encrypted.subset (mem_map_of_mem (mem_of_getElem? hk))
  exact ⟨hkey, hoseq, hnonce, (hinv.reads.wellFormed _ (mem_filter.1 hframe).1).hdr, hvalid⟩

/-- A connection to a peer that sends its flight and one record with the data `[65, 66]`. -/
def twoByteEnv : ConnectEnv where
  host := some []
  ip := 1
  port := 443
  kzallocOk := true
  tcp := some (openWire (serverHelloRecord ++ encryptedFinished ++
    ([23, 3, 3, 0, 19, 65, 66, 23] ++ List.replicate 16 0)))
  priv := zeros
  random := zeros
  sid := zeros

set_option maxRecDepth 4000 in
lemma twoByteEnv_session :
    (tlsConnect plainCrypto twoByteEnv).map (fun t =>
      (session plainCrypto t [.recv 1, .recv 5]).2) = .ok [[65], [66]] := by
  cbv

/-- Two calls that return the two bytes, and the record they come from. -/
theorem received_from_opened_two_bytes :
    ∃ t₀ os, tlsConnect plainCrypto twoByteEnv = .ok t₀ ∧
      (session plainCrypto t₀ [.recv 1, .recv 5]).2 = [[65], [66]] ∧
      (session plainCrypto t₀ [.recv 1, .recv 5]).1.opens = t₀.opens ++ os ∧
      [65, 66] <+: os.flatMap Opened.appData := by
  have hrun := twoByteEnv_session
  cases h : tlsConnect plainCrypto twoByteEnv with
  | error e =>
    rw [h] at hrun
    cases hrun
  | ok t₀ =>
    rw [h] at hrun
    have hout : (session plainCrypto t₀ [.recv 1, .recv 5]).2 = [[65], [66]] :=
      Except.ok.inj hrun
    obtain ⟨fs, os, tail, -, hopens, -, -, -, hpre⟩ :=
      received_from_opened plainCrypto twoByteEnv t₀ h [.recv 1, .recv 5]
    rw [hout] at hpre
    exact ⟨t₀, os, rfl, hout, hopens, hpre⟩

/-! ## Records in the stream -/

/-- Of the records read between two states, the last one opened is an alert; those before it carry
the application data `out`. -/
def AlertLast (C : Crypto) (t t' : TlsConn) (out : Bytes) : Prop :=
  ∃ fs os o body, Reads C true t fs (os ++ [o]) t' ∧ innerPlaintext o.pt = some (ctAlert, body) ∧
    os.flatMap Opened.appData = out

/-- The stream starts with records of which the encrypted ones authenticate, one after the other,
and one of these is application data without content. -/
def EmptyAhead (C : Crypto) (t : TlsConn) : Prop :=
  ∃ (fs : List Frame) (os : List Opened) (tail : Bytes),
    t.tcp.rx = fs.flatMap Frame.bytes ++ tail ∧ (∀ f ∈ fs, f.WellFormed) ∧
      os.map Opened.frame = fs.filter Frame.isEncrypted ∧ OpensFrom C t.openKeys t.recvSeq os ∧
      ∃ o ∈ os, innerPlaintext o.pt = some (ctApplicationData, [])

section

variable {C : Crypto} {t t' : TlsConn}

lemma Reads.emptyAhead (h : Reads C true t fs os t') {o : Opened} (ho : o ∈ os)
    (hempty : innerPlaintext o.pt = some (ctApplicationData, [])) : EmptyAhead C t :=
  ⟨fs, os, t'.tcp.rx, (h.took_eq rfl).rx, h.wellFormed, h.encrypted_eq rfl, h.inOrder, o,
    ho, hempty⟩

/-! ## One call -/

lemma TlsConn.RbufOk.takeApp (h : t.RbufOk) (len : ℕ) : (t.takeApp len).1.RbufOk := by
  rcases h with h | h
  · exact .inl (h.trans (Nat.le_add_right _ _))
  · exact .inr h

lemma takeApp_eq_nil (hlen : 0 < len) (h : (t.takeApp len).2 = []) : t.appPending = [] := by
  simp only [takeApp, take_eq_nil_iff] at h
  simp only [appPending, take_eq_nil_iff]
  rcases h with h | h
  · exact .inl (by omega)
  · exact .inr h

lemma TlsConn.RbufOk.appPending_ne_nil (h : t.RbufOk) (hmore : t.rbufOff < t.rbufLen) :
    t.appPending ≠ [] := by
  rw [appPending, ne_eq, take_eq_nil_iff, drop_eq_nil_iff]
  rcases h with h | h <;> omega

lemma TlsConn.RbufOk.tlsRecv (h : t.RbufOk) (len : ℕ) : (tlsRecv C t len).1.RbufOk := by
  unfold Tls.tlsRecv
  split
  · exact h
  · split
    · next hempty =>
      have hend := tlsRecvLoop_end (C := C) hempty
      generalize (tlsRecvLoop C).exec t = r at hend ⊢
      obtain ⟨t₁, e⟩ := r
      cases e with
      | failed => exact hend.1
      | closed => exact .inl hend.1
      | data => exact hend.1.takeApp len
    · exact h.takeApp len

/-- **Where a result of 0 comes from**: nothing was waiting, and the last record read is an alert or
application data without content; the records before it carry none. -/
theorem tlsRecv_zero (hlen : 0 < len) (hok : t.RbufOk) (h : tlsRecv C t len = (t', some [])) :
    t.appPending = [] ∧
      ((∃ body, EndsWith C t t' ctAlert body) ∨ EndsWith C t t' ctApplicationData []) := by
  unfold tlsRecv at h
  split at h
  · simp at h
  · split at h
    · next hempty =>
      refine ⟨appPending_eq_nil hempty, ?_⟩
      have hend := tlsRecvLoop_end (C := C) hempty
      generalize (tlsRecvLoop C).exec t = r at hend h
      obtain ⟨t₁, e⟩ := r
      cases e with
      | failed => simp at h
      | closed =>
        cases h
        exact .inl hend.2
      | data =>
        simp only [Prod.mk.injEq, Option.some.injEq] at h
        obtain ⟨rfl, hnil⟩ := h
        obtain ⟨fs, os, o, hreads, hnone, hinner⟩ := hend.2
        rw [takeApp_eq_nil hlen hnil] at hinner
        exact .inr ⟨fs, os, o, hreads.congr rfl rfl rfl rfl rfl, hnone, hinner⟩
    · next hmore =>
      simp only [Prod.mk.injEq, Option.some.injEq] at h
      exact absurd (takeApp_eq_nil hlen h.2) (hok.appPending_ne_nil (Nat.not_le.1 hmore))

end

/-! ## A sequence of calls -/

/-- A sequence of calls of `tls_recv`, with the lengths of their buffers: the connection, and what
each of them returned. -/
def recvAll (C : Crypto) (t : TlsConn) : List ℕ → TlsConn × List (Option Bytes)
  | [] => (t, [])
  | len :: lens =>
    ((recvAll C (tlsRecv C t len).1 lens).1,
      (tlsRecv C t len).2 :: (recvAll C (tlsRecv C t len).1 lens).2)

/-- Before each call the stream holds no empty application data record. -/
def NoEmptyRecord (C : Crypto) (t : TlsConn) (lens : List ℕ) : Prop :=
  EventRun.Along (fun t len => (tlsRecv C t len).1) (fun t _ => ¬ EmptyAhead C t) t lens

section

variable {C : Crypto} {t₀ t : TlsConn} {out : Bytes}

lemma NoEmptyRecord.at {before after : List ℕ}
    (h : NoEmptyRecord C t (before ++ len :: after)) : ¬ EmptyAhead C (recvAll C t before).1 := by
  induction before generalizing t with
  | nil => exact h.1
  | cons l before ih => exact ih h.2

lemma recvAll_rbufOk (h : t.RbufOk) (lens : List ℕ) : (recvAll C t lens).1.RbufOk := by
  induction lens generalizing t with
  | nil => exact h
  | cons len lens ih => exact ih (h.tlsRecv len)

/-- As long as no call fails, what was returned and what waits is the application data opened. -/
lemma recvAll_inv (h : AppOk C true t₀ t out) {lens : List ℕ} {bss : List Bytes}
    (hall : (recvAll C t lens).2 = bss.map some) :
    AppOk C true t₀ (recvAll C t lens).1 (out ++ bss.flatten) := by
  induction lens generalizing t out bss with
  | nil =>
    rw [show bss = [] from map_eq_nil_iff.1 hall.symm, flatten_nil, append_nil]
    exact h
  | cons len lens ih =>
    have hrecv := tlsRecv_inv h len
    cases bss with
    | nil => cases hall
    | cons bs bss =>
      simp only [recvAll, map_cons, cons.injEq] at hall
      rw [show tlsRecv C t len = ((tlsRecv C t len).1, some bs) from Prod.ext rfl hall.1] at hrecv
      rw [flatten_cons, ← append_assoc]
      exact ih hrecv hall.2

end

/-- **A result of 0 is the end of the stream.** Take a connection that `tls_connect` has returned,
any bytes of the peer in any pieces, and any calls of `tls_recv` with buffers that are not empty.
Assume that no application data record without content stands in the stream when a call is made.
Then a call that returns 0 has just opened an alert. If no call before it has failed, the bytes
received are the application data of all records opened since `tls_connect`, and these are all
encrypted records up to the alert. -/
theorem zero_is_end_of_stream (C : Crypto) (env : ConnectEnv) (t₀ : TlsConn)
    (h : tlsConnect C env = .ok t₀) (lens : List ℕ) (hpos : ∀ len ∈ lens, 0 < len)
    (hempty : NoEmptyRecord C t₀ lens) (before after : List ℕ) (len : ℕ)
    (hsplit : lens = before ++ len :: after) (t' : TlsConn)
    (hzero : tlsRecv C (recvAll C t₀ before).1 len = (t', some [])) :
    AlertLast C (recvAll C t₀ before).1 t' [] ∧
      ∀ bss : List Bytes, (recvAll C t₀ before).2 = bss.map some →
        AlertLast C t₀ t' bss.flatten := by
  subst hsplit
  obtain ⟨-, -, -, hready⟩ := tlsConnect_ready h
  have hlen : 0 < len := hpos len (by simp)
  obtain ⟨hnil, hend⟩ := tlsRecv_zero hlen (recvAll_rbufOk (.inl hready) before) hzero
  rcases hend with ⟨body, fs, os, o, hreads, hnone, hinner⟩ | ⟨fs, os, o, hreads, -, hinner⟩
  · refine ⟨⟨fs, os, o, body, hreads, hinner, hnone⟩, fun bss hall => ?_⟩
    obtain ⟨fs₀, os₀, hinv⟩ := recvAll_inv (.refl hready) hall
    have hpending := hinv.pending rfl
    rw [hnil, append_nil, nil_append] at hpending
    refine ⟨fs₀ ++ fs, os₀ ++ os, o, body, ?_, hinner, ?_⟩
    · rw [append_assoc]
      exact hinv.reads.trans hreads
    · rw [flatMap_append, hnone, append_nil, hpending]
  · -- an empty record, which the stream does not hold
    exact absurd (hreads.emptyAhead (mem_append_right _ (mem_singleton_self o)) hinner)
      hempty.at

/-- A connection to a peer that sends its flight, then an application data record without content,
and then one with the data `[65]`. -/
def emptyRecordEnv : ConnectEnv where
  host := some []
  ip := 1
  port := 443
  kzallocOk := true
  tcp := some (openWire (serverHelloRecord ++ encryptedFinished ++
    ([23, 3, 3, 0, 17, 23] ++ List.replicate 16 0) ++
    ([23, 3, 3, 0, 18, 65, 23] ++ List.replicate 16 0)))
  priv := zeros
  random := zeros
  sid := zeros

set_option maxRecDepth 4000 in
/-- **An empty record ends the stream**: the first call returns 0 although the peer has not sent an
alert, and a second one would return the byte that the peer sent. -/
theorem empty_record_ends_stream :
    (tlsConnect plainCrypto emptyRecordEnv).map (fun t => (recvAll plainCrypto t [1, 1]).2) =
        .ok [some [], some [65]] ∧
      (tlsConnect plainCrypto emptyRecordEnv).map (fun t =>
        ((tlsRecv plainCrypto t 1).1.opens.drop t.opens.length).map fun o => innerPlaintext o.pt) =
        .ok [some (ctApplicationData, [])] := by
  constructor <;> cbv

/-- An alert, in an encrypted record. -/
def alertFrame : Frame := ⟨[23, 3, 3, 0, 19], [1, 0, 21] ++ List.replicate 16 0⟩

/-- A connection to a peer that sends its flight and an alert. -/
def alertEnv : ConnectEnv :=
  { emptyRecordEnv with
    tcp := some (openWire (serverHelloRecord ++ encryptedFinished ++ alertFrame.bytes)) }

lemma Frame.WellFormed.bytes_inj {f g : Frame} (hf : f.WellFormed) (hg : g.WellFormed) {a b : Bytes}
    (h : f.bytes ++ a = g.bytes ++ b) : f = g ∧ a = b := by
  rw [bytes, bytes, append_assoc, append_assoc] at h
  obtain ⟨hhdr, hrest⟩ := append_inj h (hf.hdr.trans hg.hdr.symm)
  have hlen : f.body.length = g.body.length := by rw [hf.body, hg.body, hhdr]
  obtain ⟨hbody, htail⟩ := append_inj hrest hlen
  exact ⟨by cases f; cases g; simp_all, htail⟩

lemma not_emptyAhead_alertFrame {t : TlsConn} (h : t.tcp.rx = alertFrame.bytes) :
    ¬ EmptyAhead plainCrypto t := by
  rintro ⟨fs, os, tail, hrx, hwf, hframes, horder, o, ho, hinner⟩
  rw [h] at hrx
  have hmem : o.frame ∈ fs := by
    have hmap := mem_map_of_mem (f := frame) ho
    rw [hframes] at hmap
    exact (mem_filter.1 hmap).1
  have hframe : o.frame = alertFrame := by
    cases fs with
    | nil => cases hmem
    | cons f fs =>
      rw [forall_mem_cons] at hwf
      rw [flatMap_cons, append_assoc, ← append_nil alertFrame.bytes] at hrx
      obtain ⟨halert, hnil⟩ := WellFormed.bytes_inj ⟨rfl, rfl⟩ hwf.1 hrx
      rcases mem_cons.1 hmem with heq | hin
      · exact heq.trans halert.symm
      · -- nothing follows the alert
        have hbytes := flatMap_eq_nil_iff.1 (append_eq_nil_iff.1 hnil.symm).1 _ hin
        have hlen := (hwf.2 _ hin).hdr
        rw [(append_eq_nil_iff.1 hbytes).1] at hlen
        cases hlen
  obtain ⟨k, hk⟩ := getElem?_of_mem ho
  obtain ⟨-, -, -, hvalid⟩ := horder.get hk
  have hdec : (if o.tag = replicate 16 0 then some o.ct else none) = some o.pt := hvalid
  split at hdec
  case isFalse => cases hdec
  case isTrue htag =>
    have hbody : o.ct ++ o.tag = [1, 0, 21] ++ replicate 16 0 := congrArg body hframe
    rw [htag] at hbody
    rw [← Option.some.inj hdec, append_cancel_right hbody] at hinner
    exact absurd hinner (by decide)

set_option maxRecDepth 4000 in
lemma alertEnv_run :
    (tlsConnect plainCrypto alertEnv).map (fun t => (t.tcp.rx, (tlsRecv plainCrypto t 1).2)) =
      .ok (alertFrame.bytes, some []) := by
  cbv

/-- A call that returns 0 after an alert. -/
theorem zero_is_end_of_stream_alert :
    ∃ t₀ t', tlsConnect plainCrypto alertEnv = .ok t₀ ∧ tlsRecv plainCrypto t₀ 1 = (t', some []) ∧
      AlertLast plainCrypto t₀ t' [] := by
  have hrun := alertEnv_run
  cases h : tlsConnect plainCrypto alertEnv with
  | error e =>
    rw [h] at hrun
    cases hrun
  | ok t₀ =>
    rw [h] at hrun
    obtain ⟨hrx, hres⟩ := Prod.mk.inj (Except.ok.inj hrun)
    have hcall : tlsRecv plainCrypto t₀ 1 = ((tlsRecv plainCrypto t₀ 1).1, some []) :=
      Prod.ext rfl hres
    refine ⟨t₀, _, rfl, hcall, (zero_is_end_of_stream plainCrypto alertEnv t₀ h [1] (by simp)
      ⟨not_emptyAhead_alertFrame hrx, trivial⟩ [] [] 1 rfl _ hcall).1⟩

end SubOS.Tls
