import Mathlib.Data.List.Permutation
import SubOS.Net.Tls.Handshake

set_option autoImplicit false

/-!
# Where the bytes of the server's flight come from

Once the handshake keys are installed, every byte of the server's messages should come from a record
that was opened under the server's handshake key. `read_record` does not insist on it: a record of
type handshake in the clear is accepted at any time.

## Main definitions

* `FlightOpened` — every byte of the flight comes from an opened record.

## Main results

* `flight_opened_iff`, `cleartext_finished_accepted` — each byte is followed back to its record.
-/

open SubOS.Tls.Frame

namespace SubOS.Tls

open TlsConn List Opened

/-! ## The property -/

/-- The content of an opened record, each byte with its origin. -/
def Opened.labelled (o : Opened) : List (Origin × UInt8) :=
  match innerPlaintext o.pt with
  | none => []
  | some (_, body) => body.map fun b => (.opened o.seq, b)

/-- The handshake bytes handed out between `t` and `t'` come, in order, from records opened under
the server's handshake key with the sequence numbers 0, 1, 2, ... -/
def FlightOpened (C : Crypto) (t t' : TlsConn) : Prop :=
  ∃ os taken, t'.opens = t.opens ++ os ∧ t'.taken = t.taken ++ taken ∧ OpensFrom C t.sHs 0 os ∧
    taken <+: os.flatMap Opened.labelled

/-- A cleartext handshake record that fits the buffer and is not empty. -/
def Frame.smuggles (f : Frame) : Prop :=
  f.type = ctHandshake ∧ f.body ≠ [] ∧ f.body.length ≤ tlsPlaintextMax

lemma Frame.smuggles_iff {f : Frame} :
    f.smuggles ↔ f.isClear tlsPlaintextMax = true ∧ f.body ≠ [] := by
  simp only [smuggles, isClear, Bool.and_eq_true, beq_iff_eq, decide_eq_true_eq]
  tauto

/-! ## The invariant -/

/-- The handshake bytes that wait in `hs_cur`, with their origin. -/
def TlsConn.pending (t : TlsConn) : List (Origin × UInt8) :=
  ((t.hsCur.drop t.hsCurOff).take t.hsLeft).map fun b => (t.hsOrigin, b)

/-- What was read and handed out since `t₀`. As long as no record smuggles bytes in, the bytes
handed out are the first of the opened records, and those that wait in `hs_cur` are the rest;
and a record that does has had its first byte handed out. -/
structure FlightInv (C : Crypto) (ok : Bool) (t₀ t : TlsConn) (fs : List Frame) (os : List Opened)
    (taken : List (Origin × UInt8)) : Prop where
  reads : Reads C ok t₀ fs os t
  taken_eq : t.taken = t₀.taken ++ taken
  opened : (∀ f ∈ fs, ¬ f.smuggles) → taken <+: os.flatMap Opened.labelled
  pending : ok = true → (∀ f ∈ fs, ¬ f.smuggles) →
    taken ++ t.pending = os.flatMap Opened.labelled
  smuggled : (∃ f ∈ fs, f.smuggles) → ∃ x ∈ taken, x.1 = .clear

/-- The invariant with what was read left open. -/
def FlightOk (C : Crypto) (ok : Bool) (t₀ t : TlsConn) : Prop :=
  ∃ fs os taken, FlightInv C ok t₀ t fs os taken

variable {os : List Opened} {t : TlsConn}

section

variable {C : Crypto} {ok : Bool} {t₀ t t' : TlsConn} {n : ℕ} {taken : List (Origin × UInt8)}
  {fs : List Frame}

lemma FlightOk.refl (h : t.hsCurLen ≤ t.hsCurOff) : FlightOk C true t t := by
  have hpending : t.pending = [] := by simp [pending, hsLeft, h]
  exact ⟨[], [], [], .refl C true t, by simp, by simp, fun _ _ => by simp [hpending], by simp⟩

lemma takeHs_pending (t : TlsConn) (n : ℕ) :
    (t.takeHs n).2.map (fun b => (t.hsOrigin, b)) ++ (t.takeHs n).1.pending = t.pending := by
  simp only [takeHs, pending, hsLeft, ← map_append]
  congr 1
  exact take_append_rest t.hsCur (min_le_left _ n)

lemma takeHs_inv (h : FlightInv C true t₀ t fs os taken) (n : ℕ) :
    FlightInv C true t₀ (t.takeHs n).1 fs os
      (taken ++ (t.takeHs n).2.map fun b => (t.hsOrigin, b)) := by
  have hsplit := takeHs_pending t n
  have hpending : (∀ f ∈ fs, ¬ f.smuggles) →
    (taken ++ (t.takeHs n).2.map fun b => (t.hsOrigin, b)) ++
      (t.takeHs n).1.pending = os.flatMap labelled := by
    intro hno
    rw [append_assoc, hsplit]
    exact h.pending rfl hno
  refine ⟨h.reads.congr rfl rfl rfl rfl rfl, ?_, fun hno => ⟨_, hpending hno⟩, fun _ => hpending,
    fun hex => ?_⟩
  · simp [takeHs, h.taken_eq]
  · obtain ⟨x, hx, hclear⟩ := h.smuggled hex
    exact ⟨x, mem_append_left _ hx, hclear⟩

lemma takeHs_ne_nil (hpending : t.pending ≠ []) (hn : 0 < n) : (t.takeHs n).2 ≠ [] := by
  simp only [pending, hsLeft, ne_eq, map_eq_nil_iff, take_eq_nil_iff, not_or] at hpending
  simp only [takeHs, ne_eq, take_eq_nil_iff, not_or]
  exact ⟨by omega, hpending.2⟩

lemma FlightInv.refill {fs' : List Frame} {os' : List Opened}
    (h : FlightInv C true t₀ t fs os taken) (hempty : t.hsCurLen ≤ t.hsCurOff)
    (hreads : Reads C true t fs' os' t') (htaken : t'.taken = t.taken)
    (hopened : (∀ f ∈ fs', ¬ f.smuggles) → t'.pending = os'.flatMap labelled)
    (hsmuggled : (∃ f ∈ fs', f.smuggles) → t'.pending ≠ [] ∧ t'.hsOrigin = .clear) (hn : 0 < n) :
    FlightOk C true t₀ (t'.takeHs n).1 := by
  have hnil : t.pending = [] := by simp [TlsConn.pending, hsLeft, hempty]
  have hsplit := takeHs_pending t' n
  have hpending : (∀ f ∈ fs ++ fs', ¬ f.smuggles) →
      (taken ++ (t'.takeHs n).2.map fun b => (t'.hsOrigin, b)) ++ (t'.takeHs n).1.pending =
        (os ++ os').flatMap labelled := by
    intro hno
    rw [forall_mem_append] at hno
    have hold := h.pending rfl hno.1
    rw [hnil, append_nil] at hold
    rw [append_assoc, hsplit, hold, hopened hno.2, flatMap_append]
  refine ⟨fs ++ fs', os ++ os', taken ++ (t'.takeHs n).2.map fun b => (t'.hsOrigin, b),
    (h.reads.trans hreads).congr rfl rfl rfl rfl rfl, ?_, fun hno => ⟨_, hpending hno⟩,
    fun _ => hpending, ?_⟩
  · simp [takeHs, htaken, h.taken_eq]
  · rintro ⟨f, hf, hsm⟩
    rcases mem_append.1 hf with hf | hf
    · obtain ⟨x, hx, hclear⟩ := h.smuggled ⟨f, hf, hsm⟩
      exact ⟨x, mem_append_left _ hx, hclear⟩
    · -- the record that was just read: its first byte is handed out
      obtain ⟨hne, hclear⟩ := hsmuggled ⟨f, hf, hsm⟩
      obtain ⟨b, hb⟩ := exists_mem_of_ne_nil _ (takeHs_ne_nil hne hn)
      exact ⟨(t'.hsOrigin, b), mem_append_right _ (mem_map.2 ⟨b, hb, rfl⟩), hclear⟩

lemma FlightInv.stop {fs' : List Frame} {os' : List Opened}
    (h : FlightInv C true t₀ t fs os taken) (hreads : Reads C ok t fs' os' t')
    (htaken : t'.taken = t.taken) (hno : ∀ f ∈ fs', ¬ f.smuggles) : FlightOk C false t₀ t' := by
  refine ⟨fs ++ fs', os ++ os', taken, (h.reads.trans hreads).mono, htaken.trans h.taken_eq,
    fun hall => ?_, nofun, ?_⟩
  · rw [forall_mem_append] at hall
    rw [flatMap_append]
    exact (h.opened hall.1).trans (prefix_append _ _)
  · rintro ⟨f, hf, hsm⟩
    rcases mem_append.1 hf with hf | hf
    · exact h.smuggled ⟨f, hf, hsm⟩
    · exact absurd hsm (hno f hf)

/-! ## The loops of the flight -/

lemma not_smuggles_of_filter
    (h : fs.filter (isClear tlsPlaintextMax) = []) : ∀ f ∈ fs, ¬ f.smuggles := by
  intro f hf hsm
  have hmem : f ∈ fs.filter (isClear tlsPlaintextMax) :=
    mem_filter.2 ⟨hf, (smuggles_iff.1 hsm).1⟩
  rw [h] at hmem
  cases hmem

lemma loadHs_pending (t : TlsConn) (r : Rec) :
    (loadHs { t with hsCur := memcpy t.hsCur r.body } r).pending =
      r.body.map fun b => (r.origin, b) := by
  simp [pending, loadHs, hsLeft, memcpy]

lemma refillHs_inv (h : FlightOk C true t₀ t) (hempty : t.hsCurLen ≤ t.hsCurOff)
    (hrefill : t.refillHs C = (t', .ok ())) (hn : 0 < n) : FlightOk C true t₀ (t'.takeHs n).1 := by
  obtain ⟨fs, os, taken, hinv⟩ := h
  have hspec := readRecord_spec C tlsPlaintextMax t
  obtain ⟨t₁, r, hread, rfl⟩ := refillHs_ok hrefill
  rw [hread] at hspec
  obtain ⟨⟨fs', os', hreads, hfrom⟩, -, hrest⟩ := hspec
  have htaken : t₁.taken = t.taken := hrest.taken
  have hpending := loadHs_pending t₁ r
  refine hinv.refill hempty (hreads.congr rfl rfl rfl rfl rfl) htaken ?_ ?_ hn
  · intro hno
    rw [hpending]
    generalize hres : (.ok r : Except String Rec) = res at hfrom
    cases hfrom with
    | clear hclear =>
      rename_i f
      cases hres
      have hf : f ∈ fs' ∧ f.isClear tlsPlaintextMax = true :=
        mem_filter.1 (hclear ▸ mem_singleton_self f)
      have hnil : f.body = [] := by
        by_contra hne
        exact hno f hf.1 (smuggles_iff.2 ⟨hf.2, hne⟩)
      simp [hnil]
    | opened hclear hinner =>
      cases hres
      simp [labelled, hinner]
    | error => cases hres
  · rintro ⟨f, hf, hsm⟩
    rw [hpending]
    generalize hres : (.ok r : Except String Rec) = res at hfrom
    cases hfrom with
    | clear hclear =>
      cases hres
      have hmem := mem_filter.2 ⟨hf, (smuggles_iff.1 hsm).1⟩
      rw [hclear, mem_singleton] at hmem
      subst hmem
      exact ⟨by simpa using hsm.2.1, rfl⟩
    | opened hclear => exact absurd hsm (not_smuggles_of_filter hclear f hf)
    | error => cases hres

lemma refillHs_error_inv {e : String} (h : FlightOk C true t₀ t)
    (hrefill : t.refillHs C = (t', .error e)) : FlightOk C false t₀ t' := by
  obtain ⟨fs, os, taken, hinv⟩ := h
  have hspec := readRecord_spec C tlsPlaintextMax t
  unfold refillHs at hrefill
  split at hrefill
  · next t₁ e₁ hread =>
    cases hrefill
    rw [hread] at hspec
    obtain ⟨⟨fs', os', hreads, hfrom⟩, -, hrest⟩ := hspec
    refine hinv.stop hreads hrest.taken ?_
    cases hfrom with
    | error hclear => exact not_smuggles_of_filter hclear
  · next t₁ r hread =>
    rw [hread] at hspec
    obtain ⟨⟨fs', os', hreads, hfrom⟩, -, hrest⟩ := hspec
    have htaken : t₁.taken = t.taken := hrest.taken
    -- a cleartext record has the right type, so this one was opened
    have hno : r.innerType ≠ ctHandshake → ∀ f ∈ fs', ¬ f.smuggles := by
      intro hne
      generalize hres : (.ok r : Except String Rec) = res at hfrom
      cases hfrom with
      | clear => cases hres; exact absurd rfl hne
      | opened hclear => exact not_smuggles_of_filter hclear
      | error => cases hres
    split_ifs at hrefill with halert hother
    · cases hrefill
      refine hinv.stop (hreads.congr rfl rfl rfl rfl rfl) htaken (hno ?_)
      rw [halert]
      decide
    · cases hrefill
      exact hinv.stop (hreads.congr rfl rfl rfl rfl rfl) htaken (hno hother)
    · simp at hrefill

lemma flightOk_rule : FlightRule C fun ok => FlightOk C ok t₀ where
  takeHs := fun _ n ⟨fs, os, _, hinv⟩ => ⟨fs, os, _, takeHs_inv hinv n⟩
  refillHs := fun _ _ _ h hempty hrefill hn => refillHs_inv h hempty hrefill hn
  refillHs_error := fun _ _ _ h hrefill => refillHs_error_inv h hrefill

end

/-! ## When the flight is opened -/

lemma labelled_origin {x : Origin × UInt8} (hx : x ∈ os.flatMap labelled) : x.1 ≠ .clear := by
  obtain ⟨o, -, hxo⟩ := mem_flatMap.1 hx
  unfold labelled at hxo
  split at hxo
  · cases hxo
  · obtain ⟨b, -, rfl⟩ := mem_map.1 hxo
    nofun

lemma FlightOpened.not_clear {C : Crypto} {t' : TlsConn} {taken : List (Origin × UInt8)}
    (h : FlightOpened C t t') (htaken : t'.taken = t.taken ++ taken) :
    ∀ x ∈ taken, x.1 ≠ .clear := by
  obtain ⟨os, taken', -, htaken', -, hpre⟩ := h
  obtain rfl : taken' = taken := append_cancel_left (htaken'.symm.trans htaken)
  exact fun x hx => labelled_origin (hpre.subset hx)

/-- When the handshake keys have been installed, nothing has been read under them and no
handshake byte waits. -/
lemma hello_ready {C : Crypto} {host : Bytes} {random sid priv : Block 32} {tcp : Transport}
    (h : hello C host random sid (newConn tcp priv) = (t, .ok ())) :
    t.recvSeq = 0 ∧ t.appKeys = false ∧ t.hsCurLen ≤ t.hsCurOff ∧ t.taken = [] := by
  unfold hello at h
  split at h
  · simp at h
  next t₁ hsend =>
  have ht₁ : t₁.appKeys = false ∧ t₁.hsCurLen ≤ t₁.hsCurOff ∧ t₁.taken = [] := by
    unfold sendClientHello at hsend
    split at hsend
    · simp at hsend
    · simp only [Prod.mk.injEq] at hsend
      rw [← hsend.1]
      exact ⟨rfl, le_rfl, rfl⟩
  have hspec := readRecord_spec C tlsPlaintextMax t₁
  unfold readServerHello at h
  split at h
  · simp at h
  next t₂ r hread =>
  rw [hread] at hspec
  have hrest : t₂ = _ := hspec.rest
  split at h
  · simp at h
  split at h
  · simp at h
  · simp only [Prod.mk.injEq, and_true] at h
    subst h
    refine ⟨rfl, ?_, ?_, ?_⟩
    · rw [hrest]
      exact ht₁.1
    · rw [hrest]
      exact ht₁.2.1
    · rw [hrest]
      exact ht₁.2.2

/-- **Where the bytes of the flight come from.** Take any bytes of the peer, in any pieces, and
suppose the handshake has come to the handshake keys. Then `read_server_flight` takes some
records `fs` from the front of the stream, and the handshake bytes it consumes all come, in
order, from records opened under the server's handshake key with the sequence numbers 0, 1, 2,
..., if and only if none of these records is a cleartext handshake record with 1 to
`TLS_PLAINTEXT_MAX` bytes.

**Proof sketch.** `flightOk_rule` carries the invariant through the loops. A cleartext
record has its first byte consumed as soon as it is read, and without one the bytes consumed are
those of the opened records. -/
theorem flight_opened_iff (C : Crypto) (host : Bytes) (random sid priv : Block 32)
    (tcp : Transport) (t : TlsConn) (h : hello C host random sid (newConn tcp priv) = (t, .ok ())) :
    ∃ fs tail, (readServerFlight C t).1.frames = t.frames ++ fs ∧ (∀ f ∈ fs, f.WellFormed) ∧
      t.tcp.rx = fs.flatMap Frame.bytes ++ tail ∧
      (FlightOpened C t (readServerFlight C t).1 ↔
        ∀ f ∈ fs, ¬ (f.type = ctHandshake ∧ f.body ≠ [] ∧ f.body.length ≤ tlsPlaintextMax)) := by
  obtain ⟨hseq, hkeys, hempty, -⟩ := hello_ready h
  obtain ⟨fs, os, taken, hinv⟩ := flightOk_rule.readServerFlight (.refl hempty)
  obtain ⟨tail, htook⟩ := hinv.reads.took
  have hopenKeys : t.openKeys = t.sHs := by simp [openKeys, hkeys]
  have hrx := htook.rx
  rw [append_assoc] at hrx
  refine ⟨fs, _, hinv.reads.frames, hinv.reads.wellFormed, hrx, ?_, ?_⟩
  · intro hopened f hf hsm
    obtain ⟨x, hx, hclear⟩ := hinv.smuggled ⟨f, hf, hsm⟩
    exact hopened.not_clear hinv.taken_eq x hx hclear
  · intro hno
    have horder := hinv.reads.inOrder
    rw [hopenKeys, hseq] at horder
    exact ⟨os, taken, hinv.reads.opens, hinv.taken_eq, horder, hinv.opened hno⟩

/-! ## Two flights -/

def zeros : Block 32 := fun _ => 0

/-- A ServerHello record with a key_share of zeros. -/
def serverHelloRecord : Bytes :=
  [22, 3, 3, 0, 84, 2, 0, 0, 80, 3, 3] ++ List.replicate 32 0 ++
    [0, 0x13, 0x03, 0, 0, 40, 0, 51, 0, 36, 0, 0x1d, 0, 32] ++ List.replicate 32 0

/-- A network that delivers `rx`, and every send. -/
def openWire (rx : Bytes) : Transport := ⟨rx, List.replicate 8 (some 65535), [true, true], []⟩

/-- Stand-ins for the cryptographic functions: every hash and key is zero, and a record is
protected by a tag of zeros. -/
def plainCrypto : Crypto where
  sha256 _ := zeros
  hmacSha256 _ _ := zeros
  hkdfExtract _ _ := zeros
  tls13ExpandLabel _ _ _ _ := fun _ => 0
  tls13DeriveSecret _ _ _ := zeros
  x25519Base _ := zeros
  x25519 _ _ := zeros
  encrypt _ _ _ pt := (pt, fun _ => 0)
  decrypt _ _ _ ct tag := if tag = List.replicate 16 0 then some ct else none
  decrypt_length := by
    intro _ _ _ ct tag pt h
    split at h
    · cases h
      rfl
    · cases h

/-- A Finished message without content, in an encrypted record. -/
def encryptedFinished : Bytes := [23, 3, 3, 0, 21, 20, 0, 0, 0, 22] ++ List.replicate 16 0

/-- A Finished message without content, in a cleartext handshake record. -/
def cleartextFinished : Bytes := [22, 3, 3, 0, 4, 20, 0, 0, 0]

/-- The handshake up to the handshake keys, with a peer that sends ServerHello and then
`flight`. -/
def helloTo (C : Crypto) (flight : Bytes) : TlsConn × Except String Unit :=
  hello C [] zeros zeros (newConn (openWire (serverHelloRecord ++ flight)) zeros)

/-- The connection is ready for `flight`: ServerHello was taken from the stream and no handshake
byte waits. -/
def TlsConn.ReadyFor (t : TlsConn) (flight : Bytes) : Prop :=
  (t.tcp.rx, t.tcp.reads, t.tcp.sends, t.frames, t.taken, t.hsCurLen, t.hsCurOff, t.recvSeq,
      t.appKeys) =
    (flight, List.replicate 6 (some 65535), [true],
      [⟨serverHelloRecord.take 5, serverHelloRecord.drop 5⟩], [], 0, 0, 0, false)

set_option maxRecDepth 4000 in
lemma helloTo_ok (C : Crypto) (flight : Bytes) :
    (helloTo C flight).2 = .ok () ∧ (helloTo C flight).1.ReadyFor flight := by
  cbv

lemma encryptedFinished_flight (h : t.ReadyFor encryptedFinished) :
    (readServerFlight plainCrypto t).2 = .ok () ∧
      (readServerFlight plainCrypto t).1.frames =
        t.frames ++ [⟨[23, 3, 3, 0, 21], [20, 0, 0, 0, 22] ++ replicate 16 0⟩] := by
  obtain ⟨⟨_, _, _, _⟩, _⟩ := t
  obtain ⟨rfl, rfl, rfl, rfl, rfl, rfl, rfl, rfl, rfl⟩ := h
  cbv

/-- A flight of one encrypted record is accepted, and its bytes come from that record. -/
theorem flight_opened_iff_encrypted :
    ∃ t, helloTo plainCrypto encryptedFinished = (t, .ok ()) ∧
      (readServerFlight plainCrypto t).2 = .ok () ∧
      FlightOpened plainCrypto t (readServerFlight plainCrypto t).1 := by
  obtain ⟨hsnd, hready⟩ := helloTo_ok plainCrypto encryptedFinished
  have hok : helloTo plainCrypto encryptedFinished =
      ((helloTo plainCrypto encryptedFinished).1, .ok ()) := by
    rw [← hsnd]
  generalize (helloTo plainCrypto encryptedFinished).1 = t at *
  obtain ⟨hflight, hread⟩ := encryptedFinished_flight hready
  obtain ⟨fs, tail, hframes, -, -, hiff⟩ := flight_opened_iff plainCrypto [] zeros zeros zeros
    (openWire (serverHelloRecord ++ encryptedFinished)) t hok
  refine ⟨t, hok, hflight, hiff.2 fun f hf hsm => ?_⟩
  rw [append_cancel_left (hframes.symm.trans hread), mem_singleton] at hf
  subst hf
  exact absurd hsm.1 (by decide)

lemma cleartextFinished_flight (C : Crypto) (h : t.ReadyFor cleartextFinished) :
    (readServerFlight C t).2 = .ok () ∧ (readServerFlight C t).1.taken =
      t.taken ++ [(.clear, 20), (.clear, 0), (.clear, 0), (.clear, 0)] := by
  obtain ⟨⟨_, _, _, _⟩, _⟩ := t
  obtain ⟨rfl, rfl, rfl, rfl, rfl, rfl, rfl, rfl, rfl⟩ := h
  cbv

/-- Whatever the cryptographic functions compute, a flight of one cleartext record is accepted:
the four bytes of the Finished message come from a record that nobody protected. -/
theorem cleartext_finished_accepted :
    cleartextFinished = [22, 3, 3, 0, 4, 20, 0, 0, 0] ∧
      ∀ C : Crypto, ∃ t, helloTo C cleartextFinished = (t, .ok ()) ∧
        (readServerFlight C t).2 = .ok () ∧ ¬ FlightOpened C t (readServerFlight C t).1 := by
  refine ⟨rfl, fun C => ?_⟩
  obtain ⟨hsnd, hready⟩ := helloTo_ok C cleartextFinished
  have hok : helloTo C cleartextFinished = ((helloTo C cleartextFinished).1, .ok ()) := by
    rw [← hsnd]
  generalize (helloTo C cleartextFinished).1 = t at *
  obtain ⟨hflight, htaken⟩ := cleartextFinished_flight C hready
  refine ⟨t, hok, hflight, fun h => ?_⟩
  exact h.not_clear htaken (.clear, 20) (by simp) rfl

end SubOS.Tls
