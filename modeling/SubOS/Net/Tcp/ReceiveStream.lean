import SubOS.Net.Tcp.Endpoint

set_option autoImplicit false

/-!
# The received byte stream

A peer cuts a byte stream `S` into segments, and the network may reorder, repeat, overlap and
drop them. `tcp_stream_input` takes a segment only where its sequence number is the one it
expects, keeps what fits into the receive ring and acknowledges exactly that; `tcp_recv` takes
bytes out of the ring at any time.

## Main definitions

* `Segment.CutFrom`, `RxInv` — a segment of `S`, and what the connection has received.

## Main results

* `Endpoint.received_stream` — what was read, and then the ring, is a prefix of `S`.
-/

namespace SubOS.Tcp

open SerialNumber EventRun Conn List

/-- The segment carries neither SYN nor RST, its payload is the slice of the stream `S` at its
sequence number, the stream beginning at `irs + 1`, and a FIN stands at the end of `S`. -/
def Segment.CutFrom (S : List UInt8) (irs : Seq) (g : Segment) : Prop :=
  g.has tcpFlagSyn = false ∧ g.has tcpFlagRst = false ∧
    ∃ off, g.seq = irs + 1 + BitVec.ofNat 32 off ∧ off + g.payload.length ≤ S.length ∧
      g.payload = (S.drop off).take g.payload.length ∧
      (g.has tcpFlagFin = true → off + g.payload.length = S.length)

/-- The segment is cut from the stream `S`, of any length, and lies less than a circle of sequence
numbers away from the place `pos` that the receiver has reached. -/
def Segment.CutNear (S : List UInt8) (irs : Seq) (pos : ℕ) (g : Segment) : Prop :=
  g.has tcpFlagSyn = false ∧ g.has tcpFlagRst = false ∧
    ∃ off, g.seq = irs + 1 + BitVec.ofNat 32 off ∧ off + g.payload.length ≤ S.length ∧
      g.payload = (S.drop off).take g.payload.length ∧
      (g.has tcpFlagFin = true → off + g.payload.length = S.length) ∧
      pos < off + 2 ^ 32 ∧ off + g.payload.length < pos + 2 ^ 32

variable {S : List UInt8} {irs : Seq}

lemma Segment.CutFrom.near {g : Segment} (h : g.CutFrom S irs)
    (hS : S.length < 2 ^ 32) {pos : ℕ} (hpos : pos ≤ S.length) : g.CutNear S irs pos := by
  obtain ⟨hsyn, hrst, off, hseq, hlen, hpay, hend⟩ := h
  exact ⟨hsyn, hrst, off, hseq, hlen, hpay, hend, by omega, by omega⟩

/-- `got` has been read from the connection: with what waits in its ring this is a prefix of
`S`, and `ack_num` counts it and the FIN, which is taken at the end of `S` only. -/
structure RxInv (S : List UInt8) (irs : Seq) (got : List UInt8) (c : Conn) : Prop where
  head : c.rxHead < tcpRxBufSize
  count : c.rxCount ≤ tcpRxBufSize
  buf : c.rxBuf.isSome = true
  stream : got ++ c.rxBytes <+: S
  ack : c.ackNum = irs + 1 + BitVec.ofNat 32 ((got ++ c.rxBytes).length + c.peerFin.toNat)
  fin : c.peerFin = true → got ++ c.rxBytes = S

/-! ## The receive ring -/

lemma Conn.rxBytes_congr {c c' : Conn} (hbuf : c'.rxBuf = c.rxBuf) (hhead : c'.rxHead = c.rxHead)
    (hcount : c'.rxCount = c.rxCount) : c'.rxBytes = c.rxBytes := by
  unfold rxBytes ring
  rw [hbuf, hhead, hcount]

lemma RxInv.of_eq {got : List UInt8} {c c' : Conn} (h : RxInv S irs got c)
    (hbuf : c'.rxBuf = c.rxBuf) (hhead : c'.rxHead = c.rxHead) (hcount : c'.rxCount = c.rxCount)
    (hack : c'.ackNum = c.ackNum) (hfin : c'.peerFin = c.peerFin) : RxInv S irs got c' := by
  have hbytes := rxBytes_congr hbuf hhead hcount
  obtain ⟨h₁, h₂, h₃, h₄, h₅, h₆⟩ := h
  constructor
  · rwa [hhead]
  · rwa [hcount]
  · rwa [hbuf]
  · rwa [hbytes]
  · rwa [hbytes, hack, hfin]
  · rwa [hbytes, hfin]

variable {c : Conn} {got : List UInt8} {n : ℕ}

/-- `rx_append` puts a prefix of the data behind the waiting bytes and reports its length. -/
lemma rxAppend_rxBytes (hbuf : c.rxBuf.isSome = true) (hcount : c.rxCount ≤ tcpRxBufSize)
    (data : List UInt8) :
    (rxAppend c data).1.rxBytes = c.rxBytes ++ data.take (rxAppend c data).2 ∧
      (rxAppend c data).2 ≤ data.length ∧ (rxAppend c data).1.rxCount ≤ tcpRxBufSize ∧
      (rxAppend c data).1.rxBuf.isSome = true := by
  obtain ⟨buf, hb⟩ := Option.isSome_iff_exists.1 hbuf
  have hpush := (c.ring buf).contents_pushMany data
  have hsnd := (c.ring buf).pushMany_snd data
  have hcnt := (c.ring buf).pushMany_count data
  have hhead := (c.ring buf).pushMany_head data
  have hc : (c.ring buf).count = c.rxCount := rfl
  simp only [rxAppend, rxBytes, hb]
  generalize (c.ring buf).pushMany data = p at hpush hsnd hcnt hhead ⊢
  obtain ⟨⟨buf', head', count'⟩, n⟩ := p
  obtain rfl : head' = c.rxHead := hhead
  exact ⟨hpush, by dsimp only at hsnd ⊢; omega, by dsimp only at hsnd hcnt ⊢; omega, rfl⟩

/-- What `tcp_recv` copies is the front of the waiting bytes, and it leaves the rest. -/
lemma Conn.peek_append_consume (c : Conn) (h : n ≤ c.rxCount) :
    c.peek n ++ (c.consume n).rxBytes = c.rxBytes := by
  unfold peek rxBytes
  rw [show (c.consume n).rxBuf = c.rxBuf from rfl]
  cases hb : c.rxBuf with
  | none => rfl
  | some buf =>
    have hdrop := (c.ring buf).contents_dropMany n
    dsimp only
    rw [(c.ring buf).peekMany_eq_take h]
    rw [show (c.consume n).ring buf = (c.ring buf).dropMany n from rfl, hdrop, take_append_drop]

/-! ## One segment -/

section

variable {S got : List UInt8} {irs : Seq} {c : Conn} {g : Segment}

lemma prefix_append_take {P : List UInt8} (h : P <+: S) (m n : ℕ) :
    P ++ ((S.drop P.length).take m).take n <+: S := by
  obtain ⟨T, rfl⟩ := h
  rw [drop_left, take_take, prefix_append_right_inj]
  exact take_prefix _ _

/-- The segment's place in the stream is where the receiver is, if their numbers agree. -/
lemma RxInv.offset_eq (h : RxInv S irs got c) (hfin : c.peerFin = false)
    (hlow : (got ++ c.rxBytes).length < n + 2 ^ 32) (hhigh : n < (got ++ c.rxBytes).length + 2 ^ 32)
    (hseq : c.ackNum = irs + 1 + BitVec.ofNat 32 n) : (got ++ c.rxBytes).length = n := by
  have hack := h.ack
  rw [hfin, hseq] at hack
  exact (add_ofNat_inj_of_near _ hhigh hlow hack).symm

lemma acceptAck_rxBytes (c : Conn) (g : Segment) : (acceptAck c g).rxBytes = c.rxBytes := by
  unfold acceptAck
  split <;> rfl

lemma acceptData_rxBytes (hbuf : c.rxBuf.isSome = true) (hcount : c.rxCount ≤ tcpRxBufSize)
    (g : Segment) : ∃ n ≤ g.payload.length,
      (acceptData c g).1.rxBytes = c.rxBytes ++ g.payload.take n := by
  simp only [acceptData]
  split_ifs
  · obtain ⟨hbytes, hle, -⟩ := rxAppend_rxBytes hbuf hcount g.payload
    exact ⟨_, hle, hbytes⟩
  · exact ⟨0, Nat.zero_le _, by rw [take_zero, append_nil]⟩
  · exact ⟨0, Nat.zero_le _, by rw [take_zero, append_nil]⟩

section

variable (h : RxInv S irs got c)
include h

/-- Data of the stream keeps the invariant.

**Proof sketch.** Out of order, nothing changes. In order, the segment's offset in `S` is the
length of the prefix received so far, and `rx_append` extends it by what it takes. -/
lemma acceptData_rxInv
    (hg : g.CutNear S irs (got ++ c.rxBytes).length) : RxInv S irs got (acceptData c g).1 := by
  obtain ⟨-, -, off, hseq, hlen, hpay, -, hlow, hhigh⟩ := hg
  simp only [acceptData]
  split_ifs with hdata hord
  · have hoff := h.offset_eq hdata.2 hlow (by omega) (by rw [← hord, hseq])
    obtain ⟨hbytes, hle, hcount, hbuf⟩ := rxAppend_rxBytes h.buf h.count g.payload
    obtain ⟨buf, count, hfst⟩ := rxAppend_fst c g.payload
    generalize (rxAppend c g.payload).2 = n at hbytes hle ⊢
    rw [hfst] at hbytes hcount hbuf ⊢
    have hnew : ({ c with rxBuf := buf, rxCount := count, ackNum := c.ackNum + BitVec.ofNat 32 n } :
        Conn).rxBytes = c.rxBytes ++ g.payload.take n := hbytes
    refine ⟨h.head, hcount, hbuf, ?_, ?_, ?_⟩
    · rw [hnew, ← append_assoc, hpay, ← hoff]
      exact prefix_append_take h.stream _ _
    · have hlen' : (got ++ (c.rxBytes ++ g.payload.take n)).length =
        (got ++ c.rxBytes).length + n := by
        simp [hle, Nat.add_assoc]
      rw [hnew, hlen', h.ack, add_ofNat_add, Nat.add_right_comm]
    · intro hfin
      cases hdata.2.symm.trans hfin
  · exact h
  · exact h

/-- The FIN of the stream keeps the invariant: it is taken only once all of `S` has been. -/
lemma acceptFin_rxInv {pos : ℕ} (hg : g.CutNear S irs pos) (hfrom : pos ≤ (got ++ c.rxBytes).length)
    (hto : (got ++ c.rxBytes).length ≤ pos + g.payload.length) (now : ℕ) :
    RxInv S irs got (acceptFin now c g).1 := by
  obtain ⟨-, -, off, hseq, hlen, -, hend, hlow, hhigh⟩ := hg
  unfold acceptFin
  split
  · next hfin =>
    obtain ⟨hflag, hpeer, hack⟩ := hfin
    have hall : (got ++ c.rxBytes).length = S.length := by
      rw [← hend hflag]
      refine h.offset_eq hpeer (by omega) (by omega) ?_
      rw [hack, hseq, Segment.len, add_ofNat_add]
    have htaken : RxInv S irs got { c with ackNum := c.ackNum + 1, peerFin := true } := by
      refine ⟨h.head, h.count, h.buf, h.stream, ?_, fun _ => h.stream.eq_of_length hall⟩
      have hold := h.ack
      rw [hpeer] at hold
      rw [hold]
      exact add_ofNat_add _ _ 1
    dsimp only
    split <;> exact htaken.of_eq rfl rfl rfl rfl rfl
  · exact h

lemma finishClose_rxInv (now : ℕ) : RxInv S irs got (finishClose now c) := by
  unfold finishClose
  split
  · split <;> exact h.of_eq rfl rfl rfl rfl rfl
  · exact h

/-- **A segment of the stream keeps the stream invariant.** -/
lemma streamData_rxInv (hg : g.CutNear S irs (got ++ c.rxBytes).length)
    (now : ℕ) : RxInv S irs got (streamData now c g).1 := by
  have hack : RxInv S irs got (acceptAck c g) := by
    unfold acceptAck
    split
    · exact h.of_eq rfl rfl rfl rfl rfl
    · exact h
  have hsame := acceptAck_rxBytes c g
  have hnear : g.CutNear S irs (got ++ (acceptAck c g).rxBytes).length := by rwa [hsame]
  obtain ⟨n, hn, hbytes⟩ := acceptData_rxBytes hack.buf hack.count g
  have hlen : (got ++ (acceptData (acceptAck c g) g).1.rxBytes).length =
      (got ++ (acceptAck c g).rxBytes).length + n := by
    rw [hbytes, ← append_assoc, length_append, length_take, Nat.min_eq_left hn]
  refine finishClose_rxInv (acceptFin_rxInv (acceptData_rxInv hack hnear) hnear ?_ ?_ now) now
  · omega
  · omega

lemma RxInv.consume (hn : n ≤ c.rxCount) : RxInv S irs (got ++ c.peek n) (c.consume n) := by
  have hbytes : got ++ c.peek n ++ (c.consume n).rxBytes = got ++ c.rxBytes := by
    rw [append_assoc, c.peek_append_consume hn]
  refine ⟨Nat.mod_lt _ (by decide), (Nat.sub_le _ _).trans h.count, h.buf, ?_, ?_, ?_⟩
  · rw [hbytes]; exact h.stream
  · rw [hbytes]; exact h.ack
  · rw [hbytes]; exact h.fin

end

end

/-! ## The handshake -/

/-- The states up to ESTABLISHED. -/
def State.early : State → Bool
  | .synSent | .synRcvd | .established => true
  | _ => false

lemma streamData_state (now : ℕ) (c : Conn) (g : Segment) :
    (streamData now c g).1.state = c.state ∨ (streamData now c g).1.state.early = false := by
  have hadv := streamData_advance now c g
  generalize (streamData now c g).1.state = st at hadv ⊢
  rcases hadv.cases_tail with h | ⟨st', -, h⟩
  · exact .inl h
  · exact .inr (by cases h <;> rfl)

/-- Nothing has been received: the ring is empty and the peer's FIN has not come. -/
structure Untouched (got : List UInt8) (c : Conn) : Prop where
  buf : c.rxBuf.isSome = true
  head : c.rxHead = 0
  count : c.rxCount = 0
  peerFin : c.peerFin = false
  got : got = []

lemma Conn.IsNew.untouched (hc : c.IsNew) : Untouched [] c := by
  cases hc <;> exact ⟨rfl, rfl, rfl, rfl, rfl⟩

lemma Untouched.rxInv (h : Untouched got c)
    (hirs : c.ackNum = irs + 1) (S : List UInt8) : RxInv S irs got c := by
  have hbytes : got ++ c.rxBytes = [] := by
    obtain ⟨buf, hb⟩ := Option.isSome_iff_exists.1 h.buf
    have hlen : (c.ring buf).contents.length = 0 := by
      rw [RingBuffer.length_contents]
      exact h.count
    simp [rxBytes, hb, h.got, eq_nil_of_length_eq_zero hlen]
  refine ⟨by rw [h.head]; decide, by rw [h.count]; decide, h.buf, ?_, ?_, ?_⟩
  · rw [hbytes]
    exact nil_prefix
  · rw [hbytes, h.peerFin, hirs]
    exact (BitVec.add_zero _).symm
  · intro hfin
    cases h.peerFin.symm.trans hfin

variable {e : Endpoint} {a : Act}

/-- During the handshake, and at the moment it is completed, nothing has been received.

**Proof sketch.** By what the act does to the connection. A segment of the handshake touches
only the send side, `ack_num` and the state; a `tcp_recv` finds the ring empty; from the data
states no segment leads back to ESTABLISHED. -/
lemma Endpoint.ConnCase.untouched (h : e.ConnCase a c got)
    (hun : e.conn.state.early = true → e.conn.state ≠ .established → Untouched e.received e.conn)
    (hne : e.conn.state ≠ .established ∨ c.state ≠ .established) (hnew : c.state.early = true) :
    Untouched got c := by
  cases h with
  | same => exact hun hnew (or_self_iff.1 hne)
  | segment g =>
    have hcase := tcpStreamInput_cases e.now e.conn g
    generalize tcpStreamInput e.now e.conn g = r at hcase hne hnew ⊢
    cases hcase with
    | reset => cases hnew
    | ignored => exact hun hnew (or_self_iff.1 hne)
    | synAck hst | simultaneous hst | handshake _ hst =>
      obtain ⟨h₁, h₂, h₃, h₄, h₅⟩ := hun (by rw [hst]; rfl) (by simp [hst])
      exact ⟨h₁, h₂, h₃, h₄, h₅⟩
    | lingering ack hst =>
      rw [hst] at hnew
      cases hnew
    | data _ hst =>
      rcases streamData_state e.now e.conn g with h | h
      · rw [h] at hne hnew
        cases hs : e.conn.state <;> simp_all [State.early, State.takesData]
      · cases hnew.symm.trans h
  | read n hn =>
    have hu := hun hnew (or_self_iff.1 hne)
    have hz : n = 0 := by
      have := hu.count
      omega
    subst hz
    refine ⟨hu.buf, ?_, ?_, hu.peerFin, ?_⟩
    · simp [consume, hu.head]
    · simp [consume, hu.count]
    · obtain ⟨buf, hb⟩ := Option.isSome_iff_exists.1 hu.buf
      simp [peek, hb, hu.got, RingBuffer.peekMany]
  | publish seq =>
    obtain ⟨h₁, h₂, h₃, h₄, h₅⟩ := hun hnew (or_self_iff.1 hne)
    exact ⟨h₁, h₂, h₃, h₄, h₅⟩
  | fin next _ _ hnext => rcases hnext with rfl | rfl <;> cases hnew
  | closed => rcases closeFinish_cases e.now e.conn with h | h <;> rw [h] at hnew <;> cases hnew

/-! ## Every run -/

/-- The connection was freed or lingers. -/
def Conn.Gone (c : Conn) : Prop := c.inUse = false ∨ c.state = .timeWait

lemma Endpoint.ConnCase.gone (h : e.ConnCase a c got)
    (hg : ∀ g, a = .segment g → g.has tcpFlagRst = false) (hgone : e.conn.Gone) : c.Gone := by
  cases h with
  | same => exact hgone
  | segment g =>
    rcases hgone with hfree | hlinger
    · exact .inl ((tcpStreamInput_keeps e.now e.conn g).inUse.trans hfree)
    · have hcase := tcpStreamInput_cases e.now e.conn g
      generalize tcpStreamInput e.now e.conn g = r at hcase ⊢
      cases hcase with
      | reset hrst => cases (hg g rfl).symm.trans hrst
      | ignored | lingering => exact .inr hlinger
      | synAck hst | simultaneous hst | handshake _ hst =>
        cases hlinger.symm.trans hst
      | data _ hst =>
        rw [hlinger] at hst
        cases hst
  | read n hn | publish seq => exact hgone
  | fin next huse hst =>
    rcases hgone with hfree | hlinger
    · cases hfree.symm.trans huse
    · rw [hlinger] at hst
      rcases hst with h | h <;> cases h
  | closed =>
    rcases closeFinish_cases e.now e.conn with h | h <;> rw [h]
    · exact .inl rfl
    · exact .inr rfl

/-- An act on a connection past the handshake keeps the stream invariant, if the segments are
cut from the stream, until the connection is gone. -/
lemma Endpoint.ConnCase.rxInv (hS : S.length < 2 ^ 32) (h : e.ConnCase a c got)
    (hg : ∀ g, a = .segment g → g.CutFrom S irs) (hopen : e.conn.state ≠ .synSent ∧
      e.conn.state ≠ .synRcvd) (hinv : RxInv S irs e.received e.conn) :
    c.Gone ∨ (c.state ≠ .synSent ∧ c.state ≠ .synRcvd) ∧ RxInv S irs got c := by
  cases h with
  | same => exact .inr ⟨hopen, hinv⟩
  | segment g =>
    have hcut := hg g rfl
    have hcase := tcpStreamInput_cases e.now e.conn g
    generalize tcpStreamInput e.now e.conn g = r at hcase ⊢
    cases hcase with
    | reset hrst => cases hcut.2.1.symm.trans hrst
    | ignored => exact .inr ⟨hopen, hinv⟩
    | synAck hst | simultaneous hst => exact absurd hst hopen.1
    | handshake _ hst => exact absurd hst hopen.2
    | lingering ack hst => exact .inl (.inr hst)
    | data =>
      have hnear := hcut.near hS hinv.stream.length_le
      refine .inr ⟨?_, streamData_rxInv hinv hnear e.now⟩
      rcases streamData_state e.now e.conn g with h | h
      · rwa [h]
      · constructor <;> intro hst <;> dsimp only at hst <;> rw [hst] at h <;> cases h
  | read n hn => exact .inr ⟨hopen, hinv.consume hn⟩
  | publish seq => exact .inr ⟨hopen, hinv.of_eq rfl rfl rfl rfl rfl⟩
  | fin next _ _ hnext =>
    refine .inr ⟨?_, hinv.of_eq rfl rfl rfl rfl rfl⟩
    rcases hnext with rfl | rfl <;> exact ⟨nofun, nofun⟩
  | closed =>
    rcases closeFinish_cases e.now e.conn with h | h <;> rw [h]
    · exact .inl (.inl rfl)
    · exact .inl (.inr rfl)

/-- Until the connection is established, nothing has been received. -/
def Endpoint.Unopened (e : Endpoint) : Prop :=
  e.conn.state.early = true → e.conn.state ≠ .established → Untouched e.received e.conn

lemma Endpoint.run_unopened {c₀ : Conn} (hc₀ : c₀.IsNew) (now : ℕ) (as : List Act) :
    ((opened c₀ now).run as).Unopened := by
  exact run_invariant (fun e a h hnew hne => (step_conn e a).untouched h (.inr hne) hnew)
    (fun _ _ => hc₀.untouched) as

/-- The connection is gone, or past the handshake with the stream invariant. -/
def Endpoint.Streaming (S : List UInt8) (irs : Seq) (e : Endpoint) : Prop :=
  e.conn.Gone ∨ (e.conn.state ≠ .synSent ∧ e.conn.state ≠ .synRcvd) ∧
    RxInv S irs e.received e.conn

lemma Endpoint.step_streaming (hS : S.length < 2 ^ 32)
    (e : Endpoint) (a : Act) (h : e.Streaming S irs)
    (hg : ∀ g, a = .segment g → g.CutFrom S irs) : (e.step a).Streaming S irs := by
  have hcase := step_conn e a
  rcases h with hgone | ⟨hopen, hinv⟩
  · exact .inl (hcase.gone (fun g hseg => (hg g hseg).2.1) hgone)
  · exact hcase.rxInv hS hg hopen hinv

/-- **The received byte stream.** Take a new connection, any acts `as` up to the act `a` that
brings it to ESTABLISHED, with `irs` the peer's initial sequence number, and then any acts `bs`
whose segments are cut from one stream `S` of fewer than `2^32` bytes. Unless the connection
has by then been freed or put in TIME_WAIT, the bytes `tcp_recv` has returned and the bytes in
the ring are together a prefix `P` of `S`; `ack_num` is `irs + 1 + |P|`, and one more once the
peer's FIN was taken, which happens only when `P` is all of `S`; the cursors stay inside the
ring; and the window advertised is the room left in it.

**Proof sketch.** Up to ESTABLISHED nothing is received (`ConnCase.untouched`). Afterwards each
act keeps `RxInv` or ends the connection (`ConnCase.rxInv`), and a connection that has ended
stays so (`ConnCase.gone`). -/
theorem Endpoint.received_stream {c₀ : Conn} (hc₀ : c₀.IsNew) (now : ℕ) (as : List Act) (a : Act)
    (hbefore : ((opened c₀ now).run as).conn.state ≠ .established)
    (hafter : (((opened c₀ now).run as).step a).conn.state = .established)
    (S : List UInt8) (hS : S.length < 2 ^ 32) (irs : Seq)
    (hirs : (((opened c₀ now).run as).step a).conn.ackNum = irs + 1)
    (bs : List Act) (hbs : ∀ g, .segment g ∈ bs → g.CutFrom S irs) (e : Endpoint)
    (he : e = (((opened c₀ now).run as).step a).run bs)
    (huse : e.conn.inUse = true) (hlive : e.conn.state ≠ .timeWait) :
    ∃ P, P = e.received ++ e.conn.rxBytes ∧ P <+: S ∧
      e.conn.ackNum = irs + 1 + BitVec.ofNat 32 (P.length + e.conn.peerFin.toNat) ∧
      (e.conn.peerFin = true → P = S) ∧ e.conn.rxCount ≤ tcpRxBufSize ∧
      e.conn.rxHead < tcpRxBufSize ∧
      (tcpWindow e.conn).toNat = tcpRxBufSize - e.conn.rxCount := by
  have hfirst : Untouched (((opened c₀ now).run as).step a).received
      (((opened c₀ now).run as).step a).conn :=
    (step_conn _ a).untouched (run_unopened hc₀ now as) (.inl hbefore) (by rw [hafter]; rfl)
  have hinv : e.Streaming S irs := by
    rw [he]
    have hcut : ∀ b ∈ bs, ∀ g, b = .segment g → g.CutFrom S irs :=
      fun b hb g hg => hbs g (hg ▸ hb)
    refine run_invariant_of_along (step_streaming hS) (.inr ⟨?_, hfirst.rxInv hirs S⟩)
      (along_of_mem hcut)
    rw [hafter]
    exact ⟨nofun, nofun⟩
  rcases hinv with hgone | ⟨-, hinv⟩
  · rcases hgone with h | h
    · cases h.symm.trans huse
    · exact absurd h hlive
  · exact ⟨_, rfl, hinv.stream, hinv.ack, hinv.fin, hinv.count, hinv.head,
      tcpWindow_toNat hinv.buf hinv.count⟩

/-- A segment from port 80 to port 50000. -/
def clientSegment (seq ack : Seq) (flags : UInt8) (payload : List UInt8) : Segment :=
  ⟨80, 50000, seq, ack, flags, payload⟩

/-- A client whose peer starts at 100 and sends the two bytes 104, 105: the second byte arrives
first, then both with the FIN, and the application reads one byte. -/
theorem Endpoint.received_stream_two_bytes :
    ∃ e : Endpoint, e = (((opened (newClient 1 2 50000 80 7) 0).run []).step
        (.segment (clientSegment 100 8 (tcpFlagSyn ||| tcpFlagAck) []))).run
          [.segment (clientSegment 102 8 tcpFlagAck [105]),
            .segment (clientSegment 101 8 (tcpFlagFin ||| tcpFlagAck) [104, 105]), .recv 1 0 1] ∧
      ∃ P, P = e.received ++ e.conn.rxBytes ∧ P <+: [104, 105] ∧
      e.conn.ackNum = 100 + 1 + BitVec.ofNat 32 (P.length + e.conn.peerFin.toNat) ∧
      (e.conn.peerFin = true → P = [104, 105]) ∧ e.conn.rxCount ≤ tcpRxBufSize ∧
      e.conn.rxHead < tcpRxBufSize ∧
      (tcpWindow e.conn).toNat = tcpRxBufSize - e.conn.rxCount := by
  refine ⟨_, rfl, received_stream (.client 1 2 50000 80 7) 0 [] _ (by decide) (by decide)
    [104, 105] (by decide) 100 (by decide) _ ?_ _ rfl (by decide) (by decide)⟩
  intro g hg
  simp only [mem_cons, Act.segment.injEq, reduceCtorEq, not_mem_nil, or_false] at hg
  rcases hg with rfl | rfl
  · exact ⟨by decide, by decide, 1, by decide, by decide, by decide, by decide⟩
  · exact ⟨by decide, by decide, 0, by decide, by decide, by decide, by decide⟩

end SubOS.Tcp
