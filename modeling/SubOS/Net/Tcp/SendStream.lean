import SubOS.Net.Tcp.Endpoint

set_option autoImplicit false

/-!
# The transmitted byte stream

`tcp_send` puts each segment on sequence numbers before it waits for the acknowledgement, and
reports how many bytes were acknowledged. When it gives up on a segment, after a RST or after
`TCP_MAX_RETRIES` timeouts, the sequence numbers stay taken although their bytes are reported
as not sent. A later call starts behind them, and the peer's stream then holds bytes the
application believes were never sent.

## Main definitions

* `StreamConsistent` — all segments are slices of what was accepted.

## Main results

* `sent_stream_consistent`, `send_after_giveUp_inconsistent` — until a call gives up.
-/

namespace SubOS.Tcp

open SerialNumber EventRun List Endpoint SendCall

/-- The payload is the part of the stream that its sequence number says, the stream beginning
at `iss + 1`. -/
def Packet.SliceOf (iss : Seq) (stream : List UInt8) (p : Packet) : Prop :=
  ∃ o, p.seq = iss + 1 + BitVec.ofNat 32 o ∧ p.payload <+: stream.drop o

/-- The payloads transmitted are slices of one stream: the bytes in `acked`, and behind them at
most one segment more. -/
def StreamConsistent (iss : Seq) (acked : List UInt8) (sent : List Packet) : Prop :=
  ∃ tail : List UInt8, tail.length ≤ tcpMss ∧
    ∀ p ∈ sent, p.payload ≠ [] → p.SliceOf iss (acked ++ tail)

variable {iss : Seq} {e e' : Endpoint} {p : Packet}

lemma Packet.SliceOf.append {stream : List UInt8}
    (h : p.SliceOf iss stream) (more : List UInt8) : p.SliceOf iss (stream ++ more) := by
  obtain ⟨o, hseq, hpay⟩ := h
  refine ⟨o, hseq, ?_⟩
  rw [drop_append]
  exact hpay.trans (prefix_append _ _)

lemma Packet.sliceOf_append {stream more rest : List UInt8}
    (hseq : p.seq = iss + 1 + BitVec.ofNat 32 stream.length) (hpay : p.payload = more) :
    p.SliceOf iss (stream ++ (more ++ rest)) := by
  refine ⟨stream.length, hseq, ?_⟩
  rw [drop_left, hpay]
  exact prefix_append _ _

/-! ## One round of `tcp_send` -/

/-- The outcomes of one round of `tcp_send`. -/
inductive SendCase (now : ℕ) (c : Conn) (data : List UInt8) : SendPc → SendStep → Prop
  /-- A new segment goes on sequence numbers. -/
  | publish (sent : ℕ) : sent < data.length →
      SendCase now c data (.next sent)
        ⟨{ c with seqNum := c.seqNum + BitVec.ofNat 32 (min (data.length - sent) tcpMss) },
          [tcpTxSeq
            { c with seqNum := c.seqNum + BitVec.ofNat 32 (min (data.length - sent) tcpMss) }
            c.seqNum (tcpFlagPsh ||| tcpFlagAck)
            ((data.drop sent).take (min (data.length - sent) tcpMss))],
          .more ⟨data, .wait sent (min (data.length - sent) tcpMss) c.seqNum
            (c.seqNum + BitVec.ofNat 32 (min (data.length - sent) tcpMss)) 0 now⟩⟩
  /-- Everything was acknowledged. -/
  | finish (sent : ℕ) : SendCase now c data (.next sent) ⟨c, [], .done sent⟩
  /-- The segment is not yet acknowledged: wait. -/
  | wait (pc : SendPc) : SendCase now c data pc ⟨c, [], .more ⟨data, pc⟩⟩
  /-- The segment was acknowledged. -/
  | acked (sent chunk : ℕ) (segSeq segEnd : Seq) (tries t0 : ℕ) :
      SendCase now c data (.wait sent chunk segSeq segEnd tries t0)
        ⟨c, [], .more ⟨data, .next (sent + chunk)⟩⟩
  /-- The segment was not acknowledged, and the call returns. -/
  | giveUp (sent chunk : ℕ) (segSeq segEnd : Seq) (tries t0 : ℕ) :
      SendCase now c data (.wait sent chunk segSeq segEnd tries t0) ⟨c, [], .done (giveUp sent)⟩
  /-- The segment is sent again. -/
  | again (sent chunk : ℕ) (segSeq segEnd : Seq) (tries t0 : ℕ) :
      SendCase now c data (.wait sent chunk segSeq segEnd tries t0)
        ⟨c, [tcpTxSeq c segSeq (tcpFlagPsh ||| tcpFlagAck) ((data.drop sent).take chunk)],
          .more ⟨data, .wait sent chunk segSeq segEnd (tries + 1) now⟩⟩

lemma tcpSendStep_cases (now : ℕ) (c : Conn) (data : List UInt8) (pc : SendPc) :
    SendCase now c data pc (tcpSendStep now c ⟨data, pc⟩) := by
  cases pc with
  | next sent =>
    unfold tcpSendStep
    dsimp only
    split_ifs with h
    · exact .publish sent h
    · exact .finish sent
  | wait sent chunk segSeq segEnd tries t0 =>
    unfold tcpSendStep
    dsimp only
    split_ifs
    · exact .wait _
    · exact .acked ..
    · exact .giveUp ..
    · exact .giveUp ..
    · exact .again ..

/-! ## The invariant -/

namespace Endpoint

/-- The bytes reported as sent, and those the `tcp_send` in progress knows to be. -/
def acknowledged (e : Endpoint) : List UInt8 :=
  match e.call with
  | none => e.accepted
  | some call => e.accepted ++ call.acked

/-- The segment that waits for its acknowledgement. -/
def inflight (e : Endpoint) : List UInt8 :=
  match e.call with
  | none => []
  | some call => call.inflight

/-- All bytes on sequence numbers, as long as no call enters after one that gave up. -/
def stream (e : Endpoint) : List UInt8 := e.acknowledged ++ (e.inflight ++ e.abandoned)

/-- After a `tcp_send` that gave up, no other gets past the checks at its entry. -/
def NoSendAfterGiveUp (e : Endpoint) : Act → Prop
  | .send data => e.abandoned = [] ∨ (tcpSendStart e.conn data).enters = false
  | _ => True

instance (e : Endpoint) : DecidablePred e.NoSendAfterGiveUp := by
  rintro ⟨⟩ <;> dsimp only [NoSendAfterGiveUp] <;> infer_instance

end Endpoint

/-- The segment a call waits for lies inside its data, behind what was acknowledged. -/
def SendCall.InPlace (iss : Seq) (acked : List UInt8) (call : SendCall) : Prop :=
  match call.pc with
  | .next _ => True
  | .wait sent chunk segSeq .. =>
    sent + chunk ≤ call.data.length ∧ segSeq = iss + 1 + BitVec.ofNat 32 acked.length

/-- The invariant of the send side of a connection. -/
structure SendInv (iss : Seq) (e : Endpoint) : Prop where
  /-- What was transmitted is a slice of the stream. -/
  slices : ∀ p ∈ e.sent, p.payload ≠ [] → p.SliceOf iss e.stream
  /-- Behind the acknowledged bytes there is at most one segment. -/
  small : (e.inflight ++ e.abandoned).length ≤ tcpMss
  /-- No call is in progress after one that gave up. -/
  idle : e.call = none ∨ e.abandoned = []
  /-- A call in progress is where the stream is. -/
  inPlace : ∀ call ∈ e.call, call.InPlace iss e.acknowledged
  /-- The next byte to send follows the stream, until our FIN. -/
  next : e.abandoned = [] → e.call ≠ none ∨ e.conn.state.finLeft = 1 →
    e.conn.seqNum = iss + 1 + BitVec.ofNat 32 e.stream.length
  /-- During `tcp_close` our FIN was sent and no `tcp_send` is in progress. -/
  closing : e.closing ≠ none → e.call = none ∧ e.conn.state.finLeft = 0

/-- The invariant makes the transmitted payloads consistent with the acknowledged bytes. -/
lemma SendInv.consistent (h : SendInv iss e) : StreamConsistent iss e.acknowledged e.sent :=
  ⟨_, h.small, h.slices⟩

/-- Acts outside `tcp_send`: the calls and the stream stay, nothing with a payload is sent, and
`seq_num` moves only to send our FIN. -/
lemma SendInv.frame (h : SendInv iss e) {out : List Packet}
    (hcall : e'.call = e.call) (hacc : e'.accepted = e.accepted)
    (hab : e'.abandoned = e.abandoned) (hsent : e'.sent = e.sent ++ out)
    (hout : ∀ p ∈ out, p.payload = []) (hfin : e'.conn.state.finLeft ≤ e.conn.state.finLeft)
    (hseq : e'.conn.seqNum = e.conn.seqNum ∨ e.call = none ∧ e'.conn.state.finLeft = 0)
    (hclosing : e'.closing ≠ none → e.call = none ∧ e'.conn.state.finLeft = 0) :
    SendInv iss e' := by
  have hack : e'.acknowledged = e.acknowledged := by
    rw [acknowledged, acknowledged, hcall, hacc]
  have hinf : e'.inflight = e.inflight := by rw [Endpoint.inflight, Endpoint.inflight, hcall]
  have hstream : e'.stream = e.stream := by
    rw [stream, stream, hack, hinf, hab]
  refine ⟨?_, ?_, ?_, ?_, ?_, ?_⟩
  · intro p hp hne
    rw [hsent, mem_append] at hp
    rw [hstream]
    exact hp.elim (fun hp => h.slices p hp hne) fun hp => absurd (hout p hp) hne
  · rw [hinf, hab]; exact h.small
  · rw [hcall, hab]; exact h.idle
  · rw [hcall, hack]; exact h.inPlace
  · intro hnone hopen
    rw [hcall] at hopen
    rw [hab] at hnone
    rcases hseq with hseq | ⟨hidle, hleft⟩
    · rw [hseq, hstream]
      refine h.next hnone (hopen.imp_right fun hst => ?_)
      have : e.conn.state.finLeft ≤ 1 := by cases e.conn.state <;> decide
      omega
    · rcases hopen with hopen | hopen
      · exact absurd hidle hopen
      · omega
  · rw [hcall]; exact hclosing

/-- A round of `tcp_send` that publishes nothing: the stream and the connection stay. -/
lemma SendInv.of_stream_eq (h : SendInv iss e) {out : List Packet}
    (hcall : e.call ≠ none) (hstream : e'.stream = e.stream) (hconn : e'.conn = e.conn)
    (hsent : e'.sent = e.sent ++ out) (hout : ∀ p ∈ out, p.SliceOf iss e.stream)
    (hsmall : (e'.inflight ++ e'.abandoned).length ≤ tcpMss)
    (hidle : e'.call = none ∨ e'.abandoned = [])
    (hplace : ∀ call ∈ e'.call, call.InPlace iss e'.acknowledged)
    (hclosing : e'.closing = e.closing) : SendInv iss e' := by
  have hab : e.abandoned = [] := h.idle.resolve_left hcall
  refine ⟨?_, hsmall, hidle, hplace, ?_, ?_⟩
  · intro p hp hne
    rw [hstream]
    rw [hsent, mem_append] at hp
    exact hp.elim (fun hp => h.slices p hp hne) (hout p)
  · intro _ _
    rw [hstream, hconn]
    exact h.next hab (.inl hcall)
  · intro hc
    rw [hclosing] at hc
    exact absurd (h.closing hc).1 hcall

lemma SendInv.of_publish (h : SendInv iss e) (hcall : e.call ≠ none) (hnone : e.inflight = [])
    (hack : e'.acknowledged = e.acknowledged) (hab : e'.abandoned = [])
    (hsent : e'.sent = e.sent ++ [p]) (hp : p.seq = e.conn.seqNum) (hpay : p.payload = e'.inflight)
    (hseq : e'.conn.seqNum = e.conn.seqNum + BitVec.ofNat 32 e'.inflight.length)
    (hsmall : e'.inflight.length ≤ tcpMss)
    (hplace : ∀ call ∈ e'.call, e.conn.seqNum = iss + 1 + BitVec.ofNat 32 e'.acknowledged.length →
      call.InPlace iss e'.acknowledged) (hclosing : e'.closing = e.closing) : SendInv iss e' := by
  have hold : e.abandoned = [] := h.idle.resolve_left hcall
  have hstream : e.stream = e.acknowledged := by
    simp [stream, hnone, hold]
  have hstream' : e'.stream = e.stream ++ e'.inflight := by
    simp [stream, hack, hab, hnone, hold]
  have hnext := h.next hold (.inl hcall)
  refine ⟨?_, by simpa [hab] using hsmall, .inr hab, ?_, ?_, ?_⟩
  · intro q hq hne
    rw [hsent, mem_append, mem_singleton] at hq
    rcases hq with hq | rfl
    · rw [hstream']
      exact (h.slices q hq hne).append _
    · rw [stream, hack, ← hstream]
      exact Packet.sliceOf_append (hp.trans hnext) hpay
  · intro call hc
    exact hplace call hc (by rw [hack, ← hstream]; exact hnext)
  · intro _ _
    rw [hseq, hnext, add_ofNat_add, hstream', length_append]
  · intro hc
    rw [hclosing] at hc
    exact absurd (h.closing hc).1 hcall

namespace Endpoint

attribute [local simp] SendCall.inflight acknowledged inflight SendCall.acked SendPc.sent finishSend
    stream SendCall.slice

/-- **A round of `tcp_send` keeps the invariant.**

**Proof sketch.** By the outcome of the round. A new segment is the next part of the data and
starts where the stream ends. When it is acknowledged it moves to the acknowledged bytes; when
the call gives up it becomes the abandoned segment; a retransmission has the sequence number
and the payload of the first transmission. -/
lemma sendRound_sendInv {iss : Seq} (h : SendInv iss e) : SendInv iss e.sendRound := by
  cases hcall : e.call with
  | none => rwa [sendRound, hcall]
  | some call =>
    obtain ⟨data, pc⟩ := call
    have hsome : e.call ≠ none := by simp [hcall]
    have hab : e.abandoned = [] := h.idle.resolve_left hsome
    have hack : e.acknowledged = e.accepted ++ data.take pc.sent := by
      simp [hcall]
    have hplace := h.inPlace ⟨data, pc⟩ hcall
    have hsmall := h.small
    have hcase := tcpSendStep_cases e.now e.conn data pc
    simp only [sendRound, hcall]
    generalize tcpSendStep e.now e.conn ⟨data, pc⟩ = r at hcase ⊢
    cases hcase with
    | publish sent hlt =>
      have hlen : ((data.drop sent).take (min (data.length - sent) tcpMss)).length =
          min (data.length - sent) tcpMss := by simp
      have hchunk : sent + min (data.length - sent) tcpMss ≤ data.length := by omega
      refine h.of_publish hsome (by rw [inflight, hcall]; rfl) hack.symm hab rfl rfl
        rfl ?_ ?_ ?_ rfl
      · simp only [inflight, SendCall.inflight, slice, hlen]
      · simp only [inflight, SendCall.inflight, slice, hlen]
        exact Nat.min_le_right _ _
      · intro call hc hseq
        cases hc
        exact ⟨hchunk, hseq⟩
    | finish sent =>
      refine h.of_stream_eq hsome ?_ rfl rfl (by simp) ?_ (.inl rfl) (by simp) rfl
      · simp [hcall, hab]
      · simp [hab]
    | wait =>
      refine h.of_stream_eq hsome ?_ rfl rfl (by simp) ?_ (.inr hab) ?_ rfl
      · simp [hcall]
      · simpa [hcall] using hsmall
      · simpa [hcall] using hplace
    | acked sent chunk segSeq segEnd tries t0 =>
      refine h.of_stream_eq hsome ?_ rfl rfl (by simp) ?_ (.inr hab) ?_ rfl
      · simp [hcall, hab, take_add]
      · simp [hab]
      · simp [InPlace]
    | giveUp sent chunk segSeq segEnd tries t0 =>
      have hret : (SubOS.Tcp.giveUp sent).toNat = sent := by
        unfold SubOS.Tcp.giveUp
        split_ifs with h0
        · rw [h0]; rfl
        · rfl
      refine h.of_stream_eq hsome ?_ rfl rfl (by simp) ?_ (.inl rfl) (by simp) rfl
      · simp [hcall, hret, hab]
      · simpa [hcall, hab] using hsmall
    | again sent chunk segSeq segEnd tries t0 =>
      refine h.of_stream_eq hsome ?_ rfl rfl ?_ ?_ (.inr hab) ?_ rfl
      · simp [hcall]
      · intro p hp
        rw [mem_singleton.1 hp, stream]
        exact Packet.sliceOf_append hplace.2 (by rw [inflight, hcall]; rfl)
      · simpa [hcall] using hsmall
      · simpa [hcall, InPlace] using hplace

/-- A `tcp_send` that enters finds the connection open, and starts with nothing sent. -/
lemma send_sendInv {iss : Seq} (h : SendInv iss e) {data : List UInt8}
    (ha : e.NoSendAfterGiveUp (.send data)) : SendInv iss (e.send data) := by
  unfold send
  split
  · next call hnone hmore =>
    have hab : e.abandoned = [] := ha.resolve_right (by rw [hmore]; nofun)
    unfold tcpSendStart at hmore
    split_ifs at hmore with huse hst hdata
    cases hmore
    have hleft : e.conn.state.finLeft = 1 := by
      rw [not_and_or, not_not, not_not] at hst
      rcases hst with hst | hst <;> rw [hst] <;> rfl
    have hstream : e.stream = e.accepted := by
      simp [hnone, hab]
    have hstream' : ({ e with call := some ⟨data, .next 0⟩ } : Endpoint).stream = e.accepted := by
      simp [hab]
    refine ⟨?_, ?_, .inr hab, ?_, ?_, ?_⟩
    · rw [hstream', ← hstream]
      exact h.slices
    · simp [hab]
    · intro call hc
      cases hc
      trivial
    · intro _ _
      rw [hstream', ← hstream]
      exact h.next hab (.inr hleft)
    · intro hc
      exact absurd (h.closing hc).2 (by rw [hleft]; decide)
  · exact h

lemma closeFinish_finLeft (now : ℕ) (c : Conn) : (closeFinish now c).state.finLeft = 0 := by
  rcases closeFinish_cases now c with h | h <;> rw [h] <;> rfl

/-- `tcp_close` is called between two calls of `tcp_send`, and sends our FIN or frees the
connection. -/
lemma close_sendInv {iss : Seq} (h : SendInv iss e) : SendInv iss e.close := by
  unfold close tcpCloseStart
  split_ifs with h₁ h₂ h₃ h₄
  · exact h
  · exact h
  all_goals
    rw [not_or, Option.not_isSome_iff_eq_none, Option.not_isSome_iff_eq_none] at h₁
  · exact h.frame rfl rfl rfl rfl (by simp [tcpTx, tcpTxSeq]) (Nat.zero_le _) (.inr ⟨h₁.1, rfl⟩)
      fun _ => ⟨h₁.1, rfl⟩
  · exact h.frame rfl rfl rfl rfl (by simp [tcpTx, tcpTxSeq]) (Nat.zero_le _) (.inr ⟨h₁.1, rfl⟩)
      fun _ => ⟨h₁.1, rfl⟩
  · have hleft := closeFinish_finLeft e.now e.conn
    exact h.frame rfl rfl rfl (append_nil _).symm (by simp) (hleft ▸ Nat.zero_le _)
      (.inr ⟨h₁.1, hleft⟩) fun _ => ⟨h₁.1, hleft⟩

lemma closeRound_sendInv {iss : Seq} (h : SendInv iss e) : SendInv iss e.closeRound := by
  unfold closeRound
  split
  · exact h
  · next t0 hsome =>
    have hidle := (h.closing (by rw [hsome]; nofun)).1
    have hleft := closeFinish_finLeft e.now e.conn
    split
    · exact h
    · exact h.frame rfl rfl rfl (append_nil _).symm nofun (hleft ▸ Nat.zero_le _)
        (.inr ⟨hidle, hleft⟩) nofun

/-- One act keeps the invariant, unless it begins a `tcp_send` after one that gave up. -/
lemma step_sendInv {iss : Seq} (e : Endpoint) (a : Act) (h : SendInv iss e)
    (ha : e.NoSendAfterGiveUp a) : SendInv iss (e.step a) := by
  cases a with
  | segment g =>
    have hk := tcpStreamInput_keeps e.now e.conn g
    have hfin := tcpStreamInput_finLeft e.now e.conn g
    refine h.frame rfl rfl rfl rfl (tcpStreamInput_out e.now e.conn g) hfin (.inl hk.seqNum)
      fun hc => ?_
    have hold := h.closing hc
    exact ⟨hold.1, by change (tcpStreamInput e.now e.conn g).conn.state.finLeft = 0; omega⟩
  | tick n =>
    exact h.frame rfl rfl rfl (append_nil _).symm nofun le_rfl (.inl rfl) h.closing
  | recv len t0 wait =>
    simp only [step, recv]
    split
    · exact h
    · split
      · exact h
      · next hdone =>
        have hout := tcpRecvStep_out hdone
        rcases tcpRecvStep_done hdone with ⟨rfl, rfl⟩ | ⟨n, hn, rfl, rfl⟩
        · exact h.frame rfl rfl rfl rfl hout le_rfl (.inl rfl) h.closing
        · exact h.frame rfl rfl rfl rfl hout le_rfl (.inl rfl) h.closing
  | send data => exact send_sendInv h ha
  | sendRound => exact sendRound_sendInv h
  | close => exact close_sendInv h
  | closeRound => exact closeRound_sendInv h

/-- **The transmitted byte stream.** Take a new connection and any acts in which no `tcp_send`
enters after an earlier one has given up on a segment. At every moment all payloads transmitted
so far are slices, at their sequence numbers, of one stream: the bytes reported as sent (and,
during a call, those it knows to be acknowledged), and behind them at most one segment. So the
byte at `iss + 1 + i` is the `i`-th byte accepted, and no byte reported as not sent stands in
front of later data.

**Proof sketch.** A new connection satisfies `SendInv`, and `step_sendInv` carries it along the
run. -/
theorem sent_stream_consistent {c₀ : Conn} (hc₀ : c₀.IsNew) (now : ℕ) (as : List Act)
    (has : Along step NoSendAfterGiveUp (opened c₀ now) as) :
    StreamConsistent c₀.iss ((opened c₀ now).run as).acknowledged ((opened c₀ now).run as).sent ∧
      (((opened c₀ now).run as).call = none →
        ((opened c₀ now).run as).acknowledged = ((opened c₀ now).run as).accepted) := by
  have hopen : SendInv c₀.iss (opened c₀ now) := by
    refine ⟨nofun, Nat.zero_le _, .inl rfl, nofun, ?_, nofun⟩
    intro _ _
    cases hc₀ <;> exact (BitVec.add_zero _).symm
  have hinv : SendInv c₀.iss ((opened c₀ now).run as) :=
    run_invariant_of_along step_sendInv hopen has
  refine ⟨hinv.consistent, fun hnone => ?_⟩
  rw [acknowledged, hnone]

/-! ## A call after one that gave up -/

/-- A client is established and sends the byte 65, which the peer acknowledges. -/
def oneByteAccepted : List Act :=
  [.segment ⟨80, 50000, 100, 8, tcpFlagSyn ||| tcpFlagAck, []⟩, .send [65], .sendRound,
    .segment ⟨80, 50000, 101, 9, tcpFlagAck, []⟩, .sendRound, .sendRound]

/-- A client is established and sends the byte 65, gives up after five timeouts, and then sends
the byte 66; the peer has received both by now and acknowledges them. -/
def oneByteGivenUp : List Act :=
  [.segment ⟨80, 50000, 100, 8, tcpFlagSyn ||| tcpFlagAck, []⟩, .send [65], .sendRound,
    .tick 50, .sendRound, .tick 50, .sendRound, .tick 50, .sendRound, .tick 50, .sendRound,
    .tick 50, .sendRound, .send [66], .sendRound,
    .segment ⟨80, 50000, 101, 10, tcpFlagAck, []⟩, .sendRound, .sendRound]

/-- The client of the two runs. -/
def sendingClient : Endpoint := opened (newClient 1 2 50000 80 7) 0

/-- After the first run the byte 65 is reported as sent, and stands at `iss + 1`. -/
theorem sent_stream_consistent_accepted :
    (sendingClient.run oneByteAccepted).accepted = [65] ∧
      StreamConsistent 7 (sendingClient.run oneByteAccepted).acknowledged
        (sendingClient.run oneByteAccepted).sent :=
  ⟨by decide, (sent_stream_consistent (.client 1 2 50000 80 7) 0 oneByteAccepted (by decide)).1⟩

/-- After the second run the first call has returned -1 and the second 1, so that only the byte
66 was accepted; but `iss + 1` holds the byte 65, and 66 stands behind it.

**Proof sketch.** In a consistent stream the payload 65 at `iss + 1` would have to be the first
accepted byte: no other offset of the stream has this sequence number. -/
theorem send_after_giveUp_inconsistent :
    (sendingClient.run oneByteGivenUp).call = none ∧
      (sendingClient.run oneByteGivenUp).accepted = [66] ∧
      ¬ StreamConsistent 7 (sendingClient.run oneByteGivenUp).accepted
        (sendingClient.run oneByteGivenUp).sent := by
  have hacc : (sendingClient.run oneByteGivenUp).accepted = [66] := by decide
  refine ⟨by decide, hacc, ?_⟩
  rintro ⟨tail, hlen, hslices⟩
  rw [hacc] at hslices
  have hsent : ∃ p ∈ (sendingClient.run oneByteGivenUp).sent, p.seq = 8 ∧ p.payload = [65] := by
    decide
  obtain ⟨p, hp, hseq, hpay⟩ := hsent
  obtain ⟨o, ho, hpre⟩ := hslices p hp (by rw [hpay]; nofun)
  rw [hpay] at hpre
  have hlt : o < ([66] ++ tail).length := by
    have := hpre.length_le
    rw [length_drop, length_singleton] at this
    omega
  have hzero : 0 = o := by
    refine add_ofNat_inj (7 + 1) (by decide) ?_ (hseq.symm.trans ho)
    rw [length_append, length_singleton] at hlt
    exact hlt.trans_le ((Nat.add_le_add_left hlen 1).trans (by decide))
  subst hzero
  obtain ⟨rest, hrest⟩ := hpre
  cases hrest

end Endpoint

end SubOS.Tcp
