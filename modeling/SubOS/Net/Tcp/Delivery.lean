import SubOS.Net.Tcp.ReceiveStream
import SubOS.Net.Tcp.SendStream

set_option autoImplicit false

/-!
# From one application to the other

Two connections of this stack, and a network that loses, repeats and reorders segments.

## Main definitions

* `Packet.segment` — the segment that the peer reads.

## Main results

* `Endpoint.delivered_in_order` — delivery in order.
-/

namespace SubOS.Tcp

open EventRun List

/-- The segment in which a packet arrives. -/
def Packet.segment (p : Packet) : Segment :=
  ⟨p.srcPort, p.dstPort, p.seq, p.ack, p.flags, p.payload⟩

/-- The segment carries no data, no FIN and no RST. -/
structure Segment.Quiet (g : Segment) : Prop where
  payload : g.payload = []
  fin : g.has tcpFlagFin = false
  rst : g.has tcpFlagRst = false

namespace Endpoint

variable {e : Endpoint} {iss : Seq}

/-- A segment without data or FIN leaves the stream as it is. -/
lemma step_quiet {S : List UInt8} {g : Segment} (h : e.Streaming S iss) (hg : g.Quiet) :
    (e.step (.segment g)).Streaming S iss := by
  rcases h with hgone | ⟨hopen, hinv⟩
  · exact .inl ((step_conn e _).gone (fun _ hseg => by cases hseg; exact hg.rst) hgone)
  · have hcase := tcpStreamInput_cases e.now e.conn g
    simp only [Streaming, step]
    generalize tcpStreamInput e.now e.conn g = r at hcase ⊢
    cases hcase with
    | reset hrst => cases hg.rst.symm.trans hrst
    | ignored => exact .inr ⟨hopen, hinv⟩
    | synAck hst | simultaneous hst => exact absurd hst hopen.1
    | handshake _ hst => exact absurd hst hopen.2
    | lingering ack hst => exact .inl (.inr hst)
    | data =>
      have hdata : (streamData e.now e.conn g).1 = finishClose e.now (acceptAck e.conn g) := by
        simp [streamData, acceptData, acceptFin, hg.payload, hg.fin]
      rw [hdata]
      unfold finishClose acceptAck
      repeat' split
      all_goals exact .inr ⟨by simp_all, hinv.of_eq rfl rfl rfl rfl rfl⟩

/-- The segments that carry data have no flags but PSH and ACK. -/
def DataFlags (sent : List Packet) : Prop :=
  ∀ p ∈ sent, p.payload ≠ [] → p.flags = tcpFlagPsh ||| tcpFlagAck

lemma DataFlags.step (e : Endpoint) (a : Act) (h : DataFlags e.sent) :
    DataFlags (e.step a).sent := by
  have hmore : ∀ {e' : Endpoint} {out}, e'.sent = e.sent ++ out → DataFlags out →
    DataFlags e'.sent := by
    intro e' out hsent hout
    rw [hsent]
    exact forall_mem_append.2 ⟨h, hout⟩
  cases a with
  | segment g =>
    exact hmore rfl fun p hp hne => absurd (tcpStreamInput_out e.now e.conn g p hp) hne
  | recv len t0 wait =>
    simp only [Endpoint.step, recv]
    split
    · exact h
    · split
      · exact h
      · next hdone => exact hmore rfl fun p hp hne => absurd (tcpRecvStep_out hdone p hp) hne
  | sendRound =>
    simp only [Endpoint.step, sendRound]
    split
    · exact h
    · next call _ =>
      obtain ⟨data, pc⟩ := call
      have hcase := tcpSendStep_cases e.now e.conn data pc
      generalize tcpSendStep e.now e.conn ⟨data, pc⟩ = r at hcase ⊢
      refine @hmore _ r.out (by split <;> rfl) fun p hp _ => ?_
      cases hcase <;> simp_all [tcpTxSeq]
  | close =>
    simp only [Endpoint.step, close, tcpCloseStart]
    split_ifs
    all_goals first | exact h | exact hmore rfl (by simp [DataFlags, tcpTx, tcpTxSeq])
  | tick | send | closeRound =>
    simp only [Endpoint.step, send, closeRound]
    repeat' split
    all_goals exact h

/-- The data that a connection has sent is cut from its stream. -/
lemma cutFrom_stream (hinv : SendInv iss e) (hflags : DataFlags e.sent) {p : Packet}
    (hp : p ∈ e.sent) (hne : p.payload ≠ []) : p.segment.CutFrom e.stream iss := by
  have hhas : ∀ b, p.segment.has b = ((tcpFlagPsh ||| tcpFlagAck) &&& b != 0) := by
    intro b
    rw [← hflags p hp hne]
    rfl
  obtain ⟨o, hseq, hpre⟩ := hinv.slices p hp hne
  have hlen : o + p.payload.length ≤ e.stream.length := by
    have := hpre.length_le
    have := length_pos_iff.2 hne
    rw [length_drop] at *
    omega
  exact ⟨hhas _, hhas _, o, hseq, hlen, prefix_iff_eq_take.1 hpre, fun hfin => by
    cases hfin.symm.trans (hhas _)⟩

/-- **Delivery in order.** One connection takes any acts in which no `tcp_send` enters after one
that gave up. Another is established with its initial sequence number, and then takes any acts in
which the segments that arrive carry neither data nor FIN nor RST, or are among the data segments of
the first one: in any order, any number of times or never. Until it is freed or in TIME_WAIT, what
its application has read and what waits in its ring is a prefix of the stream of the first one. -/
theorem delivered_in_order {c₀ d₀ : Conn} (hc₀ : c₀.IsNew) (hd₀ : d₀.IsNew) (now now' : ℕ)
    (as : List Act) (has : Along step NoSendAfterGiveUp (opened c₀ now) as) (e : Endpoint)
    (he : e = (opened c₀ now).run as) (hlen : e.stream.length < 2 ^ 32) (hs : List Act) (b : Act)
    (hbefore : ((opened d₀ now').run hs).conn.state ≠ .established) (d : Endpoint)
    (hd : d = ((opened d₀ now').run hs).step b) (hafter : d.conn.state = .established)
    (hirs : d.conn.ackNum = c₀.iss + 1) (bs : List Act)
    (hbs : ∀ b ∈ bs, ∀ g, b = .segment g → g.Quiet ∨ ∃ p ∈ e.sent, p.payload ≠ [] ∧ g = p.segment)
    (f : Endpoint) (hf : f = d.run bs) :
    f.conn.Gone ∨ f.received ++ f.conn.rxBytes <+: e.stream := by
  have hflags : DataFlags e.sent := he ▸ run_invariant DataFlags.step (fun _ hp => by cases hp) as
  have hinv : SendInv c₀.iss e := by
    rw [he]
    refine run_invariant_of_along step_sendInv
      ⟨nofun, Nat.zero_le _, .inl rfl, nofun, fun _ _ => ?_, nofun⟩ has
    cases hc₀ <;> exact (BitVec.add_zero _).symm
  have hfirst : Untouched d.received d.conn := by
    rw [hd] at hafter ⊢
    exact (step_conn _ b).untouched (run_unopened hd₀ now' hs) (.inl hbefore) (by rw [hafter]; rfl)
  have hstream : f.Streaming e.stream c₀.iss := by
    rw [hf]
    refine run_invariant_of_along (fun d b hd hb => ?_)
      (.inr ⟨by simp [hafter], hfirst.rxInv hirs _⟩) (along_of_mem hbs)
    by_cases hquiet : ∃ g, b = .segment g ∧ g.Quiet
    · obtain ⟨g, rfl, hq⟩ := hquiet
      exact step_quiet hd hq
    · refine step_streaming hlen d b hd fun g hg => ?_
      obtain ⟨p, hp, hne, rfl⟩ := (hb g hg).resolve_left fun hq => hquiet ⟨_, hg, hq⟩
      exact cutFrom_stream hinv hflags hp hne
  exact hstream.imp_right fun h => h.2.stream

/-- The byte 65 is sent to a server, to which it comes twice. -/
theorem delivered_in_order_one_byte :
    ∃ e d f : Endpoint, e = sendingClient.run oneByteAccepted ∧
      d = (opened (newAccepted 2 1 ⟨50000, 80, 7, 0, tcpFlagSyn, []⟩ 100) 0).step
        (.segment ⟨50000, 80, 8, 101, tcpFlagAck, []⟩) ∧
      f = d.run (replicate 2 (.segment ⟨50000, 80, 8, 101, tcpFlagPsh ||| tcpFlagAck, [65]⟩)) ∧
      (f.conn.Gone ∨ f.received ++ f.conn.rxBytes <+: e.stream) := by
  refine ⟨_, _, _, rfl, rfl, rfl, delivered_in_order (.client 1 2 50000 80 7) (.accepted 2 1 _ 100)
    0 0 oneByteAccepted (by decide) _ rfl (by decide) [] _ (by decide) _ rfl
      (by decide) (by decide) _
    (fun b hb g hg => .inr ?_) _ rfl⟩
  cases hg.symm.trans (eq_of_mem_replicate hb)
  decide

end Endpoint

end SubOS.Tcp
