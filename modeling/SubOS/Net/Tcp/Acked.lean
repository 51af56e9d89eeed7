import SubOS.Net.Tcp.SlotStep

set_option autoImplicit false

/-!
# What a connection believes to be acknowledged

A stream connection knows its first sequence number `iss`, the oldest one not yet acknowledged
`snd_una` and the next one to send `seq_num`. Seen from `iss`, the second should never come after
the third. In SYN_RCVD an acknowledgement is only compared with `iss + 1` from below, and can
acknowledge what was never sent.

## Main definitions

* `Conn.AckedWithinSent`, `NoOverAck` — the property, and the condition on the segments.

## Main results

* `ackedWithinSent_run`, `overAck_breaks_order` — the property with the condition, and without.
-/

namespace SubOS.Tcp

open SerialNumber EventRun Conn State

/-- Going forward from `iss`, `snd_una` comes no later than `seq_num`. -/
def Conn.AckedWithinSent (c : Conn) : Prop := dist c.iss c.sndUna ≤ dist c.iss c.seqNum
  deriving Decidable

/-- The segment reaches a stream connection in SYN_RCVD with an acknowledgement that the code
accepts there although it lies beyond what was sent. -/
def overAcks (c : Conn) (g : Segment) : Bool :=
  c.role != .service && c.state == .synRcvd && !g.has tcpFlagRst && g.has tcpFlagAck &&
    seqGe g.ack (c.iss + 1) && !seqGe c.seqNum g.ack

/-- The event gives no connection such a segment. -/
def NoOverAck (s : Net) (e : Event) : Prop :=
  ∀ p ∈ deliveredTo s e, overAcks (s.conns p.1) p.2 = false
  deriving Decidable

/-! ## The invariant -/

/-- The send window of a stream connection when `sent` payload bytes were sent in all: the SYN
and the FIN take one more sequence number each. -/
structure AckInv (sent : ℕ) (c : Conn) : Prop where
  una : c.AckedWithinSent
  syn : 1 ≤ dist c.iss c.seqNum
  len : dist c.iss c.seqNum + c.state.finLeft ≤ sent + 2

variable {sent : ℕ} {c c' : Conn}

lemma AckInv.mono {sent' : ℕ} (h : AckInv sent c) (hle : sent ≤ sent') : AckInv sent' c :=
  ⟨h.una, h.syn, h.len.trans (by omega)⟩

lemma AckInv.of_eq (h : AckInv sent c) (hiss : c'.iss = c.iss) (huna : c'.sndUna = c.sndUna)
    (hseq : c'.seqNum = c.seqNum) (hst : c'.state.finLeft ≤ c.state.finLeft) : AckInv sent c' := by
  obtain ⟨h₁, h₂, h₃⟩ := h
  refine ⟨?_, ?_, ?_⟩
  · rw [AckedWithinSent, hiss, huna, hseq]; exact h₁
  · rw [hiss, hseq]; exact h₂
  · rw [hiss, hseq]; omega

lemma AckInv.of_open (sent : ℕ) (hseq : c.seqNum = c.iss + 1) (huna : c.sndUna = c.iss)
    (hst : c.state.finLeft ≤ 1) : AckInv sent c := by
  have hd : dist c.iss c.seqNum = 1 := by
    rw [hseq]
    exact dist_add_ofNat c.iss 1
  refine ⟨?_, hd.ge, by omega⟩
  rw [AckedWithinSent, huna, dist_self]
  exact Nat.zero_le _

lemma AckInv.of_send {sent' n : ℕ} (h : AckInv sent c) (hiss : c'.iss = c.iss)
    (huna : c'.sndUna = c.sndUna) (hseq : c'.seqNum = c.seqNum + BitVec.ofNat 32 n)
    (hlen : dist c.iss c.seqNum + n + c'.state.finLeft ≤ sent' + 2) (hsent : sent' < 2 ^ 31) :
    AckInv sent' c' := by
  have hn : dist c.seqNum c'.seqNum = n := by
    rw [hseq, dist_add_ofNat, Nat.mod_eq_of_lt (by omega)]
  have hd : dist c.iss c'.seqNum = dist c.iss c.seqNum + n := by
    rw [dist_add_dist (b := c.seqNum) (by omega), hn]
  obtain ⟨h₁, h₂, -⟩ := h
  rw [AckedWithinSent] at h₁
  refine ⟨?_, ?_, ?_⟩
  · rw [AckedWithinSent, hiss, huna]; omega
  · rw [hiss]; omega
  · rw [hiss]; omega

lemma AckInv.of_ack (h : AckInv sent c) (hiss : c'.iss = c.iss)
    (hseq : c'.seqNum = c.seqNum) (hst : c'.state.finLeft ≤ c.state.finLeft)
    (hack : dist c.iss c'.sndUna ≤ dist c.iss c.seqNum) : AckInv sent c' := by
  obtain ⟨-, h₂, h₃⟩ := h
  refine ⟨?_, ?_, ?_⟩
  · rw [AckedWithinSent, hiss, hseq]; exact hack
  · rw [hiss, hseq]; exact h₂
  · rw [hiss, hseq]; omega

/-! ## One segment -/

lemma acceptAck_ackInv (h : AckInv sent c) (g : Segment) : AckInv sent (acceptAck c g) := by
  unfold acceptAck
  split
  · next hack =>
    simp only [Bool.and_eq_true] at hack
    exact h.of_ack rfl rfl le_rfl (dist_le_of_ge_of_ge h.una (ge_of_gt hack.1.2) hack.2).2
  · exact h

lemma acceptFin_ackInv (h : AckInv sent c) (now : ℕ) (g : Segment) :
    AckInv sent (acceptFin now c g).1 := by
  unfold acceptFin
  split
  · dsimp only
    split <;> next hst => exact h.of_eq rfl rfl rfl (by simp [finLeft, hst])
  · exact h

lemma finishClose_ackInv (h : AckInv sent c) (now : ℕ) : AckInv sent (finishClose now c) := by
  unfold finishClose
  split
  · split <;> next hst => exact h.of_eq rfl rfl rfl (by simp [finLeft, hst])
  · exact h

/-- **A segment keeps the send window**, unless it over-acknowledges in SYN_RCVD.

**Proof sketch.** By the outcome of `tcp_stream_input`. In SYN_SENT the acknowledgement is
`iss + 1`, one step from `iss`; in SYN_RCVD it lies between `iss + 1` and `seq_num`, below by
the code's check and above by hypothesis; in the data states the code checks both sides. -/
theorem tcpStreamInput_ackInv {now : ℕ} {g : Segment} (h : AckInv sent c)
    (hrole : c.role ≠ .service) (hg : overAcks c g = false) :
    AckInv sent (tcpStreamInput now c g).conn := by
  have hone : dist c.iss (c.iss + 1) = 1 := dist_add_ofNat c.iss 1
  have hcase := tcpStreamInput_cases now c g
  generalize tcpStreamInput now c g = r at hcase ⊢
  cases hcase with
  | reset => exact h.of_eq rfl rfl rfl (Nat.zero_le _)
  | ignored => exact h
  | synAck hst hack =>
    refine h.of_ack rfl rfl (by simp [finLeft, hst]) ?_
    rw [hack, hone]
    exact h.syn
  | simultaneous hst => exact h.of_eq rfl rfl rfl (by simp [finLeft, hst])
  | handshake hrst hst hack hge =>
    refine h.of_ack rfl rfl (by simp [finLeft, hst]) ?_
    have hle : seqGe c.seqNum g.ack = true := by
      simp only [overAcks, hst, hrst, hack, hge] at hg
      simpa [hrole] using hg
    exact (dist_le_of_ge_of_ge (by rw [hone]; exact h.syn) hge hle).2
  | lingering ack hst => exact h.of_eq rfl rfl rfl le_rfl
  | data =>
    obtain ⟨buf, count, ack, hd⟩ := acceptData_fst (acceptAck c g) g
    have hdata : AckInv sent (acceptData (acceptAck c g) g).1 := by
      rw [hd]
      exact (acceptAck_ackInv h g).of_eq rfl rfl rfl le_rfl
    exact finishClose_ackInv (acceptFin_ackInv hdata now g) now

/-! ## One event, every run -/

/-- Every stream connection in use satisfies the invariant, as long as fewer than `2^31` bytes
were sent. -/
def AllAckInv (s : Net) : Prop :=
  s.bytesSent < 2 ^ 31 → ∀ i, (s.conns i).inUse = true → (s.conns i).IsStream →
    AckInv s.bytesSent (s.conns i)

/-- One event keeps the invariant of every connection.

**Proof sketch.** By what the event leaves in the slot (`step_slot`). An opened connection
starts with the invariant; payload bytes, counted by the event, and a FIN move `seq_num`
forward; segments are `tcpStreamInput_ackInv`; everything else leaves the three numbers. -/
lemma step_allAckInv (s : Net) (e : Event) (h : AllAckInv s) (he : NoOverAck s e) :
    AllAckInv (step s e) := by
  intro hsent i huse hstream
  obtain ⟨hslot, hmono⟩ := step_slot s e i
  have hinv : (s.conns i).inUse = true → (s.conns i).IsStream → AckInv s.bytesSent (s.conns i) :=
    h (by omega) i
  generalize (step s e).conns i = c at hslot huse hstream ⊢
  cases hslot with
  | same => exact (hinv huse hstream).mono hmono
  | freed => cases huse
  | service hrole => exact absurd hrole hstream
  | client | accepted => exact .of_open _ rfl rfl le_rfl
  | input g hg =>
    have hk := tcpStreamInput_keeps s.ticks (s.conns i) g
    have hrole : (s.conns i).IsStream := by rwa [IsStream, ← hk.role]
    have hi := hinv (hk.inUse ▸ huse) hrole
    exact (tcpStreamInput_ackInv hi hrole (he _ hg)).mono hmono
  | publish n hn =>
    have hi := hinv huse hstream
    have hlen := hi.len
    exact hi.of_send rfl rfl rfl (by dsimp only; omega) hsent
  | recv => exact .mono (.of_eq (hinv huse hstream) rfl rfl rfl le_rfl) hmono
  | closeStart next hst hnext =>
    have hi := hinv huse hstream
    have hlen := hi.len
    have hold : (s.conns i).state.finLeft = 1 := by rcases hst with h | h <;> rw [h] <;> rfl
    have hnew : next.finLeft = 0 := by rcases hnext with rfl | rfl <;> rfl
    exact hi.of_send rfl rfl rfl (by dsimp only; omega) hsent
  | lingering => exact .mono (.of_eq (hinv huse hstream) rfl rfl rfl (Nat.zero_le _)) hmono

/-- **Without over-acknowledgement, no connection believes that more was acknowledged than it
has sent.** After every run in which no ACK reaches a stream connection in SYN_RCVD with a
number beyond its `seq_num`, and in which fewer than `2^31` bytes were sent, every stream
connection in use has `iss`, `snd_una`, `seq_num` in this order on the circle of sequence
numbers; where the connection has sent less than half a circle, the code's own comparison
`seq_ge` says the same.

**Proof sketch.** `step_allAckInv` carries the invariant along the run. The distance from `iss`
to `seq_num` is at most the bytes sent plus SYN and FIN, so it does not wrap. -/
theorem ackedWithinSent_run (es : List Event) (hes : Along step NoOverAck tcpInit es)
    (hsent : (runFrom es).bytesSent < 2 ^ 31) (i : Slot)
    (huse : ((runFrom es).conns i).inUse = true) (hstream : ((runFrom es).conns i).IsStream) :
    ((runFrom es).conns i).AckedWithinSent ∧
      ((runFrom es).bytesSent + 2 < 2 ^ 31 →
        seqGe ((runFrom es).conns i).sndUna ((runFrom es).conns i).iss = true ∧
        seqGe ((runFrom es).conns i).seqNum ((runFrom es).conns i).sndUna = true) := by
  have h0 : AllAckInv tcpInit := fun _ i huse _ => by cases huse
  have hinv : AckInv (runFrom es).bytesSent ((runFrom es).conns i) :=
    run_invariant_of_along step_allAckInv h0 hes hsent i huse hstream
  have hlen := hinv.len
  have huna := hinv.una
  refine ⟨huna, fun hsmall => ⟨?_, ?_⟩⟩
  · rw [AckedWithinSent] at huna
    rw [ge_iff]
    omega
  · have := dist_split huna
    rw [ge_iff]
    omega

/-! ## A run that over-acknowledges -/

/-- A program listens on port 5000; a peer sends a SYN and then an ACK with the given number. -/
def openWithAck (ack : List UInt8) : List Event :=
  [.call 0 (.listen 5000 1),
    .rx quietEnv (bareSegment [0, 0, 0, 100] [0, 0, 0, 0] tcpFlagSyn) 9,
    .rx quietEnv (bareSegment [0, 0, 0, 101] ack tcpFlagAck) 9]

set_option maxRecDepth 4000 in
/-- The peer acknowledges the SYN-ACK at 7 by 8, and the order is 7, 8, 8. -/
theorem ackedWithinSent_run_handshake :
    ((runFrom (openWithAck [0, 0, 0, 8])).conns 0).state = .established ∧
      ((runFrom (openWithAck [0, 0, 0, 8])).conns 0).AckedWithinSent :=
  ⟨by decide, (ackedWithinSent_run (openWithAck [0, 0, 0, 8]) (by decide) (by decide) 0
    (by decide) (by decide)).1⟩

set_option maxRecDepth 4000 in
/-- The peer acknowledges 1032 instead: the connection is established and believes that 1025
sequence numbers were acknowledged, where it has sent one. -/
theorem overAck_breaks_order :
    (runFrom (openWithAck [0, 0, 4, 8])).bytesSent = 0 ∧
      ((runFrom (openWithAck [0, 0, 4, 8])).conns 0).inUse = true ∧
      ((runFrom (openWithAck [0, 0, 4, 8])).conns 0).IsStream ∧
      ((runFrom (openWithAck [0, 0, 4, 8])).conns 0).iss = 7 ∧
      ((runFrom (openWithAck [0, 0, 4, 8])).conns 0).sndUna = 1032 ∧
      ((runFrom (openWithAck [0, 0, 4, 8])).conns 0).seqNum = 8 ∧
      ¬ ((runFrom (openWithAck [0, 0, 4, 8])).conns 0).AckedWithinSent := by
  decide

end SubOS.Tcp
