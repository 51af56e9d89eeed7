import SubOS.Net.Tcp.Defs

set_option autoImplicit false

/-!
# TCP receive path of one connection

`tcp_stream_input` and `tcp_server_input` of `net/ipv4/tcp.c` as functions on the connection
they are called with. Each returns the connection afterwards and the segments it transmits, in
order. What else they touch is returned as data for the table (`Net`) to apply:
whether a finished handshake goes to `listener_enqueue`, and which payload was handed to a
built-in service.

## Main definitions

* `tcpStreamInput`, `tcpServerInput` — the two functions.

## Main results

* `tcpStreamInput_cases`, `tcpStreamInput_keeps` — what a segment does to a stream.
-/

namespace SubOS.Tcp

/-! ## The stream state machine -/

/-- Advance the send window, ignoring anything that acknowledges more than has been sent. -/
def acceptAck (c : Conn) (g : Segment) : Conn :=
  if g.has tcpFlagAck && seqGt g.ack c.sndUna && seqGe c.seqNum g.ack then
    { c with sndUna := g.ack }
  else c

/-- Accept in-order data; anything else only earns a duplicate acknowledgement. -/
def acceptData (c : Conn) (g : Segment) : Conn × List Packet :=
  if g.payload ≠ [] ∧ c.peerFin = false then
    let c :=
      if g.seq = c.ackNum then
        let p := rxAppend c g.payload
        { p.1 with ackNum := p.1.ackNum + BitVec.ofNat 32 p.2 }
      else c
    (c, [tcpTx c tcpFlagAck []])
  else (c, [])

/-- Accept a FIN once every byte before it has been taken. -/
def acceptFin (now : ℕ) (c : Conn) (g : Segment) : Conn × List Packet :=
  if g.has tcpFlagFin ∧ c.peerFin = false ∧ c.ackNum = g.seq + g.len then
    let c := { c with ackNum := c.ackNum + 1, peerFin := true }
    let out := [tcpTx c tcpFlagAck []]
    match c.state with
    | .established => ({ c with state := .closeWait }, out)
    | .finWait1 => ({ c with state := .closing }, out)
    | .finWait2 => ({ c with state := .timeWait, closedAt := now }, out)
    | _ => (c, out)
  else (c, [])

/-- Our own FIN is acknowledged once `snd_una` reaches `seq_num`. -/
def finishClose (now : ℕ) (c : Conn) : Conn :=
  if c.sndUna = c.seqNum then
    match c.state with
    | .finWait1 => { c with state := .finWait2 }
    | .closing => { c with state := .timeWait, closedAt := now }
    | .lastAck => { c with state := .closed }
    | _ => c
  else c

/-- `tcp_stream_input` from ESTABLISHED on. -/
def streamData (now : ℕ) (c : Conn) (g : Segment) : Conn × List Packet :=
  let d := acceptData (acceptAck c g) g
  let f := acceptFin now d.1 g
  (finishClose now f.1, d.2 ++ f.2)

/-- What one call of `tcp_stream_input` does: the connection afterwards, the segments sent, and
whether the connection is handed to `listener_enqueue`. -/
structure StreamStep where
  conn : Conn
  out : List Packet
  enqueue : Bool

def tcpStreamInput (now : ℕ) (c : Conn) (g : Segment) : StreamStep :=
  if g.has tcpFlagRst then ⟨{ c with reset := true, state := .closed }, [], false⟩
  else
    match c.state with
    | .synSent =>
      if g.has tcpFlagSyn && g.has tcpFlagAck then
        if g.ack ≠ c.iss + 1 then ⟨c, [], false⟩
        else
          let c := { c with sndUna := g.ack, ackNum := g.seq + 1, state := .established }
          ⟨c, [tcpTx c tcpFlagAck []], false⟩
      else if g.has tcpFlagSyn then
        -- simultaneous open: both ends sent a SYN at once
        let c := { c with ackNum := g.seq + 1, state := .synRcvd }
        ⟨c, [tcpTxSeq c c.iss (tcpFlagSyn ||| tcpFlagAck) []], false⟩
      else ⟨c, [], false⟩
    | .synRcvd =>
      if g.has tcpFlagAck && seqGe g.ack (c.iss + 1) then
        ⟨{ c with sndUna := g.ack, state := .established }, [], c.role == .accepted⟩
      else ⟨c, [], false⟩
    | .closed => ⟨c, [], false⟩
    | .timeWait =>
      if g.has tcpFlagFin then
        let c := { c with
          ackNum := if g.seq = c.ackNum then c.ackNum + 1 else c.ackNum
          peerFin := true }
        ⟨c, [tcpTx c tcpFlagAck []], false⟩
      else ⟨c, [], false⟩
    | _ =>
      let d := streamData now c g
      ⟨d.1, d.2, false⟩

/-! ### What a segment cannot change -/

/-- `c'` has the addresses, the owner and the send position of `c`. -/
structure Conn.Keeps (c c' : Conn) : Prop where
  localIp : c'.localIp = c.localIp
  remoteIp : c'.remoteIp = c.remoteIp
  localPort : c'.localPort = c.localPort
  remotePort : c'.remotePort = c.remotePort
  inUse : c'.inUse = c.inUse
  role : c'.role = c.role
  iss : c'.iss = c.iss
  seqNum : c'.seqNum = c.seqNum

lemma Conn.Keeps.refl (c : Conn) : c.Keeps c := ⟨rfl, rfl, rfl, rfl, rfl, rfl, rfl, rfl⟩

lemma Conn.Keeps.trans {c c' c'' : Conn} (h : c.Keeps c') (h' : c'.Keeps c'') : c.Keeps c'' :=
  ⟨h'.1.trans h.1, h'.2.trans h.2, h'.3.trans h.3, h'.4.trans h.4, h'.5.trans h.5,
    h'.6.trans h.6, h'.7.trans h.7, h'.8.trans h.8⟩

lemma rxAppend_fst (c : Conn) (data : List UInt8) :
    ∃ buf count, (rxAppend c data).1 = { c with rxBuf := buf, rxCount := count } := by
  unfold rxAppend
  split
  · exact ⟨_, _, rfl⟩
  · exact ⟨_, _, rfl⟩

lemma acceptAck_keeps (c : Conn) (g : Segment) : c.Keeps (acceptAck c g) := by
  unfold acceptAck
  split <;> constructor <;> rfl

lemma acceptData_fst (c : Conn) (g : Segment) : ∃ buf count ack,
    (acceptData c g).1 = { c with rxBuf := buf, rxCount := count, ackNum := ack } := by
  simp only [acceptData]
  split_ifs
  · obtain ⟨buf, count, h⟩ := rxAppend_fst c g.payload
    exact ⟨buf, count, _, by rw [h]⟩
  · exact ⟨_, _, _, rfl⟩
  · exact ⟨_, _, _, rfl⟩

lemma acceptData_keeps (c : Conn) (g : Segment) : c.Keeps (acceptData c g).1 := by
  obtain ⟨buf, count, ack, h⟩ := acceptData_fst c g
  rw [h]
  constructor <;> rfl

section

variable (now : ℕ)

section

variable (c : Conn)

section

variable (g : Segment)

lemma acceptFin_keeps : c.Keeps (acceptFin now c g).1 := by
  unfold acceptFin
  split
  · dsimp only
    split <;> constructor <;> rfl
  · exact .refl _

lemma finishClose_keeps : c.Keeps (finishClose now c) := by
  unfold finishClose
  split
  · split <;> constructor <;> rfl
  · exact .refl _

lemma streamData_keeps : c.Keeps (streamData now c g).1 :=
  (acceptAck_keeps c g).trans <| (acceptData_keeps _ g).trans <| (acceptFin_keeps now _ g).trans
    (finishClose_keeps now _)

/-! ### What a segment can do -/

/-- The states in which `tcp_stream_input` takes acknowledgements, data and FIN. -/
def State.takesData : State → Bool
  | .synSent | .synRcvd | .closed | .timeWait => false
  | _ => true

/-- The outcomes of `tcp_stream_input`. -/
inductive StreamCase (now : ℕ) (c : Conn) (g : Segment) : StreamStep → Prop
  /-- A RST closes the connection at once. -/
  | reset : g.has tcpFlagRst = true →
      StreamCase now c g ⟨{ c with reset := true, state := .closed }, [], false⟩
  /-- The segment is ignored. -/
  | ignored : StreamCase now c g ⟨c, [], false⟩
  /-- A SYN-ACK completes our handshake. -/
  | synAck : c.state = .synSent → g.ack = c.iss + 1 →
      StreamCase now c g
        ⟨{ c with sndUna := g.ack, ackNum := g.seq + 1, state := .established },
          [tcpTx { c with sndUna := g.ack, ackNum := g.seq + 1, state := .established }
            tcpFlagAck []], false⟩
  /-- A SYN crosses ours. -/
  | simultaneous : c.state = .synSent →
      StreamCase now c g ⟨{ c with ackNum := g.seq + 1, state := .synRcvd },
        [tcpTxSeq { c with ackNum := g.seq + 1, state := .synRcvd } c.iss
          (tcpFlagSyn ||| tcpFlagAck) []], false⟩
  /-- An ACK completes the peer's handshake. -/
  | handshake : g.has tcpFlagRst = false → c.state = .synRcvd → g.has tcpFlagAck = true →
      seqGe g.ack (c.iss + 1) = true →
      StreamCase now c g ⟨{ c with sndUna := g.ack, state := .established }, [],
        c.role == .accepted⟩
  /-- A lingering connection acknowledges the peer's FIN. -/
  | lingering (ack : Seq) : c.state = .timeWait →
      StreamCase now c g ⟨{ c with ackNum := ack, peerFin := true },
        [tcpTx { c with ackNum := ack, peerFin := true } tcpFlagAck []], false⟩
  /-- The connection carries data. -/
  | data : g.has tcpFlagRst = false → c.state.takesData = true →
      StreamCase now c g ⟨(streamData now c g).1, (streamData now c g).2, false⟩

/-- The moves between the states that take data: the peer's FIN, and the acknowledgement of
ours. -/
inductive State.Advance : State → State → Prop
  | peerClosed : Advance .established .closeWait
  | bothClosing : Advance .finWait1 .closing
  | peerDone : Advance .finWait2 .timeWait
  | finAcked : Advance .finWait1 .finWait2
  | closed : Advance .closing .timeWait
  | lastAcked : Advance .lastAck .closed

lemma acceptFin_advance :
    Relation.ReflTransGen State.Advance c.state (acceptFin now c g).1.state := by
  unfold acceptFin
  split
  · dsimp only
    split
    · next hst => rw [hst]; exact .single .peerClosed
    · next hst => rw [hst]; exact .single .bothClosing
    · next hst => rw [hst]; exact .single .peerDone
    · exact .refl
  · exact .refl

lemma finishClose_advance :
    Relation.ReflTransGen State.Advance c.state (finishClose now c).state := by
  unfold finishClose
  split
  · split
    · next hst => rw [hst]; exact .single .finAcked
    · next hst => rw [hst]; exact .single .closed
    · next hst => rw [hst]; exact .single .lastAcked
    · exact .refl
  · exact .refl

lemma streamData_advance :
    Relation.ReflTransGen State.Advance c.state (streamData now c g).1.state := by
  have hack : (acceptAck c g).state = c.state := by
    unfold acceptAck
    split <;> rfl
  obtain ⟨buf, count, ack, hdata⟩ := acceptData_fst (acceptAck c g) g
  have hsame : (acceptData (acceptAck c g) g).1.state = c.state := by rw [hdata, ← hack]
  have hfin := acceptFin_advance now (acceptData (acceptAck c g) g).1 g
  rw [hsame] at hfin
  exact hfin.trans (finishClose_advance now _)

theorem tcpStreamInput_cases : StreamCase now c g (tcpStreamInput now c g) := by
  by_cases hrst : g.has tcpFlagRst = true
  · rw [tcpStreamInput, if_pos hrst]
    exact .reset hrst
  rw [tcpStreamInput, if_neg hrst]
  rw [Bool.not_eq_true] at hrst
  split
  · next hst =>
    split
    · split
      · exact .ignored
      · next hack => exact .synAck hst (not_not.1 hack)
    · split
      · exact .simultaneous hst
      · exact .ignored
  · next hst =>
    split
    · next hack =>
      rw [Bool.and_eq_true] at hack
      exact .handshake hrst hst hack.1 hack.2
    · exact .ignored
  · exact .ignored
  · next hst =>
    split
    · exact .lingering _ hst
    · exact .ignored
  · exact .data hrst (by cases hst : c.state <;> simp_all [State.takesData])

/-- **No segment changes the addresses, the owner or the send position of a stream.** -/
theorem tcpStreamInput_keeps : c.Keeps (tcpStreamInput now c g).conn := by
  have h := tcpStreamInput_cases now c g
  generalize tcpStreamInput now c g = r at h ⊢
  cases h with
  | ignored => exact .refl c
  | data => exact streamData_keeps now c g
  | _ => constructor <;> rfl

/-- 1 as long as our FIN has not been sent, 0 afterwards. -/
def State.finLeft : State → ℕ
  | .finWait1 | .finWait2 | .closing | .lastAck | .timeWait | .closed => 0
  | _ => 1

lemma tcpStreamInput_finLeft : (tcpStreamInput now c g).conn.state.finLeft ≤ c.state.finLeft := by
  have h := tcpStreamInput_cases now c g
  generalize tcpStreamInput now c g = r at h ⊢
  cases h with
  | reset => exact Nat.zero_le _
  | ignored | lingering => exact le_rfl
  | synAck hst | simultaneous hst | handshake _ hst => simp [State.finLeft, hst]
  | data =>
    have hadv := streamData_advance now c g
    generalize (streamData now c g).1.state = st at hadv ⊢
    induction hadv with
    | refl => exact le_rfl
    | tail _ h ih => exact le_trans (by cases h <;> decide) ih

lemma tcpStreamInput_out : ∀ p ∈ (tcpStreamInput now c g).out, p.payload = [] := by
  have h := tcpStreamInput_cases now c g
  generalize tcpStreamInput now c g = r at h ⊢
  cases h with
  | reset | ignored | handshake => simp
  | synAck | simultaneous | lingering => simp [tcpTx, tcpTxSeq]
  | data =>
    have hdata : ∀ p ∈ (acceptData (acceptAck c g) g).2, p.payload = [] := by
      unfold acceptData
      split
      · simp [tcpTx, tcpTxSeq]
      · simp
    have hfin : ∀ p ∈ (acceptFin now (acceptData (acceptAck c g) g).1 g).2, p.payload = [] := by
      unfold acceptFin
      split
      · dsimp only
        split <;> simp [tcpTx, tcpTxSeq]
      · simp
    exact fun p hp => (List.mem_append.1 hp).elim (hdata p) (hfin p)

end

end

end

/-! ## The server state machine -/

/-- What one call of `tcp_receive` obtains from outside `tcp.c`: the interface address, the
state of the two built-in services and the bytes they answer with (none when they return a
length that is not positive), the next pseudo-random number and whether `kzalloc` succeeds. -/
structure RxEnv where
  localIp : UInt32
  sshdGetPort : UInt16
  sshdIsRunning : Bool
  httpdIsRunning : Bool
  sshdProcessPacket : List UInt8 → List UInt8
  httpdHandleRequest : List UInt8 → List UInt8
  prngRand32 : Seq
  kzallocOk : Bool

def RxEnv.isSshPort (env : RxEnv) (port : UInt16) : Bool :=
  port == env.sshdGetPort && env.sshdIsRunning

def RxEnv.isHttpPort (env : RxEnv) (port : UInt16) : Bool := port == 80 && env.httpdIsRunning

def sshBanner : List UInt8 :=
  "SSH-2.0-SUB_OS_SSH_1.0 (Titan-Enterprise)\r\n".toList.map fun ch => UInt8.ofNat ch.toNat

/-- What one call of `tcp_server_input` does: the connection afterwards (cleared when it was
freed), the segments sent, and the payload handed to `sshd_process_packet` or
`httpd_handle_request`. -/
structure ServerStep where
  conn : Conn
  out : List Packet
  served : Option (List UInt8)

/-- The reply of `tcp_server_input` to the sender of a segment. -/
def serverReply (c : Conn) (srcIp : UInt32) (g : Segment) (flags : UInt8)
    (payload : List UInt8) : Packet :=
  tcpSendPacket srcIp g.dstPort g.srcPort c.seqNum c.ackNum flags payload

/-- The end of `tcp_server_input`: hand a payload to the service of its port. -/
def serveRequest (env : RxEnv) (now : ℕ) (c : Conn) (srcIp : UInt32) (g : Segment) :
    ServerStep :=
  if env.isSshPort g.dstPort then
    let resp := env.sshdProcessPacket g.payload
    if resp ≠ [] then
      ⟨{ c with seqNum := c.seqNum + BitVec.ofNat 32 resp.length },
        [serverReply c srcIp g (tcpFlagPsh ||| tcpFlagAck) resp], some g.payload⟩
    else ⟨c, [serverReply c srcIp g tcpFlagAck []], some g.payload⟩
  else if env.isHttpPort g.dstPort then
    let resp := env.httpdHandleRequest g.payload
    if resp ≠ [] then
      let out₁ := serverReply c srcIp g (tcpFlagPsh ||| tcpFlagAck) resp
      let c := { c with seqNum := c.seqNum + BitVec.ofNat 32 resp.length }
      -- the response says "Connection: close": send the FIN now and linger
      let out₂ := serverReply c srcIp g (tcpFlagFin ||| tcpFlagAck) []
      ⟨{ c with seqNum := c.seqNum + 1, state := .timeWait, closedAt := now }, [out₁, out₂],
        some g.payload⟩
    else ⟨c, [], some g.payload⟩
  else ⟨c, [], none⟩

def tcpServerInput (env : RxEnv) (now : ℕ) (c : Conn) (srcIp : UInt32) (g : Segment) :
    ServerStep :=
  if g.has tcpFlagSyn then
    let c := { c with state := .synRcvd, ackNum := g.seq + 1, seqNum := 10000 }
    ⟨{ c with seqNum := c.seqNum + 1 },
      [serverReply c srcIp g (tcpFlagSyn ||| tcpFlagAck) []], none⟩
  else if g.has tcpFlagFin then
    let c := { c with ackNum := g.seq + 1 }
    ⟨Conn.zero, [serverReply c srcIp g (tcpFlagAck ||| tcpFlagFin) []], none⟩
  else if g.has tcpFlagRst then ⟨Conn.zero, [], none⟩
  else if c.state = .synRcvd ∧ env.isSshPort g.dstPort ∧ g.payload = [] then
    let c := { c with state := .established }
    ⟨{ c with seqNum := c.seqNum + BitVec.ofNat 32 sshBanner.length },
      [serverReply c srcIp g (tcpFlagPsh ||| tcpFlagAck) sshBanner], none⟩
  else
    let c := { c with state := .established }
    if g.payload = [] then ⟨c, [], none⟩
    else serveRequest env now { c with ackNum := g.seq + g.len } srcIp g

/-- Serving a request changes the state of the connection to TIME_WAIT, if at all. -/
lemma serveRequest_conn (env : RxEnv) (now : ℕ) (c : Conn) (srcIp : UInt32) (g : Segment) :
    ∃ state seq closedAt, (state = c.state ∨ state = .timeWait) ∧
      (serveRequest env now c srcIp g).conn =
        { c with state := state, seqNum := seq, closedAt := closedAt } := by
  unfold serveRequest
  split
  · dsimp only
    split
    · exact ⟨_, _, _, .inl rfl, rfl⟩
    · exact ⟨_, _, _, .inl rfl, rfl⟩
  · split
    · dsimp only
      split
      · exact ⟨_, _, _, .inr rfl, rfl⟩
      · exact ⟨_, _, _, .inl rfl, rfl⟩
    · exact ⟨_, _, _, .inl rfl, rfl⟩

/-- The server state machine frees the connection, or changes its state and its numbers. -/
lemma tcpServerInput_conn (env : RxEnv) (now : ℕ) (c : Conn) (srcIp : UInt32) (g : Segment) :
    (tcpServerInput env now c srcIp g).conn = .zero ∨
      ∃ state seq ack closedAt, state ≠ .closed ∧ (tcpServerInput env now c srcIp g).conn =
        { c with state := state, seqNum := seq, ackNum := ack, closedAt := closedAt } := by
  unfold tcpServerInput
  split
  · exact .inr ⟨.synRcvd, _, _, _, nofun, rfl⟩
  split
  · exact .inl rfl
  split
  · exact .inl rfl
  split
  · exact .inr ⟨.established, _, _, _, nofun, rfl⟩
  split
  · exact .inr ⟨.established, _, _, _, nofun, rfl⟩
  · obtain ⟨st, seq, closedAt, hst, hc⟩ := serveRequest_conn env now
      { c with state := .established, ackNum := g.seq + g.len } srcIp g
    refine .inr ⟨st, seq, _, closedAt, ?_, hc⟩
    rcases hst with rfl | rfl <;> nofun

end SubOS.Tcp
