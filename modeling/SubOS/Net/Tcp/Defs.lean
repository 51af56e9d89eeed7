import SubOS.Lib.RingBuffer
import SubOS.Lib.SerialNumber

set_option autoImplicit false

/-!
# TCP connections: data and calls

The data of `net/ipv4/tcp.c` and `include/net/tcp.h`, with the small functions that only read or
build them, and the blocking calls as functions on the connection they work on, cut at the heads of
their loops. A call that reaches `net_wait` is suspended with its local variables; segments, other
calls and the timer run in between.

## Main definitions

* `Conn`, `Segment`, `Packet` — a connection, a segment received, and one transmitted.
* `tcpSendStep`, `tcpRecvStep`, `closePoll` — a round of `tcp_send`, `tcp_recv` and `tcp_close`.

## Design

Sequence numbers are `uint32_t` and wrap, so they are `BitVec 32`; ring cursors never leave
`[0, 4096]` and tick counts never decrease, so both are natural numbers. The receive buffer
is a pointer to 4096 bytes or `NULL`. The field `timer` of `tcp_conn_t` is never read.
-/

namespace SubOS.Tcp

open UInt16

/-- A `uint32_t` sequence or acknowledgement number. -/
abbrev Seq := BitVec 32

/-! ## Constants -/

def maxTcpConns : ℕ := 64

def tcpMaxListeners : ℕ := 8

def tcpBacklogMax : ℕ := 4

def tcpRxBufSize : ℕ := 4096

def tcpMss : ℕ := 1460

def tcpRtoTicks : ℕ := 50

def tcpMaxRetries : ℕ := 5

def tcpCloseTicks : ℕ := 50

def tcpTimeWaitTicks : ℕ := 200

def tcpSvcTimeWaitTicks : ℕ := 25

def tcpEphemeralLo : ℕ := 49152

def tcpEphemeralHi : ℕ := 65535

instance : NeZero maxTcpConns := ⟨by decide⟩

instance : NeZero tcpMaxListeners := ⟨by decide⟩

instance : NeZero tcpRxBufSize := ⟨by decide⟩

def tcpFlagFin : UInt8 := 0x01

def tcpFlagSyn : UInt8 := 0x02

def tcpFlagRst : UInt8 := 0x04

def tcpFlagPsh : UInt8 := 0x08

def tcpFlagAck : UInt8 := 0x10

/-- `seq_ge`: `(int32_t)(a - b) >= 0`. -/
abbrev seqGe (a b : Seq) : Bool := SerialNumber.ge a b

/-- `seq_gt`: `(int32_t)(a - b) > 0`. -/
abbrev seqGt (a b : Seq) : Bool := SerialNumber.gt a b

/-- `ms_to_ticks`: one tick is 10 ms, and a wait lasts at least one tick. -/
def msToTicks (ms : ℕ) : ℕ := if ms / 10 = 0 then 1 else ms / 10

/-! ## Connections -/

/-- The `TCP_STATE_*` constants. -/
inductive State where
  | closed | listen | synSent | synRcvd | established
  | finWait1 | finWait2 | closeWait | closing | lastAck | timeWait
  deriving DecidableEq, Repr

/-- The `TCP_ROLE_*` constants: which end opened the connection and how it is serviced. -/
inductive Role where
  | service | client | accepted
  deriving DecidableEq, Repr

/-- `tcp_conn_t`. -/
structure Conn where
  localIp : UInt32
  remoteIp : UInt32
  localPort : UInt16
  remotePort : UInt16
  state : State
  /-- Next sequence number we will send. -/
  seqNum : Seq
  /-- Next sequence number we expect to receive. -/
  ackNum : Seq
  inUse : Bool
  role : Role
  /-- Initial send sequence number. -/
  iss : Seq
  /-- Oldest sequence number not yet acknowledged. -/
  sndUna : Seq
  /-- Receive ring, or `NULL`. -/
  rxBuf : Option (Fin tcpRxBufSize → UInt8)
  /-- Read cursor. -/
  rxHead : ℕ
  /-- Bytes available to the reader. -/
  rxCount : ℕ
  /-- Peer sent FIN. -/
  peerFin : Bool
  /-- Peer sent RST. -/
  reset : Bool
  /-- Tick TIME_WAIT began. -/
  closedAt : ℕ

/-- A slot cleared by `memset`, as `conn_free` leaves it. -/
def Conn.zero : Conn where
  localIp := 0
  remoteIp := 0
  localPort := 0
  remotePort := 0
  state := .closed
  seqNum := 0
  ackNum := 0
  inUse := false
  role := .service
  iss := 0
  sndUna := 0
  rxBuf := none
  rxHead := 0
  rxCount := 0
  peerFin := false
  reset := false
  closedAt := 0

/-- A freshly allocated slot, as `alloc_conn` leaves it: cleared but for `in_use`. -/
def Conn.fresh : Conn := { Conn.zero with inUse := true }

/-- The connections that carry a byte stream, role CLIENT or ACCEPTED. -/
def Conn.IsStream (c : Conn) : Prop := c.role ≠ .service
  deriving Decidable

/-- The receive ring of a connection whose buffer is `buf`. -/
def Conn.ring (c : Conn) (buf : Fin tcpRxBufSize → UInt8) : RingBuffer tcpRxBufSize UInt8 :=
  ⟨buf, c.rxHead, c.rxCount⟩

/-- The bytes waiting in the receive ring, oldest first. -/
def Conn.rxBytes (c : Conn) : List UInt8 :=
  match c.rxBuf with
  | none => []
  | some buf => (c.ring buf).contents

/-! ## Segments -/

/-- A received segment after `tcp_receive` has read its header. -/
structure Segment where
  srcPort : UInt16
  dstPort : UInt16
  seq : Seq
  ack : Seq
  flags : UInt8
  payload : List UInt8
  deriving DecidableEq, Repr

/-- `flags & f` is non-zero. -/
def Segment.has (g : Segment) (f : UInt8) : Bool := g.flags &&& f != 0

/-- `payload_len`, as it enters sequence arithmetic. -/
def Segment.len (g : Segment) : Seq := BitVec.ofNat 32 g.payload.length

/-- `ntohs` of two bytes of a header. -/
def ntohs (a b : UInt8) : UInt16 := UInt16.ofNat (a.toNat * 256 + b.toNat)

/-- `ntohl` of four bytes of a header. -/
def ntohl (a b c d : UInt8) : Seq :=
  BitVec.ofNat 32 (((a.toNat * 256 + b.toNat) * 256 + c.toNat) * 256 + d.toNat)

/-- The header checks and field reads at the top of `tcp_receive`: at least the 20 bytes of
`tcp_header_t`, and a data offset that covers them and stays inside the packet. -/
def parseSegment (packet : List UInt8) : Option Segment :=
  match packet with
  | s0 :: s1 :: d0 :: d1 :: q0 :: q1 :: q2 :: q3 :: a0 :: a1 :: a2 :: a3 :: off :: flags ::
      _ :: _ :: _ :: _ :: _ :: _ :: _ =>
    let headerLen := off.toNat / 16 * 4
    if headerLen < 20 || packet.length < headerLen then none
    else some ⟨ntohs s0 s1, ntohs d0 d1, ntohl q0 q1 q2 q3, ntohl a0 a1 a2 a3, flags,
      packet.drop headerLen⟩
  | _ => none

/-- A transmitted segment: the arguments of `tcp_tx_full`. -/
structure Packet where
  dstIp : UInt32
  srcPort : UInt16
  dstPort : UInt16
  seq : Seq
  ack : Seq
  flags : UInt8
  payload : List UInt8
  window : UInt16
  deriving DecidableEq, Repr

/-- `tcp_send_packet`: a segment outside any stream, with the largest window. -/
def tcpSendPacket (dstIp : UInt32) (srcPort dstPort : UInt16) (seq ack : Seq) (flags : UInt8)
    (payload : List UInt8) : Packet :=
  ⟨dstIp, srcPort, dstPort, seq, ack, flags, payload, 65535⟩

/-- `tcp_window`: the free space of the receive ring. -/
def tcpWindow (c : Conn) : UInt16 :=
  match c.rxBuf with
  | none => 65535
  | some _ => UInt16.ofNat tcpRxBufSize - UInt16.ofNat c.rxCount

lemma tcpWindow_toNat {c : Conn} (hbuf : c.rxBuf.isSome = true)
    (hcount : c.rxCount ≤ tcpRxBufSize) :
    (tcpWindow c).toNat = tcpRxBufSize - c.rxCount := by
  obtain ⟨buf, hb⟩ := Option.isSome_iff_exists.1 hbuf
  have hsize : tcpRxBufSize = 4096 := rfl
  have hmod : c.rxCount % 2 ^ 16 = c.rxCount := Nat.mod_eq_of_lt (by omega)
  simp only [tcpWindow, hb]
  have hle : ofNat c.rxCount ≤ ofNat tcpRxBufSize := by
    rw [le_iff_toNat_le, toNat_ofNat', toNat_ofNat', hmod, hsize]
    omega
  rw [UInt16.toNat_sub_of_le _ _ hle, toNat_ofNat', toNat_ofNat', hmod, hsize]

/-- `tcp_tx_seq`: send on a connection at an explicit sequence number. -/
def tcpTxSeq (c : Conn) (seq : Seq) (flags : UInt8) (payload : List UInt8) : Packet :=
  ⟨c.remoteIp, c.localPort, c.remotePort, seq, c.ackNum, flags, payload, tcpWindow c⟩

/-- `tcp_tx`: send on a connection at its current send position. -/
def tcpTx (c : Conn) (flags : UInt8) (payload : List UInt8) : Packet :=
  tcpTxSeq c c.seqNum flags payload

/-! ## The receive ring -/

/-- `rx_append`: store what fits and report how much was taken. -/
def rxAppend (c : Conn) (data : List UInt8) : Conn × ℕ :=
  match c.rxBuf with
  | none => (c, 0)
  | some buf =>
    let p := (c.ring buf).pushMany data
    ({ c with rxBuf := some p.1.buf, rxCount := p.1.count }, p.2)

/-! ## Opening -/

/-- The connection `tcp_connect` has built when it first waits: a SYN was sent at `iss`. -/
def newClient (localIp dstIp : UInt32) (localPort dstPort : UInt16) (iss : Seq) : Conn :=
  { Conn.fresh with
    rxBuf := some fun _ => 0
    localPort := localPort
    localIp := localIp
    remoteIp := dstIp
    remotePort := dstPort
    role := .client
    iss := iss
    seqNum := iss + 1
    sndUna := iss
    ackNum := 0
    state := .synSent }

/-- The connection a SYN to a listening port has built: `alloc_conn_accepted`, and the rest of
that branch of `tcp_receive`. -/
def newAccepted (localIp srcIp : UInt32) (g : Segment) (iss : Seq) : Conn :=
  { Conn.fresh with
    rxBuf := some fun _ => 0
    localIp := localIp
    remoteIp := srcIp
    remotePort := g.srcPort
    localPort := g.dstPort
    role := .accepted
    iss := iss
    seqNum := iss + 1
    sndUna := iss
    ackNum := g.seq + 1
    state := .synRcvd }

/-- The connection `alloc_conn_server` builds. -/
def newService (localIp srcIp : UInt32) (g : Segment) : Conn :=
  { Conn.fresh with
    localIp := localIp
    remoteIp := srcIp
    remotePort := g.srcPort
    localPort := g.dstPort
    role := .service
    state := .closed
    seqNum := 1000
    ackNum := 0 }

/-- What one round of the wait in `tcp_connect` decides. -/
inductive ConnectStep where
  /-- Wait on, with the tick of the last SYN and the segments sent in this round. -/
  | wait (last : ℕ) (out : List Packet)
  /-- Return the connection. -/
  | established
  /-- Free the connection and return `NULL`. -/
  | failed

/-- One round of the wait in `tcp_connect`. -/
def connectPoll (now t0 wait last : ℕ) (c : Conn) : ConnectStep :=
  if now - t0 < wait then
    if c.state = .established then .established
    else if c.reset = true ∨ c.state = .closed then .failed
    else if tcpRtoTicks ≤ now - last then .wait now [tcpTxSeq c c.iss tcpFlagSyn []]
    else .wait last []
  else .failed

/-! ## Sending -/

/-- Where a `tcp_send` in progress is suspended. -/
inductive SendPc where
  /-- At the head of the outer loop, with `sent` bytes acknowledged. -/
  | next (sent : ℕ)
  /-- Waiting for the acknowledgement of the segment `[segSeq, segEnd)` of `chunk` bytes, last
  transmitted at tick `t0`. -/
  | wait (sent chunk : ℕ) (segSeq segEnd : Seq) (tries t0 : ℕ)
  deriving DecidableEq, Repr

/-- A `tcp_send` in progress. -/
structure SendCall where
  data : List UInt8
  pc : SendPc
  deriving DecidableEq, Repr

/-- The result of one round of `tcp_send`: go on, or return. -/
inductive SendNext where
  | more (call : SendCall)
  | done (ret : ℤ)

def SendNext.enters : SendNext → Bool
  | .more _ => true
  | .done _ => false

/-- What one round of `tcp_send` does. -/
structure SendStep where
  conn : Conn
  out : List Packet
  next : SendNext

/-- The checks at the entry of `tcp_send`. -/
def tcpSendStart (c : Conn) (data : List UInt8) : SendNext :=
  if c.inUse = false then .done (-1)
  else if c.state ≠ .established ∧ c.state ≠ .closeWait then .done (-1)
  else if data = [] then .done 0
  else .more ⟨data, .next 0⟩

/-- What `tcp_send` returns when it gives up: the bytes acknowledged so far, or -1. -/
def giveUp (sent : ℕ) : ℤ := if sent = 0 then -1 else sent

/-- The payload of the segment of `chunk` bytes behind the first `sent`. -/
def SendCall.slice (call : SendCall) (sent chunk : ℕ) : List UInt8 :=
  (call.data.drop sent).take chunk

/-- One round of `tcp_send`: the start of a segment, or one look at a segment in flight. -/
def tcpSendStep (now : ℕ) (c : Conn) (call : SendCall) : SendStep :=
  match call.pc with
  | .next sent =>
    if sent < call.data.length then
      let chunk := min (call.data.length - sent) tcpMss
      let segSeq := c.seqNum
      let segEnd := segSeq + BitVec.ofNat 32 chunk
      -- the segment is published before the wait
      let c := { c with seqNum := segEnd }
      ⟨c, [tcpTxSeq c segSeq (tcpFlagPsh ||| tcpFlagAck) (call.slice sent chunk)],
        .more ⟨call.data, .wait sent chunk segSeq segEnd 0 now⟩⟩
    else ⟨c, [], .done sent⟩
  | .wait sent chunk segSeq segEnd tries t0 =>
    if now - t0 < tcpRtoTicks ∧ ¬ (seqGe c.sndUna segEnd = true ∨ c.reset = true) then
      ⟨c, [], .more call⟩
    else if seqGe c.sndUna segEnd then ⟨c, [], .more ⟨call.data, .next (sent + chunk)⟩⟩
    else if c.reset then ⟨c, [], .done (giveUp sent)⟩
    else if tcpMaxRetries ≤ tries + 1 then ⟨c, [], .done (giveUp sent)⟩
    else
      ⟨c, [tcpTxSeq c segSeq (tcpFlagPsh ||| tcpFlagAck) (call.slice sent chunk)],
        .more ⟨call.data, .wait sent chunk segSeq segEnd (tries + 1) now⟩⟩

/-- The payload bytes a round of `tcp_send` puts on new sequence numbers. -/
def SendCall.published (call : SendCall) : ℕ :=
  match call.pc with
  | .next sent => min (call.data.length - sent) tcpMss
  | .wait .. => 0

/-- A round of `tcp_send` publishes bytes on its connection, or leaves it as it was. -/
lemma tcpSendStep_conn (now : ℕ) (c : Conn) (call : SendCall) :
    (tcpSendStep now c call).conn =
      { c with seqNum := c.seqNum + BitVec.ofNat 32 call.published } := by
  obtain ⟨data, pc⟩ := call
  cases pc with
  | next sent =>
    simp only [tcpSendStep, SendCall.published]
    split_ifs with h
    · rfl
    · simp [show data.length - sent = 0 by omega]
  | wait sent chunk segSeq segEnd tries t0 =>
    simp only [tcpSendStep, SendCall.published, BitVec.add_zero]
    split_ifs <;> rfl

/-! ## Receiving -/

/-- What one round of `tcp_recv` does. -/
inductive RecvStep where
  /-- Nothing has arrived: wait on. -/
  | wait
  /-- Return `ret`, having copied `bytes` to the caller. -/
  | done (ret : ℤ) (bytes : List UInt8) (conn : Conn) (out : List Packet)

/-- The first `n` bytes behind the read cursor. -/
def Conn.peek (c : Conn) (n : ℕ) : List UInt8 :=
  match c.rxBuf with
  | none => []
  | some buf => (c.ring buf).peekMany n

/-- Move the read cursor past `n` bytes. -/
def Conn.consume (c : Conn) (n : ℕ) : Conn :=
  { c with rxHead := (c.rxHead + n) % tcpRxBufSize, rxCount := c.rxCount - n }

/-- Copy up to `len` bytes out of the receive ring: the end of `tcp_recv`. -/
def recvCopy (c : Conn) (len : ℕ) : RecvStep :=
  let n := if c.rxCount < len then c.rxCount else len
  let out :=
    if tcpRxBufSize / 2 ≤ c.rxCount ∧ c.state = .established then
      [tcpTx (c.consume n) tcpFlagAck []]
    else []
  .done n (c.peek n) (c.consume n) out

/-- One round of `tcp_recv`, which began at tick `t0` and waits for at most `wait` ticks. -/
def tcpRecvStep (now t0 wait : ℕ) (c : Conn) (len : ℕ) : RecvStep :=
  if c.rxCount = 0 then
    if c.reset then .done (-1) [] c []
    else if c.peerFin then .done 0 [] c []
    else if wait ≤ now - t0 then .done 0 [] c []
    else .wait
  else recvCopy c len

/-- A round of `tcp_recv` that returns has taken some of the bytes in the receive ring. -/
lemma tcpRecvStep_done {now t0 wait len : ℕ} {c c' : Conn} {ret : ℤ} {bytes : List UInt8}
    {out : List Packet} (h : tcpRecvStep now t0 wait c len = .done ret bytes c' out) :
    c' = c ∧ bytes = [] ∨ ∃ n ≤ c.rxCount, c' = c.consume n ∧ bytes = c.peek n := by
  simp only [tcpRecvStep, recvCopy] at h
  split_ifs at h with h₁ h₂ h₃ h₄ h₅ <;> cases h
  · exact .inl ⟨rfl, rfl⟩
  · exact .inl ⟨rfl, rfl⟩
  · exact .inl ⟨rfl, rfl⟩
  all_goals exact .inr ⟨_, by omega, rfl, rfl⟩

lemma tcpRecvStep_out {now t0 wait len : ℕ} {c c' : Conn} {ret : ℤ} {bytes : List UInt8}
    {out : List Packet} (h : tcpRecvStep now t0 wait c len = .done ret bytes c' out) :
    ∀ p ∈ out, p.payload = [] := by
  simp only [tcpRecvStep, recvCopy] at h
  split_ifs at h <;> cases h <;> simp [tcpTx, tcpTxSeq]

/-! ## Closing -/

/-- The end of `tcp_close`, once it no longer waits: linger in TIME_WAIT, or free the slot. -/
def closeFinish (now : ℕ) (c : Conn) : Conn :=
  let c :=
    if c.state = .finWait1 ∨ c.state = .finWait2 ∨ c.state = .closing then
      { c with state := .timeWait }
    else c
  if c.state = .timeWait then { c with rxBuf := none, rxHead := 0, rxCount := 0, closedAt := now }
  else Conn.zero

lemma closeFinish_cases (now : ℕ) (c : Conn) :
    closeFinish now c = .zero ∨
      closeFinish now c =
        { c with
          state := .timeWait, rxBuf := none, rxHead := 0, rxCount := 0, closedAt := now } := by
  unfold closeFinish
  dsimp only
  split_ifs with h₁ h₂ h₂
  · exact .inr rfl
  · exact absurd rfl h₂
  · exact .inr (by rw [← h₂])
  · exact .inl rfl

/-- What `tcp_close` does up to its first wait. -/
inductive CloseStart where
  /-- The FIN was sent: wait for the shutdown. -/
  | wait (conn : Conn) (out : List Packet)
  /-- Return, leaving this connection behind. -/
  | done (conn : Conn)

/-- The start of `tcp_close`. -/
def tcpCloseStart (now : ℕ) (c : Conn) : CloseStart :=
  if c.inUse = false then .done c
  else if c.state = .established ∨ c.state = .closeWait then
    let next := if c.state = .closeWait then State.lastAck else State.finWait1
    .wait { c with seqNum := c.seqNum + 1, state := next }
      [tcpTx c (tcpFlagFin ||| tcpFlagAck) []]
  else .done (closeFinish now c)

/-- The wait of `tcp_close` goes on: not yet timed out, reset or shut down. -/
def closePoll (now t0 : ℕ) (c : Conn) : Bool :=
  decide (now - t0 < tcpCloseTicks) && !c.reset && c.state != .closed && c.state != .timeWait

end SubOS.Tcp
