import SubOS.Lib.EventRun
import SubOS.Net.Tcp.Input

set_option autoImplicit false

/-!
# One stream connection and its application

The life of a single CLIENT or ACCEPTED connection: inbound segments go through
`tcp_stream_input`, and the application that holds the connection calls `tcp_recv`, `tcp_send`
and `tcp_close` on it. The two directions of the byte stream are studied on this machine.

## Main definitions

* `Endpoint.step` — an act of the network or of the application.

## Main results

* `Endpoint.step_conn` — what an act does to the connection.

## Design

Segments and ticks come between any two rounds of a call. The application makes its `tcp_send`
calls one after the other and does not close the connection during one; rounds of any number of
`tcp_recv` calls may come at any time. Four fields record history and are read by no function:
`received`, `accepted`, `abandoned` and `sent`.
-/

namespace SubOS.Tcp

/-- How many bytes of a `tcp_send` in progress have been acknowledged. -/
def SendPc.sent : SendPc → ℕ
  | .next sent => sent
  | .wait sent .. => sent

/-- The bytes of a `tcp_send` in progress that have been acknowledged. -/
def SendCall.acked (call : SendCall) : List UInt8 := call.data.take call.pc.sent

/-- The payload of the segment a `tcp_send` waits for. -/
def SendCall.inflight (call : SendCall) : List UInt8 :=
  match call.pc with
  | .next _ => []
  | .wait sent chunk .. => call.slice sent chunk

/-- A stream connection and what the calls on it have done. -/
structure Endpoint where
  conn : Conn
  /-- `pit_get_ticks()`. -/
  now : ℕ
  /-- The `tcp_send` in progress. -/
  call : Option SendCall
  /-- The tick at which the `tcp_close` in progress began to wait. -/
  closing : Option ℕ
  /-- All bytes `tcp_recv` has returned. -/
  received : List UInt8
  /-- The concatenation of the prefixes that the finished `tcp_send` calls reported as sent. -/
  accepted : List UInt8
  /-- The payloads of the segments at which `tcp_send` calls gave up. -/
  abandoned : List UInt8
  /-- The segments transmitted, oldest first. -/
  sent : List Packet

/-- What can happen to a connection. -/
inductive Act where
  /-- A segment arrives. -/
  | segment (g : Segment)
  /-- The timer advances. -/
  | tick (n : ℕ)
  /-- A round of a `tcp_recv` for `len` bytes that began at `t0` and waits `wait` ticks. -/
  | recv (len t0 wait : ℕ)
  /-- The application calls `tcp_send`. -/
  | send (data : List UInt8)
  /-- A round of the `tcp_send` in progress. -/
  | sendRound
  /-- The application calls `tcp_close`. -/
  | close
  /-- A round of the `tcp_close` in progress. -/
  | closeRound

namespace Endpoint

/-- A connection that nothing has happened to yet. -/
def opened (c : Conn) (now : ℕ) : Endpoint := ⟨c, now, none, none, [], [], [], []⟩

/-- One round of `tcp_recv`. -/
def recv (e : Endpoint) (len t0 wait : ℕ) : Endpoint :=
  if len = 0 then e
  else
    match tcpRecvStep e.now t0 wait e.conn len with
    | .wait => e
    | .done _ bytes c out =>
      { e with conn := c, received := e.received ++ bytes, sent := e.sent ++ out }

/-- The start of `tcp_send`. -/
def send (e : Endpoint) (data : List UInt8) : Endpoint :=
  match e.call, tcpSendStart e.conn data with
  | none, .more call => { e with call := some call }
  | _, _ => e

/-- `tcp_send` returns `ret`. -/
def finishSend (e : Endpoint) (call : SendCall) (ret : ℤ) : Endpoint :=
  { e with
    call := none
    accepted := e.accepted ++ call.data.take ret.toNat
    abandoned := e.abandoned ++ call.inflight }

/-- One round of `tcp_send`. -/
def sendRound (e : Endpoint) : Endpoint :=
  match e.call with
  | none => e
  | some call =>
    let r := tcpSendStep e.now e.conn call
    let e := { e with conn := r.conn, sent := e.sent ++ r.out }
    match r.next with
    | .more call => { e with call := some call }
    | .done ret => e.finishSend call ret

/-- The start of `tcp_close`. -/
def close (e : Endpoint) : Endpoint :=
  if e.call.isSome ∨ e.closing.isSome then e
  else
    match tcpCloseStart e.now e.conn with
    | .wait c out => { e with conn := c, closing := some e.now, sent := e.sent ++ out }
    | .done c => { e with conn := c }

/-- One round of `tcp_close`. -/
def closeRound (e : Endpoint) : Endpoint :=
  match e.closing with
  | none => e
  | some t0 =>
    if closePoll e.now t0 e.conn then e
    else { e with conn := closeFinish e.now e.conn, closing := none }

def step (e : Endpoint) : Act → Endpoint
  | .segment g =>
    let r := tcpStreamInput e.now e.conn g
    { e with conn := r.conn, sent := e.sent ++ r.out }
  | .tick n => { e with now := e.now + n }
  | .recv len t0 wait => e.recv len t0 wait
  | .send data => e.send data
  | .sendRound => e.sendRound
  | .close => e.close
  | .closeRound => e.closeRound

/-- The endpoint after the acts `as`, in order. -/
def run (e : Endpoint) (as : List Act) : Endpoint := EventRun.run step e as

/-! ## What an act does to the connection -/

/-- The connection and the received bytes that an act can leave. -/
inductive ConnCase (e : Endpoint) : Act → Conn → List UInt8 → Prop
  | same {a : Act} : ConnCase e a e.conn e.received
  | segment (g : Segment) :
      ConnCase e (.segment g) (tcpStreamInput e.now e.conn g).conn e.received
  | read {a : Act} (n : ℕ) : n ≤ e.conn.rxCount →
      ConnCase e a (e.conn.consume n) (e.received ++ e.conn.peek n)
  | publish {a : Act} (seq : Seq) : ConnCase e a { e.conn with seqNum := seq } e.received
  | fin {a : Act} (next : State) : e.conn.inUse = true →
      e.conn.state = .established ∨ e.conn.state = .closeWait →
      next = .finWait1 ∨ next = .lastAck →
      ConnCase e a { e.conn with seqNum := e.conn.seqNum + 1, state := next } e.received
  | closed {a : Act} : ConnCase e a (closeFinish e.now e.conn) e.received

section

variable (e : Endpoint)
include e

lemma recv_conn (len t0 wait : ℕ) :
    ConnCase e (.recv len t0 wait) (e.recv len t0 wait).conn (e.recv len t0 wait).received := by
  unfold recv
  split
  · exact .same
  · split
    · exact .same
    · next h =>
      rcases tcpRecvStep_done h with ⟨rfl, rfl⟩ | ⟨n, hn, rfl, rfl⟩
      · rw [List.append_nil]
        exact .same
      · exact .read n hn

lemma send_conn (data : List UInt8) :
    ConnCase e (.send data) (e.send data).conn (e.send data).received := by
  unfold send
  split <;> exact .same

lemma sendRound_conn : ConnCase e .sendRound e.sendRound.conn e.sendRound.received := by
  unfold sendRound
  split
  · exact .same
  · dsimp only
    split <;> simp only [finishSend, tcpSendStep_conn] <;> exact .publish _

lemma close_conn : ConnCase e .close e.close.conn e.close.received := by
  unfold close tcpCloseStart
  split_ifs with h₁ h₂ h₃ h₄
  · exact .same
  · exact .same
  · exact .fin _ (Bool.not_eq_false _ ▸ h₂) h₃ (.inr rfl)
  · exact .fin _ (Bool.not_eq_false _ ▸ h₂) h₃ (.inl rfl)
  · exact .closed

lemma closeRound_conn : ConnCase e .closeRound e.closeRound.conn e.closeRound.received := by
  unfold closeRound
  split
  · exact .same
  · split
    · exact .same
    · exact .closed

theorem step_conn (a : Act) : ConnCase e a (e.step a).conn (e.step a).received := by
  cases a with
  | segment g => exact .segment g
  | tick n => exact .same
  | recv len t0 wait => exact recv_conn e len t0 wait
  | send data => exact send_conn e data
  | sendRound => exact sendRound_conn e
  | close => exact close_conn e
  | closeRound => exact closeRound_conn e

end

end Endpoint

/-- A connection as `tcp_connect` or an inbound SYN builds it, before any answer. -/
inductive Conn.IsNew : Conn → Prop
  | client (localIp dstIp : UInt32) (localPort dstPort : UInt16) (iss : Seq) :
      IsNew (newClient localIp dstIp localPort dstPort iss)
  | accepted (localIp srcIp : UInt32) (g : Segment) (iss : Seq) :
      IsNew (newAccepted localIp srcIp g iss)

end SubOS.Tcp
