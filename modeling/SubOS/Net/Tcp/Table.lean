import SubOS.Lib.EventRun
import SubOS.Net.Tcp.Input

set_option autoImplicit false

/-!
# The TCP connection and listener tables

The global state of `net/ipv4/tcp.c`, the functions that search, allocate, free and queue its slots,
and the step function that interleaves the calls with inbound segments and the timer.

## Main definitions

* `Net`, `Net.step` — the tables, and what an event does to them.
* `tcpReceive`, `tcpListen`, `tcpConnectStart`, `tcpAcceptCall` — segments and calls.

## Design

A pointer into a table is its index. The queue of a listener is the list of its first `count`
pointers. Three fields of `Net` record history and are read by no function of the model:
`held` (the connections an application owns), `bytesSent` and `trace`.

Segments, ticks and the calls of other tasks may come in any order between two rounds of a suspended
call. A call keeps the pointers and numbers it holds in local variables; when it continues, the slot
it points to may have changed in any way. `tcp_close` may only be called on a connection that the
application holds; it gives the connection up.
-/

namespace SubOS.Tcp

/-- A pointer into `tcp_connections`. -/
abbrev Slot := Fin maxTcpConns

/-- A pointer into `tcp_listeners`. -/
abbrev ListenerSlot := Fin tcpMaxListeners

/-- `tcp_listener_t`. -/
structure Listener where
  port : UInt16
  inUse : Bool
  backlog : ℕ
  queue : List Slot
  deriving DecidableEq, Repr

/-- A listener cleared by `memset`. -/
def Listener.zero : Listener := ⟨0, false, 0, []⟩

/-- A call in progress, suspended at the head of the loop it waits in. -/
inductive Call where
  | connect (i : Slot) (t0 wait last : ℕ)
  | send (i : Slot) (call : SendCall)
  | recv (i : Slot) (len t0 wait : ℕ)
  | close (i : Slot) (t0 : ℕ)
  | accept (l : ListenerSlot) (t0 wait : ℕ)
  deriving DecidableEq, Repr

/-- What can be observed at the connections, in the order it happens. -/
inductive Obs where
  /-- `alloc_conn` returned this slot: a new connection begins. -/
  | opened (i : Slot)
  /-- A segment was given to the connection in this slot. -/
  | rx (i : Slot) (g : Segment)
  /-- A segment was transmitted, for the connection in a slot or for none. -/
  | tx (i : Option Slot) (p : Packet)
  /-- The payload of the segment at `seq` was handed to sshd or httpd. -/
  | served (i : Slot) (seq : Seq) (payload : List UInt8)
  deriving DecidableEq, Repr

/-- The state of `tcp.c`. -/
structure Net where
  /-- `tcp_connections`. -/
  conns : Slot → Conn
  /-- `tcp_listeners`. -/
  listeners : ListenerSlot → Listener
  /-- `pit_get_ticks()`. -/
  ticks : ℕ
  /-- The calls in progress, by the task that made them. -/
  calls : ℕ → Option Call
  /-- The connections returned by `tcp_connect` or `tcp_accept` and not yet given to
  `tcp_close`. -/
  held : Slot → Bool
  /-- The number of payload bytes `tcp_send` has put on sequence numbers. -/
  bytesSent : ℕ
  /-- What has been observed, newest first. -/
  trace : List Obs

/-- The state after `tcp_init`. -/
def tcpInit : Net where
  conns := fun _ => Conn.zero
  listeners := fun _ => Listener.zero
  ticks := 0
  calls := fun _ => none
  held := fun _ => false
  bytesSent := 0
  trace := []

namespace Net

/-- Overwrite a slot of the connection table. -/
@[simps -fullyApplied] def setConn (s : Net) (i : Slot) (c : Conn) : Net :=
  { s with conns := Function.update s.conns i c }

/-- Overwrite a slot of the listener table. -/
@[simps -fullyApplied] def setListener (s : Net) (l : ListenerSlot) (x : Listener) : Net :=
  { s with listeners := Function.update s.listeners l x }

/-- Suspend or finish the call of a task. -/
@[simps -fullyApplied] def setCall (s : Net) (task : ℕ) (call : Option Call) : Net :=
  { s with calls := Function.update s.calls task call }

/-- Record what an application owns. -/
@[simps -fullyApplied] def setHeld (s : Net) (i : Slot) (b : Bool) : Net :=
  { s with held := Function.update s.held i b }

@[simps -fullyApplied] def log (s : Net) (o : Obs) : Net := { s with trace := o :: s.trace }

/-- Record transmitted segments, in order. -/
@[simps -fullyApplied] def emit (s : Net) (i : Option Slot) (out : List Packet) : Net :=
  { s with trace := (out.map (Obs.tx i)).reverse ++ s.trace }

end Net

/-! ## The connection table -/

/-- How long a lingering connection keeps its slot. -/
def Conn.linger (c : Conn) : ℕ :=
  if c.role = .service then tcpSvcTimeWaitTicks else tcpTimeWaitTicks

/-- `reap_time_wait` frees this slot at tick `now`. -/
def Conn.expired (now : ℕ) (c : Conn) : Bool :=
  c.inUse && c.state == .timeWait && decide (c.linger ≤ now - c.closedAt)

/-- `reap_time_wait`. -/
@[simps -fullyApplied] def reapTimeWait (s : Net) : Net :=
  { s with conns := fun i => if (s.conns i).expired s.ticks then Conn.zero else s.conns i }

/-- The connection is in use and has this address pair. -/
def Conn.matches (c : Conn) (rIp : UInt32) (rPort lPort : UInt16) : Bool :=
  c.inUse && c.remoteIp == rIp && c.remotePort == rPort && c.localPort == lPort

def findConn (s : Net) (rIp : UInt32) (rPort lPort : UInt16) : Option Slot :=
  (List.finRange maxTcpConns).find? fun i => (s.conns i).matches rIp rPort lPort

/-- The first slot that is not in use. -/
def firstFree (s : Net) : Option Slot :=
  (List.finRange maxTcpConns).find? fun i => !(s.conns i).inUse

def allocConn (s : Net) : Net × Option Slot :=
  let s := reapTimeWait s
  match firstFree s with
  | none => (s, none)
  | some i => ((s.setConn i Conn.fresh).log (.opened i), some i)

/-- A connection in use has this local port. -/
def portTaken (s : Net) (p : UInt16) : Bool :=
  (List.finRange maxTcpConns).any fun i => (s.conns i).inUse && (s.conns i).localPort == p

/-- `alloc_ephemeral_port`, drawing the numbers `prng 0`, `prng 1`, ... -/
def allocEphemeralPort (s : Net) (prng : ℕ → Seq) : UInt16 :=
  let draw k := UInt16.ofNat
    (tcpEphemeralLo + (prng k).toNat % (tcpEphemeralHi - tcpEphemeralLo + 1))
  (((List.range 512).map draw).find? fun p => !portTaken s p).getD 0

/-! ## The listener table -/

def findListener (s : Net) (port : UInt16) : Option ListenerSlot :=
  (List.finRange tcpMaxListeners).find? fun l =>
    (s.listeners l).inUse && (s.listeners l).port == port

def listenerEnqueue (s : Net) (i : Slot) : Net :=
  match findListener s (s.conns i).localPort with
  | none => s
  | some l =>
    let x := s.listeners l
    if x.backlog ≤ x.queue.length then
      (s.emit (some i) [tcpTx (s.conns i) tcpFlagRst []]).setConn i Conn.zero
    else s.setListener l { x with queue := x.queue ++ [i] }

/-! ## Receive dispatch -/

/-- Give a segment to the stream state machine of a slot. -/
def streamDeliver (s : Net) (i : Slot) (g : Segment) : Net :=
  let r := tcpStreamInput s.ticks (s.conns i) g
  let s := (s.setConn i r.conn).emit (some i) r.out
  if r.enqueue then listenerEnqueue s i else s

/-- Record the payload handed to a service, if any. -/
def Net.logServed (s : Net) (i : Slot) (seq : Seq) : Option (List UInt8) → Net
  | none => s
  | some payload => s.log (.served i seq payload)

/-- Give a segment to the server state machine of a slot. -/
def serverDeliver (env : RxEnv) (s : Net) (i : Slot) (srcIp : UInt32) (g : Segment) : Net :=
  let r := tcpServerInput env s.ticks (s.conns i) srcIp g
  ((s.setConn i r.conn).logServed i g.seq r.served).emit (some i) r.out

/-- Step 1 of `tcp_receive`: the connection that owns the segment. -/
def deliver (env : RxEnv) (s : Net) (i : Slot) (srcIp : UInt32) (g : Segment) : Net :=
  let s := s.log (.rx i g)
  if (s.conns i).state = .timeWait ∨ (s.conns i).role ≠ .service then streamDeliver s i g
  else serverDeliver env s i srcIp g

/-- The RST that answers a segment nobody wants. -/
def refuse (s : Net) (srcIp : UInt32) (g : Segment) : Net :=
  s.emit none [tcpSendPacket srcIp g.dstPort g.srcPort 0 (g.seq + 1)
    (tcpFlagRst ||| tcpFlagAck) []]

/-- Step 2 of `tcp_receive`: a SYN to a listening port starts a passive open. -/
def passiveOpen (env : RxEnv) (s : Net) (srcIp : UInt32) (g : Segment) : Net :=
  match allocConn s with
  | (s, none) => refuse s srcIp g
  | (s, some i) =>
    if env.kzallocOk then
      let c := newAccepted env.localIp srcIp g env.prngRand32
      ((s.log (.rx i g)).setConn i c).emit (some i)
        [tcpTxSeq c c.iss (tcpFlagSyn ||| tcpFlagAck) []]
    else refuse (s.setConn i Conn.zero) srcIp g

/-- Step 3 of `tcp_receive`: a segment to a built-in service. -/
def serviceOpen (env : RxEnv) (s : Net) (srcIp : UInt32) (g : Segment) : Net :=
  match allocConn s with
  | (s, none) => s
  | (s, some i) =>
    serverDeliver env ((s.log (.rx i g)).setConn i (newService env.localIp srcIp g)) i srcIp g

/-- `tcp_receive` once the header has been read. -/
def receiveSegment (env : RxEnv) (s : Net) (srcIp : UInt32) (g : Segment) : Net :=
  match findConn s srcIp g.srcPort g.dstPort with
  | some i => deliver env s i srcIp g
  | none =>
    if g.has tcpFlagSyn && !g.has tcpFlagAck && (findListener s g.dstPort).isSome then
      passiveOpen env s srcIp g
    else if env.isSshPort g.dstPort || env.isHttpPort g.dstPort then serviceOpen env s srcIp g
    else if g.has tcpFlagRst then s
    else refuse s srcIp g

def tcpReceive (env : RxEnv) (s : Net) (packet : List UInt8) (srcIp : UInt32) : Net :=
  match parseSegment packet with
  | none => s
  | some g => receiveSegment env s srcIp g

/-- A call of the TCP interface, with what it obtains from outside `tcp.c`. -/
inductive Request where
  /-- `tcp_connect`, with the interface address, the outcome of `kzalloc` and the
  pseudo-random numbers drawn for the port and for `iss`. -/
  | connect (dstIp : UInt32) (dstPort : UInt16) (timeoutMs : ℕ) (localIp : UInt32)
      (kzallocOk : Bool) (prng : ℕ → Seq) (iss : Seq)
  | send (i : Slot) (data : List UInt8)
  | recv (i : Slot) (len timeoutMs : ℕ)
  | close (i : Slot)
  | listen (port : UInt16) (backlog : ℤ)
  | accept (port : UInt16) (timeoutMs : ℕ)
  | unlisten (port : UInt16)
  /-- `tcp_get_connections_count`, which also reaps. -/
  | getConnectionsCount

inductive Event where
  /-- A packet arrives from `srcIp`. -/
  | rx (env : RxEnv) (packet : List UInt8) (srcIp : UInt32)
  /-- The timer advances. -/
  | tick (n : ℕ)
  /-- A task that has no call in progress makes a call. -/
  | call (task : ℕ) (req : Request)
  /-- A suspended call continues. -/
  | resume (task : ℕ)

/-! ## Calls that do not wait -/

/-- `tcp_listen` with a backlog already brought into range. -/
def claimPort (s : Net) (port : UInt16) (backlog : ℕ) : Net :=
  match (List.finRange tcpMaxListeners).find? fun l => !(s.listeners l).inUse with
  | none => s
  | some l => s.setListener l ⟨port, true, backlog, []⟩

/-- The backlog `tcp_listen` grants. -/
def clampBacklog (backlog : ℤ) : ℕ :=
  if backlog < 1 then 1 else if backlog > tcpBacklogMax then tcpBacklogMax else backlog.toNat

def tcpListen (s : Net) (port : UInt16) (backlog : ℤ) : Net :=
  if port = 0 then s
  else if (findListener s port).isSome then s
  else claimPort s port (clampBacklog backlog)

/-- Reset and free one queued connection of a listener. -/
def refuseQueued (s : Net) (i : Slot) : Net :=
  if (s.conns i).inUse then
    (s.emit (some i) [tcpTx (s.conns i) tcpFlagRst []]).setConn i Conn.zero
  else s

def tcpUnlisten (s : Net) (port : UInt16) : Net :=
  match findListener s port with
  | none => s
  | some l => ((s.listeners l).queue.foldl refuseQueued s).setListener l Listener.zero

/-! ## Calls that wait -/

/-- `tcp_connect` up to its first wait. -/
def tcpConnectStart (s : Net) (task : ℕ) (dstIp : UInt32) (dstPort : UInt16) (timeoutMs : ℕ)
    (localIp : UInt32) (kzallocOk : Bool) (prng : ℕ → Seq) (iss : Seq) : Net :=
  if dstIp = 0 ∨ dstPort = 0 then s
  else
    match allocConn s with
    | (s, none) => s
    | (s, some i) =>
      let port := allocEphemeralPort s prng
      if kzallocOk = false ∨ port = 0 then s.setConn i Conn.zero
      else
        let c := newClient localIp dstIp port dstPort iss
        ((s.setConn i c).emit (some i) [tcpTxSeq c c.iss tcpFlagSyn []]).setCall task
          (some (.connect i s.ticks (msToTicks timeoutMs) s.ticks))

/-- `tcp_connect` from one wait to the next. -/
def tcpConnectResume (s : Net) (task : ℕ) (i : Slot) (t0 wait last : ℕ) : Net :=
  match connectPoll s.ticks t0 wait last (s.conns i) with
  | .wait last out => (s.emit (some i) out).setCall task (some (.connect i t0 wait last))
  | .established => (s.setHeld i true).setCall task none
  | .failed => (s.setConn i Conn.zero).setCall task none

/-- `tcp_send` up to its first segment. -/
def tcpSendCall (s : Net) (task : ℕ) (i : Slot) (data : List UInt8) : Net :=
  match tcpSendStart (s.conns i) data with
  | .more call => s.setCall task (some (.send i call))
  | .done _ => s

/-- One round of `tcp_send`. -/
def tcpSendResume (s : Net) (task : ℕ) (i : Slot) (call : SendCall) : Net :=
  let r := tcpSendStep s.ticks (s.conns i) call
  let s := { (s.setConn i r.conn).emit (some i) r.out with
    bytesSent := s.bytesSent + call.published }
  match r.next with
  | .more call => s.setCall task (some (.send i call))
  | .done _ => s.setCall task none

/-- `tcp_recv` up to its first look at the ring. -/
def tcpRecvCall (s : Net) (task : ℕ) (i : Slot) (len timeoutMs : ℕ) : Net :=
  if (s.conns i).inUse = false ∨ len = 0 then s
  else s.setCall task (some (.recv i len s.ticks (msToTicks timeoutMs)))

/-- One round of `tcp_recv`. -/
def tcpRecvResume (s : Net) (task : ℕ) (i : Slot) (len t0 wait : ℕ) : Net :=
  match tcpRecvStep s.ticks t0 wait (s.conns i) len with
  | .wait => s
  | .done _ _ c out => ((s.setConn i c).emit (some i) out).setCall task none

/-- `tcp_close` up to its first wait. The application gives the connection up. -/
def tcpCloseCall (s : Net) (task : ℕ) (i : Slot) : Net :=
  if s.held i then
    let s := s.setHeld i false
    match tcpCloseStart s.ticks (s.conns i) with
    | .wait c out =>
      ((s.setConn i c).emit (some i) out).setCall task (some (.close i s.ticks))
    | .done c => s.setConn i c
  else s

/-- One round of the wait in `tcp_close`. -/
def tcpCloseResume (s : Net) (task : ℕ) (i : Slot) (t0 : ℕ) : Net :=
  if closePoll s.ticks t0 (s.conns i) then s
  else (s.setConn i (closeFinish s.ticks (s.conns i))).setCall task none

/-- `tcp_accept` up to its first look at the queue. -/
def tcpAcceptCall (s : Net) (task : ℕ) (port : UInt16) (timeoutMs : ℕ) : Net :=
  match findListener s port with
  | none => s
  | some l => s.setCall task (some (.accept l s.ticks (msToTicks timeoutMs)))

/-- One round of `tcp_accept`: take the oldest connection of the queue, time out, or wait. -/
def tcpAcceptResume (s : Net) (task : ℕ) (l : ListenerSlot) (t0 wait : ℕ) : Net :=
  match (s.listeners l).queue with
  | [] => if wait ≤ s.ticks - t0 then s.setCall task none else s
  | i :: rest =>
    ((s.setListener l { s.listeners l with queue := rest }).setHeld i true).setCall task none

/-! ## The step function -/

def start (s : Net) (task : ℕ) : Request → Net
  | .connect dstIp dstPort timeoutMs localIp ok prng iss =>
    tcpConnectStart s task dstIp dstPort timeoutMs localIp ok prng iss
  | .send i data => tcpSendCall s task i data
  | .recv i len timeoutMs => tcpRecvCall s task i len timeoutMs
  | .close i => tcpCloseCall s task i
  | .listen port backlog => tcpListen s port backlog
  | .accept port timeoutMs => tcpAcceptCall s task port timeoutMs
  | .unlisten port => tcpUnlisten s port
  | .getConnectionsCount => reapTimeWait s

/-- Continue a suspended call. -/
def resume (s : Net) (task : ℕ) : Call → Net
  | .connect i t0 wait last => tcpConnectResume s task i t0 wait last
  | .send i call => tcpSendResume s task i call
  | .recv i len t0 wait => tcpRecvResume s task i len t0 wait
  | .close i t0 => tcpCloseResume s task i t0
  | .accept l t0 wait => tcpAcceptResume s task l t0 wait

/-- One event. An event that is not possible (a second call of a task, or a continuation
without a call) changes nothing. -/
def step (s : Net) : Event → Net
  | .rx env packet srcIp => tcpReceive env s packet srcIp
  | .tick n => { s with ticks := s.ticks + n }
  | .call task req =>
    match s.calls task with
    | none => start s task req
    | some _ => s
  | .resume task =>
    match s.calls task with
    | none => s
    | some call => resume s task call

/-- The state after the events `es`, in order, from the state after `tcp_init`. -/
def runFrom (es : List Event) : Net := EventRun.run step tcpInit es

/-! ## Input of concrete runs -/

/-- The interrupt's surroundings in the runs below: no built-in service runs, and the generator
draws 7. -/
def quietEnv : RxEnv :=
  { localIp := 0x0A00020F, sshdGetPort := 22, sshdIsRunning := false, httpdIsRunning := false
    sshdProcessPacket := fun _ => [], httpdHandleRequest := fun _ => [], prngRand32 := 7
    kzallocOk := true }

/-- A TCP segment without options and payload from port 40000 to port 5000, with the four bytes
of its sequence and acknowledgement numbers. -/
def bareSegment (seq ack : List UInt8) (flags : UInt8) : List UInt8 :=
  [0x9C, 0x40, 0x13, 0x88] ++ seq ++ ack ++ [0x50, flags, 0xFF, 0xFF, 0, 0, 0, 0]

end SubOS.Tcp
