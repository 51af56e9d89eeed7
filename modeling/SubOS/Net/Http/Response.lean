import SubOS.Lib.ByteMemory
import SubOS.Net.Tcp.ReceiveStream

set_option autoImplicit false

/-!
# Reading a response

The second half of `do_one_request` in `net/http_client.c`, for a plain connection on which the
request has been sent: `tcp_recv` is called until the buffer is full or the stream ends. The room
left is passed as a `uint16_t`. A buffer of 64 KiB or more is therefore filled only up to the point
where the room left is a multiple of 65536.

## Main definitions

* `Exchange.step`, `Kept` — a step; the response is in the buffer, as far as it fits.

## Main results

* `kept_iff`, `nothing_kept` — when the response is kept.

## Design

The run starts with the connection as `tcp_send` leaves it, from whose stream nothing has been read
yet. Segments arrive between any two rounds, so that every chunking of the response is a run.
-/

namespace SubOS.Net.Http

open Tcp EventRun Nat List Bool

def httpRecvTimeoutMs : ℕ := 3000

/-- The fields of `http_fetch_t` for the response. -/
structure Job where
  buf : ByteMemory
  len : ℕ
  cap : ℕ

/-- `parse_status`: the number behind `HTTP/1.x`, or 0. -/
def parseStatus (buf : List UInt8) : ℤ :=
  if buf.length < 12 ∨ buf.take 5 ≠ [0x48, 0x54, 0x54, 0x50, 0x2F] then 0
  else
    let digits := ((buf.dropWhile (· != 0x20)).dropWhile (· == 0x20)).takeWhile
      fun b => 0x30 ≤ b && b ≤ 0x39
    (digits.foldl (fun code b => code * 10 + Int32.ofNat (b.toNat - 0x30)) (0 : Int32)).toInt

/-- Where the worker stands in `do_one_request`. -/
inductive ExchangePc where
  /-- At the head of the loop. -/
  | loop
  /-- In `tcp_recv` for `len` bytes, since `t0`. -/
  | recv (len t0 : ℕ)
  /-- About to call `tcp_close`. -/
  | close
  /-- In `tcp_close`, since `t0`. -/
  | closing (t0 : ℕ)
  /-- `do_one_request` has returned. -/
  | done (ret : ℤ)
  deriving DecidableEq, Repr

/-- The job, the connection and the worker. -/
structure Exchange where
  job : Job
  conn : Conn
  /-- `pit_get_ticks()`. -/
  now : ℕ
  pc : ExchangePc

/-- What can happen during the exchange. -/
inductive ExchangeEvent where
  | segment (g : Segment)
  | tick (n : ℕ)
  /-- The worker goes on. -/
  | work

namespace Exchange

/-- `f->len = 0`, and the loop begins. -/
def start (conn : Conn) (buf : ByteMemory) (cap now : ℕ) : Exchange :=
  ⟨⟨buf, 0, cap⟩, conn, now, .loop⟩

/-- What follows `tcp_close`: terminate the buffer and return. -/
def finish (s : Exchange) (conn : Conn) : Exchange :=
  { s with
    job := { s.job with buf := Function.update s.job.buf s.job.len 0 }
    conn := conn
    pc := .done (if s.job.len = 0 then -1 else parseStatus (s.job.buf.bytes 0 s.job.len)) }

/-- The room left, as `tcp_recv` is told. -/
def room (s : Exchange) : ℕ := (s.job.cap - 1 - s.job.len) % 2 ^ 16

def work (s : Exchange) : Exchange :=
  match s.pc with
  | .loop =>
    if s.job.len < s.job.cap - 1 then
      -- `tcp_recv` returns -1 for a free connection and for no room
      if s.conn.inUse = false ∨ s.room = 0 then { s with pc := .close }
      else { s with pc := .recv s.room s.now }
    else { s with pc := .close }
  | .recv len t0 =>
    match tcpRecvStep s.now t0 (msToTicks httpRecvTimeoutMs) s.conn len with
    | .wait => s
    | .done ret bytes conn _ =>
      let buf := s.job.buf.put s.job.len bytes
      if ret ≤ 0 then { s with job := { s.job with buf }, conn, pc := .close }
      else { s with job := { s.job with buf, len := s.job.len + ret.toNat }, conn, pc := .loop }
  | .close =>
    match tcpCloseStart s.now s.conn with
    | .wait conn _ => { s with conn, pc := .closing s.now }
    | .done conn => s.finish conn
  | .closing t0 => if closePoll s.now t0 s.conn then s else s.finish (closeFinish s.now s.conn)
  | .done _ => s

def step (s : Exchange) : ExchangeEvent → Exchange
  | .segment g => { s with conn := (tcpStreamInput s.now s.conn g).conn }
  | .tick n => { s with now := s.now + n }
  | .work => s.work

def stored (s : Exchange) : List UInt8 := s.job.buf.bytes 0 s.job.len

def Reading (s : Exchange) : Prop :=
  match s.pc with
  | .loop | .recv _ _ => True
  | _ => False

/-- While the worker reads, the segments that arrive are cut from the response `R`, not more than a
circle of sequence numbers away, and no wait for them runs out before the FIN has been taken. -/
def Delivers (R : List UInt8) (irs : Seq) (s : Exchange) : ExchangeEvent → Prop
  | .segment g => s.Reading → g.CutNear R irs (s.stored ++ s.conn.rxBytes).length
  | .tick _ => True
  | .work =>
    match s.pc with
    | .recv _ t0 => s.conn.rxCount = 0 → s.conn.peerFin = false →
        s.now - t0 < msToTicks httpRecvTimeoutMs
    | _ => True

/-- The job holds the first `cap - 1` bytes of the response, or all of it, and is terminated. -/
def Kept (R : List UInt8) (s : Exchange) : Prop :=
  s.job.len = min R.length (s.job.cap - 1) ∧ s.stored = R.take s.job.len ∧ s.job.buf s.job.len = 0

/-- As far as a buffer of this capacity is filled. -/
def limit (cap : ℕ) : ℕ := if cap - 1 < 2 ^ 16 then cap - 1 else (cap - 1) % 2 ^ 16

/-- The connection is open to the response, of which nothing has been read. -/
structure Opened (R : List UInt8) (irs : Seq) (c : Conn) : Prop where
  inUse : c.inUse = true
  state : c.state = .established ∨ c.state = .closeWait
  reset : c.reset = false
  stream : RxInv R irs [] c

/-- While the worker reads, the bytes stored are what has been read from the stream. -/
structure Streaming (R : List UInt8) (irs : Seq) (s : Exchange) : Prop where
  inUse : s.conn.inUse = true
  state : s.conn.state = .established ∨ s.conn.state = .closeWait
  reset : s.conn.reset = false
  stream : RxInv R irs s.stored s.conn

/-- How far the buffer is filled: while the worker reads up to the limit at most, afterwards with
the response as far as the limit allows. -/
structure Inv (R : List UInt8) (irs : Seq) (s : Exchange) : Prop where
  len_le : s.job.len ≤ limit s.job.cap
  reading : s.Reading → Streaming R irs s
  asked : ∀ n t0, s.pc = .recv n t0 → n = limit s.job.cap - s.job.len ∧ 0 < n
  left : ¬ s.Reading → s.stored = R.take (limit s.job.cap)
  ended : ∀ ret, s.pc = .done ret → s.job.buf s.job.len = 0

variable {R : List UInt8} {irs : Seq} {s : Exchange} {c : Conn}

/-! ## The room left -/

lemma limit_le (cap : ℕ) : limit cap ≤ cap - 1 := by
  unfold limit
  split
  · exact le_rfl
  · exact mod_le _ _

lemma room_eq (h : s.job.len ≤ limit s.job.cap) : s.room = limit s.job.cap - s.job.len := by
  unfold limit room at *
  split_ifs at h ⊢
  · rw [mod_eq_of_lt (by omega)]
  · omega

@[simp] lemma length_stored (s : Exchange) : s.stored.length = s.job.len :=
  ByteMemory.length_bytes _ _ _

lemma Streaming.stored_eq (h : Streaming R irs s) : s.stored = R.take s.job.len := by
  have hprefix := (prefix_append _ _).trans h.stream.stream
  have htake := prefix_iff_eq_take.1 hprefix
  rwa [length_stored] at htake

/-! ## One round of the worker -/

lemma Inv.leave (h : Inv R irs s) (hstored : s.stored = R.take (limit s.job.cap)) :
    Inv R irs { s with pc := .close } :=
  ⟨h.len_le, False.elim, nofun, fun _ => hstored, nofun⟩

lemma Inv.work_loop (h : Inv R irs s) (hpc : s.pc = .loop) : Inv R irs s.work := by
  have hstream : Streaming R irs s := h.reading (by rw [Reading, hpc]; trivial)
  have hroom := room_eq h.len_le
  have hlimit := limit_le s.job.cap
  have hle := h.len_le
  have hfull : s.job.len = limit s.job.cap → Inv R irs { s with pc := .close } := fun hlen =>
    h.leave (hlen ▸ hstream.stored_eq)
  simp only [work, hpc]
  split_ifs with hlen hno
  · rw [hstream.inUse] at hno
    rcases hno with hno | hno
    · exact absurd hno (by decide)
    · exact hfull (by omega)
  · rw [hstream.inUse] at hno
    refine ⟨h.len_le, fun _ => ?_, fun n t0 hrecv => ?_, absurd trivial, nofun⟩
    · exact ⟨hstream.inUse, hstream.state, hstream.reset, hstream.stream⟩
    · cases hrecv
      exact ⟨hroom, by omega⟩
  · exact hfull (by omega)

lemma length_peek (hbuf : c.rxBuf.isSome = true) (n : ℕ) : (c.peek n).length = n := by
  obtain ⟨buf, hb⟩ := Option.isSome_iff_exists.1 hbuf
  simp [Conn.peek, hb, RingBuffer.peekMany]

section

variable (h : Inv R irs s)
include h

lemma Inv.work_copy {n t0 : ℕ} (hpc : s.pc = .recv n t0)
    (hcount : s.conn.rxCount ≠ 0) : Inv R irs s.work ∧ s.work.pc = .loop ∧
      s.work.conn = s.conn.consume (min s.conn.rxCount n) := by
  have hstream : Streaming R irs s := h.reading (by rw [Reading, hpc]; trivial)
  obtain ⟨hn, hpos⟩ := h.asked n t0 hpc
  have hmin : (if s.conn.rxCount < n then s.conn.rxCount else n) = min s.conn.rxCount n := by
    split <;> omega
  generalize hk : min s.conn.rxCount n = k at hmin ⊢
  have hret : ¬ ((k : ℤ) ≤ 0) := by omega
  have hwork : s.work =
      { s with
        job.buf := s.job.buf.put s.job.len (s.conn.peek k)
        job.len := s.job.len + k
        conn := s.conn.consume k
        pc := .loop } := by
    simp only [work, hpc, tcpRecvStep, if_neg hcount, recvCopy, hmin, if_neg hret,
      Int.toNat_natCast]
  rw [hwork]
  refine ⟨⟨?_, fun _ => ?_, by simp, absurd trivial, by simp⟩, rfl, rfl⟩
  · show s.job.len + k ≤ limit s.job.cap
    omega
  · refine ⟨hstream.inUse, hstream.state, hstream.reset, ?_⟩
    have hput := s.job.buf.bytes_put_append 0 s.job.len (s.conn.peek k)
    rw [length_peek hstream.stream.buf, zero_add] at hput
    simp only [stored, hput]
    exact hstream.stream.consume (by omega)

/-- A round of `tcp_recv` finds the ring empty: it waits, or the stream has ended. -/
lemma Inv.work_empty {n t0 : ℕ} (hpc : s.pc = .recv n t0)
    (hcount : s.conn.rxCount = 0) (hok : s.Delivers R irs .work) :
    Inv R irs s.work ∧ (s.conn.peerFin = true → s.work.pc = .close) := by
  have hstream : Streaming R irs s := h.reading (by rw [Reading, hpc]; trivial)
  simp only [Delivers, hpc] at hok
  by_cases hfin : s.conn.peerFin = true
  · have hbytes : s.conn.rxBytes = [] := by
      obtain ⟨buf, hb⟩ := Option.isSome_iff_exists.1 hstream.stream.buf
      simp [Conn.rxBytes, hb, Conn.ring, RingBuffer.contents, hcount]
    have hall := hstream.stream.fin hfin
    rw [hbytes, append_nil] at hall
    have hput : s.job.buf.put s.job.len [] = s.job.buf := by
      funext x
      rw [ByteMemory.put, length_nil, if_neg (by omega)]
    have hwork : s.work = { s with pc := .close } := by
      simp only [work, hpc, tcpRecvStep, if_pos hcount, hstream.reset, hfin, hput, false_eq_true,
        if_false, if_true, le_refl]
    rw [hwork]
    refine ⟨h.leave ?_, fun _ => rfl⟩
    have hlen : R.length ≤ limit s.job.cap := by
      rw [← hall, length_stored]
      exact h.len_le
    rw [hall, take_of_length_le hlen]
  · have hwait := hok hcount (not_eq_true _ ▸ hfin)
    have hwork : s.work = s := by
      simp only [work, hpc, tcpRecvStep, if_pos hcount, hstream.reset, hfin, false_eq_true,
        if_false, if_neg (not_le.2 hwait)]
    rw [hwork]
    exact ⟨h, fun hfin' => absurd hfin' hfin⟩

lemma Inv.finish (hleft : ¬ s.Reading) (c : Conn) : Inv R irs (s.finish c) := by
  refine ⟨h.len_le, False.elim, nofun, fun _ => ?_, fun _ _ => Function.update_self _ _ _⟩
  have hsame := s.job.buf.bytes_update (show 0 + s.job.len ≤ s.job.len by omega) 0
  exact hsame.trans (h.left hleft)

lemma Inv.work_close (hleft : ¬ s.Reading) : Inv R irs s.work := by
  unfold work
  cases hpc : s.pc with
  | loop | recv n t0 => exact absurd (by rw [Reading, hpc]; trivial) hleft
  | close =>
    dsimp only
    split
    · exact ⟨h.len_le, False.elim, nofun, fun _ => h.left hleft, nofun⟩
    · exact h.finish hleft _
  | closing t0 =>
    dsimp only
    split
    · exact h
    · exact h.finish hleft _
  | done ret => exact h

/-- **One round of the worker.** -/
lemma Inv.work (hok : s.Delivers R irs .work) : Inv R irs s.work := by
  cases hpc : s.pc with
  | loop => exact h.work_loop hpc
  | recv n t0 =>
    by_cases hcount : s.conn.rxCount = 0
    · exact (h.work_empty hpc hcount hok).1
    · exact (h.work_copy hpc hcount).1
  | close | closing t0 | done ret => exact h.work_close (by rw [Reading, hpc]; exact id)

end

/-! ## Segments -/

lemma streamData_reset (now : ℕ) (c : Conn) (g : Segment) :
    (streamData now c g).1.reset = c.reset := by
  have hack : (acceptAck c g).reset = c.reset := by
    unfold acceptAck
    split <;> rfl
  obtain ⟨buf, count, ack, hdata⟩ := acceptData_fst (acceptAck c g) g
  have hfin : ∀ c : Conn, (acceptFin now c g).1.reset = c.reset := by
    intro c
    unfold acceptFin
    split
    · dsimp only
      split <;> rfl
    · rfl
  have hclose : ∀ c : Conn, (finishClose now c).reset = c.reset := by
    intro c
    unfold finishClose
    split
    · split <;> rfl
    · rfl
  rw [streamData, hclose, hfin, hdata, ← hack]

lemma streamData_open (h : c.state = .established ∨ c.state = .closeWait) (now : ℕ)
    (g : Segment) : (streamData now c g).1.state = .established ∨
      (streamData now c g).1.state = .closeWait := by
  have hadv := streamData_advance now c g
  generalize (streamData now c g).1.state = st at hadv ⊢
  induction hadv with
  | refl => exact h
  | tail _ hstep ih => cases hstep <;> simp_all

lemma Inv.segment (h : Inv R irs s) {g : Segment} (hok : s.Delivers R irs (.segment g)) :
    Inv R irs (s.step (.segment g)) := by
  refine ⟨h.len_le, fun hread => ?_, h.asked, h.left, h.ended⟩
  have hstream := h.reading hread
  have hcut := hok hread
  have hcase := tcpStreamInput_cases s.now s.conn g
  have hkeep := (tcpStreamInput_keeps s.now s.conn g).inUse
  simp only [step]
  generalize tcpStreamInput s.now s.conn g = r at hcase hkeep ⊢
  cases hcase with
  | reset hrst => cases hcut.2.1.symm.trans hrst
  | ignored => exact ⟨hstream.inUse, hstream.state, hstream.reset, hstream.stream⟩
  | synAck hst | simultaneous hst | lingering _ hst | handshake _ hst =>
    exact absurd hst (by rcases hstream.state with h | h <;> rw [h] <;> decide)
  | data =>
    exact ⟨hkeep.trans hstream.inUse, streamData_open hstream.state s.now g,
      (streamData_reset s.now s.conn g).trans hstream.reset,
        streamData_rxInv hstream.stream hcut s.now⟩

/-- **One event keeps the invariant.** -/
lemma Inv.step (h : Inv R irs s) {e : ExchangeEvent} (hok : s.Delivers R irs e) :
    Inv R irs (s.step e) := by
  cases e with
  | segment g => exact h.segment hok
  | tick n =>
    refine ⟨h.len_le, fun hread => ?_, h.asked, h.left, h.ended⟩
    have hstream := h.reading hread
    exact ⟨hstream.inUse, hstream.state, hstream.reset, hstream.stream⟩
  | work => exact h.work hok

lemma Opened.inv (h : Opened R irs c) (buf : ByteMemory) (cap now : ℕ) :
    Inv R irs (start c buf cap now) :=
  ⟨zero_le _, fun _ => ⟨h.inUse, h.state, h.reset, h.stream⟩, nofun, absurd trivial, nofun⟩

/-- How far the buffer is filled, in every state of every exchange. -/
theorem inv_run (h : Opened R irs c) (buf : ByteMemory) (cap now : ℕ)
    {es : List ExchangeEvent} (hes : Along step (Delivers R irs) (start c buf cap now) es) :
    Inv R irs (run step (start c buf cap now) es) := by
  have hstep : ∀ (s : Exchange) (e : ExchangeEvent), Inv R irs s → s.Delivers R irs e →
      Inv R irs (s.step e) := fun s e hs he => hs.step he
  exact run_invariant_of_along hstep (h.inv buf cap now) hes

/-! ## The exchange ends -/

lemma delivers_work_of_fin (h : s.conn.peerFin = true) : s.Delivers R irs .work := by
  unfold Delivers
  dsimp only
  split
  · intro _ hfin
    cases h.symm.trans hfin
  · trivial

/-- **The worker leaves the loop** after finitely many rounds, once the FIN has been taken.

**Proof sketch.** Induction on the number of bytes in the ring. Each two rounds take a byte out of
it, and with the ring empty `tcp_recv` returns 0. -/
lemma Inv.leaves (h : Inv R irs s) (hfin : s.conn.peerFin = true) : ∃ k,
    ¬ (run .step s (replicate k .work)).Reading := by
  induction hn : s.conn.rxCount using Nat.strong_induction_on generalizing s with
  | _ n ih =>
  -- from `tcp_recv` on
  have hrecv : ∀ {s' : Exchange}, Inv R irs s' → s'.conn = s.conn → (∃ m t0, s'.pc = .recv m t0) →
      ∃ k, ¬ (run .step s' (replicate k .work)).Reading := by
    rintro s' hinv hconn ⟨m, t0, hpc⟩
    rw [← hconn] at hn hfin
    by_cases hcount : s'.conn.rxCount = 0
    · refine ⟨1, ?_⟩
      have hclose := (hinv.work_empty hpc hcount (delivers_work_of_fin hfin)).2 hfin
      show ¬ s'.work.Reading
      rw [Reading, hclose]
      exact id
    · obtain ⟨hinv', -, hconn'⟩ := hinv.work_copy hpc hcount
      have hpos := (hinv.asked m t0 hpc).2
      have hless : s'.work.conn.rxCount < n := by
        rw [hconn']
        show s'.conn.rxCount - min s'.conn.rxCount m < n
        omega
      have hfin' : s'.work.conn.peerFin = true := by
        rw [hconn']
        exact hfin
      obtain ⟨k, hk⟩ := ih _ hless hinv' hfin' rfl
      exact ⟨k + 1, hk⟩
  cases hpc : s.pc with
  | loop =>
    have hinv := h.work_loop hpc
    by_cases hread : s.work.Reading
    · have hgoes : s.work.conn = s.conn ∧ ∃ m t0, s.work.pc = .recv m t0 := by
        revert hread
        simp only [Exchange.work, hpc]
        split_ifs
        · exact fun hread => absurd hread id
        · exact fun _ => ⟨rfl, _, _, rfl⟩
        · exact fun hread => absurd hread id
      obtain ⟨k, hk⟩ := hrecv hinv hgoes.1 hgoes.2
      exact ⟨k + 1, hk⟩
    · exact ⟨1, hread⟩
  | recv m t0 => exact hrecv h rfl ⟨m, t0, hpc⟩
  | close | closing t0 | done ret =>
    exact ⟨0, by rw [run, replicate_zero, foldl_nil, Reading, hpc]; exact id⟩

/-- Once the loop is left, two rounds with enough time between them end the exchange. -/
lemma ends_of_left (h : ¬ s.Reading) : ∃ n ret,
    (run step s [.work, .tick n, .work]).pc = .done ret := by
  show ∃ n ret, (step (step s.work (.tick n)) .work).pc = .done ret
  cases hpc : s.pc with
  | loop | recv m t0 => exact absurd (by rw [Reading, hpc]; trivial) h
  | close =>
    cases hclose : tcpCloseStart s.now s.conn with
    | wait conn out =>
      have hwork : s.work = { s with conn, pc := .closing s.now } := by simp only [work,
        hpc, hclose]
      have hpoll : closePoll (s.now + tcpCloseTicks) s.now conn = false := by simp [closePoll]
      refine ⟨tcpCloseTicks, ?_⟩
      rw [hwork]
      simp only [step, work, hpoll]
      exact ⟨_, rfl⟩
    | done conn =>
      have hwork : s.work = s.finish conn := by simp only [work, hpc, hclose]
      rw [hwork]
      exact ⟨0, _, rfl⟩
  | closing t0 =>
    by_cases hpoll : closePoll s.now t0 s.conn = true
    · have hwork : s.work = s := by simp only [work, hpc, hpoll, if_true]
      have hlate : closePoll (s.now + (t0 + tcpCloseTicks)) t0 s.conn = false := by
        rw [closePoll, decide_eq_false (by omega), Bool.false_and, Bool.false_and, Bool.false_and]
      refine ⟨t0 + tcpCloseTicks, ?_⟩
      rw [hwork]
      simp only [step, work, hpc, hlate]
      exact ⟨_, rfl⟩
    · have hwork : s.work = s.finish (closeFinish s.now s.conn) := by
        simp only [work, hpc, hpoll, false_eq_true, if_false]
      rw [hwork]
      exact ⟨0, _, rfl⟩
  | done ret =>
    have hwork : s.work = s := by simp only [work, hpc]
    exact ⟨0, ret, by simp only [step, work, hpc]⟩

/-- The rest of the exchange needs nothing from the network: the FIN has been taken, or the worker
has left the loop. -/
def Settled (s : Exchange) : Prop := s.conn.peerFin = true ∨ ¬ s.Reading

lemma Settled.delivers_work (h : s.Settled) : s.Delivers R irs .work := by
  rcases h with hfin | hleft
  · exact delivers_work_of_fin hfin
  · unfold Delivers
    dsimp only
    split
    · next hpc => exact absurd (by rw [Reading, hpc]; trivial) hleft
    · trivial

lemma Settled.work (h : s.Settled) : s.work.Settled := by
  unfold Exchange.work
  cases hpc : s.pc with
  | loop =>
    have hfin := h.resolve_right fun hleft => hleft (by rw [Reading, hpc]; trivial)
    split_ifs <;> exact .inl hfin
  | recv m t0 =>
    have hfin := h.resolve_right fun hleft => hleft (by rw [Reading, hpc]; trivial)
    dsimp only
    split
    · exact h
    · next ret bytes conn out hdone =>
      have hkeeps : conn.peerFin = s.conn.peerFin := by
        rcases tcpRecvStep_done hdone with ⟨rfl, -⟩ | ⟨n, -, rfl, -⟩
        · rfl
        · rfl
      split_ifs <;> exact .inl (hkeeps.trans hfin)
  | close =>
    dsimp only
    split <;> exact .inr id
  | closing t0 =>
    dsimp only
    split
    · exact h
    · exact .inr id
  | done ret => exact h

lemma Settled.along {es : List ExchangeEvent} (h : s.Settled)
    (hes : ∀ g, .segment g ∉ es) : Along step (Delivers R irs) s es := by
  induction es generalizing s with
  | nil => trivial
  | cons e es ih =>
    have hrest : ∀ g, .segment g ∉ es := fun g hg => hes g (mem_cons_of_mem _ hg)
    cases e with
    | segment g => exact absurd mem_cons_self (hes g)
    | tick n => exact ⟨trivial, ih h hrest⟩
    | work => exact ⟨h.delivers_work, ih h.work hrest⟩

lemma Inv.ends (h : Inv R irs s) (hset : s.Settled) : ∃ k n ret, (run .step s
      (replicate k .work ++ [.work, .tick n, .work])).pc = .done ret := by
  have hleaves : ∃ k, ¬ (run .step s (replicate k .work)).Reading := by
    rcases hset with hfin | hleft
    · exact h.leaves hfin
    · exact ⟨0, hleft⟩
  obtain ⟨k, hk⟩ := hleaves
  obtain ⟨n, ret, hret⟩ := ends_of_left hk
  exact ⟨k, n, ret, by rw [run_append]; exact hret⟩

/-! ## What is kept -/

lemma step_cap (s : Exchange) (e : ExchangeEvent) : (s.step e).job.cap = s.job.cap := by
  cases e with
  | segment g | tick n => rfl
  | work =>
    simp only [step, work]
    split
    · split_ifs <;> rfl
    · split
      · rfl
      · split_ifs <;> rfl
    · split <;> rfl
    · split_ifs <;> rfl
    · rfl

lemma run_cap (s : Exchange) (es : List ExchangeEvent) : (run step s es).job.cap = s.job.cap := by
  induction es generalizing s with
  | nil => rfl
  | cons e es ih => exact (ih _).trans (step_cap s e)

lemma min_limit_eq_iff (L cap : ℕ) : min L (limit cap) = min L (cap - 1) ↔
    cap - 1 < 2 ^ 16 ∨ L ≤ (cap - 1) % 2 ^ 16 := by
  unfold limit
  split_ifs with h
  · exact iff_of_true rfl (.inl h)
  · omega

lemma Inv.kept_iff_min (h : Inv R irs s) {ret : ℤ} (hdone : s.pc = .done ret) :
    Kept R s ↔ min R.length (limit s.job.cap) = min R.length (s.job.cap - 1) := by
  have hleft : ¬ s.Reading := by
    rw [Reading, hdone]
    exact id
  have hstored := h.left hleft
  have hlen : s.job.len = min R.length (limit s.job.cap) := by
    rw [← length_stored, hstored, length_take, min_comm]
  constructor
  · intro hkept
    rw [← hlen]
    exact hkept.1
  · intro hmin
    refine ⟨hlen.trans hmin, ?_, h.ended ret hdone⟩
    rw [hstored, hlen]
    exact (take_eq_take_iff.2 (by omega))

/-- **The response is kept** exactly if the buffer has room for less than 65536 bytes, or the
response is not longer than that room modulo 65536. For every such exchange: once the FIN has been
taken, or the worker has left the loop, finitely many rounds of the worker and some time end it; and
when it has ended, the buffer holds the response as far as it fits, and is terminated, if and only
if the condition holds.

**Proof sketch.** `tcp_recv` is never asked for more than the distance to `limit`, and for nothing
there (`room_eq`), so that the buffer ends up with the first `limit` bytes (`inv_run`). -/
theorem kept_iff {c : Conn} (h : Opened R irs c) (buf : ByteMemory) (cap now : ℕ)
    {es : List ExchangeEvent} (hes : Along step (Delivers R irs) (start c buf cap now) es)
    {s : Exchange} (hs : s = run step (start c buf cap now) es) :
    (s.Settled → ∃ k n ret,
      Along step (Delivers R irs) s
        (List.replicate k .work ++ [.work, .tick n, .work]) ∧
      (run step s (List.replicate k .work ++ [.work, .tick n, .work])).pc = .done ret) ∧
    ∀ ret, s.pc = .done ret →
      (Kept R s ↔ cap - 1 < 2 ^ 16 ∨ R.length ≤ (cap - 1) % 2 ^ 16) := by
  have hinv : Inv R irs s := hs ▸ inv_run h buf cap now hes
  have hcap' : s.job.cap = cap := hs ▸ run_cap _ _
  constructor
  · intro hset
    obtain ⟨k, n, ret, hend⟩ := hinv.ends hset
    refine ⟨k, n, ret, hset.along fun g hg => ?_, hend⟩
    simp [mem_replicate] at hg
  · intro ret hdone
    rw [hinv.kept_iff_min hdone, hcap', min_limit_eq_iff]

/-! ## A short response -/

/-- `HTTP/1.0 200 OK`, without headers and body. -/
def statusLine : List UInt8 :=
  [0x48, 0x54, 0x54, 0x50, 0x2F, 0x31, 0x2E, 0x30, 0x20, 0x32, 0x30, 0x30, 0x20, 0x4F, 0x4B, 13, 10,
    13, 10]

/-- A connection on which the request has been sent. -/
def asking : Conn :=
  { Conn.zero with
    inUse := true, role := .client, state := .established, ackNum := 1, rxBuf := some fun _ => 0 }

/-- The whole response and the FIN, in one segment. -/
def statusSegment : Segment := ⟨80, 50000, 1, 0, tcpFlagAck ||| tcpFlagFin, statusLine⟩

/-- The response arrives, and the worker goes on until it has closed the connection. -/
def oneSegment (rounds : ℕ) : List ExchangeEvent :=
  .segment statusSegment :: (List.replicate rounds .work ++ [.tick tcpCloseTicks, .work])

lemma opened_asking : Opened statusLine 0 asking :=
  ⟨rfl, .inl rfl, rfl, by decide, by decide, rfl, nil_prefix, by decide, nofun⟩

lemma along_oneSegment (cap rounds : ℕ) : Along step (Delivers statusLine 0)
    (start asking (fun _ => 0) cap 0) (oneSegment rounds) := by
  refine ⟨fun _ => ⟨by decide, by decide, 0, by decide, by decide, by decide, by decide, ?_, ?_⟩,
    Settled.along (.inl ?_) (by simp [mem_replicate])⟩
  · show 0 + asking.rxBytes.length < 0 + 2 ^ 32
    decide
  · show 0 + statusLine.length < 0 + asking.rxBytes.length + 2 ^ 32
    decide
  · show (tcpStreamInput 0 asking statusSegment).conn.peerFin = true
    decide

/-- The response in a buffer of 64 bytes. -/
theorem kept_iff_status : Along step (Delivers statusLine 0)
      (start asking (fun _ => 0) 64 0) (oneSegment 5) ∧
    (run step (start asking (fun _ => 0) 64 0) (oneSegment 5)).pc = .done 200 ∧
    Kept statusLine (run step (start asking (fun _ => 0) 64 0) (oneSegment 5)) := by
  have hdone : (run step (start asking (fun _ => 0) 64 0) (oneSegment 5)).pc =
      .done 200 := by decide +kernel
  have halong := along_oneSegment 64 5
  exact ⟨halong, hdone,
    ((kept_iff opened_asking (fun _ => 0) 64 0 halong rfl).2 200 hdone).2 (.inl (by decide))⟩

/-- **Nothing is kept.** With a buffer of 65537 bytes `tcp_recv` is asked for no byte at all, and
the request fails although the whole response has arrived. -/
theorem nothing_kept : Along step (Delivers statusLine 0)
      (start asking (fun _ => 0) 65537 0) (oneSegment 2) ∧
    (run step (start asking (fun _ => 0) 65537 0) (oneSegment 2)).pc = .done (-1) ∧
    ¬ Kept statusLine (run step (start asking (fun _ => 0) 65537 0) (oneSegment 2)) := by
  refine ⟨along_oneSegment 65537 2, by decide +kernel, fun hkept => ?_⟩
  have hlen : (run step (start asking (fun _ => 0) 65537 0) (oneSegment 2)).job.len = 0 := by
    decide +kernel
  have hcap := run_cap (start asking (fun _ => 0) 65537 0) (oneSegment 2)
  have hmin := hkept.1
  exact absurd hmin (by decide)

end Exchange

end SubOS.Net.Http
