import Mathlib.Data.List.Sublists
import SubOS.Net.Tcp.SlotStep

set_option autoImplicit false

/-!
# What reaches the built-in services

A payload should reach sshd and httpd only on a connection with a finished three-way handshake, and
each position of the peer's stream only once. `tcp_server_input` checks neither: any segment to a
service port allocates a connection, any segment that is not SYN, FIN or RST ends SYN_RCVD, and a
payload is served whatever its sequence number.

## Main definitions

* `ServedProperly`, `serviceChecked` — the property, and the missing checks.

## Main results

* `served_after_handshake_once`, `served_without_handshake_and_twice` — with and without them.
-/

namespace SubOS.Tcp

open EventRun List SerialNumber

/-! ## Histories -/

/-- The slot an observation is about. -/
def Obs.slot : Obs → Option Slot
  | .opened i => some i
  | .rx i _ => some i
  | .tx i _ => i
  | .served i _ _ => some i

/-- A payload was handed to a service. -/
def Obs.isServed : Obs → Bool
  | .served .. => true
  | _ => false

/-- What was observed at the connection in slot `i` since it was opened, newest first. -/
def connHistory (i : Slot) : List Obs → List Obs
  | [] => []
  | o :: t =>
    if o = .opened i then []
    else if o.slot = some i then o :: connHistory i t
    else connHistory i t

/-- A SYN was received, a SYN-ACK was sent for it, and then the SYN-ACK was acknowledged. -/
def HandshakeDone (i : Slot) (h : List Obs) : Prop :=
  ∃ syn synAck ack, syn.has tcpFlagSyn = true ∧
    (synAck.flags = tcpFlagSyn ||| tcpFlagAck ∧ synAck.ack = syn.seq + 1) ∧
    (ack.has tcpFlagAck = true ∧ ack.ack = synAck.seq + 1) ∧
    [.rx i ack, .tx (some i) synAck, .rx i syn].Sublist h

/-- Every payload was handed over on a finished handshake. -/
def ServedAfterHandshake (i : Slot) : List Obs → Prop
  | [] => True
  | o :: h => (o.isServed = true → HandshakeDone i h) ∧ ServedAfterHandshake i h

/-- The number of payload bytes received since the SYN. -/
def received : List Obs → ℕ
  | [] => 0
  | .rx _ g :: h => if g.has tcpFlagSyn then 0 else received h + g.payload.length
  | _ :: h => received h

/-- A payload handed to a service. -/
structure Handed where
  /-- Where it begins in the peer's stream: the payload bytes received before it. -/
  start : ℕ
  seq : Seq
  payload : List UInt8

/-- The payloads handed over, newest first. The segment that carried a payload was received
last before it was handed over. -/
def handed : List Obs → List Handed
  | [] => []
  | .served _ seq payload :: h => ⟨received h - payload.length, seq, payload⟩ :: handed h
  | _ :: h => handed h

/-- Payloads are handed over on finished handshakes, each at the sequence number of its
position in the peer's stream, and no position is handed over twice. -/
structure ServedProperly (i : Slot) (h : List Obs) : Prop where
  handshake : ServedAfterHandshake i h
  place : ∃ base : Seq, ∀ x ∈ handed h, x.seq = base + BitVec.ofNat 32 x.start
  once : (handed h).Pairwise fun late early => early.start + early.payload.length ≤ late.start

/-! ## The checks -/

/-- What should be checked of a segment for a SERVICE connection that does not linger: a SYN
comes only before the handshake is finished, the segment that finishes it acknowledges the
SYN-ACK, and a payload begins at `ack_num`. -/
def Conn.admits (c : Conn) (g : Segment) : Bool :=
  if g.has tcpFlagSyn then c.state == .synRcvd
  else if g.has tcpFlagFin || g.has tcpFlagRst then true
  else
    match c.state with
    | .synRcvd => g.has tcpFlagAck && g.ack == c.seqNum && (g.payload.isEmpty || g.seq == c.ackNum)
    | .established => g.payload.isEmpty || g.seq == c.ackNum
    | _ => false

/-- The segment passes the checks: `admits` on a SERVICE connection, and a segment to a service
port from an unknown peer carries SYN (or FIN or RST, which leave no connection behind). -/
def serviceChecked (s : Net) : Event → Bool
  | .rx env packet srcIp =>
    match parseSegment packet with
    | none => true
    | some g =>
      match findConn s srcIp g.srcPort g.dstPort with
      | some i =>
        (s.conns i).state == .timeWait || (s.conns i).role != .service || (s.conns i).admits g
      | none =>
        !(env.isSshPort g.dstPort || env.isHttpPort g.dstPort) ||
          (g.has tcpFlagSyn || g.has tcpFlagFin || g.has tcpFlagRst)
  | _ => true

/-- The event is an inbound packet or time passing. -/
def Event.isInbound : Event → Bool
  | .rx .. => true
  | .tick _ => true
  | _ => false

/-! ## Lemmas on histories -/

variable {i : Slot} {h l : List Obs} {c : Conn}

lemma connHistory_other (h : ∀ o ∈ l, o.slot ≠ some i) (t : List Obs) :
    connHistory i (l ++ t) = connHistory i t := by
  induction l with
  | nil => rfl
  | cons o l ih =>
    rw [forall_mem_cons] at h
    have hne : o ≠ .opened i := fun he => h.1 (by rw [he]; rfl)
    simp only [cons_append, connHistory, hne, ↓reduceIte, h.1, ih h.2]

lemma connHistory_self (h : ∀ o ∈ l, o.slot = some i ∧ o ≠ .opened i)
    (t : List Obs) : connHistory i (l ++ t) = l ++ connHistory i t := by
  induction l with
  | nil => rfl
  | cons o l ih =>
    rw [forall_mem_cons] at h
    simp only [cons_append, connHistory, h.1.2, ↓reduceIte, h.1.1, ih h.2]

lemma HandshakeDone.cons (hd : HandshakeDone i h) (o : Obs) : HandshakeDone i (o :: h) := by
  obtain ⟨syn, synAck, ack, h₁, h₂, h₃, hsub⟩ := hd
  exact ⟨syn, synAck, ack, h₁, h₂, h₃, hsub.cons o⟩

@[simp] lemma handed_cons_of_not {o : Obs} (ho : o.isServed = false) (h : List Obs) :
    handed (o :: h) = handed h := by
  cases o <;> first | rfl | cases ho

lemma handed_append (hl : ∀ o ∈ l, o.isServed = false) (h : List Obs) :
    handed (l ++ h) = handed h := by
  induction l with
  | nil => rfl
  | cons o l ih =>
    rw [forall_mem_cons] at hl
    rw [cons_append, handed_cons_of_not hl.1, ih hl.2]

lemma servedAfterHandshake_append (hl : ∀ o ∈ l, o.isServed = false)
    (hs : ServedAfterHandshake i h) : ServedAfterHandshake i (l ++ h) := by
  induction l with
  | nil => exact hs
  | cons o l ih =>
    rw [forall_mem_cons] at hl
    exact ⟨fun ho => absurd (hl.1.symm.trans ho) (by decide), ih hl.2⟩

lemma ServedProperly.append (hs : ServedProperly i h)
    (hl : ∀ o ∈ l, o.isServed = false) : ServedProperly i (l ++ h) := by
  obtain ⟨h₁, h₂, h₃⟩ := hs
  refine ⟨servedAfterHandshake_append hl h₁, ?_, ?_⟩
  · rwa [handed_append hl]
  · rwa [handed_append hl]

lemma servedProperly_nil (i : Slot) : ServedProperly i [] := ⟨trivial, ⟨0, nofun⟩, .nil⟩

/-! ## The server state machine -/

/-- The SYN was answered by the SYN-ACK at 10000. -/
def SynAcked (i : Slot) (h : List Obs) : Prop :=
  ∃ syn synAck, syn.has tcpFlagSyn = true ∧
    (synAck.flags = tcpFlagSyn ||| tcpFlagAck ∧ synAck.ack = syn.seq + 1) ∧ synAck.seq = 10000 ∧
    [.tx (some i) synAck, .rx i syn].Sublist h

/-- The stream received so far ends at `ack`, and the payloads handed over are parts of it. -/
def InStep (h : List Obs) (ack : Seq) : Prop :=
  ∃ base : Seq, ack = base + BitVec.ofNat 32 (received h) ∧
    ∀ x ∈ handed h, x.seq = base + BitVec.ofNat 32 x.start ∧
      x.start + x.payload.length ≤ received h

/-- What a SERVICE connection knows of its history. -/
def ServiceInv (i : Slot) (c : Conn) (h : List Obs) : Prop :=
  match c.state with
  | .synRcvd => c.seqNum = 10000 + 1 ∧ received h = 0 ∧ handed h = [] ∧ SynAcked i h
  | .established => HandshakeDone i h ∧ InStep h c.ackNum
  | _ => True

/-- The history of a slot is proper, and its SERVICE connection, if it holds one, knows it. -/
structure SlotOk (i : Slot) (c : Conn) (h : List Obs) : Prop where
  proper : ServedProperly i h
  service : c.inUse = true → c.role = .service → ServiceInv i c h

lemma SlotOk.of_proper (hs : ServedProperly i h)
    (hc : c.inUse = false ∨ c.role ≠ .service ∨ c.state = .timeWait ∨ c.state = .closed) :
    SlotOk i c h := by
  refine ⟨hs, fun huse hrole => ?_⟩
  rcases hc with hc | hc | hc | hc
  · cases hc.symm.trans huse
  · exact absurd hrole hc
  · rw [ServiceInv, hc]; trivial
  · rw [ServiceInv, hc]; trivial

/-- The observation of a payload handed over, if there was one. -/
def servedObs (i : Slot) (seq : Seq) : Option (List UInt8) → List Obs
  | none => []
  | some payload => [.served i seq payload]

/-- The observations of segments sent for the connection in a slot. -/
def txObs (i : Slot) (out : List Packet) : List Obs := (out.map (Obs.tx (some i))).reverse

variable (s : Net) {out : List Packet} {j : Slot} (srcIp : UInt32)

lemma isServed_txObs : ∀ o ∈ txObs i out, o.isServed = false := by
  intro o ho
  simp only [txObs, mem_reverse, mem_map] at ho
  obtain ⟨p, -, rfl⟩ := ho
  rfl

lemma received_txObs (i : Slot) (out : List Packet) (h : List Obs) :
    received (txObs i out ++ h) = received h := by
  unfold txObs
  induction out generalizing h with
  | nil => rfl
  | cons p out ih =>
    rw [map_cons, reverse_cons, append_assoc, ih]
    rfl

lemma HandshakeDone.append (hd : HandshakeDone i h) (l : List Obs) : HandshakeDone i (l ++ h) := by
  induction l with
  | nil => exact hd
  | cons o l ih => exact ih.cons o

lemma InStep.txObs {ack : Seq} (hs : InStep h ack) (i : Slot) (out : List Packet) :
    InStep (txObs i out ++ h) ack := by
  unfold InStep
  rwa [received_txObs, handed_append isServed_txObs]

section

variable {i : Slot} {h : List Obs} {c c' : Conn} {g : Segment}

lemma InStep.rx (hs : InStep h c.ackNum) (hsyn : g.has tcpFlagSyn = false) :
    InStep (.rx i g :: h) (c.ackNum + g.len) := by
  obtain ⟨base, hack, hx⟩ := hs
  have hrec : received (.rx i g :: h) = received h + g.payload.length := by simp [received, hsyn]
  refine ⟨base, ?_, fun x hmem => ?_⟩
  · rw [hrec, hack, Segment.len, add_ofNat_add]
  · obtain ⟨h₁, h₂⟩ := hx x hmem
    exact ⟨h₁, by rw [hrec]; omega⟩

/-- A payload handed over right after it was received takes the last part of the stream. -/
lemma ServedProperly.serve (hs : ServedProperly i h) (hstep : InStep h c.ackNum)
    (hsyn : g.has tcpFlagSyn = false) (hseq : g.seq = c.ackNum)
    (hdone : HandshakeDone i (.rx i g :: h)) :
    ServedProperly i (.served i g.seq g.payload :: .rx i g :: h) ∧
      InStep (.served i g.seq g.payload :: .rx i g :: h) (c.ackNum + g.len) := by
  have hrec : received (.rx i g :: h) = received h + g.payload.length := by simp [received, hsyn]
  have hnew : handed (.served i g.seq g.payload :: .rx i g :: h) =
      ⟨received h, g.seq, g.payload⟩ :: handed h := by
    simp only [handed, hrec, Nat.add_sub_cancel]
  obtain ⟨base, hack, hx⟩ := hstep
  refine ⟨⟨⟨fun _ => hdone, nofun, hs.handshake⟩, ⟨base, ?_⟩, ?_⟩, base, ?_, ?_⟩
  · rw [hnew, forall_mem_cons]
    exact ⟨hseq.trans hack, fun x hmem => (hx x hmem).1⟩
  · rw [hnew, pairwise_cons]
    exact ⟨fun x hmem => (hx x hmem).2, hs.once⟩
  · change _ = base + BitVec.ofNat 32 (received (.rx i g :: h))
    rw [hrec, hack, Segment.len, add_ofNat_add]
  · change ∀ x ∈ handed _, _ ∧ _ ≤ received (.rx i g :: h)
    rw [hnew, forall_mem_cons, hrec]
    refine ⟨⟨hseq.trans hack, le_rfl⟩, fun x hmem => ?_⟩
    obtain ⟨h₁, h₂⟩ := hx x hmem
    exact ⟨h₁, by omega⟩

/-- What a plain segment (without SYN, FIN and RST) should find: the handshake is finished, if
not before then by this segment, and its payload comes next. -/
structure PlainOk (i : Slot) (c : Conn) (g : Segment) (h : List Obs) : Prop where
  done : HandshakeDone i (.rx i g :: h)
  inStep : InStep h c.ackNum
  seq : g.payload ≠ [] → g.seq = c.ackNum

lemma ServedProperly.rx_tx (hs : ServedProperly i h) (g : Segment) (out : List Packet) :
    ServedProperly i (txObs i out ++ .rx i g :: h) := by
  rw [append_cons]
  refine hs.append fun o ho => ?_
  rcases mem_append.1 ho with ho | ho
  · exact isServed_txObs o ho
  · rw [mem_singleton.1 ho]; rfl

lemma slotOk_established (hs : ServedProperly i h) (hsyn : g.has tcpFlagSyn = false)
    (hplain : PlainOk i c g h) (hst : c'.state = .established) (hack : c'.ackNum = c.ackNum + g.len)
    (out : List Packet) : SlotOk i c' (txObs i out ++ .rx i g :: h) := by
  refine ⟨hs.rx_tx g out, fun _ _ => ?_⟩
  rw [ServiceInv, hst]
  refine ⟨hplain.done.append _, .txObs ?_ i out⟩
  rw [hack]
  exact hplain.inStep.rx hsyn

/-- A SERVICE connection, established or lingering, after a payload was handed over. -/
lemma slotOk_served (hs : ServedProperly i h) (hsyn : g.has tcpFlagSyn = false)
    (hplain : PlainOk i c g h) (hpay : g.payload ≠ [])
    (hst : c'.state = .established ∨ c'.state = .timeWait) (hack : c'.ackNum = c.ackNum + g.len)
    (out : List Packet) :
    SlotOk i c' (txObs i out ++ .served i g.seq g.payload :: .rx i g :: h) := by
  obtain ⟨hproper, hstep⟩ := hs.serve hplain.inStep hsyn (hplain.seq hpay) hplain.done
  refine ⟨hproper.append isServed_txObs, fun _ _ => ?_⟩
  rcases hst with hst | hst
  · rw [ServiceInv, hst]
    refine ⟨(hplain.done.cons _).append _, ?_⟩
    rw [hack]
    exact hstep.txObs i out
  · rw [ServiceInv, hst]
    trivial

/-- The history after `tcp_server_input` has done `r` with a segment. -/
def serverHistory (i : Slot) (g : Segment) (r : ServerStep) (h : List Obs) : List Obs :=
  txObs i r.out ++ (servedObs i g.seq r.served ++ .rx i g :: h)

lemma serveRequest_slotOk (env : RxEnv) (now : ℕ) (srcIp : UInt32) (hs : ServedProperly i h)
    (hsyn : g.has tcpFlagSyn = false) (hplain : PlainOk i c g h) (hpay : g.payload ≠ [])
    (hst : c'.state = .established) (hack : c'.ackNum = c.ackNum + g.len) :
    SlotOk i (serveRequest env now c' srcIp g).conn
      (serverHistory i g (serveRequest env now c' srcIp g) h) := by
  unfold serveRequest
  dsimp only
  split_ifs
  · exact slotOk_served hs hsyn hplain hpay (by exact .inl hst) (by exact hack) _
  · exact slotOk_served hs hsyn hplain hpay (.inl hst) hack _
  · exact slotOk_served hs hsyn hplain hpay (by exact .inr rfl) (by exact hack) _
  · exact slotOk_served hs hsyn hplain hpay (.inl hst) hack _
  · exact slotOk_established hs hsyn hplain hst hack []

/-- **A checked segment keeps the properties of a SERVICE connection.**

**Proof sketch.** A SYN starts the history of the stream again, at a point where nothing was
handed over. FIN and RST free the slot. A plain segment finds the handshake finished; its
payload is the next part of the stream, and is handed over at most this once. -/
theorem tcpServerInput_slotOk (env : RxEnv) (now : ℕ) (srcIp : UInt32) (hs : ServedProperly i h)
    (hsyn : g.has tcpFlagSyn = true → handed h = [])
    (hplain : g.has tcpFlagSyn = false → g.has tcpFlagFin = false → g.has tcpFlagRst = false →
      PlainOk i c g h) :
    SlotOk i (tcpServerInput env now c srcIp g).conn
      (serverHistory i g (tcpServerInput env now c srcIp g) h) := by
  by_cases h₁ : g.has tcpFlagSyn = true
  · rw [tcpServerInput, if_pos h₁]
    refine ⟨hs.rx_tx g _, fun _ _ => ?_⟩
    refine ⟨rfl, ?_, ?_, g, serverReply
      { c with state := .synRcvd, ackNum := g.seq + 1, seqNum := 10000 } srcIp g
      (tcpFlagSyn ||| tcpFlagAck) [], h₁, ⟨rfl, rfl⟩, rfl, ?_⟩
    · rw [serverHistory, received_txObs]
      simp [received, servedObs, h₁]
    · rw [serverHistory, handed_append isServed_txObs]
      exact hsyn h₁
    · exact ((nil_sublist h).cons_cons _).cons_cons _
  rw [tcpServerInput, if_neg h₁]
  rw [Bool.not_eq_true] at h₁
  by_cases h₂ : g.has tcpFlagFin = true
  · rw [if_pos h₂]
    exact .of_proper (hs.rx_tx g _) (.inl rfl)
  rw [if_neg h₂]
  by_cases h₃ : g.has tcpFlagRst = true
  · rw [if_pos h₃]
    exact .of_proper (hs.rx_tx g []) (.inl rfl)
  rw [if_neg h₃]
  rw [Bool.not_eq_true] at h₂ h₃
  have hp := hplain h₁ h₂ h₃
  have hempty : g.payload = [] → c.ackNum = c.ackNum + g.len := fun he => by
    rw [Segment.len, he]
    exact (BitVec.add_zero _).symm
  split_ifs with h₄ h₅
  · exact slotOk_established hs h₁ hp (by rfl) (by exact hempty h₄.2.2) _
  · exact slotOk_established hs h₁ hp (by rfl) (by exact hempty h₅) []
  · refine serveRequest_slotOk env now srcIp hs h₁ hp h₅ rfl ?_
    rw [hp.seq h₅]

end

/-! ## The table -/

lemma slot_txObs : ∀ o ∈ txObs i out, o.slot = some i ∧ o ≠ .opened i := by
  intro o ho
  simp only [txObs, mem_reverse, mem_map] at ho
  obtain ⟨p, -, rfl⟩ := ho
  exact ⟨rfl, nofun⟩

lemma slot_servedObs {seq : Seq} {served : Option (List UInt8)} :
    ∀ o ∈ servedObs i seq served, o.slot = some i ∧ o ≠ .opened i := by
  cases served with
  | none => nofun
  | some payload =>
    intro o ho
    rw [mem_singleton.1 ho]
    exact ⟨rfl, nofun⟩

lemma listenerEnqueue_trace (j : Slot) :
    ∃ out, (listenerEnqueue s j).trace = txObs j out ++ s.trace := by
  unfold listenerEnqueue
  split
  · exact ⟨[], rfl⟩
  · dsimp only
    split
    · exact ⟨_, rfl⟩
    · exact ⟨[], rfl⟩

lemma streamDeliver_trace (j : Slot) (g : Segment) :
    ∃ out, (streamDeliver s j g).trace = txObs j out ++ s.trace := by
  unfold streamDeliver
  dsimp only
  split
  · obtain ⟨out, h⟩ := listenerEnqueue_trace
      ((s.setConn j (tcpStreamInput s.ticks (s.conns j) g).conn).emit (some j)
        (tcpStreamInput s.ticks (s.conns j) g).out) j
    refine ⟨(tcpStreamInput s.ticks (s.conns j) g).out ++ out, ?_⟩
    rw [h, txObs, txObs, map_append, reverse_append, append_assoc]
    rfl
  · exact ⟨_, rfl⟩

section

variable (env : RxEnv) {s' : Net}

lemma serverDeliver_trace (j : Slot) (srcIp : UInt32) (g : Segment) :
    (serverDeliver env s j srcIp g).trace =
      txObs j (tcpServerInput env s.ticks (s.conns j) srcIp g).out ++
        (servedObs j g.seq (tcpServerInput env s.ticks (s.conns j) srcIp g).served ++ s.trace) := by
  cases h : (tcpServerInput env s.ticks (s.conns j) srcIp g).served with
  | none | some payload => simp [serverDeliver, h, Net.logServed, servedObs, txObs]

/-- The connection in a slot and its history are proper. -/
def SlotProper (s : Net) (i : Slot) : Prop := SlotOk i (s.conns i) (connHistory i s.trace)

lemma SlotProper.of_same {s : Net} (h : SlotProper s i)
    (hc : s'.conns i = s.conns i ∨ s'.conns i = .zero)
    (ht : connHistory i s'.trace = connHistory i s.trace) : SlotProper s' i := by
  unfold SlotProper
  rw [ht]
  rcases hc with hc | hc <;> rw [hc]
  · exact h
  · exact .of_proper h.proper (.inl rfl)

lemma ServiceInv.plainOk {g : Segment}
    (hinv : ServiceInv i c h) (hadm : c.admits g = true) (h₁ : g.has tcpFlagSyn = false)
    (h₂ : g.has tcpFlagFin = false) (h₃ : g.has tcpFlagRst = false) : PlainOk i c g h := by
  simp only [Conn.admits, h₁, h₂, h₃, Bool.false_eq_true, ↓reduceIte, Bool.or_self] at hadm
  unfold ServiceInv at hinv
  split at hadm
  · next hst =>
    rw [hst] at hinv
    obtain ⟨hseq, hrec, hnone, syn, synAck, hsyn, hflags, hsa, hsub⟩ := hinv
    simp only [Bool.and_eq_true, Bool.or_eq_true, beq_iff_eq, List.isEmpty_iff] at hadm
    refine ⟨⟨syn, synAck, g, hsyn, hflags, ⟨hadm.1.1, ?_⟩, hsub.cons_cons _⟩, ?_,
      hadm.2.resolve_left⟩
    · rw [hadm.1.2, hseq, hsa]
    · refine ⟨c.ackNum, ?_, by rw [hnone]; nofun⟩
      rw [hrec]
      exact (BitVec.add_zero _).symm
  · next hst =>
    rw [hst] at hinv
    simp only [Bool.or_eq_true, beq_iff_eq, List.isEmpty_iff] at hadm
    exact ⟨hinv.1.cons _, hinv.2, hadm.resolve_left⟩
  · cases hadm

lemma tcpStreamInput_timeWait {now : ℕ} {g : Segment} (h : c.state = .timeWait) :
    (tcpStreamInput now c g).conn.state = .timeWait ∨
      (tcpStreamInput now c g).conn.state = .closed := by
  have hcase := tcpStreamInput_cases now c g
  generalize tcpStreamInput now c g = r at hcase ⊢
  cases hcase with
  | reset => exact .inr rfl
  | ignored | lingering => exact .inl h
  | synAck hst | simultaneous hst | handshake _ hst => cases h.symm.trans hst
  | data _ hst =>
    rw [h] at hst
    cases hst

attribute [local simp] Obs.slot

/-- What happens at slot `j` alone keeps the other slots proper. The trace may already hold the
opening of slot `j`. -/
lemma SlotProper.of_slot {s : Net} {j : Slot} (hl : ∀ o ∈ l, o.slot = some j ∧ o ≠ .opened j)
    (ht : s'.trace = l ++ s.trace) (hc : i ≠ j → s'.conns i = s.conns i)
    (hself : i = j → SlotOk j (s'.conns j) (l ++ connHistory j s.trace))
    (hother : i ≠ j → SlotProper s i) : SlotProper s' i := by
  by_cases hij : i = j
  · subst hij
    unfold SlotProper
    rw [ht, connHistory_self hl]
    exact hself rfl
  · refine (hother hij).of_same (.inl (hc hij)) ?_
    rw [ht, connHistory_other fun o ho => ?_]
    rw [(hl o ho).1]
    simpa using Ne.symm hij

lemma streamDeliver_proper (g : Segment)
    (hj : (s.conns j).state = .timeWait ∨ (s.conns j).role ≠ .service)
    (h : SlotProper s i) : SlotProper (streamDeliver (s.log (.rx j g)) j g) i := by
  have hconns := streamDeliver_conns (s.log (.rx j g)) j g
  obtain ⟨out, htrace⟩ := streamDeliver_trace (s.log (.rx j g)) j g
  refine .of_slot (l := txObs j out ++ [.rx j g]) (forall_mem_append.2 ⟨slot_txObs, by simp⟩)
    (by simpa using htrace) (fun hij => ?_) (fun hij => ?_) fun _ => h
  · rcases hconns with hc | hc <;> rw [hc, Function.update_of_ne hij] <;> rfl
  · subst hij
    rw [← append_cons]
    refine .of_proper (h.proper.rx_tx g out) ?_
    rcases hconns with hc | hc <;> rw [hc, Function.update_self]
    · rcases hj with hj | hj
      · exact .inr (.inr (tcpStreamInput_timeWait hj))
      · exact .inr (.inl (by rwa [(tcpStreamInput_keeps _ _ _).role]))
    · exact .inl rfl

/-- A segment given to the server state machine keeps the other slots proper, and the slot it is
for if `tcp_server_input` does. -/
lemma serverDeliver_proper (g : Segment)
    (hself : i = j → SlotOk j (tcpServerInput env s.ticks (s.conns j) srcIp g).conn
      (serverHistory j g (tcpServerInput env s.ticks (s.conns j) srcIp g) (connHistory j s.trace)))
    (hother : i ≠ j → SlotProper s i) :
    SlotProper (serverDeliver env (s.log (.rx j g)) j srcIp g) i := by
  have hconns := serverDeliver_conns env (s.log (.rx j g)) j srcIp g
  have htrace := serverDeliver_trace (s.log (.rx j g)) env j srcIp g
  refine .of_slot (forall_mem_append.2 ⟨slot_txObs, forall_mem_append.2 ⟨slot_servedObs,
    (by simp : ∀ o ∈ [Obs.rx j g], _)⟩⟩) (by simpa using htrace) (fun hij => ?_)
      (fun hij => ?_) hother
  · rw [hconns, Function.update_of_ne hij]; rfl
  · rw [hconns, Function.update_self]
    simpa [serverHistory] using hself hij

lemma deliver_proper (g : Segment) (hj : (s.conns j).inUse = true)
    (hadm : (s.conns j).state = .timeWait ∨ (s.conns j).role ≠ .service ∨
      (s.conns j).admits g = true) (h : SlotProper s i) :
    SlotProper (deliver env s j srcIp g) i := by
  unfold deliver
  dsimp only
  split_ifs with hstream
  · exact streamDeliver_proper s g hstream h
  · simp only [Net.log_conns, not_or, not_not] at hstream
    refine serverDeliver_proper s srcIp env g (fun hij => ?_) fun _ => h
    subst hij
    have hinv := h.service hj hstream.2
    replace hadm := (hadm.resolve_left hstream.1).resolve_left (not_not.2 hstream.2)
    refine tcpServerInput_slotOk env s.ticks srcIp h.proper (fun hsyn => ?_)
      (hinv.plainOk hadm)
    rw [Conn.admits, if_pos hsyn, beq_iff_eq] at hadm
    rw [ServiceInv, hadm] at hinv
    exact hinv.2.2.1

lemma reapTimeWait_proper {s : Net} (h : SlotProper s i) : SlotProper (reapTimeWait s) i :=
  h.of_same (reapTimeWait_slot s i) rfl

lemma SlotProper.of_opened {s : Net} {j : Slot} (h : SlotProper s i) (hij : i ≠ j)
    (hc : s'.conns i = (reapTimeWait s).conns i) (ht : s'.trace = .opened j :: s.trace) :
    SlotProper s' i := by
  refine (reapTimeWait_proper h).of_same (.inl hc) ?_
  rw [ht]
  exact connHistory_other (l := [.opened j]) (by simpa using Ne.symm hij) _

/-- A segment that opens a SERVICE connection keeps every slot proper, if it is checked. -/
lemma serviceOpen_proper (g : Segment)
    (hg : g.has tcpFlagSyn = true ∨ g.has tcpFlagFin = true ∨ g.has tcpFlagRst = true)
    (h : SlotProper s i) : SlotProper (serviceOpen env s srcIp g) i := by
  unfold serviceOpen
  rcases allocConn_cases s with ha | ⟨j, -, ha⟩ <;> rw [ha]
  · exact reapTimeWait_proper h
  · refine serverDeliver_proper ((((reapTimeWait s).setConn j .fresh).log
      (.opened j)).setConn j (newService env.localIp srcIp g)) srcIp env g (fun _ => ?_)
        fun hij => ?_
    · simp only [Net.setConn_trace, Net.log_trace, connHistory, ↓reduceIte]
      refine tcpServerInput_slotOk env s.ticks srcIp (servedProperly_nil j) (fun _ => rfl)
        fun h₁ h₂ h₃ => ?_
      simp [h₁, h₂, h₃] at hg
    · exact h.of_opened hij (by simp [hij]) rfl

lemma passiveOpen_proper (g : Segment)
    (h : SlotProper s i) : SlotProper (passiveOpen env s srcIp g) i := by
  unfold passiveOpen
  rcases allocConn_cases s with ha | ⟨j, -, ha⟩ <;> rw [ha]
  · exact reapTimeWait_proper h
  · have hother : i ≠ j → SlotProper (((reapTimeWait s).setConn j .fresh).log (.opened j)) i :=
      fun hij => h.of_opened hij (by simp [hij]) rfl
    dsimp only
    split
    · refine .of_slot (l := _ :: [.rx j g]) (by simp) rfl (fun hij => by simp [hij]) (fun _ => ?_)
        hother
      refine .of_proper ?_ (.inr (.inl (by simp [newAccepted])))
      simpa [connHistory, txObs] using (servedProperly_nil j).rx_tx g [_]
    · have hzero : SlotProper
          ((((reapTimeWait s).setConn j .fresh).log (.opened j)).setConn j .zero) i :=
        .of_slot (l := []) (by simp) rfl (fun hij => by simp [hij])
          (fun _ => .of_proper (by simpa [connHistory] using servedProperly_nil j)
            (.inl (by simp [Conn.zero]))) hother
      exact hzero

end

lemma step_proper (e : Event) (hin : e.isInbound = true) (he : serviceChecked s e = true)
    (h : SlotProper s i) : SlotProper (step s e) i := by
  cases e with
  | tick n => exact h
  | call task req => cases hin
  | resume task => cases hin
  | rx env packet srcIp =>
    simp only [step, tcpReceive]
    cases hg : parseSegment packet with
    | none => exact h
    | some g =>
      simp only [serviceChecked, hg] at he
      simp only [receiveSegment]
      cases hf : findConn s srcIp g.srcPort g.dstPort with
      | some j =>
        rw [hf] at he
        simp only [Bool.or_eq_true, beq_iff_eq, bne_iff_ne, or_assoc] at he
        exact deliver_proper s srcIp env g (findConn_inUse hf) he h
      | none =>
        rw [hf] at he
        split_ifs with h₁ h₂ h₃
        · exact passiveOpen_proper s srcIp env g h
        · simp only [h₂, Bool.not_true, Bool.false_or, Bool.or_eq_true, or_assoc] at he
          exact serviceOpen_proper s srcIp env g he h
        · exact h
        · exact h

/-- **The built-in services, under the missing checks.** Start from any state without SERVICE
connections. After any inbound packets and ticks, if every segment passes the checks of
`serviceChecked`, a payload was handed to sshd or httpd only after a SYN was received on its
connection, a SYN-ACK was sent and the SYN-ACK was acknowledged, and no position of a peer's
stream was handed over twice.

**Proof sketch.** `step_proper` keeps every slot proper along the run. -/
theorem served_after_handshake_once (s : Net)
    (hs : ∀ i, (s.conns i).inUse = true → (s.conns i).IsStream) (htrace : s.trace = [])
    (es : List Event) (hin : ∀ e ∈ es, e.isInbound = true)
    (hes : Along step (fun s e => serviceChecked s e = true) s es) (i : Slot) :
    ServedProperly i (connHistory i (run step s es).trace) := by
  have hinit : SlotProper s i := by
    refine .of_proper (by rw [htrace]; exact servedProperly_nil i) ?_
    cases huse : (s.conns i).inUse with
    | false => exact .inl rfl
    | true => exact .inr (.inl (hs i huse))
  have hinbound : Along step (fun _ e => e.isInbound = true) s es := along_of_mem hin
  have hboth := hes.and hinbound
  exact (run_invariant_of_along (fun s e h ho => step_proper s e ho.2 ho.1 h) hinit hboth).proper

/-! ## Segments that are not checked -/

/-- sshd runs on port 5000 and answers nothing. -/
def sshEnv : RxEnv := { quietEnv with sshdGetPort := 5000, sshdIsRunning := true }

/-- A handshake with sshd and the byte 65 behind it. -/
def sshByte : List Event :=
  [.rx sshEnv (bareSegment [0, 0, 0, 100] [0, 0, 0, 0] tcpFlagSyn) 9,
    .rx sshEnv (bareSegment [0, 0, 0, 101] [0, 0, 0x27, 0x11] tcpFlagAck) 9,
    .rx sshEnv (bareSegment [0, 0, 0, 101] [0, 0, 0x27, 0x11] tcpFlagAck ++ [65]) 9]

/-- The byte 65 for sshd, without a handshake. -/
def sshByteAlone : List Event :=
  [.rx sshEnv (bareSegment [0, 0, 0, 101] [0, 0, 0, 0] tcpFlagAck ++ [65]) 9]

/-- The handshake and the byte, and then the byte again. -/
def sshByteTwice : List Event :=
  sshByte ++ [.rx sshEnv (bareSegment [0, 0, 0, 101] [0, 0, 0x27, 0x11] tcpFlagAck ++ [65]) 9]

set_option maxRecDepth 4000 in
/-- The byte behind a handshake is handed to sshd. -/
theorem served_after_handshake_once_ssh :
    .served 0 101 [65] ∈ (run step tcpInit sshByte).trace ∧
      ServedProperly 0 (connHistory 0 (run step tcpInit sshByte).trace) :=
  ⟨by decide, served_after_handshake_once tcpInit (by decide) rfl sshByte (by decide)
    (by decide) 0⟩

lemma ServedAfterHandshake.length_le (hs : ServedAfterHandshake i h)
    (hany : h.any Obs.isServed = true) : 4 ≤ h.length := by
  induction h with
  | nil => cases hany
  | cons o h ih =>
    rw [any_cons, Bool.or_eq_true] at hany
    rcases hany with ho | hany
    · obtain ⟨syn, synAck, ack, -, -, -, hsub⟩ := hs.1 ho
      exact Nat.succ_le_succ hsub.length_le
    · exact (ih hs.2 hany).trans (Nat.le_succ _)

set_option maxRecDepth 4000 in
/-- The byte alone is handed to sshd although no SYN was ever received, and the byte sent twice
is handed to sshd twice. -/
theorem served_without_handshake_and_twice :
    (.served 0 101 [65] ∈ (runFrom sshByteAlone).trace ∧
      ¬ ServedProperly 0 (connHistory 0 (runFrom sshByteAlone).trace)) ∧
    ((runFrom sshByteTwice).trace.count (.served 0 101 [65]) = 2 ∧
      ¬ ServedProperly 0 (connHistory 0 (runFrom sshByteTwice).trace)) := by
  refine ⟨⟨by decide, fun h => ?_⟩, by decide, fun h => ?_⟩
  · exact absurd (h.handshake.length_le (by decide)) (by decide)
  · obtain ⟨base, hbase⟩ := h.place
    have hlist : (handed (connHistory 0 (runFrom sshByteTwice).trace)).map
        (fun x => (x.start, x.seq)) = [(1, 101), (0, 101)] := by decide
    have hall : ∀ y ∈ [(1, 101), (0, 101)], y.2 = base + BitVec.ofNat 32 y.1 := by
      rw [← hlist, forall_mem_map]
      exact hbase
    have hsame := (hall (1, 101) (by simp)).symm.trans (hall (0, 101) (by simp))
    exact absurd (add_ofNat_inj base (by decide) (by decide) hsame) (by decide)

end SubOS.Tcp
