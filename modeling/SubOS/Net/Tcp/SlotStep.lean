import SubOS.Net.Tcp.Table

set_option autoImplicit false

/-!
# What one event does to one connection

Every event changes a slot of the connection table in one of a few ways. Invariants of single
connections are proved by cases on them instead of on the events.

## Main definitions

* `SlotStep` — what an event can leave in a slot.

## Main results

* `step_slot` — there are no other ways.
-/

namespace SubOS.Tcp

open Function Conn

/-! ## The table functions, slot by slot -/

variable {c : Conn}

section

variable (s : Net)

@[simp] lemma Net.logServed_conns (i : Slot) (seq : Seq) (o : Option (List UInt8)) :
    (s.logServed i seq o).conns = s.conns := by
  cases o <;> rfl

@[simp] lemma Net.logServed_bytesSent (i : Slot) (seq : Seq)
    (o : Option (List UInt8)) : (s.logServed i seq o).bytesSent = s.bytesSent := by
  cases o <;> rfl

/-- `alloc_conn` reaps, and then takes a slot that is not in use, if there is one. -/
lemma allocConn_cases :
    allocConn s = (reapTimeWait s, none) ∨
      ∃ i, ((reapTimeWait s).conns i).inUse = false ∧
        allocConn s = (((reapTimeWait s).setConn i fresh).log (.opened i), some i) := by
  cases h : firstFree (reapTimeWait s) with
  | none => exact .inl (by simp [allocConn, h])
  | some i =>
    refine .inr ⟨i, ?_, by simp [allocConn, h]⟩
    simpa [firstFree] using List.find?_some h

lemma findConn_inUse {s : Net} {srcIp : UInt32} {srcPort dstPort : UInt16} {i : Slot}
    (h : findConn s srcIp srcPort dstPort = some i) : (s.conns i).inUse = true := by
  have := List.find?_some h
  simp only [Conn.matches, Bool.and_eq_true] at this
  exact this.1.1.1

lemma reapTimeWait_slot (i : Slot) :
    (reapTimeWait s).conns i = s.conns i ∨ (reapTimeWait s).conns i = zero := by
  simp only [reapTimeWait_conns]
  split
  · exact .inr rfl
  · exact .inl rfl

lemma listenerEnqueue_conns (i : Slot) :
    (listenerEnqueue s i).conns = s.conns ∨
      (listenerEnqueue s i).conns = update s.conns i zero := by
  unfold listenerEnqueue
  split
  · exact .inl rfl
  · dsimp only
    split
    · exact .inr rfl
    · exact .inl rfl

lemma streamDeliver_conns (i : Slot) (g : Segment) :
    (streamDeliver s i g).conns =
        update s.conns i (tcpStreamInput s.ticks (s.conns i) g).conn ∨
      (streamDeliver s i g).conns = update s.conns i zero := by
  unfold streamDeliver
  dsimp only
  split
  · rcases listenerEnqueue_conns ((s.setConn i (tcpStreamInput s.ticks (s.conns i) g).conn).emit
      (some i) (tcpStreamInput s.ticks (s.conns i) g).out) i with h | h
    · exact .inl (by simp [h])
    · exact .inr (by simp [h])
  · exact .inl (by simp)

lemma serverDeliver_conns (env : RxEnv) (s : Net) (i : Slot) (srcIp : UInt32) (g : Segment) :
    (serverDeliver env s i srcIp g).conns =
      update s.conns i (tcpServerInput env s.ticks (s.conns i) srcIp g).conn := by
  simp [serverDeliver]

lemma tcpServerInput_role (env : RxEnv) (now : ℕ) (srcIp : UInt32) (g : Segment)
    (h : c.role = .service) : (tcpServerInput env now c srcIp g).conn.role = .service := by
  rcases tcpServerInput_conn env now c srcIp g with hc | ⟨_, _, _, _, -, hc⟩ <;> rw [hc]
  · rfl
  · exact h

lemma listenerEnqueue_bytesSent (i : Slot) : (listenerEnqueue s i).bytesSent = s.bytesSent := by
  unfold listenerEnqueue
  split
  · rfl
  · dsimp only
    split <;> rfl

lemma streamDeliver_bytesSent (i : Slot) (g : Segment) :
    (streamDeliver s i g).bytesSent = s.bytesSent := by
  simp only [streamDeliver]
  split
  · rw [listenerEnqueue_bytesSent]; rfl
  · rfl

lemma serverDeliver_bytesSent (env : RxEnv) (s : Net) (i : Slot) (srcIp : UInt32)
    (g : Segment) : (serverDeliver env s i srcIp g).bytesSent = s.bytesSent := by
  simp [serverDeliver]

lemma refuseQueued_conns (i j : Slot) :
    (refuseQueued s j).conns i =
      if i = j ∧ (s.conns i).inUse = true then zero else s.conns i := by
  unfold refuseQueued
  by_cases hij : i = j
  · split <;> simp [*]
  · split <;> simp [hij]

end

lemma foldl_refuseQueued_conns (q : List Slot) (s : Net) (i : Slot) :
    (q.foldl refuseQueued s).conns i =
      if i ∈ q ∧ (s.conns i).inUse = true then zero else s.conns i := by
  induction q generalizing s with
  | nil => simp
  | cons j q ih =>
    rw [List.foldl_cons, ih, refuseQueued_conns]
    by_cases huse : (s.conns i).inUse = true
    · by_cases hij : i = j
      · subst hij
        simp [huse]
      · simp [hij]
    · simp [huse]

lemma foldl_refuseQueued_frame (q : List Slot) (s : Net) :
    (q.foldl refuseQueued s).listeners = s.listeners ∧
      (q.foldl refuseQueued s).calls = s.calls ∧ (q.foldl refuseQueued s).held = s.held := by
  induction q generalizing s with
  | nil => exact ⟨rfl, rfl, rfl⟩
  | cons j q ih =>
    rw [List.foldl_cons]
    obtain ⟨hl, hc, hh⟩ := ih (refuseQueued s j)
    rw [hl, hc, hh]
    unfold refuseQueued
    split <;> exact ⟨rfl, rfl, rfl⟩

lemma foldl_refuseQueued_bytesSent (q : List Slot) (s : Net) :
    (q.foldl refuseQueued s).bytesSent = s.bytesSent := by
  induction q generalizing s with
  | nil => rfl
  | cons j q ih =>
    rw [List.foldl_cons, ih, refuseQueued]
    split <;> rfl

/-! ## One event at one slot -/

/-- The connection an event gives a segment to, and that segment. -/
def deliveredTo (s : Net) : Event → Option (Slot × Segment)
  | .rx _ packet srcIp =>
    match parseSegment packet with
    | none => none
    | some g => (findConn s srcIp g.srcPort g.dstPort).map fun i => (i, g)
  | _ => none

/-- What the event `e` can leave in slot `i`. -/
inductive SlotStep (s : Net) (e : Event) (i : Slot) : Conn → Prop
  /-- The slot is as it was. -/
  | same : SlotStep s e i (s.conns i)
  /-- The slot was freed. -/
  | freed : SlotStep s e i Conn.zero
  /-- The slot holds a connection of a built-in service. -/
  | service {c : Conn} : c.role = .service → SlotStep s e i c
  /-- `tcp_connect` opened a connection. -/
  | client (localIp dstIp : UInt32) (localPort dstPort : UInt16) (iss : Seq) :
      SlotStep s e i (newClient localIp dstIp localPort dstPort iss)
  /-- A SYN to a listening port opened a connection. -/
  | accepted (localIp srcIp : UInt32) (g : Segment) (iss : Seq) :
      SlotStep s e i (newAccepted localIp srcIp g iss)
  /-- The stream state machine took a segment. -/
  | input (g : Segment) : deliveredTo s e = some (i, g) →
      SlotStep s e i (tcpStreamInput s.ticks (s.conns i) g).conn
  /-- `tcp_send` put `n` payload bytes on sequence numbers. -/
  | publish (n : ℕ) : (step s e).bytesSent = s.bytesSent + n →
      SlotStep s e i { s.conns i with seqNum := (s.conns i).seqNum + BitVec.ofNat 32 n }
  /-- `tcp_recv` took bytes out of the receive ring. -/
  | recv (n : ℕ) : n ≤ (s.conns i).rxCount → SlotStep s e i ((s.conns i).consume n)
  /-- `tcp_close` sent our FIN. -/
  | closeStart (next : State) : (s.conns i).state = .established ∨ (s.conns i).state = .closeWait →
      next = .finWait1 ∨ next = .lastAck →
      SlotStep s e i { s.conns i with seqNum := (s.conns i).seqNum + 1, state := next }
  /-- `tcp_close` left the connection in TIME_WAIT. -/
  | lingering : SlotStep s e i { s.conns i with
      state := .timeWait, rxBuf := none, rxHead := 0, rxCount := 0, closedAt := s.ticks }

section

variable {s : Net} {e : Event} {i : Slot}

lemma SlotStep.of_closeFinish : SlotStep s e i (closeFinish s.ticks (s.conns i)) := by
  rcases closeFinish_cases s.ticks (s.conns i) with h | h <;> rw [h]
  · exact .freed
  · exact .lingering

lemma SlotStep.of_reap (h : (reapTimeWait s).conns i = c) : SlotStep s e i c := by
  subst h
  rcases reapTimeWait_slot s i with h | h <;> rw [h]
  · exact .same
  · exact .freed

lemma SlotStep.of_update_reap {j : Slot} (hc : SlotStep s e i c) :
    SlotStep s e i (update (update (reapTimeWait s).conns j fresh) j c i)
    := by
  rw [update_idem]
  by_cases hij : i = j
  · subst hij; rwa [update_self]
  · rw [update_of_ne hij]; exact .of_reap rfl

lemma SlotStep.of_update {j : Slot} (hc : i = j → SlotStep s e i c) :
    SlotStep s e i (update s.conns j c i) := by
  by_cases hij : i = j
  · subst hij; rw [update_self]; exact hc rfl
  · rw [update_of_ne hij]; exact .same

end

lemma receiveSegment_slot (env : RxEnv) (s : Net) (packet : List UInt8) (srcIp : UInt32)
    {g : Segment} (hg : parseSegment packet = some g) (i : Slot) :
    SlotStep s (.rx env packet srcIp) i ((receiveSegment env s srcIp g).conns i) ∧
      (receiveSegment env s srcIp g).bytesSent = s.bytesSent := by
  unfold receiveSegment
  cases hf : findConn s srcIp g.srcPort g.dstPort with
  | some j =>
    dsimp only [deliver]
    split
    · refine ⟨?_, streamDeliver_bytesSent ..⟩
      rcases streamDeliver_conns (s.log (.rx j g)) j g with h | h <;> rw [h]
      · exact .of_update fun hij => by subst hij; exact .input g (by simp [deliveredTo, hg, hf])
      · exact .of_update fun _ => .freed
    · next hrole =>
      rw [serverDeliver_conns, serverDeliver_bytesSent]
      refine ⟨.of_update fun _ => .service (tcpServerInput_role _ _ _ _ ?_), rfl⟩
      by_contra hne
      exact hrole (.inr hne)
  | none =>
    split_ifs
    · unfold passiveOpen
      rcases allocConn_cases s with h | ⟨j, -, h⟩ <;> rw [h]
      · exact ⟨.of_reap rfl, rfl⟩
      · dsimp only
        split
        · exact ⟨.of_update_reap (.accepted _ _ _ _), rfl⟩
        · exact ⟨.of_update_reap .freed, rfl⟩
    · unfold serviceOpen
      rcases allocConn_cases s with h | ⟨j, -, h⟩ <;> rw [h]
      · exact ⟨.of_reap rfl, rfl⟩
      · rw [serverDeliver_conns, serverDeliver_bytesSent]
        simp only [Net.setConn_conns, Net.log_conns, update_idem]
        rw [← update_idem fresh]
        exact ⟨.of_update_reap (.service (tcpServerInput_role _ _ _ _ (by simp [newService]))), rfl⟩
    · exact ⟨.same, rfl⟩
    · exact ⟨.same, rfl⟩

section

variable (s : Net)

lemma start_slot (task : ℕ) (req : Request) (i : Slot) :
    SlotStep s (.call task req) i ((start s task req).conns i) ∧
      (start s task req).bytesSent = s.bytesSent := by
  cases req with
  | connect dstIp dstPort timeoutMs localIp ok prng iss =>
    simp only [start, tcpConnectStart]
    split_ifs
    · exact ⟨.same, rfl⟩
    · rcases allocConn_cases s with h | ⟨j, -, h⟩ <;> rw [h]
      · exact ⟨.of_reap rfl, rfl⟩
      · dsimp only
        split
        · exact ⟨.of_update_reap .freed, rfl⟩
        · exact ⟨.of_update_reap (.client _ _ _ _ _), rfl⟩
  | send j data =>
    simp only [start, tcpSendCall]
    split <;> exact ⟨.same, rfl⟩
  | recv j len timeoutMs =>
    simp only [start, tcpRecvCall]
    split <;> exact ⟨.same, rfl⟩
  | close j =>
    simp only [start, tcpCloseCall]
    split_ifs
    · simp only [tcpCloseStart, Net.setHeld_conns]
      split_ifs with h₁ h₂ h₃
      · exact ⟨.of_update fun hij => by subst hij; exact .same, rfl⟩
      · exact ⟨.of_update fun hij => by subst hij; exact .closeStart _ h₂ (.inr rfl), rfl⟩
      · exact ⟨.of_update fun hij => by subst hij; exact .closeStart _ h₂ (.inl rfl), rfl⟩
      · exact ⟨.of_update fun hij => by subst hij; exact .of_closeFinish, rfl⟩
    · exact ⟨.same, rfl⟩
  | listen port backlog =>
    simp only [start, tcpListen, claimPort]
    split_ifs
    · exact ⟨.same, rfl⟩
    · exact ⟨.same, rfl⟩
    · split <;> exact ⟨.same, rfl⟩
  | accept port timeoutMs =>
    simp only [start, tcpAcceptCall]
    split <;> exact ⟨.same, rfl⟩
  | unlisten port =>
    simp only [start, tcpUnlisten]
    split
    · exact ⟨.same, rfl⟩
    · rw [Net.setListener_conns, foldl_refuseQueued_conns, Net.setListener_bytesSent,
        foldl_refuseQueued_bytesSent]
      split
      · exact ⟨.freed, rfl⟩
      · exact ⟨.same, rfl⟩
  | getConnectionsCount => exact ⟨.of_reap rfl, rfl⟩

lemma resume_slot (task : ℕ) {call : Call} (hcall : s.calls task = some call)
    (i : Slot) : SlotStep s (.resume task) i ((resume s task call).conns i) ∧
      s.bytesSent ≤ (resume s task call).bytesSent := by
  cases call with
  | connect j t0 wait last =>
    simp only [resume, tcpConnectResume]
    split
    · exact ⟨.same, le_rfl⟩
    · exact ⟨.same, le_rfl⟩
    · exact ⟨.of_update fun _ => .freed, le_rfl⟩
  | send j call =>
    have hconns : (resume s task (.send j call)).conns =
        update s.conns j (tcpSendStep s.ticks (s.conns j) call).conn := by
      simp only [resume, tcpSendResume]
      split <;> simp
    have hbytes : (resume s task (.send j call)).bytesSent = s.bytesSent + call.published := by
      simp only [resume, tcpSendResume]
      split <;> rfl
    have hstep : step s (.resume task) = resume s task (.send j call) := by simp only [step, hcall]
    rw [hconns, tcpSendStep_conn]
    refine ⟨.of_update fun hij => ?_, hbytes ▸ Nat.le_add_right _ _⟩
    subst hij
    exact .publish _ (hstep ▸ hbytes)
  | recv j len t0 wait =>
    simp only [resume, tcpRecvResume]
    split
    · exact ⟨.same, le_rfl⟩
    · next h =>
      rcases tcpRecvStep_done h with ⟨rfl, -⟩ | ⟨n, hn, rfl, -⟩
      · exact ⟨.of_update fun hij => by subst hij; exact .same, le_rfl⟩
      · exact ⟨.of_update fun hij => by subst hij; exact .recv n hn, le_rfl⟩
  | close j t0 =>
    simp only [resume, tcpCloseResume]
    split_ifs
    · exact ⟨.same, le_rfl⟩
    · exact ⟨.of_update fun hij => by subst hij; exact .of_closeFinish, le_rfl⟩
  | accept l t0 wait =>
    simp only [resume, tcpAcceptResume]
    split
    · split <;> exact ⟨.same, le_rfl⟩
    · exact ⟨.same, le_rfl⟩

/-- **One event at one slot.** Whatever the event, what it leaves in a slot is one of the
cases of `SlotStep`; and the count of sent bytes does not decrease.

**Proof sketch.** By the event: `receiveSegment_slot`, `start_slot` and `resume_slot` go
through the functions that the event can call. -/
theorem step_slot (e : Event) (i : Slot) :
    SlotStep s e i ((step s e).conns i) ∧ s.bytesSent ≤ (step s e).bytesSent := by
  cases e with
  | rx env packet srcIp =>
    simp only [step, tcpReceive]
    split
    · exact ⟨.same, le_rfl⟩
    · next hg => exact (receiveSegment_slot env s packet srcIp hg i).imp_right fun h => h.ge
  | tick n => exact ⟨.same, le_rfl⟩
  | call task req =>
    simp only [step]
    split
    · exact (start_slot s task req i).imp_right fun h => h.ge
    · exact ⟨.same, le_rfl⟩
  | resume task =>
    simp only [step]
    split
    · exact ⟨.same, le_rfl⟩
    · next hcall => exact resume_slot s task hcall i

end

end SubOS.Tcp
