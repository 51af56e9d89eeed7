import SubOS.Net.Tcp.Owners

set_option autoImplicit false

/-!
# The invariant of the connection and listener tables

Every operation of the tables keeps one owner per slot, distinct connections distinct by their
addresses, and the listener queues within their backlog. The one operation that can break this
is the reaper, when it frees a connection that a `tcp_close` in progress still points to: the
slot may then be given to a new connection, which the `tcp_close` frees when it continues.

## Main definitions

* `TableInv` — the invariant.
* `SparesClosing`, `KeepsReclaimable` — the conditions on an event.
-/

namespace SubOS.Tcp

open Function

/-! ## The tables on their own -/

/-- Two connections have the same remote address, remote port and local port. -/
def Conn.SamePeer (c c' : Conn) : Prop :=
  c.remoteIp = c'.remoteIp ∧ c.remotePort = c'.remotePort ∧ c.localPort = c'.localPort

/-- No two slots in use have the same peer. -/
def TuplesDistinct (conns : Slot → Conn) : Prop :=
  ∀ i j, (conns i).inUse = true → (conns j).inUse = true → (conns i).SamePeer (conns j) → i = j

/-- A queue is within its backlog, without repetition, and empty when nobody listens. -/
structure Listener.Ok (x : Listener) : Prop where
  free : x.inUse = false → x.queue = []
  length : x.queue.length ≤ x.backlog
  backlog : x.backlog ≤ tcpBacklogMax
  nodup : x.queue.Nodup

/-- No two listeners share a port, and each is as it should be. -/
structure ListenersOk (listeners : ListenerSlot → Listener) : Prop where
  ports : ∀ l l', (listeners l).inUse = true → (listeners l').inUse = true →
    (listeners l).port = (listeners l').port → l = l'
  each : ∀ l, (listeners l).Ok

/-- The invariant of the tables. -/
structure TableInv (strict : Prop) (s : Net) : Prop where
  owned : ∃ own, Owned strict own s
  listeners : ListenersOk s.listeners
  tuples : TuplesDistinct s.conns

variable {l : ListenerSlot}

section

variable {conns conns' : Slot → Conn} {listeners : ListenerSlot → Listener} {j : Slot} {c : Conn}

lemma TuplesDistinct.of_keep (h : TuplesDistinct conns) (hkeep : ∀ i, (conns' i).inUse = true →
      (conns i).inUse = true ∧ (conns i).SamePeer (conns' i)) : TuplesDistinct conns' := by
  intro i j hi hj hsame
  obtain ⟨hi', hi₁, hi₂, hi₃⟩ := hkeep i hi
  obtain ⟨hj', hj₁, hj₂, hj₃⟩ := hkeep j hj
  exact h i j hi' hj' ⟨hi₁.trans (hsame.1.trans hj₁.symm), hi₂.trans (hsame.2.1.trans hj₂.symm),
    hi₃.trans (hsame.2.2.trans hj₃.symm)⟩

lemma TuplesDistinct.update_of_keep (h : TuplesDistinct conns)
    (hc : c.inUse = true → (conns j).inUse = true ∧ (conns j).SamePeer c) :
    TuplesDistinct (Function.update conns j c) := by
  refine h.of_keep fun i hi => ?_
  by_cases hij : i = j
  · subst hij
    rw [update_self] at hi ⊢
    exact hc hi
  · rw [update_of_ne hij] at hi ⊢
    exact ⟨hi, rfl, rfl, rfl⟩

lemma TuplesDistinct.update_of_new (h : TuplesDistinct conns)
    (hc : ∀ i, (conns i).inUse = true → ¬ (conns i).SamePeer c) :
    TuplesDistinct (Function.update conns j c) := by
  intro i k hi hk hsame
  by_cases hij : i = j <;> by_cases hkj : k = j
  · rw [hij, hkj]
  · rw [hij, update_self, update_of_ne hkj] at hsame
    rw [update_of_ne hkj] at hk
    exact absurd ⟨hsame.1.symm, hsame.2.1.symm, hsame.2.2.symm⟩ (hc k hk)
  · rw [hkj, update_self, update_of_ne hij] at hsame
    rw [update_of_ne hij] at hi
    exact absurd hsame (hc i hi)
  · rw [update_of_ne hij] at hi hsame
    rw [update_of_ne hkj] at hk hsame
    exact h i k hi hk hsame

lemma TuplesDistinct.reap {s : Net} (h : TuplesDistinct s.conns) :
    TuplesDistinct (reapTimeWait s).conns := by
  refine h.of_keep fun i hi => ?_
  rcases reapTimeWait_slot s i with hc | hc <;> rw [hc] at hi ⊢
  · exact ⟨hi, rfl, rfl, rfl⟩
  · cases hi

lemma ListenersOk.update (h : ListenersOk listeners) {x : Listener} (hx : x.Ok)
    (hport : x.inUse = true → ∀ k, k ≠ l → (listeners k).inUse = true →
      (listeners k).port ≠ x.port) : ListenersOk (Function.update listeners l x) := by
  refine ⟨fun k k' hk hk' hp => ?_, ?_⟩
  · by_cases h₁ : k = l <;> by_cases h₂ : k' = l
    · rw [h₁, h₂]
    · rw [h₁, update_self] at hk hp
      rw [update_of_ne h₂] at hk' hp
      exact absurd hp.symm (hport hk k' h₂ hk')
    · rw [h₂, update_self] at hk' hp
      rw [update_of_ne h₁] at hk hp
      exact absurd hp (hport hk' k h₁ hk)
    · rw [update_of_ne h₁] at hk hp
      rw [update_of_ne h₂] at hk' hp
      exact h.ports k k' hk hk' hp
  · exact (Function.forall_update_iff listeners fun _ x => x.Ok).2 ⟨hx, fun k _ => h.each k⟩

lemma ListenersOk.setQueue (h : ListenersOk listeners) {queue : List Slot}
    (hx : ({ listeners l with queue := queue } : Listener).Ok) :
    ListenersOk (Function.update listeners l { listeners l with queue := queue }) :=
  h.update hx fun huse k hk hk' hp => hk (h.ports k l hk' huse hp)

end

/-! ## The conditions -/

/-- The event calls `reap_time_wait`. -/
def reaps (s : Net) : Event → Bool
  | .rx env packet srcIp =>
    match parseSegment packet with
    | none => false
    | some g =>
      (findConn s srcIp g.srcPort g.dstPort).isNone &&
        (g.has tcpFlagSyn && !g.has tcpFlagAck && (findListener s g.dstPort).isSome ||
          (env.isSshPort g.dstPort || env.isHttpPort g.dstPort))
  | .call task (.connect dstIp dstPort _ _ _ _ _) =>
    (s.calls task).isNone && !(dstIp == 0 || dstPort == 0)
  | .call task .getConnectionsCount => (s.calls task).isNone
  | _ => false

/-- The event does not reap a connection that a `tcp_close` in progress points to. -/
def SparesClosing (s : Net) (e : Event) : Prop := reaps s e = true → ¬ ReapsClosing s

/-- The event does not take away what will free a connection: no RST closes a half-open
connection of a listener, or one in TIME_WAIT that no `tcp_close` waits for; and no
`tcp_unlisten` leaves a half-open connection without a listener. -/
structure KeepsReclaimable (s : Net) (e : Event) : Prop where
  halfOpen : ∀ p ∈ deliveredTo s e, p.2.has tcpFlagRst = true →
    ¬ ((s.conns p.1).role = .accepted ∧ (s.conns p.1).state = .synRcvd)
  lingering : ∀ p ∈ deliveredTo s e, p.2.has tcpFlagRst = true →
    (s.conns p.1).state = .timeWait → ∃ t t0, s.calls t = some (.close p.1 t0)
  unlisten : ∀ task port, e = .call task (.unlisten port) → Listening s port →
    ∀ i, (s.conns i).inUse = true → (s.conns i).role = .accepted →
      (s.conns i).state = .synRcvd → (s.conns i).localPort ≠ port

/-! ## Inbound segments -/

section

variable {strict : Prop} {s : Net} {g : Segment} {c : Conn} {srcIp : UInt32} {j : Slot} {now : ℕ}

lemma findListener_some {port : UInt16} (h : findListener s port = some l) :
    (s.listeners l).inUse = true ∧ (s.listeners l).port = port := by
  have := List.find?_some h
  simpa using this

lemma findListener_isSome {port : UInt16} : (findListener s port).isSome = true ↔
    Listening s port := by
  simp [findListener, Listening]

/-- No slot in use matches the address pair of a segment that belongs to no connection. -/
lemma findConn_none (h : findConn s srcIp g.srcPort g.dstPort = none) (hip : c.remoteIp = srcIp)
    (hport : c.remotePort = g.srcPort) (hlocal : c.localPort = g.dstPort) (i : Slot)
    (huse : (s.conns i).inUse = true) : ¬ (s.conns i).SamePeer c := by
  rintro ⟨h₁, h₂, h₃⟩
  have := List.find?_eq_none.1 h i (List.mem_finRange i)
  simp [Conn.matches, huse, h₁, h₂, h₃, hip, hport, hlocal] at this

lemma tcpStreamInput_enqueue (h : (tcpStreamInput now c g).enqueue = true) :
    c.role = .accepted ∧ c.state = .synRcvd ∧
      (tcpStreamInput now c g).conn.state = .established := by
  have hcase := tcpStreamInput_cases now c g
  generalize tcpStreamInput now c g = r at hcase h ⊢
  cases hcase with
  | handshake _ hst => exact ⟨by simpa using h, hst, rfl⟩
  | _ => cases h

/-- A lingering connection still lingers after a segment, unless a RST closes it or its
handshake is finished. -/
lemma Lingers.input (h : Lingers s c) (hstream : c.state = .timeWait ∨ c.IsStream)
    (hrst : g.has tcpFlagRst = false) (henq : (tcpStreamInput now c g).enqueue = false) :
    Lingers s (tcpStreamInput now c g).conn := by
  have hcase := tcpStreamInput_cases now c g
  have hrest : c.state = .timeWait ∨
      c.role = .accepted ∧ c.state = .synRcvd ∧ Listening s c.localPort := by
    rcases h with h | ⟨hrole, -⟩ | h
    · exact .inl h
    · exact .inl (hstream.resolve_right (not_not.2 hrole))
    · exact .inr h
  rcases hrest with hst | ⟨hrole, hst, hlis⟩
  · generalize tcpStreamInput now c g = r at hcase ⊢
    cases hcase with
    | reset h => cases hrst.symm.trans h
    | ignored | lingering => exact .inl hst
    | synAck h | simultaneous h | handshake _ h => cases hst.symm.trans h
    | data _ h => rw [hst] at h; cases h
  · generalize tcpStreamInput now c g = r at hcase henq ⊢
    cases hcase with
    | reset h => cases hrst.symm.trans h
    | ignored => exact .inr (.inr ⟨hrole, hst, hlis⟩)
    | handshake => rw [hrole] at henq; cases henq
    | synAck h | simultaneous h | lingering _ h => cases hst.symm.trans h
    | data _ h => rw [hst] at h; cases h

/-- The invariant does not depend on the clock and on the record of what was observed. -/
lemma TableInv.congr {s' : Net} (h : TableInv strict s) (hconns : s'.conns = s.conns)
    (hlisteners : s'.listeners = s.listeners) (hcalls : s'.calls = s.calls)
    (hheld : s'.held = s.held) : TableInv strict s' := by
  obtain ⟨⟨own, hown⟩, hlis, htup⟩ := h
  exact ⟨⟨own, hown.congr hconns hlisteners hcalls hheld⟩, hlisteners ▸ hlis, hconns ▸ htup⟩

/-- A half-open connection becomes `c`, whose handshake is finished, and goes to its listener or
is refused. -/
lemma listenerEnqueue_inv (h : TableInv strict s) {out : List Packet}
    (hrole : (s.conns j).role = .accepted) (hstate : (s.conns j).state = .synRcvd)
    (huse : (s.conns j).inUse = true) (hkeep : (s.conns j).Keeps c)
    (hopen : c.state = .established) :
    TableInv strict (listenerEnqueue ((s.setConn j c).emit (some j) out) j) := by
  obtain ⟨⟨own, hown⟩, hlis, htup⟩ := h
  have hnone : own j = .none := (hown.ok j).eq_none_of_synRcvd hrole hstate
  have hlisten : strict → Listening s (s.conns j).localPort := fun hs => by
    have hok := hown.ok j
    rw [hnone] at hok
    rcases hok hs huse with h | ⟨h, -⟩ | ⟨-, -, h⟩
    · cases hstate.symm.trans h
    · cases hrole.symm.trans h
    · exact h
  have hself : ((s.setConn j c).emit (some j) out).conns j = c := update_self ..
  have htup' : TuplesDistinct (Function.update s.conns j c) :=
    htup.update_of_keep fun _ => ⟨huse, hkeep.remoteIp.symm, hkeep.remotePort.symm,
      hkeep.localPort.symm⟩
  unfold listenerEnqueue
  rw [hself]
  split
  · next hfind =>
    have hfree : ¬ strict := fun hs => by
      have := findListener_isSome.2 (hlisten hs)
      rw [← hkeep.localPort] at this
      exact absurd this (by rw [show findListener s c.localPort = none from hfind]; decide)
    refine ⟨⟨own, (hown.setConn ?_).congr rfl rfl rfl rfl⟩, hlis, htup'⟩
    rw [hnone]
    exact fun hs => absurd hs hfree
  · next l hfind =>
    obtain ⟨hluse, hlport⟩ := findListener_some hfind
    dsimp only
    split
    · exact ⟨⟨own, (hown.free hnone).congr (by simp) rfl rfl rfl⟩, hlis, htup'.update_of_keep nofun⟩
    · next hroom =>
      refine ⟨⟨_, hown.enqueue hnone (hkeep.inUse.trans huse) (hkeep.role.trans hrole) hlport.symm
        (by rw [hopen]; rfl) rfl rfl rfl rfl⟩, hlis.setQueue ⟨?_, ?_, ?_, ?_⟩, htup'⟩
      · intro hfree
        cases hfree.symm.trans hluse
      · rw [List.length_append, List.length_singleton]
        exact Nat.lt_of_not_le hroom
      · exact (hlis.each l).backlog
      · have hout : j ∉ (s.listeners l).queue := fun hin => by
          rw [hown.queue, hnone] at hin
          cases hin
        exact List.concat_eq_append ▸ (hlis.each l).nodup.concat hout

lemma streamDeliver_inv (h : TableInv strict s) (huse : (s.conns j).inUse = true)
    (hstream : (s.conns j).state = .timeWait ∨ (s.conns j).IsStream)
    (hhalf : strict → g.has tcpFlagRst = true →
      ¬ ((s.conns j).role = .accepted ∧ (s.conns j).state = .synRcvd))
    (hlinger : strict → g.has tcpFlagRst = true → (s.conns j).state = .timeWait →
      ∃ t t0, s.calls t = some (.close j t0)) : TableInv strict (streamDeliver s j g) := by
  have hkeep := tcpStreamInput_keeps s.ticks (s.conns j) g
  unfold streamDeliver
  dsimp only
  split
  · next henq =>
    obtain ⟨hrole, hstate, hopen⟩ := tcpStreamInput_enqueue henq
    exact listenerEnqueue_inv h hrole hstate huse hkeep hopen
  · next henq =>
    rw [Bool.not_eq_true] at henq
    obtain ⟨⟨own, hown⟩, hlis, htup⟩ := h
    refine ⟨⟨own, (hown.setConn ?_).congr rfl rfl rfl rfl⟩, hlis, htup.update_of_keep fun _ =>
      ⟨huse, hkeep.remoteIp.symm, hkeep.remotePort.symm, hkeep.localPort.symm⟩⟩
    by_cases hnone : own j = .none
    · rw [hnone]
      intro hs _
      have hok := hown.ok j
      rw [hnone] at hok
      have hling := hok hs huse
      -- a RST would close the connection, but then its `tcp_close` owns it
      have hrst : g.has tcpFlagRst = false := by
        by_contra hrst
        rw [Bool.not_eq_false] at hrst
        have htw : (s.conns j).state = .timeWait := by
          rcases hling with h | ⟨h, -⟩ | ⟨h, h', -⟩
          · exact h
          · exact hstream.resolve_right (not_not.2 h)
          · exact absurd ⟨h, h'⟩ (hhalf hs hrst)
        obtain ⟨t, t0, hcall⟩ := hlinger hs hrst htw
        have := hown.task t _ j hcall rfl
        rw [hnone] at this
        cases this
      rw [Net.setConn_conns, update_self]
      exact hling.input hstream hrst henq
    · exact (hown.ok j).input hnone s.ticks g

/-- `tcp_server_input` frees a connection or leaves it in a state other than CLOSED, with the
same peer. -/
lemma tcpServerInput_inUse {env : RxEnv}
    (h : (tcpServerInput env now c srcIp g).conn.inUse = true) :
    (tcpServerInput env now c srcIp g).conn.state ≠ .closed ∧
      c.SamePeer (tcpServerInput env now c srcIp g).conn := by
  rcases tcpServerInput_conn env now c srcIp g with hc | ⟨st, _, _, _, hst, hc⟩ <;> rw [hc] at h ⊢
  · cases h
  · exact ⟨hst, rfl, rfl, rfl⟩

section

variable (env : RxEnv)

lemma serverDeliver_frame (s : Net) (j : Slot) (srcIp : UInt32) (g : Segment) :
    (serverDeliver env s j srcIp g).listeners = s.listeners ∧
      (serverDeliver env s j srcIp g).calls = s.calls ∧
      (serverDeliver env s j srcIp g).held = s.held := by
  unfold serverDeliver Net.logServed
  dsimp only
  split <;> exact ⟨rfl, rfl, rfl⟩

lemma serverDeliver_inv (srcIp : UInt32) (h : TableInv strict s)
    (hrole : (s.conns j).role = .service) (huse : (s.conns j).inUse = true) :
    TableInv strict (serverDeliver env s j srcIp g) := by
  obtain ⟨⟨own, hown⟩, hlis, htup⟩ := h
  have hnone : own j = .none := by
    by_contra hne
    exact (hown.ok j).isStream hne hrole
  obtain ⟨hl, hc, hh⟩ := serverDeliver_frame env s j srcIp g
  refine ⟨⟨own, .congr (hown.setConn ?_) (serverDeliver_conns env s j srcIp g) hl hc hh⟩,
    hl ▸ hlis, ?_⟩
  · rw [hnone]
    intro _ huse'
    rw [Net.setConn_conns, update_self] at huse' ⊢
    exact .inr (.inl ⟨tcpServerInput_role env s.ticks srcIp g hrole,
      (tcpServerInput_inUse huse').1⟩)
  · rw [serverDeliver_conns]
    exact htup.update_of_keep fun huse' => ⟨huse, (tcpServerInput_inUse huse').2⟩

/-- Reaping keeps the invariant, unless it frees a connection that is being closed. -/
lemma TableInv.reap (h : TableInv strict s) (hsafe : ¬ ReapsClosing s) :
    TableInv strict (reapTimeWait s) := by
  obtain ⟨⟨own, hown⟩, hlis, htup⟩ := h
  exact ⟨⟨own, hown.reap hsafe⟩, hlis, htup.reap⟩

lemma TableInv.open_slot (h : TableInv strict s) {s' : Net} (c : Conn)
    (hfree : (s.conns j).inUse = false) (hconns : s'.conns = Function.update s.conns j c)
    (hlisteners : s'.listeners = s.listeners) (hcalls : s'.calls = s.calls)
    (hheld : s'.held = s.held) (hnew : c.inUse = true → Lingers s c ∧
      ∀ i, (s.conns i).inUse = true → ¬ (s.conns i).SamePeer c) : TableInv strict s' := by
  obtain ⟨⟨own, hown⟩, hlis, htup⟩ := h
  refine ⟨⟨own, .congr (hown.setConn ?_) hconns hlisteners hcalls hheld⟩,
    hlisteners ▸ hlis, ?_⟩
  · rw [hown.eq_none_of_free hfree]
    intro _ huse
    rw [Net.setConn_conns, update_self] at huse ⊢
    exact (hnew huse).1
  · rw [hconns]
    by_cases huse : c.inUse = true
    · exact htup.update_of_new (hnew huse).2
    · exact htup.update_of_keep fun h => absurd h huse

lemma reapTimeWait_inUse {i : Slot} (h : ((reapTimeWait s).conns i).inUse = true) :
    (reapTimeWait s).conns i = s.conns i := by
  rcases reapTimeWait_slot s i with hc | hc
  · exact hc
  · rw [hc] at h
    cases h

/-- A segment for no connection finds no slot in use with its peer, also after reaping. -/
lemma findConn_none_reap
    (h : findConn s srcIp g.srcPort g.dstPort = none) (hip : c.remoteIp = srcIp)
    (hport : c.remotePort = g.srcPort) (hlocal : c.localPort = g.dstPort) (i : Slot)
    (huse : ((reapTimeWait s).conns i).inUse = true) : ¬ ((reapTimeWait s).conns i).SamePeer c := by
  have hsame := reapTimeWait_inUse huse
  rw [hsame] at huse ⊢
  exact findConn_none h hip hport hlocal i huse

lemma passiveOpen_inv (h : TableInv strict s)
    (hsafe : ¬ ReapsClosing s) (hfind : findConn s srcIp g.srcPort g.dstPort = none)
    (hlisten : Listening s g.dstPort) : TableInv strict (passiveOpen env s srcIp g) := by
  have hreap := h.reap hsafe
  unfold passiveOpen
  rcases allocConn_cases s with ha | ⟨j, hfree, ha⟩ <;> rw [ha]
  · exact hreap.congr rfl rfl rfl rfl
  · dsimp only
    split
    · exact hreap.open_slot (newAccepted env.localIp srcIp g env.prngRand32) hfree
        (update_idem ..) rfl rfl rfl fun _ =>
        ⟨.inr (.inr ⟨rfl, rfl, hlisten⟩), findConn_none_reap hfind rfl rfl rfl⟩
    · exact hreap.open_slot .zero hfree (update_idem ..) rfl rfl rfl nofun

lemma serviceOpen_inv (h : TableInv strict s)
    (hsafe : ¬ ReapsClosing s) (hfind : findConn s srcIp g.srcPort g.dstPort = none) :
    TableInv strict (serviceOpen env s srcIp g) := by
  have hreap := h.reap hsafe
  unfold serviceOpen
  rcases allocConn_cases s with ha | ⟨j, hfree, ha⟩ <;> rw [ha]
  · exact hreap.congr rfl rfl rfl rfl
  · obtain ⟨hl, hc, hh⟩ := serverDeliver_frame env (((((reapTimeWait s).setConn j .fresh).log
      (.opened j)).log (.rx j g)).setConn j (newService env.localIp srcIp g)) j srcIp g
    refine hreap.open_slot
      (tcpServerInput env s.ticks (newService env.localIp srcIp g) srcIp g).conn
      hfree ?_ hl hc hh fun huse => ?_
    · simp [serverDeliver_conns]
    obtain ⟨hst, hpeer⟩ := tcpServerInput_inUse huse
    refine ⟨.inr (.inl ⟨tcpServerInput_role _ _ _ _ ?_, hst⟩), findConn_none_reap hfind
      hpeer.1.symm hpeer.2.1.symm hpeer.2.2.symm⟩
    rfl

lemma receiveSegment_inv (srcIp : UInt32) (h : TableInv strict s) {packet : List UInt8}
    (hg : parseSegment packet = some g) (hsafe : SparesClosing s (.rx env packet srcIp))
    (hkeep : strict → KeepsReclaimable s (.rx env packet srcIp)) :
    TableInv strict (receiveSegment env s srcIp g) := by
  unfold receiveSegment
  cases hf : findConn s srcIp g.srcPort g.dstPort with
  | some j =>
    have huse := findConn_inUse hf
    have hdel : deliveredTo s (.rx env packet srcIp) = some (j, g) := by simp [deliveredTo, hg, hf]
    have hlog : TableInv strict (s.log (.rx j g)) := h.congr rfl rfl rfl rfl
    dsimp only [deliver]
    split
    · next hstream =>
      exact streamDeliver_inv hlog huse hstream
        (fun hs hrst => (hkeep hs).halfOpen (j, g) hdel hrst)
        fun hs hrst => (hkeep hs).lingering (j, g) hdel hrst
    · next hstream =>
      rw [not_or, not_not] at hstream
      exact serverDeliver_inv env srcIp hlog hstream.2 huse
  | none =>
    split_ifs with h₁ h₂ h₃
    · have hreaps : reaps s (.rx env packet srcIp) = true := by simp [reaps, hg, hf, h₁]
      rw [Bool.and_eq_true, findListener_isSome] at h₁
      exact passiveOpen_inv env h (hsafe hreaps) hf h₁.2
    · have hreaps : reaps s (.rx env packet srcIp) = true := by simp [reaps, hg, hf, h₂]
      exact serviceOpen_inv env h (hsafe hreaps) hf
    · exact h
    · exact h.congr rfl rfl rfl rfl

end

end

end SubOS.Tcp
