import SubOS.Net.Tcp.SlotStep

set_option autoImplicit false

/-!
# Who owns a connection

A slot of the connection table is freed by whoever owns it: the application that got it from
`tcp_connect` or `tcp_accept`, the `tcp_connect` or `tcp_close` in progress on it, or the
listener in whose queue it waits. A slot without an owner is left to the receive path and the
reaper.

## Main definitions

* `Owned` — one owner for each slot, which fits the state.

## Main results

* `Owned.update` — a slot moves to a new owner.

## Design

The parameter `strict` decides whether unowned connections have to linger. It is used for two
properties: that nothing is lost, and the weaker one that the queues hold what they should.
-/

namespace SubOS.Tcp

open Function

inductive Owner where
  | none
  /-- Returned by `tcp_connect` or `tcp_accept` and not yet given to `tcp_close`. -/
  | app
  /-- The `tcp_connect` or `tcp_close` of this task is in progress on it. -/
  | task (t : ℕ)
  /-- Waiting in the queue of this listener. -/
  | queue (l : ListenerSlot)

/-- The slot that a call in progress owns. -/
def Call.owns : Call → Option Slot
  | .connect i _ _ _ => some i
  | .close i _ => some i
  | _ => none

/-- The states of a connection whose handshake is finished and that we have not closed. -/
def State.isOpen : State → Bool
  | .established | .closeWait | .closed => true
  | _ => false

/-- The states of a connection that `tcp_connect` waits for. -/
def State.isOpening : State → Bool
  | .synSent | .synRcvd => true
  | st => st.isOpen

/-- The states of a connection whose FIN we have sent. -/
def State.isShut : State → Bool
  | .finWait1 | .finWait2 | .closing | .lastAck | .timeWait | .closed => true
  | _ => false

/-- Some listener listens on the port. -/
def Listening (s : Net) (port : UInt16) : Prop :=
  ∃ l, (s.listeners l).inUse = true ∧ (s.listeners l).port = port

/-- A connection that its peer, the receive path or the reaper will get rid of: it is in
TIME_WAIT, or belongs to a service and is not CLOSED, or is half open on a listening port. -/
def Lingers (s : Net) (c : Conn) : Prop :=
  c.state = .timeWait ∨ c.role = .service ∧ c.state ≠ .closed ∨
    c.role = .accepted ∧ c.state = .synRcvd ∧ Listening s c.localPort

/-- What the owner of a slot guarantees of the connection in it. -/
def Owner.Ok (strict : Prop) (s : Net) (i : Slot) : Owner → Prop
  | .none => strict → (s.conns i).inUse = true → Lingers s (s.conns i)
  | .app => (s.conns i).inUse = true ∧ (s.conns i).IsStream ∧ (s.conns i).state.isOpen = true
  | .task t =>
    (s.conns i).inUse = true ∧
      ((∃ t0 wait last, s.calls t = some (.connect i t0 wait last)) ∧
          (s.conns i).role = .client ∧ (s.conns i).state.isOpening = true ∨
        (∃ t0, s.calls t = some (.close i t0)) ∧
          (s.conns i).IsStream ∧ (s.conns i).state.isShut = true)
  | .queue l =>
    (s.conns i).inUse = true ∧ (s.conns i).role = .accepted ∧
      (s.conns i).localPort = (s.listeners l).port ∧ (s.conns i).state.isOpen = true

/-- The owners `own` fit the state: each slot is where its owner says, and nowhere else. -/
structure Owned (strict : Prop) (own : Slot → Owner) (s : Net) : Prop where
  app : ∀ i, s.held i = true ↔ own i = .app
  task : ∀ t call i, s.calls t = some call → call.owns = some i → own i = .task t
  queue : ∀ l i, i ∈ (s.listeners l).queue ↔ own i = .queue l
  ok : ∀ i, (own i).Ok strict s i

/-! ## What ownership depends on -/

section

variable {strict : Prop} {own : Slot → Owner} {s s' : Net} {i j : Slot} {o : Owner} {t : ℕ}
  {c : Conn}

section

variable (h : o.Ok strict s i)
include h

/-- Guarantees depend on four fields of the connection, the call that owns the slot, the port
of the listener that queues it, and on which ports are listened to. -/
lemma Owner.Ok.congr (huse : (s'.conns i).inUse = (s.conns i).inUse)
    (hrole : (s'.conns i).role = (s.conns i).role) (hstate : (s'.conns i).state = (s.conns i).state)
    (hport : (s'.conns i).localPort = (s.conns i).localPort)
    (hcalls : ∀ t, o = .task t → s'.calls t = s.calls t)
    (hlisten : ∀ l, o = .queue l → (s'.listeners l).port = (s.listeners l).port)
    (hports : o = .none → ∀ port, Listening s port → Listening s' port) : o.Ok strict s' i := by
  cases o with
  | none =>
    intro hstrict hin
    unfold Lingers
    rw [hrole, hstate, hport]
    exact (h hstrict (huse ▸ hin)).imp_right (Or.imp_right fun h =>
      ⟨h.1, h.2.1, hports rfl _ h.2.2⟩)
  | app =>
    simp only [Owner.Ok, Conn.IsStream, huse, hrole, hstate] at h ⊢
    exact h
  | task t =>
    simp only [Owner.Ok, Conn.IsStream, huse, hrole, hstate, hcalls t rfl] at h ⊢
    exact h
  | queue l =>
    simp only [Owner.Ok, huse, hrole, hstate, hport, hlisten l rfl] at h ⊢
    exact h

lemma Owner.Ok.of_conn (hc : s'.conns i = s.conns i)
    (hcalls : ∀ t, o = .task t → s'.calls t = s.calls t)
    (hlisten : ∀ l, o = .queue l → (s'.listeners l).port = (s.listeners l).port)
    (hports : o = .none → ∀ port, Listening s port → Listening s' port) : o.Ok strict s' i :=
  h.congr (by rw [hc]) (by rw [hc]) (by rw [hc]) (by rw [hc]) hcalls hlisten hports

lemma Owner.Ok.inUse (ho : o ≠ .none) : (s.conns i).inUse = true := by
  cases o with
  | none => exact absurd rfl ho
  | app | task | queue => exact h.1

lemma Owner.Ok.isStream (ho : o ≠ .none) : (s.conns i).IsStream := by
  unfold Conn.IsStream
  cases o with
  | none => exact absurd rfl ho
  | app => exact h.2.1
  | task =>
    rcases h.2 with ⟨-, hrole, -⟩ | ⟨-, hrole, -⟩
    · rw [hrole]; decide
    · exact hrole
  | queue =>
    rw [h.2.1]
    decide

lemma Owner.Ok.eq_none_of_synRcvd (hrole : (s.conns i).role = .accepted)
    (hstate : (s.conns i).state = .synRcvd) : o = .none := by
  cases o with
  | none => rfl
  | app =>
    have := h.2.2
    rw [hstate] at this
    cases this
  | task =>
    rcases h.2 with ⟨-, hclient, -⟩ | ⟨-, -, hshut⟩
    · cases hrole.symm.trans hclient
    · rw [hstate] at hshut
      cases hshut
  | queue =>
    have := h.2.2.2
    rw [hstate] at this
    cases this

lemma Owner.Ok.closing_of_timeWait (ho : o ≠ .none)
    (hstate : (s.conns i).state = .timeWait) : ∃ t t0, s.calls t = some (.close i t0) := by
  cases o with
  | none => exact absurd rfl ho
  | app =>
    have := h.2.2
    rw [hstate] at this
    cases this
  | task t =>
    rcases h.2 with ⟨-, -, hopen⟩ | ⟨hcall, -⟩
    · rw [hstate] at hopen
      cases hopen
    · exact ⟨t, hcall⟩
  | queue =>
    have := h.2.2.2
    rw [hstate] at this
    cases this

end

section

variable (h : Owned strict own s)
include h

lemma Owned.eq_none_of_free (hfree : (s.conns i).inUse = false) : own i = .none := by
  by_contra hne
  cases hfree.symm.trans ((h.ok i).inUse hne)

/-- Ownership does not depend on the clock and on the record of what was observed. -/
lemma Owned.congr (hconns : s'.conns = s.conns) (hlisteners : s'.listeners = s.listeners)
    (hcalls : s'.calls = s.calls) (hheld : s'.held = s.held) : Owned strict own s' := by
  refine ⟨?_, ?_, ?_, fun i => ?_⟩
  · rw [hheld]; exact h.app
  · rw [hcalls]; exact h.task
  · rw [hlisteners]; exact h.queue
  · refine (h.ok i).of_conn (by rw [hconns]) (fun t _ => by rw [hcalls])
      (fun l _ => by rw [hlisteners]) ?_
    unfold Listening
    rw [hlisteners]
    exact fun _ _ h => h

/-! ## Moving a slot to a new owner -/

/-- **Moving one slot to a new owner.** The other slots keep theirs; the new owner guarantees
the slot that moves. -/
theorem Owned.update (j : Slot) (o : Owner)
    (hheld : ∀ i, i ≠ j → s'.held i = s.held i) (happ : s'.held j = true ↔ o = .app)
    (hcalls : ∀ t call i, s'.calls t = some call → call.owns = some i →
      i ≠ j ∧ s.calls t = some call ∨ i = j ∧ o = .task t)
    (hqueue : ∀ l i, i ≠ j → (i ∈ (s'.listeners l).queue ↔ i ∈ (s.listeners l).queue))
    (hin : ∀ l, j ∈ (s'.listeners l).queue ↔ o = .queue l)
    (hok : ∀ i, i ≠ j → (own i).Ok strict s' i) (hnew : o.Ok strict s' j) :
    Owned strict (Function.update own j o) s' := by
  have hself : Function.update own j o j = o := update_self ..
  have hother : ∀ i, i ≠ j → Function.update own j o i = own i := fun i hi =>
    update_of_ne hi ..
  refine ⟨fun i => ?_, fun t call i hc hi => ?_, fun l i => ?_, fun i => ?_⟩
  · by_cases hij : i = j
    · rw [hij, hself]; exact happ
    · rw [hother i hij, hheld i hij]; exact h.app i
  · rcases hcalls t call i hc hi with ⟨hij, hold⟩ | ⟨rfl, rfl⟩
    · rw [hother i hij]; exact h.task t call i hold hi
    · exact hself
  · by_cases hij : i = j
    · rw [hij, hself]; exact hin l
    · rw [hother i hij, hqueue l i hij]; exact h.queue l i
  · by_cases hij : i = j
    · rw [hij, hself]; exact hnew
    · rw [hother i hij]; exact hok i hij

lemma Owned.setConn
    (hok : (own j).Ok strict (s.setConn j c) j) : Owned strict own (s.setConn j c) := by
  refine ⟨h.app, h.task, h.queue, fun i => ?_⟩
  by_cases hij : i = j
  · rw [hij]; exact hok
  · have hc : (s.setConn j c).conns i = s.conns i := update_of_ne hij ..
    exact (h.ok i).of_conn hc (fun _ _ => rfl) (fun _ _ => rfl) fun _ _ h => h

lemma Owned.free (hnone : own j = .none) : Owned strict own (s.setConn j .zero) := by
  refine h.setConn ?_
  rw [hnone]
  intro _ huse
  rw [Net.setConn_conns, update_self] at huse
  cases huse

lemma Owned.setConn_of_eq (huse : c.inUse = (s.conns j).inUse)
    (hrole : c.role = (s.conns j).role) (hstate : c.state = (s.conns j).state)
    (hport : c.localPort = (s.conns j).localPort) : Owned strict own (s.setConn j c) := by
  have hc : (s.setConn j c).conns j = c := update_self ..
  exact h.setConn ((h.ok j).congr (by rw [hc, huse]) (by rw [hc, hrole]) (by rw [hc, hstate])
    (by rw [hc, hport]) (fun _ _ => rfl) (fun _ _ => rfl) fun _ _ h => h)

lemma Owned.ne_task
    (hcall : ∀ call, s.calls t = some call → call.owns ≠ some i) : own i ≠ .task t := by
  intro hown
  have hok := h.ok i
  rw [hown] at hok
  rcases hok.2 with ⟨⟨t0, wait, last, hc⟩, -⟩ | ⟨⟨t0, hc⟩, -⟩ <;> exact hcall _ hc rfl

lemma Owned.setCall {task : ℕ} {new : Option Call}
    (hold : ∀ call i, s.calls task = some call → call.owns ≠ some i)
    (hnew : ∀ call i, new = some call → call.owns ≠ some i) :
    Owned strict own (s.setCall task new) := by
  have hne : ∀ t i, own i = .task t → t ≠ task := by
    rintro t i hown rfl
    exact h.ne_task (fun call => hold call i) hown
  refine ⟨h.app, fun t call i hc hi => ?_, h.queue, fun i => ?_⟩
  · by_cases ht : t = task
    · subst ht
      rw [Net.setCall_calls, update_self] at hc
      exact absurd hi (hnew call i hc)
    · rw [Net.setCall_calls, update_of_ne ht] at hc
      exact h.task t call i hc hi
  · refine (h.ok i).congr rfl rfl rfl rfl (fun t ht => ?_) (fun _ _ => rfl) fun _ _ h => h
    exact update_of_ne (hne t i ht) ..

end

/-! ## Segments -/

lemma tcpStreamInput_state {P : State → Bool} (hclosed : P .closed = true)
    (hsent : P .synSent = true → P .synRcvd = true ∧ P .established = true)
    (hrcvd : P .synRcvd = true → P .established = true)
    (hadv : ∀ a b, State.Advance a b → P a = true → P b = true) {now : ℕ}
    {g : Segment} (h : P c.state = true) : P (tcpStreamInput now c g).conn.state = true := by
  have hcase := tcpStreamInput_cases now c g
  generalize tcpStreamInput now c g = r at hcase ⊢
  cases hcase with
  | reset => exact hclosed
  | ignored | lingering => exact h
  | synAck hst => exact (hsent (hst ▸ h)).2
  | simultaneous hst => exact (hsent (hst ▸ h)).1
  | handshake _ hst => exact hrcvd (hst ▸ h)
  | data =>
    have hmoves := streamData_advance now c g
    generalize (streamData now c g).1.state = st at hmoves ⊢
    induction hmoves with
    | refl => exact h
    | tail _ hab ih => exact hadv _ _ hab ih

lemma Owner.Ok.input (h : o.Ok strict s j) (ho : o ≠ .none) (now : ℕ) (g : Segment) :
    o.Ok strict (s.setConn j (tcpStreamInput now (s.conns j) g).conn) j := by
  have hk := tcpStreamInput_keeps now (s.conns j) g
  have hc : (s.setConn j (tcpStreamInput now (s.conns j) g).conn).conns j =
      (tcpStreamInput now (s.conns j) g).conn := update_self ..
  cases o with
  | none => exact absurd rfl ho
  | app =>
    obtain ⟨h₁, h₂, h₃⟩ := h
    simp only [Owner.Ok, hc, Conn.IsStream, hk.inUse, hk.role]
    exact ⟨h₁, h₂, tcpStreamInput_state (P := State.isOpen) rfl nofun nofun
      (fun a b hab => by cases hab <;> decide) h₃⟩
  | task t =>
    obtain ⟨h₁, h₂⟩ := h
    simp only [Owner.Ok, hc, Conn.IsStream, hk.inUse, hk.role]
    refine ⟨h₁, h₂.imp (fun ⟨hcall, hrole, hst⟩ => ⟨hcall, hrole, ?_⟩)
      fun ⟨hcall, hrole, hst⟩ => ⟨hcall, hrole, ?_⟩⟩
    · exact tcpStreamInput_state rfl (fun _ => ⟨rfl, rfl⟩) (fun _ => rfl)
        (fun a b hab => by cases hab <;> decide) hst
    · exact tcpStreamInput_state (P := State.isShut) rfl nofun nofun
        (fun a b hab => by cases hab <;> decide) hst
  | queue l =>
    obtain ⟨h₁, h₂, h₃, h₄⟩ := h
    simp only [Owner.Ok, hc, hk.inUse, hk.role, hk.localPort]
    exact ⟨h₁, h₂, h₃, tcpStreamInput_state (P := State.isOpen) rfl nofun nofun
      (fun a b hab => by cases hab <;> decide) h₄⟩

/-! ## The reaper -/

/-- The reaper would free a connection that a `tcp_close` in progress still points to. -/
def ReapsClosing (s : Net) : Prop :=
  ∃ t i t0, s.calls t = some (.close i t0) ∧ (s.conns i).expired s.ticks = true

/-- Reaping frees only slots without an owner, unless it frees one that is being closed. -/
lemma Owned.reap (h : Owned strict own s) (hsafe : ¬ ReapsClosing s) :
    Owned strict own (reapTimeWait s) := by
  refine ⟨h.app, h.task, h.queue, fun i => ?_⟩
  by_cases hexp : (s.conns i).expired s.ticks = true
  · have hnone : own i = .none := by
      by_contra hne
      have hst : (s.conns i).state = .timeWait := by
        simp only [Conn.expired, Bool.and_eq_true, beq_iff_eq] at hexp
        exact hexp.1.2
      obtain ⟨t, t0, hcall⟩ := (h.ok i).closing_of_timeWait hne hst
      exact hsafe ⟨t, i, t0, hcall, hexp⟩
    rw [hnone]
    intro _ huse
    rw [reapTimeWait_conns] at huse
    dsimp only at huse
    rw [if_pos hexp] at huse
    cases huse
  · have hc : (reapTimeWait s).conns i = s.conns i := by
      exact if_neg hexp
    exact (h.ok i).of_conn hc (fun _ _ => rfl) (fun _ _ => rfl) fun _ _ h => h

/-! ## Transfers -/

/-- Changing the queue of a listener changes neither its port nor whether it is in use. -/
lemma setQueue_port (listeners : ListenerSlot → Listener) (l : ListenerSlot) (queue : List Slot)
    (k : ListenerSlot) :
    (Function.update listeners l { listeners l with queue := queue } k).port = (listeners k).port ∧
      (Function.update listeners l { listeners l with queue := queue } k).inUse =
        (listeners k).inUse := by
  by_cases hk : k = l
  · subst hk
    rw [update_self]
    exact ⟨rfl, rfl⟩
  · rw [update_of_ne hk]
    exact ⟨rfl, rfl⟩

section

variable (h : Owned strict own s)
include h

lemma Owned.enqueue (hnone : own j = .none) {l : ListenerSlot} (huse : c.inUse = true)
    (hrole : c.role = .accepted) (hport : c.localPort = (s.listeners l).port)
    (hstate : c.state.isOpen = true) (hconns : s'.conns = Function.update s.conns j c)
    (hlisteners : s'.listeners = Function.update s.listeners l
      { s.listeners l with queue := (s.listeners l).queue ++ [j] }) (hcalls : s'.calls = s.calls)
    (hheld : s'.held = s.held) : Owned strict (Function.update own j (.queue l)) s' := by
  have hports := setQueue_port s.listeners l ((s.listeners l).queue ++ [j])
  rw [← hlisteners] at hports
  have hout : ∀ k, j ∉ (s.listeners k).queue := fun k hk => by
    rw [h.queue, hnone] at hk
    cases hk
  have hself : s'.conns j = c := by rw [hconns, update_self]
  refine h.update j (.queue l) (fun i _ => by rw [hheld]) ⟨fun hh => ?_, nofun⟩
    (fun t call i hc hi => ?_) (fun k i hij => ?_) (fun k => ?_) (fun i hij => ?_) ?_
  · rw [hheld, h.app, hnone] at hh
    cases hh
  · rw [hcalls] at hc
    refine .inl ⟨?_, hc⟩
    rintro rfl
    have := h.task t call i hc hi
    rw [hnone] at this
    cases this
  · rw [hlisteners]
    by_cases hk : k = l
    · subst hk
      simp [hij]
    · rw [update_of_ne hk]
  · rw [hlisteners]
    by_cases hk : k = l
    · subst hk
      simp
    · rw [update_of_ne hk]
      refine ⟨fun hin => absurd hin (hout k), fun he => ?_⟩
      injection he with he
      exact absurd he.symm hk
  · refine (h.ok i).of_conn (by rw [hconns, update_of_ne hij]) (fun t _ => by rw [hcalls])
      (fun k _ => (hports k).1) ?_
    rintro - port ⟨k, hk, hp⟩
    exact ⟨k, by rw [(hports k).2, hk], by rw [(hports k).1, hp]⟩
  · simp only [Owner.Ok, hself, (hports l).1]
    exact ⟨huse, hrole, hport, hstate⟩

lemma Owned.not_task_of_idle (hidle : s.calls t = none) (i : Slot) : own i ≠ .task t :=
  h.ne_task fun _ hc => absurd (hidle.symm.trans hc) nofun

lemma Owned.not_task_of_call {call : Call}
    (hcall : s.calls t = some call) (ho : call.owns = some j) (hij : i ≠ j) : own i ≠ .task t := by
  refine h.ne_task fun c hc hi => hij ?_
  cases hcall.symm.trans hc
  exact Option.some.inj (hi.symm.trans ho)

lemma Owned.not_held_of_call {call : Call}
    (hcall : s.calls t = some call) (ho : call.owns = some j) : s.held j = false := by
  rw [← Bool.not_eq_true, h.app, h.task t call j hcall ho]
  nofun

section

variable {call : Call} (hcall : s.calls t = some call) (ho : call.owns = some j)
  {x : Option Call} (o : Owner) (hconns : ∀ i, i ≠ j → s'.conns i = s.conns i)
  (hlisteners : s'.listeners = s.listeners) (hcalls : s'.calls = Function.update s.calls t x)
  (hheld : ∀ i, i ≠ j → s'.held i = s.held i) (happ : s'.held j = true ↔ o = .app)
  (hqueue : ∀ l, o ≠ .queue l)
  (hx : ∀ call i, x = some call → call.owns = some i → i = j ∧ o = .task t)
  (hnew : o.Ok strict s' j)
include hconns hlisteners hcalls hheld happ hqueue hx hnew

variable (j) in
/-- The call of a task takes slot `j` over, or gives it up: the calls of other tasks, the other
slots and the queues stay. -/
lemma Owned.move (hold : ∀ l, own j ≠ .queue l) (hothers : ∀ i, i ≠ j → own i ≠ .task t)
    (hself : ∀ t', t' ≠ t → own j ≠ .task t') : Owned strict (Function.update own j o) s' := by
  refine h.update j o hheld happ (fun t' call i hc hi => ?_) (fun l i _ => ?_) (fun l => ?_)
    (fun i hij => ?_) hnew
  · rw [hcalls] at hc
    by_cases ht : t' = t
    · subst ht
      rw [update_self] at hc
      exact .inr (hx call i hc hi)
    · rw [update_of_ne ht] at hc
      refine .inl ⟨?_, hc⟩
      rintro rfl
      exact hself t' ht (h.task t' call i hc hi)
  · rw [hlisteners]
  · rw [hlisteners]
    exact ⟨fun hin => absurd ((h.queue l j).1 hin) (hold l), fun he => absurd he (hqueue l)⟩
  · refine (h.ok i).of_conn (hconns i hij) (fun t' ht' => ?_) (fun l _ => by rw [hlisteners]) ?_
    · have hne : t' ≠ t := by
        rintro rfl
        exact hothers i hij ht'
      rw [hcalls, update_of_ne hne]
    · unfold Listening
      rw [hlisteners]
      exact fun _ _ h => h

include hcall ho in
lemma Owned.moveFromCall : Owned strict (Function.update own j o) s' := by
  have hown : own j = .task t := h.task t call j hcall ho
  refine h.move j o hconns hlisteners hcalls hheld happ hqueue hx hnew (fun l => ?_)
    (fun i hij => h.not_task_of_call hcall ho hij) (fun t' ht => ?_)
  · rw [hown]
    nofun
  · rw [hown]
    intro he
    injection he with he
    exact ht he.symm

end

end

end

end SubOS.Tcp
