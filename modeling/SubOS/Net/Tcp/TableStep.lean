import SubOS.Net.Tcp.TableInv

set_option autoImplicit false

/-!
# Calls keep the invariant of the tables

Each call of the TCP interface, from one wait to the next, keeps the invariant of the tables. In
runs from `tcp_init` the tables are in order and every connection in use is owned by something that
will free it, with two exceptions. The reaper may free a connection in TIME_WAIT that a `tcp_close`
has not yet returned from; and a RST to a half-open connection of a listener leaves it CLOSED and in
use.

## Main definitions

* `TablesOk`, `Reclaimable` — the two properties.

## Main results

* `tablesOk_run`, `reaped_close_frees_queued` — the tables in every run.
* `reclaimable_run`, `rst_to_halfOpen_leaks` — the slots in use in every run.
-/

namespace SubOS.Tcp

open Function List

variable {e : Event}

section

variable {strict : Prop} {s : Net} {task t0 wait : ℕ} {i : Slot}

/-! ## Connecting -/

/-- The port that `alloc_ephemeral_port` finds is the local port of no connection in use. -/
lemma allocEphemeralPort_free {prng : ℕ → Seq} (h : allocEphemeralPort s prng ≠ 0)
    (huse : (s.conns i).inUse = true) : (s.conns i).localPort ≠ allocEphemeralPort s prng := by
  unfold allocEphemeralPort at h ⊢
  dsimp only at h ⊢
  generalize hfind : find? _ _ = r at h ⊢
  cases r with
  | none => exact absurd rfl h
  | some p =>
    have hfree : portTaken s p = false := by simpa using find?_some hfind
    rintro rfl
    simp only [portTaken, any_eq_false, mem_finRange, forall_const] at hfree
    simpa [huse] using hfree i

section

variable (h : TableInv strict s)
include h

lemma tcpConnectStart_inv (hidle : s.calls task = none)
    {dstIp : UInt32} {dstPort : UInt16} (hsafe : ¬ (dstIp = 0 ∨ dstPort = 0) → ¬ ReapsClosing s)
    (timeoutMs : ℕ) (localIp : UInt32) (ok : Bool) (prng : ℕ → Seq) (iss : Seq) :
    TableInv strict (tcpConnectStart s task dstIp dstPort timeoutMs localIp ok prng iss) := by
  unfold tcpConnectStart
  split
  · exact h
  next hdst =>
  have hreap := h.reap (hsafe hdst)
  rcases allocConn_cases s with ha | ⟨j, hfree, ha⟩ <;> rw [ha]
  · exact hreap
  dsimp only
  split
  · exact hreap.open_slot .zero hfree (update_idem ..) rfl rfl rfl nofun
  next hport =>
  obtain ⟨⟨own, hown⟩, hlis, htup⟩ := hreap
  have hnone : own j = .none := hown.eq_none_of_free hfree
  refine ⟨⟨_, hown.move j (.task task) (fun i hi => ?_) rfl rfl (fun _ _ => rfl)
    ⟨fun hh => ?_, nofun⟩
    nofun (fun call i hx ho => ?_) ?_ (by rw [hnone]; nofun)
    (fun i _ => hown.not_task_of_idle hidle i) (by rw [hnone]; nofun)⟩, hlis, ?_⟩
  · simp [hi]
  · exact absurd ((hown.app j).1 hh) (by rw [hnone]; nofun)
  · cases hx
    exact ⟨(Option.some.inj ho).symm, rfl⟩
  · simp [Owner.Ok, newClient, Conn.fresh, State.isOpening]
  · simp only [Net.setCall_conns, Net.emit_conns, Net.setConn_conns, Net.log_conns, update_idem]
    refine htup.update_of_new fun i huse hsame => ?_
    have hij : i ≠ j := by
      rintro rfl
      cases hfree.symm.trans huse
    have hi : (((reapTimeWait s).setConn j .fresh).log (.opened j)).conns i =
        (reapTimeWait s).conns i := update_of_ne hij ..
    refine allocEphemeralPort_free (fun h0 => hport (.inr h0)) (by rw [hi]; exact huse) ?_
    have hlocal := hsame.2.2
    dsimp only [newClient] at hlocal
    rw [hi, hlocal]

lemma tcpConnectResume_inv {last : ℕ} (hcall : s.calls task = some (.connect i t0 wait last)) :
    TableInv strict (tcpConnectResume s task i t0 wait last) := by
  obtain ⟨⟨own, hown⟩, hlis, htup⟩ := h
  have hheld : s.held i = false := hown.not_held_of_call hcall rfl
  have hok := hown.ok i
  rw [hown.task task _ i hcall rfl] at hok
  obtain ⟨huse, hconn⟩ := hok
  obtain ⟨hrole, hstate⟩ : (s.conns i).role = .client ∧ (s.conns i).state.isOpening = true := by
    rcases hconn with ⟨-, h⟩ | ⟨⟨t0, hc⟩, -⟩
    · exact h
    · cases hcall.symm.trans hc
  unfold tcpConnectResume
  split
  · next last' out _ =>
    refine ⟨⟨_, hown.moveFromCall hcall rfl (.task task) (fun _ _ => rfl) rfl rfl (fun _ _ => rfl)
      ⟨fun hh => absurd (hheld.symm.trans hh) (by decide), by simp⟩ (by simp)
      (fun call k hx ho => ?_) ?_⟩, hlis, htup⟩
    · cases hx
      exact ⟨(Option.some.inj ho).symm, rfl⟩
    · exact ⟨huse, .inl ⟨⟨t0, wait, last', by simp⟩, hrole, hstate⟩⟩
  · next hpoll =>
    have hst : (s.conns i).state = .established := by
      unfold connectPoll at hpoll
      split_ifs at hpoll with h₁ h₂
      exact h₂
    refine ⟨⟨_, hown.moveFromCall hcall rfl .app (fun _ _ => rfl) rfl rfl (fun k hk => ?_) ?_
      (by simp) (by simp) ?_⟩, hlis, htup⟩
    · simp [hk]
    · simp
    · exact ⟨huse, by rw [Net.setCall_conns, Net.setHeld_conns, Conn.IsStream, hrole]; decide,
        by rw [Net.setCall_conns, Net.setHeld_conns, hst]; rfl⟩
  · refine ⟨⟨_, hown.moveFromCall hcall rfl .none (fun k hk => ?_) rfl rfl (fun _ _ => rfl)
      ⟨fun hh => absurd (hheld.symm.trans hh) (by decide), by simp⟩ (by simp) (by simp) ?_⟩, hlis,
      htup.update_of_keep fun h => by cases h⟩
    · simp [hk]
    · intro _ hz
      rw [Net.setCall_conns, Net.setConn_conns, update_self] at hz
      cases hz

/-! ## Sending and receiving -/

lemma TableInv.setCall {new : Option Call} (hold : ∀ call ∈ s.calls task, call.owns = none)
    (hnew : ∀ call ∈ new, call.owns = none) : TableInv strict (s.setCall task new) := by
  obtain ⟨⟨own, hown⟩, hlis, htup⟩ := h
  exact ⟨⟨own, hown.setCall (fun call i hc => by rw [hold call hc]; nofun)
    fun call i hc => by rw [hnew call hc]; nofun⟩, hlis, htup⟩

lemma TableInv.setConn_of_eq {c : Conn} (huse : c.inUse = (s.conns i).inUse)
    (hrole : c.role = (s.conns i).role) (hstate : c.state = (s.conns i).state)
    (hpeer : (s.conns i).SamePeer c) : TableInv strict (s.setConn i c) := by
  obtain ⟨⟨own, hown⟩, hlis, htup⟩ := h
  exact ⟨⟨own, hown.setConn_of_eq huse hrole hstate hpeer.2.2.symm⟩, hlis,
    htup.update_of_keep fun hc => ⟨huse.symm.trans hc, hpeer⟩⟩

lemma tcpSendCall_inv (hidle : s.calls task = none) (i : Slot)
    (data : List UInt8) : TableInv strict (tcpSendCall s task i data) := by
  unfold tcpSendCall
  split
  · exact h.setCall (by simp [hidle]) (by simp [Call.owns])
  · exact h

lemma tcpSendResume_inv {call : SendCall} (hcall : s.calls task = some (.send i call)) :
      TableInv strict (tcpSendResume s task i call) := by
  have hc := tcpSendStep_conn s.ticks (s.conns i) call
  have hconn : TableInv strict (s.setConn i (tcpSendStep s.ticks (s.conns i) call).conn) := by
    refine h.setConn_of_eq ?_ ?_ ?_ ?_ <;> rw [hc]
    exact ⟨rfl, rfl, rfl⟩
  have hold : ∀ c ∈ s.calls task, c.owns = none := by simp [hcall, Call.owns]
  unfold tcpSendResume
  dsimp only
  split
  · refine .setCall ?_ hold (by simp [Call.owns])
    exact hconn.congr rfl rfl rfl rfl
  · refine .setCall ?_ hold nofun
    exact hconn.congr rfl rfl rfl rfl

lemma tcpRecvCall_inv (hidle : s.calls task = none) (i : Slot)
    (len timeoutMs : ℕ) : TableInv strict (tcpRecvCall s task i len timeoutMs) := by
  unfold tcpRecvCall
  split
  · exact h
  · exact h.setCall (by simp [hidle]) (by simp [Call.owns])

lemma tcpRecvResume_inv {len : ℕ} (hcall : s.calls task = some (.recv i len t0 wait)) :
    TableInv strict (tcpRecvResume s task i len t0 wait) := by
  unfold tcpRecvResume
  split
  · exact h
  next ret bytes c out hstep =>
  have hconn : TableInv strict (s.setConn i c) := by
    rcases tcpRecvStep_done hstep with ⟨rfl, -⟩ | ⟨n, -, rfl, -⟩ <;>
      exact h.setConn_of_eq rfl rfl rfl ⟨rfl, rfl, rfl⟩
  have hold : ∀ c ∈ s.calls task, c.owns = none := by simp [hcall, Call.owns]
  refine .setCall ?_ hold nofun
  exact hconn.congr rfl rfl rfl rfl

end

/-! ## Closing -/

lemma closeFinish_ok (now : ℕ) (c : Conn) (hc : s.conns i = closeFinish now c) :
    Owner.none.Ok strict s i := by
  intro _ huse
  rcases closeFinish_cases now c with hf | hf <;> rw [hc, hf] at huse ⊢
  · cases huse
  · exact .inl rfl

lemma closeFinish_samePeer {c : Conn} {now : ℕ} (huse : (closeFinish now c).inUse = true) :
    c.inUse = true ∧ c.SamePeer (closeFinish now c) := by
  rcases closeFinish_cases now c with hf | hf <;> rw [hf] at huse ⊢
  · cases huse
  · exact ⟨huse, rfl, rfl, rfl⟩

lemma tcpCloseCall_inv (h : TableInv strict s) (hidle : s.calls task = none) (i : Slot) :
    TableInv strict (tcpCloseCall s task i) := by
  unfold tcpCloseCall
  split
  case isFalse => exact h
  case isTrue hheld =>
  obtain ⟨⟨own, hown⟩, hlis, htup⟩ := h
  have happ : own i = .app := (hown.app i).1 hheld
  have hok := hown.ok i
  rw [happ] at hok
  obtain ⟨huse, hstream, hopen⟩ := hok
  have hqueue : ∀ l, own i ≠ .queue l := fun l => by simp [happ]
  have hothers : ∀ k, k ≠ i → own k ≠ .task task := fun k _ => hown.not_task_of_idle hidle k
  have hself : ∀ t', t' ≠ task → own i ≠ .task t' := fun t' _ => by simp [happ]
  unfold tcpCloseStart
  simp only [Net.setHeld_conns, Net.setHeld_ticks, huse, Bool.true_eq_false, if_false]
  by_cases hst : (s.conns i).state = .established ∨ (s.conns i).state = .closeWait
  · rw [if_pos hst]
    refine ⟨⟨_, hown.move i (.task task) (fun k hk => ?_) rfl rfl (fun k hk => ?_) ?_
      (by simp) (fun call k hx ho => ?_) ?_ hqueue hothers hself⟩, hlis, ?_⟩
    · simp [hk]
    · simp [hk]
    · simp
    · cases hx
      exact ⟨(Option.some.inj ho).symm, rfl⟩
    · refine ⟨by simp, .inr ⟨⟨s.ticks, by simp⟩, by simpa [Conn.IsStream] using hstream, ?_⟩⟩
      simp only [Net.setCall_conns, Net.emit_conns, Net.setConn_conns, update_self]
      split_ifs <;> rfl
    · exact htup.update_of_keep fun _ => ⟨huse, rfl, rfl, rfl⟩
  · rw [if_neg hst]
    refine ⟨⟨_, hown.move i .none (x := s.calls task) (fun k hk => ?_) rfl ?_ (fun k hk => ?_) ?_
      (by simp) (fun call k hx => ?_) ?_ hqueue hothers hself⟩, hlis, ?_⟩
    · simp [hk]
    · exact (update_eq_self task s.calls).symm
    · simp [hk]
    · simp
    · exact absurd (hidle.symm.trans hx) (by simp)
    · exact closeFinish_ok s.ticks (s.conns i) (update_self ..)
    · exact htup.update_of_keep closeFinish_samePeer

lemma tcpCloseResume_inv (h : TableInv strict s)
    (hcall : s.calls task = some (.close i t0)) : TableInv strict (tcpCloseResume s task i t0) := by
  unfold tcpCloseResume
  split
  · exact h
  obtain ⟨⟨own, hown⟩, hlis, htup⟩ := h
  have hheld : s.held i = false := hown.not_held_of_call hcall rfl
  refine ⟨⟨_, hown.moveFromCall hcall rfl .none (fun k hk => ?_) rfl rfl (fun _ _ => rfl)
    ⟨fun hh => absurd (hheld.symm.trans hh) (by decide), nofun⟩ nofun nofun ?_⟩, hlis, ?_⟩
  · simp [hk]
  · exact closeFinish_ok s.ticks (s.conns i) (update_self ..)
  · exact htup.update_of_keep closeFinish_samePeer

/-! ## Listening and accepting -/

lemma clampBacklog_le (backlog : ℤ) : clampBacklog backlog ≤ tcpBacklogMax := by
  unfold clampBacklog tcpBacklogMax
  split_ifs <;> omega

section

variable (h : TableInv strict s) {l : ListenerSlot}
include h

lemma claimPort_inv {port : UInt16} {backlog : ℕ} (hback : backlog ≤ tcpBacklogMax)
    (hport : ¬ Listening s port) : TableInv strict (claimPort s port backlog) := by
  unfold claimPort
  split
  · exact h
  next l hfind =>
  have hfree : (s.listeners l).inUse = false := by simpa using find?_some hfind
  obtain ⟨⟨own, hown⟩, hlis, htup⟩ := h
  have hempty : (s.listeners l).queue = [] := (hlis.each l).free hfree
  have hout : ∀ i, own i ≠ .queue l := fun i hi => by
    rw [← hown.queue, hempty] at hi
    cases hi
  refine ⟨⟨own, hown.app, hown.task, fun k i => ?_, fun i => ?_⟩,
    hlis.update ⟨nofun, Nat.zero_le _, hback, nodup_nil⟩ fun _ k _ hk hp => hport ⟨k, hk, hp⟩,
    htup⟩
  · rw [← hown.queue, Net.setListener_listeners]
    by_cases hk : k = l
    · subst hk
      rw [update_self, hempty]
    · rw [update_of_ne hk]
  · refine (hown.ok i).congr rfl rfl rfl rfl (fun _ _ => rfl) (fun k hk => ?_) ?_
    · rw [Net.setListener_listeners, update_of_ne]
      rintro rfl
      exact hout i hk
    · rintro - p ⟨k, hk, hp⟩
      have hkl : k ≠ l := by
        rintro rfl
        cases hfree.symm.trans hk
      refine ⟨k, ?_⟩
      rw [Net.setListener_listeners, update_of_ne hkl]
      exact ⟨hk, hp⟩

lemma tcpListen_inv (port : UInt16) (backlog : ℤ) : TableInv strict (tcpListen s port backlog) := by
  unfold tcpListen
  split_ifs with h₁ h₂
  · exact h
  · exact h
  · rw [findListener_isSome] at h₂
    exact claimPort_inv h (clampBacklog_le backlog) h₂

lemma tcpAcceptCall_inv (hidle : s.calls task = none) (port : UInt16)
    (timeoutMs : ℕ) : TableInv strict (tcpAcceptCall s task port timeoutMs) := by
  unfold tcpAcceptCall
  split
  · exact h
  · exact h.setCall (by simp [hidle]) (by simp [Call.owns])

lemma acceptHead_inv {rest : List Slot} (hqueue : (s.listeners l).queue = i :: rest)
    (hcall : ∀ call ∈ s.calls task, call.owns = none) :
    TableInv strict (((s.setListener l { s.listeners l with queue := rest }).setHeld i
      true).setCall task none) := by
  obtain ⟨⟨own, hown⟩, hlis, htup⟩ := h
  have hx := hlis.each l
  have hown_i : own i = .queue l := by rw [← hown.queue, hqueue]; exact mem_cons_self
  have hnodup : i ∉ rest := by
    have := hx.nodup
    rw [hqueue] at this
    exact (nodup_cons.1 this).1
  have hports := setQueue_port s.listeners l rest
  refine ⟨⟨_, hown.update i .app (fun k hk => ?_) ?_ (fun t call k hc ho => ?_) (fun k m hm => ?_)
    (fun k => ?_) (fun k hk => ?_) ?_⟩, hlis.setQueue ⟨fun hfree => ?_, ?_, hx.backlog, ?_⟩, htup⟩
  · simp [hk]
  · simp
  · have ht : t ≠ task := by
      rintro rfl
      simp at hc
    rw [Net.setCall_calls, update_of_ne ht] at hc
    refine .inl ⟨?_, hc⟩
    rintro rfl
    cases hown_i.symm.trans (hown.task t call k hc ho)
  · by_cases hk : k = l
    · subst hk
      simp [hqueue, hm]
    · simp [hk]
  · by_cases hk : k = l
    · subst hk
      simp [hnodup]
    · rw [Net.setCall_listeners, Net.setHeld_listeners, Net.setListener_listeners, update_of_ne hk,
        hown.queue, hown_i]
      refine ⟨fun he => ?_, nofun⟩
      injection he with he
      exact absurd he.symm hk
  · refine (hown.ok k).of_conn rfl (fun t ht => ?_) (fun m _ => (hports m).1) ?_
    · refine update_of_ne ?_ ..
      rintro rfl
      exact hown.ne_task (fun call hc => by rw [hcall call hc]; nofun) ht
    · rintro - port ⟨m, hm, hp⟩
      exact ⟨m, (hports m).2.trans hm, (hports m).1.trans hp⟩
  · have hok := hown.ok i
    have hstream := hok.isStream (by rw [hown_i]; nofun)
    rw [hown_i] at hok
    obtain ⟨huse, -, -, hopen⟩ := hok
    exact ⟨huse, hstream, hopen⟩
  · have := hx.free hfree
    rw [hqueue] at this
    cases this
  · have := hx.length
    rw [hqueue, length_cons] at this
    exact (Nat.le_succ _).trans this
  · have := hx.nodup
    rw [hqueue] at this
    exact (nodup_cons.1 this).2

lemma tcpAcceptResume_inv (hcall : s.calls task = some (.accept l t0 wait)) :
    TableInv strict (tcpAcceptResume s task l t0 wait) := by
  have hold : ∀ call ∈ s.calls task, call.owns = none := by simp [hcall, Call.owns]
  unfold tcpAcceptResume
  split
  · split
    · exact h.setCall hold nofun
    · exact h
  · next hqueue => exact acceptHead_inv h hqueue hold

/-! ## Giving up a port -/

lemma unlisten_inv (hl : (s.listeners l).inUse = true)
    (hkeep : strict → ∀ i, (s.conns i).inUse = true → (s.conns i).role = .accepted →
      (s.conns i).state = .synRcvd → (s.conns i).localPort ≠ (s.listeners l).port) :
    TableInv strict (((s.listeners l).queue.foldl refuseQueued s).setListener l .zero) := by
  obtain ⟨⟨own, hown⟩, hlis, htup⟩ := h
  obtain ⟨hlis', hcalls, hheld⟩ := foldl_refuseQueued_frame (s.listeners l).queue s
  have hconns := foldl_refuseQueued_conns (s.listeners l).queue s
  generalize hq : (s.listeners l).queue = q at *
  generalize q.foldl refuseQueued s = s' at *
  have hin : ∀ i, i ∈ q ↔ own i = .queue l := fun i => by rw [← hq]; exact hown.queue l i
  -- the queued slots lose their owner, the others keep theirs
  refine ⟨⟨fun i => if i ∈ q then .none else own i, fun i => ?_, fun t call i hc ho => ?_,
    fun k i => ?_, fun i => ?_⟩, ?_, ?_⟩
  · rw [Net.setListener_held, hheld, hown.app]
    split
    · next hi => rw [(hin i).1 hi]; exact ⟨nofun, nofun⟩
    · rfl
  · rw [Net.setListener_calls, hcalls] at hc
    have htask := hown.task t call i hc ho
    rw [if_neg, htask]
    rw [hin, htask]
    nofun
  · rw [Net.setListener_listeners, hlis']
    by_cases hk : k = l
    · subst hk
      rw [update_self]
      refine ⟨nofun, fun hi => ?_⟩
      split at hi
      · cases hi
      · next hout => exact absurd ((hin i).2 hi) hout
    · rw [update_of_ne hk, hown.queue]
      split
      · next hi =>
        rw [(hin i).1 hi]
        refine ⟨fun he => ?_, nofun⟩
        injection he with he
        exact absurd he.symm hk
      · rfl
  · split
    · next hi =>
      -- a queued connection was in use, and is freed
      rintro - huse
      rw [Net.setListener_conns, hconns] at huse
      split at huse
      · cases huse
      · next hfree => exact absurd ⟨hi, huse⟩ hfree
    · next hi =>
      have hc : (s'.setListener l .zero).conns i = s.conns i := by
        rw [Net.setListener_conns, hconns, if_neg fun h => hi h.1]
      by_cases hnone : own i = .none
      · rw [hnone]
        intro hs huse
        rw [hc] at huse ⊢
        have hok := hown.ok i
        rw [hnone] at hok
        rcases hok hs huse with h | h | ⟨hrole, hst, m, hm, hport⟩
        · exact .inl h
        · exact .inr (.inl h)
        · refine .inr (.inr ⟨hrole, hst, m, ?_⟩)
          have hml : m ≠ l := by
            rintro rfl
            exact hkeep hs i huse hrole hst hport.symm
          rw [Net.setListener_listeners, update_of_ne hml, hlis']
          exact ⟨hm, hport⟩
      · refine (hown.ok i).of_conn hc (fun t _ => by rw [Net.setListener_calls, hcalls])
          (fun k hk => ?_) fun h => absurd h hnone
        rw [Net.setListener_listeners, update_of_ne, hlis']
        rintro rfl
        exact hi ((hin i).2 hk)
  · rw [Net.setListener_listeners, hlis']
    exact hlis.update ⟨fun _ => rfl, Nat.zero_le _, Nat.zero_le _, nodup_nil⟩ nofun
  · refine htup.of_keep fun i hi => ?_
    rw [Net.setListener_conns, hconns] at hi ⊢
    split at hi
    · cases hi
    · next hout =>
      rw [if_neg hout]
      exact ⟨hi, rfl, rfl, rfl⟩

/-- `tcp_unlisten` keeps the invariant, if it leaves no half-open connection behind. -/
lemma tcpUnlisten_inv {port : UInt16}
    (hkeep : strict → Listening s port → ∀ i, (s.conns i).inUse = true →
      (s.conns i).role = .accepted → (s.conns i).state = .synRcvd → (s.conns i).localPort ≠ port) :
    TableInv strict (tcpUnlisten s port) := by
  unfold tcpUnlisten
  split
  · exact h
  · next l hfind =>
    obtain ⟨hl, hport⟩ := findListener_some hfind
    refine unlisten_inv h hl fun hs => ?_
    rw [hport]
    exact hkeep hs ⟨l, hl, hport⟩

/-! ## One event -/

lemma start_inv (hidle : s.calls task = none) {req : Request}
    (hsafe : SparesClosing s (.call task req))
    (hkeep : strict → KeepsReclaimable s (.call task req)) :
    TableInv strict (start s task req) := by
  cases req with
  | connect dstIp dstPort timeoutMs localIp ok prng iss =>
    refine tcpConnectStart_inv h hidle (fun hdst => hsafe ?_) timeoutMs localIp ok prng iss
    simpa [reaps, hidle] using hdst
  | send i data => exact tcpSendCall_inv h hidle i data
  | recv i len timeoutMs => exact tcpRecvCall_inv h hidle i len timeoutMs
  | close i => exact tcpCloseCall_inv h hidle i
  | listen port backlog => exact tcpListen_inv h port backlog
  | accept port timeoutMs => exact tcpAcceptCall_inv h hidle port timeoutMs
  | unlisten port => exact tcpUnlisten_inv h fun hs => (hkeep hs).unlisten task port rfl
  | getConnectionsCount => exact h.reap (hsafe (by simp [reaps, hidle]))

lemma resume_inv {call : Call} (hcall : s.calls task = some call) :
    TableInv strict (resume s task call) := by
  cases call with
  | connect i t0 wait last => exact tcpConnectResume_inv h hcall
  | send i call => exact tcpSendResume_inv h hcall
  | recv i len t0 wait => exact tcpRecvResume_inv h hcall
  | close i t0 => exact tcpCloseResume_inv h hcall
  | accept l t0 wait => exact tcpAcceptResume_inv h hcall

/-- **One event keeps the invariant of the tables**, if it does not reap a connection that is
being closed and, where nothing may be lost, keeps connections reclaimable. -/
theorem step_tableInv (hsafe : SparesClosing s e)
    (hkeep : strict → KeepsReclaimable s e) : TableInv strict (step s e) := by
  cases e with
  | rx env packet srcIp =>
    simp only [step, tcpReceive]
    split
    · exact h
    · next g hg => exact receiveSegment_inv env srcIp h hg hsafe hkeep
  | tick n => exact h.congr rfl rfl rfl rfl
  | call task req =>
    simp only [step]
    split
    · next hidle => exact start_inv h hidle hsafe hkeep
    · exact h
  | resume task =>
    simp only [step]
    split
    · exact h
    · next call hcall => exact resume_inv h hcall

end

lemma tcpInit_tableInv : TableInv strict tcpInit := by
  refine ⟨⟨fun _ => .none, fun i => ⟨nofun, nofun⟩, nofun, fun l i => ⟨nofun, nofun⟩,
    fun i _ => nofun⟩,
    ⟨nofun, fun l => ⟨fun _ => rfl, Nat.le_refl 0, Nat.zero_le _, nodup_nil⟩⟩, nofun⟩

theorem run_tableInv {es : List Event}
    (h : EventRun.Along step (fun s e => SparesClosing s e ∧ (strict → KeepsReclaimable s e))
      tcpInit es) : TableInv strict (runFrom es) := by
  have hstep : ∀ s e, TableInv strict s → SparesClosing s e ∧ (strict → KeepsReclaimable s e) →
      TableInv strict (step s e) := fun s e hs he => step_tableInv hs he.1 he.2
  exact EventRun.run_invariant_of_along hstep tcpInit_tableInv h

end

open EventRun (Along)

/-! ## The tables are in order -/

/-- The connection and listener tables are in order. -/
structure TablesOk (s : Net) : Prop where
  /-- No two slots in use have the same remote address, remote port and local port. -/
  tuples : ∀ i j, (s.conns i).inUse = true → (s.conns j).inUse = true →
    (s.conns i).remoteIp = (s.conns j).remoteIp → (s.conns i).remotePort = (s.conns j).remotePort →
    (s.conns i).localPort = (s.conns j).localPort → i = j
  /-- No two listeners share a port. -/
  ports : ∀ l l', (s.listeners l).inUse = true → (s.listeners l').inUse = true →
    (s.listeners l).port = (s.listeners l').port → l = l'
  /-- A queue is within the backlog. -/
  count : ∀ l, (s.listeners l).queue.length ≤ (s.listeners l).backlog ∧
    (s.listeners l).backlog ≤ tcpBacklogMax
  /-- A queue holds pairwise distinct pointers. -/
  distinct : ∀ l, (s.listeners l).queue.Nodup
  /-- A queued slot is in use and was opened by a peer on the port of the listener. -/
  queued : ∀ l, ∀ i ∈ (s.listeners l).queue, (s.conns i).inUse = true ∧
    (s.conns i).role = .accepted ∧ (s.conns i).localPort = (s.listeners l).port
  /-- A slot is in one queue. -/
  single : ∀ l l', ∀ i ∈ (s.listeners l).queue, i ∈ (s.listeners l').queue → l = l'
  /-- A queued slot has not been returned by `tcp_accept`: no application holds it and no
  `tcp_connect` or `tcp_close` is in progress on it. -/
  unreturned : ∀ l, ∀ i ∈ (s.listeners l).queue, s.held i = false ∧
    ∀ t call, s.calls t = some call → call.owns ≠ some i

variable {s : Net}

lemma TableInv.tablesOk {strict : Prop} (h : TableInv strict s) : TablesOk s := by
  obtain ⟨⟨own, hown⟩, hlis, htup⟩ := h
  refine ⟨fun i j hi hj h₁ h₂ h₃ => htup i j hi hj ⟨h₁, h₂, h₃⟩, hlis.ports,
    fun l => ⟨(hlis.each l).length, (hlis.each l).backlog⟩, fun l => (hlis.each l).nodup,
    fun l i hi => ?_, fun l l' i hi hi' => ?_, fun l i hi => ⟨?_, fun t call hc ho => ?_⟩⟩
  · have hok := hown.ok i
    rw [(hown.queue l i).1 hi] at hok
    exact ⟨hok.1, hok.2.1, hok.2.2.1⟩
  · have := ((hown.queue l i).1 hi).symm.trans ((hown.queue l' i).1 hi')
    injection this
  · rw [← Bool.not_eq_true, hown.app, (hown.queue l i).1 hi]
    nofun
  · cases ((hown.queue l i).1 hi).symm.trans (hown.task t call i hc ho)

/-- **The tables are in order in every state reached**, whatever segments arrive and whichever
calls are made in between, as long as the reaper frees no connection that a `tcp_close` in
progress points to.

**Proof sketch.** Every event keeps one owner per slot (`step_tableInv`). A slot is in a queue
exactly when that queue owns it, so it is in no other queue and nobody else frees it. -/
theorem tablesOk_run {es : List Event} (h : Along step SparesClosing tcpInit es) :
    TablesOk (runFrom es) := by
  have hinv : TableInv False (runFrom es) :=
    run_tableInv (h.mono fun s e he => ⟨he, fun hf => hf.elim⟩)
  exact hinv.tablesOk

/-- A peer at address `ip` opens a connection to port 5000 and finishes the handshake. -/
def handshakeFrom (ip : UInt32) : List Event :=
  [.rx quietEnv (bareSegment [0, 0, 0, 100] [0, 0, 0, 0] tcpFlagSyn) ip,
    .rx quietEnv (bareSegment [0, 0, 0, 101] [0, 0, 0, 8] tcpFlagAck) ip]

/-- A server listens on port 5000 and one peer connects. -/
def serveOne : List Event := .call 0 (.listen 5000 1) :: handshakeFrom 1

lemma SparesClosing.of_idle (h : ∀ t, s.calls t = none) : SparesClosing s e := by
  rintro - ⟨t, i, t0, hc, -⟩
  rw [h t] at hc
  cases hc

set_option maxRecDepth 4000 in
lemma serveOne_sparesClosing : Along step SparesClosing tcpInit serveOne :=
  ⟨.of_idle fun _ => rfl, .of_idle fun _ => rfl, .of_idle fun _ => rfl, trivial⟩

set_option maxRecDepth 4000 in
/-- After the handshake the connection waits in the queue of its listener. -/
theorem tablesOk_run_serveOne :
    ((runFrom serveOne).listeners 0).queue = [0] ∧ TablesOk (runFrom serveOne) :=
  ⟨by decide, tablesOk_run serveOne_sparesClosing⟩

/-- The server accepts the connection and closes it; the peer finishes the shutdown, and for two
seconds the closing task does not run. Then a second peer connects, and the task continues. -/
def closeRace : List Event :=
  serveOne ++
    [.call 0 (.accept 5000 0), .resume 0, .call 0 (.close 0),
      .rx quietEnv (bareSegment [0, 0, 0, 101] [0, 0, 0, 9] (tcpFlagFin ||| tcpFlagAck)) 1,
      .tick 200] ++
    handshakeFrom 2 ++ [.resume 0]

set_option maxRecDepth 8000 in
/-- The second connection gets the slot of the first and waits in the queue; the `tcp_close` of
the first frees it there. -/
theorem reaped_close_frees_queued :
    ((runFrom closeRace).listeners 0).queue = [0] ∧ ((runFrom closeRace).conns 0).inUse = false ∧
      ¬ TablesOk (runFrom closeRace) := by
  have hqueue : ((runFrom closeRace).listeners 0).queue = [0] := by decide
  have hfree : ((runFrom closeRace).conns 0).inUse = false := by decide
  refine ⟨hqueue, hfree, fun h => ?_⟩
  have := (h.queued 0 0 (by rw [hqueue]; exact mem_singleton_self 0)).1
  cases hfree.symm.trans this

/-! ## Every connection in use is reclaimable -/

/-- Something will free the slot, or has a pointer to it that it will pass to `tcp_close`. -/
def Reclaimable (s : Net) (i : Slot) : Prop :=
  -- an application holds it: it was returned and not closed, or the call that opens or closes
  -- it has not returned
  s.held i = true ∨ (∃ t call, s.calls t = some call ∧ call.owns = some i) ∨
    (∃! l, i ∈ (s.listeners l).queue) ∨
    ((s.conns i).state = .synRcvd ∧ Listening s (s.conns i).localPort) ∨
    (s.conns i).state = .timeWait ∨
    ((s.conns i).role = .service ∧ (s.conns i).state ≠ .closed)

lemma TableInv.reclaimable (h : TableInv True s) {i : Slot}
    (huse : (s.conns i).inUse = true) : Reclaimable s i := by
  obtain ⟨⟨own, hown⟩, -, -⟩ := h
  have hok := hown.ok i
  cases hi : own i with
  | none =>
    rw [hi] at hok
    rcases hok trivial huse with htw | hsvc | ⟨-, hst, hlis⟩
    · exact .inr (.inr (.inr (.inr (.inl htw))))
    · exact .inr (.inr (.inr (.inr (.inr hsvc))))
    · exact .inr (.inr (.inr (.inl ⟨hst, hlis⟩)))
  | app => exact .inl ((hown.app i).2 hi)
  | task t =>
    rw [hi] at hok
    refine .inr (.inl ?_)
    rcases hok.2 with ⟨⟨t0, wait, last, hc⟩, -⟩ | ⟨⟨t0, hc⟩, -⟩
    · exact ⟨t, _, hc, rfl⟩
    · exact ⟨t, _, hc, rfl⟩
  | queue l =>
    refine .inr (.inr (.inl ⟨l, (hown.queue l i).2 hi, fun l' hl' => ?_⟩))
    have := ((hown.queue l' i).1 hl').symm.trans hi
    injection this

/-- **Every slot in use is reclaimable in every state reached**, as long as no event takes away
what will free a connection: no RST closes a half-open connection of a listener, or one in
TIME_WAIT after its `tcp_close` has returned, no `tcp_unlisten` leaves a half-open connection
behind, and the reaper frees no connection that is being closed. -/
theorem reclaimable_run {es : List Event}
    (h : Along step (fun s e => SparesClosing s e ∧ KeepsReclaimable s e) tcpInit es) (i : Slot)
    (huse : ((runFrom es).conns i).inUse = true) : Reclaimable (runFrom es) i := by
  have hinv : TableInv True (runFrom es) :=
    run_tableInv (h.mono fun s e he => ⟨he.1, fun _ => he.2⟩)
  exact hinv.reclaimable huse

/-- A call other than `tcp_unlisten` takes nothing away, nor does a segment without RST. -/
lemma KeepsReclaimable.of_no_rst (hrst : ∀ p ∈ deliveredTo s e, p.2.has tcpFlagRst = false)
    (hcall : ∀ task port, e ≠ .call task (.unlisten port)) : KeepsReclaimable s e := by
  refine ⟨fun p hp h => ?_, fun p hp h => ?_, fun task port he => absurd he (hcall task port)⟩ <;>
    cases (hrst p hp).symm.trans h

set_option maxRecDepth 4000 in
lemma serveOne_keepsReclaimable : Along step KeepsReclaimable tcpInit serveOne :=
  ⟨.of_no_rst nofun nofun, .of_no_rst (by decide) nofun, .of_no_rst (by decide) nofun, trivial⟩

set_option maxRecDepth 4000 in
/-- The connection that waits in the queue is reclaimable. -/
theorem reclaimable_run_serveOne :
    ((runFrom serveOne).conns 0).inUse = true ∧ Reclaimable (runFrom serveOne) 0 :=
  ⟨by decide, reclaimable_run (serveOne_sparesClosing.and serveOne_keepsReclaimable) 0 (by decide)⟩

/-- A peer opens a connection to port 5000 and resets it before the handshake is finished. -/
def synThenRst : List Event :=
  [.call 0 (.listen 5000 1),
    .rx quietEnv (bareSegment [0, 0, 0, 100] [0, 0, 0, 0] tcpFlagSyn) 1,
    .rx quietEnv (bareSegment [0, 0, 0, 101] [0, 0, 0, 0] tcpFlagRst) 1]

set_option maxRecDepth 4000 in
/-- The slot stays in use and CLOSED, and nothing will free it. -/
theorem rst_to_halfOpen_leaks :
    ((runFrom synThenRst).conns 0).inUse = true ∧
      ((runFrom synThenRst).conns 0).state = .closed ∧ ¬ Reclaimable (runFrom synThenRst) 0 := by
  have hstate : ((runFrom synThenRst).conns 0).state = .closed := by decide
  have hrole : ((runFrom synThenRst).conns 0).role = .accepted := by decide
  have hcalls : ∀ t, (runFrom synThenRst).calls t = none := fun _ => rfl
  have hqueue : ∀ l, ((runFrom synThenRst).listeners l).queue = [] := by decide
  refine ⟨by decide, hstate, ?_⟩
  rintro (h | ⟨t, call, hc, -⟩ | ⟨l, hl, -⟩ | ⟨h, -⟩ | h | ⟨h, -⟩)
  · exact absurd h (by decide)
  · rw [hcalls] at hc
    cases hc
  · rw [hqueue] at hl
    cases hl
  · cases hstate.symm.trans h
  · cases hstate.symm.trans h
  · cases hrole.symm.trans h

end SubOS.Tcp
