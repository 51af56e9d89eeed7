import SubOS.Kernel.Runnable
import SubOS.Kernel.Waiters

set_option autoImplicit false

/-!
# The invariant of the system

What holds in every state that the tasks, the timer and the wake-ups reach together. The part of the
invariant that concerns the scheduler is a parameter. A task that waits is BLOCKED when it yields,
so it is not put back into a lane; `wake_up` marks it READY but does not put it back either, and it
never runs again. This is the only way in which a READY task of the rotation gets lost.

## Main definitions

* `Sched.Stable` — a property of the scheduler that its operations keep.
* `Sys.Inv` — the invariant.

## Main results

* `Sys.Inv.step`, `Sys.inv_run` — the invariant along the runs.
* `Sys.readyLinked_run`, `Sys.woken_task_lost` — READY tasks, linked and lost.
-/

namespace SubOS.Kernel

open EventRun

/-! ## Properties of the scheduler -/

namespace Sched

/-- A property of the scheduler that its operations keep. -/
structure Stable (R : Sched → Prop) : Prop where
  current_lt : ∀ s, R s → s.current < s.nextPid
  vars : ∀ s s' : Sched, R s → s'.tasks = s.tasks → s'.links = s.links → s'.nready = s.nready →
    s'.current = s.current → s'.nextPid = s.nextPid → R s'
  running : ∀ (s : Sched) (f : Task → Task), (∀ k, (f k).weaveLane = k.weaveLane) → R s →
    R (s.setTask s.current f)
  rotate : ∀ (s : Sched) (voluntary : Bool), R s → R (s.weaveRotate voluntary)
  exit : ∀ s : Sched, (s.tasks s.current).weaveOn = false → R s → R s.schedExitCurrent
  create : ∀ (s : Sched) (taskOk stackOk : Bool), R s → R (s.taskCreate taskOk stackOk)

/-- The lanes hold tasks that exist, other than the running one. -/
def Orderly (s : Sched) : Prop := ∃ lanes, s.Settled lanes

/-- The lanes hold all READY tasks of the rotation but the running one. -/
def Complete (s : Sched) : Prop := ∃ lanes, s.Runnable lanes

lemma stable_orderly : Stable Orderly where
  current_lt := fun _ ⟨_, h⟩ => h.current_lt
  vars := fun _ _ ⟨lanes, h⟩ htasks hlinks hnready hcur hpid =>
    ⟨lanes, h.congr (htasks ▸ h.lane_lt) hlinks hnready hcur hpid⟩
  running := fun _ _ hf ⟨lanes, h⟩ => ⟨lanes, h.setTask _ hf⟩
  rotate := fun _ voluntary ⟨_, h⟩ => h.weaveRotate voluntary
  exit := fun _ _ ⟨_, h⟩ => h.schedExitCurrent
  create := fun _ taskOk stackOk ⟨_, h⟩ => h.taskCreate taskOk stackOk

lemma stable_complete : Stable Complete where
  current_lt := fun _ ⟨_, h⟩ => h.current_lt
  vars := fun _ _ ⟨lanes, h⟩ htasks hlinks hnready hcur hpid =>
    ⟨lanes, h.congr htasks hlinks hnready hcur hpid⟩
  running := fun _ _ hf ⟨lanes, h⟩ => ⟨lanes, h.setCurrent hf⟩
  rotate := fun _ voluntary ⟨_, h⟩ => h.weaveRotate voluntary
  exit := fun _ hoff ⟨_, h⟩ => h.schedExitCurrent hoff
  create := fun _ taskOk stackOk ⟨_, h⟩ => h.taskCreate taskOk stackOk

namespace Stable

variable {R : Sched → Prop} {s : Sched}

lemma schedTick (hR : Stable R) (h : R s) : R s.schedTick := by
  unfold Sched.schedTick
  split
  · exact h
  · have hset := hR.running s (fun k => { k with weaveCredit := k.weaveCredit - 1 })
      (fun _ => rfl) h
    dsimp only
    split
    · exact hR.vars _ _ hset rfl rfl rfl rfl rfl
    · exact hset

lemma schedPreemptOnReturn (hR : Stable R) (h : R s) : R s.schedPreemptOnReturn := by
  unfold Sched.schedPreemptOnReturn
  split_ifs
  · exact h
  · exact h
  · exact h
  · exact hR.rotate _ _ (hR.vars s { s with needResched := false } h rfl rfl rfl rfl rfl)

lemma preemptTail (hR : Stable R) (h : R s) (before : ℕ) : R (s.preemptTail before) := by
  unfold Sched.preemptTail
  split
  · exact hR.vars _ _ h rfl rfl rfl rfl rfl
  · exact h

end Stable

end Sched

namespace Sys

/-- The entries that an action flips. -/
def flips (s : Sys) : Action → List EntryId
  | .wakeUp q => (s.sleepers q).take 1
  | .wakeUpAll q => s.sleepers q
  | _ => []

/-- The entries that an event flips. -/
def wakes (s : Sys) : Event → List EntryId
  | .act a =>
    if (s.ctx s.current).irq = none ∧ (s.ctx s.current).pc = .user then s.flips a else []
  | _ => []

/-- The entries that the event flips belong to tasks that run, that do not take part in the rotation
or that are READY already. -/
def WakesRunnable (s : Sys) (e : Event) : Prop :=
  ∀ i ∈ s.wakes e, ∀ t ∈ (s.waits.pool i).task, s.sched.Awake t
  deriving Decidable

/-- The invariant: the scheduler has the property `R`, tasks hold different entries, and the queues
hold the entries of the tasks that wait. -/
structure Inv (R : Sched → Prop) (s : Sys) : Prop where
  sched : R s.sched
  owned : Owned s.ctx s.waits
  placed : Placed s.ctx s.sched
  queued : ∃ members, Queued s.ctx s.waits members

variable {R : Sched → Prop} {s s' : Sys} {pc : Pc} {i : EntryId} {q : QueueId} {l : List EntryId}

/-! ## Interrupts -/

lemma Inv.of_sched (h : s.Inv R) {k : Sched} {ctx : TaskId → Ctx} (ticks : UInt64) (hk : R k)
    (hsame : s.sched.SameRotation k) (hpc : ∀ t, (ctx t).pc = (s.ctx t).pc) :
    Inv R ⟨k, s.waits, ticks, ctx⟩ := by
  obtain ⟨members, hq⟩ := h.queued
  exact ⟨hk, h.owned.congr hpc rfl fun _ => rfl, h.placed.congr hpc hsame, members,
    hq.congr (fun t => congrArg Pc.linked (hpc t)) rfl fun _ => rfl⟩

lemma update_irq_pc (ctx : TaskId → Ctx) (t : TaskId) (irq : Option ℕ) (u : TaskId) :
    (Function.update ctx t { ctx t with irq := irq } u).pc = (ctx u).pc := by
  rcases eq_or_ne u t with rfl | hne
  · rw [Function.update_self]
  · rw [Function.update_of_ne hne]

section

variable (hR : Sched.Stable R)
include hR

lemma Inv.preemptOnReturn (h : s.Inv R) : s.preemptOnReturn.Inv R := by
  have hsame := Sched.SameRotation.schedPreemptOnReturn s.sched
  have hk := hR.schedPreemptOnReturn h.sched
  unfold Sys.preemptOnReturn
  dsimp only
  split
  · exact h.of_sched s.ticks (hR.preemptTail hk _) (hsame.trans (.preemptTail _ _)) fun _ => rfl
  · exact h.of_sched s.ticks hk hsame fun u => update_irq_pc _ _ _ u

lemma Inv.timer (h : s.Inv R) : s.timer.Inv R :=
  .preemptOnReturn hR
    (h.of_sched _ (hR.schedTick h.sched) (.schedTick s.sched) fun _ => rfl)

/-! ## Statements -/

/-- The running task goes on, with the same entry and on the same queue, and nothing else
changes. -/
lemma Inv.goto (h : s.Inv R) {pc' : Pc} (hpc : (s.ctx s.current).pc = pc)
    (hentry : pc'.entry = pc.entry) (hfilled : pc'.filled = pc.filled)
    (hlinked : pc'.linked = pc.linked) (hexit : pc' ≠ .exitSwitch) : (s.goto pc').Inv R := by
  subst hpc
  obtain ⟨members, hq⟩ := h.queued
  exact ⟨h.sched, h.owned.advance hentry hfilled,
    h.placed.set (hR.current_lt _ h.sched) (fun _ _ => rfl) rfl fun hc => absurd hc hexit, members,
    hq.advance hlinked⟩

lemma Inv.setState (h : s.Inv R) (state : TaskState) :
    Inv R { s with sched := s.sched.setTask s.current fun k => { k with state := state } } :=
  h.of_sched s.ticks (hR.running _ _ (fun _ => rfl) h.sched) (.setTask _ _ fun _ => rfl)
    fun _ => rfl

end

lemma setEntryState_of_owner {state : TaskState} (h : (s.waits.pool i).task = some s.current) :
    s.setEntryState i state =
      { s with sched := s.sched.setTask s.current fun k => { k with state := state } } := by
  simp [setEntryState, h]

lemma Inv.mark (hR : Sched.Stable R) (h : s.Inv R)
    (hpc : (s.ctx s.current).pc = pc) (hi : pc.filled = some i) (state : TaskState) :
    (s.setEntryState i state).Inv R ∧ ((s.setEntryState i state).ctx
      (s.setEntryState i state).current).pc = pc := by
  rw [setEntryState_of_owner (h.owned.task _ _ (hpc.symm ▸ hi))]
  exact ⟨h.setState hR state, hpc⟩

lemma Inv.setOn (hR : Sched.Stable R) (h : s.Inv R) (on : Bool) {pc' : Pc}
    (hpc : (s.ctx s.current).pc = pc) (hentry : pc'.entry = pc.entry)
    (hfilled : pc'.filled = pc.filled) (hlinked : pc'.linked = pc.linked)
    (hexit : pc' = .exitSwitch → on = false) :
    ({ s with sched := s.sched.setTask s.current fun k => { k with weaveOn := on } }.goto pc').Inv
      R := by
  subst hpc
  obtain ⟨members, hq⟩ := h.queued
  have hplaced : Placed (Function.update s.ctx s.current { s.ctx s.current with pc := pc' })
      (s.sched.setTask s.current fun k => { k with weaveOn := on }) := by
    refine h.placed.set (hR.current_lt _ h.sched) (fun u hu => ?_) rfl fun hc => ?_
    · rw [Sched.setTask_of_ne _ _ _ hu]
    · rw [Sched.setTask_self]
      exact hexit hc
  exact ⟨hR.running _ (fun k => { k with weaveOn := on }) (fun _ => rfl) h.sched,
    h.owned.advance hentry hfilled, hplaced, members, hq.advance hlinked⟩

lemma goto_self (hpc : (s.ctx s.current).pc = pc) : s.goto pc = s := by
  subst hpc
  simp [Sys.goto]

/-- **A statement of the running task keeps the invariant.** -/
theorem Inv.stmt (hR : Sched.Stable R) (h : s.Inv R) (hpc : (s.ctx s.current).pc = pc) :
    (s.stmt pc).Inv R := by
  obtain ⟨members, hq⟩ := h.queued
  have hlt := hR.current_lt _ h.sched
  -- a task that goes on to `pc'`, which is not the last switch, stays placed
  have hplaced : ∀ k : Ctx, k.pc ≠ .exitSwitch →
    Placed (Function.update s.ctx s.current k) s.sched :=
    fun k hk => h.placed.set hlt (fun _ _ => rfl) rfl fun hc => absurd hc hk
  cases pc with
  | user => exact h
  | fill c i =>
    have hentry : (s.ctx s.current).pc.entry = some i := by rw [hpc]; rfl
    have hlinked : (s.ctx s.current).pc.linked = none := by rw [hpc]; rfl
    exact ⟨h.sched, h.owned.fill hentry rfl, hplaced _ (by simp), members,
      hq.fill h.owned hentry hlinked rfl⟩
  | link c i =>
    have hown : Owned s.ctx (s.waits.link c.queue i) :=
      h.owned.congr (fun _ => rfl) rfl fun _ => rfl
    exact ⟨h.sched, hown.advance (by rw [hpc]; rfl) (by rw [hpc]; rfl), hplaced _ (by simp), _,
      hq.link h.owned hpc rfl⟩
  | block c i =>
    obtain ⟨hmark, hpc'⟩ := h.mark hR hpc rfl .blocked
    refine hmark.goto hR hpc' ?_ ?_ ?_ ?_ <;> cases c.timeout
      <;> simp [Pc.entry, Pc.filled, Pc.linked]
  | deadline c i ticks => exact h.goto hR hpc rfl rfl rfl (by simp)
  | check c i deadline =>
    simp only [Sys.stmt]
    split
    · exact h.goto hR hpc rfl rfl rfl (by simp)
    · cases deadline with
      | none | some d => exact h.goto hR hpc rfl rfl rfl (by simp)
  | expire c i d =>
    simp only [Sys.stmt]
    split
    · exact h.goto hR hpc rfl rfl rfl (by simp)
    · exact h.goto hR hpc rfl rfl rfl (by simp)
  | yield c i deadline =>
    have hgo : (s.goto (.check c i deadline)).Inv R := h.goto hR hpc rfl rfl rfl (by simp)
    exact hgo.of_sched s.ticks (hR.rotate _ true h.sched) (.weaveRotate _ true) fun _ => rfl
  | unlink c i r =>
    have hwaits : (s.waits.unlink c.queue i).used = s.waits.used ∧
        ∀ j, ((s.waits.unlink c.queue i).pool j).task = (s.waits.pool j).task := by
      unfold Waits.unlink
      split <;> exact ⟨rfl, fun _ => rfl⟩
    have hown : Owned s.ctx (s.waits.unlink c.queue i) :=
      h.owned.congr (fun _ => rfl) hwaits.1 hwaits.2
    exact ⟨h.sched, hown.advance (by rw [hpc]; rfl) (by rw [hpc]; rfl), hplaced _ (by simp), _,
      hq.unlink h.owned hpc rfl⟩
  | ready c i r =>
    obtain ⟨hmark, hpc'⟩ := h.mark hR hpc rfl .ready
    exact hmark.goto hR hpc' rfl rfl rfl (by simp)
  | free c i r =>
    have hfree : Queued s.ctx (s.waits.entryFree i) members :=
      hq.congr (fun _ => rfl) rfl fun _ => rfl
    exact ⟨h.sched, h.owned.free (by rw [hpc]; rfl) rfl, hplaced _ (by simp), members,
      hfree.advance (by rw [hpc]; rfl)⟩
  | exitDead => exact .goto hR (h.setState hR .dead) hpc rfl rfl rfl (by simp)
  | exitLeave => exact h.setOn hR false hpc rfl rfl rfl fun _ => rfl
  | exitSwitch =>
    have hgo : (s.goto .halted).Inv R := h.goto hR hpc rfl rfl rfl (by simp)
    have hoff := h.placed.exit _ hpc
    exact hgo.of_sched s.ticks (hR.exit _ hoff h.sched) (.schedExitCurrent _) fun _ => rfl
  | halted => exact h

/-! ## Actions -/

lemma used_freeEntry {w : Waits} (h : w.freeEntry = some i) : w.used i = false := by
  simpa using List.find?_some h

lemma Inv.waitEnter (hR : Sched.Stable R) (h : s.Inv R) (hpc : (s.ctx s.current).pc = .user)
    (c : WaitCall) : (s.waitEnter c).Inv R := by
  obtain ⟨members, hq⟩ := h.queued
  have hlt := hR.current_lt _ h.sched
  unfold Sys.waitEnter
  split
  · exact ⟨h.sched, h.owned.drop rfl, h.placed.set hlt (fun _ _ => rfl) rfl (fun hc => by cases hc),
      members, hq.advance (by rw [hpc])⟩
  · next i hfree =>
    have halloc : Queued s.ctx (s.waits.entryAlloc i) members :=
      hq.congr (fun _ => rfl) rfl fun _ => rfl
    exact ⟨h.sched, h.owned.alloc (used_freeEntry hfree) rfl rfl,
      h.placed.set hlt (fun _ _ => rfl) rfl (fun hc => by cases hc), members,
      halloc.advance (by rw [hpc]; rfl)⟩

lemma Inv.woken {s' : Sys} {q : QueueId} {l : List EntryId} (h : s.Inv R) (hw : Woken s s' q l)
    (hR' : R s'.sched) : s'.Inv R := by
  obtain ⟨members, hq⟩ := h.queued
  have hpc : ∀ t, (s'.ctx t).pc = (s.ctx t).pc := fun t => by rw [hw.ctx]
  have hsame : s.sched.SameRotation s'.sched := hw.sameRotation
  exact ⟨hR', h.owned.congr hpc hw.used hw.task, h.placed.congr hpc hsame, members,
    hq.congr (fun t => congrArg Pc.linked (hpc t)) hw.links hw.nrWaiting⟩

lemma Inv.waiters_nodup (h : s.Inv R) (q : QueueId) : (s.waits.waiters q).Nodup := by
  obtain ⟨members, hq⟩ := h.queued
  rw [hq.waiters_eq]
  exact hq.nodup q

/-- **An action of the running task keeps the invariant**, if waking keeps the property of the
scheduler. -/
theorem Inv.act (hR : Sched.Stable R) (h : s.Inv R) (hpc : (s.ctx s.current).pc = .user)
    (a : Action) (hwake : ∀ q s', Woken s s' q (s.flips a) → R s'.sched) : (s.act a).Inv R := by
  cases a with
  | create taskOk stackOk =>
    obtain ⟨members, hq⟩ := h.queued
    exact ⟨hR.create _ taskOk stackOk h.sched, h.owned, h.placed.taskCreate taskOk stackOk,
      members, hq⟩
  | yield =>
    exact h.of_sched s.ticks (hR.rotate _ true h.sched) (.weaveRotate _ true) fun _ => rfl
  | schedule =>
    exact h.of_sched s.ticks (hR.rotate _ false h.sched) (.weaveRotate _ false) fun _ => rfl
  | join =>
    have hset := h.setOn hR true hpc rfl rfl rfl fun hc => by cases hc
    rw [goto_self] at hset
    · exact hset
    · exact hpc
  | leave =>
    have hset := h.setOn hR false hpc rfl rfl rfl fun _ => rfl
    rw [goto_self] at hset
    · exact hset
    · exact hpc
  | setPreempt armed | preemptDisable | preemptEnable =>
    exact h.of_sched s.ticks (hR.vars _ _ h.sched rfl rfl rfl rfl rfl) ⟨fun _ => rfl, rfl⟩
      fun _ => rfl
  | wait c => exact h.waitEnter hR hpc c
  | wakeUp q =>
    have hw := (wakeUp_spec (h.waiters_nodup q)).1
    exact h.woken hw (hwake q _ hw)
  | wakeUpAll q =>
    have hw := (wakeUpAll_spec (h.waiters_nodup q)).1
    exact h.woken hw (hwake q _ hw)
  | exit code =>
    simp only [Sys.act]
    split
    · exact h.goto hR hpc rfl rfl rfl (by simp)
    · have hset : Inv R { s with
          sched := s.sched.setTask s.current fun k => { k with exitCode := code } } :=
        h.of_sched s.ticks (hR.running _ _ (fun _ => rfl) h.sched) (.setTask _ _ fun _ => rfl)
          fun _ => rfl
      exact hset.goto hR hpc rfl rfl rfl (by simp)

/-! ## Runs -/

/-- **A step keeps the invariant**, if waking keeps the property of the scheduler. -/
theorem Inv.step (hR : Sched.Stable R) (h : s.Inv R) (e : Event)
    (hwake : ∀ q s', Woken s s' q (s.wakes e) → R s'.sched) : (s.step e).Inv R := by
  unfold Sys.step
  split
  · next before hirq =>
    cases e with
    | run =>
      exact h.of_sched s.ticks (hR.preemptTail h.sched before) (.preemptTail _ before)
        fun u => update_irq_pc _ _ _ u
    | act a | timer | irq => exact h
  · next hirq =>
    cases e with
    | act a =>
      dsimp only
      split
      · next hpc =>
        refine h.act hR hpc a fun q s' hw => hwake q s' ?_
        simpa only [wakes, hirq, hpc, and_self, if_true] using hw
      · exact h
    | run => exact h.stmt hR rfl
    | timer => exact h.timer hR
    | irq => exact h.preemptOnReturn hR

lemma Woken.orderly (hw : Woken s s' q l)
    (h : s.sched.Orderly) : s'.sched.Orderly := by
  obtain ⟨lanes, h⟩ := h
  have hlane : ∀ t, (s'.sched.tasks t).weaveLane < weaveNlanes := by
    intro t
    rcases hw.tasks_cases t with heq | ⟨-, heq⟩ <;> rw [heq] <;> exact h.lane_lt t
  exact ⟨lanes, h.congr hlane (by rw [← hw.sched]) (by rw [← hw.sched]) (by rw [← hw.sched])
    (by rw [← hw.sched])⟩

lemma inv_boot (hR : R .schedInit) : boot.Inv R where
  sched := hR
  owned := ⟨fun t i hi => (by cases hi), fun t u i hi => (by cases hi), fun t i hi => (by cases hi)⟩
  placed := ⟨fun t ht => (by cases ht), fun _ _ => rfl⟩
  queued := by
    refine ⟨fun _ => [], fun q => ⟨?_, by simp⟩, fun q i => ?_, fun _ => rfl⟩
    · simp [boot, bootWaits, LinkedList.Links.Linked]
    · simp [boot, Pc.linked]

lemma Inv.step_orderly (h : s.Inv Sched.Orderly) (e : Event) : (s.step e).Inv Sched.Orderly :=
  h.step Sched.stable_orderly e fun _ _ hw => hw.orderly h.sched

lemma inv_boot_orderly : boot.Inv Sched.Orderly :=
  inv_boot ⟨_, Sched.runnable_schedInit.toSettled⟩

/-- **The invariant holds in every state that the system reaches.** -/
theorem inv_run (es : List Event) : (run step boot es).Inv Sched.Orderly :=
  run_invariant (fun _ e h => h.step_orderly e) inv_boot_orderly es

lemma Woken.complete (hw : Woken s s' q l)
    (h : s.sched.Complete) (hl : ∀ i ∈ l, ∀ t ∈ (s.waits.pool i).task, s.sched.Awake t) :
    s'.sched.Complete := by
  obtain ⟨lanes, h⟩ := h
  refine ⟨lanes, h.setReady (fun t => ?_) ?_ ?_ ?_ ?_⟩
  · rcases hw.tasks_cases t with heq | ⟨⟨i, hi, htask⟩, heq⟩
    · exact .inl heq
    · exact .inr ⟨hl i hi t htask, heq⟩
  all_goals rw [← hw.sched]

/-- **READY tasks are linked**: in every run whose wake-ups all concern tasks that run, that do not
take part in the rotation or that are READY already, every READY task of the rotation is the
running one or linked in exactly one lane. -/
theorem readyLinked_run (es : List Event) (h : Along step WakesRunnable boot es) :
    (run step boot es).sched.ReadyLinked := by
  have hstep : ∀ (s : Sys) (e : Event), s.Inv Sched.Complete → s.WakesRunnable e →
      (s.step e).Inv Sched.Complete := by
    intro s e hinv hwake
    exact hinv.step Sched.stable_complete e fun q s' hw => hw.complete hinv.sched hwake
  have hinv : (run step boot es).Inv Sched.Complete :=
    run_invariant_of_along hstep (inv_boot ⟨_, Sched.runnable_schedInit⟩) h
  obtain ⟨lanes, hrun⟩ := hinv.sched
  exact hrun.readyLinked

/-- Task 1 is preempted before it marks itself BLOCKED, and task 2 wakes it. -/
theorem readyLinked_run_preempted :
    (run step boot [.act (.setPreempt true), .act (.create true true),
      .act (.create true true), .act .yield, .act (.wait ⟨7, none⟩), .run, .run, .timer, .timer,
      .act (.wakeUp 7)]).sched.ReadyLinked ∧
    ((run step boot [.act (.setPreempt true), .act (.create true true),
      .act (.create true true), .act .yield, .act (.wait ⟨7, none⟩), .run, .run, .timer, .timer,
      .act (.wakeUp 7)]).waits.pool 0) = ⟨some 1, true⟩ :=
  ⟨readyLinked_run _ (by decide +kernel), by decide +kernel⟩

/-- **A woken task is lost.** Task 1 waits and yields to task 2, which wakes it: the entry of task 1
is flipped and task 1 is READY, but it neither runs nor is linked in any lane. -/
theorem woken_task_lost :
    ∃ s, s = run step boot [.act (.create true true), .act (.create true true),
      .act .yield, .act (.wait ⟨7, none⟩), .run, .run, .run, .run, .run, .act (.wakeUp 7)] ∧
      s.waits.pool 0 = ⟨some 1, true⟩ ∧ (s.sched.tasks 1).weaveOn = true ∧
      (s.sched.tasks 1).state = .ready ∧ s.current = 2 ∧ ∀ l, ¬ s.sched.LinkedIn l 1 := by
  refine ⟨_, rfl, by decide +kernel, by decide +kernel, by decide +kernel, by decide +kernel,
    fun l hl => ?_⟩
  obtain ⟨lanes, hsettled⟩ := (inv_run _).sched
  have hlinked := hsettled.weaveLinked_of_linkedIn hl
  revert hlinked
  decide +kernel

end Sys

end SubOS.Kernel
