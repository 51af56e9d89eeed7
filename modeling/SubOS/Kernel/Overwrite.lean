import SubOS.Kernel.SysInv

set_option autoImplicit false

/-!
# Marks that the waiter overwrites

`wait_prepare` first links the entry of the task and then marks the task BLOCKED. A wake-up between
the two marks the task READY, and the task then overwrites this mark. If it is preempted before
it has looked at its entry, it is BLOCKED although it has been woken, and is not put back into a
lane.

## Main definitions

* `WakesMarked` — wake-ups concern only tasks that have marked themselves.

## Main results

* `woken_not_blocked_run`, `ready_mark_overwritten` — the window is there, and the only one.
-/

namespace SubOS.Kernel

open EventRun

/-! ## No operation of the scheduler marks a task BLOCKED -/

namespace Sched

/-- No task is BLOCKED that was not. -/
def Unblocking (s s' : Sched) : Prop :=
  ∀ t, (s'.tasks t).state = .blocked → (s.tasks t).state = .blocked

namespace Unblocking

variable {s s' s'' : Sched}

lemma trans (h : s.Unblocking s') (h' : s'.Unblocking s'') : s.Unblocking s'' :=
  fun t ht => h t (h' t ht)

lemma setTask (s : Sched) (t : TaskId) {f : Task → Task}
    (hf : ∀ k, (f k).state = .blocked → k.state = .blocked) : s.Unblocking (s.setTask t f) := by
  intro u hu
  rcases eq_or_ne u t with rfl | hne
  · rw [setTask_self] at hu
    exact hf _ hu
  · rwa [setTask_of_ne _ _ _ hne] at hu

lemma weaveRotate (h : s.Orderly) (voluntary : Bool) : s.Unblocking (s.weaveRotate voluntary) := by
  obtain ⟨lanes, h⟩ := h
  rcases h.toLinked.weaveRotate voluntary with heq | ⟨next, lanes', hsw⟩
  · exact fun t ht => by rwa [heq] at ht
  · exact fun t ht => hsw.blocked ht

lemma schedExitCurrent (h : s.Orderly) : s.Unblocking s.schedExitCurrent := by
  obtain ⟨lanes, h⟩ := h
  rcases h.toLinked.schedExitCurrent with heq | ⟨next, lanes', hsw⟩
  · exact fun t ht => by rwa [heq] at ht
  · exact fun t ht => hsw.blocked ht

lemma schedTick (s : Sched) : s.Unblocking s.schedTick := by
  unfold Sched.schedTick
  split
  · exact fun _ ht => ht
  · have hset := setTask s s.current (f := fun k => { k with weaveCredit := k.weaveCredit - 1 })
      fun _ hk => hk
    dsimp only
    split
    · exact hset
    · exact hset

lemma schedPreemptOnReturn (h : s.Orderly) : s.Unblocking s.schedPreemptOnReturn := by
  unfold Sched.schedPreemptOnReturn
  split_ifs
  · exact fun _ ht => ht
  · exact fun _ ht => ht
  · exact fun _ ht => ht
  · exact weaveRotate (s := { s with needResched := false })
      (stable_orderly.vars _ _ h rfl rfl rfl rfl rfl) false

lemma preemptTail (s : Sched) (before : ℕ) : s.Unblocking (s.preemptTail before) := by
  unfold Sched.preemptTail
  split <;> exact fun _ ht => ht

lemma taskCreate (s : Sched) (taskOk stackOk : Bool) :
    s.Unblocking (s.taskCreate taskOk stackOk) := by
  intro t ht
  rcases s.taskCreate_cases taskOk stackOk with heq | heq | heq <;> rw [heq] at ht
  · exact ht
  · exact ht
  · rcases eq_or_ne t s.nextPid with rfl | hne
    · simp [schedAddTask] at ht
    · simpa [schedAddTask, allotted, Sched.setTask, hne] using ht

end Unblocking

end Sched

/-! ## The invariant -/

/-- The task has filled its entry but has not marked itself BLOCKED yet. -/
def Pc.unmarked : Pc → Bool
  | .link _ _ | .block _ _ => true
  | _ => false

namespace Sys

/-- The entries that the event flips belong to tasks that have marked themselves BLOCKED. -/
def WakesMarked (s : Sys) (e : Event) : Prop :=
  ∀ i ∈ s.wakes e, ∀ t ∈ (s.waits.pool i).task, (s.ctx t).pc.unmarked = false
  deriving Decidable

/-- A task whose entry is flipped is not BLOCKED, and is not about to mark itself so. -/
def Heeded (s : Sys) : Prop :=
  ∀ t i, (s.ctx t).pc.filled = some i → (s.waits.pool i).woken = true →
    (s.ctx t).pc.unmarked = false ∧ (s.sched.tasks t).state ≠ .blocked

variable {s s' : Sys}

section

variable (h : s.Heeded) {k : Sched}
include h

lemma Heeded.mono (hctx : ∀ t i, (s'.ctx t).pc.filled = some i → (s'.waits.pool i).woken = true →
      (s.ctx t).pc.filled = some i ∧ (s.waits.pool i).woken = true ∧
        ((s.ctx t).pc.unmarked = false → (s'.ctx t).pc.unmarked = false))
    (hsched : s.sched.Unblocking s'.sched) : s'.Heeded := by
  intro t i hi hwoken
  obtain ⟨hi', hwoken', hunmarked⟩ := hctx t i hi hwoken
  obtain ⟨hmark, hstate⟩ := h t i hi' hwoken'
  exact ⟨hunmarked hmark, fun hc => hstate (hsched t hc)⟩

lemma Heeded.of_sched {ctx : TaskId → Ctx} (ticks : UInt64) (hk : s.sched.Unblocking k)
    (hpc : ∀ t, (ctx t).pc = (s.ctx t).pc) : Heeded ⟨k, s.waits, ticks, ctx⟩ := by
  refine h.mono (fun t i hi hwoken => ?_) hk
  rw [hpc] at hi
  exact ⟨hi, hwoken, fun hmark => (congrArg Pc.unmarked (hpc t)).trans hmark⟩

/-- The running task goes on; the entries other than its own are not flipped, and its own only if
it was. -/
lemma Heeded.move {w : Waits} {c : Ctx} (hk : s.sched.Unblocking k)
    (hother : ∀ t, t ≠ s.current → ∀ i, (s.ctx t).pc.filled = some i → (w.pool i).woken = true →
      (s.waits.pool i).woken = true) (hown : ∀ i, c.pc.filled = some i → (w.pool i).woken = true →
      (s.ctx s.current).pc.filled = some i ∧ (s.waits.pool i).woken = true ∧
        c.pc.unmarked = false) : Heeded ⟨k, w, s.ticks, Function.update s.ctx s.current c⟩ := by
  refine h.mono (fun t i hi hwoken => ?_) hk
  dsimp only at hi hwoken ⊢
  rcases eq_or_ne t s.current with rfl | hne
  · rw [Function.update_self] at hi ⊢
    obtain ⟨hi', hwoken', hmark⟩ := hown i hi hwoken
    exact ⟨hi', hwoken', fun _ => hmark⟩
  · rw [Function.update_of_ne hne] at hi ⊢
    exact ⟨hi, hother t hne i hi hwoken, id⟩

lemma Heeded.goto {pc pc' : Pc} (hpc : (s.ctx s.current).pc = pc)
    (hfilled : pc'.filled = pc.filled) (hmark : pc'.unmarked = false) : (s.goto pc').Heeded := by
  subst hpc
  exact h.move (fun _ ht => ht) (fun _ _ _ _ hwoken => hwoken)
    fun i hi hwoken => ⟨hfilled.symm.trans hi, hwoken, hmark⟩

lemma Heeded.drop {w : Waits} {c : Ctx} (hk : s.sched.Unblocking k) (hpool : w.pool = s.waits.pool)
    (hc : c.pc.filled = none) : Heeded ⟨k, w, s.ticks, Function.update s.ctx s.current c⟩ := by
  refine h.move hk (fun _ _ i _ hwoken => hpool ▸ hwoken) fun i hi _ => ?_
  cases hc.symm.trans hi

lemma Heeded.preemptOnReturn (hs : s.sched.Orderly) : s.preemptOnReturn.Heeded := by
  have hk := Sched.Unblocking.schedPreemptOnReturn hs
  unfold Sys.preemptOnReturn
  dsimp only
  split
  · exact h.of_sched s.ticks (hk.trans (.preemptTail _ _)) fun _ => rfl
  · exact h.of_sched s.ticks hk fun u => update_irq_pc _ _ _ u

section

variable (hinv : s.Inv Sched.Orderly)
include hinv

/-- A statement of the running task marks it BLOCKED only if its entry is not flipped. -/
lemma Heeded.stmt {pc : Pc} (hpc : (s.ctx s.current).pc = pc) : (s.stmt pc).Heeded := by
  have hrefl : s.sched.Unblocking s.sched := fun _ ht => ht
  cases pc with
  | user => exact h
  | fill c i =>
    -- the new entry is not flipped
    have hfalse : ((s.waits.fill i s.current).pool i).woken = false := by
      simp [Waits.fill, Waits.setEntry]
    refine h.move hrefl (fun t ht j hj hwoken => ?_) fun j hj hwoken => ?_
    · have hne : j ≠ i := by
        rintro rfl
        have hentry : (s.ctx s.current).pc.entry = some j := by rw [hpc]; rfl
        exact ht (hinv.owned.inj t _ j (Pc.entry_of_filled hj) hentry)
      simpa [Waits.fill, Waits.setEntry, hne] using hwoken
    · obtain rfl : i = j := Option.some.inj hj
      exact absurd (hfalse.symm.trans hwoken) Bool.false_ne_true
  | link c i =>
    have hfilled : (s.ctx s.current).pc.filled = some i := by rw [hpc]; rfl
    refine h.move hrefl (fun _ _ _ _ hwoken => hwoken) fun j hj hwoken => ?_
    obtain rfl : i = j := Option.some.inj hj
    have hmark := (h _ i hfilled hwoken).1
    rw [hpc] at hmark
    cases hmark
  | block c i =>
    have hfilled : (s.ctx s.current).pc.filled = some i := by rw [hpc]; rfl
    -- the mark of the task does not matter, since its entry is not flipped
    have hfalse : (s.waits.pool i).woken ≠ true := by
      intro hwoken
      have hmark := (h _ i hfilled hwoken).1
      rw [hpc] at hmark
      cases hmark
    have hset : { s with sched := s.sched.setTask s.current fun k =>
        { k with state := .blocked } }.Heeded := by
      intro t j hj hwoken
      have hne : t ≠ s.current := by
        rintro rfl
        obtain rfl : i = j := Option.some.inj (hfilled.symm.trans hj)
        exact hfalse hwoken
      obtain ⟨hmark, hstate⟩ := h t j hj hwoken
      refine ⟨hmark, ?_⟩
      rwa [Sched.setTask_of_ne _ _ _ hne]
    simp only [Sys.stmt]
    rw [setEntryState_of_owner (hinv.owned.task _ _ hfilled)]
    cases c.timeout with
    | none | some ticks => exact hset.goto hpc rfl rfl
  | deadline c i ticks => exact h.goto hpc rfl rfl
  | check c i deadline =>
    simp only [Sys.stmt]
    split
    · exact h.goto hpc rfl rfl
    · cases deadline with
      | none | some d => exact h.goto hpc rfl rfl
  | expire c i d =>
    simp only [Sys.stmt]
    split <;> exact h.goto hpc rfl rfl
  | yield c i deadline =>
    have hgo : (s.goto (.check c i deadline)).Heeded := h.goto hpc rfl rfl
    exact hgo.of_sched s.ticks (.weaveRotate hinv.sched true) fun _ => rfl
  | unlink c i r =>
    have hpool : (s.waits.unlink c.queue i).pool = s.waits.pool := by
      unfold Waits.unlink
      split <;> rfl
    have hfilled : (s.ctx s.current).pc.filled = some i := by rw [hpc]; rfl
    refine h.move hrefl (fun _ _ j _ hwoken => hpool ▸ hwoken) fun j hj hwoken => ?_
    obtain rfl : i = j := Option.some.inj hj
    exact ⟨hfilled, hpool ▸ hwoken, rfl⟩
  | ready c i r =>
    have hfilled : (s.ctx s.current).pc.filled = some i := by rw [hpc]; rfl
    have hset : { s with sched := s.sched.setTask s.current fun k =>
        { k with state := .ready } }.Heeded :=
      h.of_sched s.ticks (.setTask _ _ fun _ hk => by cases hk) fun _ => rfl
    simp only [Sys.stmt]
    rw [setEntryState_of_owner (hinv.owned.task _ _ hfilled)]
    exact hset.goto hpc rfl rfl
  | free c i r => exact h.drop hrefl rfl rfl
  | exitDead =>
    have hk : s.sched.Unblocking (s.sched.setTask s.current fun k => { k with state := .dead }) :=
      .setTask _ _ fun _ hk => by cases hk
    exact h.drop hk rfl rfl
  | exitLeave =>
    have hk : s.sched.Unblocking (s.sched.setTask s.current fun k => { k with weaveOn := false }) :=
      .setTask _ _ fun _ hk => hk
    exact h.drop hk rfl rfl
  | exitSwitch => exact h.drop (.schedExitCurrent hinv.sched) rfl rfl
  | halted => exact h

lemma Heeded.woken {q : QueueId} {l : List EntryId} (hw : Woken s s' q l)
    (hl : ∀ i ∈ l, ∀ t ∈ (s.waits.pool i).task, (s.ctx t).pc.unmarked = false) : s'.Heeded := by
  intro t i hi hwoken
  rw [hw.ctx] at hi ⊢
  have htask := hinv.owned.task t i hi
  rcases (hw.woken i).1 hwoken with hold | hnew
  · obtain ⟨hmark, hstate⟩ := h t i hi hold
    refine ⟨hmark, ?_⟩
    rcases hw.tasks_cases t with heq | ⟨-, heq⟩ <;> rw [heq]
    · exact hstate
    · simp
  · refine ⟨hl i hnew t htask, ?_⟩
    rw [hw.ready i hnew t htask]
    simp

lemma Heeded.act (hpc : (s.ctx s.current).pc = .user) (a : Action)
    (hl : ∀ i ∈ s.flips a, ∀ t ∈ (s.waits.pool i).task, (s.ctx t).pc.unmarked = false) :
    (s.act a).Heeded := by
  cases a with
  | create taskOk stackOk => exact h.of_sched s.ticks (.taskCreate _ _ _) fun _ => rfl
  | yield => exact h.of_sched s.ticks (.weaveRotate hinv.sched true) fun _ => rfl
  | schedule => exact h.of_sched s.ticks (.weaveRotate hinv.sched false) fun _ => rfl
  | join | leave => exact h.of_sched s.ticks (.setTask _ _ fun _ hk => hk) fun _ => rfl
  | setPreempt armed | preemptDisable | preemptEnable =>
    exact h.of_sched s.ticks (fun _ ht => ht) fun _ => rfl
  | wait c =>
    simp only [Sys.act, Sys.waitEnter]
    split
    · exact h.drop (fun _ ht => ht) rfl rfl
    · exact h.drop (fun _ ht => ht) rfl rfl
  | wakeUp q => exact h.woken hinv (wakeUp_spec (hinv.waiters_nodup q)).1 hl
  | wakeUpAll q => exact h.woken hinv (wakeUpAll_spec (hinv.waiters_nodup q)).1 hl
  | exit code =>
    simp only [Sys.act]
    split
    · exact h.goto hpc rfl rfl
    · have hk : s.sched.Unblocking (s.sched.setTask s.current
        fun k => { k with exitCode := code }) :=
        .setTask _ _ fun _ hk => hk
      exact h.drop hk rfl rfl

/-- **A step that wakes only marked tasks overwrites no mark.** -/
theorem Heeded.step (e : Event) (hw : s.WakesMarked e) : (s.step e).Heeded := by
  unfold Sys.step
  split
  · next before hirq =>
    cases e with
    | run => exact h.of_sched s.ticks (.preemptTail _ before) fun u => update_irq_pc _ _ _ u
    | act a | timer | irq => exact h
  · next hirq =>
    cases e with
    | act a =>
      dsimp only
      split
      · next hpc =>
        refine h.act hinv hpc a fun i hi => hw i ?_
        simpa only [wakes, hirq, hpc, and_self, if_true] using hi
      · exact h
    | run => exact h.stmt hinv rfl
    | timer =>
      have htick := hinv.of_sched (s.ticks + 1) (Sched.stable_orderly.schedTick hinv.sched)
        (.schedTick s.sched) fun _ => rfl
      exact .preemptOnReturn (h.of_sched _ (.schedTick s.sched) fun _ => rfl) htick.sched
    | irq => exact h.preemptOnReturn hinv.sched

end

end

/-! ## Runs -/

/-- **The mark of a wake-up is not overwritten**: in every run whose wake-ups all concern tasks that
have marked themselves BLOCKED, no task inside a wait whose entry has been flipped is BLOCKED,
whether it is running or not. -/
theorem woken_not_blocked_run (es : List Event) (h : Along step WakesMarked boot es)
    (t : TaskId) (i : EntryId) (hi : ((run step boot es).ctx t).pc.filled = some i)
    (hwoken : ((run step boot es).waits.pool i).woken = true) :
    ((run step boot es).sched.tasks t).state ≠ .blocked := by
  have hstep : ∀ (s : Sys) (e : Event), s.Inv Sched.Orderly ∧ s.Heeded → s.WakesMarked e →
      (s.step e).Inv Sched.Orderly ∧ (s.step e).Heeded := by
    rintro s e ⟨hinv, hheeded⟩ hw
    exact ⟨hinv.step_orderly e, hheeded.step hinv e hw⟩
  have hboot : boot.Heeded := fun t i hi => by cases hi
  have hrun : (run step boot es).Inv Sched.Orderly ∧ (run step boot es).Heeded :=
    run_invariant_of_along hstep ⟨inv_boot_orderly, hboot⟩ h
  exact (hrun.2 t i hi hwoken).2

/-- Task 1 waits and yields to task 2, which wakes it. -/
theorem woken_not_blocked_run_waiting :
    ((run step boot [.act (.create true true), .act (.create true true), .act .yield,
      .act (.wait ⟨7, none⟩), .run, .run, .run, .run, .run,
      .act (.wakeUp 7)]).sched.tasks 1).state ≠ .blocked :=
  woken_not_blocked_run _ (by decide +kernel) 1 0 (by decide +kernel) (by decide +kernel)

/-- **A READY mark is overwritten.** Task 1 is preempted after it has linked its entry. Task 2 wakes
it and yields. Task 1 now marks itself BLOCKED, and is preempted again: its entry is flipped, it is
BLOCKED, it does not run and it is linked in no lane. -/
theorem ready_mark_overwritten :
    ∃ s, s = run step boot [.act (.setPreempt true), .act (.create true true),
        .act (.create true true), .act .yield, .act (.wait ⟨7, none⟩), .run, .run, .timer, .timer,
        .act (.wakeUp 7), .act .yield, .run, .run, .timer, .timer, .timer, .timer] ∧
      (s.ctx 1).pc.filled = some 0 ∧ (s.waits.pool 0).woken = true ∧ s.current = 2 ∧
      (s.sched.tasks 1).state = .blocked ∧ s.sched.weaveLinked 1 = false :=
  ⟨_, rfl, by decide +kernel, by decide +kernel, by decide +kernel, by decide +kernel,
    by decide +kernel⟩

end Sys

end SubOS.Kernel
