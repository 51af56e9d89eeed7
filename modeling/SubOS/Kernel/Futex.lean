import SubOS.Kernel.SysInv

set_option autoImplicit false

/-!
# Futexes

`kernel/futex.c` on top of the wait queues: tasks wait on the address of a word, addresses are
hashed onto buckets, and each bucket has a wait queue. Between any two statements the timer may
switch to another task.

## Main definitions

* `Futex.stmt`, `Futex.step` — a statement of the running task, and a step of the system.
* `Futex.Inv` — the invariant.

## Main results

* `Futex.run_follows`, `Futex.inv_run` — tasks go through their waits in order; the invariant.

## Design

The queue of bucket `b` is the wait queue `b`; all other wait queues have numbers from
`futexBuckets` on, and code outside this file uses only these. Addresses are those of a 64-bit
machine. `futex_init` has run.
-/

namespace SubOS.Kernel

open Function

variable {pc : Pc}

namespace Pc

/-- The queue of the wait that a task is in. -/
def queue : Pc → Option QueueId
  | .fill c _ | .link c _ | .block c _ | .deadline c _ _ | .check c _ _ | .expire c _ _
  | .yield c _ _ | .unlink c _ _ | .ready c _ _ | .free c _ _ => some c.queue
  | .user | .exitDead | .exitLeave | .exitSwitch | .halted => none

/-- The task has an entry, but has not linked it yet. -/
def early : Pc → Bool
  | .fill _ _ | .link _ _ => true
  | _ => false

lemma queue_of_linked {q : QueueId} {i : EntryId} (h : pc.linked = some (q, i)) :
    pc.queue = some q := by
  cases pc <;> simp_all [Pc.linked, Pc.queue]

/-- The place `pc'` can come after `pc` without a new call: it is on the same queue or on none, and
linked only with an entry that was linked, or was not linked yet. -/
structure Follows (pc pc' : Pc) : Prop where
  queue : ∀ q, pc'.queue = some q → pc.queue = some q
  early : pc'.early = true → pc.early = true
  linked : ∀ q i, pc'.linked = some (q, i) → pc.linked = some (q, i) ∨ pc.early = true

lemma Follows.of_eq {pc' : Pc} (hqueue : pc'.queue = pc.queue) (hearly : pc'.early = pc.early)
    (hlinked : pc'.linked = pc.linked) : pc.Follows pc' :=
  ⟨fun _ h => hqueue.symm.trans h, hearly.symm.trans, fun _ _ h =>
    .inl (hlinked.symm.trans h)⟩

end Pc

namespace Sys

variable {s : Sys}

lemma setEntryState_goto_ctx (s : Sys) (i : EntryId) (state : TaskState) (pc : Pc) :
    ((s.setEntryState i state).goto pc).ctx =
      update s.ctx s.current { s.ctx s.current with pc := pc } := by
  unfold setEntryState
  split <;> rfl

/-- A statement moves the running task, and only this one, to a place that can come next. -/
lemma stmt_ctx (hpc : (s.ctx s.current).pc = pc) :
    ∃ c : Ctx, (s.stmt pc).ctx = update s.ctx s.current c ∧ pc.Follows c.pc := by
  have hstay : ∃ c : Ctx, s.ctx = update s.ctx s.current c ∧ pc.Follows c.pc :=
    ⟨s.ctx s.current, (update_eq_self _ _).symm, hpc ▸ .of_eq rfl rfl rfl⟩
  cases pc with
  | user | halted => exact hstay
  | fill c i | link c i => exact ⟨_, rfl, fun _ h => h, fun _ => rfl, fun _ _ _ => .inr rfl⟩
  | block c i =>
    refine ⟨_, setEntryState_goto_ctx _ _ _ _, ?_⟩
    cases c.timeout with
    | none | some ticks => exact .of_eq rfl rfl rfl
  | deadline c i ticks | yield c i deadline | exitDead | exitLeave | exitSwitch =>
    exact ⟨_, rfl, .of_eq rfl rfl rfl⟩
  | check c i deadline =>
    simp only [stmt]
    split
    · exact ⟨_, rfl, .of_eq rfl rfl rfl⟩
    · cases deadline with
      | none | some d => exact ⟨_, rfl, .of_eq rfl rfl rfl⟩
  | expire c i d =>
    simp only [stmt]
    split
    · exact ⟨_, rfl, .of_eq rfl rfl rfl⟩
    · exact ⟨_, rfl, .of_eq rfl rfl rfl⟩
  | unlink c i r => exact ⟨_, rfl, fun _ h => h, fun h => h, fun _ _ h => (by cases h)⟩
  | ready c i r => exact ⟨_, setEntryState_goto_ctx _ _ _ _, .of_eq rfl rfl rfl⟩
  | free c i r => exact ⟨_, rfl, fun _ h => (by cases h), fun h => h, fun _ _ h => (by cases h)⟩

lemma wakeUpNr_ctx (s : Sys) (q : QueueId) (max : ℕ) : (s.wakeUpNr q max).1.ctx = s.ctx := by
  have hloop : ∀ (l : List EntryId) n (s : Sys), (wakeLoop q max l n s).1.ctx = s.ctx := by
    intro l
    induction l with
    | nil => exact fun _ _ => rfl
    | cons i rest ih =>
      intro n s
      unfold wakeLoop
      split_ifs
      · rfl
      · exact ih n s
      · rw [ih, (Woken.wakeEntry s q i).ctx]
  exact hloop _ 0 s

/-- An action moves the running task, and only this one; it enters a wait only by calling it. -/
lemma act_ctx (hpc : (s.ctx s.current).pc = .user) (a : Action) :
    ∃ c : Ctx, (s.act a).ctx = update s.ctx s.current c ∧
      ∀ q, c.pc.queue = some q → ∃ call, a = .wait call ∧ call.queue = q := by
  have hstay : ∃ c : Ctx, s.ctx = update s.ctx s.current c ∧
      ∀ q, c.pc.queue = some q → ∃ call, a = .wait call ∧ call.queue = q := by
    refine ⟨s.ctx s.current, (update_eq_self _ _).symm, fun q hq => ?_⟩
    rw [hpc] at hq
    cases hq
  cases a with
  | wait call =>
    simp only [act, waitEnter]
    split
    · exact ⟨_, rfl, fun q hq => (by cases hq)⟩
    · exact ⟨_, rfl, fun q hq => ⟨call, rfl, Option.some.inj hq⟩⟩
  | exit code =>
    simp only [act]
    split
    · exact ⟨_, rfl, fun q hq => (by cases hq)⟩
    · exact ⟨_, rfl, fun q hq => (by cases hq)⟩
  | wakeUp q =>
    simp only [act, wakeUp, wakeUpNr_ctx]
    exact hstay
  | wakeUpAll q =>
    simp only [act, wakeUpAll, wakeUpNr_ctx]
    exact hstay
  | create taskOk stackOk | yield | schedule | join | leave | setPreempt armed | preemptDisable
  | preemptEnable => exact hstay

lemma preemptOnReturn_pc (s : Sys) (t : TaskId) : (s.preemptOnReturn.ctx t).pc = (s.ctx t).pc := by
  unfold preemptOnReturn
  dsimp only
  split
  · rfl
  · exact update_irq_pc _ _ _ t

lemma timer_pc (s : Sys) (t : TaskId) : ((s.step .timer).ctx t).pc = (s.ctx t).pc := by
  unfold step
  split
  · rfl
  · exact preemptOnReturn_pc _ t

lemma irq_pc (s : Sys) (t : TaskId) : ((s.step .irq).ctx t).pc = (s.ctx t).pc := by
  unfold step
  split
  · rfl
  · exact preemptOnReturn_pc _ t

/-- **The running task moves to a place that can come next**, and the others stay. -/
theorem run_follows (s : Sys) (t : TaskId) :
    (s.ctx t).pc.Follows ((s.step .run).ctx t).pc ∧
      (t ≠ s.current → ((s.step .run).ctx t).pc = (s.ctx t).pc) := by
  unfold step
  split
  · have heq := update_irq_pc s.ctx s.current none t
    rw [heq]
    exact ⟨.of_eq rfl rfl rfl, fun _ => rfl⟩
  · obtain ⟨c, hctx, hfollows⟩ := s.stmt_ctx rfl
    rw [hctx]
    rcases eq_or_ne t s.current with rfl | hne
    · rw [update_self]
      exact ⟨hfollows, absurd rfl⟩
    · rw [update_of_ne hne]
      exact ⟨.of_eq rfl rfl rfl, fun _ => rfl⟩

lemma run_pc_of_irq (s : Sys) (hirq : (s.ctx s.current).irq ≠ none) (t : TaskId) :
    ((s.step .run).ctx t).pc = (s.ctx t).pc := by
  unfold step
  split
  · exact update_irq_pc s.ctx s.current none t
  · next h => exact absurd h hirq

lemma step_act (a : Action) (hirq : (s.ctx s.current).irq = none)
    (hpc : (s.ctx s.current).pc = .user) : s.step (.act a) = s.act a := by
  simp [step, hirq, hpc]

lemma act_pc_of_ne (s : Sys) (a : Action) {t : TaskId} (ht : t ≠ s.current) :
    ((s.step (.act a)).ctx t).pc = (s.ctx t).pc := by
  unfold step
  split
  · rfl
  · dsimp only
    split
    · next hpc =>
      obtain ⟨c, hctx, -⟩ := s.act_ctx hpc a
      rw [hctx, update_of_ne ht]
    · rfl

lemma act_queue (s : Sys) (hpc : (s.ctx s.current).pc = .user) (a : Action) {q : QueueId}
    (hq : ((s.step (.act a)).ctx s.current).pc.queue = some q) :
    ∃ call, a = .wait call ∧ call.queue = q := by
  by_cases hirq : (s.ctx s.current).irq = none
  · rw [step_act a hirq hpc] at hq
    obtain ⟨c, hctx, hcall⟩ := s.act_ctx hpc a
    rw [hctx, update_self] at hq
    exact hcall q hq
  · -- nothing happens while the task returns from an interrupt
    obtain ⟨before, hsome⟩ := Option.ne_none_iff_exists'.1 hirq
    simp [step, hsome, hpc, Pc.queue] at hq

lemma wakeUp_pc (s : Sys) (q : QueueId) (t : TaskId) :
    ((s.step (.act (.wakeUp q))).ctx t).pc = (s.ctx t).pc := by
  unfold step
  split
  · rfl
  · dsimp only
    split
    · exact congrArg (fun c => (c t).pc) (s.wakeUpNr_ctx q 1)
    · rfl

/-! ## Entries that are flipped -/

lemma setEntryState_waits (s : Sys) (i : EntryId) (state : TaskState) :
    (s.setEntryState i state).waits = s.waits := by
  unfold setEntryState
  split <;> rfl

lemma preemptOnReturn_waits (s : Sys) : s.preemptOnReturn.waits = s.waits := by
  unfold preemptOnReturn
  dsimp only
  split <;> rfl

variable {R : Sched → Prop} {t : TaskId} {q : QueueId} {i : EntryId}

lemma Inv.stmt_woken (h : s.Inv R) (hpc : (s.ctx s.current).pc = pc)
    (hi : (s.ctx t).pc.linked = some (q, i)) (hw : (s.waits.pool i).woken = true) :
    ((s.stmt pc).waits.pool i).woken = true := by
  cases pc with
  | fill c j =>
    have hne : i ≠ j := by
      rintro rfl
      obtain rfl := h.owned.inj t s.current i (Pc.entry_of_linked hi) (by rw [hpc]; rfl)
      rw [hpc] at hi
      cases hi
    simpa [Sys.stmt, Sys.goto, Waits.fill, Waits.setEntry, hne] using hw
  | block c j | ready c j r =>
    simp only [Sys.stmt, Sys.goto, setEntryState_waits]
    exact hw
  | unlink c j r =>
    simp only [Sys.stmt, Sys.goto, Waits.unlink]
    split <;> exact hw
  | check c j deadline =>
    simp only [Sys.stmt]
    split
    · exact hw
    · cases deadline <;> exact hw
  | expire c j d =>
    simp only [Sys.stmt]
    split <;> exact hw
  | _ => exact hw

lemma Inv.act_woken (h : s.Inv R) (a : Action) (hw : (s.waits.pool i).woken = true) :
    ((s.act a).waits.pool i).woken = true := by
  cases a with
  | wait c =>
    simp only [Sys.act, Sys.waitEnter]
    split <;> exact hw
  | wakeUp q => exact ((wakeUp_spec (h.waiters_nodup q)).1.woken i).2 (.inl hw)
  | wakeUpAll q => exact ((wakeUpAll_spec (h.waiters_nodup q)).1.woken i).2 (.inl hw)
  | exit code =>
    simp only [Sys.act]
    split <;> exact hw
  | _ => exact hw

/-- **An entry that is flipped stays so while it is linked.** -/
theorem Inv.step_woken (h : s.Inv R) (e : Event) (hi : (s.ctx t).pc.linked = some (q, i))
    (hw : (s.waits.pool i).woken = true) : ((s.step e).waits.pool i).woken = true := by
  unfold Sys.step
  split
  · cases e <;> exact hw
  · cases e with
    | act a =>
      dsimp only
      split
      · exact h.act_woken a hw
      · exact hw
    | run => exact h.stmt_woken rfl hi hw
    | timer =>
      simp only [Sys.timer, preemptOnReturn_waits]
      exact hw
    | irq =>
      simp only [preemptOnReturn_waits]
      exact hw

end Sys

def futexBuckets : ℕ := 32

/-- The address of a futex word. -/
abbrev Addr := UInt64

def futexHash (uaddr : Addr) : QueueId :=
  let key := uaddr >>> 2
  let key := key ^^^ key >>> 16
  let key := key * 0x2545F491
  let key := key ^^^ key >>> 13
  (key &&& 31).toNat

lemma futexHash_lt (uaddr : Addr) : futexHash uaddr < futexBuckets := by
  have hle : ∀ key : UInt64, (key &&& 31).toNat ≤ 31 := by
    intro key
    exact Nat.and_le_right
  exact Nat.lt_succ_of_le (hle _)

/-- `futex_bucket_t`, without its queue. -/
structure Bucket where
  addr : Addr
  waiters : UInt32
  deriving DecidableEq, Repr

structure FutexStats where
  waits : UInt64
  wakes : UInt64
  requeues : UInt64
  spurious : UInt64
  timeouts : UInt64
  activeWaiters : UInt32
  deriving DecidableEq, Repr

/-- The arguments of `futex_wait`. -/
structure FutexCall where
  uaddr : Addr
  expected : UInt32
  timeout : UInt64
  deriving DecidableEq, Repr

/-- The next statement of a task in a call of this file. -/
inductive FPc where
  /-- In none. -/
  | user
  /-- `futex_wait` is about to test the word. -/
  | test (c : FutexCall)
  /-- The word has moved on: about to count it and to return. -/
  | spurious
  /-- About to enter the address into the bucket. -/
  | claim (c : FutexCall)
  /-- About to count the waiter, in the bucket and in the statistics. -/
  | count (c : FutexCall)
  | countWaits (c : FutexCall)
  | countActive (c : FutexCall)
  /-- About to call `wait_event` or `wait_event_timeout`. -/
  | enter (c : FutexCall)
  /-- In that call. -/
  | waiting (c : FutexCall)
  /-- The call has returned `rc`: about to take the waiter from the counters. -/
  | leaveActive (rc : ℤ)
  | leaveTimeout (rc : ℤ)
  /-- `futex_wake` is about to wake. -/
  | wake (uaddr : Addr) (count : ℤ)
  /-- About to count the tasks that it has woken. -/
  | wakeStat (woken : ℕ)
  /-- `futex_requeue` is about to read the number of waiters. -/
  | requeue (uaddr1 uaddr2 : Addr) (count : ℤ)
  /-- About to move the number from one bucket to the other. -/
  | requeueSub (uaddr1 uaddr2 : Addr) (moved : UInt32)
  | requeueAdd (uaddr1 uaddr2 : Addr) (moved : UInt32)
  | requeueAddr (uaddr1 uaddr2 : Addr) (moved : UInt32)
  | requeueStat (uaddr1 : Addr) (moved : UInt32)
  /-- In the loop that wakes, with the number of rounds left. -/
  | requeueWake (uaddr1 : Addr) (moved : UInt32) (left : ℕ)
  deriving DecidableEq, Repr

/-- The call of `futex_wait` that has found the expected value and whose wait has not returned. -/
def FPc.call : FPc → Option FutexCall
  | .claim c | .count c | .countWaits c | .countActive c | .enter c | .waiting c => some c
  | _ => none

structure Futex where
  sys : Sys
  /-- The futex words. -/
  mem : Addr → UInt32
  /-- `g_buckets`. -/
  buckets : ℕ → Bucket
  stats : FutexStats
  frame : TaskId → FPc
  /-- The result of the last call of a task. -/
  result : TaskId → Option ℤ

namespace Futex

/-- Set the next statement of the running task. -/
def goto (f : Futex) (pc : FPc) : Futex :=
  { f with frame := update f.frame f.sys.current pc }

def ret (f : Futex) (r : ℤ) : Futex :=
  { f.goto .user with result := update f.result f.sys.current (some r) }

/-- Change the bucket of an address. -/
def setBucket (f : Futex) (uaddr : Addr) (g : Bucket → Bucket) : Futex :=
  { f with
    buckets := update f.buckets (futexHash uaddr) (g (f.buckets (futexHash uaddr))) }

/-- `futex_wake`, up to the counting of the tasks it has woken. -/
def futexWake (f : Futex) (uaddr : Addr) (count : ℤ) : Futex × ℕ :=
  if uaddr = 0 then (f, 0)
  else
    let r := if count ≤ 1 then f.sys.wakeUp (futexHash uaddr) else f.sys.wakeUpAll (futexHash uaddr)
    ({ f with sys := r.1 }, r.2)

/-- The number of waiters that `futex_requeue` moves. -/
def requeueCount (waiters : UInt32) (count : ℤ) : UInt32 :=
  if 0 < count ∧ UInt32.ofNat count.toNat < waiters then UInt32.ofNat count.toNat else waiters

/-- The next statement of the running task, in a call of this file. -/
def stmt (f : Futex) : FPc → Futex
  | .user => { f with sys := f.sys.step .run }
  | .test c => if f.mem c.uaddr ≠ c.expected then f.goto .spurious else f.goto (.claim c)
  | .spurious =>
    { f with stats := { f.stats with spurious := f.stats.spurious + 1 } }.ret (-1)
  | .claim c => (f.setBucket c.uaddr fun b => { b with addr := c.uaddr }).goto (.count c)
  | .count c =>
    (f.setBucket c.uaddr fun b => { b with waiters := b.waiters + 1 }).goto (.countWaits c)
  | .countWaits c =>
    { f with stats := { f.stats with waits := f.stats.waits + 1 } }.goto (.countActive c)
  | .countActive c =>
    { f with stats := { f.stats with activeWaiters := f.stats.activeWaiters + 1 } }.goto (.enter c)
  | .enter c =>
    -- the call allocates an entry, or returns
    { f.goto (.waiting c) with
      sys := f.sys.step (.act (.wait
        ⟨futexHash c.uaddr, if 0 < c.timeout then some c.timeout else none⟩)) }
  | .waiting c =>
    if (f.sys.ctx f.sys.current).pc = .user then
      (f.setBucket c.uaddr fun b =>
        { b with waiters := if 0 < b.waiters then b.waiters - 1 else b.waiters }).goto
          (.leaveActive ((f.sys.ctx f.sys.current).result.getD 0))
    else { f with sys := f.sys.step .run }
  | .leaveActive rc =>
    { f with
      stats := { f.stats with
        activeWaiters :=
          if 0 < f.stats.activeWaiters then f.stats.activeWaiters - 1 else f.stats.activeWaiters }
      }.goto (.leaveTimeout rc)
  | .leaveTimeout rc =>
    { f with
      stats := if rc = 1 then { f.stats with timeouts := f.stats.timeouts + 1 }
        else f.stats }.ret rc
  | .wake uaddr count =>
    let r := f.futexWake uaddr count
    { f.goto (.wakeStat r.2) with sys := r.1.sys }
  | .wakeStat woken =>
    { f with stats := { f.stats with wakes := f.stats.wakes + UInt64.ofNat woken } }.ret woken
  | .requeue uaddr1 uaddr2 count =>
    if futexHash uaddr1 = futexHash uaddr2 then f.ret 0
    else
      f.goto (.requeueSub uaddr1 uaddr2
        (requeueCount (f.buckets (futexHash uaddr1)).waiters count))
  | .requeueSub uaddr1 uaddr2 moved =>
    (f.setBucket uaddr1 fun b => { b with waiters := b.waiters - moved }).goto
      (.requeueAdd uaddr1 uaddr2 moved)
  | .requeueAdd uaddr1 uaddr2 moved =>
    (f.setBucket uaddr2 fun b => { b with waiters := b.waiters + moved }).goto
      (.requeueAddr uaddr1 uaddr2 moved)
  | .requeueAddr uaddr1 uaddr2 moved =>
    (f.setBucket uaddr2 fun b => { b with addr := uaddr2 }).goto (.requeueStat uaddr1 moved)
  | .requeueStat uaddr1 moved =>
    { f with
      stats := { f.stats with requeues := f.stats.requeues + moved.toUInt64 } }.goto
        (.requeueWake uaddr1 moved moved.toNat)
  | .requeueWake uaddr1 moved left =>
    match left with
    | 0 => f.ret moved.toNat
    | n + 1 =>
      { f.goto (.requeueWake uaddr1 moved n) with
        sys := f.sys.step (.act (.wakeUp (futexHash uaddr1))) }

inductive Event where
  /-- The running task acts, outside this file. -/
  | act (a : Sys.Action)
  /-- It writes a futex word. -/
  | store (uaddr : Addr) (value : UInt32)
  /-- It calls a function of this file. -/
  | futexWait (c : FutexCall)
  | futexWake (uaddr : Addr) (count : ℤ)
  | futexRequeue (uaddr1 uaddr2 : Addr) (count : ℤ)
  /-- It executes its next statement. -/
  | run
  /-- The timer interrupts, or another interrupt returns. -/
  | timer
  | irq
  deriving DecidableEq, Repr

/-- An action that uses no queue of a bucket. -/
def foreign : Sys.Action → Bool
  | .wait c => futexBuckets ≤ c.queue
  | .wakeUp q | .wakeUpAll q => futexBuckets ≤ q
  | _ => true

/-- What the running task does outside this file. -/
def userStep (f : Futex) : Event → Futex
  | .act a => if foreign a then { f with sys := f.sys.step (.act a) } else f
  | .store uaddr value => { f with mem := update f.mem uaddr value }
  | .futexWait c => if c.uaddr = 0 then f.ret (-1) else f.goto (.test c)
  | .futexWake uaddr count => f.goto (.wake uaddr count)
  | .futexRequeue uaddr1 uaddr2 count =>
    if uaddr1 = 0 ∨ uaddr2 = 0 then f.ret 0 else f.goto (.requeue uaddr1 uaddr2 count)
  | .run | .timer | .irq => f

/-- One step. A task that was preempted first returns from the interrupt, and a task inside a call
goes on with the call. -/
def step (f : Futex) (e : Event) : Futex :=
  match e with
  | .timer => { f with sys := f.sys.step .timer }
  | .irq => { f with sys := f.sys.step .irq }
  | .run =>
    if (f.sys.ctx f.sys.current).irq = none then f.stmt (f.frame f.sys.current)
    else { f with sys := f.sys.step .run }
  | e =>
    if (f.sys.ctx f.sys.current).irq = none ∧ (f.sys.ctx f.sys.current).pc = .user ∧
        f.frame f.sys.current = .user then f.userStep e
    else f

/-- The system after boot; the futex words are zero. -/
def boot : Futex where
  sys := Sys.boot
  mem _ := 0
  buckets _ := ⟨0, 0⟩
  stats := ⟨0, 0, 0, 0, 0, 0⟩
  frame _ := .user
  result _ := none

end Futex

/-! ## The invariant -/

/-- A task that is in a plain wait is on a queue of its own, a task that waits on a futex is on the
queue of its bucket, and a task anywhere else in this file is in no wait. The address of a futex is
not null. -/
def FPc.Fits (fr : FPc) (pc : Pc) : Prop :=
  match fr with
  | .user => ∀ q, pc.queue = some q → futexBuckets ≤ q
  | .waiting c => c.uaddr ≠ 0 ∧ ∀ q, pc.queue = some q → q = futexHash c.uaddr
  | .test c | .claim c | .count c | .countWaits c | .countActive c | .enter c =>
    c.uaddr ≠ 0 ∧ pc = .user
  | _ => pc = .user

namespace Futex

/-- The invariant: that of the tasks and the wait queues, and the tasks wait where they should. -/
structure Inv (f : Futex) : Prop where
  sys : f.sys.Inv Sched.Orderly
  fits : ∀ t, (f.frame t).Fits (f.sys.ctx t).pc

variable {f f' : Futex} {fr : FPc}

lemma Inv.move (h : f.Inv) (hframe : f'.frame = update f.frame f.sys.current fr)
    (hsys : f'.sys.Inv Sched.Orderly)
    (hother : ∀ t, t ≠ f.sys.current → (f'.sys.ctx t).pc = (f.sys.ctx t).pc)
    (hfits : fr.Fits (f'.sys.ctx f.sys.current).pc) : f'.Inv := by
  refine ⟨hsys, fun t => ?_⟩
  rw [hframe]
  rcases eq_or_ne t f.sys.current with rfl | hne
  · rw [update_self]
    exact hfits
  · rw [update_of_ne hne, hother t hne]
    exact h.fits t

/-- The running task goes on in this file, and the tasks and the wait queues stay. -/
lemma Inv.goto (h : f.Inv) (hframe : f'.frame = update f.frame f.sys.current fr)
    (hsys : f'.sys = f.sys) (hfits : fr.Fits (f.sys.ctx f.sys.current).pc) : f'.Inv :=
  h.move hframe (hsys ▸ h.sys) (fun t _ => by rw [hsys]) (by rwa [hsys])

lemma Inv.stay (h : f.Inv) (hframe : f'.frame = f.frame) (hsys : f'.sys.Inv Sched.Orderly)
    (hpc : ∀ t, (f'.sys.ctx t).pc = (f.sys.ctx t).pc) : f'.Inv :=
  ⟨hsys, fun t => by rw [hframe, hpc]; exact h.fits t⟩

lemma Inv.run (h : f.Inv)
    (hfits : ∀ pc, (f.sys.ctx f.sys.current).pc.Follows pc → (f.frame f.sys.current).Fits pc) :
    Inv { f with sys := f.sys.step .run } :=
  h.move (update_eq_self _ _).symm (h.sys.step_orderly .run)
    (fun t ht => (f.sys.run_follows t).2 ht) (hfits _ (f.sys.run_follows _).1)

lemma futexWake_pc (f : Futex) (uaddr : Addr) (count : ℤ) (t : TaskId) :
    ((f.futexWake uaddr count).1.sys.ctx t).pc = (f.sys.ctx t).pc := by
  unfold futexWake
  split
  · rfl
  · split
    · exact congrArg (fun c => (c t).pc) (f.sys.wakeUpNr_ctx _ 1)
    · exact congrArg (fun c => (c t).pc) (f.sys.wakeUpNr_ctx _ 0)

lemma futexWake_frame (f : Futex) (uaddr : Addr) (count : ℤ) :
    (f.futexWake uaddr count).1.frame = f.frame := by
  unfold futexWake
  split <;> rfl

lemma Inv.futexWake_woken (h : f.Inv) (uaddr : Addr) (count : ℤ) :
    ∃ l, Sys.Woken f.sys (f.futexWake uaddr count).1.sys (futexHash uaddr) l := by
  unfold Futex.futexWake
  split
  · exact ⟨[], .nil _ _⟩
  · split
    · exact ⟨_, (Sys.wakeUp_spec (h.sys.waiters_nodup (futexHash uaddr))).1⟩
    · exact ⟨_, (Sys.wakeUpAll_spec (h.sys.waiters_nodup (futexHash uaddr))).1⟩

lemma Inv.futexWake (h : f.Inv) (uaddr : Addr) (count : ℤ) : (f.futexWake uaddr count).1.Inv := by
  obtain ⟨l, hw⟩ := h.futexWake_woken uaddr count
  exact h.stay (f.futexWake_frame uaddr count) (h.sys.woken hw (hw.orderly h.sys.sched))
    (f.futexWake_pc uaddr count)

lemma stmt_requeue (f : Futex) (uaddr1 uaddr2 : Addr) (count : ℤ) :
    f.stmt (.requeue uaddr1 uaddr2 count) = f.ret 0 ∨
      ∃ moved, f.stmt (.requeue uaddr1 uaddr2 count) =
        f.goto (.requeueSub uaddr1 uaddr2 moved) := by
  simp only [Futex.stmt]
  split
  · exact .inl rfl
  · exact .inr ⟨_, rfl⟩

/-- **A statement keeps the invariant.** -/
theorem Inv.stmt (h : f.Inv) (hfr : f.frame f.sys.current = fr) : (f.stmt fr).Inv := by
  have hfits := h.fits f.sys.current
  rw [hfr] at hfits
  -- a task that is in no wait may return
  have hret : (f.sys.ctx f.sys.current).pc = .user →
      FPc.user.Fits (f.sys.ctx f.sys.current).pc := by
    intro hpc q hq
    rw [hpc] at hq
    cases hq
  cases fr with
  | user => exact h.run fun pc hf => hfr ▸ fun q hq => hfits q (hf.queue q hq)
  | waiting c =>
    simp only [Futex.stmt]
    split
    · next hpc => exact h.goto rfl rfl hpc
    · exact h.run fun pc hf => hfr ▸ ⟨hfits.1, fun q hq => hfits.2 q (hf.queue q hq)⟩
  | enter c =>
    have hsys := h.sys.step_orderly (.act (.wait
      ⟨futexHash c.uaddr, if 0 < c.timeout then some c.timeout else none⟩))
    refine h.move rfl hsys (fun t ht => f.sys.act_pc_of_ne _ ht) ⟨hfits.1, fun q hq => ?_⟩
    obtain ⟨call, hcall, hq⟩ := f.sys.act_queue hfits.2 _ hq
    obtain rfl := Sys.Action.wait.inj hcall
    exact hq.symm
  | wake uaddr count =>
    refine h.move rfl (h.futexWake uaddr count).sys (fun t _ => f.futexWake_pc uaddr count t) ?_
    exact (f.futexWake_pc uaddr count _).trans hfits
  | requeueWake uaddr1 moved left =>
    cases left with
    | zero => exact h.goto rfl rfl (hret hfits)
    | succ n =>
      have hsys := h.sys.step_orderly (.act (.wakeUp (futexHash uaddr1)))
      refine h.move rfl hsys (fun t _ => f.sys.wakeUp_pc _ t) ?_
      exact (f.sys.wakeUp_pc _ _).trans hfits
  | test c =>
    simp only [Futex.stmt]
    split
    · exact h.goto rfl rfl hfits.2
    · exact h.goto rfl rfl hfits
  | spurious | leaveTimeout rc | wakeStat woken => exact h.goto rfl rfl (hret hfits)
  | claim c | count c | countWaits c | countActive c | leaveActive rc
  | requeueSub uaddr1 uaddr2 moved | requeueAdd uaddr1 uaddr2 moved
  | requeueAddr uaddr1 uaddr2 moved | requeueStat uaddr1 moved => exact h.goto rfl rfl hfits
  | requeue uaddr1 uaddr2 count =>
    rcases f.stmt_requeue uaddr1 uaddr2 count with heq | ⟨moved, heq⟩
    · rw [heq]
      exact h.goto rfl rfl (hret hfits)
    · rw [heq]
      exact h.goto rfl rfl hfits

lemma Inv.userStep (h : f.Inv) (hpc : (f.sys.ctx f.sys.current).pc = .user)
    (hfr : f.frame f.sys.current = .user) (e : Event) : (f.userStep e).Inv := by
  have hfits := hfr ▸ h.fits f.sys.current
  cases e with
  | act a =>
    simp only [Futex.userStep]
    split
    · next hforeign =>
      refine h.move (update_eq_self _ _).symm (h.sys.step_orderly (.act a))
        (fun t ht => f.sys.act_pc_of_ne _ ht) ?_
      rw [hfr]
      intro q hq
      obtain ⟨call, rfl, rfl⟩ := f.sys.act_queue hpc a hq
      simpa [foreign] using hforeign
    · exact h
  | store uaddr value => exact ⟨h.sys, h.fits⟩
  | futexWait c =>
    simp only [Futex.userStep]
    split
    · exact h.goto rfl rfl hfits
    · next hnull => exact h.goto rfl rfl ⟨hnull, hpc⟩
  | futexWake uaddr count => exact h.goto rfl rfl hpc
  | futexRequeue uaddr1 uaddr2 count =>
    simp only [Futex.userStep]
    split
    · exact h.goto rfl rfl hfits
    · exact h.goto rfl rfl hpc
  | run | timer | irq => exact h

/-- **A step keeps the invariant.** -/
theorem Inv.step (h : f.Inv) (e : Event) : (f.step e).Inv := by
  unfold Futex.step
  split
  · exact h.stay rfl (h.sys.step_orderly .timer) f.sys.timer_pc
  · exact h.stay rfl (h.sys.step_orderly .irq) f.sys.irq_pc
  · split
    · exact h.stmt rfl
    · next hirq => exact h.stay rfl (h.sys.step_orderly .run) (f.sys.run_pc_of_irq hirq)
  · split
    · next hcan => exact h.userStep hcan.2.1 hcan.2.2 e
    · exact h

lemma inv_boot : boot.Inv := ⟨Sys.inv_boot_orderly, fun _ _ hq => by cases hq⟩

/-- **The invariant holds in every state reached.** -/
theorem inv_run (es : List Event) : (EventRun.run step boot es).Inv :=
  EventRun.run_invariant (fun _ e h => h.step e) inv_boot es

end Futex

end SubOS.Kernel
