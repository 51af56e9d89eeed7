import SubOS.Kernel.Sched

set_option autoImplicit false

/-!
# Wait queues, and the kernel as a system of tasks

`kernel/wait.c`, and the system in which tasks run: the running task executes one statement after
the other, and between any two of them, outside a critical section, the timer may take the
processor away from it.

## Main definitions

* `Waits.link`, `Waits.unlink`, `Sys.wakeUp` — the queues, and waking.
* `Sys.stmt`, `Sys.step` — a statement of the running task, and a step of the system.

## Design

A critical section, and everything that runs with interrupts masked, is one step. Between steps
the timer may interrupt; the rest of `sched_preempt_on_return` runs when the task is switched in
again. The queues of a model are those that `wait_queue_init` has initialised. The names of the
queues and the table `g_tracked` serve only diagnostics and are left out.
-/

open LinkedList Function

namespace SubOS.Kernel

/-! ## Wait queues -/

def waitMaxSleepers : ℕ := 32

instance : NeZero waitMaxSleepers := ⟨by decide⟩

/-- An entry of `g_entry_pool`. -/
abbrev EntryId := Fin waitMaxSleepers

/-- The address of a wait queue. -/
abbrev QueueId := ℕ

/-- The list nodes of the wait queues. -/
inductive WaitNode where
  /-- The `waiters` field of a queue. -/
  | queue (q : QueueId)
  /-- The `node` field of an entry. -/
  | entry (i : EntryId)
  deriving DecidableEq, Repr

/-- `wait_entry_t`, without its node. -/
structure WaitEntry where
  task : Option TaskId
  woken : Bool
  deriving DecidableEq, Repr

/-- `wait_queue_t`, without its list and its lock. -/
structure WaitQueue where
  wakeups : ℕ
  sleeps : ℕ
  nrWaiting : ℕ
  deriving DecidableEq, Repr

/-- The state of the wait queues. -/
structure Waits where
  /-- `g_entry_pool`. -/
  pool : EntryId → WaitEntry
  /-- `g_entry_used`. -/
  used : EntryId → Bool
  links : Links WaitNode
  queues : QueueId → WaitQueue

namespace Waits

/-- Change the fields of a queue. -/
def setQueue (w : Waits) (q : QueueId) (f : WaitQueue → WaitQueue) : Waits :=
  { w with queues := update w.queues q (f (w.queues q)) }

def setEntry (w : Waits) (i : EntryId) (e : WaitEntry) : Waits :=
  { w with pool := update w.pool i e }

/-- The first unused entry, the one that `entry_alloc` takes. -/
def freeEntry (w : Waits) : Option EntryId :=
  (List.finRange waitMaxSleepers).find? fun i => !w.used i

/-- `entry_alloc`, up to the end of its critical section. -/
def entryAlloc (w : Waits) (i : EntryId) : Waits :=
  { w with used := update w.used i true }

def entryFree (w : Waits) (i : EntryId) : Waits :=
  { w with used := update w.used i false }

/-- Clear the new entry, and enter the caller in it. -/
def fill (w : Waits) (i : EntryId) (t : TaskId) : Waits :=
  { w.setEntry i ⟨some t, false⟩ with
    links := (w.links.setNext (.entry i) none).setPrev (.entry i) none }

/-- The critical section of `wait_prepare`. -/
def link (w : Waits) (q : QueueId) (i : EntryId) : Waits :=
  { w.setQueue q fun k => { k with nrWaiting := k.nrWaiting + 1, sleeps := k.sleeps + 1 } with
    links := w.links.addTail (.entry i) (.queue q) }

/-- The critical section of `wait_finish`. -/
def unlink (w : Waits) (q : QueueId) (i : EntryId) : Waits :=
  match w.links.next (.entry i) with
  | none => w
  | some _ =>
    { w.setQueue q fun k => { k with nrWaiting := k.nrWaiting - 1 } with
      links := w.links.del (.entry i) }

/-- The entries of a queue, the longest waiting first. -/
def waiters (w : Waits) (q : QueueId) : List EntryId :=
  (w.links.walk (.queue q) waitMaxSleepers (w.links.next (.queue q))).filterMap fun n =>
    match n with
    | .entry i => some i
    | .queue _ => none

end Waits

/-! ## The system -/

/-- A call of `wait_event`, or of `wait_event_timeout` with a number of ticks. -/
structure WaitCall where
  queue : QueueId
  timeout : Option UInt64
  deriving DecidableEq, Repr

/-- The next statement of a task. -/
inductive Pc where
  /-- Outside the calls that are modelled statement by statement. -/
  | user
  /-- `wait_prepare` has allocated the entry and is about to fill it. -/
  | fill (c : WaitCall) (i : EntryId)
  /-- About to link the entry. -/
  | link (c : WaitCall) (i : EntryId)
  /-- About to mark the task BLOCKED. -/
  | block (c : WaitCall) (i : EntryId)
  /-- About to compute the deadline. -/
  | deadline (c : WaitCall) (i : EntryId) (ticks : UInt64)
  /-- At `while (!e->woken)`, with the deadline. -/
  | check (c : WaitCall) (i : EntryId) (deadline : Option UInt64)
  /-- About to compare the clock with the deadline. -/
  | expire (c : WaitCall) (i : EntryId) (deadline : UInt64)
  /-- About to yield. -/
  | yield (c : WaitCall) (i : EntryId) (deadline : Option UInt64)
  /-- `wait_finish` is about to unlink the entry; the result of the call is `r`. -/
  | unlink (c : WaitCall) (i : EntryId) (r : ℤ)
  /-- About to mark the task READY. -/
  | ready (c : WaitCall) (i : EntryId) (r : ℤ)
  /-- About to free the entry. -/
  | free (c : WaitCall) (i : EntryId) (r : ℤ)
  /-- `task_exit` is about to mark the task DEAD. -/
  | exitDead
  /-- About to leave the rotation. -/
  | exitLeave
  /-- About to switch to another task for good. -/
  | exitSwitch
  /-- In the last loop of `task_exit`. -/
  | halted
  deriving DecidableEq, Repr

/-- The entry that a task holds. -/
def Pc.entry : Pc → Option EntryId
  | .fill _ i | .link _ i | .block _ i | .deadline _ i _ | .check _ i _ | .expire _ i _
  | .yield _ i _ | .unlink _ i _ | .ready _ i _ | .free _ i _ => some i
  | .user | .exitDead | .exitLeave | .exitSwitch | .halted => none

/-- The entry that a task holds and has filled. -/
def Pc.filled : Pc → Option EntryId
  | .fill _ _ => none
  | pc => pc.entry

structure Ctx where
  /-- Set while the task is inside the interrupt that has preempted it: the number of switches
  that `sched_preempt_on_return` has read. -/
  irq : Option ℕ
  pc : Pc
  /-- The result of the last wait. -/
  result : Option ℤ
  deriving DecidableEq, Repr

structure Sys where
  sched : Sched
  waits : Waits
  /-- `pit_ticks`. -/
  ticks : UInt64
  ctx : TaskId → Ctx

namespace Sys

abbrev current (s : Sys) : TaskId := s.sched.current

/-- Set the next statement of the running task. -/
def goto (s : Sys) (pc : Pc) : Sys :=
  { s with ctx := update s.ctx s.current { s.ctx s.current with pc := pc } }

def waitReturn (s : Sys) (r : ℤ) : Sys :=
  { s with
    ctx := update s.ctx s.current
      { s.ctx s.current with pc := .user, result := some r } }

/-- Set the state of the task of an entry, if it has one. -/
def setEntryState (s : Sys) (i : EntryId) (state : TaskState) : Sys :=
  match (s.waits.pool i).task with
  | none => s
  | some t => { s with sched := s.sched.setTask t fun k => { k with state := state } }

/-- Enter `wait_event` or `wait_event_timeout`, and allocate an entry. -/
def waitEnter (s : Sys) (c : WaitCall) : Sys :=
  match s.waits.freeEntry with
  | none => s.waitReturn (-1)
  | some i => { s with waits := s.waits.entryAlloc i }.goto (.fill c i)

/-- Flip the entry of a sleeper. -/
def wakeEntry (s : Sys) (q : QueueId) (i : EntryId) : Sys :=
  { s with
    waits := (s.waits.setEntry i { s.waits.pool i with woken := true }).setQueue q
      fun k => { k with wakeups := k.wakeups + 1 } }.setEntryState i .ready

/-- The loop of `wake_up_nr`, over the entries of the queue. -/
def wakeLoop (q : QueueId) (max : ℕ) : List EntryId → ℕ → Sys → Sys × ℕ
  | [], woken, s => (s, woken)
  | i :: rest, woken, s =>
    if 0 < max ∧ max ≤ woken then (s, woken)
    else if (s.waits.pool i).woken then wakeLoop q max rest woken s
    else wakeLoop q max rest (woken + 1) (s.wakeEntry q i)

def wakeUpNr (s : Sys) (q : QueueId) (max : ℕ) : Sys × ℕ := wakeLoop q max (s.waits.waiters q) 0 s

def wakeUp (s : Sys) (q : QueueId) : Sys × ℕ := s.wakeUpNr q 1

def wakeUpAll (s : Sys) (q : QueueId) : Sys × ℕ := s.wakeUpNr q 0

/-- `sched_preempt_on_return`. If the task is switched away from, the rest of the function runs
when it is switched in again. -/
def preemptOnReturn (s : Sys) : Sys :=
  let sched := s.sched.schedPreemptOnReturn
  if sched.current = s.current then { s with sched := sched.preemptTail s.sched.switches }
  else
    { s with
      sched := sched
      ctx := update s.ctx s.current
        { s.ctx s.current with irq := some s.sched.switches } }

/-- The timer interrupt: `pit_handler`, and the return from the interrupt. -/
def timer (s : Sys) : Sys :=
  { s with ticks := s.ticks + 1, sched := s.sched.schedTick }.preemptOnReturn

/-- The next statement of the running task, inside a call. -/
def stmt (s : Sys) : Pc → Sys
  | .user => s
  | .fill c i => { s with waits := s.waits.fill i s.current }.goto (.link c i)
  | .link c i => { s with waits := s.waits.link c.queue i }.goto (.block c i)
  | .block c i =>
    (s.setEntryState i .blocked).goto
      (match c.timeout with
        | none => .check c i none
        | some ticks => .deadline c i ticks)
  | .deadline c i ticks => s.goto (.check c i (some (s.ticks + ticks)))
  | .check c i deadline =>
    if (s.waits.pool i).woken then s.goto (.unlink c i 0)
    else
      match deadline with
      | none => s.goto (.yield c i none)
      | some d => s.goto (.expire c i d)
  | .expire c i d => if d ≤ s.ticks then s.goto (.unlink c i 1) else s.goto (.yield c i (some d))
  | .yield c i deadline =>
    -- the task goes on here when it is switched in again
    let s := s.goto (.check c i deadline)
    { s with sched := s.sched.schedYield }
  | .unlink c i r => { s with waits := s.waits.unlink c.queue i }.goto (.ready c i r)
  | .ready c i r => (s.setEntryState i .ready).goto (.free c i r)
  | .free _ i r => { s with waits := s.waits.entryFree i }.waitReturn r
  | .exitDead =>
    { s with sched := s.sched.setTask s.current fun k => { k with state := .dead } }.goto .exitLeave
  | .exitLeave =>
    { s with sched := s.sched.setTask s.current fun k => { k with weaveOn := false } }.goto
      .exitSwitch
  | .exitSwitch =>
    let s := s.goto .halted
    { s with sched := s.sched.schedExitCurrent }
  | .halted => s

/-- What a task may do outside a call. -/
inductive Action where
  | create (taskOk stackOk : Bool)
  | yield
  | schedule
  | join
  | leave
  | setPreempt (armed : Bool)
  | preemptDisable
  | preemptEnable
  | wait (c : WaitCall)
  | wakeUp (q : QueueId)
  | wakeUpAll (q : QueueId)
  | exit (code : ℤ)
  deriving DecidableEq, Repr

/-- An action of the running task. -/
def act (s : Sys) : Action → Sys
  | .create taskOk stackOk => { s with sched := s.sched.taskCreate taskOk stackOk }
  | .yield => { s with sched := s.sched.schedYield }
  | .schedule => { s with sched := s.sched.schedSchedule }
  | .join => { s with sched := s.sched.schedJoin }
  | .leave => { s with sched := s.sched.schedLeave }
  | .setPreempt armed => { s with sched := { s.sched with preempt := armed } }
  | .preemptDisable => { s with sched := { s.sched with preemptDepth := s.sched.preemptDepth + 1 } }
  | .preemptEnable => { s with sched := { s.sched with preemptDepth := s.sched.preemptDepth - 1 } }
  | .wait c => s.waitEnter c
  | .wakeUp q => (s.wakeUp q).1
  | .wakeUpAll q => (s.wakeUpAll q).1
  | .exit code =>
    -- the idle task goes straight into the loop
    if s.current = 0 then s.goto .halted
    else
      { s with
        sched := s.sched.setTask s.current fun k => { k with exitCode := code } }.goto .exitDead

inductive Event where
  /-- The running task acts. -/
  | act (a : Action)
  /-- The running task executes its next statement. -/
  | run
  /-- The timer interrupts. -/
  | timer
  /-- Another interrupt returns. -/
  | irq
  deriving DecidableEq, Repr

/-- One step. A task that was preempted first returns from the interrupt, which it cannot be
interrupted in; a task inside a call goes on with the call. -/
def step (s : Sys) (e : Event) : Sys :=
  match (s.ctx s.current).irq with
  | some before =>
    match e with
    | .run =>
      { s with
        sched := s.sched.preemptTail before
        ctx := update s.ctx s.current { s.ctx s.current with irq := none } }
    | _ => s
  | none =>
    match e with
    | .act a => if (s.ctx s.current).pc = .user then s.act a else s
    | .run => s.stmt (s.ctx s.current).pc
    | .timer => s.timer
    | .irq => s.preemptOnReturn

/-- The wait queues after boot. -/
def bootWaits : Waits where
  pool _ := ⟨none, false⟩
  used _ := false
  links := ⟨fun n => match n with | .queue q => some (.queue q) | .entry _ => none,
    fun n => match n with | .queue q => some (.queue q) | .entry _ => none⟩
  queues _ := ⟨0, 0, 0⟩

def boot : Sys where
  sched := Sched.schedInit
  waits := bootWaits
  ticks := 0
  ctx _ := ⟨none, .user, none⟩

end Sys

end SubOS.Kernel
