import Mathlib.Algebra.GroupWithZero.Nat
import SubOS.Lib.LinkedList

set_option autoImplicit false

/-!
# The Weave scheduler

`kernel/sched.c` and the part of `kernel/task.c` it works with. Each lane is a queue of tasks, and
the operations on the links are operations on these queues.

## Main definitions

* `Sched`, `Sched.weaveRotate` — the scheduler and its rotation.
* `Lanes`, `Sched.Holds` — the lanes as queues, and that the links are these queues.

## Main results

* `Sched.Holds.addTail`, `Sched.Holds.del` — putting a task into a lane and taking it out.
* `Sched.Holds.weavePick_some` — which task is picked.

## Design

A task is named by its process id; the tasks that `task_create` has not made yet have the zeros of
`kzalloc`. The lanes are the links themselves, as the code writes them. `weave_current` and
`current_task` are always written together and are one field. Each operation here runs with
interrupts masked, so it is one step. Saved stack pointers are left out: which context a task
resumes is part of the model of the calls that switch.
-/

namespace SubOS.Kernel

open LinkedList Function List

def weaveNlanes : ℕ := 4

def weaveQuantum (lane : ℕ) : ℕ := [2, 4, 8, 16].getD lane 0

inductive TaskState where
  | ready
  | running
  | blocked
  | sleeping
  | zombie
  | dead
  deriving DecidableEq, Repr

/-- The process id of a task; 0 is the idle task. -/
abbrev TaskId := ℕ

/-- `task_t`, as far as scheduling uses it. -/
structure Task where
  state : TaskState
  exitCode : ℤ
  weaveLane : ℕ
  weaveCredit : ℕ
  schedRuns : ℕ
  weaveOn : Bool
  deriving DecidableEq, Repr

def Task.zero : Task := ⟨.ready, 0, 0, 0, 0, false⟩

/-- The list nodes of the scheduler: the heads of the lanes and the `list` field of each task. -/
inductive Node where
  | lane (l : ℕ)
  | task (t : TaskId)
  deriving DecidableEq, Repr

/-! ## Queues of tasks -/

/-- The tasks of each lane, first to last. -/
abbrev Lanes := ℕ → List TaskId

def Lanes.Has (lanes : Lanes) (t : TaskId) : Prop := ∃ l < weaveNlanes, t ∈ lanes l

/-- The queues after a task was put at the end of lane `l`. -/
def Lanes.push (lanes : Lanes) (l : ℕ) (t : TaskId) : Lanes :=
  update lanes l (lanes l ++ [t])

/-- The queues after a task was taken out. -/
def Lanes.remove (lanes : Lanes) (t : TaskId) : Lanes := fun l => (lanes l).erase t

/-- The number of tasks in the lanes. -/
def Lanes.total (lanes : Lanes) : ℕ := ((List.range weaveNlanes).map fun l => (lanes l).length).sum

/-- Lane `l` is the first that is not empty, and `t` is its first task. -/
structure Lanes.First (lanes : Lanes) (l : ℕ) (t : TaskId) : Prop where
  lt : l < weaveNlanes
  head : (lanes l).head? = some t
  below : ∀ m < l, lanes m = []

def Lanes.nodes (lanes : Lanes) (l : ℕ) : List Node := (lanes l).map Node.task

namespace Lanes

variable {lanes : Lanes} {l : ℕ} {t : TaskId}

lemma First.has (h : lanes.First l t) : lanes.Has t := ⟨l, h.lt, mem_of_head? h.head⟩

/-- Changing one lane changes the number of tasks by the difference of its lengths. -/
lemma total_update (lanes : Lanes) (hl : l < weaveNlanes) (ts : List TaskId) :
    total (update lanes l ts) + (lanes l).length = lanes.total + ts.length := by
  simp only [weaveNlanes] at hl
  obtain rfl | rfl | rfl | rfl : l = 0 ∨ l = 1 ∨ l = 2 ∨ l = 3 := by omega
  all_goals
    simp [total, weaveNlanes, range_succ]
    omega

lemma total_push (lanes : Lanes) (hl : l < weaveNlanes) (t : TaskId) :
    (lanes.push l t).total = lanes.total + 1 := by
  have hupd := total_update lanes hl (lanes l ++ [t])
  rw [length_append, length_singleton] at hupd
  unfold push
  omega

end Lanes

/-! ## The scheduler -/

/-- The state of the scheduler. -/
structure Sched where
  tasks : TaskId → Task
  nextPid : TaskId
  links : Links Node
  /-- `weave_current` and `current_task`. -/
  current : TaskId
  preempt : Bool
  nready : ℕ
  switches : ℕ
  preemptions : ℕ
  needResched : Bool
  preemptDepth : ℤ

namespace Sched

open Node

/-- Change the fields of a task. -/
def setTask (s : Sched) (t : TaskId) (f : Task → Task) : Sched :=
  { s with tasks := update s.tasks t (f (s.tasks t)) }

/-! ## Lane primitives -/

def weaveEnqueue (s : Sched) (t : TaskId) : Sched :=
  let s :=
    if weaveNlanes ≤ (s.tasks t).weaveLane then
      s.setTask t fun k => { k with weaveLane := weaveNlanes - 1 }
    else s
  { s with
    links := s.links.addTail (.task t) (.lane (s.tasks t).weaveLane)
    nready := s.nready + 1 }

def laneFirst (s : Sched) (l : ℕ) : Option TaskId :=
  match s.links.next (.lane l) with
  | some (.task t) => some t
  | _ => none

def weavePick (s : Sched) : Option TaskId := (List.range weaveNlanes).findSome? s.laneFirst

/-- Take a task out of its lane. -/
def unlink (s : Sched) (t : TaskId) : Sched :=
  { s with links := s.links.del (.task t), nready := s.nready - 1 }

/-- Grant a task that is switched in the quantum of its lane. -/
def grant (s : Sched) (t : TaskId) : Sched :=
  s.setTask t fun k => { k with weaveCredit := weaveQuantum k.weaveLane }

def weaveSwitchTo (s : Sched) (next : TaskId) : Sched :=
  if next = s.current then s
  else
    { s.setTask next fun k => { k with state := .running, schedRuns := k.schedRuns + 1 } with
      switches := s.switches + 1
      current := next }

/-- The lane of a task that gives up the processor: one up if it yields, one down if it is
preempted. -/
def rotateLane (voluntary : Bool) (lane : ℕ) : ℕ :=
  if voluntary then lane - 1 else if lane < weaveNlanes - 1 then lane + 1 else lane

/-- Does `weave_rotate` put this task back into a lane? -/
def participates (k : Task) : Bool := k.weaveOn && (k.state == .running || k.state == .ready)

/-- The part of `weave_rotate` that puts the running task back into a lane. -/
def requeue (s : Sched) (voluntary : Bool) : Sched :=
  if participates (s.tasks s.current) then
    (s.setTask s.current fun k =>
      { k with
        weaveLane := rotateLane voluntary k.weaveLane
        weaveCredit := weaveQuantum (rotateLane voluntary k.weaveLane)
        state := .ready }).weaveEnqueue s.current
  else s

def weaveRotate (s : Sched) (voluntary : Bool) : Sched :=
  match s.weavePick with
  | none => s
  | some next => (((s.unlink next).requeue voluntary).grant next).weaveSwitchTo next

/-! ## Public operations -/

def schedAddTask (s : Sched) (t : TaskId) : Sched :=
  (s.setTask t fun k =>
    { k with weaveLane := 0, weaveCredit := weaveQuantum 0, weaveOn := true, state := .ready
      }).weaveEnqueue t

def weaveLinked (s : Sched) (t : TaskId) : Bool :=
  match s.links.next (.task t) with
  | none => false
  | some n => n != .task t

def schedRemoveTask (s : Sched) (t : TaskId) : Sched :=
  (if s.weaveLinked t then s.unlink t else s).setTask t fun k => { k with weaveOn := false }

def schedJoin (s : Sched) : Sched := s.setTask s.current fun k => { k with weaveOn := true }

def schedLeave (s : Sched) : Sched := s.setTask s.current fun k => { k with weaveOn := false }

def schedYield (s : Sched) : Sched := s.weaveRotate true

def schedSchedule (s : Sched) : Sched := s.weaveRotate false

def schedTick (s : Sched) : Sched :=
  if s.current = 0 then s
  else
    let s := s.setTask s.current fun k => { k with weaveCredit := k.weaveCredit - 1 }
    if (s.tasks s.current).weaveCredit = 0 ∧ s.preempt = true ∧ s.preemptDepth = 0 then
      { s with needResched := true }
    else s

/-- `sched_preempt_on_return`, up to the switch. -/
def schedPreemptOnReturn (s : Sched) : Sched :=
  if s.preempt = false ∨ s.needResched = false then s
  else if s.preemptDepth ≠ 0 then s
  else if s.current = 0 then s
  else { s with needResched := false }.schedSchedule

/-- The rest of `sched_preempt_on_return`, in the task that was switched away from when it is
switched in again: `before` was the number of switches. -/
def preemptTail (s : Sched) (before : ℕ) : Sched :=
  if s.switches ≠ before then { s with preemptions := s.preemptions + 1 } else s

def schedExitCurrent (s : Sched) : Sched :=
  match s.weavePick with
  | none => s
  | some next =>
    { (s.unlink next).setTask next fun k =>
        { k with
          state := .running
          schedRuns := k.schedRuns + 1
          weaveCredit := weaveQuantum k.weaveLane } with
      switches := s.switches + 1
      current := next }

/-- `task_create`; either allocation may fail. -/
def taskCreate (s : Sched) (taskOk stackOk : Bool) : Sched :=
  if taskOk = false then s
  else
    let t := s.nextPid
    let s := { s with nextPid := s.nextPid + 1 }
    if stackOk = false then s
    else
      { s.setTask t fun _ => Task.zero with links := s.links.init (.task t) }.schedAddTask t

/-- The state after `sched_init`: empty lanes, and the idle task running outside the rotation. -/
def schedInit : Sched where
  tasks := update (fun _ => Task.zero) 0
    { Task.zero with state := .running, weaveCredit := weaveQuantum 0 }
  nextPid := 1
  links := ((List.range weaveNlanes).foldl (fun (L : Links Node) l => L.init (.lane l))
    Links.null).init (.task 0)
  current := 0
  preempt := false
  nready := 0
  switches := 0
  preemptions := 0
  needResched := false
  preemptDepth := 0

/-! ## The lanes as queues -/

/-- The lanes are well formed lists without common members, and hold these tasks. -/
structure Holds (s : Sched) (lanes : Lanes) : Prop where
  ring : ∀ l < weaveNlanes, s.links.Ring (.lane l) (lanes.nodes l)
  disjoint : ∀ l < weaveNlanes, ∀ l' < weaveNlanes, ∀ t, t ∈ lanes l → t ∈ lanes l' → l = l'

/-- The task is a member of the lane: the links lead from the head of the lane through it and
back. -/
def LinkedIn (s : Sched) (l : ℕ) (t : TaskId) : Prop :=
  l < weaveNlanes ∧ ∃ nodes, s.links.Ring (.lane l) nodes ∧ .task t ∈ nodes

attribute [local simp] Lanes.nodes

variable {l : ℕ}

lemma mem_nodes {lanes : Lanes} {t : TaskId} : task t ∈ lanes.nodes l ↔ t ∈ lanes l := by
  simp

lemma task_notMem {lanes : Lanes} {t : TaskId} (ht : ¬ lanes.Has t) (hl : l < weaveNlanes) :
    task t ∉ lane l :: lanes.nodes l := by
  simp only [mem_cons, reduceCtorEq, mem_nodes, false_or]
  exact fun hmem => ht ⟨l, hl, hmem⟩

namespace Holds

variable {s s' : Sched} {lanes : Lanes} {t : TaskId}

section

variable (h : s.Holds lanes)
include h

lemma congr (hlinks : s'.links = s.links) : s'.Holds lanes :=
  ⟨fun l hl => hlinks ▸ h.ring l hl, h.disjoint⟩

lemma nodes_disjoint {l' : ℕ} (hl : l < weaveNlanes) (hl' : l' < weaveNlanes)
    (hne : l' ≠ l) : ∀ a ∈ lane l' :: lanes.nodes l', a ∉ lane l :: lanes.nodes l := by
  intro a ha ha'
  cases a with
  | lane m =>
    have h1 : m = l' := by simpa using ha
    have h2 : m = l := by simpa using ha'
    exact hne (h1.symm.trans h2)
  | task t =>
    have h1 : t ∈ lanes l' := by simpa [mem_nodes] using ha
    have h2 : t ∈ lanes l := by simpa [mem_nodes] using ha'
    exact hne (h.disjoint l' hl' l hl t h1 h2)

lemma addTail (hl : l < weaveNlanes) (ht : ¬ lanes.Has t)
    (hlinks : s'.links = s.links.addTail (.task t) (.lane l)) : s'.Holds (lanes.push l t) where
  ring := by
    intro l' hl'
    rw [hlinks]
    rcases eq_or_ne l' l with rfl | hne
    · have hnodes : (lanes.push l' t).nodes l' = lanes.nodes l' ++ [.task t] := by
        simp [Lanes.push]
      rw [hnodes]
      exact (h.ring l' hl').addTail (task_notMem ht hl')
    · have hnodes : (lanes.push l t).nodes l' = lanes.nodes l' := by
        simp [Lanes.push, hne]
      rw [hnodes]
      exact (h.ring l' hl').addTail_other (h.ring l hl) (task_notMem ht hl')
        (h.nodes_disjoint hl hl' hne)
  disjoint := by
    -- a task in two lanes was in two lanes before, or is the new one
    have hmem : ∀ m < weaveNlanes, ∀ u, u ∈ lanes.push l t m → u ∈ lanes m ∨ u = t ∧ m = l := by
      intro m hm u hu
      rcases eq_or_ne m l with rfl | hne
      · simpa [Lanes.push] using hu
      · exact .inl (by simpa [Lanes.push, hne] using hu)
    intro m hm m' hm' u hu hu'
    rcases hmem m hm u hu with h1 | ⟨rfl, rfl⟩ <;> rcases hmem m' hm' u hu' with h2 | ⟨h2, h3⟩
    · exact h.disjoint m hm m' hm' u h1 h2
    · exact absurd ⟨m, hm, h2 ▸ h1⟩ ht
    · exact absurd ⟨m', hm', h2⟩ ht
    · exact h3.symm

lemma exists_split (hl : l < weaveNlanes) (ht : t ∈ lanes l) :
    ∃ xs ys, lanes l = xs ++ t :: ys ∧ (lanes.remove t) l = xs ++ ys ∧
      s.links.Ring (.lane l) (xs.map .task ++ .task t :: ys.map .task) := by
  obtain ⟨xs, ys, -, hts, hrem⟩ := exists_erase_eq ht
  have hring := h.ring l hl
  rw [Lanes.nodes, hts, map_append, map_cons] at hring
  exact ⟨xs, ys, hts, hrem, hring⟩

lemma remove_of_ne {m : ℕ} (hl : l < weaveNlanes) (hm : m < weaveNlanes)
    (ht : t ∈ lanes l) (hne : m ≠ l) : (lanes.remove t) m = lanes m :=
  erase_of_not_mem fun hmem => hne (h.disjoint m hm l hl t hmem ht)

lemma total_remove (ht : lanes.Has t) : (lanes.remove t).total + 1 = lanes.total := by
  obtain ⟨l, hl, hmem⟩ := ht
  obtain ⟨xs, ys, hts, hrem, -⟩ := h.exists_split hl hmem
  have heq : ∀ m < weaveNlanes, (lanes.remove t) m = update lanes l (xs ++ ys) m := by
    intro m hm
    rcases eq_or_ne m l with rfl | hne
    · rw [hrem, update_self]
    · rw [h.remove_of_ne hl hm hmem hne, update_of_ne hne]
  have htotal : (lanes.remove t).total = Lanes.total (update lanes l (xs ++ ys)) := by
    refine congrArg sum (map_congr_left fun m hm => ?_)
    rw [heq m (mem_range.1 hm)]
  have hupd := Lanes.total_update lanes hl (xs ++ ys)
  rw [hts, length_append, length_append, length_cons] at hupd
  omega

lemma del (ht : lanes.Has t) (hlinks : s'.links = s.links.del (.task t)) :
    s'.Holds (lanes.remove t) where
  ring := by
    obtain ⟨l, hl, hmem⟩ := ht
    obtain ⟨xs, ys, hts, hrem, hring⟩ := h.exists_split hl hmem
    intro m hm
    rw [hlinks]
    rcases eq_or_ne m l with rfl | hne
    · rw [Lanes.nodes, hrem, map_append]
      exact hring.del
    · rw [Lanes.nodes, h.remove_of_ne hl hm hmem hne]
      refine (h.ring m hm).del_other hring ?_
      have hdisj := h.nodes_disjoint hl hm hne
      rwa [Lanes.nodes, Lanes.nodes, hts, map_append, map_cons] at hdisj
  disjoint := fun m hm m' hm' u hu hu' =>
    h.disjoint m hm m' hm' u (mem_of_mem_erase hu) (mem_of_mem_erase hu')

lemma laneFirst_eq (hl : l < weaveNlanes) : s.laneFirst l = (lanes l).head? := by
  have hnext := (h.ring l hl).next_head
  unfold laneFirst
  rw [hnext]
  cases hlane : lanes l <;> simp [hlane]

/-- **The task that is picked is the first of the first lane that is not empty.** -/
theorem weavePick_some (hpick : s.weavePick = some t) : ∃ l, lanes.First l t := by
  obtain ⟨ls, l, ls', hrange, hfirst, hbelow⟩ := findSome?_eq_some_iff.1 hpick
  have hmem : ∀ m, m ∈ ls ++ l :: ls' ↔ m < weaveNlanes := by
    intro m
    rw [← hrange, mem_range]
  have hl : l < weaveNlanes := (hmem l).1 (by simp)
  refine ⟨l, hl, (h.laneFirst_eq hl).symm.trans hfirst, fun m hm => ?_⟩
  -- the lanes before `l` in the range are those below it
  have hsorted := pairwise_lt_range (n := weaveNlanes)
  rw [hrange, pairwise_append, pairwise_cons] at hsorted
  have hm' : m ∈ ls := by
    rcases mem_append.1 ((hmem m).2 (hm.trans hl)) with hin | hin
    · exact hin
    · rcases mem_cons.1 hin with rfl | hin
      · exact absurd hm (lt_irrefl _)
      · exact absurd hm (not_lt_of_gt (hsorted.2.1.1 m hin))
  have hnone := hbelow m hm'
  rwa [h.laneFirst_eq (hm.trans hl), head?_eq_none_iff] at hnone

/-- A task that was taken out is in no lane any more; the others are where they were. -/
lemma has_remove (t u : TaskId) : (lanes.remove t).Has u ↔ lanes.Has u ∧ u ≠ t := by
  constructor
  · rintro ⟨m, hm, hu⟩
    have hnodup : (lanes m).Nodup := (nodup_cons.1 (h.ring m hm).nodup).2.of_map
    obtain ⟨hne, hu⟩ := hnodup.mem_erase_iff.1 hu
    exact ⟨⟨m, hm, hu⟩, hne⟩
  · rintro ⟨⟨m, hm, hu⟩, hne⟩
    exact ⟨m, hm, (mem_erase_of_ne hne).2 hu⟩

end

lemma has_push (hl : l < weaveNlanes) (t u : TaskId) :
    (lanes.push l t).Has u ↔ lanes.Has u ∨ u = t := by
  constructor
  · rintro ⟨m, hm, hu⟩
    rcases eq_or_ne m l with rfl | hne
    · rcases (by simpa [Lanes.push] using hu : u ∈ lanes m ∨ u = t) with hu | rfl
      · exact .inl ⟨m, hm, hu⟩
      · exact .inr rfl
    · exact .inl ⟨m, hm, by simpa [Lanes.push, hne] using hu⟩
  · rintro (⟨m, hm, hu⟩ | rfl)
    · refine ⟨m, hm, ?_⟩
      rcases eq_or_ne m l with rfl | hne
      · simp [Lanes.push, hu]
      · simpa [Lanes.push, hne] using hu
    · exact ⟨l, hl, by simp [Lanes.push]⟩

end Holds

/-! ## `weave_enqueue` -/

section

variable (s : Sched) (t : TaskId)

section

variable (f : Task → Task)

@[simp] lemma setTask_current : (s.setTask t f).current = s.current := rfl

@[simp] lemma setTask_nextPid : (s.setTask t f).nextPid = s.nextPid := rfl

@[simp] lemma setTask_self : (s.setTask t f).tasks t = f (s.tasks t) := by
  simp [setTask]

@[simp] lemma setTask_of_ne {u : TaskId} (h : u ≠ t) : (s.setTask t f).tasks u = s.tasks u := by
  simp [setTask, h]

end

@[simp] lemma weaveEnqueue_current : (s.weaveEnqueue t).current = s.current := by
  unfold weaveEnqueue
  split <;> rfl

@[simp] lemma weaveEnqueue_nextPid : (s.weaveEnqueue t).nextPid = s.nextPid := by
  unfold weaveEnqueue
  split <;> rfl

@[simp] lemma weaveEnqueue_of_ne {u : TaskId} (h : u ≠ t) :
    (s.weaveEnqueue t).tasks u = s.tasks u := by
  unfold weaveEnqueue
  split
  · simp [h]
  · rfl

/-- No task changes but in its lane. -/
lemma weaveEnqueue_task (u : TaskId) :
    ∃ l, (s.weaveEnqueue t).tasks u = { s.tasks u with weaveLane := l } := by
  rcases eq_or_ne u t with rfl | h
  · unfold weaveEnqueue
    split
    · exact ⟨weaveNlanes - 1, update_self ..⟩
    · exact ⟨_, rfl⟩
  · exact ⟨_, weaveEnqueue_of_ne s t h⟩

@[simp] lemma weaveEnqueue_state (u : TaskId) :
    ((s.weaveEnqueue t).tasks u).state = (s.tasks u).state := by
  obtain ⟨l, h⟩ := s.weaveEnqueue_task t u
  rw [h]

@[simp] lemma weaveEnqueue_weaveOn (u : TaskId) :
    ((s.weaveEnqueue t).tasks u).weaveOn = (s.tasks u).weaveOn := by
  obtain ⟨l, h⟩ := s.weaveEnqueue_task t u
  rw [h]

end

end Sched

end SubOS.Kernel
