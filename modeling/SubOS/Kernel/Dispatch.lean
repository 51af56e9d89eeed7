import SubOS.Kernel.Sched
import SubOS.Lib.EventRun

set_option autoImplicit false

/-!
# What the scheduler does to the lanes

Each operation of the scheduler, as an operation on the queues. To speak about the order in which
tasks have entered the lanes, a run carries a clock, and for each task the time at which it was
linked last.

## Main definitions

* `Linked`, `Switched` — the lanes as queues, and a switch from one task to another.
* `InOrder` — lanes in the order of entering.

## Main results

* `Linked.apply`, `lanes_run` — the lanes after an operation, and in every run.
* `running_task_linked` — the running task can be linked.
-/

open LinkedList EventRun

namespace SubOS.Kernel

namespace Lanes

/-- Each lane has kept some of its tasks, in their order, and has got at most one new one, at its
end. -/
def Shifted (lanes lanes' : Lanes) : Prop :=
  ∀ l < weaveNlanes, (lanes' l).Sublist (lanes l) ∨
    ∃ ts t, ts.Sublist (lanes l) ∧ ¬ lanes.Has t ∧ lanes' l = ts ++ [t]

variable {lanes lanes' : Lanes} {t : TaskId}

lemma has_nil : ¬ Has (fun _ => []) t := by
  rintro ⟨l, -, hmem⟩
  cases hmem

lemma Shifted.of_sublist (h : ∀ l, (lanes' l).Sublist (lanes l)) : lanes.Shifted lanes' :=
  fun l _ => .inl (h l)

lemma Shifted.refl (lanes : Lanes) : lanes.Shifted lanes := .of_sublist fun _ => List.Sublist.refl _

lemma remove_sublist (lanes : Lanes) (t : TaskId) (l : ℕ) :
    ((lanes.remove t) l).Sublist (lanes l) := List.erase_sublist

lemma Shifted.push (h : ∀ l, (lanes' l).Sublist (lanes l)) (ht : ¬ lanes.Has t) (m : ℕ) :
    lanes.Shifted (lanes'.push m t) := by
  intro l _
  rcases eq_or_ne l m with rfl | hne
  · exact .inr ⟨lanes' l, t, h l, ht, by simp [Lanes.push]⟩
  · left
    rw [Lanes.push, Function.update_of_ne hne]
    exact h l

end Lanes

namespace Sched

/-- The lanes are these queues: the links lead through them, `weave_nready` counts their tasks, the
nodes of the other tasks are not linked, and every task has the number of a lane. -/
structure Queues (s : Sched) (lanes : Lanes) : Prop where
  holds : s.Holds lanes
  nready : s.nready = lanes.total
  detached : ∀ t, ¬ lanes.Has t →
    s.links.next (.task t) = none ∨ s.links.next (.task t) = some (.task t)
  lane_lt : ∀ t, (s.tasks t).weaveLane < weaveNlanes

/-- The lanes are these queues, and the running task is in none of them. -/
structure Linked (s : Sched) (lanes : Lanes) : Prop extends s.Queues lanes where
  current : ¬ lanes.Has s.current

namespace Queues

variable {s s' : Sched} {lanes : Lanes} {t : TaskId}

section

variable (h : s.Queues lanes)
include h

lemma congr (hlinks : s'.links = s.links) (hnready : s'.nready = s.nready)
    (hlane : ∀ t, (s'.tasks t).weaveLane < weaveNlanes) : s'.Queues lanes :=
  ⟨h.holds.congr hlinks, hnready.trans h.nready, hlinks ▸ h.detached, hlane⟩

lemma setTask (t : TaskId) {f : Task → Task}
    (hf : ∀ k, k.weaveLane < weaveNlanes → (f k).weaveLane < weaveNlanes) :
    (s.setTask t f).Queues lanes := by
  refine h.congr rfl rfl fun u => ?_
  rcases eq_or_ne u t with rfl | hne
  · rw [setTask_self]
    exact hf _ (h.lane_lt u)
  · rw [setTask_of_ne _ _ _ hne]
    exact h.lane_lt u

/-- **`weave_linked` tells which tasks are in a lane.** -/
theorem weaveLinked_iff (t : TaskId) : s.weaveLinked t = true ↔ lanes.Has t := by
  unfold weaveLinked
  constructor
  · intro hlinked
    by_contra hno
    rcases h.detached t hno with hnext | hnext
    · simp [hnext] at hlinked
    · simp [hnext] at hlinked
  · rintro ⟨l, hl, hmem⟩
    obtain ⟨xs, ys, -, -, hring⟩ := h.holds.exists_split hl hmem
    obtain ⟨x, hnext, hne⟩ := hring.next_of_mem
    simp [hnext, hne]

lemma weaveLinked_of_linkedIn {l : ℕ} (hl : s.LinkedIn l t) : s.weaveLinked t = true := by
  obtain ⟨hlt, nodes, hring, hmem⟩ := hl
  obtain rfl := hring.unique (h.holds.ring l hlt)
  exact (h.weaveLinked_iff t).2 ⟨l, hlt, mem_nodes.1 hmem⟩

lemma unlink (ht : lanes.Has t) : (s.unlink t).Queues (lanes.remove t) where
  holds := h.holds.del ht rfl
  nready := by
    have htotal := h.holds.total_remove ht
    have hnready := h.nready
    simp only [Sched.unlink]
    omega
  detached := by
    intro u hu
    obtain ⟨l, hl, hmem⟩ := ht
    obtain ⟨xs, ys, hts, -, hring⟩ := h.holds.exists_split hl hmem
    rcases eq_or_ne u t with rfl | hne
    · exact .inl hring.next_del_self
    · have hno : ¬ lanes.Has u := fun hc => hu ((h.holds.has_remove t u).2 ⟨hc, hne⟩)
      have hnotin : .task u ∉ Node.lane l :: (xs.map .task ++ .task t :: ys.map .task) := by
        have := task_notMem hno hl
        rwa [Lanes.nodes, hts, List.map_append, List.map_cons] at this
      have hnext : (s.unlink t).links.next (.task u) = s.links.next (.task u) :=
        hring.next_del hnotin
      rw [hnext]
      exact h.detached u hno
  lane_lt := h.lane_lt

end

lemma weaveEnqueue_eq (hlt : (s.tasks t).weaveLane < weaveNlanes) :
    s.weaveEnqueue t =
      { s with
        links := s.links.addTail (.task t) (.lane (s.tasks t).weaveLane)
        nready := s.nready + 1 } := by
  simp [weaveEnqueue, not_le_of_gt hlt]

lemma weaveEnqueue (h : s.Queues lanes) (ht : ¬ lanes.Has t) :
    (s.weaveEnqueue t).Queues (lanes.push (s.tasks t).weaveLane t) := by
  have hlt := h.lane_lt t
  rw [weaveEnqueue_eq hlt]
  refine ⟨h.holds.addTail hlt ht rfl, ?_, fun u hu => ?_, h.lane_lt⟩
  · rw [Lanes.total_push lanes hlt, h.nready]
  · have hno : ¬ lanes.Has u := fun hc => hu ((Holds.has_push hlt t u).2 (.inl hc))
    have hne : u ≠ t := fun e => hu ((Holds.has_push hlt t u).2 (.inr e))
    have hnext : (s.links.addTail (.task t) (.lane (s.tasks t).weaveLane)).next (.task u) =
        s.links.next (.task u) :=
      (h.holds.ring _ hlt).next_addTail (task_notMem hno hlt) (by simpa using hne)
    rw [hnext]
    exact h.detached u hno

end Queues

/-! ## Putting the running task back -/

/-- What putting the running task back does: if `back` is set it goes to the end of a lane,
READY. -/
structure Requeued (s s' : Sched) (lanes lanes' : Lanes) (back : Bool) : Prop where
  queues : s'.Queues lanes'
  pushed : lanes' = lanes ∨ ∃ m, lanes' = lanes.push m s.current
  has : ∀ u, lanes'.Has u ↔ lanes.Has u ∨ back = true ∧ u = s.current
  current : s'.current = s.current
  nextPid : s'.nextPid = s.nextPid
  others : ∀ u, u ≠ s.current → s'.tasks u = s.tasks u
  ready : back = true → (s'.tasks s.current).state = .ready
  kept : back = false → s'.tasks s.current = s.tasks s.current

lemma rotateLane_lt (voluntary : Bool) {lane : ℕ} (h : lane < weaveNlanes) :
    rotateLane voluntary lane < weaveNlanes := by
  unfold rotateLane at *
  split_ifs <;> omega

variable {s : Sched}

lemma requeue_spec {lanes : Lanes} (h : s.Queues lanes) (hcur : ¬ lanes.Has s.current)
    (voluntary : Bool) :
    ∃ lanes', Requeued s (s.requeue voluntary) lanes lanes' (participates (s.tasks s.current)) := by
  unfold requeue
  split
  · next hp =>
    have hset := h.setTask s.current (f := fun k =>
      { k with
        weaveLane := rotateLane voluntary k.weaveLane
        weaveCredit := weaveQuantum (rotateLane voluntary k.weaveLane)
        state := .ready }) fun k hk => rotateLane_lt voluntary hk
    refine ⟨_, hset.weaveEnqueue hcur, .inr ⟨_, rfl⟩, fun u => ?_, by simp, by simp,
      fun u hu => ?_, fun _ => by simp, fun hn => ?_⟩
    · rw [Holds.has_push (hset.lane_lt _)]
      simp [hp]
    · simp [hu]
    · simp [hp] at hn
  · next hp =>
    exact ⟨lanes, h, .inl rfl, fun u => by simp [hp], rfl, rfl, fun _ _ => rfl,
      fun hn => absurd hn hp, fun _ => rfl⟩

/-! ## Switching -/

/-- A switch to the task `next`, the first of the first lane that is not empty. The running task is
put back into a lane if `back` is set; all others stay where they are. -/
structure Switched (s s' : Sched) (lanes lanes' : Lanes) (next : TaskId) (back : Bool) : Prop where
  first : ∃ l, lanes.First l next
  linked : s'.Linked lanes'
  shifted : lanes.Shifted lanes'
  has : ∀ u, lanes'.Has u ↔ lanes.Has u ∧ u ≠ next ∨ back = true ∧ u = s.current
  current : s'.current = next
  nextPid : s'.nextPid = s.nextPid
  others : ∀ u, u ≠ next → u ≠ s.current → s'.tasks u = s.tasks u
  ready : back = true → (s'.tasks s.current).state = .ready
  kept : back = false → s'.tasks s.current = s.tasks s.current
  running : (s'.tasks next).state = .running

/-- The task that is switched to is marked RUNNING, gets the quantum of its lane and becomes the
running task; nothing else changes. -/
structure Entered (s s' : Sched) (next : TaskId) : Prop where
  links : s'.links = s.links
  nready : s'.nready = s.nready
  current : s'.current = next
  nextPid : s'.nextPid = s.nextPid
  lane : ∀ u, (s'.tasks u).weaveLane = (s.tasks u).weaveLane
  others : ∀ u, u ≠ next → s'.tasks u = s.tasks u
  running : (s'.tasks next).state = .running

variable {next : TaskId}

lemma weaveSwitchTo_grant (hne : next ≠ s.current) :
    Entered s ((s.grant next).weaveSwitchTo next) next := by
  have hcur : next ≠ (s.grant next).current := hne
  unfold weaveSwitchTo
  rw [if_neg hcur]
  refine ⟨rfl, rfl, rfl, rfl, fun u => ?_, fun u hu => ?_, ?_⟩
  · rcases eq_or_ne u next with rfl | hu
    · simp [grant]
    · simp [grant, hu]
  · simp [grant, hu]
  · simp

lemma Switched.blocked {s' : Sched} {lanes lanes' : Lanes} {back : Bool}
    (h : Switched s s' lanes lanes' next back) {t : TaskId} (ht : (s'.tasks t).state = .blocked) :
    (s.tasks t).state = .blocked := by
  rcases eq_or_ne t next with rfl | hnext
  · rw [h.running] at ht
    cases ht
  · rcases eq_or_ne t s.current with rfl | hcur
    · cases back with
      | true =>
        rw [h.ready rfl] at ht
        cases ht
      | false => rwa [h.kept rfl] at ht
    · rwa [h.others t hnext hcur] at ht

namespace Linked

variable {s s' : Sched} {lanes : Lanes} {t : TaskId}

section

variable (h : s.Linked lanes)
include h

lemma congr (hlinks : s'.links = s.links) (hnready : s'.nready = s.nready)
    (hcur : s'.current = s.current) (hlane : ∀ t, (s'.tasks t).weaveLane < weaveNlanes) :
    s'.Linked lanes :=
  ⟨h.toQueues.congr hlinks hnready hlane, hcur ▸ h.current⟩

lemma setTask (t : TaskId) {f : Task → Task}
    (hf : ∀ k, k.weaveLane < weaveNlanes → (f k).weaveLane < weaveNlanes) :
    (s.setTask t f).Linked lanes :=
  ⟨h.toQueues.setTask t hf, h.current⟩

/-- The running task leaves its place, or goes back into a lane, and the first task of the lanes
is switched to.

**Proof sketch.** The task picked was in a lane, so it is not the running one, and it is in no lane
when it has been taken out. -/
lemma switch (hpick : s.weavePick = some next) {back : Bool} {s₁ : Sched} {lanes' : Lanes}
    (hreq : Requeued (s.unlink next) s₁ (lanes.remove next) lanes' back)
    (hent : Entered s₁ s' next) : Switched s s' lanes lanes' next back := by
  obtain ⟨l, hfirst⟩ := h.holds.weavePick_some hpick
  have hne : s.current ≠ next := fun e => h.current (e ▸ hfirst.has)
  have hrem := h.holds.has_remove next
  have hhas : ∀ u, lanes'.Has u ↔ lanes.Has u ∧ u ≠ next ∨ back = true ∧ u = s.current := by
    intro u
    rw [hreq.has, hrem]
    rfl
  refine ⟨⟨l, hfirst⟩, ⟨?_, ?_⟩, ?_, hhas, hent.current, hent.nextPid.trans hreq.nextPid,
    ?_, ?_, ?_, hent.running⟩
  · exact hreq.queues.congr hent.links hent.nready fun u => hent.lane u ▸ hreq.queues.lane_lt u
  · rw [hent.current, hhas]
    rintro (⟨-, hc⟩ | ⟨-, hc⟩)
    · exact hc rfl
    · exact hne hc.symm
  · rcases hreq.pushed with rfl | ⟨m, rfl⟩
    · exact .of_sublist (lanes.remove_sublist next)
    · exact .push (lanes.remove_sublist next) h.current m
  · exact fun u hun huc => (hent.others u hun).trans (hreq.others u huc)
  · exact fun hb => (congrArg Task.state (hent.others _ hne)).trans (hreq.ready hb)
  · exact fun hb => (hent.others _ hne).trans (hreq.kept hb)

/-- **What a rotation does.** -/
theorem weaveRotate (voluntary : Bool) :
    s.weaveRotate voluntary = s ∨ ∃ next lanes',
      Switched s (s.weaveRotate voluntary) lanes lanes' next
      (participates (s.tasks s.current)) := by
  unfold Sched.weaveRotate
  split
  · exact .inl rfl
  next next hpick =>
  right
  obtain ⟨l, hfirst⟩ := h.holds.weavePick_some hpick
  have hne : next ≠ s.current := fun e => h.current (e ▸ hfirst.has)
  obtain ⟨lanes', hreq⟩ := requeue_spec (h.toQueues.unlink hfirst.has)
    (fun hc => h.current ((h.holds.has_remove _ _).1 hc).1) voluntary
  exact ⟨next, lanes', h.switch hpick hreq (weaveSwitchTo_grant (hreq.current ▸ hne))⟩

/-- **What the end of the running task does.** -/
theorem schedExitCurrent :
    s.schedExitCurrent = s ∨
      ∃ next lanes', Switched s s.schedExitCurrent lanes lanes' next false := by
  unfold Sched.schedExitCurrent
  split
  · exact .inl rfl
  next next hpick =>
  right
  obtain ⟨l, hfirst⟩ := h.holds.weavePick_some hpick
  have hreq : Requeued (s.unlink next) (s.unlink next) (lanes.remove next)
    (lanes.remove next) false :=
    ⟨h.toQueues.unlink hfirst.has, .inl rfl, fun u => by simp, rfl, rfl, fun _ _ => rfl,
      fun hb => absurd hb Bool.false_ne_true, fun _ => rfl⟩
  refine ⟨next, lanes.remove next,
    h.switch hpick hreq ⟨rfl, rfl, rfl, rfl, fun u => ?_, fun u hu => ?_, ?_⟩⟩
  · rcases eq_or_ne u next with rfl | hu
    · simp [Sched.setTask]
    · simp [Sched.setTask, hu]
  · simp [Sched.setTask, hu]
  · simp [Sched.setTask]

/-- **A task that is in no lane and not running is added.** -/
theorem schedAddTask (ht : ¬ lanes.Has t) (hcur : t ≠ s.current) :
    (s.schedAddTask t).Linked (lanes.push 0 t) := by
  have hset := h.toQueues.setTask t (f := fun k =>
    { k with weaveLane := 0, weaveCredit := weaveQuantum 0, weaveOn := true, state := .ready })
    fun _ _ => Nat.succ_pos 3
  have henq := hset.weaveEnqueue ht
  rw [setTask_self] at henq
  refine ⟨henq, ?_⟩
  rw [Sched.schedAddTask, weaveEnqueue_current, setTask_current, Holds.has_push (by decide)]
  rintro (hc | hc)
  · exact h.current hc
  · exact hcur hc.symm

/-- **A task is removed, whether it is in a lane or not.** -/
theorem schedRemoveTask (t : TaskId) :
    ∃ lanes', (s.schedRemoveTask t).Linked lanes' ∧ lanes.Shifted lanes' := by
  unfold Sched.schedRemoveTask
  split
  · next hlinked =>
    have ht := (h.weaveLinked_iff t).1 hlinked
    have hunlink : (s.unlink t).Linked (lanes.remove t) :=
      ⟨h.toQueues.unlink ht, fun hc => h.current ((h.holds.has_remove t _).1 hc).1⟩
    exact ⟨_, hunlink.setTask t fun _ hk => hk, .of_sublist (lanes.remove_sublist t)⟩
  · exact ⟨lanes, h.setTask t fun _ hk => hk, .refl lanes⟩

lemma schedTick : s.schedTick.Linked lanes := by
  unfold Sched.schedTick
  split
  · exact h
  · have hset := h.setTask s.current (f := fun k => { k with weaveCredit := k.weaveCredit - 1 })
      fun _ hk => hk
    dsimp only
    split
    · exact hset.congr rfl rfl rfl hset.lane_lt
    · exact hset

end

end Linked

lemma linked_schedInit : schedInit.Linked fun _ => [] where
  holds := by
    refine ⟨fun l hl => ⟨?_, by simp [Lanes.nodes]⟩, fun _ _ _ _ t ht => absurd ht List.not_mem_nil⟩
    simp only [weaveNlanes] at hl
    obtain rfl | rfl | rfl | rfl : l = 0 ∨ l = 1 ∨ l = 2 ∨ l = 3 := by omega
    all_goals decide
  nready := rfl
  detached := by
    intro t _
    rcases eq_or_ne t 0 with rfl | hne
    · exact .inr (by decide)
    · left
      simp [schedInit, weaveNlanes, List.range_succ, Links.init, Links.setNext, Links.setPrev,
        Links.null, hne]
  lane_lt := by
    intro t
    rcases eq_or_ne t 0 with rfl | hne
    · decide
    · simp [schedInit, hne, Task.zero, weaveNlanes]
  current := Lanes.has_nil

end Sched

/-- An operation of the scheduler. -/
inductive Op where
  | addTask (t : TaskId)
  | removeTask (t : TaskId)
  | yield
  | schedule
  /-- The timer: `sched_tick`, and `sched_preempt_on_return` up to the switch. -/
  | tick
  /-- The rest of `sched_preempt_on_return`, in a task that is switched in again. -/
  | preemptTail (before : ℕ)
  | join
  | leave
  | setPreempt (armed : Bool)
  | preemptDisable
  | preemptEnable
  | exitCurrent
  deriving DecidableEq, Repr

def Sched.apply (s : Sched) : Op → Sched
  | .addTask t => s.schedAddTask t
  | .removeTask t => s.schedRemoveTask t
  | .yield => s.schedYield
  | .schedule => s.schedSchedule
  | .tick => s.schedTick.schedPreemptOnReturn
  | .preemptTail before => s.preemptTail before
  | .join => s.schedJoin
  | .leave => s.schedLeave
  | .setPreempt armed => { s with preempt := armed }
  | .preemptDisable => { s with preemptDepth := s.preemptDepth + 1 }
  | .preemptEnable => { s with preemptDepth := s.preemptDepth - 1 }
  | .exitCurrent => s.schedExitCurrent

/-- The scheduler, the number of operations so far, and for each task the time at which it was
linked last. -/
structure Trace where
  sched : Sched
  clock : ℕ
  stamp : TaskId → ℕ

namespace Trace

/-- Carry out an operation; a task that is linked now and was not before has entered a lane. -/
def step (r : Trace) (op : Op) : Trace where
  sched := r.sched.apply op
  clock := r.clock + 1
  stamp t := if !r.sched.weaveLinked t && (r.sched.apply op).weaveLinked t then r.clock
    else r.stamp t

/-- The scheduler after `sched_init`. -/
def init : Trace := ⟨Sched.schedInit, 0, fun _ => 0⟩

/-- A task that is added is not linked, and is not the running one. -/
def AddsNew (r : Trace) (op : Op) : Prop :=
  ∀ t, op = .addTask t → r.sched.weaveLinked t = false ∧ t ≠ r.sched.current

instance (r : Trace) (op : Op) : Decidable (r.AddsNew op) := by
  cases op with
  | addTask t =>
    exact decidable_of_iff (r.sched.weaveLinked t = false ∧ t ≠ r.sched.current)
      ⟨fun h _ e => Op.addTask.inj e ▸ h, fun h => h t rfl⟩
  | _ => exact isTrue fun _ e => nomatch e

end Trace

/-! ## One operation -/

namespace Sched

/-- What an operation does to the lanes: they are shifted, and a task that is dispatched was the
first of the first lane that was not empty. -/
structure Moved (s s' : Sched) (lanes lanes' : Lanes) : Prop where
  linked : s'.Linked lanes'
  shifted : lanes.Shifted lanes'
  dispatch : s'.current ≠ s.current → ∃ l, lanes.First l s'.current

variable {s s' : Sched} {lanes lanes' : Lanes}

lemma Linked.stay (h : s'.Linked lanes) (hcur : s'.current = s.current) : Moved s s' lanes lanes :=
  ⟨h, .refl lanes, absurd hcur⟩

lemma Switched.moved {next : TaskId} {back : Bool} (h : Switched s s' lanes lanes' next back) :
    Moved s s' lanes lanes' :=
  ⟨h.linked, h.shifted, fun _ => h.current.symm ▸ h.first⟩

lemma Linked.rotate (h : s.Linked lanes) (voluntary : Bool) :
    ∃ lanes', Moved s (s.weaveRotate voluntary) lanes lanes' := by
  rcases h.weaveRotate voluntary with heq | ⟨next, lanes', hsw⟩
  · exact ⟨lanes, heq.symm ▸ h.stay rfl⟩
  · exact ⟨lanes', hsw.moved⟩

lemma schedTick_current (s : Sched) : s.schedTick.current = s.current := by
  unfold schedTick
  split
  · rfl
  · dsimp only
    split <;> rfl

lemma Linked.preempt (h : s.Linked lanes) :
    ∃ lanes', Moved s s.schedPreemptOnReturn lanes lanes' := by
  unfold schedPreemptOnReturn
  split_ifs
  · exact ⟨lanes, h.stay rfl⟩
  · exact ⟨lanes, h.stay rfl⟩
  · exact ⟨lanes, h.stay rfl⟩
  · have h' : Linked { s with needResched := false } lanes := h.congr rfl rfl rfl h.lane_lt
    obtain ⟨lanes', hmoved⟩ := h'.rotate false
    exact ⟨lanes', hmoved.linked, hmoved.shifted, hmoved.dispatch⟩

/-- **What an operation does to the lanes.** -/
theorem Linked.apply (h : s.Linked lanes) (op : Op)
    (hnew : ∀ t, op = .addTask t → s.weaveLinked t = false ∧ t ≠ s.current) :
    ∃ lanes', Moved s (s.apply op) lanes lanes' := by
  cases op with
  | addTask t =>
    obtain ⟨hlinked, hcur⟩ := hnew t rfl
    have ht : ¬ lanes.Has t := by
      rw [← h.weaveLinked_iff, hlinked]
      exact Bool.false_ne_true
    refine ⟨_, h.schedAddTask ht hcur, .push (fun _ => List.Sublist.refl _) ht 0, fun hne => ?_⟩
    exact absurd (weaveEnqueue_current _ t) hne
  | removeTask t =>
    obtain ⟨lanes', hlinked, hshift⟩ := h.schedRemoveTask t
    refine ⟨lanes', hlinked, hshift, fun hne => absurd ?_ hne⟩
    simp only [Sched.apply, Sched.schedRemoveTask, setTask_current]
    split <;> rfl
  | yield => exact h.rotate true
  | schedule => exact h.rotate false
  | tick =>
    obtain ⟨lanes', hmoved⟩ := h.schedTick.preempt
    exact ⟨lanes', hmoved.linked, hmoved.shifted, fun hne =>
      hmoved.dispatch (s.schedTick_current.symm ▸ hne)⟩
  | preemptTail before =>
    refine ⟨lanes, Linked.stay ?_ ?_⟩ <;> simp only [Sched.apply, preemptTail] <;> split
    · exact h.congr rfl rfl rfl h.lane_lt
    · exact h
    · rfl
    · rfl
  | join =>
    have hset := h.setTask s.current (f := fun k => { k with weaveOn := true }) fun _ hk => hk
    exact ⟨lanes, Linked.stay hset rfl⟩
  | leave =>
    have hset := h.setTask s.current (f := fun k => { k with weaveOn := false }) fun _ hk => hk
    exact ⟨lanes, Linked.stay hset rfl⟩
  | setPreempt armed | preemptDisable | preemptEnable =>
    exact ⟨lanes, Linked.stay (h.congr rfl rfl rfl h.lane_lt) rfl⟩
  | exitCurrent =>
    rcases h.schedExitCurrent with heq | ⟨next, lanes', hsw⟩
    · refine ⟨lanes, ?_⟩
      simp only [Sched.apply, heq]
      exact h.stay rfl
    · exact ⟨lanes', hsw.moved⟩

end Sched

/-! ## Runs -/

namespace Trace

/-- Each lane is in the order in which its tasks were linked. -/
structure InOrder (r : Trace) (lanes : Lanes) : Prop where
  order : ∀ l < weaveNlanes, (lanes l).Pairwise fun t u => r.stamp t < r.stamp u
  past : ∀ t, lanes.Has t → r.stamp t < r.clock

variable {r : Trace} {lanes lanes' : Lanes} {op : Op}

lemma stamp_of_has (h : r.sched.Linked lanes) {t : TaskId} (ht : lanes.Has t) :
    (r.step op).stamp t = r.stamp t := by
  simp [step, (h.weaveLinked_iff t).2 ht]

lemma stamp_of_enters (h : r.sched.Linked lanes) (h' : (r.step op).sched.Linked lanes') {t : TaskId}
    (hno : ¬ lanes.Has t) (ht : lanes'.Has t) : (r.step op).stamp t = r.clock := by
  have hbefore : r.sched.weaveLinked t = false :=
    Bool.eq_false_iff.2 fun hc => hno ((h.weaveLinked_iff t).1 hc)
  have hafter : (r.sched.apply op).weaveLinked t = true := (h'.weaveLinked_iff t).2 ht
  simp [step, hbefore, hafter]

/-- **Operations keep the order.**

**Proof sketch.** The tasks that stay in a lane keep their order and their times. A new one comes
last, and its time is that of the clock, which is after all others. -/
theorem InOrder.step (h : r.InOrder lanes) (hlinked : r.sched.Linked lanes)
    (hmoved : Sched.Moved r.sched (r.step op).sched lanes lanes') : (r.step op).InOrder lanes' where
  order := by
    intro l hl
    have hkeep : ∀ ts : List TaskId, ts.Sublist (lanes l) →
        ts.Pairwise fun t u => (r.step op).stamp t < (r.step op).stamp u := by
      intro ts hsub
      refine ((h.order l hl).sublist hsub).imp_of_mem fun ht hu htu => ?_
      rw [stamp_of_has hlinked ⟨l, hl, hsub.subset ht⟩,
        stamp_of_has hlinked ⟨l, hl, hsub.subset hu⟩]
      exact htu
    rcases hmoved.shifted l hl with hsub | ⟨ts, t, hsub, hno, heq⟩
    · exact hkeep _ hsub
    · rw [heq, List.pairwise_append]
      refine ⟨hkeep ts hsub, List.pairwise_singleton _ _, fun u hu v hv => ?_⟩
      obtain rfl := List.mem_singleton.1 hv
      have hu' : lanes.Has u := ⟨l, hl, hsub.subset hu⟩
      rw [stamp_of_has hlinked hu',
        stamp_of_enters hlinked hmoved.linked hno ⟨l, hl, by simp [heq]⟩]
      exact h.past u hu'
  past := by
    intro t ht
    by_cases hold : lanes.Has t
    · rw [stamp_of_has hlinked hold]
      exact (h.past t hold).trans (Nat.lt_succ_self _)
    · rw [stamp_of_enters hlinked hmoved.linked hold ht]
      exact Nat.lt_succ_self _

def Inv (r : Trace) : Prop := ∃ lanes, r.sched.Linked lanes ∧ r.InOrder lanes

lemma inv_init : init.Inv :=
  ⟨fun _ => [], Sched.linked_schedInit, fun _ _ => List.Pairwise.nil,
    fun _ ht => absurd ht Lanes.has_nil⟩

lemma inv_step (r : Trace) (op : Op) (h : r.Inv) (hnew : r.AddsNew op) : (r.step op).Inv := by
  obtain ⟨lanes, hlinked, horder⟩ := h
  obtain ⟨lanes', hmoved⟩ := hlinked.apply op hnew
  exact ⟨lanes', hmoved.linked, horder.step hlinked hmoved⟩

/-- **The lanes, in every state that the scheduler reaches** by operations that add only tasks that
are neither linked nor running: they are well formed lists without common members, `weave_nready`
counts their members, the running task is not one of them, and lane numbers are below
`WEAVE_NLANES`. A task that the next operation dispatches is the first of the first lane that is
not empty, and all others in this lane have been linked after it. -/
theorem lanes_run (ops : List Op) (h : Along step AddsNew init ops) :
    ∃ lanes,
      (run step init ops).sched.Holds lanes ∧
      (run step init ops).sched.nready = lanes.total ∧
      ¬ lanes.Has (run step init ops).sched.current ∧
      (∀ t, ((run step init ops).sched.tasks t).weaveLane < weaveNlanes) ∧
      ∀ op, (run step init ops).AddsNew op →
        (run step init (ops ++ [op])).sched.current ≠
            (run step init ops).sched.current →
          ∃ l, lanes.First l (run step init (ops ++ [op])).sched.current ∧
            ∀ t ∈ lanes l, t ≠ (run step init (ops ++ [op])).sched.current →
              (run step init ops).stamp
                  (run step init (ops ++ [op])).sched.current <
                (run step init ops).stamp t := by
  have hinv : (run step init ops).Inv :=
    run_invariant_of_along inv_step inv_init h
  obtain ⟨lanes, hlinked, horder⟩ := hinv
  refine ⟨lanes, hlinked.holds, hlinked.nready, hlinked.current, hlinked.lane_lt, ?_⟩
  intro op hnew hne
  rw [run_append] at hne ⊢
  obtain ⟨lanes', hmoved⟩ := hlinked.apply op hnew
  obtain ⟨l, hfirst⟩ := hmoved.dispatch hne
  refine ⟨l, hfirst, fun t ht htne => ?_⟩
  obtain ⟨ts, hts⟩ := List.head?_eq_some_iff.1 hfirst.head
  have hpair := horder.order l hfirst.lt
  rw [hts, List.pairwise_cons] at hpair
  refine hpair.1 t ?_
  rw [hts] at ht
  exact List.mem_of_ne_of_mem htne ht

/-- Two tasks are added, and the idle task yields to the first of them. -/
theorem lanes_run_two_tasks : ∃ lanes,
    (run step init [.addTask 1, .addTask 2, .yield]).sched.Holds lanes ∧
    (run step init [.addTask 1, .addTask 2, .yield]).sched.nready = lanes.total ∧
    (run step init [.addTask 1, .addTask 2, .yield]).sched.current = 1 := by
  obtain ⟨lanes, hholds, hnready, -, -, -⟩ := lanes_run [.addTask 1, .addTask 2, .yield] (by decide)
  exact ⟨lanes, hholds, hnready, by decide⟩

/-- **Adding the running task links it.** The idle task runs and is not linked; `sched_add_task`
puts it into lane 0 while it goes on running. -/
theorem running_task_linked :
    init.sched.weaveLinked 0 = false ∧
      (run step init [.addTask 0]).sched.current = 0 ∧
      (run step init [.addTask 0]).sched.LinkedIn 0 0 :=
  ⟨by decide, by decide, by decide, [.task 0], ⟨by decide, by decide⟩, by decide⟩

end Trace

end SubOS.Kernel
