import SubOS.Kernel.Dispatch

set_option autoImplicit false

/-!
# Ready tasks are linked

The invariant of the scheduler on its own. Every operation keeps it; this is where `weave_rotate`
puts the running task back.

## Main definitions

* `ReadyLinked` — a READY task that takes part in the rotation is running or in one lane.
* `Runnable` — the invariant.

## Main results

* `Runnable.weaveRotate`, `Runnable.taskCreate` — operations keep it.
-/

open LinkedList

namespace SubOS.Kernel.Sched

/-- Every READY task that takes part in the rotation is the running one, or linked in exactly one
lane. -/
def ReadyLinked (s : Sched) : Prop :=
  ∀ t, (s.tasks t).weaveOn = true → (s.tasks t).state = .ready →
    t = s.current ∨ ∃! l, s.LinkedIn l t

/-- The lanes hold tasks that exist, other than the running one. -/
structure Settled (s : Sched) (lanes : Lanes) : Prop extends s.Linked lanes where
  created : ∀ t, lanes.Has t → t < s.nextPid
  current_lt : s.current < s.nextPid

/-- The invariant: the lanes hold READY tasks other than the running one, and every READY task of
the rotation is among them or running. -/
structure Runnable (s : Sched) (lanes : Lanes) : Prop extends s.Settled lanes where
  ready : ∀ t, lanes.Has t → (s.tasks t).state = .ready
  runnable : ∀ t, (s.tasks t).weaveOn = true → (s.tasks t).state = .ready →
    t = s.current ∨ lanes.Has t

lemma Holds.existsUnique_linkedIn {s : Sched} {lanes : Lanes} (h : s.Holds lanes) {t : TaskId}
    (ht : lanes.Has t) : ∃! l, s.LinkedIn l t := by
  obtain ⟨l, hl, hmem⟩ := ht
  refine ⟨l, ⟨hl, lanes.nodes l, h.ring l hl, mem_nodes.2 hmem⟩, ?_⟩
  rintro l' ⟨hl', nodes, hring, hmem'⟩
  obtain rfl := hring.unique (h.ring l' hl')
  exact h.disjoint l' hl' l hl t (mem_nodes.1 hmem') hmem

/-- **The invariant implies the property.** -/
theorem Runnable.readyLinked {s : Sched} {lanes : Lanes} (h : s.Runnable lanes) :
    s.ReadyLinked := by
  intro t hon hready
  rcases h.runnable t hon hready with rfl | hhas
  · exact .inl rfl
  · exact .inr (h.holds.existsUnique_linkedIn hhas)

/-! ## Changes of the fields -/

section

variable {s s' : Sched} {lanes lanes' : Lanes} {next : TaskId}

/-- Only the tasks' lane numbers, the links, the counters and the running task matter. -/
lemma Settled.congr (h : s.Settled lanes) (hlane : ∀ t, (s'.tasks t).weaveLane < weaveNlanes)
    (hlinks : s'.links = s.links) (hnready : s'.nready = s.nready) (hcur : s'.current = s.current)
    (hpid : s'.nextPid = s.nextPid) : s'.Settled lanes :=
  ⟨h.toLinked.congr hlinks hnready hcur hlane,
    hpid ▸ h.created, by rw [hcur, hpid]; exact h.current_lt⟩

lemma Runnable.congr (h : s.Runnable lanes) (htasks : s'.tasks = s.tasks)
    (hlinks : s'.links = s.links) (hnready : s'.nready = s.nready) (hcur : s'.current = s.current)
    (hpid : s'.nextPid = s.nextPid) : s'.Runnable lanes :=
  ⟨h.toSettled.congr (htasks ▸ h.lane_lt) hlinks hnready hcur hpid, htasks ▸ h.ready,
    by rw [htasks, hcur]; exact h.runnable⟩

lemma Settled.setTask (h : s.Settled lanes) (t : TaskId) {f : Task → Task}
    (hf : ∀ k, (f k).weaveLane = k.weaveLane) : (s.setTask t f).Settled lanes :=
  ⟨h.toLinked.setTask t fun k hk => (hf k).symm ▸ hk, h.created, h.current_lt⟩

lemma Runnable.setCurrent (h : s.Runnable lanes) {f : Task → Task}
    (hf : ∀ k, (f k).weaveLane = k.weaveLane) : (s.setTask s.current f).Runnable lanes where
  toSettled := h.toSettled.setTask _ hf
  ready := by
    intro t ht
    have hne : t ≠ s.current := fun e => h.current (e ▸ ht)
    rw [setTask_of_ne _ _ _ hne]
    exact h.ready t ht
  runnable := by
    intro t hon hready
    rcases eq_or_ne t s.current with rfl | hne
    · exact .inl rfl
    · rw [setTask_of_ne _ _ _ hne] at hon hready
      exact h.runnable t hon hready

/-- A task that may be marked READY where it is: it runs, does not take part in the rotation, or is
READY already. -/
def Awake (s : Sched) (t : TaskId) : Prop :=
  t = s.current ∨ (s.tasks t).weaveOn = false ∨ (s.tasks t).state = .ready
  deriving Decidable

lemma Runnable.setReady (h : s.Runnable lanes) (htasks : ∀ t, s'.tasks t = s.tasks t ∨
      s.Awake t ∧ s'.tasks t = { s.tasks t with state := .ready })
    (hlinks : s'.links = s.links) (hnready : s'.nready = s.nready) (hcur : s'.current = s.current)
    (hpid : s'.nextPid = s.nextPid) : s'.Runnable lanes where
  toSettled := by
    refine h.toSettled.congr (fun t => ?_) hlinks hnready hcur hpid
    rcases htasks t with heq | ⟨-, heq⟩ <;> rw [heq] <;> exact h.lane_lt t
  ready := by
    intro t ht
    rcases htasks t with heq | ⟨-, heq⟩ <;> rw [heq]
    exact h.ready t ht
  runnable := by
    intro t hon hready
    rw [hcur]
    rcases htasks t with heq | ⟨hawake, heq⟩ <;> rw [heq] at hon hready
    · exact h.runnable t hon hready
    · rcases hawake with rfl | hoff | hready'
      · exact .inl rfl
      · exact absurd (hoff.symm.trans hon) Bool.false_ne_true
      · exact h.runnable t hon hready'

/-! ## Switches -/

lemma Settled.switch (h : s.Settled lanes) {back : Bool}
    (hsw : Switched s s' lanes lanes' next back) : s'.Settled lanes' where
  toLinked := hsw.linked
  created := by
    intro u hu
    rw [hsw.nextPid]
    rcases (hsw.has u).1 hu with ⟨hu', -⟩ | ⟨-, rfl⟩
    · exact h.created u hu'
    · exact h.current_lt
  current_lt := by
    obtain ⟨l, hfirst⟩ := hsw.first
    rw [hsw.current, hsw.nextPid]
    exact h.created next hfirst.has

/-- A switch keeps the invariant if a running task that takes part, and is READY, is put back. -/
lemma Runnable.switch (h : s.Runnable lanes) {back : Bool}
    (hsw : Switched s s' lanes lanes' next back)
    (hback : (s.tasks s.current).weaveOn = true → (s.tasks s.current).state = .ready →
      back = true) : s'.Runnable lanes' where
  toSettled := h.toSettled.switch hsw
  ready := by
    intro u hu
    rcases (hsw.has u).1 hu with ⟨hu', hne⟩ | ⟨hb, rfl⟩
    · rw [hsw.others u hne fun e => h.current (e ▸ hu')]
      exact h.ready u hu'
    · exact hsw.ready hb
  runnable := by
    intro u hon hready
    rw [hsw.current]
    rcases eq_or_ne u next with rfl | hne
    · exact .inl rfl
    · refine .inr ((hsw.has u).2 ?_)
      rcases eq_or_ne u s.current with rfl | hcur
      · right
        refine ⟨?_, rfl⟩
        by_contra hb
        rw [hsw.kept (by simpa using hb)] at hon hready
        exact hb (hback hon hready)
      · rw [hsw.others u hne hcur] at hon hready
        exact .inl ⟨(h.runnable u hon hready).resolve_left hcur, hne⟩

/-- **A rotation keeps the invariant**: a READY task that takes part is put back. -/
theorem Runnable.weaveRotate (h : s.Runnable lanes) (voluntary : Bool) :
    ∃ lanes', (s.weaveRotate voluntary).Runnable lanes' := by
  rcases h.toLinked.weaveRotate voluntary with heq | ⟨next, lanes', hsw⟩
  · exact ⟨lanes, heq.symm ▸ h⟩
  · refine ⟨lanes', h.switch hsw fun hon hready => ?_⟩
    simp [participates, hon, hready]

lemma Settled.weaveRotate (h : s.Settled lanes) (voluntary : Bool) :
    ∃ lanes', (s.weaveRotate voluntary).Settled lanes' := by
  rcases h.toLinked.weaveRotate voluntary with heq | ⟨next, lanes', hsw⟩
  · exact ⟨lanes, heq.symm ▸ h⟩
  · exact ⟨lanes', h.switch hsw⟩

/-- The running task, which has left the rotation, leaves for good. -/
theorem Runnable.schedExitCurrent (h : s.Runnable lanes)
    (hoff : (s.tasks s.current).weaveOn = false) :
    ∃ lanes', s.schedExitCurrent.Runnable lanes' := by
  rcases h.toLinked.schedExitCurrent with heq | ⟨next, lanes', hsw⟩
  · exact ⟨lanes, heq.symm ▸ h⟩
  · exact ⟨lanes', h.switch hsw fun hon => absurd (hoff.symm.trans hon) Bool.false_ne_true⟩

lemma Settled.schedExitCurrent (h : s.Settled lanes) :
    ∃ lanes', s.schedExitCurrent.Settled lanes' := by
  rcases h.toLinked.schedExitCurrent with heq | ⟨next, lanes', hsw⟩
  · exact ⟨lanes, heq.symm ▸ h⟩
  · exact ⟨lanes', h.switch hsw⟩

/-! ## New tasks -/

/-- A new task whose fields are cleared, before it is added. -/
def allotted (s : Sched) : Sched :=
  { { s with nextPid := s.nextPid + 1 }.setTask s.nextPid fun _ => Task.zero with
    links := s.links.init (.task s.nextPid) }

lemma taskCreate_cases (s : Sched) (taskOk stackOk : Bool) :
    s.taskCreate taskOk stackOk = s ∨
      s.taskCreate taskOk stackOk = { s with nextPid := s.nextPid + 1 } ∨
      s.taskCreate taskOk stackOk = s.allotted.schedAddTask s.nextPid := by
  cases taskOk with
  | false => exact .inl rfl
  | true =>
    cases stackOk with
    | false => exact .inr (.inl rfl)
    | true => exact .inr (.inr rfl)

section

variable (h : s.Settled lanes)
include h

lemma Settled.new_notMem : ¬ lanes.Has s.nextPid :=
  fun hc => absurd (h.created _ hc) (lt_irrefl _)

lemma Settled.succ : Settled { s with nextPid := s.nextPid + 1 } lanes :=
  ⟨h.toLinked.congr rfl rfl rfl h.lane_lt, fun t ht => (h.created t ht).trans (Nat.lt_succ_self _),
    h.current_lt.trans (Nat.lt_succ_self _)⟩

attribute [local simp] Sched.setTask

lemma Settled.allotted : s.allotted.Settled lanes where
  holds := ⟨fun l hl => (h.holds.ring l hl).init_other (task_notMem h.new_notMem hl),
    h.holds.disjoint⟩
  nready := h.nready
  detached := by
    intro t ht
    rcases eq_or_ne t s.nextPid with rfl | hne
    · right
      simp [Sched.allotted, Links.init, Links.setNext, Links.setPrev]
    · simpa [Sched.allotted, Links.init, Links.setNext, Links.setPrev, hne] using h.detached t ht
  lane_lt := by
    intro t
    rcases eq_or_ne t s.nextPid with rfl | hne
    · simp [Sched.allotted, Task.zero, weaveNlanes]
    · simpa [Sched.allotted, hne] using h.lane_lt t
  current := h.current
  created := h.succ.created
  current_lt := h.succ.current_lt

lemma Settled.schedAddTask {t : TaskId} (hnew : ¬ lanes.Has t)
    (hcur : t ≠ s.current) (hlt : t < s.nextPid) : (s.schedAddTask t).Settled (lanes.push 0 t) where
  toLinked := h.toLinked.schedAddTask hnew hcur
  created := by
    intro u hu
    rw [Sched.schedAddTask, weaveEnqueue_nextPid, setTask_nextPid]
    rcases (Holds.has_push (by decide) t u).1 hu with hu | rfl
    · exact h.created u hu
    · exact hlt
  current_lt := by
    rw [Sched.schedAddTask, weaveEnqueue_nextPid, weaveEnqueue_current]
    exact h.current_lt

end

lemma Runnable.schedAddTask (h : s.Runnable lanes) {t : TaskId} (hnew : ¬ lanes.Has t)
    (hcur : t ≠ s.current) (hlt : t < s.nextPid) :
    (s.schedAddTask t).Runnable (lanes.push 0 t) where
  toSettled := h.toSettled.schedAddTask hnew hcur hlt
  ready := by
    intro u hu
    rcases eq_or_ne u t with rfl | hne
    · simp [Sched.schedAddTask]
    · simpa [Sched.schedAddTask, hne] using
        h.ready u (((Holds.has_push (by decide) t u).1 hu).resolve_right hne)
  runnable := by
    intro u hon hready
    rw [Holds.has_push (by decide)]
    rcases eq_or_ne u t with rfl | hne
    · exact .inr (.inr rfl)
    · simp only [Sched.schedAddTask, weaveEnqueue_weaveOn, weaveEnqueue_state,
        setTask_of_ne s t _ hne] at hon hready
      rcases h.runnable u hon hready with rfl | hu
      · exact .inl (by simp [Sched.schedAddTask])
      · exact .inr (.inl hu)

lemma Settled.taskCreate (h : s.Settled lanes) (taskOk stackOk : Bool) :
    ∃ lanes', (s.taskCreate taskOk stackOk).Settled lanes' := by
  rcases s.taskCreate_cases taskOk stackOk with heq | heq | heq <;> rw [heq]
  · exact ⟨lanes, h⟩
  · exact ⟨lanes, h.succ⟩
  · exact ⟨_, h.allotted.schedAddTask h.new_notMem (ne_of_gt h.current_lt)
      (Nat.lt_succ_self s.nextPid)⟩

/-- **A new task is linked at once.** -/
theorem Runnable.taskCreate (h : s.Runnable lanes) (taskOk stackOk : Bool) :
    ∃ lanes', (s.taskCreate taskOk stackOk).Runnable lanes' := by
  rcases s.taskCreate_cases taskOk stackOk with heq | heq | heq <;> rw [heq]
  · exact ⟨lanes, h⟩
  · exact ⟨lanes, h.toSettled.succ, h.ready, h.runnable⟩
  · -- the fields of the new task are cleared before it is added
    have hallot : s.allotted.Runnable lanes := by
      refine ⟨h.toSettled.allotted, fun t ht => ?_, fun t hon hready => ?_⟩
      · have hne : t ≠ s.nextPid := fun e => h.new_notMem (e ▸ ht)
        simpa [Sched.allotted, hne] using h.ready t ht
      · rcases eq_or_ne t s.nextPid with rfl | hne
        · simp [Sched.allotted, Task.zero] at hon
        · simp only [Sched.allotted, Sched.setTask, Function.update_of_ne hne] at hon hready
          exact h.runnable t hon hready
    exact ⟨_, hallot.schedAddTask h.new_notMem (ne_of_gt h.current_lt) (Nat.lt_succ_self s.nextPid)⟩

end

lemma runnable_schedInit : schedInit.Runnable fun _ => [] where
  toLinked := linked_schedInit
  created := fun t ht => absurd ht Lanes.has_nil
  current_lt := Nat.zero_lt_one
  ready := fun t ht => absurd ht Lanes.has_nil
  runnable := by
    intro t hon _
    rcases eq_or_ne t 0 with rfl | hne
    · exact .inl rfl
    · simp [schedInit, hne, Task.zero] at hon

end SubOS.Kernel.Sched
