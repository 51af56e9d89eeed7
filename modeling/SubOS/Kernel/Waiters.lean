import Mathlib.Data.Fintype.Card
import SubOS.Kernel.Wait

set_option autoImplicit false

/-!
# The contexts of the tasks

Each wait entry in use belongs to the one task that waits with it, and the list of a wait queue
consists of the entries of the tasks that stand between linking their entry and unlinking it. From
this follows which entries `wake_up_nr` flips.

## Main definitions

* `Owned`, `Queued` — whose the entries are, and which the queues hold.
* `Placed` — where the tasks outside the rotation stand.
* `Sys.Woken` — the entries of a list are flipped and their tasks READY.

## Main results

* `Queued.link`, `Queued.unlink` — a task enters a queue and leaves it.
* `Sys.wakeUp_spec`, `Sys.wakeUpAll_spec` — which sleepers are flipped.
-/

namespace SubOS.Kernel

open LinkedList Pc WaitNode List Waits

open Function (update update_self update_of_ne)

variable {ctx ctx' : TaskId → Ctx} {w w' : Waits} {t : TaskId} {i : EntryId} {q : QueueId}

/-! ## Entries and their owners -/

/-- The queue and the entry of a task whose entry is linked. -/
def Pc.linked : Pc → Option (QueueId × EntryId)
  | .block c i | .deadline c i _ | .check c i _ | .expire c i _ | .yield c i _ | .unlink c i _ =>
    some (c.queue, i)
  | .user | .fill _ _ | .link _ _ | .ready _ _ _ | .free _ _ _ | .exitDead | .exitLeave
  | .exitSwitch | .halted => none

namespace Pc

variable {pc : Pc}

lemma entry_of_filled (h : pc.filled = some i) : pc.entry = some i := by
  cases pc <;> first | exact h | cases h

lemma filled_of_linked (h : pc.linked = some (q, i)) :
    pc.filled = some i := by
  cases pc <;> simp_all [linked, filled, entry]

lemma entry_of_linked (h : pc.linked = some (q, i)) :
    pc.entry = some i :=
  entry_of_filled (filled_of_linked h)

end Pc

/-- Different tasks hold different entries, these are in use, and an entry that has been filled
names the task that holds it. -/
structure Owned (ctx : TaskId → Ctx) (w : Waits) : Prop where
  used : ∀ t i, (ctx t).pc.entry = some i → w.used i = true
  inj : ∀ t u i, (ctx t).pc.entry = some i → (ctx u).pc.entry = some i → t = u
  task : ∀ t i, (ctx t).pc.filled = some i → (w.pool i).task = some t

namespace Owned

variable {c : Ctx} (h : Owned ctx w)
include h

lemma congr (hpc : ∀ t, (ctx' t).pc = (ctx t).pc) (hused : w'.used = w.used)
    (htask : ∀ i, (w'.pool i).task = (w.pool i).task) : Owned ctx' w' where
  used := by
    intro t i hi
    rw [hpc] at hi
    rw [hused]
    exact h.used t i hi
  inj := by
    intro t u i hi hi'
    rw [hpc] at hi hi'
    exact h.inj t u i hi hi'
  task := by
    intro t i hi
    rw [hpc] at hi
    rw [htask]
    exact h.task t i hi

/-- The task `t` gets a new context, and the entries change: those of the other tasks have to stay
in use and keep their task, and the one of `t` has to be its own. -/
lemma set
    (hentry : ∀ i, c.pc.entry = some i → w'.used i = true ∧ ∀ u ≠ t, (ctx u).pc.entry ≠ some i)
    (hfilled : ∀ i, c.pc.filled = some i → (w'.pool i).task = some t)
    (hused : ∀ u ≠ t, ∀ i, (ctx u).pc.entry = some i → w'.used i = true)
    (htask : ∀ u ≠ t, ∀ i, (ctx u).pc.filled = some i → (w'.pool i).task = some u) :
    Owned (update ctx t c) w' where
  used := by
    intro u i hi
    rcases eq_or_ne u t with rfl | hne
    · rw [update_self] at hi
      exact (hentry i hi).1
    · rw [update_of_ne hne] at hi
      exact hused u hne i hi
  inj := by
    intro u v i hu hv
    rcases eq_or_ne u t with rfl | hne <;> rcases eq_or_ne v u with rfl | hvu
    · rfl
    · rw [update_self] at hu
      rw [update_of_ne hvu] at hv
      exact absurd hv ((hentry i hu).2 v hvu)
    · rfl
    · rw [update_of_ne hne] at hu
      rcases eq_or_ne v t with rfl | hvt
      · rw [update_self] at hv
        exact absurd hu ((hentry i hv).2 u hne)
      · rw [update_of_ne hvt] at hv
        exact h.inj u v i hu hv
  task := by
    intro u i hi
    rcases eq_or_ne u t with rfl | hne
    · rw [update_self] at hi
      exact hfilled i hi
    · rw [update_of_ne hne] at hi
      exact htask u hne i hi

lemma advance (hentry : c.pc.entry = (ctx t).pc.entry)
    (hfilled : c.pc.filled = (ctx t).pc.filled) : Owned (update ctx t c) w := by
  refine h.set (fun i hi => ⟨h.used t i (hentry ▸ hi), fun u hu hi' => ?_⟩)
    (fun i hi => h.task t i (hfilled ▸ hi)) (fun u _ => h.used u) fun u _ => h.task u
  exact hu (h.inj u t i hi' (hentry ▸ hi))

lemma drop (hentry : c.pc.entry = none) : Owned (update ctx t c) w := by
  refine h.set (fun i hi => ?_) (fun i hi => ?_) (fun u _ => h.used u) fun u _ => h.task u
  · cases hentry.symm.trans hi
  · rw [Pc.entry_of_filled hi] at hentry
    cases hentry

lemma alloc (hfree : w.used i = false) (hentry : c.pc.entry = some i)
    (hfilled : c.pc.filled = none) : Owned (update ctx t c) (w.entryAlloc i) := by
  have hother : ∀ u j, (ctx u).pc.entry = some j → j ≠ i := by
    rintro u j hj rfl
    rw [h.used u j hj] at hfree
    cases hfree
  refine h.set (fun j hj => ?_) (fun j hj => ?_) (fun u _ j hj => ?_) fun u _ => h.task u
  · obtain rfl : i = j := Option.some.inj (hentry.symm.trans hj)
    exact ⟨by simp [Waits.entryAlloc], fun u _ hu => hother u i hu rfl⟩
  · cases hfilled.symm.trans hj
  · simpa [Waits.entryAlloc, hother u j hj] using h.used u j hj

lemma fill (hold : (ctx t).pc.entry = some i) (hentry : c.pc.entry = some i) :
    Owned (update ctx t c) (w.fill i t) := by
  refine h.set (fun j hj => ⟨?_, fun u hu hj' => ?_⟩) (fun j hj => ?_) (fun u _ => h.used u)
    fun u hu j hj => ?_
  · obtain rfl : i = j := Option.some.inj (hentry.symm.trans hj)
    exact h.used t i hold
  · obtain rfl : i = j := Option.some.inj (hentry.symm.trans hj)
    exact hu (h.inj u t i hj' hold)
  · obtain rfl : i = j := Option.some.inj (hentry.symm.trans (Pc.entry_of_filled hj))
    simp [Waits.fill, Waits.setEntry]
  · have hne : j ≠ i := by
      rintro rfl
      exact hu (h.inj u t j (Pc.entry_of_filled hj) hold)
    simpa [Waits.fill, Waits.setEntry, hne] using h.task u j hj

lemma free (hold : (ctx t).pc.entry = some i) (hentry : c.pc.entry = none) :
    Owned (update ctx t c) (w.entryFree i) := by
  refine h.set (fun j hj => ?_) (fun j hj => ?_) (fun u hu j hj => ?_) fun u _ => h.task u
  · cases hentry.symm.trans hj
  · rw [Pc.entry_of_filled hj] at hentry
    cases hentry
  · have hne : j ≠ i := by
      rintro rfl
      exact hu (h.inj u t j hj hold)
    simpa [Waits.entryFree, hne] using h.used u j hj

end Owned

/-! ## Who takes part in the rotation -/

namespace Sched

/-- No task has joined or left the rotation, and none was created. -/
structure SameRotation (s s' : Sched) : Prop where
  weaveOn : ∀ t, (s'.tasks t).weaveOn = (s.tasks t).weaveOn
  nextPid : s'.nextPid = s.nextPid

namespace SameRotation

lemma refl (s : Sched) : s.SameRotation s := ⟨fun _ => rfl, rfl⟩

lemma trans {s₁ s₂ s₃ : Sched} (h : s₁.SameRotation s₂) (h' : s₂.SameRotation s₃) :
    s₁.SameRotation s₃ :=
  ⟨fun t => (h'.weaveOn t).trans (h.weaveOn t), h'.nextPid.trans h.nextPid⟩

section

variable (s : Sched)
include s

lemma setTask (t : TaskId) {f : Task → Task} (hf : ∀ k, (f k).weaveOn = k.weaveOn) :
    s.SameRotation (s.setTask t f) := by
  refine ⟨fun u => ?_, rfl⟩
  rcases eq_or_ne u t with rfl | hne
  · rw [setTask_self, hf]
  · rw [setTask_of_ne _ _ _ hne]

lemma weaveEnqueue (t : TaskId) : s.SameRotation (s.weaveEnqueue t) :=
  ⟨weaveEnqueue_weaveOn s t, weaveEnqueue_nextPid s t⟩

lemma requeue (voluntary : Bool) : s.SameRotation (s.requeue voluntary) := by
  unfold Sched.requeue
  split
  · refine trans ?_ (weaveEnqueue _ _)
    exact setTask _ _ fun _ => rfl
  · exact refl s

lemma weaveSwitchTo (next : TaskId) : s.SameRotation (s.weaveSwitchTo next) := by
  unfold Sched.weaveSwitchTo
  split
  · exact refl s
  · have hset := setTask s next (f := fun k => { k with state := .running
                                                        schedRuns := k.schedRuns + 1 }) fun _ => rfl
    exact ⟨hset.weaveOn, hset.nextPid⟩

lemma weaveRotate (voluntary : Bool) : s.SameRotation (s.weaveRotate voluntary) := by
  unfold Sched.weaveRotate
  split
  · exact refl s
  · next next _ =>
    have hunlink : s.SameRotation (s.unlink next) := ⟨fun _ => rfl, rfl⟩
    refine trans (trans (hunlink.trans (requeue _ voluntary)) ?_) (weaveSwitchTo _ next)
    exact setTask _ _ fun _ => rfl

lemma schedExitCurrent : s.SameRotation s.schedExitCurrent := by
  unfold Sched.schedExitCurrent
  split
  · exact refl s
  · next next _ =>
    have hset := setTask (s.unlink next) next
      (f := fun k => { k with state := .running, schedRuns := k.schedRuns + 1
                              weaveCredit := weaveQuantum k.weaveLane }) fun _ => rfl
    exact ⟨hset.weaveOn, hset.nextPid⟩

lemma schedTick : s.SameRotation s.schedTick := by
  unfold Sched.schedTick
  split
  · exact refl s
  · have hset := setTask s s.current
      (f := fun k => { k with weaveCredit := k.weaveCredit - 1 }) fun _ => rfl
    dsimp only
    split
    · exact ⟨hset.weaveOn, hset.nextPid⟩
    · exact hset

lemma schedPreemptOnReturn : s.SameRotation s.schedPreemptOnReturn := by
  unfold Sched.schedPreemptOnReturn
  split_ifs
  · exact refl s
  · exact refl s
  · exact refl s
  · have hrot := weaveRotate { s with needResched := false } false
    exact ⟨hrot.weaveOn, hrot.nextPid⟩

lemma preemptTail (before : ℕ) : s.SameRotation (s.preemptTail before) := by
  unfold Sched.preemptTail
  split
  · exact ⟨fun _ => rfl, rfl⟩
  · exact refl s

end

end SameRotation

end Sched

/-- A task that is about to switch away for good is outside the rotation, and the tasks that do not
exist yet are in no call. -/
structure Placed (ctx : TaskId → Ctx) (s : Sched) : Prop where
  exit : ∀ t, (ctx t).pc = .exitSwitch → (s.tasks t).weaveOn = false
  fresh : ∀ t, s.nextPid ≤ t → (ctx t).pc = .user

namespace Placed

variable {s s' : Sched} {c : Ctx}

lemma congr (h : Placed ctx s) (hpc : ∀ t, (ctx' t).pc = (ctx t).pc) (hs : s.SameRotation s') :
    Placed ctx' s' where
  exit := by
    intro t ht
    rw [hpc] at ht
    rw [hs.weaveOn]
    exact h.exit t ht
  fresh := by
    intro t ht
    rw [hs.nextPid] at ht
    rw [hpc]
    exact h.fresh t ht

/-- A task that exists goes on to another statement, and may join or leave the rotation. -/
lemma set (h : Placed ctx s) (hlt : t < s.nextPid)
    (hother : ∀ u ≠ t, (s'.tasks u).weaveOn = (s.tasks u).weaveOn) (hpid : s'.nextPid = s.nextPid)
    (hexit : c.pc = .exitSwitch → (s'.tasks t).weaveOn = false) : Placed (update ctx t c) s' where
  exit := by
    intro u hu
    rcases eq_or_ne u t with rfl | hne
    · rw [update_self] at hu
      exact hexit hu
    · rw [update_of_ne hne] at hu
      rw [hother u hne]
      exact h.exit u hu
  fresh := by
    intro u hu
    rw [hpid] at hu
    have hne : u ≠ t := fun e => absurd hlt (not_lt.2 (e ▸ hu))
    rw [update_of_ne hne]
    exact h.fresh u hu

lemma taskCreate (h : Placed ctx s) (taskOk stackOk : Bool) :
    Placed ctx (s.taskCreate taskOk stackOk) := by
  unfold Sched.taskCreate
  split
  · exact h
  split
  · exact ⟨h.exit, fun t ht => h.fresh t (Nat.le_of_succ_le ht)⟩
  · refine ⟨fun t ht => ?_, fun t ht => ?_⟩
    · have hne : t ≠ s.nextPid := by
        rintro rfl
        rw [h.fresh _ le_rfl] at ht
        cases ht
      simpa [Sched.schedAddTask, Sched.setTask, hne] using h.exit t ht
    · rw [Sched.schedAddTask, Sched.weaveEnqueue_nextPid] at ht
      exact h.fresh t (Nat.le_of_succ_le ht)

end Placed

/-! ## The lists of the queues -/

/-- The list of each queue holds the entries `members`, these are the entries of the tasks that
stand between linking and unlinking, and `nr_waiting` counts them. -/
structure Queued (ctx : TaskId → Ctx) (w : Waits) (members : QueueId → List EntryId) : Prop where
  ring : ∀ q, w.links.Ring (.queue q) ((members q).map .entry)
  mem : ∀ q i, i ∈ members q ↔ ∃ t, (ctx t).pc.linked = some (q, i)
  nrWaiting : ∀ q, (w.queues q).nrWaiting = (members q).length

namespace Queued

variable {members : QueueId → List EntryId} {k : Ctx} {c : WaitCall} {r : ℤ}

lemma congr (h : Queued ctx w members) (hpc : ∀ t, (ctx' t).pc.linked = (ctx t).pc.linked)
    (hlinks : w'.links = w.links) (hnr : ∀ q, (w'.queues q).nrWaiting = (w.queues q).nrWaiting) :
    Queued ctx' w' members where
  ring := hlinks ▸ h.ring
  mem := by
    intro q i
    simp only [hpc]
    exact h.mem q i
  nrWaiting := fun q => (hnr q).trans (h.nrWaiting q)

lemma advance (h : Queued ctx w members) (hk : k.pc.linked = (ctx t).pc.linked) :
    Queued (update ctx t k) w members := by
  refine h.congr (fun u => ?_) rfl fun _ => rfl
  rcases eq_or_ne u t with rfl | hne
  · rw [update_self, hk]
  · rw [update_of_ne hne]

lemma notMem (h : Queued ctx w members) (hown : Owned ctx w) (hentry : (ctx t).pc.entry = some i)
    (hlinked : (ctx t).pc.linked = none) (q : QueueId) : i ∉ members q := by
  intro hmem
  obtain ⟨u, hu⟩ := (h.mem q i).1 hmem
  obtain rfl := hown.inj u t i (entry_of_linked hu) hentry
  cases hlinked.symm.trans hu

lemma entry_notMem (hno : ∀ q, i ∉ members q) (q : QueueId) :
    entry i ∉ queue q :: (members q).map .entry := by
  simp [hno q]

section

variable (h : Queued ctx w members)
include h

lemma nodup (q : QueueId) : (members q).Nodup :=
  (nodup_cons.1 (h.ring q).nodup).2.of_map

lemma nodes_disjoint (hown : Owned ctx w) {q q' : QueueId} (hne : q' ≠ q) :
    ∀ a ∈ queue q' :: (members q').map .entry,
      a ∉ queue q :: (members q).map .entry := by
  intro a ha ha'
  cases a with
  | queue p =>
    have h1 : p = q' := by simpa using ha
    have h2 : p = q := by simpa using ha'
    exact hne (h1.symm.trans h2)
  | entry j =>
    obtain ⟨t, ht⟩ := (h.mem q' j).1 (by simpa using ha)
    obtain ⟨u, hu⟩ := (h.mem q j).1 (by simpa using ha')
    obtain rfl := hown.inj t u j (entry_of_linked ht) (entry_of_linked hu)
    exact hne (congrArg Prod.fst (Option.some.inj (ht.symm.trans hu)))

lemma fill (hown : Owned ctx w) (hentry : (ctx t).pc.entry = some i)
    (hlinked : (ctx t).pc.linked = none) (hk : k.pc.linked = none) :
    Queued (update ctx t k) (w.fill i t) members := by
  have hno := h.notMem hown hentry hlinked
  have hfill : Queued ctx (w.fill i t) members := by
    refine ⟨fun q => ?_, h.mem, h.nrWaiting⟩
    have hne : ∀ a ∈ queue q :: (members q).map .entry, a ≠ .entry i :=
      fun a ha e => entry_notMem hno q (e ▸ ha)
    exact (h.ring q).congr (fun a ha => update_of_ne (hne a ha) _ _)
      fun a ha => update_of_ne (hne a ha) _ _
  exact hfill.advance (hk.trans hlinked.symm)

/-- The members of the queues after a task has moved: `i` is on `q` if the task is, and all others
stay. -/
lemma mem_update {members' : QueueId → List EntryId} (hmem : ∀ q j, j ∈ members' q ↔
      k.pc.linked = some (q, j) ∨ j ∈ members q ∧ (ctx t).pc.linked ≠ some (q, j))
    (hown : Owned ctx w) (q : QueueId) (j : EntryId) :
    j ∈ members' q ↔ ∃ u, (update ctx t k u).pc.linked = some (q, j) := by
  rw [hmem, h.mem]
  constructor
  · rintro (hk | ⟨⟨u, hu⟩, hne⟩)
    · exact ⟨t, by rwa [update_self]⟩
    · have hut : u ≠ t := fun e => hne (e ▸ hu)
      exact ⟨u, by rwa [update_of_ne hut]⟩
  · rintro ⟨u, hu⟩
    rcases eq_or_ne u t with rfl | hut
    · rw [update_self] at hu
      exact .inl hu
    · rw [update_of_ne hut] at hu
      refine .inr ⟨⟨u, hu⟩, fun ht => hut ?_⟩
      exact hown.inj u t j (entry_of_linked hu) (entry_of_linked ht)

/-- **A task enters a queue.** -/
theorem link (hown : Owned ctx w) (hpc : (ctx t).pc = .link c i) (hk : k.pc = .block c i) :
    Queued (update ctx t k) (w.link c.queue i)
      (update members c.queue (members c.queue ++ [i])) where
  ring := by
    have hno := h.notMem hown (by rw [hpc]; rfl) (by rw [hpc]; rfl)
    intro q
    rcases eq_or_ne q c.queue with rfl | hne
    · rw [update_self, map_append]
      exact (h.ring _).addTail (entry_notMem hno _)
    · rw [update_of_ne hne]
      exact (h.ring q).addTail_other (h.ring _) (entry_notMem hno q) (h.nodes_disjoint hown hne)
  mem := by
    refine h.mem_update (fun q j => ?_) hown
    have hlinked : k.pc.linked = some (c.queue, i) := by rw [hk]; rfl
    have hold : (ctx t).pc.linked = none := by rw [hpc]; rfl
    rw [hlinked, hold]
    rcases eq_or_ne q c.queue with rfl | hne
    · simp [or_comm, eq_comm]
    · simp [hne, hne.symm]
  nrWaiting := by
    intro q
    rcases eq_or_ne q c.queue with rfl | hne
    · simp [Waits.link, setQueue, h.nrWaiting]
    · simp [Waits.link, setQueue, hne, h.nrWaiting]

/-- **A task leaves a queue.** -/
theorem unlink (hown : Owned ctx w) (hpc : (ctx t).pc = .unlink c i r) (hk : k.pc.linked = none) :
    Queued (update ctx t k) (w.unlink c.queue i)
      (update members c.queue ((members c.queue).erase i)) := by
  have hold : (ctx t).pc.linked = some (c.queue, i) := by rw [hpc]; rfl
  have hmem : i ∈ members c.queue := (h.mem _ _).2 ⟨t, hold⟩
  obtain ⟨xs, ys, -, hsplit, herase⟩ := exists_erase_eq hmem
  have hring : w.links.Ring (.queue c.queue) (xs.map .entry ++ .entry i :: ys.map .entry) := by
    have := h.ring c.queue
    rwa [hsplit, map_append, map_cons] at this
  -- the entry is linked, so it is taken out
  obtain ⟨x, hnext, -⟩ := hring.next_of_mem
  have hunlink : w.unlink c.queue i =
      { w.setQueue c.queue fun k => { k with nrWaiting := k.nrWaiting - 1 } with
        links := w.links.del (.entry i) } := by
    simp [Waits.unlink, hnext]
  rw [hunlink]
  refine ⟨fun q => ?_, h.mem_update (fun q j => ?_) hown, fun q => ?_⟩
  · rcases eq_or_ne q c.queue with rfl | hne
    · rw [update_self, herase, map_append]
      exact hring.del
    · rw [update_of_ne hne]
      refine (h.ring q).del_other hring ?_
      have hdisj := h.nodes_disjoint hown hne
      rwa [hsplit, map_append, map_cons] at hdisj
  · rw [hk, hold]
    rcases eq_or_ne q c.queue with rfl | hne
    · simp [(h.nodup _).mem_erase_iff, and_comm, eq_comm]
    · simp [hne, hne.symm]
  · rcases eq_or_ne q c.queue with rfl | hne
    · simp [setQueue, h.nrWaiting, length_erase_of_mem hmem]
    · simp [setQueue, hne, h.nrWaiting]

/-- **The loop over a queue visits its entries.** There are not more of them than the pool has. -/
theorem waiters_eq (q : QueueId) : w.waiters q = members q := by
  have hlen : ((members q).map WaitNode.entry).length ≤ waitMaxSleepers := by
    simpa using (h.nodup q).length_le_card
  unfold waiters
  rw [(h.ring q).walk_eq hlen, filterMap_map]
  exact filterMap_some

end

end Queued

/-! ## Waking -/

namespace Sys

/-- The entries of a queue that are not flipped, the longest waiting first. -/
def sleepers (s : Sys) (q : QueueId) : List EntryId :=
  (s.waits.waiters q).filter fun i => !(s.waits.pool i).woken

/-- `s'` is `s` with the entries `l` of the queue `q` flipped and their tasks READY. -/
structure Woken (s s' : Sys) (q : QueueId) (l : List EntryId) : Prop where
  ctx : s'.ctx = s.ctx
  ticks : s'.ticks = s.ticks
  links : s'.waits.links = s.waits.links
  used : s'.waits.used = s.waits.used
  task : ∀ i, (s'.waits.pool i).task = (s.waits.pool i).task
  woken : ∀ i, (s'.waits.pool i).woken = true ↔ (s.waits.pool i).woken = true ∨ i ∈ l
  nrWaiting : ∀ p, (s'.waits.queues p).nrWaiting = (s.waits.queues p).nrWaiting
  /-- The scheduler is the same but for the tasks. -/
  sched : { s'.sched with tasks := s.sched.tasks } = s.sched
  ready : ∀ i ∈ l, ∀ t ∈ (s.waits.pool i).task,
    s'.sched.tasks t = { s.sched.tasks t with state := .ready }
  others : ∀ t, (∀ i ∈ l, (s.waits.pool i).task ≠ some t) → s'.sched.tasks t = s.sched.tasks t

namespace Woken

variable {s s' s'' : Sys} {l : List EntryId}

lemma nil (s : Sys) (q : QueueId) : Woken s s q [] :=
  ⟨rfl, rfl, rfl, rfl, fun _ => rfl, fun i => by simp, fun _ => rfl, rfl,
    fun i hi => absurd hi not_mem_nil, fun _ _ => rfl⟩

lemma wakeEntry (s : Sys) (q : QueueId) (i : EntryId) : Woken s (s.wakeEntry q i) q [i] := by
  set w := (s.waits.setEntry i { s.waits.pool i with woken := true }).setQueue q
    fun k => { k with wakeups := k.wakeups + 1 } with hw
  have htask : ∀ j, (w.pool j).task = (s.waits.pool j).task := by
    intro j
    rcases eq_or_ne j i with rfl | hne
    · simp [hw, setQueue, setEntry]
    · simp [hw, setQueue, setEntry, hne]
  have hwoken : ∀ j, (w.pool j).woken = true ↔ (s.waits.pool j).woken = true ∨ j ∈ [i] := by
    intro j
    rcases eq_or_ne j i with rfl | hne
    · simp [hw, setQueue, setEntry]
    · simp [hw, setQueue, setEntry, hne]
  have hnr : ∀ p, (w.queues p).nrWaiting = (s.waits.queues p).nrWaiting := by
    intro p
    rcases eq_or_ne p q with rfl | hne
    · simp [hw, setQueue, setEntry]
    · simp [hw, setQueue, setEntry, hne]
  have heq : s.wakeEntry q i = { s with waits := w }.setEntryState i .ready := rfl
  rw [heq, setEntryState]
  rw [htask]
  cases hown : (s.waits.pool i).task with
  | none =>
    refine ⟨rfl, rfl, rfl, rfl, htask, hwoken, hnr, rfl, fun j hj t ht => ?_, fun _ _ => rfl⟩
    rw [mem_singleton.1 hj, hown] at ht
    cases ht
  | some t =>
    refine ⟨rfl, rfl, rfl, rfl, htask, hwoken, hnr, rfl, fun j hj u hu => ?_, fun u hu => ?_⟩
    · rw [mem_singleton.1 hj, hown] at hu
      obtain rfl := Option.some.inj hu
      simp
    · have hne : u ≠ t := by
        rintro rfl
        exact hu i (mem_singleton_self i) hown
      simp [hne]

lemma tasks_cases (h : Woken s s' q l) (t : TaskId) :
    s'.sched.tasks t = s.sched.tasks t ∨
      (∃ i ∈ l, (s.waits.pool i).task = some t) ∧
        s'.sched.tasks t = { s.sched.tasks t with state := .ready } := by
  by_cases hex : ∃ i ∈ l, (s.waits.pool i).task = some t
  · obtain ⟨i, hi, htask⟩ := hex
    exact .inr ⟨⟨i, hi, htask⟩, h.ready i hi t htask⟩
  · exact .inl (h.others t fun i hi htask => hex ⟨i, hi, htask⟩)

lemma trans {l' : List EntryId} (h : Woken s s' q l) (h' : Woken s' s'' q l') :
    Woken s s'' q (l ++ l') where
  ctx := h'.ctx.trans h.ctx
  ticks := h'.ticks.trans h.ticks
  links := h'.links.trans h.links
  used := h'.used.trans h.used
  task := fun i => (h'.task i).trans (h.task i)
  woken := fun i => by rw [h'.woken, h.woken, mem_append, or_assoc]
  nrWaiting := fun p => (h'.nrWaiting p).trans (h.nrWaiting p)
  sched := by
    rw [← h.sched, ← h'.sched]
  ready := by
    intro i hi t ht
    rcases mem_append.1 hi with hi | hi
    · rcases h'.tasks_cases t with heq | ⟨-, heq⟩ <;> rw [heq, h.ready i hi t ht]
    · rw [h'.ready i hi t ((h.task i).trans ht)]
      rcases h.tasks_cases t with heq | ⟨-, heq⟩ <;> rw [heq]
  others := by
    intro t ht
    rw [h'.others t fun i hi htask => ht i (mem_append_right _ hi) ((h.task i).symm.trans htask)]
    exact h.others t fun i hi => ht i (mem_append_left _ hi)

lemma sameRotation (h : Woken s s' q l) : s.sched.SameRotation s'.sched := by
  refine ⟨fun t => ?_, by rw [← h.sched]⟩
  rcases h.tasks_cases t with heq | ⟨-, heq⟩ <;> rw [heq]

end Woken

/-- The first of the entries `l` that the loop of `wake_up_nr` may still flip when it has flipped
`n`: all, if it has no limit. -/
def chosen (max n : ℕ) (l : List EntryId) : List EntryId := if max = 0 then l else l.take (max - n)

lemma chosen_cons {max n : ℕ} (h : ¬ (0 < max ∧ max ≤ n)) (i : EntryId) (l : List EntryId) :
    chosen max n (i :: l) = i :: chosen max (n + 1) l := by
  unfold chosen
  split
  · rfl
  · rw [show max - n = max - (n + 1) + 1 by omega, take_succ_cons]

lemma wakeLoop_spec (q : QueueId) (max : ℕ) {l : List EntryId} (hl : l.Nodup) (n : ℕ) (s : Sys) :
    Woken s (wakeLoop q max l n s).1 q (chosen max n (l.filter fun i => !(s.waits.pool i).woken)) ∧
      (wakeLoop q max l n s).2 =
        n + (chosen max n (l.filter fun i => !(s.waits.pool i).woken)).length := by
  induction l generalizing n s with
  | nil =>
    have hnil : chosen max n [] = [] := by simp [chosen]
    rw [filter_nil, hnil]
    exact ⟨.nil s q, rfl⟩
  | cons i rest ih =>
    obtain ⟨hi, hrest⟩ := nodup_cons.1 hl
    unfold wakeLoop
    split_ifs with hmax hwoken
    · have hnil : ∀ l, chosen max n l = [] := by
        intro l
        rw [chosen, if_neg (by omega), show max - n = 0 by omega, take_zero]
      rw [hnil]
      exact ⟨.nil s q, rfl⟩
    · rw [filter_cons_of_neg (by simp [hwoken])]
      exact ih hrest n s
    · rw [filter_cons_of_pos (by simp [hwoken]), chosen_cons hmax]
      have hone := Woken.wakeEntry s q i
      -- the other entries are flipped as before
      have hfilter : rest.filter (fun j => !((s.wakeEntry q i).waits.pool j).woken) =
          rest.filter fun j => !(s.waits.pool j).woken := by
        refine filter_congr fun j hj => ?_
        have hne : j ≠ i := fun e => hi (e ▸ hj)
        rw [Bool.not_inj_iff, Bool.eq_iff_iff, hone.woken]
        simp [hne]
      obtain ⟨hmore, hcount⟩ := ih hrest (n + 1) (s.wakeEntry q i)
      rw [hfilter] at hmore hcount
      refine ⟨hone.trans hmore, ?_⟩
      rw [hcount, length_cons]
      omega

variable {s : Sys}

/-- **What `wake_up` does**: it flips the sleeper that has waited longest. -/
theorem wakeUp_spec (hl : (s.waits.waiters q).Nodup) :
    Woken s (s.wakeUp q).1 q ((s.sleepers q).take 1) ∧
      (s.wakeUp q).2 = ((s.sleepers q).take 1).length := by
  have hspec := wakeLoop_spec q 1 hl 0 s
  rw [Nat.zero_add] at hspec
  exact hspec

/-- **What `wake_up_all` does**: it flips all sleepers. -/
theorem wakeUpAll_spec (hl : (s.waits.waiters q).Nodup) :
    Woken s (s.wakeUpAll q).1 q (s.sleepers q) ∧ (s.wakeUpAll q).2 = (s.sleepers q).length := by
  have hspec := wakeLoop_spec q 0 hl 0 s
  rw [Nat.zero_add] at hspec
  exact hspec

end Sys

end SubOS.Kernel
