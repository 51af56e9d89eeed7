import SubOS.Kernel.Sched
import SubOS.Lib.EventRun

set_option autoImplicit false

/-!
# The sleeping mutex

`fmutex_trylock`, `fmutex_lock` and `fmutex_unlock` of `kernel/futex.c` on one mutex. Its word is 0
when it is free, 1 when it is locked, and 2 when it is locked and a task may be waiting.

## Main definitions

* `Fmutex.stmt`, `Fmutex.step` — a statement of a task, and a step of the system.

## Main results

* `Fmutex.exclusive_run` — at most one task holds the mutex, which is not free then.

## Design

Any task may take the next step, so that every interleaving is a run. A task in `futex_wait` may
return from it at any time; whether it slept, timed out or did not wait at all is left open.
`holds` records who holds the mutex: a task from the exchange that found the word 0 until its
own exchange in `fmutex_unlock`. It is never read by the functions.
-/

namespace SubOS.Kernel

open Function EventRun

/-- The next statement of a task. -/
inductive FmutexPc where
  /-- Outside these functions. -/
  | outside
  /-- `fmutex_trylock` is about to compare and exchange. -/
  | trylock
  /-- The same in `fmutex_lock`. -/
  | lock
  /-- About to exchange, in the loop of `fmutex_lock`. -/
  | exchange
  /-- In `futex_wait`. -/
  | wait
  /-- `fmutex_unlock` is about to exchange. -/
  | unlock
  /-- About to call `futex_wake`. -/
  | wake
  deriving DecidableEq, Repr

/-- One mutex, and the tasks that use it. -/
structure Fmutex where
  /-- `fmutex_t.state`. -/
  state : UInt32
  pc : TaskId → FmutexPc
  /-- The result of the last `fmutex_trylock`. -/
  result : TaskId → Bool
  holds : TaskId → Bool

namespace Fmutex

/-- Set the next statement of a task. -/
def goto (m : Fmutex) (t : TaskId) (pc : FmutexPc) : Fmutex :=
  { m with pc := update m.pc t pc }

/-- A task takes the mutex by writing `word`. -/
def acquire (m : Fmutex) (t : TaskId) (word : UInt32) : Fmutex :=
  { m with state := word, holds := update m.holds t true }

/-- A task returns from `fmutex_trylock`. -/
def ret (m : Fmutex) (t : TaskId) (r : Bool) : Fmutex :=
  { m.goto t .outside with result := update m.result t r }

/-- The next statement of a task. -/
def stmt (m : Fmutex) (t : TaskId) : FmutexPc → Fmutex
  | .outside => m
  | .trylock => if m.state = 0 then (m.acquire t 1).ret t true else m.ret t false
  | .lock => if m.state = 0 then (m.acquire t 1).goto t .outside else m.goto t .exchange
  | .exchange =>
    if m.state = 0 then (m.acquire t 2).goto t .outside
    else { m with state := 2 }.goto t .wait
  | .wait => m.goto t .exchange
  | .unlock =>
    { m with state := 0, holds := update m.holds t false }.goto t
      (if m.state = 2 then .wake else .outside)
  | .wake => m.goto t .outside

inductive Event where
  /-- A task calls one of the functions. -/
  | trylock (t : TaskId)
  | lock (t : TaskId)
  | unlock (t : TaskId)
  /-- A task executes its next statement. -/
  | run (t : TaskId)
  deriving DecidableEq, Repr

/-- A task that is outside the functions calls one. -/
def call (m : Fmutex) (t : TaskId) (pc : FmutexPc) : Fmutex :=
  if m.pc t = .outside then m.goto t pc else m

def step (m : Fmutex) : Event → Fmutex
  | .trylock t => m.call t .trylock
  | .lock t => m.call t .lock
  | .unlock t => m.call t .unlock
  | .run t => m.stmt t (m.pc t)

/-- `fmutex_init`. -/
def init : Fmutex := ⟨0, fun _ => .outside, fun _ => false, fun _ => false⟩

/-- The mutex is unlocked only by a task that holds it. -/
def UnlocksOwn (m : Fmutex) : Event → Prop
  | .unlock t => m.holds t = true
  | _ => True

instance (m : Fmutex) : DecidablePred m.UnlocksOwn := by
  rintro ⟨⟩ <;> dsimp only [UnlocksOwn] <;> infer_instance

/-! ## The invariant -/

/-- The word is 0 when no task holds the mutex, and otherwise exactly one does; a task that is about
to unlock the mutex holds it. -/
structure Inv (m : Fmutex) : Prop where
  free : m.state = 0 → ∀ t, m.holds t = false
  held : m.state ≠ 0 → ∃ t, m.holds t = true
  unique : ∀ t u, m.holds t = true → m.holds u = true → t = u
  unlock : ∀ t, m.pc t = .unlock → m.holds t = true

variable {m : Fmutex} {t : TaskId}

section

variable (h : m.Inv) {pc : FmutexPc}
include h

lemma Inv.goto (hpc : pc = .unlock → m.holds t = true) : (m.goto t pc).Inv := by
  refine ⟨h.free, h.held, h.unique, fun u hu => ?_⟩
  rcases eq_or_ne u t with rfl | hne
  · exact hpc (by simpa [Fmutex.goto] using hu)
  · exact h.unlock u (by simpa [Fmutex.goto, hne] using hu)

lemma Inv.ret (r : Bool) : (m.ret t r).Inv := by
  have hgo : (m.goto t .outside).Inv := h.goto (fun hc => by cases hc)
  exact ⟨hgo.free, hgo.held, hgo.unique, hgo.unlock⟩

lemma Inv.acquire (hfree : m.state = 0) {word : UInt32} (hword : word ≠ 0) :
    (m.acquire t word).Inv := by
  have hnone := h.free hfree
  have hholds : ∀ u, (m.acquire t word).holds u = true ↔ u = t := by
    intro u
    rcases eq_or_ne u t with rfl | hne
    · simp [Fmutex.acquire]
    · simp [Fmutex.acquire, hne, hnone u]
  refine ⟨fun hc => absurd hc hword, fun _ => ⟨t, (hholds t).2 rfl⟩, fun u v hu hv => ?_,
    fun u hu => ?_⟩
  · exact ((hholds u).1 hu).trans ((hholds v).1 hv).symm
  · -- nobody unlocks a free mutex
    have hold := h.unlock u hu
    rw [hnone u] at hold
    cases hold

lemma Inv.contend (hlocked : m.state ≠ 0) : Inv { m with state := 2 } :=
  ⟨fun hc => absurd hc (show 2 ≠ 0 by decide), fun _ => h.held hlocked, h.unique, h.unlock⟩

lemma Inv.release (hholds : m.holds t = true) (hpc : pc ≠ .unlock) :
    ({ m with state := 0, holds := update m.holds t false }.goto t pc).Inv := by
  have hnone : ∀ u, update m.holds t false u = false := by
    intro u
    rcases eq_or_ne u t with rfl | hne
    · rw [update_self]
    · rw [update_of_ne hne]
      by_contra hu
      exact hne (h.unique u t (by simpa using hu) hholds)
  refine ⟨fun _ => hnone, absurd rfl, fun u v hu => ?_, fun u hu => ?_⟩
  · exact absurd hu (by rw [show Fmutex.holds _ u = false from hnone u]; decide)
  · rcases eq_or_ne u t with rfl | hne
    · exact absurd (by simpa [Fmutex.goto] using hu) hpc
    · have hu' : m.pc u = .unlock := by simpa [Fmutex.goto, hne] using hu
      exact absurd (h.unique u t (h.unlock u hu') hholds) hne

/-- **A statement keeps the invariant.** -/
theorem Inv.stmt (hpc : m.pc t = pc) : (m.stmt t pc).Inv := by
  have hother : ∀ {m' : Fmutex} {pc' : FmutexPc}, m'.Inv → pc' ≠ .unlock → (m'.goto t pc').Inv :=
    fun h' hne => h'.goto fun hc => absurd hc hne
  cases pc with
  | outside => exact h
  | trylock =>
    simp only [Fmutex.stmt]
    split
    · next hfree => exact (h.acquire hfree (by decide)).ret true
    · exact h.ret false
  | lock =>
    simp only [Fmutex.stmt]
    split
    · next hfree => exact hother (h.acquire hfree (by decide)) (by decide)
    · exact hother h (by decide)
  | exchange =>
    simp only [Fmutex.stmt]
    split
    · next hfree => exact hother (h.acquire hfree (by decide)) (by decide)
    · next hlocked => exact hother (h.contend hlocked) (by decide)
  | wait | wake => exact hother h (by decide)
  | unlock =>
    refine h.release (h.unlock t hpc) ?_
    split <;> decide

/-- **A step keeps the invariant**, if the mutex is unlocked only by its holder. -/
theorem Inv.step (e : Event) (hown : m.UnlocksOwn e) : (m.step e).Inv := by
  have hcall : ∀ {t : TaskId} {pc : FmutexPc}, (pc = .unlock → m.holds t = true) →
      (m.call t pc).Inv := by
    intro t pc hpc
    unfold Fmutex.call
    split
    · exact h.goto hpc
    · exact h
  cases e with
  | trylock t | lock t => exact hcall (fun hc => by cases hc)
  | unlock t => exact hcall fun _ => hown
  | run t => exact h.stmt rfl

end

lemma inv_init : init.Inv :=
  ⟨fun _ _ => rfl, absurd rfl, fun _ _ hu => (by cases hu), fun _ hu => (by cases hu)⟩

/-- **Mutual exclusion.** Whatever the tasks do and in whatever order, as long as each unlocks the
mutex only while it holds it, at most one task holds the mutex, and its word is 0 exactly when no
task does. -/
theorem exclusive_run (es : List Event) (h : Along step UnlocksOwn init es) :
    (∀ t u, (run step init es).holds t = true →
      (run step init es).holds u = true → t = u) ∧
      ((run step init es).state = 0 ↔
        ∀ t, (run step init es).holds t = false) := by
  have hstep : ∀ (m : Fmutex) (e : Event), m.Inv → m.UnlocksOwn e → (m.step e).Inv :=
    fun _ e hm => hm.step e
  have hrun := run_invariant_of_along hstep inv_init h
  refine ⟨hrun.unique, hrun.free, fun hnone => ?_⟩
  by_contra hlocked
  obtain ⟨t, ht⟩ := hrun.held hlocked
  rw [hnone t] at ht
  cases ht

/-- Task 1 locks the mutex, task 2 waits for it, and task 1 unlocks it. -/
theorem exclusive_run_contended :
    ∃ m, m = run step init [.lock 1, .run 1, .lock 2, .run 2, .run 2, .unlock 1, .run 2,
        .run 2, .run 1] ∧
      m.pc 1 = .wake ∧ (∀ t u, m.holds t = true → m.holds u = true → t = u) ∧
      (m.state = 0 ↔ ∀ t, m.holds t = false) :=
  ⟨_, rfl, by decide, exclusive_run _ (by decide)⟩

end Fmutex

end SubOS.Kernel
